import Topomalloc.Fork.Gate
import Topomalloc.Lib.Census

/-! Fork quiescence. What every thread contributes to a shard's word depends on
its own position, so the words are totals over the threads; a shard whose count
has been read as zero under a raised fork bit admits nobody until the bit is
lowered again. -/
namespace Topomalloc.Fork
open Function Census

/-! ## A thread's part -/

namespace Pc

/-- Levels of depth the position itself stands for. -/
def levels : Pc → Nat
  | .entering | .backOut _ | .park _ | .maintEntering | .maintBackOut _ | .maintUnwind
  | .clearing _ => 1
  | _ => 0

def admitted (i : Nat) (pc : Pc) : Nat := if pc = .releasing i then 1 else 0

/-- Increments of the shard that are still to be backed out. -/
def transient (i : Nat) (pc : Pc) : Nat := if pc = .backOut i ∨ pc = .maintBackOut i then 1 else 0

def forking : Pc → Nat
  | .setting _ | .draining _ _ | .clearing _ | .unlocking => 1
  | _ => 0

def raises (i : Nat) : Pc → Nat
  | .setting k => if i < k then 1 else 0
  | .draining _ _ => 1
  | .clearing k => if k ≤ i then 1 else 0
  | _ => 0

def quiet (i : Nat) : Pc → Nat
  | .draining k sum => if sum = 0 ∧ i < k then 1 else 0
  | .clearing k => if k ≤ i then 1 else 0
  | _ => 0

/-- Positions that stand for no change of a shard or of the fork lock. -/
def plain : Pc → Bool
  | .idle | .entering | .park _ | .checkBackground | .maintEntering | .maintUnwind | .lock
  | .lockSpin => true
  | _ => false

theorem plain_values {pc : Pc} (plain : pc.plain = true) : pc.admitted i = 0 ∧
    pc.transient i = 0 ∧ pc.forking = 0 ∧ pc.raises i = 0 ∧ pc.quiet i = 0 := by
  cases pc <;> first | contradiction | exact ⟨rfl, rfl, rfl, rfl, rfl⟩

/-- A scan of at most `numShards` counts of at most `bound` each. -/
def Scanned (bound : Nat) : Pc → Prop
  | .draining k sum => k ≤ numShards ∧ sum ≤ k * bound
  | _ => True

theorem of_forking {pc : Pc} (outside : pc.forking = 0) :
    pc.raises i = 0 ∧ pc.quiet i = 0 ∧ pc.Scanned n := by
  cases pc <;> first | contradiction | exact ⟨rfl, rfl, trivial⟩

end Pc

namespace Thread

/-- The outermost thing the thread is inside of. -/
def base (θ : Thread) : Option Frame := θ.frames.getLast?

def inWindow (θ : Thread) : Nat := if θ.base = some .window then 1 else 0

/-- First-level guards admitted through the shard and still counted there. -/
def admitted (i : Nat) (θ : Thread) : Nat := (if θ.base = some (.first i) then 1 else 0) + θ.pc.admitted i

def transient (i : Nat) (θ : Thread) : Nat := θ.pc.transient i

/-- Whether the thread holds the fork lock. -/
def forking (θ : Thread) : Nat := θ.inWindow + θ.pc.forking

/-- Whether the thread has set the shard's fork bit and not cleared it. -/
def raises (i : Nat) (θ : Thread) : Nat := θ.inWindow + θ.pc.raises i

/-- Whether the thread has seen the shard's count at zero since it set the bit. -/
def quiet (i : Nat) (θ : Thread) : Nat := θ.inWindow + θ.pc.quiet i

/-- Nested guards stand on a first-level guard or on the fork window. -/
def Stacked : List Frame → Prop
  | [] => True
  | [frame] => frame ≠ .nested
  | frame :: rest => frame = .nested ∧ Stacked rest

/-- Only a thread that is inside of nothing is in the middle of the gate's code. -/
structure Shape (bound : Nat) (θ : Thread) : Prop where
  depth : θ.depth = θ.frames.length + θ.pc.levels
  stacked : Stacked θ.frames
  outside : θ.pc = .idle ∨ θ.pc = .checkBackground ∨ θ.frames = []
  inside : ∀ i, θ.admitted i + θ.transient i ≠ 0 → i < numShards
  scanned : θ.pc.Scanned bound

variable {θ : Thread} {bound i : Nat} {frame : Frame} {rest : List Frame}

theorem Stacked.push (stacked : Stacked rest) (some : rest ≠ []) : Stacked (.nested :: rest) := by
  cases rest with
  | nil => contradiction
  | cons frame rest => exact ⟨rfl, stacked⟩

theorem Stacked.pop (stacked : Stacked (.nested :: rest)) : rest ≠ [] ∧ Stacked rest := by
  cases rest with
  | nil => exact absurd rfl stacked
  | cons frame rest => exact ⟨List.cons_ne_nil _ _, stacked.2⟩

theorem Stacked.alone (stacked : Stacked (frame :: rest)) (other : frame ≠ .nested) : rest = [] := by
  cases rest with
  | nil => rfl
  | cons _ _ => exact absurd stacked.1 other

theorem Stacked.base (stacked : Stacked rest) (some : rest ≠ []) :
    ∃ frame, rest.getLast? = Option.some frame ∧ frame ≠ .nested := by
  induction rest with
  | nil => contradiction
  | cons frame rest ih =>
    cases rest with
    | nil => exact ⟨frame, rfl, stacked⟩
    | cons next rest =>
      rw [List.getLast?_cons_cons]
      exact ih stacked.2 (List.cons_ne_nil _ _)

/-- A nested guard leaves the outermost frame as it is. -/
theorem getLast?_nested (some : rest ≠ []) : (Frame.nested :: rest).getLast? = rest.getLast? := by
  rw [List.getLast?_cons, List.getLast?_eq_getLast_of_ne_nil some]
  rfl

theorem Shape.counts_le (shape : θ.Shape bound) : θ.admitted i + θ.transient i ≤ 1 := by
  have pc : θ.pc.admitted i + θ.pc.transient i ≤ 1 := by
    unfold Pc.admitted Pc.transient
    cases θ.pc <;> simp <;> split <;> omega
  unfold admitted transient
  rcases shape.outside with at_pc | at_pc | none
  · simp [at_pc, Pc.admitted, Pc.transient]
    split <;> omega
  · simp [at_pc, Pc.admitted, Pc.transient]
    split <;> omega
  · simpa [base, none] using pc

theorem Shape.first_lt (shape : θ.Shape bound) (first : θ.base = some (.first i)) : i < numShards := by
  apply shape.inside i
  rw [admitted, if_pos first]
  omega

theorem Shape.of_outside (none : θ.frames = []) (depth : θ.depth = θ.pc.levels)
    (inside : ∀ i, θ.pc.admitted i + θ.pc.transient i ≠ 0 → i < numShards)
    (scanned : θ.pc.Scanned bound) : θ.Shape bound := by
  refine ⟨?_, ?_, Or.inr (Or.inr none), ?_, scanned⟩
  · rw [none, depth, List.length_nil, Nat.zero_add]
  · rw [none]
    trivial
  · intro i counted
    apply inside i
    simpa [admitted, transient, base, none] using counted

/-- Positions of a thread that the gate's code is done with. -/
def Resting (θ : Thread) : Prop := θ.pc = .idle ∨ θ.pc = .checkBackground

theorem Resting.plain (resting : θ.Resting) : θ.pc.plain = true := by
  rcases resting with at_pc | at_pc <;> rw [at_pc] <;> rfl

theorem Resting.levels (resting : θ.Resting) : θ.pc.levels = 0 := by
  rcases resting with at_pc | at_pc <;> rw [at_pc] <;> rfl

theorem Shape.of_resting (resting : θ.Resting) (depth : θ.depth = θ.frames.length)
    (stacked : Stacked θ.frames) (inside : ∀ i, θ.base = some (.first i) → i < numShards) :
    θ.Shape bound := by
  refine ⟨?_, stacked, ?_, ?_, ?_⟩
  · rw [depth, resting.levels]
    rfl
  · rcases resting with at_pc | at_pc
    · exact Or.inl at_pc
    · exact Or.inr (Or.inl at_pc)
  · intro i counted
    apply inside i
    by_contra other
    obtain ⟨noneAdmitted, noneTransient, -⟩ := Pc.plain_values (i := i) resting.plain
    rw [admitted, transient, if_neg other, noneAdmitted, noneTransient] at counted
    exact counted rfl
  · rcases resting with at_pc | at_pc <;> rw [at_pc] <;> trivial

theorem Shape.of_not_resting (shape : θ.Shape bound) (busy : ¬ θ.Resting) :
    θ.frames = [] ∧ θ.depth = θ.pc.levels := by
  have none : θ.frames = [] := by
    rcases shape.outside with at_pc | at_pc | none
    · exact absurd (Or.inl at_pc) busy
    · exact absurd (Or.inr at_pc) busy
    · exact none
  refine ⟨none, ?_⟩
  rw [shape.depth, none]
  exact Nat.zero_add _

theorem Shape.of_code (shape : θ.Shape bound) (at_pc : θ.pc = here)
    (code : here ≠ .idle ∧ here ≠ .checkBackground) : θ.frames = [] ∧ θ.depth = here.levels := by
  subst at_pc
  exact shape.of_not_resting (not_or.mpr code)

theorem base_of_none (none : θ.frames = []) : θ.base = .none := by
  rw [base, none]
  rfl

theorem Shape.depth_of_resting (shape : θ.Shape bound) (resting : θ.Resting) : θ.depth = θ.frames.length := by
  rw [shape.depth, resting.levels]
  rfl

theorem raises_le (θ : Thread) (i : Nat) : θ.raises i ≤ θ.forking := by
  unfold raises forking Pc.raises Pc.forking
  cases θ.pc <;> dsimp only <;> first | omega | (split <;> omega)

theorem quiet_le (θ : Thread) (i : Nat) : θ.quiet i ≤ θ.raises i := by
  unfold quiet raises Pc.quiet Pc.raises
  cases θ.pc <;> dsimp only <;> first | omega | (split <;> omega)

end Thread

/-! ## Words -/

section Words
variable {c b : Nat}

theorem and_countMask (small : c < forkPending) : (c + forkPending * b) &&& countMask = c := by
  unfold countMask forkPending at *
  rw [Nat.and_two_pow_sub_one_eq_mod, Nat.add_mul_mod_self_left, Nat.mod_eq_of_lt small]

theorem isPending_iff (small : c < forkPending) (bit : b ≤ 1) :
    isPending (c + forkPending * b) = true ↔ b = 1 := by
  unfold isPending forkPending at *
  rw [bne_iff_ne]
  rcases Nat.le_one_iff_eq_zero_or_eq_one.mp bit with rfl | rfl
  · have clear : c &&& 2 ^ 63 = 0 := by
      apply Nat.eq_of_testBit_eq
      intro j
      rw [Nat.testBit_and, Nat.testBit_two_pow, Nat.zero_testBit]
      by_cases top : 63 = j
      · rw [← top, Nat.testBit_lt_two_pow small, Bool.false_and]
      · simp [top]
    rw [Nat.mul_zero, Nat.add_zero, clear]
    simp
  · have top : ((2 ^ 63 + c) &&& 2 ^ 63).testBit 63 = true := by
      rw [Nat.testBit_and, Nat.testBit_two_pow_self, Nat.testBit_two_pow_add_eq, Nat.testBit_lt_two_pow small]
      rfl
    rw [Nat.mul_one, Nat.add_comm]
    simp only [iff_true]
    intro zero
    rw [zero, Nat.zero_testBit] at top
    contradiction

theorem or_forkPending (small : c < forkPending) (bit : b ≤ 1) :
    (c + forkPending * b) ||| forkPending = c + forkPending := by
  unfold forkPending at *
  have joined : c + 2 ^ 63 = 2 ^ 63 ||| c := by
    rw [Nat.add_comm]
    simpa using Nat.two_pow_add_eq_or_of_lt small 1
  rcases Nat.le_one_iff_eq_zero_or_eq_one.mp bit with rfl | rfl
  · rw [Nat.mul_zero, Nat.add_zero, joined, Nat.or_comm]
  · rw [Nat.mul_one, joined, Nat.or_comm, ← Nat.or_assoc, Nat.or_self]

end Words

/-! ## All threads -/

section Gate
variable {τ : Type} [Fintype τ] {w w' : World τ} {t : τ} {θ θ' : Thread} {i : Nat}

/-- The fork lock and the shards are what the threads' positions add up to. -/
structure Gate (w : World τ) : Prop where
  shape : ∀ t, (w.threads t).Shape (Fintype.card τ)
  lock : w.locked.toNat = total Thread.forking w.threads
  word : ∀ i < numShards, w.shards i =
    (total (Thread.admitted i) w.threads + total (Thread.transient i) w.threads) +
      forkPending * total (Thread.raises i) w.threads
  quiet : ∀ i < numShards, total (Thread.quiet i) w.threads = 0 ∨ total (Thread.admitted i) w.threads = 0

namespace Gate

theorem init : Gate (World.init : World τ) := by
  have nothing : ∀ f : Thread → Nat, f Thread.new = 0 →
      total f (World.init : World τ).threads = 0 := fun f zero => total_eq_zero.mpr fun _ => zero
  constructor
  · intro t
    exact Thread.Shape.of_outside rfl rfl (fun i counted => absurd rfl counted) trivial
  · rw [nothing Thread.forking rfl]
    rfl
  · intro i inside
    rw [nothing (Thread.admitted i) rfl, nothing (Thread.transient i) rfl, nothing (Thread.raises i) rfl]
    rfl
  · intro i inside
    exact Or.inl (nothing (Thread.quiet i) rfl)

theorem raised_le (h : Gate w) : total (Thread.raises i) w.threads ≤ 1 := by
  have forkers : total Thread.forking w.threads ≤ 1 := by
    rw [← h.lock]
    exact Bool.toNat_le _
  exact (total_mono fun t => Thread.raises_le _ i).trans forkers

/-- Only the holder of the fork lock raises bits. -/
theorem sole (h : Gate w) (holds : (w.threads t).forking = 1) :
    total (Thread.raises i) w.threads = (w.threads t).raises i := by
  apply total_eq_of_alone
  intro u other
  have idle : (w.threads u).forking = 0 :=
    eq_zero_of_alone (by rw [← h.lock]; exact Bool.toNat_le _) holds other
  have le := Thread.raises_le (w.threads u) i
  omega

theorem counted_le (h : Gate w) :
    total (Thread.admitted i) w.threads + total (Thread.transient i) w.threads ≤ Fintype.card τ := by
  rw [← total_add]
  exact total_le_card fun t => (h.shape t).counts_le

theorem counted_lt (h : Gate w) (few : Fintype.card τ < 2 ^ 58) :
    total (Thread.admitted i) w.threads + total (Thread.transient i) w.threads < 2 ^ 58 :=
  Nat.lt_of_le_of_lt h.counted_le few

/-- What `fetch_add` on a shard reads and leaves. -/
theorem read (h : Gate w) (few : Fintype.card τ < 2 ^ 58) (inside : i < numShards) :
    (isPending (w.shards i) = true ↔ total (Thread.raises i) w.threads = 1) ∧ (w.shards i &&& countMask) =
        total (Thread.admitted i) w.threads + total (Thread.transient i) w.threads ∧
      wrappingAdd64 (w.shards i) 1 = w.shards i + 1 := by
  have small := h.counted_lt few (i := i)
  have bit := h.raised_le (i := i)
  rw [h.word i inside]
  refine ⟨isPending_iff ?_ bit, and_countMask ?_, Nat.mod_eq_of_lt ?_⟩
  all_goals
    unfold forkPending
    omega

variable [DecidableEq τ]

attribute [local simp] Thread.admitted Thread.transient Thread.raises Thread.quiet Thread.forking
  Thread.inWindow Pc.admitted Pc.transient Pc.raises Pc.quiet Pc.forking Pc.levels World.put

section
variable (h : Gate w) {k : Nat} {rest : List Frame}
include h

/-- What a step has to show of the thread that takes it. -/
theorem change (threads : w'.threads = update w.threads t θ') (shape : θ'.Shape (Fintype.card τ))
    (lock : w'.locked.toNat + (w.threads t).forking = w.locked.toNat + θ'.forking)
    (word : ∀ i < numShards, w'.shards i + ((w.threads t).admitted i + (w.threads t).transient i +
          forkPending * (w.threads t).raises i) =
        w.shards i + (θ'.admitted i + θ'.transient i + forkPending * θ'.raises i))
    (quiet : ∀ i < numShards,
      (θ'.quiet i ≤ (w.threads t).quiet i ∧ (θ'.admitted i ≤ (w.threads t).admitted i ∨
          total (Thread.quiet i) w.threads = 0)) ∨
        (θ'.admitted i ≤ (w.threads t).admitted i ∧ total (Thread.admitted i) w.threads = 0)) :
    Gate w' := by
  have totals : ∀ f : Thread → Nat, total f w'.threads + f (w.threads t) = total f w.threads + f θ' := by
    intro f
    rw [threads]
    exact total_update f w.threads t θ'
  constructor
  · intro u
    rw [threads]
    by_cases me : u = t
    · rw [me, update_self]
      exact shape
    · rw [update_of_ne me]
      exact h.shape u
  · have forkers := totals Thread.forking
    have before := h.lock
    omega
  · intro i inside
    have before := h.word i inside
    have now := word i inside
    have admitted := totals (Thread.admitted i)
    have transient := totals (Thread.transient i)
    have raised := totals (Thread.raises i)
    unfold forkPending at *
    omega
  · intro i inside
    have before := h.quiet i inside
    have now := quiet i inside
    have admitted := totals (Thread.admitted i)
    have quieted := totals (Thread.quiet i)
    omega

/-- A step of a thread that stays inside of what it is inside of. -/
theorem stay (resting : (w.threads t).Resting) (resting' : θ'.Resting)
    (base : θ'.base = (w.threads t).base) (depth : θ'.depth = θ'.frames.length)
    (stacked : Thread.Stacked θ'.frames) : Gate (w.put t θ') := by
  have window : θ'.inWindow = (w.threads t).inWindow := by rw [Thread.inWindow, base, Thread.inWindow]
  apply h.change rfl
  · apply Thread.Shape.of_resting resting' depth stacked
    intro i first
    exact (h.shape t).first_lt (base ▸ first)
  · rw [Thread.forking, Thread.forking, window, (Pc.plain_values (i := 0) resting.plain).2.2.1,
      (Pc.plain_values (i := 0) resting'.plain).2.2.1]
    rfl
  all_goals
    intro i inside
    obtain ⟨admitted, transient, -, raises, quiet⟩ := Pc.plain_values (i := i) resting.plain
    obtain ⟨admitted', transient', -, raises', quiet'⟩ := Pc.plain_values (i := i) resting'.plain
    simp only [Thread.admitted, Thread.transient, Thread.raises, Thread.quiet, base, window, admitted,
      transient, raises, quiet, admitted', transient', raises', quiet']
  · rfl
  · exact Or.inl ⟨Nat.le_refl _, Or.inl (Nat.le_refl _)⟩

/-- A step of a thread that is inside of nothing before and after. -/
theorem away (threads : w'.threads = update w.threads t θ')
    (none : (w.threads t).frames = []) (none' : θ'.frames = []) (depth : θ'.depth = θ'.pc.levels)
    (counted : ∀ i, θ'.pc.admitted i + θ'.pc.transient i ≠ 0 → i < numShards)
    (scanned : θ'.pc.Scanned (Fintype.card τ))
    (lock : w'.locked.toNat + (w.threads t).pc.forking = w.locked.toNat + θ'.pc.forking)
    (word : ∀ i < numShards, w'.shards i + ((w.threads t).pc.admitted i + (w.threads t).pc.transient i +
          forkPending * (w.threads t).pc.raises i) =
        w.shards i + (θ'.pc.admitted i + θ'.pc.transient i + forkPending * θ'.pc.raises i))
    (quiet : ∀ i < numShards, θ'.pc.admitted i ≤ (w.threads t).pc.admitted i ∧
      (θ'.pc.quiet i ≤ (w.threads t).pc.quiet i ∨ total (Thread.admitted i) w.threads = 0)) :
    Gate w' := by
  have base := Thread.base_of_none none
  have base' := Thread.base_of_none none'
  apply h.change threads (Thread.Shape.of_outside none' depth counted scanned)
  · simpa only [Thread.forking, Thread.inWindow, base, base', reduceCtorEq, if_false, Nat.zero_add]
      using lock
  · intro i inside
    simpa only [Thread.admitted, Thread.transient, Thread.raises, Thread.inWindow, base, base',
      reduceCtorEq, if_false, Nat.zero_add] using word i inside
  · intro i inside
    have now := quiet i inside
    simp only [Thread.admitted, Thread.quiet, Thread.inWindow, base, base', reduceCtorEq, if_false,
      Nat.zero_add] at now ⊢
    tauto

/-- Such a step between two positions that stand for counts alone. -/
theorem recount (threads : w'.threads = update w.threads t θ')
    (none : (w.threads t).frames = []) (none' : θ'.frames = []) (depth : θ'.depth = θ'.pc.levels)
    (outside : (w.threads t).pc.forking = 0 ∧ θ'.pc.forking = 0) (locked : w'.locked = w.locked)
    (counted : ∀ i, θ'.pc.admitted i + θ'.pc.transient i ≠ 0 → i < numShards)
    (word : ∀ i, w'.shards i + ((w.threads t).pc.admitted i + (w.threads t).pc.transient i) =
      w.shards i + (θ'.pc.admitted i + θ'.pc.transient i))
    (admits : ∀ i, θ'.pc.admitted i ≤ (w.threads t).pc.admitted i) : Gate w' := by
  apply h.away threads none none' depth counted (Pc.of_forking (i := 0) outside.2).2.2
  · rw [outside.1, outside.2, locked]
  all_goals
    intro i inside
    obtain ⟨raises, quiet, -⟩ := Pc.of_forking (i := i) (n := 0) outside.1
    obtain ⟨raises', quiet', -⟩ := Pc.of_forking (i := i) (n := 0) outside.2
  · rw [raises, raises']
    exact word i
  · exact ⟨admits i, Or.inl (by rw [quiet, quiet'])⟩

/-- Nothing but the position changes, and neither position stands for anything. -/
theorem drift (none : (w.threads t).frames = []) (none' : θ'.frames = [])
    (depth : θ'.depth = θ'.pc.levels) (plain : (w.threads t).pc.plain = true)
    (plain' : θ'.pc.plain = true) : Gate (w.put t θ') := by
  refine h.recount rfl none none' depth
    ⟨(Pc.plain_values (i := 0) plain).2.2.1, (Pc.plain_values (i := 0) plain').2.2.1⟩ rfl ?_ ?_ ?_
  all_goals
    intro i
    obtain ⟨admitted, transient, -⟩ := Pc.plain_values (i := i) plain
    obtain ⟨admitted', transient', -⟩ := Pc.plain_values (i := i) plain'
    simp only [admitted, transient, admitted', transient']
  · exact absurd rfl
  · rfl
  · exact Nat.le_refl _

/-- A guard is requested: nested, or on its way to a shard. -/
theorem nest (resting : (w.threads t).Resting) (room : (w.threads t).frames.length + 1 < 2 ^ 32)
    (next : first = .entering ∨ first = .maintEntering) :
    Gate (w.put t (if (w.threads t).depth ≠ 0 then ((w.threads t).enter.opened .nested).goto .idle
      else (w.threads t).enter.goto first)) := by
  have shape := h.shape t
  have depth := shape.depth_of_resting resting
  split
  next inside =>
    have some : (w.threads t).frames ≠ [] := by
      intro none
      rw [depth, none] at inside
      exact inside rfl
    refine h.stay resting (Or.inl rfl) ?_ ?_ (shape.stacked.push some)
    · exact Thread.getLast?_nested some
    · rw [Thread.goto_depth, Thread.opened_depth, Thread.enter_depth, depth]
      exact Nat.mod_eq_of_lt room
  next outside =>
    have zero : (w.threads t).depth = 0 := by simpa using outside
    have none : (w.threads t).frames = [] := by
      rw [depth] at zero
      exact List.length_eq_zero_iff.mp zero
    refine h.drift none none ?_ resting.plain ?_
    · rw [Thread.goto_depth, Thread.enter_depth, zero]
      rcases next with rfl | rfl <;> rfl
    · rcases next with rfl | rfl <;> rfl

/-- The `fetch_add` of a first-level entry: a raised bit turns it back, and
where the bit is down nobody has found the shard quiet. -/
theorem enterShard (few : Fintype.card τ < 2 ^ 58) (inside : i < numShards) {refused : Pc}
    (at_pc : (w.threads t).pc = .entering ∨ (w.threads t).pc = .maintEntering)
    (next : refused = .backOut i ∨ refused = .maintBackOut i) :
    Gate (admitOrRefuse w t (w.threads t) i refused) := by
  obtain ⟨pending, -, added⟩ := h.read few inside
  obtain ⟨none, one⟩ : (w.threads t).frames = [] ∧ (w.threads t).depth = 1 := by
    rcases at_pc with at_pc | at_pc <;> exact (h.shape t).of_code at_pc (by simp)
  have plain : (w.threads t).pc.plain = true := by rcases at_pc with at_pc | at_pc <;> rw [at_pc] <;> rfl
  have incremented : ∀ j, update w.shards i (wrappingAdd64 (w.shards i) 1) j =
      w.shards j + if j = i then 1 else 0 := by
    intro j
    by_cases same : j = i
    · rw [same, update_self, added, if_pos rfl]
    · rw [update_of_ne same, if_neg same]
      rfl
  unfold admitOrRefuse
  split
  next raised =>
    have values : ∀ j, refused.admitted j = 0 ∧ refused.transient j = if j = i then 1 else 0 := by
      intro j
      rcases next with rfl | rfl <;> simp [eq_comm]
    apply h.recount rfl none (show ((w.threads t).goto refused).frames = [] from none)
    · change (w.threads t).depth = refused.levels
      rw [one]
      rcases next with rfl | rfl <;> rfl
    · refine ⟨(Pc.plain_values (i := 0) plain).2.2.1, ?_⟩
      rcases next with rfl | rfl <;> rfl
    · rfl
    all_goals
      intro j
      obtain ⟨admitted, transient, -⟩ := Pc.plain_values (i := j) plain
      simp only [Thread.goto, admitted, transient, (values j).1, (values j).2]
    · intro counted
      by_cases same : j = i
      · exact same ▸ inside
      · simp [same] at counted
    · change update w.shards i _ j + _ = _
      rw [incremented]
      omega
    · exact Nat.le_refl _
  next clear =>
    have lowered : total (Thread.raises i) w.threads = 0 := by
      have bit := h.raised_le (i := i)
      have down : total (Thread.raises i) w.threads ≠ 1 := fun up => clear (pending.mpr up)
      omega
    have base := Thread.base_of_none none
    have base' : (((w.threads t).opened (.first i)).goto .idle).base = some (.first i) := by
      change (Frame.first i :: (w.threads t).frames).getLast? = _
      rw [none]
      rfl
    apply h.change rfl
    · apply Thread.Shape.of_resting (Or.inl rfl)
      · change (w.threads t).depth = (Frame.first i :: (w.threads t).frames).length
        rw [one, none]
        rfl
      · change Thread.Stacked (Frame.first i :: (w.threads t).frames)
        rw [none]
        exact Frame.noConfusion
      · intro j first
        rw [base', Option.some.injEq, Frame.first.injEq] at first
        exact first ▸ inside
    · rw [Thread.forking, Thread.forking, Thread.inWindow, Thread.inWindow, base, base',
        (Pc.plain_values (i := 0) plain).2.2.1]
      rfl
    all_goals
      intro j bound
      obtain ⟨admitted, transient, -, raises, quiet⟩ := Pc.plain_values (i := j) plain
      obtain ⟨admitted', transient', -, raises', quiet'⟩ :=
        Pc.plain_values (i := j) (show Pc.plain .idle = true from rfl)
      have values : (((w.threads t).opened (.first i)).goto .idle).pc = .idle := rfl
      simp only [Thread.admitted, Thread.transient, Thread.raises, Thread.quiet, Thread.inWindow, base, base',
        values, admitted, transient, raises, quiet, admitted', transient', raises', quiet',
        Option.some.injEq, Frame.first.injEq, reduceCtorEq, if_false]
    · change update w.shards i _ j + _ = _
      rw [incremented]
      simp only [eq_comm]
      omega
    · by_cases same : j = i
      · rw [same]
        refine Or.inl ⟨Nat.le_refl _, Or.inr ?_⟩
        exact Nat.eq_zero_of_le_zero (lowered ▸ total_mono fun u => Thread.quiet_le _ i)
      · rw [if_neg fun eq => same eq.symm]
        exact Or.inl ⟨Nat.le_refl _, Or.inl (Nat.le_refl _)⟩

/-- A count that the thread stands for is taken back. -/
theorem subtract (few : Fintype.card τ < 2 ^ 58) {next : Pc}
    (counts : ∀ j, (w.threads t).pc.admitted j + (w.threads t).pc.transient j = if j = i then 1 else 0)
    (outside : (w.threads t).pc.forking = 0)
    (busy : ¬ (w.threads t).Resting) (levels : (w.threads t).pc.levels = next.levels)
    (plain : next.plain = true) : Gate ((fetchSub w i).put t ((w.threads t).goto next)) := by
  obtain ⟨none, depth⟩ := (h.shape t).of_not_resting busy
  have inside : i < numShards := by
    apply (h.shape t).inside i
    have counted := counts i
    rw [if_pos rfl] at counted
    rw [Thread.admitted, Thread.transient]
    omega
  have positive : 1 ≤ w.shards i := by
    have counted := counts i
    have admitted := le_total (Thread.admitted i) w.threads t
    have transient := le_total (Thread.transient i) w.threads t
    rw [if_pos rfl] at counted
    rw [Thread.admitted] at admitted
    rw [Thread.transient] at transient
    rw [h.word i inside]
    omega
  have small : w.shards i < 2 ^ 64 := by
    have bit := h.raised_le (i := i)
    have counted := h.counted_lt few (i := i)
    rw [h.word i inside]
    unfold forkPending
    omega
  have decremented : ∀ j, update w.shards i (wrappingSub64 (w.shards i) 1) j + (if j = i then 1 else 0) =
      w.shards j := by
    intro j
    by_cases same : j = i
    · rw [same, update_self, if_pos rfl]
      unfold wrappingSub64
      omega
    · rw [update_of_ne same, if_neg same]
      rfl
  apply h.recount rfl none (show ((w.threads t).goto next).frames = [] from none)
  · exact depth.trans levels
  · exact ⟨outside, (Pc.plain_values (i := 0) plain).2.2.1⟩
  · rfl
  all_goals
    intro j
    obtain ⟨admitted, transient, -⟩ := Pc.plain_values (i := j) plain
    simp only [Thread.goto, admitted, transient, counts j]
  · exact absurd rfl
  · exact decremented j
  · exact Nat.zero_le _

/-- The drop of a first-level guard unwinds the depth first. -/
theorem dropFirst (idle : (w.threads t).pc = .idle) (top : (w.threads t).frames = .first i :: rest) :
    Gate (w.put t ((w.threads t).leave.closed.goto (.releasing i))) := by
  have shape := h.shape t
  have stacked := shape.stacked
  rw [top] at stacked
  obtain rfl := stacked.alone (by simp)
  have depth := shape.depth_of_resting (Or.inl idle)
  have base : (w.threads t).base = some (.first i) := by rw [Thread.base, top]; rfl
  have none : ((w.threads t).leave.closed.goto (.releasing i)).frames = [] := by simp [top]
  have base' := Thread.base_of_none none
  have position : ((w.threads t).leave.closed.goto (.releasing i)).pc = .releasing i := rfl
  apply h.change rfl
  · apply Thread.Shape.of_outside none
    · simp [depth, top, wrappingPred32]
    · intro j counted
      rw [position] at counted
      have same : i = j := by
        by_contra other
        simp [other] at counted
      exact same ▸ shape.first_lt base
    · trivial
  · simp [base, base', idle]
  all_goals
    intro j bound
    simp only [Thread.admitted, Thread.transient, Thread.raises, Thread.quiet, Thread.inWindow, base, base',
      position, idle, Pc.admitted, Pc.transient, Pc.raises, Pc.quiet, Option.some.injEq, Frame.first.injEq,
      Pc.releasing.injEq, reduceCtorEq, if_false, or_self]
  · simp
  · exact Or.inl ⟨Nat.le_refl _, Or.inl (by omega)⟩

theorem dropNested (idle : (w.threads t).pc = .idle)
    (top : (w.threads t).frames = .nested :: rest) : Gate (w.put t (w.threads t).leave.closed) := by
  have shape := h.shape t
  have depth := shape.depth_of_resting (Or.inl idle)
  have frames : (w.threads t).leave.closed.frames = rest := by simp [top]
  have stacked := shape.stacked
  rw [top] at stacked
  obtain ⟨some, stacked⟩ := stacked.pop
  have resting : (w.threads t).leave.closed.Resting := Or.inl (by simpa using idle)
  apply h.stay (Or.inl idle) resting
  · rw [Thread.base, frames, Thread.base, top, Thread.getLast?_nested some]
  · rw [frames, Thread.closed_depth, Thread.leave_depth, depth, top]
    rfl
  · rw [frames]
    exact stacked

/-- A step of the forker between two positions of its own code. -/
theorem fork (at_pc : (w.threads t).pc = here) (code : here ≠ .idle ∧ here ≠ .checkBackground)
    (threads : w'.threads = update w.threads t θ') (frames : θ'.frames = (w.threads t).frames)
    (depth : (w.threads t).depth = here.levels → θ'.depth = θ'.pc.levels)
    (counts : ∀ i, here.admitted i = 0 ∧ here.transient i = 0 ∧ θ'.pc.admitted i = 0 ∧
      θ'.pc.transient i = 0) (scanned : θ'.pc.Scanned (Fintype.card τ))
    (lock : w'.locked.toNat + here.forking = w.locked.toNat + θ'.pc.forking)
    (word : ∀ i < numShards, w'.shards i + forkPending * here.raises i =
      w.shards i + forkPending * θ'.pc.raises i)
    (quiet : ∀ i < numShards, θ'.pc.quiet i ≤ here.quiet i ∨ total (Thread.admitted i) w.threads = 0) :
    Gate w' := by
  obtain ⟨none, was⟩ := (h.shape t).of_code at_pc code
  subst at_pc
  apply h.away threads none (frames.trans none) (depth was)
  · intro i counted
    rw [(counts i).2.2.1, (counts i).2.2.2] at counted
    exact absurd rfl counted
  · exact scanned
  · exact lock
  · intro i inside
    obtain ⟨admitted, transient, admitted', transient'⟩ := counts i
    rw [admitted, transient, admitted', transient', Nat.add_zero, Nat.zero_add, Nat.zero_add]
    exact word i inside
  · intro i inside
    obtain ⟨admitted, -, admitted', -⟩ := counts i
    rw [admitted, admitted']
    exact ⟨Nat.le_refl _, quiet i inside⟩

/-- The fork lock is taken. -/
theorem takeLock (at_pc : (w.threads t).pc = .lock) (free : w.locked = false) :
    Gate ({ w with locked := true }.put t ((w.threads t).goto (.setting 0))) := by
  refine h.fork at_pc (by simp) rfl rfl id (fun _ => ⟨rfl, rfl, rfl, rfl⟩) trivial ?_ ?_ ?_
  · simp [free]
  · intro i inside
    simp
  · intro i inside
    exact Or.inl (Nat.zero_le _)

/-- `fetch_or` on the next shard. -/
theorem setBit (few : Fintype.card τ < 2 ^ 58) (inside : k < numShards)
    (at_pc : (w.threads t).pc = .setting k) :
    Gate ((w.setShard k (w.shards k ||| forkPending)).put t ((w.threads t).goto (.setting (k + 1)))) := by
  obtain ⟨none, -⟩ := (h.shape t).of_code at_pc (by simp)
  have window : (w.threads t).inWindow = 0 := by simp [Thread.base, none]
  have lowered : total (Thread.raises k) w.threads = 0 := by
    rw [h.sole (by rw [Thread.forking, window, at_pc]; rfl), Thread.raises, window, at_pc]
    simp
  have raised : w.shards k ||| forkPending = w.shards k + forkPending := by
    have small := h.counted_lt few (i := k)
    rw [h.word k inside, or_forkPending (by unfold forkPending; omega) (by omega), lowered]
    rfl
  refine h.fork at_pc (by simp) rfl rfl id (fun _ => ⟨rfl, rfl, rfl, rfl⟩) trivial rfl ?_ ?_
  · intro i bound
    change update w.shards k _ i + _ = _
    by_cases same : i = k
    · rw [same, update_self, raised]
      simp
    · rw [update_of_ne same]
      simp [show i < k + 1 ↔ i < k by omega]
  · intro i bound
    exact Or.inl (Nat.zero_le _)

/-- Every bit is set: the scans begin. -/
theorem startDrain (complete : ¬ k < numShards)
    (at_pc : (w.threads t).pc = .setting k) : Gate (w.put t ((w.threads t).goto (.draining 0 0))) := by
  refine h.fork at_pc (by simp) rfl rfl id (fun _ => ⟨rfl, rfl, rfl, rfl⟩)
    ⟨Nat.zero_le _, Nat.zero_le _⟩ rfl ?_ ?_
  · intro i bound
    simp [show i < k by omega]
  · intro i bound
    simp

/-- The next shard's count joins the sum; a zero means that nobody is admitted there. -/
theorem scan (few : Fintype.card τ < 2 ^ 58) (inside : k < numShards)
    (at_pc : (w.threads t).pc = .draining k sum) :
    Gate (w.put t ((w.threads t).goto
      (.draining (k + 1) (wrappingAdd64 sum (w.shards k &&& countMask))))) := by
  obtain ⟨-, count, -⟩ := h.read few inside
  have scanned := (h.shape t).scanned
  rw [at_pc] at scanned
  obtain ⟨-, bounded⟩ := scanned
  have counted := h.counted_le (i := k)
  have next : sum + (w.shards k &&& countMask) ≤ (k + 1) * Fintype.card τ := by
    rw [count, Nat.succ_mul]
    omega
  have most : (k + 1) * Fintype.card τ ≤ numShards * Fintype.card τ := Nat.mul_le_mul_right _ inside
  have summed : wrappingAdd64 sum (w.shards k &&& countMask) = sum + (w.shards k &&& countMask) := by
    apply Nat.mod_eq_of_lt
    unfold numShards at most
    omega
  rw [summed]
  refine h.fork at_pc (by simp) rfl rfl id (fun _ => ⟨rfl, rfl, rfl, rfl⟩) ⟨inside, next⟩ rfl
    (fun _ _ => rfl) ?_
  · intro i bound
    simp only [Thread.goto_pc, Pc.quiet]
    by_cases zero : sum + (w.shards k &&& countMask) = 0 ∧ i < k + 1
    · by_cases same : i = k
      · rw [same]
        right
        omega
      · left
        rw [if_pos zero, if_pos ⟨by omega, by omega⟩]
    · left
      rw [if_neg zero]
      exact Nat.zero_le _

/-- Somebody was still counted: the next scan begins. -/
theorem rescan (at_pc : (w.threads t).pc = .draining k sum) :
    Gate (w.put t ((w.threads t).goto (.draining 0 0))) := by
  refine h.fork at_pc (by simp) rfl rfl id (fun _ => ⟨rfl, rfl, rfl, rfl⟩)
    ⟨Nat.zero_le _, Nat.zero_le _⟩ rfl (fun _ _ => rfl) ?_
  intro i bound
  simp

/-- The scan came to zero: the window opens. -/
theorem openWindow (complete : ¬ k < numShards) (at_pc : (w.threads t).pc = .draining k 0) :
    Gate (w.put t (((w.threads t).enter.opened .window).goto .idle)) := by
  obtain ⟨none, depth⟩ := (h.shape t).of_code at_pc (by simp)
  have base := Thread.base_of_none none
  have base' : (((w.threads t).enter.opened .window).goto .idle).base = some .window := by
    simp [Thread.base, none]
  apply h.change rfl
  · apply Thread.Shape.of_resting (Or.inl rfl)
    · simp [depth, none, wrappingSucc32]
    · simp [none, Thread.Stacked]
    · simp [base']
  · simp [base, base', at_pc]
  · intro i bound
    simp [base, base', at_pc]
  · intro i bound
    have seen : i < k := by omega
    simp [base, base', at_pc, seen]

/-- `postfork_parent` begins. -/
theorem closeWindow (idle : (w.threads t).pc = .idle) (top : (w.threads t).frames = .window :: rest) :
    Gate (w.put t ((w.threads t).closed.goto (.clearing 0))) := by
  have shape := h.shape t
  have stacked := shape.stacked
  rw [top] at stacked
  obtain rfl := stacked.alone (by simp)
  have depth := shape.depth_of_resting (Or.inl idle)
  have base : (w.threads t).base = some .window := by rw [Thread.base, top]; rfl
  have none : ((w.threads t).closed.goto (.clearing 0)).frames = [] := by simp [top]
  have base' := Thread.base_of_none none
  apply h.change rfl
  · apply Thread.Shape.of_outside none
    · simp [depth, top]
    · simp
    · trivial
  · simp [base, base', idle]
  · intro i bound
    simp [base, base', idle]
  · intro i bound
    simp [base, base', idle]

/-- `fetch_and` on the next shard. -/
theorem clearBit (few : Fintype.card τ < 2 ^ 58) (inside : k < numShards)
    (at_pc : (w.threads t).pc = .clearing k) :
    Gate ((w.setShard k (w.shards k &&& countMask)).put t ((w.threads t).goto (.clearing (k + 1)))) := by
  obtain ⟨none, -⟩ := (h.shape t).of_code at_pc (by simp)
  have window : (w.threads t).inWindow = 0 := by simp [Thread.base, none]
  have raised : total (Thread.raises k) w.threads = 1 := by
    rw [h.sole (by rw [Thread.forking, window, at_pc]; rfl), Thread.raises, window, at_pc]
    simp
  have cleared : (w.shards k &&& countMask) + forkPending = w.shards k := by
    have word := h.word k inside
    rw [(h.read few inside).2.1]
    rw [raised] at word
    omega
  refine h.fork at_pc (by simp) rfl rfl id (fun _ => ⟨rfl, rfl, rfl, rfl⟩) trivial rfl ?_ ?_
  · intro i bound
    change update w.shards k _ i + _ = _
    by_cases same : i = k
    · rw [same, update_self]
      simpa using cleared
    · rw [update_of_ne same]
      simp [show k + 1 ≤ i ↔ k ≤ i by omega]
  · intro i bound
    left
    simp only [Thread.goto_pc, Pc.quiet]
    split <;> split <;> omega

/-- Every bit is clear again. -/
theorem unwind (complete : ¬ k < numShards) (at_pc : (w.threads t).pc = .clearing k) :
    Gate (w.put t ((w.threads t).leave.goto .unlocking)) := by
  refine h.fork at_pc (by simp) rfl rfl (fun depth => ?_) (fun _ => ⟨rfl, rfl, rfl, rfl⟩) trivial rfl
    ?_ ?_
  · simp [depth, wrappingPred32]
  · intro i bound
    simp [show ¬ k ≤ i by omega]
  · intro i bound
    exact Or.inl (Nat.zero_le _)

theorem unlock (at_pc : (w.threads t).pc = .unlocking) :
    Gate ({ w with locked := false }.put t ((w.threads t).goto .idle)) := by
  have held : w.locked = true := by
    have mine := le_total Thread.forking w.threads t
    rw [← h.lock, Thread.forking, at_pc] at mine
    cases locked : w.locked with
    | true => rfl
    | false => simp [locked] at mine
  refine h.fork at_pc (by simp) rfl rfl id (fun _ => ⟨rfl, rfl, rfl, rfl⟩) trivial ?_ (fun _ _ => rfl)
    (fun _ _ => Or.inl (Nat.zero_le _))
  simp [held]

end

end Gate
end Gate
end Topomalloc.Fork
