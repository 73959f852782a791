import Topomalloc.Rseq.Exclusion
import Mathlib.Data.List.Range

/-! What a thread knows of the slot it has to itself, and with it that each slot
is an atomic stack: the committing store of an operation pops what is on top or
pushes what was asked, and no other step changes what a slot holds. -/
namespace Topomalloc.Rseq
open Function Stacks

/-! ## Slots -/

/-- A slot in every state. Only an initialised slot holds anything, and its
capacity is that of its class. -/
structure SlotOk (cfg : Config) (sc : Nat) (x : Slot) : Prop where
  fits : x.len ≤ x.hardCapacity
  capped : x.hardCapacity ≤ cfg.maxLocalCapacity sc
  fresh : x.initialized = false → x.len = 0
  sized : x.initialized = true → x.hardCapacity = cfg.maxLocalCapacity sc ∧ 0 < x.hardCapacity

/-- The slot is not being set up. -/
def Settled (x : Slot) : Prop := x.buf = true → x.initialized = true

namespace Slot
variable {x : Slot} {i n : Nat}

/-- Writing above the length changes nothing the slot holds. -/
theorem contents_stage (above : x.len ≤ i) (v : Nat) :
    contents { x with entry := update x.entry i v } = x.contents := by
  simp only [contents]
  congr 1
  apply List.map_congr_left
  intro j below
  exact update_of_ne (by have := List.mem_range.mp below; omega) ..

/-- The top `n` entries, the topmost last. -/
def top (x : Slot) (n : Nat) : List Nat := (List.range n).map fun i => x.entry (x.len - n + i)

theorem contents_take (enough : n ≤ x.len) :
    x.contents = (x.top n).reverse ++ contents { x with len := x.len - n } := by
  have split : List.range x.len = List.range (x.len - n) ++ (List.range n).map (x.len - n + ·) := by
    rw [← List.range_add, Nat.sub_add_cancel enough]
  simp only [contents, top, split, List.map_append, List.reverse_append, List.map_map]
  rfl

theorem contents_put (vs : List Nat) (written : vs = (List.range vs.length).map fun i => x.entry (x.len + i)) :
    contents { x with len := x.len + vs.length } = vs.reverse ++ x.contents := by
  simp only [contents, List.range_add, List.map_append, List.reverse_append, List.map_map]
  congr 2
  exact written.symm

end Slot

/-! ## Knowledge -/

/-- What a sequence knows of the slot it is at. -/
def SeqPc.Knows (call : Call) (x : Slot) : SeqPc → Prop
  | .readLen _ => x.initialized = true
  | .readCap _ len => x.initialized = true ∧ x.len = len
  | .readEntry _ len => x.len = len ∧ 0 < len
  | .stage _ len => x.initialized = true ∧ x.len = len ∧ len < x.hardCapacity
  | .commitPop _ len v => x.len = len + 1 ∧ x.entry len = v
  | .commitPush _ len =>
    x.initialized = true ∧ x.len = len ∧ len < x.hardCapacity ∧ call = .push (x.entry len)
  | _ => True

/-- What a lock holder knows of its slot. -/
def LockPc.Knows (cfg : Config) (sc : Nat) (op : Op) (x : Slot) : LockPc → Prop
  | .storeBuf => x.initialized = false
  | .storeHard => x.initialized = false ∧ 0 < cfg.maxLocalCapacity sc
  | .storeSoft | .storeInit =>
    x.initialized = false ∧ x.hardCapacity = cfg.maxLocalCapacity sc ∧ 0 < x.hardCapacity
  | .readLen => op.wanted = none → x.initialized = true
  | .readCap len => x.initialized = true ∧ x.len = len
  | .take len n got =>
    x.len = len ∧ 0 < n ∧ n ≤ len ∧ got.length ≤ n ∧
      got = (List.range got.length).map fun i => x.entry (len - n + i)
  | .put len vs i =>
    x.initialized = true ∧ x.len = len ∧ vs ≠ [] ∧ len + vs.length ≤ x.hardCapacity ∧
      i ≤ vs.length ∧ vs.take i = (List.range i).map fun j => x.entry (len + j)
  | _ => True

/-- What a thread knows. -/
def Pc.Knows (cfg : Config) (s : State) : Pc → Prop
  | .seq _ _ sc call q => ∀ c, q.past = some c → q.Knows call (s.slots c sc)
  | .locked c sc op _ q => q.inside = true → q.Knows cfg sc op (s.slots c sc)
  | .storingSoft _ sc v => v ≤ max (cfg.maxLocalCapacity sc) 1
  | _ => True

/-- The slot a thread is setting up. -/
def Pc.initing : Pc → Option (Nat × Nat)
  | .locked c sc _ _ .storeHard | .locked c sc _ _ .storeSoft | .locked c sc _ _ .storeInit =>
    some (c, sc)
  | _ => none

/-- What a thread's present operation has done. -/
def Pc.events : Pc → List Event
  | .returned o _ | .locked _ _ _ _ (.release o) => o.events
  | _ => []

section
variable {cfg : Config} {s s' : State} {t len : Nat} {p p' : Pc} {a : Action} {k : Nat × Nat}

/-- Knowledge is about the thread's own slots. -/
theorem Pc.Knows.congr (knows : p.Knows cfg s) (same : ∀ c, p.owns = some c → s'.slots c = s.slots c) :
    p.Knows cfg s' := by
  cases p with
  | seq n core sc call q =>
    intro c past
    rw [same c (Pc.owns_eq_some.mpr (.inr past))]
    exact knows c past
  | locked c sc op after q =>
    intro inside
    rw [same c (Pc.owns_eq_some.mpr (.inl (if_pos inside)))]
    exact knows inside
  | _ => exact knows

theorem Pc.Knows.aborted (knows : p.Knows cfg s) : p.aborted.Knows cfg s := by
  cases p with
  | seq => trivial
  | _ => exact knows

theorem Pc.aborted_events (p : Pc) : p.aborted.events = p.events := by cases p <;> rfl

theorem Pc.aborted_initing (p : Pc) : p.aborted.initing = p.initing := by cases p <;> rfl

theorem Pc.inside_of_initing (initing : p.initing = some k) : p.inside = some k.1 := by
  cases p with
  | locked c sc op after q => cases q <;> cases initing <;> rfl
  | _ => cases initing

theorem Pc.resting_initing (rests : p.resting = true) : p.initing = none := by
  cases p <;> first | rfl | cases rests

theorem Op.declined_events (op : Op) : op.declined.events = [] := by cases op <;> rfl

/-! ## What a step does -/

section
variable {c sc : Nat} {op : Op} {after : After}

theorem Op.enter_events : (Pc.locked c sc op after op.enter).events = [] := by cases op <;> rfl

theorem Op.ready_events : (Pc.locked c sc op after op.ready).events = [] := by cases op <;> rfl

theorem Op.unready_events : (Pc.locked c sc op after op.unready).events = [] := by cases op <;> rfl

theorem Op.sized_events : (Pc.locked c sc op after (op.sized len)).events = [] := by
  unfold Op.sized
  split
  · rfl
  · split <;> rfl

theorem Op.fitted_events : (Pc.locked c sc op after (op.fitted len soft hard)).events = [] := by
  unfold Op.fitted
  split <;> rfl

end

section
variable (exec : Exec cfg s t p a p')
include exec

/-- A step records exactly the events its store commits. -/
theorem Exec.events :
    match a with
    | .begin => p'.events = []
    | .write _ _ _ es => p'.events = es ++ p.events
    | _ => p'.events = p.events := by
  cases exec <;> first
    | rfl
    | exact Op.declined_events _
    | exact Op.enter_events
    | exact Op.ready_events
    | exact Op.unready_events
    | exact Op.sized_events
    | exact Op.fitted_events
    | exact (List.append_nil _).symm

variable {es : List Event}

variable {x : Slot}

/-- A thread writes into slots it has to itself. -/
theorem Exec.write_owns (write : a = .write c sc x es) : p.owns = some c := by
  cases exec <;> cases write <;> rfl

/-- A thread that sets a slot up goes on with it until the slot is initialised. -/
theorem Exec.initing (initing : p.initing = some k) :
    p'.initing = some k ∨ ∃ x, a = .write k.1 k.2 x [] ∧ x.initialized = true := by
  cases exec <;> first
    | exact .inl initing
    | (cases initing; exact .inr ⟨_, rfl, rfl⟩)
    | cases initing
    | (rw [Pc.resting_initing (by assumption)] at initing; cases initing)

/-- A store leaves a settled slot settled, or the thread has begun to set it up. -/
theorem Exec.settles (write : a = .write c sc x es) (settled : Settled (s.slots c sc)) :
    Settled x ∨ p'.initing = some (c, sc) := by
  cases exec <;> cases write <;> first
    | exact .inl settled
    | exact .inr rfl
    | exact .inl fun _ => rfl

end

/-- What a store of `x` over `old` does: the slot stays in order, and the events
are what became of its stack. -/
structure Stored (cfg : Config) (sc : Nat) (k : Nat × Nat) (old x : Slot) (es : List Event) : Prop where
  ok : SlotOk cfg sc x
  legal : ∀ {log : List Event} {S : Nat × Nat → List Nat}, Legal log S → S k = old.contents →
    Legal (es ++ log) (update S k x.contents)

/-- A store that leaves the contents alone. -/
theorem Stored.silent (ok : SlotOk cfg sc x)
    (same : x.contents = old.contents) : Stored cfg sc k old x [] where
  ok := ok
  legal := by
    intro log S legal here
    have unchanged : update S k x.contents = S := by
      rw [same, ← here]
      exact update_eq_self k S
    rw [unchanged]
    exact legal

theorem Exec.stores (exec : Exec cfg s t p (.write c sc x es) p') (knows : p.Knows cfg s)
    (ok : SlotOk cfg sc (s.slots c sc)) : Stored cfg sc (c, sc) (s.slots c sc) x es := by
  cases exec with
  | seqStage =>
    obtain ⟨-, length, -⟩ := knows c rfl
    exact .silent ⟨ok.fits, ok.capped, ok.fresh, ok.sized⟩
      (Slot.contents_stage (Nat.le_of_eq length) _)
  | @seqCommitPop n core _ _ len v =>
    obtain ⟨length, entry⟩ := knows c rfl
    have above : len ≤ (s.slots c sc).hardCapacity := by
      have := ok.fits
      omega
    refine ⟨⟨above, ok.capped, fun unready => ?_, ok.sized⟩, fun legal here => ?_⟩
    · have := ok.fresh unready
      omega
    · have split := Slot.contents_take (x := s.slots c sc) (n := 1) (by omega)
      rw [show (s.slots c sc).top 1 = [v] by simp [Slot.top, length, entry],
        show (s.slots c sc).len - 1 = len by omega] at split
      exact legal.pop (here.trans split)
  | @seqCommitPush n core _ v _ len =>
    obtain ⟨ready, length, room, asked⟩ := knows c rfl
    cases asked
    refine ⟨⟨room, ok.capped, fun unready => ?_, ok.sized⟩, fun legal here => ?_⟩
    · rw [ready] at unready
      cases unready
    · have put := Slot.contents_put (x := s.slots c sc) [(s.slots c sc).entry len] (by simp [length])
      rw [length] at put
      rw [show (Slot.contents { s.slots c sc with len := len + 1 }) =
        (s.slots c sc).entry len :: (s.slots c sc).contents from put, ← here]
      exact legal.push _ _
  | storeBuf =>
    have unready := knows rfl
    have zero := ok.fresh unready
    exact .silent ⟨ok.fits, ok.capped, ok.fresh, ok.sized⟩ (by simp [Slot.contents, zero])
  | storeHard =>
    obtain ⟨unready, room⟩ := knows rfl
    have zero := ok.fresh unready
    refine .silent ⟨by simp [zero], Nat.le_refl _, ok.fresh, fun ready => ?_⟩ rfl
    rw [unready] at ready
    cases ready
  | storeInit =>
    obtain ⟨-, full, room⟩ := knows rfl
    exact .silent ⟨ok.fits, ok.capped, nofun, fun _ => ⟨full, room⟩⟩ rfl
  | @commitTake n _ _ op after len got all =>
    obtain ⟨length, some, enough, -, read⟩ := knows rfl
    have below : len - n ≤ (s.slots c sc).hardCapacity := by
      have := ok.fits
      omega
    refine ⟨⟨below, ok.capped, fun unready => ?_, ok.sized⟩, fun legal here => ?_⟩
    · have := ok.fresh unready
      omega
    · have split := Slot.contents_take (x := s.slots c sc) (n := n) (by omega)
      rw [show (s.slots c sc).top n = got by rw [read, all, Slot.top, length], length] at split
      exact legal.pops got (here.trans split)
  | @writeEntry i _ _ op after len vs more =>
    obtain ⟨-, length, -⟩ := knows rfl
    exact .silent ⟨ok.fits, ok.capped, ok.fresh, ok.sized⟩
      (Slot.contents_stage (by omega) _)
  | @commitPut _ _ op after len vs =>
    obtain ⟨ready, length, -, room, -, written⟩ := knows rfl
    rw [List.take_length] at written
    refine ⟨⟨room, ok.capped, fun unready => ?_, ok.sized⟩, fun legal here => ?_⟩
    · rw [ready] at unready
      cases unready
    · have put := Slot.contents_put (x := s.slots c sc) vs (by rw [length]; exact written)
      rw [length] at put
      rw [put, ← here]
      exact legal.pushes vs

/-- What one operation admits fits the slot. -/
theorem Op.admitted_fits {op : Op} (fits : len ≤ hard) (capped : soft ≤ hard)
    (some : op.admitted len soft hard ≠ []) : len + (op.admitted len soft hard).length ≤ hard := by
  cases op with
  | push v =>
    simp only [Op.admitted] at some ⊢
    split at some
    · rename_i room
      rw [if_pos room]
      simp only [List.length_singleton]
      omega
    · exact absurd rfl some
  | pushBatch vs =>
    simp only [Op.admitted, List.length_take]
    omega
  | _ => exact absurd rfl some

/-- The next position's knowledge, from the present one's and what is true of every
slot. -/
theorem Exec.learns (exec : Exec cfg s t p a p') (knows : p.Knows cfg s)
    (ok : ∀ c sc, SlotOk cfg sc (s.slots c sc))
    (soft : ∀ c sc, s.softCapacity c sc ≤ max (cfg.maxLocalCapacity sc) 1)
    (settled : ∀ c sc, p.past = some c → Settled (s.slots c sc)) : p'.Knows cfg (s.act t a) := by
  -- an initialised slot's soft capacity is at most the hard one
  have below : ∀ {c sc}, (s.slots c sc).initialized = true →
      s.softCapacity c sc ≤ (s.slots c sc).hardCapacity := by
    intro c sc ready
    obtain ⟨full, room⟩ := (ok c sc).sized ready
    have := soft c sc
    omega
  cases exec with
  | @seqBuf c sc n core call there =>
    intro d past
    cases past
    exact settled c sc rfl there
  | @seqPopLen c sc n core nonempty =>
    intro d past
    cases past
    exact ⟨rfl, Nat.pos_of_ne_zero nonempty⟩
  | @seqPushLen n core sc v c =>
    intro d past
    cases past
    exact ⟨knows c rfl, rfl⟩
  | @seqRoom len c sc n core v room =>
    intro d past
    cases past
    obtain ⟨ready, length⟩ := knows c rfl
    exact ⟨ready, length, Nat.lt_of_lt_of_le room (below ready)⟩
  | @seqEntry n core sc c len =>
    intro d past
    cases past
    obtain ⟨length, nonzero⟩ := knows c rfl
    refine ⟨?_, rfl⟩
    change (s.slots c sc).len = _
    omega
  | @seqStage n core sc v c len =>
    intro d past
    cases past
    obtain ⟨ready, length, room⟩ := knows c rfl
    simp only [State.act, SeqPc.Knows, update_self]
    exact ⟨ready, length, room, trivial⟩
  | @latchClear c sc op after clear =>
    intro _
    cases op <;> first | trivial | rintro ⟨⟩
  | @owner c sc op after cpu =>
    intro _
    cases op <;> first | trivial | rintro ⟨⟩
  | @fenceCompletes c sc op after =>
    intro _
    cases op <;> first | trivial | rintro ⟨⟩
  | @isReady c sc op after ready =>
    intro _
    cases op <;> first | trivial | exact fun _ => ready
  | @isUnready c sc op after unready =>
    intro _
    cases op <;> trivial
  | @storeBuf sc c op after room =>
    intro _
    simp only [State.act, LockPc.Knows, update_self]
    exact ⟨knows rfl, room⟩
  | @storeHard c sc op after =>
    intro _
    simp only [State.act, LockPc.Knows, update_self]
    obtain ⟨unready, room⟩ := knows rfl
    exact ⟨unready, trivial, room⟩
  | @storeSoft c sc op after =>
    intro _
    exact knows rfl
  | @storeInit c sc op after =>
    intro _
    cases op <;> first
      | trivial
      | (simp only [State.act, LockPc.Knows, Op.ready, update_self]; exact fun _ => trivial)
  | @readLen c sc op after =>
    intro _
    have ready := knows rfl
    unfold Op.sized
    split
    · rename_i pushes
      exact ⟨ready pushes, rfl⟩
    · rename_i m pops
      split
      · trivial
      · exact ⟨rfl, by omega, by omega, by simp, by simp⟩
  | @readCap c sc op after len =>
    intro _
    obtain ⟨ready, length⟩ := knows rfl
    unfold Op.fitted
    split
    · trivial
    · rename_i some
      have fits : len ≤ (s.slots c sc).hardCapacity := length ▸ (ok c sc).fits
      exact ⟨ready, length, some, Op.admitted_fits fits (below ready) some, Nat.zero_le _, by simp⟩
  | @readEntry n c sc op after len got more =>
    intro _
    obtain ⟨length, some, enough, -, read⟩ := knows rfl
    refine ⟨length, some, enough, by rw [List.length_append]; exact more, ?_⟩
    rw [List.length_append, List.length_singleton, List.range_succ, List.map_append]
    exact congrArg (· ++ [(s.slots c sc).entry (len - n + got.length)]) read
  | @writeEntry i c sc op after len vs more =>
    intro _
    obtain ⟨ready, length, some, room, -, written⟩ := knows rfl
    simp only [State.act, LockPc.Knows, update_self]
    refine ⟨ready, length, some, room, more, ?_⟩
    rw [List.range_succ, List.map_append, List.take_add_one, written]
    congr 1
    · apply List.map_congr_left
      intro j earlier
      rw [update_of_ne (by have := List.mem_range.mp earlier; omega)]
    · simp [more]
  | @readHard c sc cap =>
    have := (ok c sc).capped
    change max (min cap _) 1 ≤ _
    omega
  | _ => first | trivial | exact fun _ _ => trivial | exact fun _ => trivial

end

/-! ## Every state -/

/-- What is true of every state of every interleaving. -/
structure Sound (cfg : Config) (s : State) : Prop extends Guarded s where
  ok : ∀ c sc, SlotOk cfg sc (s.slots c sc)
  soft : ∀ c sc, s.softCapacity c sc ≤ max (cfg.maxLocalCapacity sc) 1
  settled : ∀ c sc, Settled (s.slots c sc) ∨ ∃ t, (s.pc t).initing = some (c, sc)
  knows : ∀ t, (s.pc t).Knows cfg s
  legal : Legal s.log s.stacks
  told : ∀ t, s.effect t = (s.pc t).events
  logged : ∀ t e, e ∈ s.effect t → e ∈ s.log

section
variable {cfg : Config} {s s' : State} {t : Nat} {p : Pc} {a : Action}

theorem Sound.start : Sound cfg {} where
  toGuarded := .start
  ok _ _ := ⟨Nat.le_refl _, Nat.zero_le _, fun _ => rfl, nofun⟩
  soft _ _ := Nat.zero_le _
  settled _ _ := .inl nofun
  knows _ := trivial
  legal := .nil
  told _ := rfl
  logged _ _ := nofun

/-- A sequence finds no slot half set up. -/
theorem Sound.settled_past (sound : Sound cfg s) (past : (s.pc t).past = some c)
    (sc : Nat) : Settled (s.slots c sc) := by
  rcases sound.settled c sc with settled | ⟨u, initing⟩
  · exact settled
  · exact absurd past (sound.apart (Pc.inside_of_initing initing))

/-- Threads that are only sent back keep everything. -/
theorem Sound.kept (sound : Sound cfg s) (guarded : Guarded s') (kept : ∀ u, (s.pc u).Kept (s'.pc u))
    (sameSlots : s'.slots = s.slots) (sameSoft : s'.softCapacity = s.softCapacity)
    (sameLog : s'.log = s.log) (sameEffect : s'.effect = s.effect) : Sound cfg s' where
  toGuarded := guarded
  ok := by
    rw [sameSlots]
    exact sound.ok
  soft := by
    rw [sameSoft]
    exact sound.soft
  settled := by
    intro c sc
    rw [sameSlots]
    rcases sound.settled c sc with settled | ⟨u, initing⟩
    · exact .inl settled
    · refine .inr ⟨u, ?_⟩
      rcases kept u with same | same <;> rw [same]
      · exact initing
      · rw [Pc.aborted_initing]
        exact initing
  knows := by
    intro u
    have knows : (s'.pc u).Knows cfg s := by
      rcases kept u with same | same <;> rw [same]
      · exact sound.knows u
      · exact (sound.knows u).aborted
    exact knows.congr fun c _ => by rw [sameSlots]
  legal := by
    rw [sameLog, show s'.stacks = s.stacks by funext k; simp only [State.stacks, sameSlots]]
    exact sound.legal
  told := by
    intro u
    rw [sameEffect, sound.told u]
    rcases kept u with same | same <;> rw [same]
    rw [Pc.aborted_events]
  logged := by
    rw [sameEffect, sameLog]
    exact sound.logged

/-- A step changes the slots only by its store, into slots of its own. -/
theorem act_slots (a : Action) :
    (s.act t a).slots = s.slots ∨ ∃ c sc x es, a = .write c sc x es ∧
        (s.act t a).slots = update s.slots c (update (s.slots c) sc x) := by
  cases a <;> first | exact .inl rfl | exact .inr ⟨_, _, _, _, rfl, rfl⟩

/-- The slots after a store, one by one. -/
theorem slots_update (slots : Nat → Nat → Slot) (c sc : Nat) (x : Slot) (d sd : Nat) :
    update slots c (update (slots c) sc x) d sd = if (d, sd) = (c, sc) then x else slots d sd := by
  by_cases cpu : d = c
  · subst cpu
    by_cases cls : sd = sc
    · subst cls
      simp
    · simp [cls]
  · simp [cpu]

section
variable (sound : Sound cfg s)
include sound

section
variable (exec : Exec cfg s t (s.pc t) a p)
include exec

theorem Sound.act_ok (c sc : Nat) : SlotOk cfg sc ((s.act t a).slots c sc) := by
  rcases act_slots (s := s) (t := t) a with same | ⟨d, sd, x, es, rfl, stored⟩
  · rw [same]
    exact sound.ok c sc
  · rw [stored, slots_update]
    split
    · rename_i here
      cases here
      exact (exec.stores (sound.knows t) (sound.ok _ _)).ok
    · exact sound.ok c sc

theorem Sound.act_soft (c sc : Nat) : (s.act t a).softCapacity c sc ≤ max (cfg.maxLocalCapacity sc) 1 := by
  have knows := sound.knows t
  generalize s.pc t = q at exec knows
  cases a with
  | soften d sd v =>
    have bound : v ≤ max (cfg.maxLocalCapacity sd) 1 := by
      cases exec with
      | storeSoft =>
        change max (min _ _) 1 ≤ _
        omega
      | soften => exact knows
    by_cases cpu : c = d
    · subst cpu
      by_cases cls : sc = sd
      · subst cls
        simpa [State.act] using bound
      · simpa [State.act, cls] using sound.soft c sc
    · simpa [State.act, cpu] using sound.soft c sc
  | _ => exact sound.soft c sc

theorem Sound.act_settled (c sc : Nat) :
    Settled ((s.act t a).slots c sc) ∨ ∃ u, (((s.act t a).goto t p).pc u).initing = some (c, sc) := by
  have mine : ((s.act t a).goto t p).pc t = p := update_self ..
  rcases sound.settled c sc with settled | ⟨u, initing⟩
  · rcases act_slots (s := s) (t := t) a with same | ⟨d, sd, x, es, rfl, stored⟩
    · rw [same]
      exact .inl settled
    · rw [stored, slots_update]
      split
      · rename_i here
        cases here
        refine (exec.settles rfl settled).imp_right fun initing => ⟨t, ?_⟩
        rw [mine]
        exact initing
      · exact .inl settled
  · by_cases same : u = t
    · subst same
      rcases exec.initing initing with initing | ⟨x, rfl, ready⟩
      · exact .inr ⟨u, (congrArg Pc.initing mine).trans initing⟩
      · left
        intro _
        simpa [State.act] using ready
    · refine .inr ⟨u, ?_⟩
      rcases exec_kept (s := s) (a := a) (p := p) same with kept | kept <;> rw [kept]
      · exact initing
      · rw [Pc.aborted_initing]
        exact initing

theorem Sound.act_knows (u : Nat) : (((s.act t a).goto t p).pc u).Knows cfg ((s.act t a).goto t p) := by
  by_cases same : u = t
  · subst same
    rw [show ((s.act u a).goto u p).pc u = p from update_self ..]
    exact (exec.learns (sound.knows u) sound.ok sound.soft
      fun c sc past => sound.settled_past past sc).congr fun _ _ => rfl
  · have knows : (((s.act t a).goto t p).pc u).Knows cfg s := by
      rcases exec_kept (s := s) (a := a) (p := p) same with kept | kept <;> rw [kept]
      · exact sound.knows u
      · exact (sound.knows u).aborted
    apply knows.congr
    intro c owns
    have before : (s.pc u).owns = some c := by
      rcases exec_kept (s := s) (a := a) (p := p) same with kept | kept <;> rw [kept] at owns
      · exact owns
      · rcases Pc.owns_eq_some.mp owns with inside | past
        · rw [Pc.aborted_inside] at inside
          exact Pc.owns_eq_some.mpr (.inl inside)
        · rw [Pc.aborted_past] at past
          cases past
    rcases act_slots (s := s) (t := t) a with unchanged | ⟨d, sd, x, es, rfl, stored⟩
    · exact congrFun unchanged c
    · -- the store is into slots of `t`, and those are not `u`'s
      have other : c ≠ d := by
        rintro rfl
        exact same (sound.alone before (exec.write_owns rfl))
      exact (congrFun stored c).trans (update_of_ne other ..)

theorem Sound.act_legal : Legal (s.act t a).log (s.act t a).stacks := by
  cases a with
  | write c sc x es =>
    have stored := (exec.stores (sound.knows t) (sound.ok c sc)).legal sound.legal rfl
    have after : (s.act t (.write c sc x es)).stacks = update s.stacks (c, sc) x.contents := by
      funext k
      simp only [State.stacks, State.act, slots_update, update_apply]
      split <;> rfl
    rw [after]
    exact stored
  | _ => exact sound.legal

theorem Sound.act_told (u : Nat) : (s.act t a).effect u = (((s.act t a).goto t p).pc u).events := by
  by_cases same : u = t
  · subst same
    rw [show ((s.act u a).goto u p).pc u = p from update_self ..]
    have events := exec.events
    have told := sound.told u
    cases a <;> simp_all [State.act]
  · have kept : (((s.act t a).goto t p).pc u).events = (s.pc u).events := by
      rcases exec_kept (s := s) (a := a) (p := p) same with kept | kept <;> rw [kept]
      exact Pc.aborted_events _
    rw [kept, ← sound.told u]
    cases a <;> simp [State.act, same]

end

theorem Sound.act_logged (a : Action) (u : Nat) (e : Event)
    (done : e ∈ (s.act t a).effect u) : e ∈ (s.act t a).log := by
  cases a with
  | begin =>
    simp only [State.act, update_apply] at done
    split at done
    · cases done
    · exact sound.logged u e done
  | write c sc x es =>
    simp only [State.act, update_apply, List.mem_append] at done ⊢
    split at done
    · exact (List.mem_append.mp done).imp_right (sound.logged t e)
    · exact .inr (sound.logged u e done)
  | _ => exact sound.logged u e done

theorem Sound.exec (exec : Exec cfg s t (s.pc t) a p) : Sound cfg ((s.act t a).goto t p) where
  toGuarded := sound.toGuarded.exec exec
  ok := sound.act_ok exec
  soft := sound.act_soft exec
  settled := sound.act_settled exec
  knows := sound.act_knows exec
  legal := sound.act_legal exec
  told := sound.act_told exec
  logged := sound.act_logged a

/-- Every step keeps it. -/
theorem Sound.step (step : Step cfg s s') : Sound cfg s' := by
  have guarded := sound.toGuarded.step step
  cases step with
  | exec t runs exec => exact sound.exec exec
  | schedule t c off free => exact sound.kept guarded (fun _ => .inl rfl) rfl rfl rfl rfl
  | preempt t => exact sound.kept guarded (goto_aborted_kept s t) rfl rfl rfl rfl
  | signal t => exact sound.kept guarded (goto_aborted_kept s t) rfl rfl rfl rfl

end

theorem Reachable.sound (reached : Reachable cfg s) : Sound cfg s := by
  induction reached with
  | start => exact .start
  | step _ step ih => exact ih.step step

/-! ## Atomic stacks -/

/-- A thread's next access to a buffer is within it. -/
theorem Pc.Knows.access (knows : p.Knows cfg s) (fits : (s.slots c sc).len ≤ (s.slots c sc).hardCapacity)
    (access : p.access = some (c, sc, i)) : i < (s.slots c sc).hardCapacity := by
  cases p with
  | seq n core sc' call q =>
    cases q with
    | readEntry d len =>
      cases access
      obtain ⟨length, nonzero⟩ := knows c rfl
      omega
    | stage d len =>
      cases access
      exact (knows c rfl).2.2
    | _ => cases access
  | locked d sd op after q =>
    cases q with
    | take len n got =>
      simp only [Pc.access] at access
      split at access
      · cases access
        obtain ⟨length, some, enough, -⟩ := knows rfl
        omega
      · cases access
    | put len vs j =>
      simp only [Pc.access] at access
      split at access
      · cases access
        obtain ⟨-, length, -, room, -⟩ := knows rfl
        omega
      · cases access
    | _ => cases access
  | _ => cases access

/-- An operation that has made its committing store has made no other. -/
theorem Exec.write_events (exec : Exec cfg s t p a p') (write : a = .write c sc x es) : p.events = [] := by
  cases exec <;> cases write <;> rfl

/-- An operation starts where none is under way. -/
theorem Exec.begins (exec : Exec cfg s t p a p') (begins : a = .begin) :
    p.events = [] ∨ ∃ o after, p = .returned o after := by
  have rested : ∀ {q : Pc}, q.resting = true → q.events = [] ∨ ∃ o after, q = .returned o after := by
    intro q rests
    cases q <;> first | exact .inl rfl | exact .inr ⟨_, _, rfl⟩ | cases rests
  cases exec <;> first
    | exact rested (by assumption)
    | exact .inl rfl
    | exact .inr ⟨_, _, rfl⟩
    | cases begins

/-- What a step does to the stacks, and to what each thread's present operation has
done to them. Either it commits, for one thread whose operation had done nothing
before, or it changes no stack; then what an operation has done is as it was, or
the operation had answered. -/
def Moves (s s' : State) : Prop :=
  (∃ t es, es ≠ [] ∧ s.effect t = [] ∧ s'.effect = update s.effect t es ∧ s'.log = es ++ s.log) ∨
    (s'.log = s.log ∧ s'.stacks = s.stacks ∧
      ∀ u, s'.effect u = s.effect u ∨ s'.effect u = [] ∧ ∃ o after, s.pc u = .returned o after)

theorem Sound.moves (sound : Sound cfg s) (step : Step cfg s s') : Moves s s' := by
  have legal := (sound.step step).legal
  cases step with
  | @exec t a p runs exec =>
    have silent : ((s.act t a).goto t p).log = s.log → ((s.act t a).goto t p).stacks = s.stacks := by
      intro same
      rw [same] at legal
      exact legal.unique sound.legal
    cases a with
    | begin =>
      refine .inr ⟨rfl, silent rfl, fun u => ?_⟩
      by_cases same : u = t
      · subst same
        rcases exec.begins rfl with nothing | answered
        · left
          exact (update_self ..).trans ((sound.told u).trans nothing).symm
        · exact .inr ⟨update_self .., answered⟩
      · exact .inl (update_of_ne same ..)
    | write c sc x es =>
      have before : s.effect t = [] := (sound.told t).trans (exec.write_events rfl)
      by_cases some : es = []
      · subst some
        refine .inr ⟨rfl, silent rfl, fun u => .inl ?_⟩
        change update s.effect t ([] ++ s.effect t) u = s.effect u
        rw [List.nil_append, update_eq_self]
      · refine .inl ⟨t, es, some, before, ?_, rfl⟩
        change update s.effect t (es ++ s.effect t) = _
        rw [before, List.append_nil]
    | _ => exact .inr ⟨rfl, silent rfl, fun u => .inl rfl⟩
  | _ => exact .inr ⟨rfl, legal.unique sound.legal, fun u => .inl rfl⟩

/-- The slots are atomic stacks. The log of committing stores is a history of the
stacks they hold: each pop in it took one earlier push of its own, and what no pop
took is still there. Lengths and accesses stay within the buffers. An operation
that has answered did what its answer says, which is nothing if it declined, and
one that was sent back has done nothing. -/
structure AtomicStacks (cfg : Config) (s : State) : Prop where
  legal : Legal s.log s.stacks
  matched : ∃ took left, Matching s.log s.stacks took left
  bounded : ∀ c sc, (s.slots c sc).len ≤ (s.slots c sc).hardCapacity
  access : ∀ t c sc i, (s.pc t).access = some (c, sc, i) → i < (s.slots c sc).hardCapacity
  answered : ∀ t o after, s.pc t = .returned o after → s.effect t = o.events
  aborted : ∀ t n core sc call, s.pc t = .attempt n core sc call → s.effect t = []
  logged : ∀ t e, e ∈ s.effect t → e ∈ s.log
  moves : ∀ s', Step cfg s s' → Moves s s'

/-- In every interleaving, with preemptions, migrations, failing fences and mode
switches at any point, the slots are atomic stacks. -/
theorem slots_are_atomic_stacks (reached : Reachable cfg s) : AtomicStacks cfg s := by
  have sound := reached.sound
  exact
    { legal := sound.legal
      matched := sound.legal.matching
      bounded := fun c sc => (sound.ok c sc).fits
      access := fun t c sc i => (sound.knows t).access (sound.ok c sc).fits
      answered := fun t o after here => by rw [sound.told t, here]; rfl
      aborted := fun t n core sc call here => by rw [sound.told t, here]; rfl
      logged := sound.logged
      moves := fun s' step => sound.moves step }

/-- A thread on CPU 0 pushes 7 onto its slot of class 0, which it sets up first, and pops it in
a critical section. -/
theorem slots_are_atomic_stacks_push_pop :
    ∃ s, Reachable ⟨fun _ => 2, fun _ => 1⟩ s ∧ s.log = [.pop (0, 0) 7, .push (0, 0) 7] ∧
      s.pc 0 = .returned (.popped 0 0 [7]) .ret ∧ AtomicStacks ⟨fun _ => 2, fun _ => 1⟩ s := by
  have placed : Reachable ⟨fun _ => 2, fun _ => 1⟩ _ := Reachable.start.step (.schedule 0 0 rfl nofun)
  have pushed := placed |>.step (.exec 0 nofun (.startLocked rfl 0 0 (.push 7)))
      |>.step (.exec 0 nofun (.acquire rfl)) |>.step (.exec 0 nofun (.latchClear rfl))
      |>.step (.exec 0 nofun (.isUnready rfl)) |>.step (.exec 0 nofun (.storeBuf (by decide)))
      |>.step (.exec 0 nofun .storeHard) |>.step (.exec 0 nofun .storeSoft)
      |>.step (.exec 0 nofun .storeInit) |>.step (.exec 0 nofun .readLen)
      |>.step (.exec 0 nofun .readCap) |>.step (.exec 0 nofun (.writeEntry (by decide)))
      |>.step (.exec 0 nofun .commitPut) |>.step (.exec 0 nofun .release)
  have popped := pushed |>.step (.exec 0 nofun (.startEnable rfl)) |>.step (.exec 0 nofun .arm)
      |>.step (.exec 0 nofun .publish) |>.step (.exec 0 nofun (.startFast rfl 0 0 .pop))
      |>.step (.exec 0 nofun (.modeRseq rfl)) |>.step (.exec 0 nofun .probeSome)
      |>.step (.exec 0 nofun .enter) |>.step (.exec 0 nofun (.seqCpu rfl))
      |>.step (.exec 0 nofun (.seqUnlocked rfl)) |>.step (.exec 0 nofun (.seqBuf rfl))
      |>.step (.exec 0 nofun (.seqPopLen (by decide))) |>.step (.exec 0 nofun .seqEntry)
      |>.step (.exec 0 nofun .seqCommitPop)
  exact ⟨_, popped, rfl, rfl, slots_are_atomic_stacks popped⟩

end
end Topomalloc.Rseq
