import Topomalloc.Huge.Faces
import Topomalloc.Huge.Backend

/-! `check_invariants` answers true in every settled state, and a settled state
is what `HugePageBackend::new` builds and every call of the backend, with any
answers of the provider, leaves behind. -/
namespace Topomalloc
open Function Bitmap

namespace HugePageFiller
variable {f : HugePageFiller} {b : HugeBin} {fuel j prev seen : Nat} {l : List Nat}

/-- Walking a bin that is in order meets exactly its list. -/
theorem walkBin_eq (path : Links.Path f.binTable.next f.binTable.prev NIL prev j l) (real : NIL ∉ l)
    (fits : l.length ≤ fuel) (members : ∀ i ∈ l, (f.slots i).touched = true ∧ (f.slots i).bin = b)
    (order : FullLast f l) (after : seenFull = true → ∀ i ∈ l, (f.slots i).used ≥ pagesPerHugepage) :
    f.walkBin b fuel j prev seen seenFull = some (seen + l.length, l.getLastD prev) := by
  induction l generalizing fuel j prev seen seenFull with
  | nil =>
    obtain rfl : j = NIL := path
    cases fuel <;> simp [walkBin]
  | cons i l ih =>
    obtain ⟨rfl, back, rest⟩ := path
    obtain ⟨touched, tag⟩ := members j (by simp)
    cases fuel with
    | zero => simp at fits
    | succ fuel =>
      have notNil : j ≠ NIL := fun same => real (by simp [same])
      have inOrder : (seenFull && !decide ((f.slots j).used ≥ pagesPerHugepage)) = false := by
        cases seenFull with
        | false => rfl
        | true => simpa using after rfl j (by simp)
      have back' : (f.slots j).binPrev = prev := back
      unfold walkBin
      rw [if_neg notNil]
      dsimp only [get]
      rw [if_neg (by simp [touched, tag, back']), inOrder, if_neg Bool.false_ne_true]
      refine (ih rest (fun nil => real (by simp [nil])) (by simpa using fits)
        (fun i member => members i (by simp [member])) order.of_cons ?_).trans ?_
      · intro full i member
        simp only [Bool.or_eq_true, decide_eq_true_eq] at full
        rcases full with earlier | here
        · exact after earlier i (by simp [member])
        · exact (List.pairwise_cons.mp order).1 i member here
      · simp only [List.length_cons, List.getLastD_cons]
        congr 2
        omega

/-- A bin list is as long as the number of hugepages with its tag. -/
theorem Lists.length_eq_binned (h : Lists f (· < f.nextUntouched) L)
    (bound : f.nextUntouched ≤ f.capacity) (b : HugeBin) : (L b).length = f.binned b := by
  rw [binned, List.countP_eq_length_filter]
  refine List.Perm.length_eq ?_
  rw [List.perm_ext_iff_of_nodup (h.nodup b) (List.nodup_range.filter _)]
  intro i
  rw [h.filed b i, List.mem_filter, List.mem_range]
  simp only [Bool.and_eq_true, decide_eq_true_eq, beq_iff_eq, get]
  constructor
  · rintro ⟨below, tag⟩
    exact ⟨by omega, below, tag⟩
  · rintro ⟨-, below, tag⟩
    exact ⟨below, tag⟩

theorem Settled.slotOk (h : Settled f) (i : Nat) : f.slotOk i = true := by
  unfold HugePageFiller.slotOk
  dsimp only [get]
  split
  next above =>
    have fresh := h.wf.pristine i above
    simp [fresh.touched, fresh.live, fresh.committed, fresh.heads, fresh.inRun, fresh.runLen]
  next below =>
    have sound := h.wf.sound i (by omega)
    have tagged := h.wf.tagged i (by omega)
    have backed := h.backed i (by omega)
    have members : ((f.slots i).inRun && (f.slots i).used != pagesPerHugepage) = false := by
      cases single : (f.slots i).inRun with
      | false => rfl
      | true => simp [sound.runFull single]
    have led : ((f.slots i).runLen != 0 && !(f.slots i).inRun) = false := by
      by_cases zero : (f.slots i).runLen = 0
      · simp [zero]
      · simp [sound.runLed zero]
    have committed := and_not_eq_zero.mpr fun k live => (backed k live not_false).1
    have kept := and_eq_zero.mpr fun k live => (backed k live not_false).2
    have apart := and_eq_zero.mpr sound.apart
    have heads := and_not_eq_zero.mpr sound.headsLive
    simp only [Bool.and_eq_true, beq_iff_eq, Bool.not_eq_true']
    exact ⟨⟨⟨⟨⟨⟨⟨sound.touched, committed⟩, apart⟩, kept⟩, heads⟩, members⟩, led⟩, tagged⟩

/-- The self-check passes in every settled state. -/
theorem Settled.checkInvariants (h : Settled f) : f.checkInvariants = true := by
  obtain ⟨L, lists, order⟩ := h.wf.lists
  unfold HugePageFiller.checkInvariants
  simp only [Bool.and_eq_true, List.all_eq_true]
  refine ⟨fun i _ => h.slotOk i, ?_⟩
  intro b _
  have bound := h.wf.bound
  have nodup := lists.nodup b
  have below : ∀ i ∈ L b, i < f.nextUntouched ∧ (f.slots i).bin = b :=
    fun i member => (lists.filed b i).mp member
  have real : NIL ∉ L b := (lists.held.ring b).not_mem
  have short : (L b).length ≤ f.capacity := by
    have counted := lists.length_eq_binned bound b
    have most := List.countP_le_length (l := List.range f.capacity)
      (p := fun i => decide (i < f.nextUntouched) && (f.get i).bin == b)
    rw [List.length_range] at most
    rw [counted]
    exact most
  have walked : f.walkBin b f.capacity (f.bins b) NIL 0 false = some (0 + (L b).length, (L b).getLastD NIL) :=
    walkBin_eq (lists.held.path b) real short
      (fun i member => ⟨(h.wf.sound i (below i member).1).touched, (below i member).2⟩) (order b)
      (by simp)
  have last := (lists.held.ring b).last.1
  rw [List.getLast?_cons, Option.some.injEq,
    show f.binTable.pv NIL b NIL = f.binTails b by simp [Links.Table.pv, binTable]] at last
  rw [walked]
  simp only [Nat.zero_add, Bool.and_eq_true, beq_iff_eq]
  refine ⟨lists.length_eq_binned bound b, ?_⟩
  rw [← last, List.getLastD_eq_getLast?]

/-- A new filler has touched nothing. -/
theorem new_settled {regionBase capacity : Nat}
    (built : HugePageFiller.new metaOk slotBytes regionBase capacity = some f) : Settled f := by
  unfold HugePageFiller.new at built
  split at built
  · contradiction
  next sized =>
    simp only [Option.bind_eq_bind, Option.bind_eq_some_iff, Option.ite_none_left_eq_some,
      Option.some.injEq] at built
    obtain ⟨-, -, -, -, -, -, -, rfl⟩ := built
    refine ⟨⟨Nat.zero_le _, ?_, ⟨fun _ => [], ⟨⟨?_, by simp⟩, by simp [Links.Filed]⟩,
      fun _ => List.Pairwise.nil⟩, by simp, by simp, ?_⟩, by simp⟩
    · dsimp only
      omega
    · intro b
      refine ⟨by simp, ?_⟩
      simp [Links.Linked, Links.Table.nx, Links.Table.pv, binTable]
    · intro i _
      exact ⟨rfl, rfl, rfl, rfl, rfl, rfl, rfl⟩

end HugePageFiller

namespace HugePageBackend
variable {σ : Type} {P : Provider σ} {g g' : HugePageBackend} {f : HugePageFiller} {w w' : σ}
  {answer : Option Region} {hints : PlaceHints}

/-! ## One call -/

/-- The backend with another settled filler of as many hugepages, and another
cache. -/
structure Refits (g g' : HugePageBackend) : Prop where
  settled : g'.filler.Settled
  capacity : g'.filler.capacity = g.filler.capacity
  regionBase : g'.filler.regionBase = g.filler.regionBase
  region : g'.region = g.region
  released : g'.released = g.released

/-- The blocks are those of before. -/
structure Rests (g g' : HugePageBackend) : Prop extends Refits g g' where
  faces : ∀ j, g'.filler.faces j = g.filler.faces j

theorem Rests.refl (h : g.filler.Settled) : Rests g g := ⟨⟨h, rfl, rfl, rfl, rfl⟩, fun _ => rfl⟩

theorem rests_of_unmoved (settled : f.Settled) (unmoved : g.filler.Unmoved f) :
    Rests g { g with filler := f, cache := c } :=
  ⟨⟨settled, unmoved.capacity, unmoved.regionBase, rfl, rfl⟩, unmoved.faces⟩

/-- What `allocate` leaves behind: the blocks of before, or a block more. -/
inductive Allocated (g : HugePageBackend) (bytes align : Nat) :
    Option Region → HugePageBackend → Prop
  | refused {g' : HugePageBackend} (rests : Rests g g') : Allocated g bytes align none g'
  | packed {g' : HugePageBackend} {pages hp off stride base : Nat}
      (sized : pagesFor bytes pageSize = some pages) (few : pages ≤ pagesPerHugepage)
      (aimed : base = g.filler.hugeBase hp + off * pageSize) (inside : hp < g.filler.capacity)
      (strided : HugePageFiller.alignStride align = some stride) (dvd : stride ∣ off)
      (refits : Refits g g') (sound : (g.filler.faces hp).Sound)
      (single : (g.filler.faces hp).inRun = false) (pos : 0 < pages)
      (fits : off + pages ≤ pagesPerHugepage)
      (clear : ∀ k, off ≤ k → k < off + pages → (g.filler.faces hp).live.getLsbD k = false)
      (faces : ∀ j, g'.filler.faces j = update g.filler.faces hp ((g.filler.faces hp).carve off pages) j) :
      Allocated g bytes align (some (g.subregion base (pages * pageSize))) g'
  | run {g' : HugePageBackend} {pages n start base : Nat}
      (sized : pagesFor bytes pageSize = some pages) (many : ¬pages ≤ pagesPerHugepage)
      (aimed : base = g.filler.hugeBase start) (inside : start < g.filler.capacity)
      (power : isPowerOfTwo align = true) (small : align ≤ hugepageSize)
      (refits : Refits g g') (count : n = (pages + pagesPerHugepage - 1) / pagesPerHugepage)
      (pos : 0 < n)
      (empty : ∀ j, HugePageFiller.InRange start n j → (g.filler.faces j).live = 0)
      (members : ∀ j, HugePageFiller.InRange start n j → (g'.filler.faces j).inRun = true ∧
        (g'.filler.faces j).runLen = (if j = start then n else 0) ∧
        ∀ k < pagesPerHugepage, (g'.filler.faces j).live.getLsbD k = true)
      (other : ∀ j, ¬HugePageFiller.InRange start n j → g'.filler.faces j = g.filler.faces j) :
      Allocated g bytes align (some (g.subregion base (pages * pageSize))) g'

theorem allocatePacked_cases (h : g.filler.Settled) (sized : pagesFor bytes pageSize = some pages)
    (few : pages ≤ pagesPerHugepage) (ran : g.allocatePacked P pages align hints w = (answer, g', w')) :
    Allocated g bytes align answer g' := by
  unfold allocatePacked at ran
  split at ran
  · cases ran
    exact .refused (.refl h)
  next p filler placed =>
    obtain ⟨f₁, hp, off, stride, wf, opened, strided, pos, usable, carved⟩ := h.wf.place placed
    have settled := opened.settled wf h
    have unmoved := opened.unmoved h.wf
    obtain ⟨takenBack, committed⟩ := settled.carve pos usable carved
    obtain ⟨aimed, returned, moved⟩ := settled.carve_faces pos usable carved
    split at ran
    · cases ran
      exact .refused (rests_of_unmoved takenBack (unmoved.trans returned))
    cases ran
    obtain ⟨below, fits, clear, dvd⟩ := usable
    dsimp only at below fits clear dvd
    rw [runIsClear_iff] at clear
    have moving := unmoved.moved moved
    have sound := settled.wf.sound hp below
    have single : (f₁.faces hp).inRun = false :=
      sound.not_inRun (by omega) (clear off (Nat.le_refl _) (by omega))
    have bits : ∀ k, off ≤ k → k < off + pages → (f₁.faces hp).live.getLsbD k = false := clear
    have same := unmoved.faces hp
    rw [same] at single bits moving
    rw [HugePageFiller.hugeBase, unmoved.regionBase] at aimed
    have refits : Refits g { g with filler := filler.markCommitted p } :=
      ⟨committed, moving.capacity, moving.regionBase, rfl, rfl⟩
    exact .packed sized few aimed
      (unmoved.capacity ▸ Nat.lt_of_lt_of_le below settled.wf.bound) strided dvd refits
      (same ▸ sound.face) single pos fits bits moving.faces

/-- Asked for a run of `n` hugepages: it is there, reserved, or the filler is
as before. -/
def Obtained (f : HugePageFiller) (n : Nat) : Option HugeRun → HugePageFiller → Prop
  | some run, f' => ∃ start, f.Reserves f' run start n
  | none, f' => f' = f

theorem takeFrom_obtained (h : f.Settled) :
    Obtained f hugepages (RegionCache.takeFrom hugepages n is c f).1
      (RegionCache.takeFrom hugepages n is c f).2.2 := by
  induction is generalizing c with
  | nil => exact rfl
  | cons i is ih =>
    unfold RegionCache.takeFrom
    dsimp only
    by_cases fits : (c.entries i).hugepages = n
    · rw [if_pos fits]
      cases taken : f.reserveHugepagesAt (c.entries i).base hugepages with
      | none => exact ih
      | some result => exact h.reserveHugepagesAt taken
    · rw [if_neg fits]
      exact ih

section
variable (h : g.filler.Settled)
include h

/-- Asking for a run changes the filler and the cache only. -/
theorem obtainRun_obtained (asked : g.obtainRun n = (found, g')) :
    Obtained g.filler n found g'.filler ∧ ∃ cache, g' = { g with filler := g'.filler, cache } := by
  have taken : Obtained g.filler n (g.cache.take n g.filler).1 (g.cache.take n g.filler).2.2 := by
    unfold RegionCache.take
    dsimp only
    by_cases wraps : n % 2 ^ 32 = 0
    · rw [if_pos wraps]
      exact rfl
    · rw [if_neg wraps]
      exact takeFrom_obtained h
  unfold obtainRun at asked
  generalize g.cache.take n g.filler = answer at taken asked
  obtain ⟨_ | run, cache, filler⟩ := answer
  · obtain rfl : filler = g.filler := taken
    dsimp only at asked
    cases reserved : g.filler.reserveHugepages n with
    | none =>
      rw [reserved] at asked
      cases asked
      exact ⟨rfl, cache, rfl⟩
    | some result =>
      rw [reserved] at asked
      cases asked
      exact ⟨h.reserveHugepages reserved, cache, rfl⟩
  · cases asked
    exact ⟨taken, cache, rfl⟩

theorem allocateRun_cases (sized : pagesFor bytes pageSize = some pages) (many : ¬pages ≤ pagesPerHugepage)
    (power : isPowerOfTwo align = true) (small : align ≤ hugepageSize)
    (ran : g.allocateRun P pages w = (answer, g', w')) : Allocated g bytes align answer g' := by
  unfold allocateRun at ran
  dsimp only at ran
  generalize count : (pages + pagesPerHugepage - 1) / pagesPerHugepage = n at ran
  cases asked : g.obtainRun n with
  | mk found g₁ =>
    rw [asked] at ran
    obtain ⟨obtained, cache, frame⟩ := obtainRun_obtained h asked
    generalize g₁.filler = filler at obtained frame
    subst frame
    cases found with
    | none =>
      obtain rfl : filler = g.filler := obtained
      cases ran
      exact .refused (rests_of_unmoved h .refl)
    | some run =>
      obtain ⟨start, reserves⟩ := obtained
      have reserved := reserves.reserved
      dsimp only at ran
      split at ran
      · cases ran
        exact .refused (rests_of_unmoved reserved.freeHugepages (reserves.toTakes.released_faces h.wf))
      · cases ran
        obtain ⟨moved, members⟩ := reserves.toTakes.committed_faces
        have pos := reserved.pos
        have room := reserves.marked.inside
        have bound := reserves.marked.wf.bound
        have base := reserved.base
        rw [HugePageFiller.hugeBase, reserves.regionBase] at base
        have refits : Refits g { g with filler := filler.markRunCommitted run, cache } :=
          ⟨reserved.markRunCommitted, moved.capacity, moved.regionBase, rfl, rfl⟩
        exact .run sized many base (reserves.capacity ▸ by omega) power small refits count.symm pos
          reserves.empty members moved.other

theorem allocate_cases (ran : g.allocate P bytes align hints w = (answer, g', w')) :
    Allocated g bytes align answer g' := by
  have refused : Allocated g bytes align none g := .refused (.refl h)
  unfold allocate at ran
  split at ran
  · cases ran
    exact refused
  split at ran
  · cases ran
    exact refused
  next pages sized =>
    split at ran
    · cases ran
      exact refused
    next checked =>
      simp only [not_or, Bool.not_eq_false, Nat.not_lt] at checked
      split at ran
      next few => exact allocatePacked_cases h sized few ran
      next many => exact allocateRun_cases h sized many checked.2.1 checked.2.2 ran

theorem allocate_refits (ran : g.allocate P bytes align hints w = (answer, g', w')) : Refits g g' := by
  cases allocate_cases h ran with
  | refused rests => exact rests.toRefits
  | packed _ _ _ _ _ _ refits => exact refits
  | run _ _ _ _ _ _ refits => exact refits

theorem freeRegion_refits (r : Region) : Refits g (g.freeRegion r).2 := by
  have refused : Refits g g := (Rests.refl h).toRefits
  unfold freeRegion
  split
  · exact refused
  split
  · exact refused
  dsimp only
  split
  · have settled := h.free r.base (r.len / pageSize)
    rcases h.wf.free_faces r.base (r.len / pageSize) with ⟨-, same, -⟩ | ⟨-, hp, off, -, -, moved⟩
    · rw [same]
      exact refused
    · exact ⟨settled, moved.capacity, moved.regionBase, rfl, rfl⟩
  · generalize (r.len / pageSize + pagesPerHugepage - 1) / pagesPerHugepage = n
    have settled := h.freeHugepages r.base n
    rcases h.wf.freeHugepages_faces r.base n with ⟨same, -⟩ | ⟨-, start, -, -, -, -, -, moved, -⟩
    · rw [same]
      exact refused
    · exact ⟨settled, moved.capacity, moved.regionBase, rfl, rfl⟩

theorem trimRegion_cases (r : Region) (newLen : Nat) :
    g.trimRegion r newLen = (none, g) ∨
      ∃ newPages hp off f, pagesFor (max newLen 1) pageSize = some newPages ∧
        r.base = g.filler.hugeBase hp + off * pageSize ∧
        (g.filler.faces hp).Packed off (r.len / pageSize) ∧ 0 < newPages ∧
        newPages < r.len / pageSize ∧ f.Settled ∧
        g.filler.Moved f hp ((g.filler.faces hp).trim off (r.len / pageSize) newPages) ∧
        g.trimRegion r newLen =
          (some ((r.len / pageSize - newPages) * pageSize), { g with filler := f }) := by
  unfold trimRegion
  split
  · exact .inl rfl
  split
  · exact .inl rfl
  dsimp only
  split
  · exact .inl rfl
  next newPages rounded =>
    split
    · exact .inl rfl
    have settled := h.trim r.base (r.len / pageSize) newPages
    cases ran : g.filler.trim r.base (r.len / pageSize) newPages with
    | mk ok filler =>
      rw [ran] at settled
      rcases HugePageFiller.trim_faces ran with
        ⟨rfl, -⟩ | ⟨rfl, hp, off, base, packed, pos, shorter, moved⟩
      · exact .inl rfl
      · exact .inr ⟨newPages, hp, off, filler, rounded, base, packed, pos, shorter, settled, moved, rfl⟩

theorem trimRegion_refits (r : Region) (newLen : Nat) : Refits g (g.trimRegion r newLen).2 := by
  rcases trimRegion_cases h r newLen with same | ⟨_, _, _, f, -, -, -, -, -, settled, moved, same⟩
  · rw [same]
    exact (Rests.refl h).toRefits
  · rw [same]
    exact ⟨settled, moved.capacity, moved.regionBase, rfl, rfl⟩

theorem subrelease_rests (base pages : Nat) (pressureHigh : Bool) (w : σ) :
    Rests g (g.subrelease P base pages pressureHigh w).2.1 := by
  unfold subrelease
  split
  · exact .refl h
  split
  · exact .refl h
  next sr filler ran =>
    obtain ⟨given, takenBack⟩ := h.subrelease ran
    obtain ⟨unmoved, undone⟩ := HugePageFiller.subrelease_unmoved ran
    dsimp only
    split
    · exact rests_of_unmoved takenBack undone
    · split
      · exact rests_of_unmoved takenBack undone
      · exact rests_of_unmoved given unmoved

end

/-! ## The release loops -/

section Loops
variable (P) {I : HugePageBackend → Prop}
  (keeps : ∀ g base pages w, I g → I (g.subrelease P base pages true w).2.1)

include keeps

/-- What a subrelease keeps, the loops keep. -/
theorem releaseRunsFrom_keeps (idx base maxBytes fuel released searchFrom : Nat) (w : σ) (h : I g) :
    I (releaseRunsFrom P idx base maxBytes fuel released searchFrom g w).2.1 := by
  induction fuel generalizing released searchFrom g w with
  | zero => exact h
  | succ fuel ih =>
    unfold releaseRunsFrom
    dsimp only
    iterate 3
      split
      · exact h
    · exact ih _ _ _ (keeps _ _ _ _ h)

theorem releaseHugepageRuns_keeps (idx base maxBytes : Nat) (w : σ) (h : I g) :
    I (g.releaseHugepageRuns P idx base maxBytes w).2.1 :=
  releaseRunsFrom_keeps P keeps _ _ _ _ _ _ _ h

theorem releaseExcessFrom_keeps (reserve maxRelease fuel released releases kept start : Nat) (w : σ)
    (h : I g) : I (releaseExcessFrom P reserve maxRelease fuel released releases kept start g w).2.1 := by
  induction fuel generalizing released releases kept start g w with
  | zero => exact h
  | succ fuel ih =>
    unfold releaseExcessFrom
    split
    · exact h
    cases g.filler.nextEmptyBacked start with
    | none => exact h
    | some next =>
      obtain ⟨idx, base, committed⟩ := next
      dsimp only
      by_cases keep : kept < reserve
      · rw [if_pos keep]
        exact ih _ _ _ _ _ h
      · rw [if_neg keep]
        exact ih _ _ _ _ _ (releaseHugepageRuns_keeps P keeps idx base usizeMax w h)

theorem releaseWithinFrom_keeps (budget fuel released start : Nat) (w : σ) (h : I g) :
    I (releaseWithinFrom P budget fuel released start g w).2.1 := by
  induction fuel generalizing released start g w with
  | zero => exact h
  | succ fuel ih =>
    unfold releaseWithinFrom
    split
    · exact h
    dsimp only
    split
    · exact ih _ _ _ h
    · exact ih _ _ _ (releaseHugepageRuns_keeps P keeps _ _ _ _ h)

end Loops

/-! ## Runs -/

variable (P) {s : HugePageBackend × σ}

/-- A call of the backend, with its arguments. -/
inductive Call
  | allocate (bytes align : Nat) (hints : PlaceHints)
  | freeRegion (r : Region)
  | tryCacheRevoking (r : Region) (arena : Nat)
  | trimRegion (r : Region) (newLen : Nat)
  | subrelease (base pages : Nat) (pressureHigh : Bool)
  | releaseEmptyExcessBounded (reserve maxRelease : Nat)
  | releaseEmptyWithinBytes (budget : Nat)
  | markCold (addr : Nat)

/-- The backend and the provider's state after one call. -/
def step (s : HugePageBackend × σ) : Call → HugePageBackend × σ
  | .allocate bytes align hints => (s.1.allocate P bytes align hints s.2).2
  | .freeRegion r => ((s.1.freeRegion r).2, s.2)
  | .tryCacheRevoking r arena => ((hook P).tryCacheRevoking s r arena).2
  | .trimRegion r newLen => ((s.1.trimRegion r newLen).2, s.2)
  | .subrelease base pages pressureHigh => (s.1.subrelease P base pages pressureHigh s.2).2
  | .releaseEmptyExcessBounded reserve maxRelease =>
    (s.1.releaseEmptyExcessBounded P reserve maxRelease s.2).2
  | .releaseEmptyWithinBytes budget => (s.1.releaseEmptyWithinBytes P budget s.2).2
  | .markCold addr => ((s.1.markCold addr).2, s.2)

def run (s : HugePageBackend × σ) (calls : List Call) : HugePageBackend × σ := calls.foldl (step P) s

theorem step_settled (h : s.1.filler.Settled) (call : Call) : (step P s call).1.filler.Settled := by
  cases call with
  | allocate bytes align hints => exact (allocate_refits h Prod.mk.eta.symm).settled
  | freeRegion r => exact (freeRegion_refits h r).settled
  | tryCacheRevoking r arena =>
    simp only [step, hook]
    split
    · exact h
    · exact (freeRegion_refits h r).settled
  | trimRegion r newLen => exact (trimRegion_refits h r newLen).settled
  | subrelease base pages pressureHigh => exact (subrelease_rests h ..).settled
  | releaseEmptyExcessBounded reserve maxRelease =>
    exact releaseExcessFrom_keeps P (I := (·.filler.Settled))
      (fun g _ _ _ h => (subrelease_rests h ..).settled) _ _ _ _ _ _ _ _ h
  | releaseEmptyWithinBytes budget =>
    exact releaseWithinFrom_keeps P (I := (·.filler.Settled))
      (fun g _ _ _ h => (subrelease_rests h ..).settled) _ _ _ _ _ h
  | markCold addr => exact h.markCold addr

theorem run_settled (h : s.1.filler.Settled) (calls : List Call) : (run P s calls).1.filler.Settled := by
  induction calls generalizing s with
  | nil => exact h
  | cons call calls ih => exact ih (step_settled P h call)

variable {source : MetadataSource} {region : Region} {arena capacityHugepages regionCacheSlots : Nat}

theorem new_settled (built : new source region arena capacityHugepages regionCacheSlots = some g) :
    g.filler.Settled := by
  unfold new at built
  split at built
  · contradiction
  · simp only [Option.bind_eq_bind, Option.bind_eq_some_iff, Option.some.injEq] at built
    obtain ⟨-, -, filler, made, -, -, rfl⟩ := built
    exact HugePageFiller.new_settled made

/-- The filler passes its self-check after any calls on a new backend, whatever
the provider answers to each commit, decommit and revoke. -/
theorem checkInvariants_after_calls
    (built : new source region arena capacityHugepages regionCacheSlots = some g) (w : σ)
    (calls : List Call) : (run P (g, w) calls).1.checkInvariants = true :=
  (run_settled P (new_settled built) calls).checkInvariants

/-- Two hugepages at address 0, with one entry in the region cache. -/
def twoHugepages : HugePageBackend :=
  { region := ⟨0, 2 * hugepageSize⟩, arena := 0
    filler := { slots := fun _ => {}, capacity := 2, regionBase := 0, nextUntouched := 0,
                bins := fun _ => NIL, binTails := fun _ => NIL, subreleaseEvents := 0 }
    cache := { entries := fun _ => {}, slots := 1, live := 0 }
    released := false }

theorem twoHugepages_eq_new : new ⟨96, 16, true, true⟩ ⟨0, 2 * hugepageSize⟩ 0 2 1 = some twoHugepages := by
  rfl

theorem checkInvariants_after_two_calls :
    (run Provider.willing (twoHugepages, ())
      [.allocate pageSize pageSize {}, .freeRegion ⟨0, pageSize⟩]).1.checkInvariants = true :=
  checkInvariants_after_calls Provider.willing twoHugepages_eq_new () _

end HugePageBackend
end Topomalloc
