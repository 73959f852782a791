import Topomalloc.Huge.Tokens

/-! When `reserve_hugepages` finds a run. It looks for enough consecutive empty
hugepages among the touched ones, and otherwise takes fresh ones from the
frontier on; a free run that begins before the frontier and ends after it is in
neither search. So it serves a request exactly if some free run stands on one
side of the frontier. -/
namespace Topomalloc
open Function Bitmap

namespace HugePageFiller
variable {f f' f₀ : HugePageFiller} {s : Booked} {i n start : Nat}

/-- The hugepage is untouched, or touched with no live page. -/
def FreeAt (f : HugePageFiller) (i : Nat) : Prop := (f.slots i).touched = false ∨ (f.slots i).live = 0

/-- `n` free hugepages in a row, inside the region. -/
def FreeRun (f : HugePageFiller) (start n : Nat) : Prop :=
  start + n ≤ f.capacity ∧ ∀ j, InRange start n j → f.FreeAt j

/-- What an answer to a reservation of `n` hugepages promises: none is answered
only if there is no free run; a run that is answered was free, is live and
marked, and nothing but links changes in the other hugepages. -/
def Promised (f : HugePageFiller) (n : Nat) : Option HugeRun → HugePageFiller → Prop
  | none, _ => ¬∃ start, f.FreeRun start n
  | some run, f' => ∃ start, run.base = f.hugeBase start ∧ run.hugepages = n ∧
    f.FreeRun start n ∧ (f'.slots start).runLen = n ∧
    (∀ j, InRange start n j → (f'.slots j).used = pagesPerHugepage ∧ (f'.slots j).inRun = true) ∧
    ∀ j, ¬InRange start n j → (f'.slots j).body = (f.slots j).body

/-! ## The search misses nothing below the frontier -/

/-- If the loop finds nothing, each stretch of `n` hugepages that begins among
the last `run` seen or later has one that is not empty. -/
theorem findConsecutiveFrom_complete (start : Nat) (short : run < n)
    (missed : f.findConsecutiveFrom n (List.range' i count) run = none) (lower : i ≤ start + run)
    (upper : start + n ≤ i + count) : ∃ j, i ≤ j ∧ InRange start n j ∧ (f.slots j).used ≠ 0 := by
  induction count generalizing i run with
  | zero => omega
  | succ count ih =>
    rw [List.range'_succ] at missed
    unfold findConsecutiveFrom at missed
    dsimp only [get] at missed
    split at missed
    next empty =>
      split at missed
      · contradiction
      next more =>
        obtain ⟨j, later, inRange, busy⟩ := ih (by omega) missed (by omega) (by omega)
        exact ⟨j, by omega, inRange, busy⟩
    next busy =>
      -- the stretch either holds this hugepage or begins after it
      by_cases begun : start ≤ i
      · exact ⟨i, Nat.le_refl i, ⟨begun, by omega⟩, busy⟩
      · obtain ⟨j, later, inRange, busy'⟩ := ih (by omega) missed (by omega) (by omega)
        exact ⟨j, by omega, inRange, busy'⟩

theorem WF.used_of_freeAt (wf : WF f f.nextUntouched) (free : f.FreeAt i) : (f.slots i).used = 0 := by
  refine popcount_eq_zero.mpr ?_
  rcases free with untouched | empty
  · refine (wf.pristine i ?_).live
    by_contra below
    rw [(wf.sound i (by omega)).touched] at untouched
    contradiction
  · exact empty

/-- Without an answer, no free run stands on one side of the frontier. -/
theorem WF.reserveHugepages_none (wf : WF f f.nextUntouched) (pos : 0 < n)
    (none : f.reserveHugepages n = none) (free : f.FreeRun start n) :
    ¬(start + n ≤ f.nextUntouched ∨ f.nextUntouched ≤ start) := by
  obtain ⟨room, empty⟩ := free
  rw [reserveHugepages_takeRun, if_neg (by omega), Option.map_eq_none_iff] at none
  split at none
  · contradiction
  next missed =>
    rw [findConsecutiveEmpty, List.range_eq_range'] at missed
    rintro (below | above)
    · obtain ⟨j, -, inRange, busy⟩ :=
        findConsecutiveFrom_complete start pos missed (by omega) (by omega)
      exact busy (wf.used_of_freeAt (empty j inRange))
    · rw [if_neg (by omega)] at none
      contradiction

theorem Takes.promised (takes : Takes f f' run start n) : f.Promised n (some run) f' := by
  have marked := takes.marked
  have inside := marked.inside
  obtain ⟨room, -⟩ := takes.vacant
  refine ⟨start, ?_, marked.hugepages, ⟨room, fun j inRange => .inr (takes.empty j inRange)⟩,
    marked.led, fun j inRange => ?_, takes.other⟩
  · rw [marked.base, hugeBase, hugeBase, takes.regionBase]
  · have member := marked.members j inRange
    simp only [InRange] at inRange
    exact ⟨(marked.wf.sound j (by omega)).runFull member, member⟩

/-- A reservation keeps its promise exactly if there is no free run, or one that
stands on one side of the frontier. -/
theorem promised_iff_one_side {metaOk : Bool} {slotBytes regionBase capacity : Nat}
    (built : HugePageFiller.new metaOk slotBytes regionBase capacity = some f₀)
    (reached : Reached f₀ s) (n : UInt64) (pos : 0 < n.toNat) :
    (∃ run f', Checked.reserveHugepages s.filler n.toNat = some (run, f') ∧
        s.filler.Promised n.toNat run f') ↔
      (¬∃ start, s.filler.FreeRun start n.toNat) ∨ ∃ start, s.filler.FreeRun start n.toNat ∧
          (start + n.toNat ≤ s.filler.nextUntouched ∨ s.filler.nextUntouched ≤ start) := by
  have kept := reached.kept built
  have ran := (Checked.reserveHugepages_eq (n := n.toNat) kept.ranged).1
  cases taken : s.filler.reserveHugepages n.toNat with
  | none =>
    rw [taken] at ran
    constructor
    · rintro ⟨run, f', ran', promised⟩
      rw [ran] at ran'
      obtain ⟨rfl, rfl⟩ := Prod.mk.inj (Option.some.inj ran')
      exact .inl promised
    · rintro (nowhere | ⟨start, free, side⟩)
      · exact ⟨none, s.filler, ran, nowhere⟩
      · exact absurd side (kept.wf.reserveHugepages_none pos taken free)
  | some result =>
    obtain ⟨run, f'⟩ := result
    rw [taken] at ran
    obtain ⟨start, takes⟩ := kept.wf.reserveHugepages taken
    have promised := takes.promised
    refine iff_of_true ⟨some run, f', ran, promised⟩ (.inr ⟨start, ?_, ?_⟩)
    · obtain ⟨room, -⟩ := takes.vacant
      exact ⟨room, fun j inRange => .inr (takes.empty j inRange)⟩
    · rcases takes.side with below | above
      · exact .inl below
      · exact .inr above.ge

/-- One page placed on the first of two hugepages. -/
theorem placed_twoSlots : ∃ s, step ⟨twoSlots, []⟩ (.place 1 1 {}) = some s ∧ Reached twoSlots s := by
  obtain ⟨s, placed⟩ := Option.isSome_iff_exists.mp
    (show (step ⟨twoSlots, []⟩ (.place 1 1 {})).isSome = true by decide +kernel)
  exact ⟨s, placed, .step .start (show (Call.place 1 1 {}).Aimed _ from trivial) placed⟩

/-- The other hugepage is reserved. -/
theorem promised_iff_one_side_twoSlots : ∃ s, Reached twoSlots s ∧ s.filler.nextUntouched = 1 ∧
    ∃ run f', Checked.reserveHugepages s.filler 1 = some (run, f') ∧ s.filler.Promised 1 run f' := by
  obtain ⟨s, placed, reached⟩ := placed_twoSlots
  have looked : (step ⟨twoSlots, []⟩ (.place 1 1 {})).map (fun s =>
      (s.filler.capacity, s.filler.nextUntouched, (s.filler.slots 1).live)) = some (2, 1, 0) := by
    decide +kernel
  rw [placed, Option.map_some, Option.some.injEq, Prod.mk.injEq, Prod.mk.injEq] at looked
  obtain ⟨capacity, frontier, empty⟩ := looked
  refine ⟨s, reached, frontier, (promised_iff_one_side twoSlots_eq_new reached 1 (by decide)).mpr
    (.inr ⟨1, ⟨capacity.ge, fun j inRange => .inr ?_⟩, .inr frontier.le⟩)⟩
  obtain rfl : j = 1 := Nat.le_antisymm (Nat.le_of_lt_succ inRange.2) inRange.1
  exact empty

/-- The page is freed again: the two hugepages are free, the first touched and the second
not, and a run of two is refused. -/
theorem straddling_run_refused :
    ∃ s, Reached twoSlots s ∧ s.filler.FreeRun 0 2 ∧
      ∃ f', Checked.reserveHugepages s.filler 2 = some (none, f') := by
  obtain ⟨s₁, placed, opened⟩ := placed_twoSlots
  obtain ⟨s₂, freed⟩ := Option.isSome_iff_exists.mp
    (show ((step ⟨twoSlots, []⟩ (.place 1 1 {})).bind (step · (.free 0 1))).isSome = true by
      decide +kernel)
  have looked : ((step ⟨twoSlots, []⟩ (.place 1 1 {})).bind (step · (.free 0 1))).map (fun s =>
      (s.filler.capacity, (s.filler.slots 0).live, (s.filler.slots 1).live,
        (Checked.reserveHugepages s.filler 2).map (·.1))) = some (2, 0, 0, some none) := by
    decide +kernel
  rw [freed, Option.map_some, Option.some.injEq, Prod.mk.injEq, Prod.mk.injEq, Prod.mk.injEq] at looked
  obtain ⟨capacity, first, second, refused⟩ := looked
  rw [placed, Option.bind_some] at freed
  obtain ⟨⟨run, f'⟩, ran, rfl⟩ := Option.map_eq_some_iff.mp refused
  have emptied : Reached twoSlots s₂ := opened.step (show (Call.free 0 1).Aimed _ from trivial) freed
  refine ⟨s₂, emptied, ⟨capacity.ge, fun j inRange => .inr ?_⟩, f', ran⟩
  simp only [InRange] at inRange
  obtain rfl | rfl : j = 0 ∨ j = 1 := by omega
  · exact first
  · exact second

end HugePageFiller
end Topomalloc
