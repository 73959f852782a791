import Topomalloc.Huge.Ops

/-! Runs of whole hugepages. A run is reserved by carving its members one by
one, opening the untouched ones on the way, and marked at the end; until it is
marked and committed its members are live without backing. -/
namespace Topomalloc
open Function Bitmap

namespace HugePageFiller
variable {f f' g : HugePageFiller} {i j k n m base start : Nat} {s : HugePageSlot} {acc : Bool}
  {run : HugeRun}

/-- Hugepage `j` belongs to the `n` hugepages from `start` on. -/
def InRange (start n j : Nat) : Prop := start ≤ j ∧ j < start + n

/-! ## Writing a range of hugepages -/

/-- Writing every hugepage of a range by one rule `w`, refiling each. -/
theorem WF.writeAll (w : HugePageSlot → HugePageSlot) (natural : ∀ s, (w s).body = w s.body)
    (links : ∀ s, (w s).SameLinks s) (sound : ∀ s, s.Sound → (w s).Sound) (h : WF f m)
    (inside : start + n ≤ m) :
    let f' := (List.range' start n).foldl (fun f j => (f.put j (w (f.get j))).refile j) f
    WF f' m ∧ SameRegion f f' ∧ (∀ j, InRange start n j →
        (f'.slots j).body = { w (f.slots j) with bin := (w (f.slots j)).targetBin }.body) ∧
      ∀ j, ¬ InRange start n j → (f'.slots j).body = (f.slots j).body := by
  induction n with
  | zero =>
    refine ⟨h, .refl, ?_, fun _ _ => rfl⟩
    intro j inRange
    simp only [InRange] at inRange
    omega
  | succ n ih =>
    obtain ⟨wf, same, written, kept⟩ := ih (by omega)
    dsimp only at wf same written kept ⊢
    rw [List.range'_concat, List.foldl_concat, Nat.one_mul]
    generalize (List.range' start n).foldl (fun f j => (f.put j (w (f.get j))).refile j) f = g at *
    have below : start + n < m := by omega
    have effect := refiled g (start + n) (w (g.get (start + n)))
    have old : (g.slots (start + n)).body = (f.slots (start + n)).body :=
      kept _ (by simp only [InRange]; omega)
    have image : (w (g.slots (start + n))).body = (w (f.slots (start + n))).body := by
      rw [natural, natural, old]
    refine ⟨wf.write below (links _) (sound _ (wf.sound _ below)), same.trans effect.same, ?_, ?_⟩
    · intro j inRange
      by_cases last : j = start + n
      · subst last
        rw [effect.here, HugePageSlot.targetBin_of_body image]
        exact congrArg (fun s : HugePageSlot =>
          { s with bin := (w (f.slots (start + n))).targetBin }) image
      · rw [effect.other j last]
        exact written j (by simp only [InRange] at inRange ⊢; omega)
    · intro j outside
      simp only [InRange] at outside
      rw [effect.other j (by omega)]
      exact kept j (by simp only [InRange]; omega)

/-- A slot written in place, with the occupancy and the tag it had, needs no
refiling. -/
theorem WF.mark (h : WF f m) (inside : i < m) (links : s.SameLinks (f.slots i))
    (used : s.used = (f.slots i).used) (target : s.targetBin = (f.slots i).targetBin)
    (sound : s.Sound) : WF (f.put i s) m := by
  obtain ⟨L, lists, order⟩ := h.lists
  refine ⟨h.bound, h.real, ⟨L, lists.put links, ?_⟩, ?_, ?_, ?_⟩
  · intro b
    refine (order b).congr ?_
    intro j _
    by_cases here : j = i
    · subst here
      simpa [put] using used
    · simp [put, here]
  · intro j below
    by_cases here : j = i
    · subst here
      simpa [put] using sound
    · simpa [put, here] using h.sound j below
  · intro j below
    by_cases here : j = i
    · subst here
      have tagged := h.tagged j below
      simp only [put, update_self]
      rw [links.bin, target, tagged]
    · simpa [put, here] using h.tagged j below
  · intro j above
    simpa [put, show j ≠ i by omega] using h.pristine j above

/-! ## Carving the members -/

/-- The members of the run up to `k` are carved, opened where they were not
touched; `m` was the frontier before. -/
structure CarvedUpTo (f f' : HugePageFiller) (start k m : Nat) : Prop where
  wf : WF f' (max m (start + k))
  same : SameRegion f f'
  full : ∀ j, InRange start k j → (f'.slots j).used = pagesPerHugepage
  other : ∀ j, ¬ InRange start k j → (f'.slots j).body = (f.slots j).body

/-- Opening the next member, if it is not open yet. -/
theorem WF.touch (h : WF f m) (next : j ≤ m) (room : j < f.capacity) (empty : (f.slots j).live = 0) :
    WF (f.touch j) (max m (j + 1)) ∧ SameRegion f (f.touch j) ∧ ((f.touch j).slots j).live = 0 ∧
      ∀ i, i ≠ j → ((f.touch j).slots i).body = (f.slots i).body := by
  unfold HugePageFiller.touch
  by_cases below : j < m
  · rw [if_neg (by simp [(h.sound j below).touched]), Nat.max_eq_left below]
    exact ⟨h, .refl, empty, fun _ _ => rfl⟩
  · obtain rfl : j = m := by omega
    have fresh := h.pristine j (Nat.le_refl _)
    rw [if_pos fresh.touched, Nat.max_eq_right (by omega)]
    have sound : (opened (f.slots j)).Sound := fresh.touch ..
    refine ⟨h.enter room sound empty fresh.released, enter_sameRegion _, ?_, ?_⟩
    · have live := congrArg HugePageSlot.live
        (enter_body_self (f := f) (i := j) (s := opened (f.slots j)) .emptyBacked)
      exact (show _ = (f.slots j).live from live).trans empty
    · intro i other
      exact enter_body_other _ other

theorem touch_of_touched (touched : (f.slots j).touched = true) : f.touch j = f := by
  simp [touch, touched]

/-- One turn of the reservation loop. -/
theorem CarvedUpTo.step (h : CarvedUpTo f f' start k m) (room : start + k < f.capacity)
    (empty : (f.slots (start + k)).live = 0) :
    CarvedUpTo f (carveWhole (acc, f'.touch (start + k)) (start + k)).2 start (k + 1) m := by
  have old := h.other (start + k) (by simp only [InRange]; omega)
  have empty' : (f'.slots (start + k)).live = 0 := (congrArg HugePageSlot.live old :).trans empty
  obtain ⟨wf, same, clear, others⟩ := h.wf.touch (j := start + k) (by omega) (h.same.capacity ▸ room) empty'
  generalize f'.touch (start + k) = g at *
  rw [show max (max m (start + k)) (start + k + 1) = max m (start + (k + 1)) by omega] at wf
  have below : start + k < max m (start + (k + 1)) := by omega
  have effect := refiled g (start + k) (carved (g.slots (start + k)) 0 pagesPerHugepage {})
  have written : WF ((g.put (start + k) (carved (g.slots (start + k)) 0 pagesPerHugepage {})).refile
      (start + k)) (max m (start + (k + 1))) := by
    refine wf.write below carved_sameLinks ((wf.sound _ below).carved (by decide) (by decide) ?_)
    simp [runIsClear_iff, clear]
  have region := (h.same.trans same).trans effect.same
  refine ⟨written, region, ?_, ?_⟩
  · intro j inRange
    by_cases last : j = start + k
    · subst last
      refine (HugePageSlot.used_of_body effect.here).trans (popcount_eq_width.mpr ?_)
      intro p inside
      simp only [carved, getLsbD_setRun]
      simp [inside]
    · have full := h.full j (by simp only [InRange] at inRange ⊢; omega)
      rw [← full]
      exact HugePageSlot.used_of_body ((effect.other j last).trans (others j last))
  · intro j outside
    simp only [InRange] at outside
    refine ((effect.other j (by omega)).trans (others j (by omega))).trans (h.other j ?_)
    simp only [InRange]
    omega

/-- The loop of `reserve_hugepages`. -/
theorem WF.carveRun (acc : Bool) (h : WF f m) (reached : start ≤ m) (room : start + n ≤ f.capacity)
    (empty : ∀ j, InRange start n j → (f.slots j).live = 0) :
    CarvedUpTo f ((List.range' start n).foldl
      (fun acc j => carveWhole (acc.1, acc.2.touch j) j) (acc, f)).2 start n m := by
  induction n with
  | zero =>
    refine ⟨by rwa [Nat.add_zero, Nat.max_eq_left reached], .refl, ?_, fun _ _ => rfl⟩
    intro j inRange
    simp only [InRange] at inRange
    omega
  | succ n ih =>
    have before := ih (by omega) fun j inRange => empty j (by simp only [InRange] at *; omega)
    rw [List.range'_concat, List.foldl_concat, Nat.one_mul]
    exact before.step (by omega) (empty _ (by simp only [InRange]; omega))

/-- The loop of `reserve_hugepages_at` meets touched hugepages only, so opening
them would change nothing. -/
theorem WF.carveRun_touched (h : WF f m) (inside : start + n ≤ m)
    (empty : ∀ j, InRange start n j → (f.slots j).live = 0) :
    (List.range' start n).foldl carveWhole (acc, f) =
      (List.range' start n).foldl (fun acc j => carveWhole (acc.1, acc.2.touch j) j) (acc, f) := by
  induction n with
  | zero => rw [List.range'_zero, List.foldl_nil, List.foldl_nil]
  | succ n ih =>
    have smaller : ∀ j, InRange start n j → (f.slots j).live = 0 :=
      fun j inRange => empty j (by simp only [InRange] at *; omega)
    have bound := h.bound
    have before := h.carveRun acc (by omega) (by omega) smaller
    rw [List.range'_concat, List.foldl_concat, List.foldl_concat, ih (by omega) smaller, Nat.one_mul]
    generalize (List.range' start n).foldl
      (fun acc j => carveWhole (acc.1, acc.2.touch j) j) (acc, f) = reached at *
    obtain ⟨needsCommit, g⟩ := reached
    dsimp only at before ⊢
    rw [touch_of_touched (before.wf.sound (start + n) (by omega)).touched]

/-! ## Marking the run -/

/-- Marking full hugepages as members of one run; the first records the
length. -/
theorem WF.markRun (h : WF f m) (inside : start + k ≤ m)
    (full : ∀ j, InRange start k j → (f.slots j).used = pagesPerHugepage) :
    let f' := (List.range' start k).foldl
      (fun f j => f.put j { f.get j with inRun := true, runLen := if j = start then n else 0 }) f
    WF f' m ∧ SameRegion f f' ∧ (∀ j, InRange start k j →
        f'.slots j = { f.slots j with inRun := true, runLen := if j = start then n else 0 }) ∧
      ∀ j, ¬ InRange start k j → f'.slots j = f.slots j := by
  induction k with
  | zero =>
    refine ⟨h, .refl, ?_, fun _ _ => rfl⟩
    intro j inRange
    simp only [InRange] at inRange
    omega
  | succ k ih =>
    obtain ⟨wf, same, marked, kept⟩ :=
      ih (by omega) fun j inRange => full j (by simp only [InRange] at *; omega)
    dsimp only at wf same marked kept ⊢
    rw [List.range'_concat, List.foldl_concat, Nat.one_mul]
    generalize (List.range' start k).foldl
      (fun f j => f.put j { f.get j with inRun := true, runLen := if j = start then n else 0 }) f
      = g at *
    have below : start + k < m := by omega
    have old := kept (start + k) (by simp only [InRange]; omega)
    have sound := wf.sound _ below
    refine ⟨?_, ⟨same.capacity, same.regionBase, same.nextUntouched⟩, ?_, ?_⟩
    · refine wf.mark below ⟨rfl, rfl, rfl⟩ rfl rfl
        ⟨sound.touched, sound.apart, sound.headsLive, sound.headed, ?_, fun _ => rfl⟩
      intro _
      have occupied := full (start + k) (by simp only [InRange]; omega)
      rw [← old] at occupied
      exact occupied
    · intro j inRange
      by_cases last : j = start + k
      · subst last
        simp [put, old]
      · simp only [put, update_of_ne last]
        exact marked j (by simp only [InRange] at inRange ⊢; omega)
    · intro j outside
      simp only [InRange] at outside
      simp only [put, update_of_ne (show j ≠ start + k by omega)]
      exact kept j (by simp only [InRange]; omega)

/-- A run that is marked; nothing is said of its backing or any other. -/
structure Marked (f : HugePageFiller) (run : HugeRun) (start n : Nat) : Prop where
  wf : WF f f.nextUntouched
  inside : start + n ≤ f.nextUntouched
  pos : 0 < n
  base : run.base = f.hugeBase start
  hugepages : run.hugepages = n
  led : (f.slots start).runLen = n
  members : ∀ j, InRange start n j → (f.slots j).inRun = true
  followers : ∀ j, InRange start n j → j ≠ start → (f.slots j).runLen = 0

/-- A run that is reserved and marked, but perhaps not committed. -/
structure Reserved (f : HugePageFiller) (run : HugeRun) (start n : Nat) : Prop
    extends Marked f run start n where
  backed : ∀ j < f.nextUntouched, ¬ InRange start n j → (f.slots j).Backed

/-- Carving and marking reserves the run. -/
theorem CarvedUpTo.runOf (h : CarvedUpTo f g start n m) (pos : 0 < n)
    (next : g.nextUntouched = max m (start + n)) (needsCommit : Bool) (aimed : base = g.hugeBase start) :
    Marked (g.runOf needsCommit start base n).2 (g.runOf needsCommit start base n).1 start n ∧
      (∀ j, ¬ InRange start n j → ((g.runOf needsCommit start base n).2.slots j).body = (f.slots j).body) ∧
      SameRegion f (g.runOf needsCommit start base n).2 := by
  obtain ⟨wf, same, marked, kept⟩ := h.wf.markRun (n := n) (by omega) h.full
  unfold HugePageFiller.runOf HugePageFiller.markRun
  dsimp only at wf same marked kept ⊢
  generalize (List.range' start n).foldl
    (fun f j => f.put j { f.get j with inRun := true, runLen := if j = start then n else 0 }) g
    = f' at *
  refine ⟨⟨?_, ?_, pos, ?_, rfl, ?_, ?_, ?_⟩, ?_, h.same.trans same⟩
  · rwa [same.nextUntouched, next]
  · rw [same.nextUntouched, next]
    omega
  · rw [aimed, hugeBase, hugeBase, same.regionBase]
  · rw [marked start (by simp only [InRange]; omega)]
    simp
  · intro j inRange
    rw [marked j inRange]
  · intro j inRange other
    rw [marked j inRange]
    simp [other]
  · intro j outside
    rw [kept j outside]
    exact h.other j outside

/-! ## Reserving -/

/-- A stretch of hugepages found empty. -/
theorem findConsecutiveFrom_spec {run : Nat} (short : run < n) (fits : run ≤ i)
    (before : ∀ j, i - run ≤ j → j < i → (f.slots j).used = 0)
    (found : f.findConsecutiveFrom n (List.range' i count) run = some start) :
    start + n ≤ i + count ∧ ∀ j, InRange start n j → (f.slots j).used = 0 := by
  induction count generalizing i run with
  | zero => contradiction
  | succ count ih =>
    rw [List.range'_succ] at found
    unfold findConsecutiveFrom at found
    dsimp only [get] at found
    split at found
    next empty =>
      have upTo : ∀ j, i - run ≤ j → j < i + 1 → (f.slots j).used = 0 := by
        intro j lower upper
        by_cases here : j = i
        · rw [here, empty]
        · exact before j lower (by omega)
      split at found
      next reached =>
        obtain rfl := Option.some.inj found
        refine ⟨by omega, ?_⟩
        intro j inRange
        simp only [InRange] at inRange
        exact upTo j (by omega) (by omega)
      next more =>
        have result := ih (by omega) (by omega) (fun j lower upper => upTo j (by omega) upper) found
        exact ⟨by omega, result.2⟩
    next busy =>
      have result := ih (by omega) (by omega) (fun j lower upper => by omega) found
      exact ⟨by omega, result.2⟩

theorem findConsecutiveEmpty_spec (pos : 0 < n) (found : f.findConsecutiveEmpty n = some start) :
    start + n ≤ f.nextUntouched ∧ ∀ j, InRange start n j → (f.slots j).used = 0 := by
  unfold findConsecutiveEmpty at found
  rw [List.range_eq_range'] at found
  have result := findConsecutiveFrom_spec pos (Nat.zero_le _) (by omega) found
  simpa using result

/-- What `reserve_hugepages` does with the run it found. -/
def takeRun (f : HugePageFiller) (start n : Nat) : HugeRun × HugePageFiller :=
  let (needsCommit, f) := (List.range' start n).foldl
    (fun acc j => carveWhole (acc.1, acc.2.touch j) j) (false, f)
  f.runOf needsCommit start (f.hugeBase start) n

theorem reserveHugepages_takeRun (f : HugePageFiller) (n : Nat) :
    f.reserveHugepages n =
      if n = 0 ∨ n > f.capacity then none
      else Option.map (fun x : Nat × HugePageFiller => x.2.takeRun x.1 n) (match f.findConsecutiveEmpty n with
        | some s => some (s, f)
        | none =>
          if f.nextUntouched + n > f.capacity then none
          else some (f.nextUntouched, { f with nextUntouched := f.nextUntouched + n })) := rfl

/-- What a reservation leaves: the run is marked, its members were empty and
stood on one side of the frontier, and no other hugepage is touched. -/
structure Takes (f f' : HugePageFiller) (run : HugeRun) (start n : Nat) : Prop where
  marked : Marked f' run start n
  capacity : f'.capacity = f.capacity
  regionBase : f'.regionBase = f.regionBase
  next : f'.nextUntouched = max f.nextUntouched (start + n)
  side : start + n ≤ f.nextUntouched ∨ start = f.nextUntouched
  empty : ∀ j, InRange start n j → (f.slots j).live = 0
  other : ∀ j, ¬ InRange start n j → (f'.slots j).body = (f.slots j).body

theorem WF.reserveHugepages (h : WF f f.nextUntouched)
    (ran : f.reserveHugepages n = some (run, f')) : ∃ start, Takes f f' run start n := by
  unfold HugePageFiller.reserveHugepages at ran
  split at ran
  · contradiction
  next sized =>
    have bound := h.bound
    obtain ⟨⟨start, g⟩, chosen, rest⟩ := Option.map_eq_some_iff.mp ran
    dsimp only at rest
    -- either way: `g` is `f` up to `next_untouched`, and the members are empty
    have facts : g.capacity = f.capacity ∧ g.regionBase = f.regionBase ∧ g.slots = f.slots ∧
        WF g f.nextUntouched ∧ (start + n ≤ f.nextUntouched ∨ start = f.nextUntouched) ∧
        start + n ≤ f.capacity ∧ g.nextUntouched = max f.nextUntouched (start + n) ∧
        ∀ j, InRange start n j → (f.slots j).live = 0 := by
      split at chosen
      next found =>
        obtain ⟨rfl, rfl⟩ := Prod.mk.inj (Option.some.inj chosen)
        obtain ⟨fits, empty⟩ := findConsecutiveEmpty_spec (by omega) found
        exact ⟨rfl, rfl, rfl, h, .inl fits, by omega, by omega,
          fun j inRange => popcount_eq_zero.mp (empty j inRange)⟩
      next =>
        split at chosen
        · contradiction
        next fits =>
          obtain ⟨rfl, rfl⟩ := Prod.mk.inj (Option.some.inj chosen)
          exact ⟨rfl, rfl, rfl, h.setNextUntouched _, .inr rfl, by omega, by simp,
            fun j inRange => (h.pristine j inRange.1).live⟩
    obtain ⟨capacity, regionBase, slots, wf, side, room, next, empty⟩ := facts
    have carved := wf.carveRun false (by omega) (capacity ▸ room) (slots.symm ▸ empty)
    generalize (List.range' start n).foldl (fun acc j => carveWhole (acc.1, acc.2.touch j) j)
      (false, g) = result at rest carved
    obtain ⟨needsCommit, g'⟩ := result
    obtain ⟨marked, other, same⟩ :=
      carved.runOf (by omega) (carved.same.nextUntouched.trans next) needsCommit rfl
    dsimp only at rest marked other same
    rw [rest] at marked other same
    exact ⟨start, marked, same.capacity.trans capacity, same.regionBase.trans regionBase,
      same.nextUntouched.trans next, side, empty,
      fun j outside => (other j outside).trans (by rw [slots])⟩

theorem WF.reserveHugepagesAt (h : WF f f.nextUntouched)
    (ran : f.reserveHugepagesAt base n = some (run, f')) :
    ∃ start, base = f.hugeBase start ∧ start + n ≤ f.nextUntouched ∧ Takes f f' run start n := by
  unfold HugePageFiller.reserveHugepagesAt at ran
  split at ran
  · contradiction
  next start found =>
    split at ran
    · contradiction
    next sized =>
      split at ran
      · contradiction
      next free =>
        simp only [not_or, not_not] at sized
        simp only [Bool.not_eq_true, List.any_eq_false, List.mem_range'_1, Bool.or_eq_true,
          Bool.not_eq_true', bne_iff_ne, not_or, not_not, Bool.not_eq_false, get] at free
        have inside : start + n ≤ f.nextUntouched := by
          have last := h.below_of_touched (free (start + n - 1) (by omega)).1
          omega
        have empty : ∀ j, InRange start n j → (f.slots j).live = 0 :=
          fun j inRange => popcount_eq_zero.mp (free j inRange).2
        have bound := h.bound
        have carved := h.carveRun false (by omega) (by omega) empty
        rw [h.carveRun_touched inside empty] at ran
        generalize (List.range' start n).foldl (fun acc j => carveWhole (acc.1, acc.2.touch j) j)
          (false, f) = result at ran carved
        obtain ⟨needsCommit, g⟩ := result
        have aimed : base = g.hugeBase start := by
          rw [sized.1, hugeBase, hugeBase, carved.same.regionBase]
        have next : g.nextUntouched = max f.nextUntouched (start + n) := by
          rw [carved.same.nextUntouched]
          omega
        obtain ⟨marked, other, same⟩ := carved.runOf (by omega) next needsCommit aimed
        dsimp only at ran marked other same
        rw [Option.some.inj ran] at marked other same
        refine ⟨start, sized.1, inside, marked, same.capacity, same.regionBase, ?_, .inl inside, empty, other⟩
        rw [same.nextUntouched]
        omega

/-- A reservation out of a settled filler: only the run lacks its backing. -/
structure Reserves (f f' : HugePageFiller) (run : HugeRun) (start n : Nat) : Prop
    extends Takes f f' run start n where
  backed : ∀ j < f'.nextUntouched, ¬ InRange start n j → (f'.slots j).Backed

theorem Reserves.reserved (h : Reserves f f' run start n) : Reserved f' run start n := ⟨h.marked, h.backed⟩

theorem Takes.reserves (takes : Takes f f' run start n) (h : Settled f) : Reserves f f' run start n := by
  have next := takes.next
  have side := takes.side
  refine ⟨takes, fun j below outside => ?_⟩
  refine HugePageSlot.BackedBut.of_body (h.backed j ?_) (takes.other j outside)
  simp only [InRange] at outside
  omega

theorem Settled.reserveHugepages (h : Settled f)
    (ran : f.reserveHugepages n = some (run, f')) : ∃ start, Reserves f f' run start n := by
  obtain ⟨start, takes⟩ := h.wf.reserveHugepages ran
  exact ⟨start, takes.reserves h⟩

theorem Settled.reserveHugepagesAt (h : Settled f)
    (ran : f.reserveHugepagesAt base n = some (run, f')) : ∃ start, Reserves f f' run start n := by
  obtain ⟨start, -, -, takes⟩ := h.wf.reserveHugepagesAt ran
  exact ⟨start, takes.reserves h⟩

/-! ## Committing and freeing a run -/

theorem indexOf_hugeBase (inside : start < f.capacity) : f.indexOf (f.hugeBase start) = some start := by
  have page := indexOf_page inside (show 0 < pagesPerHugepage by decide)
  simpa using page

/-- Writing every member backed settles a filler that only lacked the backing
of the run. -/
theorem WF.settle (w : HugePageSlot → HugePageSlot) (natural : ∀ s, (w s).body = w s.body)
    (links : ∀ s, (w s).SameLinks s) (sound : ∀ s, s.Sound → (w s).Sound)
    (backs : ∀ s, (w s).Backed) (h : WF f f.nextUntouched) (inside : start + n ≤ f.nextUntouched)
    (backed : ∀ j < f.nextUntouched, ¬ InRange start n j → (f.slots j).Backed) :
    Settled ((List.range' start n).foldl (fun f j => (f.put j (w (f.get j))).refile j) f) := by
  obtain ⟨wf, same, written, kept⟩ := h.writeAll w natural links sound inside
  refine ⟨same.nextUntouched ▸ wf, ?_⟩
  intro j below
  by_cases member : InRange start n j
  · exact ((backs _).retag _).of_body (written j member)
  · exact (backed j (same.nextUntouched ▸ below) member).of_body (kept j member)

/-- What `mark_run_committed` does: nothing, or it writes every member of the
run its token names. -/
theorem markRunCommitted_cases (run : HugeRun) (f : HugePageFiller) :
    f.markRunCommitted run = f ∨
      ∃ start, run.base = f.hugeBase start ∧ 0 < run.hugepages ∧ start + run.hugepages ≤ f.capacity ∧
        f.markRunCommitted run = (List.range' start run.hugepages).foldl
          (fun f j => (f.put j (wholeBacked (f.get j))).refile j) f := by
  unfold markRunCommitted
  split
  · exact .inl rfl
  next start found =>
    split
    · exact .inl rfl
    next aimed =>
      split
      · exact .inl rfl
      next sized => exact .inr ⟨start, not_not.mp aimed, by omega, by omega, rfl⟩

theorem Reserved.markRunCommitted (h : Reserved f run start n) : Settled (f.markRunCommitted run) := by
  have bound := h.wf.bound
  have inside := h.inside
  have pos := h.pos
  unfold HugePageFiller.markRunCommitted
  rw [h.base, h.hugepages, indexOf_hugeBase (by omega)]
  dsimp only
  rw [if_neg (by simp), if_neg (by omega)]
  exact h.wf.settle wholeBacked (fun _ => rfl) (fun _ => ⟨rfl, rfl, rfl⟩)
    (fun _ sound => sound.wholeBacked) (fun _ => HugePageSlot.wholeBacked_backed) inside h.backed

/-- What `free_hugepages` does: nothing, or every member is freed after all its
checks. -/
theorem freeHugepages_cases (base n : Nat) (f : HugePageFiller) :
    f.freeHugepages base n = (.invalid, f) ∨
      ∃ start, base = f.hugeBase start ∧ 0 < n ∧ start + n ≤ f.capacity ∧ (f.slots start).runLen = n ∧
        (∀ j, InRange start n j → (f.slots j).touched = true ∧ (f.slots j).inRun = true) ∧
        f.freeHugepages base n = (⟨true, true⟩, (List.range' start n).foldl
          (fun f j => (f.put j (wholeFreed (f.get j))).refile j) f) := by
  unfold freeHugepages
  split
  · exact .inl rfl
  next start found =>
    split
    · exact .inl rfl
    next sized =>
      split
      · exact .inl rfl
      next led =>
        split
        · exact .inl rfl
        next members =>
          simp only [not_or, not_not] at sized led
          simp only [Bool.not_eq_true, List.any_eq_false, List.mem_range'_1, Bool.or_eq_true,
            Bool.not_eq_true', bne_iff_ne, not_or, not_not, Bool.not_eq_false, get] at members
          obtain ⟨-, lower, upper, above⟩ := indexOf_eq_some found
          have aligned : base = f.hugeBase start := by
            obtain ⟨q, eq⟩ := sized.2.2
            simp only [hugeBase, hugepageSize] at *
            omega
          exact .inr ⟨start, aligned, by omega, by omega, led,
            fun j inRange => (members j inRange).1, rfl⟩

theorem Settled.freeHugepages (h : Settled f) (base n : Nat) : Settled (f.freeHugepages base n).2 := by
  rcases freeHugepages_cases base n f with same | ⟨start, -, pos, -, -, members, same⟩
  · rw [same]
    exact h
  · have inside : start + n ≤ f.nextUntouched := by
      have last := h.wf.below_of_touched (members (start + n - 1) (by simp only [InRange]; omega)).1
      omega
    rw [same]
    exact h.wf.settle wholeFreed (fun _ => rfl) (fun _ => ⟨rfl, rfl, rfl⟩)
      (fun _ sound => sound.wholeFreed) (fun _ => HugePageSlot.wholeFreed_backed) inside
      fun j below _ => h.backed j below

/-- `free_hugepages` past its checks. -/
theorem freeHugepages_eq (aimed : base = f.hugeBase start) (pos : 0 < n)
    (room : start + n ≤ f.capacity) (led : (f.slots start).runLen = n)
    (members : ∀ j, InRange start n j → (f.slots j).touched = true ∧ (f.slots j).inRun = true ∧
      (f.slots j).used = pagesPerHugepage) :
    f.freeHugepages base n = (⟨true, true⟩, (List.range' start n).foldl
      (fun f j => (f.put j (wholeFreed (f.get j))).refile j) f) := by
  have checked : ¬ ((List.range' start n).any fun j =>
      !(f.get j).touched || !(f.get j).inRun || (f.get j).used != pagesPerHugepage) = true := by
    simp only [Bool.not_eq_true, List.any_eq_false, List.mem_range'_1, Bool.or_eq_true,
      Bool.not_eq_true', bne_iff_ne, not_or, not_not, Bool.not_eq_false, get]
    intro j inRange
    obtain ⟨touched, member, full⟩ := members j inRange
    exact ⟨⟨touched, member⟩, full⟩
  have aligned : hugepageSize ∣ base - f.regionBase := by
    rw [aimed, hugeBase, Nat.add_sub_cancel_left]
    exact Nat.dvd_mul_left ..
  have found : f.indexOf base = some start := by
    rw [aimed]
    exact indexOf_hugeBase (by omega)
  have sized : ¬(n = 0 ∨ start + n > f.capacity ∨ ¬hugepageSize ∣ base - f.regionBase) := by
    simp only [not_or, not_not]
    exact ⟨by omega, by omega, aligned⟩
  simp only [freeHugepages, found]
  rw [if_neg sized, if_neg (not_not.mpr led), if_neg checked]

/-- A reserved run can be taken back. -/
theorem Marked.freeHugepages_eq (h : Marked f run start n) :
    f.freeHugepages run.base n = (⟨true, true⟩, (List.range' start n).foldl
      (fun f j => (f.put j (wholeFreed (f.get j))).refile j) f) := by
  have bound := h.wf.bound
  have inside := h.inside
  refine HugePageFiller.freeHugepages_eq h.base h.pos (by omega) h.led fun j inRange => ?_
  simp only [InRange] at inRange
  have sound := h.wf.sound j (by omega)
  have member := h.members j inRange
  exact ⟨sound.touched, member, sound.runFull member⟩

theorem Reserved.freeHugepages (h : Reserved f run start n) : Settled (f.freeHugepages run.base n).2 := by
  rw [h.freeHugepages_eq]
  exact h.wf.settle wholeFreed (fun _ => rfl) (fun _ => ⟨rfl, rfl, rfl⟩)
    (fun _ sound => sound.wholeFreed) (fun _ => HugePageSlot.wholeFreed_backed) h.inside h.backed

end HugePageFiller
end Topomalloc
