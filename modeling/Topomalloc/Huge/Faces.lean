import Topomalloc.Huge.Blocks

/-! What each call of the filler does to the faces of its hugepages: carving,
freeing and trimming change one face, taking and freeing a run changes the
faces of its hugepages, and the other calls change none. -/
namespace Topomalloc
open Function Bitmap

namespace HugePageSlot
variable {s t : HugePageSlot} {off pages newPages : Nat} {hints : PlaceHints}

theorem face_of_body (same : s.body = t.body) : s.face = t.face := by
  have faces : s.body.face = t.body.face := by rw [same]
  exact faces

theorem Sound.face (sound : s.Sound) : s.face.Sound := ⟨sound.headsLive, sound.headed⟩

theorem Pristine.face (fresh : s.Pristine) : s.face = Face.blank := by
  simp [HugePageSlot.face, Face.blank, fresh.live, fresh.heads, fresh.inRun]

theorem packed_iff :
    s.face.Packed off pages ↔
      0 < pages ∧ off + pages ≤ pagesPerHugepage ∧ HugePageFiller.isAllocation s off pages = true := by
  rw [isAllocation_iff]
  constructor
  · intro packed
    exact ⟨packed.pos, packed.fits, packed.live, packed.single, packed.head, packed.inner, packed.next⟩
  · rintro ⟨pos, fits, live, single, head, inner, next⟩
    exact ⟨pos, fits, single, live, head, inner, next⟩

theorem freed_face : (HugePageFiller.freed s off pages).face = s.face.free off pages := by
  unfold HugePageFiller.freed
  dsimp only
  split <;> rfl

end HugePageSlot

/-- Carving clear pages and freeing them again changes nothing. -/
theorem Face.free_carve {s : Face} (sound : s.Sound) (pos : 0 < pages)
    (clear : ∀ k, off ≤ k → k < off + pages → s.live.getLsbD k = false) :
    (s.carve off pages).free off pages = s := by
  obtain ⟨live, heads, inRun, runLen⟩ := s
  have noHead : heads.getLsbD off = false := by
    by_contra head
    have isLive := sound.headsLive off (by simpa using head)
    rw [clear off (Nat.le_refl _) (by omega)] at isLive
    contradiction
  simp only [Face.carve, Face.free, Face.mk.injEq, and_true]
  constructor
  · refine BitVec.eq_of_getLsbD_eq fun k _ => ?_
    have free := clear k
    simp only [getLsbD_clearRun, getLsbD_setRun]
    grind
  · refine BitVec.eq_of_getLsbD_eq fun k _ => ?_
    simp only [getLsbD_bitClear, getLsbD_bitSet]
    grind

namespace HugePageFiller
variable {f f' g : HugePageFiller} {hp off pages base start n : Nat} {hints : PlaceHints}
  {s : HugePageSlot} {run : HugeRun}

def faces (f : HugePageFiller) (j : Nat) : Face := (f.slots j).face

/-- The hugepages and their blocks are those of `f`. -/
structure Unmoved (f f' : HugePageFiller) : Prop where
  capacity : f'.capacity = f.capacity
  regionBase : f'.regionBase = f.regionBase
  faces : ∀ j, f'.faces j = f.faces j

theorem Unmoved.refl : Unmoved f f := ⟨rfl, rfl, fun _ => rfl⟩

theorem Unmoved.trans (first : Unmoved f f') (second : Unmoved f' g) : Unmoved f g :=
  ⟨second.capacity.trans first.capacity, second.regionBase.trans first.regionBase,
    fun j => (second.faces j).trans (first.faces j)⟩

/-- One hugepage has another face. -/
structure Moved (f f' : HugePageFiller) (hp : Nat) (s : Face) : Prop where
  capacity : f'.capacity = f.capacity
  regionBase : f'.regionBase = f.regionBase
  faces : ∀ j, f'.faces j = update f.faces hp s j

theorem Moved.unmoved {s : Face} (moved : Moved f f' hp s) (same : f.faces hp = s) : Unmoved f f' :=
  ⟨moved.capacity, moved.regionBase, fun j => by
    rw [moved.faces j]
    by_cases here : j = hp
    · subst here
      rw [update_self, same]
    · rw [update_of_ne here]⟩

theorem Unmoved.moved {s : Face} (first : Unmoved f f') (second : Moved f' g hp s) : Moved f g hp s :=
  ⟨second.capacity.trans first.capacity, second.regionBase.trans first.regionBase, fun j => by
    rw [second.faces j]
    by_cases here : j = hp
    · subst here
      rw [update_self, update_self]
    · rw [update_of_ne here, update_of_ne here, first.faces j]⟩

theorem Moved.moved {s : Face} (first : Moved f f' hp s) (second : Moved f' g hp t) : Moved f g hp t :=
  ⟨second.capacity.trans first.capacity, second.regionBase.trans first.regionBase, fun j => by
    rw [second.faces j]
    by_cases here : j = hp
    · subst here
      rw [update_self, update_self]
    · rw [update_of_ne here, update_of_ne here, first.faces j, update_of_ne here]⟩

theorem Moved.then {s : Face} (first : Moved f f' hp s) (second : Unmoved f' g) : Moved f g hp s :=
  ⟨second.capacity.trans first.capacity, second.regionBase.trans first.regionBase,
    fun j => (second.faces j).trans (first.faces j)⟩

theorem moved_refile (f : HugePageFiller) (hp : Nat) (s : HugePageSlot) :
    Moved f ((f.put hp s).refile hp) hp s.face := by
  have effect := refiled f hp s
  refine ⟨effect.same.capacity, effect.same.regionBase, fun j => ?_⟩
  by_cases here : j = hp
  · subst here
    rw [update_self]
    exact HugePageSlot.face_of_body (t := { s with bin := s.targetBin }) effect.here
  · rw [update_of_ne here]
    exact HugePageSlot.face_of_body (effect.other j here)

theorem Opened.unmoved (opened : Opened f g) (wf : WF f f.nextUntouched) : Unmoved f g := by
  refine ⟨opened.capacity, opened.regionBase, fun j => ?_⟩
  by_cases old : j < f.nextUntouched
  · exact HugePageSlot.face_of_body (opened.old j old)
  · obtain ⟨live, heads, single⟩ := opened.new j (by omega)
    refine Eq.trans ?_ (wf.pristine j (by omega)).face.symm
    simp [faces, HugePageSlot.face, Face.blank, live, heads, single]

theorem unmoved_write (f : HugePageFiller) (hp : Nat)
    (same : s.face = f.faces hp) : Unmoved f ((f.put hp s).refile hp) :=
  (moved_refile f hp s).unmoved same.symm

theorem carve_moved (ran : f.carve hp off pages hints = (p, f')) :
    p.base = f.hugeBase hp + off * pageSize ∧ Moved f f' hp ((f.faces hp).carve off pages) := by
  have carving := moved_refile f hp (carved (f.slots hp) off pages hints)
  obtain ⟨rfl, rfl⟩ := Prod.mk.inj ran
  refine ⟨?_, carving⟩
  show HugePageFiller.hugeBase _ hp + _ = _
  rw [hugeBase, hugeBase, carving.regionBase]

theorem markCommitted_unmoved (f : HugePageFiller) (p : Placement) : Unmoved f (f.markCommitted p) := by
  unfold markCommitted
  split
  · exact .refl
  · exact unmoved_write f _ rfl

/-- A carved run that is committed has moved its hugepage; one that is taken
back has moved nothing. -/
theorem Settled.carve_faces (h : Settled f) (pos : 0 < pages)
    (usable : f.Usable f.nextUntouched pages stride (hp, off, 0))
    (ran : f.carve hp off pages hints = (p, f')) :
    p.base = f.hugeBase hp + off * pageSize ∧ Unmoved f (f'.free p.base p.pages).2 ∧
      Moved f (f'.markCommitted p) hp ((f.faces hp).carve off pages) := by
  obtain ⟨below, fits, clear, -⟩ := usable
  dsimp only at below fits clear
  obtain ⟨aimed, carving⟩ := carve_moved ran
  refine ⟨aimed, ?_, carving.then (markCommitted_unmoved f' p)⟩
  have sound := h.wf.sound hp below
  have alloc := isAllocation_carved hints sound pos fits clear
  rw [runIsClear_iff] at clear
  have effect := refiled f hp (carved (f.slots hp) off pages hints)
  obtain ⟨rfl, rfl⟩ := Prod.mk.inj ran
  dsimp only [get] at carving ⊢
  generalize (f.put hp (carved (f.slots hp) off pages hints)).refile hp = f' at *
  have inside : hp < f'.capacity := by
    rw [carving.capacity]
    exact Nat.lt_of_lt_of_le below h.wf.bound
  have touched : (f'.slots hp).touched = true :=
    (congrArg HugePageSlot.touched effect.here :).trans sound.touched
  have alloc' : isAllocation (f'.slots hp) off pages = true := by
    have same : isAllocation (f'.slots hp).body off pages = _ :=
      congrArg (isAllocation · off pages) effect.here
    exact same.trans alloc
  have here : (f'.slots hp).face = (f.faces hp).carve off pages := by
    have face := carving.faces hp
    rw [update_self] at face
    exact face
  rw [(free_allocation inside touched pos fits alloc').2]
  have freeing := moved_refile f' hp (freed (f'.slots hp) off pages)
  have undone : ((f.faces hp).carve off pages).free off pages = f.faces hp :=
    Face.free_carve sound.face pos clear
  rw [HugePageSlot.freed_face, here, undone] at freeing
  exact (carving.moved freeing).unmoved rfl

/-! ## Freeing, trimming and giving back -/

theorem WF.below_of_live (h : WF f f.nextUntouched)
    (live : (f.faces j).live.getLsbD k = true) : j < f.nextUntouched := by
  by_contra above
  rw [faces, (h.pristine j (by omega)).face] at live
  simp [Face.blank] at live

/-- `free` accepts exactly the packed allocations that the bits describe. -/
theorem WF.free_faces (h : WF f f.nextUntouched) (base pages : Nat) :
    ((f.free base pages).1.valid = false ∧ (f.free base pages).2 = f ∧
      ¬∃ hp off, base = f.hugeBase hp + off * pageSize ∧ (f.faces hp).Packed off pages) ∨
    (f.free base pages).1.valid = true ∧
      ∃ hp off, base = f.hugeBase hp + off * pageSize ∧ (f.faces hp).Packed off pages ∧
        Moved f (f.free base pages).2 hp ((f.faces hp).free off pages) := by
  rcases free_cases base pages f with ⟨same, refused⟩ |
    ⟨hp, off, aimed, -, -, pos, fits, alloc, accepted, same⟩
  · left
    refine ⟨refused, same, ?_⟩
    rintro ⟨hp, off, rfl, packed⟩
    obtain ⟨pos, fits, alloc⟩ := HugePageSlot.packed_iff.mp packed
    have live := packed.live off (Nat.le_refl _) (by omega)
    have below := h.below_of_live live
    have touched := (h.sound hp below).touched
    have inside : hp < f.capacity := Nat.lt_of_lt_of_le below h.bound
    have accepted := (free_allocation inside touched pos fits alloc).1
    rw [refused] at accepted
    contradiction
  · right
    refine ⟨accepted, hp, off, aimed, HugePageSlot.packed_iff.mpr ⟨pos, fits, alloc⟩, ?_⟩
    rw [same]
    have freeing := moved_refile f hp (freed (f.slots hp) off pages)
    rw [HugePageSlot.freed_face] at freeing
    exact freeing

theorem trim_faces (ran : f.trim base pages newPages = (ok, f')) :
    ok = false ∧ f' = f ∨
      ok = true ∧ ∃ hp off, base = f.hugeBase hp + off * pageSize ∧ (f.faces hp).Packed off pages ∧
        0 < newPages ∧ newPages < pages ∧ Moved f f' hp ((f.faces hp).trim off pages newPages) := by
  rcases trim_cases base pages newPages f with same | ⟨hp, off, aimed, -, pos, shorter, fits, alloc, same⟩
  · rw [same] at ran
    obtain ⟨rfl, rfl⟩ := Prod.mk.inj ran
    exact .inl ⟨rfl, rfl⟩
  · rw [same] at ran
    obtain ⟨rfl, rfl⟩ := Prod.mk.inj ran
    exact .inr ⟨rfl, hp, off, aimed, HugePageSlot.packed_iff.mpr ⟨by omega, fits, alloc⟩, pos, shorter,
      moved_refile f hp (trimmed (f.slots hp) off pages newPages)⟩

theorem markCold_unmoved (f : HugePageFiller) (addr : Nat) : Unmoved f (f.markCold addr).2 := by
  unfold markCold
  split
  · exact .refl
  · dsimp only [get]
    split
    · exact .refl
    · exact unmoved_write f _ rfl

theorem unsubrelease_unmoved (f : HugePageFiller) (sr : Subrelease) : Unmoved f (f.unsubrelease sr) := by
  unfold unsubrelease
  dsimp only
  split
  · exact .refl
  · split
    · exact .refl
    · exact unmoved_write f _ rfl

theorem subrelease_unmoved (ran : f.subrelease base pages pressureHigh = some (sr, f')) :
    Unmoved f f' ∧ Unmoved f (f'.unsubrelease sr) := by
  obtain ⟨hp, off, -, -, -, -, -, -, rfl⟩ := subrelease_cases ran
  have given := unmoved_write f hp (s := unbacked (f.slots hp) off pages) rfl
  have counted : Unmoved f { (f.put hp (unbacked (f.slots hp) off pages)).refile hp with
      subreleaseEvents :=
        ((f.put hp (unbacked (f.slots hp) off pages)).refile hp).subreleaseEvents + 1 } :=
    ⟨given.capacity, given.regionBase, given.faces⟩
  exact ⟨counted, counted.trans (unsubrelease_unmoved _ sr)⟩

/-! ## Runs of hugepages -/

/-- The hugepages of a range have other faces. -/
structure MovedRange (f f' : HugePageFiller) (start n : Nat) : Prop where
  capacity : f'.capacity = f.capacity
  regionBase : f'.regionBase = f.regionBase
  other : ∀ j, ¬InRange start n j → f'.faces j = f.faces j

/-- What writing a range does to the faces. -/
theorem WF.writeAll_faces (w : HugePageSlot → HugePageSlot)
    (natural : ∀ s, (w s).body = w s.body) (links : ∀ s, (w s).SameLinks s)
    (sound : ∀ s, s.Sound → (w s).Sound) (h : WF f m) (inside : start + n ≤ m) :
    let f' := (List.range' start n).foldl (fun f j => (f.put j (w (f.get j))).refile j) f
    MovedRange f f' start n ∧ ∀ j, InRange start n j → f'.faces j = (w (f.slots j)).face := by
  obtain ⟨-, same, written, kept⟩ := h.writeAll w natural links sound inside
  exact ⟨⟨same.capacity, same.regionBase, fun j outside => HugePageSlot.face_of_body (kept j outside)⟩,
    fun j inRange => HugePageSlot.face_of_body
      (t := { w (f.slots j) with bin := (w (f.slots j)).targetBin }) (written j inRange)⟩

/-- A hugepage without live pages has no heads and belongs to no run. -/
theorem WF.face_of_empty (h : WF f f.nextUntouched) (empty : (f.slots j).live = 0) :
    f.faces j = Face.blank := by
  by_cases below : j < f.nextUntouched
  · have sound := h.sound j below
    have single := sound.not_inRun (k := 0) (by decide) (by simp [empty])
    have heads : (f.slots j).heads = 0 := by
      refine BitVec.eq_of_getLsbD_eq fun k _ => ?_
      by_contra head
      have live := sound.headsLive k (by simpa using head)
      rw [empty] at live
      simp at live
    simp [faces, HugePageSlot.face, Face.blank, empty, heads, single]
  · exact (h.pristine j (by omega)).face

/-- The members of a run that was taken are live, in a run that the first
leads. -/
theorem Takes.faces (takes : Takes f f' run start n) :
    MovedRange f f' start n ∧ ∀ j, InRange start n j → (f'.faces j).inRun = true ∧
        (f'.faces j).runLen = (if j = start then n else 0) ∧
        ∀ k < pagesPerHugepage, (f'.faces j).live.getLsbD k = true := by
  have marked := takes.marked
  have inside := marked.inside
  refine ⟨⟨takes.capacity, takes.regionBase, fun j outside =>
    HugePageSlot.face_of_body (takes.other j outside)⟩, fun j inRange => ?_⟩
  have member := marked.members j inRange
  have below : j < f'.nextUntouched := by
    simp only [InRange] at inRange
    omega
  refine ⟨member, ?_, popcount_eq_width.mp ((marked.wf.sound j below).runFull member)⟩
  simp only [HugePageFiller.faces, HugePageSlot.face, member, if_true]
  by_cases first : j = start
  · rw [if_pos first, first, marked.led]
  · rw [if_neg first, marked.followers j inRange first]

/-- Committing a run of touched hugepages keeps the filler well formed and
moves nothing. -/
theorem WF.markRunCommitted (h : WF f f.nextUntouched) (run : HugeRun)
    (touched : ∀ start, run.base = f.hugeBase start → start + run.hugepages ≤ f.capacity →
      ∀ j, InRange start run.hugepages j → (f.slots j).touched = true) :
    WF (f.markRunCommitted run) (f.markRunCommitted run).nextUntouched ∧
      Unmoved f (f.markRunCommitted run) := by
  rcases markRunCommitted_cases run f with same | ⟨start, aimed, pos, room, same⟩
  · rw [same]
    exact ⟨h, .refl⟩
  have inside : start + run.hugepages ≤ f.nextUntouched := by
    have last := h.below_of_touched (touched start aimed room (start + run.hugepages - 1)
      (by simp only [InRange]; omega))
    omega
  obtain ⟨wf, region, -, -⟩ := h.writeAll wholeBacked (fun _ => rfl) (fun _ => ⟨rfl, rfl, rfl⟩)
    (fun _ sound => sound.wholeBacked) inside
  obtain ⟨moved, members⟩ := h.writeAll_faces wholeBacked (fun _ => rfl) (fun _ => ⟨rfl, rfl, rfl⟩)
    (fun _ sound => sound.wholeBacked) inside
  rw [same]
  refine ⟨region.nextUntouched ▸ wf, moved.capacity, moved.regionBase, fun j => ?_⟩
  by_cases inRange : InRange start run.hugepages j
  · exact members j inRange
  · exact moved.other j inRange

theorem Takes.committed_faces (takes : Takes f f' run start n) :
    MovedRange f (f'.markRunCommitted run) start n ∧
      ∀ j, InRange start n j → ((f'.markRunCommitted run).faces j).inRun = true ∧
        ((f'.markRunCommitted run).faces j).runLen = (if j = start then n else 0) ∧
        ∀ k < pagesPerHugepage, ((f'.markRunCommitted run).faces j).live.getLsbD k = true := by
  have marked := takes.marked
  have inside := marked.inside
  obtain ⟨moved, members⟩ := takes.faces
  obtain ⟨-, unmoved⟩ := marked.wf.markRunCommitted run (by
    intro start' aimed _ j inRange
    obtain rfl : start' = start := by
      have same := marked.base.symm.trans aimed
      simp only [hugeBase, hugepageSize] at same
      omega
    rw [marked.hugepages] at inRange
    simp only [InRange] at inRange
    exact (marked.wf.sound j (by omega)).touched)
  refine ⟨⟨unmoved.capacity.trans moved.capacity, unmoved.regionBase.trans moved.regionBase,
    fun j outside => (unmoved.faces j).trans (moved.other j outside)⟩, fun j inRange => ?_⟩
  rw [unmoved.faces j]
  exact members j inRange

/-- A reserved run, taken back. -/
theorem Takes.released_faces (takes : Takes f f' run start n)
    (h : WF f f.nextUntouched) : Unmoved f (f'.freeHugepages run.base n).2 := by
  have marked := takes.marked
  obtain ⟨moved, members⟩ := marked.wf.writeAll_faces wholeFreed (fun _ => rfl)
    (fun _ => ⟨rfl, rfl, rfl⟩) (fun _ sound => sound.wholeFreed) marked.inside
  rw [marked.freeHugepages_eq]
  refine ⟨moved.capacity.trans takes.capacity, moved.regionBase.trans takes.regionBase, fun j => ?_⟩
  by_cases inRange : InRange start n j
  · rw [h.face_of_empty (takes.empty j inRange)]
    exact members j inRange
  · exact (moved.other j inRange).trans (HugePageSlot.face_of_body (takes.other j inRange))

/-- `free_hugepages` empties the members of the run it accepts. -/
theorem WF.freeHugepages_faces (h : WF f f.nextUntouched) (base n : Nat) :
    (f.freeHugepages base n = (.invalid, f) ∧
      ¬∃ start, base = f.hugeBase start ∧ Block.Holds f.faces (.run start n)) ∨
    (f.freeHugepages base n).1.valid = true ∧
      ∃ start, base = f.hugeBase start ∧ 0 < n ∧ (f.faces start).inRun = true ∧
        (f.faces start).runLen = n ∧ (f.faces start).live.getLsbD 0 = true ∧
        MovedRange f (f.freeHugepages base n).2 start n ∧
        ∀ j, InRange start n j → (f.freeHugepages base n).2.faces j = Face.blank := by
  have below : ∀ j, (f.slots j).touched = true → j < f.nextUntouched :=
    fun j touched => h.below_of_touched touched
  have bound := h.bound
  rcases freeHugepages_cases base n f with same | ⟨start, aimed, pos, room, led, members, same⟩
  · left
    refine ⟨same, ?_⟩
    rintro ⟨start, rfl, pos, members⟩
    have inside : ∀ j, InRange start n j → j < f.nextUntouched := fun j inRange =>
      h.below_of_live ((members j inRange).2.2 0 (by decide))
    have last := inside (start + n - 1) (by simp only [InRange]; omega)
    have accepted := freeHugepages_eq (f := f) (n := n) rfl pos (show start + n ≤ f.capacity by omega) ?_ ?_
    · rw [same] at accepted
      cases accepted
    · obtain ⟨member, length, -⟩ := members start (by simp only [InRange]; omega)
      have single : (f.slots start).inRun = true := member
      simpa [faces, HugePageSlot.face, single] using length
    · intro j inRange
      obtain ⟨member, -, live⟩ := members j inRange
      exact ⟨(h.sound j (inside j inRange)).touched, member, popcount_eq_width.mpr live⟩
  · right
    have inside : start + n ≤ f.nextUntouched := by
      have last := below (start + n - 1) (members _ (by simp only [InRange]; omega)).1
      omega
    obtain ⟨touched, member⟩ := members start (by simp only [InRange]; omega)
    have sound := h.sound start (by omega)
    obtain ⟨moved, blank⟩ := h.writeAll_faces wholeFreed (fun _ => rfl)
      (fun _ => ⟨rfl, rfl, rfl⟩) (fun _ sound => sound.wholeFreed) inside
    rw [same]
    refine ⟨rfl, start, aimed, pos, member, ?_, ?_, moved, blank⟩
    · simpa [faces, HugePageSlot.face, member] using led
    · exact popcount_eq_width.mp (sound.runFull member) 0 (by decide)

end HugePageFiller

end Topomalloc
