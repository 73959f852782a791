import Topomalloc.Huge.Bins

/-! What `check_invariants` asks of a hugepage, and of all of them: `Sound` for
one touched slot, `WF` for the filler. Backing is kept apart (`BackedBut`), since
a placed run is live before the provider has committed it.

Every operation writes slots one at a time and refiles each (`WF.write`), so what
is left to show for an operation is that the slot it writes is sound. -/
namespace Topomalloc
open Function Bitmap

namespace HugePageSlot

/-- A touched hugepage, as far as its own fields go. A live page that starts no
allocation continues the one before it (`headed`), which is why an allocation
that was just placed can always be taken back. -/
structure Sound (s : HugePageSlot) : Prop where
  touched : s.touched = true
  apart : ∀ k, s.committed.getLsbD k = true → s.released.getLsbD k = false
  headsLive : ∀ k, s.heads.getLsbD k = true → s.live.getLsbD k = true
  headed : ∀ k, s.live.getLsbD k = true → s.heads.getLsbD k = true ∨ 0 < k ∧ s.live.getLsbD (k - 1) = true
  runFull : s.inRun = true → s.used = pagesPerHugepage
  runLed : s.runLen ≠ 0 → s.inRun = true

/-- An untouched hugepage. -/
structure Pristine (s : HugePageSlot) : Prop where
  touched : s.touched = false
  live : s.live = 0
  committed : s.committed = 0
  released : s.released = 0
  heads : s.heads = 0
  inRun : s.inRun = false
  runLen : s.runLen = 0

/-- Every live page outside `pending` is committed and was not given back. -/
def BackedBut (s : HugePageSlot) (pending : Nat → Prop) : Prop :=
  ∀ k, s.live.getLsbD k = true → ¬ pending k → s.committed.getLsbD k = true ∧ s.released.getLsbD k = false

/-- Every live page is committed and was not given back. -/
def Backed (s : HugePageSlot) : Prop := s.BackedBut fun _ => False

variable {s t : HugePageSlot} {off pages oldPages newPages : Nat} {hints : PlaceHints} {pending : Nat → Prop}

theorem Sound.of_body (h : t.Sound) (same : s.body = t.body) : s.Sound := by
  have fields : s.body.Sound := same ▸ ⟨h.touched, h.apart, h.headsLive, h.headed, h.runFull, h.runLed⟩
  exact ⟨fields.touched, fields.apart, fields.headsLive, fields.headed, fields.runFull, fields.runLed⟩

theorem Pristine.of_body (h : t.Pristine) (same : s.body = t.body) : s.Pristine := by
  have fields : s.body.Pristine :=
    same ▸ ⟨h.touched, h.live, h.committed, h.released, h.heads, h.inRun, h.runLen⟩
  exact ⟨fields.touched, fields.live, fields.committed, fields.released, fields.heads, fields.inRun,
    fields.runLen⟩

theorem BackedBut.of_body (h : t.BackedBut pending) (same : s.body = t.body) : s.BackedBut pending := by
  have fields : s.body.BackedBut pending := same ▸ h
  exact fields

/-- The tag plays no part in soundness. -/
theorem Sound.retag (h : s.Sound) (b : HugeBin) : Sound { s with bin := b } :=
  ⟨h.touched, h.apart, h.headsLive, h.headed, h.runFull, h.runLed⟩

theorem BackedBut.retag (h : s.BackedBut pending) (b : HugeBin) :
    BackedBut { s with bin := b } pending := h

theorem Backed.but (h : s.Backed) : s.BackedBut pending := fun k live _ => h k live not_false

/-- A hugepage with a clear page is not part of a run. -/
theorem Sound.not_inRun (h : s.Sound) (inside : k < pagesPerHugepage)
    (clear : s.live.getLsbD k = false) : s.inRun = false := by
  by_contra member
  have full := popcount_eq_width.mp (h.runFull (by simpa using member)) k inside
  rw [clear] at full
  contradiction

/-- Touching an untouched hugepage makes a sound one. -/
theorem Pristine.touch (h : s.Pristine) (prev next : Nat) (bin : HugeBin) (hotness : Hotness)
    (lifetime : Lifetime) :
    Sound { s with touched := true, binPrev := prev, binNext := next, bin, hotness, lifetime } := by
  refine ⟨rfl, ?_, ?_, ?_, ?_, ?_⟩ <;> simp [h.live, h.committed, h.heads, h.inRun, h.runLen]

/-! ## The slots the operations write -/

section Writes
open HugePageFiller

theorem Sound.carved (h : s.Sound) (pos : 0 < pages) (fits : off + pages ≤ pagesPerHugepage)
    (clear : runIsClear s.live off pages = true) : (carved s off pages hints).Sound := by
  rw [runIsClear_iff] at clear
  have single := h.not_inRun (k := off) (by omega) (clear off (by omega) (by omega))
  refine ⟨h.touched, h.apart, ?_, ?_, ?_, h.runLed⟩
  · intro k head
    have kept := h.headsLive k
    simp only [HugePageFiller.carved, getLsbD_bitSet, getLsbD_setRun] at head ⊢
    grind
  · intro k live
    have kept := h.headed k
    simp only [HugePageFiller.carved, getLsbD_bitSet, getLsbD_setRun] at live ⊢
    grind
  · intro member
    rw [show (HugePageFiller.carved s off pages hints).inRun = s.inRun from rfl, single] at member
    contradiction

theorem Sound.backed (h : s.Sound) : (backed s off pages).Sound := by
  refine ⟨h.touched, ?_, h.headsLive, h.headed, h.runFull, h.runLed⟩
  intro k committed
  have apart := h.apart k
  simp only [HugePageFiller.backed, getLsbD_setRun, getLsbD_clearRun] at committed ⊢
  grind

theorem Sound.unbacked (h : s.Sound) : (unbacked s off pages).Sound := by
  refine ⟨h.touched, ?_, h.headsLive, h.headed, h.runFull, h.runLed⟩
  intro k committed
  have apart := h.apart k
  simp only [HugePageFiller.unbacked, getLsbD_setRun, getLsbD_clearRun] at committed ⊢
  grind

/-- What `isAllocation` established. -/
theorem isAllocation_iff : isAllocation s off pages = true ↔
    (∀ k, off ≤ k → k < off + pages → s.live.getLsbD k = true) ∧ s.inRun = false ∧
      s.heads.getLsbD off = true ∧
      (∀ k, off < k → k < off + pages → s.heads.getLsbD k = false) ∧
      (off + pages < pagesPerHugepage → s.live.getLsbD (off + pages) = true →
        s.heads.getLsbD (off + pages) = true) := by
  simp only [isAllocation, Bool.and_eq_true, beq_iff_eq, runPopcount_eq, List.all_eq_true,
    List.mem_range'_1, Bool.not_eq_true', Bool.and_eq_false_iff, decide_eq_false_iff_not,
    Bool.not_eq_false', and_assoc]
  refine and_congr_right fun _ => and_congr_right fun _ => and_congr_right fun _ => and_congr ?_ ?_
  · constructor
    · intro inner k lower upper
      exact inner k ⟨by omega, by omega⟩
    · intro inner k range
      exact inner k (by omega) (by omega)
  · grind

theorem Sound.freed (h : s.Sound) (alloc : isAllocation s off pages = true) (pos : 0 < pages) :
    (freed s off pages).Sound := by
  obtain ⟨live, single, head, inner, next⟩ := isAllocation_iff.mp alloc
  have fields : ∀ hotness lifetime, Sound { s with
      heads := bitClear s.heads off, live := clearRun s.live off pages, hotness, lifetime } := by
    intro hotness lifetime
    refine ⟨h.touched, h.apart, ?_, ?_, ?_, h.runLed⟩
    · intro k atHead
      have kept := h.headsLive k
      have between := inner k
      simp only [getLsbD_bitClear, getLsbD_clearRun] at atHead ⊢
      grind
    · intro k stays
      have kept := h.headed k
      have inside := BitVec.lt_of_getLsbD stays
      simp only [getLsbD_bitClear, getLsbD_clearRun] at stays ⊢
      by_cases edge : k = off + pages
      · -- the page after the freed run starts an allocation of its own
        subst edge
        have := next inside (by grind)
        grind
      · grind
    · intro member
      rw [single] at member
      contradiction
  unfold HugePageFiller.freed
  dsimp only
  split
  · exact fields _ _
  · exact fields _ _

theorem Sound.trimmed (h : s.Sound) (alloc : isAllocation s off oldPages = true) (pos : 0 < newPages)
    (shorter : newPages < oldPages) : (trimmed s off oldPages newPages).Sound := by
  obtain ⟨live, single, head, inner, next⟩ := isAllocation_iff.mp alloc
  refine ⟨h.touched, h.apart, ?_, ?_, ?_, h.runLed⟩
  · intro k atHead
    have kept := h.headsLive k atHead
    have between := inner k
    simp only [HugePageFiller.trimmed, getLsbD_clearRun] at atHead ⊢
    grind
  · intro k stays
    have kept := h.headed k
    have inside := BitVec.lt_of_getLsbD stays
    simp only [HugePageFiller.trimmed, getLsbD_clearRun] at stays ⊢
    by_cases edge : k = off + oldPages
    · subst edge
      have := next inside (by grind)
      grind
    · grind
  · intro member
    rw [show (HugePageFiller.trimmed s off oldPages newPages).inRun = s.inRun from rfl, single]
      at member
    contradiction

theorem Sound.wholeBacked (h : s.Sound) : (wholeBacked s).Sound := by
  refine ⟨h.touched, ?_, h.headsLive, h.headed, h.runFull, h.runLed⟩
  intro k _
  simp [HugePageFiller.wholeBacked]

theorem Sound.wholeFreed (h : s.Sound) : (wholeFreed s).Sound := by
  refine ⟨h.touched, h.apart, ?_, ?_, ?_, ?_⟩ <;> simp [HugePageFiller.wholeFreed]

/-! ## Backing -/

/-- A carved run is the only thing left to back. -/
theorem Backed.carved (h : s.Backed) :
    (carved s off pages hints).BackedBut fun k => off ≤ k ∧ k < off + pages := by
  intro k live outside
  have kept := h k
  simp only [HugePageFiller.carved, getLsbD_setRun] at live ⊢
  grind

theorem BackedBut.backed (h : s.BackedBut fun k => off ≤ k ∧ k < off + pages) :
    (backed s off pages).Backed := by
  intro k live _
  have kept := h k live
  have inside := BitVec.lt_of_getLsbD live
  simp only [HugePageFiller.backed, getLsbD_setRun, getLsbD_clearRun]
  grind

theorem BackedBut.freed (h : s.BackedBut fun k => off ≤ k ∧ k < off + pages) :
    (freed s off pages).Backed := by
  have fields : ∀ hotness lifetime, Backed { s with
      heads := bitClear s.heads off, live := clearRun s.live off pages, hotness, lifetime } := by
    intro hotness lifetime k live _
    have kept := h k
    simp only [getLsbD_clearRun] at live ⊢
    grind
  unfold HugePageFiller.freed
  dsimp only
  split
  · exact fields _ _
  · exact fields _ _

theorem Backed.trimmed (h : s.Backed) : (trimmed s off oldPages newPages).Backed := by
  intro k live _
  have kept := h k
  simp only [HugePageFiller.trimmed, getLsbD_clearRun] at live ⊢
  grind

theorem Backed.unbacked (h : s.Backed) (clear : runIsClear s.live off pages = true) :
    (unbacked s off pages).Backed := by
  rw [runIsClear_iff] at clear
  intro k live _
  have kept := h k live not_false
  have outside := clear k
  simp only [HugePageFiller.unbacked, getLsbD_setRun, getLsbD_clearRun] at live ⊢
  grind

theorem Backed.backed (h : s.Backed) : (backed s off pages).Backed := BackedBut.backed h.but

theorem wholeBacked_backed : (wholeBacked s).Backed := by
  intro k live _
  exact ⟨live, by simp [HugePageFiller.wholeBacked]⟩

theorem wholeFreed_backed : (wholeFreed s).Backed := by
  intro k live _
  simp [HugePageFiller.wholeFreed] at live

end Writes

theorem targetBin_of_body (same : s.body = t.body) : s.targetBin = t.targetBin := by
  have bins : s.body.targetBin = t.body.targetBin := by rw [same]
  exact bins

/-- The two slots stand in the same place of the same list. -/
structure SameLinks (s t : HugePageSlot) : Prop where
  prev : s.binPrev = t.binPrev
  next : s.binNext = t.binNext
  bin : s.bin = t.bin

end HugePageSlot

namespace HugePageFiller
variable {f f' : HugePageFiller} {i j n : Nat} {s : HugePageSlot}

/-- The hugepages below `frontier` are touched, sound and binned by what they
hold; the others are untouched. Between operations the frontier is
`next_untouched`. -/
structure WF (f : HugePageFiller) (frontier : Nat) : Prop where
  bound : frontier ≤ f.capacity
  real : f.capacity ≤ NIL
  lists : ∃ L, Lists f (· < frontier) L ∧ ∀ b, FullLast f (L b)
  sound : ∀ i < frontier, (f.slots i).Sound
  tagged : ∀ i < frontier, (f.slots i).bin = (f.slots i).targetBin
  pristine : ∀ i, frontier ≤ i → (f.slots i).Pristine

/-- The region and the frontier are those of `f`. -/
structure SameRegion (f f' : HugePageFiller) : Prop where
  capacity : f'.capacity = f.capacity
  regionBase : f'.regionBase = f.regionBase
  nextUntouched : f'.nextUntouched = f.nextUntouched

theorem SameRegion.refl : SameRegion f f := ⟨rfl, rfl, rfl⟩

theorem SameRegion.trans (h : SameRegion f f') (h' : SameRegion f' g) : SameRegion f g :=
  ⟨h'.capacity.trans h.capacity, h'.regionBase.trans h.regionBase, h'.nextUntouched.trans h.nextUntouched⟩

theorem refile_sameRegion : SameRegion f (f.refile i) := by
  have fields (α : Type) (p : HugePageFiller → α) : p (f.refile i).core = _ := congrArg p refile_core
  exact ⟨fields _ HugePageFiller.capacity, fields _ HugePageFiller.regionBase,
    fields _ HugePageFiller.nextUntouched⟩

/-- `f'` is `f` with `s` at hugepage `i`, tagged with the bin it belongs to. -/
structure Refiled (f f' : HugePageFiller) (i : Nat) (s : HugePageSlot) : Prop where
  here : (f'.slots i).body = { s with bin := s.targetBin }.body
  other : ∀ j, j ≠ i → (f'.slots j).body = (f.slots j).body
  same : SameRegion f f'

theorem refiled (f : HugePageFiller) (i : Nat) (s : HugePageSlot) : Refiled f ((f.put i s).refile i) i s := by
  refine ⟨?_, ?_, ?_⟩
  · have written := refile_body_self (f := f.put i s) (i := i)
    simpa [put] using written
  · intro j other
    have kept := refile_body_other (f := f.put i s) other
    simpa [put, other] using kept
  · have same := refile_sameRegion (f := f.put i s) (i := i)
    exact ⟨same.capacity, same.regionBase, same.nextUntouched⟩

/-- A slot written in place keeps the lists. -/
theorem Lists.put (h : Lists f S L) (links : s.SameLinks (f.slots i)) : Lists (f.put i s) S L := by
  refine ⟨?_, h.filed.congr (fun _ => Iff.rfl) ?_⟩
  · have table : (f.put i s).binTable = f.binTable := by
      rw [binTable_put, links.next, links.prev]
      simp [binTable]
    rw [table]
    exact h.held
  · intro j _
    by_cases same : j = i
    · subst same
      simpa [HugePageFiller.put] using links.bin
    · simp [HugePageFiller.put, same]

/-- Every operation is made of these: write one touched hugepage, refile it. -/
theorem WF.write (h : WF f n) (inside : i < n) (links : s.SameLinks (f.slots i))
    (sound : s.Sound) : WF ((f.put i s).refile i) n := by
  obtain ⟨L, lists, order⟩ := h.lists
  have effect := refiled f i s
  have real : i ≠ NIL := by
    have := h.bound
    have := h.real
    omega
  refine ⟨effect.same.capacity ▸ h.bound, effect.same.capacity ▸ h.real, ?_, ?_, ?_, ?_⟩
  · have placed : Lists (f.put i s) (· < n) L := lists.put links
    refine placed.refile inside real ?_
    intro b
    refine FullLast.congr (f := f) ((order b).sublist List.erase_sublist) ?_
    intro j member
    have other : j ≠ i := ((lists.nodup b).mem_erase_iff.mp member).1
    simp [HugePageFiller.put, other]
  · intro j below
    by_cases same : j = i
    · subst same
      exact (sound.retag _).of_body effect.here
    · exact (h.sound j below).of_body (effect.other j same)
  · intro j below
    by_cases same : j = i
    · subst same
      rw [HugePageSlot.bin_of_body effect.here, HugePageSlot.targetBin_of_body effect.here]
      rfl
    · rw [HugePageSlot.bin_of_body (effect.other j same),
        HugePageSlot.targetBin_of_body (effect.other j same)]
      exact h.tagged j below
  · intro j above
    exact (h.pristine j above).of_body (effect.other j (by omega))

end HugePageFiller
end Topomalloc
