import Topomalloc.Huge.Shape

/-! What each operation of the filler does: a case lemma says which slot it
writes and what it checked before, and the invariant follows by `WF.write`. -/
namespace Topomalloc
open Function Bitmap

namespace HugePageFiller
variable {f f' g : HugePageFiller} {i j n hp off pages base start stride : Nat} {s : HugePageSlot}
  {hints : PlaceHints} {best : Option Candidate} {sr : Subrelease} {p : Placement}

/-! ## Addresses -/

/-- A page address leads back to its hugepage. -/
theorem indexOf_page (inside : hp < f.capacity) (page : off < pagesPerHugepage) :
    f.indexOf (f.hugeBase hp + off * pageSize) = some hp := by
  have index : (f.hugeBase hp + off * pageSize - f.regionBase) / hugepageSize = hp := by
    simp only [hugeBase, hugepageSize, pageSize, pagesPerHugepage] at page ⊢
    omega
  unfold indexOf
  rw [if_neg (by simp only [hugeBase]; omega)]
  dsimp only
  rw [index, if_pos inside]

theorem indexOf_eq_some (found : f.indexOf base = some i) :
    i < f.capacity ∧ f.hugeBase i ≤ base ∧ base < f.hugeBase i + hugepageSize ∧ f.regionBase ≤ base := by
  simp only [indexOf, Option.ite_none_left_eq_some, Option.ite_none_right_eq_some, Option.some.injEq] at found
  obtain ⟨above, inside, rfl⟩ := found
  have split := Nat.div_add_mod (base - f.regionBase) hugepageSize
  have rest := Nat.mod_lt (base - f.regionBase) (show 0 < hugepageSize by decide)
  rw [Nat.mul_comm] at split
  refine ⟨inside, ?_, ?_, by omega⟩ <;> simp only [hugeBase] <;> omega

/-- An address found on a page boundary of the region is the page `off` of its
hugepage. -/
theorem base_of_index (found : f.indexOf base = some hp) (page : pageSize ∣ base - f.regionBase) :
    base = f.hugeBase hp + (base - f.hugeBase hp) / pageSize * pageSize ∧
      (base - f.hugeBase hp) / pageSize < pagesPerHugepage := by
  obtain ⟨-, lower, upper, above⟩ := indexOf_eq_some found
  obtain ⟨q, eq⟩ := page
  have dvd : pageSize ∣ base - f.hugeBase hp := by
    refine ⟨q - hp * pagesPerHugepage, ?_⟩
    simp only [hugeBase, hugepageSize, pageSize, pagesPerHugepage] at *
    omega
  constructor
  · rw [Nat.div_mul_cancel dvd]
    omega
  · simp only [hugepageSize, pageSize, pagesPerHugepage] at *
    omega

@[simp] theorem pageOffset_cancel : (f.hugeBase hp + off * pageSize - f.hugeBase hp) / pageSize = off := by
  rw [Nat.add_sub_cancel_left]
  exact Nat.mul_div_cancel _ pageSize_pos

/-- A token that passes the geometry check names a slot. -/
theorem validateRun_inside (valid : f.validateRun hp base pages = some off) : hp < f.capacity := by
  unfold validateRun at valid
  split at valid
  · contradiction
  next sized => omega

theorem validateRun_page (inside : hp < f.capacity) (pos : 0 < pages)
    (fits : off + pages ≤ pagesPerHugepage) :
    f.validateRun hp (f.hugeBase hp + off * pageSize) pages = some off := by
  have dvd : pageSize ∣ f.hugeBase hp + off * pageSize - f.hugeBase hp := by
    rw [Nat.add_sub_cancel_left]
    exact Nat.dvd_mul_left ..
  simp only [validateRun, pageOffset_cancel]
  rw [if_neg (by omega), if_neg (by omega), if_neg (not_not.mpr dvd), if_neg (by omega)]

theorem page_dvd_offset : pageSize ∣ f.hugeBase hp + off * pageSize - f.regionBase := by
  refine ⟨hp * pagesPerHugepage + off, ?_⟩
  simp only [hugeBase, hugepageSize, pageSize, pagesPerHugepage]
  omega

/-! ## Opening a hugepage -/

/-- The parts of the filler that no invariant reads. -/
theorem WF.setNextUntouched (h : WF f n) (v : Nat) : WF { f with nextUntouched := v } n := by
  obtain ⟨L, lists, order⟩ := h.lists
  exact ⟨h.bound, h.real, ⟨L, ⟨lists.held, lists.filed⟩, order⟩, h.sound, h.tagged, h.pristine⟩

theorem WF.setSubreleaseEvents (h : WF f n) (v : Nat) : WF { f with subreleaseEvents := v } n := by
  obtain ⟨L, lists, order⟩ := h.lists
  exact ⟨h.bound, h.real, ⟨L, ⟨lists.held, lists.filed⟩, order⟩, h.sound, h.tagged, h.pristine⟩

theorem enter_body_self (b : HugeBin) :
    (((f.put i s).binInsert i b).slots i).body = { s with bin := b }.body := by
  have here := binInsert_body_self (f := f.put i s) (i := i) (b := b)
  simpa [put] using here

theorem enter_body_other (b : HugeBin) (other : j ≠ i) :
    (((f.put i s).binInsert i b).slots j).body = (f.slots j).body := by
  have there := binInsert_body_other (f := f.put i s) (b := b) other
  simpa [put, other] using there

theorem enter_sameRegion (b : HugeBin) : SameRegion f ((f.put i s).binInsert i b) := by
  have fields (α : Type) (p : HugePageFiller → α) : p ((f.put i s).binInsert i b).core = _ :=
    congrArg p binInsert_core
  exact ⟨fields _ HugePageFiller.capacity, fields _ HugePageFiller.regionBase,
    fields _ HugePageFiller.nextUntouched⟩

/-- The first untouched hugepage enters the empty bin. -/
theorem WF.enter (h : WF f n) (room : n < f.capacity) (sound : s.Sound) (empty : s.live = 0)
    (whole : s.released = 0) : WF ((f.put n s).binInsert n .emptyBacked) (n + 1) := by
  obtain ⟨L, lists, order⟩ := h.lists
  have same := enter_sameRegion (f := f) (i := n) (s := s) .emptyBacked
  have here := enter_body_self (f := f) (i := n) (s := s) .emptyBacked
  have unused : s.used = 0 := popcount_eq_zero.mpr empty
  refine ⟨by rw [same.capacity]; omega, same.capacity ▸ h.real, ?_, ?_, ?_, ?_⟩
  · -- only the links and the tag of a hugepage outside all lists are overwritten
    have absent : ∀ b, ∀ x ∈ L b, x ≠ n := by
      intro b x member
      have := ((lists.filed b x).mp member).1
      omega
    have ready : Lists (f.put n s) (· < n) L := by
      refine ⟨?_, lists.filed.congr (fun _ => Iff.rfl) ?_⟩
      · refine lists.held.congr rfl rfl ?_ ?_ <;> intro b x member <;>
          rw [binTable_put] <;> exact update_of_ne (absent b x member) ..
      · intro j below
        simp [put, Nat.ne_of_lt below]
    have real : n ≠ NIL := by
      have := h.real
      omega
    have linked := ready.binInsert (i := n) (b := .emptyBacked) (by simp) real
    have occupancy : ∀ j, (((f.put n s).binInsert n .emptyBacked).slots j).used =
        if j = n then 0 else (f.slots j).used := by
      intro j
      by_cases eq : j = n
      · subst eq
        rw [if_pos rfl, HugePageSlot.used_of_body here]
        exact unused
      · rw [if_neg eq, HugePageSlot.used_of_body (enter_body_other _ eq)]
    rw [show ((f.put n s).slots n).used = 0 by simpa [put] using unused] at linked
    refine ⟨_, ⟨linked.held, linked.filed.congr ?_ fun _ _ => rfl⟩, ?_⟩
    · intro j
      omega
    · intro b
      have kept : FullLast ((f.put n s).binInsert n .emptyBacked) (L b) := by
        refine (order b).congr ?_
        intro j member
        rw [occupancy j, if_neg (absent b j member)]
      by_cases eq : b = .emptyBacked
      · subst eq
        rw [update_self, if_neg (by decide)]
        refine kept.cons ?_
        rw [occupancy n, if_pos rfl]
        decide
      · rw [update_of_ne eq]
        exact kept
  · intro j below
    by_cases eq : j = n
    · subst eq
      exact (sound.retag _).of_body here
    · exact (h.sound j (by omega)).of_body (enter_body_other _ eq)
  · intro j below
    by_cases eq : j = n
    · subst eq
      rw [HugePageSlot.bin_of_body here, HugePageSlot.targetBin_of_body here]
      simp [HugePageSlot.targetBin, HugePageSlot.subreleased, HugePageSlot.used, empty, whole, classifyBin]
    · rw [HugePageSlot.bin_of_body (enter_body_other _ eq),
        HugePageSlot.targetBin_of_body (enter_body_other _ eq)]
      exact h.tagged j (by omega)
  · intro j above
    exact (h.pristine j (by omega)).of_body (enter_body_other _ (by omega))

/-- The state between two operations: well formed up to `next_untouched`, and
nothing live without backing. -/
structure Settled (f : HugePageFiller) : Prop where
  wf : WF f f.nextUntouched
  backed : ∀ i < f.nextUntouched, (f.slots i).Backed

/-- Settled, except that pages of hugepage `i` may lack their backing. -/
structure SettledBut (f : HugePageFiller) (i : Nat) : Prop where
  wf : WF f f.nextUntouched
  backed : ∀ j < f.nextUntouched, j ≠ i → (f.slots j).Backed

theorem Settled.but (h : Settled f) (i : Nat) : SettledBut f i := ⟨h.wf, fun j below _ => h.backed j below⟩

theorem SettledBut.write_but (h : SettledBut f i) (inside : i < f.nextUntouched)
    (links : s.SameLinks (f.slots i)) (sound : s.Sound) : SettledBut ((f.put i s).refile i) i := by
  have effect := refiled f i s
  have wf := h.wf.write inside links sound
  rw [← effect.same.nextUntouched] at wf
  refine ⟨wf, ?_⟩
  intro j below other
  rw [effect.same.nextUntouched] at below
  exact (h.backed j below other).of_body (effect.other j other)

/-- Writing a backed slot settles the hugepage. -/
theorem SettledBut.write (h : SettledBut f i) (inside : i < f.nextUntouched)
    (links : s.SameLinks (f.slots i)) (sound : s.Sound) (backed : s.Backed) :
    Settled ((f.put i s).refile i) := by
  have effect := refiled f i s
  have rest := h.write_but inside links sound
  refine ⟨rest.wf, ?_⟩
  intro j below
  by_cases here : j = i
  · subst here
    exact (HugePageSlot.BackedBut.retag backed _).of_body effect.here
  · exact rest.backed j below here

theorem WF.below_of_touched (h : WF f n) (touched : (f.slots i).touched = true) : i < n := by
  by_contra above
  rw [(h.pristine i (by omega)).touched] at touched
  contradiction

/-- `g` is `f` with some more hugepages opened, all of them empty. -/
structure Opened (f g : HugePageFiller) : Prop where
  capacity : g.capacity = f.capacity
  regionBase : g.regionBase = f.regionBase
  more : f.nextUntouched ≤ g.nextUntouched
  old : ∀ i < f.nextUntouched, (g.slots i).body = (f.slots i).body
  new : ∀ i, f.nextUntouched ≤ i → (g.slots i).live = 0 ∧ (g.slots i).heads = 0 ∧ (g.slots i).inRun = false

theorem WF.opened_refl (h : WF f f.nextUntouched) : Opened f f :=
  ⟨rfl, rfl, Nat.le_refl _, fun _ _ => rfl, fun i above =>
    ⟨(h.pristine i above).live, (h.pristine i above).heads, (h.pristine i above).inRun⟩⟩

/-- A filler with more hugepages open has nothing more to back. -/
theorem Opened.settled (opened : Opened f g) (wf : WF g g.nextUntouched) (h : Settled f) : Settled g := by
  refine ⟨wf, fun j _ => ?_⟩
  by_cases old : j < f.nextUntouched
  · exact (h.backed j old).of_body (opened.old j old)
  · intro k live
    rw [(opened.new j (by omega)).1] at live
    simp at live

theorem WF.openFresh (h : WF f f.nextUntouched) (opened : f.openFresh = some (i, g)) :
    WF g g.nextUntouched ∧ Opened f g ∧ i < g.nextUntouched ∧ (g.slots i).live = 0 := by
  unfold HugePageFiller.openFresh at opened
  split at opened
  · contradiction
  next room =>
    dsimp only [get] at opened
    obtain ⟨rfl, rfl⟩ := Prod.mk.inj (Option.some.inj opened)
    have fresh := h.pristine f.nextUntouched (Nat.le_refl _)
    generalize written : { f.slots f.nextUntouched with
      touched := true, hotness := .neutral, lifetime := .unspecified } = s
    have sound : s.Sound := written ▸ fresh.touch ..
    have empty : s.live = 0 := written ▸ fresh.live
    have whole : s.released = 0 := written ▸ fresh.released
    generalize bumped : { f with nextUntouched := f.nextUntouched + 1 } = f₁
    have wf₁ : WF f₁ f.nextUntouched := bumped ▸ h.setNextUntouched _
    have slots₁ : f₁.slots = f.slots := by rw [← bumped]
    have room₁ : f.nextUntouched < f₁.capacity := by rw [← bumped]; exact Nat.lt_of_not_le room
    have entered := wf₁.enter room₁ sound empty whole
    have here := enter_body_self (f := f₁) (i := f.nextUntouched) (s := s) .emptyBacked
    have same := enter_sameRegion (f := f₁) (i := f.nextUntouched) (s := s) .emptyBacked
    have next : ((f₁.put f.nextUntouched s).binInsert f.nextUntouched .emptyBacked).nextUntouched =
        f.nextUntouched + 1 := by
      rw [same.nextUntouched, ← bumped]
    have clear : (((f₁.put f.nextUntouched s).binInsert f.nextUntouched .emptyBacked).slots
        f.nextUntouched).live = 0 := by
      have live := congrArg HugePageSlot.live here
      exact (show _ = s.live from live).trans empty
    refine ⟨next ▸ entered, ⟨?_, ?_, ?_, ?_, ?_⟩, ?_, clear⟩
    · rw [same.capacity, ← bumped]
    · rw [same.regionBase, ← bumped]
    · omega
    · intro j below
      rw [enter_body_other _ (by omega), slots₁]
    · intro j above
      by_cases eq : j = f.nextUntouched
      · subst eq
        have heads := congrArg HugePageSlot.heads here
        have single := congrArg HugePageSlot.inRun here
        refine ⟨clear, (show _ = s.heads from heads).trans ?_, (show _ = s.inRun from single).trans ?_⟩
        · rw [← written]
          exact fresh.heads
        · rw [← written]
          exact fresh.inRun
      · have untouched := entered.pristine j (by omega)
        exact ⟨untouched.live, untouched.heads, untouched.inRun⟩
    · omega

/-! ## Placement -/

theorem findRunFrom_spec (aligned : stride ∣ start)
    (found : findRunFrom live pages stride fuel start = some off) :
    off + pages ≤ pagesPerHugepage ∧ runIsClear live off pages = true ∧ stride ∣ off := by
  induction fuel generalizing start with
  | zero => contradiction
  | succ fuel ih =>
    unfold findRunFrom at found
    split at found
    next fits =>
      split at found
      next clear =>
        obtain rfl := Option.some.inj found
        exact ⟨fits, clear, aligned⟩
      next taken => exact ih (Nat.dvd_add aligned (Nat.dvd_refl _)) found
    next past => contradiction

/-- A candidate names a touched hugepage with room for the run. -/
def Usable (f : HugePageFiller) (n pages stride : Nat) (c : Candidate) : Prop :=
  c.1 < n ∧ c.2.1 + pages ≤ pagesPerHugepage ∧ runIsClear (f.slots c.1).live c.2.1 pages = true ∧
    stride ∣ c.2.1

/-- Walking a bin list meets usable candidates only. -/
theorem scanBin_usable (path : Links.Path f.binTable.next f.binTable.prev NIL prev i l)
    (below : ∀ j ∈ l, j < n) (good : ∀ c ∈ best, f.Usable n pages stride c) :
    ∀ c ∈ (f.scanBin pages stride hints budget i best found).1, f.Usable n pages stride c := by
  induction budget generalizing i l prev best found with
  | zero => exact good
  | succ budget ih =>
    unfold scanBin
    split
    · exact good
    next real =>
      cases l with
      | nil => exact absurd path real
      | cons a l =>
        obtain ⟨rfl, -, rest⟩ := path
        have tail : ∀ j ∈ l, j < n := fun j member => below j (by simp [member])
        dsimp only [get]
        split
        · exact ih rest tail good
        split
        · exact ih rest tail good
        next off fits =>
          refine ih rest tail ?_
          split
          · rintro c ⟨⟩
            obtain ⟨inside, clear, aligned⟩ := findRunFrom_spec (Nat.dvd_zero stride) fits
            exact ⟨below i (by simp), inside, clear, aligned⟩
          · exact good

theorem scanBins_usable {bins : List HugeBin} (h : WF f n) (good : ∀ c ∈ best, f.Usable n pages stride c) :
    ∀ c ∈ f.scanBins pages stride hints bins best, f.Usable n pages stride c := by
  obtain ⟨L, lists, -⟩ := h.lists
  induction bins generalizing best with
  | nil => exact good
  | cons b bins ih =>
    have scanned : ∀ c ∈ (f.scanBin pages stride hints scanCap (f.bins b) best false).1,
        f.Usable n pages stride c :=
      scanBin_usable (lists.held.path b) (fun j member => ((lists.filed b j).mp member).1) good
    unfold scanBins
    split
    next ran =>
      rw [ran] at scanned
      exact scanned
    next ran =>
      rw [ran] at scanned
      exact ih scanned

/-- A fresh hugepage has room for any run. -/
theorem WF.openFresh_usable (h : WF f f.nextUntouched)
    (small : pages ≤ pagesPerHugepage) (opened : f.openFresh = some (i, g)) :
    WF g g.nextUntouched ∧ Opened f g ∧ g.Usable g.nextUntouched pages stride (i, 0, 0) := by
  obtain ⟨wf, more, below, empty⟩ := h.openFresh opened
  refine ⟨wf, more, below, by simpa using small, ?_, Nat.dvd_zero _⟩
  simp [runIsClear_iff, empty]

theorem WF.choose (h : WF f f.nextUntouched) (small : pages ≤ pagesPerHugepage)
    (good : ∀ c ∈ best, f.Usable f.nextUntouched pages stride c)
    (chosen : f.choose hints best = some (hp, off, g)) :
    WF g g.nextUntouched ∧ Opened f g ∧ g.Usable g.nextUntouched pages stride (hp, off, 0) := by
  cases best with
  | none =>
    obtain ⟨⟨i, g'⟩, opened, same⟩ := Option.map_eq_some_iff.mp chosen
    obtain ⟨rfl, rfl, rfl⟩ := same
    exact h.openFresh_usable small opened
  | some c =>
    have kept : (c.1, c.2.1, f) = (hp, off, g) →
        WF g g.nextUntouched ∧ Opened f g ∧ g.Usable g.nextUntouched pages stride (hp, off, 0) := by
      rintro ⟨⟩
      exact ⟨h, h.opened_refl, good c rfl⟩
    obtain ⟨hp', off', sc⟩ := c
    dsimp only [HugePageFiller.choose] at chosen
    split at chosen
    · split at chosen
      next i g' opened =>
        obtain ⟨rfl, rfl, rfl⟩ := Option.some.inj chosen
        exact h.openFresh_usable small opened
      next => exact kept (Option.some.inj chosen)
    · exact kept (Option.some.inj chosen)

/-- `place` carves a clear, suitably aligned run out of a touched hugepage,
which it may have opened for that. -/
theorem WF.place {align : Nat} (h : WF f f.nextUntouched)
    (placed : f.place pages align hints = some (p, f')) :
    ∃ g hp off stride, WF g g.nextUntouched ∧ Opened f g ∧ alignStride align = some stride ∧
      0 < pages ∧ g.Usable g.nextUntouched pages stride (hp, off, 0) ∧
      g.carve hp off pages hints = (p, f') := by
  unfold HugePageFiller.place at placed
  split at placed
  · contradiction
  next sized =>
    split at placed
    · contradiction
    next stride strided =>
      obtain ⟨⟨hp, off, g⟩, chosen, carved⟩ := Option.map_eq_some_iff.mp placed
      have scanned : ∀ c ∈ f.scanBins pages stride hints packingOrder none,
          f.Usable f.nextUntouched pages stride c := scanBins_usable h (by simp)
      obtain ⟨wf, opened, usable⟩ := h.choose (by omega) scanned chosen
      exact ⟨g, hp, off, stride, wf, opened, strided, by omega, usable, carved⟩

/-! ## Packed runs -/

/-- The run `carve` has just made is an allocation that `free` takes. -/
theorem isAllocation_carved (hints : PlaceHints) (sound : s.Sound) (pos : 0 < pages)
    (fits : off + pages ≤ pagesPerHugepage) (clear : runIsClear s.live off pages = true) :
    isAllocation (carved s off pages hints) off pages = true := by
  rw [runIsClear_iff] at clear
  have single := sound.not_inRun (k := off) (by omega) (clear off (by omega) (by omega))
  rw [HugePageSlot.isAllocation_iff]
  simp only [carved, getLsbD_setRun, getLsbD_bitSet]
  refine ⟨by grind, single, by grind, ?_, ?_⟩
  · intro k lower upper
    have old := sound.headsLive k
    have free := clear k (by omega) upper
    grind
  · -- the page after the run continues no allocation: the page before it was clear
    intro inside live
    have old := sound.headed (off + pages)
    have free := clear (off + pages - 1) (by omega) (by omega)
    grind

theorem carved_sameLinks : (carved s off pages hints).SameLinks s := ⟨rfl, rfl, rfl⟩

theorem freed_sameLinks : (freed s off pages).SameLinks s := by
  unfold freed
  dsimp only
  split <;> exact ⟨rfl, rfl, rfl⟩

/-- What `free` does: nothing, or one slot is freed after all its checks. -/
theorem free_cases (base pages : Nat) (f : HugePageFiller) :
    (f.free base pages).2 = f ∧ (f.free base pages).1.valid = false ∨
      ∃ hp off, base = f.hugeBase hp + off * pageSize ∧ hp < f.capacity ∧
        (f.slots hp).touched = true ∧ 0 < pages ∧ off + pages ≤ pagesPerHugepage ∧
        isAllocation (f.slots hp) off pages = true ∧ (f.free base pages).1.valid = true ∧
        (f.free base pages).2 = (f.put hp (freed (f.slots hp) off pages)).refile hp := by
  unfold free
  split
  · exact .inl ⟨rfl, rfl⟩
  next hp found =>
    dsimp only [get]
    split
    · exact .inl ⟨rfl, rfl⟩
    next checked =>
      split
      · exact .inl ⟨rfl, rfl⟩
      next fits =>
        split
        · exact .inl ⟨rfl, rfl⟩
        next alloc =>
          simp only [not_or, not_not, Bool.not_eq_false] at checked alloc
          obtain ⟨touched, pos, page⟩ := checked
          exact .inr ⟨hp, _, (base_of_index found page).1, (indexOf_eq_some found).1, touched,
            by omega, by omega, alloc, rfl, rfl⟩

/-- `free` past its checks. -/
theorem free_eq (found : f.indexOf base = some hp) (touched : (f.slots hp).touched = true)
    (pos : 0 < pages) (page : pageSize ∣ base - f.regionBase)
    (offset : (base - f.hugeBase hp) / pageSize = off) (fits : off + pages ≤ pagesPerHugepage)
    (alloc : isAllocation (f.slots hp) off pages = true) :
    (f.free base pages).1.valid = true ∧
      (f.free base pages).2 = (f.put hp (freed (f.slots hp) off pages)).refile hp := by
  have checked : ¬ ((f.get hp).touched = false ∨ pages = 0 ∨ ¬ pageSize ∣ base - f.regionBase) := by
    simp [touched, Nat.pos_iff_ne_zero.mp pos, page]
  subst offset
  simp only [free, found]
  rw [if_neg checked, if_neg (by omega), if_neg (by simp [alloc])]
  exact ⟨rfl, rfl⟩

/-- An allocation is freed by its address. -/
theorem free_allocation (inside : hp < f.capacity) (touched : (f.slots hp).touched = true)
    (pos : 0 < pages) (fits : off + pages ≤ pagesPerHugepage)
    (alloc : isAllocation (f.slots hp) off pages = true) :
    (f.free (f.hugeBase hp + off * pageSize) pages).1.valid = true ∧
      (f.free (f.hugeBase hp + off * pageSize) pages).2 =
        (f.put hp (freed (f.slots hp) off pages)).refile hp :=
  free_eq (indexOf_page inside (by omega)) touched pos page_dvd_offset pageOffset_cancel fits alloc

theorem WF.carve (h : WF f f.nextUntouched) (pos : 0 < pages)
    (usable : f.Usable f.nextUntouched pages stride (hp, off, 0))
    (ran : f.carve hp off pages hints = (p, f')) : WF f' f'.nextUntouched ∧ p.pages = pages := by
  obtain ⟨below, fits, clear, -⟩ := usable
  have effect := refiled f hp (carved (f.slots hp) off pages hints)
  have written : WF ((f.put hp (carved (f.slots hp) off pages hints)).refile hp) f.nextUntouched :=
    h.write below carved_sameLinks ((h.sound hp below).carved pos fits clear)
  obtain ⟨rfl, rfl⟩ := Prod.mk.inj ran
  exact ⟨effect.same.nextUntouched.symm ▸ written, rfl⟩

/-- A carved run can be taken back, and can be committed; either way nothing
is left without backing. -/
theorem Settled.carve (h : Settled f) (pos : 0 < pages)
    (usable : f.Usable f.nextUntouched pages stride (hp, off, 0))
    (ran : f.carve hp off pages hints = (p, f')) :
    Settled (f'.free p.base p.pages).2 ∧ Settled (f'.markCommitted p) := by
  obtain ⟨below, fits, clear, -⟩ := usable
  dsimp only at below fits clear
  have sound := h.wf.sound hp below
  have effect := refiled f hp (carved (f.slots hp) off pages hints)
  have partly : SettledBut ((f.put hp (carved (f.slots hp) off pages hints)).refile hp) hp :=
    (h.but hp).write_but below carved_sameLinks (sound.carved pos fits clear)
  obtain ⟨rfl, rfl⟩ := Prod.mk.inj ran
  dsimp only [get]
  generalize (f.put hp (carved (f.slots hp) off pages hints)).refile hp = f' at *
  have below' : hp < f'.nextUntouched := effect.same.nextUntouched ▸ below
  have inside : hp < f'.capacity := Nat.lt_of_lt_of_le below' partly.wf.bound
  have sound' := partly.wf.sound hp below'
  have pending : (f'.slots hp).BackedBut fun k => off ≤ k ∧ k < off + pages :=
    ((h.backed hp below).carved.retag _).of_body effect.here
  have alloc : isAllocation (f'.slots hp) off pages = true := by
    have same : isAllocation (f'.slots hp).body off pages = _ :=
      congrArg (isAllocation · off pages) effect.here
    exact same.trans (isAllocation_carved hints sound pos fits clear)
  constructor
  · rw [(free_allocation inside sound'.touched pos fits alloc).2]
    exact partly.write below' freed_sameLinks (sound'.freed alloc pos) pending.freed
  · unfold markCommitted
    dsimp only
    rw [validateRun_page inside pos fits]
    exact partly.write below' ⟨rfl, rfl, rfl⟩ sound'.backed pending.backed

theorem Settled.free (h : Settled f) (base pages : Nat) : Settled (f.free base pages).2 := by
  rcases free_cases base pages f with ⟨same, -⟩ | ⟨hp, off, -, -, touched, pos, -, alloc, -, same⟩
  · rw [same]
    exact h
  · have below := h.wf.below_of_touched touched
    rw [same]
    exact (h.but hp).write below freed_sameLinks ((h.wf.sound hp below).freed alloc pos)
      (h.backed hp below).but.freed

theorem trim_cases (base oldPages newPages : Nat) (f : HugePageFiller) :
    f.trim base oldPages newPages = (false, f) ∨
      ∃ hp off, base = f.hugeBase hp + off * pageSize ∧ (f.slots hp).touched = true ∧
        0 < newPages ∧ newPages < oldPages ∧ off + oldPages ≤ pagesPerHugepage ∧
        isAllocation (f.slots hp) off oldPages = true ∧
        f.trim base oldPages newPages =
          (true, (f.put hp (trimmed (f.slots hp) off oldPages newPages)).refile hp) := by
  unfold trim
  split
  · exact .inl rfl
  next sized =>
    split
    · exact .inl rfl
    next hp found =>
      dsimp only [get]
      split
      · exact .inl rfl
      next checked =>
        split
        · exact .inl rfl
        next fits =>
          split
          · exact .inl rfl
          next alloc =>
            simp only [not_or, not_not, Bool.not_eq_false] at checked alloc
            exact .inr ⟨hp, _, (base_of_index found checked.2).1, checked.1, by omega, by omega,
              by omega, alloc, rfl⟩

theorem Settled.trim (h : Settled f) (base oldPages newPages : Nat) :
    Settled (f.trim base oldPages newPages).2 := by
  rcases trim_cases base oldPages newPages f with
    same | ⟨hp, off, -, touched, pos, shorter, -, alloc, same⟩
  · rw [same]
    exact h
  · have below := h.wf.below_of_touched touched
    rw [same]
    exact (h.but hp).write below ⟨rfl, rfl, rfl⟩
      ((h.wf.sound hp below).trimmed alloc pos shorter) (h.backed hp below).trimmed

theorem Settled.markCold (h : Settled f) (addr : Nat) : Settled (f.markCold addr).2 := by
  unfold HugePageFiller.markCold
  split
  · exact h
  next i found =>
    dsimp only [get]
    split
    · exact h
    next touched =>
      have below := h.wf.below_of_touched (by simpa using touched)
      have sound := h.wf.sound i below
      exact (h.but i).write below ⟨rfl, rfl, rfl⟩
        ⟨sound.touched, sound.apart, sound.headsLive, sound.headed, sound.runFull, sound.runLed⟩
        (h.backed i below)

/-- A subrelease names the run it took, on a touched hugepage. -/
theorem subrelease_cases (ran : f.subrelease base pages pressureHigh = some (sr, f')) :
    ∃ hp off, base = f.hugeBase hp + off * pageSize ∧ (f.slots hp).touched = true ∧ 0 < pages ∧
      off + pages ≤ pagesPerHugepage ∧ runIsClear (f.slots hp).live off pages = true ∧
      sr.hugepage = hp ∧
      f' = { (f.put hp (unbacked (f.slots hp) off pages)).refile hp with
             subreleaseEvents :=
               ((f.put hp (unbacked (f.slots hp) off pages)).refile hp).subreleaseEvents + 1 } := by
  unfold subrelease at ran
  split at ran
  · contradiction
  next hp found =>
    dsimp only [get] at ran
    split at ran
    · contradiction
    next checked =>
      split at ran
      · contradiction
      next fits =>
        split at ran
        · contradiction
        next clear =>
          simp only [Option.ite_none_left_eq_some] at ran
          obtain ⟨-, -, -, ran⟩ := ran
          obtain ⟨rfl, rfl⟩ := Prod.mk.inj (Option.some.inj ran)
          simp only [not_or, not_not, Bool.not_eq_false] at checked clear
          exact ⟨hp, _, (base_of_index found checked.2.2).1, checked.1, by omega, by omega, clear, rfl, rfl⟩

theorem Settled.setSubreleaseEvents (h : Settled f) (v : Nat) : Settled { f with subreleaseEvents := v } :=
  ⟨h.wf.setSubreleaseEvents v, h.backed⟩

theorem Settled.unsubrelease (h : Settled f)
    (below : sr.hugepage < f.nextUntouched) : Settled (f.unsubrelease sr) := by
  unfold HugePageFiller.unsubrelease
  dsimp only
  split
  · exact h
  next base _ =>
    split
    · exact h
    next off _ =>
      exact (h.but sr.hugepage).write below ⟨rfl, rfl, rfl⟩ (h.wf.sound _ below).backed
        (h.backed _ below).backed

/-- A subrelease settles, whether or not it is taken back. -/
theorem Settled.subrelease (h : Settled f) (ran : f.subrelease base pages pressureHigh = some (sr, f')) :
    Settled f' ∧ Settled (f'.unsubrelease sr) := by
  obtain ⟨hp, off, -, touched, -, -, clear, named, rfl⟩ := subrelease_cases ran
  have below := h.wf.below_of_touched touched
  have effect := refiled f hp (unbacked (f.slots hp) off pages)
  have written : Settled ((f.put hp (unbacked (f.slots hp) off pages)).refile hp) :=
    (h.but hp).write below ⟨rfl, rfl, rfl⟩ (h.wf.sound hp below).unbacked ((h.backed hp below).unbacked clear)
  have settled := written.setSubreleaseEvents
    (((f.put hp (unbacked (f.slots hp) off pages)).refile hp).subreleaseEvents + 1)
  refine ⟨settled, settled.unsubrelease ?_⟩
  rw [named]
  exact effect.same.nextUntouched.symm ▸ below

end HugePageFiller
end Topomalloc
