import Topomalloc.Extent.Ops

/-! The region seen page by page. Splitting and merging free extents moves the
boundaries between them, so the slots differ although no page changed hands;
`Reshaped` says that, address by address, and the operations that only move
boundaries are shown to keep it. -/
namespace Topomalloc
open Function Tiling

/-- The new descriptor of an address says what the old one said: as free, as
backed, and marked as filled with the canary only if it was. -/
structure Slot.Refines (new old : Slot) : Prop where
  free : new.state.isFree = old.state.isFree
  backed : new.committedLen = new.len ↔ old.committedLen = old.len
  canary : new.canary = true → old.canary = true

theorem Slot.canary_of_body {s t : Slot} (same : s.body = t.body) : s.canary = t.canary := by
  have fields := congrArg Slot.canary same
  exact fields

theorem Slot.Refines.of_body {new : Slot} (same : new.body = old.body) : new.Refines old := by
  obtain ⟨-, len, committed, state, -⟩ := Slot.fields_of_body same
  exact ⟨congrArg _ state, by rw [len, committed], fun marked => Slot.canary_of_body same ▸ marked⟩

theorem Slot.Refines.trans {u : Slot} (h : t.Refines s) (h' : u.Refines t) : u.Refines s :=
  ⟨h'.free.trans h.free, h'.backed.trans h.backed, fun marked => h.canary (h'.canary marked)⟩

/-- A part of an extent that inherits its state, its backing and its mark shows
the same as the whole. -/
theorem Slot.Refines.part {t : Slot} (pos : 0 < t.len) (state : t.state = s.state)
    (canary : t.canary = s.canary)
    (committed : t.committedLen = if s.committedLen = s.len then t.len else 0) : t.Refines s := by
  refine ⟨congrArg _ state, ?_, fun marked => canary ▸ marked⟩
  by_cases full : s.committedLen = s.len
  · rw [if_pos full] at committed
    simp [full, committed]
  · rw [if_neg full] at committed
    simp only [full, iff_false]
    omega

namespace ExtentMap

variable {m m' m'' : ExtentMap} {addr unused : List Nat} {a i j id left right : Nat}

/-- The extent in slot `i` covers the address `a`. -/
def Covers (m : ExtentMap) (a i : Nat) : Prop :=
  i < m.cap ∧ (m.slots i).occupied = true ∧ (m.slots i).base ≤ a ∧ a < (m.slots i).base + (m.slots i).len

instance : Decidable (m.Covers a i) := by
  unfold Covers
  infer_instance

theorem Covers.of_body (h : m'.Covers a i) (region : SameRegion m m')
    (same : (m'.slots i).body = (m.slots i).body) : m.Covers a i := by
  obtain ⟨base, len, -, -, occupied, -⟩ := Slot.fields_of_body same
  obtain ⟨lt, here, above, below⟩ := h
  exact ⟨region.cap ▸ lt, occupied ▸ here, base ▸ above, by rw [base, len] at below; exact below⟩

section
variable (wf : WF m addr unused)
include wf

theorem WF.listed_of_occupied (lt : i < m.cap) (occupied : (m.slots i).occupied = true) : i ∈ addr := by
  rcases (wf.shape.covers i).mp lt with listed | spare
  · exact listed
  · simp [wf.shape.vacant i spare] at occupied

theorem WF.covers_iff :
    m.Covers a i ↔ i ∈ addr ∧ (m.slots i).base ≤ a ∧ a < (m.slots i).base + (m.slots i).len :=
  ⟨fun h => ⟨wf.listed_of_occupied h.1 h.2.1, h.2.2⟩,
    fun h => ⟨wf.shape.lt_cap h.1, (wf.shape.sound i h.1).occupied, h.2⟩⟩

/-- No address has two owners. -/
theorem WF.covers_unique (hi : m.Covers a i) (hj : m.Covers a j) : i = j := by
  by_contra ne
  obtain ⟨listed, above, below⟩ := wf.covers_iff.mp hi
  obtain ⟨listed', above', below'⟩ := wf.covers_iff.mp hj
  have := wf.shape.tiles.disjoint listed listed' ne
  omega

/-- The addresses with an owner are those of the region. -/
theorem WF.exists_covers : (∃ i, m.Covers a i) ↔ m.regionBase ≤ a ∧ a < m.regionBase + m.regionLen := by
  constructor
  · rintro ⟨i, covered⟩
    obtain ⟨listed, above, below⟩ := wf.covers_iff.mp covered
    have := wf.shape.within listed
    omega
  · rintro ⟨above, below⟩
    obtain ⟨i, listed, inside⟩ := wf.shape.tiles.exists_tile above below
    exact ⟨i, wf.covers_iff.mpr ⟨listed, inside⟩⟩

/-! ## What a page shows -/

/-- What is known of one address of the region: the handle of the live extent
that owns it, if any, and whether it is backed. -/
structure PageView where
  owner : Option ExtentRef
  backed : Bool
  deriving DecidableEq, Repr

def pageShown (i : Nat) (s : Slot) : PageView :=
  { owner := if s.state = .active then some ⟨i, s.generation⟩ else none,
    backed := decide (s.committedLen = s.len) }

/-- The page-level view of the address `a`, none outside the region. -/
def pageView (m : ExtentMap) (a : Nat) : Option PageView :=
  ((List.range m.cap).find? fun i => m.Covers a i).map fun i => pageShown i (m.slots i)

theorem WF.pageView_eq (covered : m.Covers a i) : m.pageView a = some (pageShown i (m.slots i)) := by
  cases found : (List.range m.cap).find? fun i => m.Covers a i with
  | none =>
    have missed := List.find?_eq_none.mp found i (List.mem_range.mpr covered.1)
    exact absurd covered (by simpa using missed)
  | some j =>
    have here : m.Covers a j := by simpa using List.find?_some found
    obtain rfl := wf.covers_unique here covered
    rw [pageView, found]
    rfl

theorem WF.pageView_none
    (outside : ¬ (m.regionBase ≤ a ∧ a < m.regionBase + m.regionLen)) : m.pageView a = none := by
  have missed : ((List.range m.cap).find? fun i => m.Covers a i) = none := by
    refine List.find?_eq_none.mpr fun i _ covered => ?_
    exact outside (wf.exists_covers.mp ⟨i, by simpa using covered⟩)
  rw [pageView, missed]
  rfl

end

/-! ## Moving boundaries -/

/-- Only the boundaries between free extents moved. -/
structure Reshaped (m m' : ExtentMap) : Prop extends SameLive m m' where
  freeBytes : m'.freeBytes = m.freeBytes
  committedBytes : m'.committedBytes = m.committedBytes
  pages : ∀ a j, m'.Covers a j → ∃ i, m.Covers a i ∧ (m'.slots j).Refines (m.slots i)

theorem Reshaped.refl : Reshaped m m := ⟨.refl, rfl, rfl, fun _ j covered => ⟨j, covered, .of_body rfl⟩⟩

theorem Reshaped.trans (h : Reshaped m m') (h' : Reshaped m' m'') : Reshaped m m'' := by
  refine ⟨h.toSameLive.trans h'.toSameLive, h'.freeBytes.trans h.freeBytes,
    h'.committedBytes.trans h.committedBytes, fun a j covered => ?_⟩
  obtain ⟨i, covered', refines'⟩ := h'.pages a j covered
  obtain ⟨k, covered'', refines⟩ := h.pages a i covered'
  exact ⟨k, covered'', refines.trans refines'⟩

/-- Splitting a free extent only adds a boundary. -/
theorem SplitAt.reshaped {prefixLen : Nat} (h : SplitAt m m' id prefixLen right)
    (wf : WF m addr unused) (listed : id ∈ addr) (free : (m.slots id).state.isFree = true)
    (vacant : (m.slots right).occupied = false) : Reshaped m m' := by
  refine ⟨h.sameLive free vacant, h.freeBytes, h.committedBytes, fun a j covered => ?_⟩
  have lt := h.lt
  obtain ⟨leftBase, leftLen, leftState, leftCommitted⟩ := h.left_fields
  obtain ⟨rightBase, rightLen, rightState, rightCommitted⟩ := h.right_fields
  by_cases isLeft : j = id
  · subst isLeft
    obtain ⟨-, -, above, below⟩ := covered
    have canary := Slot.canary_of_body h.leftBody
    exact ⟨j, wf.covers_iff.mpr ⟨listed, by omega, by omega⟩,
      .part (leftLen ▸ h.pos) leftState canary (leftLen ▸ leftCommitted)⟩
  by_cases isRight : j = right
  · subst isRight
    obtain ⟨-, -, above, below⟩ := covered
    have canary := Slot.canary_of_body h.rightBody
    exact ⟨id, wf.covers_iff.mpr ⟨listed, by omega, by omega⟩,
      .part (by omega) rightState canary (rightLen ▸ rightCommitted)⟩
  · have same := h.other j isLeft isRight
    exact ⟨j, covered.of_body h.region same, .of_body same⟩

/-- Joining two free extents that agree on their backing only removes a
boundary. -/
theorem MergedTo.reshaped (h : MergedTo m m' left right k) (wf : WF m addr unused)
    (listedLeft : left ∈ addr) (listedRight : right ∈ addr) (freeBytes : m'.freeBytes = m.freeBytes)
    (base : k.base = (m.slots left).base) (len : k.len = (m.slots left).len + (m.slots right).len)
    (meets : (m.slots left).base + (m.slots left).len = (m.slots right).base)
    (intoLeft : k.Refines (m.slots left)) (intoRight : k.Refines (m.slots right))
    (free : k.state.isFree = true) : Reshaped m m' := by
  refine ⟨h.sameLive (intoLeft.free ▸ free) (intoRight.free ▸ free) free, freeBytes, h.committedBytes,
    fun a j covered => ?_⟩
  by_cases isRight : j = right
  · have retired : (m'.slots right).occupied = false := congrArg Slot.occupied h.retired
    rw [← isRight, covered.2.1] at retired
    cases retired
  by_cases isLeft : j = left
  · subst isLeft
    obtain ⟨newBase, newLen, -⟩ := Slot.fields_of_body h.keptBody
    have merged : (m'.slots j).Refines k := .of_body h.keptBody
    obtain ⟨-, -, above, below⟩ := covered
    by_cases inLeft : a < (m.slots j).base + (m.slots j).len
    · exact ⟨j, wf.covers_iff.mpr ⟨listedLeft, by omega, inLeft⟩, intoLeft.trans merged⟩
    · exact ⟨right, wf.covers_iff.mpr ⟨listedRight, by omega, by omega⟩, intoRight.trans merged⟩
  · have same := h.other j isLeft isRight
    exact ⟨j, covered.of_body h.region same, .of_body same⟩

theorem WF.mergeIn_reshaped (wf : WF m addr unused) (ran : m.mergeIn left right = (true, m')) :
    Reshaped m m' := by
  obtain ⟨listedLeft, listedRight, meets, freeLeft, freeRight, compatible, rfl⟩ := wf.mergeIn_eq ran
  have soundLeft := wf.shape.sound left listedLeft
  have soundRight := wf.shape.sound right listedRight
  have leftPos := soundLeft.pos
  have leftBacking := soundLeft.backing
  have rightPos := soundRight.pos
  have rightBacking := soundRight.backing
  have ne : left ≠ right := by
    rintro rfl
    omega
  obtain ⟨effect, free⟩ := installMerge_effect (m := m) (snapshot left (m.slots left))
    (snapshot right (m.slots right)) ne
  refine effect.reshaped wf listedLeft listedRight free rfl rfl meets ?_ ?_ mergedSlot_free
  · refine ⟨mergedSlot_free.trans freeLeft.symm, ?_, fun marked => ?_⟩
    · simp only [mergedSlot, snapshot]
      omega
    · exact (Bool.and_eq_true_iff.mp marked).1
  · refine ⟨mergedSlot_free.trans freeRight.symm, ?_, fun marked => ?_⟩
    · simp only [mergedSlot, snapshot]
      omega
    · exact (Bool.and_eq_true_iff.mp marked).2

/-- The view of every address survives a move of boundaries. -/
theorem Reshaped.pageView_eq (h : Reshaped m m') (wf : WF m addr unused)
    (wf' : WF m' addr' unused') (a : Nat) : m'.pageView a = m.pageView a := by
  by_cases inside : m'.regionBase ≤ a ∧ a < m'.regionBase + m'.regionLen
  · obtain ⟨j, covered⟩ := wf'.exists_covers.mpr inside
    obtain ⟨i, covered', refines⟩ := h.pages a j covered
    by_cases live : m'.Live j
    · have same := h.kept j (h.back j live)
      obtain ⟨-, len, committed, state, -, generation⟩ := Slot.fields_of_body same
      rw [wf'.pageView_eq covered, wf.pageView_eq (covered.of_body h.region same), pageShown, pageShown,
        len, committed, state, generation]
    · -- a free owner: the handles differ, and neither is shown
      have notActive : (m'.slots j).state ≠ .active := fun active => live ⟨covered.1, covered.2.1, active⟩
      have notActive' : (m.slots i).state ≠ .active := by
        have free := refines.free
        intro active
        rw [active] at free
        simp [ExtentState.isFree, notActive] at free
      rw [wf'.pageView_eq covered, wf.pageView_eq covered', pageShown, pageShown, if_neg notActive,
        if_neg notActive', decide_eq_decide.mpr refines.backed]
  · rw [wf'.pageView_none inside, wf.pageView_none]
    rwa [h.region.base, h.region.len] at inside

/-- A handle of a live extent resolves as before. -/
theorem SameLive.resolve_eq (h : SameLive m m')
    (found : m.resolve r = some e) (active : e.state = .active) : m'.resolve r = some e := by
  simp only [resolve, view] at found
  split at found
  · cases found
  rename_i seen
  split at seen
  · cases seen
  split at seen
  · cases seen
  rename_i inPool occupied
  obtain rfl := Option.some.inj seen
  split at found
  · rename_i current
    obtain rfl := Option.some.inj found
    have live : m.Live r.id := ⟨by omega, by simpa using occupied, active⟩
    have same := h.kept r.id live
    have live' := live.of_body h.region same
    have shown : snapshot r.id (m'.slots r.id).body = snapshot r.id (m.slots r.id).body := by rw [same]
    change snapshot r.id (m'.slots r.id) = snapshot r.id (m.slots r.id) at shown
    simp [resolve, view, get, Nat.not_le.mpr live'.1, live'.2.1, shown, current]
  · cases found

end ExtentMap
end Topomalloc
