import Topomalloc.Extent.Pages

/-! Coalescing, absorbing, carving, freeing and the physical-state marks:
each keeps the back-end well formed, and each says exactly what becomes of the
live extents. -/
namespace Topomalloc
open Function Tiling

namespace ExtentMap

variable {m m' m'' : ExtentMap} {addr unused l₁ l₂ : List Nat} {i j id : Nat} {s : Slot}

/-! ## Writes to one slot -/

/-- Only the slot `id` changed, and not its place in the region. -/
structure WroteTo (m m' : ExtentMap) (id : Nat) (s : Slot) : Prop where
  region : SameRegion m m'
  written : (m'.slots id).body = s.body
  other : ∀ j, j ≠ id → (m'.slots j).body = (m.slots j).body
  unusedSlots : m'.unusedSlots = m.unusedSlots

theorem WF.wroteTo (wf : WF m addr unused) (listed : id ∈ addr)
    (effect : WroteTo m m' id s) (base : s.base = (m.slots id).base) (len : s.len = (m.slots id).len)
    (sound : s.Sound) (free : m'.freeBytes + (m.slots id).freeLen = m.freeBytes + s.freeLen)
    (committed : m'.committedBytes + (m.slots id).committedLen = m.committedBytes + s.committedLen)
    (indexed : Indexed m' addr (fun j => j ∈ addr ∧ (m'.slots j).state.isFree = true) unused) :
    WF m' addr unused := by
  refine ⟨indexed, ?_⟩
  have shape := wf.shape
  have nodup := wf.indexed.nodup
  obtain ⟨l₁, l₂, rfl⟩ := List.append_of_mem listed
  have notHere : ∀ j, j ∈ l₁ ∨ j ∈ l₂ → j ≠ id := by
    rintro j inRest rfl
    simp only [List.nodup_append, List.nodup_cons] at nodup
    grind
  obtain ⟨sBase, sLen, sCommitted, sState, -, -⟩ := Slot.fields_of_body effect.written
  have whole : Shape m (l₁ ++ [id] ++ l₂) unused := by simpa using shape
  have replaced : Shape m' (l₁ ++ [id] ++ l₂) unused := by
    refine whole.replace effect.region ?_ ?_ ?_ ?_ ?_ (fun _ => Iff.rfl) ?_ ?_
    · exact fun j inRest => effect.other j (notHere j inRest)
    · intro j inNew
      rw [List.mem_singleton.mp inNew]
      exact sound.of_body effect.written
    · intro lo hi middle
      simp only [Tiles] at middle ⊢
      omega
    · have kept : (m'.slots id).freeLen = s.freeLen := by simp [Slot.freeLen, sState, sLen]
      simp only [List.map_cons, List.map_nil, List.sum_cons, List.sum_nil]
      omega
    · simp only [List.map_cons, List.map_nil, List.sum_cons, List.sum_nil]
      omega
    · intro j spare
      have other := (shape.apart (i := id) listed spare).symm
      exact (Slot.fields_of_body (effect.other j other)).2.2.2.2.1.trans (shape.vacant j spare)
    · rw [effect.unusedSlots]
      exact shape.count
  simpa using replaced

/-- A plain write, with the counters adjusted afterwards. -/
theorem wroteTo_put (id : Nat) (s : Slot) (freeBytes committedBytes : Nat) :
    WroteTo m { m.put id s with freeBytes, committedBytes } id s := by
  refine ⟨⟨rfl, rfl, rfl, rfl⟩, ?_, ?_, rfl⟩
  · simp [put]
  · intro j other
    simp [put, update_of_ne other]

theorem WroteTo.of_core (h : WroteTo m m' id s) (core : m''.core = m'.core) : WroteTo m m'' id s := by
  obtain ⟨cap, base, len, arena, -, -, spare⟩ := scalars_of_core core
  exact ⟨h.region.trans ⟨cap, base, len, arena⟩, (body_of_core core id).trans h.written,
    fun j other => (body_of_core core j).trans (h.other j other), spare.trans h.unusedSlots⟩

/-- A write that keeps the extent free or keeps it live needs no new index. -/
theorem WF.put (wf : WF m addr unused) (freeBytes committedBytes : Nat) (listed : id ∈ addr)
    (links : s.SameLinks (m.slots id)) (base : s.base = (m.slots id).base)
    (len : s.len = (m.slots id).len) (sound : s.Sound)
    (state : s.state.isFree = (m.slots id).state.isFree) (free : freeBytes = m.freeBytes)
    (committed : committedBytes + (m.slots id).committedLen = m.committedBytes + s.committedLen) :
    WF { m.put id s with freeBytes, committedBytes } addr unused := by
  refine wf.wroteTo listed (wroteTo_put ..) base len sound ?_ committed ?_
  · simp only [Slot.freeLen, state, len, free]
  · refine ((wf.indexed.put links fun _ => len).setCounters ..).congr fun j => ?_
    by_cases same : j = id
    · subst same
      simp [ExtentMap.put, state]
    · simp [ExtentMap.put, update_of_ne same]

theorem WroteTo.trans (h : WroteTo m m' id s) (h' : WroteTo m' m'' id t) : WroteTo m m'' id t :=
  ⟨h.region.trans h'.region, h'.written, fun j other => (h'.other j other).trans (h.other j other),
    h'.unusedSlots.trans h.unusedSlots⟩

/-- A write to a free extent that stays free touches no live one. -/
theorem WroteTo.sameLive (h : WroteTo m m' id s)
    (before : (m.slots id).state.isFree = true) (after : s.state.isFree = true) : SameLive m m' := by
  refine ⟨h.region, fun j live => h.other j ?_, fun j live => ?_⟩
  · rintro rfl
    simp [live.2.2, ExtentState.isFree] at before
  · have other : j ≠ id := by
      rintro rfl
      rw [← (Slot.fields_of_body h.written).2.2.2.1, live.2.2] at after
      cases after
    obtain ⟨-, -, -, state, occupied, -⟩ := Slot.fields_of_body (h.other j other)
    exact ⟨h.region.cap ▸ live.1, occupied ▸ live.2.1, state ▸ live.2.2⟩

/-- A write that changes nothing a page shows. -/
theorem WroteTo.reshaped (h : WroteTo m m' id s) (free : (m.slots id).state.isFree = true)
    (base : s.base = (m.slots id).base) (len : s.len = (m.slots id).len)
    (occupied : s.occupied = (m.slots id).occupied) (refines : s.Refines (m.slots id))
    (freeBytes : m'.freeBytes = m.freeBytes) (committedBytes : m'.committedBytes = m.committedBytes) :
    Reshaped m m' := by
  refine ⟨h.sameLive free (refines.free.trans free), freeBytes, committedBytes, fun a j covered => ?_⟩
  by_cases same : j = id
  · subst same
    obtain ⟨newBase, newLen, -, -, newOccupied, -⟩ := Slot.fields_of_body h.written
    obtain ⟨lt, here, above, below⟩ := covered
    rw [newOccupied, occupied] at here
    rw [newBase, base] at above
    rw [newBase, newLen, base, len] at below
    exact ⟨j, ⟨h.region.cap ▸ lt, here, above, below⟩, refines.trans (.of_body h.written)⟩
  · exact ⟨j, covered.of_body h.region (h.other j same), .of_body (h.other j same)⟩

/-! ## The physical-state marks -/

theorem recommitted_isFree (s : ExtentState) : s.recommitted.isFree = s.isFree := by
  cases s <;> rfl

private theorem recommitted_isBacked (s : ExtentState) : s.recommitted.isBacked = true := by
  cases s <;> rfl

/-- `mark_committed` backs the extent in full. -/
theorem WF.markCommitted (wf : WF m addr unused) (listed : id ∈ addr) :
    WF (m.markCommitted id).2 addr unused := by
  have sound := wf.shape.sound id listed
  have backing := sound.backing
  refine wf.put _ _ listed ⟨rfl, rfl, rfl, rfl, rfl⟩ rfl rfl ⟨sound.occupied, sound.pos, sound.page,
    .inr rfl, fun _ => ?_⟩ (recommitted_isFree _) rfl ?_
  · simp only [recommitted_isBacked]
  · change m.committedBytes + ((m.slots id).len - (m.slots id).committedLen) + _ = _ + (m.slots id).len
    omega

/-- A free extent that is marked committed touches no live one. -/
theorem markCommitted_sameLive (free : (m.slots id).state.isFree = true) :
    SameLive m (m.markCommitted id).2 := by
  exact WroteTo.sameLive (wroteTo_put ..) free ((recommitted_isFree _).trans free)

/-- Decommitting suits a live extent and any unbacked free state. -/
theorem WF.markDecommitted (wf : WF m addr unused) (newState : ExtentState) (listed : id ∈ addr)
    (state : newState.isFree = (m.slots id).state.isFree)
    (unbacked : newState.isFree = true → newState.isBacked = false) :
    WF (m.markDecommitted id newState).2 addr unused := by
  have sound := wf.shape.sound id listed
  have pos := sound.pos
  have total : (m.slots id).committedLen ≤ m.committedBytes := by
    rw [wf.shape.committed]
    exact List.single_le_sum (fun _ _ => Nat.zero_le _) _ (List.mem_map_of_mem listed)
  refine wf.put _ _ listed ⟨rfl, rfl, rfl, rfl, rfl⟩ rfl rfl ⟨sound.occupied, sound.pos, sound.page,
    .inl rfl, fun free => ?_⟩ state rfl ?_
  · change newState.isBacked = true ↔ 0 = (m.slots id).len
    simp only [unbacked free, Bool.false_eq_true, false_iff]
    omega
  · change m.committedBytes - (m.slots id).committedLen + _ = _ + 0
    omega

theorem markDecommitted_sameLive (newState : ExtentState) (before : (m.slots id).state.isFree = true)
    (after : newState.isFree = true) : SameLive m (m.markDecommitted id newState).2 :=
  WroteTo.sameLive (wroteTo_put ..) before after

/-- `set_state` on a free extent, to a free state that agrees with its
backing. -/
theorem WF.setState (wf : WF m addr unused) (newState : ExtentState) (listed : id ∈ addr)
    (before : (m.slots id).state.isFree = true) (after : newState.isFree = true)
    (agrees : newState.isBacked = true ↔ (m.slots id).committedLen = (m.slots id).len) :
    WF (m.setState id newState).2 addr unused := by
  have sound := wf.shape.sound id listed
  simp only [ExtentMap.setState, wf.view_eq listed]
  exact wf.put m.freeBytes m.committedBytes listed ⟨rfl, rfl, rfl, rfl, rfl⟩ rfl rfl
    ⟨sound.occupied, sound.pos, sound.page, sound.backing, fun _ => agrees⟩
    (after.trans before.symm) rfl rfl

theorem WF.setState_sameLive (wf : WF m addr unused) (newState : ExtentState) (listed : id ∈ addr)
    (before : (m.slots id).state.isFree = true) (after : newState.isFree = true) :
    SameLive m (m.setState id newState).2 := by
  simp only [ExtentMap.setState, wf.view_eq listed]
  exact WroteTo.sameLive (wroteTo_put id _ m.freeBytes m.committedBytes) before after

/-! ## Coalesce -/

/-- A merge, accepted or refused, moves boundaries between free extents only. -/
theorem WF.mergeIn_any (wf : WF m addr unused) (listed : left ∈ addr) :
    ∃ addr' unused', WF (m.mergeIn left right).2 addr' unused' ∧ left ∈ addr' ∧
      Reshaped m (m.mergeIn left right).2 := by
  cases ran : m.mergeIn left right with
  | mk ok m' =>
    cases ok with
    | false =>
      rw [mergeIn_false ran]
      exact ⟨addr, unused, wf, listed, .refl⟩
    | true =>
      obtain ⟨l₁, l₂, rfl, merged, -⟩ := wf.mergeIn ran
      exact ⟨_, _, merged, by simp, wf.mergeIn_reshaped ran⟩

theorem WF.coalesceIn (wf : WF m addr unused) (listed : id ∈ addr) :
    ∃ addr' unused', WF (m.coalesceIn id).2 addr' unused' ∧ Reshaped m (m.coalesceIn id).2 := by
  -- after the right neighbour, the extent is still listed
  obtain ⟨addr₁, unused₁, wf₁, listed₁, moved₁⟩ : ∃ addr' unused',
      WF (if (m.get id).addrNext ≠ NIL then (m.mergeIn id (m.get id).addrNext).2 else m) addr' unused' ∧
      id ∈ addr' ∧
      Reshaped m (if (m.get id).addrNext ≠ NIL then (m.mergeIn id (m.get id).addrNext).2 else m) := by
    split
    · exact wf.mergeIn_any listed
    · exact ⟨addr, unused, wf, listed, .refl⟩
  simp only [ExtentMap.coalesceIn]
  generalize (if (m.get id).addrNext ≠ NIL then (m.mergeIn id (m.get id).addrNext).2 else m) = m₁ at *
  split
  · cases ran : m₁.mergeIn (m₁.get id).addrPrev id with
    | mk ok m₂ =>
      cases ok with
      | false =>
        rw [mergeIn_false ran]
        exact ⟨addr₁, unused₁, wf₁, moved₁⟩
      | true =>
        have moved₂ := wf₁.mergeIn_reshaped ran
        obtain ⟨l₁, l₂, rfl, merged, -⟩ := wf₁.mergeIn ran
        exact ⟨_, _, merged, moved₁.trans moved₂⟩
  · exact ⟨addr₁, unused₁, wf₁, moved₁⟩

/-! ## Free -/

/-- One live extent left the set of live ones, and no other was touched. -/
structure Freed (m m' : ExtentMap) (id : Nat) : Prop where
  region : SameRegion m m'
  kept : ∀ j, m.Live j → j ≠ id → (m'.slots j).body = (m.slots j).body
  back : ∀ j, m'.Live j → m.Live j ∧ j ≠ id

theorem Freed.trans_sameLive (h : Freed m m' id) (h' : SameLive m' m'') : Freed m m'' id :=
  ⟨h.region.trans h'.region,
    fun j live other => (h'.kept j (live.of_body h.region (h.kept j live other))).trans (h.kept j live other),
    fun j live => h.back j (h'.back j live)⟩

/-- `free_in_canary` before it coalesces: the extent is back in the free index. -/
def refiled (m : ExtentMap) (id : Nat) (newState : ExtentState) (canary : Bool) : ExtentMap :=
  let m := { m.put id { m.get id with state := newState, canary := canary && newState == .dirty } with
    freeBytes := m.freeBytes + (m.slots id).len }
  m.binInsert id

/-- Returning a live extent to the free index, in a free state that agrees with
its backing. -/
theorem WF.refiled (wf : WF m addr unused) (newState : ExtentState) (canary : Bool) (live : m.Live id)
    (after : newState.isFree = true) (legal : ExtentState.active.canTransition newState = true)
    (agrees : newState.isBacked = true ↔ (m.slots id).committedLen = (m.slots id).len) :
    m.freeInCanary id newState canary = some ((m.refiled id newState canary).coalesceIn id) ∧
      WF (m.refiled id newState canary) addr unused ∧
      WroteTo m (m.refiled id newState canary) id
        { m.slots id with state := newState, canary := canary && newState == .dirty } ∧
      (m.refiled id newState canary).freeBytes = m.freeBytes + (m.slots id).len ∧
      (m.refiled id newState canary).committedBytes = m.committedBytes := by
  obtain ⟨listed, state⟩ := wf.live_iff.mp live
  have sound := wf.shape.sound id listed
  have real := wf.indexed.addr_ne_nil listed
  have unfolded : m.freeInCanary id newState canary =
      some ((m.refiled id newState canary).coalesceIn id) := by
    simp only [ExtentMap.freeInCanary, wf.view_eq listed, snapshot, state, legal, ne_eq,
      not_true_eq_false, Bool.true_eq_false, or_self, ↓reduceIte]
    rfl
  simp only [unfolded, ExtentMap.refiled, true_and]
  set s : Slot := { m.slots id with state := newState, canary := canary && newState == .dirty }
  set m₁ : ExtentMap := { m.put id s with freeBytes := m.freeBytes + (m.slots id).len }
  have written : Indexed m₁ addr (fun j => j ∈ addr ∧ (m.slots j).state.isFree = true) unused :=
    (wf.indexed.put (i := id) (s := s) ⟨rfl, rfl, rfl, rfl, rfl⟩ fun _ => rfl).setCounters
      (m.freeBytes + (m.slots id).len) m.committedBytes
  have effect : WroteTo m (m₁.binInsert id) id s :=
    (wroteTo_put id s (m.freeBytes + (m.slots id).len) m.committedBytes).of_core binInsert_core
  have binned := written.binInsert (i := id) (by simp [state, ExtentState.isFree]) real
  obtain ⟨-, -, -, -, free, committed, -⟩ := scalars_of_core (binInsert_core (m := m₁) (i := id))
  refine ⟨wf.wroteTo listed effect rfl rfl
    ⟨sound.occupied, sound.pos, sound.page, sound.backing, fun _ => agrees⟩ ?_ ?_ (binned.congr ?_),
    effect, free, committed⟩
  · have before : (m.slots id).freeLen = 0 := by simp [Slot.freeLen, state, ExtentState.isFree]
    have now : s.freeLen = (m.slots id).len := by simp [Slot.freeLen, s, after]
    rw [free, before, now]
    rfl
  · rw [committed]
    rfl
  · intro j
    by_cases same : j = id
    · subst same
      rw [(Slot.fields_of_body effect.written).2.2.2.1]
      simp [listed, s, after]
    · rw [(Slot.fields_of_body (effect.other j same)).2.2.2.1]
      simp [same]

/-- Freeing a live extent succeeds, into a free state that agrees with its
backing. -/
theorem WF.freeInCanary (wf : WF m addr unused) (newState : ExtentState) (canary : Bool)
    (live : m.Live id) (after : newState.isFree = true)
    (legal : ExtentState.active.canTransition newState = true)
    (agrees : newState.isBacked = true ↔ (m.slots id).committedLen = (m.slots id).len) :
    ∃ survivor m', m.freeInCanary id newState canary = some (survivor, m') ∧
      ∃ addr' unused', WF m' addr' unused' ∧ Freed m m' id ∧ Reshaped (m.refiled id newState canary) m' := by
  obtain ⟨unfolded, inserted, effect, -, -⟩ := wf.refiled newState canary live after legal agrees
  obtain ⟨addr', unused', coalesced, moved⟩ := inserted.coalesceIn (wf.live_iff.mp live).1
  refine ⟨_, _, unfolded, addr', unused', coalesced,
    Freed.trans_sameLive ⟨effect.region, ?_, ?_⟩ moved.toSameLive, moved⟩
  · exact fun j _ other => effect.other j other
  · intro j liveAfter
    have other : j ≠ id := by
      rintro rfl
      have := liveAfter.2.2
      rw [(Slot.fields_of_body effect.written).2.2.2.1] at this
      simp only at this
      rw [this] at after
      cases after
    obtain ⟨-, -, -, sameState, occupied, -⟩ := Slot.fields_of_body (effect.other j other)
    exact ⟨⟨effect.region.cap ▸ liveAfter.1, occupied ▸ liveAfter.2.1, sameState ▸ liveAfter.2.2⟩, other⟩

/-! ## Absorb -/

variable {next neededLen align : Nat} {hit : Hit}

theorem absorbNextIn_effect (ne : id ≠ next) :
    MergedTo m (m.absorbNextIn id next) id next (grownSlot (m.slots next) (m.slots id)) ∧
      (m.absorbNextIn id next).freeBytes = m.freeBytes - (m.slots next).len := by
  have unlinked : ((m.binRemove next).addrRemove next).core = m.core := by simp
  have written := core_put_map (i := id) (f := grownSlot (m.get next)) unlinked fun _ => rfl
  refine mergedTo_of_core (m := m) (k := grownSlot (m.slots next) (m.slots id))
    (m.freeBytes - (m.slots next).len) ne ?_
  have counted := congrArg (fun c : ExtentMap => { c with freeBytes := c.freeBytes - (m.slots next).len })
    written
  exact counted

theorem Indexed.absorbNextIn (h : Indexed m (l₁ ++ id :: next :: l₂) S unused)
    (live : ¬ S id) (free : S next) (spare : next ∉ unused) :
    Indexed (m.absorbNextIn id next) (l₁ ++ id :: l₂) (fun j => S j ∧ j ≠ next) (next :: unused) := by
  have nextReal : next ≠ NIL := h.addr_ne_nil (by simp)
  have unlisted := (h.binRemove free).addrRemove (i := next) (by simp)
  rw [erase_second h.nodup] at unlisted
  have rewritten := unlisted.put (i := id)
    (s := grownSlot (m.get next) (((m.binRemove next).addrRemove next).get id))
    ⟨rfl, rfl, rfl, rfl, rfl⟩ fun inS => absurd inS.1 live
  exact (rewritten.setCounters (_ - (m.get next).len) _).pushSlot spare nextReal

/-- A live, fully backed extent absorbs its free, fully backed neighbour. -/
theorem WF.absorbNextIn (wf : WF m (l₁ ++ id :: next :: l₂) unused) (live : (m.slots id).state = .active)
    (backed : (m.slots id).committedLen = (m.slots id).len) (free : (m.slots next).state.isFree = true)
    (backedNext : (m.slots next).committedLen = (m.slots next).len) :
    WF (m.absorbNextIn id next) (l₁ ++ id :: l₂) (next :: unused) ∧
      MergedTo m (m.absorbNextIn id next) id next (grownSlot (m.slots next) (m.slots id)) := by
  have nodup := wf.indexed.nodup
  have listedNext : next ∈ l₁ ++ id :: next :: l₂ := by simp
  have sound := wf.shape.sound id (by simp)
  have soundNext := wf.shape.sound next listedNext
  have ne : id ≠ next := by
    rintro rfl
    simp [live, ExtentState.isFree] at free
  have spare : next ∉ unused := fun spare => wf.shape.apart listedNext spare rfl
  obtain ⟨effect, freeBytes⟩ := absorbNextIn_effect (m := m) ne
  have indexed := wf.indexed.absorbNextIn (by simp [live, ExtentState.isFree]) ⟨listedNext, free⟩ spare
  generalize m.absorbNextIn id next = m' at *
  have grown : (grownSlot (m.slots next) (m.slots id)).Sound := by
    refine ⟨sound.occupied, Nat.add_pos_left sound.pos _, Nat.dvd_add sound.page soundNext.page,
      .inr (congrArg₂ (· + ·) backed backedNext), fun free => ?_⟩
    simp [grownSlot, live, ExtentState.isFree] at free
  have total : (m.slots next).len ≤ m.freeBytes := by
    have part : (m.slots next).freeLen ≤ m.freeBytes := by
      rw [wf.shape.free]
      exact List.single_le_sum (fun _ _ => Nat.zero_le _) _ (List.mem_map_of_mem listedNext)
    simpa [Slot.freeLen, free] using part
  refine ⟨wf.mergedTo effect grown rfl rfl rfl ?_ (indexed.congr fun j => ?_), effect⟩
  · simp only [Slot.freeLen, grownSlot, live, free, ↓reduceIte]
    simp only [ExtentState.isFree, bne_self_eq_false, Bool.false_eq_true, ↓reduceIte]
    omega
  · rcases eq_or_ne j id with rfl | notId
    · rw [(Slot.fields_of_body effect.keptBody).2.2.2.1]
      simp [grownSlot, live, ExtentState.isFree]
    rcases eq_or_ne j next with rfl | notNext
    · simp only [List.nodup_append, List.nodup_cons, List.mem_cons] at nodup
      simp only [List.mem_append, List.mem_cons]
      grind
    · rw [(Slot.fields_of_body (effect.other j notId notNext)).2.2.2.1]
      simp [notNext]

/-! ## Finding a fit -/

section Fit
variable {neededLen align : Nat} {fit : Fit} {S : Nat → Prop} {best : Option Hit}

theorem fits_eq_some (found : fits s neededLen align = some (aligned, before)) :
    alignUp s.base align = some aligned ∧ before = aligned - s.base ∧ before + neededLen ≤ s.len := by
  simp only [fits] at found
  split at found
  · cases found
  rename_i rounded
  split at found
  · cases found
  rename_i sum
  split at found
  · rename_i large
    simp only [Option.some.injEq, Prod.mk.injEq] at found
    obtain ⟨rfl, rfl⟩ := found
    obtain ⟨rfl, -⟩ := checkedAdd_eq_some.mp sum
    exact ⟨rounded, rfl, large⟩
  · cases found

/-- A hit names a member of `S` that is large enough. -/
def Hit.Good (m : ExtentMap) (S : Nat → Prop) (neededLen align : Nat) (h : Hit) : Prop :=
  S h.slot ∧ fits (m.slots h.slot) neededLen align = some (h.aligned, h.before)

private theorem keepBest_good
    (bestGood : ∀ h ∈ best, Hit.Good m S neededLen align h) (good : Hit.Good m S neededLen align hit) :
    ∀ h ∈ m.keepBest best hit, Hit.Good m S neededLen align h := by
  intro h kept
  cases best with
  | none =>
    simp only [keepBest, Option.mem_def, Option.some.injEq] at kept
    exact kept ▸ good
  | some b =>
    simp only [keepBest] at kept
    split at kept
    · exact Option.some.inj kept ▸ good
    · exact bestGood h kept

/-- Whatever the scan of a bin keeps is good. -/
def Scan.Good (m : ExtentMap) (S : Nat → Prop) (neededLen align : Nat) : Scan → Prop
  | .stop best => ∀ h ∈ best, Hit.Good m S neededLen align h
  | .go _ best => ∀ h ∈ best, Hit.Good m S neededLen align h

theorem scanBin_good (path : Links.Path (fun j => (m.slots j).binNext) prev NIL p i l)
    (members : ∀ j ∈ l, S j) (bestGood : ∀ h ∈ best, Hit.Good m S neededLen align h) :
    Scan.Good m S neededLen align (m.scanBin neededLen align fit fuel i best) := by
  induction fuel generalizing i p l best with
  | zero =>
    unfold scanBin
    split <;> exact bestGood
  | succ fuel ih =>
    unfold scanBin
    split
    · exact bestGood
    rename_i real
    cases l with
    | nil => exact absurd path real
    | cons a l =>
      obtain ⟨rfl, -, rest⟩ := path
      have inS := members i (by simp)
      have later : ∀ j ∈ l, S j := fun j inRest => members j (by simp [inRest])
      dsimp only
      split
      · exact ih rest later bestGood
      rename_i aligned before found
      cases fit with
      | first =>
        intro h kept
        exact Option.some.inj kept ▸ ⟨inS, found⟩
      | best => exact ih rest later (keepBest_good bestGood ⟨inS, found⟩)

theorem scanBins_good {bins : List Nat} {L : Nat → List Nat}
    (paths : ∀ b, Links.Path (fun j => (m.slots j).binNext) prev NIL NIL (m.bins b) (L b))
    (members : ∀ b, ∀ j ∈ L b, S j) (bestGood : ∀ h ∈ best, Hit.Good m S neededLen align h) :
    ∀ h ∈ m.scanBins neededLen align fit bins fuel best, Hit.Good m S neededLen align h := by
  induction bins generalizing best fuel with
  | nil => exact bestGood
  | cons b rest ih =>
    have scanned : Scan.Good m S neededLen align (m.scanBin neededLen align fit fuel (m.bins b) best) :=
      scanBin_good (paths b) (members b) bestGood
    unfold scanBins
    split
    · rename_i stopped
      rw [stopped] at scanned
      exact scanned
    · rename_i fuel' best' went
      rw [went] at scanned
      split
      · exact scanned
      · exact ih scanned

/-- `find_fit` answers with a free extent that is large enough. -/
theorem WF.findFit (wf : WF m addr unused) (found : m.findFit neededLen align fit = some hit) :
    hit.slot ∈ addr ∧ (m.slots hit.slot).state.isFree = true ∧
      alignUp (m.slots hit.slot).base align = some hit.aligned ∧
      hit.before = hit.aligned - (m.slots hit.slot).base ∧
      hit.before + neededLen ≤ (m.slots hit.slot).len := by
  obtain ⟨bins, lists, filed⟩ := wf.indexed
  obtain ⟨tail, held⟩ := lists.binsHeld
  have good : Hit.Good m (fun j => j ∈ addr ∧ (m.slots j).state.isFree = true) neededLen align hit :=
    scanBins_good (L := bins) (fun b => held.path b) (fun b j inB => ((filed b j).mp inB).1) (by simp) hit found
  obtain ⟨⟨listed, free⟩, fitting⟩ := good
  exact ⟨listed, free, fits_eq_some fitting⟩

end Fit

/-! ## Carve -/

theorem WF.activate (wf : WF m addr unused) (listed : id ∈ addr) (free : (m.slots id).state.isFree = true) :
    WF (m.activate id) addr unused ∧ WroteTo m (m.activate id) id { m.slots id with state := .active } ∧
      (m.activate id).freeBytes + (m.slots id).len = m.freeBytes ∧
      (m.activate id).committedBytes = m.committedBytes := by
  have sound := wf.shape.sound id listed
  have body : ((m.binRemove id).slots id).body = (m.slots id).body := body_of_core binRemove_core id
  obtain ⟨base, len, committed, -, occupied, -⟩ := Slot.fields_of_body body
  obtain ⟨cap', base', len', arena', free', committed', spare'⟩ :=
    scalars_of_core (binRemove_core (m := m) (i := id))
  have effect : WroteTo m (m.activate id) id { m.slots id with state := .active } := by
    have put := wroteTo_put (m := m.binRemove id) id { (m.binRemove id).slots id with state := .active }
      ((m.binRemove id).freeBytes - ((m.binRemove id).slots id).len) (m.binRemove id).committedBytes
    refine ⟨SameRegion.trans ⟨cap', base', len', arena'⟩ put.region, put.written.trans ?_,
      fun j other => (put.other j other).trans (body_of_core binRemove_core j),
      put.unusedSlots.trans spare'⟩
    have bodies := congrArg (fun b : Slot => { b with state := ExtentState.active }) body
    exact bodies
  have total : (m.slots id).len ≤ m.freeBytes := by
    have part : (m.slots id).freeLen ≤ m.freeBytes := by
      rw [wf.shape.free]
      exact List.single_le_sum (fun _ _ => Nat.zero_le _) _ (List.mem_map_of_mem listed)
    simpa [Slot.freeLen, free] using part
  have left : (m.activate id).freeBytes = m.freeBytes - (m.slots id).len := congrArg₂ (· - ·) free' len
  refine ⟨wf.wroteTo listed effect rfl rfl ⟨sound.occupied, sound.pos, sound.page, sound.backing,
    fun free => by cases free⟩ ?_ ?_ ?_, effect, by omega, committed'⟩
  · rw [left]
    simp only [Slot.freeLen, free, ↓reduceIte]
    simp only [ExtentState.isFree, bne_self_eq_false, Bool.false_eq_true, ↓reduceIte]
    omega
  · exact congrArg (· + (m.slots id).committedLen) committed'
  · have removed := wf.indexed.binRemove (i := id) ⟨listed, free⟩
    have written := removed.put (i := id) (s := { (m.binRemove id).get id with state := .active })
      ⟨rfl, rfl, rfl, rfl, rfl⟩ fun inS => absurd rfl inS.2
    refine (written.setCounters (_ - ((m.binRemove id).get id).len) _).congr fun j => ?_
    by_cases same : j = id
    · subst same
      rw [(Slot.fields_of_body effect.written).2.2.2.1]
      simp [ExtentState.isFree]
    · rw [(Slot.fields_of_body (effect.other j same)).2.2.2.1]
      simp [same]

/-- One extent joined the live ones: exactly `len` bytes at a multiple of
`align`. -/
structure Carved (m m' : ExtentMap) (id len align : Nat) : Prop where
  region : SameRegion m m'
  fresh : ¬ m.Live id
  live : m'.Live id
  kept : ∀ j, m.Live j → (m'.slots j).body = (m.slots j).body
  back : ∀ j, m'.Live j → m.Live j ∨ j = id
  len : (m'.slots id).len = len
  aligned : align ∣ (m'.slots id).base

/-- Activating a free extent of a map with the same live extents. -/
theorem carved_of_activate (wf : WF m' addr unused) (same : SameLive m m')
    (listed : id ∈ addr) (free : (m'.slots id).state.isFree = true) (size : (m'.slots id).len = len)
    (aligned : align ∣ (m'.slots id).base) :
    WF (m'.activate id) addr unused ∧ Carved m (m'.activate id) id len align := by
  obtain ⟨active, effect, -, -⟩ := wf.activate listed free
  have dead : ¬ m'.Live id := by
    rintro ⟨-, -, state⟩
    simp [state, ExtentState.isFree] at free
  obtain ⟨base', len', -, state', -⟩ := Slot.fields_of_body effect.written
  refine ⟨active, same.region.trans effect.region, fun live => dead (same.live_iff.mpr live),
    active.live_iff.mpr ⟨listed, state'⟩, ?_, ?_, len'.trans size, ?_⟩
  · intro j live
    have liveBefore := same.live_iff.mpr live
    have other : j ≠ id := fun eq => dead (eq ▸ liveBefore)
    exact (effect.other j other).trans (same.kept j live)
  · intro j live
    by_cases eq : j = id
    · exact .inr eq
    · obtain ⟨-, -, -, state, occupied, -⟩ := Slot.fields_of_body (effect.other j eq)
      exact .inl (same.back j ⟨effect.region.cap ▸ live.1, occupied ▸ live.2.1, state ▸ live.2.2⟩)
  · exact base' ▸ aligned

/-- Splitting a listed free extent, with a slot to spare. -/
theorem WF.splitIn_free (wf : WF m addr unused) (listed : id ∈ addr)
    (free : (m.slots id).state.isFree = true) (spare : unused ≠ []) (pos : 0 < prefixLen)
    (lt : prefixLen < (m.slots id).len) (page : pageSize ∣ prefixLen) :
    ∃ right m' addr' rest, m.splitIn id prefixLen = some (right, m') ∧ unused = right :: rest ∧
      WF m' addr' rest ∧ SplitAt m m' id prefixLen right ∧ Reshaped m m' ∧
      id ∈ addr' ∧ right ∈ addr' := by
  obtain ⟨right, m', ran⟩ := wf.splitIn_some listed spare pos lt page
  obtain ⟨l₁, l₂, rfl⟩ := List.append_of_mem listed
  obtain ⟨rest, rfl, wf', effect⟩ := wf.splitIn ran
  exact ⟨right, m', _, rest, ran, rfl, wf', effect,
    effect.reshaped wf listed free (wf.shape.vacant right (by simp)), by simp, by simp⟩

/-- The free extent `id` of `m'` is exactly the `len` bytes at `base`, and `m'`
is `m` with some boundaries moved. -/
structure Readied (m m' : ExtentMap) (id base len : Nat) : Prop where
  reshaped : Reshaped m m'
  free : (m'.slots id).state.isFree = true
  base : (m'.slots id).base = base
  len : (m'.slots id).len = len

/-- The tail trim of a carve, over a map with only boundaries moved since `m`. -/
theorem WF.carveAligned (wf : WF m' addr unused) (moved : Reshaped m m') (listed : active ∈ addr)
    (free : (m'.slots active).state.isFree = true) (pos : 0 < neededLen) (page : pageSize ∣ neededLen)
    (le : neededLen ≤ (m'.slots active).len) (spare : (m'.slots active).len > neededLen → unused ≠ []) :
    ∃ m₁ addr₁ unused₁, m'.carveAligned active neededLen = (some active, m₁.activate active) ∧
      WF m₁ addr₁ unused₁ ∧ active ∈ addr₁ ∧
      Readied m m₁ active (m'.slots active).base neededLen := by
  by_cases larger : (m'.slots active).len > neededLen
  · obtain ⟨right, trimmed, addr', rest, ran, rfl, wf', effect, moved', listed', -⟩ :=
      wf.splitIn_free listed free (spare larger) pos larger page
    obtain ⟨base, len, state, -⟩ := effect.left_fields
    simp only [ExtentMap.carveAligned, larger, ↓reduceIte, ran]
    exact ⟨trimmed, addr', rest, rfl, wf', listed', moved.trans moved', state ▸ free, base, len⟩
  · have size : (m'.slots active).len = neededLen := Nat.le_antisymm (Nat.not_lt.mp larger) le
    simp only [ExtentMap.carveAligned, larger, ↓reduceIte]
    exact ⟨m', addr, unused, rfl, wf, listed, moved, free, rfl, size⟩

/-- The splits that make `hit` an extent of exactly `neededLen` bytes: one for
the bytes in front of it and one for those behind. -/
def Hit.splits (m : ExtentMap) (hit : Hit) (neededLen : Nat) : Nat :=
  (if hit.before > 0 then 1 else 0) + (if (m.slots hit.slot).len - hit.before > neededLen then 1 else 0)

/-- What `carve_in` does with a fit it has the slots for. -/
theorem WF.carveIn_hit (wf : WF m addr unused) (nonzero : neededLen ≠ 0) (page : pageSize ∣ neededLen)
    (power : isPowerOfTwo align = true) (found : m.findFit neededLen align fit = some hit)
    (enough : hit.splits m neededLen ≤ m.unusedSlots) :
    ∃ id m₁ addr₁ unused₁, m.carveIn neededLen align fit = (some id, m₁.activate id) ∧
      WF m₁ addr₁ unused₁ ∧ id ∈ addr₁ ∧ Readied m m₁ id hit.aligned neededLen := by
  obtain ⟨listed, free, rounded, before, large⟩ := wf.findFit found
  obtain ⟨-, le, -, -⟩ := alignUp_spec (isPowerOfTwo_pos power) rounded
  have beforePage : pageSize ∣ hit.before := before ▸ alignUp_page power (wf.shape.page_base listed) rounded
  have count := wf.shape.count
  have valid : ¬ (neededLen = 0 ∨ ¬ pageSize ∣ neededLen ∨ isPowerOfTwo align = false) := by
    simp [nonzero, page, power]
  simp only [Hit.splits] at enough
  have few := Nat.not_lt.mpr enough
  by_cases shift : hit.before > 0
  · -- the alignment prefix is split off first and stays free
    have spare : unused ≠ [] := by
      rintro rfl
      simp only [shift, ↓reduceIte, List.length_nil] at enough count
      omega
    obtain ⟨right, m₁, addr₁, rest, ran₁, rfl, wf₁, effect, moved₁, -, listed₁⟩ :=
      wf.splitIn_free listed free spare shift (by omega) beforePage
    obtain ⟨base, len, state, -⟩ := effect.right_fields
    have tailSpare : (m₁.slots right).len > neededLen → rest ≠ [] := by
      rintro larger rfl
      have tail : (m.slots hit.slot).len - hit.before > neededLen := len ▸ larger
      simp only [shift, tail, ↓reduceIte, List.length_cons, List.length_nil] at enough count
      omega
    obtain ⟨m₂, addr₂, unused₂, eq, wf₂, listed₂, readied⟩ := wf₁.carveAligned moved₁ listed₁
      (state ▸ free) (by omega) page (by omega) tailSpare
    have start : (m₁.slots right).base = hit.aligned := by omega
    refine ⟨right, m₂, addr₂, unused₂, ?_, wf₂, listed₂, start ▸ readied⟩
    simp only [ExtentMap.carveIn, get, if_neg valid, found]
    rw [if_neg few, if_pos shift]
    simp only [ran₁, eq]
  · have start : (m.slots hit.slot).base = hit.aligned := by omega
    have tailSpare : (m.slots hit.slot).len > neededLen → unused ≠ [] := by
      rintro larger rfl
      have tail : (m.slots hit.slot).len - hit.before > neededLen := by omega
      simp only [shift, tail, ↓reduceIte, List.length_nil] at enough count
      omega
    obtain ⟨m₂, addr₂, unused₂, eq, wf₂, listed₂, readied⟩ := wf.carveAligned .refl listed free
      (by omega) page (by omega) tailSpare
    refine ⟨hit.slot, m₂, addr₂, unused₂, ?_, wf₂, listed₂, start ▸ readied⟩
    simp only [ExtentMap.carveIn, get, if_neg valid, found]
    rw [if_neg few, if_neg shift]
    exact eq

/-- A refused carve leaves the map as it was; an accepted one readies the fit
and makes it live. -/
theorem WF.carveIn (wf : WF m addr unused) (ran : m.carveIn neededLen align fit = (answer, m')) :
    (answer = none ∧ m' = m) ∨
      ∃ id m₁ addr₁ unused₁ hit, answer = some id ∧ m.findFit neededLen align fit = some hit ∧
        WF m₁ addr₁ unused₁ ∧ id ∈ addr₁ ∧ Readied m m₁ id hit.aligned neededLen ∧
        m' = m₁.activate id ∧ WF m' addr₁ unused₁ ∧ Carved m m' id neededLen align := by
  by_cases valid : neededLen = 0 ∨ ¬ pageSize ∣ neededLen ∨ isPowerOfTwo align = false
  · simp only [ExtentMap.carveIn, if_pos valid, Prod.mk.injEq] at ran
    exact .inl ⟨ran.1.symm, ran.2.symm⟩
  cases found : m.findFit neededLen align fit with
  | none =>
    simp only [ExtentMap.carveIn, if_neg valid, found, Prod.mk.injEq] at ran
    exact .inl ⟨ran.1.symm, ran.2.symm⟩
  | some hit =>
    by_cases few : m.unusedSlots < hit.splits m neededLen
    · rw [Hit.splits] at few
      simp only [ExtentMap.carveIn, get, if_neg valid, found, if_pos few, Prod.mk.injEq] at ran
      exact .inl ⟨ran.1.symm, ran.2.symm⟩
    · simp only [not_or, not_not, Bool.not_eq_false] at valid
      obtain ⟨nonzero, page, power⟩ := valid
      obtain ⟨id, m₁, addr₁, unused₁, eq, wf₁, listed₁, readied⟩ :=
        wf.carveIn_hit nonzero page power found (Nat.not_lt.mp few)
      rw [eq, Prod.mk.injEq] at ran
      obtain ⟨rfl, rfl⟩ := ran
      have aligned : align ∣ (m₁.slots id).base := by
        rw [readied.base]
        exact (alignUp_spec (isPowerOfTwo_pos power) (wf.findFit found).2.2.1).1
      obtain ⟨active, carved⟩ := carved_of_activate wf₁ readied.reshaped.toSameLive listed₁ readied.free
        readied.len aligned
      exact .inr ⟨id, m₁, addr₁, unused₁, hit, rfl, rfl, wf₁, listed₁, readied, rfl, active, carved⟩

end ExtentMap
end Topomalloc
