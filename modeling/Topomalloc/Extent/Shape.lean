import Topomalloc.Lib.Tiling
import Topomalloc.Extent.Index

/-! What `check_invariants` asks of the extents themselves: they tile the
region, each is sound on its own, and the counters agree with them. `WF` adds
that the size bins hold exactly the free extents.

All of `Shape` reads the core of the map only, so `Shape.replace` can treat
every operation as replacing a few neighbouring extents by others over the
same addresses. -/
namespace Topomalloc
open Function Tiling

/-- A listed extent: whole pages, backed in full or not at all, and a free
state that agrees with the backing. -/
structure Slot.Sound (s : Slot) : Prop where
  occupied : s.occupied = true
  pos : 0 < s.len
  page : pageSize ∣ s.len
  backing : s.committedLen = 0 ∨ s.committedLen = s.len
  coupled : s.state.isFree = true → (s.state.isBacked = true ↔ s.committedLen = s.len)

/-- The bytes a slot adds to `free_bytes`. -/
def Slot.freeLen (s : Slot) : Nat := if s.state.isFree then s.len else 0

theorem Slot.Sound.of_body {s s' : Slot} (h : s.Sound) (same : s'.body = s.body) : s'.Sound := by
  have fields : s'.body.Sound := same ▸ ⟨h.occupied, h.pos, h.page, h.backing, h.coupled⟩
  exact ⟨fields.occupied, fields.pos, fields.page, fields.backing, fields.coupled⟩

/-- A part of a sound extent that inherits its state and its backing. -/
theorem Slot.Sound.part {s t : Slot} (h : s.Sound) (occupied : t.occupied = true) (pos : 0 < t.len)
    (page : pageSize ∣ t.len) (state : t.state = s.state)
    (committed : t.committedLen = if s.committedLen = s.len then t.len else 0) : t.Sound := by
  by_cases backed : s.committedLen = s.len
  · rw [if_pos backed] at committed
    refine ⟨occupied, pos, page, .inr committed, fun free => ?_⟩
    rw [state] at free ⊢
    rw [h.coupled free]
    simp [backed, committed]
  · rw [if_neg backed] at committed
    refine ⟨occupied, pos, page, .inl committed, fun free => ?_⟩
    rw [state] at free ⊢
    rw [h.coupled free]
    simp only [backed, committed, false_iff]
    omega

namespace ExtentMap

/-- The extents listed by `addr` tile the region, and every other slot of the
pool is in `unused`. -/
structure Shape (m : ExtentMap) (addr unused : List Nat) : Prop where
  covers : ∀ i, i < m.cap ↔ i ∈ addr ∨ i ∈ unused
  sound : ∀ i ∈ addr, (m.slots i).Sound
  vacant : ∀ i ∈ unused, (m.slots i).occupied = false
  tiles : Tiles (fun i => (m.slots i).base) (fun i => (m.slots i).len) m.regionBase addr
    (m.regionBase + m.regionLen)
  free : m.freeBytes = (addr.map fun i => (m.slots i).freeLen).sum
  committed : m.committedBytes = (addr.map fun i => (m.slots i).committedLen).sum
  count : m.unusedSlots = unused.length
  capBound : m.cap ≤ NIL
  basePage : pageSize ∣ m.regionBase
  bound : m.regionBase + m.regionLen ≤ usizeMax

/-- The back-end is well formed over these two lists. -/
structure WF (m : ExtentMap) (addr unused : List Nat) : Prop where
  indexed : Indexed m addr (fun i => i ∈ addr ∧ (m.slots i).state.isFree = true) unused
  shape : Shape m addr unused

/-- The region and the pool are those of `m`. -/
structure SameRegion (m m' : ExtentMap) : Prop where
  cap : m'.cap = m.cap
  base : m'.regionBase = m.regionBase
  len : m'.regionLen = m.regionLen
  arena : m'.arena = m.arena

variable {m m' m'' : ExtentMap} {addr unused unused' l₁ l₂ old new : List Nat} {i j id : Nat}

theorem SameRegion.refl : SameRegion m m := ⟨rfl, rfl, rfl, rfl⟩

theorem SameRegion.trans (h : SameRegion m m') (h' : SameRegion m' m'') : SameRegion m m'' :=
  ⟨h'.cap.trans h.cap, h'.base.trans h.base, h'.len.trans h.len, h'.arena.trans h.arena⟩

/-- Replacing some neighbouring extents by others over the same addresses. -/
theorem Shape.replace (h : Shape m (l₁ ++ old ++ l₂) unused) (region : SameRegion m m')
    (same : ∀ j, j ∈ l₁ ∨ j ∈ l₂ → (m'.slots j).body = (m.slots j).body)
    (sound : ∀ j ∈ new, (m'.slots j).Sound)
    (tiles : ∀ lo hi, Tiles (fun j => (m.slots j).base) (fun j => (m.slots j).len) lo old hi →
      Tiles (fun j => (m'.slots j).base) (fun j => (m'.slots j).len) lo new hi)
    (free : m'.freeBytes + (old.map fun j => (m.slots j).freeLen).sum =
      m.freeBytes + (new.map fun j => (m'.slots j).freeLen).sum)
    (committed : m'.committedBytes + (old.map fun j => (m.slots j).committedLen).sum =
      m.committedBytes + (new.map fun j => (m'.slots j).committedLen).sum)
    (covers : ∀ j, j ∈ new ∨ j ∈ unused' ↔ j ∈ old ∨ j ∈ unused)
    (vacant : ∀ j ∈ unused', (m'.slots j).occupied = false)
    (count : m'.unusedSlots = unused'.length) : Shape m' (l₁ ++ new ++ l₂) unused' := by
  have keeps {α : Type} (f : Slot → α) (onBody : ∀ s : Slot, f s.body = f s) (j : Nat)
      (member : j ∈ l₁ ∨ j ∈ l₂) : f (m'.slots j) = f (m.slots j) := by
    rw [← onBody, same j member, onBody]
  have sums (f : Slot → Nat) (onBody : ∀ s : Slot, f s.body = f s) :
      (l₁.map fun j => f (m'.slots j)) = (l₁.map fun j => f (m.slots j)) ∧
        (l₂.map fun j => f (m'.slots j)) = l₂.map fun j => f (m.slots j) :=
    ⟨List.map_congr_left fun j member => keeps f onBody j (.inl member),
      List.map_congr_left fun j member => keeps f onBody j (.inr member)⟩
  refine ⟨?_, ?_, vacant, ?_, ?_, ?_, count, region.cap ▸ h.capBound, region.base ▸ h.basePage, ?_⟩
  · intro j
    rw [region.cap, h.covers j]
    have := covers j
    simp only [List.mem_append]
    tauto
  · intro j member
    simp only [List.mem_append] at member
    rcases member with (inFront | inNew) | inBack
    · exact (h.sound j (by simp [inFront])).of_body (same j (.inl inFront))
    · exact sound j inNew
    · exact (h.sound j (by simp [inBack])).of_body (same j (.inr inBack))
  · have whole := h.tiles
    rw [region.base, region.len]
    simp only [tiles_append] at whole ⊢
    obtain ⟨hi, ⟨lo, front, middle⟩, back⟩ := whole
    refine ⟨hi, ⟨lo, front.congr ?_ ?_, tiles lo hi middle⟩, back.congr ?_ ?_⟩
    · exact fun j member => keeps Slot.base (fun _ => rfl) j (.inl member)
    · exact fun j member => keeps Slot.len (fun _ => rfl) j (.inl member)
    · exact fun j member => keeps Slot.base (fun _ => rfl) j (.inr member)
    · exact fun j member => keeps Slot.len (fun _ => rfl) j (.inr member)
  · have before := h.free
    obtain ⟨front, back⟩ := sums Slot.freeLen fun _ => rfl
    simp only [List.map_append, List.sum_append] at before ⊢
    rw [front, back]
    omega
  · have before := h.committed
    obtain ⟨front, back⟩ := sums Slot.committedLen fun _ => rfl
    simp only [List.map_append, List.sum_append] at before ⊢
    rw [front, back]
    omega
  · have := h.bound
    rw [region.base, region.len]
    exact this

/-- A listed extent lies inside the region. -/
theorem Shape.within (h : Shape m addr unused) (member : i ∈ addr) :
    m.regionBase ≤ (m.slots i).base ∧ (m.slots i).base + (m.slots i).len ≤ m.regionBase + m.regionLen :=
  h.tiles.within member

theorem Shape.page_base (h : Shape m addr unused) (member : i ∈ addr) : pageSize ∣ (m.slots i).base :=
  h.tiles.dvd_base h.basePage (fun j inAddr => (h.sound j inAddr).page) member

theorem Shape.lt_cap (h : Shape m addr unused) (member : i ∈ addr) : i < m.cap :=
  (h.covers i).mpr (.inl member)

theorem Shape.apart (h : Shape m addr unused) (listed : i ∈ addr) (spare : j ∈ unused) : i ≠ j := by
  rintro rfl
  have := (h.sound i listed).occupied
  have := h.vacant i spare
  simp_all

/-- `view` answers exactly on the listed slots. -/
theorem WF.view_iff (wf : WF m addr unused) : (∃ e, m.view i = some e) ↔ i ∈ addr := by
  constructor
  · rintro ⟨e, seen⟩
    simp only [view] at seen
    split at seen
    · cases seen
    split at seen
    · cases seen
    · rename_i inPool occupied
      rcases (wf.shape.covers i).mp (by omega) with listed | spare
      · exact listed
      · exact absurd (wf.shape.vacant i spare) occupied
  · intro listed
    have lt := wf.shape.lt_cap listed
    have occupied := (wf.shape.sound i listed).occupied
    exact ⟨snapshot i (m.slots i), by simp [view, get, Nat.not_le.mpr lt, occupied]⟩

theorem WF.view_eq (wf : WF m addr unused) (listed : i ∈ addr) :
    m.view i = some (snapshot i (m.slots i)) := by
  have lt := wf.shape.lt_cap listed
  have occupied := (wf.shape.sound i listed).occupied
  simp [view, get, Nat.not_le.mpr lt, occupied]

theorem WF.view_some (wf : WF m addr unused) (seen : m.view i = some e) :
    i ∈ addr ∧ e = snapshot i (m.slots i) := by
  have listed := wf.view_iff.mp ⟨e, seen⟩
  rw [wf.view_eq listed] at seen
  exact ⟨listed, (Option.some.inj seen).symm⟩

end ExtentMap
end Topomalloc
