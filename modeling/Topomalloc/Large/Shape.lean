import Topomalloc.Large.Grounds
import Topomalloc.Engine.Large

/-! What ties the three structures of the large allocator together: a slot of
the pool that is in use describes one allocation, the page map gives that slot
exactly the pages of the allocation, and the memory under it is an extent that
was handed out or a region the cache has leased.

Between the steps of one operation the slots described properly may be fewer
than the slots in use; `live` are the former. -/
namespace Topomalloc
open Function

/-! ## The ground of an allocation -/

/-- The allocation takes the region: all of it, or for a guarded one the end of
what lies between its first and its last page. -/
def LargeSlot.Takes (d : LargeSlot) (r : Region) : Prop :=
  if d.guarded then 0 < d.usable ∧ r.base + pageSize ≤ d.base ∧ d.stop + pageSize = r.base + r.len
  else d.base = r.base ∧ d.usable = r.len

/-- The memory under the allocation is handed out to it. -/
def Seated (m : ExtentMap) (held : Set Region) (d : LargeSlot) : Prop :=
  match d.backing with
  | some r => m.Live r.id ∧ (m.slots r.id).generation = r.generation ∧ d.Takes (m.span r.id)
  | none => ⟨d.base, d.usable⟩ ∈ held ∧ d.guarded = false

/-- The region under an allocation. -/
def LargeSlot.ground (d : LargeSlot) (m : ExtentMap) : Region :=
  match d.backing with
  | some r => m.span r.id
  | none => ⟨d.base, d.usable⟩

/-- The region is handed out, as an extent or by the cache. -/
def Handed (m : ExtentMap) (held : Set Region) (backing : Option ExtentRef) (r : Region) : Prop :=
  match backing with
  | some ext => m.Live ext.id ∧ (m.slots ext.id).generation = ext.generation ∧ m.span ext.id = r
  | none => r ∈ held

namespace LargeSlot
variable {d d' : LargeSlot} {r : Region} {p : Nat} {m : ExtentMap} {held : Set Region} {ext : ExtentRef}

theorem ground_some (backed : d.backing = some ext) : d.ground m = m.span ext.id := by
  rw [ground, backed]

theorem ground_none (backed : d.backing = none) : d.ground m = ⟨d.base, d.usable⟩ := by
  rw [ground, backed]

theorem seated_some (backed : d.backing = some ext) :
    Seated m held d ↔
      m.Live ext.id ∧ (m.slots ext.id).generation = ext.generation ∧ d.Takes (m.span ext.id) := by
  rw [Seated, backed]

theorem seated_none (backed : d.backing = none) :
    Seated m held d ↔ ⟨d.base, d.usable⟩ ∈ held ∧ d.guarded = false := by
  rw [Seated, backed]

theorem seated_iff :
    Seated m held d ↔ Handed m held d.backing (d.ground m) ∧ d.Takes (d.ground m) ∧
      (d.backing = none → d.guarded = false) := by
  cases backed : d.backing with
  | some ext => simp [seated_some backed, Handed, ground_some backed, and_assoc]
  | none =>
    simp only [seated_none backed, Handed, ground_none backed, true_implies, and_congr_right_iff]
    intro _
    constructor
    · intro plain
      simp [Takes, plain]
    · exact And.right

theorem takes_plain (plain : d.guarded = false) : d.Takes r ↔ d.base = r.base ∧ d.usable = r.len := by
  simp [Takes, plain]

theorem Takes.within (takes : d.Takes r) : r.base ≤ d.base ∧ d.stop ≤ r.base + r.len := by
  unfold Takes at takes
  split at takes
  · omega
  · simp only [stop]
    omega

theorem Takes.pos (takes : d.Takes r) (paged : r.Paged) : 0 < d.usable := by
  unfold Takes at takes
  split at takes
  · exact takes.1
  · rw [takes.2]
    exact paged.pos

/-- The page before the last byte is common to all that may take the region. -/
theorem Takes.shared (takes : d.Takes r) (takes' : d'.Takes r) (paged : r.Paged) :
    ∃ p, inPages d.base d.stop p = true ∧ inPages d'.base d'.stop p = true := by
  have pos := takes.pos paged
  have pos' := takes'.pos paged
  unfold Takes at takes takes'
  have last : ∀ {e : LargeSlot}, 0 < e.usable → inPages e.base e.stop (pageOf (e.stop - 1)) = true := by
    intro e pos
    refine inPages_of_byte ?_ ?_ <;> simp only [stop] <;> omega
  split at takes
  · split at takes'
    · -- both guarded: they end at the same address
      have same : d.stop = d'.stop := by omega
      exact ⟨_, last pos, same ▸ last pos'⟩
    · refine ⟨_, last pos, inPages_of_byte ?_ ?_⟩ <;> simp only [stop] at * <;> omega
  · refine ⟨_, inPages_of_byte ?_ ?_, last pos'⟩ <;> split at takes' <;> simp only [stop] at * <;> omega

end LargeSlot

namespace Engine
variable {σ : Type} {G : Grounds σ} {E : Env σ} {s s' : Engine σ} {free : List Nat} {live : Set Nat}
  {held held' : Set Region} {j k p : Nat} {r : Region}

/-- The extents and the leases that the allocations stand on. -/
structure Footing (G : Grounds σ) (m : ExtentMap) (w : σ) (held : Set Region) : Prop where
  settled : m.Settled
  base : m.regionBase = G.extents.base
  len : m.regionLen = G.extents.len
  leased : G.Leased w held

namespace Footing
variable {m : ExtentMap} {w : σ} {backing backing' : Option ExtentRef} {r' : Region}

/-- A live extent lies in the region of the extents. -/
theorem page_of_extent (f : Footing G m w held) (extent : m.Live i)
    (inside : (m.span i).HasPage p) : G.extents.HasPage p := by
  obtain ⟨lower, upper⟩ := f.settled.within extent
  rw [f.base] at lower upper
  rw [f.len] at upper
  simp only [Region.HasPage, ExtentMap.span] at inside ⊢
  omega

theorem paged (f : Footing G m w held) (sound : G.Sound E) (handed : Handed m held backing r) : r.Paged := by
  cases backing with
  | some ext =>
    obtain ⟨extent, -, rfl⟩ := handed
    exact f.settled.paged extent
  | none => exact sound.honest.paged f.leased handed

theorem page (f : Footing G m w held) (sound : G.Sound E) (handed : Handed m held backing r)
    (inside : r.HasPage p) : G.Page p := by
  cases backing with
  | some ext =>
    obtain ⟨extent, -, rfl⟩ := handed
    exact .inl (f.page_of_extent extent inside)
  | none => exact .inr (sound.honest.zoned f.leased handed p inside)

/-- Two regions that are handed out share no page. -/
theorem apart (f : Footing G m w held) (sound : G.Sound E) (handed : Handed m held backing r)
    (handed' : Handed m held backing' r')
    (different : backing.map ExtentRef.id ≠ backing'.map ExtentRef.id ∨ r ≠ r')
    (here : r.HasPage p) : ¬r'.HasPage p := by
  intro there
  cases backing with
  | some ext =>
    obtain ⟨extent, -, rfl⟩ := handed
    cases backing' with
    | some ext' =>
      obtain ⟨extent', -, rfl⟩ := handed'
      exact f.settled.apart extent extent' (fun same => by simp [same] at different) p here there
    | none =>
      exact sound.apart p (sound.honest.zoned f.leased handed' p there) (f.page_of_extent extent here)
  | none =>
    cases backing' with
    | some ext' =>
      obtain ⟨extent', -, rfl⟩ := handed'
      exact sound.apart p (sound.honest.zoned f.leased handed p here) (f.page_of_extent extent' there)
    | none => exact sound.honest.apart f.leased handed handed' (by simpa using different) p here there

end Footing

/-- Slot `j` of the large pool is in use. -/
def UsedLarge (s : Engine σ) (free : List Nat) (j : Nat) : Prop := Pool.Used s.large.highWater free j

/-- The slots of `live` describe allocations, `free` are the stacked slots and
`held` the regions the cache has leased. -/
structure Housed (G : Grounds σ) (s : Engine σ) (free : List Nat) (live : Set Nat)
    (held : Set Region) : Prop where
  pool : Pool.Stocked (fun j => (s.large.slots j).freeNext) NIL s.large.freeHead s.large.highWater
    s.large.cap free
  used : ∀ j ∈ live, s.UsedLarge free j
  settled : s.largeExtents.map.Settled
  region : s.largeExtents.region = G.extents
  base : s.largeExtents.map.regionBase = G.extents.base
  len : s.largeExtents.map.regionLen = G.extents.len
  leased : G.Leased s.world held
  seated : ∀ j ∈ live, Seated s.largeExtents.map held (s.large.slots j)
  pages : ∀ p j, s.pagemap.entries p = .large j ↔
    j ∈ live ∧ inPages (s.large.slots j).base (s.large.slots j).stop p = true
  clean : ∀ p, G.Page p → s.pagemap.entries p = .empty ∨ ∃ j, s.pagemap.entries p = .large j

/-- No page of the region has an owner. -/
def Vacant (s : Engine σ) (r : Region) : Prop := ∀ p, r.HasPage p → s.pagemap.entries p = .empty

namespace Housed

section
variable (h : Housed G s free live held)
include h

theorem congr (large : s'.large = s.large)
    (extents : s'.largeExtents = s.largeExtents) (entries : s'.pagemap.entries = s.pagemap.entries)
    (leased : G.Leased s'.world held) : Housed G s' free live held := by
  obtain ⟨pool, used, settled, region, base, len, -, seated, pages, clean⟩ := h
  refine ⟨?_, ?_, ?_, ?_, ?_, ?_, leased, ?_, ?_, ?_⟩
  · rw [large]; exact pool
  · simpa only [UsedLarge, large] using used
  · rw [extents]; exact settled
  · rw [extents]; exact region
  · rw [extents]; exact base
  · rw [extents]; exact len
  · rw [extents, large]; exact seated
  · rw [entries, large]; exact pages
  · rw [entries]; exact clean

/-! ## Grounds -/

theorem footing : Footing G s.largeExtents.map s.world held := ⟨h.settled, h.base, h.len, h.leased⟩

theorem handed (member : j ∈ live) :
    Handed s.largeExtents.map held (s.large.slots j).backing ((s.large.slots j).ground s.largeExtents.map) :=
  (LargeSlot.seated_iff.mp (h.seated j member)).1

theorem takes (member : j ∈ live) : (s.large.slots j).Takes ((s.large.slots j).ground s.largeExtents.map) :=
  (LargeSlot.seated_iff.mp (h.seated j member)).2.1

theorem paged (sound : G.Sound E) (member : j ∈ live) : ((s.large.slots j).ground s.largeExtents.map).Paged :=
  h.footing.paged sound (h.handed member)

theorem hasPage (sound : G.Sound E) (member : j ∈ live)
    (inside : inPages (s.large.slots j).base (s.large.slots j).stop p = true) :
    ((s.large.slots j).ground s.largeExtents.map).HasPage p := by
  obtain ⟨lower, upper⟩ := (h.takes member).within
  exact (h.paged sound member).hasPage lower upper inside

/-- An owned page is a page of the reservations. -/
theorem page_of_large (sound : G.Sound E) (owned : s.pagemap.entries p = .large j) : G.Page p := by
  obtain ⟨member, inside⟩ := (h.pages p j).mp owned
  exact h.footing.page sound (h.handed member) (h.hasPage sound member inside)

/-- One region is under one allocation. -/
theorem eq_of_ground (sound : G.Sound E) (member : j ∈ live) (member' : k ∈ live)
    (same : (s.large.slots j).ground s.largeExtents.map = (s.large.slots k).ground s.largeExtents.map) :
    j = k := by
  have takes := h.takes member
  rw [same] at takes
  obtain ⟨p, here, there⟩ := takes.shared (h.takes member') (h.paged sound member')
  have owned := (h.pages p j).mpr ⟨member, here⟩
  rw [(h.pages p k).mpr ⟨member', there⟩] at owned
  cases owned
  rfl

/-- The regions under two allocations share no page. -/
theorem ground_apart (sound : G.Sound E) (member : j ∈ live) (member' : k ∈ live) (other : j ≠ k)
    (here : ((s.large.slots j).ground s.largeExtents.map).HasPage p) :
    ¬((s.large.slots k).ground s.largeExtents.map).HasPage p :=
  h.footing.apart sound (h.handed member) (h.handed member')
    (.inr fun same => other (h.eq_of_ground sound member member' same)) here

/-- Two allocations share no page. -/
theorem eq_of_page (member : j ∈ live) (member' : k ∈ live)
    (here : inPages (s.large.slots j).base (s.large.slots j).stop p = true)
    (there : inPages (s.large.slots k).base (s.large.slots k).stop p = true) : j = k := by
  have owned := (h.pages p j).mpr ⟨member, here⟩
  rw [(h.pages p k).mpr ⟨member', there⟩] at owned
  cases owned
  rfl

/-- A region of the reservations that no allocation has is vacant. -/
theorem vacant (sound : G.Sound E) (inside : ∀ p, r.HasPage p → G.Page p)
    (apart : ∀ j ∈ live, ∀ p, ((s.large.slots j).ground s.largeExtents.map).HasPage p → ¬r.HasPage p) :
    s.Vacant r := by
  intro p here
  rcases h.clean p (inside p here) with empty | ⟨j, owned⟩
  · exact empty
  · obtain ⟨member, within⟩ := (h.pages p j).mp owned
    exact absurd here (apart j member p (h.hasPage sound member within))

end

/-! ## Slots -/

theorem acquireLarge_none (ran : s.acquireLarge = (none, s')) : s' = s := by
  unfold Engine.acquireLarge at ran
  split at ran
  · cases ran
  split at ran
  · cases ran
  · cases ran
    rfl

/-- `acquire` takes a slot that was not in use. -/
theorem acquireLarge (h : Housed G s free live held) (full : ∀ j, s.UsedLarge free j → j ∈ live)
    (ran : s.acquireLarge = (some j, s')) :
    ∃ free', Housed G s' free' live held ∧ s' = { s with large := s'.large } ∧
      s'.large.slots = s.large.slots ∧ s'.UsedLarge free' j ∧ j ∉ live ∧
      ∀ i, s'.UsedLarge free' i → i ∈ live ∨ i = j := by
  unfold Engine.acquireLarge at ran
  split at ran
  · rename_i stacked
    cases ran
    obtain ⟨rest, rfl, pool, used⟩ := h.pool.pop stacked
    have idle : s.large.freeHead ∉ live := fun member => (h.used _ member).2 (by simp)
    refine ⟨rest, { h with pool := pool, used := ?_ }, rfl, rfl, used, idle, ?_⟩
    · intro j member
      exact ⟨(h.used j member).1, fun listed => (h.used j member).2 (by simp [listed])⟩
    · rintro i ⟨below, unlisted⟩
      by_cases same : i = s.large.freeHead
      · exact .inr same
      · exact .inl (full i ⟨below, by simp [same, unlisted]⟩)
  · split at ran
    · rename_i room
      cases ran
      obtain ⟨pool, used⟩ := h.pool.extend room
      refine ⟨free, { h with pool := pool, used := ?_ }, rfl, rfl, used, ?_, ?_⟩
      · intro j member
        exact ⟨Nat.lt_succ_of_lt (h.used j member).1, (h.used j member).2⟩
      · exact fun member => Nat.lt_irrefl _ (h.used _ member).1
      · rintro i ⟨below, unlisted⟩
        by_cases same : i = s.large.highWater
        · exact .inr same
        · have lower : i < s.large.highWater := by
            simp only at below
            omega
          exact .inl (full i ⟨lower, unlisted⟩)
    · cases ran

/-- `release` of a slot that describes no allocation. -/
theorem releaseLarge (h : Housed G s free live held) (used : s.UsedLarge free j) (idle : j ∉ live) :
    Housed G (s.releaseLarge j) (j :: free) live held := by
  have other : ∀ i, i ≠ j → (s.releaseLarge j).large.slots i = s.large.slots i := by
    intro i ne
    simp [Engine.releaseLarge, setLarge, ne]
  have ne : ∀ i ∈ live, i ≠ j := fun i member same => idle (same ▸ member)
  refine { h with pool := ?_, used := ?_, seated := ?_, pages := ?_ }
  · refine h.pool.push used ?_ fun i ne => ?_
    · simp [Engine.releaseLarge, setLarge]
    · rw [other i ne]
  · intro i member
    exact ⟨(h.used i member).1, by simp [ne i member, (h.used i member).2]⟩
  · intro i member
    rw [other i (ne i member)]
    exact h.seated i member
  · intro p i
    refine (h.pages p i).trans (and_congr_right fun member => ?_)
    rw [other i (ne i member)]

end Housed
end Engine
end Topomalloc
