import Topomalloc.Huge.Leases

/-! Where a hugepage backend's memory is. Its hugepages lie in its region, which
no call changes, and what it hands out starts in that region; so an address tells
the backend that served it. -/
namespace Topomalloc.HugePageBackend

/-- `owns_addr`. -/
def ownsAddr (g : HugePageBackend) (addr : Nat) : Bool :=
  decide (g.region.base ≤ addr) && decide (addr - g.region.base < g.region.len)

/-- A settled filler over hugepages in the backend's region. -/
structure Rooted (g : HugePageBackend) : Prop where
  settled : g.filler.Settled
  base : g.filler.regionBase = g.region.base
  long : g.filler.capacity * hugepageSize ≤ g.region.len

/-- `g'` is rooted in the region of `g`. -/
structure Stays (g g' : HugePageBackend) : Prop where
  rooted : Rooted g'
  region : g'.region = g.region

variable {σ : Type} {P : Provider σ} {g g' : HugePageBackend} {w w' : σ}

theorem Rooted.stays (rooted : Rooted g) : Stays g g := ⟨rooted, rfl⟩

theorem Stays.trans (first : Stays g g') (second : Stays g' g'') : Stays g g'' :=
  ⟨second.rooted, second.region.trans first.region⟩

theorem Stays.ownsAddr (stays : Stays g g') (addr : Nat) : g'.ownsAddr addr = g.ownsAddr addr := by
  rw [HugePageBackend.ownsAddr, HugePageBackend.ownsAddr, stays.region]

section
variable (rooted : Rooted g)
include rooted

theorem Rooted.refits (refits : Refits g g') : Stays g g' where
  rooted := {
    settled := refits.settled
    base := by rw [refits.regionBase, refits.region, rooted.base]
    long := by
      rw [refits.capacity, refits.region]
      exact rooted.long }
  region := refits.region

theorem Rooted.ownsAddr_of_offset (inside : hp < g.filler.capacity) (within : offset < hugepageSize)
    (aimed : addr = g.region.base + hp * hugepageSize + offset) : g.ownsAddr addr = true := by
  have long := rooted.long
  have room : (hp + 1) * hugepageSize ≤ g.filler.capacity * hugepageSize := Nat.mul_le_mul_right _ inside
  rw [Nat.add_mul, Nat.one_mul] at room
  rw [ownsAddr, Bool.and_eq_true, decide_eq_true_eq, decide_eq_true_eq]
  omega

/-! ## The calls -/

/-- What a backend hands out starts in its region. -/
theorem allocate_stays (ran : g.allocate P bytes align hints w = (answer, g', w')) :
    Stays g g' ∧ ∀ r, answer = some r → g.ownsAddr r.base = true := by
  refine ⟨rooted.refits (allocate_refits rooted.settled ran), fun r served => ?_⟩
  cases allocate_cases rooted.settled ran with
  | refused => cases served
  | @packed _ pages hp off _ base _ _ aimed inside _ _ _ _ _ pos fits =>
    cases served
    rw [HugePageFiller.hugeBase, rooted.base] at aimed
    have within : off * pageSize < hugepageSize := by
      simp only [pagesPerHugepage, hugepageSize, pageSize] at fits ⊢
      omega
    apply rooted.ownsAddr_of_offset inside within
    rw [subregion, regionOffset]
    dsimp only
    omega
  | @run _ pages n start base _ _ aimed inside =>
    cases served
    rw [HugePageFiller.hugeBase, rooted.base] at aimed
    apply rooted.ownsAddr_of_offset inside (show 0 < hugepageSize by decide)
    rw [subregion, regionOffset]
    dsimp only
    omega

theorem freeRegion_stays (r : Region) : Stays g (g.freeRegion r).2 :=
  rooted.refits (freeRegion_refits rooted.settled r)

theorem trimRegion_stays (r : Region) (newLen : Nat) : Stays g (g.trimRegion r newLen).2 :=
  rooted.refits (trimRegion_refits rooted.settled r newLen)

theorem subrelease_stays (base pages : Nat) (pressureHigh : Bool) (w : σ) :
    Stays g (g.subrelease P base pages pressureHigh w).2.1 :=
  rooted.refits (subrelease_rests rooted.settled base pages pressureHigh w).toRefits

theorem releaseEmptyExcessBounded_stays (reserve maxRelease : Nat) (w : σ) :
    Stays g (g.releaseEmptyExcessBounded P reserve maxRelease w).2.1 :=
  releaseExcessFrom_keeps P
    (fun _ base pages w stays => stays.trans (subrelease_stays stays.rooted base pages true w))
    _ _ _ _ _ _ _ w rooted.stays

theorem releaseEmptyWithinBytes_stays (budget : Nat) (w : σ) :
    Stays g (g.releaseEmptyWithinBytes P budget w).2.1 :=
  releaseWithinFrom_keeps P
    (fun _ base pages w stays => stays.trans (subrelease_stays stays.rooted base pages true w))
    _ _ _ _ w rooted.stays

end

/-! ## A new backend -/

variable {source : MetadataSource} {region : Region} {arena capacityHugepages regionCacheSlots : Nat}

/-- A reservation as long as was asked for roots the backend built on it. -/
theorem new_rooted (built : new source region arena capacityHugepages regionCacheSlots = some g)
    (granted : capacityHugepages * hugepageSize ≤ region.len) : Rooted g ∧ g.region = region := by
  obtain ⟨-, base, same, -, capacity, -⟩ := new_fields built
  exact ⟨⟨new_settled built, base, by rwa [capacity, same]⟩, same⟩

end Topomalloc.HugePageBackend
