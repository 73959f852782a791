import Topomalloc.Huge.Leases
import Topomalloc.Large.Grounds

/-! The hugepage backend as the region cache of the large allocator. The ledger of its
leases is what it has handed out, and every call keeps to the contract of a cache. -/
namespace Topomalloc

namespace HugePageBackend
variable {σ : Type} {P : Provider σ} {g : HugePageBackend} {leases : List Lease} {region r : Region}

/-- The regions of the leases. -/
def regions (leases : List Lease) : Set Region := {r | ∃ h ∈ leases, h.region = r}

theorem regions_cons (h : Lease) : regions (h :: leases) = insert h.region (regions leases) := by
  ext r
  simp [regions, eq_comm]

theorem regions_append : regions (leases ++ more) = regions leases ∪ regions more := by
  ext r
  simp [regions, or_and_right, exists_or]

/-- The backend over `region` has leased out `held`. -/
def Leased (region : Region) (s : HugePageBackend × σ) (held : Set Region) : Prop :=
  ∃ leases, Tracks s.1 leases ∧ s.1.region = region ∧ held = regions leases

theorem Tracks.eq_of_base (tracks : Tracks g leases) (here : h ∈ leases)
    (there : k ∈ leases) (same : h.region.base = k.region.base) : h = k := by
  have : Std.Symm fun a b : Lease => a.region.base ≠ b.region.base := ⟨fun _ _ => Ne.symm⟩
  by_contra other
  exact tracks.bases.forall here there other same

theorem Tracks.paged (tracks : Tracks g leases) (member : r ∈ regions leases) : r.Paged := by
  obtain ⟨h, listed, rfl⟩ := member
  have placed := (tracks.proper h listed).placed
  obtain ⟨-, -, some, -⟩ := tracks.inside listed
  refine ⟨?_, placed.whole, ?_⟩
  · have page : pageSize ∣ g.region.base := (by decide : pageSize ∣ hugepageSize).trans tracks.aligned
    have := Nat.dvd_add placed.page page
    rwa [Nat.sub_add_cancel placed.above] at this
  · by_contra empty
    exact some (by rw [Region.pages, Nat.eq_zero_of_not_pos empty, Nat.zero_div])

theorem regions_strike (tracks : Tracks g leases) (member : r ∈ regions leases) :
    regions (strike leases r.base) = regions leases \ {r} := by
  obtain ⟨k, listed, rfl⟩ := member
  ext q
  simp only [regions, strike, List.mem_filter, bne_iff_ne, Set.mem_sdiff, Set.mem_singleton_iff,
    Set.mem_ofPred_eq]
  constructor
  · rintro ⟨h, ⟨here, other⟩, rfl⟩
    exact ⟨⟨h, here, rfl⟩, fun same => other (congrArg Region.base same)⟩
  · rintro ⟨⟨h, here, rfl⟩, other⟩
    exact ⟨h, ⟨here, fun same => other (by rw [tracks.eq_of_base here listed same])⟩, rfl⟩

theorem regions_relet (tracks : Tracks g leases) (member : r ∈ regions leases) :
    regions (relet leases r.base newLen (some freed)) =
      insert ⟨r.base, r.len - freed⟩ (regions leases \ {r}) := by
  rw [← regions_strike tracks member]
  obtain ⟨k, listed, rfl⟩ := member
  obtain ⟨before, after, -, struck, relets⟩ := tracks.split listed
  rw [relet, relets fun h => { h with
    region := ⟨h.region.base, h.region.len - freed⟩, bytes := max newLen 1 }, struck, regions_append,
    regions_append, regions_cons, Set.union_insert]

theorem Leased.freeRegion (leased : Leased region (g, w) held) (member : r ∈ held) :
    Leased region ((g.freeRegion r).2, w') (if (g.freeRegion r).1 then held \ {r} else held) := by
  obtain ⟨leases, tracks, same, rfl⟩ := leased
  have outcome := tracks.freeRegion r
  have stays := (freeRegion_refits tracks.settled r).region
  generalize g.freeRegion r = answer at outcome stays
  obtain ⟨_ | _, g'⟩ := answer
  · obtain ⟨rfl, -⟩ := outcome
    exact ⟨leases, tracks, same, rfl⟩
  · obtain ⟨-, -, -, -, tracks', -⟩ := outcome
    exact ⟨_, tracks', stays.trans same, (regions_strike tracks member).symm⟩

/-- A new backend has leased nothing out. -/
theorem leased_new {arena : Nat} (built : new source region arena capacity slots = some g)
    (reserved : Reservation region (capacity * hugepageSize)) : Leased region (g, w) ∅ :=
  ⟨[], new_tracks built reserved, (new_fields built).2.2.1, by simp [regions]⟩

/-- The backend keeps to the contract of a region cache. -/
theorem hook_honest (P : Provider σ) (region : Region) : (hook P).Honest (Leased region) region.HasPage where
  paged := by
    rintro _ _ r ⟨leases, tracks, -, rfl⟩ member
    exact tracks.paged member
  zoned := by
    rintro _ _ r ⟨leases, tracks, rfl, rfl⟩ ⟨h, listed, rfl⟩ p ⟨lower, upper⟩
    obtain ⟨above, below⟩ := tracks.agrees.inside h listed
    exact ⟨by omega, by omega⟩
  bounded := by
    rintro _ _ r ⟨leases, tracks, -, rfl⟩ ⟨h, listed, rfl⟩
    have inside := (tracks.agrees.inside h listed).2
    exact inside.trans tracks.space
  apart := by
    rintro _ _ _ _ ⟨leases, tracks, -, rfl⟩ ⟨h, here, rfl⟩ ⟨k, there, rfl⟩ other p ⟨lower, upper⟩ ⟨lower', upper'⟩
    have : Std.Symm fun a b : Lease => a.region.base + a.region.len ≤ b.region.base ∨
        b.region.base + b.region.len ≤ a.region.base := ⟨fun _ _ => Or.symm⟩
    have apart := tracks.disjoint.forall here there fun same => other (by rw [same])
    omega
  served := by
    rintro ⟨g, w⟩ ⟨g', w'⟩ _ bytes align hints r ⟨leases, tracks, same, rfl⟩ pos whole power ran
    simp only [hook] at ran
    split at ran
    · cases ran
    have tracks' := allocate_tracks tracks ran
    have stays := (allocate_refits tracks.settled ran).region
    have new : (⟨r, bytes, align⟩ : Lease) ∈ leases ++ [⟨r, bytes, align⟩] := by simp
    have proper := tracks'.proper _ new
    refine ⟨⟨_, tracks', stays.trans same, ?_⟩, ?_, ?_, proper.aligned⟩
    · rw [enter, regions_append, regions_cons, Set.union_insert]
      simp [regions]
    · rintro ⟨h, listed, rfl⟩
      obtain ⟨-, -, across⟩ := List.pairwise_append.mp tracks'.bases
      exact across h listed _ (List.mem_singleton_self _) rfl
    · obtain ⟨pages, sized, len⟩ := proper.sized
      obtain ⟨up, rounded, rfl⟩ := Option.map_eq_some_iff.mp sized
      obtain ⟨dvd, le, -⟩ := alignUp_spec pageSize_pos rounded
      dsimp only at len
      rw [len, Nat.div_mul_cancel dvd]
      exact le
  declined := by
    rintro ⟨g, w⟩ ⟨g', w'⟩ _ bytes align hints ⟨leases, tracks, same, rfl⟩ ran
    simp only [hook] at ran
    split at ran
    · cases ran
      exact ⟨leases, tracks, same, rfl⟩
    · exact ⟨leases, allocate_tracks tracks ran, (allocate_refits tracks.settled ran).region.trans same, rfl⟩
  cached leased member := leased.freeRegion member
  revoked := by
    rintro ⟨g, w⟩ held r arena leased member
    rcases revoking : P.revokeDescendants w arena r with ⟨_ | _, w'⟩
    · simp only [hook, revoking]
      exact leased
    · simp only [hook, revoking]
      exact leased.freeRegion member
  trimmed := by
    rintro ⟨g, w⟩ ⟨g', w'⟩ _ r len freed ⟨leases, tracks, same, rfl⟩ member pos whole shorter ran
    have tracks' := tracks.trimRegion r len
    have stays := (trimRegion_refits tracks.settled r len).region
    simp only [hook, Prod.mk.injEq] at ran
    obtain ⟨answered, rfl, -⟩ := ran
    obtain rfl : freed = r.len - len := by
      rcases trimRegion_cases tracks.settled r len with
        refused | ⟨newPages, _, _, _, rounded, -, -, -, -, -, -, cut⟩
      · rw [refused] at answered
        cases answered
      · rw [cut] at answered
        obtain rfl := Option.some.inj answered
        rw [Nat.max_eq_left pos, pagesFor, Option.map_eq_some_iff] at rounded
        obtain ⟨up, rounded, rfl⟩ := rounded
        obtain rfl := alignUp_eq_of_dvd pageSize_pos whole rounded
        have paged := (tracks.paged member).len
        rw [Nat.sub_mul, Nat.div_mul_cancel paged, Nat.div_mul_cancel whole]
    rw [answered] at tracks'
    refine ⟨rfl, _, tracks', stays.trans same, ?_⟩
    rw [regions_relet tracks member, Nat.sub_sub_self (Nat.le_of_lt shorter)]
  whole := by
    rintro ⟨g, w⟩ ⟨g', w'⟩ _ r len ⟨leases, tracks, same, rfl⟩ member ran
    have tracks' := tracks.trimRegion r len
    have stays := (trimRegion_refits tracks.settled r len).region
    simp only [hook, Prod.mk.injEq] at ran
    obtain ⟨refused, rfl, -⟩ := ran
    rw [refused] at tracks'
    exact ⟨leases, tracks', stays.trans same, rfl⟩

end HugePageBackend

/-- The environment with a hugepage backend as its region cache, and the backend beside
its state. -/
def Env.backed {σ : Type} (E : Env σ) : Env (HugePageBackend × σ) where
  provider :=
    { commit := fun s r offset len => .map id (s.1, ·) (E.provider.commit s.2 r offset len)
      decommit := fun s r offset len => .map id (s.1, ·) (E.provider.decommit s.2 r offset len)
      purgeLazy := fun s r offset len => .map id (s.1, ·) (E.provider.purgeLazy s.2 r offset len)
      purgeForced := fun s r offset len => .map id (s.1, ·) (E.provider.purgeForced s.2 r offset len)
      protect := fun s r offset len accessible =>
        .map id (s.1, ·) (E.provider.protect s.2 r offset len accessible)
      revokeDescendants := fun s arena r => .map id (s.1, ·) (E.provider.revokeDescendants s.2 arena r)
      committedMemoryIsZeroed := E.provider.committedMemoryIsZeroed }
  hook := HugePageBackend.hook E.provider
  metaOk s := .map id (s.1, ·) (E.metaOk s.2)
  currentCore s := .map id (s.1, ·) (E.currentCore s.2)
  draw s := .map id (s.1, ·) (E.draw s.2)
  guardSampled s := .map id (s.1, ·) (E.guardSampled s.2)
  learned s := E.learned s.2
  metadata := E.metadata
  quarantine := E.quarantine
  guardPages := E.guardPages
  secureScrub := E.secureScrub
  junkFill := E.junkFill
  forceSlow := E.forceSlow
  forcePurge := E.forcePurge

/-- The reservations of an allocator with a hugepage backend over `region`. -/
def Grounds.backed {σ : Type} (extents region : Region) : Grounds (HugePageBackend × σ) :=
  ⟨extents, region.HasPage, HugePageBackend.Leased region⟩

theorem Grounds.backed_sound {σ : Type} (E : Env σ) (extents region : Region)
    (apart : ∀ p, region.HasPage p → ¬extents.HasPage p) :
    (Grounds.backed extents region).Sound E.backed where
  honest := HugePageBackend.hook_honest E.provider region
  keeps _ := ⟨fun _ h => h, fun _ h => h, fun _ h => h, fun _ h => h, fun _ _ _ _ h => h,
    fun _ _ _ _ h => h, fun _ _ _ _ _ h => h, fun _ _ _ h => h⟩
  apart := apart

end Topomalloc
