import Topomalloc.PageMap
import Topomalloc.Extent.Effects

/-! The memory under the large allocator. A region that was handed out to it is
an extent of its manager or a region of the cache hook; all of these are whole
pages and no two share one. What a hook has to keep to for that is stated here,
as is what its environment promises of the reservations. -/
namespace Topomalloc

/-! ## Pages of a region -/

/-- Page `p` starts inside the region. -/
def Region.HasPage (r : Region) (p : Nat) : Prop := r.base ≤ p * pageSize ∧ p * pageSize < r.base + r.len

/-- Whole pages at a page boundary. -/
structure Region.Paged (r : Region) : Prop where
  base : pageSize ∣ r.base
  len : pageSize ∣ r.len
  pos : 0 < r.len

section Pages
variable {r r' : Region} {base stop p : Nat}

/-- The pages of a range inside a region are pages of the region. -/
theorem Region.Paged.hasPage (paged : r.Paged) (lower : r.base ≤ base) (upper : stop ≤ r.base + r.len)
    (inside : inPages base stop p = true) : r.HasPage p := by
  obtain ⟨k, eq⟩ := paged.base
  simp only [inPages, Bool.and_eq_true, decide_eq_true_eq] at inside
  simp only [Region.HasPage, pageOf, pageSize] at *
  omega

/-- The pages of a region are those of its bytes. -/
theorem Region.Paged.inPages_iff (paged : r.Paged) :
    inPages r.base (r.base + r.len) p = true ↔ r.HasPage p := by
  refine ⟨paged.hasPage (Nat.le_refl _) (Nat.le_refl _), ?_⟩
  rintro ⟨lower, upper⟩
  obtain ⟨k, eq⟩ := paged.base
  obtain ⟨l, eq'⟩ := paged.len
  simp only [inPages, Bool.and_eq_true, decide_eq_true_eq]
  simp only [pageOf, pageSize] at *
  omega

/-- A byte of a range lies on a page of the range. -/
theorem inPages_of_byte (lower : base ≤ x) (upper : x < stop) : inPages base stop (pageOf x) = true := by
  simp only [inPages, Bool.and_eq_true, decide_eq_true_eq]
  refine ⟨⟨by omega, Nat.div_le_div_right lower⟩, Nat.div_le_div_right (by omega)⟩

/-- Regions of whole pages that share none do not overlap. -/
theorem Region.Paged.disjoint (paged : r.Paged) (paged' : r'.Paged)
    (apart : ∀ p, r.HasPage p → ¬r'.HasPage p) :
    r.base + r.len ≤ r'.base ∨ r'.base + r'.len ≤ r.base := by
  by_contra overlap
  simp only [not_or, not_le] at overlap
  have pos := paged.pos
  have pos' := paged'.pos
  obtain ⟨k, eq⟩ := paged.base
  obtain ⟨k', eq'⟩ := paged'.base
  -- the later of the two starts is a page of both
  rcases Nat.le_total r.base r'.base with first | first
  · apply apart k' <;> simp only [Region.HasPage, Nat.mul_comm k', ← eq'] <;> omega
  · apply apart k <;> simp only [Region.HasPage, Nat.mul_comm k, ← eq] <;> omega

end Pages

/-! ## The region cache -/

/-- What a region cache has to keep to. `Leased w held` says that in state `w`
the regions of `held` are handed out; `zone` are the pages of its reservations.
A request may be declined, and so may a region that comes back. -/
structure RegionCacheHook.Honest {σ : Type} (H : RegionCacheHook σ)
    (Leased : σ → Set Region → Prop) (zone : Nat → Prop) : Prop where
  paged : ∀ {w held r}, Leased w held → r ∈ held → r.Paged
  zoned : ∀ {w held r}, Leased w held → r ∈ held → ∀ p, r.HasPage p → zone p
  bounded : ∀ {w held r}, Leased w held → r ∈ held → r.base + r.len ≤ usizeMax
  apart : ∀ {w held r r'}, Leased w held → r ∈ held → r' ∈ held → r ≠ r' → ∀ p, r.HasPage p → ¬r'.HasPage p
  served : ∀ {w w' held bytes align hints r}, Leased w held → 0 < bytes → pageSize ∣ bytes →
    isPowerOfTwo align = true → H.tryAlloc w bytes align hints = (some r, w') →
    Leased w' (insert r held) ∧ r ∉ held ∧ bytes ≤ r.len ∧ align ∣ r.base
  declined : ∀ {w w' held bytes align hints}, Leased w held →
    H.tryAlloc w bytes align hints = (none, w') → Leased w' held
  cached : ∀ {w held r}, Leased w held → r ∈ held →
    Leased (H.tryCache w r).2 (if (H.tryCache w r).1 then held \ {r} else held)
  revoked : ∀ {w held r arena}, Leased w held → r ∈ held → Leased (H.tryCacheRevoking w r arena).2
      (if (H.tryCacheRevoking w r arena).1 then held \ {r} else held)
  trimmed : ∀ {w w' held r len freed}, Leased w held → r ∈ held → 0 < len → pageSize ∣ len →
    len < r.len → H.tryTrim w r len = (some freed, w') →
    freed = r.len - len ∧ Leased w' (insert ⟨r.base, len⟩ (held \ {r}))
  whole : ∀ {w w' held r len}, Leased w held → r ∈ held → H.tryTrim w r len = (none, w') → Leased w' held

/-- Declining every call touches nothing that another cache has handed out. -/
theorem RegionCacheHook.Honest.decline {σ : Type} {H : RegionCacheHook σ} {Leased : σ → Set Region → Prop}
    (honest : H.Honest Leased zone) : (noRegionCache σ).Honest Leased zone where
  paged := honest.paged
  zoned := honest.zoned
  bounded := honest.bounded
  apart := honest.apart
  served _ _ _ _ ran := by cases ran
  declined leased ran := by
    cases ran
    exact leased
  cached leased _ := leased
  revoked leased _ := leased
  trimmed _ _ _ _ _ ran := by cases ran
  whole leased _ ran := by
    cases ran
    exact leased

/-- The reservations of the large allocator: the region of its extents, and the
pages of the cache with the ledger of what it has handed out. -/
structure Grounds (σ : Type) where
  extents : Region
  zone : Nat → Prop
  Leased : σ → Set Region → Prop

namespace Grounds
variable {σ : Type}

/-- The page lies in one of the reservations. -/
def Page (G : Grounds σ) (p : Nat) : Prop := G.extents.HasPage p ∨ G.zone p

/-- The cache keeps to its contract, no other call touches what it has handed
out, and the reservations do not overlap. -/
structure Sound (G : Grounds σ) (E : Env σ) : Prop where
  honest : E.hook.Honest G.Leased G.zone
  keeps : ∀ held, E.Keeps (G.Leased · held)
  apart : ∀ p, G.zone p → ¬G.extents.HasPage p

/-- The reservations of an allocator without a region cache. -/
def uncached (extents : Region) : Grounds σ where
  extents := extents
  zone _ := False
  Leased _ held := held = ∅

theorem uncached_empty {extents : Region} (leased : (uncached extents).Leased w held) : r ∉ held := by
  obtain rfl : held = ∅ := leased
  simp

theorem uncached_sound (extents : Region) {E : Env σ} (none : E.hook = noRegionCache σ) :
    (uncached extents).Sound E where
  honest := by
    rw [none]
    exact {
      paged := fun leased member => absurd member (uncached_empty leased)
      zoned := fun leased member => absurd member (uncached_empty leased)
      bounded := fun leased member => absurd member (uncached_empty leased)
      apart := fun leased member => absurd member (uncached_empty leased)
      served := fun _ _ _ _ ran => by cases ran
      declined := fun leased _ => leased
      cached := fun leased _ => leased
      revoked := fun leased _ => leased
      trimmed := fun _ _ _ _ _ ran => by cases ran
      whole := fun leased _ _ => leased }
  keeps _ := ⟨fun _ h => h, fun _ h => h, fun _ h => h, fun _ h => h, fun _ _ _ _ h => h,
    fun _ _ _ _ h => h, fun _ _ _ _ _ h => h, fun _ _ _ h => h⟩
  apart _ nowhere := nowhere.elim

end Grounds

/-! ## What the extent manager leaves alone -/

namespace ExtentManager
open ExtentMap
variable {σ : Type} {E : Env σ} {g g' : ExtentManager} {w w' : σ} {r : ExtentRef}
  {answer : Except ExtentError Unit}

theorem allocZ_frame {answer : Except ExtentError (ExtentRef × RegionProvenance)}
    (ran : g.allocZ E.provider w size align fit = (answer, g', w')) :
    g'.region = g.region ∧ E.Idle w w' := by
  simp only [allocZ] at ran
  iterate 3
    split at ran
    · cases ran
      exact ⟨rfl, .refl⟩
  split at ran
  · split at ran
    · rename_i asked
      cases ran
      exact ⟨rfl, .ofCommit asked⟩
    · rename_i asked
      cases ran
      exact ⟨rfl, .ofCommit asked⟩
  · cases ran
    exact ⟨rfl, .refl⟩

theorem splitTail_frame {answer : Except ExtentError ExtentRef}
    (ran : g.splitTail r prefixLen = (answer, g')) : g'.region = g.region := by
  simp only [splitTail] at ran
  iterate 3
    split at ran
    · cases ran
      rfl
  · cases ran
    rfl

theorem growInto_frame {id : Nat} (ran : g.growInto E.provider w id next = (answer, g', w')) :
    g'.region = g.region ∧ E.Idle w w' := by
  simp only [growInto] at ran
  split at ran
  · split at ran
    · rename_i asked
      cases ran
      exact ⟨rfl, .ofCommit asked⟩
    · rename_i asked
      cases ran
      exact ⟨rfl, .ofCommit asked⟩
  · cases ran
    exact ⟨rfl, .refl⟩

theorem growInPlace_frame (ran : g.growInPlace E.provider w r newLen = (answer, g', w')) :
    g'.region = g.region ∧ E.Idle w w' := by
  unfold growInPlace at ran
  iterate 6
    split at ran
    · cases ran
      exact ⟨rfl, .refl⟩
  dsimp only at ran
  split at ran
  · cases ran
    exact ⟨rfl, .refl⟩
  split at ran
  · split at ran
    · cases ran
      exact ⟨rfl, .refl⟩
    · have frame := growInto_frame ran
      exact frame
  · exact growInto_frame ran

theorem freeCanary_frame (ran : g.freeCanary E.provider w r canary forcePurge = (answer, g', w')) :
    g'.region = g.region ∧ E.Idle w w' := by
  simp only [freeCanary] at ran
  iterate 3
    split at ran
    · cases ran
      exact ⟨rfl, .refl⟩
  split at ran
  · rename_i asked
    cases ran
    exact ⟨rfl, .ofDecommit asked⟩
  · rename_i asked
    cases ran
    exact ⟨rfl, .ofDecommit asked⟩

theorem freeRevokingCanary_frame {arena : Nat}
    (ran : g.freeRevokingCanary E.provider w r arena canary forcePurge = (answer, g', w')) :
    g'.region = g.region ∧ E.Idle w w' := by
  simp only [freeRevokingCanary] at ran
  split at ran
  · cases ran
    exact ⟨rfl, .refl⟩
  split at ran
  · rename_i asked
    cases ran
    exact ⟨rfl, .ofRevoke asked⟩
  · rename_i asked
    obtain ⟨region, idle⟩ := freeCanary_frame ran
    exact ⟨region, (Env.Idle.ofRevoke asked).trans idle⟩

end ExtentManager

/-! ## Live extents -/

namespace ExtentMap
variable {m : ExtentMap} {i j : Nat}

/-- The addresses of an extent. -/
def span (m : ExtentMap) (i : Nat) : Region := ⟨(m.slots i).base, (m.slots i).len⟩

theorem Settled.paged (settled : m.Settled) (live : m.Live i) : (m.span i).Paged := by
  obtain ⟨addr, unused, wf⟩ := settled.wf
  obtain ⟨listed, -⟩ := wf.live_iff.mp live
  have sound := wf.shape.sound i listed
  exact ⟨wf.shape.page_base listed, sound.page, sound.pos⟩

theorem Settled.within (settled : m.Settled) (live : m.Live i) :
    m.regionBase ≤ (m.slots i).base ∧ (m.slots i).base + (m.slots i).len ≤ m.regionBase + m.regionLen := by
  obtain ⟨addr, unused, wf⟩ := settled.wf
  obtain ⟨listed, -⟩ := wf.live_iff.mp live
  exact wf.shape.within listed

/-- Two live extents share no page. -/
theorem Settled.apart (settled : m.Settled) (live : m.Live i) (live' : m.Live j) (other : i ≠ j)
    (p : Nat) (here : (m.span i).HasPage p) : ¬(m.span j).HasPage p := by
  obtain ⟨addr, unused, wf⟩ := settled.wf
  obtain ⟨listed, -⟩ := wf.live_iff.mp live
  obtain ⟨listed', -⟩ := wf.live_iff.mp live'
  intro there
  simp only [Region.HasPage, span] at here there
  rcases wf.shape.tiles.disjoint listed listed' other with before | after <;> omega

end ExtentMap
end Topomalloc
