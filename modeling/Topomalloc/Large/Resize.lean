import Topomalloc.Large.Calls

/-! In-place shrink and grow: the pages of the allocation change and its extent
or its cached region with them, or everything is as before. -/
namespace Topomalloc
open Function ExtentMap
namespace Engine
variable {σ : Type} {G : Grounds σ} {E : Env σ} {s s' s'' : Engine σ} {free : List Nat}
  {live : Set Nat} {held held' : Set Region} {i j p usable : Nat} {m : PageMap} {g : ExtentManager}
  {w : σ} {ext : ExtentRef}

theorem resized_self : ((s.resized j usable).slots j) = { s.large.slots j with usable } := update_self ..

theorem resized_other (ne : i ≠ j) : (s.resized j usable).slots i = s.large.slots i := update_of_ne ne ..

/-- An allocation gets other pages from the same base on. -/
theorem Housed.resize (h : Housed G s free live held) (member : j ∈ live) (settled : g.map.Settled)
    (region : g.region = s.largeExtents.region)
    (same : SameRegion s.largeExtents.map g.map) (leased : G.Leased w held')
    (others : ∀ i ∈ live, i ≠ j → Seated g.map held' (s.large.slots i))
    (seated : Seated g.map held' { s.large.slots j with usable })
    (free' : ∀ p, inPages (s.large.slots j).base ((s.large.slots j).base + usable) p = true →
      s.pagemap.entries p = .empty ∨ s.pagemap.entries p = .large j) (entries : ∀ p, m.entries p =
      if inPages (s.large.slots j).base ((s.large.slots j).base + usable) p = true then .large j
      else if inPages (s.large.slots j).base (s.large.slots j).stop p = true then .empty
      else s.pagemap.entries p) :
    Housed G { s with largeExtents := g, world := w, pagemap := m, large := s.resized j usable } free
      live held' where
  pool := by
    refine h.pool.congr fun i _ => ?_
    by_cases equal : i = j
    · rw [equal, resized_self]
    · rw [resized_other equal]
  used := h.used
  settled := settled
  region := region.trans h.region
  base := same.base.trans h.base
  len := same.len.trans h.len
  leased := leased
  seated := by
    intro i kept
    by_cases equal : i = j
    · rw [equal, resized_self]
      exact seated
    · rw [resized_other equal]
      exact others i kept equal
  pages := by
    intro p i
    rw [show m.entries p = _ from entries p]
    by_cases equal : i = j
    · subst equal
      rw [resized_self]
      show _ ↔ i ∈ live ∧ inPages (s.large.slots i).base ((s.large.slots i).base + usable) p = true
      split
      · rename_i inside
        exact ⟨fun _ => ⟨member, inside⟩, fun _ => rfl⟩
      · rename_i outside
        split
        · exact ⟨nofun, fun both => absurd both.2 outside⟩
        · rename_i never
          constructor
          · intro owned
            exact absurd ((h.pages p i).mp owned).2 never
          · exact fun both => absurd both.2 outside
    · rw [resized_other equal, ← h.pages p i]
      split
      · rename_i inside
        constructor
        · intro owned
          cases owned
          exact absurd rfl equal
        · intro owned
          rcases free' p inside with empty | mine
          · rw [empty] at owned
            cases owned
          · rw [mine] at owned
            cases owned
            exact absurd rfl equal
      · split
        · rename_i inside
          constructor
          · nofun
          · intro owned
            obtain ⟨kept, within⟩ := (h.pages p i).mp owned
            exact absurd (h.eq_of_page kept member within inside) equal
        · exact Iff.rfl
  clean := by
    intro p ours
    rw [show m.entries p = _ from entries p]
    split
    · exact .inr ⟨j, rfl⟩
    split
    · exact .inl rfl
    · exact h.clean p ours

/-- One allocation has another usable size. -/
structure Resized (G : Grounds σ) (s s' : Engine σ) (live : Set Nat) (j usable : Nat) : Prop where
  stands : ∃ held', Stands G s' live held'
  only : LargeOnly G s s'
  slots : ∀ i ∈ live, i ≠ j → s'.large.slots i = s.large.slots i
  slot : s'.large.slots j = { s.large.slots j with usable }

/-- Resizing failed: nothing of the allocations changed. -/
structure Untouched (G : Grounds σ) (s s' : Engine σ) (live : Set Nat) (held : Set Region) : Prop where
  stands : Stands G s' live held
  only : LargeOnly G s s'
  pool : s'.large = s.large
  unmoved : Unmoved s s' live

theorem Stands.untouched (stands : Stands G s live held) : Untouched G s s live held :=
  ⟨stands, .refl, rfl, fun _ _ => rfl, rfl, .refl⟩

/-- The pages of a shorter prefix, and the rest. -/
theorem inPages_split (based : pageSize ∣ base) (whole : pageSize ∣ usable) (shorter : usable < len) :
    inPages base (base + len) p = true ↔
      inPages base (base + usable) p = true ∨ inPages (base + usable) (base + len) p = true := by
  obtain ⟨k, rfl⟩ := based
  obtain ⟨l, rfl⟩ := whole
  simp only [inPages, Bool.and_eq_true, decide_eq_true_eq]
  simp only [pageOf, pageSize] at *
  omega

theorem inPages_apart (based : pageSize ∣ base) (whole : pageSize ∣ usable)
    (inside : inPages base (base + usable) p = true) : ¬inPages (base + usable) stop p = true := by
  obtain ⟨k, rfl⟩ := based
  obtain ⟨l, rfl⟩ := whole
  simp only [inPages, Bool.and_eq_true, decide_eq_true_eq] at inside ⊢
  simp only [pageOf, pageSize] at *
  omega

section
variable (h : Housed G s free live held)
include h

/-- The base of an allocation without guards is at a page boundary. -/
theorem Housed.based (sound : G.Sound E) (member : j ∈ live)
    (plain : (s.large.slots j).guarded = false) : pageSize ∣ (s.large.slots j).base := by
  rw [((LargeSlot.takes_plain plain).mp (h.takes member)).1]
  exact (h.paged sound member).base

/-- Emptying the pages past `usable` leaves the allocation its first ones. -/
theorem Housed.trimmed_entries (sound : G.Sound E) (member : j ∈ live)
    (plain : (s.large.slots j).guarded = false) (whole : pageSize ∣ usable)
    (shorter : usable < (s.large.slots j).usable) (p : Nat) :
    (s.pagemap.overwriteRange ((s.large.slots j).base + usable) (s.large.slots j).stop
        .empty).entries p =
      if inPages (s.large.slots j).base ((s.large.slots j).base + usable) p = true then .large j
      else if inPages (s.large.slots j).base (s.large.slots j).stop p = true then .empty
      else s.pagemap.entries p := by
  have based := h.based sound member plain
  rw [PageMap.overwriteRange_empty]
  have split : inPages (s.large.slots j).base (s.large.slots j).stop p = true ↔ _ :=
    inPages_split based whole shorter
  split
  · rename_i rest
    rw [if_neg fun first => inPages_apart based whole first rest, if_pos (split.mpr (.inr rest))]
  · rename_i rest
    split
    · rename_i first
      exact (h.pages p j).mpr ⟨member, split.mpr (.inl first)⟩
    · rename_i first
      rw [if_neg]
      exact fun inside => (split.mp inside).elim first rest

/-- The pages past `usable` go, and the slot says so; the extents or leases
under the allocation are by now those of its first `usable` bytes. -/
theorem Housed.shorten (sound : G.Sound E) (member : j ∈ live) (plain : (s.large.slots j).guarded = false)
    (whole : pageSize ∣ usable) (shorter : usable < (s.large.slots j).usable) (settled : g.map.Settled)
    (region : g.region = s.largeExtents.region) (same : SameRegion s.largeExtents.map g.map)
    (leased : G.Leased w held') (others : ∀ i ∈ live, i ≠ j → Seated g.map held' (s.large.slots i))
    (seated : Seated g.map held' { s.large.slots j with usable }) :
    Housed G { s.retireTail j usable with largeExtents := g, world := w } free live held' ∧
      LargeOnly G s { s.retireTail j usable with largeExtents := g, world := w } := by
  have entries := h.trimmed_entries sound member plain whole shorter
  have owned : ∀ p, inPages (s.large.slots j).base ((s.large.slots j).base + usable) p = true →
      s.pagemap.entries p = .large j := by
    intro p inside
    exact (h.pages p j).mpr ⟨member,
      (inPages_split (h.based sound member plain) whole shorter).mpr (.inl inside)⟩
  refine ⟨h.resize member settled region same leased others seated (fun p inside => .inr (owned p inside))
    entries, rfl, fun p away => ?_, fun _ leaf => leaf, fun _ => .inl rfl⟩
  refine PageMap.overwriteRange_of_not_mem (Bool.eq_false_iff.mpr fun rest => away ?_)
  refine h.page_of_large sound ((h.pages p j).mpr ⟨member, ?_⟩)
  exact (inPages_split (h.based sound member plain) whole shorter).mpr (.inr rest)

theorem Housed.eq_of_extent (sound : G.Sound E) (member : i ∈ live)
    (member' : j ∈ live) (backed : (s.large.slots i).backing = some r)
    (backed' : (s.large.slots j).backing = some ext) (same : r.id = ext.id) : i = j := by
  apply h.eq_of_ground sound member member'
  rw [LargeSlot.ground_some backed, LargeSlot.ground_some backed', same]

/-- When only the extent under one allocation changes, the others keep their
seats. -/
theorem Housed.others (sound : G.Sound E) (member : j ∈ live)
    (backed : (s.large.slots j).backing = some ext) {m : ExtentMap}
    (region : SameRegion s.largeExtents.map m) (kept : ∀ k, s.largeExtents.map.Live k → k ≠ ext.id →
      (m.slots k).body = (s.largeExtents.map.slots k).body) :
    ∀ i ∈ live, i ≠ j → Seated m held (s.large.slots i) := by
  intro i old ne
  have seated := h.seated i old
  refine seated.of_kept region (fun r backedI => ?_) seated.lease
  exact kept _ (seated.live backedI) fun same => ne (h.eq_of_extent sound old member backedI backed same)

end

section
variable (stands : Stands G s live held) (sound : G.Sound E)
include stands sound

/-- `shrink` of an allocation on an extent: the end of the extent is cut off
and freed. -/
theorem Stands.shrinkExtent (member : j ∈ live) (plain : (s.large.slots j).guarded = false)
    (whole : pageSize ∣ usable) (shorter : usable < (s.large.slots j).usable)
    (backed : (s.large.slots j).backing = some ext)
    (cutOff : s.largeExtents.splitTail ext usable = (.ok tail, g))
    (freeing : g.freeCanary E.provider s.world tail false E.forcePurge = (answer, g', w)) (e : Event) :
    Resized G s (Engine.note { s.retireTail j usable with largeExtents := g', world := w } e) live j
      usable := by
  obtain ⟨free, h, full⟩ := stands
  obtain ⟨extent, current, takes⟩ := (LargeSlot.seated_some backed).mp (h.seated j member)
  obtain ⟨based, sized⟩ := (LargeSlot.takes_plain plain).mp takes
  obtain ⟨settled, ⟨_, impossible, -⟩ | ⟨_, same, -, -, cut, fresh⟩⟩ :=
    ExtentManager.splitTail_effect h.settled cutOff
  · cases impossible
  cases same
  have region := ExtentManager.splitTail_frame cutOff
  have others := h.others sound member backed cut.region cut.kept
  have seated : Seated g.map held { s.large.slots j with usable } := by
    rw [LargeSlot.seated_some (d := { s.large.slots j with usable }) backed,
      LargeSlot.takes_plain (d := { s.large.slots j with usable }) plain]
    exact ⟨cut.live, cut.generation.trans current, based.trans cut.base.symm, cut.len.symm⟩
  obtain ⟨housed, only⟩ := h.shorten sound member plain whole shorter settled region cut.region h.leased
    others seated
  -- the tail is an extent of its own, under no allocation
  have tailStart : (g.map.span tail.id).base = (s.large.slots j).base + usable := by
    rw [based]
    exact cut.tailBase
  have tailStop : (g.map.span tail.id).base + (g.map.span tail.id).len = (s.large.slots j).stop := by
    rw [tailStart, LargeSlot.stop]
    have len : (g.map.span tail.id).len = (s.largeExtents.map.slots ext.id).len - usable := cut.tailLen
    have total : (s.large.slots j).usable = (s.largeExtents.map.slots ext.id).len := sized
    omega
  have granted : Granted { s.retireTail j usable with largeExtents := g } held (some tail)
      (g.map.span tail.id) := by
    refine ⟨⟨cut.tailLive, fresh, rfl⟩, fun p here => ?_⟩
    have inside := (settled.paged cut.tailLive).inPages_iff.mpr here
    rw [tailStop, tailStart] at inside
    exact (PageMap.overwriteRange_empty ..).trans (if_pos inside)
  obtain ⟨region', idle⟩ := ExtentManager.freeCanary_frame freeing
  obtain ⟨settled', -⟩ := ExtentManager.freeCanary_effect settled freeing
  obtain ⟨-, freed⟩ := ExtentManager.freeCanary_live settled cut.tailLive fresh freeing
  have done := housed.freed sound granted settled' region' freed (idle _ (sound.keeps held) h.leased)
  refine ⟨⟨held, free, done.note e, full⟩, only.trans ?_, fun i _ ne => resized_other ne, resized_self⟩
  exact .of_entries rfl rfl fun _ leaf => leaf

/-- `shrink` of an allocation on a region of the cache, which took the end of
the region back. -/
theorem Stands.shrinkLease (member : j ∈ live) (whole : pageSize ∣ usable) (pos : 0 < usable)
    (shorter : usable < (s.large.slots j).usable) (backed : (s.large.slots j).backing = none)
    (trimming : E.hook.tryTrim s.world ⟨(s.large.slots j).base, (s.large.slots j).usable⟩ usable =
      (some freed, w)) (e : Event) :
    freed = (s.large.slots j).usable - usable ∧
    Resized G s (Engine.note { s.retireTail j usable with world := w } e) live j usable := by
  obtain ⟨free, h, full⟩ := stands
  obtain ⟨mine, plain⟩ := (LargeSlot.seated_none backed).mp (h.seated j member)
  obtain ⟨exact, leased⟩ := sound.honest.trimmed h.leased mine pos whole shorter trimming
  refine ⟨exact, ?_⟩
  generalize rest : insert _ (held \ _) = held' at leased
  have others : ∀ i ∈ live, i ≠ j → Seated s.largeExtents.map held' (s.large.slots i) := by
    intro i kept ne
    have seated := h.seated i kept
    refine seated.of_kept .refl (fun _ _ => rfl) fun backedI => ?_
    rw [← rest]
    refine .inr ⟨seated.lease backedI, fun equal => ne ?_⟩
    apply h.eq_of_ground sound kept member
    rw [LargeSlot.ground_none backedI, LargeSlot.ground_none backed]
    exact equal
  have seated : Seated s.largeExtents.map held' { s.large.slots j with usable } := by
    rw [LargeSlot.seated_none (d := { s.large.slots j with usable }) backed, ← rest]
    exact ⟨.inl rfl, plain⟩
  obtain ⟨housed, only⟩ := h.shorten sound member plain whole shorter h.settled rfl .refl leased others
    seated
  refine ⟨⟨held', free, housed.note e, full⟩, only.trans ?_, fun i _ ne => resized_other ne, resized_self⟩
  exact .of_entries rfl rfl fun _ leaf => leaf

/-- The cache declined: the pages are published again. -/
theorem Stands.shrinkUndone (member : j ∈ live) (whole : pageSize ∣ usable)
    (shorter : usable < (s.large.slots j).usable) (backed : (s.large.slots j).backing = none)
    (trimming : E.hook.tryTrim s.world ⟨(s.large.slots j).base, (s.large.slots j).usable⟩ usable =
      (none, w)) (publishing :
    (s.pagemap.overwriteRange ((s.large.slots j).base + usable) (s.large.slots j).stop
      .empty).publishRange E w ((s.large.slots j).base + usable) (s.large.slots j).stop (.large j) =
      (ok, m, w')) : Untouched G s { s with pagemap := m, world := w' } live held := by
  obtain ⟨free, h, full⟩ := stands
  obtain ⟨mine, plain⟩ := (LargeSlot.seated_none backed).mp (h.seated j member)
  have owned : ∀ p, inPages ((s.large.slots j).base + usable) (s.large.slots j).stop p = true →
      s.pagemap.entries p = .large j := by
    intro p rest
    exact (h.pages p j).mpr ⟨member,
      (inPages_split (h.based sound member plain) whole shorter).mpr (.inr rest)⟩
  obtain ⟨asked, leaves, -, published, sure⟩ := PageMap.publishRange_spec publishing
  -- the pages had an owner, so their leaves exist
  obtain rfl := sure fun p rest => by
    rw [PageMap.overwriteRange_leaf]
    exact s.pagemap.rooted p (by rw [owned p rest]; nofun)
  have entries : m.entries = s.pagemap.entries := by
    funext p
    rw [published rfl p, PageMap.overwriteRange_empty]
    by_cases rest : inPages ((s.large.slots j).base + usable) (s.large.slots j).stop p = true
    · rw [if_pos rest, if_pos ⟨rest, .inl rfl⟩, owned p rest]
    · rw [if_neg rest, if_neg fun both => rest both.1]
  have leased := asked.idle _ (sound.keeps held) (sound.honest.whole h.leased mine trimming)
  refine ⟨⟨free, h.congr rfl rfl entries leased, full⟩, ?_, rfl, fun _ _ => rfl, entries, .refl⟩
  exact .of_entries rfl entries leaves

/-- `shrink` gives the pages past the new size back, or leaves everything as it
was. -/
theorem Stands.shrink (ran : s.shrink E ptr newUsable = (answer, s')) :
    match answer with
    | none => Untouched G s s' live held
    | some freed => ptr ≠ 0 ∧ ∃ j usable, s.IsLarge live j ptr ∧ (s.large.slots j).guarded = false ∧
        alignUp (max newUsable 1) pageSize = some usable ∧ usable < (s.large.slots j).usable ∧
        freed = (s.large.slots j).usable - usable ∧ Resized G s s' live j usable := by
  obtain ⟨free, h, full⟩ := id stands
  unfold Engine.shrink at ran
  split at ran
  · cases ran
    exact stands.untouched
  rename_i j found
  dsimp only at ran
  split at ran
  · cases ran
    exact stands.untouched
  rename_i wrong
  simp only [not_or, not_not, Bool.not_eq_true] at wrong
  obtain ⟨nonnull, based, plain⟩ := wrong
  have here := h.isLarge found based
  split at ran
  · cases ran
    exact stands.untouched
  rename_i usable rounded
  obtain ⟨whole, atLeast, -⟩ := alignUp_spec pageSize_pos rounded
  split at ran
  · cases ran
    exact stands.untouched
  rename_i longer
  have shorter : usable < (s.largeSlot j).usable := by omega
  rcases backed : (s.largeSlot j).backing with _ | ext
  · simp only [backed] at ran
    split at ran
    · rename_i freed w trimming
      cases ran
      obtain ⟨exact, resized⟩ := stands.shrinkLease sound here.1 whole (by omega) shorter backed trimming
        (.lost (s.largeSlot j).arena ((s.largeSlot j).base + usable) (s.largeSlot j).stop)
      exact ⟨nonnull, j, usable, here, plain, rounded, shorter, exact, resized⟩
    · rename_i w trimming
      cases ran
      have again : { s.resized j usable with
          slots := update (s.resized j usable).slots j (s.largeSlot j) } = s.large := by
        rw [resized, update_idem, show update s.large.slots j (s.largeSlot j) = s.large.slots from
          update_eq_self ..]
      have undone := stands.shrinkUndone sound here.1 whole shorter backed trimming Prod.mk.eta.symm
      simp only [setLarge, retireTail, again]
      exact undone
  · simp only [backed] at ran
    split at ran
    · rename_i err g failed
      cases ran
      obtain ⟨-, ⟨_, -, rfl⟩ | ⟨_, impossible, -⟩⟩ := ExtentManager.splitTail_effect h.settled failed
      · exact stands.untouched
      · cases impossible
    · rename_i tail g cutOff
      cases ran
      have resized := stands.shrinkExtent sound here.1 plain whole shorter backed cutOff Prod.mk.eta.symm
        (.lost (s.largeSlot j).arena ((s.largeSlot j).base + usable) (s.largeSlot j).stop)
      exact ⟨nonnull, j, usable, here, plain, rounded, shorter, rfl, resized⟩

/-! ## Growing -/

/-- Only nodes of the page map were added. -/
theorem Stands.extended (more : PageMap.Extends s.pagemap m) (idle : E.Idle s.world w) :
    Untouched G s { s with pagemap := m, world := w } live held := by
  obtain ⟨free, h, full⟩ := stands
  have leased := idle _ (sound.keeps held) h.leased
  exact ⟨⟨free, h.congr rfl rfl more.entries leased, full⟩,
    .of_entries rfl more.entries more.leaf, rfl, fun _ _ => rfl, more.entries, .refl⟩

/-- The extent under an allocation became longer, and so does the allocation. -/
theorem Stands.growExtent (member : j ∈ live) (plain : (s.large.slots j).guarded = false)
    (longer : (s.large.slots j).usable < usable) (backed : (s.large.slots j).backing = some ext)
    {w' : σ} (settled : g.map.Settled) (region : g.region = s.largeExtents.region)
    (grown : Grown s.largeExtents.map g.map ext.id usable) (leased : G.Leased w held)
    (leaves : ∀ p, inPages (s.large.slots j).stop ((s.large.slots j).base + usable) p = true →
      s.pagemap.findLeaf p = true)
    (publishing : s.pagemap.publishRange E w (s.large.slots j).stop ((s.large.slots j).base + usable)
      (.large j) = (ok, m, w')) (e : Event) :
    ok = true ∧ Resized G s (Engine.note { s with
      largeExtents := g, world := w', pagemap := m, large := s.resized j usable } e) live j usable := by
  obtain ⟨free, h, full⟩ := stands
  have based := h.based sound member plain
  obtain ⟨extent, current, takes⟩ := (LargeSlot.seated_some backed).mp (h.seated j member)
  obtain ⟨atBase, sized⟩ := (LargeSlot.takes_plain plain).mp takes
  obtain ⟨asked, leaves', -, published, sure⟩ := PageMap.publishRange_spec publishing
  obtain rfl := sure leaves
  refine ⟨rfl, ?_⟩
  have pagesWhole : pageSize ∣ (s.large.slots j).usable := by
    rw [sized]
    exact (h.settled.paged extent).len
  have split : ∀ p, inPages (s.large.slots j).base ((s.large.slots j).base + usable) p = true ↔
      inPages (s.large.slots j).base (s.large.slots j).stop p = true ∨
        inPages (s.large.slots j).stop ((s.large.slots j).base + usable) p = true := fun p =>
    inPages_split based pagesWhole longer
  have others := h.others sound member backed grown.region grown.kept
  have seated : Seated g.map held { s.large.slots j with usable } := by
    rw [LargeSlot.seated_some (d := { s.large.slots j with usable }) backed,
      LargeSlot.takes_plain (d := { s.large.slots j with usable }) plain]
    exact ⟨grown.live, grown.generation.trans current, atBase.trans grown.base.symm, grown.len.symm⟩
  have footing : Footing G g.map w held :=
    ⟨settled, grown.region.base.trans h.base, grown.region.len.trans h.len, leased⟩
  -- the longer extent is apart from everything under the other allocations
  have inExtent : ∀ p, inPages (s.large.slots j).base ((s.large.slots j).base + usable) p = true →
      (g.map.span ext.id).HasPage p := by
    intro p inside
    refine (settled.paged grown.live).hasPage ?_ ?_ inside
    · rw [atBase]
      exact Nat.le_of_eq grown.base
    · rw [atBase]
      show _ ≤ (g.map.slots ext.id).base + (g.map.slots ext.id).len
      rw [grown.base, grown.len]
      exact Nat.le_refl _
  have ours : ∀ p, inPages (s.large.slots j).base ((s.large.slots j).base + usable) p = true →
      G.Page p := fun p inside => .inl (footing.page_of_extent grown.live (inExtent p inside))
  have vacant : ∀ p, inPages (s.large.slots j).base ((s.large.slots j).base + usable) p = true →
      s.pagemap.entries p = .empty ∨ s.pagemap.entries p = .large j := by
    intro p inside
    rcases h.clean p (ours p inside) with empty | ⟨i, owned⟩
    · exact .inl empty
    by_cases same : i = j
    · exact .inr (same ▸ owned)
    obtain ⟨kept, within⟩ := (h.pages p i).mp owned
    obtain ⟨handed, takes, -⟩ := LargeSlot.seated_iff.mp (others i kept same)
    have there := (footing.paged sound handed).hasPage takes.within.1 takes.within.2 within
    have handed' : Handed g.map held (some ext) (g.map.span ext.id) :=
      ⟨grown.live, grown.generation.trans current, rfl⟩
    refine absurd (inExtent p inside) (footing.apart sound handed handed' (.inl fun equal => ?_) there)
    obtain ⟨r, backedI, equal⟩ := Option.map_eq_some_iff.mp equal
    exact same (h.eq_of_extent sound kept member backedI backed equal)
  have entries : ∀ p, m.entries p =
      if inPages (s.large.slots j).base ((s.large.slots j).base + usable) p = true then .large j
      else if inPages (s.large.slots j).base (s.large.slots j).stop p = true then .empty
      else s.pagemap.entries p := by
    intro p
    rw [published rfl p]
    by_cases inside : inPages (s.large.slots j).base ((s.large.slots j).base + usable) p = true
    · rw [if_pos inside]
      split
      · rfl
      · rename_i kept
        rcases (split p).mp inside with old | new
        · exact (h.pages p j).mpr ⟨member, old⟩
        · exact absurd ⟨new, vacant p inside⟩ kept
    · rw [if_neg inside, if_neg fun old => inside ((split p).mpr (.inl old)),
        if_neg fun both => inside ((split p).mpr (.inr both.1))]
  have housed := h.resize member settled region grown.region (asked.idle _ (sound.keeps held) leased) others
    seated vacant entries
  refine ⟨⟨held, free, housed.note e, full⟩, ⟨rfl, ?_, leaves', fun _ => .inl rfl⟩,
    fun i _ ne => resized_other ne, resized_self⟩
  intro p away
  have outside : ¬inPages (s.large.slots j).base ((s.large.slots j).base + usable) p = true :=
    fun inside => away (ours p inside)
  refine (entries p).trans ?_
  rw [if_neg outside, if_neg fun old => outside ((split p).mpr (.inl old))]

/-- `grow` takes the pages after the allocation, or leaves everything as it was. -/
theorem Stands.grow (ran : s.grow E ptr newUsable = (answer, s')) :
    match answer with
    | none => Untouched G s s' live held
    | some gained => ptr ≠ 0 ∧ ∃ j usable, s.IsLarge live j ptr ∧ (s.large.slots j).guarded = false ∧
        alignUp (max newUsable 1) pageSize = some usable ∧ (s.large.slots j).usable < usable ∧
        gained = usable - (s.large.slots j).usable ∧ Resized G s s' live j usable := by
  obtain ⟨free, h, full⟩ := id stands
  unfold Engine.grow at ran
  split at ran
  · cases ran
    exact stands.untouched
  rename_i j found
  dsimp only at ran
  split at ran
  · cases ran
    exact stands.untouched
  rename_i ext backed
  split at ran
  · cases ran
    exact stands.untouched
  rename_i wrong
  simp only [not_or, not_not, Bool.not_eq_true] at wrong
  obtain ⟨nonnull, based, plain⟩ := wrong
  have here := h.isLarge found based
  split at ran
  · cases ran
    exact stands.untouched
  rename_i usable rounded
  obtain ⟨whole, atLeast, -⟩ := alignUp_spec pageSize_pos rounded
  split at ran
  · cases ran
    exact stands.untouched
  rename_i idle
  simp only [not_or, not_le] at idle
  have longer := idle.1
  rcases reserving : s.pagemap.reservePages E s.world
    (pageRange (s.largeSlot j).stop ((s.largeSlot j).base + usable)) with ⟨reserved, m, w⟩
  rw [reserving] at ran
  obtain ⟨more, asked, leaves, -⟩ := PageMap.reservePages_spec reserving
  have untouched := stands.extended sound more asked.idle
  cases reserved with
  | false =>
    cases ran
    exact untouched
  | true =>
    obtain ⟨free₁, h₁, full₁⟩ := untouched.stands
    dsimp only at ran
    rcases growing : s.largeExtents.growInPlace E.provider w ext usable with ⟨result, g, w'⟩
    rw [growing] at ran
    obtain ⟨region, idle'⟩ := ExtentManager.growInPlace_frame growing
    have leased := idle' _ (sound.keeps held) h₁.leased
    obtain ⟨settled, ⟨err, rfl, same⟩ | ⟨needed, rfl, up, extent, current, grown⟩⟩ :=
      ExtentManager.growInPlace_effect h.settled growing
    · cases ran
      have housed := h₁.sameLive settled region same leased
      exact ⟨⟨free₁, housed, full₁⟩, .of_entries rfl more.entries more.leaf, rfl, fun _ _ => rfl,
        more.entries, same⟩
    · obtain rfl := alignUp_eq_of_dvd pageSize_pos whole up
      have sized := ((LargeSlot.takes_plain plain).mp
        ((LargeSlot.seated_some backed).mp (h.seated j here.1)).2.2).2
      rcases grown with ⟨short, -⟩ | ⟨-, grown⟩
      · have len : (s.largeSlot j).usable = (s.largeExtents.map.slots ext.id).len := sized
        omega
      · dsimp only at ran
        rcases publishing : m.publishRange E w' (s.largeSlot j).stop ((s.largeSlot j).base + needed)
          (.large j) with ⟨ok, m', w''⟩
        rw [publishing] at ran
        obtain ⟨rfl, resized⟩ := untouched.stands.growExtent sound here.1 plain longer backed settled
          region grown leased (fun p inside => leaves rfl p (PageMap.mem_pageRange.mpr inside)) publishing
          (.gained (s.largeSlot j).arena (s.largeSlot j).stop ((s.largeSlot j).base + needed))
        cases ran
        refine ⟨nonnull, j, needed, here, plain, rounded, longer, rfl, resized.stands,
          untouched.only.trans resized.only, resized.slots, resized.slot⟩

end

end Engine
end Topomalloc
