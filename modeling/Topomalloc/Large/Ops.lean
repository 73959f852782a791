import Topomalloc.Large.Shape

/-! The steps the operations of the large allocator are made of: taking memory,
writing a descriptor and publishing its pages, retiring it, giving memory back. -/
namespace Topomalloc
open Function ExtentMap

/-! ## Seats under changed extents -/

section Seats
variable {m m' : ExtentMap} {held held' : Set Region} {d : LargeSlot}

theorem Seated.of_kept (seated : Seated m held d) (region : SameRegion m m')
    (kept : ∀ ext, d.backing = some ext → (m'.slots ext.id).body = (m.slots ext.id).body)
    (still : d.backing = none → ⟨d.base, d.usable⟩ ∈ held') : Seated m' held' d := by
  cases backed : d.backing with
  | some ext =>
    obtain ⟨live, current, takes⟩ := (LargeSlot.seated_some backed).mp seated
    have same := kept ext backed
    obtain ⟨base, len, -, -, -, generation⟩ := Slot.fields_of_body same
    rw [LargeSlot.seated_some backed]
    refine ⟨live.of_body region same, generation.trans current, ?_⟩
    rw [span, base, len]
    exact takes
  | none =>
    obtain ⟨-, plain⟩ := (LargeSlot.seated_none backed).mp seated
    rw [LargeSlot.seated_none backed]
    exact ⟨still backed, plain⟩

variable {ext : ExtentRef}

theorem Seated.live (seated : Seated m held d) (backed : d.backing = some ext) : m.Live ext.id :=
  ((LargeSlot.seated_some backed).mp seated).1

theorem Seated.lease (seated : Seated m held d) (backed : d.backing = none) : ⟨d.base, d.usable⟩ ∈ held :=
  ((LargeSlot.seated_none backed).mp seated).1

end Seats

namespace ExtentManager
variable {σ : Type} {E : Env σ} {H : RegionCacheHook σ} {G : Grounds σ} {g g' : ExtentManager}
  {w w' : σ} {r : ExtentRef} {held : Set Region}

/-- Freeing a live extent by its current reference works. -/
theorem freeCanary_live (settled : g.map.Settled) (live : g.map.Live r.id)
    (current : (g.map.slots r.id).generation = r.generation)
    (ran : g.freeCanary E.provider w r canary forcePurge = (answer, g', w')) :
    answer = .ok () ∧ Freed g.map g'.map r.id := by
  obtain ⟨-, ⟨err, rfl, -⟩ | ⟨rfl, -, -, freed⟩⟩ := freeCanary_effect settled ran
  · obtain ⟨addr, unused, wf⟩ := settled.wf
    have found := wf.resolve_eq (wf.live_iff.mp live).1 current
    simp only [freeCanary, found] at ran
    rw [if_neg (by simp [snapshot, live.2.2])] at ran
    split at ran
    · cases ran
    split at ran
    · cases ran
    · cases ran
  · exact ⟨rfl, freed⟩

/-- The region of a live extent is the extent's own addresses. -/
theorem subRegion_eq (settled : g.map.Settled) (rooted : g.map.regionBase = g.region.base)
    (live : g.map.Live i) : g.subRegion (snapshot i (g.map.get i)) = g.map.span i := by
  have lower := (settled.within live).1
  rw [rooted] at lower
  simp only [subRegion, subOffset, snapshot, span, ExtentMap.get, Region.mk.injEq, and_true] at lower ⊢
  omega

/-- What `alloc_large` hands out: nothing, a region of the cache, or a new
extent. -/
theorem allocLarge_grants (honest : H.Honest G.Leased G.zone) (keeps : E.Keeps (G.Leased · held))
    (settled : g.map.Settled) (rooted : g.map.regionBase = g.region.base) (leased : G.Leased w held)
    (ran : g.allocLarge E.provider H w bytes align hints = (answer, g', w')) :
    g'.region = g.region ∧ g'.map.Settled ∧
      ((∃ err, answer = .error err ∧ SameLive g.map g'.map ∧ G.Leased w' held) ∨
        (∃ region prov, answer = .ok (region, none, prov) ∧ g' = g ∧
          G.Leased w' (insert region held) ∧ region ∉ held ∧ bytes ≤ region.len ∧
          align ∣ region.base) ∨
        ∃ ext prov needed, answer = .ok (g'.map.span ext.id, some ext, prov) ∧
          alignUp bytes pageSize = some needed ∧ Carved g.map g'.map ext.id needed align ∧
          (g'.map.slots ext.id).generation = ext.generation ∧ G.Leased w' held) := by
  obtain ⟨err, rfl, rfl, rfl⟩ | ⟨nonzero, aligned, rounded, up, ⟨region, asked, rfl, rfl⟩ |
    ⟨w₁, inner, asked, made, rfl⟩⟩ := allocLarge_cases ran
  · exact ⟨rfl, settled, .inl ⟨_, rfl, .refl, leased⟩⟩
  · obtain ⟨whole, atLeast, -⟩ := alignUp_spec pageSize_pos up
    obtain ⟨leased', fresh, long, based⟩ := honest.served leased (by omega) whole aligned asked
    exact ⟨rfl, settled, .inr (.inl ⟨region, {}, rfl, rfl, leased', fresh, by omega, based⟩)⟩
  have leased₁ := honest.declined leased asked
  obtain ⟨region, idle⟩ := allocZ_frame made
  obtain ⟨settled', ⟨_, rfl, same⟩ | ⟨r, prov, needed, rfl, again, carved, current⟩⟩ :=
    allocZ_effect settled made
  · exact ⟨region, settled', .inl ⟨_, rfl, same, idle _ keeps leased₁⟩⟩
  obtain rfl := alignUp_eq_of_dvd pageSize_pos (alignUp_spec pageSize_pos up).1 again
  have rooted' : g'.map.regionBase = g'.region.base := by
    rw [carved.region.base, rooted, region]
  refine ⟨region, settled', .inr (.inr ⟨r, prov, needed, ?_, up, carved, current, idle _ keeps leased₁⟩)⟩
  rw [← subRegion_eq settled' rooted' carved.live]
  rfl

/-- Without a region cache it is an extent. -/
theorem allocLarge_uncached {region : Region}
    (ran : g.allocLarge E.provider (noRegionCache σ) w bytes align hints =
      (.ok (region, backing, prov), g', w')) : backing ≠ none := by
  obtain ⟨_, ⟨⟩, -⟩ | ⟨-, -, _, -, ⟨_, ⟨⟩, -⟩ | ⟨_, _ | _, -, -, ⟨⟩⟩⟩ := allocLarge_cases ran
  nofun

end ExtentManager

namespace Engine
variable {σ : Type} {G : Grounds σ} {E : Env σ} {H : RegionCacheHook σ} {s s' : Engine σ}
  {free : List Nat} {live : Set Nat} {held held' : Set Region} {j : Nat} {d : LargeSlot}
  {region : Region} {backing : Option ExtentRef}

/-- A region was handed out and no allocation is on it. -/
structure Granted (s : Engine σ) (held : Set Region) (backing : Option ExtentRef) (region : Region) :
    Prop where
  ground : match backing with
    | some ext => s.largeExtents.map.Live ext.id ∧
      (s.largeExtents.map.slots ext.id).generation = ext.generation ∧
      s.largeExtents.map.span ext.id = region
    | none => region ∈ held
  vacant : s.Vacant region

theorem Granted.congr (granted : Granted s held backing region)
    (extents : s'.largeExtents = s.largeExtents) (entries : s'.pagemap.entries = s.pagemap.entries) :
    Granted s' held backing region := by
  obtain ⟨ground, vacant⟩ := granted
  constructor
  · rw [extents]
    exact ground
  · intro p here
    rw [entries]
    exact vacant p here

namespace Housed

section
variable (h : Housed G s free live held) {g : ExtentManager} {w : σ}
include h

/-- Other extents and another state of the world under the same allocations. -/
theorem reground (g : ExtentManager) (w : σ) (settled : g.map.Settled)
    (region : g.region = s.largeExtents.region) (same : SameRegion s.largeExtents.map g.map)
    (leased : G.Leased w held') (seated : ∀ j ∈ live, Seated g.map held' (s.large.slots j)) :
    Housed G { s with largeExtents := g, world := w } free live held' where
  pool := h.pool
  used := h.used
  settled := settled
  region := region.trans h.region
  base := same.base.trans h.base
  len := same.len.trans h.len
  leased := leased
  seated := seated
  pages := h.pages
  clean := h.clean

theorem rooted : s.largeExtents.map.regionBase = s.largeExtents.region.base := by
  rw [h.base, h.region]

/-- The extents changed but none that is live. -/
theorem sameLive (settled : g.map.Settled) (region : g.region = s.largeExtents.region)
    (same : SameLive s.largeExtents.map g.map) (leased : G.Leased w held) :
    Housed G { s with largeExtents := g, world := w } free live held := by
  refine h.reground g w settled region same.region leased fun j member => ?_
  have seated := h.seated j member
  exact seated.of_kept same.region (fun ext backed => same.kept _ (seated.live backed)) seated.lease

section
variable (sound : G.Sound E)
include sound

/-- What is handed out beside the allocations is granted. -/
theorem grant (handed : Handed s.largeExtents.map held backing region)
    (new : ∀ j ∈ live, (s.large.slots j).backing.map ExtentRef.id ≠ backing.map ExtentRef.id ∨
      (s.large.slots j).ground s.largeExtents.map ≠ region) : Granted s held backing region :=
  ⟨handed, h.vacant sound (fun _ here => h.footing.page sound handed here) fun j member _ inside =>
    h.footing.apart sound (h.handed member) handed (new j member) inside⟩

/-- A new extent is granted. -/
theorem carved {len : Nat} (settled : g.map.Settled) (region : g.region = s.largeExtents.region)
    (carved : Carved s.largeExtents.map g.map ext.id len align)
    (current : (g.map.slots ext.id).generation = ext.generation) (leased : G.Leased w held) :
    Housed G { s with largeExtents := g, world := w } free live held ∧
      Granted { s with largeExtents := g, world := w } held (some ext) (g.map.span ext.id) := by
  have housed : Housed G { s with largeExtents := g, world := w } free live held := by
    refine h.reground g w settled region carved.region leased fun j member => ?_
    have seated := h.seated j member
    exact seated.of_kept carved.region (fun r backed => carved.kept _ (seated.live backed)) seated.lease
  refine ⟨housed, housed.grant sound ⟨carved.live, current, rfl⟩ fun j member => .inl fun same => ?_⟩
  obtain ⟨r, backed, same⟩ := Option.map_eq_some_iff.mp same
  exact carved.fresh (same ▸ (h.seated j member).live backed)

/-- A region of the cache is granted. -/
theorem served (leased : G.Leased w (insert region held)) (fresh : region ∉ held) :
    Housed G { s with world := w } free live (insert region held) ∧
      Granted { s with world := w } (insert region held) none region := by
  have housed : Housed G { s with world := w } free live (insert region held) := by
    refine h.reground s.largeExtents w h.settled rfl .refl leased fun j member => ?_
    have seated := h.seated j member
    exact seated.of_kept .refl (fun _ _ => rfl) fun backed => .inr (seated.lease backed)
  refine ⟨housed, housed.grant sound (.inl rfl) fun j member => ?_⟩
  cases backed : (s.large.slots j).backing with
  | some r => exact .inl nofun
  | none =>
    rw [LargeSlot.ground_none backed]
    exact .inr fun same => fresh (same ▸ (h.seated j member).lease backed)

/-- No allocation is on granted memory. -/
theorem ground_ne (member : j ∈ live)
    (vacant : s.Vacant region) : (s.large.slots j).ground s.largeExtents.map ≠ region := by
  intro same
  have takes := h.takes member
  have pos := takes.pos (h.paged sound member)
  have inside : inPages (s.large.slots j).base (s.large.slots j).stop
      (pageOf (s.large.slots j).base) = true :=
    inPages_of_byte (Nat.le_refl _) (by simp only [LargeSlot.stop]; omega)
  have owned := (h.pages _ j).mpr ⟨member, inside⟩
  have none := vacant _ (same ▸ h.hasPage sound member inside)
  rw [owned] at none
  cases none

/-- A granted extent is freed. -/
theorem freed (granted : Granted s held (some ext) region) (settled : g.map.Settled)
    (same : g.region = s.largeExtents.region) (freed : Freed s.largeExtents.map g.map ext.id)
    (leased : G.Leased w held) : Housed G { s with largeExtents := g, world := w } free live held := by
  refine h.reground g w settled same freed.region leased fun j member => ?_
  have seated := h.seated j member
  refine seated.of_kept freed.region (fun r backed => ?_) seated.lease
  refine freed.kept _ (seated.live backed) fun equal => ?_
  apply h.ground_ne sound member granted.vacant
  rw [LargeSlot.ground_some backed, equal]
  exact granted.ground.2.2

/-- A granted region of the cache is given up. -/
theorem uncached (granted : Granted s held none region) (leased : G.Leased w (held \ {region})) :
    Housed G { s with world := w } free live (held \ {region}) := by
  refine h.reground s.largeExtents w h.settled rfl .refl leased fun j member => ?_
  have seated := h.seated j member
  refine seated.of_kept .refl (fun _ _ => rfl) fun backed => ⟨seated.lease backed, fun equal => ?_⟩
  apply h.ground_ne sound member granted.vacant
  rw [LargeSlot.ground_none backed]
  exact equal

end

theorem note (e : Event) : Housed G (s.note e) free live held := h.congr rfl rfl rfl h.leased

end

theorem noteRevoke_eq (arena : Nat) (r : Option Region) :
    ∃ history, s.noteRevoke E arena r = { s with history } := by
  unfold Engine.noteRevoke
  split
  · exact ⟨_, rfl⟩
  split
  · exact ⟨_, rfl⟩
  · exact ⟨_, rfl⟩

/-- What became of memory that was given back: the extent is free, unless its
revocation failed. -/
def Returned (s s' : Engine σ) (backing : Option ExtentRef) (revoke : Option Nat) (reclaimed : Bool) : Prop :=
  match backing with
  | some ext => Freed s.largeExtents.map s'.largeExtents.map ext.id ∨
    revoke.isSome = true ∧ reclaimed = false ∧ s'.largeExtents = s.largeExtents
  | none => s'.largeExtents = s.largeExtents

section
variable (h : Housed G s free live held)
include h

/-- Granted memory goes back. -/
theorem returnBacking (sound : G.Sound E) (honest : H.Honest G.Leased G.zone)
    (granted : Granted s held backing region) (same : backing = none → offered = region)
    (ran : s.returnBacking E H backing offered revoke canary = (reclaimed, s')) :
    (∃ held', Housed G s' free live held' ∧ (held' = held ∨ backing = none ∧ held' = held \ {region})) ∧
      s' = { s with largeExtents := s'.largeExtents, world := s'.world, history := s'.history } ∧
      Returned s s' backing revoke reclaimed := by
  cases backing with
  | some ext =>
    obtain ⟨extent, current, -⟩ := granted.ground
    have keeps := sound.keeps held
    cases revoke with
    | some arena =>
      obtain ⟨history, noted⟩ := noteRevoke_eq (s := s) (E := E) arena (s.largeExtents.regionOf ext)
      simp only [Engine.returnBacking, noted] at ran
      cases freeing : s.largeExtents.freeRevokingCanary E.provider s.world ext arena canary
          E.forcePurge with
      | mk answer rest =>
        obtain ⟨g, w⟩ := rest
        rw [freeing] at ran
        cases ran
        obtain ⟨same, idle⟩ := ExtentManager.freeRevokingCanary_frame freeing
        have leased := idle _ keeps h.leased
        obtain ⟨settled, ⟨err, rfl, rfl⟩ | ⟨-, -, -, freed⟩⟩ :=
          ExtentManager.freeRevokingCanary_effect h.settled freeing
        · exact ⟨⟨held, h.congr rfl rfl rfl leased, .inl rfl⟩, rfl, .inr ⟨rfl, rfl, rfl⟩⟩
        · have housed := h.freed sound granted settled same freed leased
          exact ⟨⟨held, housed.congr rfl rfl rfl leased, .inl rfl⟩, rfl, .inl freed⟩
    | none =>
      cases freeing : s.largeExtents.freeCanary E.provider s.world ext canary E.forcePurge with
      | mk answer rest =>
        obtain ⟨g, w⟩ := rest
        simp only [Engine.returnBacking, freeing] at ran
        cases ran
        obtain ⟨same, idle⟩ := ExtentManager.freeCanary_frame freeing
        have leased := idle _ keeps h.leased
        obtain ⟨settled, -⟩ := ExtentManager.freeCanary_effect h.settled freeing
        obtain ⟨-, freed⟩ := ExtentManager.freeCanary_live h.settled extent current freeing
        exact ⟨⟨held, h.freed sound granted settled same freed leased, .inl rfl⟩, rfl, .inl freed⟩
  | none =>
    obtain rfl := same rfl
    have leased := h.leased
    have mine : offered ∈ held := granted.ground
    cases revoke with
    | some arena =>
      have back : G.Leased (H.tryCacheRevoking s.world offered arena).2 _ := honest.revoked leased mine
      simp only [Engine.returnBacking] at ran
      split at ran
      · rename_i w asked
        rw [asked] at back
        cases ran
        exact ⟨⟨_, (h.uncached sound granted back).note _, .inr ⟨rfl, rfl⟩⟩, rfl, rfl⟩
      · rename_i w asked
        rw [asked] at back
        cases ran
        exact ⟨⟨_, h.congr rfl rfl rfl back, .inl rfl⟩, rfl, rfl⟩
    | none =>
      have back := honest.cached leased mine
      cases asked : H.tryCache s.world offered with
      | mk took w =>
        rw [asked] at back
        simp only [Engine.returnBacking, asked] at ran
        cases ran
        cases took with
        | true => exact ⟨⟨_, h.uncached sound granted back, .inr ⟨rfl, rfl⟩⟩, rfl, rfl⟩
        | false => exact ⟨⟨_, h.congr rfl rfl rfl back, .inl rfl⟩, rfl, rfl⟩

/-! ## Descriptors and pages -/

/-- A slot that is neither stacked nor live can be written. -/
theorem setIdle (idle : j ∉ live) (unstacked : j ∉ free)
    (d : LargeSlot) : Housed G (s.setLarge j d) free live held := by
  have other : ∀ i, i ≠ j → (s.setLarge j d).large.slots i = s.large.slots i := fun i ne =>
    update_of_ne ne _ _
  have ne : ∀ i ∈ live, i ≠ j := fun i member same => idle (same ▸ member)
  refine { h with pool := ?_, seated := ?_, pages := ?_ }
  · refine h.pool.congr fun i listed => ?_
    have away : i ≠ j := fun same => unstacked (same ▸ listed)
    rw [other i away]
  · intro i member
    rw [other i (ne i member)]
    exact h.seated i member
  · intro p i
    refine (h.pages p i).trans (and_congr_right fun member => ?_)
    rw [other i (ne i member)]

/-- A written slot becomes live when its pages, which were vacant, are its own. -/
theorem publish (used : s.UsedLarge free j) (idle : j ∉ live)
    (seated : Seated s.largeExtents.map held (s.large.slots j))
    (empty : ∀ p, inPages (s.large.slots j).base (s.large.slots j).stop p = true →
      s.pagemap.entries p = .empty)
    (large : s'.large = s.large) (extents : s'.largeExtents = s.largeExtents)
    (leased : G.Leased s'.world held) (entries : ∀ p, s'.pagemap.entries p =
      if inPages (s.large.slots j).base (s.large.slots j).stop p = true then .large j
      else s.pagemap.entries p) : Housed G s' free (insert j live) held := by
  obtain ⟨pool, usedAll, settled, region, base, len, -, seatedAll, pages, clean⟩ := h
  refine ⟨?_, ?_, ?_, ?_, ?_, ?_, leased, ?_, ?_, ?_⟩
  · rw [large]
    exact pool
  · rintro i (rfl | member)
    · simpa only [UsedLarge, large] using used
    · simpa only [UsedLarge, large] using usedAll i member
  · rw [extents]
    exact settled
  · rw [extents]
    exact region
  · rw [extents]
    exact base
  · rw [extents]
    exact len
  · rw [extents, large]
    rintro i (rfl | member)
    · exact seated
    · exact seatedAll i member
  · intro p i
    rw [entries p, large]
    split
    · rename_i inside
      constructor
      · intro same
        cases same
        exact ⟨.inl rfl, inside⟩
      · rintro ⟨rfl | member, within⟩
        · rfl
        · -- the page would have had an owner
          have owned := (pages p i).mpr ⟨member, within⟩
          rw [empty p inside] at owned
          cases owned
    · rename_i outside
      rw [pages p i]
      constructor
      · exact And.imp_left .inr
      · rintro ⟨rfl | member, within⟩
        · exact absurd within outside
        · exact ⟨member, within⟩
  · intro p ours
    rw [entries p]
    split
    · exact .inr ⟨j, rfl⟩
    · exact clean p ours

/-- Writing a descriptor for granted memory: its pages are published, or
nothing is. -/
theorem installLarge (sound : G.Sound E) (used : s.UsedLarge free j) (idle : j ∉ live)
    (granted : Granted s held d.backing region) (takes : d.Takes region)
    (plain : d.backing = none → d.guarded = false) (ran : s.installLarge E j d = (ok, s')) :
    s' = { s with world := s'.world, pagemap := s'.pagemap, large := s'.large,
                  largeQuarantined := s'.largeQuarantined, history := s'.history } ∧
      s'.large = { s.large with slots := update s.large.slots j { d with
        requested := d.usable, freeNext := (s.large.slots j).freeNext } } ∧
      (∀ p, s.pagemap.findLeaf p = true → s'.pagemap.findLeaf p = true) ∧
      (ok = false → s'.pagemap.entries = s.pagemap.entries ∧ Housed G s' free live held) ∧
      (ok = true → (∀ p, s'.pagemap.entries p =
          if inPages d.base d.stop p = true then .large j else s.pagemap.entries p) ∧
        Housed G s' free (insert j live) held) := by
  have paged := h.footing.paged sound granted.ground
  have empty : ∀ p, inPages d.base d.stop p = true → s.pagemap.entries p = .empty := by
    intro p inside
    obtain ⟨lower, upper⟩ := takes.within
    exact granted.vacant p (paged.hasPage lower upper inside)
  have seated : Seated s.largeExtents.map held d := by
    have ground := granted.ground
    cases backed : d.backing with
    | some ext =>
      rw [backed] at ground
      rw [LargeSlot.seated_some backed, ground.2.2]
      exact ⟨ground.1, ground.2.1, takes⟩
    | none =>
      rw [backed] at ground
      rw [LargeSlot.seated_none backed]
      have whole := takes
      simp only [LargeSlot.Takes, plain backed, Bool.false_eq_true, if_false] at whole
      rw [whole.1, whole.2]
      exact ⟨ground, plain backed⟩
  have written := h.setIdle idle used.2 { d with
    requested := d.usable, freeNext := (s.large.slots j).freeNext }
  simp only [Engine.installLarge] at ran
  split at ran
  · rename_i pagemap w published
    cases ran
    obtain ⟨asked, leaves, same, -⟩ := PageMap.publishRange_spec published
    refine ⟨rfl, rfl, leaves, fun _ => ⟨same rfl, ?_⟩, by rintro ⟨⟩⟩
    exact written.congr rfl rfl (same rfl) (asked.idle _ (sound.keeps held) h.leased)
  · rename_i pagemap w published
    cases ran
    obtain ⟨asked, leaves, -, entries, -⟩ := PageMap.publishRange_spec published
    have owners : ∀ p, pagemap.entries p =
        if inPages d.base d.stop p = true then .large j else s.pagemap.entries p := by
      intro p
      rw [entries rfl p]
      by_cases inside : inPages d.base d.stop p = true
      · have vacant : (s.setLarge j { d with
            requested := d.usable, freeNext := (s.large.slots j).freeNext }).pagemap.entries p =
            .empty := empty p inside
        rw [if_pos ⟨inside, .inl vacant⟩, if_pos inside]
      · rw [if_neg (fun both => inside both.1), if_neg inside]
        rfl
    refine ⟨rfl, rfl, leaves, by rintro ⟨⟩, fun _ => ⟨owners, ?_⟩⟩
    have self : (s.setLarge j { d with
        requested := d.usable, freeNext := (s.large.slots j).freeNext }).large.slots j =
        { d with requested := d.usable, freeNext := (s.large.slots j).freeNext } := update_self ..
    refine written.publish used idle ?_ ?_ rfl rfl (asked.idle _ (sound.keeps held) h.leased) ?_
    · rw [self]
      exact seated
    · rw [self]
      exact empty
    · rw [self]
      exact owners

/-- Emptying the pages of an allocation ends it; its memory is then granted to
no one. -/
theorem retire (sound : G.Sound E) (member : j ∈ live) (entries : ∀ p, m.entries p =
      if inPages (s.large.slots j).base (s.large.slots j).stop p = true then .empty
      else s.pagemap.entries p) :
    Housed G { s with pagemap := m } free (live \ {j}) held ∧
      Granted { s with pagemap := m } held (s.large.slots j).backing
        ((s.large.slots j).ground s.largeExtents.map) := by
  have housed : Housed G { s with pagemap := m } free (live \ {j}) held := by
    refine { h with used := ?_, seated := ?_, pages := ?_, clean := ?_ }
    · exact fun i kept => h.used i kept.1
    · exact fun i kept => h.seated i kept.1
    · intro p i
      show m.entries p = _ ↔ _
      rw [entries p]
      split
      · rename_i inside
        constructor
        · intro owned
          cases owned
        · rintro ⟨⟨kept, ne⟩, within⟩
          exact absurd (h.eq_of_page kept member within inside) ne
      · rename_i outside
        rw [h.pages p i]
        constructor
        · rintro ⟨old, within⟩
          refine ⟨⟨old, ?_⟩, within⟩
          rintro rfl
          exact outside within
        · exact fun ⟨kept, within⟩ => ⟨kept.1, within⟩
    · intro p ours
      show m.entries p = _ ∨ ∃ i, m.entries p = _
      rw [entries p]
      split
      · exact .inl rfl
      · exact h.clean p ours
  exact ⟨housed, housed.grant sound (h.handed member) fun i kept =>
    .inr fun same => kept.2 (h.eq_of_ground sound kept.1 member same)⟩

end

end Housed
end Engine
end Topomalloc
