import Topomalloc.Large.Ops

/-! What each call of the large allocator does to the allocations, whatever the
provider, the metadata source and the region cache answer. -/
namespace Topomalloc
open Function ExtentMap
namespace Engine
variable {σ : Type} {G : Grounds σ} {E : Env σ} {s s' s'' : Engine σ} {live : Set Nat}
  {held : Set Region} {j ptr : Nat} {d : LargeSlot} {region : Region} {backing : Option ExtentRef}
  {free : List Nat}

/-- Between calls: the slots in use are those that describe an allocation. -/
def Stands (G : Grounds σ) (s : Engine σ) (live : Set Nat) (held : Set Region) : Prop :=
  ∃ free, Housed G s free live held ∧ ∀ j, s.UsedLarge free j → j ∈ live

/-- Only the large allocator's side of the engine changed, and no byte was
written with anything that has a label. -/
structure LargeOnly (G : Grounds σ) (s s' : Engine σ) : Prop where
  rest : s' = { s with
    world := s'.world, pagemap := s'.pagemap, large := s'.large,
    largeQuarantined := s'.largeQuarantined, largeExtents := s'.largeExtents,
    guardProtectFailures := s'.guardProtectFailures, contents := s'.contents,
    memory := s'.memory, history := s'.history }
  entries : ∀ p, ¬G.Page p → s'.pagemap.entries p = s.pagemap.entries p
  leaves : ∀ p, s.pagemap.findLeaf p = true → s'.pagemap.findLeaf p = true
  memory : ∀ x, s'.memory x = s.memory x ∨ s'.memory x = none

theorem overwrite_fades (base len value x : Nat) :
    (s.overwrite base len value).memory x = s.memory x ∨ (s.overwrite base len value).memory x = none := by
  by_cases inside : base ≤ x ∧ x < base + len
  · exact .inr (if_pos inside)
  · exact .inl (if_neg inside)

namespace LargeOnly

theorem refl : LargeOnly G s s := ⟨rfl, fun _ _ => rfl, fun _ leaf => leaf, fun _ => .inl rfl⟩

theorem trans (h : LargeOnly G s s') (h' : LargeOnly G s' s'') : LargeOnly G s s'' := by
  refine ⟨?_, fun p away => (h'.entries p away).trans (h.entries p away),
    fun p leaf => h'.leaves p (h.leaves p leaf), fun x => ?_⟩
  · rw [h'.rest, h.rest]
  · rcases h'.memory x with same | gone
    · rw [same]
      exact h.memory x
    · exact .inr gone

/-- No page changed its owner, and no byte its content. -/
theorem of_entries (rest : s' = { s with
      world := s'.world, pagemap := s'.pagemap, large := s'.large,
      largeQuarantined := s'.largeQuarantined, largeExtents := s'.largeExtents,
      guardProtectFailures := s'.guardProtectFailures, history := s'.history })
    (entries : s'.pagemap.entries = s.pagemap.entries)
    (leaves : ∀ p, s.pagemap.findLeaf p = true → s'.pagemap.findLeaf p = true) : LargeOnly G s s' := by
  have memory : s'.memory = s.memory := by rw [rest]
  refine ⟨?_, fun p _ => by rw [entries], leaves, fun x => .inl (by rw [memory])⟩
  rw [rest]

theorem overwrite (base len value : Nat) : LargeOnly G s (s.overwrite base len value) :=
  ⟨rfl, fun _ _ => rfl, fun _ leaf => leaf, overwrite_fades base len value⟩

theorem wipe (base len : Nat) : LargeOnly G s (s.wipe base len) := overwrite base len 0

end LargeOnly

/-- The allocations, their pages and their extents are as before. -/
structure Unmoved (s s' : Engine σ) (live : Set Nat) : Prop where
  slots : ∀ j ∈ live, s'.large.slots j = s.large.slots j
  entries : s'.pagemap.entries = s.pagemap.entries
  extents : SameLive s.largeExtents.map s'.largeExtents.map

/-! ## Placing a descriptor on granted memory -/

/-- No slot describes the granted memory, and the allocations are as before. -/
structure Unplaced (G : Grounds σ) (s s' : Engine σ) (live : Set Nat) (held : Set Region)
    (backing : Option ExtentRef) (region : Region) : Prop where
  stands : Stands G s' live held
  granted : Granted s' held backing region
  only : LargeOnly G s s'
  slots : ∀ j ∈ live, s'.large.slots j = s.large.slots j
  entries : s'.pagemap.entries = s.pagemap.entries
  extents : s'.largeExtents = s.largeExtents

/-- Slot `j` describes the granted memory, and its pages are published. -/
structure Placed (G : Grounds σ) (s s' : Engine σ) (live : Set Nat) (held : Set Region) (j : Nat)
    (d : LargeSlot) : Prop where
  fresh : j ∉ live
  stands : Stands G s' (insert j live) held
  only : LargeOnly G s s'
  slots : ∀ i ∈ live, s'.large.slots i = s.large.slots i
  slot : ∃ link, s'.large.slots j = { d with requested := d.usable, freeNext := link }

section
variable (stands : Stands G s live held)
include stands

theorem Stands.unplaced (granted : Granted s held backing region) : Unplaced G s s live held backing region :=
  ⟨stands, granted, .refl, fun _ _ => rfl, rfl, rfl⟩

/-- The slot that was taken is published, or goes back. -/
theorem Stands.place (sound : G.Sound E) (granted : Granted s held d.backing region)
    (takes : d.Takes region) (plain : d.backing = none → d.guarded = false)
    (taken : s.acquireLarge = (some j, s₁)) (ran : s₁.installLarge E j d = (ok, s₂)) :
    if ok then Placed G s s₂ live held j d
    else Unplaced G s (s₂.releaseLarge j) live held d.backing region := by
  obtain ⟨free, h, full⟩ := stands
  obtain ⟨free', housed, frame, slots, used, idle, users⟩ := h.acquireLarge full taken
  have extents : s₁.largeExtents = s.largeExtents := by rw [frame]
  have pagemap : s₁.pagemap = s.pagemap := by rw [frame]
  obtain ⟨frame', large, leaves, undone, done⟩ := housed.installLarge sound used idle
    (granted.congr extents (by rw [pagemap])) takes plain ran
  rw [pagemap] at leaves undone done
  have extents' : s₂.largeExtents = s.largeExtents := by
    rw [frame']
    exact extents
  have same : ∀ i, s₂.UsedLarge free' i ↔ s₁.UsedLarge free' i := fun i => by
    rw [UsedLarge, UsedLarge, large]
  have ne : ∀ i ∈ live, i ≠ j := fun i member same => idle (same ▸ member)
  cases ok with
  | false =>
    obtain ⟨entries, housed'⟩ := undone rfl
    refine ⟨⟨j :: free', housed'.releaseLarge ((same j).mpr used) idle, ?_⟩,
      granted.congr extents' entries, ?_, ?_, entries, extents'⟩
    · rintro i ⟨below, unlisted⟩
      simp only [List.mem_cons, not_or] at unlisted
      exact (users i ((same i).mp ⟨below, unlisted.2⟩)).resolve_right unlisted.1
    · refine LargeOnly.of_entries ?_ entries leaves
      simp only [Engine.releaseLarge, setLarge]
      rw [frame', frame]
    · intro i member
      simp [Engine.releaseLarge, setLarge, large, slots, ne i member]
  | true =>
    obtain ⟨entries, housed'⟩ := done rfl
    refine ⟨idle, ⟨free', housed', fun i usedI => (users i ((same i).mp usedI)).symm⟩,
      ⟨?_, fun p away => ?_, leaves, fun x => .inl ?_⟩, fun i member => ?_,
      (s₁.large.slots j).freeNext, ?_⟩
    · rw [frame', frame]
    · rw [entries p, if_neg fun inside => away (housed'.page_of_large sound (j := j) ?_)]
      rw [entries p, if_pos inside]
    · rw [frame', frame]
    · rw [large]
      simp [ne i member, slots]
    · rw [large]
      exact update_self ..

/-! ## Allocation -/

/-- A request was not served: the allocations are as before, and what the cache
had handed out for it was offered back. -/
structure Refused (G : Grounds σ) (s s' : Engine σ) (live : Set Nat) (held : Set Region) : Prop where
  stands : ∃ held', Stands G s' live held' ∧ (held' = held ∨ ∃ r, held' = insert r held)
  only : LargeOnly G s s'
  slots : ∀ j ∈ live, s'.large.slots j = s.large.slots j
  entries : s'.pagemap.entries = s.pagemap.entries

/-- A request was served by slot `j`: one allocation more. -/
structure Added (G : Grounds σ) (s s' : Engine σ) (live : Set Nat) (held : Set Region) (j : Nat) : Prop where
  fresh : j ∉ live
  stands : ∃ held', Stands G s' (insert j live) held' ∧ held ⊆ held'
  only : LargeOnly G s s'
  slots : ∀ i ∈ live, s'.large.slots i = s.large.slots i
  requested : (s'.large.slots j).requested = (s'.large.slots j).usable

theorem Stands.wipe : Stands G (s.wipe base len) live held := by
  obtain ⟨free, housed, full⟩ := stands
  exact ⟨free, housed.congr rfl rfl rfl housed.leased, full⟩

/-- Granted memory goes back whole. -/
theorem Stands.giveBack (sound : G.Sound E)
    (honest : H.Honest G.Leased G.zone) (granted : Granted s held backing region)
    (ran : s.returnBacking E H backing region none false = (reclaimed, s')) :
    (∃ held', Stands G s' live held' ∧ (held' = held ∨ backing = none ∧ held' = held \ {region})) ∧
      LargeOnly G s s' ∧ s'.large = s.large ∧ s'.pagemap = s.pagemap ∧
      Housed.Returned s s' backing none true := by
  obtain ⟨free, h, full⟩ := stands
  obtain ⟨⟨held', housed, kept⟩, frame, returned⟩ := h.returnBacking sound honest granted (fun _ => rfl) ran
  have large : s'.large = s.large := by rw [frame]
  have pagemap : s'.pagemap = s.pagemap := by rw [frame]
  refine ⟨⟨held', ⟨free, housed, fun i used => ?_⟩, kept⟩, ?_, large, pagemap, ?_⟩
  · exact full i (by simpa only [UsedLarge, large] using used)
  · refine .of_entries ?_ (by rw [pagemap]) fun p leaf => by rw [pagemap]; exact leaf
    rw [frame]
  · unfold Housed.Returned at returned ⊢
    cases backing with
    | some ext => exact .inl (returned.resolve_right fun failed => by cases failed.1)
    | none => exact returned

/-- `allocate_with_in` serves the request with at least the bytes asked for at
the alignment asked for, or leaves everything as it was. -/
theorem Stands.allocateWithIn (sound : G.Sound E) {arena : Nat}
    (ran : s.allocateWithIn E arena bytes align hints zero = (answer, s')) :
    match answer with
    | none => Refused G s s' live held ∧ SameLive s.largeExtents.map s'.largeExtents.map
    | some ptr => ∃ j, Added G s s' live held j ∧ (s'.large.slots j).base = ptr ∧
        (s'.large.slots j).arena = arena ∧ bytes ≤ (s'.large.slots j).usable ∧ align ∣ ptr ∧
        (s'.large.slots j).guarded = false := by
  obtain ⟨free, h, full⟩ := stands
  unfold Engine.allocateWithIn at ran
  split at ran
  · rename_i err g w obtained
    cases ran
    obtain ⟨region, settled, ⟨_, -, same, leased⟩ | ⟨_, _, impossible, -⟩ | ⟨_, _, _, impossible, -⟩⟩ :=
      ExtentManager.allocLarge_grants sound.honest (sound.keeps held) h.settled h.rooted h.leased obtained
    · have housed := h.sameLive settled region same leased
      exact ⟨⟨⟨held, ⟨free, housed, full⟩, .inl rfl⟩, .of_entries rfl rfl fun _ leaf => leaf,
        fun _ _ => rfl, rfl⟩, same⟩
    · cases impossible
    · cases impossible
  rename_i region backing prov g w obtained
  -- the memory is granted, and giving it back undoes that
  have grant : ∃ held₁, Housed G { s with largeExtents := g, world := w } free live held₁ ∧
      Granted { s with largeExtents := g, world := w } held₁ backing region ∧ held ⊆ held₁ ∧
      bytes ≤ region.len ∧ align ∣ region.base ∧
      (∀ held', (held' = held₁ ∨ backing = none ∧ held' = held₁ \ {region}) →
        held' = held ∨ ∃ r, held' = insert r held) ∧
      ∀ t : Engine σ, Housed.Returned { s with largeExtents := g, world := w } t backing none true →
        SameLive s.largeExtents.map t.largeExtents.map := by
    obtain ⟨same, settled, ⟨_, impossible, -⟩ | ⟨r, _, eq, rfl, leased, fresh, long, aligned⟩ |
        ⟨ext, _, needed, eq, up, carved, current, leased⟩⟩ :=
      ExtentManager.allocLarge_grants sound.honest (sound.keeps held) h.settled h.rooted h.leased obtained
    · cases impossible
    · cases eq
      obtain ⟨housed, granted⟩ := h.served sound leased fresh
      refine ⟨_, housed, granted, Set.subset_insert _ _, long, aligned, ?_, ?_⟩
      · rintro held' (rfl | ⟨-, rfl⟩)
        · exact .inr ⟨_, rfl⟩
        · exact .inl (by rw [Set.insert_sdiff_self_of_notMem fresh])
      · intro t returned
        have same : t.largeExtents = s.largeExtents := returned
        rw [same]
        exact .refl
    · cases eq
      obtain ⟨housed, granted⟩ := h.carved sound settled same carved current leased
      obtain ⟨-, atLeast, -⟩ := alignUp_spec pageSize_pos up
      refine ⟨_, housed, granted, Set.Subset.refl _, ?_, carved.aligned, ?_, ?_⟩
      · show bytes ≤ (g.map.slots ext.id).len
        rw [carved.len]
        exact atLeast
      · rintro held' (rfl | ⟨impossible, -⟩)
        · exact .inl rfl
        · cases impossible
      · rintro t (freed | ⟨impossible, -⟩)
        · exact carved.freed freed
        · cases impossible
  obtain ⟨held₁, housed, granted, more, long, aligned, back, undone⟩ := grant
  have stands₁ : Stands G { s with largeExtents := g, world := w } live held₁ := ⟨free, housed, full⟩
  have only : LargeOnly G s { s with largeExtents := g, world := w } := .of_entries rfl rfl fun _ leaf => leaf
  have takes : LargeSlot.Takes { arena, base := region.base, usable := region.len, backing } region := by
    simp [LargeSlot.Takes]
  have refused : ∀ {t : Engine σ},
      Unplaced G { s with largeExtents := g, world := w } t live held₁ backing region →
      Refused G s (t.returnBacking E E.hook backing region none false).2 live held ∧ SameLive
        s.largeExtents.map (t.returnBacking E E.hook backing region none false).2.largeExtents.map := by
    intro t unplaced
    obtain ⟨⟨held', stands, kept⟩, only', large, pagemap, returned⟩ :=
      unplaced.stands.giveBack sound sound.honest unplaced.granted Prod.mk.eta.symm
    refine ⟨⟨⟨held', stands, back held' kept⟩, (only.trans unplaced.only).trans only', ?_, ?_⟩, ?_⟩
    · rw [large]
      exact unplaced.slots
    · rw [pagemap]
      exact unplaced.entries
    · refine undone _ ?_
      unfold Housed.Returned at returned ⊢
      rw [unplaced.extents] at returned
      exact returned
  dsimp only at ran
  split at ran
  · rename_i s₁ taken
    obtain rfl := Housed.acquireLarge_none taken
    cases ran
    exact refused (stands₁.unplaced granted)
  rename_i j s₁ taken
  split at ran
  · rename_i s₂ failed
    cases ran
    exact refused (stands₁.place sound granted takes (fun _ => rfl) taken failed)
  · rename_i s₂ made
    cases ran
    obtain ⟨fresh, stands, only', slots, link, slot⟩ :=
      stands₁.place sound granted takes (fun _ => rfl) taken made
    have zeroed : ∀ clear : Bool,
        let t := if clear = true then s₂.wipe region.base region.len else s₂
        t.large = s₂.large ∧ LargeOnly G s₂ t ∧ Stands G t (insert j live) held₁ := by
      rintro (_ | _)
      · exact ⟨rfl, .refl, stands⟩
      · exact ⟨rfl, .wipe _ _, stands.wipe⟩
    obtain ⟨large, only'', stands'⟩ := zeroed (zero || prov.zeroed)
    refine ⟨j, ⟨fresh, ⟨held₁, stands', more⟩, (only.trans only').trans only'', ?_, ?_⟩, ?_⟩
    · rw [large]
      exact slots
    · rw [large, slot]
    · rw [large, slot]
      exact ⟨rfl, rfl, long, aligned, rfl⟩

end

/-! ## Guarded allocation -/

/-- Only the state of the world changed, and not by the region cache, with the
count of refusals. -/
def Reworlded (E : Env σ) (s s' : Engine σ) : Prop :=
  ∃ w n, s' = { s with world := w, guardProtectFailures := n } ∧ E.Idle s.world w

theorem Reworlded.trans (h : Reworlded E s s') (h' : Reworlded E s' s'') : Reworlded E s s'' := by
  obtain ⟨w, n, rfl, idle⟩ := h
  obtain ⟨w', n', rfl, idle'⟩ := h'
  exact ⟨w', n', rfl, idle.trans idle'⟩

theorem Reworlded.refl : Reworlded E s s := ⟨s.world, s.guardProtectFailures, rfl, .refl⟩

theorem Reworlded.count : Reworlded E s s.countRefusal := ⟨s.world, _, rfl, .refl⟩

theorem Reworlded.only (h : Reworlded E s s') : LargeOnly G s s' := by
  obtain ⟨w, n, rfl, -⟩ := h
  exact .of_entries rfl rfl fun _ leaf => leaf

theorem Housed.reworld (h : Housed G s free live held) (sound : G.Sound E)
    (world : Reworlded E s s') : Housed G s' free live held := by
  obtain ⟨w, n, rfl, idle⟩ := world
  exact h.congr rfl rfl rfl (idle _ (sound.keeps held) h.leased)

/-- A call ended in this state because the provider would not make guard pages
accessible again. -/
def Stuck (E : Env σ) (s' : Engine σ) : Prop :=
  ∃ (t : Engine σ) (lead trail : Nat), t.restoreGuards E lead trail = (false, s')

/-- The extents are as they were, or one stays allocated because its guards are stuck. -/
def Withholds (E : Env σ) (s s' : Engine σ) : Prop :=
  SameLive s.largeExtents.map s'.largeExtents.map ∨
    Stuck E s' ∧ ∃ id len, Carved s.largeExtents.map s'.largeExtents.map id len pageSize

theorem protectRange_reworlded (addr len : Nat) (accessible : Bool) :
    Reworlded E s (s.protectRange E addr len accessible).2 :=
  ⟨_, _, rfl, .ofProtect Prod.mk.eta.symm⟩

theorem restoreGuards_reworlded (lead trail : Nat) : Reworlded E s (s.restoreGuards E lead trail).2 := by
  have restored : Reworlded E s ((s.protectRange E lead pageSize true).2.protectRange E trail
      pageSize true).2 :=
    (protectRange_reworlded lead pageSize true).trans (protectRange_reworlded trail pageSize true)
  unfold restoreGuards
  dsimp only
  split
  · exact restored
  · exact restored.trans .count

theorem armGuards_reworlded (lead trail : Nat) : Reworlded E s (s.armGuards E lead trail).2 := by
  have armed : Reworlded E s ((s.protectRange E lead pageSize false).2.protectRange E trail
      pageSize false).2 :=
    (protectRange_reworlded lead pageSize false).trans (protectRange_reworlded trail pageSize false)
  -- undoing one of the two is again a call that changes the world only
  have undo : ∀ (t : Engine σ) (took : Bool) (addr : Nat), Reworlded E t (if took = true then
      (!(t.protectRange E addr pageSize true).1, (t.protectRange E addr pageSize true).2)
      else (false, t)).2 := by
    intro t took addr
    split
    · exact protectRange_reworlded addr pageSize true
    · exact .refl
  unfold armGuards
  dsimp only
  split
  · exact armed
  · exact ((armed.trans .count).trans (undo _ _ _)).trans (undo _ _ _)

/-- The granted extent of a guarded allocation goes back, or is withheld because
a guard could not be made accessible again. -/
theorem Stands.restoreAndFree (stands : Stands G s live held) (sound : G.Sound E)
    (granted : Granted s held (some ext) region)
    (ran : s.restoreAndFree E lead trail (some ext) region = s') :
    Stands G s' live held ∧ LargeOnly G s s' ∧ s'.large = s.large ∧ s'.pagemap = s.pagemap ∧
      (Freed s.largeExtents.map s'.largeExtents.map ext.id ∨
        Stuck E s' ∧ s'.largeExtents = s.largeExtents) := by
  obtain ⟨free, h, full⟩ := stands
  have world := restoreGuards_reworlded (E := E) (s := s) lead trail
  unfold Engine.restoreAndFree at ran
  split at ran
  · rename_i s₁ refused
    obtain rfl := ran
    rw [refused] at world
    have stuck : Stuck E s₁ := ⟨s, lead, trail, refused⟩
    have housed := h.reworld sound world
    obtain ⟨w, n, rfl, -⟩ := world
    exact ⟨⟨free, housed, full⟩, .of_entries rfl rfl fun _ leaf => leaf, rfl, rfl, .inr ⟨stuck, rfl⟩⟩
  · rename_i s₁ restored
    obtain rfl := ran
    rw [restored] at world
    have housed := h.reworld sound world
    have only : LargeOnly G s s₁ := world.only
    obtain ⟨w, n, rfl, -⟩ := world
    obtain ⟨⟨held', stands, kept⟩, only', large, pagemap, returned⟩ :=
      Stands.giveBack ⟨free, housed, full⟩ sound sound.honest.decline (granted.congr rfl rfl)
        Prod.mk.eta.symm
    obtain rfl | ⟨impossible, -⟩ := kept
    · refine ⟨stands, only.trans only', large, pagemap, .inl ?_⟩
      exact returned.resolve_right fun failed => by cases failed.1
    · cases impossible

/-- `allocate_guarded` serves the request at the end of the pages between two
guards, or leaves everything as it was; only an extent whose guards cannot be
made accessible again stays allocated. -/
theorem Stands.allocateGuarded (stands : Stands G s live held) (sound : G.Sound E) {arena : Nat}
    (ran : s.allocateGuarded E arena size align = (answer, s')) :
    match answer with
    | none => Refused G s s' live held ∧ Withholds E s s'
    | some ptr => ∃ j, Added G s s' live held j ∧ (s'.large.slots j).base = ptr ∧
        (s'.large.slots j).arena = arena ∧
        alignUp (max size 1) (max align 1) = some (s'.large.slots j).usable ∧
        (align ∣ pageSize → align ∣ ptr) ∧ (s'.large.slots j).guarded = true := by
  obtain ⟨free, h, full⟩ := stands
  have refused : Refused G s s live held ∧ Withholds E s s :=
    ⟨⟨⟨held, ⟨free, h, full⟩, .inl rfl⟩, .refl, fun _ _ => rfl, rfl⟩, .inl .refl⟩
  unfold Engine.allocateGuarded at ran
  rcases rounded : alignUp (max size 1) (max align 1) with _ | usable
  · simp only [rounded] at ran
    cases ran
    exact refused
  rcases total : checkedMul ((max size 1 + pageSize - 1) / pageSize + 2) pageSize with _ | totalBytes
  · simp only [rounded, total] at ran
    cases ran
    exact refused
  simp only [rounded, total] at ran
  by_cases fits : usable > totalBytes - 2 * pageSize
  · rw [if_pos fits] at ran
    cases ran
    exact refused
  rw [if_neg fits] at ran
  rcases obtained : s.largeExtents.allocLarge E.provider (noRegionCache σ) s.world totalBytes
      pageSize {} with ⟨answer₁, g, w⟩
  rw [obtained] at ran
  obtain ⟨same, settled, ⟨err, rfl, kept, leased⟩ | ⟨r, _, rfl, -⟩ |
      ⟨ext, prov, needed, rfl, up, carved, current, leased⟩⟩ :=
    ExtentManager.allocLarge_grants sound.honest.decline (sound.keeps held) h.settled h.rooted h.leased
      obtained
  · cases ran
    have housed := h.sameLive settled same kept leased
    exact ⟨⟨⟨held, ⟨free, housed, full⟩, .inl rfl⟩, .of_entries rfl rfl fun _ leaf => leaf,
      fun _ _ => rfl, rfl⟩, .inl kept⟩
  · exact absurd rfl (ExtentManager.allocLarge_uncached obtained)
  obtain ⟨housed₁, granted₁⟩ := h.carved sound settled same carved current leased
  have only₁ : LargeOnly G s { s with largeExtents := g, world := w } :=
    .of_entries rfl rfl fun _ leaf => leaf
  dsimp only at ran
  generalize objects : (max size 1 + pageSize - 1) / pageSize = pages at total ran
  generalize leading : (g.map.span ext.id).base = lead at ran
  obtain ⟨rfl, -⟩ := checkedMul_eq_some.mp total
  have length : (g.map.span ext.id).len = (pages + 2) * pageSize :=
    carved.len.trans (alignUp_eq_of_dvd pageSize_pos (Nat.dvd_mul_left ..) up)
  obtain ⟨multiple, atLeast, -⟩ := alignUp_spec (by omega) rounded
  have room : usable ≤ pages * pageSize := by
    rw [Nat.add_mul] at fits
    omega
  have world := armGuards_reworlded (E := E) (s := { s with largeExtents := g, world := w }) lead
    (lead + (pages + 1) * pageSize)
  rcases armed : armGuards E { s with largeExtents := g, world := w } lead
    (lead + (pages + 1) * pageSize) with ⟨needsRestore, s₁⟩
  rw [armed] at ran world
  have housed := housed₁.reworld sound world
  have only : LargeOnly G s s₁ := only₁.trans world.only
  obtain ⟨w₁, n, rfl, -⟩ := world
  have granted : Granted { s with largeExtents := g, world := w₁, guardProtectFailures := n } held
    (some ext) (g.map.span ext.id) := granted₁.congr rfl rfl
  have takes : LargeSlot.Takes
      { arena := arena, base := lead + (pages + 1) * pageSize - usable, usable := usable,
        backing := some ext, guarded := true, guardArmed := needsRestore } (g.map.span ext.id) := by
    simp only [LargeSlot.Takes, LargeSlot.stop, if_true, leading, length, Nat.add_mul] at room ⊢
    omega
  have stands₁ : Stands G { s with largeExtents := g, world := w₁, guardProtectFailures := n } live
    held := ⟨free, housed, full⟩
  -- the extent that was carved is free again, or is the one that is withheld
  have refused : ∀ {t : Engine σ}, Unplaced G { s with
        largeExtents := g, world := w₁, guardProtectFailures := n } t live held (some ext)
        (g.map.span ext.id) →
      let t' := t.restoreAndFree E lead (lead + (pages + 1) * pageSize) (some ext) (g.map.span ext.id)
      Refused G s t' live held ∧ Withholds E s t' := by
    intro t unplaced
    obtain ⟨stands, only', large, pagemap, extents⟩ :=
      unplaced.stands.restoreAndFree sound unplaced.granted rfl
    rw [unplaced.extents] at extents
    refine ⟨⟨⟨held, stands, .inl rfl⟩, (only.trans unplaced.only).trans only', ?_, ?_⟩, ?_⟩
    · rw [large]
      exact unplaced.slots
    · rw [pagemap]
      exact unplaced.entries
    · rcases extents with freed | ⟨stuck, same⟩
      · exact .inl (carved.freed freed)
      · exact .inr ⟨stuck, ext.id, needed, same ▸ carved⟩
  dsimp only at ran
  split at ran
  · rename_i s₂ taken
    obtain rfl := Housed.acquireLarge_none taken
    cases ran
    exact refused (stands₁.unplaced granted)
  rename_i j s₂ taken
  split at ran
  · rename_i s₃ failed
    cases ran
    exact refused (stands₁.place sound granted takes (by rintro ⟨⟩) taken failed)
  · rename_i s₃ made
    cases ran
    obtain ⟨fresh, stands, only', slots, link, slot⟩ :=
      stands₁.place sound granted takes (by rintro ⟨⟩) taken made
    refine ⟨j, ⟨fresh, ⟨held, stands, Set.Subset.refl _⟩, only.trans only', slots, ?_⟩, ?_⟩
    · rw [slot]
    · rw [slot]
      refine ⟨rfl, rfl, rfl, fun divides => ?_, rfl⟩
      have based : pageSize ∣ lead := leading ▸ (settled.paged carved.live).base
      have pos : 0 < align := Nat.pos_of_dvd_of_pos divides pageSize_pos
      rw [Nat.max_eq_left pos] at multiple
      refine Nat.dvd_sub (Nat.dvd_add (divides.trans based) ?_) multiple
      exact divides.trans (Nat.dvd_mul_left ..)

/-! ## Freeing -/

/-- The pointer is the base of a live allocation. -/
def IsLarge (s : Engine σ) (live : Set Nat) (j ptr : Nat) : Prop := j ∈ live ∧ (s.large.slots j).base = ptr

theorem largeAt_eq_some : s.largeAt ptr = some j ↔ s.pagemap.entries (pageOf ptr) = .large j := by
  unfold largeAt
  rw [PageMap.lookup_eq]
  split <;> simp_all

/-- The page of its base leads to an allocation. -/
theorem Housed.largeAt (h : Housed G s free live held)
    (sound : G.Sound E) (here : s.IsLarge live j ptr) : s.largeAt ptr = some j := by
  obtain ⟨member, rfl⟩ := here
  have pos := (h.takes member).pos (h.paged sound member)
  rw [largeAt_eq_some, h.pages]
  exact ⟨member, inPages_of_byte (Nat.le_refl _) (by simp only [LargeSlot.stop]; omega)⟩

theorem Housed.isLarge (h : Housed G s free live held) (found : s.largeAt ptr = some j)
    (based : ptr = (s.large.slots j).base) : s.IsLarge live j ptr :=
  ⟨((h.pages _ j).mp (largeAt_eq_some.mp found)).1, based.symm⟩

/-- What became of the memory of slot `j`: its extent is free again, unless it was not
reclaimed. -/
def Ended (s s' : Engine σ) (j : Nat) (reclaimed : Bool) : Prop :=
  match (s.large.slots j).backing with
  | some ext => Freed s.largeExtents.map s'.largeExtents.map ext.id ∨
    reclaimed = false ∧ s'.largeExtents = s.largeExtents
  | none => s'.largeExtents = s.largeExtents

/-- One allocation is gone. -/
structure Dropped (G : Grounds σ) (s s' : Engine σ) (live : Set Nat) (j : Nat) (reclaimed : Bool) : Prop where
  stands : ∃ held', Stands G s' (live \ {j}) held'
  only : LargeOnly G s s'
  slots : ∀ i ∈ live, i ≠ j → s'.large.slots i = s.large.slots i
  entries : ∀ p, s'.pagemap.entries p =
    if inPages (s.large.slots j).base (s.large.slots j).stop p = true then .empty
    else s.pagemap.entries p
  extents : Ended s s' j reclaimed

theorem disarm_reworlded (d : LargeSlot) : Reworlded E s (s.disarm E d).2 := by
  unfold disarm
  split
  · exact restoreGuards_reworlded _ _
  · exact .refl

/-- The pages are empty, the slot is back, and the memory is no one's. -/
theorem Housed.retireLarge (h : Housed G s free live held) (sound : G.Sound E)
    (full : ∀ j, s.UsedLarge free j → j ∈ live) (member : j ∈ live) :
    Housed G (s.retireLarge j) (j :: free) (live \ {j}) held ∧
      (∀ i, (s.retireLarge j).UsedLarge (j :: free) i → i ∈ live \ {j}) ∧
      Granted (s.retireLarge j) held (s.large.slots j).backing ((s.large.slots j).ground s.largeExtents.map) ∧
      LargeOnly G s (s.retireLarge j) ∧
      (∀ i ∈ live, i ≠ j → (s.retireLarge j).large.slots i = s.large.slots i) ∧
      ∀ p, (s.retireLarge j).pagemap.entries p =
        if inPages (s.large.slots j).base (s.large.slots j).stop p = true then .empty
        else s.pagemap.entries p := by
  have entries := PageMap.overwriteRange_empty s.pagemap (s.large.slots j).base (s.large.slots j).stop
  obtain ⟨housed, granted⟩ := h.retire sound member entries
  have idle : j ∉ live \ {j} := fun kept => kept.2 rfl
  refine ⟨(housed.releaseLarge (h.used j member) idle).note _, ?_, granted.congr rfl rfl, ?_, ?_, entries⟩
  · rintro i ⟨below, unlisted⟩
    simp only [List.mem_cons, not_or] at unlisted
    exact ⟨full i ⟨below, unlisted.2⟩, unlisted.1⟩
  · refine ⟨rfl, fun p away => ?_, fun _ leaf => leaf, fun _ => .inl rfl⟩
    refine (entries p).trans (if_neg fun inside => away ?_)
    exact h.page_of_large sound ((h.pages p j).mpr ⟨member, inside⟩)
  · intro i _ ne
    simp [Engine.retireLarge, Engine.releaseLarge, setLarge, Engine.note, ne]

theorem destroyBytes_eq (d : LargeSlot) (scrub : Bool) :
    ∃ contents memory, s.destroyBytes E d scrub = { s with contents, memory } ∧
      (∀ x, memory x = s.memory x ∨ memory x = none) ∧
      (scrub = true → ∀ x, d.base ≤ x → x < d.stop → memory x = none) := by
  unfold destroyBytes
  split
  · exact ⟨_, _, rfl, overwrite_fades _ _ 0, fun _ x lower upper => if_pos ⟨lower, upper⟩⟩
  · rename_i plain
    unfold Engine.fill
    split
    · exact ⟨_, _, rfl, overwrite_fades _ _ freePattern, fun scrubbed => absurd scrubbed plain⟩
    · exact ⟨_, _, rfl, fun _ => .inl rfl, fun scrubbed => absurd scrubbed plain⟩

/-- `free_inner` acts on the base of a live allocation only, and ends that one. -/
theorem Stands.freeInner (stands : Stands G s live held) (sound : G.Sound E)
    (ran : s.freeInner E ptr revoke scrub = ((retired, reclaimed), s')) :
    if retired then ptr ≠ 0 ∧ ∃ j, s.IsLarge live j ptr ∧ Dropped G s s' live j reclaimed ∧
        (scrub = true → ∀ x, (s.large.slots j).base ≤ x → x < (s.large.slots j).stop → s'.memory x = none)
      else s' = s ∧ reclaimed = false ∧ ∀ j, s.IsLarge live j ptr → ptr = 0 := by
  obtain ⟨free, h, full⟩ := stands
  unfold Engine.freeInner at ran
  split at ran
  · rename_i nothing
    cases ran
    refine ⟨rfl, rfl, fun j here => ?_⟩
    rw [h.largeAt sound here] at nothing
    cases nothing
  rename_i j found
  dsimp only at ran
  split at ran
  · rename_i wrong
    cases ran
    refine ⟨rfl, rfl, fun k here => ?_⟩
    have same := h.largeAt sound here
    rw [found] at same
    cases same
    exact wrong.resolve_right fun other => other here.2.symm
  rename_i right
  simp only [not_or, not_not] at right
  have here := h.isLarge found right.2
  obtain ⟨housed, full₁, granted, only, slots, entries⟩ := h.retireLarge sound full here.1
  have extents : (s.retireLarge j).largeExtents = s.largeExtents := rfl
  generalize s.retireLarge j = t at *
  have world := disarm_reworlded (E := E) (s := t) (s.largeSlot j)
  rcases disarmed : t.disarm E (s.largeSlot j) with ⟨restored, t₁⟩
  rw [disarmed] at ran world
  dsimp only at ran
  have housed₁ := housed.reworld sound world
  obtain ⟨w, n, rfl, -⟩ := world
  obtain ⟨contents, memory, destroyed, fades, gone⟩ :=
    destroyBytes_eq (E := E) (s := { t with world := w, guardProtectFailures := n }) (s.largeSlot j) scrub
  rw [destroyed] at ran
  have housed₂ : Housed G { t with world := w, guardProtectFailures := n, contents, memory }
      (j :: free) (live \ {j}) held := housed₁.congr rfl rfl rfl housed₁.leased
  have only₂ : LargeOnly G s { t with world := w, guardProtectFailures := n, contents, memory } :=
    only.trans ⟨rfl, fun _ _ => rfl, fun _ leaf => leaf, fades⟩
  split at ran
  · rcases returning : Engine.returnBacking E { t with world := w, guardProtectFailures := n, contents, memory }
        E.hook (s.largeSlot j).backing ⟨(s.largeSlot j).base, (s.largeSlot j).usable⟩ revoke
        (!scrub && E.junkFill && !(s.largeSlot j).guarded) with ⟨back, t₂⟩
    rw [returning] at ran
    cases ran
    have granted₂ : Granted { t with world := w, guardProtectFailures := n, contents, memory }
      held (s.large.slots j).backing ((s.large.slots j).ground s.largeExtents.map) := granted.congr rfl rfl
    obtain ⟨⟨held', housed₃, -⟩, frame, returned⟩ := housed₂.returnBacking sound sound.honest granted₂
      (fun backed => (LargeSlot.ground_none backed).symm) returning
    have large : t₂.large = t.large := by rw [frame]
    have pagemap : t₂.pagemap = t.pagemap := by rw [frame]
    have bytes : t₂.memory = memory := by rw [frame]
    refine ⟨right.1, j, here, ⟨⟨held', j :: free, housed₃, ?_⟩, ?_, ?_, ?_, ?_⟩, ?_⟩
    · intro i usedI
      exact full₁ i (by simpa only [UsedLarge, large] using usedI)
    · refine only₂.trans (.of_entries ?_ (by rw [pagemap]) fun p leaf => by rw [pagemap]; exact leaf)
      rw [frame]
    · intro i old ne
      rw [large]
      exact slots i old ne
    · intro p
      rw [pagemap]
      exact entries p
    · unfold Housed.Returned at returned
      unfold Ended
      cases backed : (s.large.slots j).backing with
      | some ext =>
        rw [backed] at returned
        rw [extents] at returned
        exact returned.imp_right And.right
      | none =>
        rw [backed] at returned
        exact returned.trans extents
    · rw [bytes]
      exact gone
  · cases ran
    refine ⟨right.1, j, here, ⟨⟨held, j :: free, housed₂, full₁⟩, only₂, slots, entries, ?_⟩, gone⟩
    unfold Ended
    split
    · exact .inr ⟨rfl, extents⟩
    · exact extents

end Engine
end Topomalloc
