import Topomalloc.Hooks.Registry

/-! Isolation of hooked arenas.

Memory is carved out of a handful of reservations: the metadata, the two shared
ones, and two for each registered backing. Which addresses a hook answers with is
its own affair, so that reservations are disjoint is an assumption about what
the hooks answer; the registry itself only compares the two answers it got for one
arena. Within one reservation the ledger of `Extent.Ledger` keeps outstanding
extents apart. -/
namespace Topomalloc
open Function

/-- A range that ends within the address space. -/
def Region.Addressable (r : Region) : Prop := r.base + r.len ≤ usizeMax

instance (r : Region) : Decidable r.Addressable := inferInstanceAs (Decidable (_ ≤ _))

namespace Region
variable {r r' s : Region}

theorem Apart.symm (apart : r.Apart r') : r'.Apart r := Or.symm apart

/-- Parts of disjoint ranges are disjoint. -/
theorem Apart.within {t : Region} (apart : r.Apart r') (low : r.base ≤ t.base)
    (high : t.base + t.len ≤ r.base + r.len) (low' : r'.base ≤ t'.base)
    (high' : t'.base + t'.len ≤ r'.base + r'.len) : t.Apart t' := by
  rcases apart with before | after
  · exact .inl (by omega)
  · exact .inr (by omega)

/-- The comparison of the ends is exact for ranges that do not wrap. -/
theorem rangesDisjoint_iff (inside : r.Addressable) (inside' : r'.Addressable) :
    rangesDisjoint r r' = true ↔ r.Apart r' := by
  have word : r.base + r.len < 2 ^ 64 := by
    unfold Addressable usizeMax at inside
    omega
  have word' : r'.base + r'.len < 2 ^ 64 := by
    unfold Addressable usizeMax at inside'
    omega
  simp only [rangesDisjoint, wrappingAdd64, Nat.mod_eq_of_lt word, Nat.mod_eq_of_lt word', Bool.or_eq_true,
    decide_eq_true_eq]
  rfl

end Region

/-! ## One holding -/

/-- Outstanding extents are live extents of the map, which lies in the reservation. -/
structure Holding.Sound (x : Holding) : Prop where
  settled : x.mgr.map.Settled
  tracks : x.ledger.Tracks x.mgr.map
  base : x.mgr.map.regionBase = x.mgr.region.base
  len : x.mgr.map.regionLen ≤ x.mgr.region.len

/-- The memory of an outstanding extent. -/
def Holding.Grants (x : Holding) (r : ExtentRef) (e : Extent) : Prop :=
  x.ledger r ≠ none ∧ x.mgr.map.resolve r = some e

def Extent.range (e : Extent) : Region := ⟨e.base, e.len⟩

namespace Holding
variable {σ : Type} {x : Holding} {r r' : ExtentRef} {e e' : Extent}

theorem operate_region (P : Provider σ) (x : Holding) (w : σ) (op : ExtentOp) :
    (HookHost.operate P x w op).1.mgr.region = x.mgr.region :=
  x.mgr.step_region P (noRegionCache σ) w op

theorem Sound.operate (sound : x.Sound) (P : Provider σ) (w : σ) (op : ExtentOp) :
    (HookHost.operate P x w op).1.Sound := by
  have kept := ExtentManager.step_keeps sound.settled sound.tracks
    (rfl : x.mgr.step P (noRegionCache σ) w op = _)
  have region := operate_region P x w op
  refine ⟨kept.settled, kept.tracks, ?_, ?_⟩
  · exact kept.region.base.trans (sound.base.trans (congrArg Region.base region.symm))
  · exact (kept.region.len.trans_le sound.len).trans (congrArg Region.len region.symm).le

/-- An outstanding extent lies in the reservation. -/
theorem Sound.within (sound : x.Sound) (granted : x.Grants r e) :
    x.mgr.region.base ≤ e.range.base ∧ e.range.base + e.range.len ≤ x.mgr.region.base + x.mgr.region.len := by
  obtain ⟨grant, held⟩ := Option.ne_none_iff_exists'.mp granted.1
  obtain ⟨e', found, -, -, low, high, -⟩ := (sound.tracks.agrees sound.settled).granted r grant held
  obtain rfl := Option.some.inj (found.symm.trans granted.2)
  have base := sound.base
  have len := sound.len
  simp only [Extent.range]
  omega

theorem Sound.apart (sound : x.Sound) (granted : x.Grants r e) (granted' : x.Grants r' e') (ne : r ≠ r') :
    e.range.Apart e'.range :=
  (sound.tracks.agrees sound.settled).disjoint r r' e e' granted.1 granted'.1 ne granted.2 granted'.2

end Holding

variable {taken : List Region}

theorem ExtentHooks.reserve_some {H : ExtentHooks σ}
    (ran : H.reserve w size align = (some (region, live), w', taken)) :
    taken = [region] ∧ size ≤ region.len := by
  unfold reserve at ran
  have reserved := HookProvider.reserve_reserved H {} w size align
  generalize HookProvider.reserve H {} w size align = a at ran reserved
  obtain ⟨answer, provider, w₁, deallocs⟩ := a
  cases reserved with
  | refused answer => cases answer; cases ran
  | rejected _ answer => cases answer; cases ran
  | accepted _ answer _ _ _ long =>
    cases answer
    cases ran
    exact ⟨rfl, long⟩

namespace HookExtents
variable {σ : Type} {B : HookEnv σ} {H : ExtentHooks σ} {w w' : σ} {x : HookExtents σ} {granted : Bool}
  {arena size slotCap : Nat} {taken : List Region}

theorem reserve_sound {len : Nat} (ran : reserve B H w granted arena len slotCap = (some x, w', taken)) :
    x.Sound ∧ taken = [x.mgr.region] := by
  unfold reserve at ran
  split at ran
  · cases ran
  rename_i region live w₁ taken₁ reserved
  obtain ⟨rfl, fits⟩ := ExtentHooks.reserve_some reserved
  split at ran
  · cases ran
  rename_i mgr made
  cases ran
  obtain ⟨settled, tracks⟩ := ExtentManager.new_settled made
  obtain ⟨-, base, long⟩ := ExtentManager.new_region made
  exact ⟨⟨settled, tracks, base, long.trans_le fits⟩, rfl⟩

theorem new_sound (ran : new B H w granted arena size slotCap = (some x, w', taken)) :
    x.Sound ∧ taken = [x.mgr.region] := by
  unfold new at ran
  split at ran
  · cases ran
  · exact reserve_sound ran

end HookExtents

/-! ## The registry -/

/-- Where a reservation is held. -/
inductive Place
  | metadata
  | shared (large : Bool)
  | hooked (slot : Nat) (large : Bool)
  deriving DecidableEq, Repr

namespace HookHost
variable {σ : Type} {B : HookEnv σ} {s s' : HookHost σ} {id : Nat} {b : HookBackend σ}
  {p : ArenaPolicy} {arenas t : ArenaTable}

/-- The extents carved from the reservation at a place. -/
def holding (s : HookHost σ) : Place → Option Holding
  | .metadata => none
  | .shared large => some (s.shared large)
  | .hooked i large => (s.slots i).map fun b => (b.extents large).toHolding

def region (s : HookHost σ) : Place → Option Region
  | .metadata => some s.metadata
  | place => (s.holding place).map fun x => x.mgr.region

/-- Every holding is sound and no two reservations meet. -/
structure Isolated (s : HookHost σ) : Prop where
  sound : ∀ place x, s.holding place = some x → x.Sound
  apart : ∀ p p' r r', p ≠ p' → s.region p = some r → s.region p' = some r' → r.Apart r'

/-- Every holding of the second state was there in the first, over the same
reservation, and no less sound. -/
structure Shrinks (s s' : HookHost σ) : Prop where
  metadata : s'.metadata = s.metadata
  held : ∀ place x', s'.holding place = some x' → ∃ x, s.holding place = some x ∧
    (x.Sound → x'.Sound) ∧ x'.mgr.region = x.mgr.region

namespace Shrinks

theorem of_eq (metadata : s'.metadata = s.metadata) (shared : s'.shared = s.shared)
    (slots : s'.slots = s.slots) : Shrinks s s' where
  metadata
  held place x' held := by
    refine ⟨x', ?_, id, rfl⟩
    cases place <;> simpa only [holding, shared, slots] using held

theorem trans (first : Shrinks s s') (second : Shrinks s' s'') : Shrinks s s'' where
  metadata := second.metadata.trans first.metadata
  held place x'' held := by
    obtain ⟨x', held', sound', region'⟩ := second.held place x'' held
    obtain ⟨x, held, sound, region⟩ := first.held place x' held'
    exact ⟨x, held, sound' ∘ sound, region'.trans region⟩

theorem sound (shrinks : Shrinks s s') (sound : ∀ place x, s.holding place = some x → x.Sound) :
    ∀ place x, s'.holding place = some x → x.Sound := by
  intro place x' held
  obtain ⟨x, held, kept, -⟩ := shrinks.held place x' held
  exact kept (sound place x held)

theorem region (shrinks : Shrinks s s') (at' : s'.region place = some r) : s.region place = some r := by
  have carved : ∀ p, (s'.holding p).map (fun x => x.mgr.region) = some r →
      (s.holding p).map (fun x => x.mgr.region) = some r := by
    intro p found
    obtain ⟨x', held, rfl⟩ := Option.map_eq_some_iff.mp found
    obtain ⟨x, held, -, region⟩ := shrinks.held p x' held
    rw [held, Option.map_some, region]
  cases place with
  | metadata => exact (congrArg some shrinks.metadata.symm).trans at'
  | shared large => exact carved (.shared large) at'
  | hooked i large => exact carved (.hooked i large) at'

theorem isolated (shrinks : Shrinks s s') (isolated : s.Isolated) : s'.Isolated where
  sound := shrinks.sound isolated.sound
  apart p p' r r' ne found found' :=
    isolated.apart p p' r r' ne (shrinks.region found) (shrinks.region found')

end Shrinks

theorem extents_setExtents (b : HookBackend σ) (large other : Bool) (x : HookExtents σ) :
    (b.setExtents large x).extents other = if other = large then x else b.extents other := by
  cases large <;> cases other <;> rfl

/-- One operation changes one holding, and not its reservation. -/
theorem shrinks_use (arena : Nat) (large : Bool) (op : ExtentOp) : Shrinks s (s.use B arena large op) := by
  unfold use
  split
  · refine ⟨rfl, fun place x' held => ?_⟩
    cases place with
    | metadata => cases held
    | shared other =>
      by_cases same : other = large
      · subst same
        obtain rfl := Option.some.inj held
        refine ⟨_, rfl, fun sound => ?_, ?_⟩
        · simpa using sound.operate B.shared s.world op
        · simp [Holding.operate_region]
      · refine ⟨x', ?_, id, rfl⟩
        simpa [holding, same] using held
    | hooked i other => exact ⟨x', held, id, rfl⟩
  · rename_i i routed
    split
    · exact .of_eq rfl rfl rfl
    rename_i b registered
    refine ⟨rfl, fun place x' held => ?_⟩
    cases place with
    | metadata => cases held
    | shared other => exact ⟨x', held, id, rfl⟩
    | hooked j other =>
      by_cases here : j = i
      · subst here
        simp only [holding, update_self, Option.map_some, extents_setExtents, Option.some.injEq] at held
        by_cases same : other = large
        · subst same
          rw [if_pos rfl] at held
          subst held
          refine ⟨(b.extents other).toHolding, by simp [holding, registered], fun sound => ?_, ?_⟩
          · exact sound.operate (b.extents other).hooks.provider s.world op
          · exact Holding.operate_region (b.extents other).hooks.provider (b.extents other).toHolding s.world op
        · rw [if_neg same] at held
          subst held
          exact ⟨_, by simp [holding, registered], id, rfl⟩
      · refine ⟨x', ?_, id, rfl⟩
        simpa [holding, here] using held

theorem shrinks_foldl (arena : Nat) (work : List (Bool × ExtentOp)) :
    Shrinks s (work.foldl (fun s (large, op) => s.use B arena large op) s) := by
  induction work generalizing s with
  | nil => exact .of_eq rfl rfl rfl
  | cons first rest ih =>
    obtain ⟨large, op⟩ := first
    exact (shrinks_use arena large op).trans ih

theorem shrinks_teardown (arena : Nat) : Shrinks s (s.teardown arena).2 := by
  unfold teardown
  split
  · exact .of_eq rfl rfl rfl
  split
  · exact .of_eq rfl rfl rfl
  rename_i i _
  split
  · exact .of_eq rfl rfl rfl
  refine ⟨rfl, fun place x' held => ⟨x', ?_, id, rfl⟩⟩
  cases place with
  | metadata => cases held
  | shared large => exact held
  | hooked j large =>
    by_cases here : j = i
    · subst here
      simp [holding] at held
    · simpa [holding, here] using held

theorem shrinks_finish (arena : Nat) (returned : Bool) : Shrinks s (s.finish arena returned).2 := by
  unfold finish
  split
  · exact .of_eq rfl rfl rfl
  · split
    · exact .of_eq rfl rfl rfl
    · exact .of_eq rfl rfl rfl

theorem shrinks_destroy (arena : Nat) (work : List (Bool × ExtentOp)) (drained : Bool) :
    Shrinks s (s.destroy B arena work drained).2 := by
  unfold destroy
  split
  · exact .of_eq rfl rfl rfl
  rename_i arenas begun
  have start : Shrinks s { s with arenas } := .of_eq rfl rfl rfl
  have worked := start.trans (shrinks_foldl (B := B) arena work)
  cases drained with
  | true => exact (worked.trans (shrinks_teardown arena)).trans (shrinks_finish arena _)
  | false => exact worked.trans (shrinks_finish arena false)

/-! ## Creation -/

/-- Nothing of another arena, and no reservation, is changed. -/
structure Untouched (s s' : HookHost σ) : Prop where
  metadata : s'.metadata = s.metadata
  shared : s'.shared = s.shared
  slots : s'.slots = s.slots
  count : s'.count = s.count
  arenas : ∀ a, s.arenas.isRegistered a = true →
    s'.arenas.slots a = s.arenas.slots a ∧ s'.hookSlot a = s.hookSlot a

/-- The arena table of a run is one its own operations reach. -/
def Governed (t : ArenaTable) : Prop := ∃ ch, t.Sound ch

theorem Governed.after {α : Type} {answered : Except ArenaError α × ArenaTable} (sound : t.Sound ch)
    (outcome : t.Outcome answered (·.Sound ch')) : Governed answered.2 := by
  rcases outcome with ⟨e, rfl⟩ | ⟨v, t', rfl, kept⟩
  · exact ⟨ch, sound⟩
  · exact ⟨ch', kept⟩

/-- The id a pending arena gets was not in use, and only its slot is written. -/
theorem createPending_ok {t' : ArenaTable} (governed : Governed t) (ran : t.createPending p = (.ok id, t')) :
    t.isRegistered id = false ∧ id < maxArenas ∧ (t'.slots id).state = .initializing ∧
      ∀ a, a ≠ id → t'.slots a = t.slots a := by
  obtain ⟨ch, sound⟩ := governed
  unfold ArenaTable.createPending ArenaTable.createLockedInner at ran
  split at ran
  · cases ran
  rcases ArenaTable.claimSlot_cases sound.unused sound.bounded with
    ⟨e, refused⟩ | ⟨a, highWater, claimed, vacant, room, -, bounded⟩
  · rw [refused] at ran
    cases ran
  · rw [claimed] at ran
    cases ran
    have inside : id < maxArenas := room.trans_le bounded
    refine ⟨?_, inside, ?_, fun a other => ?_⟩
    · simp [ArenaTable.isRegistered, ArenaTable.slot, inside, vacant]
    · simp [ArenaTable.set, ArenaTable.incarnate]
    · simp [ArenaTable.set, other]

/-- A pending arena that is given up leaves no trace on the others. -/
theorem untouched_abandon
    (governed : Governed s.arenas) (ran : s.arenas.createPending p = (.ok id, arenas)) (world : σ) :
    Untouched s (abandon { s with arenas, world, hookSlot := update s.hookSlot id 0 } id) := by
  obtain ⟨vacant, inside, starting, others⟩ := createPending_ok governed ran
  refine ⟨rfl, rfl, rfl, rfl, fun a registered => ?_⟩
  have other : a ≠ id := by
    rintro rfl
    exact absurd registered (by simp [vacant])
  refine ⟨?_, ?_⟩
  · simp [abandon, ArenaTable.abandonPending, ArenaTable.slot, inside, starting, ArenaTable.set, other,
      others a other]
  · simp [abandon, other]

/-- A pending arena is published. -/
theorem publish_pending (inside : id < maxArenas)
    (starting : (t.slots id).state = .initializing) : ∃ t', t.publish id = (.ok (), t') := by
  simp [ArenaTable.publish, ArenaTable.slot, inside, starting]

theorem governed_abandon (governed : Governed s.arenas)
    (ran : s.arenas.createPending p = (.ok id, arenas)) : Governed (arenas.abandonPending id).2 := by
  obtain ⟨ch, sound⟩ := governed
  obtain ⟨ch', pending⟩ := Governed.after sound (sound.createPending p)
  rw [ran] at pending
  exact .after pending (pending.abandonPending id)

/-- Registering a backing for a pending arena fails and leaves no trace, or enters
the backing in a free slot. -/
theorem register_cases (governed : Governed s.arenas)
    (pending : s.arenas.createPending p = (.ok id, arenas)) (world : σ) (b : HookBackend σ) :
    (∃ e s', register { s with arenas, world, hookSlot := update s.hookSlot id 0 } id b = (.error e, s') ∧
      Untouched s s' ∧ Governed s'.arenas) ∨
    ∃ i s', register { s with arenas, world, hookSlot := update s.hookSlot id 0 } id b = (.ok id, s') ∧
      s'.metadata = s.metadata ∧ s'.shared = s.shared ∧ s'.slots = update s.slots i (some b) ∧
      Governed s'.arenas := by
  obtain ⟨-, inside, starting, -⟩ := createPending_ok governed pending
  obtain ⟨published, done⟩ := publish_pending inside starting
  unfold register
  split
  · exact .inl ⟨_, _, rfl, untouched_abandon governed pending _, governed_abandon governed pending⟩
  dsimp only
  rw [done]
  refine .inr ⟨_, _, rfl, rfl, rfl, rfl, ?_⟩
  obtain ⟨ch, sound⟩ := governed
  obtain ⟨ch', pended⟩ := Governed.after sound (sound.createPending p)
  rw [pending] at pended
  have kept := Governed.after pended (pended.publish id)
  rwa [done] at kept

/-- What a create does: it fails and touches nothing else, or it enters the backing
it built in a free slot. -/
theorem createHooked_cases (governed : Governed s.arenas) (p : ArenaPolicy) (H : ExtentHooks σ)
    (cfg : RegionConfig) (granted : PoolsGranted) :
    (∃ e s' taken, s.createHooked B p H cfg granted = (.error e, s', taken) ∧ Untouched s s' ∧
      Governed s'.arenas) ∨
    ∃ id i b w w' s' taken, s.createHooked B p H cfg granted = (.ok id, s', taken) ∧
      buildBackend B w id H cfg granted = (some b, w', taken) ∧
      s'.metadata = s.metadata ∧ s'.shared = s.shared ∧ s'.slots = update s.slots i (some b) ∧
      Governed s'.arenas := by
  unfold createHooked
  split
  · rename_i e arenas refused
    obtain ⟨ch, sound⟩ := governed
    have same : arenas = s.arenas := by
      rcases sound.createPending p with ⟨e', kept⟩ | ⟨v, t', kept, -⟩
      · rw [kept] at refused
        exact (Prod.mk.inj refused).2.symm
      · rw [kept] at refused
        cases refused
    subst same
    exact .inl ⟨_, _, _, rfl, ⟨rfl, rfl, rfl, rfl, fun a _ => ⟨rfl, rfl⟩⟩, ch, sound⟩
  rename_i id arenas pending
  dsimp only
  split
  · exact .inl ⟨_, _, _, rfl, untouched_abandon governed pending _, governed_abandon governed pending⟩
  rename_i b world taken built
  rcases register_cases governed pending world b with ⟨e, s', ran, same, kept⟩ | ⟨i, s', ran, rest⟩
  · rw [ran]
    exact .inl ⟨e, s', taken, rfl, same, kept⟩
  · rw [ran]
    exact .inr ⟨id, i, b, s.world, world, s', taken, rfl, built, rest⟩

theorem buildLarge_sound (built : buildLarge B w id H cfg granted span = (some b, w', taken)) :
    b.span = span ∧ b.large.Sound ∧ taken = [b.large.mgr.region] ∧
      rangesDisjoint b.span.mgr.region b.large.mgr.region = true := by
  unfold buildLarge at built
  split at built
  · cases built
  rename_i large w₁ taken₁ made
  obtain ⟨sound, rfl⟩ := HookExtents.new_sound made
  split at built
  · cases built
  split at built
  · rename_i disjoint
    cases built
    exact ⟨rfl, sound, rfl, disjoint⟩
  · cases built

theorem buildBackend_sound (built : buildBackend B w id H cfg granted = (some b, w', taken)) :
    (∀ large, (b.extents large).Sound) ∧ taken = [b.span.mgr.region, b.large.mgr.region] ∧
      rangesDisjoint b.span.mgr.region b.large.mgr.region = true := by
  unfold buildBackend at built
  split at built
  · cases built
  rename_i span w₁ taken₁ made
  obtain ⟨sound, rfl⟩ := HookExtents.new_sound made
  rcases rest : buildLarge B w₁ id H cfg granted span with ⟨backend, w₂, taken₂⟩
  rw [rest] at built
  cases built
  obtain ⟨rfl, sound', rfl, disjoint⟩ := buildLarge_sound rest
  refine ⟨fun large => ?_, rfl, disjoint⟩
  cases large
  · exact sound
  · exact sound'

theorem shrinks_create (p : ArenaPolicy) : Shrinks s (s.create p).2 := by
  unfold create
  split
  · exact .of_eq rfl rfl rfl
  · exact .of_eq rfl rfl rfl

theorem governed_create (governed : Governed s.arenas) (p : ArenaPolicy) : Governed (s.create p).2.arenas := by
  obtain ⟨ch, sound⟩ := governed
  have kept := Governed.after sound (sound.create p)
  unfold create
  split
  · rename_i answered
    rwa [answered] at kept
  · rename_i answered
    rwa [answered] at kept

theorem use_arenas (arena : Nat) (large : Bool) (op : ExtentOp) :
    (s.use B arena large op).arenas = s.arenas := by
  unfold use
  split
  · rfl
  split
  · rfl
  · rfl

theorem foldl_arenas (arena : Nat) (work : List (Bool × ExtentOp)) :
    (work.foldl (fun s (large, op) => s.use B arena large op) s).arenas = s.arenas := by
  induction work generalizing s with
  | nil => rfl
  | cons first rest ih =>
    obtain ⟨large, op⟩ := first
    exact ih.trans (use_arenas arena large op)

theorem teardown_arenas (arena : Nat) : (s.teardown arena).2.arenas = s.arenas := by
  unfold teardown
  split
  · rfl
  split
  · rfl
  split
  · rfl
  · rfl

theorem governed_finish (governed : Governed s.arenas) (arena : Nat) (returned : Bool) :
    Governed (s.finish arena returned).2.arenas := by
  obtain ⟨ch, sound⟩ := governed
  unfold finish
  split
  · exact .after sound (sound.finishDestroy arena)
  · have kept := Governed.after sound (sound.quarantine arena)
    split
    · rename_i answered
      rwa [answered] at kept
    · rename_i answered
      rwa [answered] at kept

theorem governed_destroy (governed : Governed s.arenas) (arena : Nat) (work : List (Bool × ExtentOp))
    (drained : Bool) : Governed (s.destroy B arena work drained).2.arenas := by
  obtain ⟨ch, sound⟩ := governed
  have begun := Governed.after sound (sound.beginDestroy arena)
  unfold destroy
  split
  · rename_i answered
    rwa [answered] at begun
  rename_i arenas answered
  rw [answered] at begun
  have kept := (congrArg Governed (foldl_arenas (B := B) (s := { s with arenas }) arena work)).mpr begun
  cases drained with
  | true => exact governed_finish ((congrArg Governed (teardown_arenas arena)).mpr kept) arena _
  | false => exact governed_finish kept arena false

/-! ## Runs -/

/-- A call, with everything outside the allocator that decides how it ends. -/
inductive Call (σ : Type)
  | create (p : ArenaPolicy)
  | createHooked (p : ArenaPolicy) (H : ExtentHooks σ) (cfg : RegionConfig) (granted : PoolsGranted)
  | destroy (arena : Nat) (work : List (Bool × ExtentOp)) (drained : Bool)
  | use (arena : Nat) (large : Bool) (op : ExtentOp)

def after (B : HookEnv σ) (s : HookHost σ) : Call σ → HookHost σ
  | .create p => (s.create p).2
  | .createHooked p H cfg granted => (s.createHooked B p H cfg granted).2.1
  | .destroy arena work drained => (s.destroy B arena work drained).2
  | .use arena large op => s.use B arena large op

/-- The hooks a call consults answer with ranges of addresses that meet no
reservation in use. -/
def Clear (B : HookEnv σ) (s : HookHost σ) : Call σ → Prop
  | .createHooked p H cfg granted => ∀ r ∈ (s.createHooked B p H cfg granted).2.2,
      r.Addressable ∧ ∀ place r', s.region place = some r' → r.Apart r'
  | _ => True

/-- A state a run of allowed calls reaches. -/
inductive Reached (B : HookEnv σ) (start : HookHost σ) (allowed : HookHost σ → Call σ → Prop) :
    HookHost σ → Prop
  | start : Reached B start allowed start
  | step {s : HookHost σ} {call : Call σ} : Reached B start allowed s → allowed s call →
      Reached B start allowed (s.after B call)

/-- No arena but the default one, and nothing allocated; what the system reserved
for the metadata and the shared extents is disjoint. -/
structure Opened (s : HookHost σ) : Prop where
  arenas : s.arenas = .new
  slots : ∀ i, s.slots i = none
  shared : ∀ large, (∃ metaOk slotBytes region arena slotCap policy,
    ExtentManager.new metaOk slotBytes region arena slotCap policy = some (s.shared large).mgr) ∧
    (s.shared large).ledger = fun _ => none
  apart : ∀ p p' r r', p ≠ p' → s.region p = some r → s.region p' = some r' → r.Apart r'

theorem Opened.isolated (opened : s.Opened) : s.Isolated := by
  refine ⟨fun place x held => ?_, opened.apart⟩
  cases place with
  | metadata => cases held
  | shared large =>
    obtain rfl := Option.some.inj held
    obtain ⟨⟨metaOk, slotBytes, region, arena, slotCap, policy, made⟩, ledger⟩ := opened.shared large
    obtain ⟨settled, tracks⟩ := ExtentManager.new_settled made
    obtain ⟨whole, base, len⟩ := ExtentManager.new_region made
    refine ⟨settled, ledger ▸ tracks, ?_, ?_⟩
    · rw [base, whole]
    · rw [len, whole]
  | hooked i large => simp [holding, opened.slots] at held

theorem Opened.governed (opened : s.Opened) : Governed s.arenas := by
  rw [opened.arenas]
  exact ⟨_, ArenaTable.sound_new⟩

/-- The places of the state after a backing was registered. -/
theorem holding_registered (shared : s'.shared = s.shared)
    (slots : s'.slots = update s.slots i (some b)) (place : Place) :
    (∃ large, place = .hooked i large ∧ s'.holding place = some (b.extents large).toHolding) ∨
      s'.holding place = s.holding place := by
  cases place with
  | metadata => exact .inr rfl
  | shared large => exact .inr (by simp [holding, shared])
  | hooked j large =>
    by_cases here : j = i
    · subst here
      exact .inl ⟨large, rfl, by simp [holding, slots]⟩
    · exact .inr (by simp [holding, slots, here])

/-- The holdings stay sound whatever the hooks answer. -/
theorem sound_after (governed : Governed s.arenas) (sound : ∀ place x, s.holding place = some x → x.Sound)
    (call : Call σ) :
    Governed (s.after B call).arenas ∧ ∀ place x, (s.after B call).holding place = some x → x.Sound := by
  cases call with
  | create p => exact ⟨governed_create governed p, (shrinks_create p).sound sound⟩
  | createHooked p H cfg granted =>
    simp only [after]
    rcases createHooked_cases (B := B) governed p H cfg granted with ⟨e, s', taken, ran, same, kept⟩ |
      ⟨id, i, b, w, w', s', taken, ran, built, metadata, shared, slots, kept⟩
    · rw [ran]
      exact ⟨kept, (Shrinks.of_eq same.metadata same.shared same.slots).sound sound⟩
    · rw [ran]
      refine ⟨kept, fun place x held => ?_⟩
      rcases holding_registered shared slots place with ⟨large, -, own⟩ | other
      · obtain rfl := Option.some.inj (own.symm.trans held)
        exact (buildBackend_sound built).1 large
      · exact sound place x (other.symm.trans held)
  | destroy arena work drained =>
    exact ⟨governed_destroy governed arena work drained,
      (shrinks_destroy (B := B) arena work drained).sound sound⟩
  | use arena large op =>
    refine ⟨?_, (shrinks_use (B := B) arena large op).sound sound⟩
    exact (use_arenas (B := B) (s := s) arena large op).symm ▸ governed

theorem Reached.sound {start : HookHost σ} (opened : start.Opened) (reached : Reached B start allowed s) :
    Governed s.arenas ∧ ∀ place x, s.holding place = some x → x.Sound := by
  induction reached with
  | start => exact ⟨opened.governed, opened.isolated.sound⟩
  | step _ _ ih => exact sound_after ih.1 ih.2 _

/-- Registering a backing whose two reservations are clear of the others. -/
theorem Isolated.register (isolated : s.Isolated) {i : Nat} (metadata : s'.metadata = s.metadata)
    (shared : s'.shared = s.shared) (slots : s'.slots = update s.slots i (some b))
    (sound : ∀ large, (b.extents large).Sound) (own : b.span.mgr.region.Apart b.large.mgr.region)
    (clear : ∀ large place r, s.region place = some r → (b.extents large).mgr.region.Apart r) :
    s'.Isolated := by
  have placed : ∀ place r, s'.region place = some r →
      (∃ large, place = .hooked i large ∧ r = (b.extents large).mgr.region) ∨ s.region place = some r := by
    intro place r found
    cases place with
    | metadata => exact .inr ((congrArg some metadata.symm).trans found)
    | shared large => exact .inr (by simpa [region, holding, shared] using found)
    | hooked j large =>
      rcases holding_registered shared slots (.hooked j large) with ⟨_, ⟨⟩, here⟩ | other
      · refine .inl ⟨large, rfl, ?_⟩
        simpa [region, here] using found.symm
      · exact .inr (by simpa [region, other] using found)
  refine ⟨fun place x held => ?_, fun p p' r r' ne found found' => ?_⟩
  · rcases holding_registered shared slots place with ⟨large, -, here⟩ | other
    · obtain rfl := Option.some.inj (here.symm.trans held)
      exact sound large
    · exact isolated.sound place x (other.symm.trans held)
  · rcases placed p r found with ⟨large, rfl, rfl⟩ | before
    · rcases placed p' r' found' with ⟨large', rfl, rfl⟩ | before'
      · -- the two reservations of the new backing
        cases large <;> cases large'
        · exact absurd rfl ne
        · exact own
        · exact own.symm
        · exact absurd rfl ne
      · exact clear large p' r' before'
    · rcases placed p' r' found' with ⟨large', rfl, rfl⟩ | before'
      · exact (clear large' p r before).symm
      · exact isolated.apart p p' r r' ne before before'

theorem Isolated.after (isolated : s.Isolated) (governed : Governed s.arenas) {call : Call σ}
    (clear : Clear B s call) : (s.after B call).Isolated := by
  cases call with
  | create p => exact (shrinks_create p).isolated isolated
  | createHooked p H cfg granted =>
    simp only [Clear] at clear
    simp only [HookHost.after]
    rcases createHooked_cases (B := B) governed p H cfg granted with ⟨e, s', taken, ran, same, -⟩ |
      ⟨id, i, b, w, w', s', taken, ran, built, metadata, shared, slots, -⟩
    · rw [ran]
      exact (Shrinks.of_eq same.metadata same.shared same.slots).isolated isolated
    · rw [ran] at clear ⊢
      obtain ⟨sound, rfl, disjoint⟩ := buildBackend_sound built
      have first := clear b.span.mgr.region (by simp)
      have second := clear b.large.mgr.region (by simp)
      refine isolated.register metadata shared slots sound
        ((Region.rangesDisjoint_iff first.1 second.1).mp disjoint) fun large => ?_
      cases large
      · exact first.2
      · exact second.2
  | destroy arena work drained =>
    exact (shrinks_destroy (B := B) arena work drained).isolated isolated
  | use arena large op => exact (shrinks_use (B := B) arena large op).isolated isolated

theorem Reached.isolated {start : HookHost σ} (opened : start.Opened)
    (reached : Reached B start (Clear B) s) : s.Isolated := by
  induction reached with
  | start => exact opened.isolated
  | step before clear ih => exact ih.after (before.sound opened).1 clear

/-- Whatever the hooks answer, extents of one reservation never overlap, a create
whose two answers overlap fails, and a create that fails changes nothing of another
arena. As long as the hooks answer with memory that is not in use, all reservations
are disjoint, and so are all outstanding extents. -/
theorem hooked_arenas_isolated (B : HookEnv σ) (start : HookHost σ) (opened : start.Opened) :
    (∀ s, Reached B start (fun _ _ => True) s →
      (∀ place x r r' e e', s.holding place = some x → r ≠ r' → x.Grants r e → x.Grants r' e' →
        e.range.Apart e'.range) ∧
      ∀ p H cfg granted,
        (∀ r r', (s.createHooked B p H cfg granted).2.2 = [r, r'] → r.Addressable → r'.Addressable →
          ¬ r.Apart r' → ∃ e, (s.createHooked B p H cfg granted).1 = .error e) ∧
        ∀ e, (s.createHooked B p H cfg granted).1 = .error e →
          Untouched s (s.createHooked B p H cfg granted).2.1) ∧
    ∀ s, Reached B start (Clear B) s →
      (∀ p p' r r', p ≠ p' → s.region p = some r → s.region p' = some r' → r.Apart r') ∧
      ∀ p p' x x' r r' e e', s.holding p = some x → s.holding p' = some x' → (p, r) ≠ (p', r') →
        x.Grants r e → x'.Grants r' e' → e.range.Apart e'.range := by
  refine ⟨fun s reached => ?_, fun s reached => ?_⟩
  · obtain ⟨governed, sound⟩ := reached.sound opened
    refine ⟨fun place x r r' e e' held ne granted granted' =>
      (sound place x held).apart granted granted' ne, fun p H cfg pools => ?_⟩
    rcases createHooked_cases (B := B) governed p H cfg pools with ⟨e, s', taken, ran, same, -⟩ |
      ⟨id, i, b, w, w', s', taken, ran, built, -⟩
    · rw [ran]
      exact ⟨fun r r' _ _ _ _ => ⟨e, rfl⟩, fun _ _ => same⟩
    · rw [ran]
      obtain ⟨-, rfl, disjoint⟩ := buildBackend_sound built
      refine ⟨fun r r' both inside inside' overlap => ?_, fun e failed => by cases failed⟩
      cases both
      exact absurd ((Region.rangesDisjoint_iff inside inside').mp disjoint) overlap
  · have isolated := reached.isolated opened
    refine ⟨isolated.apart, fun p p' x x' r r' e e' held held' ne granted granted' => ?_⟩
    have sound := isolated.sound p x held
    have sound' := isolated.sound p' x' held'
    by_cases same : p = p'
    · subst same
      obtain rfl := Option.some.inj (held.symm.trans held')
      exact sound.apart granted granted' fun equal => ne (equal ▸ rfl)
    · have reserved : ∀ place y, s.holding place = some y → s.region place = some y.mgr.region := by
        intro place y found
        cases place with
        | metadata => cases found
        | shared large => simp [region, found]
        | hooked i large => simp [region, found]
      have apart := isolated.apart p p' _ _ same (reserved p x held) (reserved p' x' held')
      obtain ⟨low, high⟩ := sound.within granted
      obtain ⟨low', high'⟩ := sound'.within granted'
      exact apart.within low high low' high'

end HookHost

/-! ## Two backings -/

/-- Hooks over one word, the next address to hand out, which `next` moves on. -/
def wordHooks (next : Nat → Nat → Nat) : ExtentHooks Nat :=
  .willing fun w size _ => (.ok ⟨w, size⟩, next w size)

/-- Hooks that never answer twice with one address. -/
def bumpHooks : ExtentHooks Nat := wordHooks fun w size => w + size

/-- Hooks that answer with two addresses in turn. -/
def recyclingHooks : ExtentHooks Nat :=
  wordHooks fun w _ => if w = 32 * pageSize then 64 * pageSize else 32 * pageSize

def smallRegions : RegionConfig := ⟨4 * pageSize, 4, 4 * pageSize, 4, 4⟩

def hookEnv : HookEnv Nat := ⟨.retain, 64, 64, bumpHooks.provider⟩

/-- The shared reservation of the small host at page `page`. -/
def sharedAt (page : Nat) : Option ExtentManager :=
  ExtentManager.new true 64 ⟨page * pageSize, 4 * pageSize⟩ defaultArena 4 .retain

/-- A host with three small reservations. -/
def smallHost : HookHost Nat where
  world := 32 * pageSize
  metadata := ⟨pageSize, pageSize⟩
  shared
    | false => ⟨(sharedAt 4).get (by decide), fun _ => none⟩
    | true => ⟨(sharedAt 8).get (by decide), fun _ => none⟩

namespace HookHost

theorem smallHost_region (found : smallHost.region place = some r) :
    place = .metadata ∧ r = ⟨pageSize, pageSize⟩ ∨ place = .shared false ∧ r = ⟨4 * pageSize, 4 * pageSize⟩ ∨
      place = .shared true ∧ r = ⟨8 * pageSize, 4 * pageSize⟩ := by
  cases place with
  | metadata => exact .inl ⟨rfl, (Option.some.inj found).symm⟩
  | shared large =>
    cases large
    · exact .inr (.inl ⟨rfl, (Option.some.inj found).symm⟩)
    · exact .inr (.inr ⟨rfl, (Option.some.inj found).symm⟩)
  | hooked i large => cases found

theorem smallHost_opened : smallHost.Opened := by
  refine ⟨rfl, fun _ => rfl, fun large => ?_, fun p p' r r' ne found found' => ?_⟩
  · cases large
    · exact ⟨⟨true, 64, ⟨4 * pageSize, 4 * pageSize⟩, defaultArena, 4, .retain,
        (Option.some_get (show (sharedAt 4).isSome by decide)).symm⟩, rfl⟩
    · exact ⟨⟨true, 64, ⟨8 * pageSize, 4 * pageSize⟩, defaultArena, 4, .retain,
        (Option.some_get (show (sharedAt 8).isSome by decide)).symm⟩, rfl⟩
  · rcases smallHost_region found with ⟨rfl, rfl⟩ | ⟨rfl, rfl⟩ | ⟨rfl, rfl⟩ <;>
      rcases smallHost_region found' with ⟨rfl, rfl⟩ | ⟨rfl, rfl⟩ | ⟨rfl, rfl⟩ <;>
      first
        | exact absurd rfl ne
        | decide

/-- A small arena over hooks. -/
def smallHooked (H : ExtentHooks Nat) : Call Nat := .createHooked .free H smallRegions {}

/-- One page for the spans of an arena. -/
def pageFor (arena : Nat) : Call Nat := .use arena false (.alloc pageSize pageSize .first)

/-- The range an outstanding reference stands for. -/
def outstanding (s : HookHost σ) (place : Place) (r : ExtentRef) : Option Region :=
  (s.holding place).bind fun x => if (x.ledger r).isSome then (x.mgr.map.resolve r).map Extent.range else none

theorem smallHooked_clear : Clear hookEnv smallHost (smallHooked bumpHooks) := by
  have taken : (smallHost.createHooked hookEnv .free bumpHooks smallRegions {}).2.2 =
      [⟨32 * pageSize, 4 * pageSize⟩, ⟨36 * pageSize, 4 * pageSize⟩] := by decide +kernel
  simp only [smallHooked, Clear, taken, List.forall_mem_cons, List.not_mem_nil, false_implies, implies_true,
    and_true]
  refine ⟨⟨by decide, fun place r found => ?_⟩, by decide, fun place r found => ?_⟩ <;>
    rcases smallHost_region found with ⟨-, rfl⟩ | ⟨-, rfl⟩ | ⟨-, rfl⟩ <;> decide

/-- One hooked arena beside the default one, a page of each. -/
theorem hooked_arenas_isolated_small :
    ∃ s, Reached hookEnv smallHost (Clear hookEnv) s ∧
      s.outstanding (.hooked 0 false) ⟨0, 1⟩ = some ⟨32 * pageSize, pageSize⟩ ∧
      s.outstanding (.shared false) ⟨0, 1⟩ = some ⟨4 * pageSize, pageSize⟩ ∧
      ∀ p p' r r', p ≠ p' → s.region p = some r → s.region p' = some r' → r.Apart r' := by
  have reached : Reached hookEnv smallHost (Clear hookEnv)
      (((smallHost.after hookEnv (smallHooked bumpHooks)).after hookEnv (pageFor 1)).after hookEnv
        (pageFor defaultArena)) :=
    .step (.step (.step .start smallHooked_clear) trivial) trivial
  exact ⟨_, reached, by decide +kernel, by decide +kernel,
    ((hooked_arenas_isolated hookEnv smallHost smallHost_opened).2 _ reached).1⟩

/-- Hooks that answer again with memory of another arena: both creates succeed, and
the pages of the two arenas are one page. -/
theorem hooked_arenas_share_page :
    smallHost.Opened ∧ ∃ s, Reached hookEnv smallHost (fun _ _ => True) s ∧
      s.backend 1 = some 0 ∧ s.backend 2 = some 1 ∧
      s.outstanding (.hooked 0 false) ⟨0, 1⟩ = some ⟨32 * pageSize, pageSize⟩ ∧
      s.outstanding (.hooked 1 false) ⟨0, 1⟩ = some ⟨32 * pageSize, pageSize⟩ := by
  have reached : Reached hookEnv smallHost (fun _ _ => True)
      ((((smallHost.after hookEnv (smallHooked recyclingHooks)).after hookEnv
        (smallHooked recyclingHooks)).after hookEnv (pageFor 1)).after hookEnv (pageFor 2)) :=
    .step (.step (.step (.step .start trivial) trivial) trivial) trivial
  exact ⟨smallHost_opened, _, reached, by decide +kernel⟩

end HookHost
end Topomalloc
