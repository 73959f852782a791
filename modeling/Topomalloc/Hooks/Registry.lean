import Topomalloc.Extent.Ledger
import Topomalloc.Arena.Quota
import Topomalloc.Engine.Large
import Topomalloc.Hooks.Provider

/-! Arenas over extent hooks: the provider `hooks.rs` makes of a caller's hooks,
and the registry of hooked backings of `allocator.rs`.

A hooked arena carves its spans and its large allocations out of two reservations
its own hooks answered with; every other arena uses the shared ones. What the
calls of an arena, and the drain at its end, ask of the extents under it is left
open: any operations in any order. The failure counters of the provider and the
flag that catches a hook calling back are left out. -/
namespace Topomalloc
open Function

/-! ## The provider over hooks -/

namespace ExtentHooks
variable {σ : Type} (H : ExtentHooks σ)

/-- `check_subrange` in front of a physical call. -/
def within (call : σ → Region → Nat → Nat → Except BackendError Unit × σ) (w : σ) (r : Region)
    (offset len : Nat) : Except BackendError Unit × σ :=
  if (checkedAdd offset len).any (· ≤ r.len) then call w r offset len else (.error .invalidRequest, w)

/-- `HookProvider` as a provider; what it does not override are the defaults. -/
def provider : Provider σ where
  commit := within H.commit
  decommit := within H.decommit
  purgeLazy := within H.purgeLazy
  purgeForced := within H.purgeForced
  protect w _ _ _ _ := (.ok (), w)
  revokeDescendants w _ _ := (.ok (), w)
  committedMemoryIsZeroed := false

/-- `reserve` of a new `HookProvider`, with the region it took. -/
def reserve (w : σ) (size align : Nat) : Option (Region × Reservations) × σ × List Region :=
  match ({} : HookProvider).reserve H w size align with
  | ⟨.ok region, provider, w, _⟩ => (some (region, provider.live), w, [region])
  | ⟨.error _, _, w, _⟩ => (none, w, [])

end ExtentHooks

/-! ## Holdings -/

/-- An extent manager and the ledger of what is outstanding from it. -/
structure Holding where
  mgr : ExtentManager
  ledger : Ledger := fun _ => none

/-- An `ExtentManager` over a `HookProvider`. -/
structure HookExtents (σ : Type) extends Holding where
  hooks : ExtentHooks σ
  live : Reservations

/-- The build, and the provider of the shared reservations. -/
structure HookEnv (σ : Type) where
  policy : RetainPolicy
  slotBytes : Nat
  largeSlotBytes : Nat
  shared : Provider σ

/-- The part of `AllocatorConfig` that sizes a hooked backing. -/
structure RegionConfig where
  spanRegionBytes : Nat
  spanExtentSlots : Nat
  largeRegionBytes : Nat
  largeExtentSlots : Nat
  largeSlots : Nat

/-- What the metadata source answers to the three pools of a backing. -/
structure PoolsGranted where
  span : Bool := true
  large : Bool := true
  descriptors : Bool := true

namespace HookExtents
variable {σ : Type} (B : HookEnv σ)

/-- `HookProvider::release`; the entry it drops from the reservations is never
looked at again. -/
def release (x : HookExtents σ) (w : σ) : Except BackendError Unit × σ := x.hooks.dealloc w x.mgr.region true

/-- `ExtentManager::new` over hooks for a length of whole pages, with the region
taken. It manages the length it asked for, however long the answer. -/
def reserve (H : ExtentHooks σ) (w : σ) (granted : Bool) (arena len slotCap : Nat) :
    Option (HookExtents σ) × σ × List Region :=
  match H.reserve w len pageSize with
  | (none, w, taken) => (none, w, taken)
  | (some (region, live), w, taken) =>
    match ExtentManager.new granted B.slotBytes ⟨region.base, len⟩ arena slotCap B.policy with
    | none => (none, (H.dealloc w region true).2, taken)
    | some mgr => (some { mgr := { mgr with region }, hooks := H, live }, w, taken)

/-- `ExtentManager::new` over hooks. -/
def new (H : ExtentHooks σ) (w : σ) (granted : Bool) (arena size slotCap : Nat) :
    Option (HookExtents σ) × σ × List Region :=
  match alignUp size pageSize with
  | none => (none, w, [])
  | some len => reserve B H w granted arena len slotCap

end HookExtents

/-! ## The registry -/

/-- `ArenaHookBackend`. -/
structure HookBackend (σ : Type) where
  arena : Nat
  span : HookExtents σ
  large : HookExtents σ
  pool : LargePool

namespace HookBackend
variable {σ : Type} (b : HookBackend σ)

/-- The extents its spans, or its large allocations, are carved from. -/
def extents (large : Bool) : HookExtents σ := if large then b.large else b.span

def setExtents (large : Bool) (x : HookExtents σ) : HookBackend σ :=
  if large then { b with large := x } else { b with span := x }

end HookBackend

/-- `MAX_HOOK_BACKENDS`. -/
def maxHookBackends : Nat := 32

/-- The parts of `Allocator` that route an arena to its backing. `shared` are the
shared span extents and the shared large extents. -/
structure HookHost (σ : Type) where
  world : σ
  metadata : Region
  shared : Bool → Holding
  slots : Nat → Option (HookBackend σ) := fun _ => none
  count : Nat := 0
  hookSlot : Nat → Nat := fun _ => 0
  arenas : ArenaTable := .new

/-- `Region::addr_range` of two reservations do not meet. -/
def rangesDisjoint (a b : Region) : Bool :=
  decide (wrappingAdd64 a.base a.len ≤ b.base) || decide (wrappingAdd64 b.base b.len ≤ a.base)

namespace HookHost
variable {σ : Type} (B : HookEnv σ) (s : HookHost σ)

/-- `build_and_register_hook_backend` once the spans have their reservation: that
of the large allocations, and that the two are disjoint. -/
def buildLarge (w : σ) (arena : Nat) (H : ExtentHooks σ) (cfg : RegionConfig) (granted : PoolsGranted)
    (span : HookExtents σ) : Option (HookBackend σ) × σ × List Region :=
  match HookExtents.new B H w granted.large arena cfg.largeRegionBytes cfg.largeExtentSlots with
  | (none, w, taken) => (none, (span.release w).2, taken)
  | (some large, w, taken) =>
    match LargePool.new granted.descriptors B.largeSlotBytes cfg.largeSlots with
    | none => (none, (span.release (large.release w).2).2, taken)
    | some pool =>
      if rangesDisjoint span.mgr.region large.mgr.region then (some { arena, span, large, pool }, w, taken)
      else (none, (span.release (large.release w).2).2, taken)

/-- The backing it builds. The regions taken come in the order they were answered. -/
def buildBackend (w : σ) (arena : Nat) (H : ExtentHooks σ) (cfg : RegionConfig) (granted : PoolsGranted) :
    Option (HookBackend σ) × σ × List Region :=
  match HookExtents.new B H w granted.span arena cfg.spanRegionBytes cfg.spanExtentSlots with
  | (none, w, taken) => (none, w, taken)
  | (some span, w, taken) =>
    let (backend, w, rest) := buildLarge B w arena H cfg granted span
    (backend, w, taken ++ rest)

/-- The slot it registers the backing in. -/
def freeSlot : Option Nat := (List.range maxHookBackends).find? fun i => (s.slots i).isNone

/-- The slot of the arena's backing, by search. -/
def slotOf (arena : Nat) : Option Nat :=
  (List.range maxHookBackends).find? fun i => (s.slots i).any (·.arena == arena)

/-- `teardown_hook_backend`: whether both reservations were taken back. -/
def teardown (arena : Nat) : Bool × HookHost σ :=
  if s.count = 0 then (true, s)
  else match s.slotOf arena with
    | none => (true, s)
    | some i =>
      match s.slots i with
      | none => (true, s)
      | some b =>
        let (span, world) := b.span.release s.world
        let (large, world) := b.large.release world
        (span.isOk && large.isOk, { s with
          world, slots := update s.slots i none, count := s.count - 1
          hookSlot := update s.hookSlot arena 0 })

/-- `abandon_pending`, its answer ignored. -/
def abandon (id : Nat) : HookHost σ := { s with arenas := (s.arenas.abandonPending id).2 }

/-- `arena_create`; the routing index of the id it claims is cleared. -/
def create (p : ArenaPolicy) : Except ArenaError Nat × HookHost σ :=
  match s.arenas.create p with
  | (.error e, arenas) => (.error e, { s with arenas })
  | (.ok id, arenas) => (.ok id, { s with arenas, hookSlot := update s.hookSlot id 0 })

/-- `arena_create_hooked` once the backing is built: register it and publish the
arena. -/
def register (id : Nat) (backend : HookBackend σ) : Except ArenaError Nat × HookHost σ :=
  match s.freeSlot with
  | none =>
    let world := (backend.large.release (backend.span.release s.world).2).2
    (.error .exhausted, { s with world }.abandon id)
  | some i =>
    let s := { s with
      slots := update s.slots i (some backend), count := s.count + 1
      hookSlot := update s.hookSlot id (i + 1) }
    match s.arenas.publish id with
    | (.ok (), arenas) => (.ok id, { s with arenas })
    | (.error e, arenas) => (.error e, ({ s with arenas }.teardown id).2.abandon id)

/-- `arena_create_hooked`, with the regions it took. -/
def createHooked (p : ArenaPolicy) (H : ExtentHooks σ) (cfg : RegionConfig) (granted : PoolsGranted) :
    Except ArenaError Nat × HookHost σ × List Region :=
  match s.arenas.createPending p with
  | (.error e, arenas) => (.error e, { s with arenas }, [])
  | (.ok id, arenas) =>
    let s := { s with arenas, hookSlot := update s.hookSlot id 0 }
    match buildBackend B s.world id H cfg granted with
    | (none, world, taken) => (.error .exhausted, { s with world }.abandon id, taken)
    | (some backend, world, taken) =>
      let (answer, s) := { s with world }.register id backend
      (answer, s, taken)

/-- `hook_backend`: the slot of the arena's own backing. -/
def backend (arena : Nat) : Option Nat :=
  if s.count = 0 ∨ s.hookSlot arena = 0 ∨ s.hookSlot arena > maxHookBackends then none
  else match s.slots (s.hookSlot arena - 1) with
    | some b => if b.arena = arena then some (s.hookSlot arena - 1) else none
    | none => none

/-- One operation on an extent manager, entered in its ledger. -/
def operate (P : Provider σ) (x : Holding) (w : σ) (op : ExtentOp) : Holding × σ :=
  let (answer, mgr, w) := x.mgr.step P (noRegionCache σ) w op
  (⟨mgr, x.ledger.record max op answer⟩, w)

/-- One operation on the span or the large extents the arena is served from. -/
def use (arena : Nat) (large : Bool) (op : ExtentOp) : HookHost σ :=
  match s.backend arena with
  | none =>
    let (x, world) := operate B.shared (s.shared large) s.world op
    { s with world, shared := update s.shared large x }
  | some i =>
    match s.slots i with
    | none => s
    | some b =>
      let own := b.extents large
      let (x, world) := operate own.hooks.provider own.toHolding s.world op
      { s with world, slots := update s.slots i (some (b.setExtents large { own with toHolding := x })) }

/-- The end of `arena_destroy`. -/
def finish (arena : Nat) (returned : Bool) : Except ArenaError Nat × HookHost σ :=
  if returned then
    let (answer, arenas) := s.arenas.finishDestroy arena
    (answer, { s with arenas })
  else match s.arenas.quarantine arena with
    | (.ok (), arenas) => (.error .illegalTransition, { s with arenas })
    | (.error e, arenas) => (.error e, { s with arenas })

/-- `arena_destroy`. `work` is what the drain asks of the arena's extents, and
`drained` whether it succeeded. -/
def destroy (arena : Nat) (work : List (Bool × ExtentOp)) (drained : Bool) :
    Except ArenaError Nat × HookHost σ :=
  match s.arenas.beginDestroy arena with
  | (.error e, arenas) => (.error e, { s with arenas })
  | (.ok (), arenas) =>
    let s := work.foldl (fun s (large, op) => s.use B arena large op) { s with arenas }
    let (returned, s) := if drained then s.teardown arena else (false, s)
    s.finish arena returned

end HookHost
end Topomalloc
