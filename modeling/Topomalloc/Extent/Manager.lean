import Topomalloc.Provider
import Topomalloc.Extent.Oracle

/-! The provider-backed extent manager of `extent.rs`: the operations that
carve, resize, free and purge extents, calling the backing provider on the way
and undoing their bookkeeping when it fails.

Every operation returns its result with the manager and the provider state it
leaves. The backend lock makes each of them one step, so a run of the manager
is a fold over its operations. -/
namespace Topomalloc

inductive ExtentError
  | exhausted
  | overflow
  | invalidRequest
  | notFree
  | stale
  | backend (e : BackendError)
  deriving DecidableEq, Repr

inductive RetainPolicy
  | retain
  | unmap
  deriving DecidableEq, Repr

structure RegionProvenance where
  zeroed : Bool := false
  canary : Bool := false
  deriving DecidableEq, Repr, Inhabited

structure ExtentManager where
  region : Region
  arena : Nat
  retain : RetainPolicy
  map : ExtentMap

namespace ExtentManager
open ExtentMap

variable {σ : Type}

/-- `ExtentManager::new` over a region the provider reserved. -/
def new (metaOk : Bool) (slotBytes : Nat) (region : Region) (arena slotCap : Nat)
    (policy : RetainPolicy) : Option ExtentManager :=
  (ExtentMap.new metaOk slotBytes region.base region.len slotCap).map fun map =>
    { region, arena, retain := policy, map := map.setArena arena }

/-- `sub_offset`. -/
def subOffset (g : ExtentManager) (base : Nat) : Nat := base - g.region.base

def subRegion (g : ExtentManager) (e : Extent) : Region :=
  { base := g.region.base + g.subOffset e.base, len := e.len }

def regionOf (g : ExtentManager) (r : ExtentRef) : Option Region := (g.map.resolve r).map g.subRegion

/-- `alloc_z`. The source `expect`s the view of the slot it just carved. -/
def allocZ (P : Provider σ) (g : ExtentManager) (w : σ) (size align : Nat) (fit : Fit) :
    Except ExtentError (ExtentRef × RegionProvenance) × ExtentManager × σ :=
  if size = 0 ∨ isPowerOfTwo align = false then (.error .invalidRequest, g, w)
  else match alignUp size pageSize with
  | none => (.error .overflow, g, w)
  | some needed =>
    match g.map.carveIn needed align fit with
    | (none, map) => (.error .exhausted, { g with map }, w)
    | (some id, map) =>
      let e := snapshot id (map.get id)
      let fromUnbacked := e.committedLen = 0
      let uncommitted := e.len - e.committedLen
      let answer (map : ExtentMap) : ExtentRef × RegionProvenance :=
        (⟨id, (map.get id).generation⟩,
          { zeroed := decide fromUnbacked && P.committedMemoryIsZeroed,
            canary := decide (uncommitted = 0) && map.extentCanary id })
      if uncommitted > 0 then
        match P.commit w g.region (g.subOffset e.base + e.committedLen) uncommitted with
        | (.error err, w) =>
          let recovered := if e.committedLen = e.len then .dirty else .released
          let map := ((map.freeIn id recovered).map Prod.snd).getD map
          (.error (.backend err), { g with map }, w)
        | (.ok (), w) =>
          let map := (map.markCommitted id).2
          (.ok (answer map), { g with map }, w)
      else (.ok (answer map), { g with map }, w)

def alloc (P : Provider σ) (g : ExtentManager) (w : σ) (size align : Nat) (fit : Fit) :
    Except ExtentError ExtentRef × ExtentManager × σ :=
  let (answer, g, w) := g.allocZ P w size align fit
  (answer.map Prod.fst, g, w)

/-- `alloc_large`: the region cache gets first refusal. -/
def allocLarge (P : Provider σ) (H : RegionCacheHook σ) (g : ExtentManager) (w : σ)
    (bytes align : Nat) (hints : Hints) :
    Except ExtentError (Region × Option ExtentRef × RegionProvenance) × ExtentManager × σ :=
  if bytes = 0 ∨ isPowerOfTwo align = false then (.error .invalidRequest, g, w)
  else match alignUp bytes pageSize with
  | none => (.error .overflow, g, w)
  | some rounded =>
    match H.tryAlloc w rounded align hints with
    | (some region, w) => (.ok (region, none, {}), g, w)
    | (none, w) =>
      match g.allocZ P w rounded align .best with
      | (.error err, g, w) => (.error err, g, w)
      | (.ok (r, prov), g, w) => (.ok (g.subRegion (snapshot r.id (g.map.get r.id)), some r, prov), g, w)

def splitTail (g : ExtentManager) (r : ExtentRef) (prefixLen : Nat) :
    Except ExtentError ExtentRef × ExtentManager :=
  match g.map.resolve r with
  | none => (.error .stale, g)
  | some e =>
    if e.state ≠ .active then (.error .notFree, g)
    else match g.map.splitIn r.id prefixLen with
      | none => (.error .exhausted, g)
      | some (tail, map) => (.ok ⟨tail, (map.get tail).generation⟩, { g with map })

/-- `can_grow_in_place`. -/
def canGrowInPlace (g : ExtentManager) (r : ExtentRef) (newLen : Nat) : Bool :=
  match alignUp newLen pageSize with
  | none => false
  | some needed =>
    match g.map.resolve r with
    | none => false
    | some e =>
      if e.state ≠ .active ∨ needed ≤ e.len then false
      else match g.map.addrNextOf r.id with
        | none => false
        | some next =>
          match g.map.view next with
          | none => false
          | some nv => nv.state.isFree && decide (nv.len ≥ needed - e.len)

/-- The end of `grow_in_place`: commit what the trimmed neighbour lacks, or
merge it back, then absorb it. -/
def growInto (P : Provider σ) (g : ExtentManager) (w : σ) (id next : Nat) :
    Except ExtentError Unit × ExtentManager × σ :=
  let ne := snapshot next (g.map.get next)
  let uncommitted := ne.len - ne.committedLen
  if uncommitted > 0 then
    match P.commit w g.region (g.subOffset ne.base + ne.committedLen) uncommitted with
    | (.error err, w) => (.error (.backend err), { g with map := (g.map.coalesceIn next).2 }, w)
    | (.ok (), w) =>
      (.ok (), { g with map := (g.map.markCommitted next).2.absorbNextIn id next }, w)
  else (.ok (), { g with map := g.map.absorbNextIn id next }, w)

def growInPlace (P : Provider σ) (g : ExtentManager) (w : σ) (r : ExtentRef) (newLen : Nat) :
    Except ExtentError Unit × ExtentManager × σ :=
  match alignUp newLen pageSize with
  | none => (.error .overflow, g, w)
  | some needed =>
    match g.map.resolve r with
    | none => (.error .stale, g, w)
    | some e =>
      if e.state ≠ .active then (.error .notFree, g, w)
      else if needed ≤ e.len then (.ok (), g, w)
      else
        let additional := needed - e.len
        match g.map.addrNextOf r.id with
        | none => (.error .exhausted, g, w)
        | some next =>
          match g.map.view next with
          | none => (.error .exhausted, g, w)
          | some nv =>
            if nv.state.isFree = false ∨ nv.len < additional then (.error .exhausted, g, w)
            else if nv.len > additional then
              match g.map.splitIn next additional with
              | none => (.error .exhausted, g, w)
              | some (_, map) => growInto P { g with map } w r.id next
            else g.growInto P w r.id next

/-- `free_canary`. `forcePurge` is the deterministic-mode switch the source
reads at each free. -/
def freeCanary (P : Provider σ) (g : ExtentManager) (w : σ) (r : ExtentRef) (canary forcePurge : Bool) :
    Except ExtentError Unit × ExtentManager × σ :=
  match g.map.resolve r with
  | none => (.error .stale, g, w)
  | some e =>
    if e.state ≠ .active then (.error .notFree, g, w)
    else
      let retained := ((g.map.freeInCanary r.id .dirty canary).map Prod.snd).getD g.map
      match if forcePurge then RetainPolicy.unmap else g.retain with
      | .retain => (.ok (), { g with map := retained }, w)
      | .unmap =>
        match P.decommit w g.region (g.subOffset e.base) e.committedLen with
        | (.ok (), w) =>
          let map := (g.map.markDecommitted r.id .active).2
          (.ok (), { g with map := ((map.freeIn r.id .released).map Prod.snd).getD map }, w)
        | (.error _, w) => (.ok (), { g with map := retained }, w)

/-- `free_revoking_canary`: revoke, then free. -/
def freeRevokingCanary (P : Provider σ) (g : ExtentManager) (w : σ) (r : ExtentRef) (arena : Nat)
    (canary forcePurge : Bool) : Except ExtentError Unit × ExtentManager × σ :=
  match g.regionOf r with
  | none => (.error .stale, g, w)
  | some region =>
    match P.revokeDescendants w arena region with
    | (.error err, w) => (.error (.backend err), g, w)
    | (.ok (), w) => g.freeCanary P w r canary forcePurge

def commit (P : Provider σ) (g : ExtentManager) (w : σ) (r : ExtentRef) :
    Except ExtentError Unit × ExtentManager × σ :=
  match g.map.resolve r with
  | none => (.error .stale, g, w)
  | some e =>
    let uncommitted := e.len - e.committedLen
    if uncommitted > 0 then
      match P.commit w g.region (g.subOffset e.base + e.committedLen) uncommitted with
      | (.error err, w) => (.error (.backend err), g, w)
      | (.ok (), w) => (.ok (), { g with map := (g.map.markCommitted r.id).2 }, w)
    else (.ok (), g, w)

/-- The tail `decommit` and `release` share: drop the backing, if any. -/
def dropBacking (P : Provider σ) (g : ExtentManager) (w : σ) (r : ExtentRef) (e : Extent) :
    Except ExtentError Unit × ExtentManager × σ :=
  if e.committedLen > 0 then
    match P.decommit w g.region (g.subOffset e.base) e.committedLen with
    | (.error err, w) => (.error (.backend err), g, w)
    | (.ok (), w) => (.ok (), { g with map := (g.map.markDecommitted r.id .released).2 }, w)
  else (.ok (), { g with map := (g.map.setState r.id .released).2 }, w)

def decommit (P : Provider σ) (g : ExtentManager) (w : σ) (r : ExtentRef) :
    Except ExtentError Unit × ExtentManager × σ :=
  match g.map.resolve r with
  | none => (.error .stale, g, w)
  | some e => if e.state.isFree = false then (.error .notFree, g, w) else g.dropBacking P w r e

def purgeLazy (P : Provider σ) (g : ExtentManager) (w : σ) (r : ExtentRef) :
    Except ExtentError Unit × ExtentManager × σ :=
  match g.map.resolve r with
  | none => (.error .stale, g, w)
  | some e =>
    if e.state.isFree = false then (.error .notFree, g, w)
    else if e.state = .dirty then
      match P.purgeLazy w g.region (g.subOffset e.base) e.len with
      | (.error err, w) => (.error (.backend err), g, w)
      | (.ok (), w) => (.ok (), { g with map := (g.map.setState r.id .muzzy).2 }, w)
    else (.ok (), g, w)

def purgeForced (P : Provider σ) (g : ExtentManager) (w : σ) (r : ExtentRef) :
    Except ExtentError Unit × ExtentManager × σ :=
  match g.map.resolve r with
  | none => (.error .stale, g, w)
  | some e =>
    if e.state.isFree = false then (.error .notFree, g, w)
    else if e.committedLen > 0 then
      match P.purgeForced w g.region (g.subOffset e.base) e.len with
      | (.error err, w) => (.error (.backend err), g, w)
      | (.ok (), w) => (.ok (), { g with map := (g.map.setState r.id .muzzy).2 }, w)
    else (.ok (), g, w)

def release (P : Provider σ) (g : ExtentManager) (w : σ) (r : ExtentRef) :
    Except ExtentError Unit × ExtentManager × σ :=
  match g.map.resolve r with
  | none => (.error .stale, g, w)
  | some e =>
    if e.state.isFree = false then (.error .notFree, g, w)
    else match P.revokeDescendants w g.arena (g.subRegion e) with
      | (.error err, w) => (.error (.backend err), g, w)
      | (.ok (), w) => g.dropBacking P w r e

end ExtentManager
end Topomalloc
