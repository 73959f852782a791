import Topomalloc.Engine.Spans
import Topomalloc.Lib.Pool

/-! The large allocator of `large.rs`: multi-page allocations, guarded ones
included, over the shared extent manager and the region cache. -/
namespace Topomalloc

/-- `LargePool::new`, with the size of a slot and the answer of the metadata
source. -/
def LargePool.new (metaOk : Bool) (slotBytes cap : Nat) : Option LargePool :=
  if cap = 0 ∨ cap > NIL then none
  else match checkedMul cap slotBytes with
    | none => none
    | some _ => if metaOk then some { cap } else none

namespace Engine

variable {σ : Type} (E : Env σ) (s : Engine σ)

/-- Slot `j` of the large pool. -/
def largeSlot (j : Nat) : LargeSlot := s.large.slots j

def setLarge (j : Nat) (d : LargeSlot) : Engine σ :=
  { s with large := { s.large with slots := Function.update s.large.slots j d } }

/-- The slot of the large descriptor that owns the page of `addr`. -/
def largeAt (addr : Nat) : Option Nat :=
  match s.pagemap.lookup addr with
  | .large j => some j
  | _ => none

/-- `LargePool::acquire`. -/
def acquireLarge : Option Nat × Engine σ :=
  if s.large.freeHead ≠ NIL then
    let j := s.large.freeHead
    (some j, { s with large := { s.large with freeHead := (s.largeSlot j).freeNext } })
  else if s.large.highWater < s.large.cap then
    let j := s.large.highWater
    (some j, { s with large := { s.large with highWater := j + 1 } })
  else (none, s)

/-- `LargePool::release`. -/
def releaseLarge (j : Nat) : Engine σ :=
  let s := s.setLarge j { s.largeSlot j with freeNext := s.large.freeHead }
  { s with large := { s.large with freeHead := j } }

/-- `protect_range` of the large extent manager. -/
def protectRange (addr len : Nat) (accessible : Bool) : Bool × Engine σ :=
  let (answer, world) := E.provider.protect s.world s.largeExtents.region
    (s.largeExtents.subOffset addr) len accessible
  (answer.isOk, { s with world })

/-- `return_backing`. -/
def returnBacking (hook : RegionCacheHook σ) (backing : Option ExtentRef) (region : Region)
    (revoke : Option Nat) (canary : Bool) : Bool × Engine σ :=
  match backing, revoke with
  | some ext, some arena =>
    let s := s.noteRevoke E arena (s.largeExtents.regionOf ext)
    let (answer, largeExtents, world) :=
      s.largeExtents.freeRevokingCanary E.provider s.world ext arena canary E.forcePurge
    (answer.isOk, { s with largeExtents, world })
  | some ext, none =>
    let (_, largeExtents, world) := s.largeExtents.freeCanary E.provider s.world ext canary E.forcePurge
    (true, { s with largeExtents, world })
  | none, some arena =>
    match hook.tryCacheRevoking s.world region arena with
    | (true, world) =>
      (true, { s with world }.note (.revoked arena region.base (region.base + region.len)))
    | (false, world) => (true, { s with world })
  | none, none =>
    let (_, world) := hook.tryCache s.world region
    (true, { s with world })

/-! ## Allocation -/

/-- Write the descriptor of an acquired slot and publish its range. A new
descriptor has its usable size as the requested one. -/
def installLarge (j : Nat) (d : LargeSlot) : Bool × Engine σ :=
  let s := s.setLarge j { d with requested := d.usable, freeNext := (s.largeSlot j).freeNext }
  let s := { s with largeQuarantined := Function.update s.largeQuarantined j false }
  match s.pagemap.publishRange E s.world d.base d.stop (.large j) with
  | (false, pagemap, world) => (false, { s with pagemap, world })
  | (true, pagemap, world) =>
    (true, { s with pagemap, world }.note (.gained d.arena d.base d.stop))

/-- `allocate_with_in`. -/
def allocateWithIn (arena bytes align : Nat) (hints : Hints) (zero : Bool) : Option Nat × Engine σ :=
  match s.largeExtents.allocLarge E.provider E.hook s.world bytes align hints with
  | (.error _, largeExtents, world) => (none, { s with largeExtents, world })
  | (.ok (region, backing, prov), largeExtents, world) =>
    let s := { s with largeExtents, world }
    match s.acquireLarge with
    | (none, s) => (none, (s.returnBacking E E.hook backing region none false).2)
    | (some j, s) =>
      match s.installLarge E j { arena, base := region.base, usable := region.len, backing } with
      | (false, s) =>
        (none, ((s.releaseLarge j).returnBacking E E.hook backing region none false).2)
      | (true, s) =>
        -- fresh pages of a provider that promises zeros need no `memset`
        (some region.base, if zero || prov.zeroed then s.wipe region.base region.len else s)

/-- A refusal of page protection is counted. -/
def countRefusal : Engine σ := { s with guardProtectFailures := s.guardProtectFailures + 1 }

/-- Revoke access to both guard pages: whether both calls succeeded, and whether
a later free has to restore them. -/
def armGuards (lead trail : Nat) : Bool × Engine σ :=
  let (leadOk, s) := s.protectRange E lead pageSize false
  let (trailOk, s) := s.protectRange E trail pageSize false
  if leadOk && trailOk then (true, s)
  else
    let s := s.countRefusal
    let (leadStuck, s) := if leadOk then
        match s.protectRange E lead pageSize true with
        | (ok, s) => (!ok, s)
      else (false, s)
    let (trailStuck, s) := if trailOk then
        match s.protectRange E trail pageSize true with
        | (ok, s) => (!ok, s)
      else (false, s)
    (leadStuck || trailStuck, s)

/-- Restore access to both guard pages; a failure is counted. -/
def restoreGuards (lead trail : Nat) : Bool × Engine σ :=
  let (leadOk, s) := s.protectRange E lead pageSize true
  let (trailOk, s) := s.protectRange E trail pageSize true
  if leadOk && trailOk then (true, s) else (false, s.countRefusal)

/-- The `restore_and_free` closure of `allocate_guarded`. -/
def restoreAndFree (lead trail : Nat) (backing : Option ExtentRef) (region : Region) : Engine σ :=
  match s.restoreGuards E lead trail with
  | (false, s) => s
  | (true, s) => (s.returnBacking E (noRegionCache σ) backing region none false).2

/-- `allocate_guarded`. -/
def allocateGuarded (arena size align : Nat) : Option Nat × Engine σ :=
  let want := max size 1
  match alignUp want (max align 1) with
  | none => (none, s)
  | some usable =>
    let objectPages := (want + pageSize - 1) / pageSize
    match checkedMul (objectPages + 2) pageSize with
    | none => (none, s)
    | some totalBytes =>
      if usable > totalBytes - 2 * pageSize then (none, s)
      else
        match s.largeExtents.allocLarge E.provider (noRegionCache σ) s.world totalBytes pageSize {} with
        | (.error _, largeExtents, world) => (none, { s with largeExtents, world })
        | (.ok (region, backing, _), largeExtents, world) =>
          let s := { s with largeExtents, world }
          let lead := region.base
          let trail := region.base + (objectPages + 1) * pageSize
          let base := trail - usable
          let (needsRestore, s) := s.armGuards E lead trail
          match s.acquireLarge with
          | (none, s) => (none, s.restoreAndFree E lead trail backing region)
          | (some j, s) =>
            match s.installLarge E j { arena, base, usable, backing, guarded := true, guardArmed := needsRestore } with
            | (false, s) => (none, (s.releaseLarge j).restoreAndFree E lead trail backing region)
            | (true, s) => (some base, s)

/-! ## Freeing -/

/-- Restore the guards of a freed allocation if it has any: whether that worked. -/
def disarm (d : LargeSlot) : Bool × Engine σ :=
  if d.guardArmed then
    let objectPages := (d.usable + pageSize - 1) / pageSize
    s.restoreGuards E (d.stop - (objectPages + 1) * pageSize) d.stop
  else (true, s)

/-- The part of `free_inner` under the pool lock: the pages are emptied before
the slot goes back. -/
def retireLarge (j : Nat) : Engine σ :=
  let d := s.largeSlot j
  let s := { s with pagemap := s.pagemap.overwriteRange d.base d.stop .empty }
  (s.releaseLarge j).note (.lost d.arena d.base d.stop)

/-- The freed bytes are zeroed, or filled in the builds that do so. -/
def destroyBytes (d : LargeSlot) (scrub : Bool) : Engine σ :=
  if scrub then s.wipe d.base d.usable else s.fill E d.base d.usable

/-- `free_inner` with the engine's region cache: whether the allocation was
retired, and whether its backing was reclaimed. -/
def freeInner (ptr : Nat) (revoke : Option Nat) (scrub : Bool) : (Bool × Bool) × Engine σ :=
  match s.largeAt ptr with
  | none => ((false, false), s)
  | some j =>
    let d := s.largeSlot j
    if ptr = 0 ∨ ptr ≠ d.base then ((false, false), s)
    else
      let (restored, s) := (s.retireLarge j).disarm E d
      let s := s.destroyBytes E d scrub
      if restored then
        let (reclaimed, s) := s.returnBacking E E.hook d.backing ⟨d.base, d.usable⟩ revoke
          (!scrub && E.junkFill && !d.guarded)
        ((true, reclaimed), s)
      else ((true, false), s)

/-- `free_scrubbing`. -/
def freeScrubbing (ptr : Nat) (scrub : Bool) : Bool × Engine σ :=
  let ((retired, _), s) := s.freeInner E ptr none scrub
  (retired, s)

/-- The first live allocation of `arena` in slot order. -/
def findLarge (arena : Nat) : Option Nat :=
  (List.range s.large.highWater).find? fun j =>
    decide (s.pagemap.lookup (s.largeSlot j).base = .large j) && decide ((s.largeSlot j).arena = arena)

/-- The loop of `free_arena`: the allocations and bytes freed, and whether every
revocation succeeded. Each turn frees one live allocation, so `high_water` turns and a last
look are enough. -/
def freeArenaLoop (arena : Nat) (scrub : Bool) :
    (fuel : Nat) → Nat → Nat → Bool → Engine σ → (Nat × Nat × Bool) × Engine σ
  | 0, count, bytes, all, s => ((count, bytes, all), s)
  | fuel + 1, count, bytes, all, s =>
    match s.findLarge arena with
    | none => ((count, bytes, all), s)
    | some j =>
      let d := s.largeSlot j
      match s.freeInner E d.base (some arena) scrub with
      | ((true, revoked), s) =>
        freeArenaLoop arena scrub fuel (count + 1) (bytes + d.usable) (all && revoked) s
      | ((false, _), s) => ((count, bytes, false), s)

/-- `free_arena`. -/
def freeArena (arena : Nat) (scrub : Bool) : (Nat × Nat × Bool) × Engine σ :=
  freeArenaLoop E arena scrub (s.large.highWater + 1) 0 0 true s

/-! ## Resizing -/

/-- Slot `j` with another usable size. -/
def resized (j usable : Nat) : LargePool :=
  { s.large with slots := Function.update s.large.slots j { s.largeSlot j with usable } }

/-- `shrink` retires the pages past `usable` bytes. -/
def retireTail (j usable : Nat) : Engine σ :=
  let d := s.largeSlot j
  { s with
    pagemap := s.pagemap.overwriteRange (d.base + usable) d.stop .empty
    large := s.resized j usable }

/-- `LargeAllocator::shrink`; the answer is the bytes given back. -/
def shrink (ptr newUsable : Nat) : Option Nat × Engine σ :=
  match s.largeAt ptr with
  | none => (none, s)
  | some j =>
    let d := s.largeSlot j
    if ptr = 0 ∨ ptr ≠ d.base ∨ d.guarded = true then (none, s)
    else match alignUp (max newUsable 1) pageSize with
      | none => (none, s)
      | some usable =>
        if usable ≥ d.usable then (none, s)
        else
          match d.backing with
          | some backing =>
            match s.largeExtents.splitTail backing usable with
            | (.error _, largeExtents) => (none, { s with largeExtents })
            | (.ok tail, largeExtents) =>
              let s := { s with largeExtents }.retireTail j usable
              let (_, largeExtents, world) :=
                s.largeExtents.freeCanary E.provider s.world tail false E.forcePurge
              (some (d.usable - usable),
                { s with largeExtents, world }.note (.lost d.arena (d.base + usable) d.stop))
          | none =>
            let s := s.retireTail j usable
            match E.hook.tryTrim s.world ⟨d.base, d.usable⟩ usable with
            | (some freed, world) =>
              (some freed, { s with world }.note (.lost d.arena (d.base + usable) d.stop))
            | (none, world) =>
              let s := { s with world }.setLarge j d
              let (_, pagemap, world) := s.pagemap.publishRange E s.world (d.base + usable) d.stop (.large j)
              (none, { s with pagemap, world })

/-- `LargeAllocator::grow`; the answer is the bytes gained. -/
def grow (ptr newUsable : Nat) : Option Nat × Engine σ :=
  match s.largeAt ptr with
  | none => (none, s)
  | some j =>
    let d := s.largeSlot j
    match d.backing with
    | none => (none, s)
    | some backing =>
      if ptr = 0 ∨ ptr ≠ d.base ∨ d.guarded = true then (none, s)
      else match alignUp (max newUsable 1) pageSize with
        | none => (none, s)
        | some usable =>
          if usable ≤ d.usable ∨ s.largeExtents.canGrowInPlace backing usable = false then (none, s)
          else match s.pagemap.reservePages E s.world (pageRange d.stop (d.base + usable)) with
            | (false, pagemap, world) => (none, { s with pagemap, world })
            | (true, pagemap, world) =>
              let s := { s with pagemap, world }
              match s.largeExtents.growInPlace E.provider s.world backing usable with
              | (.error _, largeExtents, world) => (none, { s with largeExtents, world })
              | (.ok (), largeExtents, world) =>
                let s := { s with largeExtents, world }
                match s.pagemap.publishRange E s.world d.stop (d.base + usable) (.large j) with
                | (false, pagemap, world) => (none, { s with pagemap, world })
                | (true, pagemap, world) =>
                  (some (usable - d.usable), { s with pagemap, world, large := s.resized j usable }.note
                      (.gained d.arena d.stop (d.base + usable)))

/-! ## Internal fragmentation -/

/-- `LargeAllocator::note_requested`, with the clamp of `set_requested`. -/
def noteRequested (ptr requested : Nat) : Engine σ :=
  match s.largeAt ptr with
  | none => s
  | some j =>
    if ptr = 0 then s
    else
      let d := s.largeSlot j
      s.setLarge j { d with requested := min requested d.usable }

/-- The waste of a descriptor. -/
def waste (d : LargeSlot) : Nat := d.usable - d.requested

/-- The waste of some slots, added up with `saturating_add`. -/
def totalWaste (slots : List Nat) : Nat :=
  slots.foldl (fun total j => min (total + waste (s.largeSlot j)) usizeMax) 0

/-- `LargeAllocator::internal_fragmentation_bytes`. -/
def internalFragmentationBytes : Nat :=
  s.totalWaste (List.range s.large.highWater) - s.totalWaste
    (Pool.walk (fun j => (s.largeSlot j).freeNext) NIL s.large.highWater s.large.freeHead)

end Engine
end Topomalloc
