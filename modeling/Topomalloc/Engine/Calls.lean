import Topomalloc.Engine.FrontEnd
import Topomalloc.Engine.Large

/-! Calls of the engine (`allocator.rs`): allocation, the drain of the
quarantine, and the life of arenas.

Hooked arenas are left out, and so is the refusal of calls made from inside an
extent hook. The canary checks of the junk-filling builds are left out as well:
they end the process or do nothing. -/
namespace Topomalloc

/-- `FRONT_END_POP_RETRY`. -/
def frontEndPopRetry : Nat := 8

/-- `front_end_cacheable`. -/
def frontEndCacheable (arena cls : Nat) : Bool :=
  decide (arena = defaultArena) && decide (cls = unhintedPlaceClass)

namespace Engine

variable {σ : Type} (E : Env σ) (s : Engine σ)

/-! ## Accounting -/

/-- What a successful allocation adds to the counters, `bump_peak_after_alloc`
included. -/
def noteAllocated (bytes : Nat) : Engine σ :=
  let allocatedBytes := wrappingAdd64 s.allocatedBytes bytes
  { s with allocatedBytes, peakLiveBytes := max s.peakLiveBytes (allocatedBytes - s.freedBytes) }

/-- `reset_peak_live`. -/
def resetPeakLive : Engine σ := { s with peakLiveBytes := s.allocatedBytes - s.freedBytes }

/-! ## Handing out small objects -/

/-- `hand_out_object`, that is `object_ptr`. An object without an address goes
back to central. -/
def handOutObject (i k : Nat) : Option Nat × Engine σ :=
  let back := (none, (s.insertBatch E i [k] false).2)
  match SlabLayout.compute (s.span i).sc (s.span i).base 0 with
  | none => back
  | some layout =>
    match layout.objectAddr k with
    | none => back
    | some addr => (some addr, s)

/-- `claim_cached_object`. -/
def claimCachedObject (addr sc : Nat) : Option Nat × Engine σ :=
  match s.pagemap.lookup addr with
  | .small i =>
    if (s.span i).sc ≠ sc then (none, s)
    else match SlabLayout.compute sc (s.span i).base 0 with
      | none => (none, s)
      | some layout =>
        match layout.addrToIndex addr with
        | none => (none, s)
        | some k =>
          match s.unmarkCached i k with
          | (false, s) => (none, s)
          | (true, s) => if k ≥ 2 ^ 16 then (none, s) else s.handOutObject E i k
  | _ => (none, s)

/-- The loop of `alloc_small_cached`. In its locked mode the front end is served
by the core it was asked for. -/
def allocSmallCached (sc : Nat) : (tries : Nat) → Engine σ → Option Nat × Engine σ
  | 0, s => (none, s)
  | tries + 1, s =>
    let (core, s) := s.currentCore E
    match s.fePop E core sc with
    | (some addr, s) =>
      match s.claimCachedObject E addr sc with
      | (some p, s) => (some p, s)
      | (none, s) => allocSmallCached sc tries s
    | (none, s) =>
      match s.refill E core sc with
      | (true, s) => (none, s)
      | (false, s) =>
        match s.fePop E core sc with
        | (none, s) => allocSmallCached sc tries s
        | (some addr, s) =>
          match s.claimCachedObject E addr sc with
          | (some p, s) => (some p, s)
          | (none, s) => allocSmallCached sc tries s

/-- `alloc_small_from_transfer`. -/
def allocSmallFromTransfer (arena sc : Nat) : Option Nat × Engine σ :=
  if arena ≠ defaultArena then (none, s)
  else match s.tryPopBatch E sc 1 with
    | ([addr], s) => s.claimCachedObject E addr sc
    | (_, s) => (none, s)

/-- The loop of `alloc_small`. A span that was just created is at the front of
its list, so two turns are enough. -/
def allocFromCentral (arena sc cls : Nat) : (turns : Nat) → Engine σ → Option Nat × Engine σ
  | 0, s => (none, s)
  | turns + 1, s =>
    match s.removeBatch E arena sc cls 1 with
    | (some (i, ks), s) => s.handOutObject E i (ks.headD 0)
    | (none, s) =>
      match s.createSpan E arena sc cls with
      | (true, s) => allocFromCentral arena sc cls turns s
      | (false, s) =>
        match s.removeBatch E arena sc anyPlaceClass 1 with
        | (some (i, ks), s) => s.handOutObject E i (ks.headD 0)
        | (none, s) => s.allocSmallFromTransfer E arena sc

/-- `alloc_small`. -/
def allocSmall (arena sc cls : Nat) (cacheBypass : Bool) : Option Nat × Engine σ :=
  match if !cacheBypass && frontEndCacheable arena cls && !E.forceSlow then
      allocSmallCached E sc frontEndPopRetry s else (none, s) with
  | (some p, s) => (some p, s)
  | (none, s) => allocFromCentral E arena sc cls 2 s

/-! ## Allocation -/

/-- `want_guarded`. -/
def wantGuarded (flags : RequestFlags) (align : Nat) : Bool × Engine σ :=
  if E.guardPages = false ∨ align > pageSize then (false, s)
  else if flags.guarded then (true, s)
  else
    let (sampled, world) := E.guardSampled s.world
    (sampled, { s with world })

/-- What a request is charged for, and its allocation can use. -/
def chargedSize (guarded : Bool) (kind : RequestKind) (size align : Nat) : Option Nat :=
  if guarded then alignUp (max size 1) (max align 1)
  else match kind with
    | .small _ usable => some usable
    | _ => mediumLargeUsable size

/-- `small_place_class`. -/
def smallPlaceClass (flags : RequestFlags) (sc : Nat) : Nat :=
  let hints := applyLearned (E.learned s.world sc) flags.hints
  placeClass { hotness := .fromHint hints.hotness, lifetime := hints.lifetime }

/-- The route a charged request takes. -/
def serve (arena size align usable : Nat) (flags : RequestFlags) (kind : RequestKind)
    (guarded : Bool) : Option Nat × Engine σ :=
  if guarded then s.allocateGuarded E arena size align
  else match kind with
    | .small sc _ => s.allocSmall E arena sc (s.smallPlaceClass E flags sc) flags.cacheBypass
    | kind => s.allocateWithIn E arena usable align
        (applyLearned (E.learned s.world kind.bucket) flags.hints) flags.zero

/-- The large path zeroes what it hands out, and notes what was asked for. -/
def servedLarge : RequestKind → Bool
  | .small _ _ => false
  | _ => true

/-- The end of `allocate_in` for an allocation that was made. -/
def finishAllocation (p size usable : Nat) (flags : RequestFlags) (kind : RequestKind)
    (guarded : Bool) : Engine σ :=
  let s := s.noteAllocated usable
  let s := if guarded || servedLarge kind then s.noteRequested p size else s
  if flags.zero then
    if !guarded && servedLarge kind then s else s.wipe p usable
  else s.fillOnAlloc E p usable

/-- `allocate_in`. -/
def allocateIn (arena size align : Nat) (flags : RequestFlags) : Option Nat × Engine σ :=
  match classify size align with
  | none => (none, s)
  | some kind =>
    let (guarded, s) := s.wantGuarded E flags align
    match chargedSize guarded kind size align with
    | none => (none, s)
    | some usable =>
      match s.arenas.tryCharge arena usable with
      | (.error _, arenas) => (none, { s with arenas })
      | (.ok _, arenas) =>
        match { s with arenas }.serve E arena size align usable flags kind guarded with
        | (none, s) => (none, { s with arenas := s.arenas.credit arena usable })
        | (some p, s) => (some p, s.finishAllocation E p size usable flags kind guarded)

/-! ## The quarantine -/

/-- `drain_one`. -/
def drainOne (e : QuarantineEntry) : Engine σ :=
  match e.span with
  | some i =>
    match s.insertBatch E i [e.index] true with
    | ((inserted, empty), s) => if 0 < inserted ∧ empty = true then s.retireSpan E i else s
  | none => (s.freeScrubbing E e.ptr (s.scrubOnRelease E e.arena)).2

/-- The loops of `drain_quarantine` and `converge_quarantine`. A turn that is not
the last takes an entry out of the ring. -/
def drainBatches (take : Quarantine → List QuarantineEntry × Quarantine) :
    (turns : Nat) → Engine σ → Engine σ
  | 0, s => s
  | turns + 1, s =>
    match take s.quarantine with
    | ([], quarantine) => { s with quarantine }
    | (e :: rest, quarantine) =>
      drainBatches take turns ((e :: rest).foldl (drainOne E) { s with quarantine })

/-- `drain_quarantine`. -/
def drainQuarantine : Engine σ :=
  if E.quarantine then drainBatches E Quarantine.drainBatch (s.quarantine.ring.len + 1) s else s

/-! ## Arenas -/

/-- `arena_create`. -/
def arenaCreate (policy : ArenaPolicy) : Except ArenaError Nat × Engine σ :=
  let (answer, arenas) := s.arenas.create policy
  (answer, { s with arenas })

/-- One turn of the span loop of `drain_arena`. -/
def retireOwned (arena : Nat) (acc : Bool × Engine σ) (i : Nat) : Bool × Engine σ :=
  let (all, s) := acc
  if (s.span i).arena = arena ∧ (s.span i).state = .active then
    let (revoked, s) := s.forceRetireSpan E i
    (all && revoked, s)
  else (all, s)

/-- The spans of `drain_arena`. -/
def retireSpans (arena : Nat) : Bool × Engine σ :=
  (List.range s.spans.highWater).foldl (retireOwned E arena) (true, s)

/-- `drain_arena`. -/
def drainArena (arena : Nat) : Bool × Engine σ :=
  let s := s.drainQuarantine E
  let (spans, s) := s.retireSpans E arena
  let ((_, bytes, larges), s) := s.freeArena E arena (s.scrubOnRelease E arena)
  (spans && larges, { s with freedBytes := wrappingAdd64 s.freedBytes bytes })

/-- A drain that failed in part quarantines the arena. -/
def quarantineArena (arena : Nat) : Except ArenaError Nat × Engine σ :=
  match s.arenas.quarantine arena with
  | (.error e, arenas) => (.error e, { s with arenas })
  | (.ok _, arenas) => (.error .illegalTransition, { s with arenas })

/-- `arena_reset`. -/
def arenaReset (arena : Nat) : Except ArenaError Nat × Engine σ :=
  match s.arenas.beginReset arena with
  | (.error e, arenas) => (.error e, { s with arenas })
  | (.ok _, arenas) =>
    match { s with arenas }.drainArena E arena with
    | (false, s) => s.quarantineArena arena
    | (true, s) =>
      let (answer, arenas) := s.arenas.finishReset arena
      (answer, { s with arenas })

/-- `arena_destroy`. -/
def arenaDestroy (arena : Nat) : Except ArenaError Nat × Engine σ :=
  match s.arenas.beginDestroy arena with
  | (.error e, arenas) => (.error e, { s with arenas })
  | (.ok _, arenas) =>
    match { s with arenas }.drainArena E arena with
    | (false, s) => s.quarantineArena arena
    | (true, s) =>
      let (answer, arenas) := s.arenas.finishDestroy arena
      (answer, { s with arenas })

end Engine
end Topomalloc
