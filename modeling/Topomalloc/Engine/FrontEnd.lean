import Topomalloc.Engine.Spans
import Topomalloc.CacheBudget

/-! The caches in front of the central lists: the per-CPU slots in their locked
mode (`cpu_cache.rs`), the transfer cache (`transfer_cache.rs`), and the traffic
between them and central (`cache_ops.rs`) on the way of an allocation.

Only unhinted objects of the default arena are cached, so the arena and the
place class of `refill` are fixed here as the engine fixes them. -/
namespace Topomalloc

/-- `default_capacity` of a transfer bin, in batches. -/
def defaultCapacityBatches : Nat := 4

namespace Engine

variable {σ : Type} (E : Env σ) (s : Engine σ)

/-! ## Per-CPU slots -/

def slot (core sc : Nat) : CpuSlot := s.cpu.slots core sc

def setSlot (core sc : Nat) (c : CpuSlot) : Engine σ :=
  { s with cpu := { s.cpu with
      slots := Function.update s.cpu.slots core (Function.update (s.cpu.slots core) sc c) } }

/-- `ensure_cpus`. -/
def ensureCpus : Bool × Engine σ :=
  if s.cpu.carved then (true, s)
  else match E.metaOk s.world with
    | (ok, world) => (ok, { s with world, cpu := { s.cpu with carved := ok } })

/-- `cpu_for` and the lazy initialisation of the slot. -/
def ensureSlot (core sc : Nat) : Bool × Engine σ :=
  match s.ensureCpus E with
  | (false, s) => (false, s)
  | (true, s) =>
    if core ≥ maxCpus ∨ sc ≥ numSizeClasses then (false, s)
    else if (s.slot core sc).initialized then (true, s)
    else match E.metaOk s.world with
      | (false, world) => (false, { s with world })
      | (true, world) =>
        (true, { s with world }.setSlot core sc { s.slot core sc with
          initialized := true
          hardCapacity := (row sc).maxLocalCapacity
          softCapacity := min (row sc).batch (row sc).maxLocalCapacity })

/-- `current_core`. -/
def currentCore : Nat × Engine σ :=
  let (core, world) := E.currentCore s.world
  (core % maxCpus, { s with world })

/-- `fe_pop_locked`. -/
def fePop (core sc : Nat) : Option Nat × Engine σ :=
  match s.ensureSlot E core sc with
  | (false, s) => (none, s)
  | (true, s) =>
    let c := s.slot core sc
    match c.entries.getLast? with
    | none => (none, s.setSlot core sc { c with misses := c.misses + 1 })
    | some addr => (some addr, s.setSlot core sc { c with entries := c.entries.dropLast })

/-- Whether `core` has an initialized slot for `sc`. -/
def hasSlot (core sc : Nat) : Bool :=
  s.cpu.carved && decide (core < maxCpus) && decide (sc < numSizeClasses) && (s.slot core sc).initialized

/-- `push_batch`. -/
def pushBatch (core sc : Nat) (addrs : List Nat) : Nat × Engine σ :=
  if s.hasSlot core sc then
    let c := s.slot core sc
    let n := min addrs.length (c.hardCapacity - c.entries.length)
    (n, s.setSlot core sc { c with entries := c.entries ++ addrs.take n })
  else (0, s)

/-! ## The transfer cache -/

/-- The lazy initialisation of a transfer bin. -/
def ensureBin (sc : Nat) : Bool × Engine σ :=
  if sc ≥ numSizeClasses then (false, s)
  else if (s.transfer sc).initialized then (true, s)
  else match E.metaOk s.world with
    | (false, world) => (false, { s with world })
    | (true, world) =>
      (true, { s with world }.setTransfer sc { s.transfer sc with
        initialized := true, capacity := (row sc).batch * defaultCapacityBatches })

/-- `try_pop_batch`. -/
def tryPopBatch (sc most : Nat) : List Nat × Engine σ :=
  match s.ensureBin E sc with
  | (false, s) => ([], s)
  | (true, s) =>
    let b := s.transfer sc
    let keep := b.entries.length - most
    (b.entries.drop keep, s.setTransfer sc { b with entries := b.entries.take keep })

/-- `try_push_batch`. -/
def tryPushBatch (sc : Nat) (addrs : List Nat) : Nat × Engine σ :=
  match s.ensureBin E sc with
  | (false, s) => (0, s)
  | (true, s) =>
    let b := s.transfer sc
    let n := min addrs.length (b.capacity - b.entries.length)
    (n, s.setTransfer sc { b with entries := b.entries ++ addrs.take n })

/-! ## Traffic with central -/

/-- The span and index an address of class `sc` resolves to. -/
def resolve (sc addr : Nat) : Option (Nat × Nat) :=
  match s.pagemap.lookup addr with
  | .small i =>
    match SlabLayout.compute sc (s.span i).base 0 with
    | some layout => (layout.addrToIndex addr).map fun k => (i, k)
    | none => none
  | _ => none

/-- Insert the objects of one span and retire it if that empties it. -/
def insertGroup (i : Nat) (indices : List Nat) : Engine σ :=
  match s.insertBatch E i indices false with
  | ((_, true), s) => s.retireSpan E i
  | ((_, false), s) => s

/-- One chunk of `flush_addrs_to_central`, its entries grouped by span in the
order of first appearance. -/
def flushChunk (sc : Nat) (chunk : List Nat) : Engine σ :=
  let entries := chunk.filterMap (s.resolve sc)
  (entries.map Prod.fst).eraseDups.foldl (fun s i =>
    s.insertGroup E i ((entries.filter fun e => e.1 == i).map Prod.snd)) s

/-- The loop of `flush_addrs_to_central`; `fuel` bounds the number of chunks. -/
def flushChunks (sc : Nat) : Nat → List Nat → Engine σ → Engine σ
  | 0, _, s => s
  | _ + 1, [], s => s
  | fuel + 1, addr :: rest, s =>
    flushChunks sc fuel ((addr :: rest).drop maxBatchLen)
      (s.flushChunk E sc ((addr :: rest).take maxBatchLen))

/-- `flush_addrs_to_central`. -/
def flushAddrsToCentral (addrs : List Nat) (sc : Nat) : Engine σ := s.flushChunks E sc addrs.length addrs

/-- Hand addresses to the transfer cache, and what it declines to central. -/
def sendDown (sc : Nat) (addrs : List Nat) : Engine σ :=
  let (n, s) := s.tryPushBatch E sc addrs
  s.flushAddrsToCentral E (addrs.drop n) sc

/-- The last part of both branches of `refill`. -/
def stock (core sc : Nat) (addrs : List Nat) : Engine σ :=
  let (n, s) := s.pushBatch core sc addrs
  if n < addrs.length then s.sendDown E sc (addrs.drop n) else s

/-- One turn of the loop of `refill` that marks and collects addresses. -/
def markVended (i : Nat) (layout : SlabLayout) (acc : List Nat × Engine σ) (k : Nat) : List Nat × Engine σ :=
  match layout.objectAddr k with
  | none => acc
  | some addr =>
    match acc.2.tryMarkCached i k with
    | (false, s) => (acc.1, s)
    | (true, s) => (acc.1 ++ [addr], s)

/-- `refill`; the answer is `need_span`. -/
def refill (core sc : Nat) : Bool × Engine σ :=
  if sc ≥ numSizeClasses then (false, s)
  else
    let (popped, s) := if E.forceSlow then ([], s) else s.tryPopBatch E sc (row sc).batch
    if popped.isEmpty = false then (false, s.stock E core sc popped)
    else match s.removeBatch E defaultArena sc unhintedPlaceClass (row sc).batch with
      | (none, s) => (true, s)
      | (some (i, indices), s) =>
        match SlabLayout.compute sc (s.span i).base 0 with
        | none => (true, s)
        | some layout =>
          let (addrs, s) := indices.foldl (markVended i layout) ([], s)
          (false, s.stock E core sc addrs)

end Engine
end Topomalloc
