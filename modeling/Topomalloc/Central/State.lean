import Topomalloc.Extent.Map
import Topomalloc.Request

/-! The central free lists of `central.rs` with the part of the span descriptors
they move: the residency bits, the counters and the state. The lists are here in
the order in which the source links them. -/
namespace Topomalloc
open Function

inductive SpanState
  | active
  | released
  deriving DecidableEq, Repr, Inhabited

/-- A pool slot with the geometry of its descriptor. -/
structure SpanSlot where
  arena : Nat := 0
  sc : Nat := 0
  base : Nat := 0
  pageCount : Nat := 0
  objectCount : Nat := 0
  state : SpanState := .active
  extent : ExtentRef := ⟨0, 0⟩
  freeNext : Nat := 0
  deriving DecidableEq, Repr, Inhabited

namespace SpanSlot

/-- The end of `SpanDescriptor::range`. -/
def stop (d : SpanSlot) : Nat := d.base + d.pageCount * pageSize

/-- The address of object `k` of a headerless page-aligned slab. -/
def objectAt (d : SpanSlot) (k : Nat) : Nat := d.base + k * (row d.sc).size

end SpanSlot

/-- The residency of a span's objects: the counters and the three bitmaps, with
the words each bitmap has. -/
structure SpanBits where
  placeClass : Nat := 0
  liveCount : Nat := 0
  centralFree : Nat := 0
  free : Nat → Bool := fun _ => false
  cached : Nat → Bool := fun _ => false
  quarantined : Nat → Bool := fun _ => false
  freeWords : Nat := 0
  quarantinedWords : Nat := 0
  cachedWords : Nat := 0

/-- `CentralBin`: the two span lists, heads first. -/
structure CentralBin where
  partialSpans : List Nat := []
  emptySpans : List Nat := []

/-- The test of `find_partial_for_arena`. -/
def SpanSlot.matching (d : SpanSlot) (b : SpanBits) (arena cls : Nat) : Bool :=
  decide (d.arena = arena) && (cls == anyPlaceClass || b.placeClass == cls)

/-- The objects `central_remove_batch` takes, lowest index first. -/
def SpanBits.vended (b : SpanBits) (count desired : Nat) : List Nat :=
  ((List.range count).filter b.free).take (min desired (min b.centralFree maxBatchLen))

/-- `CentralCache` with the descriptors it links. -/
structure Central where
  slots : Nat → SpanSlot
  bits : Nat → SpanBits
  bins : Nat → CentralBin

/-- `MAX_EMPTY_CACHED_PER_BIN`. -/
def maxEmptyCachedPerBin : Nat := 1

/-- One turn of the loop of `insert_batch_inner`. -/
def insertOne (quarantine : Bool) (count : Nat) (acc : SpanBits × List Nat) (k : Nat) : SpanBits × List Nat :=
  let (b, inserted) := acc
  if k ≥ count ∨ b.free k = true then acc
  else
    ({ b with
        free := update b.free k true
        centralFree := b.centralFree + 1
        quarantined := if quarantine then update b.quarantined k false else b.quarantined
        cached := update b.cached k false },
      inserted ++ [k])

namespace Central
variable (c : Central)

def setSlot (i : Nat) (d : SpanSlot) : Central := { c with slots := update c.slots i d }

def setBits (i : Nat) (b : SpanBits) : Central := { c with bits := update c.bits i b }

def setBin (sc : Nat) (b : CentralBin) : Central := { c with bins := update c.bins sc b }

/-- The span is of the arena and of the placement class. -/
def matching (arena cls i : Nat) : Bool := (c.slots i).matching (c.bits i) arena cls

/-- The objects `central_remove_batch` takes from a span. -/
def vended (i desired : Nat) : List Nat := (c.bits i).vended (c.slots i).objectCount desired

/-- The bits of a span some of whose free objects were taken. -/
def taken (b : SpanBits) (indices : List Nat) : SpanBits :=
  { b with
    free := fun k => b.free k && !indices.contains k
    centralFree := b.centralFree - indices.length
    liveCount := wrappingAdd32 b.liveCount indices.length }

/-- The second half of `remove_batch`: take objects from the span at the front of
the partial list. -/
def takeFrom (sc i desired : Nat) : Option (Nat × List Nat) × Central :=
  let bin := c.bins sc
  let popped := c.setBin sc { bin with partialSpans := bin.partialSpans.tail }
  if (c.bits i).centralFree = 0 then (none, popped)
  else
    let indices := c.vended i desired
    let b := taken (c.bits i) indices
    (if indices.isEmpty then none else some (i, indices),
      if b.centralFree = 0 then popped.setBits i b else c.setBits i b)

/-- `remove_batch`. `find_partial_for_arena` moves the span it finds to the
front. -/
def removeBatch (forceSlow : Bool) (arena sc cls desired : Nat) : Option (Nat × List Nat) × Central :=
  if sc ≥ numSizeClasses then (none, c)
  else
    let bin := c.bins sc
    match bin.partialSpans.find? (c.matching arena cls) with
    | some i =>
      (c.setBin sc { bin with partialSpans := i :: bin.partialSpans.erase i }).takeFrom sc i desired
    | none =>
      if forceSlow then (none, c)
      else match bin.emptySpans with
        | [] => (none, c)
        | i :: rest =>
          if (c.slots i).arena ≠ arena then (none, c)
          else
            let c := if cls = anyPlaceClass then c
              else c.setBits i { c.bits i with placeClass := cls % 4 }
            (c.setBin sc { partialSpans := i :: bin.partialSpans, emptySpans := rest }).takeFrom sc i
              desired

/-- `insert_batch_inner`: the objects that went in, and whether the caller must
now retire the span. -/
def insertBatch (quarantine : Bool) (i : Nat) (indices : List Nat) : (List Nat × Bool) × Central :=
  let d := c.slots i
  if d.sc ≥ numSizeClasses then (([], false), c)
  else if d.state ≠ .active then (([], false), c)
  else
    let (b, inserted) := indices.foldl (insertOne quarantine d.objectCount) (c.bits i, [])
    let b := { b with liveCount := wrappingSub32 b.liveCount inserted.length }
    let bin := c.bins d.sc
    let wasExhausted := b.centralFree = inserted.length ∧ 0 < inserted.length ∧
      bin.partialSpans.head? ≠ some i
    let isEmpty := b.liveCount = 0 ∧ b.centralFree = d.objectCount
    let c := c.setBits i b
    if isEmpty ∧ 0 < inserted.length then
      let bin := { bin with partialSpans := bin.partialSpans.erase i }
      if bin.emptySpans.length < maxEmptyCachedPerBin then
        ((inserted, false), c.setBin d.sc { bin with emptySpans := i :: bin.emptySpans })
      else ((inserted, true), c.setBin d.sc bin)
    else if wasExhausted then
      ((inserted, false), c.setBin d.sc { bin with partialSpans := i :: bin.partialSpans })
    else ((inserted, false), c)

/-- `SpanGuard::activate`. -/
def fillBits (i : Nat) : Central :=
  let count := (c.slots i).objectCount
  c.setBits i { c.bits i with
    free := fun k => decide (k < count), centralFree := count, liveCount := 0 }

/-- `SpanGuard::deactivate`. -/
def clearBits (i : Nat) : Central :=
  c.setBits i { c.bits i with free := fun _ => false, centralFree := 0, liveCount := 0 }

/-- The end of `activate_span`. -/
def enlist (i : Nat) : Central :=
  let sc := (c.slots i).sc
  c.setBin sc { c.bins sc with partialSpans := i :: (c.bins sc).partialSpans }

/-- What both deactivations do to the lists and the descriptor: clear the bits,
take the span off its list, mark it released. -/
def unlist (i : Nat) : Central :=
  let d := c.slots i
  let c := c.clearBits i
  let bin := c.bins d.sc
  let bin := if bin.partialSpans.contains i then { bin with partialSpans := bin.partialSpans.erase i }
    else { bin with emptySpans := bin.emptySpans.erase i }
  (c.setBin d.sc bin).setSlot i { d with state := .released }

/-- `is_empty` of a span. -/
def isEmpty (i : Nat) : Prop := (c.bits i).liveCount = 0 ∧ (c.bits i).centralFree = (c.slots i).objectCount

instance (i : Nat) : Decidable (c.isEmpty i) := inferInstanceAs (Decidable (_ ∧ _))

end Central
end Topomalloc
