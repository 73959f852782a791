import Topomalloc.Central.State
import Topomalloc.Quarantine
import Topomalloc.PageMap
import Topomalloc.Extent.Manager

/-! The state of the engine of `allocator.rs` and the parts it is made of.

A span descriptor is kept in two tables: `SpanSlot` holds what the page map, the
pool and the arena drain read, `SpanBits` the residency of its objects. Moving
an object between the caches, the central list and the user then leaves the
first table alone. `contents` is what each byte of memory holds. `memory` and
`history` are read by no operation: for each byte the label under which its
value was written, and the log of what became of pages and span slots, newest
first. -/
namespace Topomalloc

/-! ## Spans -/

/-- `SpanPool`. -/
structure SpanPool where
  slots : Nat → SpanSlot := fun _ => {}
  cap : Nat
  freeHead : Nat := NIL
  highWater : Nat := 0
  live : Nat := 0

/-- The words a bitmap of `n` objects needs. -/
def bitmapWords (n : Nat) : Nat := max ((n + 63) / 64) 1

/-- `INLINE_WORDS`. -/
def inlineWords : Nat := 2

/-! ## Caches -/

/-- `CpuSlot`; the buffer in stack order, top last. -/
structure CpuSlot where
  initialized : Bool := false
  entries : List Nat := []
  softCapacity : Nat := 0
  hardCapacity : Nat := 0
  misses : Nat := 0
  overflows : Nat := 0

/-- `MAX_CPUS` of the per-CPU cache. -/
def maxCpus : Nat := 128

/-- `CpuCache` in its locked mode. `carved` says that the per-CPU array exists. -/
structure CpuCache where
  carved : Bool := false
  slots : Nat → Nat → CpuSlot := fun _ _ => {}

/-- `TransferBin`; the buffer in stack order, top last. -/
structure TransferBin where
  initialized : Bool := false
  capacity : Nat := 0
  entries : List Nat := []

/-! ## Large allocations -/

/-- `LargeSlot` with the fields of its descriptor that are read. -/
structure LargeSlot where
  arena : Nat := 0
  base : Nat := 0
  usable : Nat := 0
  requested : Nat := 0
  backing : Option ExtentRef := none
  guarded : Bool := false
  guardArmed : Bool := false
  freeNext : Nat := 0
  deriving DecidableEq, Repr, Inhabited

/-- The end of `LargeDescriptor::range`. -/
def LargeSlot.stop (d : LargeSlot) : Nat := d.base + d.usable

/-- `LargePool`. -/
structure LargePool where
  slots : Nat → LargeSlot := fun _ => {}
  cap : Nat
  freeHead : Nat := NIL
  highWater : Nat := 0

/-! ## The engine -/

/-- What the log records. An arena starts or stops holding the pages of
`[base, stop)`, or a revocation of its capabilities over them succeeds. A span
slot is taken from the pool, put on the free stack, has its extent freed, or has
its activation fail. -/
inductive Event
  | gained (arena base stop : Nat)
  | lost (arena base stop : Nat)
  | revoked (arena base stop : Nat)
  | taken (slot : Nat)
  | returned (slot : Nat)
  | unbacked (slot : Nat)
  | stranded (slot : Nat)
  deriving DecidableEq, Repr

/-- `Allocator`, without hooked arenas. -/
structure Engine (σ : Type) where
  world : σ
  pagemap : PageMap
  spans : SpanPool
  bits : Nat → SpanBits := fun _ => {}
  central : Nat → CentralBin := fun _ => {}
  cpu : CpuCache := {}
  transfer : Nat → TransferBin := fun _ => {}
  quarantine : Quarantine
  spanExtents : ExtentManager
  large : LargePool
  largeQuarantined : Nat → Bool := fun _ => false
  largeExtents : ExtentManager
  arenas : ArenaTable
  allocatedBytes : Nat := 0
  freedBytes : Nat := 0
  peakLiveBytes : Nat := 0
  guardProtectFailures : Nat := 0
  globalBudget : Nat
  contents : Nat → Nat := fun _ => 0
  memory : Nat → Option Nat := fun _ => none
  history : List Event := []

namespace Engine
variable {σ : Type}

/-- Slot `i` of the span pool. -/
def span (s : Engine σ) (i : Nat) : SpanSlot := s.spans.slots i

def setSpan (s : Engine σ) (i : Nat) (d : SpanSlot) : Engine σ :=
  { s with spans := { s.spans with slots := Function.update s.spans.slots i d } }

def setBits (s : Engine σ) (i : Nat) (b : SpanBits) : Engine σ :=
  { s with bits := Function.update s.bits i b }

def setTransfer (s : Engine σ) (sc : Nat) (b : TransferBin) : Engine σ :=
  { s with transfer := Function.update s.transfer sc b }

/-- The bytes of `[base, base + len)` all hold `value` instead of what was
written there. -/
def overwrite (s : Engine σ) (base len value : Nat) : Engine σ :=
  { s with
    contents := fun x => if base ≤ x ∧ x < base + len then value else s.contents x
    memory := fun x => if base ≤ x ∧ x < base + len then none else s.memory x }

/-- Zero the bytes of `[base, base + len)`. -/
def wipe (s : Engine σ) (base len : Nat) : Engine σ := s.overwrite base len 0

/-- `FREE_PATTERN`. -/
def freePattern : Nat := 0xde

/-- `ALLOC_PATTERN`. -/
def allocPattern : Nat := 0xab

/-- `fill_on_free` and `fill_fresh_slab`, in the builds that have them. -/
def fill (E : Env σ) (s : Engine σ) (base len : Nat) : Engine σ :=
  if E.junkFill then s.overwrite base len freePattern else s

/-- `fill_on_alloc`. -/
def fillOnAlloc (E : Env σ) (s : Engine σ) (base len : Nat) : Engine σ :=
  if E.junkFill then s.overwrite base len allocPattern else s

def note (s : Engine σ) (e : Event) : Engine σ := { s with history := e :: s.history }

end Engine
end Topomalloc
