import Topomalloc.Machine

/-! The bookkeeping core of `extent.rs`: a fixed pool of extent descriptors
with an address-ordered list, size-segregated bins of the free extents and a
stack of unused slots. The definitions follow the source statement by
statement; the split and merge notifications are left out, since the source
discards their answers and never reads them. -/
namespace Topomalloc

/-- `ExtentState` (§20.1). -/
inductive ExtentState
  | reserved
  | active
  | dirty
  | muzzy
  | released
  deriving DecidableEq, Repr, Inhabited

namespace ExtentState

def isFree (s : ExtentState) : Bool := s != .active

def isBacked : ExtentState → Bool
  | .active | .dirty | .muzzy => true
  | .reserved | .released => false

/-- `ExtentState::can_transition`: reflexive, plus the edges of the
physical-state operations. -/
def canTransition (s target : ExtentState) : Bool :=
  if s = target then true
  else match s, target with
    | .reserved, .active | .dirty, .active | .muzzy, .active | .released, .active => true
    | .active, .dirty | .active, .released => true
    | .reserved, .dirty | .released, .dirty => true
    | .dirty, .muzzy => true
    | .reserved, .released | .dirty, .released | .muzzy, .released => true
    | _, _ => false

/-- A free extent that was released or reserved is dirty once backed again. -/
def recommitted (s : ExtentState) : ExtentState := if s.isFree && !s.isBacked then .dirty else s

end ExtentState

/-- `Fit`. -/
inductive Fit
  | first
  | best
  deriving DecidableEq, Repr

/-- A generation-checked handle to an extent. -/
structure ExtentRef where
  id : Nat
  generation : Nat
  deriving DecidableEq, Repr

/-- One pool slot. The zeroed slot is the default one. -/
structure Slot where
  base : Nat := 0
  len : Nat := 0
  committedLen : Nat := 0
  hugeBase : Nat := 0
  hugeLen : Nat := 0
  arena : Nat := 0
  splitGen : Nat := 0
  generation : Nat := 0
  flags : Nat := 0
  addrPrev : Nat := 0
  addrNext : Nat := 0
  binPrev : Nat := 0
  binNext : Nat := 0
  freeNext : Nat := 0
  state : ExtentState := .reserved
  occupied : Bool := false
  canary : Bool := false
  deriving DecidableEq, Repr, Inhabited

/-- The read-only snapshot `Extent` handed to callers. -/
structure Extent where
  id : Nat
  arena : Nat
  base : Nat
  len : Nat
  committedLen : Nat
  state : ExtentState
  hugeBase : Nat
  hugeLen : Nat
  splitGeneration : Nat
  generation : Nat
  flags : Nat
  deriving DecidableEq, Repr

/-- `Extent::end`, saturating. -/
def Extent.stop (e : Extent) : Nat := min (e.base + e.len) usizeMax

/-- `NBINS`. -/
def nbins : Nat := 65

/-- `bin_index`: the bit length of the page count. -/
def binIndex (pages : Nat) : Nat := if pages = 0 then 0 else pages.log2 + 1

/-- `ExtentMap`. The slot array is a function of the index, read and written
only below `cap`. -/
structure ExtentMap where
  slots : Nat → Slot
  cap : Nat
  regionBase : Nat
  regionLen : Nat
  arena : Nat
  freeSlotHead : Nat
  unusedSlots : Nat
  addrHead : Nat
  addrTail : Nat
  bins : Nat → Nat
  freeBytes : Nat
  committedBytes : Nat

namespace ExtentMap
variable (m : ExtentMap)

abbrev get (m : ExtentMap) (i : Nat) : Slot := m.slots i

def put (i : Nat) (s : Slot) : ExtentMap := { m with slots := Function.update m.slots i s }

/-! ## The slot pool -/

def popSlot : Option (Nat × ExtentMap) :=
  let i := m.freeSlotHead
  if i = NIL then none
  else
    let s := m.get i
    let m := { m with freeSlotHead := s.freeNext, unusedSlots := m.unusedSlots - 1 }
    some (i, m.put i { s with freeNext := NIL, generation := wrappingSucc32 s.generation })

def pushSlot (i : Nat) : ExtentMap :=
  let s := m.get i
  let m := m.put i { s with
    occupied := false, generation := wrappingSucc32 s.generation, freeNext := m.freeSlotHead }
  { m with freeSlotHead := i, unusedSlots := m.unusedSlots + 1 }

/-! ## Link writes -/

def setBinPrev (i v : Nat) : ExtentMap := m.put i { m.get i with binPrev := v }

def setBinNext (i v : Nat) : ExtentMap := m.put i { m.get i with binNext := v }

def setBinHead (b v : Nat) : ExtentMap := { m with bins := Function.update m.bins b v }

def setAddrPrev (i v : Nat) : ExtentMap := m.put i { m.get i with addrPrev := v }

def setAddrNext (i v : Nat) : ExtentMap := m.put i { m.get i with addrNext := v }

def setAddrHead (v : Nat) : ExtentMap := { m with addrHead := v }

def setAddrTail (v : Nat) : ExtentMap := { m with addrTail := v }

/-! ## The size bins -/

def binInsert (i : Nat) : ExtentMap :=
  let b := binIndex ((m.get i).len / pageSize)
  let head := m.bins b
  let m := (m.setBinPrev i NIL).setBinNext i head
  let m := if head ≠ NIL then m.setBinPrev head i else m
  m.setBinHead b i

def binRemove (i : Nat) : ExtentMap :=
  let s := m.get i
  let b := binIndex (s.len / pageSize)
  let m := if s.binPrev ≠ NIL then m.setBinNext s.binPrev s.binNext else m.setBinHead b s.binNext
  let m := if s.binNext ≠ NIL then m.setBinPrev s.binNext s.binPrev else m
  (m.setBinPrev i NIL).setBinNext i NIL

/-! ## The address-ordered list -/

def addrInsertAfter (new after : Nat) : ExtentMap :=
  let next := if after = NIL then m.addrHead else (m.get after).addrNext
  let m := (m.setAddrPrev new after).setAddrNext new next
  let m := if after = NIL then m.setAddrHead new else m.setAddrNext after new
  if next = NIL then m.setAddrTail new else m.setAddrPrev next new

def addrRemove (i : Nat) : ExtentMap :=
  let s := m.get i
  let m := if s.addrPrev ≠ NIL then m.setAddrNext s.addrPrev s.addrNext else m.setAddrHead s.addrNext
  if s.addrNext ≠ NIL then m.setAddrPrev s.addrNext s.addrPrev else m.setAddrTail s.addrPrev

/-! ## Construction -/

/-- One turn of the loop of `new` that builds the unused-slot stack. -/
def stackSlot (i : Nat) : ExtentMap :=
  let m := m.put i { m.get i with freeNext := m.freeSlotHead }
  { m with freeSlotHead := i, unusedSlots := m.unusedSlots + 1 }

/-- The map `new` starts from: zeroed slots, none of them stacked yet. -/
def empty (regionBase regionLen slotCap : Nat) : ExtentMap :=
  { slots := fun _ => {}, cap := slotCap, regionBase, regionLen, arena := 0,
    freeSlotHead := NIL, unusedSlots := 0, addrHead := NIL, addrTail := NIL,
    bins := fun _ => NIL, freeBytes := 0, committedBytes := 0 }

/-- The end of `new`: one free, unbacked extent over the whole region. -/
def seed (id : Nat) : ExtentMap :=
  let m := m.put id { m.get id with
    base := m.regionBase, len := m.regionLen, committedLen := 0, hugeBase := 0, hugeLen := 0,
    arena := 0, splitGen := 0, flags := 0, state := .reserved, occupied := true,
    canary := false, addrPrev := NIL, addrNext := NIL }
  let m := { m with addrHead := id, addrTail := id }
  let m := m.binInsert id
  { m with freeBytes := m.regionLen }

/-- `ExtentMap::new`. `metaOk` is whether the metadata source supplied the
zeroed slot array; `slotBytes` is the size of one slot. -/
def new (metaOk : Bool) (slotBytes regionBase regionLen slotCap : Nat) : Option ExtentMap := do
  if regionLen = 0 ∨ slotCap = 0 ∨ ¬ pageSize ∣ regionBase ∨ ¬ pageSize ∣ regionLen ∨
      slotCap > NIL ∨ (checkedAdd regionBase regionLen).isNone then none
  else
    let _ ← checkedMul slotCap slotBytes
    if metaOk = false then none
    else
      let m := (List.range slotCap).reverse.foldl stackSlot (empty regionBase regionLen slotCap)
      let (id, m) ← m.popSlot
      some (m.seed id)

def setArena (arena : Nat) : ExtentMap :=
  let m := { m with arena }
  let head := m.addrHead
  if head ≠ NIL then m.put head { m.get head with arena } else m

/-! ## Queries -/

def snapshot (i : Nat) (s : Slot) : Extent :=
  { id := i, arena := s.arena, base := s.base, len := s.len, committedLen := s.committedLen,
    state := s.state, hugeBase := s.hugeBase, hugeLen := s.hugeLen,
    splitGeneration := s.splitGen, generation := s.generation, flags := s.flags }

def view (id : Nat) : Option Extent :=
  if id ≥ m.cap then none
  else
    let s := m.get id
    if s.occupied = false then none else some (snapshot id s)

def resolve (r : ExtentRef) : Option Extent :=
  match m.view r.id with
  | none => none
  | some e => if e.generation = r.generation then some e else none

/-- `addr_next`. -/
def addrNextOf (id : Nat) : Option Nat :=
  let n := (m.get id).addrNext
  if n ≠ NIL then some n else none

/-! ## Split, merge, coalesce, absorb -/

/-- The descriptor `split_in` writes for the right half, over the popped slot
`r`. Backing splits cleanly: it is all or nothing. -/
def rightHalf (parent : Extent) (parentCanary : Bool) (prefixLen : Nat) (r : Slot) : Slot :=
  let suffixLen := parent.len - prefixLen
  { r with
    base := parent.base + prefixLen, len := suffixLen
    committedLen := if parent.committedLen = parent.len then suffixLen else 0
    hugeBase := 0, hugeLen := 0, arena := parent.arena
    splitGen := wrappingSucc32 parent.splitGeneration, flags := parent.flags
    state := parent.state, occupied := true, canary := parentCanary }

/-- The shrunk left half. -/
def leftHalf (parent : Extent) (prefixLen : Nat) (ls : Slot) : Slot :=
  { ls with
    len := prefixLen, committedLen := if parent.committedLen = parent.len then prefixLen else 0
    splitGen := wrappingSucc32 ls.splitGen }

/-- `split_in` after its only fallible step, the pop of `right`: install the
right half, shrink the left one, then publish both. -/
def installSplit (parent : Extent) (id right prefixLen : Nat) : ExtentMap :=
  let m := m.put right (rightHalf parent (m.get id).canary prefixLen (m.get right))
  let wasFree := (m.get id).state.isFree
  let m := if wasFree then m.binRemove id else m
  let m := m.put id (leftHalf parent prefixLen (m.get id))
  let m := m.addrInsertAfter right id
  if wasFree then (m.binInsert id).binInsert right else m

def splitIn (id prefixLen : Nat) : Option (Nat × ExtentMap) :=
  match m.view id with
  | none => none
  | some parent =>
    if prefixLen = 0 ∨ prefixLen ≥ parent.len ∨ ¬ pageSize ∣ prefixLen then none
    else match m.popSlot with
      | none => none
      | some (right, m) => some (right, m.installSplit parent id right prefixLen)

def mergeable (left right : Extent) : Bool :=
  left.stop = right.base && left.arena = right.arena && left.state.isFree && right.state.isFree &&
    (decide (left.committedLen = left.len) == decide (right.committedLen = right.len)) &&
    left.hugeLen = 0 && right.hugeLen = 0

/-- The descriptor `merge_in` writes over the left extent's slot `ls`. -/
def mergedSlot (lv rv : Extent) (rightCanary : Bool) (ls : Slot) : Slot :=
  let len := lv.len + rv.len
  let committedLen := lv.committedLen + rv.committedLen
  { ls with
    len, committedLen, splitGen := wrappingSucc32 ls.splitGen
    canary := ls.canary && rightCanary
    state := if committedLen = len then .dirty else .released }

/-- `merge_in` after its checks. -/
def installMerge (lv rv : Extent) (left right : Nat) : ExtentMap :=
  let rightCanary := (m.get right).canary
  let m := m.binRemove left
  let m := m.binRemove right
  let m := m.addrRemove right
  let m := m.put left (mergedSlot lv rv rightCanary (m.get left))
  let m := m.binInsert left
  m.pushSlot right

def mergeIn (left right : Nat) : Bool × ExtentMap :=
  match m.view left, m.view right with
  | some lv, some rv =>
    if left = right ∨ mergeable lv rv = false then (false, m)
    else (true, m.installMerge lv rv left right)
  | _, _ => (false, m)

def coalesceIn (id : Nat) : Nat × ExtentMap :=
  let next := (m.get id).addrNext
  let m := if next ≠ NIL then (m.mergeIn id next).2 else m
  let prev := (m.get id).addrPrev
  if prev ≠ NIL then
    match m.mergeIn prev id with
    | (true, m) => (prev, m)
    | (false, m) => (id, m)
  else (id, m)

/-- The descriptor of the active extent that absorbed the bytes of `rv`. -/
def grownSlot (rv s : Slot) : Slot :=
  { s with
    len := s.len + rv.len, committedLen := s.committedLen + rv.committedLen
    splitGen := wrappingSucc32 s.splitGen, canary := false }

def absorbNextIn (id next : Nat) : ExtentMap :=
  let rv := m.get next
  let m := m.binRemove next
  let m := m.addrRemove next
  let m := m.put id (grownSlot rv (m.get id))
  let m := { m with freeBytes := m.freeBytes - rv.len }
  m.pushSlot next

/-! ## Allocation -/

/-- A fit found by the scan: the slot, the aligned base and the prefix it
costs. -/
structure Hit where
  slot : Nat
  aligned : Nat
  before : Nat
  deriving DecidableEq, Repr

/-- The aligned base inside `s` and the prefix it costs, if `s` is large
enough. -/
def fits (s : Slot) (neededLen align : Nat) : Option (Nat × Nat) :=
  match alignUp s.base align with
  | none => none
  | some aligned =>
    let before := aligned - s.base
    match checkedAdd before neededLen with
    | none => none
    | some total => if s.len ≥ total then some (aligned, before) else none

/-- How the scan of one bin ended: `stop` is a `return` out of `find_fit`,
`go` falls out of the loop with the steps that are left. -/
inductive Scan
  | stop (best : Option Hit)
  | go (fuel : Nat) (best : Option Hit)

/-- `Fit::Best` keeps the smaller of the two extents, the earlier on a tie. -/
def keepBest (best : Option Hit) (hit : Hit) : Option Hit :=
  match best with
  | none => some hit
  | some b => if (m.get hit.slot).len < (m.get b.slot).len then some hit else some b

/-- The inner loop of `find_fit`; `fuel` is `step_cap - steps`. -/
def scanBin (m : ExtentMap) (neededLen align : Nat) (fit : Fit) :
    Nat → Nat → Option Hit → Scan
  | fuel, i, best =>
    if i = NIL then .go fuel best
    else match fuel with
      | 0 => .stop best
      | fuel + 1 =>
        let s := m.get i
        match fits s neededLen align with
        | none => scanBin m neededLen align fit fuel s.binNext best
        | some (aligned, before) =>
          match fit with
          | .first => .stop (some ⟨i, aligned, before⟩)
          | .best => scanBin m neededLen align fit fuel s.binNext (m.keepBest best ⟨i, aligned, before⟩)

/-- The outer loop of `find_fit`. -/
def scanBins (m : ExtentMap) (neededLen align : Nat) (fit : Fit) :
    List Nat → Nat → Option Hit → Option Hit
  | [], _, best => best
  | b :: rest, fuel, best =>
    match m.scanBin neededLen align fit fuel (m.bins b) best with
    | .stop best => best
    | .go fuel best =>
      if fit = .best ∧ best.isSome then best else m.scanBins neededLen align fit rest fuel best

def findFit (neededLen align : Nat) (fit : Fit) : Option Hit :=
  let start := binIndex (neededLen / pageSize)
  m.scanBins neededLen align fit (List.range' start (nbins - start)) m.cap none

/-- Mark the carved extent active and take it out of the free index. -/
def activate (active : Nat) : ExtentMap :=
  let m := m.binRemove active
  let s := m.get active
  let m := m.put active { s with state := .active }
  { m with freeBytes := m.freeBytes - s.len }

/-- `carve_in` once its extent is aligned: trim the tail past `neededLen`, then
activate. -/
def carveAligned (active neededLen : Nat) : Option Nat × ExtentMap :=
  if (m.get active).len > neededLen then
    match m.splitIn active neededLen with
    | none => (none, m)
    | some (_, m) => (some active, m.activate active)
  else (some active, m.activate active)

/-- `carve_in`. The map is returned on every exit, as a `?` after the first
split would leave it. -/
def carveIn (neededLen align : Nat) (fit : Fit) : Option Nat × ExtentMap :=
  if neededLen = 0 ∨ ¬ pageSize ∣ neededLen ∨ isPowerOfTwo align = false then (none, m)
  else match m.findFit neededLen align fit with
    | none => (none, m)
    | some hit =>
      let avail := (m.get hit.slot).len
      let splits := (if hit.before > 0 then 1 else 0) + (if avail - hit.before > neededLen then 1 else 0)
      if m.unusedSlots < splits then (none, m)
      else match (if hit.before > 0 then m.splitIn hit.slot hit.before else some (hit.slot, m)) with
        | none => (none, m)
        | some (active, m) => m.carveAligned active neededLen

/-! ## Free and the physical-state transitions -/

def freeInCanary (id : Nat) (newState : ExtentState) (canary : Bool) : Option (Nat × ExtentMap) :=
  match m.view id with
  | none => none
  | some e =>
    if e.state ≠ .active ∨ e.state.canTransition newState = false then none
    else
      let s := m.get id
      let m := m.put id { s with state := newState, canary := canary && newState == .dirty }
      let m := { m with freeBytes := m.freeBytes + e.len }
      let m := m.binInsert id
      some (m.coalesceIn id)

def freeIn (id : Nat) (newState : ExtentState) : Option (Nat × ExtentMap) := m.freeInCanary id newState false

def markCommitted (id : Nat) : Nat × ExtentMap :=
  let s := m.get id
  let newly := s.len - s.committedLen
  let m := m.put id { s with
    committedLen := s.len, canary := if newly > 0 then false else s.canary,
    state := s.state.recommitted }
  (newly, { m with committedBytes := m.committedBytes + newly })

def markDecommitted (id : Nat) (newState : ExtentState) : Nat × ExtentMap :=
  let s := m.get id
  let was := s.committedLen
  let m := m.put id { s with committedLen := 0, canary := false, state := newState }
  (was, { m with committedBytes := m.committedBytes - was })

def setState (id : Nat) (newState : ExtentState) : Bool × ExtentMap :=
  match m.view id with
  | none => (false, m)
  | some _ =>
    let s := m.get id
    (true, m.put id { s with
      canary := if newState ≠ .dirty then false else s.canary, state := newState })

/-- `extent_canary`. -/
def extentCanary (id : Nat) : Bool := (m.get id).canary

/-! ## The invariant oracle -/

/-- The loop of `is_in_bin`; it gives up once `steps > cap`. -/
def reachesFrom (m : ExtentMap) (i : Nat) : Nat → Nat → Bool
  | fuel, j =>
    if j = NIL then false
    else if j = i then true
    else match fuel with
      | 0 => false
      | fuel + 1 => reachesFrom m i fuel (m.get j).binNext

def isInBin (i : Nat) : Bool := m.reachesFrom i m.cap (m.bins (binIndex ((m.get i).len / pageSize)))

/-- What the address walk has accumulated when it falls off the list. -/
structure Walk where
  cursor : Nat
  prev : Nat
  listed : Nat
  freeBytes : Nat
  committed : Nat

/-- The checks one turn of the address walk makes on slot `i`. -/
def slotOk (i prev cursor : Nat) : Bool :=
  let s := m.get i
  s.occupied && s.addrPrev = prev && s.base = cursor && !(s.len = 0 || !decide (pageSize ∣ s.len)) &&
    !(s.committedLen ≠ 0 && s.committedLen ≠ s.len) &&
    !(s.state.isFree && s.state.isBacked != decide (s.committedLen = s.len)) &&
    s.state.isFree == m.isInBin i && (checkedAdd cursor s.len).isSome

/-- The address walk of `check_invariants`; `fuel` is `cap - listed`. -/
def walkAddr (m : ExtentMap) : Nat → Nat → Walk → Option Walk
  | fuel, i, w =>
    if i = NIL then some w
    else if m.slotOk i w.prev w.cursor = false then none
    else match fuel with
      | 0 => none
      | fuel + 1 =>
        let s := m.get i
        walkAddr m fuel s.addrNext
          { cursor := w.cursor + s.len, prev := i, listed := w.listed + 1,
            freeBytes := w.freeBytes + (if s.state.isFree then s.len else 0),
            committed := w.committed + s.committedLen }

/-- The walk of one bin; `fuel` is `cap - seen`. -/
def walkBin (m : ExtentMap) (b : Nat) : Nat → Nat → Bool
  | fuel, j =>
    if j = NIL then true
    else
      let s := m.get j
      if s.occupied = false ∨ s.state.isFree = false ∨ binIndex (s.len / pageSize) ≠ b then false
      else match fuel with
        | 0 => false
        | fuel + 1 => walkBin m b fuel s.binNext

def checkInvariants : Bool :=
  match m.walkAddr m.cap m.addrHead
      { cursor := m.regionBase, prev := NIL, listed := 0, freeBytes := 0, committed := 0 } with
  | none => false
  | some w =>
    w.cursor = m.regionBase + m.regionLen && m.addrTail = w.prev &&
      w.freeBytes = m.freeBytes && w.committed = m.committedBytes &&
      w.listed + m.unusedSlots = m.cap &&
      (List.range nbins).all fun b => m.walkBin b m.cap (m.bins b)

end ExtentMap
end Topomalloc
