import Topomalloc.Machine
import Topomalloc.Provider
import Topomalloc.Lib.Bitmap

/-! The hugepage filler of `huge.rs`: one slot of four page bitmaps for each
hugepage of the region, and nine bins of the touched hugepages, each a doubly
linked list with a head and a tail. The definitions follow the source statement
by statement. A bitmap of `BITMAP_WORDS` words is one bit vector. -/
namespace Topomalloc
open Bitmap

/-- `HUGEPAGE_SIZE`. -/
def hugepageSize : Nat := 2097152

/-- `PAGES_PER_HUGEPAGE`. -/
abbrev pagesPerHugepage : Nat := 128

/-- One bit for each page of a hugepage. -/
abbrev PageBits : Type := BitVec pagesPerHugepage

/-- `Hotness`. -/
inductive Hotness
  | cold
  | neutral
  | hot
  deriving DecidableEq, Repr, Inhabited

namespace Hotness

/-- The discriminant. -/
def toNat : Hotness → Nat
  | .cold => 0
  | .neutral => 1
  | .hot => 2

def fromHint (hotness : Nat) : Hotness :=
  if hotness = 0 then .cold else if hotness ≥ 128 then .hot else .neutral

def join (a b : Hotness) : Hotness := if a.toNat ≥ b.toNat then a else b

end Hotness

/-- `lifetime_to_u8`. -/
def Lifetime.toNat : Lifetime → Nat
  | .unspecified => 0
  | .short => 1
  | .medium => 2
  | .long => 3

/-- `lifetime_join`. -/
def Lifetime.join (a b : Lifetime) : Lifetime := if a.toNat ≥ b.toNat then a else b

/-- `PlaceHints`. -/
structure PlaceHints where
  hotness : Hotness := .neutral
  lifetime : Lifetime := .unspecified
  deriving DecidableEq, Repr, Inhabited

/-- `HugeBin`. -/
inductive HugeBin
  | emptyBacked
  | nearlyEmpty
  | sparse
  | medium
  | nearlyFull
  | full
  | partialSubreleased
  | coldSparse
  | hotDense
  deriving DecidableEq, Repr, Inhabited

/-- The bins in the order of their discriminants. -/
def HugeBin.all : List HugeBin :=
  [.emptyBacked, .nearlyEmpty, .sparse, .medium, .nearlyFull, .full, .partialSubreleased,
    .coldSparse, .hotDense]

/-- `classify_bin`. -/
def classifyBin (used total subreleased : Nat) (hotness : Hotness) : HugeBin :=
  if subreleased > 0 then .partialSubreleased
  else if used = 0 then .emptyBacked
  else if used ≥ total then
    match hotness with
    | .hot => .hotDense
    | _ => .full
  else
    match used * 8 / total with
    | 0 => .nearlyEmpty
    | 1 | 2 =>
      match hotness with
      | .cold => .coldSparse
      | _ => .sparse
    | 3 | 4 => .medium
    | _ =>
      match hotness with
      | .hot => .hotDense
      | _ => .nearlyFull

/-- `PACKING_ORDER`. -/
def packingOrder : List HugeBin :=
  [.hotDense, .nearlyFull, .medium, .sparse, .coldSparse, .nearlyEmpty, .partialSubreleased, .emptyBacked]

/-- `SCAN_CAP`. -/
def scanCap : Nat := 64

/-- `FRAGMENTATION_COST_DIVISOR`. -/
def fragmentationCostDivisor : Nat := 8

/-- `LIFETIME_MISMATCH_WEIGHT`. -/
def lifetimeMismatchWeight : Int := 4

/-- `HugePageSlot`. The zeroed slot, an untouched hugepage, is the default one. -/
structure HugePageSlot where
  live : PageBits := 0
  committed : PageBits := 0
  released : PageBits := 0
  heads : PageBits := 0
  binPrev : Nat := 0
  binNext : Nat := 0
  runLen : Nat := 0
  inRun : Bool := false
  hotness : Hotness := .cold
  lifetime : Lifetime := .unspecified
  bin : HugeBin := .emptyBacked
  touched : Bool := false
  deriving DecidableEq, Repr, Inhabited

namespace HugePageSlot

def used (s : HugePageSlot) : Nat := popcount s.live

def subreleased (s : HugePageSlot) : Nat := popcount s.released

def targetBin (s : HugePageSlot) : HugeBin := classifyBin s.used pagesPerHugepage s.subreleased s.hotness

end HugePageSlot

/-- `Placement`. -/
structure Placement where
  hugepage : Nat
  base : Nat
  pages : Nat
  commitRun : Option (Nat × Nat)
  deriving DecidableEq, Repr

/-- `FreeReport`. -/
structure FreeReport where
  valid : Bool
  nowEmpty : Bool
  deriving DecidableEq, Repr

def FreeReport.invalid : FreeReport := ⟨false, false⟩

/-- `HugeRun`. -/
structure HugeRun where
  base : Nat
  hugepages : Nat
  commitRun : Option (Nat × Nat)
  deriving DecidableEq, Repr

/-- `Subrelease`. -/
structure Subrelease where
  hugepage : Nat
  regionOffset : Nat
  len : Nat
  deriving DecidableEq, Repr

/-- `HugePageFiller`. The slot array is a function of the index, read and
written only below `capacity`. -/
structure HugePageFiller where
  slots : Nat → HugePageSlot
  capacity : Nat
  regionBase : Nat
  nextUntouched : Nat
  bins : HugeBin → Nat
  binTails : HugeBin → Nat
  subreleaseEvents : Nat

namespace HugePageFiller
variable (f : HugePageFiller)

/-- `HugePageFiller::new`. `metaOk` is whether the metadata source supplied
the zeroed slot array; `slotBytes` is the size of one slot. -/
def new (metaOk : Bool) (slotBytes regionBase capacity : Nat) : Option HugePageFiller := do
  if capacity = 0 ∨ capacity > NIL ∨ ¬ hugepageSize ∣ regionBase then none
  else
    let len ← checkedMul capacity hugepageSize
    let _ ← checkedAdd len regionBase
    let _ ← checkedMul capacity slotBytes
    if metaOk = false then none
    else some { slots := fun _ => {}, capacity, regionBase, nextUntouched := 0,
                bins := fun _ => NIL, binTails := fun _ => NIL, subreleaseEvents := 0 }

abbrev get (f : HugePageFiller) (i : Nat) : HugePageSlot := f.slots i

def put (i : Nat) (s : HugePageSlot) : HugePageFiller := { f with slots := Function.update f.slots i s }

def hugeBase (i : Nat) : Nat := f.regionBase + i * hugepageSize

def indexOf (addr : Nat) : Option Nat :=
  if addr < f.regionBase then none
  else
    let i := (addr - f.regionBase) / hugepageSize
    if i < f.capacity then some i else none

def regionOffset (addr : Nat) : Nat := addr - f.regionBase

/-! ## The bins -/

def setBinHead (b : HugeBin) (v : Nat) : HugePageFiller := { f with bins := Function.update f.bins b v }

def setBinTail (b : HugeBin) (v : Nat) : HugePageFiller :=
  { f with binTails := Function.update f.binTails b v }

def setBinPrev (i v : Nat) : HugePageFiller := f.put i { f.get i with binPrev := v }

def setBinNext (i v : Nat) : HugePageFiller := f.put i { f.get i with binNext := v }

/-- `bin_insert`: a full hugepage goes to the tail of the list, any other one
to its head. -/
def binInsert (i : Nat) (b : HugeBin) : HugePageFiller :=
  let s := { f.get i with bin := b }
  if s.used ≥ pagesPerHugepage then
    let tail := f.binTails b
    let f := f.put i { s with binPrev := tail, binNext := NIL }
    let f := if tail ≠ NIL then f.setBinNext tail i else f.setBinHead b i
    f.setBinTail b i
  else
    let head := f.bins b
    let f := f.put i { s with binPrev := NIL, binNext := head }
    let f := if head ≠ NIL then f.setBinPrev head i else f.setBinTail b i
    f.setBinHead b i

def binRemove (i : Nat) : HugePageFiller :=
  let s := f.get i
  let f := if s.binPrev ≠ NIL then f.setBinNext s.binPrev s.binNext
    else f.setBinHead s.bin s.binNext
  if s.binNext ≠ NIL then f.setBinPrev s.binNext s.binPrev else f.setBinTail s.bin s.binPrev

def refile (i : Nat) : HugePageFiller :=
  let s := f.get i
  let target := s.targetBin
  let atRightEnd := if s.used ≥ pagesPerHugepage then f.binTails target == i else f.bins target == i
  if s.bin ≠ target ∨ atRightEnd = false then (f.binRemove i).binInsert i target else f

/-! ## Queries -/

/-- `next_empty_backed`: the next touched hugepage with no live page and some
committed one. -/
def nextEmptyBacked (start : Nat) : Option (Nat × Nat × Nat) :=
  ((List.range' start (f.nextUntouched - start)).find? fun i =>
    let s := f.get i
    s.touched && s.used == 0 && popcount s.committed != 0).map fun i =>
      (i, f.hugeBase i, popcount (f.get i).committed)

/-- `next_committed_run`: offset and length of the next run of committed
pages. -/
def nextCommittedRun (hp start : Nat) : Option (Nat × Nat) :=
  if hp ≥ f.nextUntouched then none
  else
    let s := f.get hp
    ((List.range' start (pagesPerHugepage - start)).find? fun k => s.committed.getLsbD k).map
      fun off => (off, ((List.range' off (pagesPerHugepage - off)).takeWhile fun k =>
        s.committed.getLsbD k).length)

/-! ## Placement -/

def alignStride (align : Nat) : Option Nat :=
  if isPowerOfTwo align = false ∨ align > hugepageSize then none
  else some (if align ≤ pageSize then 1 else align / pageSize)

/-- `run_is_fully_set`. -/
def runIsFullySet (b : PageBits) (start len : Nat) : Bool := runPopcount b start len == len

/-- The loop of `find_run_aligned`. The offset grows by the stride, which is
not zero, so one turn for each page of a hugepage is enough. -/
def findRunFrom (live : PageBits) (pages stride : Nat) : (fuel off : Nat) → Option Nat
  | 0, _ => none
  | fuel + 1, off =>
    if off + pages ≤ pagesPerHugepage then
      if runIsClear live off pages then some off
      else findRunFrom live pages stride fuel (off + stride)
    else none

def findRunAligned (live : PageBits) (pages stride : Nat) : Option Nat :=
  findRunFrom live pages stride (pagesPerHugepage + 1) 0

def score (s : HugePageSlot) (hints : PlaceHints) (runOffset pages : Nat) : Int :=
  let used : Int := s.used
  let hotnessMatch : Int := if s.hotness = hints.hotness then 4 else 0
  let lifeGap : Int := |(s.lifetime.toNat : Int) - hints.lifetime.toNat|
  let lifetimeMatch : Int :=
    if used = 0 then 0 else if lifeGap = 0 then 3 else -lifeGap * lifetimeMismatchWeight
  let releasePres : Int := if used = 0 then -3 else 0
  let commitBonus : Int := if runIsFullySet s.committed runOffset pages then 2 else 0
  let backedFreeAfter : Int := min (max ((popcount s.committed : Int) - used - pages) 0)
    pagesPerHugepage
  let fragmentation : Int := backedFreeAfter / 8 + min runOffset 8
  used + hotnessMatch + lifetimeMatch + releasePres + commitBonus - fragmentation - s.subreleased

def freshScore (hints : PlaceHints) : Int := (if hints.hotness = .neutral then 4 else 0) - 3

/-- A hugepage, the offset of a run in it and its score. -/
abbrev Candidate : Type := Nat × Nat × Int

/-- Whether `place` prefers the run at `off` of hugepage `i` to the best so far. -/
def better (best : Option Candidate) (i : Nat) (sc : Int) : Bool :=
  match best with
  | none => true
  | some (bi, _, bsc) => sc > bsc || (sc == bsc && f.hugeBase i < f.hugeBase bi)

/-- The walk of `place` over one bin, from `i` on: it reads at most `SCAN_CAP`
hugepages, the full ones included. -/
def scanBin (f : HugePageFiller) (pages stride : Nat) (hints : PlaceHints) :
    (budget i : Nat) → Option Candidate → (foundInBin : Bool) → Option Candidate × Bool
  | 0, _, best, found => (best, found)
  | budget + 1, i, best, found =>
    if i = NIL then (best, found)
    else
      let s := f.get i
      if s.used ≥ pagesPerHugepage then scanBin f pages stride hints budget s.binNext best found
      else match findRunAligned s.live pages stride with
        | none => scanBin f pages stride hints budget s.binNext best found
        | some off =>
          let sc := score s hints off pages
          let best := if f.better best i sc then some (i, off, sc) else best
          scanBin f pages stride hints budget s.binNext best true

/-- The descent of `place` through the bins, which stops after the first bin
with a usable run. -/
def scanBins (f : HugePageFiller) (pages stride : Nat) (hints : PlaceHints) :
    List HugeBin → Option Candidate → Option Candidate
  | [], best => best
  | b :: rest, best =>
    match f.scanBin pages stride hints scanCap (f.bins b) best false with
    | (best, true) => best
    | (best, false) => scanBins f pages stride hints rest best

/-- `open_fresh`. -/
def openFresh : Option (Nat × HugePageFiller) :=
  if f.nextUntouched ≥ f.capacity then none
  else
    let i := f.nextUntouched
    let f := { f with nextUntouched := f.nextUntouched + 1 }
    let f := f.put i { f.get i with touched := true, hotness := .neutral, lifetime := .unspecified }
    some (i, f.binInsert i .emptyBacked)

/-- The slot `carve` writes back. -/
def carved (s : HugePageSlot) (off pages : Nat) (hints : PlaceHints) : HugePageSlot :=
  { s with
    live := setRun s.live off pages, heads := bitSet s.heads off
    hotness := s.hotness.join hints.hotness, lifetime := s.lifetime.join hints.lifetime }

def carve (hp off pages : Nat) (hints : PlaceHints) : Placement × HugePageFiller :=
  let s := f.get hp
  let needsCommit := runPopcount s.committed off pages ≠ pages
  let f := (f.put hp (carved s off pages hints)).refile hp
  let base := f.hugeBase hp + off * pageSize
  let commitRun := if needsCommit then some (f.regionOffset base, pages * pageSize) else none
  ({ hugepage := hp, base, pages, commitRun }, f)

/-- The hugepage and offset `place` carves at, once the scan is done: a fresh
hugepage when there is no candidate or a fresh one scores better. -/
def choose (hints : PlaceHints) :
    Option Candidate → Option (Nat × Nat × HugePageFiller)
  | some (hp, off, sc) =>
    if sc < freshScore hints ∧ f.nextUntouched < f.capacity then
      match f.openFresh with
      | some (fresh, f) => some (fresh, 0, f)
      | none => some (hp, off, f)
    else some (hp, off, f)
  | none => f.openFresh.map fun (fresh, f) => (fresh, 0, f)

/-- `HugePageFiller::place`. -/
def place (pages align : Nat) (hints : PlaceHints) : Option (Placement × HugePageFiller) :=
  if pages = 0 ∨ pages > pagesPerHugepage then none
  else match alignStride align with
    | none => none
    | some stride =>
      (f.choose hints (f.scanBins pages stride hints packingOrder none)).map
        fun (hp, off, f) => f.carve hp off pages hints

/-! ## Packed runs -/

def validateRun (hp base pages : Nat) : Option Nat :=
  if hp ≥ f.capacity ∨ pages = 0 then none
  else if base < f.hugeBase hp then none
  else
    let byteOff := base - f.hugeBase hp
    if ¬ pageSize ∣ byteOff then none
    else
      let off := byteOff / pageSize
      if off ≥ pagesPerHugepage ∨ pages > pagesPerHugepage - off then none else some off

/-- The slot after the run at `off` was committed. -/
def backed (s : HugePageSlot) (off pages : Nat) : HugePageSlot :=
  { s with committed := setRun s.committed off pages, released := clearRun s.released off pages }

def markCommitted (p : Placement) : HugePageFiller :=
  match f.validateRun p.hugepage p.base p.pages with
  | none => f
  | some off => (f.put p.hugepage (backed (f.get p.hugepage) off p.pages)).refile p.hugepage

/-- The checks `free` and `trim` share: the run is exactly one packed
allocation. -/
def isAllocation (s : HugePageSlot) (off pages : Nat) : Bool :=
  runPopcount s.live off pages == pages && !s.inRun && s.heads.getLsbD off &&
    ((List.range' (off + 1) (pages - 1)).all fun e => !s.heads.getLsbD e) &&
    !(decide (off + pages < pagesPerHugepage) && s.live.getLsbD (off + pages) &&
      !s.heads.getLsbD (off + pages))

/-- The slot `free` writes back. -/
def freed (s : HugePageSlot) (off pages : Nat) : HugePageSlot :=
  let s := { s with heads := bitClear s.heads off, live := clearRun s.live off pages }
  if popcount s.live = 0 then { s with hotness := .neutral, lifetime := .unspecified } else s

def free (base pages : Nat) : FreeReport × HugePageFiller :=
  match f.indexOf base with
  | none => (.invalid, f)
  | some hp =>
    let s := f.get hp
    if s.touched = false ∨ pages = 0 ∨ ¬ pageSize ∣ base - f.regionBase then (.invalid, f)
    else
      let off := (base - f.hugeBase hp) / pageSize
      if off + pages > pagesPerHugepage then (.invalid, f)
      else if isAllocation s off pages = false then (.invalid, f)
      else
        let s := freed s off pages
        (⟨true, popcount s.live == 0⟩, (f.put hp s).refile hp)

/-- The slot `trim` writes back. -/
def trimmed (s : HugePageSlot) (off oldPages newPages : Nat) : HugePageSlot :=
  { s with live := clearRun s.live (off + newPages) (oldPages - newPages) }

def trim (base oldPages newPages : Nat) : Bool × HugePageFiller :=
  if newPages = 0 ∨ newPages ≥ oldPages then (false, f)
  else match f.indexOf base with
    | none => (false, f)
    | some hp =>
      let s := f.get hp
      if s.touched = false ∨ ¬ pageSize ∣ base - f.regionBase then (false, f)
      else
        let off := (base - f.hugeBase hp) / pageSize
        if off + oldPages > pagesPerHugepage then (false, f)
        else if isAllocation s off oldPages = false then (false, f)
        else (true, (f.put hp (trimmed s off oldPages newPages)).refile hp)

/-- The slot after the run at `off` was given up. -/
def unbacked (s : HugePageSlot) (off pages : Nat) : HugePageSlot :=
  { s with committed := clearRun s.committed off pages, released := setRun s.released off pages }

/-- Whether the subrelease policy lets pages of this hugepage go. -/
def coldOrSparse (s : HugePageSlot) : Bool :=
  (match s.bin with
    | .coldSparse | .sparse | .nearlyEmpty | .emptyBacked => true
    | _ => false) || s.hotness == .cold

def subrelease (base pages : Nat) (pressureHigh : Bool) : Option (Subrelease × HugePageFiller) :=
  match f.indexOf base with
  | none => none
  | some hp =>
    let s := f.get hp
    if s.touched = false ∨ pages = 0 ∨ ¬ pageSize ∣ base - f.regionBase then none
    else
      let off := (base - f.hugeBase hp) / pageSize
      if off + pages > pagesPerHugepage then none
      else if runIsClear s.live off pages = false then none
      else if runPopcount s.committed off pages ≠ pages then none
      else if (coldOrSparse s || pressureHigh) = false then none
      else if pressureHigh = false ∧ pages < s.used / fragmentationCostDivisor then none
      else
        let f := (f.put hp (unbacked s off pages)).refile hp
        let f := { f with subreleaseEvents := f.subreleaseEvents + 1 }
        some ({ hugepage := hp, regionOffset := f.regionOffset base, len := pages * pageSize }, f)

def unsubrelease (sr : Subrelease) : HugePageFiller :=
  let pages := sr.len / pageSize
  match checkedAdd f.regionBase sr.regionOffset with
  | none => f
  | some base =>
    match f.validateRun sr.hugepage base pages with
    | none => f
    | some off => (f.put sr.hugepage (backed (f.get sr.hugepage) off pages)).refile sr.hugepage

/-! ## Whole-hugepage runs -/

/-- The loop of `find_consecutive_empty` over the touched hugepages, `run` of
which were empty just before. -/
def findConsecutiveFrom (f : HugePageFiller) (n : Nat) : List Nat → (run : Nat) → Option Nat
  | [], _ => none
  | i :: rest, run =>
    if (f.get i).used = 0 then
      if run + 1 = n then some (i + 1 - n) else findConsecutiveFrom f n rest (run + 1)
    else findConsecutiveFrom f n rest 0

def findConsecutiveEmpty (n : Nat) : Option Nat := f.findConsecutiveFrom n (List.range f.nextUntouched) 0

/-- The slot of a hugepage that a run opens. -/
def opened (s : HugePageSlot) : HugePageSlot :=
  { s with touched := true, bin := .emptyBacked, binPrev := NIL, binNext := NIL }

/-- The first half of one turn of the loop of `reserve_hugepages`: an untouched
hugepage enters the empty bin. -/
def touch (j : Nat) : HugePageFiller :=
  if (f.get j).touched = false then (f.put j (opened (f.get j))).binInsert j .emptyBacked else f

/-- The second half: carve the whole hugepage. -/
def carveWhole (acc : Bool × HugePageFiller) (j : Nat) : Bool × HugePageFiller :=
  let (p, f) := acc.2.carve j 0 pagesPerHugepage {}
  (acc.1 || p.commitRun.isSome, f)

def markRun (start n : Nat) : HugePageFiller :=
  (List.range' start n).foldl
    (fun f j => f.put j { f.get j with inRun := true, runLen := if j = start then n else 0 }) f

/-- What both reservations end with: mark the run, and name what is left to
commit. -/
def runOf (needsCommit : Bool) (start base n : Nat) : HugeRun × HugePageFiller :=
  let f := f.markRun start n
  let commitRun := if needsCommit then some (f.regionOffset base, n * hugepageSize) else none
  ({ base, hugepages := n, commitRun }, f)

def reserveHugepages (n : Nat) : Option (HugeRun × HugePageFiller) :=
  if n = 0 ∨ n > f.capacity then none
  else
    let found : Option (Nat × HugePageFiller) :=
      match f.findConsecutiveEmpty n with
      | some s => some (s, f)
      | none =>
        if f.nextUntouched + n > f.capacity then none
        else some (f.nextUntouched, { f with nextUntouched := f.nextUntouched + n })
    found.map fun (start, f) =>
      let (needsCommit, f) := (List.range' start n).foldl
        (fun acc j => carveWhole (acc.1, acc.2.touch j) j) (false, f)
      f.runOf needsCommit start (f.hugeBase start) n

def reserveHugepagesAt (base n : Nat) : Option (HugeRun × HugePageFiller) :=
  match f.indexOf base with
  | none => none
  | some start =>
    if base ≠ f.hugeBase start ∨ n = 0 ∨ start + n > f.capacity then none
    else if (List.range' start n).any fun j => !(f.get j).touched || (f.get j).used != 0 then none
    else
      let (needsCommit, f) := (List.range' start n).foldl carveWhole (false, f)
      some (f.runOf needsCommit start base n)

/-- The slot of a committed run member. -/
def wholeBacked (s : HugePageSlot) : HugePageSlot := { s with committed := s.live, released := 0 }

def markRunCommitted (run : HugeRun) : HugePageFiller :=
  match f.indexOf run.base with
  | none => f
  | some start =>
    if run.base ≠ f.hugeBase start then f
    else if run.hugepages = 0 ∨ run.hugepages > f.capacity ∨ start > f.capacity - run.hugepages then f
    else (List.range' start run.hugepages).foldl (fun f j => (f.put j (wholeBacked (f.get j))).refile j) f

/-- The slot of a freed run member. -/
def wholeFreed (s : HugePageSlot) : HugePageSlot :=
  { s with
    live := 0, heads := 0, inRun := false, runLen := 0, hotness := .neutral
    lifetime := .unspecified }

def freeHugepages (base n : Nat) : FreeReport × HugePageFiller :=
  match f.indexOf base with
  | none => (.invalid, f)
  | some start =>
    if n = 0 ∨ start + n > f.capacity ∨ ¬ hugepageSize ∣ base - f.regionBase then (.invalid, f)
    else if (f.get start).runLen ≠ n then (.invalid, f)
    else if (List.range' start n).any fun j =>
        !(f.get j).touched || !(f.get j).inRun || (f.get j).used != pagesPerHugepage then
      (.invalid, f)
    else (⟨true, true⟩, (List.range' start n).foldl (fun f j => (f.put j (wholeFreed (f.get j))).refile j) f)

def markCold (addr : Nat) : Bool × HugePageFiller :=
  match f.indexOf addr with
  | none => (false, f)
  | some i =>
    let s := f.get i
    if s.touched = false then (false, f)
    else (true, (f.put i { s with hotness := .cold }).refile i)

/-! ## The self-check -/

/-- The per-slot half of `check_invariants`. -/
def slotOk (i : Nat) : Bool :=
  let s := f.get i
  if i ≥ f.nextUntouched then
    !s.touched && popcount s.live == 0 && popcount s.committed == 0 && popcount s.heads == 0 &&
      !s.inRun && s.runLen == 0
  else
    s.touched && s.live &&& ~~~s.committed == 0 && s.committed &&& s.released == 0 &&
      s.live &&& s.released == 0 && s.heads &&& ~~~s.live == 0 &&
      !(s.inRun && s.used != pagesPerHugepage) && !(s.runLen != 0 && !s.inRun) &&
      s.bin == s.targetBin

/-- How many touched hugepages carry the tag of bin `b`. -/
def binned (b : HugeBin) : Nat :=
  (List.range f.capacity).countP fun i => decide (i < f.nextUntouched) && (f.get i).bin == b

/-- The walk of `check_invariants` over one bin. It answers how many hugepages
it met and the last one; the fuel is the cycle guard. -/
def walkBin (f : HugePageFiller) (b : HugeBin) :
    (fuel j prev seen : Nat) → (seenFull : Bool) → Option (Nat × Nat)
  | 0, j, prev, seen, _ => if j = NIL then some (seen, prev) else none
  | fuel + 1, j, prev, seen, seenFull =>
    if j = NIL then some (seen, prev)
    else
      let s := f.get j
      if s.touched = false ∨ s.bin ≠ b ∨ s.binPrev ≠ prev then none
      else
        let full := decide (s.used ≥ pagesPerHugepage)
        if seenFull && !full then none
        else walkBin f b fuel s.binNext j (seen + 1) (seenFull || full)

def checkInvariants : Bool :=
  (List.range f.capacity).all f.slotOk &&
    HugeBin.all.all fun b =>
      match f.walkBin b f.capacity (f.bins b) NIL 0 false with
      | none => false
      | some (seen, last) => seen == f.binned b && f.binTails b == last

end HugePageFiller
end Topomalloc
