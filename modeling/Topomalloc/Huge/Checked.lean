import Topomalloc.Huge.Filler

/-! The filler as a release build runs it. Reading or writing a slot asserts
that the index is in the table, so every call may stop there: the answer `none`
of a call is that stop. Sums of `usize` and of `u32` wrap, and a loop up to a
sum that wrapped makes no turn.

Only the accesses and the sums differ from `Filler`; the pure helpers are
shared. -/
namespace Topomalloc
open Function Bitmap

namespace HugePageFiller

/-- The turns of a loop that starts at `off` and runs while it is below
`off + pages`, a sum of `usize`. -/
def turns (off pages : Nat) : Nat := (off + pages) % 2 ^ 64 - off

/-- The same over slot indices, where the count is cut to `u32` first. -/
def runTurns (start n : Nat) : Nat := (start + n % 2 ^ 32) % 2 ^ 32 - start

namespace Checked
variable (f : HugePageFiller)

/-! ## Slots and bins -/

def get (f : HugePageFiller) (i : Nat) : Option HugePageSlot :=
  if i < f.capacity then some (f.get i) else none

def put (f : HugePageFiller) (i : Nat) (s : HugePageSlot) : Option HugePageFiller :=
  if i < f.capacity then some (f.put i s) else none

def setBinPrev (i v : Nat) : Option HugePageFiller := do
  let s ← get f i
  put f i { s with binPrev := v }

def setBinNext (i v : Nat) : Option HugePageFiller := do
  let s ← get f i
  put f i { s with binNext := v }

def binInsert (i : Nat) (b : HugeBin) : Option HugePageFiller := do
  let s ← get f i
  let s := { s with bin := b }
  if s.used ≥ pagesPerHugepage then
    let tail := f.binTails b
    let f ← put f i { s with binPrev := tail, binNext := NIL }
    let f ← if tail ≠ NIL then setBinNext f tail i else some (f.setBinHead b i)
    some (f.setBinTail b i)
  else
    let head := f.bins b
    let f ← put f i { s with binPrev := NIL, binNext := head }
    let f ← if head ≠ NIL then setBinPrev f head i else some (f.setBinTail b i)
    some (f.setBinHead b i)

def binRemove (i : Nat) : Option HugePageFiller := do
  let s ← get f i
  let f ← if s.binPrev ≠ NIL then setBinNext f s.binPrev s.binNext
    else some (f.setBinHead s.bin s.binNext)
  if s.binNext ≠ NIL then setBinPrev f s.binNext s.binPrev
  else some (f.setBinTail s.bin s.binPrev)

def refile (i : Nat) : Option HugePageFiller := do
  let s ← get f i
  let target := s.targetBin
  let atRightEnd := if s.used ≥ pagesPerHugepage then f.binTails target == i else f.bins target == i
  if s.bin ≠ target ∨ atRightEnd = false then
    let f ← binRemove f i
    binInsert f i target
  else some f

/-- Write a slot and refile it, as every operation ends. -/
def write (i : Nat) (s : HugePageSlot) : Option HugePageFiller := do
  let f ← put f i s
  refile f i

/-! ## Placement -/

def scanBin (f : HugePageFiller) (pages stride : Nat) (hints : PlaceHints) :
    (budget i : Nat) → Option Candidate → (foundInBin : Bool) → Option (Option Candidate × Bool)
  | 0, _, best, found => some (best, found)
  | budget + 1, i, best, found =>
    if i = NIL then some (best, found)
    else do
      let s ← get f i
      if s.used ≥ pagesPerHugepage then scanBin f pages stride hints budget s.binNext best found
      else match findRunAligned s.live pages stride with
        | none => scanBin f pages stride hints budget s.binNext best found
        | some off =>
          let sc := score s hints off pages
          let best := if f.better best i sc then some (i, off, sc) else best
          scanBin f pages stride hints budget s.binNext best true

def scanBins (f : HugePageFiller) (pages stride : Nat) (hints : PlaceHints) :
    List HugeBin → Option Candidate → Option (Option Candidate)
  | [], best => some best
  | b :: rest, best => do
    match ← scanBin f pages stride hints scanCap (f.bins b) best false with
    | (best, true) => some best
    | (best, false) => scanBins f pages stride hints rest best

def openFresh : Option (Option (Nat × HugePageFiller)) :=
  if f.nextUntouched ≥ f.capacity then some none
  else do
    let i := f.nextUntouched
    let f := { f with nextUntouched := f.nextUntouched + 1 }
    let s ← get f i
    let f ← put f i { s with touched := true, hotness := .neutral, lifetime := .unspecified }
    let f ← binInsert f i .emptyBacked
    some (some (i, f))

def carve (hp off pages : Nat) (hints : PlaceHints) : Option (Placement × HugePageFiller) := do
  let s ← get f hp
  let needsCommit := runPopcount s.committed off pages ≠ pages
  let f ← write f hp (carved s off pages hints)
  let base := f.hugeBase hp + off * pageSize
  let commitRun := if needsCommit then some (f.regionOffset base, pages * pageSize) else none
  some ({ hugepage := hp, base, pages, commitRun }, f)

def choose (hints : PlaceHints) :
    Option Candidate → Option (Option (Nat × Nat × HugePageFiller))
  | some (hp, off, sc) =>
    if sc < freshScore hints ∧ f.nextUntouched < f.capacity then do
      match ← openFresh f with
      | some (fresh, f) => some (some (fresh, 0, f))
      | none => some (some (hp, off, f))
    else some (some (hp, off, f))
  | none => do
    let opened ← openFresh f
    some (opened.map fun (fresh, f) => (fresh, 0, f))

def place (pages align : Nat) (hints : PlaceHints) : Option (Option Placement × HugePageFiller) :=
  if pages = 0 ∨ pages > pagesPerHugepage then some (none, f)
  else match alignStride align with
    | none => some (none, f)
    | some stride => do
      let best ← scanBins f pages stride hints packingOrder none
      match ← choose f hints best with
      | none => some (none, f)
      | some (hp, off, f) =>
        let (p, f) ← carve f hp off pages hints
        some (some p, f)

/-! ## Packed runs -/

def markCommitted (p : Placement) : Option HugePageFiller :=
  match f.validateRun p.hugepage p.base p.pages with
  | none => some f
  | some off => do
    let s ← get f p.hugepage
    write f p.hugepage (backed s off p.pages)

/-- The checks `free` and `trim` share, up to the end `off + pages` that may
have wrapped. -/
def isAllocation (s : HugePageSlot) (off pages : Nat) : Bool :=
  let stop := (off + pages) % 2 ^ 64
  runPopcount s.live off (turns off pages) == pages && !s.inRun && s.heads.getLsbD off &&
    ((List.range' (off + 1) (stop - (off + 1))).all fun e => !s.heads.getLsbD e) &&
    !(decide (stop < pagesPerHugepage) && s.live.getLsbD stop && !s.heads.getLsbD stop)

def free (base pages : Nat) : Option (FreeReport × HugePageFiller) :=
  match f.indexOf base with
  | none => some (.invalid, f)
  | some hp => do
    let s ← get f hp
    if s.touched = false ∨ pages = 0 ∨ ¬ pageSize ∣ base - f.regionBase then some (.invalid, f)
    else
      let off := (base - f.hugeBase hp) / pageSize
      if (off + pages) % 2 ^ 64 > pagesPerHugepage then some (.invalid, f)
      else if isAllocation s off pages = false then some (.invalid, f)
      else
        let s := freed s off (turns off pages)
        let f ← write f hp s
        some (⟨true, popcount s.live == 0⟩, f)

def trim (base oldPages newPages : Nat) : Option (Bool × HugePageFiller) :=
  if newPages = 0 ∨ newPages ≥ oldPages then some (false, f)
  else match f.indexOf base with
    | none => some (false, f)
    | some hp => do
      let s ← get f hp
      if s.touched = false ∨ ¬ pageSize ∣ base - f.regionBase then some (false, f)
      else
        let off := (base - f.hugeBase hp) / pageSize
        if (off + oldPages) % 2 ^ 64 > pagesPerHugepage then some (false, f)
        else if isAllocation s off oldPages = false then some (false, f)
        else
          let f ← write f hp (trimmed s off (turns off oldPages) newPages)
          some (true, f)

def subrelease (base pages : Nat) (pressureHigh : Bool) : Option (Option Subrelease × HugePageFiller) :=
  match f.indexOf base with
  | none => some (none, f)
  | some hp => do
    let s ← get f hp
    if s.touched = false ∨ pages = 0 ∨ ¬ pageSize ∣ base - f.regionBase then some (none, f)
    else
      let off := (base - f.hugeBase hp) / pageSize
      if (off + pages) % 2 ^ 64 > pagesPerHugepage then some (none, f)
      else if runIsClear s.live off (turns off pages) = false then some (none, f)
      else if runPopcount s.committed off (turns off pages) ≠ pages then some (none, f)
      else if (coldOrSparse s || pressureHigh) = false then some (none, f)
      else if pressureHigh = false ∧ pages < s.used / fragmentationCostDivisor then some (none, f)
      else
        let f ← write f hp (unbacked s off (turns off pages))
        let f := { f with subreleaseEvents := f.subreleaseEvents + 1 }
        some (some { hugepage := hp, regionOffset := f.regionOffset base, len := pages * pageSize }, f)

def unsubrelease (sr : Subrelease) : Option HugePageFiller :=
  let pages := sr.len / pageSize
  match checkedAdd f.regionBase sr.regionOffset with
  | none => some f
  | some base =>
    match f.validateRun sr.hugepage base pages with
    | none => some f
    | some off => do
      let s ← get f sr.hugepage
      write f sr.hugepage (backed s off pages)

/-! ## Whole-hugepage runs -/

def findConsecutiveFrom (f : HugePageFiller) (n : Nat) :
    List Nat → (run : Nat) → Option (Option Nat)
  | [], _ => some none
  | i :: rest, run => do
    let s ← get f i
    if s.used = 0 then
      if run + 1 = n then some (some (i + 1 - n)) else findConsecutiveFrom f n rest (run + 1)
    else findConsecutiveFrom f n rest 0

def touch (j : Nat) : Option HugePageFiller := do
  let s ← get f j
  if s.touched = false then
    let f ← put f j (opened s)
    binInsert f j .emptyBacked
  else some f

def carveWhole (acc : Bool × HugePageFiller) (j : Nat) : Option (Bool × HugePageFiller) := do
  let (p, f) ← carve acc.2 j 0 pagesPerHugepage {}
  some (acc.1 || p.commitRun.isSome, f)

def markRun (start n : Nat) : Option HugePageFiller :=
  (List.range' start (runTurns start n)).foldlM (fun f j => do
    let s ← get f j
    put f j { s with inRun := true, runLen := if j = start then n % 2 ^ 32 else 0 }) f

def runOf (needsCommit : Bool) (start base n : Nat) : Option (HugeRun × HugePageFiller) := do
  let f ← markRun f start n
  let commitRun := if needsCommit then some (f.regionOffset base, n * hugepageSize % 2 ^ 64) else none
  some ({ base, hugepages := n, commitRun }, f)

/-- What `reserve_hugepages` does with the run it found. -/
def takeRun (start n : Nat) : Option (HugeRun × HugePageFiller) := do
  let (needsCommit, f) ← (List.range' start (runTurns start n)).foldlM (fun acc j => do
    let f ← touch acc.2 j
    carveWhole (acc.1, f) j) (false, f)
  runOf f needsCommit start (f.hugeBase start) n

def reserveHugepages (n : Nat) : Option (Option HugeRun × HugePageFiller) :=
  if n = 0 ∨ n > f.capacity then some (none, f)
  else do
    let found : Option (Nat × HugePageFiller) :=
      match ← findConsecutiveFrom f n (List.range f.nextUntouched) 0 with
      | some s => some (s, f)
      | none =>
        if f.nextUntouched + n > f.capacity then none
        else some (f.nextUntouched, { f with nextUntouched := f.nextUntouched + n })
    match found with
    | none => some (none, f)
    | some (start, f) =>
      let (run, f) ← takeRun f start n
      some (some run, f)

/-- Whether every hugepage met passes a test; the loop ends at the first that
does not. -/
def every (f : HugePageFiller) (test : HugePageSlot → Bool) : List Nat → Option Bool
  | [] => some true
  | j :: rest => do
    let s ← get f j
    if test s then every f test rest else some false

def reserveHugepagesAt (base n : Nat) : Option (Option HugeRun × HugePageFiller) :=
  match f.indexOf base with
  | none => some (none, f)
  | some start =>
    if base ≠ f.hugeBase start ∨ n = 0 ∨ (start + n) % 2 ^ 64 > f.capacity then some (none, f)
    else do
      if ← every f (fun s => s.touched && s.used == 0) (List.range' start (runTurns start n)) then
        let (needsCommit, f) ← (List.range' start (runTurns start n)).foldlM carveWhole (false, f)
        let (run, f) ← runOf f needsCommit start base n
        some (some run, f)
      else some (none, f)

/-- Write every member of a run by one rule. -/
def writeAll (w : HugePageSlot → HugePageSlot) (f : HugePageFiller) (start n : Nat) : Option HugePageFiller :=
  (List.range' start (runTurns start n)).foldlM (fun f j => do
    let s ← get f j
    write f j (w s)) f

def markRunCommitted (run : HugeRun) : Option HugePageFiller :=
  match f.indexOf run.base with
  | none => some f
  | some start =>
    if run.base ≠ f.hugeBase start then some f
    else if run.hugepages = 0 ∨ run.hugepages > f.capacity ∨ start > f.capacity - run.hugepages then
      some f
    else writeAll wholeBacked f start run.hugepages

def freeHugepages (base n : Nat) : Option (FreeReport × HugePageFiller) :=
  match f.indexOf base with
  | none => some (.invalid, f)
  | some start =>
    if n = 0 ∨ (start + n) % 2 ^ 64 > f.capacity ∨ ¬ hugepageSize ∣ base - f.regionBase then
      some (.invalid, f)
    else do
      let s ← get f start
      if s.runLen ≠ n then some (.invalid, f)
      else if ← every f (fun s => s.touched && s.inRun && s.used == pagesPerHugepage)
          (List.range' start (runTurns start n)) then
        let f ← writeAll wholeFreed f start n
        some (⟨true, true⟩, f)
      else some (.invalid, f)

def markCold (addr : Nat) : Option (Bool × HugePageFiller) :=
  match f.indexOf addr with
  | none => some (false, f)
  | some i => do
    let s ← get f i
    if s.touched = false then some (false, f)
    else
      let f ← write f i { s with hotness := .cold }
      some (true, f)

end Checked

/-- What a call that may decline answers and leaves. -/
def answer {α : Type} (f : HugePageFiller) : Option (α × HugePageFiller) → Option α × HugePageFiller
  | none => (none, f)
  | some (a, g) => (some a, g)

end HugePageFiller
end Topomalloc
