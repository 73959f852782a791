import Topomalloc.Huge.Checked
import Topomalloc.Huge.Runs

/-! No call of the filler stops at an assertion, whatever its arguments: the
links and list ends always stay in the table (`Ranged`). What a call answers
and leaves is what the filler of `Filler` does, since a sum that wraps fails the
check after it; only `reserve_hugepages_at` may answer a run for a count that
wraps its bound check, and then it changes nothing. -/
namespace Topomalloc
open Function Bitmap

namespace HugePageFiller

/-! ## Every link stays in the table -/

/-- `v` is the null link or names one of `capacity` slots. -/
def InTable (capacity v : Nat) : Prop := v = NIL ∨ v < capacity

/-- The links and the run length of a slot are values its fields can hold. -/
structure InSlot (capacity : Nat) (s : HugePageSlot) : Prop where
  prev : InTable capacity s.binPrev
  next : InTable capacity s.binNext
  len : s.runLen < 2 ^ 32

/-- Every link and every list end is in the table, and so are the touched
hugepages; the region fits the address space. -/
structure Ranged (f : HugePageFiller) : Prop where
  real : f.capacity ≤ NIL
  small : f.capacity * hugepageSize < 2 ^ 64
  frontier : f.nextUntouched ≤ f.capacity
  heads : ∀ b, InTable f.capacity (f.bins b)
  tails : ∀ b, InTable f.capacity (f.binTails b)
  slots : ∀ i, InSlot f.capacity (f.slots i)

/-- `g` is ranged, over the slots of `f`. -/
structure Keeps (f g : HugePageFiller) : Prop where
  ranged : g.Ranged
  capacity : g.capacity = f.capacity

/-- A checked call on `f` does not stop and answers what the unchecked one does; `out`
is the filler in an answer. -/
structure Runs {α : Type} (out : α → HugePageFiller) (f : HugePageFiller) (call : Option α) (plain : α) :
    Prop where
  ran : call = some plain
  keeps : Keeps f (out plain)

/-- A call that leaves a filler and nothing else. -/
abbrev Goes := Runs id

/-- A call that also has an answer. -/
abbrev Answers {α : Type} := Runs (α := α × HugePageFiller) Prod.snd

variable {f g h : HugePageFiller} {i j v n start base off pages hp : Nat} {s : HugePageSlot}
  {b : HugeBin} {hints : PlaceHints} {l : List Nat}

theorem Ranged.keeps (ranged : f.Ranged) : Keeps f f := ⟨ranged, rfl⟩

theorem Keeps.trans (first : Keeps f g) (second : Keeps g h) : Keeps f h :=
  ⟨second.ranged, second.capacity.trans first.capacity⟩

theorem Ranged.put (ranged : f.Ranged) (slot : InSlot f.capacity s) : Keeps f (f.put i s) := by
  refine ⟨⟨ranged.real, ranged.small, ranged.frontier, ranged.heads, ranged.tails, ?_⟩, rfl⟩
  intro j
  by_cases here : j = i
  · subst here
    simpa [HugePageFiller.put] using slot
  · simpa [HugePageFiller.put, here] using ranged.slots j

theorem Ranged.setBinHead (ranged : f.Ranged) (inTable : InTable f.capacity v) :
    Keeps f (f.setBinHead b v) := by
  refine ⟨⟨ranged.real, ranged.small, ranged.frontier, ?_, ranged.tails, ranged.slots⟩, rfl⟩
  intro c
  by_cases here : c = b
  · subst here
    simpa [HugePageFiller.setBinHead] using inTable
  · simpa [HugePageFiller.setBinHead, here] using ranged.heads c

theorem Ranged.setBinTail (ranged : f.Ranged) (inTable : InTable f.capacity v) :
    Keeps f (f.setBinTail b v) := by
  refine ⟨⟨ranged.real, ranged.small, ranged.frontier, ranged.heads, ?_, ranged.slots⟩, rfl⟩
  intro c
  by_cases here : c = b
  · subst here
    simpa [HugePageFiller.setBinTail] using inTable
  · simpa [HugePageFiller.setBinTail, here] using ranged.tails c

theorem Ranged.setNextUntouched (ranged : f.Ranged) (inside : v ≤ f.capacity) :
    Keeps f { f with nextUntouched := v } :=
  ⟨⟨ranged.real, ranged.small, inside, ranged.heads, ranged.tails, ranged.slots⟩, rfl⟩

theorem Ranged.setSubreleaseEvents (ranged : f.Ranged) (v : Nat) : Keeps f { f with subreleaseEvents := v } :=
  ⟨⟨ranged.real, ranged.small, ranged.frontier, ranged.heads, ranged.tails, ranged.slots⟩, rfl⟩

theorem InTable.inside (inTable : InTable n v) (real : v ≠ NIL) : v < n := inTable.resolve_left real

theorem InTable.of_lt (inside : i < n) : InTable n i := .inr inside

theorem InTable.nil : InTable n NIL := .inl rfl

theorem InTable.of_keeps (inTable : InTable f.capacity v) (keeps : Keeps f g) : InTable g.capacity v :=
  keeps.capacity ▸ inTable

/-! ## The checked calls answer what the unchecked ones do -/

section
variable {α β : Type} {out : α → HugePageFiller} {call : Option α} {plain : α}

theorem Runs.bind {out' : β → HugePageFiller} (first : Runs out f call plain)
    (rest : Keeps f (out plain) → Runs out' (out plain) (next plain) plain') :
    Runs out' f (call >>= next) plain' := by
  obtain ⟨rfl, keeps⟩ := first
  exact ⟨(rest keeps).ran, keeps.trans (rest keeps).keeps⟩

/-- A bound check on a sum that may wrap. -/
theorem Answers.bounded {stop : Nat} {plain : α × HugePageFiller} (ranged : f.Ranged)
    (small : bound < 2 ^ 64) (fits : stop ≤ bound → Answers f rest plain)
    (past : ¬ stop ≤ bound → stop % 2 ^ 64 ≤ bound → Answers f rest (no, f)) :
    Answers f (if stop % 2 ^ 64 > bound then some (no, f) else rest)
      (if stop > bound then (no, f) else plain) := by
  by_cases inside : stop ≤ bound
  · rw [Nat.mod_eq_of_lt (by omega), if_neg (by omega), if_neg (by omega)]
    exact fits inside
  · rw [if_pos (show stop > bound by omega)]
    split
    · exact ⟨rfl, ranged.keeps⟩
    · exact past inside (by omega)

end

namespace Checked

theorem get_eq (inside : i < f.capacity) : get f i = some (f.slots i) := if_pos inside

theorem get_bind {β : Type} {next : HugePageSlot → Option β} (inside : i < f.capacity) :
    (get f i >>= next) = next (f.slots i) := by
  simp only [get_eq inside, Option.bind_eq_bind, Option.bind_some]

section
variable (ranged : f.Ranged) {best : Option Candidate}
include ranged

theorem put_eq (inside : i < f.capacity) (slot : InSlot f.capacity s) : Goes f (put f i s) (f.put i s) :=
  ⟨if_pos inside, ranged.put slot⟩

theorem setBinPrev_eq (inside : i < f.capacity) (inTable : InTable f.capacity v) :
    Goes f (setBinPrev f i v) (f.setBinPrev i v) := by
  rw [setBinPrev, get_bind inside]
  exact put_eq ranged inside ⟨inTable, (ranged.slots i).next, (ranged.slots i).len⟩

theorem setBinNext_eq (inside : i < f.capacity) (inTable : InTable f.capacity v) :
    Goes f (setBinNext f i v) (f.setBinNext i v) := by
  rw [setBinNext, get_bind inside]
  exact put_eq ranged inside ⟨(ranged.slots i).prev, inTable, (ranged.slots i).len⟩

theorem binInsert_eq (inside : i < f.capacity) : Goes f (binInsert f i b) (f.binInsert i b) := by
  have head := ranged.heads b
  have tail := ranged.tails b
  have len := (ranged.slots i).len
  simp only [binInsert, HugePageFiller.binInsert, get_bind inside]
  split
  · refine Runs.bind (put_eq ranged inside ⟨tail, .nil, len⟩) fun entered => ?_
    by_cases real : f.binTails b ≠ NIL
    · rw [if_pos real, if_pos real]
      refine (setBinNext_eq entered.ranged (tail.inside real) (.of_lt inside)).bind fun linked => ?_
      exact ⟨rfl, linked.ranged.setBinTail (.of_lt (linked.capacity ▸ inside))⟩
    · rw [if_neg real, if_neg real]
      have headed := entered.ranged.setBinHead (b := b) (v := i) (.of_lt inside)
      exact ⟨rfl, headed.trans (headed.ranged.setBinTail (.of_lt (headed.capacity ▸ inside)))⟩
  · refine Runs.bind (put_eq ranged inside ⟨.nil, head, len⟩) fun entered => ?_
    by_cases real : f.bins b ≠ NIL
    · rw [if_pos real, if_pos real]
      refine (setBinPrev_eq entered.ranged (head.inside real) (.of_lt inside)).bind fun linked => ?_
      exact ⟨rfl, linked.ranged.setBinHead (.of_lt (linked.capacity ▸ inside))⟩
    · rw [if_neg real, if_neg real]
      have tailed := entered.ranged.setBinTail (b := b) (v := i) (.of_lt inside)
      exact ⟨rfl, tailed.trans (tailed.ranged.setBinHead (.of_lt (tailed.capacity ▸ inside)))⟩

/-- The second half of `bin_remove`, which skips the hugepage backwards. -/
private theorem skipBack_eq (prev : InTable f.capacity s.binPrev) (next : InTable f.capacity s.binNext) :
    Goes f (if s.binNext ≠ NIL then setBinPrev f s.binNext s.binPrev
        else some (f.setBinTail s.bin s.binPrev))
      (if s.binNext ≠ NIL then f.setBinPrev s.binNext s.binPrev
        else f.setBinTail s.bin s.binPrev) := by
  split
  next real => exact setBinPrev_eq ranged (next.inside real) prev
  next => exact ⟨rfl, ranged.setBinTail prev⟩

theorem binRemove_eq (inside : i < f.capacity) : Goes f (binRemove f i) (f.binRemove i) := by
  have prev := (ranged.slots i).prev
  have next := (ranged.slots i).next
  simp only [binRemove, HugePageFiller.binRemove, get_bind inside]
  by_cases real : (f.slots i).binPrev ≠ NIL
  · rw [if_pos real, HugePageFiller.get, if_pos real]
    exact (setBinNext_eq ranged (prev.inside real) next).bind fun keeps =>
      skipBack_eq keeps.ranged (prev.of_keeps keeps) (next.of_keeps keeps)
  · rw [if_neg real, HugePageFiller.get, if_neg real]
    have headed : Goes f (some (f.setBinHead (f.slots i).bin _)) _ := ⟨rfl, ranged.setBinHead next⟩
    exact headed.bind fun keeps =>
      skipBack_eq keeps.ranged (prev.of_keeps keeps) (next.of_keeps keeps)

theorem refile_eq (inside : i < f.capacity) : Goes f (refile f i) (f.refile i) := by
  simp only [refile, HugePageFiller.refile, get_bind inside, HugePageFiller.get]
  generalize (if (f.slots i).used ≥ pagesPerHugepage then
    f.binTails (f.slots i).targetBin == i else f.bins (f.slots i).targetBin == i) = atRightEnd
  split
  · exact (binRemove_eq ranged inside).bind fun keeps =>
      binInsert_eq keeps.ranged (keeps.capacity ▸ inside)
  · exact ⟨rfl, ranged.keeps⟩

theorem write_eq (inside : i < f.capacity) (slot : InSlot f.capacity s) :
    Goes f (write f i s) ((f.put i s).refile i) :=
  (put_eq ranged inside slot).bind fun keeps => refile_eq keeps.ranged (keeps.capacity ▸ inside)

/-! ### Placement -/

theorem scanBin_eq (pages stride : Nat) (hints : PlaceHints) (budget : Nat) (found : Bool)
    (inTable : InTable f.capacity i) (good : ∀ c ∈ best, c.1 < f.capacity) :
    scanBin f pages stride hints budget i best found =
        some (f.scanBin pages stride hints budget i best found) ∧
      ∀ c ∈ (f.scanBin pages stride hints budget i best found).1, c.1 < f.capacity := by
  induction budget generalizing i best found with
  | zero => exact ⟨rfl, good⟩
  | succ budget ih =>
    unfold scanBin HugePageFiller.scanBin
    by_cases last : i = NIL
    · simp only [if_pos last, true_and]
      exact good
    · have inside := inTable.inside last
      simp only [if_neg last, get_bind inside, HugePageFiller.get]
      have next := (ranged.slots i).next
      split
      · exact ih _ next good
      cases findRunAligned (f.slots i).live pages stride with
      | none => exact ih _ next good
      | some off =>
        refine ih _ next ?_
        split
        · rintro c ⟨⟩
          exact inside
        · exact good

theorem scanBins_eq (pages stride : Nat)
    (hints : PlaceHints) (bins : List HugeBin) (good : ∀ c ∈ best, c.1 < f.capacity) :
    scanBins f pages stride hints bins best = some (f.scanBins pages stride hints bins best) ∧
      ∀ c ∈ f.scanBins pages stride hints bins best, c.1 < f.capacity := by
  induction bins generalizing best with
  | nil => exact ⟨rfl, good⟩
  | cons b bins ih =>
    obtain ⟨scanned, found⟩ := scanBin_eq ranged pages stride hints scanCap false (ranged.heads b) good
    unfold scanBins HugePageFiller.scanBins
    rw [scanned]
    simp only [Option.bind_eq_bind, Option.bind_some]
    generalize f.scanBin pages stride hints scanCap (f.bins b) best false = answer at found
    obtain ⟨best, _ | _⟩ := answer
    · exact ih found
    · exact ⟨rfl, found⟩

theorem openFresh_eq :
    openFresh f = some f.openFresh ∧ ∀ i g, f.openFresh = some (i, g) → i < f.capacity ∧ Keeps f g := by
  unfold openFresh HugePageFiller.openFresh
  by_cases full : f.nextUntouched ≥ f.capacity
  · simp [if_pos full]
  have inside : f.nextUntouched < f.capacity := Nat.lt_of_not_le full
  have slot := ranged.slots f.nextUntouched
  have bumped := ranged.setNextUntouched (v := f.nextUntouched + 1) inside
  obtain ⟨put, written⟩ := put_eq (i := f.nextUntouched) (s := { f.slots f.nextUntouched with
    touched := true, hotness := .neutral, lifetime := .unspecified }) bumped.ranged inside
    ⟨slot.prev, slot.next, slot.len⟩
  obtain ⟨inserted, keeps⟩ := binInsert_eq (b := .emptyBacked) written.ranged (written.capacity ▸ inside)
  simp only [id] at put inserted keeps
  have read : get { f with nextUntouched := f.nextUntouched + 1 } f.nextUntouched =
      some (f.slots f.nextUntouched) := get_eq inside
  simp only [if_neg full, read, put, inserted, Option.bind_eq_bind, Option.bind_some, true_and]
  rintro i g ⟨⟩
  exact ⟨inside, bumped.trans (written.trans keeps)⟩

theorem carve_eq (off pages : Nat) (hints : PlaceHints) (inside : hp < f.capacity) :
    Answers f (carve f hp off pages hints) (f.carve hp off pages hints) := by
  have slot := ranged.slots hp
  rw [carve, get_bind inside]
  exact Runs.bind (write_eq ranged inside ⟨slot.prev, slot.next, slot.len⟩) fun keeps =>
    ⟨rfl, keeps.ranged.keeps⟩

theorem choose_eq (hints : PlaceHints) (good : ∀ c ∈ best, c.1 < f.capacity) :
    choose f hints best = some (f.choose hints best) ∧
      ∀ hp off g, f.choose hints best = some (hp, off, g) → hp < f.capacity ∧ Keeps f g := by
  obtain ⟨opened, fresh⟩ := openFresh_eq ranged
  have taken : ∀ hp off : Nat, hp < f.capacity → ∀ hp' off' g,
      some (hp, off, f) = some (hp', off', g) → hp' < f.capacity ∧ Keeps f g := by
    rintro hp off inside hp' off' g ⟨⟩
    exact ⟨inside, ranged.keeps⟩
  cases best with
  | none =>
    simp only [choose, HugePageFiller.choose, opened, Option.bind_eq_bind, Option.bind_some, true_and]
    intro hp off g chosen
    obtain ⟨⟨i, g'⟩, found, same⟩ := Option.map_eq_some_iff.mp chosen
    obtain ⟨rfl, rfl, rfl⟩ := same
    exact fresh _ _ found
  | some c =>
    obtain ⟨hp, off, sc⟩ := c
    have inside := good _ rfl
    simp only [choose, HugePageFiller.choose, opened, Option.bind_eq_bind, Option.bind_some]
    split
    · cases found : f.openFresh with
      | none => exact ⟨rfl, taken hp off inside⟩
      | some result =>
        refine ⟨rfl, ?_⟩
        rintro hp' off' g ⟨⟩
        exact fresh _ _ found
    · exact ⟨rfl, taken hp off inside⟩

theorem place_eq (pages align : Nat) (hints : PlaceHints) :
    Answers f (place f pages align hints) (answer f (f.place pages align hints)) := by
  unfold place HugePageFiller.place
  split
  · exact ⟨rfl, ranged.keeps⟩
  cases alignStride align with
  | none => exact ⟨rfl, ranged.keeps⟩
  | some stride =>
    obtain ⟨scanned, good⟩ := scanBins_eq ranged pages stride hints packingOrder (show ∀ c ∈ none, _ by simp)
    obtain ⟨chosen, inside⟩ := choose_eq ranged hints good
    simp only [scanned, chosen, Option.bind_eq_bind, Option.bind_some]
    cases picked : f.choose hints (f.scanBins pages stride hints packingOrder none) with
    | none => exact ⟨rfl, ranged.keeps⟩
    | some c =>
      obtain ⟨hp, off, g⟩ := c
      obtain ⟨below, keeps⟩ := inside hp off g picked
      obtain ⟨carved, keeps'⟩ := carve_eq keeps.ranged off pages hints (keeps.capacity ▸ below)
      simp only [carved, Option.bind_some, Option.map_some, answer]
      exact ⟨rfl, keeps.trans keeps'⟩

end

/-! ### Packed runs -/

/-- A page of the hugepage an address leads to. -/
theorem offset_lt (found : f.indexOf base = some hp) :
    (base - f.hugeBase hp) / pageSize < pagesPerHugepage := by
  obtain ⟨-, -, upper, -⟩ := indexOf_eq_some found
  simp only [hugeBase, hugepageSize, pageSize, pagesPerHugepage] at *
  omega

theorem turns_eq (fits : off + pages ≤ pagesPerHugepage) : turns off pages = pages := by
  simp only [turns, pagesPerHugepage] at *
  omega

/-- Past the end of the hugepage, or with a sum that wrapped, no count of bits
is as large as the run asked for. -/
theorem runPopcount_turns_ne (bits : PageBits) (page : off < pagesPerHugepage)
    (past : ¬ off + pages ≤ pagesPerHugepage) (wrapped : (off + pages) % 2 ^ 64 ≤ pagesPerHugepage) :
    runPopcount bits off (turns off pages) ≠ pages := by
  have few := runPopcount_le bits off (turns off pages)
  have short : turns off pages ≤ pagesPerHugepage := by
    rw [turns]
    omega
  simp only [pagesPerHugepage] at *
  omega

theorem isAllocation_eq (fits : off + pages ≤ pagesPerHugepage) :
    isAllocation s off pages = HugePageFiller.isAllocation s off pages := by
  have word : (off + pages) % 2 ^ 64 = off + pages := Nat.mod_eq_of_lt (by
    simp only [pagesPerHugepage] at fits
    omega)
  simp only [isAllocation, HugePageFiller.isAllocation, word, turns_eq fits]
  rw [show off + pages - (off + 1) = pages - 1 by omega]

theorem isAllocation_past (page : off < pagesPerHugepage) (past : ¬ off + pages ≤ pagesPerHugepage)
    (wrapped : (off + pages) % 2 ^ 64 ≤ pagesPerHugepage) : isAllocation s off pages = false := by
  have other := runPopcount_turns_ne s.live page past wrapped
  simp [isAllocation, other]

theorem markCommitted_eq (ranged : f.Ranged) (p : Placement) :
    Goes f (markCommitted f p) (f.markCommitted p) := by
  unfold markCommitted HugePageFiller.markCommitted
  cases valid : f.validateRun p.hugepage p.base p.pages with
  | none => exact ⟨rfl, ranged.keeps⟩
  | some off =>
    have inside := validateRun_inside valid
    have slot := ranged.slots p.hugepage
    dsimp only
    rw [get_bind inside]
    exact write_eq ranged inside ⟨slot.prev, slot.next, slot.len⟩

theorem unsubrelease_eq (ranged : f.Ranged) (sr : Subrelease) :
    Goes f (unsubrelease f sr) (f.unsubrelease sr) := by
  unfold unsubrelease HugePageFiller.unsubrelease
  dsimp only
  cases checkedAdd f.regionBase sr.regionOffset with
  | none => exact ⟨rfl, ranged.keeps⟩
  | some base =>
    dsimp only
    cases valid : f.validateRun sr.hugepage base (sr.len / pageSize) with
    | none => exact ⟨rfl, ranged.keeps⟩
    | some off =>
      have inside := validateRun_inside valid
      have slot := ranged.slots sr.hugepage
      dsimp only
      rw [get_bind inside]
      exact write_eq ranged inside ⟨slot.prev, slot.next, slot.len⟩

theorem freed_inSlot (slot : InSlot n s) (off pages : Nat) : InSlot n (freed s off pages) := by
  unfold freed
  dsimp only
  split <;> exact ⟨slot.prev, slot.next, slot.len⟩

theorem free_eq (ranged : f.Ranged) (base pages : Nat) :
    Answers f (free f base pages) (f.free base pages) := by
  unfold free HugePageFiller.free
  cases found : f.indexOf base with
  | none => exact ⟨rfl, ranged.keeps⟩
  | some hp =>
    have inside := (indexOf_eq_some found).1
    have page := offset_lt found
    simp only [get_bind inside, HugePageFiller.get]
    split
    · exact ⟨rfl, ranged.keeps⟩
    generalize (base - f.hugeBase hp) / pageSize = off at page
    refine .bounded ranged (by decide) (fun fits => ?_) fun past wrapped => ?_
    · rw [turns_eq fits, isAllocation_eq fits]
      split
      · exact ⟨rfl, ranged.keeps⟩
      exact (write_eq ranged inside (freed_inSlot (ranged.slots hp) off pages)).bind fun keeps =>
        ⟨rfl, keeps.ranged.keeps⟩
    · rw [if_pos (isAllocation_past page past wrapped)]
      exact ⟨rfl, ranged.keeps⟩

theorem trim_eq (ranged : f.Ranged) (base pages newPages : Nat) :
    Answers f (trim f base pages newPages) (f.trim base pages newPages) := by
  unfold trim HugePageFiller.trim
  split
  · exact ⟨rfl, ranged.keeps⟩
  cases found : f.indexOf base with
  | none => exact ⟨rfl, ranged.keeps⟩
  | some hp =>
    have inside := (indexOf_eq_some found).1
    have page := offset_lt found
    have slot := ranged.slots hp
    simp only [get_bind inside, HugePageFiller.get]
    split
    · exact ⟨rfl, ranged.keeps⟩
    generalize (base - f.hugeBase hp) / pageSize = off at page
    refine .bounded ranged (by decide) (fun fits => ?_) fun past wrapped => ?_
    · rw [turns_eq fits, isAllocation_eq fits]
      split
      · exact ⟨rfl, ranged.keeps⟩
      exact Runs.bind (write_eq ranged inside ⟨slot.prev, slot.next, slot.len⟩) fun keeps =>
        ⟨rfl, keeps.ranged.keeps⟩
    · rw [if_pos (isAllocation_past page past wrapped)]
      exact ⟨rfl, ranged.keeps⟩

theorem subrelease_eq (ranged : f.Ranged) (base pages : Nat) (pressureHigh : Bool) :
    Answers f (subrelease f base pages pressureHigh) (answer f (f.subrelease base pages pressureHigh)) := by
  unfold subrelease HugePageFiller.subrelease
  cases found : f.indexOf base with
  | none => exact ⟨rfl, ranged.keeps⟩
  | some hp =>
    have inside := (indexOf_eq_some found).1
    have page := offset_lt found
    have slot := ranged.slots hp
    simp only [get_bind inside, HugePageFiller.get]
    split
    · exact ⟨rfl, ranged.keeps⟩
    generalize (base - f.hugeBase hp) / pageSize = off at page
    rw [apply_ite (answer f)]
    refine .bounded ranged (by decide) (fun fits => ?_) fun past wrapped => ?_
    · rw [turns_eq fits]
      iterate 4
        split
        · exact ⟨rfl, ranged.keeps⟩
      exact Runs.bind (write_eq ranged inside ⟨slot.prev, slot.next, slot.len⟩) fun keeps =>
        ⟨rfl, keeps.ranged.setSubreleaseEvents _⟩
    · split
      · exact ⟨rfl, ranged.keeps⟩
      rw [if_pos (runPopcount_turns_ne _ page past wrapped)]
      exact ⟨rfl, ranged.keeps⟩

theorem markCold_eq (ranged : f.Ranged) (addr : Nat) : Answers f (markCold f addr) (f.markCold addr) := by
  unfold markCold HugePageFiller.markCold
  cases found : f.indexOf addr with
  | none => exact ⟨rfl, ranged.keeps⟩
  | some i =>
    have inside := (indexOf_eq_some found).1
    have slot := ranged.slots i
    simp only [get_bind inside, HugePageFiller.get]
    split
    · exact ⟨rfl, ranged.keeps⟩
    exact Runs.bind (write_eq ranged inside ⟨slot.prev, slot.next, slot.len⟩) fun keeps =>
      ⟨rfl, keeps.ranged.keeps⟩

/-! ### Whole-hugepage runs -/

/-- A loop none of whose turns stops is the unchecked loop. -/
private theorem foldlM_eq {α β : Type} {l : List α} {out : β → HugePageFiller}
    {turn : β → α → Option β} {total : β → α → β} {b : β}
    (turns : ∀ b, Keeps f (out b) → ∀ a ∈ l, Runs out (out b) (turn b a) (total b a))
    (start : Keeps f (out b)) : Runs out f (l.foldlM turn b) (l.foldl total b) := by
  induction l generalizing b with
  | nil => exact ⟨rfl, start⟩
  | cons a l ih =>
    obtain ⟨turned, kept⟩ := turns b start a (by simp)
    rw [List.foldlM_cons, turned, Option.bind_eq_bind, Option.bind_some, List.foldl_cons]
    exact ih (fun b kept a member => turns b kept a (by simp [member])) (start.trans kept)

theorem runTurns_eq (fits : start + n ≤ NIL) : runTurns start n = n := by
  simp only [runTurns, NIL] at *
  omega

/-- A count for which the bound check wraps makes no turn. -/
theorem runTurns_wrapped (index : start < NIL) (word : n < 2 ^ 64) (wraps : 2 ^ 64 ≤ start + n)
    (small : (start + n) % 2 ^ 64 ≤ NIL) : runTurns start n = 0 := by
  simp only [runTurns, NIL] at *
  omega

theorem every_eq (inside : ∀ j ∈ l, j < f.capacity) :
    every f test l = some (l.all fun j => test (f.slots j)) := by
  induction l with
  | nil => rfl
  | cons j l ih =>
    simp only [every, get_eq (inside j (by simp)), Option.bind_eq_bind, Option.bind_some, List.all_cons]
    cases test (f.slots j) with
    | false => rfl
    | true => simpa using ih fun j member => inside j (by simp [member])

theorem findConsecutiveFrom_eq (n run : Nat) (inside : ∀ j ∈ l, j < f.capacity) :
    findConsecutiveFrom f n l run = some (f.findConsecutiveFrom n l run) := by
  induction l generalizing run with
  | nil => rfl
  | cons j l ih =>
    have rest : ∀ i ∈ l, i < f.capacity := fun i member => inside i (by simp [member])
    simp only [findConsecutiveFrom, HugePageFiller.findConsecutiveFrom, HugePageFiller.get,
      get_eq (inside j (by simp)), Option.bind_eq_bind, Option.bind_some]
    split
    · split
      · rfl
      · exact ih _ rest
    · exact ih _ rest

theorem touch_eq (ranged : f.Ranged) (inside : j < f.capacity) : Goes f (touch f j) (f.touch j) := by
  simp only [touch, HugePageFiller.touch, HugePageFiller.get, get_bind inside]
  split
  · exact Runs.bind (put_eq ranged inside ⟨.nil, .nil, (ranged.slots j).len⟩) fun written =>
      binInsert_eq written.ranged (written.capacity ▸ inside)
  · exact ⟨rfl, ranged.keeps⟩

theorem carveWhole_eq (acc : Bool × HugePageFiller) (ranged : acc.2.Ranged) (inside : j < acc.2.capacity) :
    Answers acc.2 (carveWhole acc j) (HugePageFiller.carveWhole acc j) :=
  (carve_eq ranged 0 pagesPerHugepage {} inside).bind fun keeps => ⟨rfl, keeps.ranged.keeps⟩

theorem member_lt {l : Nat} (fits : start + k ≤ l) (member : j ∈ List.range' start k) : j < l := by
  have bounds := List.mem_range'_1.mp member
  omega

theorem markRun_eq (ranged : f.Ranged) (fits : start + n ≤ f.capacity) :
    Goes f (markRun f start n) (f.markRun start n) := by
  have real := ranged.real
  have cut : n % 2 ^ 32 = n := Nat.mod_eq_of_lt (by simp only [NIL] at real; omega)
  unfold markRun HugePageFiller.markRun
  rw [runTurns_eq (by omega), cut]
  refine foldlM_eq (fun g keeps j member => ?_) ranged.keeps
  have inside : j < g.capacity := keeps.capacity ▸ member_lt fits member
  have slot := keeps.ranged.slots j
  rw [get_bind inside]
  refine put_eq keeps.ranged inside ⟨slot.prev, slot.next, ?_⟩
  dsimp only
  split
  · simp only [NIL] at real
    omega
  · decide

theorem runOf_eq (ranged : f.Ranged) (needsCommit : Bool) (base : Nat) (fits : start + n ≤ f.capacity) :
    Answers f (runOf f needsCommit start base n) (f.runOf needsCommit start base n) := by
  have word : n * hugepageSize % 2 ^ 64 = n * hugepageSize := by
    refine Nat.mod_eq_of_lt (Nat.lt_of_le_of_lt ?_ ranged.small)
    exact Nat.mul_le_mul_right _ (by omega)
  simp only [runOf, word]
  exact (markRun_eq ranged fits).bind fun keeps => ⟨rfl, keeps.ranged.keeps⟩

theorem writeAll_eq {w : HugePageSlot → HugePageSlot} (ranged : f.Ranged)
    (kind : ∀ m s, InSlot m s → InSlot m (w s)) (fits : start + n ≤ f.capacity) :
    Goes f (writeAll w f start n)
      ((List.range' start n).foldl (fun f j => (f.put j (w (f.get j))).refile j) f) := by
  have real := ranged.real
  unfold writeAll
  rw [runTurns_eq (by omega)]
  refine foldlM_eq (fun g keeps j member => ?_) ranged.keeps
  have inside : j < g.capacity := keeps.capacity ▸ member_lt fits member
  rw [get_bind inside]
  exact write_eq keeps.ranged inside (kind _ _ (keeps.ranged.slots j))

theorem takeRun_eq (keeps : Keeps f g) (start n : Nat) (fits : start + n ≤ f.capacity) :
    Answers f (takeRun g start n) (g.takeRun start n) := by
  have real := keeps.ranged.real
  have capacity := keeps.capacity
  rw [takeRun, runTurns_eq (by omega)]
  refine (foldlM_eq (fun acc kept j member => ?_) keeps).bind fun carved =>
    runOf_eq carved.ranged _ _ (carved.capacity ▸ fits)
  have inside : j < acc.2.capacity := kept.capacity ▸ member_lt fits member
  exact (touch_eq kept.ranged inside).bind fun touched =>
    carveWhole_eq (acc.1, acc.2.touch j) touched.ranged (touched.capacity ▸ inside)

theorem reserveHugepages_eq (ranged : f.Ranged) :
    Answers f (reserveHugepages f n) (answer f (f.reserveHugepages n)) := by
  rw [reserveHugepages_takeRun]
  unfold reserveHugepages HugePageFiller.findConsecutiveEmpty
  split
  · exact ⟨rfl, ranged.keeps⟩
  next sized =>
    have frontier := ranged.frontier
    have scanned := findConsecutiveFrom_eq (f := f) (l := List.range f.nextUntouched) n 0
      fun j member => by
        have below := List.mem_range.mp member
        omega
    simp only [scanned, Option.bind_eq_bind, Option.bind_some]
    cases found : f.findConsecutiveFrom n (List.range f.nextUntouched) 0 with
    | some start =>
      have fits := (findConsecutiveEmpty_spec (by omega) found).1
      obtain ⟨taken, keeps⟩ := takeRun_eq ranged.keeps start n (by omega)
      simp only [taken, Option.bind_some, Option.map_some, answer]
      exact ⟨rfl, keeps⟩
    | none =>
      by_cases room : f.nextUntouched + n > f.capacity
      · simp only [if_pos room]
        exact ⟨rfl, ranged.keeps⟩
      · obtain ⟨taken, keeps⟩ := takeRun_eq
          (ranged.setNextUntouched (v := f.nextUntouched + n) (by omega)) f.nextUntouched n (by omega)
        simp only [if_neg room, taken, Option.bind_some, Option.map_some, answer]
        exact ⟨rfl, keeps⟩

/-- A test of every member, as the loop makes it and as the check words it. -/
private theorem any_eq_not_all (opposite : ∀ j, q j = !p j) : l.any q = !l.all p := by
  rw [List.not_all_eq_any_not]
  exact congrArg l.any (funext opposite)

theorem reserveHugepagesAt_eq (ranged : f.Ranged) (base : Nat) (word : n < 2 ^ 64) :
    Answers f (reserveHugepagesAt f base n) (answer f (f.reserveHugepagesAt base n)) ∨ f.capacity < n ∧
        ∃ run, run.hugepages = n ∧ reserveHugepagesAt f base n = some (some run, f) := by
  have real := ranged.real
  unfold reserveHugepagesAt HugePageFiller.reserveHugepagesAt
  cases found : f.indexOf base with
  | none => exact .inl ⟨rfl, ranged.keeps⟩
  | some start =>
    have inside := (indexOf_eq_some found).1
    dsimp only
    by_cases named : base ≠ f.hugeBase start ∨ n = 0
    · rw [if_pos (by tauto), if_pos (by tauto)]
      exact .inl ⟨rfl, ranged.keeps⟩
    obtain ⟨aimed, pos⟩ := not_or.mp named
    by_cases fits : start + n ≤ f.capacity
    · left
      have same : (start + n) % 2 ^ 64 = start + n := Nat.mod_eq_of_lt (by
        simp only [NIL] at real
        omega)
      rw [same, runTurns_eq (by omega), every_eq fun j member => member_lt fits member,
        if_neg (by omega), if_neg (by omega),
        any_eq_not_all (p := fun j => (f.slots j).touched && (f.slots j).used == 0)
          fun j => by simp only [Bool.not_and, bne]]
      simp only [Option.bind_eq_bind, Option.bind_some]
      cases (List.range' start n).all fun j => (f.slots j).touched && (f.slots j).used == 0 with
      | false => exact ⟨rfl, ranged.keeps⟩
      | true =>
        simp only [if_true, Bool.not_true, Bool.false_eq_true, if_false]
        refine (foldlM_eq (fun acc kept j member =>
          carveWhole_eq acc kept.ranged (kept.capacity ▸ member_lt fits member)) ranged.keeps).bind
            fun carved => (runOf_eq carved.ranged _ base (carved.capacity ▸ fits)).bind fun keeps =>
              ⟨rfl, keeps.ranged.keeps⟩
    · rw [if_pos (show base ≠ f.hugeBase start ∨ n = 0 ∨ start + n > f.capacity by omega)]
      by_cases wrapped : (start + n) % 2 ^ 64 > f.capacity
      · rw [if_pos (by tauto)]
        exact .inl ⟨rfl, ranged.keeps⟩
      · -- the sum wrapped: no loop makes a turn
        right
        have none : runTurns start n = 0 := by
          refine runTurns_wrapped (by omega) word ?_ (by omega)
          by_contra fine
          rw [Nat.mod_eq_of_lt (by omega)] at wrapped
          omega
        rw [if_neg (by omega), none]
        refine ⟨?_, ?_⟩
        · simp only [NIL] at real
          omega
        · simp only [List.range'_zero, every, List.foldlM_nil, runOf, markRun, none,
            Option.bind_eq_bind, Option.bind_some, if_true, Option.pure_def]
          exact ⟨_, rfl, rfl⟩

theorem markRunCommitted_eq (ranged : f.Ranged) (run : HugeRun) :
    Goes f (markRunCommitted f run) (f.markRunCommitted run) := by
  unfold markRunCommitted HugePageFiller.markRunCommitted
  cases f.indexOf run.base with
  | none => exact ⟨rfl, ranged.keeps⟩
  | some start =>
    dsimp only
    split
    · exact ⟨rfl, ranged.keeps⟩
    split
    · exact ⟨rfl, ranged.keeps⟩
    · exact writeAll_eq ranged (fun _ _ slot => ⟨slot.prev, slot.next, slot.len⟩) (by omega)

theorem freeHugepages_eq (ranged : f.Ranged) (base : Nat) :
    Answers f (freeHugepages f base n) (f.freeHugepages base n) := by
  have real := ranged.real
  unfold freeHugepages HugePageFiller.freeHugepages
  cases found : f.indexOf base with
  | none => exact ⟨rfl, ranged.keeps⟩
  | some start =>
    have inside := (indexOf_eq_some found).1
    have len := (ranged.slots start).len
    simp only [get_bind inside, HugePageFiller.get]
    by_cases fits : start + n ≤ f.capacity
    · have same : (start + n) % 2 ^ 64 = start + n := Nat.mod_eq_of_lt (by
        simp only [NIL] at real
        omega)
      rw [same, runTurns_eq (by omega), every_eq fun j member => member_lt fits member,
        any_eq_not_all (p := fun j =>
          (f.slots j).touched && (f.slots j).inRun && (f.slots j).used == pagesPerHugepage)
          fun j => by simp only [Bool.not_and, bne]]
      split
      · exact ⟨rfl, ranged.keeps⟩
      split
      · exact ⟨rfl, ranged.keeps⟩
      simp only [Option.bind_eq_bind, Option.bind_some]
      cases (List.range' start n).all fun j =>
          (f.slots j).touched && (f.slots j).inRun && (f.slots j).used == pagesPerHugepage with
      | false => exact ⟨rfl, ranged.keeps⟩
      | true =>
        simp only [if_true, Bool.not_true, Bool.false_eq_true, if_false]
        exact (writeAll_eq (w := wholeFreed) ranged
          (fun _ _ slot => ⟨slot.prev, slot.next, by simp [wholeFreed]⟩) fits).bind fun keeps =>
            ⟨rfl, keeps.ranged.keeps⟩
    · rw [if_pos (show n = 0 ∨ start + n > f.capacity ∨ ¬hugepageSize ∣ base - f.regionBase by omega)]
      split
      · exact ⟨rfl, ranged.keeps⟩
      next checked =>
        -- the sum wrapped, and no run is that long
        rw [if_pos]
        · exact ⟨rfl, ranged.keeps⟩
        · intro led
          rw [Nat.mod_eq_of_lt (by simp only [NIL] at real; omega)] at checked
          omega

end Checked
end HugePageFiller
end Topomalloc
