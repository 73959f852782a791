import Topomalloc.Huge.Oracle

/-! What `release_empty_excess_bounded` gives back when nobody interferes. The
committed pages of an empty hugepage may be any set of pages; they go run by
run, each maximal run once, and what is left of the hugepage is bookkeeping. -/
namespace Topomalloc
open Function Bitmap

/-- Revoking and decommitting succeed. -/
structure Provider.GivesBack {σ : Type} (P : Provider σ) : Prop where
  revoke : ∀ w arena r, (P.revokeDescendants w arena r).1 = .ok ()
  decommit : ∀ w r offset len, (P.decommit w r offset len).1 = .ok ()

namespace HugePageFiller
variable {f f' f'' : HugePageFiller} {i off pages start base : Nat} {chosen rest : List Nat}

/-! ## One run -/

/-- The run at `off` of hugepage `i` went from committed to released. -/
structure Gave (f f' : HugePageFiller) (i off pages : Nat) : Prop where
  region : SameRegion f f'
  live : (f'.slots i).live = (f.slots i).live
  committed : (f'.slots i).committed = clearRun (f.slots i).committed off pages
  released : (f'.slots i).released = setRun (f.slots i).released off pages
  other : ∀ j, j ≠ i → (f'.slots j).body = (f.slots j).body

theorem Refiled.gave (h : Refiled f f' i (unbacked (f.slots i) off pages)) : Gave f f' i off pages := by
  refine ⟨h.same, ?_, ?_, ?_, h.other⟩
  · exact (congrArg HugePageSlot.live h.here :)
  · exact (congrArg HugePageSlot.committed h.here :)
  · exact (congrArg HugePageSlot.released h.here :)

theorem Gave.setSubreleaseEvents (h : Gave f f' i off pages) (v : Nat) :
    Gave f { f' with subreleaseEvents := v } i off pages :=
  ⟨⟨h.region.capacity, h.region.regionBase, h.region.nextUntouched⟩, h.live, h.committed, h.released, h.other⟩

/-- A run of committed pages of an empty hugepage can always be given up. -/
theorem Settled.subrelease_run (h : f.Settled) (below : i < f.nextUntouched)
    (empty : (f.slots i).live = 0) (pos : 0 < pages) (fits : off + pages ≤ pagesPerHugepage)
    (set : ∀ k, off ≤ k → k < off + pages → (f.slots i).committed.getLsbD k = true)
    (page : base = f.hugeBase i + off * pageSize) (high : pressureHigh = true) :
    ∃ f', f.subrelease base pages pressureHigh =
        some (⟨i, i * hugepageSize + off * pageSize, pages * pageSize⟩, f') ∧
      f'.Settled ∧ Gave f f' i off pages := by
  have inside : i < f.capacity := Nat.lt_of_lt_of_le below h.wf.bound
  have touched := (h.wf.sound i below).touched
  have clear : runIsClear (f.slots i).live off pages = true := by simp [runIsClear_iff, empty]
  have full := runPopcount_eq.mpr set
  have effect := refiled f i (unbacked (f.slots i) off pages)
  have aimed : base - f.regionBase = i * hugepageSize + off * pageSize := by
    rw [page, hugeBase]
    omega
  have found : f.indexOf base = some i := page ▸ indexOf_page inside (by omega)
  have offset : (base - f.hugeBase i) / pageSize = off := page ▸ pageOffset_cancel
  have checked : ¬((f.slots i).touched = false ∨ pages = 0 ∨ ¬pageSize ∣ base - f.regionBase) := by
    rintro (untouched | none | ragged)
    · rw [touched] at untouched
      contradiction
    · omega
    · exact ragged (page ▸ page_dvd_offset)
  have ran : f.subrelease base pages pressureHigh =
      some (⟨i, i * hugepageSize + off * pageSize, pages * pageSize⟩,
        { (f.put i (unbacked (f.slots i) off pages)).refile i with
          subreleaseEvents :=
            ((f.put i (unbacked (f.slots i) off pages)).refile i).subreleaseEvents + 1 }) := by
    unfold HugePageFiller.subrelease
    rw [found]
    dsimp only [get]
    rw [if_neg checked, offset, if_neg (by omega), if_neg (by simp [clear]), if_neg (by simp [full]),
      if_neg (by simp [high]), if_neg (by simp [high])]
    simp only [regionOffset, effect.same.regionBase, aimed]
  exact ⟨_, ran, (h.subrelease ran).1, effect.gave.setSubreleaseEvents _⟩

theorem subrelease_len
    (ran : f.subrelease base pages pressureHigh = some (sr, f')) : sr.len = pages * pageSize := by
  unfold subrelease at ran
  split at ran
  · contradiction
  · simp only [Option.ite_none_left_eq_some] at ran
    obtain ⟨-, -, -, -, -, -, ran⟩ := ran
    obtain ⟨rfl, -⟩ := Prod.mk.inj (Option.some.inj ran)
    rfl

/-! ## All runs of a hugepage -/

/-- The committed pages of the hugepages in `chosen` went to released, and no
other hugepage changed. -/
structure Shrunk (f f' : HugePageFiller) (chosen : List Nat) : Prop where
  region : SameRegion f f'
  live : ∀ i ∈ chosen, (f'.slots i).live = (f.slots i).live
  committed : ∀ i ∈ chosen, (f'.slots i).committed = 0
  released : ∀ i ∈ chosen, (f'.slots i).released = (f.slots i).released ||| (f.slots i).committed
  other : ∀ j, j ∉ chosen → (f'.slots j).body = (f.slots j).body

theorem Shrunk.nil : Shrunk f f [] := ⟨.refl, by simp, by simp, by simp, fun _ _ => rfl⟩

/-- A hugepage without committed pages has given up all of them. -/
theorem Shrunk.of_bare (bare : (f.slots i).committed = 0) : Shrunk f f [i] := by
  refine ⟨.refl, by simp, by simp [bare], ?_, fun _ _ => rfl⟩
  intro j member
  obtain rfl := List.mem_singleton.mp member
  simp [bare]

/-- First one run, then the others. -/
theorem Gave.shrunk (h : Gave f f' i off pages)
    (set : ∀ k, off ≤ k → k < off + pages → (f.slots i).committed.getLsbD k = true)
    (rest : Shrunk f' f'' [i]) : Shrunk f f'' [i] := by
  have mine : i ∈ [i] := List.mem_singleton.mpr rfl
  refine ⟨h.region.trans rest.region, ?_, ?_, ?_, ?_⟩
  · intro j member
    obtain rfl := List.mem_singleton.mp member
    rw [rest.live j mine, h.live]
  · intro j member
    obtain rfl := List.mem_singleton.mp member
    exact rest.committed j mine
  · intro j member
    obtain rfl := List.mem_singleton.mp member
    rw [rest.released j mine, h.released, h.committed]
    refine BitVec.eq_of_getLsbD_eq fun k inside => ?_
    simp only [BitVec.getLsbD_or, getLsbD_setRun, getLsbD_clearRun]
    have given := set k
    grind
  · intro j other
    rw [rest.other j other, h.other j (fun same => other (by simp [same]))]

theorem nextCommittedRun_bounds (found : f.nextCommittedRun i start = some (off, pages)) :
    start ≤ off ∧ 0 < pages ∧ off + pages ≤ pagesPerHugepage := by
  unfold nextCommittedRun at found
  split at found
  · contradiction
  obtain ⟨first, hit, run⟩ := Option.map_eq_some_iff.mp found
  obtain ⟨rfl, rfl⟩ := Prod.mk.inj run
  have set := List.find?_some hit
  have lower := (List.mem_range'_1.mp (List.mem_of_find?_eq_some hit)).1
  have inside := BitVec.lt_of_getLsbD set
  exact ⟨lower, runLength_pos set, runLength_fits (by omega)⟩

/-- The search for committed runs meets the maximal ones, in order. -/
theorem nextCommittedRun_eq (below : i < f.nextUntouched) (seam : Seam (f.slots i).committed start) :
    f.nextCommittedRun i start = (runsFrom (f.slots i).committed start).head? := by
  rw [nextCommittedRun, if_neg (by omega), ← find?_eq_head?_runsFrom seam]
  rfl

/-! ## The walk over hugepages -/

/-- Hugepage `i` has no live page and some committed one. -/
def emptyBackedAt (f : HugePageFiller) (i : Nat) : Bool :=
  (f.slots i).touched && (f.slots i).used == 0 && popcount (f.slots i).committed != 0

/-- The empty hugepages with committed pages from `start` on, in slot order. -/
def emptyBackedFrom (f : HugePageFiller) (start : Nat) : List Nat :=
  (List.range' start (f.nextUntouched - start)).filter f.emptyBackedAt

theorem nextEmptyBacked_eq (start : Nat) : f.nextEmptyBacked start =
    (f.emptyBackedFrom start).head?.map fun i =>
      (i, f.hugeBase i, popcount (f.slots i).committed) := by
  rw [emptyBackedFrom, List.head?_filter]
  rfl

theorem live_of_emptyBackedAt (empty : f.emptyBackedAt i = true) : (f.slots i).live = 0 := by
  simp only [emptyBackedAt, Bool.and_eq_true, beq_iff_eq] at empty
  exact popcount_eq_zero.mp empty.1.2

theorem emptyBackedFrom_eq_cons (first : f.emptyBackedFrom start = i :: rest) :
    start ≤ i ∧ i < f.nextUntouched ∧ f.emptyBackedAt i = true ∧ rest = f.emptyBackedFrom (i + 1) := by
  obtain ⟨lower, upper, here, -, later⟩ := filter_range'_eq_cons first
  refine ⟨lower, by omega, here, ?_⟩
  rw [later, emptyBackedFrom]
  congr 2
  omega

theorem nextEmptyBacked_bounds (found : f.nextEmptyBacked start = some (i, base, committed)) :
    start ≤ i ∧ i < f.nextUntouched := by
  rw [nextEmptyBacked_eq, Option.map_eq_some_iff] at found
  obtain ⟨first, head, named⟩ := found
  obtain rfl : first = i := (Prod.mk.inj named).1
  obtain ⟨rest, shape⟩ := List.head?_eq_some_iff.mp head
  obtain ⟨lower, upper, -, -⟩ := emptyBackedFrom_eq_cons shape
  exact ⟨lower, upper⟩

theorem le_of_mem_emptyBackedFrom (member : i ∈ f.emptyBackedFrom start) : start ≤ i :=
  (List.mem_range'_1.mp (List.mem_filter.mp member).1).1

/-- Hugepages before `start` do not count. -/
theorem emptyBackedFrom_congr (same : f'.nextUntouched = f.nextUntouched)
    (bodies : ∀ j, start ≤ j → (f'.slots j).body = (f.slots j).body) :
    f'.emptyBackedFrom start = f.emptyBackedFrom start := by
  unfold emptyBackedFrom
  rw [same]
  refine List.filter_congr fun j member => ?_
  have body := bodies j (List.mem_range'_1.mp member).1
  have fields : ∀ {β : Type} (part : HugePageSlot → β), part (f'.slots j).body = part (f.slots j).body :=
    fun part => by rw [body]
  exact fields fun s => s.touched && s.used == 0 && popcount s.committed != 0

/-- The empty hugepages that hold committed pages, in slot order. -/
def emptyBacked (f : HugePageFiller) : List Nat :=
  (List.range f.capacity).filter fun i => (f.slots i).live = 0 ∧ (f.slots i).committed ≠ 0

/-- The walk meets all of them: what is not touched holds nothing. -/
theorem Settled.emptyBackedFrom_eq (h : f.Settled) : f.emptyBackedFrom 0 = f.emptyBacked := by
  have bound := h.wf.bound
  have untouched : ∀ i, f.nextUntouched ≤ i → (f.slots i).committed = 0 :=
    fun i above => (h.wf.pristine i above).committed
  have parts : List.range f.capacity = List.range' 0 f.nextUntouched ++
      List.range' f.nextUntouched (f.capacity - f.nextUntouched) := by
    have joined := List.range'_append_1 (s := 0) (m := f.nextUntouched) (n := f.capacity - f.nextUntouched)
    rw [Nat.zero_add, Nat.add_sub_cancel' bound] at joined
    rw [List.range_eq_range', joined]
  have none : (List.range' f.nextUntouched (f.capacity - f.nextUntouched)).filter
      (fun i => (f.slots i).live = 0 ∧ (f.slots i).committed ≠ 0) = [] := by
    rw [List.filter_eq_nil_iff]
    intro i member
    simp [untouched i (List.mem_range'_1.mp member).1]
  rw [emptyBackedFrom, emptyBacked, parts, List.filter_append, none, List.append_nil, Nat.sub_zero]
  refine List.filter_congr fun i member => ?_
  have touched := (h.wf.sound i (by simpa using List.mem_range'_1.mp member)).touched
  rw [Bool.eq_iff_iff]
  simp [emptyBackedAt, touched, HugePageSlot.used, popcount_eq_zero]

theorem Shrunk.cons (h : Shrunk f f' [i]) (later : Shrunk f' f'' rest) (apart : i ∉ rest) :
    Shrunk f f'' (i :: rest) := by
  have mine : i ∈ [i] := List.mem_singleton.mpr rfl
  have before : ∀ j ∈ rest, (f'.slots j).body = (f.slots j).body := by
    intro j member
    refine h.other j fun first => ?_
    rw [List.mem_singleton.mp first] at member
    exact apart member
  have after := later.other i apart
  refine ⟨h.region.trans later.region, ?_, ?_, ?_, ?_⟩
  · intro j member
    rcases List.mem_cons.mp member with rfl | member
    · exact (congrArg HugePageSlot.live after :).trans (h.live j mine)
    · exact (later.live j member).trans (congrArg HugePageSlot.live (before j member) :)
  · intro j member
    rcases List.mem_cons.mp member with rfl | member
    · exact (congrArg HugePageSlot.committed after :).trans (h.committed j mine)
    · exact later.committed j member
  · intro j member
    rcases List.mem_cons.mp member with rfl | member
    · exact (congrArg HugePageSlot.released after :).trans (h.released j mine)
    · rw [later.released j member]
      exact congrArg (fun s => s.released ||| s.committed) (before j member)
  · intro j other
    rw [List.mem_cons, not_or] at other
    rw [later.other j other.2, h.other j (by simp [other.1])]

end HugePageFiller

namespace HugePageBackend
variable {σ : Type} (P : Provider σ) {g : HugePageBackend} {f' : HugePageFiller} {i off pages : Nat}

/-- The provider after a range of the region, by offset and length, was revoked
and decommitted. -/
def giveBack (g : HugePageBackend) (w : σ) (range : Nat × Nat) : σ :=
  (P.decommit (P.revokeDescendants w g.arena (g.subregion (g.region.base + range.1) range.2)).2
    g.region range.1 range.2).2

/-- A run of pages of hugepage `i`, by offset and length in the region. -/
def bytesOf (i : Nat) (run : Nat × Nat) : Nat × Nat := (i * hugepageSize + run.1 * pageSize, run.2 * pageSize)

variable {P}

theorem subrelease_run (willing : P.GivesBack) (held : g.released = false)
    (settled : g.filler.Settled) (below : i < g.filler.nextUntouched)
    (empty : (g.filler.slots i).live = 0) (pos : 0 < pages) (fits : off + pages ≤ pagesPerHugepage)
    (set : ∀ k, off ≤ k → k < off + pages → (g.filler.slots i).committed.getLsbD k = true) (w : σ) :
    ∃ f', g.subrelease P (g.filler.hugeBase i + off * pageSize) pages true w =
        (pages * pageSize, { g with filler := f' }, g.giveBack P w (bytesOf i (off, pages))) ∧
      f'.Settled ∧ g.filler.Gave f' i off pages := by
  obtain ⟨f', ran, settled', gave⟩ := settled.subrelease_run below empty pos fits set rfl rfl
  refine ⟨f', ?_, settled', gave⟩
  simp only [subrelease, held, Bool.false_eq_true, if_false, ran, giveBack, bytesOf]
  have revoked := willing.revoke w g.arena
    (g.subregion (g.region.base + (i * hugepageSize + off * pageSize)) (pages * pageSize))
  generalize P.revokeDescendants w g.arena
    (g.subregion (g.region.base + (i * hugepageSize + off * pageSize)) (pages * pageSize)) = answer at revoked
  obtain ⟨answer, w'⟩ := answer
  obtain rfl : answer = .ok () := revoked
  dsimp only
  have given := willing.decommit w' g.region (i * hugepageSize + off * pageSize) (pages * pageSize)
  generalize P.decommit w' g.region (i * hugepageSize + off * pageSize) (pages * pageSize) = answer
    at given
  obtain ⟨answer, w''⟩ := answer
  obtain rfl : answer = .ok () := given
  rfl

/-- All maximal runs of an empty hugepage go, each once, when the budget is
large enough for them. -/
theorem releaseRunsFrom_all (willing : P.GivesBack) (held : g.released = false)
    (settled : g.filler.Settled) (below : i < g.filler.nextUntouched)
    (empty : (g.filler.slots i).live = 0) (maxBytes fuel released searchFrom : Nat)
    (enough : pagesPerHugepage - searchFrom < fuel)
    (clear : ∀ k, k < searchFrom → (g.filler.slots i).committed.getLsbD k = false)
    (room : released + popcount (g.filler.slots i).committed * pageSize ≤ maxBytes) (w : σ) :
    ∃ f', releaseRunsFrom P i (g.filler.hugeBase i) maxBytes fuel released searchFrom g w =
        (released + popcount (g.filler.slots i).committed * pageSize, { g with filler := f' },
          ((runsFrom (g.filler.slots i).committed searchFrom).map (bytesOf i)).foldl (g.giveBack P) w) ∧
      f'.Settled ∧ g.filler.Shrunk f' [i] := by
  -- one turn for each run; what is below `searchFrom` has been given up
  induction fuel generalizing released searchFrom g w with
  | zero => omega
  | succ fuel ih =>
    have seam := seam_of_clear_below clear
    have found := HugePageFiller.nextCommittedRun_eq below seam
    unfold releaseRunsFrom
    dsimp only
    rw [found]
    cases runs : runsFrom (g.filler.slots i).committed searchFrom with
    | nil =>
      have bare : (g.filler.slots i).committed = 0 := by
        refine BitVec.eq_of_getLsbD_eq fun k inside => ?_
        rw [show BitVec.getLsbD 0 k = false from BitVec.getLsbD_zero]
        by_cases past : searchFrom ≤ k
        · have covered := mem_runsFrom_iff seam past
          rw [runs] at covered
          simpa using covered
        · exact clear k (by omega)
      refine ⟨g.filler, ?_, settled, .of_bare bare⟩
      simp [bare]
    | cons run rest =>
      obtain ⟨off, pages⟩ := run
      obtain ⟨lower, missed, first, long, later⟩ := runsFrom_eq_cons seam runs
      have inside := BitVec.lt_of_getLsbD first
      have pos : 0 < pages := long ▸ runLength_pos first
      have fits : off + pages ≤ pagesPerHugepage := long ▸ runLength_fits (by omega)
      have set : ∀ k, off ≤ k → k < off + pages → (g.filler.slots i).committed.getLsbD k = true :=
        fun k above below => getLsbD_of_runLength above (long ▸ below)
      have stop : (g.filler.slots i).committed.getLsbD (off + pages) = false :=
        long ▸ runLength_stop (by omega)
      obtain ⟨f₁, ran, settled₁, gave⟩ := subrelease_run willing held settled below empty pos fits set w
      have fewer : popcount (f₁.slots i).committed + pages = popcount (g.filler.slots i).committed :=
        gave.committed ▸ popcount_clearRun fits set
      have bytes : popcount (g.filler.slots i).committed * pageSize =
          popcount (f₁.slots i).committed * pageSize + pages * pageSize := by
        rw [← fewer, Nat.add_mul]
      have affordable : pages ≤ (maxBytes - released) / pageSize := by
        rw [Nat.le_div_iff_mul_le (by decide)]
        omega
      have left : maxBytes - released ≠ 0 := by
        intro zero
        rw [zero, Nat.zero_div] at affordable
        omega
      have gone : ∀ k, k < off + pages → (f₁.slots i).committed.getLsbD k = false := by
        intro k upper
        rw [gave.committed, getLsbD_clearRun]
        by_cases above : off ≤ k
        · simp [above, upper]
        · by_cases seen : k < searchFrom
          · simp [clear k seen]
          · simp [missed k (by omega) (by omega)]
      have same : ∀ k, off + pages ≤ k →
          (f₁.slots i).committed.getLsbD k = (g.filler.slots i).committed.getLsbD k := by
        intro k above
        rw [gave.committed, getLsbD_clearRun]
        simp [show ¬k < off + pages by omega]
      obtain ⟨f₂, ended, settled₂, shrunk⟩ := ih (g := { g with filler := f₁ }) held settled₁
        (gave.region.nextUntouched ▸ below) (gave.live.trans empty)
        (released + pages * pageSize) (off + pages) (by omega) gone
        (by dsimp only; omega) (g.giveBack P w (bytesOf i (off, pages)))
      refine ⟨f₂, ?_, settled₂, gave.shrunk set shrunk⟩
      dsimp only [List.head?_cons]
      rw [if_neg left, if_neg (by omega), Nat.min_eq_left affordable, ran]
      have home : f₁.hugeBase i = g.filler.hugeBase i := by
        rw [HugePageFiller.hugeBase, HugePageFiller.hugeBase, gave.region.regionBase]
      rw [home] at ended
      refine ended.trans ?_
      rw [later, List.map_cons, List.foldl_cons, bytes,
        runsFrom_congr same (seam_of_clear_below gone) (seam_of_clear stop),
        Nat.add_assoc, Nat.add_comm (pages * pageSize)]
      rfl

/-- What hugepage `i` holds committed, in bytes. -/
def backedBytes (f : HugePageFiller) (i : Nat) : Nat := popcount (f.slots i).committed * pageSize

/-- The committed runs of hugepage `i`, by offset and length in the region. -/
def backedRuns (f : HugePageFiller) (i : Nat) : List (Nat × Nat) :=
  (runsFrom (f.slots i).committed 0).map (bytesOf i)

theorem releaseHugepageRuns_all (willing : P.GivesBack) (held : g.released = false)
    (settled : g.filler.Settled) (below : i < g.filler.nextUntouched)
    (empty : (g.filler.slots i).live = 0) (room : backedBytes g.filler i ≤ maxBytes) (w : σ) :
    ∃ f', g.releaseHugepageRuns P i (g.filler.hugeBase i) maxBytes w =
        (backedBytes g.filler i, { g with filler := f' }, (backedRuns g.filler i).foldl (g.giveBack P) w) ∧
      f'.Settled ∧ g.filler.Shrunk f' [i] := by
  obtain ⟨f', ran, settled', shrunk⟩ := releaseRunsFrom_all willing held settled below empty
    maxBytes (pagesPerHugepage + 1) 0 0 (by omega)
    (fun k negative => absurd negative (Nat.not_lt_zero k)) ((Nat.zero_add _).trans_le room) w
  rw [Nat.zero_add] at ran
  exact ⟨f', ran, settled', shrunk⟩

theorem backedBytes_le (f : HugePageFiller) (i : Nat) : backedBytes f i ≤ usizeMax := by
  have most : backedBytes f i ≤ pagesPerHugepage * pageSize := Nat.mul_le_mul_right _ popcount_le
  exact most.trans (by decide)

/-- The walk keeps the first hugepages up to the reserve and empties as many of
the next ones as it may. -/
theorem releaseExcessFrom_all (willing : P.GivesBack) (held : g.released = false)
    (settled : g.filler.Settled) (reserve maxRelease fuel released releases kept start : Nat)
    (enough : g.filler.nextUntouched - start < fuel) (w : σ) :
    ∃ f' chosen,
      chosen = ((g.filler.emptyBackedFrom start).drop (reserve - kept)).take (maxRelease - releases) ∧
      releaseExcessFrom P reserve maxRelease fuel released releases kept start g w =
        (released + (chosen.map (backedBytes g.filler)).sum, { g with filler := f' },
          (chosen.flatMap (backedRuns g.filler)).foldl (g.giveBack P) w) ∧
      f'.Settled ∧ g.filler.Shrunk f' chosen := by
  induction fuel generalizing released releases kept start g w with
  | zero => omega
  | succ fuel ih =>
    unfold releaseExcessFrom
    by_cases spent : releases ≥ maxRelease
    · rw [if_pos spent]
      refine ⟨g.filler, [], ?_, by simp, settled, .nil⟩
      rw [Nat.sub_eq_zero_of_le spent, List.take_zero]
    rw [if_neg spent, HugePageFiller.nextEmptyBacked_eq]
    cases found : g.filler.emptyBackedFrom start with
    | nil => exact ⟨g.filler, [], by simp, by simp, settled, .nil⟩
    | cons i rest =>
      obtain ⟨lower, upper, here, rfl⟩ := HugePageFiller.emptyBackedFrom_eq_cons found
      dsimp only [List.head?_cons, Option.map_some]
      by_cases keep : kept < reserve
      · rw [if_pos keep]
        obtain ⟨f', chosen, rfl, ran, settled', shrunk⟩ := ih held settled released
          releases (kept + 1) (i + 1) (by omega) w
        refine ⟨f', _, ?_, ran, settled', shrunk⟩
        rw [show reserve - kept = reserve - (kept + 1) + 1 by omega, List.drop_succ_cons]
      · rw [if_neg keep]
        obtain ⟨f₁, ran₁, settled₁, shrunk₁⟩ := releaseHugepageRuns_all willing held settled upper
          (HugePageFiller.live_of_emptyBackedAt here) (backedBytes_le g.filler i) w
        have bodies : ∀ j, i + 1 ≤ j → (f₁.slots j).body = (g.filler.slots j).body := by
          intro j above
          refine shrunk₁.other j fun first => ?_
          have := List.mem_singleton.mp first
          omega
        have same := HugePageFiller.emptyBackedFrom_congr shrunk₁.region.nextUntouched bodies
        obtain ⟨f₂, others, which, ran₂, settled₂, shrunk₂⟩ := ih (g := { g with filler := f₁ }) held
          settled₁ (released + backedBytes g.filler i) (releases + 1) kept (i + 1)
          (by dsimp only; have := shrunk₁.region.nextUntouched; omega)
          ((backedRuns g.filler i).foldl (g.giveBack P) w)
        have past : ∀ j ∈ others, i + 1 ≤ j := by
          intro j member
          rw [which] at member
          exact HugePageFiller.le_of_mem_emptyBackedFrom (List.mem_of_mem_drop (List.mem_of_mem_take member))
        have committed : ∀ j ∈ others, (f₁.slots j).committed = (g.filler.slots j).committed :=
          fun j member => (congrArg HugePageSlot.committed (bodies j (past j member)) :)
        have bytes : others.map (backedBytes f₁) = others.map (backedBytes g.filler) :=
          List.map_congr_left fun j member => by rw [backedBytes, backedBytes, committed j member]
        have runs : others.flatMap (backedRuns f₁) = others.flatMap (backedRuns g.filler) :=
          List.flatMap_congr fun j member => by rw [backedRuns, backedRuns, committed j member]
        refine ⟨f₂, i :: others, ?_, ?_, settled₂, shrunk₁.cons shrunk₂ fun member => ?_⟩
        · rw [which, same, show reserve - kept = 0 by omega, List.drop_zero, List.drop_zero,
            show maxRelease - releases = maxRelease - (releases + 1) + 1 by omega,
            List.take_succ_cons]
        · rw [ran₁]
          refine ran₂.trans ?_
          rw [bytes, runs, List.map_cons, List.sum_cons, List.flatMap_cons, List.foldl_append, Nat.add_assoc]
          rfl
        · have := past i member
          omega

/-- Alone and with a willing provider, `release_empty_excess_bounded` empties
the hugepages after the reserve, and only those. -/
theorem releaseEmptyExcessBounded_all (willing : P.GivesBack) (held : g.released = false)
    (settled : g.filler.Settled) (reserve maxRelease : Nat) (w : σ) :
    ∃ f' chosen, chosen = ((g.filler.emptyBackedFrom 0).drop reserve).take maxRelease ∧
      g.releaseEmptyExcessBounded P reserve maxRelease w =
        ((chosen.map (backedBytes g.filler)).sum, { g with filler := f' },
          (chosen.flatMap (backedRuns g.filler)).foldl (g.giveBack P) w) ∧
      f'.Settled ∧ g.filler.Shrunk f' chosen := by
  have bound := settled.wf.bound
  obtain ⟨f', chosen, which, ran, after⟩ := releaseExcessFrom_all willing held settled reserve
    maxRelease (g.filler.capacity + 1) 0 0 0 0 (by omega) w
  rw [Nat.zero_add] at ran
  exact ⟨f', chosen, which, ran, after⟩

end HugePageBackend
end Topomalloc
