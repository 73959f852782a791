import Mathlib.Data.List.Count

/-! Fixed-width bitmaps: reading, setting and clearing runs of bits, and
counting them. The facts are all pointwise, through `BitVec.getLsbD`, so that
the users of a bitmap reason about which bits are set and never about words. -/
namespace Topomalloc.Bitmap

variable {n : Nat} {a b : BitVec n} {i k start len : Nat}

def bitSet (b : BitVec n) (i : Nat) : BitVec n := b ||| BitVec.twoPow n i

def bitClear (b : BitVec n) (i : Nat) : BitVec n := b &&& ~~~BitVec.twoPow n i

/-- Set `len` bits from `start` on, one by one. -/
def setRun (b : BitVec n) (start len : Nat) : BitVec n := (List.range' start len).foldl bitSet b

/-- Clear `len` bits from `start` on, one by one. -/
def clearRun (b : BitVec n) (start len : Nat) : BitVec n := (List.range' start len).foldl bitClear b

def popcount (b : BitVec n) : Nat := (List.range n).countP fun k => b.getLsbD k

/-- No bit of the run is set. -/
def runIsClear (b : BitVec n) (start len : Nat) : Bool := (List.range' start len).all fun k => !b.getLsbD k

def runPopcount (b : BitVec n) (start len : Nat) : Nat := (List.range' start len).countP fun k => b.getLsbD k

/-! ## Reading a written bitmap -/

theorem getLsbD_bitSet : (bitSet b i).getLsbD k = (b.getLsbD k || decide (i = k ∧ k < n)) := by
  rw [bitSet, BitVec.getLsbD_or, BitVec.getLsbD_twoPow]
  grind

theorem getLsbD_bitClear : (bitClear b i).getLsbD k = (b.getLsbD k && !decide (i = k)) := by
  rw [bitClear, BitVec.getLsbD_and, BitVec.getLsbD_not, BitVec.getLsbD_twoPow]
  have inside := b.getLsbD_of_ge k
  grind

theorem getLsbD_setRun :
    (setRun b start len).getLsbD k = (b.getLsbD k || decide (start ≤ k ∧ k < start + len ∧ k < n)) := by
  unfold setRun
  induction len generalizing b start with
  | zero => simp; omega
  | succ len ih =>
    rw [List.range'_succ, List.foldl_cons, ih, getLsbD_bitSet, Bool.or_assoc, ← Bool.decide_or]
    congr 2
    simp only [eq_iff_iff]
    omega

theorem getLsbD_clearRun :
    (clearRun b start len).getLsbD k = (b.getLsbD k && !decide (start ≤ k ∧ k < start + len)) := by
  unfold clearRun
  induction len generalizing b start with
  | zero => simp; omega
  | succ len ih =>
    rw [List.range'_succ, List.foldl_cons, ih, getLsbD_bitClear, Bool.and_assoc, ← Bool.not_or,
      ← Bool.decide_or]
    congr 3
    simp only [eq_iff_iff]
    omega

/-! ## Counting -/

theorem popcount_le : popcount b ≤ n := by
  simpa [popcount] using List.countP_le_length (p := fun k => b.getLsbD k) (l := List.range n)

theorem popcount_eq_zero : popcount b = 0 ↔ b = 0 := by
  simp only [popcount, List.countP_eq_zero, List.mem_range, Bool.not_eq_true]
  constructor
  · intro clear
    refine BitVec.eq_of_getLsbD_eq fun k inside => ?_
    simp [clear k inside]
  · rintro rfl k -
    simp

@[simp] theorem popcount_zero : popcount 0#n = 0 := popcount_eq_zero.mpr rfl

theorem popcount_eq_width : popcount b = n ↔ ∀ k < n, b.getLsbD k = true := by
  have all := List.countP_eq_length (p := fun k => b.getLsbD k) (l := List.range n)
  simpa [popcount] using all

theorem runIsClear_iff :
    runIsClear b start len = true ↔ ∀ k, start ≤ k → k < start + len → b.getLsbD k = false := by
  simp only [runIsClear, List.all_eq_true, List.mem_range'_1, Bool.not_eq_true', and_imp]

theorem runPopcount_le (b : BitVec n) (start len : Nat) : runPopcount b start len ≤ len := by
  simpa [runPopcount] using
    List.countP_le_length (p := fun k => b.getLsbD k) (l := List.range' start len)

theorem runPopcount_eq :
    runPopcount b start len = len ↔ ∀ k, start ≤ k → k < start + len → b.getLsbD k = true := by
  have all := List.countP_eq_length (p := fun k => b.getLsbD k) (l := List.range' start len)
  simpa [runPopcount, and_imp] using all

theorem popcount_eq_runPopcount (b : BitVec n) : popcount b = runPopcount b 0 n := by
  rw [popcount, runPopcount, List.range_eq_range']

theorem runPopcount_append (b : BitVec n) (start len more : Nat) :
    runPopcount b start (len + more) = runPopcount b start len + runPopcount b (start + len) more := by
  rw [runPopcount, runPopcount, runPopcount, ← List.range'_append_1, List.countP_append]

theorem runPopcount_congr (same : ∀ k, start ≤ k → k < start + len → a.getLsbD k = b.getLsbD k) :
    runPopcount a start len = runPopcount b start len := by
  refine List.countP_congr fun k member => ?_
  obtain ⟨lower, upper⟩ := List.mem_range'_1.mp member
  rw [same k lower upper]

/-- Clearing a run of set bits takes its length off the count. -/
theorem popcount_clearRun (fits : start + len ≤ n)
    (set : ∀ k, start ≤ k → k < start + len → b.getLsbD k = true) :
    popcount (clearRun b start len) + len = popcount b := by
  have full := runPopcount_eq.mpr set
  have gone : runPopcount (clearRun b start len) start len = 0 := by
    rw [runPopcount, List.countP_eq_zero]
    intro k member
    have bounds := List.mem_range'_1.mp member
    simp [getLsbD_clearRun, bounds.1, bounds.2]
  have before : runPopcount (clearRun b start len) 0 start = runPopcount b 0 start :=
    runPopcount_congr fun k _ upper => by
      simp [getLsbD_clearRun, show ¬ start ≤ k by omega]
  have after : runPopcount (clearRun b start len) (start + len) (n - (start + len)) =
      runPopcount b (start + len) (n - (start + len)) :=
    runPopcount_congr fun k lower _ => by
      simp [getLsbD_clearRun, show ¬ k < start + len by omega]
  have split : ∀ c : BitVec n, popcount c = runPopcount c 0 start + runPopcount c start len +
        runPopcount c (start + len) (n - (start + len)) := by
    intro c
    have whole := runPopcount_append c 0 (start + len) (n - (start + len))
    rw [Nat.add_sub_cancel' fits, runPopcount_append c 0 start len, Nat.zero_add, Nat.zero_add] at whole
    rw [popcount_eq_runPopcount, whole]
  rw [split, split b, before, after, gone, full]
  omega

/-! ## Inclusion and disjointness, as masks test them -/

theorem and_eq_zero : a &&& b = 0 ↔ ∀ k, a.getLsbD k = true → b.getLsbD k = false := by
  constructor
  · intro disjoint k inA
    have bit := congrArg (·.getLsbD k) disjoint
    simpa [inA] using bit
  · intro disjoint
    refine BitVec.eq_of_getLsbD_eq fun k _ => ?_
    have out := disjoint k
    simp only [BitVec.getLsbD_and, BitVec.ofNat_eq_ofNat, BitVec.getLsbD_zero, Bool.and_eq_false_imp]
    exact out

theorem and_not_eq_zero : a &&& ~~~b = 0 ↔ ∀ k, a.getLsbD k = true → b.getLsbD k = true := by
  rw [and_eq_zero]
  refine forall_congr' fun k => imp_congr_right fun inA => ?_
  have inside := BitVec.lt_of_getLsbD inA
  simp [inside]

/-! ## Searching a range -/

/-- The first hit in a range, and where the search goes on. -/
theorem filter_range'_eq_cons (found : (List.range' i count).filter p = k :: rest) :
    i ≤ k ∧ k < i + count ∧ p k = true ∧ (∀ j, i ≤ j → j < k → p j = false) ∧
      rest = (List.range' (k + 1) (i + count - (k + 1))).filter p := by
  induction count generalizing i with
  | zero => contradiction
  | succ count ih =>
    rw [List.range'_succ, List.filter_cons] at found
    cases here : p i with
    | true =>
      rw [if_pos here] at found
      obtain ⟨rfl, rfl⟩ := List.cons.inj found
      refine ⟨Nat.le_refl i, by omega, here, by omega, ?_⟩
      rw [show i + (count + 1) - (i + 1) = count by omega]
    | false =>
      rw [if_neg (by simp [here])] at found
      obtain ⟨lower, upper, hit, missed, later⟩ := ih found
      refine ⟨by omega, by omega, hit, fun j above below => ?_, ?_⟩
      · by_cases first : j = i
        · rw [first, here]
        · exact missed j (by omega) below
      · rw [later, show i + 1 + count = i + (count + 1) by omega]

/-- A stretch without a hit may be skipped. -/
theorem filter_range'_skip (lower : i ≤ j) (upper : j ≤ i + count)
    (missed : ∀ k, i ≤ k → k < j → p k = false) :
    (List.range' i count).filter p = (List.range' j (i + count - j)).filter p := by
  have split : List.range' i count = List.range' i (j - i) ++ List.range' j (i + count - j) := by
    have joined := List.range'_append_1 (s := i) (m := j - i) (n := i + count - j)
    rw [show i + (j - i) = j by omega, show j - i + (i + count - j) = count by omega] at joined
    exact joined.symm
  have none : (List.range' i (j - i)).filter p = [] := by
    rw [List.filter_eq_nil_iff]
    intro k member
    have bounds := List.mem_range'_1.mp member
    simp [missed k (by omega) (by omega)]
  rw [split, List.filter_append, none, List.nil_append]

/-! ## Maximal runs of set bits -/

/-- A maximal run of set bits starts here. -/
def startsRun (b : BitVec n) (i : Nat) : Bool := b.getLsbD i && (i == 0 || !b.getLsbD (i - 1))

/-- How many bits from `i` on are set without a gap. -/
def runLength (b : BitVec n) (i : Nat) : Nat :=
  ((List.range' i (n - i)).takeWhile fun k => b.getLsbD k).length

/-- Start and length of the maximal runs that start at `i` or later, in
order. -/
def runsFrom (b : BitVec n) (i : Nat) : List (Nat × Nat) :=
  ((List.range' i (n - i)).filter fun k => startsRun b k).map fun k => (k, runLength b k)

/-- No run goes through `i` from before it. -/
def Seam (b : BitVec n) (i : Nat) : Prop := b.getLsbD i = true → startsRun b i = true

theorem seam_zero : Seam b 0 := by
  intro set
  simp [startsRun, set]

theorem seam_of_clear (clear : b.getLsbD i = false) : Seam b i := by
  intro set
  rw [clear] at set
  contradiction

theorem seam_of_clear_below (clear : ∀ k, k < i → b.getLsbD k = false) : Seam b i := by
  intro set
  cases i with
  | zero => exact seam_zero set
  | succ i => simp [startsRun, set, clear i (by omega)]

private theorem takeWhile_range' (p : Nat → Bool) (i count : Nat) :
    ((List.range' i count).takeWhile p).length ≤ count ∧
      (∀ k, i ≤ k → k < i + ((List.range' i count).takeWhile p).length → p k = true) ∧
      (((List.range' i count).takeWhile p).length < count →
        p (i + ((List.range' i count).takeWhile p).length) = false) := by
  induction count generalizing i with
  | zero => simp; omega
  | succ count ih =>
    rw [List.range'_succ, List.takeWhile_cons]
    cases here : p i with
    | false => simp [here]; omega
    | true =>
      obtain ⟨short, set, stop⟩ := ih (i + 1)
      simp only [if_true, List.length_cons]
      refine ⟨by omega, fun k lower upper => ?_, fun shorter => ?_⟩
      · by_cases first : k = i
        · rw [first, here]
        · exact set k (by omega) (by omega)
      · rw [show i + (((List.range' (i + 1) count).takeWhile p).length + 1) =
          i + 1 + ((List.range' (i + 1) count).takeWhile p).length by omega]
        exact stop (by omega)

theorem runLength_fits (inside : i ≤ n) : i + runLength b i ≤ n := by
  have short := (takeWhile_range' (fun k => b.getLsbD k) i (n - i)).1
  unfold runLength
  omega

theorem getLsbD_of_runLength (lower : i ≤ k) (upper : k < i + runLength b i) : b.getLsbD k = true :=
  (takeWhile_range' (fun k => b.getLsbD k) i (n - i)).2.1 k lower upper

theorem runLength_stop (inside : i ≤ n) : b.getLsbD (i + runLength b i) = false := by
  by_cases last : runLength b i < n - i
  · exact (takeWhile_range' (fun k => b.getLsbD k) i (n - i)).2.2 last
  · exact b.getLsbD_of_ge _ (by omega)

theorem runLength_pos (set : b.getLsbD i = true) : 0 < runLength b i := by
  have inside := BitVec.lt_of_getLsbD set
  by_contra none
  have stop := runLength_stop (b := b) (i := i) (by omega)
  rw [show i + runLength b i = i by omega, set] at stop
  contradiction

private theorem runLength_le_of_same {b' : BitVec n} (same : ∀ k, i ≤ k → b.getLsbD k = b'.getLsbD k)
    (inside : i ≤ n) : runLength b i ≤ runLength b' i := by
  by_contra longer
  have set := getLsbD_of_runLength (b := b) (i := i) (k := i + runLength b' i) (by omega) (by omega)
  rw [same _ (by omega), runLength_stop inside] at set
  contradiction

/-- The runs from `i` on depend on the bits from `i` on, when none goes
through `i`. -/
theorem runsFrom_congr {b' : BitVec n} (same : ∀ k, i ≤ k → b.getLsbD k = b'.getLsbD k)
    (seam : Seam b i) (seam' : Seam b' i) : runsFrom b i = runsFrom b' i := by
  have starts : ∀ k, i ≤ k → startsRun b k = startsRun b' k := by
    intro k lower
    by_cases first : k = i
    · subst first
      cases here : b.getLsbD k with
      | true => rw [seam here, seam' (same k (by omega) ▸ here)]
      | false => simp [startsRun, here, ← same k (by omega)]
    · simp only [startsRun, same k lower, same (k - 1) (by omega)]
  unfold runsFrom
  rw [List.filter_congr fun k member => starts k (List.mem_range'_1.mp member).1]
  refine List.map_congr_left fun k member => ?_
  obtain ⟨lower, upper⟩ := List.mem_range'_1.mp (List.mem_filter.mp member).1
  have later : ∀ j, k ≤ j → b.getLsbD j = b'.getLsbD j := fun j above => same j (by omega)
  rw [Nat.le_antisymm (runLength_le_of_same later (by omega))
    (runLength_le_of_same (fun j above => (later j above).symm) (by omega))]

/-- From a seam on, the first set bit starts the first run. -/
theorem find?_eq_head?_runsFrom (seam : Seam b i) :
    ((List.range' i (n - i)).find? fun k => b.getLsbD k).map (fun k => (k, runLength b k)) =
      (runsFrom b i).head? := by
  have same : ∀ count i, Seam b i → ((List.range' i count).find? fun k => b.getLsbD k) =
      (List.range' i count).find? fun k => startsRun b k := by
    intro count
    induction count with
    | zero => intro i _; rfl
    | succ count ih =>
      intro i seam
      rw [List.range'_succ, List.find?_cons, List.find?_cons]
      cases here : b.getLsbD i with
      | true => rw [seam here]
      | false =>
        rw [show startsRun b i = false by simp [startsRun, here]]
        refine ih (i + 1) fun set => ?_
        simp [startsRun, set, here]
  rw [runsFrom, List.head?_map, List.head?_filter, same _ _ seam]

/-- Past the first run, the other runs are left. -/
theorem runsFrom_eq_cons (seam : Seam b i) (first : runsFrom b i = (k, len) :: rest) :
    i ≤ k ∧ (∀ j, i ≤ j → j < k → b.getLsbD j = false) ∧ b.getLsbD k = true ∧
      len = runLength b k ∧ rest = runsFrom b (k + len) := by
  unfold runsFrom at first
  obtain ⟨start, tail, shape, head, others⟩ := List.map_eq_cons_iff.mp first
  obtain ⟨rfl, rfl⟩ := Prod.mk.inj head
  obtain ⟨lower, upper, starts, missed, later⟩ := filter_range'_eq_cons shape
  have set : b.getLsbD start = true := (Bool.and_eq_true_iff.mp starts).1
  have pos := runLength_pos set
  have fits := runLength_fits (b := b) (i := start) (by omega)
  have clear : ∀ j, i ≤ j → j < start → b.getLsbD j = false := by
    intro j above below
    by_contra set
    rw [Bool.not_eq_false] at set
    have none := missed j above below
    -- a set bit that starts no run follows a set bit, down to the seam
    induction j with
    | zero => simp [startsRun, set] at none
    | succ j ih =>
      by_cases first : j + 1 = i
      · rw [first, seam (first ▸ set)] at none
        contradiction
      · have before : b.getLsbD j = true := by simpa [startsRun, set] using none
        exact ih (by omega) (by omega) before (missed j (by omega) (by omega))
  refine ⟨lower, clear, set, rfl, ?_⟩
  rw [← others, later, runsFrom, filter_range'_skip (j := start + runLength b start) (by omega) (by omega)]
  · rw [show i + (n - i) = n by omega, show start + 1 + (n - (start + 1)) = n by omega]
  · intro j above below
    have before := getLsbD_of_runLength (b := b) (i := start) (k := j - 1) (by omega) (by omega)
    simp only [startsRun, before, Bool.not_true, Bool.or_false, Bool.and_eq_false_imp, beq_eq_false_iff_ne]
    omega

/-- The runs cover exactly the set bits. -/
theorem mem_runsFrom_iff (seam : Seam b i) (lower : i ≤ k) :
    (∃ run ∈ runsFrom b i, run.1 ≤ k ∧ k < run.1 + run.2) ↔ b.getLsbD k = true := by
  constructor
  · rintro ⟨run, member, above, below⟩
    obtain ⟨start, -, rfl⟩ := List.mem_map.mp member
    exact getLsbD_of_runLength above below
  · intro set
    induction found : runsFrom b i generalizing i with
    | nil =>
      have none := find?_eq_head?_runsFrom seam
      rw [found, List.head?_nil, Option.map_eq_none_iff, List.find?_eq_none] at none
      have inside := BitVec.lt_of_getLsbD set
      exact absurd set (none k (List.mem_range'_1.mpr ⟨lower, by omega⟩))
    | cons run rest ih =>
      obtain ⟨start, len⟩ := run
      obtain ⟨above, clear, starts, rfl, rfl⟩ := runsFrom_eq_cons seam found
      have inside := BitVec.lt_of_getLsbD starts
      have seam' : Seam b (start + runLength b start) := seam_of_clear (runLength_stop (by omega))
      by_cases past : start + runLength b start ≤ k
      · obtain ⟨run, member, covers⟩ := ih seam' past rfl
        exact ⟨run, by simp [member], covers⟩
      · by_cases before : start ≤ k
        · exact ⟨_, List.mem_cons_self .., before, by omega⟩
        · rw [clear k lower (by omega)] at set
          contradiction

end Topomalloc.Bitmap
