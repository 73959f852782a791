import Topomalloc.Request
import Mathlib.Data.List.GetD

/-! Golden size-class tables: what the generator checks before it emits one
(`size-class-gen/src/model.rs`), and the lookup and the classification over any table
it accepts (`size_class.rs`, `classify.rs`).

The lookup reads a granule's entry and walks on to a class that is aligned enough. A
granule's entry is the first class that covers its smallest request; class sizes are
multiples of the quantum, so that class covers the whole granule, and sizes ascend, so
every class the walk passes covers the request too. `table_requests` puts the two
together: the walk ends where a linear search would. -/
namespace Topomalloc

/-- The golden file as deserialized. -/
structure Golden where
  schemaVersion : Nat
  pageSize : Nat
  quantum : Nat
  tinyMin : Nat
  smallMax : Nat
  hugeThreshold : Nat
  classes : List SizeClassRow

/-- `Table`: a table that passed, with what is derived from it. -/
structure Table where
  pageSize : Nat
  quantum : Nat
  tinyMin : Nat
  smallMax : Nat
  hugeThreshold : Nat
  maxAlign : Nat
  classes : List SizeClassRow
  sizeToClass : List Nat

namespace Golden

/-- An early return with a message. -/
def refuseIf (bad : Prop) [Decidable bad] (message : String) : Except String Unit :=
  if bad then .error message else .ok ()

/-- The checks of one row; `prev` is the size of the row before it. -/
def checkRow (g : Golden) (i prev : Nat) (c : SizeClassRow) : Except String Unit := do
  let here := s!"class[{i}] (size {c.size})"
  refuseIf (c.size = 0 ∨ c.align = 0) s!"{here}: size and align must be > 0"
  refuseIf (isPowerOfTwo c.align = false) s!"{here}: align {c.align} must be a power of two"
  refuseIf (c.size % c.align ≠ 0)
    s!"{here}: size {c.size} is not a multiple of align {c.align} (§9.3)"
  refuseIf (c.align > c.size) s!"{here}: align {c.align} exceeds size"
  refuseIf (c.size % g.quantum ≠ 0)
    s!"{here}: size {c.size} must be a multiple of quantum {g.quantum}"
  refuseIf (c.size < g.tinyMin) s!"{here}: size below tiny_min {g.tinyMin}"
  refuseIf (c.slabPages = 0) s!"{here}: slab_pages must be >= 1"
  refuseIf (c.objectsPerSlab = 0) s!"{here}: objects_per_slab must be >= 1"
  let slabBytes := c.slabPages * g.pageSize
  let expected := slabBytes / c.size
  refuseIf (expected ≠ c.objectsPerSlab)
    s!"{here}: objects_per_slab {c.objectsPerSlab} != floor({slabBytes} / {c.size}) = {expected} (§9.5 slab layout)"
  refuseIf (c.objectsPerSlab * c.size > slabBytes) s!"{here}: objects overflow the slab"
  refuseIf (c.maxLocalCapacity = 0) s!"{here}: max_local_capacity must be >= 1"
  refuseIf (c.batch = 0 ∨ c.batch > c.maxLocalCapacity)
    s!"{here}: batch {c.batch} must be in 1..=max_local_capacity {c.maxLocalCapacity} (§9.5)"
  if i > 0 then
    refuseIf (c.size ≤ prev) s!"{here}: sizes must be strictly increasing"
    let (num, den, target) :=
      if c.size ≤ 48 then (2, 1, "≤ 2.0 (tiny, alignment-dominated)")
      else if c.size ≤ 128 then (4, 3, "≤ 1.33")
      else if c.size ≤ 1024 then (6, 5, "≤ 1.20")
      else (9, 8, "≤ 1.125")
    refuseIf (c.size * den > num * prev)
      s!"{here}: spacing ratio {c.size}/{prev} exceeds the §9.4 target {target}"

def checkRows (g : Golden) : (i prev : Nat) → List SizeClassRow → Except String Unit
  | _, _, [] => .ok ()
  | i, prev, c :: rest => do
    g.checkRow i prev c
    checkRows g (i + 1) c.size rest

/-- The entry of a granule: the first class that covers its smallest request, as a `u8`. -/
def granuleClass (g : Golden) (granule : Nat) : Except String Nat :=
  let rep := granule * g.quantum + 1
  match g.classes.findIdx? fun c => decide (rep ≤ c.size) with
  | none => .error s!"no class covers size {rep}"
  | some i => .ok (i % 256)

/-- The derived lookup sends a request size to the smallest class that fits. -/
def checkLookup (g : Golden) (sizeToClass : List Nat) (s : Nat) : Except String Unit := do
  let i := sizeToClass.getD ((s - 1) / g.quantum) 0
  let chosen := g.classes.getD i default
  refuseIf (chosen.size < s) s!"lookup unsound: size {s} -> class {chosen.size} too small"
  refuseIf (i > 0 ∧ (g.classes.getD (i - 1) default).size ≥ s)
    s!"lookup non-minimal: size {s} should map to a smaller class"

/-- `Table::validate`. -/
def validate (g : Golden) : Except String Table := do
  refuseIf (g.schemaVersion ≠ 1) s!"unsupported schema_version {g.schemaVersion}"
  refuseIf (g.pageSize = 0) "page_size must be > 0"
  refuseIf (isPowerOfTwo g.quantum = false) s!"quantum {g.quantum} must be a power of two"
  refuseIf (g.tinyMin = 0 ∨ g.smallMax = 0) "tiny_min and small_max must be > 0"
  refuseIf (g.smallMax % g.quantum ≠ 0)
    s!"small_max {g.smallMax} must be a multiple of quantum {g.quantum} (granule lookup soundness)"
  refuseIf (g.hugeThreshold ≤ g.smallMax)
    s!"huge_threshold {g.hugeThreshold} must exceed small_max {g.smallMax} (the medium range must be non-empty)"
  refuseIf (g.hugeThreshold % g.pageSize ≠ 0)
    s!"huge_threshold {g.hugeThreshold} must be a whole multiple of page_size {g.pageSize}"
  refuseIf (g.classes = []) "table must have at least one class"
  refuseIf (g.classes.length > 256) "table may have at most 256 classes (u8 class index)"
  let first := (g.classes.headD default).size
  refuseIf (first ≠ g.tinyMin) s!"first class size {first} must equal tiny_min {g.tinyMin}"
  g.checkRows 0 0 g.classes
  let last := (g.classes.getLastD default).size
  refuseIf (g.smallMax ≠ last)
    s!"small_max {g.smallMax} must equal the largest class size {last} (coverage)"
  let sizeToClass ← (List.range (g.smallMax / g.quantum)).mapM g.granuleClass
  (List.range' 1 g.smallMax).forM (g.checkLookup sizeToClass)
  return {
    pageSize := g.pageSize
    quantum := g.quantum
    tinyMin := g.tinyMin
    smallMax := g.smallMax
    hugeThreshold := g.hugeThreshold
    maxAlign := (g.classes.map (·.align)).foldl max 0
    classes := g.classes
    sizeToClass }

/-- The fields a rounded size depends on are `u32`s. -/
structure Typed (g : Golden) : Prop where
  page : g.pageSize < 2 ^ 32
  small : g.smallMax < 2 ^ 32

end Golden

/-! ## Looking up and classifying -/

/-- `align_walk`. -/
def alignWalkIn (start align : Nat) (classes : List SizeClassRow) : Option Nat :=
  (List.range' start (classes.length - start)).find? fun i =>
    decide (align ≤ (classes.getD i default).align)

/-- `size_class_in`. -/
def sizeClassIn (size align quantum smallMax maxAlign : Nat) (sizeToClass : List Nat)
    (classes : List SizeClassRow) : Option Nat :=
  if size = 0 ∨ size > smallMax ∨ align > maxAlign then none
  else sizeToClass[(size - 1) / quantum]?.bind fun start => alignWalkIn start align classes

/-- `align_up` as it is written, with a mask. It rounds to a multiple only when
`align` is a power of two. -/
def alignUpMask (value align : Nat) : Option Nat :=
  (checkedAdd value (align - 1)).map fun sum => sum - (sum &&& (align - 1))

/-- `Request`, without the label, which is always public. -/
structure Request where
  arena : Nat
  align : Nat
  flags : RequestFlags
  kind : RequestKind

namespace Table

variable (t : Table)

def sizeClass (size align : Nat) : Option Nat :=
  sizeClassIn size align t.quantum t.smallMax t.maxAlign t.sizeToClass t.classes

/-- `classify` over the constants of a table. -/
def classify (size align raw : Nat) : Option Request :=
  if isPowerOfTwo align = false then none
  else if accepted : acceptsRaw raw = true then
    let flags : RequestFlags := ⟨raw, accepted⟩
    let effective := if size = 0 then 1 else size
    match t.sizeClass effective align with
    | some sc =>
      some ⟨flags.arena, align, flags, .small sc (t.classes.getD sc default).size⟩
    | none =>
      let span := max effective align
      (alignUpMask span t.pageSize).map fun bytes =>
        ⟨flags.arena, align, flags, if span ≥ t.hugeThreshold then .large bytes else .medium bytes⟩
  else none

end Table

/-! ## What an accepted table has -/

namespace Golden

variable {g : Golden} {t : Table} {α : Type}

theorem bind_eq_ok {β : Type} {x : Except String β} {k : β → Except String α} :
    (x >>= k) = .ok r ↔ ∃ v, x = .ok v ∧ k v = .ok r := by
  cases x with
  | error e => simp [Bind.bind, Except.bind]
  | ok v => simp [Bind.bind, Except.bind]

theorem refuseIf_bind [Decidable bad] : (refuseIf bad message >>= k) = .ok r ↔ ¬bad ∧ k () = .ok r := by
  unfold refuseIf
  by_cases holds : bad
  · simp [holds, Bind.bind, Except.bind]
  · simp [holds, Bind.bind, Except.bind]

theorem mapM_ok {β : Type} {f : β → Except String α} {xs : List β} (ran : xs.mapM f = .ok ys)
    {i : Nat} {x : β} (at_i : xs[i]? = some x) : ∃ y, ys[i]? = some y ∧ f x = .ok y := by
  induction xs generalizing ys i with
  | nil => simp at at_i
  | cons head rest ih =>
    rw [List.mapM_cons, bind_eq_ok] at ran
    obtain ⟨y, first, ran⟩ := ran
    obtain ⟨ys', later, ran⟩ := bind_eq_ok.mp ran
    obtain rfl : y :: ys' = ys := Except.ok.inj ran
    cases i with
    | zero =>
      obtain rfl : head = x := Option.some.inj at_i
      exact ⟨y, rfl, first⟩
    | succ i => exact ih later at_i

/-- What the row checks establish that the lookup rests on. -/
structure RowFits (g : Golden) (c : SizeClassRow) : Prop where
  align : isPowerOfTwo c.align = true
  divides : c.align ∣ c.size
  within : c.align ≤ c.size
  quantum : g.quantum ∣ c.size

theorem checkRow_ok (ran : g.checkRow i prev c = .ok ()) : g.RowFits c ∧ (0 < i → prev < c.size) := by
  simp only [checkRow, refuseIf_bind, not_or, Bool.not_eq_false, Decidable.not_not, Nat.not_lt] at ran
  obtain ⟨-, power, divides, within, quantum, -, -, -, -, -, -, -, spaced⟩ := ran
  refine ⟨⟨power, Nat.dvd_of_mod_eq_zero divides, within, Nat.dvd_of_mod_eq_zero quantum⟩, ?_⟩
  intro later
  rw [if_pos later, refuseIf_bind] at spaced
  omega

theorem checkRows_ok {rows : List SizeClassRow} (ran : g.checkRows i prev rows = .ok ()) :
    (∀ c ∈ rows, g.RowFits c ∧ (0 < i → prev < c.size)) ∧ rows.Pairwise fun a b => a.size < b.size := by
  induction rows generalizing i prev with
  | nil => exact ⟨fun c mem => absurd mem List.not_mem_nil, .nil⟩
  | cons c rest ih =>
    obtain ⟨_, head, tail⟩ := bind_eq_ok.mp ran
    obtain ⟨fits, above⟩ := checkRow_ok head
    obtain ⟨others, ascending⟩ := ih tail
    refine ⟨fun d mem => ?_, .cons (fun d mem => (others d mem).2 (Nat.succ_pos i)) ascending⟩
    rcases List.mem_cons.mp mem with rfl | later
    · exact ⟨fits, above⟩
    · have := (others d later).2 (Nat.succ_pos i)
      exact ⟨(others d later).1, fun started => Nat.lt_trans (above started) this⟩

theorem le_foldl_max (xs : List Nat) (start : Nat) :
    start ≤ xs.foldl max start ∧ ∀ x ∈ xs, x ≤ xs.foldl max start := by
  induction xs generalizing start with
  | nil => exact ⟨Nat.le_refl _, fun x mem => absurd mem List.not_mem_nil⟩
  | cons x xs ih =>
    obtain ⟨least, each⟩ := ih (max start x)
    simp only [List.foldl_cons]
    refine ⟨by omega, fun y mem => ?_⟩
    rcases List.mem_cons.mp mem with rfl | later
    · omega
    · exact each y later

end Golden

/-- What an accepted table has. -/
structure Table.Sound (t : Table) : Prop where
  quantum : 0 < t.quantum
  page : 0 < t.pageSize
  whole : t.quantum ∣ t.smallMax
  huge : t.pageSize ∣ t.hugeThreshold
  align : ∀ c ∈ t.classes, isPowerOfTwo c.align = true ∧ c.align ∣ c.size ∧ c.align ≤ c.size
  granular : ∀ c ∈ t.classes, t.quantum ∣ c.size
  ascending : t.classes.Pairwise fun a b => a.size < b.size
  largest : ∀ c ∈ t.classes, c.size ≤ t.smallMax
  aligned : ∀ c ∈ t.classes, c.align ≤ t.maxAlign
  lookup : ∀ granule, granule < t.smallMax / t.quantum →
    t.sizeToClass[granule]? = t.classes.findIdx? fun c => decide (granule * t.quantum + 1 ≤ c.size)

namespace Golden

variable {g : Golden} {t : Table}

theorem validate_sound (accepted : g.validate = .ok t) :
    t.Sound ∧ t.pageSize = g.pageSize ∧ t.smallMax = g.smallMax := by
  simp only [validate, refuseIf_bind, not_or, Bool.not_eq_false, Decidable.not_not] at accepted
  obtain ⟨-, page, quantum, -, whole, -, huge, some, few, -, accepted⟩ := accepted
  obtain ⟨_, rows, accepted⟩ := bind_eq_ok.mp accepted
  rw [refuseIf_bind] at accepted
  obtain ⟨last, accepted⟩ := accepted
  rw [Decidable.not_not] at last
  obtain ⟨sizeToClass, derived, accepted⟩ := bind_eq_ok.mp accepted
  obtain ⟨_, -, made⟩ := bind_eq_ok.mp accepted
  obtain rfl := Except.ok.inj made
  obtain ⟨fits, ascending⟩ := checkRows_ok rows
  refine ⟨⟨isPowerOfTwo_pos quantum, Nat.pos_of_ne_zero page, Nat.dvd_of_mod_eq_zero whole,
    Nat.dvd_of_mod_eq_zero huge,
    fun c mem => ⟨(fits c mem).1.align, (fits c mem).1.divides, (fits c mem).1.within⟩,
    fun c mem => (fits c mem).1.quantum, ascending, fun c mem => ?_, fun c mem => ?_, ?_⟩, rfl, rfl⟩
  · -- The last row is the largest, and its size is `small_max`.
    obtain ⟨front, final, split⟩ := (List.eq_nil_or_concat' g.classes).resolve_left some
    rw [split] at ascending
    simp only [split, List.mem_append, List.mem_singleton, List.getLastD_concat] at mem last
    rw [last]
    rcases mem with before | rfl
    · exact Nat.le_of_lt ((List.pairwise_append.mp ascending).2.2 c before final (by simp))
    · exact Nat.le_refl _
  · exact (le_foldl_max _ 0).2 _ (List.mem_map_of_mem mem)
  · intro granule inside
    obtain ⟨entry, found, derives⟩ := mapM_ok derived (List.getElem?_range inside)
    simp only [granuleClass] at derives
    split at derives
    next => cases derives
    next i covers =>
      obtain rfl : i % 256 = entry := Except.ok.inj derives
      obtain ⟨below, -⟩ := List.findIdx?_eq_some_iff_getElem.mp covers
      simp only [found, covers]
      rw [Nat.mod_eq_of_lt (by omega)]

end Golden

/-! ## The lookup is a linear search -/

/-- The first row that fits: what a linear search would find. -/
def linearSearch (size align : Nat) (classes : List SizeClassRow) : Option Nat :=
  classes.findIdx? fun c => decide (size ≤ c.size) && decide (align ≤ c.align)

theorem findIdx?_congr {α : Type} {p q : α → Bool} {xs : List α} (same : ∀ x ∈ xs, p x = q x) :
    xs.findIdx? p = xs.findIdx? q := by
  induction xs with
  | nil => rfl
  | cons x xs ih =>
    rw [List.findIdx?_cons, List.findIdx?_cons, same x List.mem_cons_self,
      ih fun y mem => same y (List.mem_cons_of_mem x mem)]

/-- Where sizes ascend, walking on from the first row that is large enough finds the
first row that is large enough and aligned enough. -/
theorem alignWalkIn_eq (ascending : classes.Pairwise fun a b => a.size < b.size)
    (first : classes.findIdx? (fun c => decide (size ≤ c.size)) = some start) :
    alignWalkIn start align classes = linearSearch size align classes := by
  obtain ⟨inside, large, before⟩ := List.findIdx?_eq_some_iff_getElem.mp first
  simp only [decide_eq_true_eq, Nat.not_le] at large before
  have later : ∀ i (lt : i < classes.length), start ≤ i → size ≤ classes[i].size := by
    intro i lt le
    rcases Nat.eq_or_lt_of_le le with rfl | above
    · exact large
    · exact Nat.le_of_lt (Nat.lt_of_le_of_lt large
        (List.pairwise_iff_getElem.mp ascending start i inside lt above))
  apply Option.ext
  intro i
  rw [alignWalkIn, linearSearch, List.find?_range'_eq_some, List.findIdx?_eq_some_iff_getElem]
  simp only [List.mem_range'_1, decide_eq_true_eq, Bool.not_eq_true', decide_eq_false_iff_not,
    Bool.and_eq_true, not_and, Nat.not_le]
  constructor
  · rintro ⟨enough, ⟨le, lt⟩, passed⟩
    have lt : i < classes.length := by omega
    rw [List.getD_eq_getElem _ _ lt] at enough
    refine ⟨lt, ⟨later i lt le, enough⟩, fun j less fits => ?_⟩
    by_cases reached : start ≤ j
    · have := passed j reached less
      rwa [List.getD_eq_getElem _ _ (by omega)] at this
    · have := before j (by omega)
      omega
  · rintro ⟨lt, ⟨fits, enough⟩, passed⟩
    have le : start ≤ i := by
      by_contra early
      have := before i (by omega)
      omega
    refine ⟨by rwa [List.getD_eq_getElem _ _ lt], ⟨le, by omega⟩, fun j reached less => ?_⟩
    rw [List.getD_eq_getElem _ _ (by omega)]
    exact passed j less (later j (by omega) reached)

namespace Table

variable {t : Table} {size align : Nat}

theorem Sound.sizeClass_eq (sound : t.Sound) (pos : 0 < size) :
    t.sizeClass size align = linearSearch size align t.classes := by
  have none_of : (∀ c ∈ t.classes, ¬(size ≤ c.size ∧ align ≤ c.align)) →
      linearSearch size align t.classes = none := by
    intro unfit
    refine List.findIdx?_eq_none_iff.mpr fun c mem => ?_
    have := unfit c mem
    simpa using this
  by_cases small : size ≤ t.smallMax
  · by_cases narrow : align ≤ t.maxAlign
    · -- The granule's entry is the first class that covers the request itself.
      have inside : (size - 1) / t.quantum < t.smallMax / t.quantum :=
        Nat.div_lt_div_of_lt_of_dvd sound.whole (by omega)
      have covers : ∀ c ∈ t.classes, ((size - 1) / t.quantum * t.quantum + 1 ≤ c.size ↔ size ≤ c.size) := by
        intro c mem
        obtain ⟨k, eq⟩ := sound.granular c mem
        rw [eq, Nat.mul_comm t.quantum k]
        have parts := Nat.div_add_mod' (size - 1) t.quantum
        have rest := Nat.mod_lt (size - 1) sound.quantum
        refine ⟨fun reaches => ?_, fun enough => by omega⟩
        have fewer : (size - 1) / t.quantum < k := Nat.lt_of_mul_lt_mul_right reaches
        have next := Nat.mul_le_mul_right t.quantum fewer
        rw [Nat.succ_mul] at next
        omega
      rw [Table.sizeClass, sizeClassIn, if_neg (by omega), sound.lookup _ inside,
        findIdx?_congr fun c mem => decide_eq_decide.mpr (covers c mem)]
      cases first : t.classes.findIdx? fun c => decide (size ≤ c.size) with
      | none =>
        refine (none_of fun c mem fits => ?_).symm
        have := List.findIdx?_eq_none_iff.mp first c mem
        simp only [decide_eq_false_iff_not] at this
        exact this fits.1
      | some start => exact alignWalkIn_eq sound.ascending first
    · rw [Table.sizeClass, sizeClassIn, if_pos (by omega), none_of]
      intro c mem fits
      exact narrow (Nat.le_trans fits.2 (sound.aligned c mem))
  · rw [Table.sizeClass, sizeClassIn, if_pos (by omega), none_of]
    intro c mem fits
    exact small (Nat.le_trans fits.1 (sound.largest c mem))

end Table

/-! ## Classification -/

/-- The least multiple of `unit` from `value` on. -/
def roundUp (value unit : Nat) : Nat := (value + (unit - 1)) / unit * unit

theorem roundUp_le : roundUp value unit ≤ value + (unit - 1) := Nat.div_mul_le_self _ _

theorem le_roundUp (pos : 0 < unit) : value ≤ roundUp value unit := by
  have parts := Nat.div_add_mod' (value + (unit - 1)) unit
  have rest := Nat.mod_lt (value + (unit - 1)) pos
  simp only [roundUp]
  omega

theorem roundUp_le_of_dvd (pos : 0 < unit) (whole : unit ∣ limit)
    (le : value ≤ limit) : roundUp value unit ≤ limit := by
  obtain ⟨k, rfl⟩ := whole
  have : (value + (unit - 1)) / unit ≤ k := by
    rw [Nat.div_le_iff_le_mul pos, Nat.mul_comm]
    omega
  rw [roundUp, Nat.mul_comm unit]
  exact Nat.mul_le_mul_right unit this

theorem alignUpMask_eq (power : isPowerOfTwo align = true) :
    alignUpMask value align = alignUp value align := by
  obtain ⟨k, rfl⟩ := isPowerOfTwo_iff.mp power
  unfold alignUpMask alignUp
  congr 1
  funext sum
  rw [Nat.and_two_pow_sub_one_eq_mod]

/-- Rounding fails exactly where the rounded value is no `usize`. -/
theorem alignUpMask_roundUp (power : isPowerOfTwo align = true)
    (word : align ≤ usizeMax) : alignUpMask value align =
      if roundUp value align ≤ usizeMax then some (roundUp value align) else none := by
  have pos := isPowerOfTwo_pos power
  have parts := Nat.div_add_mod' (value + (align - 1)) align
  have whole : align ∣ roundUp value align := Nat.dvd_mul_left _ _
  rw [alignUpMask_eq power]
  by_cases fits : roundUp value align ≤ usizeMax
  · obtain ⟨r, rounded, -⟩ := alignUp_of_multiple power word whole (le_roundUp pos) fits
    simp only [alignUp, Option.map_eq_some_iff, checkedAdd_eq_some] at rounded
    obtain ⟨sum, ⟨rfl, room⟩, -⟩ := rounded
    rw [if_pos fits, alignUp, checkedAdd, if_pos room, Option.map_some]
    congr 1
    simp only [roundUp]
    omega
  · rw [if_neg fits, alignUp, checkedAdd, if_neg, Option.map_none]
    simp only [roundUp] at fits
    omega

namespace Table

variable {t : Table} {size align raw : Nat}

/-- What a request is routed to holds it: a class of the table, or whole pages at the
alignment it asked for. -/
def Holds (t : Table) (size align : Nat) (r : Request) : Prop :=
  r.align = align ∧
  match r.kind with
  | .small sc usable => ∃ c, t.classes[sc]? = some c ∧ usable = c.size ∧ size ≤ usable ∧
      align ∣ c.align ∧ c.align ∣ c.size
  | .medium bytes => bytes = roundUp (max (max size 1) align) t.pageSize ∧ size ≤ bytes ∧
      align ≤ bytes ∧ bytes ≤ usizeMax ∧ t.pageSize ∣ bytes ∧ bytes ≤ t.hugeThreshold
  | .large bytes => bytes = roundUp (max (max size 1) align) t.pageSize ∧ size ≤ bytes ∧
      align ≤ bytes ∧ bytes ≤ usizeMax ∧ t.pageSize ∣ bytes ∧ t.hugeThreshold ≤ bytes

theorem classify_eq (power : isPowerOfTwo align = true) (accepted : acceptsRaw raw = true) :
    t.classify size align raw =
      match t.sizeClass (max size 1) align with
      | some sc => some ⟨RequestFlags.arena ⟨raw, accepted⟩, align, ⟨raw, accepted⟩,
          .small sc (t.classes.getD sc default).size⟩
      | none => (alignUpMask (max (max size 1) align) t.pageSize).map fun bytes =>
          ⟨RequestFlags.arena ⟨raw, accepted⟩, align, ⟨raw, accepted⟩,
            if max (max size 1) align ≥ t.hugeThreshold then .large bytes else .medium bytes⟩ := by
  have effective : (if size = 0 then 1 else size) = max size 1 := by
    split <;> omega
  rw [classify, if_neg (by rw [power]; decide), dif_pos accepted, effective]

theorem linearSearch_some {classes : List SizeClassRow} (found : linearSearch size align classes = some sc) :
    ∃ c ∈ classes, classes[sc]? = some c ∧ size ≤ c.size ∧ align ≤ c.align := by
  obtain ⟨inside, fits, -⟩ := List.findIdx?_eq_some_iff_getElem.mp found
  simp only [Bool.and_eq_true, decide_eq_true_eq] at fits
  exact ⟨classes[sc], List.getElem_mem inside, List.getElem?_eq_getElem inside, fits⟩

/-- Over every table the generator accepts, the lookup finds what a linear search
finds. Where pages are a power of two, as `align_up` requires, `classify` routes every
request to something that holds it, and rejects exactly those whose rounded size is no
`usize`. -/
theorem table_requests {g : Golden} (accepted : g.validate = .ok t) (typed : g.Typed)
    (size align : Nat) (power : isPowerOfTwo align = true) :
    (0 < size →
      let found := sizeClassIn size align t.quantum t.smallMax t.maxAlign t.sizeToClass t.classes
      found = linearSearch size align t.classes ∧
        (found = none ↔ ∀ c ∈ t.classes, ¬(size ≤ c.size ∧ align ≤ c.align))) ∧
    (isPowerOfTwo t.pageSize = true → ∀ raw, acceptsRaw raw = true →
      (∀ r, t.classify size align raw = some r → t.Holds size align r) ∧
      (t.classify size align raw = none ↔ usizeMax < roundUp (max (max size 1) align) t.pageSize)) := by
  obtain ⟨sound, page, small⟩ := Golden.validate_sound accepted
  refine ⟨fun pos => ?_, fun pages raw flags => ?_⟩
  · have same : sizeClassIn size align t.quantum t.smallMax t.maxAlign t.sizeToClass t.classes =
        linearSearch size align t.classes := sound.sizeClass_eq pos
    refine ⟨same, ?_⟩
    rw [same, linearSearch, List.findIdx?_eq_none_iff]
    simp only [Bool.and_eq_false_iff, decide_eq_false_iff_not, not_and_or]
  · have word : t.pageSize ≤ usizeMax := by
      have := typed.page
      simp only [usizeMax]
      omega
    rw [classify_eq power flags, sound.sizeClass_eq (by omega), alignUpMask_roundUp pages word]
    have covered : max (max size 1) align ≤ roundUp (max (max size 1) align) t.pageSize :=
      le_roundUp sound.page
    have whole : t.pageSize ∣ roundUp (max (max size 1) align) t.pageSize := Nat.dvd_mul_left _ _
    cases found : linearSearch (max size 1) align t.classes with
    | some sc =>
      obtain ⟨c, mem, listed, fits, enough⟩ := linearSearch_some found
      obtain ⟨row, divides, within⟩ := sound.align c mem
      refine ⟨fun r answer => ?_, iff_of_false (Option.some_ne_none _) ?_⟩
      · obtain rfl := Option.some.inj answer
        have usable : (t.classes.getD sc default).size = c.size := by
          rw [List.getD_eq_getElem?_getD, listed, Option.getD_some]
        refine ⟨rfl, c, listed, usable, ?_, isPowerOfTwo_dvd_of_le power row enough, divides⟩
        rw [usable]
        omega
      · -- A small request is far from the end of the address space.
        have largest := sound.largest c mem
        have := @roundUp_le (max (max size 1) align) t.pageSize
        have := typed.page
        have := typed.small
        simp only [usizeMax]
        omega
    | none =>
      by_cases room : roundUp (max (max size 1) align) t.pageSize ≤ usizeMax
      · rw [if_pos room]
        refine ⟨fun r answer => ?_, iff_of_false (Option.some_ne_none _) (by omega)⟩
        obtain rfl := Option.some.inj answer
        refine ⟨rfl, ?_⟩
        by_cases huge : max (max size 1) align ≥ t.hugeThreshold
        · simp only [if_pos huge]
          exact ⟨trivial, by omega, by omega, room, whole, by omega⟩
        · simp only [if_neg huge]
          exact ⟨trivial, by omega, by omega, room, whole, roundUp_le_of_dvd sound.page sound.huge (by omega)⟩
      · rw [if_neg room]
        exact ⟨by rintro _ ⟨⟩, iff_of_true rfl (by omega)⟩

/-- Three classes of the generator's own tests. -/
def threeClasses : Golden where
  schemaVersion := 1
  pageSize := 16384
  quantum := 16
  tinyMin := 16
  smallMax := 48
  hugeThreshold := 2097152
  classes := [⟨16, 16, 1, 1024, 32, 256⟩, ⟨32, 16, 1, 512, 32, 256⟩, ⟨48, 16, 1, 341, 32, 256⟩]

def threeTable : Table where
  pageSize := 16384
  quantum := 16
  tinyMin := 16
  smallMax := 48
  hugeThreshold := 2097152
  maxAlign := 16
  classes := threeClasses.classes
  sizeToClass := [0, 1, 2]

theorem threeClasses_accepted : threeClasses.validate = .ok threeTable := by rfl

theorem table_requests_threeClasses :
    (0 < 33 →
      let found := sizeClassIn 33 8 16 48 16 [0, 1, 2] threeTable.classes
      found = linearSearch 33 8 threeTable.classes ∧
        (found = none ↔ ∀ c ∈ threeTable.classes, ¬(33 ≤ c.size ∧ 8 ≤ c.align))) ∧
    (isPowerOfTwo 16384 = true → ∀ raw, acceptsRaw raw = true →
      (∀ r, threeTable.classify 33 8 raw = some r → threeTable.Holds 33 8 r) ∧
      (threeTable.classify 33 8 raw = none ↔ usizeMax < roundUp (max (max 33 1) 8) 16384)) :=
  table_requests threeClasses_accepted ⟨by decide, by decide⟩ 33 8 (by decide)

/-- The classes over pages whose size is no power of two. -/
def oddPages : Golden where
  __ := threeClasses
  pageSize := 24576
  hugeThreshold := 2457600
  classes := [⟨16, 16, 1, 1536, 32, 256⟩, ⟨32, 16, 1, 768, 32, 256⟩, ⟨48, 16, 1, 512, 32, 256⟩]

/-- Nothing has size zero for the lookup, though the first class would hold it. And a
table may have pages to which `classify` does not round. -/
theorem zero_size_not_found : (threeClasses.validate = .ok threeTable ∧
    sizeClassIn 0 1 16 48 16 [0, 1, 2] threeTable.classes = none ∧
    linearSearch 0 1 threeTable.classes = some 0) ∧
    ∃ t, oddPages.validate = .ok t ∧ (t.classify 100 8 0).map (·.kind) = some (.medium 8192) ∧
      ¬t.pageSize ∣ 8192 :=
  ⟨⟨threeClasses_accepted, by decide, by decide⟩, _, rfl, by decide, by decide⟩

end Table

/-! ## The shipped table -/

theorem runAt_eq (runs : List (Nat × Nat)) (g : Nat) :
    runAt runs g = (runs.flatMap fun run => List.replicate run.2 run.1)[g]? := by
  induction runs generalizing g with
  | nil => rfl
  | cons run rest ih =>
    rw [List.flatMap_cons, List.getElem?_append, List.length_replicate, runAt]
    split
    next here => rw [List.getElem?_replicate, if_pos here]
    next => exact ih _

/-- `size_class` is the lookup over the generated constants. -/
theorem sizeClass_eq_sizeClassIn (size align : Nat) :
    sizeClass size align = sizeClassIn size align quantum smallMax maxAlign
      (sizeToClassRuns.flatMap fun run => List.replicate run.2 run.1) sizeClasses := by
  unfold sizeClass sizeClassIn alignWalk alignWalkIn
  rw [runAt_eq, length_sizeClasses]
  rfl

end Topomalloc
