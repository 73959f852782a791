import Mathlib.Data.Nat.Log
import Mathlib.Tactic.Positivity

/-! Machine words and the overflow-safe rounding of `overflow.rs`. A `usize`
is a natural number; every place where the source could leave the 64-bit
range is written as a checked operation here. -/
namespace Topomalloc

/-- `usize::MAX` on the 64-bit targets. -/
def usizeMax : Nat := 2 ^ 64 - 1

/-- `PAGE_SIZE` of the generated tables. -/
def pageSize : Nat := 16384

/-- `u32::MAX`, the "no slot" link. -/
def NIL : Nat := 2 ^ 32 - 1

/-- `usize::checked_add`. -/
def checkedAdd (a b : Nat) : Option Nat := if a + b ≤ usizeMax then some (a + b) else none

/-- `usize::checked_mul`. -/
def checkedMul (a b : Nat) : Option Nat := if a * b ≤ usizeMax then some (a * b) else none

/-- `u32::wrapping_add(1)`. -/
def wrappingSucc32 (a : Nat) : Nat := (a + 1) % 2 ^ 32

/-- `u32::wrapping_sub(1)`. -/
def wrappingPred32 (a : Nat) : Nat := if a = 0 then 2 ^ 32 - 1 else a - 1

/-- `u32` addition, which wraps in a release build. -/
def wrappingAdd32 (a b : Nat) : Nat := (a + b) % 2 ^ 32

/-- `u32` subtraction, which wraps in a release build. -/
def wrappingSub32 (a b : Nat) : Nat := (a + (2 ^ 32 - b % 2 ^ 32)) % 2 ^ 32

/-- `u64::wrapping_add`. -/
def wrappingAdd64 (a b : Nat) : Nat := (a + b) % 2 ^ 64

/-- `u64::wrapping_sub`. -/
def wrappingSub64 (a b : Nat) : Nat := (a + (2 ^ 64 - b % 2 ^ 64)) % 2 ^ 64

/-- `u64::saturating_add`. -/
def saturatingAdd64 (a b : Nat) : Nat := min (a + b) (2 ^ 64 - 1)

/-- `usize::is_power_of_two`. -/
def isPowerOfTwo (n : Nat) : Bool := n != 0 && 2 ^ n.log2 == n

/-- `overflow::align_up`. Clearing the low bits of a power of two is taking
off the remainder. -/
def alignUp (value align : Nat) : Option Nat :=
  (checkedAdd value (align - 1)).map fun sum => sum - sum % align

/-- `overflow::pages_for`. -/
def pagesFor (bytes page : Nat) : Option Nat := (alignUp bytes page).map (· / page)

theorem wrappingSub64_of_add (a b : Nat) : wrappingSub64 ((a + b) % 2 ^ 64) b = a % 2 ^ 64 := by
  unfold wrappingSub64
  omega

theorem pageSize_pos : 0 < pageSize := by decide

theorem checkedAdd_eq_some : checkedAdd a b = some c ↔ c = a + b ∧ a + b ≤ usizeMax := by
  unfold checkedAdd
  split
  · simp only [Option.some.injEq]
    constructor
    · intro h
      exact ⟨h.symm, by assumption⟩
    · intro h
      exact h.1.symm
  · simp only [reduceCtorEq, false_iff, not_and]
    intro _
    assumption

theorem checkedMul_eq_some : checkedMul a b = some c ↔ c = a * b ∧ a * b ≤ usizeMax := by
  unfold checkedMul
  split
  · simp only [Option.some.injEq]
    constructor
    · intro h
      exact ⟨h.symm, by assumption⟩
    · intro h
      exact h.1.symm
  · simp only [reduceCtorEq, false_iff, not_and]
    intro _
    assumption

theorem isPowerOfTwo_iff : isPowerOfTwo n = true ↔ ∃ k, n = 2 ^ k := by
  simp only [isPowerOfTwo, Bool.and_eq_true, bne_iff_ne, ne_eq, beq_iff_eq]
  constructor
  · rintro ⟨-, h⟩
    exact ⟨_, h.symm⟩
  · rintro ⟨k, rfl⟩
    exact ⟨by positivity, by rw [Nat.log2_two_pow]⟩

theorem isPowerOfTwo_pos (h : isPowerOfTwo n = true) : 0 < n := by
  obtain ⟨k, rfl⟩ := isPowerOfTwo_iff.mp h
  positivity

/-- Rounding up gives the least multiple of `align` that is not below `value`. -/
theorem alignUp_spec (pos : 0 < align) (h : alignUp value align = some r) :
    align ∣ r ∧ value ≤ r ∧ r < value + align ∧ r ≤ usizeMax := by
  simp only [alignUp, Option.map_eq_some_iff, checkedAdd_eq_some] at h
  obtain ⟨sum, ⟨rfl, bound⟩, rfl⟩ := h
  have remainder := Nat.mod_lt (value + (align - 1)) pos
  have below := Nat.mod_le (value + (align - 1)) align
  exact ⟨Nat.dvd_sub_mod _, by omega, by omega, by omega⟩

/-- Rounding a multiple, where it does not overflow, changes nothing. -/
theorem alignUp_eq_of_dvd (pos : 0 < align) (dvd : align ∣ value)
    (h : alignUp value align = some r) : r = value := by
  obtain ⟨multiple, le, lt, -⟩ := alignUp_spec pos h
  have step := Nat.dvd_sub multiple dvd
  by_contra ne
  have := Nat.le_of_dvd (by omega) step
  omega

/-- Two powers of two are comparable under divisibility. -/
theorem isPowerOfTwo_dvd (ha : isPowerOfTwo a = true) (hb : isPowerOfTwo b = true) : a ∣ b ∨ b ∣ a := by
  obtain ⟨i, rfl⟩ := isPowerOfTwo_iff.mp ha
  obtain ⟨j, rfl⟩ := isPowerOfTwo_iff.mp hb
  rcases Nat.le_total i j with le | le
  · exact .inl (Nat.pow_dvd_pow 2 le)
  · exact .inr (Nat.pow_dvd_pow 2 le)

theorem isPowerOfTwo_dvd_of_le (ha : isPowerOfTwo a = true)
    (hb : isPowerOfTwo b = true) (le : a ≤ b) : a ∣ b := by
  rcases isPowerOfTwo_dvd ha hb with dvd | dvd
  · exact dvd
  · rw [Nat.le_antisymm le (Nat.le_of_dvd (isPowerOfTwo_pos ha) dvd)]

theorem isPowerOfTwo_pageSize : isPowerOfTwo pageSize = true := by decide

/-- Rounding a page-aligned base up to any power of two moves it by whole
pages. -/
theorem alignUp_page (power : isPowerOfTwo align = true)
    (aligned : pageSize ∣ base) (h : alignUp base align = some r) : pageSize ∣ r - base := by
  obtain ⟨dvd, le, lt, -⟩ := alignUp_spec (isPowerOfTwo_pos power) h
  rcases isPowerOfTwo_dvd isPowerOfTwo_pageSize power with big | small
  · exact Nat.dvd_sub (big.trans dvd) aligned
  · -- the base is already aligned, so rounding moves it by nothing
    rw [alignUp_eq_of_dvd (isPowerOfTwo_pos power) (small.trans aligned) h]
    simp

/-- Rounding up overflows only where no multiple is left, and otherwise finds
the first one. -/
theorem alignUp_of_multiple (power : isPowerOfTwo align = true)
    (word : align ≤ usizeMax) (dvd : align ∣ a) (le : value ≤ a) (bound : a ≤ usizeMax) :
    ∃ r, alignUp value align = some r ∧ r ≤ a := by
  have pos := isPowerOfTwo_pos power
  obtain ⟨k, rfl⟩ := isPowerOfTwo_iff.mp power
  have small : k < 64 := by
    by_contra large
    have := Nat.pow_le_pow_right (n := 2) (by decide) (Nat.not_lt.mp large)
    simp only [usizeMax] at word
    omega
  -- `a` is a multiple below `2 ^ 64`, so a whole step fits above it
  have room : a + 2 ^ k ≤ 2 ^ 64 := by
    have whole : 2 ^ k ∣ 2 ^ 64 - a := Nat.dvd_sub (Nat.pow_dvd_pow 2 (by omega)) dvd
    have := Nat.le_of_dvd (by simp only [usizeMax] at bound; omega) whole
    omega
  have noWrap : value + (2 ^ k - 1) ≤ usizeMax := by
    simp only [usizeMax]
    omega
  have rounded : alignUp value (2 ^ k) = some (value + (2 ^ k - 1) - (value + (2 ^ k - 1)) % 2 ^ k) := by
    rw [alignUp, checkedAdd, if_pos noWrap]
    rfl
  refine ⟨_, rounded, ?_⟩
  obtain ⟨dvdRounded, -, lt, -⟩ := alignUp_spec pos rounded
  generalize value + (2 ^ k - 1) - (value + (2 ^ k - 1)) % 2 ^ k = r at *
  by_contra above
  have := Nat.le_of_dvd (by omega) (Nat.dvd_sub dvdRounded dvd)
  omega

end Topomalloc
