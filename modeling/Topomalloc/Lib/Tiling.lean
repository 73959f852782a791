import Mathlib.Algebra.Ring.Nat
import Mathlib.Algebra.BigOperators.Group.List.Basic

/-! Intervals laid end to end. A list of indices tiles `[lo, hi)` when each
one's interval starts where the previous one stops. -/
namespace Topomalloc.Tiling
open List

variable {ι : Type*} {base len base' len' : ι → Nat} {lo mid hi : Nat} {i j : ι} {l l₁ l₂ : List ι}

def Tiles (base len : ι → Nat) : Nat → List ι → Nat → Prop
  | lo, [], hi => lo = hi
  | lo, i :: l, hi => base i = lo ∧ Tiles base len (lo + len i) l hi

theorem tiles_append :
    Tiles base len lo (l₁ ++ l₂) hi ↔ ∃ mid, Tiles base len lo l₁ mid ∧ Tiles base len mid l₂ hi := by
  induction l₁ generalizing lo with
  | nil => simp [Tiles]
  | cons i l ih => simp only [cons_append, Tiles, ih, and_assoc, exists_and_left]

section
variable (h : Tiles base len lo l hi)
include h

theorem Tiles.congr (bases : ∀ i ∈ l, base' i = base i)
    (lens : ∀ i ∈ l, len' i = len i) : Tiles base' len' lo l hi := by
  induction l generalizing lo with
  | nil => exact h
  | cons i l ih =>
    refine ⟨(bases i (by simp)).trans h.1, ?_⟩
    rw [lens i (by simp)]
    exact ih h.2 (fun j member => bases j (by simp [member])) fun j member =>
      lens j (by simp [member])

theorem Tiles.sum : lo + (l.map len).sum = hi := by
  induction l generalizing lo with
  | nil => simpa [Tiles] using h
  | cons i l ih =>
    rw [map_cons, sum_cons, ← Nat.add_assoc]
    exact ih h.2

theorem Tiles.le : lo ≤ hi := by
  have := h.sum
  omega

/-- Every tile lies inside the tiled interval. -/
theorem Tiles.within (member : i ∈ l) : lo ≤ base i ∧ base i + len i ≤ hi := by
  obtain ⟨l₁, l₂, rfl⟩ := append_of_mem member
  obtain ⟨mid, before, start, after⟩ := tiles_append.mp h
  have := before.le
  have := after.le
  omega

/-- Every point of the tiled interval lies in some tile. -/
theorem Tiles.exists_tile (above : lo ≤ a) (below : a < hi) : ∃ i ∈ l, base i ≤ a ∧ a < base i + len i := by
  induction l generalizing lo with
  | nil =>
    simp only [Tiles] at h
    omega
  | cons i l ih =>
    obtain ⟨start, rest⟩ := h
    by_cases here : a < lo + len i
    · exact ⟨i, by simp, by omega, by omega⟩
    · obtain ⟨j, member, inside⟩ := ih rest (Nat.not_lt.mp here)
      exact ⟨j, by simp [member], inside⟩

/-- Distinct tiles do not overlap. -/
theorem Tiles.disjoint (mi : i ∈ l) (mj : j ∈ l) (ne : i ≠ j) :
    base i + len i ≤ base j ∨ base j + len j ≤ base i := by
  obtain ⟨l₁, l₂, rfl⟩ := append_of_mem mi
  obtain ⟨mid, before, start, after⟩ := tiles_append.mp h
  have inOther : j ∈ l₁ ∨ j ∈ l₂ := by
    simp only [mem_append, mem_cons] at mj
    tauto
  rcases inOther with earlier | later
  · have := before.within earlier
    omega
  · have := after.within later
    omega

/-- The tile that starts where another stops is the next one in the list. -/
theorem Tiles.adjacent (pos : ∀ i ∈ l, 0 < len i) (mi : i ∈ l)
    (mj : j ∈ l) (meets : base i + len i = base j) : ∃ l₁ l₂, l = l₁ ++ i :: j :: l₂ := by
  obtain ⟨l₁, l₂, rfl⟩ := append_of_mem mi
  obtain ⟨mid, before, start, after⟩ := tiles_append.mp h
  have iPos := pos i mi
  have jPos := pos j mj
  have notBefore : j ∉ l₁ := by
    intro earlier
    have := before.within earlier
    omega
  have notSelf : j ≠ i := by
    rintro rfl
    omega
  have later : j ∈ l₂ := by
    simp only [mem_append, mem_cons] at mj
    tauto
  cases l₂ with
  | nil => simp at later
  | cons k l₂ =>
    refine ⟨l₁, l₂, ?_⟩
    have kPos := pos k (by simp)
    have same : k = j := by
      by_contra ne
      have := after.disjoint (mem_cons_self ..) later ne
      have := after.1
      omega
    rw [same]

/-- Tiles of lengths divisible by `d` start at multiples of `d`. -/
theorem Tiles.dvd_base (start : d ∣ lo) (lens : ∀ i ∈ l, d ∣ len i) (member : i ∈ l) : d ∣ base i := by
  induction l generalizing lo with
  | nil => simp at member
  | cons j l ih =>
    rcases mem_cons.mp member with rfl | member
    · exact h.1 ▸ start
    · exact ih h.2 (Nat.dvd_add start (lens j (by simp))) (fun k inRest => lens k (by simp [inRest])) member

end

end Topomalloc.Tiling
