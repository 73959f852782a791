import Mathlib.Algebra.Ring.Nat
import Mathlib.Logic.Function.Basic

/-! A radix tree whose nodes live in a heap. A node is a number, zero for none,
with a word in each slot; the words of the inner nodes are children. A key is
looked up digit by digit, highest first, and `height` steps lead to its leaf. -/
namespace Topomalloc
open Function

structure Trie where
  root : Nat
  words : Nat → Nat → Nat

namespace Trie

section
variable (fan : Nat)

/-- Digit `k` of a key. -/
def digit (p k : Nat) : Nat := p / fan ^ k % fan

variable (height : Nat)

/-- The digits that lead to depth `d`. -/
def stem (p d : Nat) : Nat := p / fan ^ (height + 1 - d)

variable (t : Trie)

/-- The node at depth `d` on the way to `p`; zero if there is none. -/
def reach (p : Nat) : Nat → Nat
  | 0 => t.root
  | d + 1 => if reach p d = 0 then 0 else t.words (reach p d) (digit fan p (height - d))

/-- The tree with one slot written. -/
def write (n i v : Nat) : Trie := { t with words := update t.words n (update (t.words n) i v) }

/-- A node is met at one depth only, and by the keys of one stem only. -/
def Spread : Prop :=
  ∀ p p' d d', p < fan ^ (height + 1) → p' < fan ^ (height + 1) → d ≤ height → d' ≤ height →
    t.reach fan height p d ≠ 0 →
    t.reach fan height p d = t.reach fan height p' d' →
    d = d' ∧ stem fan height p d = stem fan height p' d'

end

variable {fan height : Nat} {t : Trie} {p q d : Nat}

theorem stem_succ (lt : d < height + 1) :
    stem fan height p (d + 1) = stem fan height p d * fan + digit fan p (height - d) := by
  have exponent : height + 1 - d = (height - d) + 1 := by omega
  have shorter : height + 1 - (d + 1) = height - d := by omega
  unfold stem digit
  rw [exponent, shorter, Nat.pow_succ, ← Nat.div_div_eq_div_mul, Nat.mul_comm]
  exact (Nat.div_add_mod _ _).symm

theorem digit_lt (pos : 0 < fan) (p k : Nat) : digit fan p k < fan := Nat.mod_lt _ pos

/-- Equal stems split into equal shorter stems and equal digits. -/
theorem stem_inj (pos : 0 < fan) (lt : d < height + 1)
    (same : stem fan height p (d + 1) = stem fan height q (d + 1)) :
    stem fan height p d = stem fan height q d ∧ digit fan p (height - d) = digit fan q (height - d) := by
  rw [stem_succ lt, stem_succ lt] at same
  have first := digit_lt pos p (height - d)
  have second := digit_lt pos q (height - d)
  have quotient := congrArg (· / fan) same
  simp only [Nat.mul_add_div pos, Nat.mul_comm _ fan, Nat.div_eq_of_lt first, Nat.div_eq_of_lt second,
    Nat.add_zero] at quotient
  rw [quotient] at same
  exact ⟨quotient, by omega⟩

/-- The way to depth `d` depends on the stem only. -/
theorem reach_congr (pos : 0 < fan) (le : d ≤ height + 1) (same : stem fan height p d = stem fan height q d) :
    t.reach fan height p d = t.reach fan height q d := by
  induction d with
  | zero => rfl
  | succ d ih =>
    obtain ⟨shorter, digits⟩ := stem_inj pos (by omega) same
    simp only [reach, ih (by omega) shorter, digits]

theorem reach_ne_zero_of_le (le : d ≤ d') (there : t.reach fan height p d' ≠ 0) :
    t.reach fan height p d ≠ 0 := by
  induction d' with
  | zero =>
    obtain rfl : d = 0 := by omega
    exact there
  | succ d' ih =>
    by_cases last : d = d' + 1
    · exact last ▸ there
    · refine ih (by omega) fun none => there ?_
      rw [reach, if_pos none]

theorem write_words (n i v n' i' : Nat) :
    (t.write n i v).words n' i' = if n' = n ∧ i' = i then v else t.words n' i' := by
  by_cases node : n' = n
  · subst node
    by_cases slot : i' = i <;> simp [write, slot]
  · simp [write, node]

/-- What stands in a node that is not on the way does not matter. -/
theorem reach_update (le : d ≤ height) (unused : ∀ d ≤ height, t.reach fan height p d ≠ n) :
    ({ t with words := update t.words n f } : Trie).reach fan height p d = t.reach fan height p d := by
  induction d with
  | zero => rfl
  | succ d ih =>
    rw [reach, ih (by omega), reach]
    dsimp only
    rw [update_of_ne (unused d (by omega))]

/-- Linking a fresh empty node `new` into a free slot at depth `d₀` on the way
to `q` adds it for the keys of its stem, and changes nothing else. -/
theorem reach_link (pos : 0 < fan) (spread : t.Spread fan height) (inner : d₀ < height)
    (key : q < fan ^ (height + 1)) (there : t.reach fan height q d₀ ≠ 0)
    (free : t.words (t.reach fan height q d₀) (digit fan q (height - d₀)) = 0)
    (blank : ∀ i, t.words new i = 0)
    (unused : ∀ p d, p < fan ^ (height + 1) → d ≤ height → t.reach fan height p d ≠ new)
    (other : p < fan ^ (height + 1)) (le : d ≤ height) :
    (t.write (t.reach fan height q d₀) (digit fan q (height - d₀)) new).reach fan height p d =
      if d = d₀ + 1 ∧ stem fan height p d = stem fan height q d then new
      else t.reach fan height p d := by
  induction d with
  | zero => simp [reach, write]
  | succ d ih =>
    have below := ih (by omega)
    rw [reach, below]
    by_cases fresh : d = d₀ + 1 ∧ stem fan height p d = stem fan height q d
    · -- one step below the new node there is nothing, as before
      have apart : new ≠ t.reach fan height q d₀ := fun same => unused q d₀ key (by omega) same.symm
      have before : t.reach fan height p d = 0 := by
        rw [reach_congr pos (by omega) fresh.2, fresh.1, reach, if_neg there, free]
      have deeper : ¬ (d + 1 = d₀ + 1 ∧ stem fan height p (d + 1) = stem fan height q (d + 1)) := by
        rintro ⟨depth, -⟩
        omega
      rw [if_pos fresh, if_neg deeper, reach, if_pos before]
      simp [write_words, blank, apart]
    · rw [if_neg fresh]
      by_cases absent : t.reach fan height p d = 0
      · have missed : ¬ (d + 1 = d₀ + 1 ∧ stem fan height p (d + 1) = stem fan height q (d + 1)) := by
          rintro ⟨depth, same⟩
          obtain rfl : d = d₀ := by omega
          have met := reach_congr (t := t) pos (by omega) (stem_inj pos (by omega) same).1
          exact there (met ▸ absent)
        rw [if_pos absent, if_neg missed, reach, if_pos absent]
      · rw [if_neg absent, write_words]
        by_cases hit : t.reach fan height p d = t.reach fan height q d₀ ∧
            digit fan p (height - d) = digit fan q (height - d₀)
        · obtain ⟨rfl, stems⟩ := spread p q d d₀ other key (by omega) (by omega) absent hit.1
          have longer : stem fan height p (d + 1) = stem fan height q (d + 1) := by
            rw [stem_succ (by omega), stem_succ (by omega), stems, hit.2]
          rw [if_pos hit, if_pos ⟨rfl, longer⟩]
        · have missed : ¬ (d + 1 = d₀ + 1 ∧ stem fan height p (d + 1) = stem fan height q (d + 1)) := by
            rintro ⟨depth, same⟩
            obtain rfl : d = d₀ := by omega
            obtain ⟨stems, digits⟩ := stem_inj pos (by omega) same
            exact hit ⟨reach_congr pos (by omega) stems, digits⟩
          rw [if_neg hit, if_neg missed, reach, if_neg absent]

/-- A node met at depth `d` is distinct from those at other depths and from those
of other stems, also after `new` was linked in. -/
theorem Spread.link (pos : 0 < fan) (spread : t.Spread fan height) (inner : d₀ < height)
    (key : q < fan ^ (height + 1)) (there : t.reach fan height q d₀ ≠ 0)
    (free : t.words (t.reach fan height q d₀) (digit fan q (height - d₀)) = 0)
    (blank : ∀ i, t.words new i = 0)
    (unused : ∀ p d, p < fan ^ (height + 1) → d ≤ height → t.reach fan height p d ≠ new) :
    (t.write (t.reach fan height q d₀) (digit fan q (height - d₀)) new).Spread fan height := by
  intro p p' d d' inside inside' le le' met same
  rw [reach_link pos spread inner key there free blank unused inside le] at met same
  rw [reach_link pos spread inner key there free blank unused inside' le'] at same
  by_cases first : d = d₀ + 1 ∧ stem fan height p d = stem fan height q d
  · by_cases second : d' = d₀ + 1 ∧ stem fan height p' d' = stem fan height q d'
    · obtain ⟨rfl, stems⟩ := first
      obtain ⟨rfl, stems'⟩ := second
      exact ⟨rfl, stems.trans stems'.symm⟩
    · rw [if_pos first, if_neg second] at same
      exact absurd same.symm (unused p' d' inside' le')
  · by_cases second : d' = d₀ + 1 ∧ stem fan height p' d' = stem fan height q d'
    · rw [if_neg first, if_pos second] at same
      exact absurd same (unused p d inside le)
    · rw [if_neg first, if_neg second] at same
      rw [if_neg first] at met
      exact spread p p' d d' inside inside' le le' met same

/-- Writing a word of a leaf moves no node. -/
theorem reach_write_leaf (spread : t.Spread fan height) (key : q < fan ^ (height + 1))
    (other : p < fan ^ (height + 1)) (le : d ≤ height) :
    (t.write (t.reach fan height q height) i v).reach fan height p d = t.reach fan height p d := by
  induction d with
  | zero => rfl
  | succ d ih =>
    rw [reach, ih (by omega), reach]
    by_cases absent : t.reach fan height p d = 0
    · rw [if_pos absent, if_pos absent]
    · have apart : t.reach fan height p d ≠ t.reach fan height q height := by
        intro same
        have := (spread p q d height other key (by omega) (Nat.le_refl _) absent same).1
        omega
      rw [if_neg absent, if_neg absent, write_words, if_neg fun hit => apart hit.1]

theorem Spread.write_leaf (spread : t.Spread fan height) (key : q < fan ^ (height + 1)) :
    (t.write (t.reach fan height q height) i v).Spread fan height := by
  intro p p' d d' inside inside' le le' met same
  rw [reach_write_leaf spread key inside le] at met same
  rw [reach_write_leaf spread key inside' le'] at same
  exact spread p p' d d' inside inside' le le' met same

/-- Two keys with one leaf and one slot in it are the same key. -/
theorem Spread.key_eq (spread : t.Spread fan height) (key : p < fan ^ (height + 1))
    (other : q < fan ^ (height + 1)) (leaf : t.reach fan height p height ≠ 0)
    (same : t.reach fan height p height = t.reach fan height q height)
    (slot : digit fan p 0 = digit fan q 0) : p = q := by
  have stems := (spread p q height height key other (Nat.le_refl _) (Nat.le_refl _) leaf same).2
  simp only [stem, digit, Nat.add_sub_cancel_left, Nat.pow_one, Nat.pow_zero, Nat.div_one] at stems slot
  rw [← Nat.div_add_mod p fan, ← Nat.div_add_mod q fan, stems, slot]

end Trie
end Topomalloc
