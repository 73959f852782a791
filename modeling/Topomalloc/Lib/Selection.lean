import Mathlib.Data.Finset.Card

/-! Visiting places in the order of a key: pick the place with the least key, mark
it by giving it the greatest key there is, and pick again. Each place is visited at
most once and in nondecreasing order of its key; a place whose key is the greatest
from the start is taken for marked and never visited. -/
namespace Topomalloc.Selection
open Function

variable {K : Type} [LinearOrder K] [OrderTop K] (key : Nat → K)

/-- A smaller key wins. -/
def weigh (best : Option Nat × K) (i : Nat) : Option Nat × K :=
  if key i < best.2 then (some i, key i) else best

/-- The first of the places below `n` with the least key, unless all are marked. -/
def least (n : Nat) : Option Nat × K := (List.range n).foldl (weigh key) (none, ⊤)

/-- At most `turns` places in the order they are picked. -/
def visits (n : Nat) : (turns : Nat) → (Nat → K) → List Nat
  | 0, _ => []
  | turns + 1, key =>
    match (least key n).1 with
    | none => []
    | some i => i :: visits n turns (update key i ⊤)

variable {key} {n i : Nat}

theorem least_succ (n : Nat) : least key (n + 1) = weigh key (least key n) n := by
  rw [least, List.range_succ, List.foldl_append]
  rfl

theorem least_le (inside : j < n) : (least key n).2 ≤ key j := by
  induction n with
  | zero => exact absurd inside (Nat.not_lt_zero j)
  | succ n ih =>
    rw [least_succ, weigh]
    rcases Nat.lt_succ_iff_lt_or_eq.mp inside with below | rfl
    · split
      next less => exact le_trans (le_of_lt less) (ih below)
      next => exact ih below
    · split
      next => exact le_refl _
      next notLess => exact not_lt.mp notLess

theorem least_found (found : (least key n).1 = some i) : i < n ∧ (least key n).2 = key i ∧ key i < ⊤ := by
  induction n with
  | zero => contradiction
  | succ n ih =>
    rw [least_succ, weigh] at found ⊢
    split at found
    next less =>
      obtain rfl := Option.some.inj found
      rw [if_pos less]
      exact ⟨Nat.lt_succ_self n, rfl, lt_of_lt_of_le less le_top⟩
    next notLess =>
      rw [if_neg notLess]
      obtain ⟨inside, value, small⟩ := ih found
      exact ⟨Nat.lt_succ_of_lt inside, value, small⟩

theorem least_missed (missed : (least key n).1 = none) : (least key n).2 = ⊤ := by
  induction n with
  | zero => rfl
  | succ n ih =>
    rw [least_succ, weigh] at missed ⊢
    split at missed
    next => contradiction
    next notLess =>
      rw [if_neg notLess]
      exact ih missed

/-- The places not yet visited. -/
def pending (key : Nat → K) (n : Nat) : Finset Nat := (Finset.range n).filter fun i => key i < ⊤

theorem mem_pending : i ∈ pending key n ↔ i < n ∧ key i < ⊤ := by
  rw [pending, Finset.mem_filter, Finset.mem_range]

theorem pending_card_le (n : Nat) : (pending key n).card ≤ n := by
  have most := Finset.card_filter_le (Finset.range n) fun i => key i < ⊤
  rwa [Finset.card_range] at most

theorem pending_mark (i : Nat) : pending (update key i ⊤) n = (pending key n).erase i := by
  ext j
  rw [Finset.mem_erase, mem_pending, mem_pending]
  by_cases here : j = i
  · subst here
    simp
  · simp [here]

theorem visits_nil (n turns : Nat) (none_left : (least key n).1 = none) : visits n turns key = [] := by
  cases turns with
  | zero => rfl
  | succ turns => rw [visits, none_left]

theorem visits_cons (turns : Nat) (found : (least key n).1 = some i) :
    visits n (turns + 1) key = i :: visits n turns (update key i ⊤) := by
  rw [visits, found]

/-- Only pending places are visited. -/
theorem pending_of_visits (visited : i ∈ visits n turns key) : i ∈ pending key n := by
  induction turns generalizing key with
  | zero => contradiction
  | succ turns ih =>
    cases picked : (least key n).1 with
    | none =>
      rw [visits_nil n _ picked] at visited
      contradiction
    | some j =>
      rw [visits_cons turns picked] at visited
      rcases List.mem_cons.mp visited with rfl | later
      · obtain ⟨inside, -, small⟩ := least_found picked
        exact mem_pending.mpr ⟨inside, small⟩
      · have marked := ih later
        rw [pending_mark] at marked
        exact Finset.mem_of_mem_erase marked

/-- With a turn for each of them, every pending place is visited. -/
theorem mem_visits (enough : (pending key n).card ≤ turns) : i ∈ visits n turns key ↔ i < n ∧ key i < ⊤ := by
  refine ⟨fun visited => mem_pending.mp (pending_of_visits visited), fun waiting => ?_⟩
  have member : i ∈ pending key n := mem_pending.mpr waiting
  induction turns generalizing key with
  | zero =>
    have empty := Finset.card_eq_zero.mp (Nat.le_zero.mp enough)
    rw [empty] at member
    contradiction
  | succ turns ih =>
    cases picked : (least key n).1 with
    | none =>
      have low : (least key n).2 ≤ key i := least_le waiting.1
      rw [least_missed picked] at low
      exact absurd waiting.2 (not_lt.mpr low)
    | some j =>
      rw [visits_cons turns picked, List.mem_cons]
      by_cases here : i = j
      · exact .inl here
      obtain ⟨inside, -, small⟩ := least_found picked
      have fewer := Finset.card_erase_of_mem (mem_pending.mpr ⟨inside, small⟩)
      have waiting' : i ∈ pending (update key j ⊤) n := by
        rw [pending_mark]
        exact Finset.mem_erase.mpr ⟨here, member⟩
      refine .inr (ih ?_ (mem_pending.mp waiting') waiting')
      rw [pending_mark, fewer]
      omega

/-- No place is visited twice. -/
theorem visits_nodup (turns : Nat) : (visits n turns key).Nodup := by
  induction turns generalizing key with
  | zero => exact List.nodup_nil
  | succ turns ih =>
    cases picked : (least key n).1 with
    | none =>
      rw [visits_nil n _ picked]
      exact List.nodup_nil
    | some j =>
      rw [visits_cons turns picked, List.nodup_cons]
      refine ⟨fun again => ?_, ih⟩
      have marked := pending_of_visits again
      rw [pending_mark] at marked
      exact Finset.notMem_erase j _ marked

/-- The places are visited in the order of their keys. -/
theorem visits_sorted (turns : Nat) : (visits n turns key).Pairwise fun a b => key a ≤ key b := by
  induction turns generalizing key with
  | zero => exact .nil
  | succ turns ih =>
    cases picked : (least key n).1 with
    | none =>
      rw [visits_nil n _ picked]
      exact .nil
    | some j =>
      rw [visits_cons turns picked]
      have unmarked : ∀ b ∈ visits n turns (update key j ⊤), b ≠ j := by
        intro b visited same
        have marked := pending_of_visits visited
        rw [same, pending_mark] at marked
        exact Finset.notMem_erase j _ marked
      refine .cons (fun b visited => ?_) ?_
      · have waiting := pending_of_visits visited
        rw [pending_mark] at waiting
        obtain ⟨inside, -⟩ := mem_pending.mp (Finset.mem_of_mem_erase waiting)
        obtain ⟨-, value, -⟩ := least_found picked
        exact value ▸ least_le inside
      · refine ih.imp_of_mem fun {a b} visitedA visitedB le => ?_
        rwa [update_of_ne (unmarked a visitedA), update_of_ne (unmarked b visitedB)] at le

end Topomalloc.Selection
