import Mathlib.Algebra.Ring.Nat
import Mathlib.Algebra.Order.BigOperators.Group.List
import Mathlib.Algebra.Order.Group.Nat

/-! Cutting levels until their total is within a budget. The places are visited in a
fixed order, pass after pass: a place above its floor gives up one step, or what it
has above the floor if that is less, and a total kept on the side is lowered by what
it gave. The walk ends as soon as the total is within the budget, or after a pass in
which no place gave anything. -/
namespace Topomalloc.Shrink
open Function

variable {K : Type} [DecidableEq K]

/-- The walk's state: the total on the side, whether a place gave something in this
pass, and the levels. -/
structure Walk (K : Type) where
  total : Nat
  progress : Bool
  level : K → Nat

section Model

variable (budget : Nat) (step floor : K → Nat)

/-- One place's turn. -/
def turn (s : Walk K) (k : K) : Walk K :=
  if s.total ≤ budget then s
  else if floor k < s.level k then
    let next := max (s.level k - step k) (floor k)
    ⟨s.total - (s.level k - next), true, update s.level k next⟩
  else s

/-- Every place's turn, in order. -/
def pass (keys : List K) (s : Walk K) : Walk K := keys.foldl (turn budget step floor) s

/-- Passes until the total fits or a pass changes nothing, at most `fuel` of them. -/
def shrink (keys : List K) : (fuel total : Nat) → (K → Nat) → Nat × (K → Nat)
  | 0, total, level => (total, level)
  | fuel + 1, total, level =>
    if total ≤ budget then (total, level)
    else
      let after := pass budget step floor keys ⟨total, false, level⟩
      if after.progress then shrink keys fuel after.total after.level
      else (after.total, after.level)

end Model

/-- The sum of the levels over all places. -/
def sum (keys : List K) (level : K → Nat) : Nat := (keys.map level).sum

/-- Writing one level changes the sum by that level alone. -/
theorem sum_update (distinct : keys.Nodup) (mem : k ∈ keys)
    (level : K → Nat) (v : Nat) : sum keys (update level k v) + level k = sum keys level + v := by
  unfold sum
  induction keys with
  | nil => simp at mem
  | cons head rest ih =>
    obtain ⟨fresh, distinct⟩ := List.nodup_cons.mp distinct
    simp only [List.map_cons, List.sum_cons]
    by_cases here : k = head
    · subst here
      have away : rest.map (update level k v) = rest.map level :=
        List.map_congr_left fun other inside =>
          update_of_ne (fun same => fresh (by rwa [same] at inside)) v level
      rw [away, update_self]
      omega
    · have inside : k ∈ rest := (List.mem_cons.mp mem).resolve_left here
      rw [update_of_ne (Ne.symm here)]
      have := ih distinct inside
      omega

/-- What any number of turns does to the walk. -/
structure Falls (floor : K → Nat) (keys : List K) (s s' : Walk K) : Prop where
  balanced : s.total = sum keys s.level → s'.total = sum keys s'.level
  lower : ∀ k, s'.level k ≤ s.level k
  kept : ∀ k, min (s.level k) (floor k) ≤ s'.level k
  moved : s' = s ∨ s'.progress = true ∧ s'.total < s.total

variable {budget : Nat} {step floor : K → Nat} {keys : List K} {s s' s'' : Walk K} {k : K}

omit [DecidableEq K] in
theorem Falls.refl (s : Walk K) : Falls floor keys s s :=
  ⟨id, fun _ => Nat.le_refl _, fun _ => Nat.min_le_left _ _, .inl rfl⟩

omit [DecidableEq K] in
theorem Falls.trans (first : Falls floor keys s s') (second : Falls floor keys s' s'') :
    Falls floor keys s s'' := by
  refine ⟨fun even => second.balanced (first.balanced even),
    fun k => Nat.le_trans (second.lower k) (first.lower k), fun k => ?_, ?_⟩
  · have := first.kept k
    have := second.kept k
    omega
  · rcases second.moved with rfl | ⟨progress, less⟩
    · exact first.moved
    · refine .inr ⟨progress, ?_⟩
      rcases first.moved with rfl | ⟨-, before⟩
      · exact less
      · omega

section Walks

variable (distinct : keys.Nodup) (positive : ∀ k ∈ keys, 0 < step k) {visited : List K}
include distinct positive

/-- A turn changes nothing, or the place gives at least one and keeps its floor. -/
theorem turn_falls (mem : k ∈ keys) (even : s.total = sum keys s.level) :
    Falls floor keys s (turn budget step floor s k) := by
  unfold turn
  split
  next => exact .refl s
  next =>
    split
    next above =>
      have less : max (s.level k - step k) (floor k) < s.level k := by
        have := positive k mem
        omega
      have written := sum_update distinct mem s.level (max (s.level k - step k) (floor k))
      generalize next : max (s.level k - step k) (floor k) = value at less written ⊢
      have atLeast : floor k ≤ value := by omega
      have part : s.level k ≤ sum keys s.level := List.le_sum_of_mem (List.mem_map_of_mem mem)
      refine ⟨fun _ => ?_, fun other => ?_, fun other => ?_, .inr ⟨rfl, ?_⟩⟩
      · simp only
        omega
      · by_cases here : other = k
        · subst here
          simp only [update_self]
          omega
        · simp only [update_of_ne here, Nat.le_refl]
      · by_cases here : other = k
        · subst here
          simp only [update_self]
          omega
        · simp only [update_of_ne here]
          exact Nat.min_le_left _ _
      · simp only
        omega
    next => exact .refl s

theorem pass_falls (inside : visited ⊆ keys) (even : s.total = sum keys s.level) :
    Falls floor keys s (pass budget step floor visited s) := by
  induction visited generalizing s with
  | nil => exact .refl s
  | cons k rest ih =>
    have first : Falls floor keys s (turn budget step floor s k) :=
      turn_falls distinct positive (inside List.mem_cons_self) even
    exact first.trans (ih (List.subset_of_cons_subset inside) (first.balanced even))

omit distinct positive in
/-- Progress once made stays made. -/
theorem pass_progress (made : s.progress = true) : (pass budget step floor visited s).progress = true := by
  induction visited generalizing s with
  | nil => exact made
  | cons k rest ih =>
    apply ih
    unfold turn
    split
    next => exact made
    next =>
      split
      next => rfl
      next => exact made

omit distinct positive in
/-- A pass without progress left every place as it was, and had no place to cut. -/
theorem pass_idle (idle : (pass budget step floor visited s).progress = false) :
    pass budget step floor visited s = s ∧ (s.total ≤ budget ∨ ∀ k ∈ visited, s.level k ≤ floor k) := by
  induction visited with
  | nil => exact ⟨rfl, .inr fun k mem => absurd mem List.not_mem_nil⟩
  | cons k rest ih =>
    by_cases fits : s.total ≤ budget
    · have still : turn budget step floor s k = s := if_pos fits
      rw [pass, List.foldl_cons, still] at idle ⊢
      exact ⟨(ih idle).1, .inl fits⟩
    · by_cases above : floor k < s.level k
      · -- The place would have given something, and the pass could not have been idle.
        have gave : (turn budget step floor s k).progress = true := by
          rw [turn, if_neg fits, if_pos above]
        have made : (pass budget step floor rest (turn budget step floor s k)).progress = true :=
          pass_progress gave
        exact absurd (idle.symm.trans made) (by decide)
      · have still : turn budget step floor s k = s := by rw [turn, if_neg fits, if_neg above]
        rw [pass, List.foldl_cons, still] at idle ⊢
        obtain ⟨same, quiet⟩ := ih idle
        refine ⟨same, .inr fun other mem => ?_⟩
        rcases List.mem_cons.mp mem with rfl | later
        · omega
        · exact (quiet.resolve_left fits) other later

/-- From levels that add up to the total, enough passes always end the same way: the
total still adds up, no level rose or went below its floor, and the total fits the
budget unless every place is down to its floor. -/
theorem shrink_settles (budget : Nat) (floor : K → Nat) (even : total = sum keys level) :
    ∃ total' level', (∀ fuel, total ≤ fuel →
        shrink budget step floor keys fuel total level = (total', level')) ∧
      total' = sum keys level' ∧ (∀ k, level' k ≤ level k) ∧
      (∀ k, min (level k) (floor k) ≤ level' k) ∧
      (total' ≤ budget ∨ ∀ k ∈ keys, level' k ≤ floor k) := by
  induction total using Nat.strong_induction_on generalizing level with
  | _ total ih =>
    by_cases fits : total ≤ budget
    · refine ⟨total, level, fun fuel _ => ?_, even, fun _ => Nat.le_refl _,
        fun _ => Nat.min_le_left _ _, .inl fits⟩
      cases fuel with
      | zero => rfl
      | succ fuel => exact if_pos fits
    · have falls : Falls floor keys ⟨total, false, level⟩
          (pass budget step floor keys ⟨total, false, level⟩) :=
        pass_falls distinct positive (List.Subset.refl keys) even
      have some : ∀ fuel, total ≤ fuel → ∃ rest, fuel = rest + 1 := by
        intro fuel enough
        exact ⟨fuel - 1, by omega⟩
      cases made : (pass budget step floor keys ⟨total, false, level⟩).progress with
      | true =>
        have less : (pass budget step floor keys ⟨total, false, level⟩).total < total := by
          rcases falls.moved with same | ⟨-, less⟩
          · rw [same] at made
            exact absurd made Bool.false_ne_true
          · exact less
        obtain ⟨total', level', ends, even', lower, kept, done⟩ := ih _ less (falls.balanced even)
        refine ⟨total', level', fun fuel enough => ?_, even',
          fun k => Nat.le_trans (lower k) (falls.lower k), fun k => ?_, done⟩
        · obtain ⟨rest, rfl⟩ := some fuel enough
          rw [shrink, if_neg fits]
          simp only [made, if_true]
          exact ends rest (by omega)
        · have := falls.kept k
          have := kept k
          simp only at *
          omega
      | false =>
        obtain ⟨same, quiet⟩ := pass_idle made
        refine ⟨total, level, fun fuel enough => ?_, even, fun _ => Nat.le_refl _,
          fun _ => Nat.min_le_left _ _, quiet⟩
        obtain ⟨rest, rfl⟩ := some fuel enough
        rw [shrink, if_neg fits, same]
        rfl

end Walks

end Topomalloc.Shrink
