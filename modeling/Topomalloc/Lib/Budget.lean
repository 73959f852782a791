import Mathlib.Algebra.Ring.Nat
import Mathlib.Algebra.Order.BigOperators.Group.Finset

/-! Splitting a budget: among claimants in order, each taking what it wants while
the budget lasts, and down a tree, each node passing on part of what it got. -/
namespace Topomalloc.Budget
open Function

variable {κ : Type} [DecidableEq κ]

/-- What each claimant gets. Those not in the list keep what they want. -/
def grant : List κ → (κ → Nat) → Nat → κ → Nat
  | [], want, _ => want
  | k :: rest, want, budget =>
    grant rest (update want k (min (want k) budget)) (budget - min (want k) budget)

variable {k k' : κ} {order : List κ} {want : κ → Nat} {budget : Nat}

theorem grant_of_not_mem (absent : k ∉ order) : grant order want budget k = want k := by
  induction order generalizing want budget with
  | nil => rfl
  | cons first rest ih =>
    simp only [List.mem_cons, not_or] at absent
    rw [grant, ih absent.2, update_of_ne absent.1]

theorem grant_le (order : List κ) (want : κ → Nat) (budget : Nat) (k : κ) :
    grant order want budget k ≤ want k := by
  induction order generalizing want budget with
  | nil => exact Nat.le_refl _
  | cons first rest ih =>
    refine Nat.le_trans (ih _ _) ?_
    by_cases same : k = first
    · subst same
      rw [update_self]
      exact Nat.min_le_left _ _
    · rw [update_of_ne same]

/-- The first claimant gets all it wants, up to the whole budget. -/
theorem grant_head (want : κ → Nat) (budget : Nat) (nodup : (k :: order).Nodup) :
    grant (k :: order) want budget k = min (want k) budget := by
  rw [grant, grant_of_not_mem (List.nodup_cons.mp nodup).1, update_self]

theorem grant_sum_le (want : κ → Nat) (budget : Nat) (nodup : order.Nodup) :
    (order.map (grant order want budget)).sum ≤ budget := by
  induction order generalizing want budget with
  | nil => simp
  | cons first rest ih =>
    have paid := grant_head want budget nodup
    have owed := ih (update want first (min (want first) budget))
      (budget - min (want first) budget) (List.nodup_cons.mp nodup).2
    simp only [List.map_cons, List.sum_cons, paid]
    have same : (rest.map (grant (first :: rest) want budget)).sum =
        (rest.map (grant rest (update want first (min (want first) budget))
          (budget - min (want first) budget))).sum := rfl
    omega

theorem grant_of_zero (listed : k ∈ order) : grant order want 0 k = 0 := by
  induction order generalizing want with
  | nil => cases listed
  | cons first rest ih =>
    rw [grant, Nat.min_zero, Nat.sub_zero]
    by_cases later : k ∈ rest
    · exact ih later
    · rw [grant_of_not_mem later, (List.mem_cons.mp listed).resolve_right later, update_self]

/-- A claimant that was cut leaves nothing for those after it. -/
theorem grant_of_cut (nodup : (before ++ k :: after).Nodup)
    (cut : grant (before ++ k :: after) want budget k < want k) (later : k' ∈ after) :
    grant (before ++ k :: after) want budget k' = 0 := by
  induction before generalizing want budget with
  | nil =>
    simp only [List.nil_append] at nodup cut ⊢
    have empty : budget - min (want k) budget = 0 := by
      rw [grant_head _ _ nodup] at cut
      omega
    rw [grant, empty]
    exact grant_of_zero later
  | cons first rest ih =>
    simp only [List.cons_append, List.nodup_cons, List.mem_append, List.mem_cons, not_or] at nodup
    simp only [List.cons_append, grant] at cut ⊢
    have other : k ≠ first := fun same => nodup.1.2.1 same.symm
    refine ih nodup.2 ?_
    rw [update_of_ne other]
    exact cut

/-- Where every node spends and passes on no more than it got, the nodes below
`root` together spend no more than `root` got. -/
theorem sum_spent_le {parent : κ → Option κ} {spent : κ → Nat} (got : κ → Nat)
    (within : ∀ a ∈ members, spent a + ∑ c ∈ members with parent c = some a, got c ≤ got a)
    (rooted : root ∈ members) (below : ∀ c ∈ members, c ≠ root → ∃ a ∈ members, parent c = some a) :
    ∑ a ∈ members, spent a ≤ got root := by
  have passed : ∑ c ∈ members.erase root, got c ≤
      ∑ a ∈ members, ∑ c ∈ members with parent c = some a, got c := by
    rw [← Finset.sum_biUnion]
    · refine Finset.sum_le_sum_of_subset fun c listed => ?_
      obtain ⟨other, member⟩ := Finset.mem_erase.mp listed
      obtain ⟨a, inside, child⟩ := below c member other
      exact Finset.mem_biUnion.mpr ⟨a, inside, Finset.mem_filter.mpr ⟨member, child⟩⟩
    · intro a _ b _ distinct
      refine Finset.disjoint_filter.mpr fun c _ ofA ofB => distinct ?_
      exact Option.some.inj (ofA.symm.trans ofB)
  have total := Finset.sum_le_sum within
  rw [Finset.sum_add_distrib, ← Finset.add_sum_erase members got rooted] at total
  omega

end Topomalloc.Budget
