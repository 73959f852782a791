import Mathlib.Order.WellFounded

/-! Who waits for whom. A thread that wants a lock waits for the threads that
have it. If whatever a thread wants outranks everything it has, the relation has
no cycle, and following it ends at a thread that waits for nobody. -/
namespace Topomalloc.Waits
open Relation

variable {τ ℓ ρ : Type*} [Preorder ρ] {wants has : τ → ℓ → Prop} {rank : ℓ → ρ} {t u : τ}

/-- `t` wants something that `u` has. -/
def WaitsFor (wants has : τ → ℓ → Prop) (t u : τ) : Prop := ∃ l, wants t l ∧ has u l

/-- What a thread wants outranks everything it has. -/
def Ranked (wants has : τ → ℓ → Prop) (rank : ℓ → ρ) : Prop :=
  ∀ ⦃t l m⦄, wants t l → has t m → rank m < rank l

/-- Along a chain of waiting threads the ranks climb. -/
theorem climbs (ranked : Ranked wants has rank) (chain : TransGen (WaitsFor wants has) t u) :
    ∃ l m, wants t l ∧ has u m ∧ rank l ≤ rank m := by
  induction chain with
  | single waits =>
    obtain ⟨l, wanted, had⟩ := waits
    exact ⟨l, l, wanted, had, le_refl _⟩
  | tail _ waits ih =>
    obtain ⟨l, m, wanted, had, le⟩ := ih
    obtain ⟨l', wanted', had'⟩ := waits
    exact ⟨l, l', wanted, had', le.trans (ranked wanted' had).le⟩

theorem acyclic (ranked : Ranked wants has rank) : ¬ TransGen (WaitsFor wants has) t t := by
  intro cycle
  obtain ⟨l, m, wanted, had, le⟩ := climbs ranked cycle
  exact lt_irrefl _ (le.trans_lt (ranked wanted had))

/-- Whoever waits, waits in the end for somebody who does not. -/
theorem ends [WellFoundedGT ρ] (ranked : Ranked wants has rank) (waits : WaitsFor wants has t u) :
    ∃ v, TransGen (WaitsFor wants has) t v ∧ (∃ m, has v m) ∧ ∀ x, ¬ WaitsFor wants has v x := by
  obtain ⟨l, wanted, had⟩ := waits
  -- on the rank of the lock that is waited for: the next one is higher
  induction rankOf : rank l using WellFoundedGT.induction generalizing t u l with
  | ind r ih =>
    by_cases again : ∃ x, WaitsFor wants has u x
    · obtain ⟨x, l', wanted', had'⟩ := again
      have higher : r < rank l' := rankOf ▸ ranked wanted' had
      obtain ⟨v, chain, last⟩ := ih _ higher l' wanted' had' rfl
      exact ⟨v, TransGen.head ⟨l, wanted, had⟩ chain, last⟩
    · exact ⟨u, TransGen.single ⟨l, wanted, had⟩, ⟨l, had⟩, not_exists.mp again⟩

end Topomalloc.Waits
