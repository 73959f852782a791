import Mathlib.Algebra.BigOperators.Fin
import Mathlib.Algebra.Order.BigOperators.Group.Finset

/-! Counting threads by what they are doing. Each thread contributes a number
that depends on its own state alone, so a step of one thread moves every total
by that thread's difference. -/
namespace Topomalloc.Census
open Function

variable {τ σ : Type*} [Fintype τ] {f g : σ → Nat} {threads : τ → σ}

def total (f : σ → Nat) (threads : τ → σ) : Nat := ∑ t, f (threads t)

theorem total_update [DecidableEq τ] (f : σ → Nat) (threads : τ → σ) (t : τ) (s : σ) :
    total f (update threads t s) + f (threads t) = total f threads + f s := by
  have outside : ∀ u ∈ Finset.univ.erase t, f (update threads t s u) = f (threads u) := by
    intro u member
    rw [update_of_ne (Finset.ne_of_mem_erase member)]
  unfold total
  rw [← Finset.add_sum_erase _ _ (Finset.mem_univ t), Finset.sum_congr rfl outside, update_self,
    ← Finset.add_sum_erase (a := t) _ (fun u => f (threads u)) (Finset.mem_univ t)]
  omega

theorem le_total (f : σ → Nat) (threads : τ → σ) (t : τ) : f (threads t) ≤ total f threads :=
  Finset.single_le_sum (f := fun t => f (threads t)) (fun _ _ => Nat.zero_le _) (Finset.mem_univ t)

theorem total_eq_zero : total f threads = 0 ↔ ∀ t, f (threads t) = 0 := by
  simp [total]

theorem total_mono (le : ∀ t, f (threads t) ≤ g (threads t)) : total f threads ≤ total g threads :=
  Finset.sum_le_sum fun t _ => le t

theorem total_add : total (fun s => f s + g s) threads = total f threads + total g threads :=
  Finset.sum_add_distrib

theorem total_le_card (le : ∀ t, f (threads t) ≤ 1) : total f threads ≤ Fintype.card τ := by
  simpa [total] using Finset.sum_le_card_nsmul Finset.univ (fun t => f (threads t)) 1 fun t _ => le t

/-- Where the total is one, whoever contributes is alone. -/
theorem eq_zero_of_alone (le : total f threads ≤ 1) (one : f (threads t) = 1) (other : u ≠ t) :
    f (threads u) = 0 := by
  classical
  have rest := Finset.single_le_sum (f := fun u => f (threads u)) (fun _ _ => Nat.zero_le _)
    (Finset.mem_erase.mpr ⟨other, Finset.mem_univ u⟩)
  have both := Finset.add_sum_erase (a := t) _ (fun u => f (threads u)) (Finset.mem_univ t)
  unfold total at le
  omega

theorem total_eq_of_alone (others : ∀ u, u ≠ t → f (threads u) = 0) : total f threads = f (threads t) :=
  Finset.sum_eq_single_of_mem t (Finset.mem_univ t) fun u _ other => others u other

end Topomalloc.Census
