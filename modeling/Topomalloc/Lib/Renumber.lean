import Mathlib.Data.Nat.Count

/-! Dense renumbering: the members of a set of numbers get the numbers
`0, 1, 2, …` in increasing order. The number of a member is how many members are
smaller, so two renumberings agree on a member exactly when the two sets have
equally many members below it. -/
namespace Topomalloc.Renumber
open Function

/-- A numbering under construction. -/
structure Numbering where
  denseOf : Nat → Nat
  idOf : Nat → Nat
  count : Nat

/-- The next number goes to `id`, if it is a member. -/
def Numbering.add (used : Nat → Bool) (r : Numbering) (id : Nat) : Numbering :=
  if used id then
    { denseOf := update r.denseOf id r.count, idOf := update r.idOf r.count id, count := r.count + 1 }
  else r

/-- Number the members below `ids`. -/
def renumber (used : Nat → Bool) (ids : Nat) : Numbering :=
  (List.range ids).foldl (Numbering.add used) ⟨fun _ => 0, fun _ => 0, 0⟩

/-- How many members are below `id`. -/
def rank (used : Nat → Bool) (id : Nat) : Nat := Nat.count (fun k => used k = true) id

variable {used : Nat → Bool} {ids id id' d : Nat}

theorem rank_lt_of_lt (member : used id = true) (lt : id < id') : rank used id < rank used id' :=
  Nat.count_strict_mono member lt

private theorem renumber_succ (used : Nat → Bool) (ids : Nat) :
    renumber used (ids + 1) = (renumber used ids).add used ids := by
  rw [renumber, List.range_succ, List.foldl_append]
  rfl

theorem renumber_count (used : Nat → Bool) (ids : Nat) : (renumber used ids).count = rank used ids := by
  induction ids with
  | zero => rfl
  | succ ids ih =>
    rw [renumber_succ, Numbering.add, rank, Nat.count_succ]
    cases member : used ids with
    | true => simp [ih, rank]
    | false => simp [ih, rank]

theorem denseOf_eq_rank (member : used id = true) (inside : id < ids) :
    (renumber used ids).denseOf id = rank used id := by
  induction ids with
  | zero => omega
  | succ ids ih =>
    rw [renumber_succ, Numbering.add]
    by_cases last : id = ids
    · subst last
      rw [if_pos member]
      simp [renumber_count]
    · have earlier := ih (by omega)
      split
      · dsimp only
        rw [update_of_ne last, earlier]
      · exact earlier

/-- Number `d` belongs to a member, which has `d` members below it. -/
theorem idOf_spec (inside : d < (renumber used ids).count) :
    (renumber used ids).idOf d < ids ∧ used ((renumber used ids).idOf d) = true ∧
      rank used ((renumber used ids).idOf d) = d := by
  induction ids with
  | zero => exact absurd inside (Nat.not_lt_zero d)
  | succ ids ih =>
    rw [renumber_succ, Numbering.add] at inside ⊢
    by_cases member : used ids = true
    · rw [if_pos member] at inside ⊢
      dsimp only at inside ⊢
      by_cases last : d = (renumber used ids).count
      · subst last
        rw [update_self]
        exact ⟨by omega, member, (renumber_count used ids).symm⟩
      · rw [update_of_ne last]
        obtain ⟨below, named, ranked⟩ := ih (by omega)
        exact ⟨by omega, named, ranked⟩
    · rw [if_neg member] at inside ⊢
      obtain ⟨below, named, ranked⟩ := ih inside
      exact ⟨by omega, named, ranked⟩

theorem idOf_lt_of_lt (lt : d < d') (inside : d' < (renumber used ids).count) :
    (renumber used ids).idOf d < (renumber used ids).idOf d' := by
  obtain ⟨-, member, ranked⟩ := idOf_spec (Nat.lt_trans lt inside)
  obtain ⟨-, member', ranked'⟩ := idOf_spec inside
  by_contra not_less
  rcases Nat.eq_or_lt_of_le (Nat.le_of_not_lt not_less) with same | less
  · rw [same] at ranked'
    omega
  · have := rank_lt_of_lt member' less
    omega

theorem count_le (used : Nat → Bool) (ids : Nat) : (renumber used ids).count ≤ ids := by
  rw [renumber_count]
  exact Nat.count_le _

theorem denseOf_lt (member : used id = true) (inside : id < ids) :
    (renumber used ids).denseOf id < (renumber used ids).count := by
  rw [denseOf_eq_rank member inside, renumber_count]
  exact rank_lt_of_lt member inside

end Topomalloc.Renumber
