import Mathlib.Data.List.Perm.Basic

/-! A ring buffer in a fixed array: `len` entries from position `head` on,
wrapping at the end. Its meaning is the list of its entries, oldest first. -/
namespace Topomalloc
open Function

structure Ring (α : Type) (cap : Nat) where
  slots : Nat → α
  head : Nat
  len : Nat
  head_lt : head < cap
  len_le : len ≤ cap

namespace Ring
variable {α : Type} {cap : Nat}

theorem cap_pos (r : Ring α cap) : 0 < cap := Nat.zero_lt_of_lt r.head_lt

/-- The array position of entry `k`. -/
def pos (r : Ring α cap) (k : Nat) : Nat := (r.head + k) % cap

/-- The entries, oldest first. -/
def contents (r : Ring α cap) : List α := (List.range r.len).map fun k => r.slots (r.pos k)

/-- The ring without its oldest entry. -/
def popFront (r : Ring α cap) : Ring α cap where
  slots := r.slots
  head := (r.head + 1) % cap
  len := r.len - 1
  head_lt := Nat.mod_lt _ r.cap_pos
  len_le := Nat.le_trans (Nat.sub_le _ _) r.len_le

/-- Entry `k` overwritten. -/
def overwrite (r : Ring α cap) (k : Nat) (a : α) : Ring α cap :=
  { r with slots := update r.slots (r.pos k) a }

/-- Entry `k` taken out: the oldest entry moves into its place. -/
def takeAt (r : Ring α cap) (k : Nat) : Ring α cap := (r.overwrite k (r.slots r.head)).popFront

/-- A new entry after the others. -/
def pushBack (r : Ring α cap) (a : α) (room : r.len < cap) : Ring α cap :=
  { r with slots := update r.slots (r.pos r.len) a, len := r.len + 1, len_le := room }

variable {r : Ring α cap} {k : Nat} {a : α}

@[simp] theorem length_contents (r : Ring α cap) : r.contents.length = r.len := by simp [contents]

@[simp] theorem popFront_len (r : Ring α cap) : r.popFront.len = r.len - 1 := rfl

@[simp] theorem takeAt_len (r : Ring α cap) (k : Nat) : (r.takeAt k).len = r.len - 1 := rfl

theorem contents_eq_nil : r.contents = [] ↔ r.len = 0 := by
  rw [← List.length_eq_zero_iff, length_contents]

/-- Different entries have different places. -/
theorem pos_inj (r : Ring α cap) (inside : k < cap) (inside' : k' < cap)
    (same : r.pos k = r.pos k') : k = k' := by
  have head := r.head_lt
  simp only [pos] at same
  rcases Nat.lt_or_ge (r.head + k) cap with low | high <;>
    rcases Nat.lt_or_ge (r.head + k') cap with low' | high'
  · rw [Nat.mod_eq_of_lt low, Nat.mod_eq_of_lt low'] at same
    omega
  · rw [Nat.mod_eq_of_lt low, Nat.mod_eq_sub_mod high', Nat.mod_eq_of_lt (by omega)] at same
    omega
  · rw [Nat.mod_eq_sub_mod high, Nat.mod_eq_of_lt (by omega), Nat.mod_eq_of_lt low'] at same
    omega
  · rw [Nat.mod_eq_sub_mod high, Nat.mod_eq_of_lt (by omega), Nat.mod_eq_sub_mod high',
      Nat.mod_eq_of_lt (by omega)] at same
    omega

theorem pos_zero (r : Ring α cap) : r.pos 0 = r.head := Nat.mod_eq_of_lt r.head_lt

theorem contents_popFront (held : 0 < r.len) : r.contents = r.slots r.head :: r.popFront.contents := by
  obtain ⟨n, count⟩ : ∃ n, r.len = n + 1 := ⟨r.len - 1, by omega⟩
  have next (j : Nat) : r.pos (j + 1) = r.popFront.pos j := by
    simp only [pos, popFront, Nat.mod_add_mod]
    congr 1
    omega
  simp only [contents, popFront_len, count, Nat.add_sub_cancel, List.range_succ_eq_map, List.map_cons,
    List.map_map, pos_zero]
  congr 1
  exact List.map_congr_left fun j _ => congrArg r.slots (next j)

theorem contents_overwrite (inside : k < r.len) : (r.overwrite k a).contents = r.contents.set k a := by
  apply List.ext_getElem
  · simp [overwrite]
  intro j left right
  have lt : j < r.len := by simpa [overwrite] using left
  have bound := r.len_le
  simp only [contents, List.getElem_map, List.getElem_range, overwrite, List.getElem_set]
  by_cases same : k = j
  · subst same
    rw [if_pos rfl]
    exact update_self _ _ _
  · rw [if_neg same]
    exact update_of_ne (fun eq => same (r.pos_inj (by omega) (by omega) eq.symm)) _ _

/-- Taking an entry out leaves the others, in some order. -/
theorem contents_takeAt (inside : k < r.len) :
    r.contents.Perm (r.slots (r.pos k) :: (r.takeAt k).contents) := by
  have first := contents_popFront (r := r) (by omega)
  have moved := contents_popFront (r := r.overwrite k (r.slots r.head)) (by simp [overwrite]; omega)
  rw [contents_overwrite inside, first] at moved
  change _ = _ :: (r.takeAt k).contents at moved
  cases k with
  | zero =>
    rw [List.set_cons_zero, List.cons.injEq] at moved
    rw [first, pos_zero, moved.2]
  | succ k =>
    have bound : k < r.popFront.contents.length := by simpa using by omega
    have entry : r.slots (r.pos (k + 1)) = r.popFront.contents[k] := by
      have whole : r.contents.get ⟨k + 1, by simpa using inside⟩ = r.slots (r.pos (k + 1)) := by
        simp [contents]
      rw [← whole]
      simp only [first, List.get_eq_getElem, List.getElem_cons_succ]
    rw [List.set_cons_succ, List.cons.injEq] at moved
    rw [first, ← moved.2, entry]
    calc (r.slots r.head :: r.popFront.contents).Perm
          (r.slots r.head :: r.popFront.contents[k] :: r.popFront.contents.eraseIdx k) :=
          .cons _ (List.getElem_cons_eraseIdx_perm bound).symm
      _ |>.Perm _ := .swap _ _ _
      _ |>.Perm _ := .cons _ (List.set_perm_cons_eraseIdx bound _).symm

theorem contents_pushBack (room : r.len < cap) : (r.pushBack a room).contents = r.contents ++ [a] := by
  have old (j : Nat) (lt : j < r.len) : update r.slots (r.pos r.len) a (r.pos j) = r.slots (r.pos j) :=
    update_of_ne (fun eq => absurd (r.pos_inj (by omega) room eq) (by omega)) _ _
  simp only [contents, pushBack, List.range_succ, List.map_append, List.map_cons, List.map_nil]
  congr 1
  · exact List.map_congr_left fun j member => old j (List.mem_range.mp member)
  · exact congrArg (fun x => [x]) (update_self _ _ _)

end Ring
end Topomalloc
