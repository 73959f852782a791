import Topomalloc.Lib.Links
import Mathlib.Data.Finset.Card

/-! Slot pools: numbered slots are handed out from below a high-water mark, and
the ones that came back are stacked through a link each slot has. A slot is in
use when it is below the mark and not on the stack. -/
namespace Topomalloc.Pool
open Links Function

/-- The pool over `cap` slots: those of `free` are stacked from `head`, the rest
of the slots below `mark` are in use. -/
structure Stocked (next : Nat → Nat) (nil head mark cap : Nat) (free : List Nat) : Prop where
  stack : Stack next nil head free
  nodup : free.Nodup
  below : ∀ i ∈ free, i < mark
  room : mark ≤ cap
  limit : cap ≤ nil

/-- Slot `i` was handed out and has not come back. -/
def Used (mark : Nat) (free : List Nat) (i : Nat) : Prop := i < mark ∧ i ∉ free

variable {next next' : Nat → Nat} {nil head mark cap i j : Nat} {free : List Nat}

theorem stocked_empty (limit : cap ≤ nil) : Stocked next nil nil 0 cap [] :=
  ⟨rfl, .nil, fun _ member => absurd member (by simp), Nat.zero_le _, limit⟩

section
variable (h : Stocked next nil head mark cap free)
include h

theorem Stocked.congr (same : ∀ i ∈ free, next' i = next i) : Stocked next' nil head mark cap free :=
  ⟨h.stack.congr same, h.nodup, h.below, h.room, h.limit⟩

/-- Take the slot on top of the stack. -/
theorem Stocked.pop (some : head ≠ nil) :
    ∃ rest, free = head :: rest ∧ Stocked next nil (next head) mark cap rest ∧ Used mark rest head := by
  obtain ⟨rest, rfl, stack⟩ := h.stack.pop some
  obtain ⟨fresh, nodup⟩ := List.nodup_cons.mp h.nodup
  have below : ∀ i ∈ rest, i < mark := fun i member => h.below i (List.mem_cons_of_mem _ member)
  exact ⟨rest, rfl, ⟨stack, nodup, below, h.room, h.limit⟩, h.below head (by simp), fresh⟩

/-- Take the slot at the mark. -/
theorem Stocked.extend (room : mark < cap) :
    Stocked next nil head (mark + 1) cap free ∧ Used (mark + 1) free mark := by
  constructor
  · exact ⟨h.stack, h.nodup, fun i member => Nat.lt_succ_of_lt (h.below i member), room, h.limit⟩
  · exact ⟨Nat.lt_succ_self _, fun member => Nat.lt_irrefl _ (h.below mark member)⟩

/-- Stack a slot that was in use. -/
theorem Stocked.push (used : Used mark free i) (link : next' i = head)
    (same : ∀ j, j ≠ i → next' j = next j) : Stocked next' nil i mark cap (i :: free) := by
  have kept : ∀ j ∈ free, next' j = next j := fun j member =>
    same j fun equal => used.2 (equal ▸ member)
  refine ⟨⟨rfl, ?_⟩, List.nodup_cons.mpr ⟨used.2, h.nodup⟩, ?_, h.room, h.limit⟩
  · rw [link]
    exact h.stack.congr kept
  · intro j member
    rcases List.mem_cons.mp member with rfl | old
    · exact used.1
    · exact h.below j old

end

/-- The slots met from `head`, at most `fuel` of them. -/
def walk (next : Nat → Nat) (nil : Nat) : (fuel head : Nat) → List Nat
  | 0, _ => []
  | fuel + 1, head => if head = nil then [] else head :: walk next nil fuel (next head)

/-- With enough fuel the walk meets the stacked slots. -/
theorem walk_eq (stack : Stack next nil head free) (real : ∀ i ∈ free, i ≠ nil)
    (enough : free.length ≤ fuel) : walk next nil fuel head = free := by
  induction free generalizing fuel head with
  | nil =>
    obtain rfl : head = nil := stack
    cases fuel <;> simp [walk]
  | cons i rest ih =>
    obtain ⟨rfl, below⟩ := stack
    cases fuel with
    | zero => simp at enough
    | succ fuel =>
      rw [walk, if_neg (real head (by simp))]
      rw [ih below (fun j member => real j (List.mem_cons_of_mem _ member)) (by simpa using enough)]

/-- Distinct numbers below a bound are no more than that. -/
theorem length_le {ks : List Nat} (nodup : ks.Nodup) (below : ∀ k ∈ ks, k < n) : ks.length ≤ n := by
  have subset : ks.toFinset ⊆ Finset.range n := fun k member =>
    Finset.mem_range.mpr (below k (List.mem_toFinset.mp member))
  have card := Finset.card_le_card subset
  rwa [List.toFinset_card_of_nodup nodup, Finset.card_range] at card

/-- The walk from the head of a pool, with the mark as fuel, meets its free slots. -/
theorem Stocked.walk_eq (h : Stocked next nil head mark cap free) : walk next nil mark head = free := by
  apply Pool.walk_eq h.stack
  · intro i member
    have below := h.below i member
    have room := h.room
    have limit := h.limit
    omega
  · exact length_le h.nodup h.below

end Topomalloc.Pool
