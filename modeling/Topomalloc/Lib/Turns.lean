import Mathlib.Data.List.Count

/-! Two kinds of event that take turns: one opens, the other closes. A log lists
events newest first. -/
namespace Topomalloc.Turns

variable {ε : Type*} {opens closes : ε → Bool} {l l₁ l₂ : List ε} {e : ε} {b : Bool}

/-- Whether an opening is outstanding after the log; `none` once two openings
or two closings have followed each other. -/
def pending (opens closes : ε → Bool) : List ε → Option Bool
  | [] => some false
  | e :: l =>
    if opens e then (if pending opens closes l = some false then some true else none)
    else if closes e then (if pending opens closes l = some true then some false else none)
    else pending opens closes l

theorem pending_open (h : pending opens closes l = some false) (isOpen : opens e = true) :
    pending opens closes (e :: l) = some true := by
  simp [pending, isOpen, h]

theorem pending_close (h : pending opens closes l = some true) (notOpen : opens e = false)
    (isClose : closes e = true) : pending opens closes (e :: l) = some false := by
  simp [pending, notOpen, isClose, h]

theorem pending_other (notOpen : opens e = false) (notClose : closes e = false) :
    pending opens closes (e :: l) = pending opens closes l := by
  simp [pending, notOpen, notClose]

/-- What came before a log in turns was in turns. -/
theorem pending_of_append (h : pending opens closes (l₁ ++ l₂) = some b) :
    ∃ c, pending opens closes l₂ = some c := by
  induction l₁ generalizing b with
  | nil => exact ⟨b, h⟩
  | cons e l₁ ih =>
    simp only [List.cons_append, pending] at h
    split at h
    · split at h
      next before => exact ih before
      next => contradiction
    · split at h
      · split at h
        next before => exact ih before
        next => contradiction
      · exact ih h

/-- Events in turns are balanced, up to the outstanding one. -/
theorem countP_of_pending (apart : ∀ e, opens e = true → closes e = false)
    (h : pending opens closes l = some b) : l.countP opens = l.countP closes + b.toNat := by
  induction l generalizing b with
  | nil =>
    obtain rfl := Option.some.inj h
    rfl
  | cons e l ih =>
    simp only [pending] at h
    split at h
    next isOpen =>
      split at h
      next before =>
        obtain rfl := Option.some.inj h
        simp [isOpen, apart e isOpen, ih before]
      next => contradiction
    next notOpen =>
      split at h
      next isClose =>
        split at h
        next before =>
          obtain rfl := Option.some.inj h
          simp [isClose, notOpen, ih before]
        next => contradiction
      next notClose => simp [notOpen, notClose, ih h]

/-- Where no closing happened an opening stays outstanding. -/
theorem pending_of_no_close (opened : pending opens closes l₂ = some true)
    (none : ∀ e ∈ l₁, closes e = false) (h : pending opens closes (l₁ ++ l₂) = some b) : b = true := by
  induction l₁ generalizing b with
  | nil => exact Option.some.inj (h.symm.trans opened)
  | cons e l₁ ih =>
    have rest : ∀ e ∈ l₁, closes e = false := fun e member => none e (by simp [member])
    simp only [List.cons_append, pending, none e (by simp), Bool.false_eq_true, if_false] at h
    split at h
    · split at h
      next before => exact absurd (ih rest before) (by decide)
      next => contradiction
    · exact ih rest h

/-- Between two openings there is a closing. -/
theorem closed_between (isOpen : opens e = true) (isOpen' : opens e' = true)
    (h : pending opens closes (l₁ ++ e' :: (l₂ ++ e :: l₃)) = some b) : ∃ c ∈ l₂, closes c = true := by
  by_contra absent
  simp only [not_exists, not_and, Bool.not_eq_true] at absent
  obtain ⟨c, later⟩ := pending_of_append h
  simp only [pending, isOpen', if_true] at later
  split at later
  next before =>
    obtain ⟨d, first⟩ := pending_of_append before
    have opened : pending opens closes (e :: l₃) = some true := by
      simp only [pending, isOpen, if_true] at first ⊢
      split at first
      next ready => rw [if_pos ready]
      next => contradiction
    exact absurd (pending_of_no_close opened absent before) (by decide)
  next => contradiction

end Topomalloc.Turns
