import Mathlib.Data.List.Induction
import Mathlib.Data.List.Forall2

/-! A family of stacks and the log of what was done to it. A log is legal when
every pop took what was on top, and then each pop takes one push of its own and
the pushes no pop took are what the stacks still hold. Logs are newest first; an
event's position counts from the oldest. -/
namespace Stacks

inductive Event (K V : Type) where
  | push (k : K) (v : V)
  | pop (k : K) (v : V)
  deriving DecidableEq, Repr

variable {K V : Type} {i : Nat}

/-- The event at a position. -/
def Event.at (log : List (Event K V)) (i : Nat) : Option (Event K V) := log.reverse[i]?

/-- A later event moves no earlier one. -/
theorem Event.at_cons :
    Event.at (e :: log) i = some x ↔ Event.at log i = some x ∨ (i = log.length ∧ e = x) := by
  unfold Event.at
  rw [List.reverse_cons, List.getElem?_append, List.length_reverse]
  rcases Nat.lt_trichotomy i log.length with before | rfl | after
  · simp [before, Nat.ne_of_lt before]
  · simp
  · have past : ¬i < log.length := by omega
    simp [past, Nat.ne_of_gt after, Nat.sub_eq_zero_iff_le, after]

theorem Event.at_lt (found : Event.at log i = some e) : i < log.length := by
  obtain ⟨bound, -⟩ := List.getElem?_eq_some_iff.mp found
  simpa using bound

/-- The pops of the log take pushes of their own: `took j` is the position of the
push that the pop at `j` took, and `left k` are the pushes to `k` that no pop
took, in the order in which the stack holds them. -/
structure Matching (log : List (Event K V)) (S : K → List V) (took : Nat → Nat)
    (left : K → List Nat) : Prop where
  earlier : ∀ {j k v}, Event.at log j = some (.pop k v) →
    took j < j ∧ Event.at log (took j) = some (.push k v)
  once : ∀ {i j k l v w}, Event.at log i = some (.pop k v) → Event.at log j = some (.pop l w) →
    took i = took j → i = j
  held : ∀ k, List.Forall₂ (fun i v => Event.at log i = some (.push k v)) (left k) (S k)
  distinct : ∀ k, (left k).Nodup
  untaken : ∀ {i j k l v}, i ∈ left k → Event.at log j = some (.pop l v) → took j ≠ i
  accounted : ∀ {i k v}, Event.at log i = some (.push k v) →
    i ∈ left k ∨ ∃ j w, Event.at log j = some (.pop k w) ∧ took j = i

variable {log : List (Event K V)} {S : K → List V} {k : K} {v : V} {took : Nat → Nat} {left : K → List Nat}

/-- What is still on a stack was pushed there. -/
theorem Matching.pushed (m : Matching log S took left) (member : i ∈ left k) :
    ∃ v, Event.at log i = some (.push k v) := by
  obtain ⟨n, bound, rfl⟩ := List.getElem_of_mem member
  exact ⟨_, (m.held k).get bound (by rw [← (m.held k).length_eq]; exact bound)⟩

variable [DecidableEq K]

/-- `log` is a history of the stacks, and they are `S` after it; tops first. -/
inductive Legal : List (Event K V) → (K → List V) → Prop
  | nil : Legal [] fun _ => []
  | push {log : List (Event K V)} {S : K → List V} (k : K) (v : V) (before : Legal log S) :
      Legal (.push k v :: log) (Function.update S k (v :: S k))
  | pop {log : List (Event K V)} {S : K → List V} {k : K} {v : V} {rest : List V}
      (before : Legal log S) (top : S k = v :: rest) :
      Legal (.pop k v :: log) (Function.update S k rest)

/-- A block of pushes, the first of `vs` first. -/
theorem Legal.pushes (legal : Legal log S) (vs : List V) :
    Legal (vs.reverse.map (.push k) ++ log) (Function.update S k (vs.reverse ++ S k)) := by
  induction vs using List.reverseRecOn with
  | nil => simpa using legal
  | append_singleton vs v ih =>
    have next := ih.push k v
    simpa using next

/-- A block of pops, the last of `vs` first. -/
theorem Legal.pops (vs : List V) (legal : Legal log S) (top : S k = vs.reverse ++ rest) :
    Legal (vs.map (.pop k) ++ log) (Function.update S k rest) := by
  induction vs generalizing rest with
  | nil =>
    have same : Function.update S k rest = S := by
      rw [← show S k = rest from top]
      exact Function.update_eq_self k S
    rw [same]
    exact legal
  | cons v vs ih =>
    have before : Legal (vs.map (.pop k) ++ log) (Function.update S k (v :: rest)) := ih (by simpa using top)
    have next := before.pop (Function.update_self k (v :: rest) S)
    simpa using next

/-- The log says what the stacks hold. -/
theorem Legal.unique (legal : Legal log S) (legal' : Legal log S') : S = S' := by
  induction legal generalizing S' with
  | nil =>
    cases legal'
    rfl
  | push k v _ ih =>
    cases legal' with
    | push _ _ before => rw [ih before]
  | pop _ top ih =>
    cases legal' with
    | pop before top' =>
      cases ih before
      rw [top] at top'
      cases top'
      rfl

/-! ## Which push a pop took -/

theorem Matching.push (m : Matching log S took left) (k : K) (v : V) :
    Matching (.push k v :: log) (Function.update S k (v :: S k)) took
      (Function.update left k (log.length :: left k)) where
  earlier := by
    intro j l w found
    obtain found | ⟨-, absurd⟩ := Event.at_cons.mp found
    · obtain ⟨before, source⟩ := m.earlier found
      exact ⟨before, Event.at_cons.mpr (.inl source)⟩
    · cases absurd
  once := by
    intro i j l l' w w' first second same
    obtain first | ⟨-, absurd⟩ := Event.at_cons.mp first
    · obtain second | ⟨-, absurd⟩ := Event.at_cons.mp second
      · exact m.once first second same
      · cases absurd
    · cases absurd
  held := by
    intro l
    have old : List.Forall₂ (fun i v' => Event.at (.push k v :: log) i = some (.push l v')) (left l) (S l) :=
      (m.held l).imp fun i v' found => Event.at_cons.mpr (.inl found)
    by_cases same : l = k
    · subst same
      rw [Function.update_self, Function.update_self]
      exact .cons (Event.at_cons.mpr (.inr ⟨rfl, rfl⟩)) old
    · rwa [Function.update_of_ne same, Function.update_of_ne same]
  distinct := by
    intro l
    by_cases same : l = k
    · subst same
      rw [Function.update_self, List.nodup_cons]
      refine ⟨fun member => ?_, m.distinct l⟩
      obtain ⟨w, found⟩ := m.pushed member
      exact absurd (Event.at_lt found) (by omega)
    · rw [Function.update_of_ne same]
      exact m.distinct l
  untaken := by
    intro i j l l' w member found
    obtain popped | ⟨-, absurd⟩ := Event.at_cons.mp found
    · by_cases same : l = k
      · subst same
        rw [Function.update_self, List.mem_cons] at member
        obtain rfl | member := member
        · have := Event.at_lt (m.earlier popped).2
          omega
        · exact m.untaken member popped
      · rw [Function.update_of_ne same] at member
        exact m.untaken member popped
    · cases absurd
  accounted := by
    intro i l w found
    obtain found | ⟨rfl, same⟩ := Event.at_cons.mp found
    · obtain member | ⟨j, w', popped, source⟩ := m.accounted found
      · left
        by_cases same : l = k
        · subst same
          rw [Function.update_self]
          exact List.mem_cons_of_mem _ member
        · rwa [Function.update_of_ne same]
      · exact .inr ⟨j, w', Event.at_cons.mpr (.inl popped), source⟩
    · cases same
      left
      rw [Function.update_self]
      exact List.mem_cons_self

theorem Matching.pop (m : Matching log S took left)
    (top : S k = v :: rest) (oldest : left k = source :: others) :
    Matching (.pop k v :: log) (Function.update S k rest)
      (Function.update took log.length source) (Function.update left k others) := by
  have heldAll := m.held k
  rw [top, oldest, List.forall₂_cons] at heldAll
  obtain ⟨atSource, heldOthers⟩ := heldAll
  have distinct := m.distinct k
  rw [oldest, List.nodup_cons] at distinct
  -- an older pop keeps the push it took
  have unmoved : ∀ {j : Nat} {e : Event K V}, Event.at log j = some e →
      Function.update took log.length source j = took j := by
    intro j e found
    rw [Function.update_of_ne (Nat.ne_of_lt (Event.at_lt found))]
  have stays : ∀ {i : Nat} {l : K}, i ∈ Function.update left k others l → i ∈ left l ∧ i ≠ source := by
    intro i l member
    by_cases same : l = k
    · subst same
      rw [Function.update_self] at member
      rw [oldest]
      refine ⟨List.mem_cons_of_mem _ member, ?_⟩
      rintro rfl
      exact distinct.1 member
    · rw [Function.update_of_ne same] at member
      refine ⟨member, ?_⟩
      rintro rfl
      obtain ⟨w, found⟩ := m.pushed member
      rw [atSource] at found
      cases found
      exact same rfl
  refine ⟨?_, ?_, ?_, ?_, ?_, ?_⟩
  · intro j l w found
    obtain found | ⟨rfl, same⟩ := Event.at_cons.mp found
    · obtain ⟨before, at'⟩ := m.earlier found
      rw [unmoved found]
      exact ⟨before, Event.at_cons.mpr (.inl at')⟩
    · cases same
      rw [Function.update_self]
      exact ⟨Event.at_lt atSource, Event.at_cons.mpr (.inl atSource)⟩
  · intro i j l l' w w' first second same
    obtain first | ⟨rfl, -⟩ := Event.at_cons.mp first <;>
      obtain second | ⟨rfl, -⟩ := Event.at_cons.mp second
    · rw [unmoved first, unmoved second] at same
      exact m.once first second same
    · rw [unmoved first, Function.update_self] at same
      exact absurd same (m.untaken (oldest ▸ List.mem_cons_self) first)
    · rw [unmoved second, Function.update_self] at same
      exact absurd same.symm (m.untaken (oldest ▸ List.mem_cons_self) second)
    · rfl
  · intro l
    by_cases same : l = k
    · subst same
      rw [Function.update_self, Function.update_self]
      exact heldOthers.imp fun i v' found => Event.at_cons.mpr (.inl found)
    · rw [Function.update_of_ne same, Function.update_of_ne same]
      exact (m.held l).imp fun i v' found => Event.at_cons.mpr (.inl found)
  · intro l
    by_cases same : l = k
    · subst same
      rw [Function.update_self]
      exact distinct.2
    · rw [Function.update_of_ne same]
      exact m.distinct l
  · intro i j l l' w member found
    obtain ⟨member, other⟩ := stays member
    obtain found | ⟨rfl, -⟩ := Event.at_cons.mp found
    · rw [unmoved found]
      exact m.untaken member found
    · rw [Function.update_self]
      exact other.symm
  · intro i l w found
    obtain found | ⟨-, absurd⟩ := Event.at_cons.mp found
    · obtain member | ⟨j, w', popped, from'⟩ := m.accounted found
      · by_cases same : l = k
        · subst same
          rw [oldest, List.mem_cons] at member
          obtain rfl | member := member
          · exact .inr ⟨log.length, v, Event.at_cons.mpr (.inr ⟨rfl, rfl⟩), Function.update_self ..⟩
          · left
            rwa [Function.update_self]
        · left
          rwa [Function.update_of_ne same]
      · exact .inr ⟨j, w', Event.at_cons.mpr (.inl popped), (unmoved popped).trans from'⟩
    · cases absurd

/-- In a legal log every pop takes one earlier push of the same value to the same
stack, no push is taken twice, and the pushes that are left are on the stacks. -/
theorem Legal.matching (legal : Legal log S) : ∃ took left, Matching log S took left := by
  induction legal with
  | nil =>
    refine ⟨id, fun _ => [], ?_⟩
    constructor <;> simp [Event.at]
  | push k v _ ih =>
    obtain ⟨took, left, m⟩ := ih
    exact ⟨took, _, m.push k v⟩
  | @pop log S k v rest _ top ih =>
    obtain ⟨took, left, m⟩ := ih
    have aligned := m.held k
    rw [top] at aligned
    obtain ⟨source, others, -, -, oldest⟩ := List.forall₂_cons_right_iff.mp aligned
    exact ⟨_, _, m.pop top oldest⟩

end Stacks
