import Mathlib.Data.Finset.Card

/-! Open addressing on a ring of `n` places. A key is sought from its home place on,
place after place, until it or a vacant place is met. What makes that right is that no
vacant place lies on the way from a stored key's home to its place, and that no key is
stored twice.

Taking a key out must not leave a vacant place on another key's way. The gap it leaves
is closed by walking on: a key met on the walk whose way leads over the gap is moved
into it, and the gap is then where that key was. `Gap` is the state in between: the gap
still counts as occupied, and the keys the walk has passed do not need it. -/
namespace Topomalloc.Probing
open Function

/-- The place after `i`. -/
def next (n i : Nat) : Nat := if i + 1 = n then 0 else i + 1

/-- The steps from `i` to `p`. -/
def dist (n i p : Nat) : Nat := if i ≤ p then p - i else p + n - i

/-- `q` lies on the way from `h` to `p`, before `p`. -/
def OnWay (h p q : Nat) : Prop := if h ≤ p then h ≤ q ∧ q < p else h ≤ q ∨ q < p

/-- `p` lies after `hole` and not after `j`. -/
def Passed (hole j p : Nat) : Prop := if hole ≤ j then hole < p ∧ p ≤ j else hole < p ∨ p ≤ j

variable {n i j p q h hole : Nat}

theorem next_cases (inside : i < n) : i + 1 = n ∧ next n i = 0 ∨ i + 1 < n ∧ next n i = i + 1 := by
  unfold next
  split <;> omega

theorem next_lt (inside : i < n) : next n i < n := by
  unfold next
  split <;> omega

theorem dist_lt (start : i < n) (stop : p < n) : dist n i p < n := by
  unfold dist
  split <;> omega

theorem dist_self : dist n i i = 0 := by simp [dist]

theorem not_onWay_self : ¬OnWay i i q := by
  simp only [OnWay, Nat.le_refl, if_true]
  omega

theorem onWay_start (apart : i ≠ p) : OnWay i p i := by
  unfold OnWay
  split <;> omega

/-- Going on from `p` to a place that was not on the way there stays within one round. -/
theorem dist_add_dist_lt (start : h < n) (middle : p < n) (stop : q < n) (off : ¬OnWay h p q) :
    dist n h p + dist n p q < n := by
  unfold OnWay at off
  unfold dist
  split at off <;> split <;> split <;> omega

/-- The way from a place on the way is the rest of it. -/
theorem OnWay.rest (first : OnWay h p i) (later : OnWay i p q) : OnWay h p q := by
  unfold OnWay at *
  split at first <;> split at later <;> split <;> omega

/-- The way begins with its first place. -/
theorem onWay_next (start : i < n) (stop : p < n) (inside : q < n) (apart : i ≠ p) :
    (OnWay i p q ↔ q = i ∨ OnWay (next n i) p q) ∧ dist n i p = dist n (next n i) p + 1 := by
  unfold OnWay next dist
  split <;> split <;> split <;> constructor <;> (try constructor) <;> omega

section Tables

variable {S K : Type}

/-- No vacant place on the way from a key's home to its place. -/
def Reach (key : S → Option K) (home : K → Nat) (n : Nat) (slots : Nat → S) : Prop :=
  ∀ p, p < n → ∀ k, key (slots p) = some k → ∀ q, q < n → OnWay (home k) p q → key (slots q) ≠ none

/-- No key in two of the places that are not the gap. -/
def SingleBut (key : S → Option K) (n : Nat) (slots : Nat → S) (hole : Option Nat) : Prop :=
  ∀ p q, p < n → q < n → some p ≠ hole → some q ≠ hole → ∀ k, key (slots p) = some k →
    key (slots q) = some k → p = q

/-- A table in which every stored key is found. -/
structure Sound (key : S → Option K) (home : K → Nat) (n : Nat) (slots : Nat → S) : Prop where
  reach : Reach key home n slots
  single : SingleBut key n slots none

variable {key : S → Option K} {home : K → Nat} {slots : Nat → S} {k : K} {s : S}

theorem update_occupied (filled : key s ≠ none) (old : key (slots q) ≠ none) :
    key (update slots p s q) ≠ none := by
  by_cases here : q = p
  · subst here
    rwa [update_self]
  · rwa [update_of_ne here]

/-! ## Seeking -/

/-- The walk from `i` stops first at `p`. -/
structure Stops (key : S → Option K) (n : Nat) (slots : Nat → S) (k : K) (i p : Nat) : Prop where
  inside : p < n
  here : key (slots p) = none ∨ key (slots p) = some k
  before : ∀ q, q < n → OnWay i p q → key (slots q) ≠ none ∧ key (slots q) ≠ some k

/-- A stored key is where its walk stops. -/
theorem Sound.stops_at (sound : Sound key home n slots) (inside : p < n)
    (stored : key (slots p) = some k) : Stops key n slots k (home k) p where
  inside := inside
  here := .inr stored
  before q below onWay := by
    refine ⟨sound.reach p inside k stored q below onWay, fun again => ?_⟩
    obtain rfl := sound.single p q inside below (by simp) (by simp) k stored again
    unfold OnWay at onWay
    split at onWay <;> omega

/-- From any place the walk meets a first vacant place, if there is one. -/
theorem exists_first_vacant (start : i < n) (inside : v < n) (vacant : key (slots v) = none) :
    ∃ e, e < n ∧ key (slots e) = none ∧ ∀ q, q < n → OnWay i e q → key (slots q) ≠ none := by
  induction far : dist n i v generalizing i with
  | zero =>
    refine ⟨v, inside, vacant, fun q below onWay => ?_⟩
    unfold dist at far
    unfold OnWay at onWay
    split at far <;> split at onWay <;> omega
  | succ d ih =>
    by_cases free : key (slots i) = none
    · exact ⟨i, start, free, fun q _ onWay => absurd onWay not_onWay_self⟩
    · have apart : i ≠ v := fun same => free (same ▸ vacant)
      obtain ⟨e, below, empty, before⟩ :=
        ih (next_lt start) (by have := (onWay_next start inside inside apart).2; omega)
      refine ⟨e, below, empty, fun q inRing onWay => ?_⟩
      have apart : i ≠ e := fun same => free (same ▸ empty)
      rcases ((onWay_next start below inRing apart).1).mp onWay with rfl | later
      · exact free
      · exact before q inRing later

/-- The walk for a key that is not stored stops at the first vacant place. -/
theorem exists_stops (start : i < n) (inside : v < n)
    (vacant : key (slots v) = none) (absent : ∀ q, q < n → key (slots q) ≠ some k) :
    ∃ e, key (slots e) = none ∧ Stops key n slots k i e := by
  obtain ⟨e, below, empty, before⟩ := exists_first_vacant start inside vacant
  exact ⟨e, empty, below, .inl empty, fun q inRing onWay => ⟨before q inRing onWay, absent q inRing⟩⟩

/-! ## Storing -/

/-- A key may be stored where its walk stopped. -/
theorem Sound.store (sound : Sound key home n slots) (stops : Stops key n slots k (home k) p)
    (named : key s = some k) (absent : ∀ q, q < n → q ≠ p → key (slots q) ≠ some k) :
    Sound key home n (update slots p s) := by
  have filled : key s ≠ none := by
    rw [named]
    exact Option.some_ne_none k
  constructor
  · intro r inside k' stored q below onWay
    by_cases here : r = p
    · subst here
      rw [update_self, named] at stored
      obtain rfl := Option.some.inj stored
      exact update_occupied filled (stops.before q below onWay).1
    · rw [update_of_ne here] at stored
      exact update_occupied filled (sound.reach r inside k' stored q below onWay)
  · intro a b insideA insideB _ _ k' storedA storedB
    by_cases hereA : a = p <;> by_cases hereB : b = p
    · rw [hereA, hereB]
    · subst hereA
      rw [update_self, named] at storedA
      rw [update_of_ne hereB, ← storedA] at storedB
      exact absurd storedB (absent b insideB hereB)
    · subst hereB
      rw [update_self, named] at storedB
      rw [update_of_ne hereA, ← storedB] at storedA
      exact absurd storedA (absent a insideA hereA)
    · rw [update_of_ne hereA] at storedA
      rw [update_of_ne hereB] at storedB
      exact sound.single a b insideA insideB (by simp) (by simp) k' storedA storedB

/-! ## Taking out -/

/-- What stands in some place other than the gap. -/
def Elsewhere (n : Nat) (slots : Nat → S) (hole : Nat) (s : S) : Prop := ∃ p, p < n ∧ p ≠ hole ∧ slots p = s

/-- The walk has passed the places up to `j`, and the gap is at `hole`; `others` is what
stood elsewhere when it began, and `free` the places that were vacant. -/
structure Gap (key : S → Option K) (home : K → Nat) (n : Nat) (others : S → Prop)
    (free : Nat → Prop) (slots : Nat → S) (hole j : Nat) : Prop where
  inside : hole < n
  filled : key (slots hole) ≠ none
  reach : Reach key home n slots
  single : SingleBut key n slots (some hole)
  passed : ∀ p, p < n → Passed hole j p → ∀ k, key (slots p) = some k → ¬OnWay (home k) p hole
  elsewhere : ∀ s, key s ≠ none → (Elsewhere n slots hole s ↔ others s)
  vacant : ∀ q, q < n → (key (slots q) = none ↔ free q)

theorem Sound.gap (sound : Sound key home n slots) (inside : p < n) (filled : key (slots p) ≠ none) :
    Gap key home n (Elsewhere n slots p) (fun q => key (slots q) = none) slots p p where
  inside := inside
  filled := filled
  reach := sound.reach
  single a b insideA insideB _ _ := sound.single a b insideA insideB (by simp) (by simp)
  passed q _ after := by
    simp only [Passed, Nat.le_refl, if_true] at after
    omega
  elsewhere _ _ := Iff.rfl
  vacant _ _ := Iff.rfl

variable {others : S → Prop} {free : Nat → Prop}

section
variable (gap : Gap key home n others free slots hole j)
include gap

/-- A key whose home lies after the gap stays. -/
theorem Gap.stay (below : j < n) (met : key (slots (next n j)) = some k)
    (after : Passed hole (next n j) (home k)) : Gap key home n others free slots hole (next n j) := by
  refine { gap with passed := fun p inside passed k' stored onWay => ?_ }
  by_cases last : p = next n j
  · subst last
    rw [met] at stored
    obtain rfl := Option.some.inj stored
    unfold Passed at after
    unfold OnWay at onWay
    split at after <;> split at onWay <;> omega
  · refine gap.passed p inside ?_ k' stored onWay
    have step := next_cases below
    unfold Passed at passed ⊢
    split at passed <;> split <;> omega

/-- A key whose way leads over the gap moves into it. -/
theorem Gap.move (below : j < n) (apart : next n j ≠ hole)
    (met : key (slots (next n j)) = some k) (before : ¬Passed hole (next n j) (home k)) :
    Gap key home n others free (update slots hole (slots (next n j))) (next n j) (next n j) := by
  have inRing := next_lt below
  have filled : key (slots (next n j)) ≠ none := by
    rw [met]
    exact Option.some_ne_none k
  refine ⟨inRing, update_occupied filled filled, ?_, ?_, fun p _ after => ?_, fun s named => ?_,
    fun q insideQ => ?_⟩
  · intro p inside k' stored q insideQ onWay
    by_cases here : p = hole
    · -- The moved key's new way is the beginning of its old one.
      subst here
      rw [update_self, met] at stored
      obtain rfl := Option.some.inj stored
      refine update_occupied filled (gap.reach (next n j) inRing _ met q insideQ ?_)
      unfold Passed at before
      unfold OnWay at onWay ⊢
      split at before <;> split at onWay <;> split <;> omega
    · rw [update_of_ne here] at stored
      exact update_occupied filled (gap.reach p inside k' stored q insideQ onWay)
  · -- What stood at the place met now stands in the old gap.
    have origin : ∀ a, a < n → some a ≠ some (next n j) → ∀ k', key (update slots hole (slots (next n j)) a) = some k' →
        ∃ a', a' < n ∧ some a' ≠ some hole ∧ key (slots a') = some k' ∧
          a' = if a = hole then next n j else a := by
      intro a insideA notA k' storedA
      by_cases here : a = hole
      · subst here
        rw [update_self] at storedA
        exact ⟨next n j, inRing, fun same => apart (Option.some.inj same), storedA, (if_pos rfl).symm⟩
      · rw [update_of_ne here] at storedA
        exact ⟨a, insideA, fun same => here (Option.some.inj same), storedA, (if_neg here).symm⟩
    intro a b insideA insideB notA notB k' storedA storedB
    obtain ⟨a', insideA', outA, storedA', fromA⟩ := origin a insideA notA k' storedA
    obtain ⟨b', insideB', outB, storedB', fromB⟩ := origin b insideB notB k' storedB
    have same := gap.single a' b' insideA' insideB' outA outB k' storedA' storedB'
    rw [Ne, Option.some.injEq] at notA notB
    rw [fromA, fromB] at same
    split at same <;> split at same <;> omega
  · simp only [Passed, Nat.le_refl, if_true] at after
    omega
  · rw [← gap.elsewhere s named]
    constructor
    · rintro ⟨p, inside, away, rfl⟩
      by_cases here : p = hole
      · subst here
        rw [update_self]
        exact ⟨next n j, inRing, apart, rfl⟩
      · rw [update_of_ne here]
        exact ⟨p, inside, here, rfl⟩
    · rintro ⟨p, inside, away, rfl⟩
      by_cases here : p = next n j
      · subst here
        exact ⟨hole, gap.inside, Ne.symm apart, update_self ..⟩
      · exact ⟨p, inside, here, update_of_ne away ..⟩
  · rw [← gap.vacant q insideQ]
    by_cases here : q = hole
    · subst here
      rw [update_self]
      exact iff_of_false filled gap.filled
    · rw [update_of_ne here]

/-- At a vacant place the walk ends and the gap may be cleared. -/
theorem Gap.close (below : j < n) (vacant : key (slots (next n j)) = none) (cleared : key s = none) :
    Sound key home n (update slots hole s) ∧
      (∀ s', key s' ≠ none → ((∃ p, p < n ∧ update slots hole s p = s') ↔ others s')) ∧
      ∀ q, q < n → (key (update slots hole s q) = none ↔ q = hole ∨ free q) := by
  have inRing := next_lt below
  have stored_of : ∀ {p k}, key (update slots hole s p) = some k → p ≠ hole ∧ key (slots p) = some k := by
    intro p k stored
    by_cases here : p = hole
    · subst here
      rw [update_self, cleared] at stored
      cases stored
    · exact ⟨here, by rwa [update_of_ne here] at stored⟩
  refine ⟨⟨?_, ?_⟩, fun s' named => ?_, fun q insideQ => ?_⟩
  · intro p inside k stored q insideQ onWay
    obtain ⟨here, there⟩ := stored_of stored
    have old := gap.reach p inside k there
    rw [update_of_ne]
    · exact old q insideQ onWay
    · -- The vacant place is not on the key's way, so a way over the gap was passed.
      rintro rfl
      refine gap.passed p inside ?_ k there onWay
      have offWay : ¬OnWay (home k) p (next n j) := fun onWay => old _ inRing onWay vacant
      have notVacant : p ≠ next n j := by
        rintro rfl
        rw [vacant] at there
        cases there
      have notGap : next n j ≠ q := fun same => gap.filled (same ▸ vacant)
      have step := next_cases below
      unfold OnWay at onWay offWay
      unfold Passed
      split at onWay <;> split at offWay <;> split <;> omega
  · intro a b insideA insideB _ _ k storedA storedB
    obtain ⟨hereA, storedA⟩ := stored_of storedA
    obtain ⟨hereB, storedB⟩ := stored_of storedB
    exact gap.single a b insideA insideB (by simpa using hereA) (by simpa using hereB) k storedA storedB
  · rw [← gap.elsewhere s' named]
    constructor
    · rintro ⟨p, inside, rfl⟩
      by_cases here : p = hole
      · subst here
        rw [update_self] at named
        exact absurd cleared named
      · exact ⟨p, inside, here, (update_of_ne here ..).symm⟩
    · rintro ⟨p, inside, away, rfl⟩
      exact ⟨p, inside, update_of_ne away ..⟩
  · by_cases here : q = hole
    · subst here
      rw [update_self]
      exact iff_of_true cleared (.inl rfl)
    · rw [update_of_ne here, gap.vacant q insideQ, or_iff_right here]

end

end Tables

end Topomalloc.Probing
