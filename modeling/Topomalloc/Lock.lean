import Mathlib.Data.Fintype.Order
import Topomalloc.Lib.Waits

/-! The ranked spinlocks and their order checker. A lock is named by an element
of an arbitrary type; its rank is the `u8` of its type. A thread is at a
position of `acquire` or `release`, and every call of the checker,
compare-exchange, load and store is one step. A failed assertion of the checker
ends the process, so there is no step. -/
namespace Topomalloc.Lock
open Function
open scoped List

/-! ## The checker -/

/-- A `u8`. -/
abbrev Rank := Fin 256

def maxHeld : Nat := 16

/-- The live entries of a thread's held-rank array. -/
structure Held where
  ranks : List Rank
  fits : ranks.length ≤ maxHeld

namespace Held
variable {h h' : Held} {rank : Rank}

def new : Held := ⟨[], Nat.zero_le _⟩

/-- `checker::enter`; `none` where one of its two assertions fails. -/
def enter (rank : Rank) (h : Held) : Option Held :=
  if h.ranks.all (· < rank) then
    if room : h.ranks.length < maxHeld then
      some ⟨h.ranks ++ [rank], by rw [List.length_append]; exact room⟩
    else none
  else none

/-- The search of `checker::leave`, from the top. -/
def topmost (rank : Rank) (h : Held) : Option Nat :=
  (List.range h.ranks.length).reverse.find? fun i => h.ranks[i]? == some rank

/-- `checker::leave`: the entry found is overwritten by the last one, which is
dropped. An entry that is missing is not an error. -/
def leave (rank : Rank) (h : Held) : Held :=
  match h.topmost rank with
  | some i => ⟨(h.ranks.set i (h.ranks.getLastD 0)).dropLast, by
      have fits := h.fits
      rw [List.length_dropLast, List.length_set]
      omega⟩
  | none => h

theorem enter_eq_some (entered : h.enter rank = some h') :
    (∀ r ∈ h.ranks, r < rank) ∧ h'.ranks = h.ranks ++ [rank] := by
  unfold enter at entered
  split at entered
  next lower =>
    split at entered
    · cases entered
      refine ⟨fun r member => ?_, rfl⟩
      simpa using List.all_eq_true.mp lower r member
    · contradiction
  next => contradiction

theorem topmost_spec (present : rank ∈ h.ranks) :
    ∃ i, h.topmost rank = some i ∧ ∃ inside : i < h.ranks.length, h.ranks[i] = rank := by
  obtain ⟨j, inside, here⟩ := List.mem_iff_getElem.mp present
  have found : (h.topmost rank).isSome := by
    unfold topmost
    rw [List.find?_isSome]
    exact ⟨j, by simpa using inside, by simp [List.getElem?_eq_getElem inside, here]⟩
  obtain ⟨i, at_i⟩ := Option.isSome_iff_exists.mp found
  have matching := List.find?_some at_i
  have bound : i < h.ranks.length := by
    simpa using List.mem_of_find?_eq_some at_i
  refine ⟨i, at_i, bound, ?_⟩
  simpa [bound] using matching

/-- One entry goes, wherever it stood. -/
theorem leave_perm (present : rank ∈ h.ranks) : rank :: (h.leave rank).ranks ~ h.ranks := by
  obtain ⟨i, found, inside, here⟩ := topmost_spec present
  have left : (h.leave rank).ranks = (h.ranks.set i (h.ranks.getLastD 0)).dropLast := by
    simp only [leave, found]
  rw [left]
  rcases List.eq_nil_or_concat h.ranks with none | ⟨init, last, shape⟩
  · rw [none] at present
    cases present
  · simp only [List.concat_eq_append] at shape
    simp only [shape, List.length_append, List.length_singleton] at inside here ⊢
    by_cases final : i = init.length
    · subst final
      have same : last = rank := by simpa using here
      rw [List.set_append_right _ _ (Nat.le_refl _)]
      simpa [same] using (List.perm_append_singleton rank init).symm
    · have early : i < init.length := by omega
      rw [List.getElem_append_left early] at here
      rw [List.set_append_left _ _ early, List.dropLast_concat, List.getLastD_concat]
      calc rank :: init.set i last
        _ ~ rank :: last :: init.eraseIdx i := (List.set_perm_cons_eraseIdx early last).cons rank
        _ ~ last :: rank :: init.eraseIdx i := List.Perm.swap _ _ _
        _ ~ last :: init := by
          rw [← here]
          exact (List.getElem_cons_eraseIdx_perm early).cons last
        _ ~ init ++ [last] := (List.perm_append_singleton last init).symm

end Held

/-! ## Locks and threads -/

/-- Where a thread is in `acquire` or `release`. -/
inductive Pc (ℓ : Type) where
  | idle
  -- the checker has let it pass; the compare-exchange is next
  | exchange (l : ℓ)
  -- the inner loop of relaxed loads
  | spin (l : ℓ)
  -- the unlocking store is done; `checker::leave` is next
  | unlocked (l : ℓ)
  deriving Repr, DecidableEq

/-- The lock a thread has told the checker about and does not hold. -/
def Pc.pending {ℓ : Type} : Pc ℓ → List ℓ
  | .idle => []
  | .exchange l | .spin l | .unlocked l => [l]

/-- `owned` are the locks whose `acquire` has returned and that are not unlocked
yet: what a thread's program may release. -/
structure World (τ ℓ : Type) where
  locked : ℓ → Bool
  held : τ → Held
  pc : τ → Pc ℓ
  owned : τ → List ℓ

def World.init {τ ℓ : Type} : World τ ℓ where
  locked := fun _ => false
  held := fun _ => Held.new
  pc := fun _ => .idle
  owned := fun _ => []

/-- `compareExchange false` is a spurious failure of the weak operation. -/
inductive Move (ℓ : Type) where
  | acquire (l : ℓ)
  | compareExchange (strong : Bool)
  | load
  | release (l : ℓ)
  | leave
  deriving Repr, DecidableEq

section Steps
variable {τ ℓ : Type} [DecidableEq τ] [DecidableEq ℓ] (rank : ℓ → Rank)

/-- One step of thread `t` at position `pc`. -/
def stepAt (w : World τ ℓ) (t : τ) : Pc ℓ → Move ℓ → Option (World τ ℓ)
  | .idle, .acquire l =>
    ((w.held t).enter (rank l)).map fun h =>
      { w with held := update w.held t h, pc := update w.pc t (.exchange l) }
  | .exchange l, .compareExchange strong =>
    some (if strong && !w.locked l then
        { w with
          locked := update w.locked l true
          owned := update w.owned t (l :: w.owned t)
          pc := update w.pc t .idle }
      else { w with pc := update w.pc t (.spin l) })
  | .spin l, .load =>
    some (if w.locked l then w else { w with pc := update w.pc t (.exchange l) })
  | .idle, .release l =>
    if l ∈ w.owned t then
      some { w with
        locked := update w.locked l false
        owned := update w.owned t ((w.owned t).erase l)
        pc := update w.pc t (.unlocked l) }
    else none
  | .unlocked l, .leave =>
    some { w with
      held := update w.held t ((w.held t).leave (rank l))
      pc := update w.pc t .idle }
  | _, _ => none

def step (w : World τ ℓ) (t : τ) (move : Move ℓ) : Option (World τ ℓ) := stepAt rank w t (w.pc t) move

/-- A schedule, thread by thread. -/
def run (w : World τ ℓ) : List (τ × Move ℓ) → Option (World τ ℓ)
  | [] => some w
  | (t, move) :: rest => (step rank w t move).bind fun w' => run w' rest

end Steps

/-! ## Who holds what -/

section Safety
variable {τ ℓ : Type} {rank : ℓ → Rank} {w w' : World τ ℓ} {t : τ} {move : Move ℓ}

def World.Spins (w : World τ ℓ) (t : τ) (l : ℓ) : Prop := w.pc t = .exchange l ∨ w.pc t = .spin l

def World.Owns (w : World τ ℓ) (t : τ) (l : ℓ) : Prop := l ∈ w.owned t

structure Safe (rank : ℓ → Rank) (w : World τ ℓ) : Prop where
  exclusive : ∀ l t u, w.Owns t l → w.Owns u l → t = u
  locked : ∀ l, w.locked l = true ↔ ∃ t, w.Owns t l
  once : ∀ t, (w.owned t).Nodup
  recorded : ∀ t, (w.held t).ranks ~ (w.owned t ++ (w.pc t).pending).map rank
  ranked : Waits.Ranked w.Spins w.Owns rank

theorem Safe.init : Safe rank (World.init : World τ ℓ) := by
  constructor
  · intro l t u mine
    cases mine
  · intro l
    constructor
    · intro held
      cases held
    · rintro ⟨t, mine⟩
      cases mine
  · intro t
    exact List.nodup_nil
  · intro t
    exact List.Perm.nil
  · rintro t l m (at_l | at_l) <;> cases at_l

variable [DecidableEq τ] {l : ℓ}

/-- A spinning thread stays at the same lock. -/
theorem Safe.goto (h : Safe rank w) (spins : w.Spins t l)
    (still : p = .exchange l ∨ p = .spin l) : Safe rank { w with pc := update w.pc t p } := by
  have pending : p.pending = (w.pc t).pending := by
    rcases spins with at_l | at_l <;> rcases still with rfl | rfl <;> rw [at_l] <;> rfl
  refine ⟨h.exclusive, h.locked, h.once, fun u => ?_, ?_⟩
  · by_cases me : u = t
    · subst me
      simpa [pending] using h.recorded u
    · simpa [me] using h.recorded u
  · intro u l' m wants had
    by_cases me : u = t
    · subst me
      have same : l' = l := by
        rcases still with rfl | rfl <;> simpa [World.Spins, eq_comm] using wants
      exact same ▸ h.ranked spins had
    · exact h.ranked (by simpa [World.Spins, me] using wants) had

/-- The checker's assertion is what ranks the wanted lock above the held ones. -/
theorem Safe.acquire (h : Safe rank w) (idle : w.pc t = .idle)
    (entered : (w.held t).enter (rank l) = some held) :
    Safe rank { w with held := update w.held t held, pc := update w.pc t (.exchange l) } := by
  obtain ⟨lower, pushed⟩ := Held.enter_eq_some entered
  have recorded := h.recorded t
  rw [idle] at recorded
  refine ⟨h.exclusive, h.locked, h.once, fun u => ?_, ?_⟩
  · by_cases me : u = t
    · subst me
      simp only [update_self, pushed, Pc.pending, List.map_append, List.map_cons, List.map_nil]
      apply List.Perm.append_right
      simpa [Pc.pending] using recorded
    · simpa [me] using h.recorded u
  · intro u l' m wants had
    by_cases me : u = t
    · subst me
      have same : l' = l := by simpa [World.Spins, eq_comm] using wants
      have member : rank m ∈ (w.held u).ranks := by
        rw [recorded.mem_iff]
        exact List.mem_map_of_mem (List.mem_append_left _ had)
      exact same ▸ lower _ member
    · exact h.ranked (by simpa [World.Spins, me] using wants) had

theorem Safe.leave (h : Safe rank w) (at_l : w.pc t = .unlocked l) :
    Safe rank { w with
      held := update w.held t ((w.held t).leave (rank l))
      pc := update w.pc t .idle } := by
  refine ⟨h.exclusive, h.locked, h.once, fun u => ?_, ?_⟩
  · by_cases me : u = t
    · subst me
      have recorded := h.recorded u
      rw [at_l] at recorded
      have present : rank l ∈ (w.held u).ranks := by
        rw [recorded.mem_iff]
        exact List.mem_map_of_mem (List.mem_append_right _ (List.mem_singleton.mpr rfl))
      have rest := (Held.leave_perm present).trans recorded
      simp only [update_self, Pc.pending, List.append_nil, List.map_append, List.map_cons,
        List.map_nil] at rest ⊢
      exact (rest.trans (List.perm_append_singleton _ _)).cons_inv
    · simpa [me] using h.recorded u
  · intro u l' m wants had
    by_cases me : u = t
    · subst me
      simp [World.Spins] at wants
    · exact h.ranked (by simpa [World.Spins, me] using wants) had

variable [DecidableEq ℓ]

/-- The compare-exchange succeeds on a lock nobody owns. -/
theorem Safe.take (h : Safe rank w) (at_l : w.pc t = .exchange l) (free : w.locked l = false) :
    Safe rank { w with
      locked := update w.locked l true
      owned := update w.owned t (l :: w.owned t)
      pc := update w.pc t .idle } := by
  have nobody : ∀ u, ¬ w.Owns u l := by
    intro u mine
    have taken := (h.locked l).mpr ⟨u, mine⟩
    rw [free] at taken
    contradiction
  -- the owners afterwards
  have owns : ∀ u m, m ∈ update w.owned t (l :: w.owned t) u ↔ (u = t ∧ m = l) ∨ w.Owns u m := by
    intro u m
    by_cases me : u = t
    · subst me
      simp [World.Owns]
    · simp [me, World.Owns]
  constructor
  · intro m u v mine yours
    rcases (owns u m).mp mine with ⟨me, same⟩ | before
    · rcases (owns v m).mp yours with ⟨me', -⟩ | before'
      · rw [me, me']
      · exact absurd (same ▸ before') (nobody v)
    · rcases (owns v m).mp yours with ⟨-, same⟩ | before'
      · exact absurd (same ▸ before) (nobody u)
      · exact h.exclusive m u v before before'
  · intro m
    by_cases same : m = l
    · subst same
      simpa using ⟨t, (owns t m).mpr (Or.inl ⟨rfl, rfl⟩)⟩
    · change update w.locked l true m = true ↔ _
      rw [update_of_ne same, h.locked m]
      constructor
      · rintro ⟨u, mine⟩
        exact ⟨u, (owns u m).mpr (Or.inr mine)⟩
      · rintro ⟨u, mine⟩
        exact ⟨u, ((owns u m).mp mine).resolve_left fun here => same here.2⟩
  · intro u
    by_cases me : u = t
    · subst me
      simpa using ⟨nobody u, h.once u⟩
    · simpa [me] using h.once u
  · intro u
    by_cases me : u = t
    · subst me
      have recorded := h.recorded u
      rw [at_l] at recorded
      simp only [update_self, Pc.pending, List.append_nil, List.map_append, List.map_cons,
        List.map_nil] at recorded ⊢
      exact recorded.trans (List.perm_append_singleton _ _)
    · simpa [me] using h.recorded u
  · intro u l' m wants had
    by_cases me : u = t
    · subst me
      simp [World.Spins] at wants
    · have mine : w.Owns u m := ((owns u m).mp had).resolve_left fun here => me here.1
      exact h.ranked (by simpa [World.Spins, me] using wants) mine

/-- The unlocking store: the rank stays with the checker. -/
theorem Safe.unlock (h : Safe rank w) (idle : w.pc t = .idle) (mine : w.Owns t l) :
    Safe rank { w with
      locked := update w.locked l false
      owned := update w.owned t ((w.owned t).erase l)
      pc := update w.pc t (.unlocked l) } := by
  have owns : ∀ u m, m ∈ update w.owned t ((w.owned t).erase l) u ↔ m ≠ l ∧ w.Owns u m := by
    intro u m
    by_cases me : u = t
    · subst me
      rw [update_self]
      exact (h.once u).mem_erase_iff
    · rw [update_of_ne me]
      constructor
      · intro theirs
        refine ⟨?_, theirs⟩
        rintro rfl
        exact me (h.exclusive m u t theirs mine)
      · exact And.right
  constructor
  · intro m u v first second
    exact h.exclusive m u v ((owns u m).mp first).2 ((owns v m).mp second).2
  · intro m
    by_cases same : m = l
    · subst same
      simp only [update_self, Bool.false_eq_true, false_iff, not_exists]
      intro u had
      exact ((owns u m).mp had).1 rfl
    · change update w.locked l false m = true ↔ _
      rw [update_of_ne same, h.locked m]
      constructor
      · rintro ⟨u, had⟩
        exact ⟨u, (owns u m).mpr ⟨same, had⟩⟩
      · rintro ⟨u, had⟩
        exact ⟨u, ((owns u m).mp had).2⟩
  · intro u
    by_cases me : u = t
    · subst me
      simpa using (h.once u).erase l
    · simpa [me] using h.once u
  · intro u
    by_cases me : u = t
    · subst me
      have recorded := h.recorded u
      rw [idle] at recorded
      simp only [update_self, Pc.pending, List.append_nil] at recorded ⊢
      refine recorded.trans (List.Perm.map rank ?_)
      exact (List.perm_cons_erase mine).trans (List.perm_append_singleton _ _).symm
    · simpa [me] using h.recorded u
  · intro u l' m wants had
    by_cases me : u = t
    · subst me
      simp [World.Spins] at wants
    · exact h.ranked (by simpa [World.Spins, me] using wants) ((owns u m).mp had).2

theorem Safe.step (h : Safe rank w) (stepped : step rank w t move = some w') : Safe rank w' := by
  unfold Lock.step at stepped
  cases at_t : w.pc t with
  | idle =>
    rw [at_t] at stepped
    cases move with
    | acquire l =>
      obtain ⟨held, entered, rfl⟩ := Option.map_eq_some_iff.mp stepped
      exact h.acquire at_t entered
    | release l =>
      simp only [stepAt] at stepped
      split at stepped
      next mine =>
        cases stepped
        exact h.unlock at_t mine
      next => contradiction
    | _ => cases stepped
  | exchange l =>
    rw [at_t] at stepped
    cases move with
    | compareExchange strong =>
      cases stepped
      split
      next free =>
        rw [Bool.and_eq_true, Bool.not_eq_true'] at free
        exact h.take at_t free.2
      next => exact h.goto (Or.inl at_t) (Or.inr rfl)
    | _ => cases stepped
  | spin l =>
    rw [at_t] at stepped
    cases move with
    | load =>
      cases stepped
      split
      · exact h
      · exact h.goto (Or.inr at_t) (Or.inl rfl)
    | _ => cases stepped
  | unlocked l =>
    rw [at_t] at stepped
    cases move with
    | leave =>
      cases stepped
      exact h.leave at_t
    | _ => cases stepped

theorem Safe.run (h : Safe rank w) (ran : run rank w schedule = some w') : Safe rank w' := by
  induction schedule generalizing w with
  | nil =>
    cases ran
    exact h
  | cons turn rest ih =>
    obtain ⟨middle, stepped, ran⟩ := Option.bind_eq_some_iff.mp ran
    exact ih (h.step stepped) ran

/-- Threads that spin on a lock another thread holds. -/
def World.WaitsFor (w : World τ ℓ) : τ → τ → Prop := Waits.WaitsFor w.Spins w.Owns

/-- In every state of every interleaving that the checker lets pass, a lock has
one owner at most, the checker has recorded for each thread the ranks of what it
holds, spins on or has just unlocked, and nobody waits in a circle: behind a
thread that spins on a held lock there is an owner whose way is free. -/
theorem ranked_locks_progress {schedule : List (τ × Move ℓ)}
    (ran : Lock.run rank World.init schedule = some w) :
    (∀ l t u, w.Owns t l → w.Owns u l → t = u) ∧ (∀ l, w.locked l = true ↔ ∃ t, w.Owns t l) ∧
      (∀ t, ((w.held t).ranks : Multiset Rank) =
        ((w.owned t).map rank : Multiset Rank) + ((w.pc t).pending.map rank : Multiset Rank)) ∧
      (∀ t, ¬ Relation.TransGen w.WaitsFor t t) ∧
      ∀ t u, w.WaitsFor t u → ∃ v, Relation.TransGen w.WaitsFor t v ∧ (∃ l, w.Owns v l) ∧
        ∀ l, w.Spins v l → w.locked l = false := by
  have safe : Safe rank w := Safe.init.run ran
  refine ⟨safe.exclusive, safe.locked, fun t => ?_, fun t => Waits.acyclic safe.ranked, ?_⟩
  · rw [Multiset.coe_add, ← List.map_append]
    exact Quotient.sound (safe.recorded t)
  · intro t u waits
    obtain ⟨v, chain, owner, last⟩ := Waits.ends safe.ranked waits
    refine ⟨v, chain, owner, fun l spins => ?_⟩
    by_contra held
    obtain ⟨x, had⟩ := (safe.locked l).mp (by simpa using held)
    exact last x ⟨l, spins, had⟩

/-- In every state of every interleaving the checker stops an `acquire` exactly if
the thread owns a lock of that rank or a higher one, or as many locks as it can
record. So it never stops a thread that keeps to the order, and always one that
asks for a lock it owns. -/
theorem acquire_refused_iff {schedule : List (τ × Move ℓ)}
    (ran : Lock.run rank World.init schedule = some w) (idle : w.pc t = .idle) :
    step rank w t (.acquire l) = none ↔
      (∃ m, w.Owns t m ∧ rank l ≤ rank m) ∨ maxHeld ≤ (w.owned t).length := by
  have recorded := (Safe.init.run ran).recorded t
  rw [idle, Pc.pending, List.append_nil] at recorded
  have depth := recorded.length_eq
  rw [List.length_map] at depth
  have ordered : (w.held t).ranks.all (· < rank l) = true ↔ ∀ m, w.Owns t m → rank m < rank l := by
    simp only [List.all_eq_true, decide_eq_true_eq, recorded.mem_iff, List.forall_mem_map]
    rfl
  simp only [step, idle, stepAt, Option.map_eq_none_iff, Held.enter, depth]
  split
  next below =>
    have free : ¬∃ m, w.Owns t m ∧ rank l ≤ rank m := by
      rintro ⟨m, mine, above⟩
      exact absurd (ordered.mp below m mine) (not_lt.mpr above)
    simp [free]
  next above =>
    rw [ordered] at above
    simp only [not_forall, not_lt, exists_prop] at above
    exact iff_of_true rfl (.inl above)

end Safety

instance {τ ℓ : Type} [DecidableEq ℓ] (w : World τ ℓ) (t : τ) (l : ℓ) : Decidable (w.Spins t l) :=
  inferInstanceAs (Decidable (_ ∨ _))

instance {τ ℓ : Type} [DecidableEq ℓ] (w : World τ ℓ) (t : τ) (l : ℓ) : Decidable (w.Owns t l) :=
  inferInstanceAs (Decidable (l ∈ w.owned t))

/-- Two locks, each ranked by its number. -/
def twoRanks : Fin 2 → Rank := Fin.castLE (by decide)

/-- Thread 0 takes lock 0 and finds lock 1 taken by thread 2, which lets go of
it; thread 1 finds lock 0 taken. -/
def contended : List (Fin 3 × Move (Fin 2)) :=
  [(0, .acquire 0), (0, .compareExchange true), (2, .acquire 1), (2, .compareExchange true),
   (0, .acquire 1), (0, .compareExchange true),
   (1, .acquire 0), (1, .compareExchange true),
   (2, .release 1), (2, .leave)]

theorem ranked_locks_progress_contended :
    ∃ w, run twoRanks World.init contended = some w ∧ w.WaitsFor 1 0 ∧
      ¬ Relation.TransGen w.WaitsFor 1 1 := by
  obtain ⟨w, ran⟩ : ∃ w, run twoRanks World.init contended = some w := Option.isSome_iff_exists.mp (by decide)
  have waits : ∀ w ∈ run twoRanks World.init contended, w.Spins 1 0 ∧ w.Owns 0 0 := by decide
  exact ⟨w, ran, ⟨0, waits w ran⟩, (ranked_locks_progress ran).2.2.2.1 1⟩

/-- The only owner can itself be in the spin loop: on a lock that has become
free and that it has not looked at again. -/
theorem sole_owner_spins :
    ∃ w, run twoRanks World.init contended = some w ∧ w.Spins 1 0 ∧ w.Owns 0 0 ∧
      ∀ t l, w.Owns t l → w.Spins t 1 := by
  obtain ⟨w, ran⟩ : ∃ w, run twoRanks World.init contended = some w := Option.isSome_iff_exists.mp (by decide)
  have spinning : ∀ w ∈ run twoRanks World.init contended,
      w.Spins 1 0 ∧ w.Owns 0 0 ∧ ∀ t l, w.Owns t l → w.Spins t 1 := by decide
  exact ⟨w, ran, spinning w ran⟩

/-- A thread that owns a lock is refused it, and may take one of a higher rank. -/
theorem acquire_refused_iff_owner : ∃ w, run twoRanks World.init (contended.take 2) = some w ∧
    w.Owns 0 0 ∧ step twoRanks w 0 (.acquire 0) = none ∧ step twoRanks w 0 (.acquire 1) ≠ none := by
  obtain ⟨w, ran⟩ : ∃ w, run twoRanks World.init (contended.take 2) = some w :=
    Option.isSome_iff_exists.mp (by decide)
  have owner : ∀ w ∈ run twoRanks World.init (contended.take 2), w.pc 0 = .idle ∧ w.owned 0 = [0] := by
    decide
  obtain ⟨idle, owned⟩ := owner w ran
  have owns : w.Owns 0 0 := by simp [World.Owns, owned]
  refine ⟨w, ran, owns, (acquire_refused_iff ran idle).mpr (.inl ⟨0, owns, Nat.le_refl _⟩),
    mt (acquire_refused_iff ran idle).mp ?_⟩
  simp [World.Owns, owned, maxHeld, twoRanks]

end Topomalloc.Lock
