import Topomalloc.Huge.Release

/-! The two release calls among other callers. Each call takes the backend's
lock anew for every look at the filler and for every subrelease, and between
two of its turns any other call may run. A turn here is one locked section with
the local steps before it; where the code goes on without the lock the machine
allows a turn of its own, which only adds interleavings. -/
namespace Topomalloc
open Function Bitmap
namespace HugePageBackend

/-- Which of the two calls runs, with its arguments. -/
inductive Plan
  | excess (reserve maxRelease : Nat)
  | within (budget : Nat)

/-- The locals of the outer loop: `from` is `start`. -/
structure Walk where
  released : Nat
  releases : Nat
  kept : Nat
  start : Nat

/-- The locals of `release_hugepage_runs`, and the walk to go back to. -/
structure Inner where
  walk : Walk
  idx : Nat
  base : Nat
  maxBytes : Nat
  released : Nat
  searchFrom : Nat

/-- Where a release call stands between two turns. -/
inductive Phase
  | seek (k : Walk)
  | runs (r : Inner)
  | give (r : Inner) (off pages : Nat)
  | done (released : Nat)

/-- The outer loop takes over what the inner one released. -/
def Inner.leave (r : Inner) : Phase := .seek { r.walk with released := r.walk.released + r.released }

variable {σ : Type} (P : Provider σ)

/-- Look for the next empty hugepage and decide what to do with it. -/
def seekTurn (plan : Plan) (f : HugePageFiller) (k : Walk) : Phase :=
  match plan with
  | .excess reserve maxRelease =>
    if k.releases ≥ maxRelease then .done k.released
    else match f.nextEmptyBacked k.start with
      | none => .done k.released
      | some (idx, base, _) =>
        if k.kept < reserve then .seek { k with kept := k.kept + 1, start := idx + 1 }
        else .runs ⟨{ k with releases := k.releases + 1, start := idx + 1 }, idx, base, usizeMax, 0, 0⟩
  | .within budget =>
    match f.nextEmptyBacked k.start with
    | none => .done k.released
    | some (idx, base, committed) =>
      let remaining := budget - k.released
      if committed * pageSize > remaining then .seek { k with start := idx + 1 }
      else .runs ⟨{ k with start := idx + 1 }, idx, base, remaining, 0, 0⟩

/-- Look for the next committed run and trim it to the budget. -/
def runsTurn (f : HugePageFiller) (r : Inner) : Phase :=
  let remaining := r.maxBytes - r.released
  if remaining = 0 then r.leave
  else match f.nextCommittedRun r.idx r.searchFrom with
    | none => r.leave
    | some (off, pages) =>
      let budgetPages := remaining / pageSize
      if budgetPages = 0 then r.leave
      else .give { r with searchFrom := off + pages } off (min pages budgetPages)

/-- A release call among others: its phase, the backend and the provider. -/
structure Releasing (σ : Type) where
  phase : Phase
  backend : HugePageBackend
  world : σ

/-- One turn of the release call. -/
def ownTurn (plan : Plan) (s : Releasing σ) : Releasing σ :=
  match s.phase with
  | .seek k => { s with phase := seekTurn plan s.backend.filler k }
  | .runs r => { s with phase := runsTurn s.backend.filler r }
  | .give r off pages =>
    let (bytes, backend, world) := s.backend.subrelease P (r.base + off * pageSize) pages true s.world
    { phase := .runs { r with released := r.released + bytes }, backend, world }
  | .done _ => s

/-- A turn of the release call, or a call of somebody else. -/
inductive Event
  | own
  | other (call : Call)

def Event.isOwn : Event → Bool
  | .own => true
  | .other _ => false

def turn (plan : Plan) (s : Releasing σ) : Event → Releasing σ
  | .own => ownTurn P plan s
  | .other call =>
    { s with backend := (step P (s.backend, s.world) call).1
             world := (step P (s.backend, s.world) call).2 }

/-- The call as it starts. -/
def begin (g : HugePageBackend) (w : σ) : Releasing σ := ⟨.seek ⟨0, 0, 0, 0⟩, g, w⟩

def interleave (plan : Plan) (s : Releasing σ) (events : List Event) : Releasing σ :=
  events.foldl (turn P plan) s

theorem ownTurn_give (plan : Plan) (r : Inner) (off pages : Nat) (g : HugePageBackend) (w : σ) :
    ownTurn P plan ⟨.give r off pages, g, w⟩ =
      let answer := g.subrelease P (r.base + off * pageSize) pages true w
      ⟨.runs { r with released := r.released + answer.1 }, answer.2.1, answer.2.2⟩ := rfl

variable {P} {plan : Plan} {s : Releasing σ} {g : HugePageBackend} {w : σ} {events : List Event}
  {budget c : Nat} {f : HugePageFiller}

/-! ## The byte budget -/

/-- What is released, and what the turn under way may still release, stays
within the budget. -/
def InBudget (budget : Nat) : Phase → Prop
  | .seek k => k.released ≤ budget
  | .runs r => r.walk.released + r.maxBytes ≤ budget ∧ r.released ≤ r.maxBytes
  | .give r _ pages =>
    r.walk.released + r.maxBytes ≤ budget ∧ r.released + pages * pageSize ≤ r.maxBytes
  | .done released => released ≤ budget

/-- A subrelease gives back at most what it was asked for. -/
theorem subrelease_le (g : HugePageBackend) (base pages : Nat) (pressureHigh : Bool) (w : σ) :
    (g.subrelease P base pages pressureHigh w).1 ≤ pages * pageSize := by
  unfold subrelease
  split
  · exact Nat.zero_le _
  split
  · exact Nat.zero_le _
  next sr filler ran =>
    dsimp only
    split
    · exact Nat.zero_le _
    · split
      · exact Nat.zero_le _
      · exact Nat.le_of_eq (HugePageFiller.subrelease_len ran)

theorem seekTurn_inBudget (h : InBudget budget (.seek k)) :
    InBudget budget (seekTurn (.within budget) f k) := by
  have spent : k.released ≤ budget := h
  unfold seekTurn
  cases f.nextEmptyBacked k.start with
  | none => exact spent
  | some next =>
    dsimp only
    split
    · exact spent
    · exact ⟨by dsimp only; omega, Nat.zero_le _⟩

theorem Inner.leave_inBudget (h : InBudget budget (.runs r)) : InBudget budget r.leave := by
  obtain ⟨share, spent⟩ := h
  simp only [leave, InBudget]
  omega

theorem runsTurn_inBudget (h : InBudget budget (.runs r)) : InBudget budget (runsTurn f r) := by
  unfold runsTurn
  dsimp only
  iterate 3
    split
    · exact Inner.leave_inBudget h
  next off pages _ _ =>
    refine ⟨h.1, ?_⟩
    have spent := h.2
    have trimmed : min pages ((r.maxBytes - r.released) / pageSize) * pageSize ≤ r.maxBytes - r.released :=
      (Nat.mul_le_mul_right _ (Nat.min_le_right ..)).trans (Nat.div_mul_le_self ..)
    dsimp only
    omega

theorem turn_inBudget (h : InBudget budget s.phase) (e : Event) :
    InBudget budget (turn P (.within budget) s e).phase := by
  cases e with
  | other call => exact h
  | own =>
    obtain ⟨phase, g, w⟩ := s
    cases phase with
    | seek k => exact seekTurn_inBudget h
    | runs r => exact runsTurn_inBudget h
    | give r off pages =>
      have given := subrelease_le (P := P) g (r.base + off * pageSize) pages true w
      obtain ⟨share, spent⟩ := h
      rw [turn, ownTurn_give]
      refine ⟨share, ?_⟩
      dsimp only
      omega
    | done released => exact h

/-- Whatever runs between its turns, the byte-bounded call stays in its budget. -/
theorem interleave_inBudget (h : InBudget budget s.phase) :
    InBudget budget (interleave P (.within budget) s events).phase := by
  induction events generalizing s with
  | nil => exact h
  | cons e events ih => exact ih (turn_inBudget h e)

/-! ## Termination -/

/-- How many turns a call may still take. Each turn moves on to a later
hugepage, or to later pages of one, or leaves it. -/
def turnsLeft : Phase → Nat
  | .seek k => (NIL - k.start) * (2 * pagesPerHugepage + 2) + 1
  | .runs r =>
    (NIL - r.walk.start) * (2 * pagesPerHugepage + 2) + 2 * (pagesPerHugepage - r.searchFrom) + 2
  | .give r _ _ =>
    (NIL - r.walk.start) * (2 * pagesPerHugepage + 2) + 2 * (pagesPerHugepage - r.searchFrom) + 3
  | .done _ => 0

theorem seekTurn_fewer (settled : f.Settled) (k : Walk) :
    turnsLeft (seekTurn plan f k) < turnsLeft (.seek k) := by
  have later : ∀ idx base committed, f.nextEmptyBacked k.start = some (idx, base, committed) →
      (NIL - (idx + 1)) * (2 * pagesPerHugepage + 2) + (2 * pagesPerHugepage + 2) ≤
        (NIL - k.start) * (2 * pagesPerHugepage + 2) := by
    intro idx base committed found
    obtain ⟨lower, upper⟩ := HugePageFiller.nextEmptyBacked_bounds found
    have bound := settled.wf.bound
    have fits := settled.wf.real
    rw [← Nat.succ_mul]
    exact Nat.mul_le_mul_right _ (by omega)
  have ended : turnsLeft (.done k.released) < turnsLeft (.seek k) := Nat.succ_pos _
  unfold seekTurn
  cases found : f.nextEmptyBacked k.start with
  | none =>
    cases plan with
    | excess reserve maxRelease =>
      dsimp only
      split
      · exact ended
      · exact ended
    | within budget => exact ended
  | some next =>
    obtain ⟨idx, base, committed⟩ := next
    have fewer := later idx base committed found
    cases plan with
    | excess reserve maxRelease =>
      dsimp only
      split
      · exact ended
      split
      · simp only [turnsLeft]
        omega
      · simp only [turnsLeft]
        omega
    | within budget =>
      dsimp only
      split
      · simp only [turnsLeft]
        omega
      · simp only [turnsLeft]
        omega

theorem runsTurn_fewer (f : HugePageFiller) (r : Inner) : turnsLeft (runsTurn f r) < turnsLeft (.runs r) := by
  have left : turnsLeft r.leave < turnsLeft (.runs r) := by
    simp only [turnsLeft, Inner.leave]
    omega
  unfold runsTurn
  dsimp only
  split
  · exact left
  cases found : f.nextCommittedRun r.idx r.searchFrom with
  | none => exact left
  | some run =>
    obtain ⟨off, pages⟩ := run
    obtain ⟨lower, some_page, fits⟩ := HugePageFiller.nextCommittedRun_bounds found
    dsimp only
    split
    · exact left
    · simp only [turnsLeft]
      omega

theorem ownTurn_fewer (settled : s.backend.filler.Settled) (running : turnsLeft s.phase ≠ 0) :
    turnsLeft (ownTurn P plan s).phase < turnsLeft s.phase := by
  obtain ⟨phase, g, w⟩ := s
  cases phase with
  | seek k => exact seekTurn_fewer settled k
  | runs r => exact runsTurn_fewer g.filler r
  | give r off pages =>
    rw [ownTurn_give]
    simp only [turnsLeft]
    omega
  | done released => exact absurd rfl running

theorem turn_settled (settled : s.backend.filler.Settled) (e : Event) :
    (turn P plan s e).backend.filler.Settled := by
  cases e with
  | other call => exact step_settled P (s := (s.backend, s.world)) settled call
  | own =>
    obtain ⟨phase, g, w⟩ := s
    cases phase with
    | seek k => exact settled
    | runs r => exact settled
    | give r off pages => exact (subrelease_rests settled ..).settled
    | done released => exact settled

/-- A call that got as many turns as it had left has returned. -/
theorem interleave_returns (settled : s.backend.filler.Settled)
    (enough : turnsLeft s.phase ≤ events.countP Event.isOwn) :
    ∃ released, (interleave P plan s events).phase = .done released := by
  induction events generalizing s with
  | nil =>
    obtain ⟨phase, g, w⟩ := s
    cases phase with
    | done released => exact ⟨released, rfl⟩
    | seek k => simp [turnsLeft] at enough
    | runs r => simp [turnsLeft] at enough
    | give r off pages => simp [turnsLeft] at enough
  | cons e events ih =>
    refine ih (turn_settled settled e) ?_
    cases e with
    | other call =>
      rw [List.countP_cons_of_neg (by simp [Event.isOwn])] at enough
      exact enough
    | own =>
      rw [List.countP_cons_of_pos (by simp [Event.isOwn])] at enough
      by_cases running : turnsLeft s.phase = 0
      · have stays : turnsLeft (turn P plan s .own).phase = 0 := by
          obtain ⟨phase, g, w⟩ := s
          cases phase with
          | done released => rfl
          | _ => simp [turnsLeft] at running
        omega
      · have fewer : turnsLeft (turn P plan s .own).phase < turnsLeft s.phase :=
          ownTurn_fewer settled running
        omega

/-! ## Without other callers -/

/-- The inner loop, turn by turn. -/
theorem runs_alone (plan : Plan) (r : Inner) (fuel : Nat) (enough : pagesPerHugepage - r.searchFrom < fuel)
    (g : HugePageBackend) (w : σ) :
    ∃ n, (ownTurn P plan)^[n] ⟨.runs r, g, w⟩ =
      let answer := releaseRunsFrom P r.idx r.base r.maxBytes fuel r.released r.searchFrom g w
      ⟨.seek { r.walk with released := r.walk.released + answer.1 }, answer.2.1, answer.2.2⟩ := by
  induction fuel generalizing r g w with
  | zero => omega
  | succ fuel ih =>
    have first : ownTurn P plan ⟨.runs r, g, w⟩ = ⟨runsTurn g.filler r, g, w⟩ := rfl
    unfold releaseRunsFrom
    unfold runsTurn at first
    dsimp only at first ⊢
    by_cases spent : r.maxBytes - r.released = 0
    · rw [if_pos spent] at first ⊢
      exact ⟨1, first⟩
    rw [if_neg spent] at first ⊢
    cases found : g.filler.nextCommittedRun r.idx r.searchFrom with
    | none =>
      rw [found] at first
      exact ⟨1, first⟩
    | some run =>
      obtain ⟨off, pages⟩ := run
      obtain ⟨lower, some_page, fits⟩ := HugePageFiller.nextCommittedRun_bounds found
      rw [found] at first
      dsimp only at first ⊢
      by_cases dust : (r.maxBytes - r.released) / pageSize = 0
      · rw [if_pos dust] at first ⊢
        exact ⟨1, first⟩
      rw [if_neg dust] at first ⊢
      let answer := g.subrelease P (r.base + off * pageSize)
        (min pages ((r.maxBytes - r.released) / pageSize)) true w
      obtain ⟨n, reached⟩ := ih
        { r with searchFrom := off + pages, released := r.released + answer.1 } (by dsimp only; omega)
        answer.2.1 answer.2.2
      refine ⟨n + 2, ?_⟩
      rw [iterate_succ_apply, iterate_succ_apply, first, ownTurn_give]
      exact reached

/-- The backends a release call can leave behind. -/
def SettledAt (c : Nat) (g : HugePageBackend) : Prop := g.filler.Settled ∧ g.filler.capacity = c

theorem subrelease_settledAt (g : HugePageBackend) (base pages : Nat) (w : σ)
    (h : SettledAt c g) : SettledAt c (g.subrelease P base pages true w).2.1 := by
  have rests := subrelease_rests (P := P) h.1 base pages true w
  exact ⟨rests.settled, rests.capacity.trans h.2⟩

theorem SettledAt.next (h : SettledAt c g)
    (found : g.filler.nextEmptyBacked start = some (idx, base, committed)) : start ≤ idx ∧ idx < c := by
  obtain ⟨lower, upper⟩ := HugePageFiller.nextEmptyBacked_bounds found
  exact ⟨lower, Nat.lt_of_lt_of_le upper (h.2 ▸ h.1.wf.bound)⟩

/-- Nobody else calls: the turns of `release_empty_excess_bounded` end where
its loop does. -/
theorem excess_alone (reserve maxRelease fuel : Nat) (k : Walk) (h : SettledAt c g)
    (enough : c - k.start < fuel) (w : σ) :
    ∃ n, (ownTurn P (.excess reserve maxRelease))^[n] ⟨.seek k, g, w⟩ =
      let answer := releaseExcessFrom P reserve maxRelease fuel k.released k.releases k.kept k.start g w
      ⟨.done answer.1, answer.2.1, answer.2.2⟩ := by
  induction fuel generalizing k g w with
  | zero => omega
  | succ fuel ih =>
    have first : ownTurn P (.excess reserve maxRelease) ⟨.seek k, g, w⟩ =
        ⟨seekTurn (.excess reserve maxRelease) g.filler k, g, w⟩ := rfl
    unfold releaseExcessFrom
    unfold seekTurn at first
    dsimp only at first
    by_cases spent : k.releases ≥ maxRelease
    · rw [if_pos spent] at first ⊢
      exact ⟨1, first⟩
    rw [if_neg spent] at first ⊢
    cases found : g.filler.nextEmptyBacked k.start with
    | none =>
      rw [found] at first
      exact ⟨1, first⟩
    | some next =>
      obtain ⟨idx, base, committed⟩ := next
      obtain ⟨lower, upper⟩ := h.next found
      rw [found] at first
      dsimp only at first ⊢
      by_cases keep : k.kept < reserve
      · rw [if_pos keep] at first ⊢
        obtain ⟨n, reached⟩ := ih { k with kept := k.kept + 1, start := idx + 1 } h (by dsimp only; omega) w
        refine ⟨n + 1, ?_⟩
        rw [iterate_succ_apply, first]
        exact reached
      · rw [if_neg keep] at first ⊢
        obtain ⟨m, left⟩ := runs_alone (P := P) (.excess reserve maxRelease)
          ⟨{ k with releases := k.releases + 1, start := idx + 1 }, idx, base, usizeMax, 0, 0⟩
          (pagesPerHugepage + 1) (by dsimp only; omega) g w
        obtain ⟨n, reached⟩ := ih
          { k with released := k.released + (g.releaseHugepageRuns P idx base usizeMax w).1
                   releases := k.releases + 1, start := idx + 1 }
          (releaseHugepageRuns_keeps P subrelease_settledAt idx base usizeMax w h)
          (by dsimp only; omega) (g.releaseHugepageRuns P idx base usizeMax w).2.2
        refine ⟨n + (m + 1), ?_⟩
        rw [iterate_add_apply, iterate_succ_apply, first, left]
        exact reached

/-! ## Both calls -/

/-- Alone and with a willing provider the count-bounded call empties the
hugepages after the reserve, in slot order; among any other calls the
byte-bounded one returns no more than its budget; and both return. -/
theorem release_calls (P : Provider σ) (g : HugePageBackend) (w : σ) (settled : g.filler.Settled)
    (held : g.released = false) :
    (P.GivesBack → ∀ reserve maxRelease, ∃ n f' chosen,
      chosen = (g.filler.emptyBacked.drop reserve).take maxRelease ∧
      chosen.length = min maxRelease (g.filler.emptyBacked.length - min reserve g.filler.emptyBacked.length) ∧
      (ownTurn P (.excess reserve maxRelease))^[n] (begin g w) =
        ⟨.done (chosen.map (backedBytes g.filler)).sum, { g with filler := f' },
          (chosen.flatMap (backedRuns g.filler)).foldl (g.giveBack P) w⟩ ∧
      g.filler.Shrunk f' chosen) ∧
    (∀ budget events released,
      (interleave P (.within budget) (begin g w) events).phase = .done released → released ≤ budget) ∧
    ∀ plan events, turnsLeft (begin g w).phase ≤ events.countP Event.isOwn →
      ∃ released, (interleave P plan (begin g w) events).phase = .done released := by
  refine ⟨?_, ?_, ?_⟩
  · intro willing reserve maxRelease
    obtain ⟨f', chosen, which, ran, -, shrunk⟩ :=
      releaseEmptyExcessBounded_all willing held settled reserve maxRelease w
    obtain ⟨n, reached⟩ := excess_alone (P := P) reserve maxRelease (g.filler.capacity + 1)
      ⟨0, 0, 0, 0⟩ ⟨settled, rfl⟩ (by dsimp only; omega) w
    have answered : releaseExcessFrom P reserve maxRelease (g.filler.capacity + 1) 0 0 0 0 g w = _ := ran
    rw [answered] at reached
    rw [settled.emptyBackedFrom_eq] at which
    refine ⟨n, f', chosen, which, ?_, reached, shrunk⟩
    rw [which, List.length_take, List.length_drop]
    omega
  · intro budget events released ended
    have kept : InBudget budget (interleave P (.within budget) (begin g w) events).phase :=
      interleave_inBudget (Nat.zero_le budget)
    rw [ended] at kept
    exact kept
  · intro plan events enough
    exact interleave_returns settled enough

/-- One page of two hugepages was allocated and freed. -/
def onePageFreed : HugePageBackend :=
  (run Provider.willing (twoHugepages, ()) [.allocate pageSize pageSize {}, .freeRegion ⟨0, pageSize⟩]).1

theorem release_calls_onePageFreed :
    ∃ n f', (ownTurn Provider.willing (.excess 0 1))^[n] (begin onePageFreed ()) =
      ⟨.done pageSize, { onePageFreed with filler := f' }, ()⟩ := by
  have settled : onePageFreed.filler.Settled := run_settled _ (new_settled twoHugepages_eq_new) _
  obtain ⟨n, f', chosen, which, -, reached, -⟩ :=
    (release_calls Provider.willing onePageFreed () settled (by decide +kernel)).1
      ⟨fun _ _ _ => rfl, fun _ _ _ _ => rfl⟩ 0 1
  have bytes : (chosen.map (backedBytes onePageFreed.filler)).sum = pageSize := by
    rw [which]
    decide +kernel
  rw [bytes] at reached
  exact ⟨n, f', reached⟩

end HugePageBackend
end Topomalloc
