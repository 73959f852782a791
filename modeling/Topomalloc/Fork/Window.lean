import Topomalloc.Fork.Quiesce

/-! Runs of the fork gate: what holds in every state of every interleaving, and
what a child starts from. -/
namespace Topomalloc.Fork
open Function Census

section Runs
variable {τ : Type} [DecidableEq τ] {w w' w'' : World τ} {t : τ} {move : Move} {i : Nat}

/-- A thread forks from outside of its own operations and keeps its nesting
depth within the counter. -/
def Orderly (w : World τ) (t : τ) (move : Move) : Prop :=
  (w.threads t).frames.length + 1 < 2 ^ 32 ∧ (move = .prefork → (w.threads t).frames = [])

instance (w : World τ) (t : τ) (move : Move) : Decidable (Orderly w t move) :=
  inferInstanceAs (Decidable (_ ∧ _))

/-- The states of all interleavings. -/
inductive Reached : World τ → Prop where
  | init : Reached World.init
  | step {w w' : World τ} (t : τ) (move : Move) (before : Reached w) (orderly : Orderly w t move)
      (stepped : Fork.step w t move = some w') : Reached w'

/-- A schedule whose steps are all orderly. -/
def orderlyRun : World τ → List (τ × Move) → Option (World τ)
  | w, [] => some w
  | w, (t, move) :: rest =>
    if Orderly w t move then (step w t move).bind fun w' => orderlyRun w' rest else none

theorem Reached.run {schedule : List (τ × Move)} (before : Reached w)
    (ran : orderlyRun w schedule = some w') : Reached w' := by
  induction schedule generalizing w with
  | nil =>
    cases ran
    exact before
  | cons head rest ih =>
    unfold orderlyRun at ran
    split at ran
    · obtain ⟨middle, stepped, later⟩ := Option.bind_eq_some_iff.mp ran
      exact ih (before.step _ _ ‹_› stepped) later
    · cases ran

/-! ## Invariant -/

section Invariant
variable [Fintype τ]

theorem Gate.stepIdle (h : Gate w) (orderly : Orderly w t move) (idle : (w.threads t).pc = .idle)
    (stepped : stepAt w t (w.threads t) .idle move = some w') : Gate w' := by
  have resting : (w.threads t).Resting := Or.inl idle
  cases move with
  | operation =>
    cases stepped
    have nested := h.nest resting orderly.1 (Or.inl rfl)
    have same : ((w.threads t).enter.opened .nested).goto .idle = (w.threads t).enter.opened .nested := by
      rw [← idle]
      rfl
    rwa [same] at nested
  | maintenance =>
    cases stepped
    split
    · exact h.stay resting (Or.inr rfl) rfl ((h.shape t).depth_of_resting resting) (h.shape t).stacked
    · exact h
  | drop =>
    simp only [stepAt] at stepped
    split at stepped
    next top =>
      cases stepped
      exact h.dropNested idle top
    next top =>
      cases stepped
      exact h.dropFirst idle top
    next => contradiction
  | prefork =>
    cases stepped
    have none := orderly.2 rfl
    have depth := (h.shape t).depth_of_resting resting
    rw [none] at depth
    exact h.drift none none depth resting.plain rfl
  | postforkParent =>
    simp only [stepAt] at stepped
    split at stepped
    next top =>
      cases stepped
      exact h.closeWindow idle top
    next => contradiction
  | setBackground enabled =>
    cases stepped
    exact ⟨h.shape, h.lock, h.word, h.quiet⟩
  | reachPhase =>
    cases stepped
    exact ⟨h.shape, h.lock, h.word, h.quiet⟩
  | _ => cases stepped

theorem Gate.step (h : Gate w) (few : Fintype.card τ < 2 ^ 58) (orderly : Orderly w t move)
    (stepped : Fork.step w t move = some w') : Gate w' := by
  unfold Fork.step at stepped
  have shape := h.shape t
  have inside : ∀ key : Nat, key % numShards < numShards := fun key => Nat.mod_lt _ (by decide)
  -- a position of the guards' code that stands for nothing, left for another one
  have drifts : ∀ {θ : Thread} {here : Pc}, (w.threads t).pc = here → here.plain = true →
      here ≠ .idle ∧ here ≠ .checkBackground → θ.frames = (w.threads t).frames → θ.pc.plain = true →
      ((w.threads t).depth = here.levels → θ.depth = θ.pc.levels) → Gate (w.put t θ) := by
    intro θ here at_pc plain code frames plain' depth
    obtain ⟨none, was⟩ := shape.of_code at_pc code
    exact h.drift none (frames.trans none) (depth was) (at_pc ▸ plain) plain'
  cases at_pc : (w.threads t).pc <;> rw [at_pc] at stepped
  case idle => exact h.stepIdle orderly at_pc stepped
  all_goals cases move <;> cases stepped
  case checkBackground.go =>
    have resting : (w.threads t).Resting := Or.inr at_pc
    split
    · exact h.stay resting (Or.inl rfl) rfl (shape.depth_of_resting resting) shape.stacked
    · exact h.nest resting orderly.1 (Or.inr rfl)
  case entering.shard key => exact h.enterShard few (inside key) (Or.inl at_pc) (Or.inl rfl)
  case maintEntering.shard key => exact h.enterShard few (inside key) (Or.inr at_pc) (Or.inr rfl)
  case park.go =>
    split
    · exact h
    · exact drifts at_pc rfl (by simp) rfl rfl id
  case maintUnwind.go =>
    refine drifts at_pc rfl (by simp) rfl rfl fun depth => ?_
    rw [Thread.goto_depth, Thread.leave_depth, depth]
    rfl
  case backOut.go | maintBackOut.go | releasing.go =>
    apply h.subtract few
    all_goals simp [at_pc, Thread.Resting, Pc.admitted, Pc.transient, Pc.forking, Pc.levels, Pc.plain,
      eq_comm]
  case lock.compareExchange =>
    split
    next free =>
      rw [Bool.and_eq_true, Bool.not_eq_true'] at free
      exact h.takeLock at_pc free.2
    next => exact drifts at_pc rfl (by simp) rfl rfl id
  case lockSpin.go =>
    split
    · exact h
    · exact drifts at_pc rfl (by simp) rfl rfl id
  case setting.go =>
    split
    next more => exact h.setBit few more at_pc
    next complete => exact h.startDrain complete at_pc
  case draining.go k sum =>
    split
    next more => exact h.scan few more at_pc
    next complete =>
      split
      next => exact h.rescan at_pc
      next zero =>
        obtain rfl : sum = 0 := by simpa using zero
        exact h.openWindow complete at_pc
  case clearing.go =>
    split
    next more => exact h.clearBit few more at_pc
    next complete => exact h.unwind complete at_pc
  case unlocking.go => exact h.unlock at_pc

theorem Reached.gate (reached : Reached w) (few : Fintype.card τ < 2 ^ 58) : Gate w := by
  induction reached with
  | init => exact Gate.init
  | step _ _ _ orderly stepped ih => exact ih.step few orderly stepped

end Invariant
/-! ## Counted threads finish -/

theorem run_append (ran : run w first = some w')
    (ran' : run w' rest = some w'') : run w (first ++ rest) = some w'' := by
  induction first generalizing w with
  | nil =>
    cases ran
    exact ran'
  | cons turn first ih =>
    obtain ⟨middle, stepped, ran⟩ := Option.bind_eq_some_iff.mp ran
    exact Option.bind_eq_some_iff.mpr ⟨middle, stepped, ih ran⟩

theorem run_one (stepped : Fork.step w t move = some w') : run w [(t, move)] = some w' := by
  rw [run, stepped]
  rfl

/-- A thread by itself gets to where it holds no count. -/
def Finishes (w : World τ) (t : τ) : Prop :=
  ∃ (moves : List Move) (w' : World τ), run w (moves.map (t, ·)) = some w' ∧
    ∀ i, (w'.threads t).admitted i + (w'.threads t).transient i = 0

theorem Finishes.of_step (stepped : Fork.step w t move = some w') (finishes : Finishes w' t) :
    Finishes w t := by
  obtain ⟨moves, w'', ran, done⟩ := finishes
  exact ⟨move :: moves, w'', run_append (run_one stepped) ran, done⟩

theorem Finishes.here (idle : (w.threads t).pc.plain = true) (none : (w.threads t).frames = []) :
    Finishes w t := by
  refine ⟨[], w, rfl, fun i => ?_⟩
  obtain ⟨admitted, transient, -⟩ := Pc.plain_values (i := i) idle
  simp [Thread.admitted, Thread.transient, Thread.base, none, admitted, transient]

theorem put_self : (w.put t θ).threads t = θ := update_self _ _ _

/-- A count that is about to be taken back. -/
theorem Finishes.of_subtract (none : (w.threads t).frames = []) (position : (w.threads t).pc = .releasing i ∨
    (w.threads t).pc = .backOut i ∨ (w.threads t).pc = .maintBackOut i) : Finishes w t := by
  have stepped : ∃ next, Pc.plain next = true ∧
      Fork.step w t .go = some ((fetchSub w i).put t ((w.threads t).goto next)) := by
    rcases position with at_pc | at_pc | at_pc
    · exact ⟨.idle, rfl, by rw [Fork.step, at_pc]; rfl⟩
    · exact ⟨.park i, rfl, by rw [Fork.step, at_pc]; rfl⟩
    · exact ⟨.maintUnwind, rfl, by rw [Fork.step, at_pc]; rfl⟩
  obtain ⟨next, plain, stepped⟩ := stepped
  apply Finishes.of_step stepped
  apply Finishes.here
  · rw [put_self]
    exact plain
  · rw [put_self]
    exact none

/-- Guards close one inside the other, then the count goes. -/
theorem Finishes.of_idle (idle : (w.threads t).pc = .idle) (stacked : Thread.Stacked (w.threads t).frames)
    (first : (w.threads t).base = some (.first i)) : Finishes w t := by
  induction frames : (w.threads t).frames generalizing w with
  | nil =>
    rw [Thread.base, frames] at first
    cases first
  | cons frame rest ih =>
    rw [frames] at stacked
    rw [Thread.base, frames] at first
    by_cases nested : frame = .nested
    · subst nested
      obtain ⟨more, stacked⟩ := stacked.pop
      have stepped : Fork.step w t .drop = some (w.put t (w.threads t).leave.closed) := by
        simp only [Fork.step, idle, stepAt, frames]
      have next : ((w.put t (w.threads t).leave.closed).threads t).frames = rest := by
        rw [put_self]
        simp [frames]
      refine Finishes.of_step stepped (ih ?_ ?_ ?_ next)
      · rw [put_self]
        simpa using idle
      · rw [next]
        exact stacked
      · rw [Thread.base, next]
        rwa [Thread.getLast?_nested more] at first
    · obtain rfl := stacked.alone nested
      obtain rfl : frame = .first i := by simpa using first
      have stepped : Fork.step w t .drop =
          some (w.put t ((w.threads t).leave.closed.goto (.releasing i))) := by
        simp only [Fork.step, idle, stepAt, frames]
      apply Finishes.of_step stepped
      apply Finishes.of_subtract (i := i)
      · rw [put_self]
        simp [frames]
      · rw [put_self]
        exact Or.inl rfl

theorem Gate.finishes [Fintype τ] (h : Gate w)
    (counted : (w.threads t).admitted i + (w.threads t).transient i ≠ 0) : Finishes w t := by
  have shape := h.shape t
  by_cases first : (w.threads t).base = some (.first i)
  · rcases shape.outside with idle | checking | none
    · exact Finishes.of_idle idle shape.stacked first
    · -- the nested maintenance guard is given or declined, and the rest closes
      have resting : (w.threads t).Resting := Or.inr checking
      have some : (w.threads t).frames ≠ [] := by
        intro none
        rw [Thread.base, none] at first
        cases first
      have deep : (w.threads t).depth ≠ 0 := by
        rw [shape.depth_of_resting resting]
        exact fun zero => some (List.length_eq_zero_iff.mp zero)
      have stepped : Fork.step w t .go = .some (w.put t (if !w.background then (w.threads t).goto .idle
          else ((w.threads t).enter.opened .nested).goto .idle)) := by
        simp only [Fork.step, checking, stepAt, deep, ne_eq, not_false_eq_true, if_true]
      refine Finishes.of_step stepped (Finishes.of_idle (i := i) ?_ ?_ ?_) <;> rw [put_self] <;> split
      · rfl
      · rfl
      · exact shape.stacked
      · exact shape.stacked.push some
      · exact first
      · exact (Thread.getLast?_nested some).trans first
    · rw [Thread.base, none] at first
      cases first
  · have busy : ¬ (w.threads t).Resting := by
      intro resting
      obtain ⟨admitted, transient, -⟩ := Pc.plain_values (i := i) resting.plain
      rw [Thread.admitted, Thread.transient, if_neg first, admitted, transient] at counted
      exact counted rfl
    obtain ⟨none, -⟩ := shape.of_not_resting busy
    have position : (w.threads t).pc = .releasing i ∨ (w.threads t).pc = .backOut i ∨
        (w.threads t).pc = .maintBackOut i := by
      by_contra elsewhere
      simp only [not_or] at elsewhere
      simp [Thread.admitted, Thread.transient, first, Pc.admitted, Pc.transient, elsewhere] at counted
    exact Finishes.of_subtract none position

/-! ## The child -/

theorem zeroed (shards : Nat → Nat) (n : Nat) :
    (List.range n).foldl (fun shards i => update shards i 0) shards = fun i => if i < n then 0 else shards i := by
  induction n with
  | zero => simp
  | succ n ih =>
    rw [List.range_succ, List.foldl_append, ih]
    funext i
    by_cases last : i = n
    · simp [last]
    · simp [last, show i < n + 1 ↔ i < n by omega]

/-- A thread is between the return of its `prefork` and the first bit that its
`postfork_parent` clears. -/
def Thread.Quiesced (θ : Thread) : Prop := θ.base = some .window ∨ θ.pc = .clearing 0

omit [DecidableEq τ] in
theorem Gate.quiesced [Fintype τ] (h : Gate w) (quiesced : (w.threads t).Quiesced) (other : u ≠ t) :
    (w.threads u).frames = [] ∧ ∀ i, (w.threads u).pc ≠ .releasing i := by
  have quiet : ∀ i, (w.threads t).quiet i ≠ 0 := by
    intro i
    rcases quiesced with window | clearing
    · rw [Thread.quiet, Thread.inWindow, if_pos window]
      omega
    · simp [Thread.quiet, clearing, Pc.quiet]
  have nobody : ∀ i < numShards, (w.threads u).admitted i = 0 := by
    intro i inside
    have mine := le_total (Thread.quiet i) w.threads t
    have seen := quiet i
    rcases h.quiet i inside with zero | zero
    · omega
    · exact total_eq_zero.mp zero u
  have shape := h.shape u
  have none : ∀ i, (w.threads u).admitted i = 0 := by
    intro i
    by_contra some
    exact some (nobody i (shape.inside i (by omega)))
  constructor
  · have window : (w.threads u).base ≠ some .window := by
      intro window
      have forks : (w.threads u).forking = 0 := by
        refine eq_zero_of_alone (t := t) (by rw [← h.lock]; exact Bool.toNat_le _) ?_ other
        have le : total Thread.forking w.threads ≤ 1 := by rw [← h.lock]; exact Bool.toNat_le _
        have mine := le_total Thread.forking w.threads t
        have seen := quiet 0
        have quietLe := Thread.quiet_le (w.threads t) 0
        have raisesLe := Thread.raises_le (w.threads t) 0
        omega
      rw [Thread.forking, Thread.inWindow, if_pos window] at forks
      omega
    by_contra some
    obtain ⟨frame, base, outermost⟩ := shape.stacked.base some
    cases frame with
    | first i =>
      have zero := none i
      rw [Thread.admitted, Thread.base, base] at zero
      simp at zero
    | nested => exact outermost rfl
    | window => exact window base
  · intro i releasing
    have zero := none i
    rw [Thread.admitted, releasing] at zero
    simp [Pc.admitted] at zero

/-- In every state of every interleaving: between the return of a `prefork` and
the first bit cleared by its `postfork_parent` only the forker is inside of
anything; the low bits of a shard count its first-level guards and the
increments still to be backed out, and no subtraction meets a zero; a fork bit
is up exactly where the forker has set it and not cleared it; whoever waits for
a bit to go down is not counted, and whoever is counted can finish by itself;
no bit is up while the fork lock is free; and a child starts with empty shards
at depth zero. -/
theorem fork_quiescence [Fintype τ] (few : Fintype.card τ < 2 ^ 58) (reached : Reached w) :
    (∀ t u, (w.threads t).Quiesced → u ≠ t →
      (w.threads u).frames = [] ∧ ∀ i, (w.threads u).pc ≠ .releasing i) ∧
    (∀ i < numShards, (w.shards i &&& countMask) =
      total (Thread.admitted i) w.threads + total (Thread.transient i) w.threads) ∧
    (∀ t i, (w.threads t).pc = .releasing i ∨ (w.threads t).pc = .backOut i ∨
        (w.threads t).pc = .maintBackOut i → i < numShards ∧ 0 < w.shards i &&& countMask) ∧
    (∀ i < numShards, isPending (w.shards i) = true ↔ ∃ t, (w.threads t).raises i = 1) ∧
    (∀ t i, (w.threads t).pc = .park i → ∀ j, (w.threads t).admitted j + (w.threads t).transient j = 0) ∧
    (∀ t i, (w.threads t).admitted i + (w.threads t).transient i ≠ 0 → Finishes w t) ∧
    (w.locked = false → ∀ i < numShards, isPending (w.shards i) = false) ∧
    ∀ t, (∀ i < numShards, (postforkChild (forkChild w t)).shards i = 0) ∧
      ((postforkChild (forkChild w t)).threads ()).depth = 0 := by
  have gate := reached.gate few
  refine ⟨fun t u quiesced other => gate.quiesced quiesced other,
    fun i inside => (gate.read few inside).2.1, ?_, ?_, ?_, fun t i counted => gate.finishes counted, ?_, ?_⟩
  · intro t i position
    have counted : (w.threads t).admitted i + (w.threads t).transient i ≠ 0 := by
      rcases position with at_pc | at_pc | at_pc <;>
        simp [Thread.admitted, Thread.transient, at_pc, Pc.admitted, Pc.transient]
    have inside := (gate.shape t).inside i counted
    have admitted := le_total (Thread.admitted i) w.threads t
    have transient := le_total (Thread.transient i) w.threads t
    refine ⟨inside, ?_⟩
    rw [(gate.read few inside).2.1]
    omega
  · intro i inside
    rw [(gate.read few inside).1]
    have bit := gate.raised_le (i := i)
    constructor
    · intro one
      by_contra nobody
      have zero : total (Thread.raises i) w.threads = 0 := by
        apply total_eq_zero.mpr
        intro t
        have le := le_total (Thread.raises i) w.threads t
        have not : (w.threads t).raises i ≠ 1 := fun up => nobody ⟨t, up⟩
        omega
      omega
    · rintro ⟨t, up⟩
      have le := le_total (Thread.raises i) w.threads t
      omega
  · intro t i parked j
    have none := ((gate.shape t).of_code parked (by simp)).1
    simp [Thread.admitted, Thread.transient, Thread.base, none, parked, Pc.admitted, Pc.transient]
  · intro free i inside
    have lowered : total (Thread.raises i) w.threads ≤ total Thread.forking w.threads :=
      total_mono fun t => Thread.raises_le _ i
    rw [← gate.lock, free] at lowered
    rw [← Bool.not_eq_true, (gate.read few inside).1]
    simp only [Bool.toNat_false] at lowered
    omega
  · intro t
    refine ⟨fun i inside => ?_, rfl⟩
    have shards := congrFun (zeroed w.shards numShards) i
    rw [if_pos inside] at shards
    exact shards

end Runs

/-- Thread `t` has an operation open and thread `u` has set every fork bit. -/
def raisedOver {τ : Type} (t u : τ) : List (τ × Move) :=
  [(t, .operation), (t, .shard 0), (u, .prefork), (u, .compareExchange true)] ++
    List.replicate 64 (u, .go)

/-- Thread `t` ends its operation, which thread `u` waits for in its `prefork`, and is held up
when it begins another. -/
def forkWindow {τ : Type} (t u : τ) : List (τ × Move) :=
  raisedOver t u ++ [(u, .go), (t, .drop), (t, .go)] ++ List.replicate 65 (u, .go) ++
    [(t, .operation), (t, .shard 0), (t, .go)]

theorem fork_quiescence_window : ∃ w : World (Fin 2), Reached w ∧ (w.threads 0).Quiesced ∧
    (w.threads 1).pc = .park 0 ∧ (w.threads 1).frames = [] ∧ isPending (w.shards 0) = true := by
  obtain ⟨w, ran⟩ : ∃ w : World (Fin 2), orderlyRun World.init (forkWindow 1 0) = some w :=
    Option.isSome_iff_exists.mp (by decide +kernel)
  have window : ∀ w ∈ orderlyRun World.init (forkWindow (1 : Fin 2) 0), (w.threads 0).base = some .window ∧
      (w.threads 1).pc = .park 0 ∧ isPending (w.shards 0) = true := by decide +kernel
  obtain ⟨opened, parked, pending⟩ := window w ran
  have reached := Reached.init.run ran
  exact ⟨w, reached, .inl opened, parked,
    ((fork_quiescence (by decide) reached).1 0 1 (.inl opened) (by decide)).1, pending⟩

/-! ## Outside of the contract -/

/-- One thread that forks inside of its own operation. -/
def forksInside : List (Unit × Move) :=
  [.operation, .shard 0, .prefork, .compareExchange true].map ((), ·) ++ List.replicate 65 ((), .go)

/-- The forker waits for itself. -/
structure SelfWait (w : World Unit) : Prop where
  frames : (w.threads ()).frames = [.first 0]
  draining : ∃ k sum, (w.threads ()).pc = .draining k sum ∧ sum = if k = 0 then 0 else 1
  counts : ∀ i < numShards, (w.shards i &&& countMask) = if i = 0 then 1 else 0

theorem SelfWait.step (h : SelfWait w) (stepped : step w () move = some w') : SelfWait w' := by
  obtain ⟨k, sum, at_pc, sums⟩ := h.draining
  rw [Fork.step, at_pc] at stepped
  cases move with
  | go =>
    cases stepped
    by_cases more : k < numShards
    · rw [if_pos more, h.counts k more, sums]
      refine ⟨?_, ⟨k + 1, 1, ?_, by simp⟩, h.counts⟩
      · rw [put_self]
        exact h.frames
      · rw [put_self]
        by_cases zero : k = 0 <;> simp [zero, wrappingAdd64]
    · have one : sum = 1 := by
        rw [sums, if_neg]
        rintro rfl
        exact more (by decide)
      rw [if_neg more, if_pos (by omega)]
      refine ⟨?_, ⟨0, 0, ?_, rfl⟩, h.counts⟩
      · rw [put_self]
        exact h.frames
      · rw [put_self]
        rfl
  | _ => cases stepped

theorem SelfWait.not_finishes (h : SelfWait w) : ¬ Finishes w () := by
  rintro ⟨moves, w', ran, done⟩
  have stays : SelfWait w' := by
    induction moves generalizing w with
    | nil =>
      cases ran
      exact h
    | cons move moves ih =>
      obtain ⟨middle, stepped, ran⟩ := Option.bind_eq_some_iff.mp ran
      exact ih (h.step stepped) ran
  have zero := done 0
  simp [Thread.admitted, Thread.base, stays.frames] at zero

theorem forksInside_waits : ∃ w, run World.init forksInside = some w ∧
    (∃ k sum, (w.threads ()).pc = .draining k sum) ∧ (w.threads ()).admitted 0 = 1 ∧ ¬ Finishes w () := by
  obtain ⟨w, ran⟩ : ∃ w, run World.init forksInside = some w := Option.isSome_iff_exists.mp (by decide +kernel)
  have waits : ∀ w ∈ run World.init forksInside, (w.threads ()).frames = [.first 0] ∧
      (w.threads ()).pc = .draining 0 0 ∧
      ∀ i < numShards, (w.shards i &&& countMask) = if i = 0 then 1 else 0 := by decide +kernel
  obtain ⟨frames, at_pc, counts⟩ := waits w ran
  have self : SelfWait w := ⟨frames, ⟨0, 0, at_pc, rfl⟩, counts⟩
  refine ⟨w, ran, ⟨0, 0, at_pc⟩, ?_, self.not_finishes⟩
  simp [Thread.admitted, Thread.base, frames, at_pc, Pc.admitted]

theorem base_nested {θ : Thread} (base : θ.base = some frame) :
    (θ.enter.opened .nested).base = some frame := by
  change (Frame.nested :: θ.frames).getLast? = some frame
  rw [List.getLast?_cons, show θ.frames.getLast? = some frame from base]
  rfl

/-- Nested guards are not held up by anything. -/
theorem run_nested {τ : Type} [DecidableEq τ] {t : τ} (n : Nat) {w : World τ}
    (idle : (w.threads t).pc = .idle) (deep : (w.threads t).depth ≠ 0)
    (room : (w.threads t).depth + n ≤ 2 ^ 32) (base : (w.threads t).base = some frame) :
    ∃ w', run w (List.replicate n (t, .operation)) = some w' ∧ w'.shards = w.shards ∧
      (w'.threads t).pc = .idle ∧ (0 < n → (w'.threads t).depth = ((w.threads t).depth + n) % 2 ^ 32) ∧
      (w'.threads t).base = some frame := by
  induction n generalizing w with
  | zero => exact ⟨w, rfl, rfl, idle, by simp, base⟩
  | succ n ih =>
    obtain ⟨middle, hm⟩ : ∃ middle, middle = w.put t ((w.threads t).enter.opened .nested) := ⟨_, rfl⟩
    have stepped : step w t .operation = some middle := by
      rw [step, idle, hm]
      simp only [stepAt, deep, ne_eq, not_false_eq_true, if_true]
    have here : middle.threads t = (w.threads t).enter.opened .nested := by rw [hm, put_self]
    have shards : middle.shards = w.shards := by rw [hm]; rfl
    have depth : (middle.threads t).depth = ((w.threads t).depth + 1) % 2 ^ 32 := by rw [here]; rfl
    have idle' : (middle.threads t).pc = .idle := by rw [here]; exact idle
    have base' : (middle.threads t).base = some frame := by rw [here]; exact base_nested base
    rw [List.replicate_succ]
    by_cases last : n = 0
    · subst last
      exact ⟨middle, run_one stepped, shards, idle', fun _ => depth, base'⟩
    · have next : (middle.threads t).depth = (w.threads t).depth + 1 := by
        rw [depth, Nat.mod_eq_of_lt (by omega)]
      obtain ⟨w', ran, shards', idle'', depth', base''⟩ := ih idle' (by omega) (by omega) base'
      refine ⟨w', run_append (run_one stepped) ran, shards'.trans shards, idle'', fun _ => ?_, base''⟩
      rw [depth' (by omega), next]
      congr 1
      omega

/-- A nesting depth that comes around to zero makes the next guard a first-level
one: it parks while the outer one is counted. -/
theorem deepNesting_parks : ∃ (schedule : List (Fin 2 × Move)) (w : World (Fin 2)),
    run World.init schedule = some w ∧ (w.threads 0).pc = .park 0 ∧ (w.threads 0).admitted 0 = 1 := by
  obtain ⟨w, ran⟩ : ∃ w : World (Fin 2), run World.init (raisedOver 0 1) = some w :=
    Option.isSome_iff_exists.mp (by decide +kernel)
  have raised : ∀ w ∈ run World.init (raisedOver (0 : Fin 2) 1), (w.threads 0).pc = .idle ∧
      (w.threads 0).depth = 1 ∧ (w.threads 0).base = some (.first 0) ∧
      isPending (w.shards 0) = true := by decide +kernel
  obtain ⟨idle, depth, base, pending⟩ := raised w ran
  obtain ⟨w₁, ran₁, shards, idle₁, depth₁, base₁⟩ := run_nested (2 ^ 32 - 1) idle
    (by rw [depth]; decide) (by rw [depth]; decide) base
  have zero : (w₁.threads 0).depth = 0 := by rw [depth₁ (by decide), depth]; decide
  obtain ⟨w₂, h₂⟩ : ∃ w₂, w₂ = w₁.put 0 ((w₁.threads 0).enter.goto .entering) := ⟨_, rfl⟩
  have requested : step w₁ 0 .operation = some w₂ := by
    rw [step, idle₁, h₂]
    simp only [stepAt, zero, ne_eq, not_true_eq_false, if_false]
  have at₂ : w₂.threads 0 = (w₁.threads 0).enter.goto .entering := by rw [h₂, put_self]
  have pending₂ : isPending (w₂.shards 0) = true := by rw [h₂]; exact shards ▸ pending
  obtain ⟨w₃, h₃⟩ : ∃ w₃, w₃ = admitOrRefuse w₂ 0 (w₂.threads 0) 0 (.backOut 0) := ⟨_, rfl⟩
  have added : step w₂ 0 (.shard 0) = some w₃ := by
    rw [step, h₃, at₂]
    rfl
  have at₃ : w₃.threads 0 = ((w₁.threads 0).enter.goto .entering).goto (.backOut 0) := by
    rw [h₃, admitOrRefuse, put_self, if_pos pending₂, at₂]
  have backed : step w₃ 0 .go = some ((fetchSub w₃ 0).put 0 ((w₃.threads 0).goto (.park 0))) := by
    rw [step, at₃]
    rfl
  refine ⟨_, _, run_append ran (run_append ran₁ (run_append (run_one requested)
    (run_append (run_one added) (run_one backed)))), ?_, ?_⟩
  · rw [put_self]
    rfl
  · rw [put_self, at₃, Thread.admitted]
    change (if (w₁.threads 0).base = some (.first 0) then 1 else 0) + _ = 1
    rw [if_pos base₁]
    rfl

/-- Each thread enters through the first shard. -/
def crowd (n : Nat) : List (Nat × Move) := (List.range n).flatMap fun t => [(t, .operation), (t, .shard 0)]

theorem run_crowd (n : Nat) (room : n < 2 ^ 64) : ∃ w : World Nat, run World.init (crowd n) = some w ∧
    w.locked = false ∧ w.shards 0 = n ∧ ∀ t, n ≤ t → w.threads t = Thread.new := by
  induction n with
  | zero => exact ⟨_, rfl, rfl, rfl, fun _ _ => rfl⟩
  | succ n ih =>
    obtain ⟨w, ran, free, count, fresh⟩ := ih (by omega)
    have new := fresh n (Nat.le_refl n)
    obtain ⟨w₁, h₁⟩ : ∃ w₁, w₁ = w.put n (Thread.new.enter.goto .entering) := ⟨_, rfl⟩
    have requested : step w n .operation = some w₁ := by
      rw [step, new, h₁]
      rfl
    have at₁ : w₁.threads n = Thread.new.enter.goto .entering := by rw [h₁, put_self]
    obtain ⟨w₂, h₂⟩ : ∃ w₂, w₂ = admitOrRefuse w₁ n (w₁.threads n) 0 (.backOut 0) := ⟨_, rfl⟩
    have added : step w₁ n (.shard 0) = some w₂ := by
      rw [step, h₂, at₁]
      rfl
    refine ⟨w₂, ?_, ?_, ?_, ?_⟩
    · have both := run_append (run_one requested) (run_one added)
      rw [crowd, List.range_succ, List.flatMap_append]
      exact run_append ran both
    · rw [h₂, h₁]
      exact free
    · rw [h₂, h₁]
      change update w.shards 0 (wrappingAdd64 (w.shards 0) 1) 0 = n + 1
      rw [update_self, count]
      exact Nat.mod_eq_of_lt room
    · intro t later
      have other : t ≠ n := by omega
      rw [h₂, h₁]
      change update (update w.threads n _) n _ t = _
      rw [update_of_ne other, update_of_ne other]
      exact fresh t (by omega)

/-- A count that reaches the fork bit sets it. -/
theorem crowd_raises : ∃ w : World Nat, run World.init (crowd (2 ^ 63)) = some w ∧ w.locked = false ∧
    isPending (w.shards 0) = true := by
  obtain ⟨w, ran, free, count, -⟩ := run_crowd (2 ^ 63) (by decide)
  refine ⟨w, ran, free, ?_⟩
  rw [count]
  decide

/-- What the gate does not give: a thread that forks inside of its own operation
waits for itself, `2 ^ 32` nested guards make a waiting thread one that is
counted, and `2 ^ 63` threads raise a fork bit without a forker. -/
theorem gate_limits :
    (∃ w, run World.init forksInside = some w ∧ (∃ k sum, (w.threads ()).pc = .draining k sum) ∧
      (w.threads ()).admitted 0 = 1 ∧ ¬ Finishes w ()) ∧
    (∃ (schedule : List (Fin 2 × Move)) (w : World (Fin 2)), run World.init schedule = some w ∧
      (w.threads 0).pc = .park 0 ∧ (w.threads 0).admitted 0 = 1) ∧
    ∃ w : World Nat, run World.init (crowd (2 ^ 63)) = some w ∧ w.locked = false ∧
      isPending (w.shards 0) = true :=
  ⟨forksInside_waits, deepNesting_parks, crowd_raises⟩

end Topomalloc.Fork
