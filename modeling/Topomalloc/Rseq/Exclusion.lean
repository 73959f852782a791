import Topomalloc.Rseq.Steps

/-! Who may touch the slots of a CPU. A sequence that is past its test of the lock
byte runs on that CPU, and a lock holder that is past its fence knows that no such
sequence is left: the latch was clear and none has ever started, or the holder ran
on the CPU itself, or the fence sent them all back. So at each moment at most one
thread has the slots of a CPU to itself. -/
namespace Topomalloc.Rseq
open Function

/-! ## What a position says -/

namespace LockPc

/-- The lock is held. -/
def held : LockPc → Bool
  | .acquire => false
  | _ => true

/-- The slot is the thread's own. -/
def inside : LockPc → Bool
  | .acquire | .readLatch | .readCpu | .fence | .release _ => false
  | _ => true

end LockPc

namespace SeqPc

/-- The CPU id that was read. -/
def cpu : SeqPc → Option Nat
  | .start => none
  | .testLock c | .readBuf c | .readLen c | .readCap c _ | .readEntry c _ | .stage c _
  | .commitPop c _ _ | .commitPush c _ => some c

/-- The CPU whose lock byte was found clear. -/
def past : SeqPc → Option Nat
  | .start | .testLock _ => none
  | .readBuf c | .readLen c | .readCap c _ | .readEntry c _ | .stage c _ | .commitPop c _ _
  | .commitPush c _ => some c

end SeqPc

namespace Pc

/-- The CPU whose lock the thread holds. -/
def holds : Pc → Option Nat
  | .locked c _ _ _ p => if p.held then some c else none
  | _ => none

/-- The CPU whose slots the thread has behind the lock. -/
def inside : Pc → Option Nat
  | .locked c _ _ _ p => if p.inside then some c else none
  | _ => none

/-- The CPU a sequence has read. -/
def cpu : Pc → Option Nat
  | .seq _ _ _ _ p => p.cpu
  | _ => none

/-- The CPU whose slots a sequence is at. -/
def past : Pc → Option Nat
  | .seq _ _ _ _ p => p.past
  | _ => none

/-- The thread has seen the mode of restartable sequences, or is about to set it. -/
def quick : Pc → Bool
  | .probe _ _ _ | .attempt _ _ _ _ | .seq _ _ _ _ _ => true
  | .publishing rseq => rseq
  | _ => false

variable {p : Pc} {c : Nat}

theorem holds_locked (held : q.held = true) : (Pc.locked c sc op after q).holds = some c := if_pos held

theorem locked_inside (inside : (Pc.locked c' sc op after q).inside = some c) : c' = c ∧ q.inside = true := by
  by_cases own : q.inside = true
  · exact ⟨Option.some.inj ((if_pos own).symm.trans inside), own⟩
  · exact absurd ((if_neg own).symm.trans inside) nofun

theorem holds_of_inside (inside : p.inside = some c) : p.holds = some c := by
  cases p with
  | locked c' sc op after q =>
    obtain ⟨rfl, own⟩ := locked_inside inside
    apply holds_locked
    cases q <;> first | rfl | cases own
  | _ => cases inside

theorem cpu_of_past (past : p.past = some c) : p.cpu = some c := by
  cases p with
  | seq n core sc call q => cases q <;> first | exact past | cases past
  | _ => cases past

/-- A thread that may start an operation holds nothing and is in no sequence. -/
theorem resting_eq (rests : p.resting = true) :
    p.holds = none ∧ p.inside = none ∧ p.cpu = none ∧ p.past = none ∧ p.quick = false := by
  cases p <;> first | exact ⟨rfl, rfl, rfl, rfl, rfl⟩ | cases rests

@[simp] theorem aborted_holds (p : Pc) : p.aborted.holds = p.holds := by cases p <;> rfl

@[simp] theorem aborted_inside (p : Pc) : p.aborted.inside = p.inside := by cases p <;> rfl

@[simp] theorem aborted_quick (p : Pc) : p.aborted.quick = p.quick := by cases p <;> rfl

@[simp] theorem aborted_cpu (p : Pc) : p.aborted.cpu = none := by cases p <;> rfl

@[simp] theorem aborted_past (p : Pc) : p.aborted.past = none := by cases p <;> rfl

end Pc

@[simp] theorem Op.enter_held (op : Op) : op.enter.held = true := by cases op <;> rfl

@[simp] theorem Op.ready_held (op : Op) : op.ready.held = true := by cases op <;> rfl

@[simp] theorem Op.unready_held (op : Op) : op.unready.held = true := by cases op <;> rfl

@[simp] theorem Op.sized_held (op : Op) (len : Nat) : (op.sized len).held = true := by
  unfold Op.sized
  split
  · rfl
  · split <;> rfl

@[simp] theorem Op.fitted_held (op : Op) (len soft hard : Nat) : (op.fitted len soft hard).held = true := by
  unfold Op.fitted
  split <;> rfl

/-! ## What a step may change of it -/

namespace Exec
variable {cfg : Config} {s : State} {t : Nat} {p p' : Pc} {a : Action}

section
variable (exec : Exec cfg s t p a p') {c : Nat}
include exec

/-- Only the two lock actions change who holds a lock. -/
theorem holds :
    match a with
    | .acquire c => p.holds = none ∧ p'.holds = some c ∧ s.holder c = none
    | .release c => p.holds = some c ∧ p'.holds = none
    | _ => p'.holds = p.holds := by
  cases exec <;> first
    | rfl
    | exact (Pc.resting_eq ‹p.resting = true›).1.symm
    | exact ⟨rfl, rfl⟩
    | exact ⟨rfl, rfl, by assumption⟩
    | exact Pc.holds_locked (by simp)

/-- A thread gets to the restartable sequences only in their mode, and arms the
latch before it publishes that mode. -/
theorem quick (quick : p'.quick = true) : p.quick = true ∨ s.rseqMode = true ∨ a = .arm := by
  cases exec <;> first
    | exact .inl quick
    | exact .inl rfl
    | exact .inr (.inl (by assumption))
    | exact .inr (.inr rfl)
    | cases quick

/-- A sequence reads the CPU it runs on. -/
theorem cpu (cpu : p'.cpu = some c) : s.running t = some c ∨ p.cpu = some c := by
  cases exec <;> first
    | exact .inr cpu
    | exact .inl (cpu ▸ (by assumption))
    | cases cpu

/-- A sequence gets to the slots of a CPU past a clear lock byte. -/
theorem past (past : p'.past = some c) : p.past = some c ∨ s.holder c = none := by
  cases exec <;> first
    | exact .inl past
    | (cases past; exact .inr (by assumption))
    | cases past

/-- A lock holder gets to the slots with a clear latch, on the CPU itself, or by a
fence. -/
theorem inside (inside : p'.inside = some c) :
    p.inside = some c ∨ (p.holds = some c ∧
      (s.rseqEverEnabled = false ∨ s.running t = some c ∨ a = .fence)) := by
  cases exec <;> first
    | exact .inl inside
    | cases inside
    | (obtain ⟨rfl, -⟩ := Pc.locked_inside inside; exact .inl rfl)
    | (obtain ⟨rfl, -⟩ := Pc.locked_inside inside; exact .inr ⟨rfl, .inl (by assumption)⟩)
    | (obtain ⟨rfl, -⟩ := Pc.locked_inside inside; exact .inr ⟨rfl, .inr (.inl (by assumption))⟩)
    | (obtain ⟨rfl, -⟩ := Pc.locked_inside inside; exact .inr ⟨rfl, .inr (.inr rfl)⟩)

end

end Exec

/-! ## One thread at a time -/

/-- No two threads have the slots of one CPU. -/
structure Guarded (s : State) : Prop where
  placed : ∀ {t u c}, s.running t = some c → s.running u = some c → t = u
  held : ∀ {t c}, (s.pc t).holds = some c ↔ s.holder c = some t
  armed : ∀ {t}, (s.pc t).quick = true → s.rseqEverEnabled = true
  mode : s.rseqMode = true → s.rseqEverEnabled = true
  onCpu : ∀ {t c}, (s.pc t).cpu = some c → s.running t = some c
  apart : ∀ {t u c}, (s.pc t).inside = some c → (s.pc u).past ≠ some c

/-- The CPU whose slots the thread has to itself. -/
def Pc.owns (p : Pc) : Option Nat := p.inside.or p.past

variable {cfg : Config} {s s' : State} {t u c : Nat} {p : Pc} {a : Action}

theorem Pc.owns_eq_some : p.owns = some c ↔ p.inside = some c ∨ p.past = some c := by
  cases p <;> simp [Pc.owns, Pc.inside, Pc.past]

/-- Two threads that have the slots of one CPU are the same thread. -/
theorem Guarded.alone (g : Guarded s) (mine : (s.pc t).owns = some c)
    (theirs : (s.pc u).owns = some c) : t = u := by
  rcases Pc.owns_eq_some.mp mine with mine | mine <;>
    rcases Pc.owns_eq_some.mp theirs with theirs | theirs
  · have held := g.held.mp (Pc.holds_of_inside mine)
    rw [g.held.mp (Pc.holds_of_inside theirs)] at held
    exact (Option.some.inj held).symm
  · exact absurd theirs (g.apart mine)
  · exact absurd mine (g.apart theirs)
  · exact g.placed (g.onCpu (Pc.cpu_of_past mine)) (g.onCpu (Pc.cpu_of_past theirs))

theorem Guarded.start : Guarded {} where
  placed := nofun
  held := ⟨nofun, nofun⟩
  armed := nofun
  mode := nofun
  onCpu := nofun
  apart := nofun

/-- What another thread's step or an interrupt leaves of a position. -/
def Pc.Kept (p p' : Pc) : Prop := p' = p ∨ p' = p.aborted

namespace Pc.Kept
variable {p p' : Pc}

theorem holds (kept : p.Kept p') : p'.holds = p.holds := by
  obtain rfl | rfl := kept
  · rfl
  · exact aborted_holds p

theorem inside (kept : p.Kept p') : p'.inside = p.inside := by
  obtain rfl | rfl := kept
  · rfl
  · exact aborted_inside p

theorem quick (kept : p.Kept p') : p'.quick = p.quick := by
  obtain rfl | rfl := kept
  · rfl
  · exact aborted_quick p

theorem cpu (kept : p.Kept p') (cpu : p'.cpu = some c) : p.cpu = some c := by
  obtain rfl | rfl := kept
  · exact cpu
  · rw [aborted_cpu] at cpu
    cases cpu

theorem past (kept : p.Kept p') (past : p'.past = some c) : p.past = some c := by
  obtain rfl | rfl := kept
  · exact past
  · rw [aborted_past] at past
    cases past

end Pc.Kept

/-- An interrupt leaves every other thread where it is. -/
theorem goto_aborted_kept (s : State) (t u : Nat) : (s.pc u).Kept ((s.goto t (s.pc t).aborted).pc u) := by
  by_cases same : u = t
  · subst same
    right
    exact update_self ..
  · left
    exact update_of_ne same ..

/-- So does a step, unless it is a fence. -/
theorem exec_kept (other : u ≠ t) : (s.pc u).Kept (((s.act t a).goto t p).pc u) := by
  simp only [State.goto, update_of_ne other]
  cases a <;> first | exact .inl rfl | exact .inr rfl

/-- Threads that are only sent back, and perhaps taken off their CPUs unless they
are in a sequence still, stay apart. -/
theorem Guarded.kept (g : Guarded s) (kept : ∀ u, (s.pc u).Kept (s'.pc u))
    (runs : ∀ {u c}, s'.running u = some c → s.running u = some c)
    (still : ∀ {u c}, (s'.pc u).cpu = some c → s.running u = some c → s'.running u = some c)
    (sameHolder : s'.holder = s.holder) (sameLatch : s'.rseqEverEnabled = s.rseqEverEnabled)
    (sameMode : s'.rseqMode = s.rseqMode) : Guarded s' where
  placed first second := g.placed (runs first) (runs second)
  held := by
    intro t c
    rw [(kept t).holds, sameHolder]
    exact g.held
  armed := by
    intro t quick
    rw [(kept t).quick] at quick
    rw [sameLatch]
    exact g.armed quick
  mode := by
    rw [sameMode, sameLatch]
    exact g.mode
  onCpu := by
    intro t c cpu
    exact still cpu (g.onCpu ((kept t).cpu cpu))
  apart := by
    intro t u c inside past
    rw [(kept t).inside] at inside
    exact g.apart inside ((kept u).past past)

theorem Guarded.schedule (g : Guarded s) (off : s.running t = none)
    (free : ∀ u, s.running u ≠ some c) : Guarded { s with running := update s.running t (some c) } where
  placed := by
    intro u v d first second
    simp only [update_apply] at first second
    split at first <;> split at second
    · simp_all
    · exact absurd (Option.some.inj first ▸ second) (free v)
    · exact absurd (Option.some.inj second ▸ first) (free u)
    · exact g.placed first second
  held := g.held
  armed := g.armed
  mode := g.mode
  onCpu := by
    intro u d cpu
    have runs := g.onCpu cpu
    have other : u ≠ t := by
      rintro rfl
      rw [off] at runs
      cases runs
    exact (update_of_ne other ..).trans runs
  apart := g.apart

theorem Exec.publishes (exec : Exec cfg s t p a p') (published : a = .publish true) : p.quick = true := by
  cases exec <;> cases published
  rfl

/-- No position is both behind the lock and in a sequence. -/
theorem Pc.inside_past (inside : p.inside = some c) : p.past ≠ some c := by
  cases p <;> first | cases inside | exact nofun

theorem Guarded.exec (g : Guarded s) (exec : Exec cfg s t (s.pc t) a p) : Guarded ((s.act t a).goto t p) := by
  have mine : ((s.act t a).goto t p).pc t = p := update_self ..
  have others : ∀ u, u ≠ t → (s.pc u).Kept (((s.act t a).goto t p).pc u) :=
    fun u other => exec_kept other
  have running : ((s.act t a).goto t p).running = s.running := by cases a <;> rfl
  have latched : s.rseqEverEnabled = true → ((s.act t a).goto t p).rseqEverEnabled = true := by
    intro armed
    cases a <;> first | exact armed | rfl
  refine ⟨?_, ?_, ?_, ?_, ?_, ?_⟩
  · rw [running]
    exact g.placed
  · intro u c
    have holds := exec.holds
    by_cases same : u = t
    · subst same
      rw [mine]
      cases a with
      | acquire d =>
        obtain ⟨before, now, free⟩ := holds
        rw [now]
        simp only [State.act, State.goto, update_apply, Option.some.injEq]
        by_cases this : c = d
        · simp [this]
        · simp only [this, if_false, Ne.symm this, false_iff]
          rw [← g.held, before]
          exact nofun
      | release d =>
        obtain ⟨before, now⟩ := holds
        rw [now]
        simp only [State.act, State.goto, update_apply]
        by_cases this : c = d
        · simp [this]
        · simp only [this, if_false, reduceCtorEq, false_iff]
          rw [← g.held, before]
          exact fun same => this (Option.some.inj same).symm
      | _ =>
        rw [holds]
        exact g.held
    · rw [(others u same).holds, g.held]
      cases a with
      | acquire d =>
        obtain ⟨before, now, free⟩ := holds
        simp only [State.act, State.goto, update_apply]
        by_cases this : c = d
        · simp [this, free, Ne.symm same]
        · simp [this]
      | release d =>
        obtain ⟨before, now⟩ := holds
        simp only [State.act, State.goto, update_apply]
        by_cases this : c = d
        · rw [g.held] at before
          simp [this, before, Ne.symm same]
        · simp [this]
      | _ => rfl
  · intro u quick
    by_cases same : u = t
    · subst same
      rw [mine] at quick
      rcases exec.quick quick with before | mode | rfl
      · exact latched (g.armed before)
      · exact latched (g.mode mode)
      · rfl
    · rw [(others u same).quick] at quick
      exact latched (g.armed quick)
  · intro mode
    cases a with
    | publish rseq =>
      cases (show rseq = true from mode)
      exact latched (g.armed (exec.publishes rfl))
    | _ => exact latched (g.mode mode)
  · intro u c cpu
    rw [running]
    by_cases same : u = t
    · subst same
      rw [mine] at cpu
      exact (exec.cpu cpu).elim id g.onCpu
    · exact g.onCpu ((others u same).cpu cpu)
  · intro u v c inside past
    by_cases here : u = t
    · subst here
      rw [mine] at inside
      by_cases there : v = u
      · subst there
        rw [mine] at past
        exact Pc.inside_past inside past
      · have before := (others v there).past past
        rcases exec.inside inside with already | ⟨-, clear | owner | rfl⟩
        · exact g.apart already before
        · -- no sequence has ever started
          have quick : (s.pc v).quick = true := by
            cases at' : s.pc v <;> rw [at'] at before <;> first | rfl | cases before
          rw [g.armed quick] at clear
          cases clear
        · exact there (g.placed (g.onCpu (Pc.cpu_of_past before)) owner)
        · -- the fence has sent it back
          simp [State.act, State.goto, update_of_ne there] at past
    · rw [(others u here).inside] at inside
      by_cases there : v = t
      · subst there
        rw [mine] at past
        rcases exec.past past with already | free
        · exact g.apart inside already
        · rw [g.held.mp (Pc.holds_of_inside inside)] at free
          cases free
      · exact g.apart inside ((others v there).past past)

/-- Every step keeps the threads apart. -/
theorem Guarded.step (g : Guarded s) (step : Step cfg s s') : Guarded s' := by
  cases step with
  | exec t runs exec => exact g.exec exec
  | schedule t c off free => exact g.schedule off free
  | preempt t =>
    refine g.kept (goto_aborted_kept s t) ?_ ?_ rfl rfl rfl
    · intro u c runs
      simp only [update_apply] at runs
      split at runs
      · cases runs
      · exact runs
    · intro u c cpu runs
      have other : u ≠ t := by
        rintro rfl
        simp at cpu
      exact (update_of_ne other ..).trans runs
  | signal t =>
    exact g.kept (goto_aborted_kept s t) id (fun _ runs => runs) rfl rfl rfl

end Topomalloc.Rseq
