import Topomalloc.Lib.Stacks

/-! The per-CPU slots of `cpu_cache.rs` under restartable sequences, as an
interleaving of single memory accesses.

Threads run on CPUs and the kernel may preempt, move or signal them between any
two steps. A thread inside a critical section is sent back to its abort handler
by each of these, and by a fence that completes; that is the kernel's part of the
contract. The locked operations take the lock byte of a CPU, find out whether
they have to fence, and only then touch a slot. `enable_rseq` and `disable_rseq`
may be called by any thread at any time; pinned mode is not entered. A CPU id
that is out of range, or that an unregistered thread cannot read, is a read with
no answer. The array of slots that is not carved yet is one whose slots have no
buffer. -/
namespace Topomalloc.Rseq
open Function

/-- `max_local_capacity` and `batch` of the size classes. -/
structure Config where
  maxLocalCapacity : Nat → Nat
  batch : Nat → Nat

/-- `CpuSlot`, without the soft capacity. `buf` says that the buffer is there. -/
structure Slot where
  buf : Bool := false
  len : Nat := 0
  hardCapacity : Nat := 0
  initialized : Bool := false
  entry : Nat → Nat := fun _ => 0

/-- What the slot holds, the top first. -/
def Slot.contents (x : Slot) : List Nat := ((List.range x.len).map x.entry).reverse

/-- A push or pop on the slot of a CPU and a class. -/
abbrev Event := Stacks.Event (Nat × Nat) Nat

/-! ## Where a thread is -/

/-- What `fe_pop` and `fe_push` are asked to do. -/
inductive Call where
  | pop
  | push (v : Nat)
  deriving DecidableEq, Repr

/-- The operations that take the lock. `chunk` is one turn of `drain_cpu`. -/
inductive Op where
  | pop
  | push (v : Nat)
  | popBatch (max : Nat)
  | pushBatch (vs : List Nat)
  | chunk (max : Nat)
  | init (softCap : Nat)
  deriving DecidableEq, Repr

/-- The locked fallback of a call. -/
def Call.op : Call → Op
  | .pop => .pop
  | .push v => .push v

/-- What an operation answers. A pop that moved nothing is `empty` and a push
that moved nothing is `full`. -/
inductive Outcome where
  | empty
  | full
  | popped (c sc : Nat) (vs : List Nat)
  | pushed (c sc : Nat) (vs : List Nat)
  | inited (ok : Bool)
  | drained (total : Nat)
  | switched
  deriving DecidableEq, Repr

/-- The answer of an operation that did not take place. -/
def Op.declined : Op → Outcome
  | .pop | .popBatch _ | .chunk _ => .empty
  | .push _ | .pushBatch _ => .full
  | .init _ => .inited false

/-- What the answer says was done to the slots, newest first. -/
def Outcome.events : Outcome → List Event
  | .popped c sc vs => vs.map (.pop (c, sc))
  | .pushed c sc vs => vs.reverse.map (.push (c, sc))
  | _ => []

/-- Where a locked operation returns to: its caller, or the loop of `drain_cpu`
with the classes still to come. -/
inductive After where
  | ret
  | drain (c max total sc budget : Nat) (rest : List Nat)
  deriving DecidableEq, Repr

/-- The position in a critical section. -/
inductive SeqPc where
  | start
  | testLock (c : Nat)
  | readBuf (c : Nat)
  | readLen (c : Nat)
  | readCap (c len : Nat)
  | readEntry (c len : Nat)
  | stage (c len : Nat)
  | commitPop (c len v : Nat)
  | commitPush (c len : Nat)
  deriving DecidableEq, Repr

/-- The position in a locked operation. -/
inductive LockPc where
  | acquire
  | readLatch
  | readCpu
  | fence
  -- from here on the slot is the thread's own
  | readInit
  | storeBuf
  | storeHard
  | storeSoft
  | storeInit
  | readLen
  | readCap (len : Nat)
  | take (len n : Nat) (got : List Nat)
  | put (len : Nat) (vs : List Nat) (i : Nat)
  | release (o : Outcome)
  deriving DecidableEq, Repr

inductive Pc where
  | idle
  -- `fe_pop_tracked` and `fe_push_tracked`, about to read the mode
  | fast (core sc : Nat) (call : Call)
  -- `fe_pop_rseq` and `fe_push_rseq`
  | probe (core sc : Nat) (call : Call)
  | attempt (n core sc : Nat) (call : Call)
  | seq (n core sc : Nat) (call : Call) (p : SeqPc)
  | effective (core sc : Nat) (call : Call)
  | locked (c sc : Nat) (op : Op) (after : After) (p : LockPc)
  -- `drain_cpu`
  | drainNext (c max total : Nat) (classes : List Nat)
  | drainBudget (c max total sc : Nat) (rest : List Nat)
  | drainLoop (c max total sc budget : Nat) (rest : List Nat)
  -- `enable_rseq`, `disable_rseq` and `set_soft_capacity`
  | arming
  | publishing (rseq : Bool)
  | softening (c sc cap : Nat)
  | storingSoft (c sc v : Nat)
  | returned (o : Outcome) (after : After)
  deriving DecidableEq, Repr

/-- `RSEQ_ABORT_RETRY`. -/
def rseqAbortRetry : Nat := 128

/-- The thread may start an operation. -/
def Pc.resting : Pc → Bool
  | .idle | .returned _ .ret => true
  | _ => false

/-- Where the kernel sends a thread it interrupts. -/
def Pc.aborted : Pc → Pc
  | .seq n core sc call _ => .attempt n core sc call
  | p => p

/-- The entry of a slot's buffer that the next step accesses. -/
def Pc.access : Pc → Option (Nat × Nat × Nat)
  | .seq _ _ sc _ (.readEntry c len) => some (c, sc, len - 1)
  | .seq _ _ sc _ (.stage c len) => some (c, sc, len)
  | .locked c sc _ _ (.take len n got) =>
    if got.length < n then some (c, sc, len - n + got.length) else none
  | .locked c sc _ _ (.put len vs i) => if i < vs.length then some (c, sc, len + i) else none
  | _ => none

/-! ## Steps of a thread -/

/-- The memory the threads share, and where they are. `log` records the pushes
and pops in the order of their committing stores, newest first, and `effect`
those of a thread's present operation. -/
structure State where
  slots : Nat → Nat → Slot := fun _ _ => {}
  softCapacity : Nat → Nat → Nat := fun _ _ => 0
  holder : Nat → Option Nat := fun _ => none
  rseqEverEnabled : Bool := false
  rseqMode : Bool := false
  running : Nat → Option Nat := fun _ => none
  pc : Nat → Pc := fun _ => .idle
  log : List Event := []
  effect : Nat → List Event := fun _ => []

/-- The stacks the slots hold. -/
def State.stacks (s : State) (k : Nat × Nat) : List Nat := (s.slots k.1 k.2).contents

/-- What one step does besides moving the thread on. A `write` is one store into
a slot; the store of `len` comes with the events it commits. -/
inductive Action where
  | read
  | begin
  | acquire (c : Nat)
  | release (c : Nat)
  | write (c sc : Nat) (x : Slot) (es : List Event)
  | soften (c sc v : Nat)
  | arm
  | publish (rseq : Bool)
  | fence

/-- The first access of an operation once the slot is its own: `drain_cpu` has
looked at `initialized` before. -/
def Op.enter : Op → LockPc
  | .chunk _ => .readLen
  | _ => .readInit

/-- What follows when the slot is initialised. -/
def Op.ready : Op → LockPc
  | .init _ => .release (.inited true)
  | _ => .readLen

/-- What follows when it is not: the batches decline and the others set it up. -/
def Op.unready : Op → LockPc
  | .popBatch _ => .release .empty
  | .pushBatch _ => .release .full
  | _ => .storeBuf

/-- How many entries an operation would pop; none if it does not pop. -/
def Op.wanted : Op → Option Nat
  | .pop => some 1
  | .popBatch max | .chunk max => some max
  | _ => none

/-- The soft capacity a slot is initialised with. -/
def Op.initialSoft (cfg : Config) (sc : Nat) : Op → Nat
  | .init softCap => softCap
  | _ => cfg.batch sc

/-- The clamp of `init` and `set_soft_capacity`. -/
def clampSoft (cap hard : Nat) : Nat := max (min cap hard) 1

/-- How many of its entries an operation pushes onto a slot of length `len`: one
below the soft capacity, a batch up to the hard one. -/
def Op.admitted (op : Op) (len soft hard : Nat) : List Nat :=
  match op with
  | .push v => if len < soft then [v] else []
  | .pushBatch vs => vs.take (hard - len)
  | _ => []

/-- What follows the read of `len`. -/
def Op.sized (op : Op) (len : Nat) : LockPc :=
  match op.wanted with
  | none => .readCap len
  | some m => if min m len = 0 then .release .empty else .take len (min m len) []

/-- What follows the read of the capacity. -/
def Op.fitted (op : Op) (len soft hard : Nat) : LockPc :=
  if op.admitted len soft hard = [] then .release .full
  else .put len (op.admitted len soft hard) 0

section
variable (cfg : Config) (s : State) (t : Nat)

/-- One step of a running thread: what it may do, and where it is then. -/
inductive Exec : Pc → Action → Pc → Prop
  -- a thread starts an operation
  | startFast {p} (rests : p.resting = true) (core sc : Nat) (call : Call) :
      Exec p .begin (.fast core sc call)
  | startLocked {p} (rests : p.resting = true) (c sc : Nat) (op : Op) :
      Exec p .begin (.locked c sc op .ret .acquire)
  | startDrain {p} (rests : p.resting = true) (c max : Nat) (classes : List Nat) :
      Exec p .begin (.drainNext c max 0 classes)
  | startEnable {p} (rests : p.resting = true) : Exec p .begin .arming
  | startDisable {p} (rests : p.resting = true) : Exec p .begin (.publishing false)
  | startSoften {p} (rests : p.resting = true) (c sc cap : Nat) :
      Exec p .begin (.softening c sc cap)
  -- the dispatch on the mode
  | modeRseq (mode : s.rseqMode = true) : Exec (.fast core sc call) .read (.probe core sc call)
  | modeLocked (mode : s.rseqMode = false) :
      Exec (.fast core sc call) .read (.locked core sc call.op .ret .acquire)
  | probeNone : Exec (.probe core sc call) .read (.effective core sc call)
  | probeSome : Exec (.probe core sc call) .read (.attempt rseqAbortRetry core sc call)
  | giveUp : Exec (.attempt 0 core sc call) .read (.effective core sc call)
  | enter : Exec (.attempt (n + 1) core sc call) .read (.seq n core sc call .start)
  | effectiveCpu (cpu : s.running t = some c) :
      Exec (.effective core sc call) .read (.locked c sc call.op .ret .acquire)
  | effectiveHint : Exec (.effective core sc call) .read (.locked core sc call.op .ret .acquire)
  -- the critical section
  | seqCpu (cpu : s.running t = some c) :
      Exec (.seq n core sc call .start) .read (.seq n core sc call (.testLock c))
  | seqNoCpu : Exec (.seq n core sc call .start) .read (.effective core sc call)
  | seqLocked (taken : s.holder c ≠ none) :
      Exec (.seq n core sc call (.testLock c)) .read (.effective core sc call)
  | seqUnlocked (free : s.holder c = none) :
      Exec (.seq n core sc call (.testLock c)) .read (.seq n core sc call (.readBuf c))
  | seqNull (null : (s.slots c sc).buf = false) :
      Exec (.seq n core sc call (.readBuf c)) .read (.effective core sc call)
  | seqBuf (there : (s.slots c sc).buf = true) :
      Exec (.seq n core sc call (.readBuf c)) .read (.seq n core sc call (.readLen c))
  | seqEmpty (zero : (s.slots c sc).len = 0) :
      Exec (.seq n core sc .pop (.readLen c)) .read (.returned .empty .ret)
  | seqPopLen (nonempty : (s.slots c sc).len ≠ 0) : Exec (.seq n core sc .pop (.readLen c)) .read
        (.seq n core sc .pop (.readEntry c (s.slots c sc).len))
  | seqPushLen : Exec (.seq n core sc (.push v) (.readLen c)) .read
        (.seq n core sc (.push v) (.readCap c (s.slots c sc).len))
  | seqFull (full : s.softCapacity c sc ≤ len) :
      Exec (.seq n core sc (.push v) (.readCap c len)) .read (.returned .full .ret)
  | seqRoom (room : len < s.softCapacity c sc) :
      Exec (.seq n core sc (.push v) (.readCap c len)) .read (.seq n core sc (.push v) (.stage c len))
  | seqEntry : Exec (.seq n core sc .pop (.readEntry c len)) .read
        (.seq n core sc .pop (.commitPop c (len - 1) ((s.slots c sc).entry (len - 1))))
  | seqStage : Exec (.seq n core sc (.push v) (.stage c len))
        (.write c sc { s.slots c sc with entry := update (s.slots c sc).entry len v } [])
        (.seq n core sc (.push v) (.commitPush c len))
  | seqCommitPop : Exec (.seq n core sc .pop (.commitPop c len v))
        (.write c sc { s.slots c sc with len } [.pop (c, sc) v]) (.returned (.popped c sc [v]) .ret)
  | seqCommitPush : Exec (.seq n core sc (.push v) (.commitPush c len))
        (.write c sc { s.slots c sc with len := len + 1 } [.push (c, sc) v])
        (.returned (.pushed c sc [v]) .ret)
  -- taking the lock and making the slot one's own; the array may not be there
  | noArray : Exec (.locked c sc op after .acquire) .read (.returned op.declined after)
  | acquire (free : s.holder c = none) :
      Exec (.locked c sc op after .acquire) (.acquire c) (.locked c sc op after .readLatch)
  | latchClear (clear : s.rseqEverEnabled = false) :
      Exec (.locked c sc op after .readLatch) .read (.locked c sc op after op.enter)
  | latchSet (armed : s.rseqEverEnabled = true) :
      Exec (.locked c sc op after .readLatch) .read (.locked c sc op after .readCpu)
  | owner (cpu : s.running t = some c) :
      Exec (.locked c sc op after .readCpu) .read (.locked c sc op after op.enter)
  | nonOwner : Exec (.locked c sc op after .readCpu) .read (.locked c sc op after .fence)
  | fenceFails :
      Exec (.locked c sc op after .fence) .read (.locked c sc op after (.release op.declined))
  | fenceCompletes : Exec (.locked c sc op after .fence) .fence (.locked c sc op after op.enter)
  -- `init`
  | isReady (ready : (s.slots c sc).initialized = true) :
      Exec (.locked c sc op after .readInit) .read (.locked c sc op after op.ready)
  | isUnready (unready : (s.slots c sc).initialized = false) :
      Exec (.locked c sc op after .readInit) .read (.locked c sc op after op.unready)
  | noBuf : Exec (.locked c sc op after .storeBuf) .read (.locked c sc op after (.release op.declined))
  | storeBuf (room : 0 < cfg.maxLocalCapacity sc) : Exec (.locked c sc op after .storeBuf)
        (.write c sc { s.slots c sc with buf := true, entry := fun _ => 0 } [])
        (.locked c sc op after .storeHard)
  | storeHard : Exec (.locked c sc op after .storeHard)
        (.write c sc { s.slots c sc with hardCapacity := cfg.maxLocalCapacity sc } [])
        (.locked c sc op after .storeSoft)
  | storeSoft : Exec (.locked c sc op after .storeSoft)
        (.soften c sc (clampSoft (op.initialSoft cfg sc) (cfg.maxLocalCapacity sc)))
        (.locked c sc op after .storeInit)
  | storeInit : Exec (.locked c sc op after .storeInit)
        (.write c sc { s.slots c sc with initialized := true } []) (.locked c sc op after op.ready)
  -- reading, writing and committing
  | readLen : Exec (.locked c sc op after .readLen) .read
        (.locked c sc op after (op.sized (s.slots c sc).len))
  | readCap : Exec (.locked c sc op after (.readCap len)) .read (.locked c sc op after
          (op.fitted len (s.softCapacity c sc) (s.slots c sc).hardCapacity))
  | readEntry (more : got.length < n) : Exec (.locked c sc op after (.take len n got)) .read
        (.locked c sc op after (.take len n (got ++ [(s.slots c sc).entry (len - n + got.length)])))
  | commitTake (all : got.length = n) : Exec (.locked c sc op after (.take len n got))
        (.write c sc { s.slots c sc with len := len - n } (got.map (.pop (c, sc))))
        (.locked c sc op after (.release (.popped c sc got)))
  | writeEntry (more : i < vs.length) : Exec (.locked c sc op after (.put len vs i)) (.write c sc
          { s.slots c sc with entry := update (s.slots c sc).entry (len + i) (vs.get ⟨i, more⟩) } [])
        (.locked c sc op after (.put len vs (i + 1)))
  | commitPut : Exec (.locked c sc op after (.put len vs vs.length))
        (.write c sc { s.slots c sc with len := len + vs.length } (vs.reverse.map (.push (c, sc))))
        (.locked c sc op after (.release (.pushed c sc vs)))
  | release : Exec (.locked c sc op after (.release o)) (.release c) (.returned o after)
  -- the loops of `drain_cpu`
  | drainEnd {max} : Exec (.drainNext c max total []) .read (.returned (.drained total) .ret)
  | drainSkip {max} (unready : (s.slots c sc).initialized = false) :
      Exec (.drainNext c max total (sc :: rest)) .read (.drainNext c max total rest)
  | drainClass {max} (ready : (s.slots c sc).initialized = true) :
      Exec (.drainNext c max total (sc :: rest)) .read (.drainBudget c max total sc rest)
  | drainBudget {max} : Exec (.drainBudget c max total sc rest) .read
        (.drainLoop c max total sc (s.slots c sc).len rest)
  | drainDone {max} (done : budget = 0 ∨ (s.slots c sc).len = 0) :
      Exec (.drainLoop c max total sc budget rest) .read (.drainNext c max total rest)
  | drainChunk {max} (more : budget ≠ 0) (nonempty : (s.slots c sc).len ≠ 0) :
      Exec (.drainLoop c max total sc budget rest) .begin
        (.locked c sc (.chunk max) (.drain c max total sc budget rest) .acquire)
  | drainMore {max} :
      Exec (.returned (.popped c' sc' vs) (.drain c max total sc budget rest)) .begin
        (.drainLoop c max (total + vs.length) sc (budget - vs.length) rest)
  | drainBreak {max} (nothing : ∀ c sc vs, o ≠ .popped c sc vs) :
      Exec (.returned o (.drain c max total sc budget rest)) .begin (.drainNext c max total rest)
  -- switching the mode, and the soft capacity
  | arm : Exec .arming .arm (.publishing true)
  | unsupported : Exec .arming .read (.publishing false)
  | publish : Exec (.publishing rseq) (.publish rseq) (.returned .switched .ret)
  | readHard : Exec (.softening c sc cap) .read
        (.storingSoft c sc (clampSoft cap (s.slots c sc).hardCapacity))
  | soften : Exec (.storingSoft c sc v) (.soften c sc v) (.returned .switched .ret)

end

/-- What an action of thread `t` does to the shared state. -/
def State.act (s : State) (t : Nat) : Action → State
  | .read => s
  | .begin => { s with effect := update s.effect t [] }
  | .acquire c => { s with holder := update s.holder c (some t) }
  | .release c => { s with holder := update s.holder c none }
  | .write c sc x es =>
    { s with
      slots := update s.slots c (update (s.slots c) sc x)
      log := es ++ s.log
      effect := update s.effect t (es ++ s.effect t) }
  | .soften c sc v => { s with softCapacity := update s.softCapacity c (update (s.softCapacity c) sc v) }
  | .arm => { s with rseqEverEnabled := true }
  | .publish rseq => { s with rseqMode := rseq }
  | .fence => { s with pc := fun u => (s.pc u).aborted }

/-- A thread goes on to `p`. -/
def State.goto (s : State) (t : Nat) (p : Pc) : State := { s with pc := update s.pc t p }

/-- A step of the system: a running thread takes one step, or the kernel puts a
thread on a free CPU, takes it off its CPU, or delivers a signal to it. -/
inductive Step (cfg : Config) (s : State) : State → Prop
  | exec (t : Nat) {a : Action} {p : Pc} (runs : s.running t ≠ none)
      (exec : Exec cfg s t (s.pc t) a p) : Step cfg s ((s.act t a).goto t p)
  | schedule (t c : Nat) (off : s.running t = none) (free : ∀ u, s.running u ≠ some c) :
      Step cfg s { s with running := update s.running t (some c) }
  | preempt (t : Nat) :
      Step cfg s { s with
        pc := update s.pc t (s.pc t).aborted, running := update s.running t none }
  | signal (t : Nat) : Step cfg s (s.goto t (s.pc t).aborted)

/-- The states of all interleavings, from the start of the process. -/
inductive Reachable (cfg : Config) : State → Prop
  | start : Reachable cfg {}
  | step {s s' : State} (before : Reachable cfg s) (step : Step cfg s s') : Reachable cfg s'

end Topomalloc.Rseq
