import Topomalloc.Machine

/-! The process-wide fork gate: public operations, maintenance and forkers of
many threads as an interleaving of atomic steps. A shard is one `u64`, its top
bit the fork-pending flag and the rest a count. A thread carries its nesting
depth, what it is inside of (an operation ends before the one it was called
from) and the position it has reached. The rank bookkeeping of the fork lock is
left to `Lock`. -/
namespace Topomalloc.Fork
open Function

def numShards : Nat := 64

def forkPending : Nat := 2 ^ 63

def countMask : Nat := forkPending - 1

/-- Whether the fork bit of a shard's word is set. -/
def isPending (word : Nat) : Bool := word &&& forkPending != 0

/-! ## Threads -/

/-- What a thread is inside of: a guard that took a slot of a shard, a `NESTED`
one, or its own fork window. -/
inductive Frame where
  | first (shard : Nat)
  | nested
  | window
  deriving Repr, DecidableEq

inductive Pc where
  | idle
  -- `operation_guard`, first level: `fetch_add`, back out, wait for the bit
  | entering
  | backOut (shard : Nat)
  | park (shard : Nat)
  -- `maintenance_guard`, from the second load of its gate on
  | checkBackground
  | maintEntering
  | maintBackOut (shard : Nat)
  | maintUnwind
  -- the drop of a first-level guard has unwound the depth
  | releasing (shard : Nat)
  -- `prefork`: the fork lock, the bits, the scans of `total_in_flight`
  | lock
  | lockSpin
  | setting (k : Nat)
  | draining (k sum : Nat)
  -- `postfork_parent`
  | clearing (k : Nat)
  | unlocking
  deriving Repr, DecidableEq

structure Thread where
  depth : Nat
  frames : List Frame
  pc : Pc

namespace Thread

def new : Thread := ⟨0, [], .idle⟩

/-- `reentry::enter` without its answer, which is whether the depth was zero. -/
def enter (θ : Thread) : Thread := { θ with depth := wrappingSucc32 θ.depth }

/-- `reentry::leave`. -/
def leave (θ : Thread) : Thread := { θ with depth := wrappingPred32 θ.depth }

def goto (θ : Thread) (pc : Pc) : Thread := { θ with pc }

def opened (θ : Thread) (frame : Frame) : Thread := { θ with frames := frame :: θ.frames }

def closed (θ : Thread) : Thread := { θ with frames := θ.frames.tail }

variable (θ : Thread) (pc : Pc) (frame : Frame)

@[simp] theorem enter_depth : θ.enter.depth = wrappingSucc32 θ.depth := rfl
@[simp] theorem enter_frames : θ.enter.frames = θ.frames := rfl
@[simp] theorem enter_pc : θ.enter.pc = θ.pc := rfl
@[simp] theorem leave_depth : θ.leave.depth = wrappingPred32 θ.depth := rfl
@[simp] theorem leave_frames : θ.leave.frames = θ.frames := rfl
@[simp] theorem leave_pc : θ.leave.pc = θ.pc := rfl
@[simp] theorem goto_depth : (θ.goto pc).depth = θ.depth := rfl
@[simp] theorem goto_frames : (θ.goto pc).frames = θ.frames := rfl
@[simp] theorem goto_pc : (θ.goto pc).pc = pc := rfl
@[simp] theorem opened_depth : (θ.opened frame).depth = θ.depth := rfl
@[simp] theorem opened_frames : (θ.opened frame).frames = frame :: θ.frames := rfl
@[simp] theorem opened_pc : (θ.opened frame).pc = θ.pc := rfl
@[simp] theorem closed_depth : θ.closed.depth = θ.depth := rfl
@[simp] theorem closed_frames : θ.closed.frames = θ.frames.tail := rfl
@[simp] theorem closed_pc : θ.closed.pc = θ.pc := rfl

end Thread

/-! ## Steps -/

/-- `phase` is whether initialisation has reached the background phase. -/
structure World (τ : Type) where
  shards : Nat → Nat
  locked : Bool
  phase : Bool
  background : Bool
  threads : τ → Thread

def World.init {τ : Type} : World τ where
  shards := fun _ => 0
  locked := false
  phase := false
  background := true
  threads := fun _ => Thread.new

/-- `shard` carries what the per-CPU or per-thread key of `shard_index` happens
to be; `compareExchange false` is a spurious failure. -/
inductive Move where
  | go
  | operation
  | maintenance
  | shard (key : Nat)
  | drop
  | prefork
  | compareExchange (strong : Bool)
  | postforkParent
  | setBackground (enabled : Bool)
  | reachPhase
  deriving Repr, DecidableEq

section Steps
variable {τ : Type} [DecidableEq τ] (w : World τ) (t : τ)

def World.put (θ : Thread) : World τ := { w with threads := update w.threads t θ }

def World.setShard (i word : Nat) : World τ := { w with shards := update w.shards i word }

/-- The `fetch_add` of a first-level entry: admitted if the fork bit was clear,
otherwise on to `refused`. -/
def admitOrRefuse (θ : Thread) (i : Nat) (refused : Pc) : World τ :=
  (w.setShard i (wrappingAdd64 (w.shards i) 1)).put t
    (if isPending (w.shards i) then θ.goto refused else (θ.opened (.first i)).goto .idle)

def fetchSub (i : Nat) : World τ := w.setShard i (wrappingSub64 (w.shards i) 1)

/-- One atomic step of a thread in state `θ` at position `pc`. -/
def stepAt (θ : Thread) : Pc → Move → Option (World τ)
  | .idle, .operation =>
    some (w.put t (if θ.depth ≠ 0 then θ.enter.opened .nested else θ.enter.goto .entering))
  | .entering, .shard key => some (admitOrRefuse w t θ (key % numShards) (.backOut (key % numShards)))
  | .backOut i, .go => some ((fetchSub w i).put t (θ.goto (.park i)))
  | .park i, .go => some (if isPending (w.shards i) then w else w.put t (θ.goto .entering))
  | .idle, .maintenance => some (if w.phase then w.put t (θ.goto .checkBackground) else w)
  | .checkBackground, .go =>
    some (w.put t (if !w.background then θ.goto .idle
      else if θ.depth ≠ 0 then (θ.enter.opened .nested).goto .idle
      else θ.enter.goto .maintEntering))
  | .maintEntering, .shard key =>
    some (admitOrRefuse w t θ (key % numShards) (.maintBackOut (key % numShards)))
  | .maintBackOut i, .go => some ((fetchSub w i).put t (θ.goto .maintUnwind))
  | .maintUnwind, .go => some (w.put t (θ.leave.goto .idle))
  | .idle, .drop =>
    match θ.frames with
    | .nested :: _ => some (w.put t θ.leave.closed)
    | .first i :: _ => some (w.put t (θ.leave.closed.goto (.releasing i)))
    | _ => none
  | .releasing i, .go => some ((fetchSub w i).put t (θ.goto .idle))
  | .idle, .prefork => some (w.put t (θ.goto .lock))
  | .lock, .compareExchange strong =>
    some (if strong && !w.locked then { w with locked := true }.put t (θ.goto (.setting 0))
      else w.put t (θ.goto .lockSpin))
  | .lockSpin, .go => some (if w.locked then w else w.put t (θ.goto .lock))
  | .setting k, .go =>
    some (if k < numShards then
        (w.setShard k (w.shards k ||| forkPending)).put t (θ.goto (.setting (k + 1)))
      else w.put t (θ.goto (.draining 0 0)))
  | .draining k sum, .go =>
    some (w.put t (if k < numShards then
        θ.goto (.draining (k + 1) (wrappingAdd64 sum (w.shards k &&& countMask)))
      else if sum ≠ 0 then θ.goto (.draining 0 0)
      else (θ.enter.opened .window).goto .idle))
  | .idle, .postforkParent =>
    match θ.frames with
    | .window :: _ => some (w.put t (θ.closed.goto (.clearing 0)))
    | _ => none
  | .clearing k, .go =>
    some (if k < numShards then
        (w.setShard k (w.shards k &&& countMask)).put t (θ.goto (.clearing (k + 1)))
      else w.put t (θ.leave.goto .unlocking))
  | .unlocking, .go => some ({ w with locked := false }.put t (θ.goto .idle))
  | .idle, .setBackground enabled => some { w with background := enabled }
  | .idle, .reachPhase => some { w with phase := true }
  | _, _ => none

def step (move : Move) : Option (World τ) := stepAt w t (w.threads t) (w.threads t).pc move

def run : World τ → List (τ × Move) → Option (World τ)
  | w, [] => some w
  | w, (t, move) :: rest => (step w t move).bind fun w' => run w' rest

end Steps

/-! ## The child -/

/-- The copy of the process in the child: one thread is left. -/
def forkChild {τ : Type} (w : World τ) (t : τ) : World Unit := { w with threads := fun _ => w.threads t }

/-- `postfork_child`, run by the only thread there is. -/
def postforkChild (w : World Unit) : World Unit where
  shards := (List.range numShards).foldl (fun shards i => update shards i 0) w.shards
  locked := false
  phase := w.phase
  background := false
  threads := fun u => { (w.threads u).closed with depth := 0 }

end Topomalloc.Fork
