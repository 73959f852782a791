import Mathlib.Data.List.Basic

/-! Small allocations and frees of many threads as an interleaving of atomic
steps. An object is named by a number. Its three bits live in the span (`central
free`, `cached`, `quarantined`); its address may stand on a shelf: a per-CPU
slot, a transfer-cache bin or the quarantine ring. A thread is the position it
has reached in `alloc_small_cached`, `free_with` or one of the flushes. Spans
stay active throughout, and every bit read, test-and-set, locked section of one
object, push and pop is one step. -/
namespace Topomalloc.Race

inductive Event where
  | handOut (o : Nat)
  | freed (o : Nat)
  deriving Repr, DecidableEq

def isHandOut (o : Nat) : Event → Bool
  | .handOut x => x == o
  | .freed _ => false

def isFreed (o : Nat) : Event → Bool
  | .handOut _ => false
  | .freed x => x == o

/-- What a run does not change: which objects the front end may cache
(`front_end_cacheable` of their arena and placement class), the span of each
object, and whether the `quarantine` feature is compiled in. -/
structure Config where
  cacheable : Nat → Bool
  spanOf : Nat → Nat
  quarantine : Bool

inductive Shelf where
  | slot (k : Nat)
  | transfer (c : Nat)
  | ring
  deriving Repr, DecidableEq

/-- Where a central insert returns to: the free that issued it, a flush of
addresses that were on their way down (`free` calls flush a full slot and then
retry their push), or the drain of entries that left the quarantine. -/
inductive After where
  | own
  | carried (rest : List Nat) (retry : Option (Nat × Nat))
  | drained (rest : List Nat)
  deriving Repr, DecidableEq

/-- The position of a thread. `bypass` is the call's decision to skip the
per-CPU cache. -/
inductive Pc where
  | idle
  -- allocation: an address was popped and `claim_cached_object` is next
  | popped (o : Nat)
  -- `refill`: objects removed from central and not yet marked, then those marked
  | marking (k : Nat) (todo marked : List Nat)
  | toSlot (k : Nat) (batch : List Nat)
  | toTransfer (batch : List Nat) (retry : Option (Nat × Nat))
  | toCentral (batch : List Nat) (retry : Option (Nat × Nat))
  -- `insert_batch_inner` has set the free bit and holds the span lock
  | inserting (o : Nat) (quarantineCleared : Bool) (after : After)
  -- `free_with`'s screen, then `free_small_screened`
  | screenCached (o : Nat) (bypass : Bool)
  | screenCentralFree (o : Nat) (bypass : Bool)
  | tryMarkCached (o : Nat) (bypass : Bool)
  | revalidateFree (o : Nat) (bypass : Bool)
  | revalidateQuarantined (o : Nat) (bypass : Bool)
  | unmarkAndReject (o : Nat)
  -- `maybe_quarantine_small`
  | quarantineLoad (o : Nat) (bypass : Bool)
  | quarantineSwitch (o : Nat) (bypass : Bool)
  | quarantineFree (o : Nat) (bypass : Bool)
  | quarantineCached (o : Nat) (bypass : Bool)
  | markQuarantined (o : Nat) (bypass : Bool)
  | offer (o : Nat) (bypass : Bool)
  | releaseClaim (o : Nat) (bypass : Bool)
  | handOver (o : Nat) (evicted : List Nat)
  | drain (entries : List Nat)
  -- `free_small_cached` and the central insert of the free itself
  | push (o : Nat)
  | retryPush (o k : Nat)
  | insertOwn (o : Nat)
  | insertFailed (o : Nat)
  | releaseFailed (o : Nat)
  deriving Repr, DecidableEq

structure World where
  centralFree : Nat → Bool
  cached : Nat → Bool
  quarantined : Nat → Bool
  spanLock : Nat → Option Nat
  shelves : Shelf → List Nat
  pc : Nat → Pc
  log : List Event

/-- Every object is central-free and no thread has started. -/
def World.init : World where
  centralFree := fun _ => true
  cached := fun _ => false
  quarantined := fun _ => false
  spanLock := fun _ => none
  shelves := fun _ => []
  pc := fun _ => .idle
  log := []

/-- What the scheduler or the environment decides at a step: the call an idle
thread starts, how much of a batch a cache accepts, what the runtime switch of
the quarantine reads, whether the ring takes an entry and which it evicts. An
eviction moves other entries of the ring, so a drain may take any of them. -/
inductive Move where
  | go
  | pop (shelf : Shelf)
  | refillTransfer (k c n : Nat)
  | refillCentral (k : Nat) (batch : List Nat)
  | allocCentral (o : Nat)
  | flush (k n : Nat)
  | drainTransfer (c n : Nat)
  | drainQuarantine (taken : List Nat)
  | free (o : Nat) (bypass : Bool)
  | accept (n : Nat)
  | acceptTransfer (c n : Nat)
  | reads (enabled : Bool)
  | held (evicted : List Nat)
  | declined
  | pushed (k : Nat)
  | full (k n : Nat)
  deriving Repr, DecidableEq

namespace World

variable (w : World) (t o : Nat)

@[simp] def goto (pc : Pc) : World := { w with pc := Function.update w.pc t pc }
@[simp] def setFree (b : Bool) : World := { w with centralFree := Function.update w.centralFree o b }
@[simp] def setCached (b : Bool) : World := { w with cached := Function.update w.cached o b }
@[simp] def setQuarantined (b : Bool) : World := { w with quarantined := Function.update w.quarantined o b }
@[simp] def setLock (span : Nat) (owner : Option Nat) : World :=
  { w with spanLock := Function.update w.spanLock span owner }
@[simp] def setShelf (shelf : Shelf) (l : List Nat) : World :=
  { w with shelves := Function.update w.shelves shelf l }
@[simp] def emit (e : Event) : World := { w with log := e :: w.log }
@[simp] def clearFree (batch : List Nat) : World :=
  { w with centralFree := fun o => w.centralFree o && !batch.contains o }

end World

/-- Pop up to `n` addresses from the end of a slot or a bin, in array order. -/
def lastOf (l : List Nat) (n : Nat) : List Nat := l.drop (l.length - n)
def restOf (l : List Nat) (n : Nat) : List Nat := l.take (l.length - n)

/-- Where a free goes once the quarantine has not taken the object. -/
def routed (cfg : Config) (o : Nat) (bypass : Bool) : Pc :=
  if cfg.cacheable o && !bypass then .push o else .insertOwn o

/-- The exit of `maybe_quarantine_small` that reports a double free. -/
def settled (cfg : Config) (o : Nat) : Pc := if cfg.cacheable o then .unmarkAndReject o else .idle

/-- After the drain of a batch the flushing free retries its push. -/
def resumed : Option (Nat × Nat) → Pc
  | none => .idle
  | some (o, k) => .retryPush o k

def After.next : After → Pc
  | .own => .idle
  | .carried rest retry => .toCentral rest retry
  | .drained rest => .drain rest

/-- Enter `insert_batch_inner` for one object: under the span lock the free bit
is tested and set; `rejected` is where the thread goes if it was set already. -/
def insert (cfg : Config) (w : World) (t o : Nat) (after : After) (rejected : Pc) : Option World :=
  if w.spanLock (cfg.spanOf o) = none then
    if w.centralFree o then some (w.goto t rejected)
    else some (((w.setFree o true).setLock (cfg.spanOf o) (some t)).goto t (.inserting o false after))
  else none

/-- The calls an idle thread can start. -/
def start (cfg : Config) (w : World) (t : Nat) : Move → Option World
  | .pop shelf =>
    if shelf = .ring then none
    else (w.shelves shelf).getLast?.map fun o =>
      (w.setShelf shelf (w.shelves shelf).dropLast).goto t (.popped o)
  | .refillTransfer k c n =>
    let l := w.shelves (.transfer c)
    some ((w.setShelf (.transfer c) (restOf l n)).goto t (.toSlot k (lastOf l n)))
  | .refillCentral k batch =>
    if batch.Nodup ∧ (∀ o ∈ batch, w.spanLock (cfg.spanOf o) = none ∧
        cfg.spanOf o = cfg.spanOf (batch.headD 0) ∧ cfg.cacheable o ∧ w.centralFree o) then
      some ((w.clearFree batch).goto t (.marking k batch []))
    else none
  | .allocCentral o =>
    if w.spanLock (cfg.spanOf o) = none ∧ w.centralFree o then
      some ((w.setFree o false).emit (.handOut o))
    else none
  | .flush k n =>
    let l := w.shelves (.slot k)
    some ((w.setShelf (.slot k) (restOf l n)).goto t (.toTransfer (lastOf l n) none))
  | .drainTransfer c n =>
    let l := w.shelves (.transfer c)
    some ((w.setShelf (.transfer c) (restOf l n)).goto t (.toCentral (lastOf l n) none))
  | .drainQuarantine taken =>
    let ring := w.shelves .ring
    if ∀ x ∈ taken, taken.count x ≤ ring.count x then
      some ((w.setShelf .ring (ring.diff taken)).goto t (.drain taken))
    else none
  | .free o bypass => some (w.goto t (.screenCached o bypass))
  | _ => none

/-- One atomic step of thread `t` at position `pc`. -/
def stepAt (cfg : Config) (w : World) (t : Nat) : Pc → Move → Option World
  | .idle, move => start cfg w t move
  | .popped o, .go =>
    some (if w.cached o then ((w.setCached o false).emit (.handOut o)).goto t .idle
      else w.goto t .idle)
  | .marking k (o :: todo) marked, .go =>
    some (if w.cached o then w.goto t (.marking k todo marked)
      else (w.setCached o true).goto t (.marking k todo (marked ++ [o])))
  | .marking k [] marked, .go => some (w.goto t (.toSlot k marked))
  | .toSlot k batch, .accept n =>
    some ((w.setShelf (.slot k) (w.shelves (.slot k) ++ batch.take n)).goto t
      (.toTransfer (batch.drop n) none))
  | .toTransfer batch retry, .acceptTransfer c n =>
    some ((w.setShelf (.transfer c) (w.shelves (.transfer c) ++ batch.take n)).goto t
      (.toCentral (batch.drop n) retry))
  | .toCentral [] retry, .go => some (w.goto t (resumed retry))
  | .toCentral (o :: rest) retry, .go =>
    insert cfg w t o (.carried rest retry) (.toCentral rest retry)
  -- free bit first, then the quarantined bit, then the cached bit
  | .inserting o false after, .go =>
    some ((w.setQuarantined o false).goto t (.inserting o true after))
  | .inserting o true after, .go =>
    some (((w.setCached o false).setLock (cfg.spanOf o) none).goto t after.next)
  | .screenCached o bypass, .go =>
    some (w.goto t (if w.cached o then .idle else .screenCentralFree o bypass))
  | .screenCentralFree o bypass, .go =>
    some (w.goto t (if w.centralFree o then .idle
      else if cfg.cacheable o then .tryMarkCached o bypass else .quarantineLoad o bypass))
  | .tryMarkCached o bypass, .go =>
    some (if w.cached o then w.goto t .idle
      else (w.setCached o true).goto t (.revalidateFree o bypass))
  | .revalidateFree o bypass, .go =>
    some (w.goto t (if w.centralFree o then .unmarkAndReject o
      else .revalidateQuarantined o bypass))
  | .revalidateQuarantined o bypass, .go =>
    some (w.goto t (if w.quarantined o then .unmarkAndReject o else .quarantineLoad o bypass))
  | .unmarkAndReject o, .go => some ((w.setCached o false).goto t .idle)
  | .quarantineLoad o bypass, .go =>
    some (w.goto t (if cfg.quarantine = false then routed cfg o bypass
      else if w.quarantined o then settled cfg o
      else if cfg.cacheable o then .quarantineSwitch o bypass else .quarantineFree o bypass))
  | .quarantineSwitch o bypass, .reads enabled =>
    some (w.goto t (if enabled then .quarantineFree o bypass else routed cfg o bypass))
  | .quarantineFree o bypass, .go =>
    some (w.goto t (if w.centralFree o then settled cfg o
      else if cfg.cacheable o then .markQuarantined o bypass else .quarantineCached o bypass))
  | .quarantineCached o bypass, .go =>
    some (w.goto t (if w.cached o then .idle else .markQuarantined o bypass))
  | .markQuarantined o bypass, .reads enabled =>
    if w.spanLock (cfg.spanOf o) = none then
      some (if w.quarantined o then w.goto t (settled cfg o)
        else (w.setQuarantined o true).goto t
          (if cfg.cacheable o || enabled then .offer o bypass else .insertOwn o))
    else none
  | .offer o _, .held evicted =>
    let ring := w.shelves .ring
    if o ∉ ring ∧ ∀ x ∈ evicted, evicted.count x ≤ ring.count x then
      let w := w.setShelf .ring (ring.diff evicted ++ [o])
      some (if cfg.cacheable o then w.goto t (.handOver o evicted)
        else (w.emit (.freed o)).goto t (.drain evicted))
    else none
  | .offer o bypass, .declined =>
    some (w.goto t (if cfg.cacheable o then .releaseClaim o bypass else .insertOwn o))
  | .releaseClaim o bypass, .go =>
    if w.spanLock (cfg.spanOf o) = none then
      some ((w.setQuarantined o false).goto t (routed cfg o bypass))
    else none
  | .handOver o evicted, .go =>
    some (((w.setCached o false).emit (.freed o)).goto t (.drain evicted))
  | .drain [], .go => some (w.goto t .idle)
  | .drain (o :: rest), .go => insert cfg w t o (.drained rest) (.drain rest)
  | .push o, .pushed k =>
    some (((w.setShelf (.slot k) (w.shelves (.slot k) ++ [o])).emit (.freed o)).goto t .idle)
  | .push o, .full k n =>
    let l := w.shelves (.slot k)
    some ((w.setShelf (.slot k) (restOf l n)).goto t (.toTransfer (lastOf l n) (some (o, k))))
  | .push o, .declined => some (w.goto t (.insertOwn o))
  | .retryPush o k, .go =>
    some (((w.setShelf (.slot k) (w.shelves (.slot k) ++ [o])).emit (.freed o)).goto t .idle)
  | .retryPush o _, .declined => some (w.goto t (.insertOwn o))
  | .insertOwn o, .go =>
    (insert cfg w t o .own (.insertFailed o)).map fun w' =>
      if w.centralFree o then w' else w'.emit (.freed o)
  | .insertFailed o, .go =>
    some ((w.setCached o false).goto t
      (if cfg.quarantine && !cfg.cacheable o then .releaseFailed o else .idle))
  | .releaseFailed o, .go =>
    if w.spanLock (cfg.spanOf o) = none then some ((w.setQuarantined o false).goto t .idle)
    else none
  | _, _ => none

/-- Thread `t` takes one step. -/
def step (cfg : Config) (w : World) (t : Nat) (move : Move) : Option World := stepAt cfg w t (w.pc t) move

/-- A schedule, thread by thread. -/
def run (cfg : Config) (w : World) : List (Nat × Move) → Option World
  | [] => some w
  | (t, move) :: rest => (step cfg w t move).bind fun w' => run cfg w' rest

end Topomalloc.Race
