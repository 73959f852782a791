import Topomalloc.Arena.Table
import Topomalloc.Huge.Geometry
import Topomalloc.Lib.Selection
import Topomalloc.Numa.Rebalance

/-! `node_router.rs`: one hugepage backend for each memory node, and on a machine
with several nodes an unbound one for requests that leave the placement to the
operating system. A request is offered to the node its policy chooses, then to the
other nodes, nearest first, then to the unbound backend; a region is handed back to
the backend whose memory it is. Each call of a backend is one step. -/
namespace Topomalloc
open Function Bitmap

/-- The bytes of empty hugepages that are still backed, as `coverage` counts
them. -/
def HugePageFiller.emptyBackedBytes (f : HugePageFiller) : Nat :=
  ((List.range f.nextUntouched).map fun i =>
    if (f.get i).touched && (f.get i).used == 0 then popcount (f.get i).committed * pageSize
    else 0).sum

/-- One of a router's backends. -/
inductive Target
  | node (i : Nat)
  | default
  deriving DecidableEq, Repr

/-- `NodeRouter`, without the lock and the provider; the running CPU is an
argument of the calls that read it. -/
structure NodeRouter where
  backends : Nat → Option HugePageBackend
  defaultBackend : Option HugePageBackend
  nNodes : Nat
  topo : Topology
  interleave : Nat
  allocFailures : Nat → Nat
  bindFailures : Nat
  rebalanceMoves : Nat
  rebalanceReleasedBytes : Nat
  spillovers : Nat
  nodes_pos : 0 < nNodes
  filled : ∀ i, i < nNodes → (backends i).isSome = true

/-- What became of a request: the answer, the backends asked with what each
answered, and the router and the provider's state after it. -/
structure Placing (σ : Type) where
  answer : Option Region
  asked : List (Target × Option Region)
  router : NodeRouter
  world : σ

/-- Go on where the request was declined. -/
def Placing.orElse {σ : Type} (o : Placing σ) (next : NodeRouter → σ → Placing σ) : Placing σ :=
  match o.answer with
  | some _ => o
  | none =>
    let o' := next o.router o.world
    { o' with asked := o.asked ++ o'.asked }

namespace NodeRouter

/-- `NodeRouter::build`. `make` is the factory and `binds` whether binding the
backend of a node to an operating-system node takes. -/
def build (topo : Topology) (make : Option Nat → Option HugePageBackend)
    (binds : (node os : Nat) → Bool) : Option NodeRouter :=
  let n := topo.nodeCount
  if sized : n = 0 ∨ n > maxNodes then none
  else
    let backends i := if i < n then make (some i) else none
    if filled : ∀ i, i < n → (backends i).isSome = true then
      match if n > 1 then (make none).map some else some none with
      | none => none
      | some defaultBackend => some
          { backends, defaultBackend, nNodes := n, topo, interleave := 0
            allocFailures := fun _ => 0
            bindFailures := ((List.range n).filter fun i => !binds i (topo.osNodeOf i)).length
            rebalanceMoves := 0, rebalanceReleasedBytes := 0, spillovers := 0
            nodes_pos := by omega, filled }
    else none

variable (r : NodeRouter)

/-- The backend a target names. -/
def backend : Target → Option HugePageBackend
  | .node i => r.backends i
  | .default => r.defaultBackend

def setBackend : Target → HugePageBackend → NodeRouter
  | .node i, g =>
    { r with
      backends := update r.backends i (some g)
      filled := fun j inside => by
        by_cases here : j = i
        · rw [here, update_self, Option.isSome_some]
        · rw [update_of_ne here]
          exact r.filled j inside }
  | .default, g => { r with defaultBackend := some g }

/-- `owner`. -/
def owner (addr : Nat) : Option Target :=
  match (List.range r.nNodes).find? fun i => (r.backends i).any (·.ownsAddr addr) with
  | some i => some (.node i)
  | none => if r.defaultBackend.any (·.ownsAddr addr) then some .default else none

/-- `choose_node`, on CPU `cpu`. -/
def chooseNode (policy : NumaPolicy) (cpu : Nat) : Option Nat × NodeRouter :=
  match policy with
  | .osDefault => (none, r)
  | .arenaPolicy => (none, r)
  | .interleave => (some (r.interleave % r.nNodes), { r with interleave := wrappingSucc32 r.interleave })
  | .local => (some (min (r.topo.nodeOfCpu cpu) (r.nNodes - 1)), r)
  | .bind node => (some (if node < r.nNodes then node else 0), r)

/-- `refresh`. -/
def refresh (topo : Topology) : NodeRouter := { r with topo }

/-- `refresh_if_mismatch`, where `rebuilt` is what the host would rebuild. -/
def refreshIfMismatch (cpu observedNode : Nat) (rebuilt : Topology) : Bool × NodeRouter :=
  if r.topo.detectMismatch cpu observedNode then (true, r.refresh rebuilt) else (false, r)

def countSpill : NodeRouter := { r with spillovers := wrappingAdd64 r.spillovers 1 }

def countFailure (node : Nat) : NodeRouter :=
  { r with allocFailures := update r.allocFailures node (wrappingAdd64 (r.allocFailures node) 1) }

section Calls
variable {σ : Type} (P : Provider σ)

/-- A call of the backend a target names, if there is one. -/
def call {α : Type} (t : Target) (absent : α)
    (f : HugePageBackend × σ → α × HugePageBackend × σ) (w : σ) : α × NodeRouter × σ :=
  match r.backend t with
  | none => (absent, r, w)
  | some g =>
    let (answer, g, w) := f (g, w)
    (answer, r.setBackend t g, w)

section Placing
variable (bytes align : Nat) (hints : Hints)

/-- Offer the request to one backend. -/
def ask (t : Target) (w : σ) : Placing σ :=
  match r.backend t with
  | none => ⟨none, [], r, w⟩
  | some g =>
    let (answer, g, w) := (HugePageBackend.hook P).tryAlloc (g, w) bytes align hints
    ⟨answer, [(t, answer)], r.setBackend t g, w⟩

/-- Offer the request to a backend that is not the preferred one. -/
def spill (t : Target) (w : σ) : Placing σ :=
  let o := r.ask P bytes align hints t w
  match o.answer with
  | some _ => { o with router := o.router.countSpill }
  | none => o

/-- Offer the request to a backend that was preferred. -/
def prefer (node : Nat) (w : σ) : Placing σ :=
  match r.backends node with
  | none => ⟨none, [], r, w⟩
  | some _ =>
    let o := r.ask P bytes align hints (.node node) w
    match o.answer with
    | some _ => o
    | none => { o with router := o.router.countFailure node }

/-- The loop of `alloc_bound`: the nearest of the first `n` nodes by the distances
that are left, which marks it tried. -/
def spillNearest (n : Nat) : (turns : Nat) → (Nat → Distance) → NodeRouter → σ → Placing σ
  | 0, _, r, w => ⟨none, [], r, w⟩
  | turns + 1, dist, r, w =>
    match (Selection.least dist n).1 with
    | none => ⟨none, [], r, w⟩
    | some best =>
      (r.spill P bytes align hints (.node best) w).orElse (spillNearest n turns (update dist best ⊤))

/-- The distances `alloc_bound` works with; the node itself has the largest. -/
def distances (node : Nat) (i : Nat) : Distance :=
  if i < r.nNodes ∧ i ≠ node then r.topo.distance node i else ⊤

/-- `alloc_bound`. -/
def allocBound (node : Nat) (w : σ) : Placing σ :=
  ((r.prefer P bytes align hints node w).orElse
    (spillNearest P bytes align hints r.nNodes r.nNodes (r.distances node))).orElse
      fun r w => r.spill P bytes align hints .default w

/-- The loop of `alloc_default` over the nodes. -/
def spillEach : List Nat → NodeRouter → σ → Placing σ
  | [], r, w => ⟨none, [], r, w⟩
  | i :: is, r, w => (r.spill P bytes align hints (.node i) w).orElse (spillEach is)

/-- `alloc_default`. -/
def allocDefault (w : σ) : Placing σ :=
  match r.defaultBackend with
  | some _ => (r.ask P bytes align hints .default w).orElse
      (spillEach P bytes align hints (List.range r.nNodes))
  | none => r.ask P bytes align hints (.node 0) w

/-- `try_alloc` of a request with the given policy, on CPU `cpu`. -/
def tryAlloc (policy : NumaPolicy) (cpu : Nat) (w : σ) : Placing σ :=
  if hints.hugepage = .avoid then ⟨none, [], r, w⟩
  else match r.chooseNode policy cpu with
    | (some node, r) => r.allocBound P bytes align hints node w
    | (none, r) => r.allocDefault P bytes align hints w

end Placing

/-! ## Handing back -/

/-- `try_cache`. -/
def tryCache (region : Region) (w : σ) : Bool × NodeRouter × σ :=
  match r.owner region.base with
  | none => (false, r, w)
  | some t => r.call t false (fun s => (HugePageBackend.hook P).tryCache s region) w

/-- `try_cache_revoking`. -/
def tryCacheRevoking (region : Region) (arena : Nat) (w : σ) : Bool × NodeRouter × σ :=
  match r.owner region.base with
  | none => (false, r, w)
  | some t => r.call t false (fun s => (HugePageBackend.hook P).tryCacheRevoking s region arena) w

/-- `try_trim`. -/
def tryTrim (region : Region) (newLen : Nat) (w : σ) : Option Nat × NodeRouter × σ :=
  match r.owner region.base with
  | none => (none, r, w)
  | some t => r.call t none (fun s => (HugePageBackend.hook P).tryTrim s region newLen) w

/-! ## Maintenance -/

/-- `sample_pressure`: the pressures of the nodes, and the router with its failure
counts taken. -/
def samplePressure : Pressures × NodeRouter :=
  ({ len := r.nNodes
     node := fun i =>
       { freeBytes := ((r.backends i).map (·.filler.emptyBackedBytes)).getD 0
         demandBytes := min (r.allocFailures i * hugepageSize) usizeMax } },
    { r with allocFailures := fun i => if i < r.nNodes then 0 else r.allocFailures i })

/-- `rebalance_tick`. -/
def rebalanceTick (w : σ) : Option RebalanceMove × NodeRouter × σ :=
  let (pressures, r) := r.samplePressure
  match Rebalancer.plan pressures r.topo with
  | none => (none, r, w)
  | some move =>
    let (released, r, w) := r.call (.node move.src) 0
      (fun s => s.1.releaseEmptyWithinBytes P move.bytes s.2) w
    (some { move with bytes := released },
      { r with
        rebalanceMoves := wrappingAdd64 r.rebalanceMoves 1
        rebalanceReleasedBytes := wrappingAdd64 r.rebalanceReleasedBytes released }, w)

/-- `release_idle` of the backends `ts`. -/
def releaseIdleFrom (reserve : Nat) : List Target → (released : Nat) → NodeRouter → σ → Nat × NodeRouter × σ
  | [], released, r, w => (released, r, w)
  | t :: ts, released, r, w =>
    let (bytes, r, w) := r.call t 0 (fun s => s.1.releaseEmptyExcessBounded P reserve usizeMax s.2) w
    releaseIdleFrom reserve ts (released + bytes) r w

/-- `release_idle`. -/
def releaseIdle (reservePerNode : Nat) (w : σ) : Nat × NodeRouter × σ :=
  releaseIdleFrom P reservePerNode ((List.range r.nNodes).map .node ++ [.default]) 0 r w

/-! ## Runs -/

inductive Call
  | tryAlloc (policy : NumaPolicy) (cpu bytes align : Nat) (hints : Hints)
  | tryCache (region : Region)
  | tryCacheRevoking (region : Region) (arena : Nat)
  | tryTrim (region : Region) (newLen : Nat)
  | refresh (topo : Topology)
  | refreshIfMismatch (cpu observedNode : Nat) (rebuilt : Topology)
  | rebalanceTick
  | releaseIdle (reservePerNode : Nat)

/-- The router and the provider's state after one call. -/
def step (s : NodeRouter × σ) : Call → NodeRouter × σ
  | .tryAlloc policy cpu bytes align hints =>
    let o := s.1.tryAlloc P bytes align hints policy cpu s.2
    (o.router, o.world)
  | .tryCache region => (s.1.tryCache P region s.2).2
  | .tryCacheRevoking region arena => (s.1.tryCacheRevoking P region arena s.2).2
  | .tryTrim region newLen => (s.1.tryTrim P region newLen s.2).2
  | .refresh topo => (s.1.refresh topo, s.2)
  | .refreshIfMismatch cpu observedNode rebuilt =>
    ((s.1.refreshIfMismatch cpu observedNode rebuilt).2, s.2)
  | .rebalanceTick => (s.1.rebalanceTick P s.2).2
  | .releaseIdle reservePerNode => (s.1.releaseIdle P reservePerNode s.2).2

def run (s : NodeRouter × σ) (calls : List Call) : NodeRouter × σ := calls.foldl (step P) s

end Calls
end NodeRouter
end Topomalloc
