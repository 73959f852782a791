import Topomalloc.Lib.Renumber
import Mathlib.Algebra.GroupWithZero.Nat

/-! `topology.rs`: the bounded snapshot of CPUs, last-level caches and memory
nodes, and the builder a host fills from what it discovers. A snapshot numbers
the operating system's nodes densely, in increasing order; a reading with a gap
or a contradiction becomes the single-domain snapshot. -/
namespace Topomalloc
open Function Renumber

/-- `MAX_CPUS` of `topology.rs`. -/
def maxTopologyCpus : Nat := 256

/-- `MAX_NODES`. -/
def maxNodes : Nat := 16

/-- `MAX_LLC`. -/
def maxLlc : Nat := 64

/-- A node distance is a `u8`. -/
abbrev Distance := Fin 256

instance Distance.neZero : NeZero 256 := ⟨by decide⟩

/-- `DISTANCE_LOCAL`. -/
def distanceLocal : Distance := 10

/-- `DISTANCE_REMOTE`. -/
def distanceRemote : Distance := 20

/-- `u8::MAX`. -/
def distanceMax : Distance := 255

/-- `NodeId::DEFAULT`. -/
def defaultNode : Nat := 0

/-- `Topology`. Every CPU is on one of the nodes, and the nodes keep the order
of their numbers in the operating system. -/
structure Topology where
  nCpus : Nat
  nNodes : Nat
  nLlc : Nat
  cpuNode : Nat → Nat
  cpuLlc : Nat → Nat
  nodeDist : Nat → Nat → Distance
  nodeOsId : Nat → Nat
  nodes_pos : 0 < nNodes
  nodes_le : nNodes ≤ maxNodes
  cpuNode_lt : ∀ c, cpuNode c < nNodes
  osId_lt_of_lt : ∀ a b, a < b → b < nNodes → nodeOsId a < nodeOsId b

namespace Topology
variable (t : Topology)

/-- The matrix before the host says anything. -/
def plainDist (a b : Nat) : Distance := if a = b then distanceLocal else distanceRemote

/-- `single_domain`. -/
def singleDomain (nCpus : Nat) : Topology where
  nCpus := min (max nCpus 1) maxTopologyCpus
  nNodes := 1
  nLlc := 1
  cpuNode _ := 0
  cpuLlc _ := 0
  nodeDist := plainDist
  nodeOsId i := i
  nodes_pos := by decide
  nodes_le := by decide
  cpuNode_lt _ := by decide
  osId_lt_of_lt _ _ lt _ := lt

/-- `node_of_cpu`. -/
def nodeOfCpu (cpu : Nat) : Nat := if cpu < t.nCpus then t.cpuNode cpu else defaultNode

/-- `os_node_of`. -/
def osNodeOf (node : Nat) : Nat := if node < t.nNodes then t.nodeOsId node else 0

/-- `node_count`. -/
def nodeCount : Nat := t.nNodes

/-- `is_single_domain`. -/
def isSingleDomain : Bool := decide (t.nNodes ≤ 1) && decide (t.nLlc ≤ 1)

/-- `detect_mismatch`. -/
def detectMismatch (cpu observedNode : Nat) : Bool := !t.isSingleDomain && t.nodeOfCpu cpu != observedNode

/-- `distance`. -/
def distance (a b : Nat) : Distance :=
  if a < maxNodes ∧ b < maxNodes then t.nodeDist a b
  else if a = b then distanceLocal
  else distanceRemote

theorem nodeOfCpu_lt (cpu : Nat) : t.nodeOfCpu cpu < t.nNodes := by
  unfold nodeOfCpu
  split
  · exact t.cpuNode_lt cpu
  · exact t.nodes_pos

end Topology

/-! ## The builder -/

/-- `TopologyBuilder`. What `set_cpu` records is in range. -/
structure TopologyBuilder where
  nCpus : Nat
  cpuNode : Nat → Nat
  cpuLlc : Nat → Nat
  cpuSet : Nat → Bool
  nodeDist : Nat → Nat → Distance
  consistent : Bool
  cpuNode_lt : ∀ c, cpuNode c < maxNodes
  cpuLlc_lt : ∀ c, cpuLlc c < maxLlc

namespace TopologyBuilder

/-- `TopologyBuilder::new`. -/
def new (nCpus : Nat) : TopologyBuilder where
  nCpus := if 1 ≤ nCpus ∧ nCpus ≤ maxTopologyCpus then nCpus else 0
  cpuNode _ := 0
  cpuLlc _ := 0
  cpuSet _ := false
  nodeDist := Topology.plainDist
  consistent := decide (1 ≤ nCpus ∧ nCpus ≤ maxTopologyCpus)
  cpuNode_lt _ := by decide
  cpuLlc_lt _ := by decide

variable (b : TopologyBuilder)

theorem update_lt {v : Nat} (below : ∀ c, f c < limit) (lt : v < limit)
    (c : Nat) : update f k v c < limit := by
  by_cases here : c = k
  · rw [here, update_self]
    exact lt
  · rw [update_of_ne here]
    exact below c

/-- `set_cpu`. -/
def setCpu (cpu node llc : Nat) : TopologyBuilder :=
  if fits : cpu < b.nCpus ∧ node < maxNodes ∧ llc < maxLlc then
    { b with
      cpuNode := update b.cpuNode cpu node
      cpuLlc := update b.cpuLlc cpu llc
      cpuSet := update b.cpuSet cpu true
      cpuNode_lt := update_lt b.cpuNode_lt fits.2.1
      cpuLlc_lt := update_lt b.cpuLlc_lt fits.2.2 }
  else { b with consistent := false }

/-- `set_distance`. -/
def setDistance (x y : Nat) (dist : Distance) : TopologyBuilder :=
  if x < maxNodes ∧ y < maxNodes then
    { b with nodeDist := update b.nodeDist x (update (b.nodeDist x) y dist) }
  else b

/-- Some online CPU is on node `os`. -/
def nodeUsed (os : Nat) : Bool := (List.range b.nCpus).any fun k => b.cpuNode k == os

/-- Some online CPU has cache `l`. -/
def llcUsed (l : Nat) : Bool := (List.range b.nCpus).any fun k => b.cpuLlc k == l

/-- The dense numbers of the nodes in use. -/
def nodes : Numbering := renumber b.nodeUsed maxNodes

/-- The dense numbers of the caches in use. -/
def llcs : Numbering := renumber b.llcUsed maxLlc

theorem nodeUsed_of_cpu (online : k < b.nCpus) : b.nodeUsed (b.cpuNode k) = true := by
  simp only [nodeUsed, List.any_eq_true, List.mem_range, beq_iff_eq]
  exact ⟨k, online, rfl⟩

theorem nodes_count_pos (some_cpu : b.nCpus ≠ 0) : 0 < b.nodes.count :=
  Nat.zero_lt_of_lt (denseOf_lt (b.nodeUsed_of_cpu (k := 0) (by omega)) (b.cpuNode_lt 0))

/-- The snapshot of a consistent reading. -/
def discovered (some_cpu : b.nCpus ≠ 0) : Topology where
  nCpus := b.nCpus
  nNodes := b.nodes.count
  nLlc := b.llcs.count
  cpuNode c := if c < b.nCpus then b.nodes.denseOf (b.cpuNode c) else 0
  cpuLlc c := if c < b.nCpus then b.llcs.denseOf (b.cpuLlc c) else 0
  nodeDist x y :=
    if x < b.nodes.count ∧ y < b.nodes.count then b.nodeDist (b.nodes.idOf x) (b.nodes.idOf y)
    else Topology.plainDist x y
  nodeOsId d := if d < b.nodes.count then b.nodes.idOf d else d
  nodes_pos := b.nodes_count_pos some_cpu
  nodes_le := count_le _ _
  cpuNode_lt c := by
    split
    next online => exact denseOf_lt (b.nodeUsed_of_cpu online) (b.cpuNode_lt c)
    next => exact b.nodes_count_pos some_cpu
  osId_lt_of_lt x y lt inside := by
    rw [if_pos (Nat.lt_trans lt inside), if_pos inside]
    exact idOf_lt_of_lt lt inside

/-- `build`. -/
def build : Topology :=
  if some_cpu : b.consistent = false ∨ b.nCpus = 0 then Topology.singleDomain (max b.nCpus 1)
  else if (List.range b.nCpus).all b.cpuSet = false then Topology.singleDomain b.nCpus
  else b.discovered (not_or.mp some_cpu).2

end TopologyBuilder
end Topomalloc
