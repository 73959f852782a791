import Topomalloc.Numa.Placement

/-! Placement after a refresh. The backends keep the numbers that the snapshot of
the build gave their nodes, while a local request goes by the numbers of the current
snapshot. A node's number is the count of the snapshot's nodes below it in the
operating system's order, so the two agree for a node when as many nodes are below
it now as there were at the build. -/
namespace Topomalloc

namespace Topology
variable {t : Topology}

/-- How many nodes of the snapshot come before `os` in the operating system's
order. -/
def below (t : Topology) (os : Nat) : Nat :=
  ((List.range t.nNodes).filter fun d => decide (t.nodeOsId d < os)).length

theorem filter_lt_range (limit n : Nat) :
    (List.range n).filter (fun d => decide (d < limit)) = List.range (min limit n) := by
  induction n with
  | zero => rw [Nat.min_zero]; rfl
  | succ n ih =>
    rw [List.range_succ, List.filter_append, ih]
    by_cases under : n < limit
    · rw [Nat.min_eq_right (Nat.le_of_lt under), Nat.min_eq_right under, List.range_succ]
      simp [under]
    · rw [Nat.min_eq_left (Nat.le_of_not_lt under), Nat.min_eq_left (by omega)]
      simp [under]

/-- A node's number is the count of the nodes below it. -/
theorem below_osNodeOf (inside : d < t.nNodes) : t.below (t.osNodeOf d) = d := by
  have same : ∀ e ∈ List.range t.nNodes, decide (t.nodeOsId e < t.osNodeOf d) = decide (e < d) := by
    intro e member
    have insideE := List.mem_range.mp member
    rw [osNodeOf, if_pos inside, decide_eq_decide]
    constructor
    · intro less
      by_contra notLess
      rcases Nat.eq_or_lt_of_le (Nat.le_of_not_lt notLess) with rfl | more
      · exact Nat.lt_irrefl _ less
      · have := t.osId_lt_of_lt d e more insideE
        omega
    · exact fun less => t.osId_lt_of_lt e d less inside
  rw [below, List.filter_congr same, filter_lt_range, List.length_range,
    Nat.min_eq_left (Nat.le_of_lt inside)]

end Topology

namespace NodeRouter
variable {σ : Type} (P : Provider σ) {r : NodeRouter} {topo : Topology} {binds : Nat → Nat → Bool}

/-- The operating-system node that the memory of backend `i` was bound to, if the
bind took. -/
def boundTo (topo : Topology) (binds : Nat → Nat → Bool) (i : Nat) : Option Nat :=
  if i < topo.nodeCount ∧ binds i (topo.osNodeOf i) = true then some (topo.osNodeOf i) else none

theorem boundTo_eq_some :
    boundTo topo binds i = some os ↔
      i < topo.nodeCount ∧ binds i (topo.osNodeOf i) = true ∧ topo.osNodeOf i = os := by
  rw [boundTo]
  split
  next bound => simp [bound.1, bound.2]
  next unbound =>
    simp only [reduceCtorEq, false_iff]
    exact fun ⟨inside, took, _⟩ => unbound ⟨inside, took⟩

/-- The first backend asked is the first of the order. -/
theorem Tried.head
    (tried : Tried P bytes align hints r (t :: ts) o) : o.asked.head?.map Prod.fst = some t := by
  cases answered : o.answer with
  | none =>
    rw [tried.declined answered]
    rfl
  | some region =>
    obtain ⟨before, t', after, split, asked, -⟩ := tried.served region answered
    cases before with
    | nil =>
      rw [asked]
      exact congrArg some (List.cons.inj split).1.symm
    | cons first before =>
      rw [asked]
      exact congrArg some (List.cons.inj split).1.symm

/-- A local request is first offered to the backend with the current number of the
CPU's node. -/
theorem local_first (sound : Sound r) (huge : hints.hugepage ≠ .avoid) (bytes align cpu : Nat) (w : σ) :
    (r.tryAlloc P bytes align hints .local cpu w).asked.head?.map Prod.fst =
      some (.node (min (r.topo.nodeOfCpu cpu) (r.nNodes - 1))) :=
  (tryAlloc_tried P bytes align hints sound huge .local cpu w).head

/-- After any calls, refreshes among them: a local request goes first to the backend
bound to the node its CPU is on exactly when that node, if a backend is bound to
it, has kept its number. -/
theorem local_first_iff {σ : Type} (P : Provider σ) {topo : Topology}
    {make : Option Nat → Option HugePageBackend} {binds : Nat → Nat → Bool} {r₀ : NodeRouter}
    (makes : Makes make) (built : build topo make binds = some r₀) (w₀ : σ) (calls : List Call)
    (cpu bytes align : Nat) (hints : Hints) (huge : hints.hugepage ≠ .avoid) :
    let (r, w) := run P (r₀, w₀) calls
    let os := r.topo.osNodeOf (r.topo.nodeOfCpu cpu)
    (∀ i, boundTo topo binds i = some os →
      (r.tryAlloc P bytes align hints .local cpu w).asked.head?.map Prod.fst = some (.node i)) ↔
    ((∃ i, boundTo topo binds i = some os) → topo.below os = min (r.topo.below os) (topo.nodeCount - 1)) := by
  have stays := (build_sound makes built).stays_run P w₀ calls
  have sound := (build_sound makes built).stays stays
  have nodes : (run P (r₀, w₀) calls).1.nNodes = topo.nodeCount := stays.nodes.trans (build_eq built).1
  generalize run P (r₀, w₀) calls = s at sound nodes
  obtain ⟨r, w⟩ := s
  dsimp only at nodes ⊢
  have current := Topology.below_osNodeOf (r.topo.nodeOfCpu_lt cpu)
  rw [local_first P sound huge bytes align cpu w, current, nodes]
  constructor
  · rintro first ⟨i, bound⟩
    have number := first i bound
    obtain ⟨inside, -, named⟩ := boundTo_eq_some.mp bound
    have before := Topology.below_osNodeOf inside
    rw [named] at before
    rw [before]
    exact (node_injective (Option.some.inj number)).symm
  · intro kept i bound
    have number := kept ⟨i, bound⟩
    obtain ⟨inside, -, named⟩ := boundTo_eq_some.mp bound
    have before := Topology.below_osNodeOf inside
    rw [named] at before
    rw [← number, before]

/-! ## A node that goes away -/

/-- Three CPUs on the nodes 1, 2 and 0. -/
def threeNodes : Topology := ((((TopologyBuilder.new 3).setCpu 0 1 0).setCpu 1 2 0).setCpu 2 0 0).build

/-- The same machine without its third CPU. -/
def twoNodes : Topology := (((TopologyBuilder.new 2).setCpu 0 1 0).setCpu 1 2 0).build

theorem threeRouter_built : (build threeNodes farMake fun _ _ => true).isSome = true := by
  decide +kernel

def threeRouter : NodeRouter := (build threeNodes farMake fun _ _ => true).get threeRouter_built

/-- Once node 0 is gone, a local request from a CPU on node 1 goes first to the
memory bound to node 0, although a backend is bound to node 1. -/
theorem local_first_on_another_node :
    build threeNodes farMake (fun _ _ => true) = some threeRouter ∧
      (threeRouter.refresh twoNodes).topo.osNodeOf ((threeRouter.refresh twoNodes).topo.nodeOfCpu 0) = 1 ∧
      boundTo threeNodes (fun _ _ => true) 0 = some 0 ∧
      boundTo threeNodes (fun _ _ => true) 1 = some 1 ∧
      (((threeRouter.refresh twoNodes).tryAlloc .willing pageSize pageSize {} .local 0 ()).asked.map
        Prod.fst).head? = some (.node 0) :=
  ⟨(Option.some_get threeRouter_built).symm, by decide +kernel, by decide +kernel,
    by decide +kernel, by decide +kernel⟩

/-- Before the refresh the request goes to its own node. -/
theorem local_first_iff_threeNodes :
    Makes farMake ∧ build threeNodes farMake (fun _ _ => true) = some threeRouter ∧
      (threeRouter.tryAlloc .willing pageSize pageSize {} .local 0 ()).asked.head?.map Prod.fst =
        some (.node 1) := by
  have built : build threeNodes farMake (fun _ _ => true) = some threeRouter :=
    (Option.some_get threeRouter_built).symm
  have kept := local_first_iff .willing makes_farMake built () [] 0 pageSize pageSize {} (by decide)
  exact ⟨makes_farMake, built, kept.mpr (fun _ => by decide +kernel) 1 (by decide +kernel)⟩

end NodeRouter
end Topomalloc
