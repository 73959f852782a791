import Topomalloc.Numa.Routing

/-! Placement over whole runs of the router: whatever calls came before, a request
is declined by all the backends it was offered to, each of them asked once and the
nodes nearest first, and a region finds its way back to the backend that served it
however many calls later. -/
namespace Topomalloc.NodeRouter
open Function Selection

variable {r r' : NodeRouter} {t : Target} {g : HugePageBackend} {node i : Nat}

/-! ## The order of the questions -/

/-- The search leaves out the nodes at the largest distance. -/
theorem mem_others : i ∈ r.others node ↔ i < r.nNodes ∧ i ≠ node ∧ r.topo.distance node i ≠ distanceMax := by
  rw [others, mem_visits (pending_card_le r.nNodes), distances, lt_top_iff_ne_top]
  constructor
  · rintro ⟨below, near⟩
    split at near
    next counted => exact ⟨below, counted.2, near⟩
    next => exact absurd rfl near
  · rintro ⟨below, other, near⟩
    rw [if_pos ⟨below, other⟩]
    exact ⟨below, near⟩

theorem node_injective : Injective Target.node := fun _ _ => Target.node.inj

theorem order_nodup (chosen : Option Nat) : (r.order chosen).Nodup := by
  have single : r.unbound.Nodup := by
    unfold unbound
    split
    · exact List.nodup_singleton _
    · exact List.nodup_nil
  cases chosen with
  | some node =>
    have nodes : ((r.others node).map Target.node).Nodup := (visits_nodup r.nNodes).map node_injective
    have apart : ∀ t ∈ (r.others node).map Target.node, t ∉ r.unbound := by
      intro t listed unbound
      obtain ⟨i, -, rfl⟩ := List.mem_map.mp listed
      exact Target.noConfusion (mem_unbound.mp unbound).1
    rw [order, List.cons_append, List.nodup_cons]
    refine ⟨fun again => ?_, List.nodup_append.mpr ⟨nodes, single, fun t listed t' unbound same =>
      apart t listed (same ▸ unbound)⟩⟩
    rcases List.mem_append.mp again with listed | unbound
    · obtain ⟨i, member, same⟩ := List.mem_map.mp listed
      exact (mem_others.mp member).2.1 (node_injective same)
    · exact Target.noConfusion (mem_unbound.mp unbound).1
  | none =>
    rw [order]
    split
    · refine List.nodup_cons.mpr ⟨fun again => ?_, List.nodup_range.map node_injective⟩
      obtain ⟨i, -, same⟩ := List.mem_map.mp again
      exact Target.noConfusion same
    · exact List.nodup_singleton _

/-- After the chosen node the others follow in the order of their distance. -/
theorem order_sorted (node : Nat) :
    (r.order (some node)).tail.Pairwise fun a b => ∀ i j, a = .node i → b = .node j →
      r.topo.distance node i ≤ r.topo.distance node j := by
  rw [order, List.cons_append, List.tail_cons, List.pairwise_append]
  refine ⟨?_, ?_, fun a _ b unbound i j _ same => ?_⟩
  · rw [List.pairwise_map]
    refine (visits_sorted r.nNodes).imp_of_mem fun {a b} memberA memberB le => ?_
    rintro i j ⟨⟩ ⟨⟩
    have member : ∀ k, k ∈ r.others node → r.distances node k = r.topo.distance node k := by
      intro k member
      obtain ⟨below, other, -⟩ := mem_others.mp member
      exact if_pos ⟨below, other⟩
    rwa [member a memberA, member b memberB] at le
  · unfold unbound
    split
    · exact List.pairwise_singleton ..
    · exact .nil
  · rw [(mem_unbound.mp unbound).1] at same
    exact Target.noConfusion same

/-- The backends of a sound router that a request is not offered to: the nodes at
the largest distance from the chosen one. -/
theorem Sound.mem_order (sound : Sound r) (chosen : Option Nat)
    (inside : ∀ node, chosen = some node → node < r.nNodes) (present : Present r t) :
    t ∈ r.order chosen ↔ ∀ node i, chosen = some node → t = .node i → i ≠ node →
      r.topo.distance node i ≠ distanceMax := by
  have below : ∀ i, t = .node i → i < r.nNodes := by
    rintro i rfl
    obtain ⟨g, found⟩ := Option.isSome_iff_exists.mp present
    exact sound.inside i g found
  cases chosen with
  | some node =>
    rw [order, List.cons_append, List.mem_cons, List.mem_append]
    cases t with
    | default =>
      refine ⟨fun _ _ _ _ same => Target.noConfusion same, fun _ => .inr (.inr ?_)⟩
      exact mem_unbound.mpr ⟨rfl, present⟩
    | node i =>
      constructor
      · rintro (same | listed | unbound) _ _ ⟨⟩ ⟨⟩ other
        · exact absurd (node_injective same) other
        · obtain ⟨j, member, same⟩ := List.mem_map.mp listed
          obtain rfl := node_injective same
          exact (mem_others.mp member).2.2
        · exact Target.noConfusion (mem_unbound.mp unbound).1
      · intro near
        by_cases here : i = node
        · exact .inl (congrArg Target.node here)
        · refine .inr (.inl (List.mem_map.mpr ⟨i, mem_others.mpr ?_, rfl⟩))
          exact ⟨below i rfl, here, near node i rfl rfl here⟩
  | none =>
    refine ⟨fun _ node _ chosen => (nomatch chosen), fun _ => ?_⟩
    rw [order]
    split
    next there =>
      cases t with
      | default => exact List.mem_cons_self
      | node i =>
        exact List.mem_cons_of_mem _ (List.mem_map.mpr ⟨i, List.mem_range.mpr (below i rfl), rfl⟩)
    next gone =>
      have absent : r.backend .default = none := by simpa [backend] using gone
      have one := sound.single absent
      cases t with
      | default =>
        rw [Present, absent] at present
        contradiction
      | node i =>
        have first := below i rfl
        rw [List.mem_singleton, show i = 0 by omega]

/-! ## Whole runs -/

section Runs
variable {σ : Type} (P : Provider σ) {make : Option Nat → Option HugePageBackend}

/-- A call of one backend keeps every backend in its region, if that backend
does. -/
theorem Sound.stays_call {α : Type} (sound : Sound r) (t : Target) (absent : α)
    {f : HugePageBackend × σ → α × HugePageBackend × σ}
    (kept : ∀ g : HugePageBackend, g.Rooted → g.Stays (f (g, w)).2.1) : Stays r (r.call t absent f w).2.1 := by
  unfold call
  cases found : r.backend t with
  | none => exact sound.refl
  | some g => exact sound.stays_setBackend found (kept g (sound.rooted t g found))

theorem hook_tryCacheRevoking_stays (rooted : g.Rooted) (region : Region) (arena : Nat) (w : σ) :
    g.Stays ((HugePageBackend.hook P).tryCacheRevoking (g, w) region arena).2.1 := by
  simp only [HugePageBackend.hook]
  split
  · exact rooted.stays
  · exact HugePageBackend.freeRegion_stays rooted region

theorem Sound.stays_releaseIdleFrom (sound : Sound r) (reserve : Nat) (ts : List Target)
    (released : Nat) (w : σ) : Stays r (releaseIdleFrom P reserve ts released r w).2.1 := by
  induction ts generalizing r released w with
  | nil => exact sound.refl
  | cons t ts ih =>
    unfold releaseIdleFrom
    have stays : Stays r (r.call t 0 (fun s => s.1.releaseEmptyExcessBounded P reserve usizeMax s.2) w).2.1 :=
      sound.stays_call t 0 fun g rooted =>
        HugePageBackend.releaseEmptyExcessBounded_stays rooted reserve usizeMax w
    exact stays.trans (ih (sound.stays stays) _ _)

theorem Sound.stays_rebalanceTick (sound : Sound r) (w : σ) : Stays r (r.rebalanceTick P w).2.1 := by
  unfold rebalanceTick
  have sampled : Stays r r.samplePressure.2 := sound.stays_of_backend rfl fun t => by cases t <;> rfl
  dsimp only
  split
  · exact sampled
  next move _ =>
    have stays := sampled.trans ((sound.stays sampled).stays_call (.node move.src) 0
      (f := fun s => s.1.releaseEmptyWithinBytes P move.bytes s.2) (w := w) fun g rooted =>
        HugePageBackend.releaseEmptyWithinBytes_stays rooted move.bytes w)
    exact stays.trans ((sound.stays stays).stays_of_backend rfl fun t => by cases t <;> rfl)

/-- No call moves a backend. -/
theorem Sound.stays_step (sound : Sound r) (w : σ) (c : Call) : Stays r (step P (r, w) c).1 := by
  cases c with
  | tryAlloc policy cpu bytes align hints =>
    by_cases avoid : hints.hugepage = .avoid
    · have declined : r.tryAlloc P bytes align hints policy cpu w = ⟨none, [], r, w⟩ := if_pos avoid
      simp only [step, declined]
      exact sound.refl
    · exact (tryAlloc_tried P bytes align hints sound avoid policy cpu w).stays
  | tryCache region =>
    simp only [step, tryCache]
    split
    · exact sound.refl
    · exact sound.stays_call _ _ fun g rooted => HugePageBackend.freeRegion_stays rooted region
  | tryCacheRevoking region arena =>
    simp only [step, tryCacheRevoking]
    split
    · exact sound.refl
    · exact sound.stays_call _ _ fun g rooted =>
        hook_tryCacheRevoking_stays P rooted region arena w
  | tryTrim region newLen =>
    simp only [step, tryTrim]
    split
    · exact sound.refl
    · refine sound.stays_call _ _ fun g rooted => ?_
      simp only [HugePageBackend.hook]
      exact HugePageBackend.trimRegion_stays rooted region newLen
  | refresh topo => exact sound.stays_of_backend rfl fun t => by cases t <;> rfl
  | refreshIfMismatch cpu observedNode rebuilt =>
    simp only [step, refreshIfMismatch]
    split
    · exact sound.stays_of_backend rfl fun t => by cases t <;> rfl
    · exact sound.refl
  | rebalanceTick => exact sound.stays_rebalanceTick P w
  | releaseIdle reservePerNode => exact sound.stays_releaseIdleFrom P reservePerNode _ 0 w

theorem Sound.stays_run (sound : Sound r) (w : σ) (calls : List Call) : Stays r (run P (r, w) calls).1 := by
  induction calls generalizing r w with
  | nil => exact sound.refl
  | cons c calls ih =>
    have first := sound.stays_step P w c
    exact first.trans (ih (sound.stays first) _)

/-! ## A new router -/

/-- What the host's factory makes: backends rooted in their reservations, which do
not meet. -/
structure Makes (make : Option Nat → Option HugePageBackend) : Prop where
  rooted : ∀ t g, make t = some g → g.Rooted
  apart : ∀ t t' g g' addr, make t = some g → make t' = some g' →
    g.ownsAddr addr = true → g'.ownsAddr addr = true → t = t'

/-- What a built router is made of. -/
theorem build_eq {topo : Topology} (built : build topo make binds = some r) :
    r.nNodes = topo.nodeCount ∧ r.topo = topo ∧
      (∀ i, r.backends i = if i < topo.nodeCount then make (some i) else none) ∧
      r.defaultBackend = (if topo.nodeCount > 1 then make none else none) ∧
      (topo.nodeCount > 1 → r.defaultBackend.isSome = true) := by
  unfold build at built
  dsimp only at built
  split at built
  · contradiction
  split at built
  · split at built
    · contradiction
    next defaultBackend made =>
      obtain rfl := Option.some.inj built
      refine ⟨rfl, rfl, fun _ => rfl, ?_, fun many => ?_⟩
      · split at made
        next many =>
          rw [if_pos many]
          obtain ⟨g, making, rfl⟩ := Option.map_eq_some_iff.mp made
          exact making.symm
        next few =>
          rw [if_neg few]
          exact (Option.some.inj made).symm
      · rw [if_pos many] at made
        obtain ⟨g, -, rfl⟩ := Option.map_eq_some_iff.mp made
        rfl
  · contradiction

/-- The request to the factory that a backend came from. -/
def Target.origin : Target → Option Nat
  | .node i => some i
  | .default => none

theorem origin_injective : Injective Target.origin := by
  intro t t' same
  cases t with
  | node i =>
    cases t' with
    | node j => exact congrArg Target.node (Option.some.inj same)
    | default => contradiction
  | default =>
    cases t' with
    | node j => contradiction
    | default => rfl

theorem build_sound {topo : Topology} (makes : Makes make)
    (built : build topo make binds = some r) : Sound r := by
  obtain ⟨nodes, -, backends, unbound, some_default⟩ := build_eq built
  have made : ∀ t g, r.backend t = some g → make (Target.origin t) = some g := by
    intro t g found
    cases t with
    | node i =>
      rw [backend, backends, Option.ite_none_right_eq_some] at found
      exact found.2
    | default =>
      rw [backend, unbound, Option.ite_none_right_eq_some] at found
      exact found.2
  refine ⟨fun t g found => makes.rooted _ g (made t g found),
    fun t t' g g' addr found found' owned owned' => ?_, fun i g found => ?_, fun absent => ?_⟩
  · exact origin_injective (makes.apart _ _ g g' addr (made t g found) (made t' g' found') owned owned')
  · rw [backends, Option.ite_none_right_eq_some] at found
    rw [nodes]
    exact found.1
  · have pos := r.nodes_pos
    by_contra several
    have there := some_default (by omega)
    rw [backend] at absent
    rw [absent] at there
    contradiction

/-! ## What a caller can rely on -/

theorem Tried.isPrefix (tried : Tried P bytes align hints r ts o) : o.asked.map Prod.fst <+: ts := by
  cases answered : o.answer with
  | none =>
    rw [tried.declined answered, List.map_map]
    exact ⟨[], by simp [comp_def]⟩
  | some region =>
    obtain ⟨before, t, after, split, asked, -⟩ := tried.served region answered
    rw [asked, split]
    exact ⟨after, by simp [comp_def]⟩

/-- Every call on a region goes to the backend whose memory it is. -/
structure GoesTo (r : NodeRouter) (region : Region) (t : Target) : Prop where
  tryCache : ∀ w, r.tryCache P region w =
    r.call t false (fun s => (HugePageBackend.hook P).tryCache s region) w
  tryCacheRevoking : ∀ arena w, r.tryCacheRevoking P region arena w =
    r.call t false (fun s => (HugePageBackend.hook P).tryCacheRevoking s region arena) w
  tryTrim : ∀ newLen w, r.tryTrim P region newLen w =
    r.call t none (fun s => (HugePageBackend.hook P).tryTrim s region newLen) w

theorem goesTo_of_owner (owner : r.owner region.base = some t) : GoesTo P r region t := by
  refine ⟨fun w => ?_, fun arena w => ?_, fun newLen w => ?_⟩
  · rw [NodeRouter.tryCache, owner]
  · rw [NodeRouter.tryCacheRevoking, owner]
  · rw [NodeRouter.tryTrim, owner]

end Runs

/-- Every backend declines an alignment above a hugepage. -/
theorem declines_overaligned {σ : Type} (P : Provider σ) (s : HugePageBackend × σ) :
    ((HugePageBackend.hook P).tryAlloc s 1 (2 * hugepageSize) {}).1 = none := by
  simp only [HugePageBackend.hook, HugePageBackend.allocate]
  rw [if_neg (by decide)]
  split
  · rfl
  · split
    · rfl
    · rw [if_pos (.inr (.inr (by decide)))]

/-- A router over any topologies, after any calls. Declined requests were declined by
every backend exactly when no other node is at the largest distance from the chosen
one: such a node is left out. No backend is asked twice, and the nodes other than the
chosen one are asked nearest first; a region goes back, at any later time, to the
backend that served it. -/
theorem placement {σ : Type} (P : Provider σ) {topo : Topology}
    {make : Option Nat → Option HugePageBackend} {binds : Nat → Nat → Bool} {r₀ : NodeRouter}
    (makes : Makes make) (built : build topo make binds = some r₀) (w₀ : σ) (calls : List Call)
    (policy : NumaPolicy) (cpu : Nat) :
    let (r, w) := run P (r₀, w₀) calls
    ((∀ bytes align hints, hints.hugepage ≠ .avoid →
        (r.tryAlloc P bytes align hints policy cpu w).answer = none →
        ∀ t, Present r t → (t, none) ∈ (r.tryAlloc P bytes align hints policy cpu w).asked) ↔
      ∀ node i, (r.chooseNode policy cpu).1 = some node → i < r.nNodes → i ≠ node →
        r.topo.distance node i ≠ distanceMax) ∧
    ∀ bytes align hints, hints.hugepage ≠ .avoid →
      let o := r.tryAlloc P bytes align hints policy cpu w
      (o.asked.map Prod.fst).Nodup ∧
      (∀ node, (r.chooseNode policy cpu).1 = some node →
        (o.asked.map Prod.fst).tail.Pairwise fun a b => ∀ i j, a = .node i → b = .node j →
          r.topo.distance node i ≤ r.topo.distance node j) ∧
      ∀ region, o.answer = some region → ∃ t, (t, some region) ∈ o.asked ∧
        ∀ later, GoesTo P (run P (o.router, o.world) later).1 region t := by
  have sound := (build_sound makes built).stays ((build_sound makes built).stays_run P w₀ calls)
  generalize run P (r₀, w₀) calls = s at sound
  obtain ⟨r, w⟩ := s
  dsimp only at sound ⊢
  have chosen : ∀ node, (r.chooseNode policy cpu).1 = some node → node < r.nNodes :=
    fun node => chooseNode_lt
  refine ⟨⟨fun complete node i picked below other => ?_,
    fun near bytes align hints huge declined t present => ?_⟩, fun bytes align hints huge => ?_⟩
  · have huge : ({} : Hints).hugepage ≠ .avoid := by decide
    have tried := tryAlloc_tried P 1 (2 * hugepageSize) {} sound huge policy cpu w
    have declined : (r.tryAlloc P 1 (2 * hugepageSize) {} policy cpu w).answer = none := by
      refine Option.eq_none_iff_forall_ne_some.mpr fun region served => ?_
      obtain ⟨-, -, -, -, -, -, s, serves⟩ := tried.served region served
      rw [declines_overaligned] at serves
      contradiction
    have asked := complete 1 (2 * hugepageSize) {} huge declined (.node i) (present_node below)
    rw [tried.declined declined, List.mem_map] at asked
    obtain ⟨t, listed, same⟩ := asked
    obtain rfl := congrArg Prod.fst same
    exact (sound.mem_order _ chosen (present_node below)).mp listed node i picked rfl other
  · have tried := tryAlloc_tried P bytes align hints sound huge policy cpu w
    rw [tried.declined declined, List.mem_map]
    refine ⟨t, (sound.mem_order _ chosen present).mpr fun node i picked named other => ?_, rfl⟩
    subst named
    obtain ⟨g, found⟩ := Option.isSome_iff_exists.mp present
    exact near node i picked (sound.inside i g found) other
  · have tried := tryAlloc_tried P bytes align hints sound huge policy cpu w
    generalize r.tryAlloc P bytes align hints policy cpu w = o at tried
    refine ⟨tried.isPrefix.sublist.nodup (order_nodup _), fun node picked => ?_,
      fun region served => ?_⟩
    · have front := tried.isPrefix
      rw [picked] at front
      exact (order_sorted node).sublist front.sublist.tail
    · obtain ⟨before, t, after, -, asked, owns, -⟩ := tried.served region served
      refine ⟨t, by simp [asked], fun later => goesTo_of_owner P ?_⟩
      have sound' := sound.stays tried.stays
      have stays := sound'.stays_run P o.world later
      exact (sound'.stays stays).owner_eq (stays.owns (tried.stays.owns owns))

/-! ## A node that is never tried -/

/-- Two CPUs on two nodes, the second node as far from the first as can be. -/
def farTopology : Topology :=
  ((((TopologyBuilder.new 2).setCpu 0 0 0).setCpu 1 1 1).setDistance 0 1 distanceMax).build

/-- The second node has two hugepages, the others one each. -/
def farHugepages (t : Option Nat) : Nat := if t = some 1 then 2 else 1

/-- Reservations that do not meet. -/
def farRegion (t : Option Nat) : Region :=
  ⟨(match t with | some i => 2 * i + 2 | none => 0) * hugepageSize, farHugepages t * hugepageSize⟩

def farMake (t : Option Nat) : Option HugePageBackend :=
  HugePageBackend.new ⟨64, 16, true, true⟩ (farRegion t) 0 (farHugepages t) 1

theorem makes_farMake : Makes farMake := by
  have made_spec : ∀ t g, farMake t = some g → g.Rooted ∧ g.region = farRegion t :=
    fun t g made => HugePageBackend.new_rooted made (Nat.le_refl _)
  refine ⟨fun t g made => (made_spec t g made).1, fun t t' g g' addr made made' owned owned' => ?_⟩
  have few : ∀ t, farHugepages t ≤ 2 := by
    intro t
    unfold farHugepages
    split <;> decide
  have few₁ := few t
  have few₂ := few t'
  simp only [HugePageBackend.ownsAddr, (made_spec t g made).2, (made_spec t' g' made').2,
    Bool.and_eq_true, decide_eq_true_eq, farRegion] at owned owned'
  generalize farHugepages t = n at few₁ owned
  generalize farHugepages t' = n' at few₂ owned'
  simp only [hugepageSize] at owned owned'
  cases t with
  | none =>
    cases t' with
    | none => rfl
    | some j =>
      dsimp only at owned owned'
      omega
  | some i =>
    cases t' with
    | none =>
      dsimp only at owned owned'
      omega
    | some j =>
      dsimp only at owned owned'
      congr 1
      omega

theorem farRouter_built : (build farTopology farMake fun _ _ => true).isSome = true := by
  decide +kernel

def farRouter : NodeRouter := (build farTopology farMake fun _ _ => true).get farRouter_built

/-- A request for two hugepages on node 0 is declined although node 1, which is not
asked, would serve it. -/
theorem farthest_node_not_asked :
    build farTopology farMake (fun _ _ => true) = some farRouter ∧ farRouter.nNodes = 2 ∧
      (farRouter.tryAlloc .willing (2 * hugepageSize) pageSize {} (.bind 0) 0 ()).answer = none ∧
      (farRouter.tryAlloc .willing (2 * hugepageSize) pageSize {} (.bind 0) 0 ()).asked =
        [(.node 0, none), (.default, none)] ∧
      (farRouter.ask .willing (2 * hugepageSize) pageSize {} (.node 1) ()).answer.isSome = true :=
  ⟨(Option.some_get farRouter_built).symm, by decide +kernel, by decide +kernel, by decide +kernel,
    by decide +kernel⟩

/-- A request for one hugepage on node 0 is served there and goes back there. -/
theorem placement_farRouter :
    Makes farMake ∧ build farTopology farMake (fun _ _ => true) = some farRouter ∧
      ∃ t, ∀ later, GoesTo (σ := Unit) .willing (run .willing
          ((farRouter.tryAlloc .willing hugepageSize pageSize {} (.bind 0) 0 ()).router, ()) later).1
        ⟨2 * hugepageSize, hugepageSize⟩ t := by
  have built : build farTopology farMake (fun _ _ => true) = some farRouter :=
    (Option.some_get farRouter_built).symm
  obtain ⟨-, -, returns⟩ := (placement .willing makes_farMake built () [] (.bind 0) 0).2 hugepageSize
    pageSize {} (by decide)
  obtain ⟨t, -, goes⟩ := returns ⟨2 * hugepageSize, hugepageSize⟩ (by decide +kernel)
  exact ⟨makes_farMake, built, t, goes⟩

end Topomalloc.NodeRouter
