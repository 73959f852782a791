import Topomalloc.Numa.Topology
import Mathlib.Algebra.Ring.Nat
import Mathlib.Algebra.BigOperators.Group.Finset.Piecewise

/-! The rebalancer of `topology.rs`: a plan moves spare bytes from a node with
more free memory than demand to the node that lacks most. A node whose free
memory and demand differ is out of balance; each move brings a node into balance
and takes none out, so the moves are fewer than the nodes, and together they
cover all the need there is surplus for. -/
namespace Topomalloc
open Function Finset

/-- `NodePressure`. -/
structure NodePressure where
  freeBytes : Nat
  demandBytes : Nat
  deriving DecidableEq, Repr

namespace NodePressure
variable (p : NodePressure)

/-- `unmet_need`. -/
def unmetNeed : Nat := p.demandBytes - p.freeBytes

/-- `movable_surplus`. -/
def movableSurplus : Nat := p.freeBytes - p.demandBytes

end NodePressure

/-- `RebalanceTier`. A plan uses the last two. -/
inductive RebalanceTier
  | transferCacheSameNode
  | centralBatchSameNode
  | emptySpanCrossArena
  | backendReallocTargetNode
  | remoteReuse
  deriving DecidableEq, Repr

/-- `RebalanceMove`. -/
structure RebalanceMove where
  src : Nat
  dst : Nat
  bytes : Nat
  tier : RebalanceTier
  deriving DecidableEq, Repr

/-- The pressures of `len` nodes. -/
structure Pressures where
  len : Nat
  node : Nat → NodePressure

/-- `RebalanceMove::apply`. -/
def RebalanceMove.apply (m : RebalanceMove) (p : Pressures) : Bool × Pressures :=
  if m.src ≥ p.len ∨ m.dst ≥ p.len then (false, p)
  else
    let node := update p.node m.src { p.node m.src with freeBytes := (p.node m.src).freeBytes - m.bytes }
    let node := update node m.dst { node m.dst with demandBytes := (node m.dst).demandBytes - m.bytes }
    (true, { p with node })

namespace Rebalancer
variable (p : Pressures) (topo : Topology)

/-- The nodes a plan looks at. -/
def span : Nat := min topo.nodeCount p.len

/-- A turn of the loop that picks the recipient: a greater need wins. -/
def weighNeed (best : Option Nat × Nat) (i : Nat) : Option Nat × Nat :=
  if (p.node i).unmetNeed > best.2 then (some i, (p.node i).unmetNeed) else best

/-- The node in most need among the first `n`, with its need. -/
def recipient (n : Nat) : Option Nat × Nat := (List.range n).foldl (weighNeed p) (none, 0)

/-- A turn of the loop that picks the donor: a nearer node with a surplus wins,
and among equally near ones the larger surplus. -/
def weighSurplus (dst : Nat) (best : Option Nat × Distance × Nat) (i : Nat) : Option Nat × Distance × Nat :=
  let surplus := (p.node i).movableSurplus
  if i = dst ∨ surplus = 0 then best
  else
    let d := topo.distance i dst
    if d < best.2.1 ∨ d = best.2.1 ∧ surplus > best.2.2 then (some i, d, surplus) else best

/-- The donor for `dst` among the first `n`, with its distance and surplus. -/
def donor (dst n : Nat) : Option Nat × Distance × Nat :=
  (List.range n).foldl (weighSurplus p topo dst) (none, distanceMax, 0)

/-- `Rebalancer::plan`. -/
def plan : Option RebalanceMove :=
  if span p topo < 2 then none
  else match recipient p (span p topo) with
    | (none, _) => none
    | (some dst, need) =>
      match donor p topo dst (span p topo) with
      | (none, _, _) => none
      | (some src, _, _) =>
        let surplus := (p.node src).movableSurplus
        some
          { src, dst, bytes := min need surplus
            tier := if need > surplus then .remoteReuse else .backendReallocTargetNode }

variable {p topo} {p' : Pressures} {m : RebalanceMove} {dst n : Nat} {ms : List RebalanceMove}

/-! ## What a plan picks -/

theorem recipient_succ (n : Nat) : recipient p (n + 1) = weighNeed p (recipient p n) n := by
  rw [recipient, List.range_succ, List.foldl_append]
  rfl

theorem donor_succ (dst n : Nat) :
    donor p topo dst (n + 1) = weighSurplus p topo dst (donor p topo dst n) n := by
  rw [donor, List.range_succ, List.foldl_append]
  rfl

/-- The recipient is a node with need. -/
theorem recipient_found (picked : (recipient p n).1 = some dst) :
    dst < n ∧ (recipient p n).2 = (p.node dst).unmetNeed ∧ 0 < (p.node dst).unmetNeed := by
  induction n with
  | zero => contradiction
  | succ n ih =>
    rw [recipient_succ, weighNeed] at picked ⊢
    split at picked
    next more =>
      obtain rfl := Option.some.inj picked
      rw [if_pos more]
      exact ⟨by omega, rfl, by omega⟩
    next less =>
      rw [if_neg less]
      obtain ⟨below, need, pos⟩ := ih picked
      exact ⟨by omega, need, pos⟩

/-- Nobody is found only when nobody lacks anything. -/
theorem recipient_missed (nobody : (recipient p n).1 = none) :
    (recipient p n).2 = 0 ∧ ∀ i, i < n → (p.node i).unmetNeed = 0 := by
  induction n with
  | zero => exact ⟨rfl, fun i below => absurd below (Nat.not_lt_zero i)⟩
  | succ n ih =>
    rw [recipient_succ, weighNeed] at nobody ⊢
    split at nobody
    next => contradiction
    next less =>
      rw [if_neg less]
      obtain ⟨zero, all⟩ := ih nobody
      refine ⟨zero, fun i below => ?_⟩
      by_cases last : i = n
      · subst last
        omega
      · exact all i (by omega)

/-- The donor is another node with a surplus. -/
theorem donor_found (picked : (donor p topo dst n).1 = some src) :
    src < n ∧ src ≠ dst ∧ 0 < (p.node src).movableSurplus := by
  induction n with
  | zero => contradiction
  | succ n ih =>
    rw [donor_succ, weighSurplus] at picked
    dsimp only at picked
    split at picked
    next =>
      obtain ⟨below, other, pos⟩ := ih picked
      exact ⟨by omega, other, pos⟩
    next spare =>
      split at picked
      next =>
        obtain rfl := Option.some.inj picked
        rw [not_or] at spare
        exact ⟨by omega, spare.1, by omega⟩
      next =>
        obtain ⟨below, other, pos⟩ := ih picked
        exact ⟨by omega, other, pos⟩

/-- Nobody is found only when no other node has a surplus: at the start of the
loop even the largest distance wins. -/
theorem donor_missed (nobody : (donor p topo dst n).1 = none) :
    donor p topo dst n = (none, distanceMax, 0) ∧ ∀ i, i < n → i ≠ dst → (p.node i).movableSurplus = 0 := by
  induction n with
  | zero => exact ⟨rfl, fun i below => absurd below (Nat.not_lt_zero i)⟩
  | succ n ih =>
    rw [donor_succ, weighSurplus] at nobody ⊢
    dsimp only at nobody ⊢
    split at nobody
    next skipped =>
      rw [if_pos skipped]
      obtain ⟨start, all⟩ := ih nobody
      refine ⟨start, fun i below other => ?_⟩
      by_cases last : i = n
      · subst last
        exact skipped.resolve_left other
      · exact all i (by omega) other
    next spare =>
      split at nobody
      next => contradiction
      next worse =>
        obtain ⟨start, -⟩ := ih nobody
        rw [start] at worse
        have far : topo.distance n dst ≤ distanceMax := Fin.le_last _
        refine absurd ?_ worse
        rcases Fin.lt_or_eq_of_le far with nearer | equal
        · exact .inl nearer
        · exact .inr ⟨equal, by dsimp only; omega⟩

/-! ## What a move does -/

/-- A move between two of the first `n` nodes, as large as the need of the one
and the surplus of the other allow. -/
structure Relieves (p : Pressures) (n : Nat) (m : RebalanceMove) : Prop where
  src_lt : m.src < n
  dst_lt : m.dst < n
  apart : m.src ≠ m.dst
  bytes_eq : m.bytes = min (p.node m.dst).unmetNeed (p.node m.src).movableSurplus
  need_pos : 0 < (p.node m.dst).unmetNeed
  surplus_pos : 0 < (p.node m.src).movableSurplus

theorem plan_relieves (planned : plan p topo = some m) : Relieves p (span p topo) m := by
  unfold plan at planned
  split at planned
  · contradiction
  split at planned
  · contradiction
  next dst need picked =>
    have found : (recipient p (span p topo)).1 = some dst := by rw [picked]
    obtain ⟨inside, amount, pos⟩ := recipient_found found
    rw [picked] at amount
    dsimp only at amount
    split at planned
    · contradiction
    next src far surplus chosen =>
      have found' : (donor p topo dst (span p topo)).1 = some src := by rw [chosen]
      obtain ⟨inside', other, pos'⟩ := donor_found found'
      obtain rfl := Option.some.inj planned
      exact ⟨inside', inside, other, by rw [← amount], pos, pos'⟩

/-- No plan: nobody lacks anything, or nobody has anything to spare. -/
theorem plan_none (done : plan p topo = none) :
    (∀ i, i < span p topo → (p.node i).unmetNeed = 0) ∨
      ∀ i, i < span p topo → (p.node i).movableSurplus = 0 := by
  unfold plan at done
  split at done
  next few =>
    -- a single node has a need or a surplus, not both
    by_cases lacks : (p.node 0).unmetNeed = 0
    · left
      intro i inside
      rwa [show i = 0 by omega]
    · right
      intro i inside
      rw [show i = 0 by omega]
      simp only [NodePressure.unmetNeed, NodePressure.movableSurplus] at lacks ⊢
      omega
  next =>
    split at done
    next need nobody => exact .inl (recipient_missed (by rw [nobody])).2
    next dst need picked =>
      have found : (recipient p (span p topo)).1 = some dst := by rw [picked]
      obtain ⟨-, -, pos⟩ := recipient_found found
      split at done
      next nobody =>
        have missed : (donor p topo dst (span p topo)).1 = none := by rw [nobody]
        right
        intro i inside
        by_cases here : i = dst
        · subst here
          simp only [NodePressure.unmetNeed, NodePressure.movableSurplus] at pos ⊢
          omega
        · exact (donor_missed missed).2 i inside here
      next => contradiction

namespace Relieves
variable {n : Nat}

section
variable (h : Relieves p n m)
include h

theorem bytes_pos : 0 < m.bytes := by
  have need := h.need_pos
  have surplus := h.surplus_pos
  rw [h.bytes_eq]
  omega

theorem bytes_le_need : m.bytes ≤ (p.node m.dst).unmetNeed := by
  rw [h.bytes_eq]
  exact Nat.min_le_left ..

theorem bytes_le_surplus : m.bytes ≤ (p.node m.src).movableSurplus := by
  rw [h.bytes_eq]
  exact Nat.min_le_right ..

/-- The pressures after the move. -/
theorem apply_node (inside : n ≤ p.len) (i : Nat) :
    (m.apply p).2.node i =
      { freeBytes := (p.node i).freeBytes - if i = m.src then m.bytes else 0
        demandBytes := (p.node i).demandBytes - if i = m.dst then m.bytes else 0 } := by
  have src := h.src_lt
  have dst := h.dst_lt
  have apart := h.apart
  rw [RebalanceMove.apply, if_neg (by omega)]
  dsimp only
  by_cases atDst : i = m.dst
  · subst atDst
    rw [update_self, update_of_ne (Ne.symm apart), if_neg (Ne.symm apart), if_pos rfl]
    rfl
  · rw [update_of_ne atDst, if_neg atDst]
    by_cases atSrc : i = m.src
    · subst atSrc
      rw [update_self, if_pos rfl]
      rfl
    · rw [update_of_ne atSrc, if_neg atSrc]
      rfl

/-- The recipient's need falls by the bytes moved, and no other changes. -/
theorem need_apply (inside : n ≤ p.len) (i : Nat) :
    ((m.apply p).2.node i).unmetNeed + (if i = m.dst then m.bytes else 0) = (p.node i).unmetNeed := by
  have need := h.bytes_le_need
  have surplus := h.bytes_le_surplus
  have apart := h.apart
  rw [h.apply_node inside]
  simp only [NodePressure.unmetNeed, NodePressure.movableSurplus] at need surplus ⊢
  by_cases atDst : i = m.dst
  · subst atDst
    rw [if_neg (Ne.symm apart), if_pos rfl]
    omega
  · rw [if_neg atDst]
    by_cases atSrc : i = m.src
    · subst atSrc
      rw [if_pos rfl]
      omega
    · rw [if_neg atSrc]
      rfl

/-- The donor's surplus falls by the bytes moved, and no other changes. -/
theorem surplus_apply (inside : n ≤ p.len) (i : Nat) :
    ((m.apply p).2.node i).movableSurplus + (if i = m.src then m.bytes else 0) =
      (p.node i).movableSurplus := by
  have need := h.bytes_le_need
  have surplus := h.bytes_le_surplus
  have apart := h.apart
  rw [h.apply_node inside]
  simp only [NodePressure.unmetNeed, NodePressure.movableSurplus] at need surplus ⊢
  by_cases atDst : i = m.dst
  · subst atDst
    rw [if_neg (Ne.symm apart), if_pos rfl]
    omega
  · rw [if_neg atDst]
    by_cases atSrc : i = m.src
    · subst atSrc
      rw [if_pos rfl]
      omega
    · rw [if_neg atSrc]
      rfl

end

end Relieves

theorem apply_len (m : RebalanceMove) (p : Pressures) : (m.apply p).2.len = p.len := by
  unfold RebalanceMove.apply
  split
  · rfl
  · rfl

theorem span_apply (m : RebalanceMove) : span (m.apply p).2 topo = span p topo := by
  rw [span, span, apply_len]

theorem span_le_len : span p topo ≤ p.len := Nat.min_le_right ..

/-! ## Nodes out of balance -/

/-- The nodes whose free memory and demand differ. -/
def unbalanced (p : Pressures) (n : Nat) : Finset Nat :=
  (range n).filter fun i => (p.node i).unmetNeed ≠ 0 ∨ (p.node i).movableSurplus ≠ 0

theorem unbalanced_card_le (n : Nat) : (unbalanced p n).card ≤ n := by
  have most := card_filter_le (range n) fun i =>
    (p.node i).unmetNeed ≠ 0 ∨ (p.node i).movableSurplus ≠ 0
  rwa [card_range] at most

/-- A move has two nodes out of balance to work with. -/
theorem Relieves.two_unbalanced (h : Relieves p n m) : 2 ≤ (unbalanced p n).card := by
  have src : m.src ∈ unbalanced p n :=
    mem_filter.mpr ⟨mem_range.mpr h.src_lt, .inr (Nat.pos_iff_ne_zero.mp h.surplus_pos)⟩
  have dst : m.dst ∈ unbalanced p n :=
    mem_filter.mpr ⟨mem_range.mpr h.dst_lt, .inl (Nat.pos_iff_ne_zero.mp h.need_pos)⟩
  exact one_lt_card.mpr ⟨m.src, src, m.dst, dst, h.apart⟩

/-- A move brings its donor or its recipient into balance. -/
theorem Relieves.fewer_unbalanced (h : Relieves p n m) (inside : n ≤ p.len) :
    (unbalanced (m.apply p).2 n).card < (unbalanced p n).card := by
  have need := h.need_apply inside
  have surplus := h.surplus_apply inside
  have kept : unbalanced (m.apply p).2 n ⊆ unbalanced p n := by
    intro i member
    obtain ⟨below, differs⟩ := mem_filter.mp member
    have needAt := need i
    have surplusAt := surplus i
    exact mem_filter.mpr ⟨below, by omega⟩
  apply card_lt_card
  apply (ssubset_iff_of_subset kept).mpr
  have bytes := h.bytes_eq
  have needDst := need m.dst
  have surplusSrc := surplus m.src
  rw [if_pos rfl] at needDst surplusSrc
  rcases Nat.le_total (p.node m.dst).unmetNeed (p.node m.src).movableSurplus with covered | short
  · -- the recipient's need is met
    rw [Nat.min_eq_left covered] at bytes
    have still := surplus m.dst
    rw [if_neg (Ne.symm h.apart)] at still
    have needPos := h.need_pos
    refine ⟨m.dst, mem_filter.mpr ⟨mem_range.mpr h.dst_lt, by omega⟩, fun member => ?_⟩
    have differs := (mem_filter.mp member).2
    simp only [NodePressure.unmetNeed, NodePressure.movableSurplus] at *
    omega
  · -- the donor has nothing left to spare
    rw [Nat.min_eq_right short] at bytes
    have still := need m.src
    rw [if_neg h.apart] at still
    have surplusPos := h.surplus_pos
    refine ⟨m.src, mem_filter.mpr ⟨mem_range.mpr h.src_lt, by omega⟩, fun member => ?_⟩
    have differs := (mem_filter.mp member).2
    simp only [NodePressure.unmetNeed, NodePressure.movableSurplus] at *
    omega

/-! ## Whole runs -/

/-- The moves planned and applied one after another, from `p` to `p'`. -/
inductive Moves (topo : Topology) : Pressures → List RebalanceMove → Pressures → Prop
  | done (p : Pressures) : Moves topo p [] p
  | move {p p' : Pressures} {m : RebalanceMove} {ms : List RebalanceMove}
      (planned : plan p topo = some m) (rest : Moves topo (m.apply p).2 ms p') :
      Moves topo p (m :: ms) p'

/-- The bytes a list of moves moves. -/
def movedBytes (ms : List RebalanceMove) : Nat := (ms.map RebalanceMove.bytes).sum

/-- What the first `n` nodes lack, and what they have to spare. -/
def needTotal (p : Pressures) (n : Nat) : Nat := ∑ i ∈ range n, (p.node i).unmetNeed

@[inherit_doc needTotal]
def surplusTotal (p : Pressures) (n : Nat) : Nat := ∑ i ∈ range n, (p.node i).movableSurplus

/-- Taking `b` from one term takes `b` from the sum. -/
theorem sum_taken {f g : Nat → Nat} (inside : k < n) (taken : ∀ i, g i + (if i = k then b else 0) = f i) :
    ∑ i ∈ range n, g i + b = ∑ i ∈ range n, f i := by
  have one : ∑ i ∈ range n, (if i = k then b else 0) = b := by
    rw [sum_ite_eq' (range n) k fun _ => b, if_pos (mem_range.mpr inside)]
  rw [← sum_congr rfl fun i _ => taken i, sum_add_distrib, one]

theorem Moves.span_eq (run : Moves topo p ms p') : span p' topo = span p topo := by
  induction run with
  | done => rfl
  | move _ _ ih => rw [ih, span_apply]

/-- What is moved is taken off the needs and off the surpluses alike. -/
theorem Moves.totals (run : Moves topo p ms p') :
    needTotal p' (span p topo) + movedBytes ms = needTotal p (span p topo) ∧
      surplusTotal p' (span p topo) + movedBytes ms = surplusTotal p (span p topo) := by
  induction run with
  | done => exact ⟨rfl, rfl⟩
  | @move p p' m ms planned rest ih =>
    have relieves := plan_relieves planned
    have need := sum_taken relieves.dst_lt (relieves.need_apply span_le_len)
    have surplus := sum_taken relieves.src_lt (relieves.surplus_apply span_le_len)
    rw [span_apply] at ih
    obtain ⟨needLater, surplusLater⟩ := ih
    simp only [needTotal, surplusTotal, movedBytes, List.map_cons, List.sum_cons] at *
    omega

/-- Each move leaves fewer nodes out of balance, and a move needs two of them. -/
theorem Moves.length_le (run : Moves topo p ms p') : ms.length ≤ (unbalanced p (span p topo)).card - 1 := by
  induction run with
  | done => exact Nat.zero_le _
  | @move p p' m ms planned rest ih =>
    have relieves := plan_relieves planned
    have fewer := relieves.fewer_unbalanced span_le_len
    have two := relieves.two_unbalanced
    rw [span_apply] at ih
    rw [List.length_cons]
    omega

/-- Planning and applying comes to an end. -/
theorem exists_moves (topo : Topology) (p : Pressures) :
    ∃ ms p', Moves topo p ms p' ∧ plan p' topo = none := by
  -- on the number of nodes out of balance
  induction left : (unbalanced p (span p topo)).card using Nat.strong_induction_on generalizing p with
  | _ left ih =>
    cases next : plan p topo with
    | none => exact ⟨[], p, .done p, next⟩
    | some m =>
      have fewer := (plan_relieves next).fewer_unbalanced span_le_len
      obtain ⟨ms, p', run, ended⟩ := ih _ (left ▸ fewer) (m.apply p).2 (by rw [span_apply])
      exact ⟨m :: ms, p', .move next run, ended⟩

theorem Moves.covered (run : Moves topo p ms p') (ended : plan p' topo = none) :
    movedBytes ms = min (needTotal p (span p topo)) (surplusTotal p (span p topo)) := by
  obtain ⟨need, surplus⟩ := run.totals
  have nothing := plan_none ended
  rw [run.span_eq] at nothing
  rcases nothing with met | spent
  · have zero : needTotal p' (span p topo) = 0 :=
      sum_eq_zero fun i member => met i (mem_range.mp member)
    omega
  · have zero : surplusTotal p' (span p topo) = 0 :=
      sum_eq_zero fun i member => spent i (mem_range.mp member)
    omega

/-- Planning and applying until there is no plan takes fewer moves than there are
nodes and moves all the need there is surplus for; each move is of at least one
byte, within the donor's surplus and the recipient's need, and raises nobody's
need. -/
theorem rebalance_settles (topo : Topology) (p : Pressures) :
    (∃ ms p', Moves topo p ms p' ∧ plan p' topo = none) ∧
      (∀ ms p', Moves topo p ms p' → ms.length ≤ topo.nodeCount - 1 ∧ (plan p' topo = none →
          movedBytes ms = min (needTotal p (min topo.nodeCount p.len))
            (surplusTotal p (min topo.nodeCount p.len)))) ∧
      ∀ q m, plan q topo = some m → 1 ≤ m.bytes ∧ m.bytes ≤ (q.node m.src).movableSurplus ∧
          m.bytes ≤ (q.node m.dst).unmetNeed ∧
          ∀ i, ((m.apply q).2.node i).unmetNeed ≤ (q.node i).unmetNeed := by
  refine ⟨exists_moves topo p, fun ms p' run => ⟨?_, run.covered⟩, fun q m planned => ?_⟩
  · have few := run.length_le
    have most : (unbalanced p (span p topo)).card ≤ span p topo := unbalanced_card_le _
    have nodes : span p topo ≤ topo.nodeCount := Nat.min_le_left ..
    omega
  · have relieves := plan_relieves planned
    refine ⟨relieves.bytes_pos, relieves.bytes_le_surplus, relieves.bytes_le_need, fun i => ?_⟩
    have taken := relieves.need_apply span_le_len i
    omega

/-- A planned donor had something to spare at the start, and a recipient lacked
something. -/
theorem Moves.ends (run : Moves topo p ms p') :
    ∀ m ∈ ms, 0 < (p.node m.src).movableSurplus ∧ 0 < (p.node m.dst).unmetNeed := by
  induction run with
  | done => simp
  | @move p p' m ms planned rest ih =>
    have relieves := plan_relieves planned
    intro later member
    rcases List.mem_cons.mp member with rfl | member
    · exact ⟨relieves.surplus_pos, relieves.need_pos⟩
    · obtain ⟨surplus, need⟩ := ih later member
      have spared := relieves.surplus_apply span_le_len later.src
      have lacked := relieves.need_apply span_le_len later.dst
      omega

/-- Planning and applying to the end never thrashes: no node both gives and receives. -/
theorem rebalance_never_thrashes (topo : Topology) (p : Pressures) :
    ∃ ms p', Moves topo p ms p' ∧ plan p' topo = none ∧ ∀ m ∈ ms, ∀ m' ∈ ms, m.src ≠ m'.dst := by
  obtain ⟨ms, p', run, ended⟩ := exists_moves topo p
  refine ⟨ms, p', run, ended, fun m gives m' takes same => ?_⟩
  have spared := (run.ends m gives).1
  have lacked := (run.ends m' takes).2
  rw [same] at spared
  simp only [NodePressure.unmetNeed, NodePressure.movableSurplus] at spared lacked
  omega

end Rebalancer
end Topomalloc
