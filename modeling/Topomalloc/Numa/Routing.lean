import Topomalloc.Numa.Router

/-! What the router asks, in which order, and where regions go back to.

A placement asks the backends of a fixed list, one after another, until one
serves. The list has the nodes nearest first, without the nodes whose distance is
the largest there is: the search takes these for tried. -/
namespace Topomalloc.NodeRouter
open Function Selection

variable {r r' r'' : NodeRouter} {t t' : Target} {g g' : HugePageBackend} {addr : Nat}

/-! ## Backends and their regions -/

/-- The same backends, each in its own region. -/
structure Stays (r r' : NodeRouter) : Prop where
  nodes : r'.nNodes = r.nNodes
  kept : ∀ t g, r.backend t = some g → ∃ g', r'.backend t = some g' ∧ g.Stays g'
  absent : ∀ t, r.backend t = none → r'.backend t = none

/-- The backends are rooted in regions that do not meet. -/
structure Sound (r : NodeRouter) : Prop where
  rooted : ∀ t g, r.backend t = some g → g.Rooted
  apart : ∀ t t' g g' addr, r.backend t = some g → r.backend t' = some g' →
    g.ownsAddr addr = true → g'.ownsAddr addr = true → t = t'
  inside : ∀ i g, r.backends i = some g → i < r.nNodes
  single : r.backend .default = none → r.nNodes = 1

/-- The address is in the region of the backend `t` names. -/
def Owns (r : NodeRouter) (t : Target) (addr : Nat) : Prop :=
  ∃ g, r.backend t = some g ∧ g.ownsAddr addr = true

theorem Stays.trans (first : Stays r r') (second : Stays r' r'') : Stays r r'' := by
  refine ⟨second.nodes.trans first.nodes, fun t g found => ?_, fun t absent =>
    second.absent t (first.absent t absent)⟩
  obtain ⟨g', found', stays⟩ := first.kept t g found
  obtain ⟨g'', found'', stays'⟩ := second.kept t g' found'
  exact ⟨g'', found'', stays.trans stays'⟩

theorem Sound.stays_of_backend (sound : Sound r) (nodes : r'.nNodes = r.nNodes)
    (same : ∀ t, r'.backend t = r.backend t) : Stays r r' := by
  refine ⟨nodes, fun t g found => ⟨g, (same t).trans found, (sound.rooted t g found).stays⟩,
    fun t absent => (same t).trans absent⟩

theorem Sound.refl (sound : Sound r) : Stays r r := sound.stays_of_backend rfl fun _ => rfl

theorem Stays.owns (stays : Stays r r') (owns : Owns r t addr) : Owns r' t addr := by
  obtain ⟨g, found, owned⟩ := owns
  obtain ⟨g', found', kept⟩ := stays.kept t g found
  exact ⟨g', found', (kept.ownsAddr addr).trans owned⟩

/-- A backend of the later router was there before, in the same region. -/
theorem Stays.back (stays : Stays r r') (found : r'.backend t = some g') :
    ∃ g, r.backend t = some g ∧ g.Stays g' := by
  cases before : r.backend t with
  | none => rw [stays.absent t before] at found; contradiction
  | some g =>
    obtain ⟨g'', found', kept⟩ := stays.kept t g before
    rw [found] at found'
    obtain rfl := Option.some.inj found'
    exact ⟨g, rfl, kept⟩

theorem Sound.stays (sound : Sound r) (stays : Stays r r') : Sound r' := by
  refine ⟨fun t g' found => ?_, fun t t' g g' addr found found' owned owned' => ?_,
    fun i g found => ?_, fun absent => ?_⟩
  · obtain ⟨g, -, kept⟩ := stays.back found
    exact kept.rooted
  · obtain ⟨g₁, before, kept⟩ := stays.back found
    obtain ⟨g₂, before', kept'⟩ := stays.back found'
    rw [kept.ownsAddr] at owned
    rw [kept'.ownsAddr] at owned'
    exact sound.apart t t' g₁ g₂ addr before before' owned owned'
  · have found' : r'.backend (.node i) = some g := found
    obtain ⟨g₁, before, -⟩ := stays.back found'
    rw [stays.nodes]
    exact sound.inside i g₁ before
  · rw [stays.nodes]
    apply sound.single
    cases before : r.backend .default with
    | none => rfl
    | some g =>
      obtain ⟨g', found, -⟩ := stays.kept .default g before
      rw [absent] at found
      contradiction

theorem Sound.eq_of_owns (sound : Sound r) (owns : Owns r t addr) (owns' : Owns r t' addr) : t = t' := by
  obtain ⟨g, found, owned⟩ := owns
  obtain ⟨g', found', owned'⟩ := owns'
  exact sound.apart t t' g g' addr found found' owned owned'

theorem setBackend_self : (r.setBackend t g).backend t = some g := by
  cases t with
  | node i => exact update_self ..
  | default => rfl

theorem setBackend_other (other : t' ≠ t) : (r.setBackend t g).backend t' = r.backend t' := by
  cases t with
  | node i =>
    cases t' with
    | node j => exact update_of_ne (fun same => other (congrArg Target.node same)) _ _
    | default => rfl
  | default =>
    cases t' with
    | node j => rfl
    | default => exact absurd rfl other

theorem setBackend_nNodes : (r.setBackend t g).nNodes = r.nNodes := by
  cases t with
  | node i => rfl
  | default => rfl

theorem Sound.stays_setBackend (sound : Sound r) (found : r.backend t = some g)
    (kept : g.Stays g') : Stays r (r.setBackend t g') := by
  refine ⟨setBackend_nNodes, fun t' g₁ before => ?_, fun t' absent => ?_⟩
  · by_cases here : t' = t
    · subst here
      rw [found] at before
      obtain rfl := Option.some.inj before
      exact ⟨g', setBackend_self, kept⟩
    · exact ⟨g₁, (setBackend_other here).trans before, (sound.rooted t' g₁ before).stays⟩
  · have other : t' ≠ t := fun same => by
      rw [same, found] at absent
      contradiction
    exact (setBackend_other other).trans absent

/-- The owner of an address is the backend whose region it is in. -/
theorem Sound.owner_eq (sound : Sound r) (owns : Owns r t addr) : r.owner addr = some t := by
  have owning : ∀ i, (r.backends i).any (·.ownsAddr addr) = true → Owns r (.node i) addr := by
    intro i holds
    cases found : r.backends i with
    | none => rw [found] at holds; contradiction
    | some g => rw [found] at holds; exact ⟨g, found, holds⟩
  unfold owner
  split
  next i first =>
    have holds := List.find?_some first
    exact congrArg some (sound.eq_of_owns (owning i holds) owns)
  next nobody =>
    have none_owns := List.find?_eq_none.mp nobody
    obtain ⟨g, found, owned⟩ := owns
    cases t with
    | node i =>
      have here : r.backends i = some g := found
      have listed : i ∈ List.range r.nNodes := List.mem_range.mpr (sound.inside i g here)
      exact absurd (by rw [here]; exact owned) (none_owns i listed)
    | default =>
      have here : r.defaultBackend = some g := found
      rw [here, if_pos]
      exact owned

/-! ## Asking along a list -/

section Placing
variable {σ : Type} {w : σ} {P : Provider σ} {bytes align : Nat} {hints : Hints}

variable (P bytes align hints) in
/-- The backends `ts` were asked one after another: all of them in vain, or up to
the one that serves, from its own region. -/
structure Tried (r : NodeRouter) (ts : List Target) (o : Placing σ) : Prop where
  stays : Stays r o.router
  declined : o.answer = none → o.asked = ts.map fun t => (t, none)
  served : ∀ region, o.answer = some region → ∃ before t after, ts = before ++ t :: after ∧
    o.asked = before.map (fun t => (t, none)) ++ [(t, some region)] ∧ Owns r t region.base ∧
    ∃ s, ((HugePageBackend.hook P).tryAlloc s bytes align hints).1 = some region

theorem Tried.nothing (stays : Stays r r') : Tried P bytes align hints r [] (⟨none, [], r', w⟩ : Placing σ) :=
  ⟨stays, fun _ => rfl, fun _ served => nomatch served⟩

/-- Another router after the same questions. -/
theorem Tried.reroute (tried : Tried P bytes align hints r ts o) (stays : Stays o.router r') :
    Tried P bytes align hints r ts { o with router := r' } :=
  ⟨tried.stays.trans stays, tried.declined, tried.served⟩

theorem Tried.orElse (tried : Tried P bytes align hints r ts o)
    (after : Tried P bytes align hints o.router ts' (next o.router o.world)) :
    Tried P bytes align hints r (ts ++ ts') (o.orElse next) := by
  unfold Placing.orElse
  split
  next region answered =>
    refine ⟨tried.stays, fun declined => ?_, fun region' served => ?_⟩
    · rw [answered] at declined
      contradiction
    · obtain ⟨before, t, rest, split, found⟩ := tried.served region' served
      exact ⟨before, t, rest ++ ts', by rw [split, List.append_assoc, List.cons_append], found⟩
  next declined =>
    have first := tried.declined declined
    refine ⟨tried.stays.trans after.stays, fun declined' => ?_, fun region served => ?_⟩
    · dsimp only at declined' ⊢
      rw [first, after.declined declined', List.map_append]
    · dsimp only at served ⊢
      obtain ⟨before, t, rest, split, asked, owns, serves⟩ := after.served region served
      refine ⟨ts ++ before, t, rest, by rw [split, List.append_assoc], ?_, ?_, serves⟩
      · rw [first, asked, List.map_append, List.append_assoc]
      · obtain ⟨g', found, owned⟩ := owns
        obtain ⟨g, found', kept⟩ := tried.stays.back found
        exact ⟨g, found', by rw [← kept.ownsAddr]; exact owned⟩

variable (P bytes align hints)

/-- A backend's answer to the request. -/
theorem hook_tryAlloc_stays (rooted : g.Rooted) (w : σ) :
    g.Stays ((HugePageBackend.hook P).tryAlloc (g, w) bytes align hints).2.1 ∧
      ∀ region, ((HugePageBackend.hook P).tryAlloc (g, w) bytes align hints).1 = some region →
        g.ownsAddr region.base = true := by
  simp only [HugePageBackend.hook]
  split
  · exact ⟨rooted.stays, by rintro _ ⟨⟩⟩
  · generalize ran : g.allocate P bytes align _ w = result
    obtain ⟨answer, g', w'⟩ := result
    exact HugePageBackend.allocate_stays rooted ran

/-- The backend is there to be asked. -/
def Present (r : NodeRouter) (t : Target) : Prop := (r.backend t).isSome = true

theorem present_node (below : i < r.nNodes) : Present r (.node i) := r.filled i below

theorem ask_tried (sound : Sound r) (present : Present r t) (w : σ) :
    Tried P bytes align hints r [t] (r.ask P bytes align hints t w) := by
  obtain ⟨g, found⟩ := Option.isSome_iff_exists.mp present
  unfold ask
  rw [found]
  dsimp only
  obtain ⟨kept, owned⟩ := hook_tryAlloc_stays P bytes align hints (sound.rooted t g found) w
  refine ⟨sound.stays_setBackend found kept, fun declined => ?_, fun region served => ?_⟩
  · dsimp only at declined ⊢
    rw [declined]
    rfl
  · dsimp only at served ⊢
    exact ⟨[], t, [], rfl, by rw [served]; rfl, ⟨g, found, owned region served⟩, (g, w), served⟩

theorem spill_tried (sound : Sound r) (present : Present r t) (w : σ) :
    Tried P bytes align hints r [t] (r.spill P bytes align hints t w) := by
  have tried := ask_tried P bytes align hints sound present w
  unfold spill
  dsimp only
  split
  · exact tried.reroute ((sound.stays tried.stays).stays_of_backend rfl fun t => by cases t <;> rfl)
  · exact tried

theorem prefer_tried (sound : Sound r) (present : Present r (.node node)) (w : σ) :
    Tried P bytes align hints r [.node node] (r.prefer P bytes align hints node w) := by
  have tried := ask_tried P bytes align hints sound present w
  obtain ⟨g, found⟩ := Option.isSome_iff_exists.mp present
  have here : r.backends node = some g := found
  unfold prefer
  rw [here]
  dsimp only
  split
  · exact tried
  · exact tried.reroute ((sound.stays tried.stays).stays_of_backend rfl fun t => by cases t <;> rfl)

/-- The search asks the nodes in the order they are selected. -/
theorem spillNearest_tried (turns : Nat) (dist : Nat → Distance) (sound : Sound r)
    (nodes : n ≤ r.nNodes) (w : σ) :
    Tried P bytes align hints r ((visits n turns dist).map .node)
      (spillNearest P bytes align hints n turns dist r w) := by
  induction turns generalizing r dist w with
  | zero => exact .nothing sound.refl
  | succ turns ih =>
    unfold spillNearest
    cases picked : (least dist n).1 with
    | none =>
      rw [visits_nil n _ picked]
      exact .nothing sound.refl
    | some best =>
      rw [visits_cons turns picked, List.map_cons, ← List.singleton_append]
      have below : best < r.nNodes := Nat.lt_of_lt_of_le (least_found picked).1 nodes
      have tried := spill_tried P bytes align hints sound (present_node below) w
      exact tried.orElse (ih _ (sound.stays tried.stays) (by rw [tried.stays.nodes]; exact nodes) _)

theorem spillEach_tried (sound : Sound r) (nodes : ∀ i ∈ is, i < r.nNodes) (w : σ) :
    Tried P bytes align hints r (is.map .node) (spillEach P bytes align hints is r w) := by
  induction is generalizing r w with
  | nil => exact .nothing sound.refl
  | cons i is ih =>
    unfold spillEach
    rw [List.map_cons, ← List.singleton_append]
    have tried := spill_tried P bytes align hints sound (present_node (nodes i (by simp))) w
    refine tried.orElse (ih (sound.stays tried.stays) (fun j member => ?_) _)
    rw [tried.stays.nodes]
    exact nodes j (by simp [member])

/-- The unbound backend, where there is one. -/
def unbound (r : NodeRouter) : List Target := if r.defaultBackend.isSome then [.default] else []

theorem mem_unbound : t ∈ r.unbound ↔ t = .default ∧ Present r .default := by
  unfold unbound Present
  split
  next there => simp [there, backend]
  next gone => simp [gone, backend]

/-- The order in which the nodes other than `node` are asked. -/
def others (r : NodeRouter) (node : Nat) : List Nat := visits r.nNodes r.nNodes (r.distances node)

theorem unbound_tried (sound : Sound r) (w : σ) :
    Tried P bytes align hints r r.unbound (r.spill P bytes align hints .default w) := by
  unfold unbound
  split
  next there =>
    have present : Present r .default := there
    exact spill_tried P bytes align hints sound present w
  next gone =>
    have absent : r.defaultBackend = none := by simpa using gone
    have declined : r.spill P bytes align hints .default w = ⟨none, [], r, w⟩ := by
      simp only [spill, ask, backend, absent]
    rw [declined]
    exact .nothing sound.refl

theorem Stays.unbound_eq (stays : Stays r r') : r'.unbound = r.unbound := by
  have same : r'.defaultBackend.isSome = r.defaultBackend.isSome := by
    cases before : r.backend .default with
    | none =>
      have after := stays.absent .default before
      rw [backend] at before after
      rw [before, after]
    | some g =>
      obtain ⟨g', after, -⟩ := stays.kept .default g before
      rw [backend] at before after
      rw [before, after]
      rfl
  rw [unbound, unbound, same]

theorem allocBound_tried (sound : Sound r) (below : node < r.nNodes) (w : σ) :
    Tried P bytes align hints r (.node node :: (r.others node).map .node ++ r.unbound)
      (r.allocBound P bytes align hints node w) := by
  have preferred := prefer_tried P bytes align hints sound (present_node below) w
  have nearest := spillNearest_tried P bytes align hints r.nNodes (r.distances node)
    (sound.stays preferred.stays) (Nat.le_of_eq preferred.stays.nodes.symm)
    (r.prefer P bytes align hints node w).world
  have searched := preferred.orElse nearest
  have last := unbound_tried P bytes align hints (sound.stays searched.stays)
    ((r.prefer P bytes align hints node w).orElse
      (spillNearest P bytes align hints r.nNodes r.nNodes (r.distances node))).world
  rw [searched.stays.unbound_eq] at last
  exact searched.orElse last

theorem allocDefault_tried (sound : Sound r) (w : σ) :
    Tried P bytes align hints r
      (if r.defaultBackend.isSome then .default :: (List.range r.nNodes).map .node else [.node 0])
      (r.allocDefault P bytes align hints w) := by
  unfold allocDefault
  cases there : r.defaultBackend with
  | some g =>
    rw [Option.isSome_some, if_pos rfl]
    have present : Present r .default := by rw [Present, backend, there]; rfl
    have first := ask_tried P bytes align hints sound present w
    refine first.orElse (spillEach_tried P bytes align hints (sound.stays first.stays) (fun i member => ?_) _)
    rw [first.stays.nodes]
    exact List.mem_range.mp member
  | none =>
    exact ask_tried P bytes align hints sound (present_node r.nodes_pos) w

/-! ## A whole placement -/

variable {policy : NumaPolicy} {cpu node : Nat}

theorem chooseNode_lt (chosen : (r.chooseNode policy cpu).1 = some node) : node < r.nNodes := by
  have pos := r.nodes_pos
  cases policy with
  | osDefault => contradiction
  | arenaPolicy => contradiction
  | interleave =>
    obtain rfl := Option.some.inj chosen
    exact Nat.mod_lt _ pos
  | «local» =>
    obtain rfl := Option.some.inj chosen
    omega
  | bind wanted =>
    obtain rfl := Option.some.inj chosen
    split
    · assumption
    · exact pos

/-- Choosing a node advances the interleave counter at most. -/
theorem chooseNode_router (policy : NumaPolicy) (cpu : Nat) :
    ∃ interleave, (r.chooseNode policy cpu).2 = { r with interleave } := by
  cases policy with
  | osDefault => exact ⟨r.interleave, rfl⟩
  | arenaPolicy => exact ⟨r.interleave, rfl⟩
  | interleave => exact ⟨_, rfl⟩
  | «local» => exact ⟨r.interleave, rfl⟩
  | bind wanted => exact ⟨r.interleave, rfl⟩

/-- The backends a request is offered to, in order. -/
def order (r : NodeRouter) : Option Nat → List Target
  | some node => .node node :: (r.others node).map .node ++ r.unbound
  | none => if r.defaultBackend.isSome then .default :: (List.range r.nNodes).map .node else [.node 0]

theorem tryAlloc_tried (sound : Sound r) (huge : hints.hugepage ≠ .avoid) (policy : NumaPolicy)
    (cpu : Nat) (w : σ) :
    Tried P bytes align hints r (r.order (r.chooseNode policy cpu).1)
      (r.tryAlloc P bytes align hints policy cpu w) := by
  obtain ⟨interleave, advanced⟩ := r.chooseNode_router policy cpu
  have stays : Stays r { r with interleave } := sound.stays_of_backend rfl fun t => by cases t <;> rfl
  have sound' := sound.stays stays
  unfold tryAlloc
  rw [if_neg huge]
  generalize chosen : r.chooseNode policy cpu = choice at advanced
  obtain ⟨target, r'⟩ := choice
  dsimp only at advanced ⊢
  subst advanced
  cases target with
  | some node =>
    have below : node < r.nNodes := chooseNode_lt (by rw [chosen])
    have tried := allocBound_tried P bytes align hints sound' below w
    exact ⟨stays.trans tried.stays, tried.declined, tried.served⟩
  | none =>
    have tried := allocDefault_tried P bytes align hints sound' w
    exact ⟨stays.trans tried.stays, tried.declined, tried.served⟩

end Placing

end Topomalloc.NodeRouter
