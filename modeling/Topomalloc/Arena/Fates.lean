import Topomalloc.Arena.Quota

/-! What one call of the arena table makes of one slot. Whatever the order of the
calls, it is one of four things: the slot is left alone, an arena is born in it,
the arena in it ends, or that arena moves to another state in the same
incarnation. -/
namespace Topomalloc.ArenaTable
open Function

/-! ## What becomes of a slot -/

/-- The arena a call creates. -/
def born (t : ArenaTable) : Op → Option Nat
  | .create p => (t.create p).1.toOption
  | .createPending p => (t.createPending p).1.toOption
  | .delegate parent d => (t.delegate parent d).1.toOption
  | _ => none

/-- The arena a call destroys. -/
def gone (t : ArenaTable) : Op → Option Nat
  | .abandonPending a => (t.abandonPending a).1.toOption.map fun _ => a
  | .finishDestroy a => (t.finishDestroy a).1.toOption.map fun _ => a
  | _ => none

/-- The calls that move arena `a` from one state to another in the same
incarnation. -/
inductive Turn : Op → Nat → ArenaState → ArenaState → Prop
  | publish : Turn (.publish a) a .initializing .active
  | beginReset : Turn (.beginReset a) a .active .resetting
  | finishReset (before : s = .resetting ∨ s = .initializing) :
      Turn (.finishReset a) a s .active
  | beginDestroy : Turn (.beginDestroy a) a .active .draining
  | quarantine (before : s = .resetting ∨ s = .draining) :
      Turn (.quarantine a) a s .errorQuarantined

/-- What a call makes of slot `a`. -/
inductive Fate (t : ArenaTable) (op : Op) (a : Nat) (s s' : ArenaSlot) : Prop
  | kept (unborn : t.born op ≠ some a) (remains : t.gone op ≠ some a)
      (state : s'.state = s.state) (generation : s'.generation = s.generation)
  | born (made : t.born op = some a) (remains : t.gone op ≠ some a)
      (vacant : s.state = .destroyed) (state : s'.state = .active ∨ s'.state = .initializing)
      (generation : s'.generation = nextGeneration s.generation)
  | gone (unborn : t.born op ≠ some a) (ended : t.gone op = some a)
      (cause : op = .abandonPending a ∧ s.state = .initializing ∨ op = .finishDestroy a ∧ s.state = .draining)
      (state : s'.state = .destroyed) (generation : s'.generation = nextGeneration s.generation)
  | moved (unborn : t.born op ≠ some a) (remains : t.gone op ≠ some a)
      (turn : Turn op a s.state s'.state) (generation : s'.generation = s.generation)

variable {t t' t'' : ArenaTable} {op : Op} {a c : Nat} {s s' : ArenaSlot}

/-! ## Calls that keep to one incarnation -/

/-- The call does nothing, or writes slot `a` within its incarnation. -/
def Revision (t : ArenaTable) (op : Op) (a : Nat) : Prop :=
  (t.step op).2 = t ∨ ∃ s', (t.step op).2 = t.set a s' ∧ s'.generation = (t.slots a).generation ∧
    (s'.state = (t.slots a).state ∨ Turn op a (t.slots a).state s'.state)

theorem Revision.highWater (revision : Revision t op a) : (t.step op).2.highWater = t.highWater := by
  rcases revision with same | ⟨s', result, -⟩
  · rw [same]
  · rw [result, set_highWater]

theorem Revision.fate (revision : Revision t op a) (unborn : t.born op = none)
    (remains : t.gone op = none) (c : Nat) : Fate t op c (t.slots c) ((t.step op).2.slots c) := by
  have unborn' : t.born op ≠ some c := by simp [unborn]
  have remains' : t.gone op ≠ some c := by simp [remains]
  rcases revision with same | ⟨s', result, generation, state⟩
  · rw [same]
    exact .kept unborn' remains' rfl rfl
  rw [result, set_slots]
  by_cases here : c = a
  · subst here
    rw [update_self]
    rcases state with state | turn
    · exact .kept unborn' remains' state generation
    · exact .moved unborn' remains' turn generation
  · rw [update_of_ne here]
    exact .kept unborn' remains' rfl rfl

/-- A call that is refused or writes the slot. -/
theorem Outcome.revision {α : Type} {r : Except ArenaError α × ArenaTable}
    (outcome : Outcome t r fun t' => ∃ s', t' = t.set a s' ∧ s'.generation = (t.slots a).generation ∧
      (s'.state = (t.slots a).state ∨ Turn op a (t.slots a).state s'.state))
    (stepped : (t.step op).2 = r.2) : Revision t op a := by
  unfold Revision
  rw [stepped]
  rcases outcome with ⟨e, rfl⟩ | ⟨v, t', rfl, written⟩
  · exact .inl rfl
  · exact .inr written

theorem revision_tryCharge (a size : Nat) : Revision t (.tryCharge a size) a := by
  refine Outcome.revision (r := t.tryCharge a size) ?_ rfl
  unfold tryCharge
  refine .found fun _ => .unless fun _ => .unless fun _ => ?_
  split
  · exact .refused _
  · exact .unless fun _ => .inr ⟨_, _, rfl, _, rfl, rfl, .inl rfl⟩

theorem revision_credit (a size : Nat) : Revision t (.credit a size) a := by
  unfold Revision
  simp only [step, credit]
  split
  · exact .inl rfl
  next s found =>
    obtain ⟨-, rfl⟩ := slot_eq_some found
    exact .inr ⟨_, rfl, rfl, .inl rfl⟩

theorem revision_configure (a : Nat) (config : ArenaConfig) : Revision t (.configure a config) a := by
  refine Outcome.revision (r := t.configure a config) ?_ rfl
  exact .found fun _ => .unless fun _ => .inr ⟨_, _, rfl, _, rfl, rfl, .inl rfl⟩

theorem revision_publish (a : Nat) : Revision t (.publish a) a := by
  refine Outcome.revision (r := t.publish a) ?_ rfl
  refine .found fun _ => .unless fun pending => .inr ⟨_, _, rfl, _, rfl, rfl, .inr ?_⟩
  rw [not_not.mp pending]
  exact .publish

/-- The states before each state. -/
theorem canTransition_from {s s' : ArenaState} (legal : ¬ s.canTransition s' = false) :
    match s' with
    | .initializing => False
    | .active => s = .resetting ∨ s = .initializing
    | .resetting => s = .active
    | .draining => s = .active
    | .destroyed => s = .draining
    | .errorQuarantined => s = .resetting ∨ s = .draining := by
  cases s <;> cases s' <;> simp [ArenaState.canTransition] at legal ⊢

theorem revision_beginReset (a : Nat) : Revision t (.beginReset a) a := by
  refine Outcome.revision (r := t.beginReset a) ?_ rfl
  refine .unless fun _ => .found fun _ => .unless fun legal => .inr ⟨_, _, rfl, _, rfl, rfl, .inr ?_⟩
  rw [canTransition_from legal]
  exact .beginReset

theorem revision_beginDestroy (a : Nat) : Revision t (.beginDestroy a) a := by
  refine Outcome.revision (r := t.beginDestroy a) ?_ rfl
  refine .unless fun _ => .found fun _ => .unless fun _ => .found fun _ => .unless fun legal =>
    .inr ⟨_, _, rfl, _, rfl, rfl, .inr ?_⟩
  rw [canTransition_from legal]
  exact .beginDestroy

theorem revision_finishReset (a : Nat) : Revision t (.finishReset a) a := by
  refine Outcome.revision (r := t.finishReset a) ?_ rfl
  refine .found fun _ => .unless fun legal => .inr ⟨_, _, rfl, _, rfl, rfl, .inr ?_⟩
  exact .finishReset (canTransition_from legal)

theorem revision_quarantine (a : Nat) : Revision t (.quarantine a) a := by
  refine Outcome.revision (r := t.quarantine a) ?_ rfl
  refine .found fun _ => .unless fun legal => .inr ⟨_, _, rfl, _, rfl, rfl, .inr ?_⟩
  exact .quarantine (canTransition_from legal)

/-! ## Deaths -/

/-- Every slot keeps its state and its generation. -/
structure Lasting (t t' : ArenaTable) : Prop where
  highWater : t'.highWater = t.highWater
  state : ∀ c, (t'.slots c).state = (t.slots c).state
  generation : ∀ c, (t'.slots c).generation = (t.slots c).generation

theorem Lasting.refl (t : ArenaTable) : Lasting t t := ⟨rfl, fun _ => rfl, fun _ => rfl⟩

theorem Lasting.trans (first : Lasting t t') (second : Lasting t' t'') : Lasting t t'' :=
  ⟨second.highWater.trans first.highWater, fun c => (second.state c).trans (first.state c),
    fun c => (second.generation c).trans (first.generation c)⟩

theorem lasting_set (state : s'.state = (t.slots a).state)
    (generation : s'.generation = (t.slots a).generation) : Lasting t (t.set a s') := by
  refine ⟨rfl, fun c => ?_, fun c => ?_⟩
  · by_cases here : c = a
    · rw [here, set_slots, update_self, state]
    · rw [set_slots, update_of_ne here]
  · by_cases here : c = a
    · rw [here, set_slots, update_self, generation]
    · rw [set_slots, update_of_ne here]

theorem lasting_reserveChildQuota (t : ArenaTable) (a amount : Nat) :
    Lasting t (t.reserveChildQuota a amount).2 := by
  unfold reserveChildQuota
  split
  · exact .refl t
  next s found =>
    obtain ⟨-, rfl⟩ := slot_eq_some found
    split
    · exact .refl t
    split
    · exact .refl t
    · exact lasting_set rfl rfl

theorem lasting_releaseChildQuota (t : ArenaTable) (a amount : Nat) :
    Lasting t (t.releaseChildQuota a amount) := by
  unfold releaseChildQuota
  split
  · exact .refl t
  next s found =>
    obtain ⟨-, rfl⟩ := slot_eq_some found
    exact lasting_set rfl rfl

theorem lasting_returnReservationToParent (t : ArenaTable) (child : Nat) :
    Lasting t (t.returnReservationToParent child) := by
  unfold returnReservationToParent
  split
  · exact .refl t
  next p g _ =>
    split
    · exact .refl t
    next s found =>
      obtain ⟨-, rfl⟩ := slot_eq_some found
      split
      · exact .refl t
      have counted : Lasting t (t.set p { t.slots p with liveChildren := (t.slots p).liveChildren - 1 }) :=
        lasting_set rfl rfl
      dsimp only
      split
      · exact counted
      split
      · exact counted
      · exact counted.trans (lasting_releaseChildQuota _ _ _)

/-- The call does nothing, or ends the incarnation in slot `a`. -/
def Ending (t : ArenaTable) (op : Op) (a : Nat) : Prop :=
  (t.step op).2 = t ∧ t.gone op = none ∨ t.gone op = some a ∧ (t.step op).2.highWater = t.highWater ∧
    (op = .abandonPending a ∧ (t.slots a).state = .initializing ∨
      op = .finishDestroy a ∧ (t.slots a).state = .draining) ∧
    ((t.step op).2.slots a).state = .destroyed ∧
    ((t.step op).2.slots a).generation = nextGeneration (t.slots a).generation ∧
    ∀ c, c ≠ a → ((t.step op).2.slots c).state = (t.slots c).state ∧
      ((t.step op).2.slots c).generation = (t.slots c).generation

theorem Ending.highWater (ending : Ending t op a) : (t.step op).2.highWater = t.highWater := by
  rcases ending with ⟨same, -⟩ | ⟨-, same, -⟩
  · rw [same]
  · exact same

theorem Ending.fate (ending : Ending t op a) (unborn : t.born op = none) (c : Nat) :
    Fate t op c (t.slots c) ((t.step op).2.slots c) := by
  have unborn' : t.born op ≠ some c := by simp [unborn]
  rcases ending with ⟨same, remains⟩ | ⟨ended, -, cause, state, generation, others⟩
  · rw [same]
    exact .kept unborn' (by simp [remains]) rfl rfl
  by_cases here : c = a
  · subst here
    exact .gone unborn' ended cause state generation
  · obtain ⟨state', generation'⟩ := others c here
    refine .kept unborn' ?_ state' generation'
    rw [ended]
    exact fun same => here (Option.some.inj same).symm

theorem ending_abandonPending (a : Nat) : Ending t (.abandonPending a) a := by
  unfold Ending
  simp only [step, gone, abandonPending]
  split
  · exact .inl ⟨rfl, rfl⟩
  next s found =>
    obtain ⟨-, rfl⟩ := slot_eq_some found
    split
    · exact .inl ⟨rfl, rfl⟩
    next pending =>
      refine .inr ⟨rfl, rfl, .inl ⟨trivial, not_not.mp pending⟩, ?_, ?_, fun c other => ?_⟩
      · simp
      · simp
      · simp [other]

theorem ending_finishDestroy (a : Nat) : Ending t (.finishDestroy a) a := by
  have lasting := lasting_returnReservationToParent t a
  unfold Ending
  simp only [step, gone, finishDestroy]
  split
  · exact .inl ⟨rfl, rfl⟩
  next s found =>
    obtain ⟨-, rfl⟩ := slot_eq_some found
    split
    · exact .inl ⟨rfl, rfl⟩
    next edge =>
      have draining := canTransition_from edge
      refine .inr ⟨rfl, lasting.highWater, .inr ⟨trivial, draining⟩, ?_, ?_, fun c other => ?_⟩
      · simp
      · simp [lasting.generation]
      · simp [other, lasting.state, lasting.generation]

/-! ## Births -/

/-- The unclaimed slots hold no arena. -/
structure Ready (t : ArenaTable) : Prop where
  unused : ∀ a, t.highWater ≤ a → (t.slots a).state = .destroyed
  bounded : t.highWater ≤ maxArenas

/-- An arena is born in slot `a`. -/
structure Birth (t t' : ArenaTable) (a : Nat) : Prop where
  vacant : (t.slots a).state = .destroyed
  state : (t'.slots a).state = .active ∨ (t'.slots a).state = .initializing
  generation : (t'.slots a).generation = nextGeneration (t.slots a).generation
  inside : a < t'.highWater
  grows : t.highWater ≤ t'.highWater
  bounded : t'.highWater ≤ maxArenas
  others : ∀ c, c ≠ a → (t'.slots c).state = (t.slots c).state ∧
    (t'.slots c).generation = (t.slots c).generation

/-- A creation fails and leaves every slot as it was, or an arena is born. -/
def Brings (t : ArenaTable) (r : Except ArenaError Nat × ArenaTable) : Prop :=
  (∃ e, r.1 = .error e ∧ Lasting t r.2) ∨ ∃ a, r.1 = .ok a ∧ Birth t r.2 a

theorem Ready.lasting (ready : Ready t) (lasting : Lasting t t') : Ready t' := by
  refine ⟨fun a beyond => ?_, ?_⟩
  · rw [lasting.state]
    exact ready.unused a (lasting.highWater ▸ beyond)
  · rw [lasting.highWater]
    exact ready.bounded

theorem Birth.between (before : Lasting t t') (birth : Birth t' u a)
    (after : Lasting u u') : Birth t u' a where
  vacant := by rw [← before.state]; exact birth.vacant
  state := by rw [after.state]; exact birth.state
  generation := by rw [after.generation, birth.generation, before.generation]
  inside := by rw [after.highWater]; exact birth.inside
  grows := by rw [after.highWater, ← before.highWater]; exact birth.grows
  bounded := by rw [after.highWater]; exact birth.bounded
  others c other := by
    obtain ⟨state, generation⟩ := birth.others c other
    rw [after.state, after.generation, state, generation, before.state, before.generation]
    exact ⟨rfl, rfl⟩

theorem brings_createLockedInner (ready : Ready t) (p : ArenaPolicy) (parent : Option (Nat × Nat))
    (publish : Bool) : Brings t (t.createLockedInner p parent publish) := by
  unfold createLockedInner
  rcases claimSlot_cases ready.unused ready.bounded with
    ⟨e, refused⟩ | ⟨a, highWater, claimed, vacant, inside, grows, bounded⟩
  · rw [refused]
    exact .inl ⟨e, rfl, .refl t⟩
  · rw [claimed]
    refine .inr ⟨a, rfl, vacant, ?_, ?_, inside, grows, bounded, fun c other => ?_⟩
    · cases publish <;> simp [incarnate]
    · simp [incarnate]
    · simp [other]

theorem brings_create (ready : Ready t) (p : ArenaPolicy) : Brings t (t.create p) := by
  unfold create
  split
  · exact .inl ⟨_, rfl, .refl t⟩
  · exact brings_createLockedInner ready p none true

theorem brings_createPending (ready : Ready t) (p : ArenaPolicy) : Brings t (t.createPending p) := by
  unfold createPending
  split
  · exact .inl ⟨_, rfl, .refl t⟩
  · exact brings_createLockedInner ready p none false

theorem brings_grantChild (ready : Ready t) (parent : Nat) (s : ArenaSlot) (d : Delegation) :
    Brings t (t.grantChild parent s d) := by
  unfold grantChild
  dsimp only
  have reserved : Lasting t (if s.quotaLimit ≠ quotaUnlimited then
      t.reserveChildQuota parent d.quotaLimit else (.ok (), t)).2 := by
    split
    · exact lasting_reserveChildQuota t parent d.quotaLimit
    · exact .refl t
  split
  next e t' result =>
    rw [result] at reserved
    exact .inl ⟨e, rfl, reserved⟩
  next t' result =>
    rw [result] at reserved
    have made := brings_createLockedInner (ready.lasting reserved) d.policy (some (parent, s.generation)) true
    split
    next child t'' result =>
      rw [result] at made
      obtain ⟨e, refused, -⟩ | ⟨a, same, birth⟩ := made
      · cases refused
      obtain rfl := Except.ok.inj same
      split
      · exact .inr ⟨child, rfl, birth.between reserved (.refl _)⟩
      next q found =>
        obtain ⟨-, rfl⟩ := slot_eq_some found
        exact .inr ⟨child, rfl, birth.between reserved (lasting_set rfl rfl)⟩
    next e t'' result =>
      rw [result] at made
      obtain ⟨e, refused, kept⟩ | ⟨a, same, -⟩ := made
      · refine .inl ⟨_, rfl, (reserved.trans kept).trans ?_⟩
        split
        · exact lasting_releaseChildQuota _ _ _
        · exact .refl _
      · cases same

theorem brings_delegate (ready : Ready t) (parent : Nat) (d : Delegation) :
    Brings t (t.delegate parent d) := by
  unfold delegate
  iterate 6
    split
    · exact .inl ⟨_, rfl, .refl t⟩
  · exact brings_grantChild ready parent _ d

theorem Brings.fate (brings : Brings t r) (result : (t.step op).2 = r.2) (made : t.born op = r.1.toOption)
    (remains : t.gone op = none) (c : Nat) : Fate t op c (t.slots c) ((t.step op).2.slots c) := by
  have remains' : t.gone op ≠ some c := by simp [remains]
  rw [result]
  rcases brings with ⟨e, refused, lasting⟩ | ⟨a, created, birth⟩
  · rw [refused] at made
    exact .kept (by simp [made, Except.toOption]) remains' (lasting.state c) (lasting.generation c)
  · rw [created] at made
    by_cases here : c = a
    · subst here
      exact .born made remains' birth.vacant birth.state birth.generation
    · obtain ⟨state, generation⟩ := birth.others c here
      refine .kept ?_ remains' state generation
      rw [made]
      exact fun same => here (Option.some.inj same).symm

/-- A call is one of three kinds. -/
inductive Kind (t : ArenaTable) (op : Op) : Prop
  | revises {a : Nat} (revision : Revision t op a) (unborn : t.born op = none) (remains : t.gone op = none)
  | ends {a : Nat} (ending : Ending t op a) (unborn : t.born op = none)
  | brings {r : Except ArenaError Nat × ArenaTable} (brings : Brings t r)
      (result : (t.step op).2 = r.2) (made : t.born op = r.1.toOption) (remains : t.gone op = none)

theorem Ready.kind (ready : Ready t) (op : Op) : Kind t op := by
  cases op with
  | create p => exact .brings (brings_create ready p) rfl rfl rfl
  | createPending p => exact .brings (brings_createPending ready p) rfl rfl rfl
  | delegate parent d => exact .brings (brings_delegate ready parent d) rfl rfl rfl
  | publish a => exact .revises (revision_publish a) rfl rfl
  | abandonPending a => exact .ends (ending_abandonPending a) rfl
  | tryCharge a size => exact .revises (revision_tryCharge a size) rfl rfl
  | credit a size => exact .revises (revision_credit a size) rfl rfl
  | configure a config => exact .revises (revision_configure a config) rfl rfl
  | beginReset a => exact .revises (revision_beginReset a) rfl rfl
  | finishReset a => exact .revises (revision_finishReset a) rfl rfl
  | beginDestroy a => exact .revises (revision_beginDestroy a) rfl rfl
  | finishDestroy a => exact .ends (ending_finishDestroy a) rfl
  | quarantine a => exact .revises (revision_quarantine a) rfl rfl

/-- What any call makes of any slot. -/
theorem Ready.fate (ready : Ready t) (op : Op) (c : Nat) :
    Fate t op c (t.slots c) ((t.step op).2.slots c) := by
  cases ready.kind op with
  | revises revision unborn remains => exact revision.fate unborn remains c
  | ends ending unborn => exact ending.fate unborn c
  | brings brings result made remains => exact brings.fate result made remains c

/-- The claimed slots grow, within the table, by at most the slot of an arena
that is born. -/
structure Claims (t t' : ArenaTable) (made : Option Nat) : Prop where
  grows : t.highWater ≤ t'.highWater
  bounded : t'.highWater ≤ maxArenas
  covers : ∀ a, made = some a → a < t'.highWater

theorem Ready.claims (ready : Ready t) (op : Op) : Claims t (t.step op).2 (t.born op) := by
  have same : (t.step op).2.highWater = t.highWater → t.born op = none →
      Claims t (t.step op).2 (t.born op) := by
    intro same unborn
    rw [unborn]
    exact ⟨Nat.le_of_eq same.symm, same ▸ ready.bounded, fun _ made => nomatch made⟩
  cases ready.kind op with
  | revises revision unborn => exact same revision.highWater unborn
  | ends ending unborn => exact same ending.highWater unborn
  | brings brings result made =>
    rcases brings with ⟨e, refused, lasting⟩ | ⟨a, created, birth⟩
    · rw [refused] at made
      exact same (result ▸ lasting.highWater) made
    · rw [result, made, created]
      refine ⟨birth.grows, birth.bounded, fun c made => ?_⟩
      obtain rfl := Option.some.inj made
      exact birth.inside

theorem Turn.live {s s' : ArenaState} (turn : Turn op a s s') :
    s ≠ .destroyed ∧ s' ≠ .destroyed ∧ s ≠ .errorQuarantined := by
  cases turn with
  | publish => decide
  | beginReset => decide
  | finishReset before => rcases before with rfl | rfl <;> decide
  | beginDestroy => decide
  | quarantine before => rcases before with rfl | rfl <;> decide

theorem Ready.step (ready : Ready t) (op : Op) : Ready (t.step op).2 := by
  obtain ⟨grows, bounded, covers⟩ := ready.claims op
  refine ⟨fun a beyond => ?_, bounded⟩
  have unused := ready.unused a (by omega)
  cases ready.fate op a with
  | kept _ _ state _ => rw [state, unused]
  | born made => exact absurd (covers a made) (by omega)
  | gone _ _ _ state _ => exact state
  | moved _ _ turn _ => exact absurd unused turn.live.1

end Topomalloc.ArenaTable
