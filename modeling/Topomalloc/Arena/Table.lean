import Topomalloc.Provider
import Topomalloc.Release

/-! The arena registry of `arena.rs`: lifecycle, delegation and quota.

An arena's `committed` counts its own live bytes together with the quota set
aside for the arenas it delegated, so that one counter is compared with the
limit. Hooked backing and the count of failed node bindings are left out. -/
namespace Topomalloc
open Function

/-! ## Policies -/

/-- `NumaPolicy`. -/
inductive NumaPolicy
  | local
  | interleave
  | bind (node : Nat)
  | arenaPolicy
  | osDefault
  deriving DecidableEq, Repr

/-- `ArenaConfig`: what `configure` may change. -/
structure ArenaConfig where
  decay : Release.DecayConfig := ⟨10000, 10000, 0, true⟩
  huge : HugepagePolicy := .default
  numa : NumaPolicy := .osDefault
  cacheBudgetBytes : Nat := 0
  name : List UInt8 := []
  deriving DecidableEq, Repr

/-- `QUOTA_UNLIMITED`. -/
def quotaUnlimited : Nat := 2 ^ 64 - 1

/-- `Label::PUBLIC`. -/
def publicLabel : Nat := 0

/-- `CapRights::ALLOC`. -/
def rightAlloc : Nat := 1

/-- `CapRights::ALL`. -/
def rightsAll : Nat := 15

/-- `CapRights::contains`. -/
def containsRights (rights other : Nat) : Bool := rights &&& other == other

/-- `ArenaPolicy`, whose quota is a machine word; the latency class is stored
nowhere. -/
structure ArenaPolicy where
  rights : Nat
  label : Nat
  quotaLimit : Nat
  config : ArenaConfig := {}
  quota_le : quotaLimit ≤ quotaUnlimited := by decide

/-- Every right and no bound. -/
def ArenaPolicy.free (label : Nat := publicLabel) : ArenaPolicy :=
  { rights := rightsAll, label, quotaLimit := quotaUnlimited, quota_le := Nat.le_refl _ }

/-- `Delegation`. -/
structure Delegation where
  rights : Nat
  quotaLimit : Nat
  label : Nat
  numa : NumaPolicy := .osDefault
  name : List UInt8 := []
  quota_le : quotaLimit ≤ quotaUnlimited := by decide

/-- The policy a delegated arena is created with. -/
def Delegation.policy (d : Delegation) : ArenaPolicy :=
  { d with config := { numa := d.numa, name := d.name } }

/-! ## Lifecycle -/

inductive ArenaState
  | initializing
  | active
  | resetting
  | draining
  | destroyed
  | errorQuarantined
  deriving DecidableEq, Repr, Inhabited

namespace ArenaState

/-- `can_transition`. -/
def canTransition : ArenaState → ArenaState → Bool
  | .initializing, .active => true
  | .active, .resetting => true
  | .resetting, .active => true
  | .active, .draining => true
  | .draining, .destroyed => true
  | .resetting, .errorQuarantined => true
  | .draining, .errorQuarantined => true
  | _, _ => false

/-- `is_terminal`. -/
def isTerminal : ArenaState → Bool
  | .destroyed => true
  | .errorQuarantined => true
  | _ => false

end ArenaState

/-- `ArenaError`. -/
inductive ArenaError
  | notFound
  | notActive
  | authorityDenied
  | quotaExceeded
  | attenuation
  | exhausted
  | invalidPolicy
  | illegalTransition
  | isDefault
  | hasLiveChildren
  deriving DecidableEq, Repr

/-! ## The table -/

/-- `MAX_ARENAS`. -/
def maxArenas : Nat := 255

/-- `ArenaId::DEFAULT`. -/
def defaultArena : Nat := 0

/-- `Generation::next`: zero is skipped when the counter wraps. -/
def nextGeneration (g : Nat) : Nat := if wrappingSucc32 g = 0 then 1 else wrappingSucc32 g

/-- `ArenaAtomics` and `ArenaMeta` of one id. `parent` is the delegating arena
with its generation at that time. -/
structure ArenaSlot where
  state : ArenaState := .destroyed
  rights : Nat := 0
  generation : Nat := 0
  resetGen : Nat := 0
  committed : Nat := 0
  reserved : Nat := 0
  quotaLimit : Nat := quotaUnlimited
  liveChildren : Nat := 0
  label : Nat := publicLabel
  parent : Option (Nat × Nat) := none
  config : ArenaConfig := {}
  deriving DecidableEq, Repr

namespace ArenaSlot

/-- `ArenaStats::remaining_quota`. -/
def remainingQuota (s : ArenaSlot) : Nat :=
  if s.quotaLimit = quotaUnlimited then quotaUnlimited
  else s.quotaLimit - (s.committed - s.reserved) - s.reserved

end ArenaSlot

/-- `ArenaTable`. -/
structure ArenaTable where
  slots : Nat → ArenaSlot
  highWater : Nat
  destroyedCount : Nat

namespace ArenaTable

/-- `ArenaTable::new`: the default arena is there from the start. -/
def new : ArenaTable where
  slots := update (fun _ => {}) defaultArena
    { state := .active, rights := rightsAll, generation := nextGeneration 0 }
  highWater := 1
  destroyedCount := 0

variable (t : ArenaTable)

/-- `slot`. -/
def slot (a : Nat) : Option ArenaSlot := if a < maxArenas then some (t.slots a) else none

def set (a : Nat) (s : ArenaSlot) : ArenaTable := { t with slots := update t.slots a s }

/-- `is_registered`. -/
def isRegistered (a : Nat) : Bool :=
  match t.slot a with
  | some s => s.state != .destroyed
  | none => false

/-- `label_of`. -/
def labelOf (a : Nat) : Nat :=
  match t.slot a with
  | some s => s.label
  | none => publicLabel

/-! ## Quota -/

/-- `try_charge`. -/
def tryCharge (a size : Nat) : Except ArenaError Unit × ArenaTable :=
  match t.slot a with
  | none => (.error .notFound, t)
  | some s =>
    if s.state ≠ .active then (.error .notActive, t)
    else if containsRights s.rights rightAlloc = false then (.error .authorityDenied, t)
    else match checkedAdd s.committed size with
      | none => (.error .quotaExceeded, t)
      | some next =>
        if s.quotaLimit < next then (.error .quotaExceeded, t)
        else (.ok (), t.set a { s with committed := next })

/-- `credit`. -/
def credit (a size : Nat) : ArenaTable :=
  match t.slot a with
  | none => t
  | some s => t.set a { s with committed := s.committed - size }

/-- `reserve_child_quota_locked`. -/
def reserveChildQuota (a amount : Nat) : Except ArenaError Unit × ArenaTable :=
  match t.slot a with
  | none => (.error .notFound, t)
  | some s =>
    match checkedAdd s.committed amount with
    | none => (.error .attenuation, t)
    | some next =>
      if s.quotaLimit < next then (.error .attenuation, t)
      else (.ok (), t.set a { s with
        committed := next, reserved := wrappingAdd64 s.reserved amount })

/-- `release_child_quota_locked`. -/
def releaseChildQuota (a amount : Nat) : ArenaTable :=
  match t.slot a with
  | none => t
  | some s => t.set a { s with committed := s.committed - amount, reserved := s.reserved - amount }

/-- `return_reservation_to_parent_locked`. -/
def returnReservationToParent (child : Nat) : ArenaTable :=
  match (t.slots child).parent with
  | none => t
  | some (p, g) =>
    match t.slot p with
    | none => t
    | some s =>
      if s.generation ≠ g then t
      else
        let t := t.set p { s with liveChildren := s.liveChildren - 1 }
        if s.quotaLimit = quotaUnlimited then t
        else
          let amount := (t.slots child).quotaLimit
          if amount = quotaUnlimited then t else t.releaseChildQuota p amount

/-! ## Creation and delegation -/

/-- `claim_slot_locked`. -/
def claimSlot : Except ArenaError Nat × ArenaTable :=
  if t.highWater < maxArenas then (.ok t.highWater, { t with highWater := t.highWater + 1 })
  else match (List.range' 1 (maxArenas - 1)).find? fun a => (t.slots a).state == .destroyed with
    | some a => (.ok a, t)
    | none => (.error .exhausted, t)

/-- The slot `create_locked_inner` writes over the one it claimed. -/
def incarnate (old : ArenaSlot) (p : ArenaPolicy) (parent : Option (Nat × Nat)) (publish : Bool) :
    ArenaSlot :=
  { old with
    state := if publish then .active else .initializing
    rights := p.rights
    generation := nextGeneration old.generation
    resetGen := nextGeneration 0
    committed := 0
    reserved := 0
    quotaLimit := p.quotaLimit
    label := p.label
    parent
    config := p.config }

/-- `create_locked_inner`. -/
def createLockedInner (p : ArenaPolicy) (parent : Option (Nat × Nat)) (publish : Bool) :
    Except ArenaError Nat × ArenaTable :=
  match t.claimSlot with
  | (.error e, t) => (.error e, t)
  | (.ok a, t) => (.ok a, t.set a (incarnate (t.slots a) p parent publish))

/-- `create`. -/
def create (p : ArenaPolicy) : Except ArenaError Nat × ArenaTable :=
  if p.quotaLimit = 0 then (.error .invalidPolicy, t) else t.createLockedInner p none true

/-- `create_pending`. -/
def createPending (p : ArenaPolicy) : Except ArenaError Nat × ArenaTable :=
  if p.quotaLimit = 0 then (.error .invalidPolicy, t) else t.createLockedInner p none false

/-- `publish`. -/
def publish (a : Nat) : Except ArenaError Unit × ArenaTable :=
  match t.slot a with
  | none => (.error .notFound, t)
  | some s =>
    if s.state ≠ .initializing then (.error .illegalTransition, t)
    else (.ok (), t.set a { s with state := .active })

/-- `abandon_pending`. -/
def abandonPending (a : Nat) : Except ArenaError Unit × ArenaTable :=
  match t.slot a with
  | none => (.error .notFound, t)
  | some s =>
    if s.state ≠ .initializing then (.error .illegalTransition, t)
    else (.ok (), t.set a { s with
      state := .destroyed, rights := 0, generation := nextGeneration s.generation })

/-- `delegate_locked` once the request has passed its checks. -/
def grantChild (parent : Nat) (s : ArenaSlot) (d : Delegation) : Except ArenaError Nat × ArenaTable :=
  let finite := s.quotaLimit ≠ quotaUnlimited
  match if finite then t.reserveChildQuota parent d.quotaLimit else (.ok (), t) with
  | (.error e, t) => (.error e, t)
  | (.ok _, t) =>
    match t.createLockedInner d.policy (some (parent, s.generation)) true with
    | (.ok child, t) =>
      match t.slot parent with
      | none => (.ok child, t)
      | some s => (.ok child, t.set parent { s with liveChildren := s.liveChildren + 1 })
    | (.error e, t) =>
      (.error e, if finite then t.releaseChildQuota parent d.quotaLimit else t)

/-- `delegate`. -/
def delegate (parent : Nat) (d : Delegation) : Except ArenaError Nat × ArenaTable :=
  match t.slot parent with
  | none => (.error .notFound, t)
  | some s =>
    if s.state ≠ .active then (.error .notActive, t)
    else if containsRights s.rights d.rights = false then (.error .attenuation, t)
    else if s.remainingQuota < d.quotaLimit then (.error .attenuation, t)
    else if d.label ≠ s.label then (.error .attenuation, t)
    else if d.quotaLimit = 0 then (.error .invalidPolicy, t)
    else t.grantChild parent s d

/-- `configure`. -/
def configure (a : Nat) (c : ArenaConfig) : Except ArenaError Unit × ArenaTable :=
  match t.slot a with
  | none => (.error .notFound, t)
  | some s =>
    if s.state = .destroyed then (.error .notFound, t)
    else (.ok (), t.set a { s with config := c })

/-! ## Reset and destruction -/

/-- `transition_locked`. -/
def transition (a : Nat) (next : ArenaState) : Except ArenaError Unit × ArenaTable :=
  match t.slot a with
  | none => (.error .notFound, t)
  | some s =>
    if s.state.canTransition next = false then (.error .illegalTransition, t)
    else (.ok (), t.set a { s with state := next })

/-- `begin_reset`. -/
def beginReset (a : Nat) : Except ArenaError Unit × ArenaTable :=
  if a = defaultArena then (.error .isDefault, t) else t.transition a .resetting

/-- `finish_reset`: the new reset generation. -/
def finishReset (a : Nat) : Except ArenaError Nat × ArenaTable :=
  match t.slot a with
  | none => (.error .notFound, t)
  | some s =>
    if s.state.canTransition .active = false then (.error .illegalTransition, t)
    else (.ok (nextGeneration s.resetGen), t.set a { s with
      committed := s.reserved, resetGen := nextGeneration s.resetGen, state := .active })

/-- `begin_destroy`. -/
def beginDestroy (a : Nat) : Except ArenaError Unit × ArenaTable :=
  if a = defaultArena then (.error .isDefault, t)
  else match t.slot a with
    | none => (.error .notFound, t)
    | some s =>
      if s.liveChildren ≠ 0 then (.error .hasLiveChildren, t) else t.transition a .draining

/-- `finish_destroy`: the generation the slot is left with. -/
def finishDestroy (a : Nat) : Except ArenaError Nat × ArenaTable :=
  match t.slot a with
  | none => (.error .notFound, t)
  | some s =>
    if s.state.canTransition .destroyed = false then (.error .illegalTransition, t)
    else
      let t := t.returnReservationToParent a
      let s := t.slots a
      let t := t.set a { s with
        committed := 0, reserved := 0, rights := 0
        generation := nextGeneration s.generation, state := .destroyed }
      (.ok (nextGeneration s.generation), { t with destroyedCount := wrappingAdd64 t.destroyedCount 1 })

/-- `quarantine`. -/
def quarantine (a : Nat) : Except ArenaError Unit × ArenaTable :=
  match t.slot a with
  | none => (.error .notFound, t)
  | some s =>
    if s.state.canTransition .errorQuarantined = false then (.error .illegalTransition, t)
    else (.ok (), t.set a { s with committed := s.reserved, state := .errorQuarantined })

/-! ## The debug oracle -/

/-- The checks of `check_invariants` on one registered slot. -/
def slotSound (s : ArenaSlot) : Bool :=
  decide (s.committed ≤ s.quotaLimit) &&
  !(s.state.isTerminal && decide (s.committed - s.reserved ≠ 0)) &&
  !(decide (s.state ≠ .destroyed) && decide (s.generation = 0))

/-- `check_invariants`. -/
def checkInvariants : Bool :=
  t.isRegistered defaultArena && decide (t.highWater ≤ maxArenas) &&
    (List.range t.highWater).all fun a => slotSound (t.slots a)

end ArenaTable
end Topomalloc
