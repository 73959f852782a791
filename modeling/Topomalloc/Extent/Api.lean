import Topomalloc.Extent.Effects

/-! The safe public methods of `ExtentMap`, called in any order and with any
arguments.

`free` takes the state to leave the extent in. It checks that an active extent
may move to that state, but the relation it asks is reflexive and does not look
at the backing, so two kinds of argument get through that leave the map broken:
`Active` itself, and a state whose backing is not the extent's. -/
namespace Topomalloc
namespace ExtentMap

/-- A call of the public interface. The notifying variants are the same calls. -/
inductive MapCall
  | split (id prefixLen : Nat)
  | merge (left right : Nat)
  | coalesce (id : Nat)
  | carve (neededLen align : Nat) (fit : Fit)
  | free (id : Nat) (newState : ExtentState)
  | freeInCanary (id : Nat) (newState : ExtentState) (canary : Bool)
  deriving DecidableEq, Repr

/-- What a call answers. -/
inductive MapAnswer
  | refused
  | done
  | extent (id : Nat)
  deriving DecidableEq, Repr

/-- An answer of `None`, or the extent that was made. -/
def MapAnswer.ofOption : Option Nat → MapAnswer
  | none => .refused
  | some id => .extent id

/-- One call. -/
def call (m : ExtentMap) : MapCall → MapAnswer × ExtentMap
  | .split id prefixLen =>
    match m.splitIn id prefixLen with
    | none => (.refused, m)
    | some (right, m) => (.extent right, m)
  | .merge left right =>
    match m.mergeIn left right with
    | (false, m) => (.refused, m)
    | (true, m) => (.done, m)
  | .coalesce id =>
    let (survivor, m) := m.coalesceIn id
    (.extent survivor, m)
  | .carve neededLen align fit =>
    let (answer, m) := m.carveIn neededLen align fit
    (.ofOption answer, m)
  | .free id newState =>
    match m.freeIn id newState with
    | none => (.refused, m)
    | some (survivor, m) => (.extent survivor, m)
  | .freeInCanary id newState canary =>
    match m.freeInCanary id newState canary with
    | none => (.refused, m)
    | some (survivor, m) => (.extent survivor, m)

/-- The state a free asks for is a free one and has the backing the extent
has. -/
def Agreeable (m : ExtentMap) (id : Nat) (newState : ExtentState) : Prop :=
  newState.isFree = true ∧ (newState.isBacked = true ↔ (m.slots id).committedLen = (m.slots id).len)

instance (m : ExtentMap) (id : Nat) (newState : ExtentState) : Decidable (m.Agreeable id newState) :=
  inferInstanceAs (Decidable (_ ∧ _))

/-- A free of an active extent to a state it may go to asks for an agreeable one.
Nothing is asked of the other calls, or of a free that the guards refuse. -/
def Calls (m : ExtentMap) : MapCall → Prop
  | .free id newState | .freeInCanary id newState _ =>
    m.Live id → ExtentState.active.canTransition newState = true → m.Agreeable id newState
  | _ => True

/-- The calls of a list in order, each agreeable when it is made. -/
inductive CallRun : ExtentMap → List MapCall → ExtentMap → Prop
  | nil (m : ExtentMap) : CallRun m [] m
  | cons (agreeable : m.Calls c) (later : CallRun (m.call c).2 rest m') : CallRun m (c :: rest) m'

variable {m m' : ExtentMap} {addr unused : List Nat} {id : Nat}

section
variable (wf : WF m addr unused)
include wf

/-- A slot that is not listed has no neighbour to merge with. -/
theorem WF.coalesceIn_unlisted (spare : id ∉ addr) : (m.coalesceIn id).2 = m := by
  have unseen : m.view id = none := by
    cases seen : m.view id with
    | none => rfl
    | some e => exact absurd (wf.view_some seen).1 spare
  have right (next : Nat) : m.mergeIn id next = (false, m) := by simp [ExtentMap.mergeIn, unseen]
  have left (prev : Nat) : m.mergeIn prev id = (false, m) := by
    simp only [ExtentMap.mergeIn, unseen]
    split <;> simp_all
  simp only [ExtentMap.coalesceIn, right, ite_self, left]

/-- A free is refused with the map as it was, or it asked for a legal
transition of an active extent. -/
theorem WF.freeInCanary_some (ran : m.freeInCanary id newState canary = some answer) :
    m.Live id ∧ ExtentState.active.canTransition newState = true := by
  simp only [ExtentMap.freeInCanary] at ran
  split at ran
  · cases ran
  rename_i e seen
  obtain ⟨listed, rfl⟩ := wf.view_some seen
  split at ran
  · cases ran
  rename_i guards
  simp only [snapshot, not_or, not_not, Bool.not_eq_false] at guards
  refine ⟨wf.live_iff.mpr ⟨listed, guards.1⟩, ?_⟩
  rw [← guards.1]
  exact guards.2

theorem WF.freeInCanary_agreeable (ran : m.freeInCanary id newState canary = some answer)
    (agreeable : m.Live id → ExtentState.active.canTransition newState = true → m.Agreeable id newState) :
    ∃ addr' unused', WF answer.2 addr' unused' := by
  obtain ⟨live, legal⟩ := wf.freeInCanary_some ran
  have agreeable := agreeable live legal
  obtain ⟨survivor, m', ran', addr', unused', wf', -⟩ :=
    wf.freeInCanary newState canary live agreeable.1 legal agreeable.2
  rw [ran] at ran'
  cases ran'
  exact ⟨addr', unused', wf'⟩

/-- One call keeps the map well formed, and a refused call leaves it alone. -/
theorem WF.call (c : MapCall) (agreeable : m.Calls c) :
    (∃ addr' unused', WF (m.call c).2 addr' unused') ∧ ((m.call c).1 = .refused → (m.call c).2 = m) := by
  cases c with
  | split id prefixLen =>
    simp only [ExtentMap.call]
    cases ran : m.splitIn id prefixLen with
    | none => exact ⟨⟨addr, unused, wf⟩, fun _ => rfl⟩
    | some made =>
      obtain ⟨listed, -⟩ := wf.splitIn_eq ran
      obtain ⟨l₁, l₂, rfl⟩ := List.append_of_mem listed
      obtain ⟨rest, -, wf', -⟩ := wf.splitIn ran
      exact ⟨⟨_, rest, wf'⟩, nofun⟩
  | merge left right =>
    simp only [ExtentMap.call]
    cases ran : m.mergeIn left right with
    | mk ok m' =>
      cases ok with
      | false => exact ⟨⟨addr, unused, mergeIn_false ran ▸ wf⟩, fun _ => mergeIn_false ran⟩
      | true =>
        obtain ⟨l₁, l₂, -, wf', -⟩ := wf.mergeIn ran
        exact ⟨⟨_, _, wf'⟩, nofun⟩
  | coalesce id =>
    simp only [ExtentMap.call]
    refine ⟨?_, nofun⟩
    by_cases listed : id ∈ addr
    · obtain ⟨addr', unused', wf', -⟩ := wf.coalesceIn listed
      exact ⟨addr', unused', wf'⟩
    · exact ⟨addr, unused, (wf.coalesceIn_unlisted listed).symm ▸ wf⟩
  | carve neededLen align fit =>
    simp only [ExtentMap.call]
    cases ran : m.carveIn neededLen align fit with
    | mk answer m' =>
      rcases wf.carveIn ran with ⟨-, rfl⟩ | ⟨id, _, addr', unused', _, rfl, -, -, -, -, -, wf', -⟩
      · exact ⟨⟨addr, unused, wf⟩, fun _ => rfl⟩
      · exact ⟨⟨addr', unused', wf'⟩, nofun⟩
  | free id newState =>
    simp only [ExtentMap.call, Calls, freeIn] at agreeable ⊢
    cases ran : m.freeInCanary id newState false with
    | none => exact ⟨⟨addr, unused, wf⟩, fun _ => rfl⟩
    | some answer => exact ⟨wf.freeInCanary_agreeable ran agreeable, nofun⟩
  | freeInCanary id newState canary =>
    simp only [ExtentMap.call, Calls] at agreeable ⊢
    cases ran : m.freeInCanary id newState canary with
    | none => exact ⟨⟨addr, unused, wf⟩, fun _ => rfl⟩
    | some answer => exact ⟨wf.freeInCanary_agreeable ran agreeable, nofun⟩

theorem WF.callRun (ran : CallRun m calls m') : ∃ addr' unused', WF m' addr' unused' := by
  induction ran generalizing addr unused with
  | nil m => exact ⟨addr, unused, wf⟩
  | cons agreeable later ih =>
    obtain ⟨addr', unused', wf'⟩ := (wf.call _ agreeable).1
    exact ih wf'

end

/-- Whatever is called with whatever arguments, as long as each free of an active extent
asks for a free state with the extent's own backing: the oracle accepts
the map, and a call that is refused changes nothing. -/
theorem checkInvariants_of_callRun {metaOk : Bool} {slotBytes regionBase regionLen slotCap : Nat}
    {calls : List MapCall} (made : new metaOk slotBytes regionBase regionLen slotCap = some m)
    (ran : CallRun m calls m') :
    m'.checkInvariants = true ∧ ∀ c, m'.Calls c → (m'.call c).1 = .refused → (m'.call c).2 = m' := by
  obtain ⟨addr, unused, wf, -⟩ := new_wf made
  obtain ⟨addr', unused', wf'⟩ := wf.callRun ran
  exact ⟨wf'.checkInvariants, fun c agreeable => (wf'.call c agreeable).2⟩

/-- A region of one page with one slot. -/
def onePage : Option ExtentMap := new true 128 pageSize pageSize 1

theorem checkInvariants_of_callRun_onePage :
    ∃ m m', onePage = some m ∧
      CallRun m [.carve pageSize pageSize .best, .free 0 .released] m' ∧ m'.checkInvariants = true := by
  have ran : CallRun (onePage.get (by decide +kernel))
      [.carve pageSize pageSize .best, .free 0 .released] _ :=
    .cons trivial (.cons (fun _ _ => by decide +kernel) (.nil _))
  exact ⟨_, _, (Option.some_get _).symm, ran, (checkInvariants_of_callRun (Option.some_get _).symm ran).1⟩

/-- Freeing a carved extent that was never committed as `Dirty`, or as `Active`,
is accepted, and the oracle rejects the map it leaves. -/
theorem free_breaks_checkInvariants :
    ∃ m, onePage = some m ∧ ∀ newState ∈ [ExtentState.dirty, .active],
      ((m.carveIn pageSize pageSize .best).2.freeIn 0 newState).map
        (fun answer => answer.2.checkInvariants) = some false := by
  refine ⟨onePage.get (by decide +kernel), (Option.some_get _).symm, ?_⟩
  decide +kernel

end ExtentMap
end Topomalloc
