import Topomalloc.Extent.Effects

/-! Runs of the extent manager. `checkInvariants_of_run` says that the oracle
accepts every state a run reaches; the ledger of outstanding references then
says what those references mean, however the provider behaves. -/
namespace Topomalloc
open Function

/-- The operations of the manager, each with the arguments its caller
supplies. -/
inductive ExtentOp
  | alloc (size align : Nat) (fit : Fit)
  | allocLarge (bytes align : Nat) (hints : Hints)
  | splitTail (r : ExtentRef) (prefixLen : Nat)
  | growInPlace (r : ExtentRef) (newLen : Nat)
  | freeCanary (r : ExtentRef) (canary forcePurge : Bool)
  | freeRevoking (r : ExtentRef) (arena : Nat) (canary forcePurge : Bool)
  | commit (r : ExtentRef)
  | decommit (r : ExtentRef)
  | purgeLazy (r : ExtentRef)
  | purgeForced (r : ExtentRef)
  | release (r : ExtentRef)

namespace ExtentManager
open ExtentMap

variable {σ : Type}

/-- One operation; the answer carries the reference it returned, if any. -/
def step (P : Provider σ) (H : RegionCacheHook σ) (g : ExtentManager) (w : σ) :
    ExtentOp → Except ExtentError (Option ExtentRef) × ExtentManager × σ
  | .alloc size align fit =>
    let (answer, g, w) := g.alloc P w size align fit
    (answer.map some, g, w)
  | .allocLarge bytes align hints =>
    let (answer, g, w) := g.allocLarge P H w bytes align hints
    (answer.map (·.2.1), g, w)
  | .splitTail r prefixLen =>
    let (answer, g) := g.splitTail r prefixLen
    (answer.map some, g, w)
  | .growInPlace r newLen => silent (g.growInPlace P w r newLen)
  | .freeCanary r canary forcePurge => silent (g.freeCanary P w r canary forcePurge)
  | .freeRevoking r arena canary forcePurge =>
    silent (g.freeRevokingCanary P w r arena canary forcePurge)
  | .commit r => silent (g.commit P w r)
  | .decommit r => silent (g.decommit P w r)
  | .purgeLazy r => silent (g.purgeLazy P w r)
  | .purgeForced r => silent (g.purgeForced P w r)
  | .release r => silent (g.release P w r)
where
  silent : Except ExtentError Unit × ExtentManager × σ →
      Except ExtentError (Option ExtentRef) × ExtentManager × σ
    | (answer, g, w) => (answer.map fun _ => none, g, w)

def run (P : Provider σ) (H : RegionCacheHook σ) (s : ExtentManager × σ) (ops : List ExtentOp) :
    ExtentManager × σ :=
  ops.foldl (fun s op => (s.1.step P H s.2 op).2) s

/-! ## The reservation -/

section Reservation
variable (P : Provider σ) (H : RegionCacheHook σ) (g : ExtentManager) (w : σ)

theorem allocZ_region (size align : Nat) (fit : Fit) : (g.allocZ P w size align fit).2.1.region = g.region := by
  simp only [allocZ]
  repeat' split
  all_goals rfl

theorem growInto_region (id next : Nat) : (g.growInto P w id next).2.1.region = g.region := by
  simp only [growInto]
  repeat' split
  all_goals rfl

theorem growInPlace_region (r : ExtentRef) (newLen : Nat) :
    (g.growInPlace P w r newLen).2.1.region = g.region := by
  unfold growInPlace
  iterate 6
    split
    · rfl
  dsimp only
  split
  · rfl
  split
  · split
    · rfl
    · exact growInto_region P _ w r.id _
  · exact growInto_region P g w r.id _

theorem freeCanary_region (r : ExtentRef) (canary forcePurge : Bool) :
    (g.freeCanary P w r canary forcePurge).2.1.region = g.region := by
  simp only [freeCanary]
  repeat' split
  all_goals rfl

theorem dropBacking_region (r : ExtentRef) (e : Extent) : (g.dropBacking P w r e).2.1.region = g.region := by
  simp only [dropBacking]
  repeat' split
  all_goals rfl

theorem silent_manager (answered : Except ExtentError Unit × ExtentManager × σ) :
    (step.silent answered).2.1 = answered.2.1 := rfl

/-- No operation moves the reservation. -/
theorem step_region (op : ExtentOp) : (g.step P H w op).2.1.region = g.region := by
  cases op with
  | alloc size align fit => exact g.allocZ_region P w size align fit
  | allocLarge bytes align hints =>
    simp only [step, allocLarge]
    iterate 3
      split
      · rfl
    rename_i needed _ _ w' _
    have same := g.allocZ_region P w' needed align .best
    split
    · rename_i failed
      rw [failed] at same
      exact same
    · rename_i served
      rw [served] at same
      exact same
  | splitTail r prefixLen =>
    simp only [step, splitTail]
    repeat' split
    all_goals rfl
  | growInPlace r newLen =>
    rw [step, silent_manager]
    exact g.growInPlace_region P w r newLen
  | freeCanary r canary forcePurge =>
    rw [step, silent_manager]
    exact g.freeCanary_region P w r canary forcePurge
  | freeRevoking r arena canary forcePurge =>
    simp only [step, silent_manager, freeRevokingCanary]
    repeat' split
    all_goals first
      | rfl
      | exact freeCanary_region P g _ r canary forcePurge
  | commit r =>
    simp only [step, silent_manager, commit]
    repeat' split
    all_goals rfl
  | decommit r =>
    simp only [step, silent_manager, decommit]
    repeat' split
    all_goals first
      | rfl
      | exact dropBacking_region P g w r _
  | purgeLazy r =>
    simp only [step, silent_manager, purgeLazy]
    repeat' split
    all_goals rfl
  | purgeForced r =>
    simp only [step, silent_manager, purgeForced]
    repeat' split
    all_goals rfl
  | release r =>
    simp only [step, silent_manager, release]
    repeat' split
    all_goals first
      | rfl
      | exact dropBacking_region P g _ r _

end Reservation

/-! ## A failed operation -/

variable {P : Provider σ} {H : RegionCacheHook σ} {g g' : ExtentManager} {w w' : σ} {op : ExtentOp}
  {err : ExtentError} {addr unused : List Nat}

/-- An operation passes its call on, with the answer read off. -/
theorem mapped {α β : Type} {answer : Except ExtentError β} (f : α → β)
    (call : Except ExtentError α × ExtentManager × σ)
    (ran : (call.1.map f, call.2.1, call.2.2) = (answer, g', w')) :
    ∃ inner, call = (inner, g', w') ∧ answer = inner.map f := by
  obtain ⟨inner, g, w⟩ := call
  cases ran
  exact ⟨inner, rfl, rfl⟩

private theorem mapped_failed {α β : Type} (f : α → β) (call : Except ExtentError α × ExtentManager × σ)
    (ran : (call.1.map f, call.2.1, call.2.2) = (.error err, g', w')) : call = (.error err, g', w') := by
  obtain ⟨_ | _, rfl, ⟨⟩⟩ := mapped f call ran
  rfl

theorem silenced {answer : Except ExtentError (Option ExtentRef)}
    (call : Except ExtentError Unit × ExtentManager × σ) (ran : step.silent call = (answer, g', w')) :
    ∃ inner, call = (inner, g', w') ∧ answer = inner.map fun _ => none :=
  mapped _ call ran

private theorem silenced_failed (call : Except ExtentError Unit × ExtentManager × σ)
    (ran : step.silent call = (.error err, g', w')) : call = (.error err, g', w') :=
  mapped_failed (fun _ => (none : Option ExtentRef)) call ran

theorem step_failed (wf : WF g.map addr unused) (ran : g.step P H w op = (.error err, g', w')) :
    g.Unharmed g' := by
  have backing {r : ExtentRef} (did : Reback P addr g w r.id (.error err) g' w') : g.Unharmed g' := by
    obtain ⟨rfl, -⟩ | ⟨⟨⟩, -⟩ := did
    exact .refl wf
  have allocated {w : σ} {size align : Nat} {fit : Fit}
      (failed : g.allocZ P w size align fit = (.error err, g', w')) : g.Unharmed g' := by
    obtain ⟨-, -, unharmed, -⟩ | ⟨_, _, _, _, _, _, _, ⟨⟩, -⟩ := allocZ_cases wf failed
    exact unharmed
  cases op with
  | alloc size align fit =>
    exact allocated (mapped_failed Prod.fst (g.allocZ P w size align fit)
      (mapped_failed some (g.alloc P w size align fit) ran))
  | allocLarge bytes align hints =>
    obtain ⟨-, -, rfl, -⟩ | ⟨-, -, _, -, ⟨_, -, ⟨⟩, -⟩ | ⟨_, _ | _, -, failed, ⟨⟩⟩⟩ :=
      allocLarge_cases (mapped_failed (·.2.1) (g.allocLarge P H w bytes align hints) ran)
    · exact .refl wf
    · exact allocated failed
  | splitTail r prefixLen =>
    cases called : g.splitTail r prefixLen with
    | mk answer g₁ =>
      simp only [step, called] at ran
      obtain ⟨_, rfl, rfl⟩ | ⟨_, rfl, _⟩ := splitTail_cases wf called
      · cases ran
        exact .refl wf
      · cases ran
  | growInPlace r newLen =>
    obtain ⟨-, -, unharmed, -⟩ | ⟨⟨⟩, -⟩ :=
      growInPlace_cases wf (silenced_failed (g.growInPlace P w r newLen) ran)
    exact unharmed
  | freeCanary r canary forcePurge =>
    obtain ⟨-, -, rfl⟩ | ⟨⟨⟩, -⟩ :=
      freeCanary_cases wf (silenced_failed (g.freeCanary P w r canary forcePurge) ran)
    exact .refl wf
  | freeRevoking r arena canary forcePurge =>
    obtain ⟨-, -, rfl⟩ | ⟨-, _, -, freeing⟩ := freeRevokingCanary_cases
      (silenced_failed (g.freeRevokingCanary P w r arena canary forcePurge) ran)
    · exact .refl wf
    · obtain ⟨-, -, rfl⟩ | ⟨⟨⟩, -⟩ := freeCanary_cases wf freeing
      exact .refl wf
  | commit r => exact backing (commit_cases wf (silenced_failed (g.commit P w r) ran))
  | decommit r => exact backing (decommit_cases wf (silenced_failed (g.decommit P w r) ran))
  | purgeLazy r => exact backing (purgeLazy_cases wf (silenced_failed (g.purgeLazy P w r) ran))
  | purgeForced r => exact backing (purgeForced_cases wf (silenced_failed (g.purgeForced P w r) ran))
  | release r => exact backing (release_cases wf (silenced_failed (g.release P w r) ran))

/-- Whatever operation fails and for whatever reason: every page of the region
keeps its owner and its backing, the counters stand, every handle of a live
extent resolves as before, and the oracle accepts the map. -/
theorem pages_of_failed_step (wf : WF g.map addr unused) (ran : g.step P H w op = (.error err, g', w')) :
    (∀ a, g'.map.pageView a = g.map.pageView a) ∧ g'.map.freeBytes = g.map.freeBytes ∧
      g'.map.committedBytes = g.map.committedBytes ∧
      (∀ r e, g.map.resolve r = some e → e.state = .active → g'.map.resolve r = some e) ∧
      g'.map.checkInvariants = true := by
  obtain ⟨addr', unused', wf', moved⟩ := step_failed wf ran
  exact ⟨moved.pageView_eq wf wf', moved.freeBytes, moved.committedBytes,
    fun r e found active => moved.toSameLive.resolve_eq found active, wf'.checkInvariants⟩

end ExtentManager

/-! ## The ledger -/

/-- What an outstanding reference stands for. -/
structure Grant where
  len : Nat
  align : Nat
  deriving DecidableEq, Repr

/-- The outstanding references. -/
abbrev Ledger := ExtentRef → Option Grant

namespace Ledger

/-- A length rounded up to whole pages. -/
def rounded (size : Nat) : Nat := (alignUp size pageSize).getD 0

/-- Enter an answered operation. `onGrow` gives the length a successful grow
leaves, from the length before it and the rounded request. -/
def record (onGrow : Nat → Nat → Nat) (L : Ledger) :
    ExtentOp → Except ExtentError (Option ExtentRef) → Ledger
  | .alloc size align _, .ok (some r) => update L r (some ⟨rounded size, align⟩)
  | .allocLarge bytes align _, .ok (some r) => update L r (some ⟨rounded bytes, align⟩)
  | .splitTail r prefixLen, .ok (some tail) =>
    let whole := (L r).elim 0 Grant.len
    update (update L r ((L r).map fun grant => { grant with len := prefixLen }))
      tail (some ⟨whole - prefixLen, pageSize⟩)
  | .growInPlace r newLen, .ok _ =>
    update L r ((L r).map fun grant => { grant with len := onGrow grant.len (rounded newLen) })
  | .freeCanary r _ _, .ok _ | .freeRevoking r _ _ _, .ok _ => update L r none
  | _, _ => L

/-- The reference an answered operation resized or freed. -/
def touched : ExtentOp → Except ExtentError (Option ExtentRef) → Option ExtentRef
  | .splitTail r _, .ok _ | .growInPlace r _, .ok _ | .freeCanary r _ _, .ok _
  | .freeRevoking r _ _ _, .ok _ => some r
  | _, _ => none

/-- Every outstanding reference resolves to its own live extent, as granted. -/
structure Agrees (L : Ledger) (m : ExtentMap) : Prop where
  granted : ∀ r grant, L r = some grant → ∃ e, m.resolve r = some e ∧ e.state = .active ∧
    e.committedLen = e.len ∧ m.regionBase ≤ e.base ∧ e.base + e.len ≤ m.regionBase + m.regionLen ∧
    e.len = grant.len ∧ grant.align ∣ e.base
  disjoint : ∀ r r' e e', L r ≠ none → L r' ≠ none → r ≠ r' → m.resolve r = some e →
    m.resolve r' = some e' → e.base + e.len ≤ e'.base ∨ e'.base + e'.len ≤ e.base

/-- The outstanding references are those of the live slots, and each slot is
as granted. -/
structure Tracks (L : Ledger) (m : ExtentMap) : Prop where
  entry : ∀ r grant, L r = some grant → m.Live r.id ∧ (m.slots r.id).generation = r.generation ∧
    (m.slots r.id).len = grant.len ∧ grant.align ∣ (m.slots r.id).base
  complete : ∀ j, m.Live j → L ⟨j, (m.slots j).generation⟩ ≠ none

section Tracking
open ExtentMap
variable {L : Ledger} {m m' : ExtentMap} {id : Nat} {r r' : ExtentRef} {grant : Grant}

section
variable (h : Tracks L m)
include h

/-- A live reference of the current generation is in the ledger. -/
theorem Tracks.held (live : m.Live r.id)
    (current : (m.slots r.id).generation = r.generation) : ∃ grant, L r = some grant := by
  have entered := h.complete r.id live
  rw [current] at entered
  exact Option.ne_none_iff_exists'.mp entered

/-- An entry for the slot of `r` carries that slot's generation, so a current
`r` is the only reference to its slot. -/
theorem Tracks.other (current : (m.slots r.id).generation = r.generation)
    (held : L r' = some grant) (ne : r' ≠ r) : r'.id ≠ r.id := by
  intro same
  obtain ⟨-, generation, -⟩ := h.entry r' grant held
  rw [same] at generation
  cases r
  cases r'
  simp_all

/-- An entry survives if its slot keeps its body. -/
theorem Tracks.of_body (region : SameRegion m m') (held : L r = some grant)
    (same : (m'.slots r.id).body = (m.slots r.id).body) :
    m'.Live r.id ∧ (m'.slots r.id).generation = r.generation ∧ (m'.slots r.id).len = grant.len ∧
      grant.align ∣ (m'.slots r.id).base := by
  obtain ⟨live, generation, len, aligned⟩ := h.entry r grant held
  obtain ⟨base', len', -, -, -, generation'⟩ := Slot.fields_of_body same
  exact ⟨live.of_body region same, generation'.trans generation, len'.trans len, base' ▸ aligned⟩

/-- A slot that keeps its body keeps its entry. -/
theorem Tracks.complete_of_body (live : m.Live id)
    (same : (m'.slots id).body = (m.slots id).body) : L ⟨id, (m'.slots id).generation⟩ ≠ none := by
  rw [(Slot.fields_of_body same).2.2.2.2.2]
  exact h.complete id live

theorem Tracks.sameLive (same : SameLive m m') : Tracks L m' :=
  ⟨fun r grant held => h.of_body same.region held (same.kept r.id (h.entry r grant held).1),
    fun j live => h.complete_of_body (same.back j live) (same.kept j (same.back j live))⟩

/-- An entry other than `r` is kept when only the slot of `r` is rewritten. -/
theorem Tracks.update {entry : Option Grant} (region : SameRegion m m')
    (kept : ∀ j, m.Live j → j ≠ r.id → (m'.slots j).body = (m.slots j).body)
    (back : ∀ j, m'.Live j → j ≠ r.id → m.Live j)
    (apart : ∀ r' grant, L r' = some grant → r' ≠ r → r'.id ≠ r.id)
    (granted : ∀ grant, entry = some grant → m'.Live r.id ∧ (m'.slots r.id).generation = r.generation ∧
      (m'.slots r.id).len = grant.len ∧ grant.align ∣ (m'.slots r.id).base)
    (current : m'.Live r.id → entry ≠ none ∧ (m'.slots r.id).generation = r.generation) :
    Tracks (update L r entry) m' := by
  refine ⟨fun r' grant held => ?_, fun j live => ?_⟩
  · by_cases same : r' = r
    · subst same
      rw [update_self] at held
      exact granted grant held
    · rw [update_of_ne same] at held
      exact h.of_body region held (kept r'.id (h.entry r' grant held).1 (apart r' grant held same))
  · by_cases here : j = r.id
    · subst here
      obtain ⟨entered, generation⟩ := current live
      rw [generation, update_self]
      exact entered
    · have ne : (⟨j, (m'.slots j).generation⟩ : ExtentRef) ≠ r := fun same => here (congrArg ExtentRef.id same)
      rw [update_of_ne ne]
      exact h.complete_of_body (back j live here) (kept j (back j live here) here)

theorem Tracks.carved {len : Nat} (carved : Carved m m' r.id len align)
    (current : (m'.slots r.id).generation = r.generation) :
    Tracks (Function.update L r (some ⟨len, align⟩)) m' := by
  refine h.update carved.region (fun j live _ => carved.kept j live)
    (fun j live ne => (carved.back j live).resolve_right ne) ?_ ?_ fun _ => ⟨by simp, current⟩
  · exact fun r' grant held _ same => carved.fresh (same ▸ (h.entry r' grant held).1)
  · rintro _ ⟨⟩
    exact ⟨carved.live, current, carved.len, carved.aligned⟩

theorem Tracks.freed (freed : Freed m m' r.id)
    (current : (m.slots r.id).generation = r.generation) : Tracks (Function.update L r none) m' :=
  h.update freed.region freed.kept (fun j live _ => (freed.back j live).1)
    (fun _ _ held ne => h.other current held ne) (by simp)
    fun live => absurd rfl (freed.back r.id live).2

theorem Tracks.grown {len : Nat} (grown : Grown m m' r.id len)
    (current : (m.slots r.id).generation = r.generation) (held : L r = some grant) :
    Tracks (Function.update L r (some { grant with len })) m' := by
  refine h.update grown.region grown.kept (fun j live _ => grown.back j live)
    (fun _ _ held ne => h.other current held ne) ?_
    fun _ => ⟨by simp, grown.generation.trans current⟩
  rintro _ ⟨⟩
  exact ⟨grown.live, grown.generation.trans current, grown.len, grown.base ▸ (h.entry r grant held).2.2.2⟩

theorem Tracks.cut
    (cut : Cut m m' r.id prefixLen tail.id) (current : (m.slots r.id).generation = r.generation)
    (tailCurrent : (m'.slots tail.id).generation = tail.generation) (held : L r = some grant)
    (page : pageSize ∣ (m'.slots tail.id).base) :
    Tracks (Function.update (Function.update L r (some { grant with len := prefixLen })) tail
      (some ⟨grant.len - prefixLen, pageSize⟩)) m' := by
  obtain ⟨live, -, len, aligned⟩ := h.entry r grant held
  have apart : r.id ≠ tail.id := fun same => cut.fresh (same ▸ live)
  refine ⟨fun r' grant' held' => ?_, fun j after => ?_⟩
  · by_cases isTail : r' = tail
    · subst isTail
      rw [update_self] at held'
      obtain rfl := Option.some.inj held'
      exact ⟨cut.tailLive, tailCurrent, by rw [cut.tailLen, len], page⟩
    rw [update_of_ne isTail] at held'
    by_cases isHead : r' = r
    · subst isHead
      rw [update_self] at held'
      obtain rfl := Option.some.inj held'
      exact ⟨cut.live, cut.generation.trans current, cut.len, cut.base ▸ aligned⟩
    · rw [update_of_ne isHead] at held'
      have other := h.other current held' isHead
      exact h.of_body cut.region held' (cut.kept r'.id (h.entry r' grant' held').1 other)
  · by_cases isTail : j = tail.id
    · rw [isTail, tailCurrent, update_self]
      simp
    have notTail : (⟨j, (m'.slots j).generation⟩ : ExtentRef) ≠ tail := fun same =>
      isTail (congrArg ExtentRef.id same)
    rw [update_of_ne notTail]
    by_cases isHead : j = r.id
    · rw [isHead, cut.generation, current, update_self]
      simp
    · have notHead : (⟨j, (m'.slots j).generation⟩ : ExtentRef) ≠ r := fun same =>
        isHead (congrArg ExtentRef.id same)
      have before := (cut.back j after).resolve_right isTail
      rw [update_of_ne notHead]
      exact h.complete_of_body before (cut.kept j before isHead)

end

/-- Resolution reads the body of one slot. -/
theorem resolve_of_body (region : SameRegion m m')
    (same : (m'.slots r.id).body = (m.slots r.id).body) : m'.resolve r = m.resolve r := by
  have view : m'.view r.id = m.view r.id := by
    have snap : snapshot r.id (m'.slots r.id) = snapshot r.id (m.slots r.id) :=
      (congrArg (snapshot r.id) same : snapshot r.id (m'.slots r.id).body = snapshot r.id (m.slots r.id).body)
    have occupied := (Slot.fields_of_body same).2.2.2.2.1
    simp only [ExtentMap.view, ExtentMap.get, region.cap, occupied, snap]
  simp only [ExtentMap.resolve, view]

/-- What tracking gives in a settled map. -/
theorem Tracks.agrees (h : Tracks L m) (settled : m.Settled) : Agrees L m := by
  obtain ⟨addr, unused, wf⟩ := settled.wf
  have resolved : ∀ r, L r ≠ none → r.id ∈ addr ∧ m.resolve r = some (snapshot r.id (m.slots r.id)) := by
    intro r held
    obtain ⟨grant, held⟩ := Option.ne_none_iff_exists'.mp held
    obtain ⟨live, current, -⟩ := h.entry r grant held
    have listed := (wf.live_iff.mp live).1
    exact ⟨listed, wf.resolve_eq listed current⟩
  refine ⟨fun r grant held => ?_, fun r r' e e' held held' ne found found' => ?_⟩
  · obtain ⟨listed, found⟩ := resolved r (by simp [held])
    obtain ⟨live, -, len, aligned⟩ := h.entry r grant held
    obtain ⟨low, high⟩ := wf.shape.within listed
    exact ⟨_, found, live.2.2, settled.backed r.id live, low, high, len, aligned⟩
  · obtain ⟨listed, here⟩ := resolved r held
    obtain ⟨listed', here'⟩ := resolved r' held'
    obtain rfl := Option.some.inj (here.symm.trans found)
    obtain rfl := Option.some.inj (here'.symm.trans found')
    obtain ⟨grant, granted⟩ := Option.ne_none_iff_exists'.mp held
    obtain ⟨grant', granted'⟩ := Option.ne_none_iff_exists'.mp held'
    have apart := h.other (h.entry r' grant' granted').2.1 granted ne
    exact wf.shape.tiles.disjoint listed listed' apart

end Tracking

end Ledger

namespace ExtentManager
open ExtentMap Ledger

variable {σ : Type} {P : Provider σ} {H : RegionCacheHook σ} {g g' : ExtentManager} {w w' : σ}
  {L : Ledger} {op : ExtentOp} {answer : Except ExtentError (Option ExtentRef)} {r : ExtentRef}

/-- What one operation keeps: the map settled and over its region, the ledger
exact and every reference it does not touch resolving as before. -/
structure Keeps (L L' : Ledger) (m m' : ExtentMap) (touched : Option ExtentRef) : Prop where
  settled : m'.Settled
  tracks : Tracks L' m'
  same : ∀ r, L r ≠ none → touched ≠ some r → m'.resolve r = m.resolve r
  region : SameRegion m m'

/-- When only the slot of a current `r` is rewritten, every other outstanding
reference resolves as before. -/
theorem resolve_other (tracks : Tracks L m) (region : SameRegion m m')
    (kept : ∀ j, m.Live j → j ≠ r.id → (m'.slots j).body = (m.slots j).body)
    (current : (m.slots r.id).generation = r.generation) (held : L r' ≠ none)
    (ne : some r ≠ some r') : m'.resolve r' = m.resolve r' := by
  obtain ⟨grant, held⟩ := Option.ne_none_iff_exists'.mp held
  have other := tracks.other current held fun same => ne (same ▸ rfl)
  exact resolve_of_body region (kept r'.id (tracks.entry r' grant held).1 other)

theorem keeps_sameLive {touched : Option ExtentRef} (tracks : Tracks L m)
    (settled : m'.Settled) (same : SameLive m m') : Keeps L L m m' touched := by
  refine ⟨settled, tracks.sameLive same, fun r held _ => ?_, same.region⟩
  obtain ⟨grant, held⟩ := Option.ne_none_iff_exists'.mp held
  exact resolve_of_body same.region (same.kept r.id (tracks.entry r grant held).1)

theorem keeps_carved (tracks : Tracks L m) (settled : m'.Settled)
    (carved : Carved m m' r.id len align) (current : (m'.slots r.id).generation = r.generation) :
    Keeps L (Function.update L r (some ⟨len, align⟩)) m m' none := by
  refine ⟨settled, tracks.carved carved current, fun r' held _ => ?_, carved.region⟩
  obtain ⟨grant, held⟩ := Option.ne_none_iff_exists'.mp held
  exact resolve_of_body carved.region (carved.kept r'.id (tracks.entry r' grant held).1)

/-- A successful free removes exactly the freed reference. -/
theorem keeps_freed (tracks : Tracks L m) (settled : m'.Settled)
    (current : (m.slots r.id).generation = r.generation) (freed : Freed m m' r.id) :
    Keeps L (Function.update L r none) m m' (some r) :=
  ⟨settled, tracks.freed freed current,
    fun _ => resolve_other tracks freed.region freed.kept current, freed.region⟩

theorem step_keeps (settled : g.map.Settled) (tracks : Tracks L g.map)
    (ran : g.step P H w op = (answer, g', w')) :
    Keeps L (record max L op answer) g.map g'.map (touched op answer) := by
  obtain ⟨addr, unused, wf⟩ := settled.wf
  -- the operations on the backing change no entry
  have backing {r : ExtentRef} {call : Except ExtentError Unit × ExtentManager × σ}
      {touched : Option ExtentRef} (cases : ∀ {inner}, call = (inner, g', w') →
        Reback P addr g w r.id inner g' w') (ran : step.silent call = (answer, g', w')) :
      Keeps L L g.map g'.map touched := by
    obtain ⟨inner, called, -⟩ := silenced call ran
    obtain ⟨after, same⟩ := (cases called).effect settled wf
    exact keeps_sameLive tracks after same
  cases op with
  | alloc size align fit =>
    obtain ⟨_, asked, rfl⟩ := mapped some (g.alloc P w size align fit) ran
    obtain ⟨inner, called, rfl⟩ := mapped Prod.fst (g.allocZ P w size align fit) asked
    obtain ⟨after, ⟨err, rfl, same⟩ | ⟨r, prov, needed, rfl, fits, carved, current⟩⟩ :=
      allocZ_effect settled called
    · exact keeps_sameLive tracks after same
    · have kept := keeps_carved tracks after carved current
      rwa [show needed = rounded size by simp [rounded, fits]] at kept
  | allocLarge bytes align hints =>
    obtain ⟨inner, called, rfl⟩ := mapped (·.2.1) (g.allocLarge P H w bytes align hints) ran
    obtain ⟨err, rfl, rfl, -⟩ | ⟨-, -, needed, fits, ⟨region, -, rfl, rfl⟩ |
      ⟨w₁, inner, -, allocated, rfl⟩⟩ := allocLarge_cases called
    · exact keeps_sameLive tracks settled .refl
    · -- served by the region cache: no extent is handed out
      exact keeps_sameLive tracks settled .refl
    obtain ⟨after, ⟨err, rfl, same⟩ | ⟨r, prov, again, rfl, fits', carved, current⟩⟩ :=
      allocZ_effect settled allocated
    · exact keeps_sameLive tracks after same
    · have whole := (alignUp_spec (by decide) fits).1
      obtain rfl := alignUp_eq_of_dvd (by decide) whole fits'
      have kept := keeps_carved tracks after carved current
      rwa [show again = rounded bytes by simp [rounded, fits]] at kept
  | splitTail r prefixLen =>
    simp only [step] at ran
    cases called : g.splitTail r prefixLen with
    | mk inner rest =>
      rw [called] at ran
      cases ran
      obtain ⟨after, ⟨err, rfl, same⟩ | ⟨tail, rfl, live, current, cut, tailCurrent⟩⟩ :=
        splitTail_effect settled called
      · exact keeps_sameLive tracks after (same ▸ .refl)
      obtain ⟨grant, held⟩ := tracks.held live current
      obtain ⟨addr, unused, wf⟩ := after.wf
      have page := wf.shape.page_base (wf.live_iff.mp cut.tailLive).1
      refine ⟨after, ?_, fun _ => resolve_other tracks cut.region cut.kept current, cut.region⟩
      have tracked := tracks.cut cut current tailCurrent held page
      simp only [record, Except.map, held, Option.map_some, Option.elim_some]
      exact tracked
  | growInPlace r newLen =>
    obtain ⟨inner, called, rfl⟩ := silenced (g.growInPlace P w r newLen) ran
    obtain ⟨after, ⟨err, rfl, same⟩ | ⟨needed, rfl, fits, live, current, outcome⟩⟩ :=
      growInPlace_effect settled called
    · exact keeps_sameLive tracks after same
    obtain ⟨grant, held⟩ := tracks.held live current
    have len := (tracks.entry r grant held).2.2.1
    have request : rounded newLen = needed := by simp [rounded, fits]
    rcases outcome with ⟨enough, rfl⟩ | ⟨short, grown⟩
    · -- long enough already: the ledger is written back as it was
      have unchanged : record max L (.growInPlace r newLen) (.ok none) = L := by
        simp only [record, held, request, Option.map_some]
        rw [max_eq_left (len ▸ enough)]
        exact update_eq_self_iff.mpr held.symm
      have kept : Keeps L L g'.map g'.map (some r) := keeps_sameLive tracks after .refl
      exact unchanged.symm ▸ kept
    · refine ⟨after, ?_, fun _ => resolve_other tracks grown.region grown.kept current, grown.region⟩
      have grownTracks := tracks.grown grown current held
      simp only [record, Except.map, held, request, Option.map_some]
      rwa [max_eq_right (by omega)]
  | freeCanary r canary forcePurge =>
    obtain ⟨inner, called, rfl⟩ := silenced (g.freeCanary P w r canary forcePurge) ran
    obtain ⟨after, ⟨err, rfl, same⟩ | ⟨rfl, -, current, freed⟩⟩ := freeCanary_effect settled called
    · exact keeps_sameLive tracks after (same ▸ .refl)
    · exact keeps_freed tracks after current freed
  | freeRevoking r arena canary forcePurge =>
    obtain ⟨inner, called, rfl⟩ := silenced (g.freeRevokingCanary P w r arena canary forcePurge) ran
    obtain ⟨after, ⟨err, rfl, same⟩ | ⟨rfl, -, current, freed⟩⟩ := freeRevokingCanary_effect settled called
    · exact keeps_sameLive tracks after (same ▸ .refl)
    · exact keeps_freed tracks after current freed
  | commit r => cases answer <;> exact backing (commit_cases wf) ran
  | decommit r => cases answer <;> exact backing (decommit_cases wf) ran
  | purgeLazy r => cases answer <;> exact backing (purgeLazy_cases wf) ran
  | purgeForced r => cases answer <;> exact backing (purgeForced_cases wf) ran
  | release r => cases answer <;> exact backing (release_cases wf) ran

/-! ## Runs -/

/-- The manager `new` builds is settled and nothing is outstanding. -/
theorem new_settled {arena : Nat} {region : Region}
    (made : new metaOk slotBytes region arena slotCap policy = some g) :
    g.map.Settled ∧ Tracks (fun _ => none) g.map := by
  simp only [new, Option.map_eq_some_iff] at made
  obtain ⟨map, built, rfl⟩ := made
  obtain ⟨addr, unused, wf, dead⟩ := new_wf built
  obtain ⟨addr', unused', wf', dead'⟩ := wf.setArena dead arena
  exact ⟨⟨⟨addr', unused', wf'⟩, fun j live => absurd live (dead' j)⟩,
    ⟨by simp, fun j live => absurd live (dead' j)⟩⟩

/-- It manages the region it was given. -/
theorem new_region {arena : Nat} {region : Region}
    (made : new metaOk slotBytes region arena slotCap policy = some g) :
    g.region = region ∧ g.map.regionBase = region.base ∧ g.map.regionLen = region.len := by
  simp only [new, Option.map_eq_some_iff] at made
  obtain ⟨map, built, rfl⟩ := made
  obtain ⟨base, len⟩ := ExtentMap.new_rooted built
  refine ⟨rfl, ?_⟩
  simp only [ExtentMap.setArena]
  split
  · exact ⟨base, len⟩
  · exact ⟨base, len⟩

/-- A manager with its provider state and the ledger of its outstanding
references. -/
structure Tracked (σ : Type) where
  mgr : ExtentManager
  world : σ
  ledger : Ledger

/-- One recorded operation. -/
def Tracked.step (onGrow : Nat → Nat → Nat) (P : Provider σ) (H : RegionCacheHook σ) (s : Tracked σ)
    (op : ExtentOp) : Tracked σ :=
  let answered := s.mgr.step P H s.world op
  { mgr := answered.2.1, world := answered.2.2, ledger := s.ledger.record onGrow op answered.1 }

def Tracked.run (onGrow : Nat → Nat → Nat) (P : Provider σ) (H : RegionCacheHook σ) (s : Tracked σ)
    (ops : List ExtentOp) : Tracked σ :=
  ops.foldl (Tracked.step onGrow P H) s

theorem Tracked.run_keeps {s : Tracked σ} (ops : List ExtentOp) (settled : s.mgr.map.Settled)
    (tracks : Tracks s.ledger s.mgr.map) :
    (s.run max P H ops).mgr.map.Settled ∧ Tracks (s.run max P H ops).ledger (s.run max P H ops).mgr.map := by
  induction ops generalizing s with
  | nil => exact ⟨settled, tracks⟩
  | cons op ops ih =>
    have kept := step_keeps settled tracks (rfl : s.mgr.step P H s.world op = _)
    exact ih kept.settled kept.tracks

/-- The ledger is a ghost: it does not change the run. -/
theorem Tracked.run_eq {s : Tracked σ} (onGrow : Nat → Nat → Nat) (ops : List ExtentOp) :
    ((s.run onGrow P H ops).mgr, (s.run onGrow P H ops).world) =
      ExtentManager.run P H (s.mgr, s.world) ops := by
  induction ops generalizing s with
  | nil => rfl
  | cons op ops ih => exact ih

/-- The oracle accepts every state that a run from a new manager reaches,
whatever the provider and the region cache answer. -/
theorem checkInvariants_of_run {metaOk : Bool} {slotBytes arena slotCap : Nat} {region : Region}
    {policy : RetainPolicy} (made : new metaOk slotBytes region arena slotCap policy = some g)
    (w : σ) (ops : List ExtentOp) : (run P H (g, w) ops).1.map.checkInvariants = true := by
  obtain ⟨settled, tracks⟩ := new_settled made
  have kept := Tracked.run_keeps (P := P) (H := H) (s := ⟨g, w, fun _ => none⟩) ops settled tracks
  have same := Tracked.run_eq (P := P) (H := H) (s := ⟨g, w, fun _ => none⟩) max ops
  obtain ⟨addr, unused, wf⟩ := kept.1.wf
  rw [← same]
  exact wf.checkInvariants

/-- In every state a run reaches, the outstanding references resolve to
disjoint live extents as granted, and the next operation changes the resolution
of none that it does not itself resize or free. -/
theorem ledger_of_run {metaOk : Bool} {slotBytes arena slotCap : Nat} {region : Region}
    {policy : RetainPolicy} (made : new metaOk slotBytes region arena slotCap policy = some g)
    (w : σ) (ops : List ExtentOp) :
    let s := Tracked.run max P H ⟨g, w, fun _ => none⟩ ops
    Agrees s.ledger s.mgr.map ∧
      ∀ op r, s.ledger r ≠ none → touched op (s.mgr.step P H s.world op).1 ≠ some r →
        (s.mgr.step P H s.world op).2.1.map.resolve r = s.mgr.map.resolve r := by
  obtain ⟨settled, tracks⟩ := new_settled made
  obtain ⟨settled', tracks'⟩ :=
    Tracked.run_keeps (P := P) (H := H) (s := ⟨g, w, fun _ => none⟩) ops settled tracks
  refine ⟨tracks'.agrees settled', fun op r held ne => ?_⟩
  generalize Tracked.run max P H ⟨g, w, fun _ => none⟩ ops = s at *
  cases ran : s.mgr.step P H s.world op with
  | mk answer rest =>
    rw [ran] at ne
    exact (step_keeps settled' tracks' ran).same r held ne

/-- A region of four pages with four slots. -/
def fourPages : Option ExtentManager := new true 128 ⟨pageSize, 4 * pageSize⟩ 0 4 .retain

theorem exists_fourPages : ∃ g, fourPages = some g := Option.isSome_iff_exists.mp (by decide +kernel)

/-- A provider that refuses every commit. -/
def refusing : Provider Unit := { Provider.willing with commit := fun _ _ _ _ => (.error .outOfMemory, ()) }

theorem pages_of_failed_step_fourPages :
    ∃ g g', fourPages = some g ∧ g.step refusing (noRegionCache Unit) () (.alloc 1 (2 * pageSize) .best) =
        (.error (.backend .outOfMemory), g', ()) ∧
      ∀ a, g'.map.pageView a = g.map.pageView a := by
  obtain ⟨g, made⟩ := exists_fourPages
  have refused : (fourPages.map fun g =>
      (g.step refusing (noRegionCache Unit) () (.alloc 1 (2 * pageSize) .best)).1) =
        some (.error (.backend .outOfMemory)) := by decide +kernel
  rw [made, Option.map_some, Option.some.injEq] at refused
  obtain ⟨addr, unused, wf⟩ := (new_settled made).1.wf
  exact ⟨g, _, made, Prod.ext refused rfl, (pages_of_failed_step wf (Prod.ext refused rfl)).1⟩

theorem checkInvariants_of_run_fourPages :
    ∃ g, fourPages = some g ∧ (run Provider.willing (noRegionCache Unit) (g, ())
        [.alloc 1 pageSize .best, .freeCanary ⟨0, 1⟩ false false]).1.map.checkInvariants = true := by
  obtain ⟨g, made⟩ := exists_fourPages
  exact ⟨g, made, checkInvariants_of_run made () _⟩

/-- A grow to no more than the current length succeeds and leaves the length:
the extent of two pages stays two pages after a successful grow to one. -/
theorem growInPlace_keeps_longer :
    ∃ g, fourPages = some g ∧ ¬ Agrees
        (Tracked.run (fun _ requested => requested) Provider.willing (noRegionCache Unit)
          ⟨g, (), fun _ => none⟩
          [.alloc (2 * pageSize) pageSize .best, .growInPlace ⟨0, 1⟩ pageSize]).ledger
        (Tracked.run (fun _ requested => requested) Provider.willing (noRegionCache Unit)
          ⟨g, (), fun _ => none⟩
          [.alloc (2 * pageSize) pageSize .best, .growInPlace ⟨0, 1⟩ pageSize]).mgr.map := by
  refine ⟨fourPages.get (by decide +kernel), (Option.some_get _).symm, fun agrees => ?_⟩
  set s := Tracked.run (fun _ requested => requested) Provider.willing (noRegionCache Unit)
    ⟨fourPages.get _, (), fun _ => none⟩
    [.alloc (2 * pageSize) pageSize .best, .growInPlace ⟨0, 1⟩ pageSize]
  have entered : s.ledger ⟨0, 1⟩ = some ⟨pageSize, pageSize⟩ := by decide +kernel
  have length : (s.mgr.map.resolve ⟨0, 1⟩).map Extent.len = some (2 * pageSize) := by decide +kernel
  obtain ⟨e, found, -, -, -, -, len, -⟩ := agrees.granted _ _ entered
  rw [found, Option.map_some, Option.some.injEq, len] at length
  exact absurd length (by decide)

theorem ledger_of_run_fourPages :
    ∃ g, fourPages = some g ∧ Agrees
        (Tracked.run max Provider.willing (noRegionCache Unit) ⟨g, (), fun _ => none⟩
          [.alloc (2 * pageSize) pageSize .best, .growInPlace ⟨0, 1⟩ pageSize]).ledger
        (Tracked.run max Provider.willing (noRegionCache Unit) ⟨g, (), fun _ => none⟩
          [.alloc (2 * pageSize) pageSize .best, .growInPlace ⟨0, 1⟩ pageSize]).mgr.map := by
  obtain ⟨g, made⟩ := exists_fourPages
  exact ⟨g, made, (ledger_of_run made () _).1⟩

end ExtentManager
end Topomalloc
