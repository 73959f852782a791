import Topomalloc.Extent.Ledger

/-! What the pages hold, and what `alloc_z` says about it.

The contents are a ghost beside the run: the provider's commits and discards
write them, a caller that frees with the canary has filled the extent before,
and what is handed out is the owner's to overwrite. They never read the `canary`
bit. The bit says less than the contents do, since a merge keeps it only if both
sides have it, but it never says more. -/
namespace Topomalloc

/-- What is known to be in a page. -/
inductive Content
  | freshZero
  | canary
  | unknown
  deriving DecidableEq, Repr

/-- The content of each page of the address space, by page number. -/
abbrev Contents := Nat → Content

/-- Write the pages of `[base, base + len)`. -/
def Contents.paint (c : Contents) (base len : Nat) (content : Content) : Contents := fun p =>
  if base ≤ p * pageSize ∧ p * pageSize < base + len then content else c p

/-- A provider call that leaves `after` in memory if it succeeds. -/
def Contents.upon {σ : Type} (c after : Contents) :
    Except BackendError Unit × σ → Except BackendError Unit × σ × Contents
  | (.ok (), w) => (.ok (), w, after)
  | (.error err, w) => (.error err, w, c)

/-- The provider with the contents beside its state. -/
def Provider.watched {σ : Type} (P : Provider σ) : Provider (σ × Contents) where
  commit s region offset len :=
    s.2.upon (s.2.paint (region.base + offset) len
      (if P.committedMemoryIsZeroed then .freshZero else .unknown)) (P.commit s.1 region offset len)
  decommit s region offset len :=
    s.2.upon (s.2.paint (region.base + offset) len .unknown) (P.decommit s.1 region offset len)
  purgeLazy s region offset len :=
    s.2.upon (s.2.paint (region.base + offset) len .unknown) (P.purgeLazy s.1 region offset len)
  purgeForced s region offset len :=
    s.2.upon (s.2.paint (region.base + offset) len .unknown) (P.purgeForced s.1 region offset len)
  protect s region offset len accessible := s.2.upon s.2 (P.protect s.1 region offset len accessible)
  revokeDescendants s arena region := s.2.upon s.2 (P.revokeDescendants s.1 arena region)
  committedMemoryIsZeroed := P.committedMemoryIsZeroed

/-- The region cache manages reservations of its own. -/
def RegionCacheHook.watched {σ : Type} (H : RegionCacheHook σ) : RegionCacheHook (σ × Contents) where
  tryAlloc s bytes align hints :=
    let (answer, w) := H.tryAlloc s.1 bytes align hints
    (answer, w, s.2)
  tryCache s region :=
    let (answer, w) := H.tryCache s.1 region
    (answer, w, s.2)
  tryCacheRevoking s region arena :=
    let (answer, w) := H.tryCacheRevoking s.1 region arena
    (answer, w, s.2)
  tryTrim s region newLen :=
    let (answer, w) := H.tryTrim s.1 region newLen
    (answer, w, s.2)

namespace ExtentManager
open ExtentMap

variable {σ : Type}

/-- What the caller writes before the call: a free with the canary follows a
fill of the extent. -/
def fillBefore (g : ExtentManager) (c : Contents) : ExtentOp → Contents
  | .freeCanary r true _ | .freeRevoking r _ true _ =>
    match g.map.resolve r with
    | some e => c.paint e.base e.len .canary
    | none => c
  | _ => c

/-- What the call leaves: a fill counts only if the free was accepted, and what
was handed out is the owner's. `before` and `after` are the contents around the
call. -/
def handOver (g : ExtentManager) (before after : Contents) :
    ExtentOp → Except ExtentError (Option ExtentRef) → Contents
  | .alloc .., .ok (some r) | .allocLarge .., .ok (some r) | .growInPlace r _, .ok _ =>
    after.paint (g.map.slots r.id).base (g.map.slots r.id).len .unknown
  | .freeCanary .., .error _ | .freeRevoking .., .error _ => before
  | _, _ => after

/-- A manager with its provider state and the contents of its pages. -/
structure Watched (σ : Type) where
  mgr : ExtentManager
  world : σ
  contents : Contents

/-- What can happen to a manager: an operation, or a change of its retain
policy. -/
inductive WatchedOp
  | op (op : ExtentOp)
  | setRetainPolicy (policy : RetainPolicy)

def Watched.step (P : Provider σ) (H : RegionCacheHook σ) (s : Watched σ) : WatchedOp → Watched σ
  | .op op =>
    let filled := s.mgr.fillBefore s.contents op
    let (answer, mgr, world, after) := s.mgr.step P.watched H.watched (s.world, filled) op
    { mgr, world, contents := mgr.handOver s.contents after op answer }
  | .setRetainPolicy policy => { s with mgr := { s.mgr with retain := policy } }

def Watched.run (P : Provider σ) (H : RegionCacheHook σ) (s : Watched σ) (ops : List WatchedOp) : Watched σ :=
  ops.foldl (Watched.step P H) s

end ExtentManager

/-! ## Marked pages -/

namespace Contents
variable {σ : Type} {c c' : Contents} {base len p : Nat} {content : Content}
  {call : Except BackendError Unit × σ} {w : σ}

theorem paint_inside (above : base ≤ p * pageSize) (below : p * pageSize < base + len) :
    c.paint base len content p = content := if_pos ⟨above, below⟩

theorem paint_outside (outside : ¬ (base ≤ p * pageSize ∧ p * pageSize < base + len)) :
    c.paint base len content p = c p := if_neg outside

theorem upon_ok (ran : c.upon after call = (.ok (), w, c')) : c' = after := by
  obtain ⟨answer, w'⟩ := call
  cases answer with
  | error err => cases ran
  | ok _ =>
    cases ran
    rfl

theorem upon_error (ran : c.upon after call = (.error err, w, c')) : c' = c := by
  obtain ⟨answer, w'⟩ := call
  cases answer with
  | error err =>
    cases ran
    rfl
  | ok _ => cases ran

/-- A revocation changes no memory. -/
theorem upon_same (ran : c.upon c call = (answer, w, c')) : c' = c := by
  obtain ⟨inner, w'⟩ := call
  cases inner with
  | error err =>
    cases ran
    rfl
  | ok _ =>
    cases ran
    rfl

end Contents

theorem Provider.Spared.contents {σ : Type} {P : Provider σ} {s s' : σ × Contents}
    (h : P.watched.Spared s s') : s'.2 = s.2 := by
  induction h with
  | refl => rfl
  | commit _ refused ih => exact (Contents.upon_error refused).trans ih
  | decommit _ refused ih => exact (Contents.upon_error refused).trans ih
  | purgeLazy _ refused ih => exact (Contents.upon_error refused).trans ih
  | purgeForced _ refused ih => exact (Contents.upon_error refused).trans ih
  | revoke _ revoked ih => exact (Contents.upon_same revoked).trans ih

namespace ExtentMap

variable {m m' : ExtentMap} {addr unused : List Nat} {a id next : Nat} {s : Slot} {c c' : Contents}

/-- A free extent whose canary bit is set covers the address. -/
def Marked (m : ExtentMap) (a : Nat) : Prop :=
  ∃ j, m.Covers a j ∧ (m.slots j).state.isFree = true ∧ (m.slots j).canary = true

/-- Every marked page holds the canary. -/
def Truthful (m : ExtentMap) (c : Contents) : Prop := ∀ p, m.Marked (p * pageSize) → c p = .canary

theorem Reshaped.marked (h : Reshaped m m') (marked : m'.Marked a) : m.Marked a := by
  obtain ⟨j, covered, free, canary⟩ := marked
  obtain ⟨i, covered', refines⟩ := h.pages a j covered
  exact ⟨i, covered', refines.free ▸ free, refines.canary canary⟩

theorem Truthful.reshaped (h : Truthful m c) (moved : Reshaped m m') : Truthful m' c :=
  fun p marked => h p (moved.marked marked)

/-- After a write to one slot, a marked address is in another extent, where it
was marked before, or in that one, with the mark just written. -/
theorem WroteTo.marked (h : WroteTo m m' id s) (wf : WF m addr unused) (listed : id ∈ addr)
    (base : s.base = (m.slots id).base) (len : s.len = (m.slots id).len) (marked : m'.Marked a) :
    m.Marked a ∧ ¬ m.Covers a id ∨ m.Covers a id ∧ s.state.isFree = true ∧ s.canary = true := by
  obtain ⟨j, covered, free, canary⟩ := marked
  by_cases same : j = id
  · subst same
    obtain ⟨base', len', -, state', -⟩ := Slot.fields_of_body h.written
    obtain ⟨-, -, above, below⟩ := covered
    rw [base', base] at above
    rw [base', len', base, len] at below
    exact .inr ⟨wf.covers_iff.mpr ⟨listed, above, below⟩, state' ▸ free,
      Slot.canary_of_body h.written ▸ canary⟩
  · have body := h.other j same
    have before := covered.of_body h.region body
    refine .inl ⟨⟨j, before, ?_, Slot.canary_of_body body ▸ canary⟩, fun here => ?_⟩
    · exact (Slot.fields_of_body body).2.2.2.1 ▸ free
    · exact same (wf.covers_unique before here)

/-- A write that leaves the slot unmarked lets its pages be overwritten. -/
theorem Truthful.wroteTo (h : Truthful m c) (effect : WroteTo m m' id s) (wf : WF m addr unused)
    (listed : id ∈ addr) (base : s.base = (m.slots id).base) (len : s.len = (m.slots id).len)
    (unmarked : s.state.isFree = true → s.canary = false)
    (others : ∀ p, ¬ m.Covers (p * pageSize) id → c' p = c p) : Truthful m' c' := by
  intro p marked
  rcases effect.marked wf listed base len marked with ⟨before, other⟩ | ⟨-, free, canary⟩
  · exact (others p other).trans (h p before)
  · rw [unmarked free] at canary
    cases canary

/-- Absorbing a neighbour lets the pages of both be overwritten. -/
theorem Truthful.absorbed (h : Truthful m c)
    (effect : MergedTo m m' id next (grownSlot (m.slots next) (m.slots id)))
    (wf : WF m addr unused) (live : (m.slots id).state = .active)
    (others : ∀ p, ¬ m.Covers (p * pageSize) id → ¬ m.Covers (p * pageSize) next → c' p = c p) :
    Truthful m' c' := by
  rintro p ⟨j, covered, free, canary⟩
  have notId : j ≠ id := by
    rintro rfl
    rw [(Slot.fields_of_body effect.keptBody).2.2.2.1] at free
    simp [grownSlot, live, ExtentState.isFree] at free
  have notNext : j ≠ next := by
    rintro rfl
    have retired : (m'.slots j).occupied = false := congrArg Slot.occupied effect.retired
    simp [covered.2.1] at retired
  have body := effect.other j notId notNext
  have before := covered.of_body effect.region body
  have marked : m.Marked (p * pageSize) :=
    ⟨j, before, (Slot.fields_of_body body).2.2.2.1 ▸ free, Slot.canary_of_body body ▸ canary⟩
  rw [others p (fun here => notId (wf.covers_unique before here))
    fun here => notNext (wf.covers_unique before here)]
  exact h p marked

/-- Cutting a live extent marks nothing. -/
theorem Truthful.cut (h : Truthful m c) (effect : SplitAt m m' id prefixLen right)
    (live : (m.slots id).state = .active) : Truthful m' c := by
  rintro p ⟨j, covered, free, canary⟩
  have notLeft : j ≠ id := by
    rintro rfl
    rw [effect.left_fields.2.2.1, live] at free
    cases free
  have notRight : j ≠ right := by
    rintro rfl
    rw [effect.right_fields.2.2.1, live] at free
    cases free
  have body := effect.other j notLeft notRight
  exact h p ⟨j, covered.of_body effect.region body, (Slot.fields_of_body body).2.2.2.1 ▸ free,
    Slot.canary_of_body body ▸ canary⟩

/-! ## A new map -/

private theorem put_blank (id : Nat) (s : Slot) (blank : ∀ j, (m.slots j).canary = false)
    (clean : s.canary = false) (j : Nat) : ((m.put id s).slots j).canary = false := by
  by_cases same : j = id
  · simp [ExtentMap.put, same, clean]
  · simp [ExtentMap.put, Function.update_of_ne same, blank j]

private theorem stack_blank (l : List Nat) (blank : ∀ j, (m.slots j).canary = false) (j : Nat) :
    ((l.foldl stackSlot m).slots j).canary = false := by
  induction l generalizing m with
  | nil => exact blank j
  | cons i l ih =>
    refine ih fun j => ?_
    have written := put_blank i { m.get i with freeNext := m.freeSlotHead } blank (blank i) j
    exact written

private theorem popSlot_blank (blank : ∀ j, (m.slots j).canary = false)
    (ran : m.popSlot = some (i, m')) (j : Nat) : (m'.slots j).canary = false := by
  simp only [popSlot] at ran
  split at ran
  · cases ran
  cases ran
  have written := put_blank m.freeSlotHead { m.get m.freeSlotHead with
    freeNext := NIL, generation := wrappingSucc32 (m.get m.freeSlotHead).generation } blank (blank _) j
  exact written

private theorem binInsert_canary (m : ExtentMap) (i j : Nat) :
    ((m.binInsert i).slots j).canary = (m.slots j).canary :=
  Slot.canary_of_body (body_of_core binInsert_core j)

private theorem seed_blank (blank : ∀ j, (m.slots j).canary = false) (j : Nat) :
    ((m.seed id).slots j).canary = false := by
  simp only [seed, binInsert_canary]
  exact put_blank _ _ blank rfl j

/-- No slot of a new map has its canary bit set. -/
theorem new_blank {regionBase regionLen : Nat}
    (made : new metaOk slotBytes regionBase regionLen slotCap = some m) (j : Nat) :
    (m.slots j).canary = false := by
  simp only [new, Option.bind_eq_bind] at made
  split at made
  · cases made
  obtain ⟨bytes, -, made⟩ := Option.bind_eq_some_iff.mp made
  split at made
  · cases made
  obtain ⟨⟨i, popped⟩, pop, seeded⟩ := Option.bind_eq_some_iff.mp made
  obtain rfl := Option.some.inj seeded
  exact seed_blank (popSlot_blank (stack_blank _ fun _ => rfl) pop) j

theorem setArena_canary (m : ExtentMap) (arena j : Nat) :
    ((m.setArena arena).slots j).canary = (m.slots j).canary := by
  simp only [ExtentMap.setArena]
  split
  · by_cases same : j = m.addrHead
    · simp [ExtentMap.put, same]
    · simp [ExtentMap.put, Function.update_of_ne same]
  · rfl

/-- The pages of a listed extent, as the provider is asked for them. -/
theorem Covers.of_inside (wf : WF m addr unused) (listed : id ∈ addr)
    (inside : (m.slots id).base ≤ p * pageSize ∧ p * pageSize < (m.slots id).base + (m.slots id).len) :
    m.Covers (p * pageSize) id := wf.covers_iff.mpr ⟨listed, inside⟩

end ExtentMap

/-! ## One operation -/

namespace ExtentManager
open ExtentMap

variable {σ : Type} {P : Provider σ} {H : RegionCacheHook σ} {g g' : ExtentManager} {w w' : σ}
  {c c' : Contents} {r : ExtentRef} {addr unused : List Nat} {id : Nat}

/-- The region starts where the reservation does. -/
def Anchored (g : ExtentManager) : Prop := g.region.base = g.map.regionBase

/-- Offsets into the reservation name the addresses they were computed from. -/
theorem Anchored.offset (h : g.Anchored) (wf : WF g.map addr unused) (listed : id ∈ addr) :
    g.region.base + g.subOffset (g.map.slots id).base = (g.map.slots id).base := by
  have within := wf.shape.within listed
  simp only [Anchored] at h
  simp only [subOffset]
  omega

/-- What `alloc_z` says of the extent it hands out is so, and handing it out
leaves the marks truthful. -/
theorem allocZ_contents (wf : WF g.map addr unused) (anchored : g.Anchored) (truthful : Truthful g.map c)
    (ran : g.allocZ P.watched (w, c) size align fit = (.ok (r, prov), g', w', c')) :
    Truthful g'.map (c'.paint (g'.map.slots r.id).base (g'.map.slots r.id).len .unknown) ∧
      (∀ p, (g'.map.slots r.id).base ≤ p * pageSize →
        p * pageSize < (g'.map.slots r.id).base + (g'.map.slots r.id).len →
        (prov.canary = true → c' p = .canary) ∧ (prov.zeroed = true → c' p = .freshZero)) ∧
      ¬ (prov.zeroed = true ∧ prov.canary = true) := by
  obtain ⟨_, failed, -⟩ | ⟨_, _, needed, base, m₁, addr₁, unused₁, same, -, wf₁, listed, readied, -, -,
    did⟩ := allocZ_cases wf ran
  · cases failed
  cases same
  obtain ⟨active, handed, -, -⟩ := wf₁.activate listed readied.free
  have moved := truthful.reshaped readied.reshaped
  obtain ⟨base', len', -, state', -⟩ := Slot.fields_of_body handed.written
  have start : g.region.base + g.subOffset base = base := by
    have anchored₁ : ({ g with map := m₁ } : ExtentManager).Anchored :=
      anchored.trans readied.reshaped.region.base.symm
    have offset := anchored₁.offset wf₁ listed
    rwa [readied.base] at offset
  obtain ⟨-, committing, rfl, rfl⟩ | ⟨full, same, rfl, rfl⟩ := did
  · -- freshly committed: zero if the provider promises it, and never marked
    obtain rfl := Contents.upon_ok committing
    have written : WroteTo (m₁.activate r.id) ((m₁.activate r.id).markCommitted r.id).2 r.id _ :=
      wroteTo_put ..
    obtain ⟨base'', len'', -⟩ := Slot.fields_of_body written.written
    have newBase : (((m₁.activate r.id).markCommitted r.id).2.slots r.id).base = base :=
      (base''.trans base').trans readied.base
    have newLen : (((m₁.activate r.id).markCommitted r.id).2.slots r.id).len = needed :=
      (len''.trans len').trans readied.len
    simp only [newBase, newLen, start]
    refine ⟨?_, fun p above below => ⟨nofun, fun zeroed => ?_⟩, fun both => by cases both.2⟩
    · refine moved.wroteTo (handed.trans written) wf₁ listed base' len' (fun free => ?_) fun p other => ?_
      · have stays : ((m₁.activate r.id).get r.id).state.recommitted.isFree = true := free
        rw [recommitted_isFree, ExtentMap.get, state'] at stays
        cases stays
      · have outside : ¬ (base ≤ p * pageSize ∧ p * pageSize < base + needed) := by
          rw [← readied.base, ← readied.len]
          exact fun inside => other (.of_inside wf₁ listed inside)
        rw [Contents.paint_outside outside, Contents.paint_outside outside]
    · have promised : P.committedMemoryIsZeroed = true := zeroed
      rw [Contents.paint_inside above below, if_pos promised]
  · -- handed out as it was: the mark of a free extent is the mark of its pages
    obtain ⟨rfl, rfl⟩ := Prod.mk.inj same
    have newBase : ((m₁.activate r.id).slots r.id).base = (m₁.slots r.id).base := base'
    have newLen : ((m₁.activate r.id).slots r.id).len = (m₁.slots r.id).len := len'
    simp only [newBase, newLen]
    refine ⟨?_, fun p above below => ⟨fun canary => ?_, nofun⟩, fun both => by cases both.1⟩
    · refine moved.wroteTo handed wf₁ listed rfl rfl nofun fun p other => ?_
      exact Contents.paint_outside fun inside => other (.of_inside wf₁ listed inside)
    · exact moved p ⟨r.id, .of_inside wf₁ listed ⟨above, below⟩, readied.free, canary⟩

theorem growInPlace_contents (settled : g.map.Settled) (anchored : g.Anchored) (truthful : Truthful g.map c)
    (ran : g.growInPlace P.watched (w, c) r newLen = (.ok (), g', w', c')) :
    Truthful g'.map (c'.paint (g'.map.slots r.id).base (g'.map.slots r.id).len .unknown) := by
  obtain ⟨addr, unused, wf⟩ := settled.wf
  obtain ⟨_, failed, -⟩ | ⟨-, needed, -, live, -, ⟨-, rfl, same⟩ |
    ⟨-, next, m₁, l₁, l₂, unused₁, wf₁, moved, free, len, ran⟩⟩ := growInPlace_cases wf ran
  · cases failed
  · -- nothing grew; the extent is live, so none of its pages is marked
    obtain ⟨rfl, rfl⟩ := Prod.mk.inj same
    rintro p ⟨j, covered, free, canary⟩
    rw [Contents.paint_outside, truthful p ⟨j, covered, free, canary⟩]
    intro inside
    obtain ⟨listed, active⟩ := wf.live_iff.mp live
    obtain rfl := wf.covers_unique covered (.of_inside wf listed inside)
    rw [active] at free
    cases free
  have settled₁ := settled.sameLive wf₁ moved.toSameLive
  have live₁ := moved.toSameLive.live_iff.mpr live
  have truthful₁ := truthful.reshaped moved
  have listedId : r.id ∈ l₁ ++ r.id :: next :: l₂ := by simp
  have listed : next ∈ l₁ ++ r.id :: next :: l₂ := by simp
  have meets : (m₁.slots r.id).base + (m₁.slots r.id).len = (m₁.slots next).base := by
    have tiles := wf₁.shape.tiles
    obtain ⟨mid, -, start, nextStart, -⟩ := Tiling.tiles_append.mp tiles
    dsimp only at start nextStart
    omega
  -- the pages of the grown extent are those of the two it was made from
  have outside {p : Nat} (notId : ¬ m₁.Covers (p * pageSize) r.id)
      (notNext : ¬ m₁.Covers (p * pageSize) next) :
      ¬ ((m₁.slots r.id).base ≤ p * pageSize ∧
        p * pageSize < (m₁.slots r.id).base + ((m₁.slots r.id).len + (m₁.slots next).len)) := by
    intro inside
    by_cases front : p * pageSize < (m₁.slots r.id).base + (m₁.slots r.id).len
    · exact notId (.of_inside wf₁ listedId ⟨inside.1, front⟩)
    · exact notNext (.of_inside wf₁ listed (by omega))
  obtain ⟨_, failed, -⟩ | ⟨-, ⟨none, committing, rfl⟩ | ⟨full, same, rfl⟩⟩ :=
    growInto_cases (g := { g with map := m₁ }) wf₁ listed ran
  · cases failed
  · obtain rfl := Contents.upon_ok committing
    have anchored₁ : ({ g with map := m₁ } : ExtentManager).Anchored := anchored.trans moved.region.base.symm
    have start := anchored₁.offset wf₁ listed
    have written : WroteTo m₁ (m₁.markCommitted next).2 next _ := wroteTo_put ..
    obtain ⟨nextBase, nextLen, -, nextState, -⟩ := Slot.fields_of_body written.written
    have same := markCommitted_sameLive free
    have wf₂ := wf₁.markCommitted listed
    have live₂ := same.live_iff.mpr live₁
    have body := same.kept r.id live₁
    obtain ⟨idBase, idLen, -⟩ := Slot.fields_of_body body
    have free₂ : ((m₁.markCommitted next).2.slots next).state.isFree = true := by
      rw [nextState]
      exact (recommitted_isFree _).trans free
    obtain ⟨-, merged⟩ := wf₂.absorbNextIn live₂.2.2
      (backed_of_body (settled₁.backed r.id live₁) body) free₂ markCommitted_backed
    obtain ⟨newBase, newLen', -⟩ := Slot.fields_of_body merged.keptBody
    have pos := (wf₁.shape.sound next listed).pos
    have truthful₂ : Truthful (m₁.markCommitted next).2 (c.paint ((m₁.slots next).base) ((m₁.slots next).len)
          (if P.committedMemoryIsZeroed then .freshZero else .unknown)) := by
      refine truthful₁.wroteTo written wf₁ listed rfl rfl (fun _ => ?_) fun p other => ?_
      · exact if_pos (by rw [none]; exact pos)
      · exact Contents.paint_outside fun inside => other (.of_inside wf₁ listed inside)
    have base : (((m₁.markCommitted next).2.absorbNextIn r.id next).slots r.id).base =
        (m₁.slots r.id).base := newBase.trans idBase
    have total : (((m₁.markCommitted next).2.absorbNextIn r.id next).slots r.id).len =
        (m₁.slots r.id).len + (m₁.slots next).len := newLen'.trans (congrArg₂ (· + ·) idLen nextLen)
    simp only [base, total, start]
    refine truthful₂.absorbed merged wf₂ live₂.2.2 fun p notId notNext => ?_
    refine Contents.paint_outside (outside (fun here => notId ?_) fun here => notNext ?_)
    · exact .of_inside wf₂ listedId (by rw [idBase, idLen]; exact here.2.2)
    · exact .of_inside wf₂ listed (by rw [nextBase, nextLen]; exact here.2.2)
  · obtain ⟨rfl, rfl⟩ := Prod.mk.inj same
    obtain ⟨-, merged⟩ := wf₁.absorbNextIn live₁.2.2 (settled₁.backed r.id live₁) free full
    obtain ⟨newBase, newLen', -⟩ := Slot.fields_of_body merged.keptBody
    have base : ((m₁.absorbNextIn r.id next).slots r.id).base = (m₁.slots r.id).base := newBase
    have total : ((m₁.absorbNextIn r.id next).slots r.id).len =
        (m₁.slots r.id).len + (m₁.slots next).len := newLen'
    simp only [base, total]
    exact truthful₁.absorbed merged wf₁ live₁.2.2 fun p notId notNext =>
      Contents.paint_outside (outside notId notNext)

/-- A free with the canary marks pages that were just filled; every other free
marks none. -/
theorem freeCanary_contents (settled : g.map.Settled) (anchored : g.Anchored)
    (truthful : Truthful g.map c) (filled : Contents) (filling : filled = if canary then
      c.paint (g.map.slots r.id).base (g.map.slots r.id).len .canary else c)
    (ran : g.freeCanary P.watched (w, filled) r canary forcePurge = (.ok (), g', w', c')) :
    Truthful g'.map c' := by
  obtain ⟨addr, unused, wf⟩ := settled.wf
  have outside {p : Nat} (listed : r.id ∈ addr) (other : ¬ g.map.Covers (p * pageSize) r.id) :
      ¬ ((g.map.slots r.id).base ≤ p * pageSize ∧
        p * pageSize < (g.map.slots r.id).base + (g.map.slots r.id).len) :=
    fun inside => other (.of_inside wf listed inside)
  have unfilled {p : Nat} (listed : r.id ∈ addr) (other : ¬ g.map.Covers (p * pageSize) r.id) :
      filled p = c p := by
    rw [filling]
    split
    · exact Contents.paint_outside (outside listed other)
    · rfl
  obtain ⟨_, failed, -⟩ | ⟨-, live, -, ⟨rfl, spared⟩ | ⟨dropped, rfl⟩⟩ := freeCanary_cases wf ran
  · cases failed
  · have listed := (wf.live_iff.mp live).1
    have agrees : ExtentState.dirty.isBacked = true ↔
        (g.map.slots r.id).committedLen = (g.map.slots r.id).len := by
      simp [ExtentState.isBacked, settled.backed r.id live]
    have contents : c' = filled := by
      rcases spared with same | ⟨err, refused⟩
      · exact (Prod.mk.inj same).2
      · exact Contents.upon_error refused
    obtain ⟨-, -, effect, -, -⟩ := wf.refiled .dirty canary live rfl rfl agrees
    obtain ⟨survivor, retained, freed, -, -, -, -, moved⟩ := wf.freeInCanary .dirty canary live rfl rfl agrees
    rw [freed]
    refine Truthful.reshaped (fun p marked => ?_) moved
    rw [contents]
    rcases effect.marked wf listed rfl rfl marked with ⟨before, other⟩ | ⟨here, -, bit⟩
    · exact (unfilled listed other).trans (truthful p before)
    · obtain ⟨rfl, -⟩ := Bool.and_eq_true_iff.mp bit
      rw [filling, if_pos rfl]
      exact Contents.paint_inside here.2.2.1 here.2.2.2
  · have listed := (wf.live_iff.mp live).1
    obtain rfl := Contents.upon_ok dropped
    have written : WroteTo g.map (g.map.markDecommitted r.id .active).2 r.id _ := wroteTo_put ..
    have wf₁ := wf.markDecommitted .active listed (by rw [live.2.2]) (by simp [ExtentState.isFree])
    obtain ⟨-, -, committed, state, occupied, -⟩ := Slot.fields_of_body written.written
    have live₁ : (g.map.markDecommitted r.id .active).2.Live r.id := wf₁.live_iff.mpr ⟨listed, state⟩
    have pos := (wf₁.shape.sound r.id listed).pos
    have agrees : ExtentState.released.isBacked = true ↔
        ((g.map.markDecommitted r.id .active).2.slots r.id).committedLen =
          ((g.map.markDecommitted r.id .active).2.slots r.id).len := by
      rw [committed]
      simp [ExtentState.isBacked, Nat.ne_of_lt pos]
    obtain ⟨-, -, effect, -, -⟩ := wf₁.refiled .released false live₁ rfl rfl agrees
    obtain ⟨survivor, freedMap, freed, -, -, -, -, moved⟩ :=
      wf₁.freeInCanary .released false live₁ rfl rfl agrees
    rw [freeIn, freed]
    obtain ⟨base', len', -⟩ := Slot.fields_of_body written.written
    refine Truthful.reshaped (truthful.wroteTo (written.trans effect) wf listed base' len'
      (fun _ => rfl) fun p other => ?_) moved
    have start := anchored.offset wf listed
    have part := (wf.shape.sound r.id listed).backing
    refine (Contents.paint_outside fun inside => ?_).trans (unfilled listed other)
    refine outside listed other ⟨?_, ?_⟩ <;> omega

/-- A change of state away from dirty unmarks the extent. -/
theorem setState_contents (wf : WF g.map addr unused) (listed : id ∈ addr) (truthful : Truthful g.map c)
    (clean : state ≠ .dirty) (others : ∀ p, ¬ g.map.Covers (p * pageSize) id → c' p = c p) :
    Truthful (g.map.setState id state).2 c' := by
  simp only [ExtentMap.setState, wf.view_eq listed]
  have written := wroteTo_put (m := g.map) id
    { g.map.get id with
      canary := if state ≠ .dirty then false else (g.map.get id).canary, state := state }
    g.map.freeBytes g.map.committedBytes
  exact truthful.wroteTo written wf listed rfl rfl (fun _ => if_pos clean) others

/-- The operations on the backing unmark the extent whose pages they discard. -/
theorem Reback.contents {answer : Except ExtentError Unit} (wf : WF g.map addr unused)
    (anchored : g.Anchored) (truthful : Truthful g.map c)
    (did : Reback P.watched addr g (w, c) id answer g' (w', c')) : Truthful g'.map c' := by
  obtain ⟨rfl, spared⟩ | ⟨-, listed, did⟩ := did
  · obtain rfl : c' = c := spared.contents
    exact truthful
  have start := anchored.offset wf listed
  -- what the provider overwrote is inside the extent
  have outside {len : Nat} {content : Content} (part : len ≤ (g.map.slots id).len) {p : Nat}
      (other : ¬ g.map.Covers (p * pageSize) id) :
      c.paint (g.region.base + g.subOffset (g.map.slots id).base) len content p = c p := by
    refine Contents.paint_outside fun inside => other (.of_inside wf listed ⟨?_, ?_⟩) <;> omega
  cases did with
  | committed none committing =>
    obtain rfl := Contents.upon_ok committing
    have pos := (wf.shape.sound id listed).pos
    have written : WroteTo g.map (g.map.markCommitted id).2 id _ := wroteTo_put ..
    exact truthful.wroteTo written wf listed rfl rfl (fun _ => if_pos (by rw [none]; exact pos))
      fun p => outside le_rfl
  | @decommitted s₁ _ _ spared dropped =>
    obtain ⟨w₁, c₁⟩ := s₁
    obtain rfl : c₁ = c := spared.contents
    obtain rfl := Contents.upon_ok dropped
    have part := (wf.shape.sound id listed).backing
    have written : WroteTo g.map (g.map.markDecommitted id .released).2 id _ := wroteTo_put ..
    exact truthful.wroteTo written wf listed rfl rfl (fun _ => rfl) fun p => outside (by omega)
  | released _ spared _ =>
    obtain rfl : c' = c := spared.contents
    exact setState_contents wf listed truthful (by decide) fun _ _ => rfl
  | purged _ _ purge either purged =>
    have painted : c' = c.paint (g.region.base + g.subOffset (g.map.slots id).base)
        (g.map.slots id).len .unknown := by
      rcases either with rfl | rfl <;> exact Contents.upon_ok purged
    subst painted
    exact setState_contents wf listed truthful (by decide) fun p => outside le_rfl

/-- A failure that moved boundaries only, and spared the memory. -/
theorem Unharmed.contents (h : g.Unharmed g') (truthful : Truthful g.map c)
    (spared : P.watched.Spared (w, c) (w', c')) : Truthful g'.map c' := by
  obtain ⟨-, -, -, moved⟩ := h
  obtain rfl : c' = c := spared.contents
  exact truthful.reshaped moved

/-- However `alloc_z` ends: what it hands out is the owner's. -/
theorem allocated_contents (wf : WF g.map addr unused) (anchored : g.Anchored) (truthful : Truthful g.map c)
    (ran : g.allocZ P.watched (w, c) size align fit = (answer, g', w', c')) :
    Truthful g'.map (g'.handOver c c' (.alloc size align fit) (answer.map fun made => some made.1)) := by
  cases answer with
  | error err =>
    obtain ⟨-, -, unharmed, spared⟩ | ⟨_, _, _, _, _, _, _, ⟨⟩, -⟩ := allocZ_cases wf ran
    exact unharmed.contents truthful spared
  | ok made => exact (allocZ_contents wf anchored truthful ran).1

/-- The region cache touches no page of this region. -/
theorem allocLarge_contents (wf : WF g.map addr unused) (anchored : g.Anchored) (truthful : Truthful g.map c)
    (ran : g.allocLarge P.watched H.watched (w, c) bytes align hints = (answer, g', w', c')) :
    Truthful g'.map (g'.handOver c c' (.allocLarge bytes align hints) (answer.map (·.2.1))) := by
  obtain ⟨err, rfl, rfl, same⟩ | ⟨-, -, rounded, -, ⟨region, served, rfl, rfl⟩ |
    ⟨⟨w₁, c₁⟩, inner, declined, allocated, rfl⟩⟩ := allocLarge_cases ran
  · obtain ⟨rfl, rfl⟩ := Prod.mk.inj same
    exact truthful
  · -- served by the cache, without an extent
    obtain rfl := (Prod.mk.inj (Prod.mk.inj served).2).2
    exact truthful
  · obtain rfl := (Prod.mk.inj (Prod.mk.inj declined).2).2
    cases inner <;> exact allocated_contents wf anchored truthful allocated

/-- A free with the canary is preceded by a fill of exactly the extent. -/
theorem fillBefore_resolved (free : (∃ forcePurge, op = .freeCanary r canary forcePurge) ∨
      ∃ arena forcePurge, op = .freeRevoking r arena canary forcePurge) (wf : WF g.map addr unused)
    (listed : r.id ∈ addr) (current : (g.map.slots r.id).generation = r.generation) :
    g.fillBefore c op =
      if canary then c.paint (g.map.slots r.id).base (g.map.slots r.id).len .canary else c := by
  have found := wf.resolve_eq listed current
  rcases free with ⟨forcePurge, rfl⟩ | ⟨arena, forcePurge, rfl⟩
  · cases canary with
    | false => rfl
    | true =>
      simp only [fillBefore, found]
      rfl
  · cases canary with
    | false => rfl
    | true =>
      simp only [fillBefore, found]
      rfl

/-- Every operation leaves the marks truthful. -/
theorem step_contents (settled : g.map.Settled) (anchored : g.Anchored) (truthful : Truthful g.map c)
    (ran : g.step P.watched H.watched (w, g.fillBefore c op) op = (answer, g', w', c')) :
    Truthful g'.map (g'.handOver c c' op answer) := by
  obtain ⟨addr, unused, wf⟩ := settled.wf
  have backing {r : ExtentRef} {call : Except ExtentError Unit × ExtentManager × σ × Contents}
      (cases : ∀ {inner}, call = (inner, g', w', c') → Reback P.watched addr g (w, c) r.id inner g' (w', c'))
      (ran : step.silent call = (answer, g', w', c')) : Truthful g'.map c' := by
    obtain ⟨inner, called, -⟩ := silenced call ran
    exact (cases called).contents wf anchored truthful
  cases op with
  | alloc size align fit =>
    simp only [step, fillBefore] at ran
    obtain ⟨_, asked, rfl⟩ := mapped some _ ran
    obtain ⟨inner, called, rfl⟩ := mapped Prod.fst (g.allocZ P.watched (w, c) size align fit) asked
    cases inner <;> exact allocated_contents wf anchored truthful called
  | allocLarge bytes align hints =>
    simp only [step, fillBefore] at ran
    obtain ⟨inner, called, rfl⟩ := mapped _ _ ran
    exact allocLarge_contents wf anchored truthful called
  | splitTail r prefixLen =>
    cases called : g.splitTail r prefixLen with
    | mk inner g₁ =>
      simp only [step, fillBefore, called] at ran
      cases ran
      obtain ⟨_, rfl, rfl⟩ | ⟨tail, rfl, -, live, -, -, split⟩ := splitTail_cases wf called
      · exact truthful
      · exact truthful.cut (wf.splitAt split) live.2.2
  | growInPlace r newLen =>
    obtain ⟨inner, called, rfl⟩ := silenced (g.growInPlace P.watched (w, c) r newLen) ran
    cases inner with
    | error err =>
      obtain ⟨-, -, unharmed, spared⟩ | ⟨⟨⟩, -⟩ := growInPlace_cases wf called
      exact unharmed.contents truthful spared
    | ok _ => exact growInPlace_contents settled anchored truthful called
  | freeCanary r canary forcePurge =>
    simp only [step] at ran
    obtain ⟨inner, called, rfl⟩ := silenced _ ran
    obtain ⟨_, rfl, rfl⟩ | ⟨rfl, live, current, -⟩ := freeCanary_cases wf called
    · exact truthful
    · exact freeCanary_contents settled anchored truthful _
        (fillBefore_resolved (.inl ⟨_, rfl⟩) wf (wf.live_iff.mp live).1 current) called
  | freeRevoking r arena canary forcePurge =>
    simp only [step] at ran
    obtain ⟨inner, called, rfl⟩ := silenced _ ran
    obtain ⟨_, rfl, rfl⟩ | ⟨region, ⟨w₂, c₂⟩, revoked, freeing⟩ := freeRevokingCanary_cases called
    · exact truthful
    obtain rfl := Contents.upon_same revoked
    obtain ⟨_, rfl, rfl⟩ | ⟨rfl, live, current, -⟩ := freeCanary_cases wf freeing
    · exact truthful
    · exact freeCanary_contents settled anchored truthful _
        (fillBefore_resolved (.inr ⟨_, _, rfl⟩) wf (wf.live_iff.mp live).1 current) freeing
  | commit r => exact backing (commit_cases wf) ran
  | decommit r => exact backing (decommit_cases wf) ran
  | purgeLazy r => exact backing (purgeLazy_cases wf) ran
  | purgeForced r => exact backing (purgeForced_cases wf) ran
  | release r => exact backing (release_cases wf) ran

/-! ## Runs -/

namespace Watched

/-- A settled manager whose marks are truthful. -/
structure Sound (s : Watched σ) : Prop where
  settled : s.mgr.map.Settled
  tracked : ∃ L : Ledger, L.Tracks s.mgr.map
  anchored : s.mgr.Anchored
  truthful : Truthful s.mgr.map s.contents

theorem Sound.step {s : Watched σ} (h : s.Sound) (op : WatchedOp) : (s.step P H op).Sound := by
  cases op with
  | setRetainPolicy policy => exact ⟨h.settled, h.tracked, h.anchored, h.truthful⟩
  | op op =>
    obtain ⟨L, tracks⟩ := h.tracked
    have region := s.mgr.step_region P.watched H.watched (s.world, s.mgr.fillBefore s.contents op) op
    cases ran : s.mgr.step P.watched H.watched (s.world, s.mgr.fillBefore s.contents op) op with
    | mk answer rest =>
      obtain ⟨g', w', c'⟩ := rest
      rw [ran] at region
      have stepped : s.step P H (.op op) = ⟨g', w', g'.handOver s.contents c' op answer⟩ := by
        simp only [Watched.step, ran]
      have kept := step_keeps h.settled tracks ran
      rw [stepped]
      refine ⟨kept.settled, ⟨_, kept.tracks⟩, ?_, step_contents h.settled h.anchored h.truthful ran⟩
      exact (congrArg Region.base region).trans (h.anchored.trans kept.region.base.symm)

theorem Sound.run {s : Watched σ} (h : s.Sound) (ops : List WatchedOp) : (s.run P H ops).Sound := by
  induction ops generalizing s with
  | nil => exact h
  | cons op ops ih => exact ih (h.step op)

end Watched

/-- A new manager marks no page, whatever the memory holds. -/
theorem new_sound {arena : Nat} {region : Region}
    (made : new metaOk slotBytes region arena slotCap policy = some g)
    (w : σ) (c : Contents) : (⟨g, w, c⟩ : Watched σ).Sound := by
  obtain ⟨settled, tracks⟩ := new_settled made
  obtain ⟨reserved, base, -⟩ := new_region made
  refine ⟨settled, ⟨_, tracks⟩, (congrArg Region.base reserved).trans base.symm, ?_⟩
  rintro p ⟨j, -, -, marked⟩
  simp only [new, Option.map_eq_some_iff] at made
  obtain ⟨map, built, rfl⟩ := made
  rw [setArena_canary, new_blank built j] at marked
  cases marked

/-- Whatever happened to the manager before: if `alloc_z` answers that the
extent holds the canary, every page of it does, and if it answers that the extent
is zero, every page of it was just committed as zero. It never answers both. -/
theorem provenance_of_run {metaOk : Bool} {slotBytes arena slotCap : Nat} {region : Region}
    {policy : RetainPolicy} (made : new metaOk slotBytes region arena slotCap policy = some g) (w₀ : σ)
    (c₀ : Contents) (ops : List WatchedOp) {s : Watched σ} (reached : s = Watched.run P H ⟨g, w₀, c₀⟩ ops)
    {size align : Nat} {fit : Fit} {prov : RegionProvenance}
    (ran : s.mgr.allocZ P.watched (s.world, s.contents) size align fit = (.ok (r, prov), g', w', c')) :
    (∀ p, (g'.map.slots r.id).base ≤ p * pageSize →
        p * pageSize < (g'.map.slots r.id).base + (g'.map.slots r.id).len →
        (prov.canary = true → c' p = .canary) ∧ (prov.zeroed = true → c' p = .freshZero)) ∧
      ¬ (prov.zeroed = true ∧ prov.canary = true) := by
  have sound : s.Sound := reached ▸ (new_sound made w₀ c₀).run ops
  obtain ⟨addr, unused, wf⟩ := sound.settled.wf
  exact (allocZ_contents wf sound.anchored sound.truthful ran).2

/-- Two pages freed with the canary and handed out again. -/
theorem provenance_of_run_fourPages :
    ∃ g, fourPages = some g ∧ ∃ s : Watched Unit,
      s = Watched.run Provider.willing (noRegionCache Unit) ⟨g, (), fun _ => .unknown⟩
        [.op (.alloc (2 * pageSize) pageSize .best), .op (.freeCanary ⟨0, 1⟩ true false)] ∧
      ∃ r prov g' w' c', s.mgr.allocZ Provider.willing.watched (s.world, s.contents) pageSize pageSize .best =
          (.ok (r, prov), g', w', c') ∧ prov.canary = true ∧
        ∀ p, (g'.map.slots r.id).base ≤ p * pageSize →
          p * pageSize < (g'.map.slots r.id).base + (g'.map.slots r.id).len → c' p = .canary := by
  obtain ⟨g, made⟩ := exists_fourPages
  refine ⟨g, made, _, rfl, ?_⟩
  set s := Watched.run Provider.willing (noRegionCache Unit) ⟨g, (), fun _ => .unknown⟩
    [.op (.alloc (2 * pageSize) pageSize .best), .op (.freeCanary ⟨0, 1⟩ true false)] with reached
  have answered : (fourPages.map fun g =>
      let s := Watched.run Provider.willing (noRegionCache Unit) ⟨g, (), fun _ => .unknown⟩
        [.op (.alloc (2 * pageSize) pageSize .best), .op (.freeCanary ⟨0, 1⟩ true false)]
      (s.mgr.allocZ Provider.willing.watched (s.world, s.contents) pageSize pageSize .best).1.toOption.map
        fun made => made.2.canary) = some (some true) := by decide +kernel
  rw [made, Option.map_some, Option.some.injEq] at answered
  simp only [← reached] at answered
  cases ran : s.mgr.allocZ Provider.willing.watched (s.world, s.contents) pageSize pageSize .best with
  | mk answer rest =>
    obtain ⟨g', w', c'⟩ := rest
    rw [ran] at answered
    cases answer with
    | error err => cases answered
    | ok allocated =>
      obtain ⟨r, prov⟩ := allocated
      have canary : prov.canary = true := Option.some.inj answered
      refine ⟨r, prov, g', w', c', rfl, canary, fun p above below => ?_⟩
      exact ((provenance_of_run made () _ _ reached ran).1 p above below).1 canary

end ExtentManager
end Topomalloc
