import Topomalloc.Extent.Outcomes

/-! What each manager operation does to the live extents, whatever the provider
answers. A map between two operations is `Settled`: well formed, with every live
extent backed in full. -/
namespace Topomalloc
open Function

namespace ExtentMap

variable {m m' m'' : ExtentMap} {addr unused l₁ l₂ : List Nat} {i j id next right len : Nat}

/-- Well formed, and every live extent is backed in full. -/
structure Settled (m : ExtentMap) : Prop where
  wf : ∃ addr unused, WF m addr unused
  backed : ∀ j, m.Live j → (m.slots j).committedLen = (m.slots j).len

/-- One live extent grew to `len` bytes in place. -/
structure Grown (m m' : ExtentMap) (id len : Nat) : Prop where
  region : SameRegion m m'
  live : m'.Live id
  base : (m'.slots id).base = (m.slots id).base
  generation : (m'.slots id).generation = (m.slots id).generation
  len : (m'.slots id).len = len
  kept : ∀ j, m.Live j → j ≠ id → (m'.slots j).body = (m.slots j).body
  back : ∀ j, m'.Live j → m.Live j

/-- One live extent was cut after `prefixLen` bytes; `tail` holds the rest. -/
structure Cut (m m' : ExtentMap) (id prefixLen tail : Nat) : Prop where
  region : SameRegion m m'
  lt : prefixLen < (m.slots id).len
  live : m'.Live id
  base : (m'.slots id).base = (m.slots id).base
  generation : (m'.slots id).generation = (m.slots id).generation
  len : (m'.slots id).len = prefixLen
  fresh : ¬ m.Live tail
  tailLive : m'.Live tail
  tailBase : (m'.slots tail).base = (m.slots id).base + prefixLen
  tailLen : (m'.slots tail).len = (m.slots id).len - prefixLen
  kept : ∀ j, m.Live j → j ≠ id → (m'.slots j).body = (m.slots j).body
  back : ∀ j, m'.Live j → m.Live j ∨ j = tail

/-! ## Backing -/

theorem backed_of_body (backed : (m.slots j).committedLen = (m.slots j).len)
    (same : (m'.slots j).body = (m.slots j).body) : (m'.slots j).committedLen = (m'.slots j).len := by
  obtain ⟨-, len, committed, -⟩ := Slot.fields_of_body same
  rw [len, committed, backed]

theorem Settled.sameLive (h : Settled m) (wf : WF m' addr unused) (same : SameLive m m') : Settled m' :=
  ⟨⟨addr, unused, wf⟩, fun j live =>
    backed_of_body (h.backed j (same.back j live)) (same.kept j (same.back j live))⟩

theorem Settled.freed (h : Settled m) (wf : WF m' addr unused) (freed : Freed m m' id) : Settled m' :=
  ⟨⟨addr, unused, wf⟩, fun j live => by
    obtain ⟨before, other⟩ := freed.back j live
    exact backed_of_body (h.backed j before) (freed.kept j before other)⟩

variable {align : Nat}

theorem Settled.carved (h : Settled m) (wf : WF m' addr unused) (carved : Carved m m' id len align)
    (backed : (m'.slots id).committedLen = (m'.slots id).len) : Settled m' := by
  refine ⟨⟨addr, unused, wf⟩, fun j live => ?_⟩
  rcases carved.back j live with before | rfl
  · exact backed_of_body (h.backed j before) (carved.kept j before)
  · exact backed

theorem WF.resolve_eq (wf : WF m addr unused) (listed : r.id ∈ addr)
    (current : (m.slots r.id).generation = r.generation) :
    m.resolve r = some (snapshot r.id (m.slots r.id)) := by
  simp [resolve, wf.view_eq listed, snapshot, current]

/-! ## Carve and commit -/

/-- A live extent that is marked committed is otherwise untouched. -/
theorem Carved.markCommitted (carved : Carved m m' id len align) :
    Carved m (m'.markCommitted id).2 id len align := by
  have effect : WroteTo m' (m'.markCommitted id).2 id _ := wroteTo_put ..
  obtain ⟨base, size, -, state, occupied, -⟩ := Slot.fields_of_body effect.written
  have live := carved.live
  have active : (m'.get id).state.recommitted = .active := by
    rw [live.2.2]
    rfl
  refine ⟨carved.region.trans effect.region, carved.fresh,
    ⟨effect.region.cap ▸ live.1, occupied.trans live.2.1, state.trans active⟩, ?_, ?_,
    size.trans carved.len, base ▸ carved.aligned⟩
  · intro j before
    have other : j ≠ id := fun same => carved.fresh (same ▸ before)
    exact (effect.other j other).trans (carved.kept j before)
  · intro j after
    by_cases same : j = id
    · exact .inr same
    · obtain ⟨-, -, -, state, occupied, -⟩ := Slot.fields_of_body (effect.other j same)
      exact carved.back j ⟨effect.region.cap ▸ after.1, occupied ▸ after.2.1, state ▸ after.2.2⟩

theorem markCommitted_backed :
    ((m.markCommitted i).2.slots i).committedLen = ((m.markCommitted i).2.slots i).len := by
  simp [markCommitted, put]

/-- Freeing the extent that was just carved leaves the live ones as they were. -/
theorem Carved.freed (carved : Carved m m' id len align) (freed : Freed m' m'' id) : SameLive m m'' := by
  refine ⟨carved.region.trans freed.region, fun j live => ?_, fun j live => ?_⟩
  · have other : j ≠ id := fun same => carved.fresh (same ▸ live)
    have after := live.of_body carved.region (carved.kept j live)
    exact (freed.kept j after other).trans (carved.kept j live)
  · obtain ⟨after, other⟩ := freed.back j live
    exact (carved.back j after).resolve_right other

/-! ## Split and absorb a live extent -/

variable {prefixLen : Nat}

theorem SplitAt.cut (h : SplitAt m m' id prefixLen right) (live : m.Live id)
    (vacant : (m.slots right).occupied = false) (inPool : right < m.cap) :
    Cut m m' id prefixLen right := by
  obtain ⟨base, len, -, state, occupied, generation⟩ := Slot.fields_of_body h.leftBody
  obtain ⟨tailBase, tailLen, -, tailState, tailOccupied, -⟩ := Slot.fields_of_body h.rightBody
  have fresh : ¬ m.Live right := fun live => by simp [live.2.1] at vacant
  refine ⟨h.region, h.lt, ⟨h.region.cap ▸ live.1, occupied.trans live.2.1, state.trans live.2.2⟩, base,
    generation, len, fresh, ⟨h.region.cap ▸ inPool, tailOccupied, tailState.trans live.2.2⟩, tailBase,
    tailLen, ?_, ?_⟩
  · intro j before other
    exact h.other j other fun same => fresh (same ▸ before)
  · intro j after
    by_cases isRight : j = right
    · exact .inr isRight
    by_cases isLeft : j = id
    · exact .inl (isLeft ▸ live)
    · obtain ⟨-, -, -, state, occupied, -⟩ := Slot.fields_of_body (h.other j isLeft isRight)
      exact .inl ⟨h.region.cap ▸ after.1, occupied ▸ after.2.1, state ▸ after.2.2⟩

theorem Settled.cut (h : Settled m) (wf : WF m' addr unused) (split : SplitAt m m' id prefixLen right)
    (cut : Cut m m' id prefixLen right) (live : m.Live id) : Settled m' := by
  have backed := h.backed id live
  refine ⟨⟨addr, unused, wf⟩, fun j after => ?_⟩
  by_cases isLeft : j = id
  · subst isLeft
    rw [split.left_fields.2.2.2, split.left_fields.2.1, if_pos backed]
  rcases cut.back j after with before | rfl
  · exact backed_of_body (h.backed j before) (cut.kept j before isLeft)
  · rw [split.right_fields.2.2.2, split.right_fields.2.1, if_pos backed]

/-- Absorbing a free neighbour grows a live extent. -/
theorem MergedTo.grown (h : MergedTo m m' id next (grownSlot (m.slots next) (m.slots id)))
    (live : m.Live id) (free : (m.slots next).state.isFree = true) :
    Grown m m' id ((m.slots id).len + (m.slots next).len) := by
  obtain ⟨base, len, -, state, occupied, generation⟩ := Slot.fields_of_body h.keptBody
  have dead : ¬ m.Live next := fun live => by simp [live.2.2, ExtentState.isFree] at free
  refine ⟨h.region, ⟨h.region.cap ▸ live.1, occupied.trans live.2.1, state.trans live.2.2⟩, base,
    generation, len, ?_, ?_⟩
  · intro j before other
    exact h.other j other fun same => dead (same ▸ before)
  · intro j after
    by_cases isLeft : j = id
    · exact isLeft ▸ live
    have notNext : j ≠ next := by
      rintro rfl
      have gone : (m'.slots j).occupied = false := congrArg Slot.occupied h.retired
      simp [after.2.1] at gone
    obtain ⟨-, -, -, state, occupied, -⟩ := Slot.fields_of_body (h.other j isLeft notNext)
    exact ⟨h.region.cap ▸ after.1, occupied ▸ after.2.1, state ▸ after.2.2⟩

theorem Settled.grown (h : Settled m) (wf : WF m' addr unused) (grown : Grown m m' id len)
    (backed : (m'.slots id).committedLen = (m'.slots id).len) : Settled m' := by
  refine ⟨⟨addr, unused, wf⟩, fun j after => ?_⟩
  by_cases same : j = id
  · exact same ▸ backed
  · have before := grown.back j after
    exact backed_of_body (h.backed j before) (grown.kept j before same)

/-- Growing over a map with the same live extents. -/
theorem SameLive.grown (h : SameLive m m') (grown : Grown m' m'' id len) (live : m.Live id) :
    Grown m m'' id len := by
  obtain ⟨base, -, -, -, -, generation⟩ := Slot.fields_of_body (h.kept id live)
  refine ⟨h.region.trans grown.region, grown.live, grown.base.trans base,
    grown.generation.trans generation, grown.len, ?_, fun j after => h.back j (grown.back j after)⟩
  intro j before other
  exact (grown.kept j (h.live_iff.mpr before) other).trans (h.kept j before)

end ExtentMap

namespace ExtentManager
open ExtentMap

variable {σ : Type} {P : Provider σ} {H : RegionCacheHook σ} {g g' : ExtentManager} {w w' : σ} {r : ExtentRef}

section
variable (settled : g.map.Settled) {answer : Except ExtentError Unit}
include settled

/-- `alloc_z` either fails and touches no live extent, or hands out one new
extent of the page-rounded size. -/
theorem allocZ_effect {answer : Except ExtentError (ExtentRef × RegionProvenance)}
    (ran : g.allocZ P w size align fit = (answer, g', w')) :
    g'.map.Settled ∧ ((∃ err, answer = .error err ∧ SameLive g.map g'.map) ∨
        ∃ r prov needed, answer = .ok (r, prov) ∧ alignUp size pageSize = some needed ∧
          Carved g.map g'.map r.id needed align ∧ (g'.map.slots r.id).generation = r.generation) := by
  obtain ⟨addr, unused, wf⟩ := settled.wf
  obtain ⟨err, rfl, ⟨addr', unused', wf', moved⟩, -⟩ | ⟨r, prov, needed, base, m₁, addr₁, unused₁, rfl,
    rounded, wf₁, listed, readied, carved, generation, did⟩ := allocZ_cases wf ran
  · exact ⟨settled.sameLive wf' moved.toSameLive, .inl ⟨err, rfl, moved.toSameLive⟩⟩
  obtain ⟨active, handed, -, -⟩ := wf₁.activate listed readied.free
  obtain ⟨-, -, rfl, -⟩ | ⟨full, -, rfl, -⟩ := did
  · exact ⟨settled.carved (active.markCommitted listed) carved.markCommitted markCommitted_backed,
      .inr ⟨r, prov, needed, rfl, rounded, carved.markCommitted, generation⟩⟩
  · obtain ⟨-, -, committed, -⟩ := Slot.fields_of_body handed.written
    have backed := (committed.trans full).trans carved.len.symm
    exact ⟨settled.carved active carved backed, .inr ⟨r, prov, needed, rfl, rounded, carved, generation⟩⟩

/-- `split_tail` either fails and changes nothing, or cuts the live extent. -/
theorem splitTail_effect {answer : Except ExtentError ExtentRef} (ran : g.splitTail r prefixLen = (answer, g')) :
    g'.map.Settled ∧ ((∃ err, answer = .error err ∧ g' = g) ∨ ∃ tail, answer = .ok tail ∧ g.map.Live r.id ∧
          (g.map.slots r.id).generation = r.generation ∧ Cut g.map g'.map r.id prefixLen tail.id ∧
          (g'.map.slots tail.id).generation = tail.generation) := by
  obtain ⟨addr, unused, wf⟩ := settled.wf
  obtain ⟨err, rfl, rfl⟩ | ⟨tail, rfl, listed, live, current, fresh, split⟩ := splitTail_cases wf ran
  · exact ⟨settled, .inl ⟨err, rfl, rfl⟩⟩
  obtain ⟨l₁, l₂, rfl⟩ := List.append_of_mem listed
  obtain ⟨rest, rfl, wf', effect⟩ := wf.splitIn split
  have cut := effect.cut live (wf.shape.vacant tail.id (by simp)) ((wf.shape.covers tail.id).mpr (by simp))
  exact ⟨settled.cut wf' effect cut live, .inr ⟨tail, rfl, live, current, cut, fresh⟩⟩

/-- Absorbing the free neighbour of a live extent, committed first if need be. -/
theorem growInto_effect {id : Nat} (wf : WF g.map (l₁ ++ id :: next :: l₂) unused) (live : g.map.Live id)
    (free : (g.map.slots next).state.isFree = true) (ran : g.growInto P w id next = (.ok (), g', w')) :
    g'.map.Settled ∧ Grown g.map g'.map id ((g.map.slots id).len + (g.map.slots next).len) := by
  have listed : next ∈ l₁ ++ id :: next :: l₂ := by simp
  have backed := settled.backed id live
  obtain ⟨_, failed, -⟩ | ⟨-, ⟨-, -, rfl⟩ | ⟨backedNext, -, rfl⟩⟩ := growInto_cases wf listed ran
  · cases failed
  · have same := markCommitted_sameLive free
    have wf' := wf.markCommitted listed
    have live' := same.live_iff.mpr live
    have settled' := settled.sameLive wf' same
    obtain ⟨-, len, -, -, -, -⟩ := Slot.fields_of_body (same.kept id live)
    have neighbour : WroteTo g.map (g.map.markCommitted next).2 next _ := wroteTo_put ..
    obtain ⟨-, nextLen, -, nextState, -, -⟩ := Slot.fields_of_body neighbour.written
    have free' : ((g.map.markCommitted next).2.slots next).state.isFree = true := by
      rw [nextState]
      exact (recommitted_isFree _).trans free
    obtain ⟨wf'', merged⟩ := wf'.absorbNextIn live'.2.2 (settled'.backed id live') free'
      markCommitted_backed
    have grown := same.grown (merged.grown live' free') live
    rw [len, nextLen] at grown
    have full := congrArg₂ (· + ·) (settled'.backed id live') (markCommitted_backed (m := g.map) (i := next))
    obtain ⟨-, size, committed, -⟩ := Slot.fields_of_body merged.keptBody
    exact ⟨settled.grown wf'' grown (committed.trans (full.trans size.symm)), grown⟩
  · obtain ⟨wf', merged⟩ := wf.absorbNextIn live.2.2 backed free backedNext
    have grown := merged.grown live free
    obtain ⟨-, size, committed, -⟩ := Slot.fields_of_body merged.keptBody
    have full := congrArg₂ (· + ·) backed backedNext
    exact ⟨settled.grown wf' grown (committed.trans (full.trans size.symm)), grown⟩

/-- `grow_in_place` either fails and touches no live extent, or leaves the
extent at least as long as requested: unchanged if it was long enough, and
exactly the rounded request otherwise. -/
theorem growInPlace_effect {newLen : Nat} (ran : g.growInPlace P w r newLen = (answer, g', w')) :
    g'.map.Settled ∧ ((∃ err, answer = .error err ∧ SameLive g.map g'.map) ∨
        ∃ needed, answer = .ok () ∧ alignUp newLen pageSize = some needed ∧ g.map.Live r.id ∧
          (g.map.slots r.id).generation = r.generation ∧
          (needed ≤ (g.map.slots r.id).len ∧ g' = g ∨
            (g.map.slots r.id).len < needed ∧ Grown g.map g'.map r.id needed)) := by
  obtain ⟨addr, unused, wf⟩ := settled.wf
  obtain ⟨err, rfl, ⟨addr', unused', wf', moved⟩, -⟩ | ⟨rfl, needed, rounded, live, current,
    ⟨fits, rfl, -⟩ | ⟨short, next, m₁, l₁, l₂, unused₁, wf₁, moved, free, len, ran⟩⟩ :=
    growInPlace_cases wf ran
  · exact ⟨settled.sameLive wf' moved.toSameLive, .inl ⟨err, rfl, moved.toSameLive⟩⟩
  · exact ⟨settled, .inr ⟨needed, rfl, rounded, live, current, .inl ⟨fits, rfl⟩⟩⟩
  · have settled₁ := settled.sameLive wf₁ moved.toSameLive
    have live₁ : m₁.Live r.id := moved.live_iff.mpr live
    obtain ⟨after, grown⟩ := growInto_effect (g := { g with map := m₁ }) settled₁ wf₁ live₁ free ran
    have sameLen := (Slot.fields_of_body (moved.kept r.id live)).2.1
    have total : (m₁.slots r.id).len + (m₁.slots next).len = needed := by omega
    have whole : Grown g.map g'.map r.id needed := moved.toSameLive.grown (total ▸ grown) live
    exact ⟨after, .inr ⟨needed, rfl, rounded, live, current, .inr ⟨short, whole⟩⟩⟩

/-- `free_canary` either fails and changes nothing, or frees the live extent,
whether or not the provider lets its backing go. -/
theorem freeCanary_effect (ran : g.freeCanary P w r canary forcePurge = (answer, g', w')) :
    g'.map.Settled ∧ ((∃ err, answer = .error err ∧ g' = g) ∨
        answer = .ok () ∧ g.map.Live r.id ∧ (g.map.slots r.id).generation = r.generation ∧
          Freed g.map g'.map r.id) := by
  obtain ⟨addr, unused, wf⟩ := settled.wf
  obtain ⟨err, rfl, rfl⟩ | ⟨rfl, live, current, ⟨rfl, -⟩ | ⟨-, rfl⟩⟩ := freeCanary_cases wf ran
  · exact ⟨settled, .inl ⟨err, rfl, rfl⟩⟩
  · obtain ⟨survivor, retained, ran', addr', unused', wf', freed, -⟩ :=
      wf.freeInCanary .dirty canary live rfl rfl (by simp [ExtentState.isBacked, settled.backed r.id live])
    rw [ran']
    exact ⟨settled.freed wf' freed, .inr ⟨rfl, live, current, freed⟩⟩
  · -- the backing is gone; the extent is still live until it is freed
    have listed := (wf.live_iff.mp live).1
    have dropped : WroteTo g.map (g.map.markDecommitted r.id .active).2 r.id _ := wroteTo_put ..
    have wf₁ := wf.markDecommitted .active listed (by rw [live.2.2]) (by simp [ExtentState.isFree])
    obtain ⟨-, len, committed, state, occupied, -⟩ := Slot.fields_of_body dropped.written
    have live₁ : (g.map.markDecommitted r.id .active).2.Live r.id :=
      ⟨dropped.region.cap ▸ live.1, occupied.trans live.2.1, state⟩
    have pos := (wf₁.shape.sound r.id listed).pos
    obtain ⟨survivor₁, map, ran₁, addr₁, unused₁, wf₂, freed₁, -⟩ :=
      wf₁.freeInCanary .released false live₁ rfl rfl
        (by rw [committed]; simp [ExtentState.isBacked, Nat.ne_of_lt pos])
    rw [freeIn, ran₁]
    have freed₂ : Freed g.map map r.id := by
      refine ⟨dropped.region.trans freed₁.region, ?_, ?_⟩
      · intro j before other
        have same := dropped.other j other
        exact (freed₁.kept j (before.of_body dropped.region same) other).trans same
      · intro j after
        obtain ⟨before, other⟩ := freed₁.back j after
        obtain ⟨-, -, -, state, occupied, -⟩ := Slot.fields_of_body (dropped.other j other)
        exact ⟨⟨dropped.region.cap ▸ before.1, occupied ▸ before.2.1, state ▸ before.2.2⟩, other⟩
    exact ⟨settled.freed wf₂ freed₂, .inr ⟨rfl, live, current, freed₂⟩⟩

theorem freeRevokingCanary_effect {arena : Nat}
    (ran : g.freeRevokingCanary P w r arena canary forcePurge = (answer, g', w')) :
    g'.map.Settled ∧ ((∃ err, answer = .error err ∧ g' = g) ∨
        answer = .ok () ∧ g.map.Live r.id ∧ (g.map.slots r.id).generation = r.generation ∧
          Freed g.map g'.map r.id) := by
  obtain ⟨err, rfl, rfl⟩ | ⟨region, w₁, -, freeing⟩ := freeRevokingCanary_cases ran
  · exact ⟨settled, .inl ⟨err, rfl, rfl⟩⟩
  · exact freeCanary_effect settled freeing

/-- Commit, decommit, purge and release touch free extents only. -/
theorem Reback.effect {id : Nat} (wf : WF g.map addr unused)
    (did : Reback P addr g w id answer g' w') : g'.map.Settled ∧ SameLive g.map g'.map := by
  obtain ⟨rfl, -⟩ | ⟨-, listed, did⟩ := did
  · exact ⟨settled, .refl⟩
  have pos := (wf.shape.sound id listed).pos
  cases did with
  | committed unbacked _ =>
    -- a live extent lacks nothing, so this one is free
    have free : (g.map.slots id).state.isFree = true := by
      by_contra active
      have backed := settled.backed id (wf.live_iff.mpr ⟨listed, by
        simpa [ExtentState.isFree] using active⟩)
      omega
    have same := markCommitted_sameLive free
    exact ⟨settled.sameLive (wf.markCommitted listed) same, same⟩
  | decommitted free _ _ =>
    have same := markDecommitted_sameLive .released free rfl
    exact ⟨settled.sameLive (wf.markDecommitted .released listed (by rw [free]; rfl) fun _ => rfl) same, same⟩
  | released free _ unbacked =>
    have same := wf.setState_sameLive .released listed free rfl
    have agrees : ExtentState.released.isBacked = true ↔
        (g.map.slots id).committedLen = (g.map.slots id).len := by
      simp only [ExtentState.isBacked, Bool.false_eq_true, false_iff]
      omega
    exact ⟨settled.sameLive (wf.setState .released listed free rfl agrees) same, same⟩
  | purged free backed _ _ _ =>
    have same := wf.setState_sameLive .muzzy listed free rfl
    exact ⟨settled.sameLive (wf.setState .muzzy listed free rfl (by simp [ExtentState.isBacked, backed])) same, same⟩

end

end ExtentManager
end Topomalloc
