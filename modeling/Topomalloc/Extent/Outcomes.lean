import Topomalloc.Extent.Manager

/-! How each operation of the manager can end: what it leaves when it fails, and
which map operations and which provider call a success stands for.

A failure is the harder half. By the time the provider refuses to commit, the
map has been split up to twice and the carved extent is live; the rollback frees
it into its neighbours, which may join more of them than were split. Page by
page nothing has changed, and that is what `Reshaped` says. -/
namespace Topomalloc

namespace ExtentMap

variable {m m' : ExtentMap} {addr unused : List Nat} {id next base len : Nat}

/-- A reference resolves to a listed slot of its generation. -/
theorem WF.resolve_some {r : ExtentRef} (wf : WF m addr unused) (found : m.resolve r = some e) :
    r.id ∈ addr ∧ (m.slots r.id).generation = r.generation ∧ e = snapshot r.id (m.slots r.id) := by
  simp only [resolve] at found
  split at found
  · cases found
  · rename_i seen
    obtain ⟨listed, rfl⟩ := wf.view_some seen
    split at found
    · rename_i current
      exact ⟨listed, current, (Option.some.inj found).symm⟩
    · cases found

/-- The successor that `addr_next` names is the next extent of the list. -/
theorem WF.addrNext (wf : WF m addr unused) (listed : id ∈ addr) (found : m.addrNextOf id = some next) :
    ∃ l₁ l₂, addr = l₁ ++ id :: next :: l₂ := by
  obtain ⟨bins, lists, -⟩ := wf.indexed
  obtain ⟨l₁, l₂, rfl⟩ := List.append_of_mem listed
  have link := (lists.addrHeld.ring ()).next_eq
  rw [Links.Table.Holds.nx_of_mem lists.addrHeld (b := ()) (by simp)] at link
  have here : (m.slots id).addrNext = l₂.headD NIL := link
  simp only [addrNextOf, get, here] at found
  cases l₂ with
  | nil => simp at found
  | cons a l₂ =>
    split at found
    · simp only [List.headD_cons, Option.some.injEq] at found
      exact ⟨l₁, l₂, by rw [found]⟩
    · cases found

/-- Handing out an unbacked extent and taking it back as released. -/
theorem Readied.takeBack (readied : Readied m m' id base len) (wf : WF m' addr unused)
    (listed : id ∈ addr) (unbacked : (m'.slots id).committedLen ≠ (m'.slots id).len) :
    ∃ survivor m'', (m'.activate id).freeIn id .released = some (survivor, m'') ∧
      ∃ addr' unused', WF m'' addr' unused' ∧ Reshaped m m'' := by
  obtain ⟨active, handed, spent, committed⟩ := wf.activate listed readied.free
  obtain ⟨-, sameLen, sameCommitted, state, -⟩ := Slot.fields_of_body handed.written
  have live : (m'.activate id).Live id := active.live_iff.mpr ⟨listed, state⟩
  have agrees : ExtentState.released.isBacked = true ↔
      ((m'.activate id).slots id).committedLen = ((m'.activate id).slots id).len := by
    rw [sameLen, sameCommitted]
    simp [ExtentState.isBacked, unbacked]
  obtain ⟨-, -, refiled, refunded, kept⟩ := active.refiled .released false live rfl rfl agrees
  obtain ⟨survivor, m'', ran, addr', unused', wf'', -, moved⟩ :=
    active.freeInCanary .released false live rfl rfl agrees
  refine ⟨survivor, m'', ran, addr', unused', wf'', readied.reshaped.trans (.trans ?_ moved)⟩
  obtain ⟨base', len', committed', -, occupied', -⟩ := Slot.fields_of_body handed.written
  refine (handed.trans refiled).reshaped readied.free base' len' occupied' ⟨?_, ?_, by rintro ⟨⟩⟩ ?_ ?_
  · exact readied.free.symm
  · change ((m'.activate id).slots id).committedLen = ((m'.activate id).slots id).len ↔ _
    rw [len', committed']
  · exact (refunded.trans (congrArg _ len')).trans spent
  · exact kept.trans committed

end ExtentMap

namespace ExtentManager
open ExtentMap

variable {σ : Type} {P : Provider σ} {H : RegionCacheHook σ} {g g' : ExtentManager} {w w' : σ}
  {r : ExtentRef} {addr unused : List Nat} {err : ExtentError} {answer : Except ExtentError Unit}

/-- The manager is well formed, with only boundaries moved. -/
def Unharmed (g g' : ExtentManager) : Prop := ∃ addr' unused', WF g'.map addr' unused' ∧ Reshaped g.map g'.map

theorem Unharmed.refl (wf : WF g.map addr unused) : g.Unharmed g := ⟨addr, unused, wf, .refl⟩

/-- A request that is turned down at once. -/
theorem refused {α : Type} {answer : Except ExtentError α} (wf : WF g.map addr unused)
    (ran : (.error err, g, w) = (answer, g', w')) :
    ∃ err, answer = .error err ∧ g.Unharmed g' ∧ P.Spared w w' := by
  cases ran
  exact ⟨err, rfl, .refl wf, .refl⟩

/-- `alloc_z` fails without harm, or a fit is readied and made live, and
committed if it was not backed. -/
theorem allocZ_cases {size : Nat} {answer : Except ExtentError (ExtentRef × RegionProvenance)}
    (wf : WF g.map addr unused) (ran : g.allocZ P w size align fit = (answer, g', w')) :
    (∃ err, answer = .error err ∧ g.Unharmed g' ∧ P.Spared w w') ∨
    ∃ r prov needed base m₁ addr₁ unused₁, answer = .ok (r, prov) ∧
      alignUp size pageSize = some needed ∧ WF m₁ addr₁ unused₁ ∧
      r.id ∈ addr₁ ∧ Readied g.map m₁ r.id base needed ∧
      Carved g.map (m₁.activate r.id) r.id needed align ∧
      (g'.map.slots r.id).generation = r.generation ∧
      ((m₁.slots r.id).committedLen = 0 ∧ P.commit w g.region (g.subOffset base) needed = (.ok (), w') ∧
          g' = { g with map := ((m₁.activate r.id).markCommitted r.id).2 } ∧
          prov = { zeroed := P.committedMemoryIsZeroed, canary := false } ∨
        (m₁.slots r.id).committedLen = needed ∧ w' = w ∧ g' = { g with map := m₁.activate r.id } ∧
          prov = { zeroed := false, canary := (m₁.slots r.id).canary }) := by
  simp only [allocZ] at ran
  split at ran
  · exact .inl (refused wf ran)
  split at ran
  · exact .inl (refused wf ran)
  rename_i needed rounded
  split at ran
  · rename_i map carve
    obtain ⟨-, rfl⟩ | ⟨_, _, _, _, _, impossible, _⟩ := wf.carveIn carve
    · exact .inl (refused wf ran)
    · cases impossible
  rename_i id map carve
  obtain ⟨impossible, _⟩ |
    ⟨_, m₁, addr₁, unused₁, hit, same, -, wf₁, listed₁, readied, rfl, active, carved⟩ :=
    wf.carveIn carve
  · cases impossible
  obtain rfl := Option.some.inj same
  obtain ⟨-, handed, -, -⟩ := wf₁.activate listed₁ readied.free
  obtain ⟨base, len, committed, -⟩ := Slot.fields_of_body handed.written
  have canary := Slot.canary_of_body handed.written
  have sound := wf₁.shape.sound id listed₁
  have pos := sound.pos
  have backing := sound.backing
  have size := readied.len
  simp only [snapshot, base, len, committed, readied.base, size] at ran
  split at ran
  · -- the extent was unbacked
    rename_i lacking
    have none : (m₁.slots id).committedLen = 0 := by omega
    simp only [none, Nat.add_zero, Nat.sub_zero] at ran
    split at ran
    · -- the commit failed after the extent was handed out
      rename_i refused
      obtain ⟨survivor, m₂, freed, addr₂, unused₂, wf₂, moved⟩ := readied.takeBack wf₁ listed₁ (by omega)
      rw [if_neg (by omega), freed] at ran
      cases ran
      exact .inl ⟨_, rfl, ⟨addr₂, unused₂, wf₂, moved⟩, .commit .refl refused⟩
    · rename_i committing
      cases ran
      refine .inr ⟨_, _, needed, hit.aligned, m₁, addr₁, unused₁, rfl, rounded, wf₁, listed₁, readied,
        carved, rfl, .inl ⟨none, committing, rfl, ?_⟩⟩
      simp [show needed ≠ 0 by omega]
  · rename_i enough
    have full : (m₁.slots id).committedLen = needed := by omega
    cases ran
    refine .inr ⟨_, _, needed, hit.aligned, m₁, addr₁, unused₁, rfl, rounded, wf₁, listed₁, readied,
      carved, rfl, .inr ⟨full, rfl, rfl, ?_⟩⟩
    simp [full, show needed ≠ 0 by omega, extentCanary, ExtentMap.get, canary]

/-- `alloc_large` is turned down, served by the region cache, or served by
`alloc_z` once the cache has declined. -/
theorem allocLarge_cases {answer : Except ExtentError (Region × Option ExtentRef × RegionProvenance)}
    (ran : g.allocLarge P H w bytes align hints = (answer, g', w')) :
    (∃ err, answer = .error err ∧ g' = g ∧ w' = w) ∨
    bytes ≠ 0 ∧ isPowerOfTwo align = true ∧ ∃ rounded, alignUp bytes pageSize = some rounded ∧
      ((∃ region, H.tryAlloc w rounded align hints = (some region, w') ∧
          answer = .ok (region, none, {}) ∧ g' = g) ∨
        ∃ w₁ inner, H.tryAlloc w rounded align hints = (none, w₁) ∧
          g.allocZ P w₁ rounded align .best = (inner, g', w') ∧
          answer = inner.map fun made =>
            (g'.subRegion (snapshot made.1.id (g'.map.get made.1.id)), some made.1, made.2)) := by
  simp only [allocLarge] at ran
  split at ran
  · cases ran
    exact .inl ⟨_, rfl, rfl, rfl⟩
  rename_i valid
  simp only [not_or, Bool.not_eq_false] at valid
  split at ran
  · cases ran
    exact .inl ⟨_, rfl, rfl, rfl⟩
  rename_i rounded fits
  refine .inr ⟨valid.1, valid.2, rounded, fits, ?_⟩
  split at ran
  · rename_i served
    cases ran
    exact .inl ⟨_, served, rfl, rfl⟩
  rename_i declined
  split at ran
  all_goals
    rename_i allocated
    cases ran
    exact .inr ⟨_, _, declined, allocated, rfl⟩

section
variable (wf : WF g.map addr unused)
include wf

/-- `split_tail` changes nothing, or splits the slot of a live extent. -/
theorem splitTail_cases {answer : Except ExtentError ExtentRef} (ran : g.splitTail r prefixLen = (answer, g')) :
    (∃ err, answer = .error err ∧ g' = g) ∨
    ∃ tail, answer = .ok tail ∧ r.id ∈ addr ∧ g.map.Live r.id ∧ (g.map.slots r.id).generation = r.generation ∧
      (g'.map.slots tail.id).generation = tail.generation ∧
      g.map.splitIn r.id prefixLen = some (tail.id, g'.map) := by
  simp only [splitTail] at ran
  split at ran
  · cases ran
    exact .inl ⟨_, rfl, rfl⟩
  rename_i e found
  obtain ⟨listed, current, rfl⟩ := wf.resolve_some found
  split at ran
  · cases ran
    exact .inl ⟨_, rfl, rfl⟩
  rename_i active
  split at ran
  · cases ran
    exact .inl ⟨_, rfl, rfl⟩
  rename_i split
  cases ran
  exact .inr ⟨_, rfl, listed, wf.live_iff.mpr ⟨listed, not_not.mp active⟩, current, rfl, split⟩

/-- The end of `grow_in_place`: a neighbour that cannot be committed is merged
back, and otherwise it is absorbed whole. -/
theorem growInto_cases {id : Nat} (listed : next ∈ addr) (ran : g.growInto P w id next = (answer, g', w')) :
    (∃ err, answer = .error err ∧ g.Unharmed g' ∧ P.Spared w w') ∨
    answer = .ok () ∧ ((g.map.slots next).committedLen = 0 ∧
          P.commit w g.region (g.subOffset (g.map.slots next).base) (g.map.slots next).len = (.ok (), w') ∧
          g' = { g with map := (g.map.markCommitted next).2.absorbNextIn id next } ∨
        (g.map.slots next).committedLen = (g.map.slots next).len ∧ w' = w ∧
          g' = { g with map := g.map.absorbNextIn id next }) := by
  have backing := (wf.shape.sound next listed).backing
  simp only [growInto] at ran
  split at ran
  · rename_i lacking
    change (g.map.slots next).len - (g.map.slots next).committedLen > 0 at lacking
    have none : (g.map.slots next).committedLen = 0 := by omega
    simp only [snapshot, ExtentMap.get, none, Nat.add_zero, Nat.sub_zero] at ran
    split at ran
    · rename_i refused
      cases ran
      exact .inl ⟨_, rfl, wf.coalesceIn listed, .commit .refl refused⟩
    · rename_i committing
      cases ran
      exact .inr ⟨rfl, .inl ⟨none, committing, rfl⟩⟩
  · rename_i enough
    change ¬ (g.map.slots next).len - (g.map.slots next).committedLen > 0 at enough
    cases ran
    exact .inr ⟨rfl, .inr ⟨by omega, rfl, rfl⟩⟩

/-- `grow_in_place` fails without harm, does nothing if the extent is long
enough, or absorbs the neighbour, trimmed to what is missing. -/
theorem growInPlace_cases {newLen : Nat} (ran : g.growInPlace P w r newLen = (answer, g', w')) :
    (∃ err, answer = .error err ∧ g.Unharmed g' ∧ P.Spared w w') ∨
    answer = .ok () ∧ ∃ needed, alignUp newLen pageSize = some needed ∧ g.map.Live r.id ∧
      (g.map.slots r.id).generation = r.generation ∧
      (needed ≤ (g.map.slots r.id).len ∧ g' = g ∧ w' = w ∨
        (g.map.slots r.id).len < needed ∧ ∃ next m₁ l₁ l₂ unused₁,
          WF m₁ (l₁ ++ r.id :: next :: l₂) unused₁ ∧ Reshaped g.map m₁ ∧
          (m₁.slots next).state.isFree = true ∧
          (m₁.slots next).len = needed - (g.map.slots r.id).len ∧
          growInto P { g with map := m₁ } w r.id next = (.ok (), g', w')) := by
  unfold growInPlace at ran
  split at ran
  · exact .inl (refused wf ran)
  rename_i needed rounded
  split at ran
  · exact .inl (refused wf ran)
  rename_i e found
  obtain ⟨listed, current, rfl⟩ := wf.resolve_some found
  split at ran
  · exact .inl (refused wf ran)
  rename_i active
  have live : g.map.Live r.id := wf.live_iff.mpr ⟨listed, not_not.mp active⟩
  split at ran
  · rename_i fits
    cases ran
    exact .inr ⟨rfl, needed, rounded, live, current, .inl ⟨fits, rfl, rfl⟩⟩
  rename_i short
  change ¬ needed ≤ (g.map.slots r.id).len at short
  dsimp only at ran
  split at ran
  · exact .inl (refused wf ran)
  rename_i next successor
  split at ran
  · exact .inl (refused wf ran)
  rename_i nv seen
  obtain ⟨-, rfl⟩ := wf.view_some seen
  split at ran
  · exact .inl (refused wf ran)
  rename_i usable
  simp only [snapshot, not_or, Bool.not_eq_false, not_lt] at usable
  obtain ⟨free, large⟩ := usable
  obtain ⟨l₁, l₂, rfl⟩ := wf.addrNext listed successor
  have trimmed : (.error .exhausted, g, w) = (answer, g', w') ∨
      ∃ m₁ l₂ unused₁, WF m₁ (l₁ ++ r.id :: next :: l₂) unused₁ ∧ Reshaped g.map m₁ ∧
        (m₁.slots next).state.isFree = true ∧
        (m₁.slots next).len = needed - (g.map.slots r.id).len ∧
        growInto P { g with map := m₁ } w r.id next = (answer, g', w') := by
    split at ran
    · split at ran
      · exact .inl ran
      rename_i right map split
      have wf₁ : WF g.map ((l₁ ++ [r.id]) ++ next :: l₂) unused := by simpa using wf
      obtain ⟨rest, rfl, wf', effect⟩ := wf₁.splitIn split
      have moved := effect.reshaped wf₁ (by simp) free (wf₁.shape.vacant right (by simp))
      obtain ⟨-, len, state, -⟩ := effect.left_fields
      exact .inr ⟨map, right :: l₂, rest, by simpa using wf', moved, (congrArg _ state).trans free, len, ran⟩
    · rename_i exact_
      change ¬ (g.map.slots next).len > needed - (g.map.slots r.id).len at exact_
      exact .inr ⟨g.map, l₂, unused, wf, .refl, free, by omega, ran⟩
  obtain failed | ⟨m₁, l₂, unused₁, wf₁, moved, free, len, ran⟩ := trimmed
  · exact .inl (refused wf failed)
  obtain ⟨err, rfl, ⟨addr', unused', wf', moved'⟩, spared⟩ | ⟨rfl, -⟩ :=
    growInto_cases (g := { g with map := m₁ }) wf₁ (by simp) ran
  · -- the coalesce joins the two parts of the trimmed neighbour again
    exact .inl ⟨err, rfl, ⟨addr', unused', wf', moved.trans moved'⟩, spared⟩
  · exact .inr ⟨rfl, needed, rounded, live, current,
      .inr ⟨by omega, next, m₁, l₁, l₂, unused₁, wf₁, moved, free, len, ran⟩⟩

/-- `free_canary` changes nothing, or the extent goes back dirty, with the mark
asked for, or its backing is dropped first. A decommit that fails is not an error
of the free. -/
theorem freeCanary_cases (ran : g.freeCanary P w r canary forcePurge = (answer, g', w')) :
    (∃ err, answer = .error err ∧ g' = g) ∨
    answer = .ok () ∧ g.map.Live r.id ∧ (g.map.slots r.id).generation = r.generation ∧
      (g' = { g with map := ((g.map.freeInCanary r.id .dirty canary).map Prod.snd).getD g.map } ∧
          (w' = w ∨ ∃ err, P.decommit w g.region (g.subOffset (g.map.slots r.id).base)
            (g.map.slots r.id).committedLen = (.error err, w')) ∨
        P.decommit w g.region (g.subOffset (g.map.slots r.id).base)
            (g.map.slots r.id).committedLen = (.ok (), w') ∧
          g' = { g with map := (((g.map.markDecommitted r.id .active).2.freeIn r.id .released).map
            Prod.snd).getD (g.map.markDecommitted r.id .active).2 }) := by
  simp only [freeCanary] at ran
  split at ran
  · cases ran
    exact .inl ⟨_, rfl, rfl⟩
  rename_i e found
  obtain ⟨listed, current, rfl⟩ := wf.resolve_some found
  split at ran
  · cases ran
    exact .inl ⟨_, rfl, rfl⟩
  rename_i active
  have live := wf.live_iff.mpr ⟨listed, not_not.mp active⟩
  split at ran
  · cases ran
    exact .inr ⟨rfl, live, current, .inl ⟨rfl, .inl rfl⟩⟩
  split at ran
  · rename_i dropped
    cases ran
    exact .inr ⟨rfl, live, current, .inr ⟨dropped, rfl⟩⟩
  · rename_i err w₁ refused
    cases ran
    exact .inr ⟨rfl, live, current, .inl ⟨rfl, .inr ⟨err, refused⟩⟩⟩

end

theorem freeRevokingCanary_cases {arena : Nat}
    (ran : g.freeRevokingCanary P w r arena canary forcePurge = (answer, g', w')) :
    (∃ err, answer = .error err ∧ g' = g) ∨
    ∃ region w₁, P.revokeDescendants w arena region = (.ok (), w₁) ∧
      g.freeCanary P w₁ r canary forcePurge = (answer, g', w') := by
  simp only [freeRevokingCanary] at ran
  split at ran
  · cases ran
    exact .inl ⟨_, rfl, rfl⟩
  split at ran
  · cases ran
    exact .inl ⟨_, rfl, rfl⟩
  · rename_i revoked
    exact .inr ⟨_, _, revoked, ran⟩

/-! ## The operations on the backing of an extent -/

/-- What `commit`, `decommit`, `purge_lazy`, `purge_forced` and `release` can do
to a listed extent. -/
inductive Rebacked (P : Provider σ) (g : ExtentManager) (w : σ) (id : Nat) :
    ExtentManager → σ → Prop
  | committed {w' : σ} (unbacked : (g.map.slots id).committedLen = 0)
      (done : P.commit w g.region (g.subOffset (g.map.slots id).base) (g.map.slots id).len =
        (.ok (), w')) : Rebacked P g w id { g with map := (g.map.markCommitted id).2 } w'
  | decommitted {w₁ w' : σ} (free : (g.map.slots id).state.isFree = true) (spared : P.Spared w w₁)
      (done : P.decommit w₁ g.region (g.subOffset (g.map.slots id).base)
        (g.map.slots id).committedLen = (.ok (), w')) :
      Rebacked P g w id { g with map := (g.map.markDecommitted id .released).2 } w'
  | released {w' : σ} (free : (g.map.slots id).state.isFree = true) (spared : P.Spared w w')
      (unbacked : (g.map.slots id).committedLen = 0) :
      Rebacked P g w id { g with map := (g.map.setState id .released).2 } w'
  | purged {w' : σ} (free : (g.map.slots id).state.isFree = true)
      (backed : (g.map.slots id).committedLen = (g.map.slots id).len)
      (purge : σ → Region → Nat → Nat → Except BackendError Unit × σ)
      (either : purge = P.purgeLazy ∨ purge = P.purgeForced)
      (done : purge w g.region (g.subOffset (g.map.slots id).base) (g.map.slots id).len =
        (.ok (), w')) : Rebacked P g w id { g with map := (g.map.setState id .muzzy).2 } w'

/-- Nothing happened, or the operation succeeded on a listed extent. -/
def Reback (P : Provider σ) (addr : List Nat) (g : ExtentManager) (w : σ) (id : Nat)
    (answer : Except ExtentError Unit) (g' : ExtentManager) (w' : σ) : Prop :=
  g' = g ∧ P.Spared w w' ∨ answer = .ok () ∧ id ∈ addr ∧ Rebacked P g w id g' w'

variable {answer : Except ExtentError Unit}

/-- A provider call, passed on with the manager as it was if it is refused. -/
theorem called_cases {call : Except BackendError Unit × σ} (ran : (match call with
      | (.error e, w) => (.error (.backend e), g, w)
      | (.ok (), w) => (.ok (), after, w)) = (answer, g', w')) :
    g' = g ∧ (∃ e, call = (.error e, w')) ∨ answer = .ok () ∧ g' = after ∧ call = (.ok (), w') := by
  split at ran
  · cases ran
    exact .inl ⟨rfl, _, rfl⟩
  · cases ran
    exact .inr ⟨rfl, rfl, rfl⟩

/-- The operations that act on a free extent after resolving it. -/
theorem resolved_cases {act : Extent → Except ExtentError Unit × ExtentManager × σ}
    (wf : WF g.map addr unused) (ran : (match g.map.resolve r with
      | none => (.error .stale, g, w)
      | some e => if e.state.isFree = false then (.error .notFree, g, w) else act e) =
        (answer, g', w')) (acts : r.id ∈ addr → (g.map.slots r.id).state.isFree = true →
      act (snapshot r.id (g.map.slots r.id)) = (answer, g', w') → Reback P addr g w r.id answer g' w') :
    Reback P addr g w r.id answer g' w' := by
  split at ran
  · cases ran
    exact .inl ⟨rfl, .refl⟩
  rename_i e found
  obtain ⟨listed, -, rfl⟩ := wf.resolve_some found
  split at ran
  · cases ran
    exact .inl ⟨rfl, .refl⟩
  · rename_i free
    exact acts listed (by simpa [snapshot] using free) ran

theorem commit_cases (wf : WF g.map addr unused) (ran : g.commit P w r = (answer, g', w')) :
    Reback P addr g w r.id answer g' w' := by
  simp only [commit] at ran
  split at ran
  · cases ran
    exact .inl ⟨rfl, .refl⟩
  rename_i e found
  obtain ⟨listed, -, rfl⟩ := wf.resolve_some found
  have backing := (wf.shape.sound r.id listed).backing
  split at ran
  · rename_i lacking
    change (g.map.slots r.id).len - (g.map.slots r.id).committedLen > 0 at lacking
    have none : (g.map.slots r.id).committedLen = 0 := by omega
    simp only [snapshot, none, Nat.add_zero, Nat.sub_zero] at ran
    obtain ⟨rfl, e, refused⟩ | ⟨rfl, rfl, done⟩ := called_cases ran
    · exact .inl ⟨rfl, .commit .refl refused⟩
    · exact .inr ⟨rfl, listed, .committed none done⟩
  · cases ran
    exact .inl ⟨rfl, .refl⟩

/-- The end of `decommit` and of `release`. -/
theorem dropBacking_cases {w₁ : σ} (listed : r.id ∈ addr)
    (free : (g.map.slots r.id).state.isFree = true) (spared : P.Spared w w₁)
    (ran : g.dropBacking P w₁ r (snapshot r.id (g.map.slots r.id)) = (answer, g', w')) :
    Reback P addr g w r.id answer g' w' := by
  simp only [dropBacking] at ran
  split at ran
  · obtain ⟨rfl, e, refused⟩ | ⟨rfl, rfl, done⟩ := called_cases ran
    · exact .inl ⟨rfl, .decommit spared refused⟩
    · exact .inr ⟨rfl, listed, .decommitted free spared done⟩
  · rename_i unbacked
    change ¬ (g.map.slots r.id).committedLen > 0 at unbacked
    cases ran
    exact .inr ⟨rfl, listed, .released free spared (by omega)⟩

section
variable (wf : WF g.map addr unused)
include wf

theorem decommit_cases (ran : g.decommit P w r = (answer, g', w')) : Reback P addr g w r.id answer g' w' :=
  resolved_cases wf ran fun listed free => dropBacking_cases listed free .refl

theorem release_cases (ran : g.release P w r = (answer, g', w')) : Reback P addr g w r.id answer g' w' := by
  refine resolved_cases wf ran fun listed free acted => ?_
  split at acted
  · rename_i revoked
    cases acted
    exact .inl ⟨rfl, .revoke .refl revoked⟩
  · rename_i revoked
    exact dropBacking_cases listed free (.revoke .refl revoked) acted

theorem purgeLazy_cases (ran : g.purgeLazy P w r = (answer, g', w')) :
    Reback P addr g w r.id answer g' w' := by
  refine resolved_cases wf ran fun listed free acted => ?_
  split at acted
  · rename_i dirty
    have backed := (wf.shape.sound r.id listed).coupled free
    rw [show (g.map.slots r.id).state = .dirty from dirty] at backed
    obtain ⟨rfl, e, refused⟩ | ⟨rfl, rfl, done⟩ := called_cases acted
    · exact .inl ⟨rfl, .purgeLazy .refl refused⟩
    · exact .inr ⟨rfl, listed, .purged free (backed.mp rfl) _ (.inl rfl) done⟩
  · cases acted
    exact .inl ⟨rfl, .refl⟩

theorem purgeForced_cases (ran : g.purgeForced P w r = (answer, g', w')) :
    Reback P addr g w r.id answer g' w' := by
  refine resolved_cases wf ran fun listed free acted => ?_
  split at acted
  · rename_i resident
    change (g.map.slots r.id).committedLen > 0 at resident
    have backing := (wf.shape.sound r.id listed).backing
    obtain ⟨rfl, e, refused⟩ | ⟨rfl, rfl, done⟩ := called_cases acted
    · exact .inl ⟨rfl, .purgeForced .refl refused⟩
    · exact .inr ⟨rfl, listed, .purged free (by omega) _ (.inr rfl) done⟩
  · cases acted
    exact .inl ⟨rfl, .refl⟩

end

end ExtentManager
end Topomalloc
