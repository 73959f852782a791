import Topomalloc.Large.Backend
import Topomalloc.Large.Runs
import Topomalloc.Engine.Calls

/-! Draining an arena. `free_arena` frees the large allocations of an arena one
after the other and reports whether all of their memory was reclaimed; the
engine decides by that report whether the arena is done or is quarantined. -/
namespace Topomalloc
open Function ExtentMap
namespace Engine
variable {σ : Type} {G : Grounds σ} {E : Env σ} {s s' t : Engine σ} {live : Set Nat}
  {held : Set Region} {arena j : Nat} {scrub : Bool}

/-! ## States of the large allocator -/

/-- The rest of the engine acted: it left the descriptors, the extents and the
pages of the reservations alone, and did not call the region cache. -/
structure Elsewhere (G : Grounds σ) (E : Env σ) (s s' : Engine σ) : Prop where
  large : s'.large = s.large
  extents : s'.largeExtents = s.largeExtents
  entries : ∀ p, G.Page p → s'.pagemap.entries p = s.pagemap.entries p
  foreign : ∀ p j, ¬G.Page p → s'.pagemap.entries p ≠ .large j
  idle : E.Idle s.world s'.world

theorem Stands.elsewhere (stands : Stands G s live held) (sound : G.Sound E)
    (acted : Elsewhere G E s s') : Stands G s' live held := by
  obtain ⟨free, h, full⟩ := stands
  have owners : ∀ p j, s'.pagemap.entries p = .large j ↔ s.pagemap.entries p = .large j := by
    intro p j
    by_cases ours : G.Page p
    · rw [acted.entries p ours]
    · refine ⟨fun owned => absurd owned (acted.foreign p j ours), fun owned => ?_⟩
      exact absurd (h.page_of_large sound owned) ours
  refine ⟨free, ⟨?_, ?_, ?_, ?_, ?_, ?_, ?_, ?_, ?_, ?_⟩, ?_⟩
  · rw [acted.large]
    exact h.pool
  · simpa only [UsedLarge, acted.large] using h.used
  · rw [acted.extents]
    exact h.settled
  · rw [acted.extents]
    exact h.region
  · rw [acted.extents]
    exact h.base
  · rw [acted.extents]
    exact h.len
  · exact acted.idle _ (sound.keeps held) h.leased
  · rw [acted.extents, acted.large]
    exact h.seated
  · intro p j
    rw [owners, acted.large]
    exact h.pages p j
  · intro p ours
    rw [acted.entries p ours]
    exact h.clean p ours
  · simpa only [UsedLarge, acted.large] using full

/-- The states of a large allocator inside an engine: any calls, and anything the
rest of the engine does in between. -/
inductive LargeState (G : Grounds σ) (E : Env σ) : Engine σ → Prop
  | opened {s : Engine σ} (opened : Opened G s) : LargeState G E s
  | call {s : Engine σ} (before : LargeState G E s) (op : LargeOp) : LargeState G E (s.largeStep E op)
  | elsewhere {s s' : Engine σ} (before : LargeState G E s) (acted : Elsewhere G E s s') :
    LargeState G E s'

theorem LargeState.stands (state : LargeState G E s) (sound : G.Sound E) :
    ∃ live held, Stands G s live held := by
  induction state with
  | opened opened => exact ⟨∅, ∅, opened.stands⟩
  | call before op ih =>
    obtain ⟨live, held, stands⟩ := ih
    obtain ⟨live', held', stands', -⟩ := stands.step sound op
    exact ⟨live', held', stands'⟩
  | elsewhere before acted ih =>
    obtain ⟨live, held, stands⟩ := ih
    exact ⟨live, held, stands.elsewhere sound acted⟩

/-- Creating an arena is no affair of the large allocator. -/
theorem LargeState.arenaCreate (state : LargeState G E s) (sound : G.Sound E) (policy : ArenaPolicy) :
    LargeState G E (s.arenaCreate policy).2 := by
  obtain ⟨live, held, free, h, -⟩ := state.stands sound
  refine .elsewhere state ⟨rfl, rfl, fun _ _ => rfl, fun p j away owned => ?_, .refl⟩
  exact away (h.page_of_large sound owned)

/-! ## Reclaiming one allocation -/

/-- `free_inner` up to the return of the memory; the flag says that the guards
are accessible again. -/
def beforeReturn (E : Env σ) (s : Engine σ) (j : Nat) (scrub : Bool) : Bool × Engine σ :=
  let (restored, t) := (s.retireLarge j).disarm E (s.largeSlot j)
  (restored, t.destroyBytes E (s.largeSlot j) scrub)

theorem freeInner_eq (found : s.largeAt (s.largeSlot j).base = some j) (real : (s.largeSlot j).base ≠ 0)
    (revoke : Option Nat) :
    s.freeInner E (s.largeSlot j).base revoke scrub = if (s.beforeReturn E j scrub).1 then
        let (reclaimed, t) := (s.beforeReturn E j scrub).2.returnBacking E E.hook
          (s.largeSlot j).backing ⟨(s.largeSlot j).base, (s.largeSlot j).usable⟩ revoke
          (!scrub && E.junkFill && !(s.largeSlot j).guarded)
        ((true, reclaimed), t)
      else ((true, false), (s.beforeReturn E j scrub).2) := by
  simp only [freeInner, found, beforeReturn]
  rw [if_neg (by simp [real])]
  rfl

theorem beforeReturn_frame : (s.beforeReturn E j scrub).2.largeExtents = s.largeExtents ∧
    (s.beforeReturn E j scrub).2.arenas = s.arenas := by
  obtain ⟨w, n, disarmed, -⟩ := disarm_reworlded (E := E) (s := s.retireLarge j) (s.largeSlot j)
  obtain ⟨contents, memory, destroyed, -⟩ := destroyBytes_eq (E := E)
    (s := ((s.retireLarge j).disarm E (s.largeSlot j)).2) (s.largeSlot j) scrub
  simp only [beforeReturn]
  rw [destroyed, disarmed]
  exact ⟨rfl, rfl⟩

/-- The answer of the region cache to a region that comes back. -/
def TakenBack (E : Env σ) (s : Engine σ) (j arena : Nat) (scrub : Bool) : Prop :=
  (s.largeSlot j).backing = none → (E.hook.tryCacheRevoking (s.beforeReturn E j scrub).2.world
      ⟨(s.largeSlot j).base, (s.largeSlot j).usable⟩ arena).1 = true

/-- Freeing the allocation of slot `j` revoked the capabilities over its memory
and gave the memory back to where it came from. -/
def Reclaimed (E : Env σ) (s : Engine σ) (j arena : Nat) (scrub : Bool) : Prop :=
  (s.beforeReturn E j scrub).1 = true ∧ TakenBack E s j arena scrub ∧
    ∀ ext, (s.largeSlot j).backing = some ext → (∃ region, s.largeExtents.regionOf ext = some region ∧
        (E.provider.revokeDescendants (s.beforeReturn E j scrub).2.world arena region).1 = .ok ()) ∧
      Freed s.largeExtents.map
        (s.freeInner E (s.largeSlot j).base (some arena) scrub).2.largeExtents.map ext.id

/-- The provider refuses access to a guard page of slot `j`. -/
def GuardRefused (E : Env σ) (s : Engine σ) (j : Nat) : Prop :=
  let d := s.largeSlot j
  let g := s.largeExtents
  let lead := E.provider.protect s.world g.region
    (g.subOffset (d.stop - ((d.usable + pageSize - 1) / pageSize + 1) * pageSize)) pageSize true
  let trail := E.provider.protect lead.2 g.region (g.subOffset d.stop) pageSize true
  d.guardArmed = true ∧ ¬(lead.1.isOk = true ∧ trail.1.isOk = true)

/-- The provider refuses what freeing slot `j` asks of it: access to a guard page, or
the revocation over the extent. A pointer that is null is not freed either. -/
def Denied (E : Env σ) (s : Engine σ) (j arena : Nat) (scrub : Bool) : Prop :=
  (s.largeSlot j).base = 0 ∨ GuardRefused E s j ∨ ∃ ext, (s.largeSlot j).backing = some ext ∧
    ∀ region, s.largeExtents.regionOf ext = some region →
    (E.provider.revokeDescendants (s.beforeReturn E j scrub).2.world arena region).1 ≠ .ok ()

theorem beforeReturn_restored : (s.beforeReturn E j scrub).1 = true ↔ ¬GuardRefused E s j := by
  have world : (s.retireLarge j).world = s.world := rfl
  have extents : (s.retireLarge j).largeExtents = s.largeExtents := rfl
  simp only [beforeReturn, disarm, restoreGuards, protectRange, GuardRefused, world, extents]
  by_cases armed : (s.largeSlot j).guardArmed = true
  · simp only [armed, if_true, true_and, not_not, ← Bool.and_eq_true]
    split
    next both => simp [both]
    next one => simp [one]
  · simp [armed]

/-- Slot `j` holds a live allocation. -/
structure Freeable (s : Engine σ) (j : Nat) : Prop where
  settled : s.largeExtents.map.Settled
  found : s.largeAt (s.largeSlot j).base = some j
  current : ∀ ext, (s.largeSlot j).backing = some ext → s.largeExtents.map.Live ext.id ∧
    (s.largeExtents.map.slots ext.id).generation = ext.generation

/-- Freeing an extent that is live fails only where the provider refuses. -/
theorem revokes_iff {g : ExtentManager} (settled : g.map.Settled) (live : g.map.Live ext.id)
    (current : (g.map.slots ext.id).generation = ext.generation) (canary forcePurge : Bool) :
    (g.freeRevokingCanary E.provider w ext arena canary forcePurge).1.isOk = true ↔
      ∃ region, g.regionOf ext = some region ∧ (E.provider.revokeDescendants w arena region).1 = .ok () := by
  obtain ⟨addr, unused, wf⟩ := settled.wf
  have resolved := wf.resolve_eq (wf.live_iff.mp live).1 current
  have frees : ∀ w, (g.freeCanary E.provider w ext canary forcePurge).1 = .ok () := by
    intro w
    simp only [ExtentManager.freeCanary, resolved, snapshot, live.2.2]
    rw [if_neg (by simp)]
    split
    · rfl
    · split <;> rfl
  simp only [ExtentManager.freeRevokingCanary, ExtentManager.regionOf, resolved, Option.map_some,
    Option.some.injEq, exists_eq_left']
  rcases E.provider.revokeDescendants w arena _ with ⟨_ | _, w'⟩
  · simp [Except.isOk, Except.toBool]
  · simp [frees, Except.isOk, Except.toBool]

/-- What becomes of the extent of a freed allocation. -/
theorem Freeable.freeInner_extent (freeable : s.Freeable j) (arena : Nat) (scrub : Bool)
    (real : (s.largeSlot j).base ≠ 0) (guards : ¬GuardRefused E s j) (backed : (s.largeSlot j).backing = some ext) :
    ∃ answer g w, s.largeExtents.freeRevokingCanary E.provider (s.beforeReturn E j scrub).2.world ext arena
        (!scrub && E.junkFill && !(s.largeSlot j).guarded) E.forcePurge = (answer, g, w) ∧
      (s.freeInner E (s.largeSlot j).base (some arena) scrub).1 = (true, answer.isOk) ∧
      (s.freeInner E (s.largeSlot j).base (some arena) scrub).2.largeExtents = g := by
  have restored : (s.beforeReturn E j scrub).1 = true := beforeReturn_restored.mpr guards
  have extents : (s.beforeReturn E j scrub).2.largeExtents = s.largeExtents := beforeReturn_frame.1
  refine ⟨_, _, _, rfl, ?_⟩
  rw [freeInner_eq freeable.found real, if_pos restored, ← extents]
  generalize (s.beforeReturn E j scrub).2 = t
  obtain ⟨history, noted⟩ := Housed.noteRevoke_eq (s := t) (E := E) arena (t.largeExtents.regionOf ext)
  simp only [returnBacking, backed, noted]
  exact ⟨rfl, rfl⟩

/-- A free reports success unless the provider refuses. -/
theorem Freeable.reports_iff (freeable : s.Freeable j) :
    (s.freeInner E (s.largeSlot j).base (some arena) scrub).1 = (true, true) ↔ ¬Denied E s j arena scrub := by
  rw [Denied, not_or, not_or]
  by_cases real : (s.largeSlot j).base = 0
  · simp only [freeInner, real]
    split <;> simp
  by_cases guards : GuardRefused E s j
  · have stuck : ¬(s.beforeReturn E j scrub).1 = true := fun restored => beforeReturn_restored.mp restored guards
    rw [freeInner_eq freeable.found real, if_neg stuck]
    simp [real, guards]
  · cases backed : (s.largeSlot j).backing with
    | none =>
      rw [freeInner_eq freeable.found real, if_pos (beforeReturn_restored.mpr guards)]
      simp only [returnBacking, backed]
      split <;> simp [real, guards]
    | some ext =>
      obtain ⟨live, current⟩ := freeable.current ext backed
      obtain ⟨answer, g, w, freeing, report, -⟩ := freeable.freeInner_extent arena scrub real guards backed
      obtain rfl : _ = answer := congrArg Prod.fst freeing
      rw [report, Prod.mk.injEq, eq_self, true_and, revokes_iff freeable.settled live current]
      simp [real, guards]

/-- A free that reports success reclaimed the memory, but for a region the cache
would not take. -/
theorem Freeable.reclaimed_iff (freeable : s.Freeable j) (granted : ¬Denied E s j arena scrub) :
    Reclaimed E s j arena scrub ↔ TakenBack E s j arena scrub := by
  refine ⟨fun reclaimed => reclaimed.2.1, fun taken => ?_⟩
  have reported := freeable.reports_iff.mpr granted
  simp only [Denied, not_or] at granted
  obtain ⟨real, guards, revoked⟩ := granted
  refine ⟨beforeReturn_restored.mpr guards, taken, fun ext backed => ⟨?_, ?_⟩⟩
  · by_contra refused
    exact revoked ⟨ext, backed, fun region owned ok => refused ⟨region, owned, ok⟩⟩
  · obtain ⟨answer, g, w, freeing, report, rfl⟩ :=
      freeable.freeInner_extent arena scrub real guards backed
    rw [reported] at report
    obtain ⟨-, ⟨err, rfl, -⟩ | ⟨-, -, -, freed⟩⟩ :=
      ExtentManager.freeRevokingCanary_effect freeable.settled freeing
    · cases report
    · exact freed

/-! ## The loop -/

/-- The allocations `free_arena` frees, each with the state it is freed in. -/
def drainTrail (E : Env σ) (arena : Nat) (scrub : Bool) : (fuel : Nat) → Engine σ → List (Engine σ × Nat)
  | 0, _ => []
  | fuel + 1, s =>
    match s.findLarge arena with
    | none => []
    | some j =>
      (s, j) :: drainTrail E arena scrub fuel (s.freeInner E (s.largeSlot j).base (some arena) scrub).2

theorem Stands.findLarge_some (stands : Stands G s live held) (found : s.findLarge arena = some j) :
    j ∈ live ∧ (s.largeSlot j).arena = arena ∧ s.largeAt (s.largeSlot j).base = some j := by
  obtain ⟨free, h, -⟩ := stands
  obtain ⟨owner, mine⟩ : s.pagemap.lookup (s.largeSlot j).base = .large j ∧
      (s.largeSlot j).arena = arena := by
    have chosen := List.find?_some found
    simpa only [Bool.and_eq_true, decide_eq_true_eq] using chosen
  rw [PageMap.lookup_eq] at owner
  exact ⟨((h.pages _ j).mp owner).1, mine, largeAt_eq_some.mpr owner⟩

theorem Stands.findLarge_none (stands : Stands G s live held) (sound : G.Sound E)
    (found : s.findLarge arena = none) (member : j ∈ live) : (s.large.slots j).arena ≠ arena := by
  obtain ⟨free, h, -⟩ := stands
  have there := largeAt_eq_some.mp (h.largeAt sound ⟨member, rfl⟩)
  intro mine
  have passed := List.find?_eq_none.mp found j (List.mem_range.mpr (h.used j member).1)
  apply passed
  simp only [Engine.largeSlot, PageMap.lookup_eq, there, mine, decide_true, Bool.and_self]

/-- The loop frees the allocations of the arena, all of them, and reports whether the
provider refused none. -/
theorem freeArenaLoop_reports (scrub : Bool) (count bytes : Nat) (all : Bool)
    (stands : Stands G s live held) (sound : G.Sound E) {owned : Finset Nat}
    (mine : ∀ j, j ∈ owned ↔ j ∈ live ∧ (s.large.slots j).arena = arena) (enough : owned.card < fuel) :
    ((freeArenaLoop E arena scrub fuel count bytes all s).1.2.2 = true ↔
      all = true ∧ ∀ e ∈ drainTrail E arena scrub fuel s, ¬Denied E e.1 e.2 arena scrub) ∧
    ((∀ e ∈ drainTrail E arena scrub fuel s, ¬Denied E e.1 e.2 arena scrub) →
      (∀ j ∈ owned, ∃ t, (t, j) ∈ drainTrail E arena scrub fuel s) ∧
        ∀ e ∈ drainTrail E arena scrub fuel s, e.1.Freeable e.2) := by
  induction fuel generalizing s live held owned count bytes all with
  | zero => exact absurd enough (Nat.not_lt_zero _)
  | succ fuel ih =>
    simp only [freeArenaLoop]
    cases found : s.findLarge arena with
    | none =>
      simp only [drainTrail, found]
      refine ⟨by simp, fun _ => ⟨fun j here => ?_, by rintro _ ⟨⟩⟩⟩
      obtain ⟨member, ours⟩ := (mine j).mp here
      exact absurd ours (stands.findLarge_none sound found member)
    | some k =>
      obtain ⟨member, ours, there⟩ := stands.findLarge_some found
      obtain ⟨free, h, full⟩ := id stands
      have freeable : s.Freeable k := ⟨h.settled, there, fun ext backed =>
        have seat := (LargeSlot.seated_some backed).mp (h.seated k member)
        ⟨seat.1, seat.2.1⟩⟩
      have reports : _ ↔ ¬Denied E s k arena scrub := freeable.reports_iff
      simp only [drainTrail, found, List.forall_mem_cons]
      rcases freeing : s.freeInner E (s.largeSlot k).base (some arena) scrub with ⟨⟨retired, revoked⟩, s₁⟩
      have outcome := stands.freeInner sound freeing
      rw [freeing, Prod.mk.injEq] at reports
      cases retired with
      | false =>
        have denied : Denied E s k arena scrub := not_not.mp fun granted => by
          cases (reports.mpr granted).1
        exact ⟨by simp [denied], fun granted => absurd denied granted.1⟩
      | true =>
        obtain ⟨real, j, isLarge, dropped, -⟩ := outcome
        obtain rfl : j = k := by
          have same := h.largeAt sound isLarge
          rw [there] at same
          exact (Option.some.inj same).symm
        rw [eq_self, true_and] at reports
        obtain ⟨held₁, stands₁⟩ := dropped.stands
        have left : ∀ i, i ∈ owned.erase j ↔ i ∈ live \ {j} ∧ (s₁.large.slots i).arena = arena := by
          intro i
          rw [Finset.mem_erase, mine]
          constructor
          · rintro ⟨ne, kept, same⟩
            exact ⟨⟨kept, ne⟩, by rw [dropped.slots i kept ne]; exact same⟩
          · rintro ⟨⟨kept, ne⟩, same⟩
            rw [dropped.slots i kept ne] at same
            exact ⟨ne, kept, same⟩
        have fewer : (owned.erase j).card < fuel := by
          have one := Finset.card_erase_lt_of_mem ((mine j).mpr ⟨member, ours⟩)
          omega
        obtain ⟨report, rest⟩ := ih _ _ _ stands₁ left fewer
        refine ⟨by rw [report, Bool.and_eq_true, reports, and_assoc], fun granted => ?_⟩
        obtain ⟨covered, each⟩ := rest granted.2
        refine ⟨fun i here => ?_, freeable, each⟩
        by_cases same : i = j
        · subst same
          exact ⟨s, List.mem_cons_self⟩
        · obtain ⟨t, later⟩ := covered i (Finset.mem_erase.mpr ⟨same, here⟩)
          exact ⟨t, List.mem_cons_of_mem _ later⟩

/-- The live allocations of the arena are freed, and each of them is reclaimed. -/
def Drained (E : Env σ) (s : Engine σ) (arena : Nat) (scrub : Bool) : Prop :=
  (∀ j ∈ s.liveLarge, (s.largeSlot j).arena = arena →
      ∃ t, (t, j) ∈ drainTrail E arena scrub (s.large.highWater + 1) s) ∧
    ∀ e ∈ drainTrail E arena scrub (s.large.highWater + 1) s, Reclaimed E e.1 e.2 arena scrub

/-- What `free_arena` reports and when a successful report is right. -/
theorem LargeState.reports (state : LargeState G E s) (sound : G.Sound E) (arena : Nat) (scrub : Bool) :
    ((s.freeArena E arena scrub).1.2.2 = true ↔
      ∀ e ∈ drainTrail E arena scrub (s.large.highWater + 1) s, ¬Denied E e.1 e.2 arena scrub) ∧
    ((s.freeArena E arena scrub).1.2.2 = true → (s.Drained E arena scrub ↔
      ∀ e ∈ drainTrail E arena scrub (s.large.highWater + 1) s, TakenBack E e.1 e.2 arena scrub)) := by
  obtain ⟨live, held, stands⟩ := state.stands sound
  have mine : ∀ j, j ∈ (Finset.range s.large.highWater).filter
      (fun j => j ∈ s.liveLarge ∧ (s.large.slots j).arena = arena) ↔
      j ∈ live ∧ (s.large.slots j).arena = arena := by
    intro j
    rw [Finset.mem_filter, Finset.mem_range, stands.mem_liveLarge, and_iff_right_iff_imp]
    rintro ⟨member, -⟩
    obtain ⟨free, h, -⟩ := stands
    exact (h.used j member).1
  have few := Finset.card_filter_le (Finset.range s.large.highWater)
    (fun j => j ∈ s.liveLarge ∧ (s.large.slots j).arena = arena)
  rw [Finset.card_range] at few
  obtain ⟨report, rest⟩ := freeArenaLoop_reports scrub 0 0 true stands sound mine (Nat.lt_succ_of_le few)
  rw [eq_self, true_and] at report
  refine ⟨report, fun reported => ⟨fun drained e listed => (drained.2 e listed).2.1, fun taken => ?_⟩⟩
  obtain ⟨covered, each⟩ := rest (report.mp reported)
  refine ⟨fun j member ours => ?_, fun e listed => ?_⟩
  · exact covered j ((mine j).mpr ⟨stands.mem_liveLarge.mp member, ours⟩)
  · exact ((each e listed).reclaimed_iff (report.mp reported e listed)).mpr (taken e listed)

/-! ## What the engine makes of the report -/

/-- A field that no turn of a fold changes. -/
theorem foldl_keeps {α β : Type} (view : Engine σ → β) {f : Engine σ → α → Engine σ}
    (step : ∀ s a, view (f s a) = view s) (l : List α) (s : Engine σ) : view (l.foldl f s) = view s := by
  induction l generalizing s with
  | nil => rfl
  | cons a l ih => rw [List.foldl_cons, ih, step]

section Arenas
variable (E s)

theorem fill_arenas (base len : Nat) : (s.fill E base len).arenas = s.arenas := by
  unfold fill
  split <;> rfl

theorem insertBatch_arenas (i : Nat) (indices : List Nat) (scrubbing : Bool) :
    (s.insertBatch E i indices scrubbing).2.arenas = s.arenas := by
  unfold insertBatch
  dsimp only
  split
  · rw [foldl_keeps Engine.arenas fun s k => fill_arenas E s _ _]
    rfl
  · rfl

theorem noteRevoke_arenas (arena : Nat) (r : Option Region) : (s.noteRevoke E arena r).arenas = s.arenas := by
  obtain ⟨history, noted⟩ := Housed.noteRevoke_eq (s := s) (E := E) arena r
  rw [noted]

theorem reclaimSpanSlot_arenas (i arena : Nat) : (s.reclaimSpanSlot E i arena).2.arenas = s.arenas := by
  unfold reclaimSpanSlot
  dsimp only
  have noted : ∀ (b : Bool) (t : Engine σ) (e : Event), (if b = true then t.note e else t).arenas =
      t.arenas := by
    intro b t e
    split <;> rfl
  rw [noted]
  refine (noteRevoke_arenas E _ _ _).trans ?_
  split
  · split <;> rfl
  · rfl

theorem retireSpan_arenas (i : Nat) : (s.retireSpan E i).arenas = s.arenas := by
  unfold retireSpan
  dsimp only
  rw [reclaimSpanSlot_arenas]
  unfold deactivateSpan
  split <;> rfl

theorem forceRetireSpan_arenas (i : Nat) : (s.forceRetireSpan E i).2.arenas = s.arenas := by
  unfold forceRetireSpan
  dsimp only
  rw [reclaimSpanSlot_arenas]
  unfold deactivateSpanForced
  split <;> rfl

theorem returnBacking_arenas (hook : RegionCacheHook σ) (backing : Option ExtentRef) (region : Region)
    (revoke : Option Nat) (canary : Bool) :
    (s.returnBacking E hook backing region revoke canary).2.arenas = s.arenas := by
  unfold returnBacking
  split
  · exact noteRevoke_arenas E s _ _
  · rfl
  · split <;> rfl
  · rfl

theorem freeInner_arenas (ptr : Nat) (revoke : Option Nat) (scrub : Bool) :
    (s.freeInner E ptr revoke scrub).2.arenas = s.arenas := by
  cases found : s.largeAt ptr with
  | none => simp only [freeInner, found]
  | some j =>
    by_cases wrong : ptr = 0 ∨ ptr ≠ (s.largeSlot j).base
    · simp only [freeInner, found]
      rw [if_pos wrong]
    · simp only [not_or, not_not] at wrong
      obtain ⟨real, rfl⟩ := wrong
      rw [freeInner_eq found real]
      split
      · exact (returnBacking_arenas E _ _ _ _ _ _).trans beforeReturn_frame.2
      · exact beforeReturn_frame.2

theorem drainOne_arenas (e : QuarantineEntry) : (s.drainOne E e).arenas = s.arenas := by
  unfold drainOne
  split
  · have inserted := insertBatch_arenas E s
    dsimp only
    split
    · rw [retireSpan_arenas, inserted]
    · exact inserted _ _ _
  · exact freeInner_arenas E s _ _ _

theorem drainQuarantine_arenas : (s.drainQuarantine E).arenas = s.arenas := by
  have turns : ∀ (take : Quarantine → List QuarantineEntry × Quarantine) (n : Nat) (s : Engine σ),
      (drainBatches E take n s).arenas = s.arenas := by
    intro take n
    induction n with
    | zero => exact fun _ => rfl
    | succ n ih =>
      intro s
      unfold drainBatches
      split
      · rfl
      · rw [ih, foldl_keeps Engine.arenas fun s e => drainOne_arenas E s e]
  unfold drainQuarantine
  split
  · exact turns _ _ s
  · rfl

theorem retireSpans_arenas (arena : Nat) : (s.retireSpans E arena).2.arenas = s.arenas := by
  unfold retireSpans
  generalize List.range s.spans.highWater = slots
  generalize true = all
  induction slots generalizing all s with
  | nil => rfl
  | cons i slots ih =>
    rw [List.foldl_cons, ih]
    unfold retireOwned
    dsimp only
    split
    · exact forceRetireSpan_arenas E s i
    · rfl

theorem freeArenaLoop_arenas (arena : Nat) (scrub : Bool) (fuel count bytes : Nat) (all : Bool) :
    (freeArenaLoop E arena scrub fuel count bytes all s).2.arenas = s.arenas := by
  induction fuel generalizing s count bytes all with
  | zero => rfl
  | succ fuel ih =>
    unfold freeArenaLoop
    split
    · rfl
    have freed := freeInner_arenas E s
    dsimp only
    split
    · rename_i ran
      rw [ih, ← freed, ran]
    · rename_i ran
      rw [← freed, ran]

end Arenas

/-- `drain_arena` up to the large allocations. -/
def beforeFreeArena (E : Env σ) (s : Engine σ) (arena : Nat) : Engine σ :=
  ((s.drainQuarantine E).retireSpans E arena).2

/-- What `free_arena` reports to `drain_arena`. -/
def largeReport (E : Env σ) (s : Engine σ) (arena : Nat) : Bool :=
  let t := s.beforeFreeArena E arena
  (t.freeArena E arena (t.scrubOnRelease E arena)).1.2.2

theorem drainArena_failed (failed : s.largeReport E arena = false) : (s.drainArena E arena).1 = false := by
  simp only [largeReport, beforeFreeArena] at failed
  simp only [drainArena, failed, Bool.and_false]

theorem drainArena_arenas (E : Env σ) (s : Engine σ) (arena : Nat) :
    (s.drainArena E arena).2.arenas = s.arenas := by
  simp only [drainArena, freeArena]
  rw [freeArenaLoop_arenas, retireSpans_arenas, drainQuarantine_arenas]

/-- An arena in one of the two states of a drain is quarantined. -/
theorem quarantineArena_spec {slot : ArenaSlot} (inTable : s.arenas.slot arena = some slot)
    (draining : slot.state = .resetting ∨ slot.state = .draining) :
    (s.quarantineArena arena).1 = .error .illegalTransition ∧
      ((s.quarantineArena arena).2.arenas.slots arena).state = .errorQuarantined := by
  have allowed : slot.state.canTransition .errorQuarantined = true := by
    rcases draining with resetting | draining
    · rw [resetting]
      rfl
    · rw [draining]
      rfl
  have quarantined : s.arenas.quarantine arena =
      (.ok (), s.arenas.set arena { slot with committed := slot.reserved, state := .errorQuarantined }) := by
    simp only [ArenaTable.quarantine, inTable]
    rw [if_neg (by simp [allowed])]
  simp only [quarantineArena, quarantined]
  exact ⟨trivial, by simp [ArenaTable.set]⟩

theorem transition_slot {t : ArenaTable} (began : t.transition arena next = (.ok (), t')) :
    ∃ slot, t'.slot arena = some slot ∧ slot.state = next := by
  unfold ArenaTable.transition at began
  split at began
  · cases began
  rename_i slot found
  split at began
  · cases began
  · cases began
    refine ⟨{ slot with state := next }, ?_, rfl⟩
    unfold ArenaTable.slot at found ⊢
    split at found
    · rename_i inTable
      rw [if_pos inTable]
      simp [ArenaTable.set]
    · cases found

/-- A drain whose large allocations were not all reclaimed ends both calls in the
quarantined state. -/
theorem failed_report_quarantines (E : Env σ) (s : Engine σ) (arena : Nat) {arenas : ArenaTable}
    (failed : largeReport E { s with arenas } arena = false) :
    (s.arenas.beginReset arena = (.ok (), arenas) → (s.arenaReset E arena).1 = .error .illegalTransition ∧
        ((s.arenaReset E arena).2.arenas.slots arena).state = .errorQuarantined) ∧
    (s.arenas.beginDestroy arena = (.ok (), arenas) → (s.arenaDestroy E arena).1 = .error .illegalTransition ∧
        ((s.arenaDestroy E arena).2.arenas.slots arena).state = .errorQuarantined) := by
  have drained := drainArena_failed failed
  have kept := drainArena_arenas E { s with arenas } arena
  rcases ran : drainArena E { s with arenas } arena with ⟨flag, t⟩
  rw [ran] at drained kept
  obtain rfl : flag = false := drained
  constructor
  · intro began
    simp only [arenaReset, began, ran]
    unfold ArenaTable.beginReset at began
    split at began
    · cases began
    obtain ⟨slot, there, resetting⟩ := transition_slot began
    exact quarantineArena_spec (kept ▸ there) (.inl resetting)
  · intro began
    simp only [arenaDestroy, began, ran]
    unfold ArenaTable.beginDestroy at began
    iterate 3
      split at began
      · cases began
    obtain ⟨slot, there, draining⟩ := transition_slot began
    exact quarantineArena_spec (kept ▸ there) (.inr draining)

/-- `free_arena` reports a full drain only of an arena whose large allocations were all
reclaimed, exactly if the region cache took back every region of it or the provider
refused another free of the drain; and without a successful report the engine quarantines
the arena. -/
theorem full_drain_reported (state : LargeState G E s) (sound : G.Sound E) (arena : Nat) (scrub : Bool) :
    (((s.freeArena E arena scrub).1.2.2 = true → s.Drained E arena scrub) ↔
      (∀ e ∈ drainTrail E arena scrub (s.large.highWater + 1) s, TakenBack E e.1 e.2 arena scrub) ∨
        ∃ e ∈ drainTrail E arena scrub (s.large.highWater + 1) s, Denied E e.1 e.2 arena scrub) ∧
    ∀ (t : Engine σ) (arenas : ArenaTable), largeReport E { t with arenas } arena = false →
      (t.arenas.beginReset arena = (.ok (), arenas) → (t.arenaReset E arena).1 = .error .illegalTransition ∧
          ((t.arenaReset E arena).2.arenas.slots arena).state = .errorQuarantined) ∧
      (t.arenas.beginDestroy arena = (.ok (), arenas) →
        (t.arenaDestroy E arena).1 = .error .illegalTransition ∧
          ((t.arenaDestroy E arena).2.arenas.slots arena).state = .errorQuarantined) := by
  obtain ⟨report, drained⟩ := state.reports sound arena scrub
  refine ⟨⟨fun right => ?_, ?_⟩, fun t arenas failed => failed_report_quarantines E t arena failed⟩
  · by_cases reported : (s.freeArena E arena scrub).1.2.2 = true
    · exact .inl ((drained reported).mp (right reported))
    · rw [report] at reported
      push Not at reported
      exact .inr reported
  · rintro (taken | ⟨e, listed, denied⟩) reported
    · exact (drained reported).mpr taken
    · exact absurd denied (report.mp reported e listed)

/-- An allocation that a hugepage backend served is drained, and taken back by it. -/
theorem full_drain_reported_backed :
    ∃ g b s, ExtentManager.fourPages = some g ∧
      HugePageBackend.new ⟨96, 16, true, true⟩ ⟨hugepageSize, 2 * hugepageSize⟩ 0 2 1 = some b ∧
      s = (fresh (b, ()) g).largeStep Env.willing.backed (.allocate 0 (3 * pageSize) pageSize {} false) ∧
      s.liveLarge = [0] ∧ (s.largeSlot 0).backing = none ∧ s.Drained Env.willing.backed 0 false := by
  have made := Option.some_get (x := ExtentManager.fourPages) (by decide +kernel)
  have built := Option.some_get (x := HugePageBackend.new ⟨96, 16, true, true⟩
    ⟨hugepageSize, 2 * hugepageSize⟩ 0 2 1) (by decide +kernel)
  refine ⟨_, _, _, made.symm, built.symm, rfl, by decide +kernel, by decide +kernel, ?_⟩
  have sound := Grounds.backed_sound (σ := Unit) .willing ⟨pageSize, 4 * pageSize⟩
    ⟨hugepageSize, 2 * hugepageSize⟩ fun p inside outside => by
      simp only [Region.HasPage, hugepageSize, pageSize] at inside outside
      omega
  have opened : Opened (.backed ⟨pageSize, 4 * pageSize⟩ ⟨hugepageSize, 2 * hugepageSize⟩)
      (fresh (_, ()) _) :=
    fresh_opened made.symm rfl (HugePageBackend.leased_new built.symm ⟨Nat.le_refl _, by decide⟩)
  have state := LargeState.call (.opened opened) (.allocate 0 (3 * pageSize) pageSize {} false)
    (E := Env.willing.backed)
  refine (full_drain_reported state sound 0 false).1.mpr (.inl fun e listed => ?_) (by decide +kernel)
  generalize same : (fresh _ _).largeStep _ _ = s at *
  have found : s.findLarge 0 = some 0 := by rw [← same]; decide +kernel
  have done : (s.freeInner Env.willing.backed (s.largeSlot 0).base (some 0) false).2.findLarge 0 = none := by
    rw [← same]
    decide +kernel
  have turns : s.large.highWater = 1 := by rw [← same]; decide +kernel
  rw [turns] at listed
  simp only [drainTrail, found, done, List.mem_singleton] at listed
  subst listed
  intro _
  rw [← same]
  decide +kernel

/-- The region of a cache that has one. -/
def lentRegion : Region := ⟨64 * pageSize, 3 * pageSize⟩

/-- No revocation is granted. The region cache lends its one region, and does not
take it back because of that. The state says whether the region is lent. -/
def lending : Env Bool where
  __ := Env.willing
  provider := { Provider.willing with revokeDescendants := fun w _ _ => (.error .unsupported, w) }
  hook := { noRegionCache Bool with
    tryAlloc := fun w bytes align _ =>
      if w = false ∧ bytes = lentRegion.len ∧ align ∣ lentRegion.base then (some lentRegion, true)
      else (none, w) }

/-- A new engine over the extents and that cache, with a second arena. -/
def lendingEngine (g : ExtentManager) : Engine Bool := ((fresh false g).arenaCreate .free).2

/-- The cache refuses the region of a destroyed arena, and the arena is marked
destroyed all the same. -/
theorem refused_region_reported_drained :
    ∃ g s, ExtentManager.fourPages = some g ∧ s = ((lendingEngine g).allocateIn lending 1 40000 16 .none).2 ∧
      s.liveLarge = [0] ∧ (s.largeSlot 0).arena = 1 ∧
      (s.freeArena lending 1 false).1 = (1, 3 * pageSize, true) ∧ ¬s.Drained lending 1 false ∧
      (s.arenaDestroy lending 1).1 = .ok 2 ∧
      ((s.arenaDestroy lending 1).2.arenas.slots 1).state = .destroyed := by
  refine ⟨ExtentManager.fourPages.get (by decide +kernel), _, (Option.some_get _).symm, rfl,
    by decide +kernel, by decide +kernel, by decide +kernel, fun drained => ?_, by decide +kernel,
    by decide +kernel⟩
  set s := ((lendingEngine (ExtentManager.fourPages.get (by decide +kernel))).allocateIn lending 1
    40000 16 .none).2
  have found : s.findLarge 1 = some 0 := by decide +kernel
  have listed : (s, 0) ∈ drainTrail lending 1 false (s.large.highWater + 1) s := by
    simp only [drainTrail, found]
    exact List.mem_cons_self
  have taken := (drained.2 _ listed).2.1 (by decide +kernel)
  cases taken

end Engine
end Topomalloc
