import Topomalloc.Lib.Turns
import Topomalloc.Race.Steps

/-! Who has an object at each moment of an interleaving. Every object is in one
place at one stage of its life, besides at most one call that has marked it by
mistake and is about to find out. The stage fixes the three bits, so a thread
that reads them learns what it needs to. -/
namespace Topomalloc.Race

/-- The stages of an object's life. -/
inductive Stage where
  | central
  | user
  -- cached: on a slot, in a bin, or on its way between the two and central
  | front
  -- removed from central by a refill that has not marked it yet
  | raw
  -- in the ring, or evicted from it and not yet inserted
  | quarantined
  -- a free has marked it and has to check the free and the quarantined bits
  | doubtFree
  | doubtQuarantined
  -- a free owns it, alone or with the quarantine's mark as well
  | claimed
  | held
  -- a free of an object the front end does not cache owns it by the
  -- quarantine's mark alone
  | marked
  -- its free bit is set and the listed bits are still to be cleared
  | storing (cached quarantined : Bool)
  -- a mark that is about to be withdrawn; a mark the ring has taken over
  | quit
  | handing
  deriving Repr, DecidableEq

namespace Stage

@[simp] def free : Stage → Bool
  | .central | .storing _ _ => true
  | _ => false

@[simp] def isCached : Stage → Bool
  | .front | .doubtFree | .doubtQuarantined | .claimed | .held => true
  | .storing c _ => c
  | _ => false

@[simp] def isQuarantined : Stage → Bool
  | .quarantined | .held | .marked => true
  | .storing _ q => q
  | _ => false

/-- Stages only objects of the front end reach. -/
@[simp] def frontEnd : Stage → Bool
  | .front | .raw | .doubtFree | .doubtQuarantined | .claimed | .held => true
  | .storing c _ => c
  | _ => false

/-- It was handed out and the free that takes it back is not through. -/
@[simp] def outstanding : Stage → Bool
  | .user | .doubtFree | .doubtQuarantined | .claimed | .held | .marked => true
  | _ => false

end Stage

inductive Place where
  | nowhere
  | shelf (q : Shelf)
  | hand (t : Nat)
  deriving Repr, DecidableEq

/-- A second mark on an object: which thread set it, and where that call is. -/
abbrev Shadow := Option (Nat × Stage)

@[simp] def Shadow.handing : Shadow → Bool
  | some (_, .handing) => true
  | _ => false

/-- The stages an object can be at in each place. -/
@[simp] def Fits : Place → Stage → Prop
  | .nowhere, s => s = .central ∨ s = .user
  | .shelf .ring, s => s = .quarantined
  | .shelf _, s => s = .front
  | .hand _, s => s ≠ .central ∧ s ≠ .user ∧ s ≠ .quit ∧ s ≠ .handing

/-- A mark set by mistake stands on an object that is central-free or in the
quarantine; once its call has read the free bit, in the quarantine. -/
@[simp] def Shades (s : Stage) : Shadow → Prop
  | none => True
  | some (_, .doubtFree) | some (_, .quit) => s = .central ∨ s = .quarantined
  | some (_, .doubtQuarantined) | some (_, .handing) => s = .quarantined
  | some _ => False

/-- The objects of a list, all at one stage, counted. -/
def many (l : List Nat) (s : Stage) (o : Nat) (r : Stage) : Nat := if s = r then l.count o else 0

def retried (retry : Option (Nat × Nat)) : List Nat := retry.toList.map Prod.fst

/-- The bits an insert finds set on `x` besides the free bit. -/
def After.keepsCached (cfg : Config) (x : Nat) : After → Bool
  | .own => cfg.cacheable x
  | .carried _ _ => true
  | .drained _ => false

def After.keepsMark (cfg : Config) (x : Nat) : After → Bool
  | .own => cfg.quarantine && !cfg.cacheable x
  | .carried _ _ => false
  | .drained _ => true

/-- What an insert still has to clear for `x`. -/
def After.stage (cfg : Config) (x : Nat) (quarantineCleared : Bool) (after : After) : Stage :=
  .storing (after.keepsCached cfg x) (!quarantineCleared && after.keepsMark cfg x)

def After.plays (o : Nat) (r : Stage) : After → Nat
  | .own => 0
  | .carried rest retry => many rest .front o r + many (retried retry) .claimed o r
  | .drained rest => many rest .quarantined o r

/-- How often a thread at this position has the object at the stage. -/
def Pc.plays (cfg : Config) (o : Nat) (r : Stage) : Pc → Nat
  | .popped x => many [x] .front o r
  | .marking _ todo marked => many todo .raw o r + many marked .front o r
  | .toSlot _ batch => many batch .front o r
  | .toTransfer batch retry | .toCentral batch retry =>
    many batch .front o r + many (retried retry) .claimed o r
  | .inserting x cleared after => many [x] (after.stage cfg x cleared) o r + after.plays o r
  | .revalidateFree x _ => many [x] .doubtFree o r
  | .revalidateQuarantined x _ => many [x] .doubtQuarantined o r
  | .unmarkAndReject x => many [x] .quit o r
  | .quarantineLoad x _ | .quarantineFree x _ | .markQuarantined x _ =>
    if cfg.cacheable x then many [x] .claimed o r else 0
  | .quarantineSwitch x _ | .push x | .retryPush x _ => many [x] .claimed o r
  | .offer x _ => many [x] (if cfg.cacheable x then .held else .marked) o r
  | .releaseClaim x _ => many [x] .held o r
  | .handOver x evicted => many [x] .handing o r + many evicted .quarantined o r
  | .drain entries => many entries .quarantined o r
  | .insertOwn x =>
    if cfg.cacheable x then many [x] .claimed o r
    else if cfg.quarantine then many [x] .marked o r else 0
  | .idle | .screenCached _ _ | .screenCentralFree _ _ | .tryMarkCached _ _
  | .quarantineCached _ _ | .insertFailed _ | .releaseFailed _ => 0

/-- What a position says about the build and its object. -/
def Pc.Ok (cfg : Config) : Pc → Prop
  | .tryMarkCached x _ => cfg.cacheable x = true
  | .quarantineSwitch _ _ | .quarantineFree _ _ | .markQuarantined _ _ => cfg.quarantine = true
  | .quarantineCached x _ => cfg.quarantine = true ∧ cfg.cacheable x = false
  | .insertFailed x => cfg.quarantine = false ∧ cfg.cacheable x = false
  | .releaseFailed _ => False
  | _ => True

/-- A place, a stage and a shadow that go together. -/
structure Sane (cfg : Config) (o : Nat) (p : Place) (s : Stage) (d : Shadow) : Prop where
  fits : Fits p s
  shades : Shades s d
  frontEnd : s.frontEnd = true ∨ d.isSome = true → cfg.cacheable o = true
  plain : s = .marked → cfg.cacheable o = false
  engaged : s.isQuarantined = true → cfg.quarantine = true

/-- Whether the object is handed out after the log. -/
abbrev pending (o : Nat) : List Event → Option Bool := Turns.pending (isHandOut o) (isFreed o)

/-- The world shows the object in this place, at this stage, with this shadow. -/
structure At (cfg : Config) (w : World) (o : Nat) (p : Place) (s : Stage) (d : Shadow) : Prop where
  sane : Sane cfg o p s d
  shelves : ∀ q, (w.shelves q).count o = if p = .shelf q then 1 else 0
  plays : ∀ t r, (w.pc t).plays cfg o r =
    (if p = .hand t ∧ s = r then 1 else 0) + (if d = some (t, r) then 1 else 0)
  free : w.centralFree o = s.free
  cached : w.cached o = (s.isCached || d.isSome)
  quarantined : w.quarantined o = s.isQuarantined
  log : pending o w.log = some (s.outstanding || d.handing)

/-- An insert holds the lock of its object's span. -/
def Locked (cfg : Config) (w : World) : Prop :=
  ∀ t o cleared after, w.pc t = .inserting o cleared after → w.spanLock (cfg.spanOf o) = some t

/-- The invariant of an interleaving. -/
structure Inv (cfg : Config) (w : World) : Prop where
  placed : ∀ o, ∃ p s d, At cfg w o p s d
  locked : Locked cfg w
  ok : ∀ t, (w.pc t).Ok cfg

variable {cfg : Config} {w w' : World} {t o x : Nat} {p p' : Place} {s s' r : Stage} {d d' : Shadow}
  {pc pc' : Pc} {q : Shelf}

theorem many_nil : many [] s o r = 0 := by
  simp [many]

theorem Sane.alone (h : Sane cfg o p s d) (notCentral : s ≠ .central)
    (notQuarantined : s ≠ .quarantined) : d = none := by
  have shades := h.shades
  match d, shades with
  | none, _ => rfl
  | some (_, r), shades => cases r <;> simp_all [Shades]

theorem At.has (h : At cfg w o (.hand t) s d) : (w.pc t).plays cfg o s ≠ 0 := by
  simp [h.plays]

/-- The object a thread has at an ordinary stage is in its hand. -/
theorem At.holder (h : At cfg w o p s d) (has : (w.pc t).plays cfg o r ≠ 0)
    (ordinary : ∀ s u, ¬ Shades s (some (u, r))) : p = .hand t ∧ s = r := by
  have count := h.plays t r
  have unmarked : d ≠ some (t, r) := by
    rintro rfl
    exact ordinary s t h.sane.shades
  rw [if_neg unmarked] at count
  by_contra elsewhere
  rw [if_neg elsewhere] at count
  exact has count

/-- What a step of `t` leaves alone keeps its place. -/
theorem At.same (h : At cfg w o p s d) (goes : w'.pc = Function.update w.pc t pc')
    (plays : ∀ r, pc'.plays cfg o r = (w.pc t).plays cfg o r)
    (shelves : ∀ q, (w'.shelves q).count o = (w.shelves q).count o)
    (free : w'.centralFree o = w.centralFree o) (cached : w'.cached o = w.cached o)
    (quarantined : w'.quarantined o = w.quarantined o) (log : pending o w'.log = pending o w.log) :
    At cfg w' o p s d where
  sane := h.sane
  shelves := fun q => (shelves q).trans (h.shelves q)
  plays := fun u r => by
    rw [goes]
    by_cases same : u = t
    · subst same
      rw [Function.update_self, plays, h.plays]
    · rw [Function.update_of_ne same, h.plays]
  free := free.trans h.free
  cached := cached.trans h.cached
  quarantined := quarantined.trans h.quarantined
  log := log.trans h.log

/-- The place is not in another thread's hand. -/
def Place.Mine (t : Nat) (p : Place) : Prop := ∀ u, p = .hand u → u = t

def Shadow.Mine (t : Nat) (d : Shadow) : Prop := ∀ u r, d = some (u, r) → u = t

/-- A step of `t` that moves the object: what the other threads have of it
stays, so only the new place has to be shown. -/
theorem At.change (h : At cfg w o p s d) (goes : w'.pc = Function.update w.pc t pc')
    (moved : (p' = p ∧ s' = s) ∨ (p.Mine t ∧ p'.Mine t)) (marked : d' = d ∨ (d.Mine t ∧ d'.Mine t))
    (sane : Sane cfg o p' s' d') (plays : ∀ r, pc'.plays cfg o r =
      (if p' = .hand t ∧ s' = r then 1 else 0) + (if d' = some (t, r) then 1 else 0))
    (shelves : ∀ q, (w'.shelves q).count o = if p' = .shelf q then 1 else 0)
    (free : w'.centralFree o = s'.free) (cached : w'.cached o = (s'.isCached || d'.isSome))
    (quarantined : w'.quarantined o = s'.isQuarantined)
    (log : pending o w'.log = some (s'.outstanding || d'.handing)) : At cfg w' o p' s' d' where
  sane := sane
  shelves := shelves
  plays := fun u r => by
    rw [goes]
    by_cases same : u = t
    · subst same
      rw [Function.update_self, plays]
    · rw [Function.update_of_ne same, h.plays]
      have place : (p = .hand u ∧ s = r) = (p' = .hand u ∧ s' = r) := by
        rcases moved with ⟨rfl, rfl⟩ | ⟨before, after⟩
        · rfl
        · exact propext ⟨fun here => absurd (before u here.1) same,
            fun here => absurd (after u here.1) same⟩
      have shadow : (d = some (u, r)) = (d' = some (u, r)) := by
        rcases marked with rfl | ⟨before, after⟩
        · rfl
        · exact propext ⟨fun here => absurd (before u r here) same,
            fun here => absurd (after u r here) same⟩
      simp only [place, shadow]
  free := free
  cached := cached
  quarantined := quarantined
  log := log

/-- Locks stay with their inserts as long as a step of `t` frees only its own. -/
theorem Locked.goes (h : Locked cfg w) (goes : w'.pc = Function.update w.pc t pc')
    (mine : ∀ x cleared after, pc' = .inserting x cleared after → w'.spanLock (cfg.spanOf x) = some t)
    (others : ∀ u ≠ t, ∀ span, w.spanLock span = some u → w'.spanLock span = some u) : Locked cfg w' := by
  intro u x cleared after here
  rw [goes] at here
  by_cases same : u = t
  · subst same
    rw [Function.update_self] at here
    exact mine x cleared after here
  · rw [Function.update_of_ne same] at here
    exact others u same _ (h u x cleared after here)

theorem ok_update (h : ∀ u, (w.pc u).Ok cfg) (goes : w'.pc = Function.update w.pc t pc')
    (ok : pc'.Ok cfg) (u : Nat) : (w'.pc u).Ok cfg := by
  rw [goes]
  by_cases same : u = t
  · subst same
    rwa [Function.update_self]
  · rw [Function.update_of_ne same]
    exact h u

/-- The position holds no span lock. -/
def Pc.Unlocked (pc : Pc) : Prop := ∀ x cleared after, pc ≠ .inserting x cleared after

/-- A step that takes and releases no lock. -/
theorem Inv.unlocked (h : Inv cfg w) (goes : w'.pc = Function.update w.pc t pc')
    (locks : w'.spanLock = w.spanLock) (unlocked : pc'.Unlocked) : Locked cfg w' :=
  h.locked.goes goes (fun x c a here => absurd here (unlocked x c a)) (fun _ _ _ held => locks ▸ held)

/-- A step that only moves the thread to a position with the same objects. -/
theorem Inv.goto (h : Inv cfg w) (enters : (∀ o r, pc'.plays cfg o r = (w.pc t).plays cfg o r) ∧
    pc'.Ok cfg ∧ pc'.Unlocked) : Inv cfg (w.goto t pc') where
  placed := fun o => by
    obtain ⟨p, s, d, here⟩ := h.placed o
    exact ⟨p, s, d, here.same rfl (enters.1 o) (fun _ => rfl) rfl rfl rfl rfl⟩
  locked := h.unlocked rfl rfl enters.2.2
  ok := ok_update h.ok rfl enters.2.1

/-- A shelf fixes the stage of what stands on it. -/
theorem Fits.stage_eq (h : Fits (.shelf q) s) (h' : Fits (.shelf q) s') : s = s' := by
  cases q <;> exact h.trans h'.symm

theorem Fits.hand_of_shelf (h : Fits (.shelf q) s) : Fits (.hand t) s := by
  cases q <;> obtain rfl := h <;> simp [Fits]

/-- A step of `t` takes a batch off a shelf; the object may be in it. -/
theorem At.grab (here : At cfg w o p s' d) (batch : List Nat) (fits : Fits (.shelf q) s)
    (goes : w'.pc = Function.update w.pc t pc') (split : ∀ q', (w.shelves q').count o =
      (w'.shelves q').count o + if q' = q then batch.count o else 0)
    (plays : ∀ r, pc'.plays cfg o r = (w.pc t).plays cfg o r + many batch s o r)
    (free : w'.centralFree o = w.centralFree o) (cached : w'.cached o = w.cached o)
    (quarantined : w'.quarantined o = w.quarantined o) (log : pending o w'.log = pending o w.log) :
    ∃ p s d, At cfg w' o p s d := by
  have counted := (split q).symm.trans (here.shelves q)
  rw [if_pos rfl] at counted
  by_cases taken : batch.count o = 0
  · refine ⟨p, s', d, here.same goes (fun r => by simp [plays, many, taken]) (fun q' => ?_) free
      cached quarantined log⟩
    simp [split, taken]
  · -- one copy stood on the shelf, so that is where the object was
    have on : p = .shelf q := by
      by_contra off
      rw [if_neg off] at counted
      omega
    subst on
    obtain rfl := here.sane.fits.stage_eq fits
    have one : batch.count o = 1 := by
      rw [if_pos rfl] at counted
      omega
    refine ⟨.hand t, s', d, here.change goes (.inr ⟨?_, ?_⟩) (.inl rfl)
      { here.sane with fits := fits.hand_of_shelf } ?_ ?_ (free.trans here.free)
      (cached.trans here.cached) (quarantined.trans here.quarantined) (log.trans here.log)⟩
    · simp [Place.Mine]
    · simp [Place.Mine]
    · intro r
      rw [plays, here.plays, many, one]
      simp [Nat.add_comm]
    · intro q'
      have before := (split q').symm.trans (here.shelves q')
      by_cases same : q' = q
      · subst same
        simp only [if_true, one] at before
        simp
        omega
      · simpa [same, Ne.symm same] using before

theorem Inv.grab (h : Inv cfg w) (batch : List Nat)
    (fits : Fits (.shelf q) s) (split : ∀ o, (w.shelves q).count o = rest.count o + batch.count o)
    (plays : ∀ o r, pc'.plays cfg o r = (w.pc t).plays cfg o r + many batch s o r)
    (enters : pc'.Ok cfg ∧ pc'.Unlocked) : Inv cfg ((w.setShelf q rest).goto t pc') where
  placed := fun o => by
    obtain ⟨p, s', d, here⟩ := h.placed o
    refine here.grab (q := q) batch fits rfl (fun q' => ?_) (plays o) rfl rfl rfl rfl
    by_cases same : q' = q
    · subst same
      simp [split]
    · simp [same]
  locked := h.unlocked rfl rfl enters.2
  ok := ok_update h.ok rfl enters.1

/-- A step that puts a batch from the thread's hand on a shelf. -/
theorem Inv.put (h : Inv cfg w) (batch : List Nat)
    (fits : Fits (.shelf q) s) (join : ∀ o, l.count o = (w.shelves q).count o + batch.count o)
    (plays : ∀ o r, (w.pc t).plays cfg o r = pc'.plays cfg o r + many batch s o r)
    (enters : pc'.Ok cfg ∧ pc'.Unlocked) : Inv cfg ((w.setShelf q l).goto t pc') where
  placed := fun o => by
    obtain ⟨p, s', d, here⟩ := h.placed o
    by_cases given : batch.count o = 0
    · refine ⟨p, s', d, here.same rfl (fun r => by simp [plays, many, given]) ?_ rfl rfl rfl rfl⟩
      intro q'
      by_cases same : q' = q
      · subst same
        simp [World.goto, World.setShelf, join, given]
      · simp [World.goto, World.setShelf, same]
    · have ordinary : ∀ s' u, ¬ Shades s' (some (u, s)) := by
        cases q <;> obtain rfl := fits <;> simp [Shades]
      have has : (w.pc t).plays cfg o s ≠ 0 := by
        rw [plays, many, if_pos rfl]
        omega
      obtain ⟨rfl, rfl⟩ := here.holder has ordinary
      have unshaded : d ≠ some (t, s') := by
        rintro rfl
        exact ordinary _ _ here.sane.shades
      have one : batch.count o = 1 := by
        have counted := here.plays t s'
        rw [plays, many] at counted
        simp only [and_self, if_true, unshaded, if_false] at counted
        omega
      refine ⟨.shelf q, s', d, here.change rfl (.inr ⟨?_, ?_⟩) (.inl rfl)
        { here.sane with fits := fits } ?_ ?_ here.free here.cached here.quarantined here.log⟩
      · simp [Place.Mine]
      · simp [Place.Mine]
      · intro r
        have counted := here.plays t r
        rw [plays, many, one] at counted
        simp only [true_and, reduceCtorEq, false_and, if_false, Nat.zero_add] at counted ⊢
        omega
      · intro q'
        have empty := here.shelves q'
        by_cases same : q' = q
        · subst same
          simp_all [World.goto, World.setShelf]
        · simpa [World.goto, World.setShelf, same, Ne.symm same] using empty
  locked := h.unlocked rfl rfl enters.2
  ok := ok_update h.ok rfl enters.1

/-- Two worlds that differ, threads and locks apart, in one object only. -/
structure Off (x : Nat) (w w' : World) : Prop where
  shelves : ∀ o ≠ x, ∀ q, (w'.shelves q).count o = (w.shelves q).count o
  free : ∀ o ≠ x, w'.centralFree o = w.centralFree o
  cached : ∀ o ≠ x, w'.cached o = w.cached o
  quarantined : ∀ o ≠ x, w'.quarantined o = w.quarantined o
  log : ∀ o ≠ x, pending o w'.log = pending o w.log

namespace Off

variable {b : Bool}

theorem rfl' : Off x w w := ⟨fun _ _ _ => rfl, fun _ _ => rfl, fun _ _ => rfl, fun _ _ => rfl, fun _ _ => rfl⟩

section
variable (h : Off x w w')
include h

theorem goto : Off x w (w'.goto t pc) := ⟨h.1, h.2, h.3, h.4, h.5⟩

theorem setLock : Off x w (w'.setLock span owner) := ⟨h.1, h.2, h.3, h.4, h.5⟩

theorem setFree : Off x w (w'.setFree x b) :=
  { h with free := fun o ne => by simpa [World.setFree, ne] using h.free o ne }

theorem setCached : Off x w (w'.setCached x b) :=
  { h with cached := fun o ne => by simpa [World.setCached, ne] using h.cached o ne }

theorem setQuarantined : Off x w (w'.setQuarantined x b) :=
  { h with
    quarantined := fun o ne => by
      simpa [World.setQuarantined, ne] using h.quarantined o ne }

theorem logged (off : ∀ o ≠ x, pending o l = pending o w.log) :
    Off x w { w' with log := l } := { h with log := off }

theorem emit (about : e = .handOut x ∨ e = .freed x) : Off x w (w'.emit e) :=
  { h with
    log := fun o ne => by
      rw [← h.log o ne]
      apply Turns.pending_other <;> rcases about with rfl | rfl <;>
        simp [isHandOut, isFreed, Ne.symm ne] }

theorem append : Off x w (w'.setShelf q (w'.shelves q ++ [x])) :=
  { h with
    shelves := fun o ne q' => by
      rw [← h.shelves o ne]
      by_cases same : q' = q
      · subst same
        simp [World.setShelf, Ne.symm ne]
      · simp [World.setShelf, same] }

end

end Off

/-- A step that is about one object. -/
theorem Inv.touch (h : Inv cfg w) (goes : w'.pc = Function.update w.pc t pc') (off : Off x w w')
    (plays : ∀ o ≠ x, ∀ r, pc'.plays cfg o r = (w.pc t).plays cfg o r)
    (here : ∃ p s d, At cfg w' x p s d) (locked : Locked cfg w') (ok : pc'.Ok cfg) : Inv cfg w' where
  placed := fun o => by
    by_cases same : o = x
    · exact same ▸ here
    · obtain ⟨p, s, d, there⟩ := h.placed o
      exact ⟨p, s, d, there.same goes (plays o same) (off.shelves o same) (off.free o same)
        (off.cached o same) (off.quarantined o same) (off.log o same)⟩
  locked := locked
  ok := ok_update h.ok goes ok

/-- What a thread has at an ordinary stage is in its hand, and no one else has
marked it. -/
theorem Inv.inHand (h : Inv cfg w) (has : (w.pc t).plays cfg x s ≠ 0 ∧
    (∀ r u, ¬ Shades r (some (u, s))) ∧ s ≠ .quarantined) : At cfg w x (.hand t) s none := by
  obtain ⟨p, s', d, here⟩ := h.placed x
  obtain ⟨rfl, rfl⟩ := here.holder has.1 has.2.1
  obtain rfl := here.sane.alone here.sane.fits.1 has.2.2
  exact here

/-- The object is with the thread or with no one. -/
def Place.Near (t : Nat) (p : Place) : Prop := p = .nowhere ∨ p = .hand t

/-- The thread moves an object it has, or takes it from central or the user:
`K` is what else it carries. What the step leaves of the bits, the shelves and
the locks is as a rule plain from the step. -/
theorem Inv.restage (h : Inv cfg w) (here : At cfg w x p s none) (near : p.Near t) (p' : Place)
    (s' : Stage) (K : Nat → Stage → Nat)
    (was : ∀ o r, (w.pc t).plays cfg o r = many (if p = .hand t then [x] else []) s o r + K o r)
    (goes : w'.pc = Function.update w.pc t pc')
    (now : ∀ o r, pc'.plays cfg o r = many (if p' = .hand t then [x] else []) s' o r + K o r)
    (sane : Sane cfg x p' s' none) (off : Off x w w')
    (log : pending x w.log = some s.outstanding → pending x w'.log = some s'.outstanding)
    (leaves : p'.Mine t ∧ (w.centralFree x = s.free → w'.centralFree x = s'.free) ∧
      (w.cached x = s.isCached → w'.cached x = s'.isCached) ∧
      (w.quarantined x = s.isQuarantined → w'.quarantined x = s'.isQuarantined) ∧
      (∀ q, (w'.shelves q).count x = (w.shelves q).count x + if p' = .shelf q then 1 else 0) ∧
      (w'.spanLock = w.spanLock ∧ pc'.Unlocked ∨ Locked cfg w') ∧ pc'.Ok cfg) : Inv cfg w' := by
  obtain ⟨mine, free, cached, quarantined, shelves, locked, ok⟩ := leaves
  have nothing : ∀ r, K x r = 0 := by
    intro r
    have counted := here.plays t r
    rw [was] at counted
    by_cases hand : p = .hand t <;> simpa [many, hand] using counted
  refine h.touch goes off ?_ ⟨p', s', none, here.change goes (.inr ⟨?_, mine⟩) (.inl rfl) sane ?_
    ?_ (free here.free) ?_ (quarantined here.quarantined) ?_⟩
    (locked.elim (fun calm => h.unlocked goes calm.1 calm.2) id) ok
  · intro o ne r
    rw [was, now]
    by_cases hand : p = .hand t <;> by_cases hand' : p' = .hand t <;>
      simp [many, hand, hand', Ne.symm ne]
  · rcases near with rfl | rfl <;> simp [Place.Mine]
  · intro r
    rw [now, nothing]
    by_cases hand : p' = .hand t <;> simp [many, hand]
  · intro q
    rw [shelves, here.shelves]
    rcases near with rfl | rfl <;> simp
  · simpa using cached (by simpa using here.cached)
  · simpa using log (by simpa using here.log)

/-- The mark of a thread on an object that is not in its custody. -/
def shade (t : Nat) (a : Option Stage) : Shadow := a.map (t, ·)

/-- A thread sets, moves on or withdraws such a mark. -/
theorem Inv.reshade (h : Inv cfg w) (here : At cfg w x p s (shade t a)) (a' : Option Stage)
    (K : Nat → Stage → Nat) (was : ∀ o r, (w.pc t).plays cfg o r = a.elim 0 (many [x] · o r) + K o r)
    (goes : w'.pc = Function.update w.pc t pc')
    (now : ∀ o r, pc'.plays cfg o r = a'.elim 0 (many [x] · o r) + K o r)
    (sane : Sane cfg x p s (shade t a')) (off : Off x w w') (log : pending x w.log =
        some (s.outstanding || (shade t a).handing) →
      pending x w'.log = some (s.outstanding || (shade t a').handing))
    (leaves : (w.cached x = (s.isCached || a.isSome) → w'.cached x = (s.isCached || a'.isSome)) ∧
      (∀ q, (w'.shelves q).count x = (w.shelves q).count x) ∧
      w'.centralFree x = w.centralFree x ∧ w'.quarantined x = w.quarantined x ∧
      w'.spanLock = w.spanLock ∧ pc'.Unlocked ∧ pc'.Ok cfg) : Inv cfg w' := by
  obtain ⟨cached, shelves, free, quarantined, locks, unlocked, ok⟩ := leaves
  refine h.touch goes off ?_ ⟨p, s, shade t a', here.change goes (.inl ⟨rfl, rfl⟩) (.inr ⟨?_, ?_⟩)
    sane ?_ ?_ (free.trans here.free) ?_ (quarantined.trans here.quarantined) (log here.log)⟩
    (h.unlocked goes locks unlocked) ok
  · intro o ne r
    rw [was, now]
    cases a <;> cases a' <;> simp [many, Ne.symm ne]
  · cases a <;> simp [Shadow.Mine, shade]
  · cases a' <;> simp [Shadow.Mine, shade]
  · intro r
    have counted := here.plays t r
    rw [was] at counted
    rw [now]
    have others : K x r = if p = .hand t ∧ s = r then 1 else 0 := by
      cases a <;> simp [shade, many] at counted <;> omega
    rw [others]
    cases a' <;> simp [shade, many, Nat.add_comm]
  · exact fun q => (shelves q).trans (here.shelves q)
  · simpa [shade] using cached (by simpa [shade] using here.cached)

end Topomalloc.Race
