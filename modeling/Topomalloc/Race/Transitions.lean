import Mathlib.Data.List.Nodup
import Topomalloc.Race.Custody

/-! What each atomic step does to the custody of its object: one lemma for each
position of `refill`, `claim_cached_object`, `insert_batch_inner`,
`free_small_screened` and `maybe_quarantine_small`. -/
namespace Topomalloc.Race

variable {cfg : Config} {w w' : World} {t o x k : Nat} {b : Bool} {l : List Event} {after : After}
  {s : Stage} {d : Shadow} {p : Place}

attribute [local simp] Pc.plays Pc.Ok Pc.Unlocked Place.Mine Shadow.Mine After.stage
  After.keepsCached After.keepsMark

theorem pending_handOut (h : pending x l = some false) : pending x (.handOut x :: l) = some true :=
  Turns.pending_open h (by simp [isHandOut])

theorem pending_freed (h : pending x l = some true) : pending x (.freed x :: l) = some false :=
  Turns.pending_close h rfl (by simp [isFreed])

/-- `claim_cached_object`: what was popped is cached, and clearing its mark
hands it out. -/
theorem Inv.popped (h : Inv cfg w) (here : w.pc t = .popped x) :
    w.cached x = true ∧ Inv cfg (((w.setCached x false).emit (.handOut x)).goto t .idle) := by
  have has := h.inHand (t := t) (x := x) (s := .front) (by simp [here, many])
  refine ⟨by simp [has.cached], ?_⟩
  refine h.restage has (.inr rfl) .nowhere .user (fun _ _ => 0) ?_ rfl ?_ ?_
    ((Off.rfl'.setCached).emit (.inl rfl)).goto pending_handOut (by simp)
  · simp [here]
  · simp [many]
  · constructor <;> simp

/-- A refill marks the objects it removed one by one. -/
theorem Inv.marking (h : Inv cfg w) (here : w.pc t = .marking k (x :: todo) marked) :
    w.cached x = false ∧ Inv cfg ((w.setCached x true).goto t (.marking k todo (marked ++ [x]))) := by
  have has := h.inHand (t := t) (x := x) (s := .raw) (by simp [here, many])
  refine ⟨by simp [has.cached], ?_⟩
  refine h.restage has (.inr rfl) (.hand t) .front
    (fun o r => many todo .raw o r + many marked .front o r) ?_ rfl ?_ ?_
    Off.rfl'.setCached.goto id (by simp)
  · intro o r
    simp only [here, Pc.plays, many, List.count_cons, List.count_nil, if_true]
    split_ifs <;> omega
  · intro o r
    simp only [Pc.plays, many, List.count_append, if_true]
    split_ifs <;> omega
  · constructor <;> simp
    exact has.sane.frontEnd (.inl rfl)

/-- The locked test-and-set of an insert: `l` is the log with what the insert
reports. -/
theorem Inv.store (h : Inv cfg w) (has : At cfg w x p s none) (near : p.Near t)
    (open_ : w.spanLock (cfg.spanOf x) = none) (was : ∀ o r, (w.pc t).plays cfg o r =
      many (if p = .hand t then [x] else []) s o r + after.plays o r)
    (keepsCached : s.isCached = after.keepsCached cfg x)
    (keepsMark : s.isQuarantined = after.keepsMark cfg x)
    (frontEnd : after.keepsCached cfg x = true → cfg.cacheable x = true)
    (off : ∀ o ≠ x, pending o l = pending o w.log) (log : pending x l = some false) :
    Inv cfg { ((w.setFree x true).setLock (cfg.spanOf x) (some t)).goto t
      (.inserting x false after) with log := l } := by
  refine h.restage has near (.hand t) (after.stage cfg x false) (fun o r => after.plays o r) was
    rfl ?_ ?_ (Off.rfl'.setFree.setLock.goto.logged off) (fun _ => log)
    ⟨by simp, by simp, ?_, ?_, by simp, .inr ?_, trivial⟩
  · simp
  · refine ⟨by simp, trivial, ?_, by simp, ?_⟩
    · simpa using frontEnd
    · intro still
      exact has.sane.engaged (keepsMark.trans (by simpa using still))
  · simpa [has.cached] using keepsCached
  · simpa [has.quarantined] using keepsMark
  · refine h.locked.goes rfl ?_ ?_
    · intro y cleared after' same
      obtain ⟨rfl, rfl, rfl⟩ := Pc.inserting.inj same
      simp
    · intro u ne span held
      by_cases same : span = cfg.spanOf x
      · rw [same, open_] at held
        contradiction
      · simpa [same] using held

theorem After.plays_next (after : After) (o : Nat) (r : Stage) :
    after.next.plays cfg o r = after.plays o r := by
  cases after <;> rfl

/-- The insert clears the quarantined bit under the free bit. -/
theorem Inv.clearQuarantined (h : Inv cfg w) (here : w.pc t = .inserting x false after) :
    Inv cfg ((w.setQuarantined x false).goto t (.inserting x true after)) := by
  have has := h.inHand (t := t) (x := x) (s := after.stage cfg x false) (by simp [here, many])
  refine h.restage has (.inr rfl) (.hand t) (after.stage cfg x true)
    (fun o r => after.plays o r) ?_ rfl ?_ ?_ Off.rfl'.setQuarantined.goto id
    ⟨by simp, id, id, by simp, by simp, .inr ?_, trivial⟩
  · simp [here]
  · simp
  · refine ⟨by simp, trivial, ?_, by simp, by simp⟩
    simpa using has.sane.frontEnd
  · refine h.locked.goes rfl ?_ (fun _ _ _ held => held)
    intro y cleared after' same
    obtain ⟨rfl, rfl, rfl⟩ := Pc.inserting.inj same
    exact h.locked t _ _ _ here

/-- The insert clears the cached bit and leaves the span lock. -/
theorem Inv.leaveInsert (h : Inv cfg w) (here : w.pc t = .inserting x true after) :
    Inv cfg (((w.setCached x false).setLock (cfg.spanOf x) none).goto t after.next) := by
  have has := h.inHand (t := t) (x := x) (s := after.stage cfg x true) (by simp [here, many])
  refine h.restage has (.inr rfl) .nowhere .central
    (fun o r => after.plays o r) ?_ rfl ?_ ?_ Off.rfl'.setCached.setLock.goto id
    ⟨by simp, id, by simp, by simp, by simp, .inr ?_, by cases after <;> trivial⟩
  · simp [here]
  · simp [-Pc.plays, After.plays_next, many]
  · constructor <;> simp
  · refine h.locked.goes rfl (fun y c a same => by cases after <;> cases same) ?_
    intro u ne span held
    have mine := h.locked t x true after here
    have other : span ≠ cfg.spanOf x := by
      rintro rfl
      exact ne (Option.some.inj (held.symm.trans mine))
    simpa [other] using held

theorem plays_storing {pc : Pc} (has : pc.plays cfg x (.storing c q) ≠ 0) :
    ∃ cleared after, pc = .inserting x cleared after := by
  cases pc <;> simp [many] at has
  case inserting y cleared after =>
    refine ⟨cleared, after, ?_⟩
    have same : y = x := by
      by_contra ne
      cases after <;> simp [ne, After.plays, many] at has
    rw [same]
  all_goals grind

/-- An object whose mark is clear has no shadow. -/
theorem At.unmarked (here : At cfg w x p s d) (clear : w.cached x = false) : d = none := by
  have bit := here.cached.symm.trans clear
  cases d <;> simp_all

/-- Under the open span lock a set free bit means central-free. -/
theorem Inv.centralFree (h : Inv cfg w) (open_ : w.spanLock (cfg.spanOf x) = none)
    (free : w.centralFree x = true) (unmarked : w.cached x = false) :
    At cfg w x .nowhere .central none := by
  obtain ⟨p, s, d, here⟩ := h.placed x
  have isFree := here.free.symm.trans free
  obtain rfl := here.unmarked unmarked
  match p, s, here with
  | .nowhere, .central, here => exact here
  | .nowhere, .user, _ => simp at isFree
  | .shelf q, s, here =>
    have fits := here.sane.fits
    cases q <;> simp at fits <;> subst fits <;> simp at isFree
  | .hand u, .storing c q, here =>
    obtain ⟨cleared, after, inserting⟩ := plays_storing here.has
    have held := h.locked u x cleared after inserting
    rw [open_] at held
    contradiction
  | .hand u, .central, here => exact absurd rfl here.sane.fits.1

/-- A central allocation hands out an object by clearing its free bit. -/
theorem Inv.allocCentral (h : Inv cfg w) (here : w.pc t = .idle)
    (open_ : w.spanLock (cfg.spanOf x) = none) (free : w.centralFree x = true)
    (unmarked : w.cached x = false) : Inv cfg ((w.setFree x false).emit (.handOut x)) := by
  have has := h.centralFree open_ free unmarked
  have goes : ((w.setFree x false).emit (.handOut x)).pc = Function.update w.pc t .idle := by
    rw [← here]
    exact (Function.update_eq_self t w.pc).symm
  refine h.restage has (.inl rfl) .nowhere .user (fun _ _ => 0) ?_ goes ?_ ?_
    (Off.rfl'.setFree.emit (.inl rfl)) pending_handOut (by simp)
  · simp [here, many]
  · simp [many]
  · constructor <;> simp

/-- `remove_batch` of a refill. -/
theorem Inv.refillCentral (h : Inv cfg w) (here : w.pc t = .idle) (nodup : batch.Nodup)
    (free : ∀ o ∈ batch, w.spanLock (cfg.spanOf o) = none ∧
      cfg.cacheable o = true ∧ w.centralFree o = true) (unmarked : ∀ o ∈ batch, w.cached o = false) :
    Inv cfg ((w.clearFree batch).goto t (.marking k batch [])) where
  placed := fun o => by
    by_cases taken : o ∈ batch
    · obtain ⟨open_, cacheable, isFree⟩ := free o taken
      have has := h.centralFree open_ isFree (unmarked o taken)
      refine ⟨.hand t, .raw, none, has.change rfl (.inr ⟨?_, ?_⟩)
        (.inl rfl) ⟨by simp, trivial, fun _ => cacheable, by simp, by simp⟩ ?_ ?_ ?_ ?_ ?_ ?_⟩
      · simp
      · simp
      · intro r
        simp [many, List.count_eq_one_of_mem nodup taken]
      · simpa using has.shelves
      · simp [taken]
      · simpa using has.cached
      · simpa using has.quarantined
      · simpa using has.log
    · obtain ⟨p, s, d, there⟩ := h.placed o
      refine ⟨p, s, d, there.same rfl ?_ (fun _ => rfl) ?_ rfl rfl rfl⟩
      · simp [here, many, List.count_eq_zero_of_not_mem taken]
      · simp [taken]
  locked := h.unlocked rfl rfl (by simp)
  ok := ok_update h.ok rfl trivial

/-- The thread has the object with one of its bits off: taken out of central by
a refill and not marked, or inserted and not yet cleared of its other bits. -/
def Pc.between (o : Nat) : Pc → Bool
  | .marking _ todo _ => todo.contains o
  | .inserting x _ _ => x == o
  | _ => false

theorem plays_raw {pc : Pc} (has : pc.plays cfg x .raw ≠ 0) : pc.between x = true := by
  cases pc <;> simp [many] at has
  case marking k todo marked =>
    simpa [Pc.between] using List.count_pos_iff.mp (Nat.pos_of_ne_zero has)
  case inserting y cleared after =>
    cases after <;> simp [After.plays, many] at has
  all_goals grind

/-- Who has an object that no call has marked, when no thread has it between
two bits: central, the user or the quarantine. -/
theorem Inv.unmarked (h : Inv cfg w) (cacheable : cfg.cacheable x = true)
    (clear : w.cached x = false) (calm : ∀ u, (w.pc u).between x = false) :
    At cfg w x .nowhere .user none ∨ ∃ p s, (s = .central ∨ s = .quarantined) ∧ At cfg w x p s none := by
  obtain ⟨p, s, d, here⟩ := h.placed x
  have notCached := here.cached.symm.trans clear
  obtain rfl := here.unmarked clear
  match p, s, here with
  | .nowhere, .user, here => exact .inl here
  | .nowhere, .central, here => exact .inr ⟨_, _, .inl rfl, here⟩
  | .shelf .ring, .quarantined, here => exact .inr ⟨_, _, .inr rfl, here⟩
  | .shelf (.slot _), .front, _ => simp at notCached
  | .shelf (.transfer _), .front, _ => simp at notCached
  | .hand u, .quarantined, here => exact .inr ⟨_, _, .inr rfl, here⟩
  | .hand u, .raw, here =>
    have busy := plays_raw here.has
    rw [calm u] at busy
    contradiction
  | .hand u, .storing c q, here =>
    obtain ⟨cleared, after, inserting⟩ := plays_storing here.has
    have idle := calm u
    simp [inserting, Pc.between] at idle
  | .hand u, .marked, here =>
    have plain := here.sane.plain rfl
    rw [cacheable] at plain
    contradiction
  | .hand u, .central, here => exact absurd rfl here.sane.fits.1
  | .hand u, .user, here => exact absurd rfl here.sane.fits.2.1
  | .hand u, .quit, here => exact absurd rfl here.sane.fits.2.2.1
  | .hand u, .handing, here => exact absurd rfl here.sane.fits.2.2.2
  | .hand u, .front, _ => simp at notCached
  | .hand u, .doubtFree, _ => simp at notCached
  | .hand u, .doubtQuarantined, _ => simp at notCached
  | .hand u, .claimed, _ => simp at notCached
  | .hand u, .held, _ => simp at notCached

/-- `try_mark_cached` of a free claims the user's object, or shades one that is
not the user's. -/
theorem Inv.tryMarkCached (h : Inv cfg w) (here : w.pc t = .tryMarkCached x b)
    (clear : w.cached x = false) (calm : ∀ u, (w.pc u).between x = false) :
    Inv cfg ((w.setCached x true).goto t (.revalidateFree x b)) := by
  have cacheable : cfg.cacheable x = true := by simpa [here] using h.ok t
  rcases h.unmarked cacheable clear calm with has | ⟨p, s, stage, has⟩
  · refine h.restage has (.inl rfl) (.hand t) .doubtFree (fun _ _ => 0) ?_ rfl ?_
      ⟨by simp, trivial, fun _ => cacheable, by simp, by simp⟩ Off.rfl'.setCached.goto id (by simp)
    · simp [here, many]
    · simp
  · refine h.reshade (a := none) has (some .doubtFree) (fun _ _ => 0) ?_ rfl ?_
      { has.sane with shades := stage, frontEnd := fun _ => cacheable } Off.rfl'.setCached.goto id (by simp)
    · simp [here]
    · simp

/-- A doubting call has the object in its hand or shades it. -/
theorem At.doubt (here : At cfg w x p s d)
    (has : (w.pc t).plays cfg x r ≠ 0) : (p = .hand t ∧ s = r) ∨ d = shade t (some r) := by
  have counted := here.plays t r
  by_contra neither
  rw [not_or] at neither
  rw [if_neg neither.1, if_neg (show d ≠ some (t, r) from neither.2)] at counted
  exact has counted

/-- The first load of the revalidation. -/
theorem Inv.revalidateFree (h : Inv cfg w) (here : w.pc t = .revalidateFree x b) :
    Inv cfg (w.goto t (if w.centralFree x then .unmarkAndReject x else .revalidateQuarantined x b)) := by
  obtain ⟨p, s, d, found⟩ := h.placed x
  rcases found.doubt (t := t) (r := .doubtFree) (by simp [here, many]) with
    ⟨rfl, rfl⟩ | rfl
  · obtain rfl := found.sane.alone (by simp) (by simp)
    have bit := found.free
    simp only [bit, Stage.free, Bool.false_eq_true, if_false]
    refine h.restage found (.inr rfl) (.hand t) .doubtQuarantined (fun _ _ => 0) ?_ rfl ?_
      ⟨by simp, trivial, fun _ => found.sane.frontEnd (.inl rfl), by simp, by simp⟩ Off.rfl'.goto id (by simp)
    · simp [here]
    · simp
  · have cacheable := found.sane.frontEnd (.inr rfl)
    rcases found.sane.shades with rfl | rfl
    · have bit := found.free
      simp only [bit, Stage.free, if_true]
      refine h.reshade found (some .quit) (fun _ _ => 0) ?_ rfl ?_
        { found.sane with shades := .inl rfl, frontEnd := fun _ => cacheable } Off.rfl'.goto id (by simp)
      · simp [here]
      · simp
    · have bit := found.free
      simp only [bit, Stage.free, Bool.false_eq_true, if_false]
      refine h.reshade found (some .doubtQuarantined) (fun _ _ => 0) ?_ rfl ?_
        { found.sane with shades := rfl, frontEnd := fun _ => cacheable } Off.rfl'.goto id (by simp)
      · simp [here]
      · simp

/-- The second load: what is left in doubt is in the quarantine. -/
theorem Inv.revalidateQuarantined (h : Inv cfg w) (here : w.pc t = .revalidateQuarantined x b) :
    Inv cfg (w.goto t (if w.quarantined x then .unmarkAndReject x else .quarantineLoad x b)) := by
  obtain ⟨p, s, d, found⟩ := h.placed x
  have bit := found.quarantined
  rcases found.doubt (t := t) (r := .doubtQuarantined) (by simp [here, many]) with
    ⟨rfl, rfl⟩ | rfl
  · obtain rfl := found.sane.alone (by simp) (by simp)
    have cacheable := found.sane.frontEnd (.inl rfl)
    simp only [bit, Stage.isQuarantined, Bool.false_eq_true, if_false]
    refine h.restage found (.inr rfl) (.hand t) .claimed (fun _ _ => 0) ?_ rfl ?_
      ⟨by simp, trivial, fun _ => cacheable, by simp, by simp⟩ Off.rfl'.goto id (by simp)
    · simp [here]
    · simp [cacheable]
  · have cacheable := found.sane.frontEnd (.inr rfl)
    obtain rfl : s = .quarantined := found.sane.shades
    simp only [bit, Stage.isQuarantined, if_true]
    refine h.reshade found (some .quit) (fun _ _ => 0) ?_ rfl ?_
      { found.sane with shades := .inr rfl, frontEnd := fun _ => cacheable } Off.rfl'.goto id (by simp)
    · simp [here]
    · simp

/-- A mark set by mistake is withdrawn. -/
theorem Inv.unmarkAndReject (h : Inv cfg w) (here : w.pc t = .unmarkAndReject x) :
    Inv cfg ((w.setCached x false).goto t .idle) := by
  obtain ⟨p, s, d, found⟩ := h.placed x
  rcases found.doubt (t := t) (r := .quit) (by simp [here, many]) with ⟨rfl, rfl⟩ | rfl
  · exact absurd rfl found.sane.fits.2.2.1
  · have stage : s = .central ∨ s = .quarantined := found.sane.shades
    refine h.reshade found none (fun _ _ => 0) ?_ rfl ?_ ?_ Off.rfl'.setCached.goto id ⟨?_, by simp⟩
    · simp [here]
    · simp
    · refine { found.sane with shades := trivial, frontEnd := ?_ }
      rcases stage with rfl | rfl <;> simp [shade]
    · rcases stage with rfl | rfl <;> simp

/-- An object the front end does not cache, with neither of the other bits set,
is the user's. -/
theorem Inv.plainUser (h : Inv cfg w) (plain : cfg.cacheable x = false) (free : w.centralFree x = false)
    (quarantined : w.quarantined x = false) : At cfg w x .nowhere .user none := by
  obtain ⟨p, s, d, here⟩ := h.placed x
  have notFree := here.free.symm.trans free
  have notHeld := here.quarantined.symm.trans quarantined
  have outside : ¬ (s.frontEnd = true ∨ d.isSome = true) := fun inside => by
    have cacheable := here.sane.frontEnd inside
    rw [plain] at cacheable
    contradiction
  rw [not_or] at outside
  obtain rfl : d = none := by cases d <;> simp_all
  have fits := here.sane.fits
  cases p with
  | nowhere =>
    rcases fits with rfl | rfl
    · simp at notFree
    · exact here
  | shelf q => cases q <;> simp at fits <;> subst fits <;> simp at outside notHeld
  | hand u => cases s <;> simp_all

/-- `mark_quarantined` of a cacheable object adds the quarantine's mark to the
claim. -/
theorem Inv.markHeld (h : Inv cfg w) (here : w.pc t = .markQuarantined x b)
    (cacheable : cfg.cacheable x = true) :
    w.quarantined x = false ∧ Inv cfg ((w.setQuarantined x true).goto t (.offer x b)) := by
  have has := h.inHand (t := t) (x := x) (s := .claimed) (by simp [here, many, cacheable])
  have engaged : cfg.quarantine = true := by simpa [here] using h.ok t
  refine ⟨by simp [has.quarantined], ?_⟩
  refine h.restage has (.inr rfl) (.hand t) .held (fun _ _ => 0) ?_ rfl ?_
    ⟨by simp, trivial, fun _ => cacheable, by simp, fun _ => engaged⟩ Off.rfl'.setQuarantined.goto id
    (by simp)
  · simp [here, cacheable]
  · simp [cacheable]

/-- `mark_quarantined` of an object the front end does not cache claims it. -/
theorem Inv.markPlain (h : Inv cfg w) (here : w.pc t = .markQuarantined x b)
    (plain : cfg.cacheable x = false) (free : w.centralFree x = false)
    (unmarked : w.quarantined x = false) (next : pc' = .offer x b ∨ pc' = .insertOwn x) :
    Inv cfg ((w.setQuarantined x true).goto t pc') := by
  have has := h.plainUser plain free unmarked
  have engaged : cfg.quarantine = true := by simpa [here] using h.ok t
  rcases next with rfl | rfl
  all_goals
    refine h.restage has (.inl rfl) (.hand t) .marked (fun _ _ => 0) ?_ rfl ?_
      ⟨by simp, trivial, by simp, fun _ => plain, fun _ => engaged⟩ Off.rfl'.setQuarantined.goto id
      (by simp)
    · simp [here, many, plain]
    · simp [plain, engaged]

theorem routed_plays (cacheable : cfg.cacheable x = true) (o : Nat) (r : Stage) :
    (routed cfg x b).plays cfg o r = many [x] .claimed o r := by
  cases b <;> simp [routed, cacheable]

theorem routed_ok : (routed cfg x b).Ok cfg := by
  unfold routed
  split <;> trivial

theorem routed_unlocked : (routed cfg x b).Unlocked := by
  unfold routed
  split <;> simp

/-- The ring declined: the quarantine's mark comes off, the claim stays. -/
theorem Inv.releaseClaim (h : Inv cfg w) (here : w.pc t = .releaseClaim x b) :
    Inv cfg ((w.setQuarantined x false).goto t (routed cfg x b)) := by
  have has := h.inHand (t := t) (x := x) (s := .held) (by simp [here, many])
  have cacheable := has.sane.frontEnd (.inl rfl)
  refine h.restage has (.inr rfl) (.hand t) .claimed (fun _ _ => 0) ?_ rfl ?_
    ⟨by simp, trivial, fun _ => cacheable, by simp, by simp⟩ Off.rfl'.setQuarantined.goto id
    ⟨by simp, id, id, by simp, by simp, .inl ⟨rfl, routed_unlocked⟩, routed_ok⟩
  · simp [here]
  · simp [-Pc.plays, routed_plays cacheable]

/-- The ring holds the object and the cached mark comes off: freed. -/
theorem Inv.handOver (h : Inv cfg w) (here : w.pc t = .handOver x evicted) :
    Inv cfg (((w.setCached x false).emit (.freed x)).goto t (.drain evicted)) := by
  obtain ⟨p, s, d, found⟩ := h.placed x
  rcases found.doubt (t := t) (r := .handing) (by simp [here, many]) with
    ⟨rfl, rfl⟩ | rfl
  · exact absurd rfl found.sane.fits.2.2.2
  · obtain rfl : s = .quarantined := found.sane.shades
    refine h.reshade found none (fun o r => many evicted .quarantined o r) ?_ rfl ?_
      { found.sane with shades := trivial, frontEnd := by simp [shade] }
      (Off.rfl'.setCached.emit (.inr rfl)).goto pending_freed (by simp)
    · simp [here]
    · simp

/-- A push of the claimed object to a slot: freed. -/
theorem Inv.pushOwn (h : Inv cfg w) (has : At cfg w x (.hand t) .claimed none)
    (was : ∀ o r, (w.pc t).plays cfg o r = many [x] .claimed o r) :
    Inv cfg (((w.setShelf (.slot k) (w.shelves (.slot k) ++ [x])).emit (.freed x)).goto t .idle) := by
  refine h.restage has (.inr rfl) (.shelf (.slot k)) .front (fun _ _ => 0) ?_ rfl ?_
    ⟨rfl, trivial, fun _ => has.sane.frontEnd (.inl rfl), by simp, by simp⟩
    (Off.rfl'.append.emit (.inr rfl)).goto pending_freed ⟨by simp, id, id, id, ?_, by simp⟩
  · simp [-Pc.plays, was]
  · simp [many]
  · intro q
    by_cases same : q = .slot k
    · subst same
      simp
    · simp [same, Ne.symm same]

/-- Entries that a shelf has were there as often as they are named. -/
theorem count_le_of_among {l batch : List Nat} (among : ∀ y ∈ batch, batch.count y ≤ l.count y)
    (y : Nat) : batch.count y ≤ l.count y := by
  by_cases member : y ∈ batch
  · exact among y member
  · simp [List.count_eq_zero_of_not_mem member]

/-- The ring takes the object and gives up others: a cacheable object still
carries its mark (`d`), any other is freed with that. -/
theorem Inv.offerHeld {pc' : Pc} (h : Inv cfg w) (has : At cfg w x (.hand t) s none)
    (marked : s.isQuarantined = true) (taken : s.free = false)
    (was : ∀ o r, (w.pc t).plays cfg o r = many [x] s o r) (absent : x ∉ w.shelves .ring)
    (among : ∀ y ∈ evicted, evicted.count y ≤ (w.shelves .ring).count y)
    (plays : ∀ o r, pc'.plays cfg o r =
      (if x = o ∧ d = some (t, r) then 1 else 0) + many evicted .quarantined o r) (mine : d.Mine t)
    (sane : Sane cfg x (.shelf .ring) .quarantined d) (cached : s.isCached = d.isSome)
    (off : ∀ o ≠ x, pending o l = pending o w.log) (log : pending x l = some d.handing)
    (enters : pc'.Ok cfg ∧ pc'.Unlocked) :
    Inv cfg { (w.setShelf .ring ((w.shelves .ring).diff evicted ++ [x])).goto t pc' with log := l } where
  placed := fun o => by
    have within := count_le_of_among among o
    by_cases same : o = x
    · subst same
      have empty := List.count_eq_zero_of_not_mem absent
      refine ⟨.shelf .ring, .quarantined, d, has.change rfl (.inr ⟨?_, ?_⟩)
        (.inr ⟨?_, mine⟩) sane ?_ ?_ ?_ ?_ ?_ (by simpa using log)⟩
      · simp
      · simp
      · simp
      · intro r
        have none : evicted.count o = 0 := by omega
        simp [-Pc.plays, plays, many, none]
      · intro q
        by_cases ring : q = .ring
        · subst ring
          simp [List.count_diff, empty]
        · simpa [ring, Ne.symm ring] using has.shelves q
      · simpa [has.free] using taken
      · simpa [has.cached] using cached
      · simpa [has.quarantined] using marked
    · obtain ⟨p, s', d', there⟩ := h.placed o
      refine there.grab (q := .ring) (s := .quarantined) evicted rfl rfl (fun q => ?_) (fun r => ?_)
        rfl rfl rfl (off o same)
      · by_cases ring : q = .ring
        · subst ring
          simp only [World.goto, World.setShelf, Function.update_self, if_true,
            List.count_append, List.count_diff, List.count_singleton, beq_iff_eq, Ne.symm same,
            if_false]
          omega
        · simp [ring]
      · simp [-Pc.plays, plays, was, many, Ne.symm same]
  locked := h.unlocked rfl rfl enters.2
  ok := ok_update h.ok rfl enters.1

/-- What a free owns when it turns to the central insert: its claim, the
quarantine's mark, or in a build without the quarantine nothing but the user's
right. -/
theorem Inv.insertOwn (h : Inv cfg w) (here : w.pc t = .insertOwn x)
    (open_ : w.spanLock (cfg.spanOf x) = none) (free : w.centralFree x = false) :
    Inv cfg ((((w.setFree x true).setLock (cfg.spanOf x) (some t)).goto t
      (.inserting x false .own)).emit (.freed x)) := by
  have off : ∀ o ≠ x, pending o (.freed x :: w.log) = pending o w.log := fun o ne =>
    Turns.pending_other rfl (by simp [isFreed, Ne.symm ne])
  by_cases cacheable : cfg.cacheable x = true
  · have has := h.inHand (t := t) (x := x) (s := .claimed) (by simp [here, many, cacheable])
    refine h.store has (.inr rfl) open_ ?_ ?_ ?_ (fun _ => cacheable) off
      (pending_freed (by simpa using has.log))
    · simp [here, cacheable, After.plays]
    · simp [cacheable]
    · simp [cacheable]
  have plain : cfg.cacheable x = false := by simpa using cacheable
  by_cases engaged : cfg.quarantine = true
  · have has := h.inHand (t := t) (x := x) (s := .marked) (by simp [here, many, plain, engaged])
    refine h.store has (.inr rfl) open_ ?_ ?_ ?_ id off (pending_freed (by simpa using has.log))
    · simp [here, plain, engaged, After.plays]
    · simp [plain]
    · simp [plain, engaged]
  · obtain ⟨p, s, d, found⟩ := h.placed x
    have unmarked : w.quarantined x = false := by
      rw [found.quarantined]
      by_contra marked
      exact engaged (found.sane.engaged (by simpa using marked))
    have has := h.plainUser plain free unmarked
    refine h.store has (.inl rfl) open_ ?_ ?_ ?_ id off (pending_freed (by simpa using has.log))
    · simp [here, plain, engaged, After.plays, many]
    · simp [plain]
    · simp [plain, engaged]

/-- Clearing a mark an object the front end does not cache cannot have. -/
theorem Inv.insertFailed (h : Inv cfg w) (here : w.pc t = .insertFailed x) :
    Inv cfg ((w.setCached x false).goto t .idle) := by
  have ok : cfg.quarantine = false ∧ cfg.cacheable x = false := by
    simpa [here] using h.ok t
  have clear : w.cached x = false := by
    obtain ⟨p, s, d, found⟩ := h.placed x
    rw [found.cached]
    by_contra marked
    have inside : s.frontEnd = true ∨ d.isSome = true := by
      cases d <;> cases s <;> simp_all
    rw [found.sane.frontEnd inside] at ok
    simp at ok
  have unchanged : w.setCached x false = w := by
    simp [← clear, Function.update_eq_self]
  rw [unchanged]
  exact h.goto (by simp [here])

end Topomalloc.Race
