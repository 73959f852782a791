import Topomalloc.Race.Transitions

/-! No object is vended twice and no double free succeeds, in the interleavings
that stay out of four windows; and a run into one of them. -/
namespace Topomalloc.Race

variable {cfg : Config} {w w' : World} {t o x k : Nat} {b : Bool} {move : Move}

attribute [local simp] Pc.plays Pc.Ok Pc.Unlocked Place.Mine Shadow.Mine After.stage
  After.keepsCached After.keepsMark

/-- The steps that stay out of the windows of the protocol. A free does not mark
an unmarked object that a refill has removed and not yet marked, or that an insert is
working on; central does not vend an object some call has marked; the drain of
the quarantine does not insert one; and the quarantine's mark of an object the
front end does not cache finds it not central-free. -/
def Calm (cfg : Config) (w : World) (t : Nat) (move : Move) : Prop :=
  match w.pc t, move with
  | .tryMarkCached o _, _ => w.cached o = false → ∀ u, (w.pc u).between o = false
  | .idle, .allocCentral o => w.cached o = false
  | .idle, .refillCentral _ batch => ∀ o ∈ batch, w.cached o = false
  | .drain (o :: _), _ => w.cached o = false
  | .markQuarantined o _, _ => cfg.cacheable o = true ∨ w.centralFree o = false
  | _, _ => True

theorem count_restOf (l : List Nat) (n o : Nat) :
    l.count o = (restOf l n).count o + (lastOf l n).count o := by
  rw [restOf, lastOf, ← List.count_append, List.take_append_drop]

theorem start_inv (h : Inv cfg w) (here : w.pc t = .idle) (calm : Calm cfg w t move)
    (ran : start cfg w t move = some w') : Inv cfg w' := by
  unfold start at ran
  split at ran
  · next shelf =>
    split at ran
    · contradiction
    · next notRing =>
      obtain ⟨o, last, rfl⟩ := Option.map_eq_some_iff.mp ran
      have fits : Fits (.shelf shelf) .front := by cases shelf <;> simp_all
      refine h.grab (s := .front) [o] fits (fun y => ?_) ?_ (by simp)
      · rw [← List.count_append, List.dropLast_append_getLast? o last]
      · simp [here]
  · next k c n =>
    obtain rfl := Option.some.inj ran
    exact h.grab (s := .front) _ rfl (count_restOf _ n) (by simp [here]) (by simp)
  · next k batch =>
    split at ran
    · next guard =>
      obtain rfl := Option.some.inj ran
      refine h.refillCentral here guard.1 (fun o member => ?_) (by simpa [Calm, here] using calm)
      obtain ⟨open_, -, cacheable, free⟩ := guard.2 o member
      exact ⟨open_, cacheable, free⟩
    · contradiction
  · next o =>
    split at ran
    · next guard =>
      obtain rfl := Option.some.inj ran
      exact h.allocCentral here guard.1 guard.2 (by simpa [Calm, here] using calm)
    · contradiction
  · next k n =>
    obtain rfl := Option.some.inj ran
    exact h.grab (s := .front) _ rfl (count_restOf _ n) (by simp [here, retried, many]) (by simp)
  · next c n =>
    obtain rfl := Option.some.inj ran
    exact h.grab (s := .front) _ rfl (count_restOf _ n) (by simp [here, retried, many]) (by simp)
  · next taken =>
    dsimp only at ran
    split at ran
    · next among =>
      obtain rfl := Option.some.inj ran
      refine h.grab (s := .quarantined) taken rfl (fun y => ?_) (by simp [here]) (by simp)
      have within := count_le_of_among among y
      rw [List.count_diff]
      omega
    · contradiction
  · next o bypass =>
    obtain rfl := Option.some.inj ran
    exact h.goto (by simp [here])
  · contradiction

/-- The insert of an address on its way to central. -/
theorem insert_carried (h : Inv cfg w) (here : w.pc t = .toCentral (x :: rest) retry)
    (ran : insert cfg w t x (.carried rest retry) (.toCentral rest retry) = some w') : Inv cfg w' := by
  have has := h.inHand (t := t) (x := x) (s := .front) (by simp [here, many])
  unfold insert at ran
  split at ran
  · next open_ =>
    have free : w.centralFree x = false := by simpa using has.free
    rw [free] at ran
    obtain rfl := Option.some.inj ran
    refine h.store (l := w.log) has (.inr rfl) open_ (fun o r => ?_) rfl rfl
      (fun _ => has.sane.frontEnd (.inl rfl)) (fun _ _ => rfl) (by simpa using has.log)
    simp only [here, Pc.plays, After.plays, many, List.count_cons, List.count_nil, if_true]
    split_ifs <;> omega
  · contradiction

/-- The insert of an entry that left the quarantine. -/
theorem insert_drained (h : Inv cfg w) (here : w.pc t = .drain (x :: rest)) (calm : w.cached x = false)
    (ran : insert cfg w t x (.drained rest) (.drain rest) = some w') : Inv cfg w' := by
  obtain ⟨p, s, d, has⟩ := h.placed x
  obtain ⟨rfl, rfl⟩ := has.holder (t := t) (r := .quarantined) (by simp [here, many]) (by simp)
  obtain rfl := has.unmarked calm
  unfold insert at ran
  split at ran
  · next open_ =>
    have free : w.centralFree x = false := by simpa using has.free
    rw [free] at ran
    obtain rfl := Option.some.inj ran
    refine h.store (l := w.log) has (.inr rfl) open_ (fun o r => ?_) rfl rfl
      (by simp) (fun _ _ => rfl) (by simpa using has.log)
    simp only [here, Pc.plays, After.plays, many, List.count_cons, List.count_nil, if_true]
    split_ifs <;> omega
  · contradiction

/-- The free's own insert. -/
theorem insert_own (h : Inv cfg w) (here : w.pc t = .insertOwn x)
    (ran : (insert cfg w t x .own (.insertFailed x)).map (fun w' =>
      if w.centralFree x then w' else w'.emit (.freed x)) = some w') : Inv cfg w' := by
  obtain ⟨w₁, inserted, rfl⟩ := Option.map_eq_some_iff.mp ran
  unfold insert at inserted
  split at inserted
  · next open_ =>
    split at inserted
    · next free =>
      obtain rfl := Option.some.inj inserted
      rw [if_pos free]
      -- only a free that holds no mark can find the object central-free
      have plain : cfg.quarantine = false ∧ cfg.cacheable x = false := by
        by_contra claimed
        have has : ∃ s, (s = .claimed ∨ s = .marked) ∧ (w.pc t).plays cfg x s ≠ 0 := by
          by_cases cacheable : cfg.cacheable x = true
          · exact ⟨.claimed, .inl rfl, by simp [here, cacheable, many]⟩
          · exact ⟨.marked, .inr rfl, by simp_all [many]⟩
        obtain ⟨s, stage, has⟩ := has
        have found := h.inHand ⟨has, by rcases stage with rfl | rfl <;> simp⟩
        have bit := found.free.symm.trans free
        rcases stage with rfl | rfl <;> simp at bit
      exact h.goto ⟨by simp [here, plain], plain, by simp⟩
    · next taken =>
      obtain rfl := Option.some.inj inserted
      rw [if_neg taken]
      exact h.insertOwn here open_ (by simpa using taken)
  · contradiction

/-- The decision of the ring about an offered object. -/
theorem offer_held (h : Inv cfg w) (here : w.pc t = .offer x b)
    (ran : stepAt cfg w t (.offer x b) (.held evicted) = some w') : Inv cfg w' := by
  simp only [stepAt] at ran
  split at ran
  next guard =>
    obtain rfl := Option.some.inj ran
    split
    next cacheable =>
      have has := h.inHand (t := t) (x := x) (s := .held) (by simp [here, many, cacheable])
      refine h.offerHeld (d := some (t, .handing)) (l := w.log) has rfl rfl ?_ guard.1 guard.2 ?_
        ?_ ⟨rfl, rfl, fun _ => cacheable, by simp, fun _ => has.sane.engaged rfl⟩ rfl
        (fun _ _ => rfl) (by simpa using has.log) (by simp)
      · simp [here, cacheable]
      · intro o r
        simp [many, List.count_singleton]
        split_ifs <;> simp_all
      · simp
    next plain =>
      have has := h.inHand (t := t) (x := x) (s := .marked) (by simp [here, many, plain])
      refine h.offerHeld (d := none) has rfl rfl ?_ guard.1 guard.2 ?_ ?_
        ⟨rfl, trivial, by simp, by simp, fun _ => has.sane.engaged rfl⟩ rfl ?_
        (pending_freed (by simpa using has.log)) (by simp)
      · simp [here, plain]
      · simp
      · simp
      · exact fun o ne => Turns.pending_other rfl (by simp [isFreed, Ne.symm ne])
  next => contradiction

/-- The loads of a free that claims nothing and of the quarantine's checks. -/
theorem loads_inv (h : Inv cfg w) (here : w.pc t = .quarantineLoad x b ∨
    w.pc t = .quarantineFree x b) (ran : stepAt cfg w t (w.pc t) .go = some w') : Inv cfg w' := by
  -- a cacheable object is claimed here, so no exit with a double free is taken
  have claimed : cfg.cacheable x = true → w.quarantined x = false ∧ w.centralFree x = false := by
    intro cacheable
    have has := h.inHand (t := t) (x := x) (s := .claimed)
      (by rcases here with here | here <;> simp [here, many, cacheable])
    exact ⟨by simp [has.quarantined], by simp [has.free]⟩
  have engaged := h.ok t
  rcases here with here | here <;> rw [here] at ran engaged <;>
    obtain rfl := Option.some.inj ran
  · by_cases cacheable : cfg.cacheable x = true
    · by_cases on : cfg.quarantine = true
      · simp only [on, Bool.true_eq_false, if_false, (claimed cacheable).1, Bool.false_eq_true,
          cacheable, if_true]
        exact h.goto (by simp [here, cacheable, on])
      · simp only [on, if_true]
        refine h.goto ⟨fun o r => ?_, routed_ok, routed_unlocked⟩
        rw [routed_plays cacheable]
        simp [here, cacheable]
    · by_cases on : cfg.quarantine = true
      · simp only [on, Bool.true_eq_false, if_false, settled, cacheable]
        split
        · exact h.goto (by simp [here, cacheable])
        · exact h.goto (by simp [here, cacheable, on])
      · simp only [on, if_true]
        exact h.goto (by simp [here, cacheable, routed, on])
  · by_cases cacheable : cfg.cacheable x = true
    · simp only [(claimed cacheable).2, Bool.false_eq_true, cacheable, if_true, if_false]
      exact h.goto ⟨by simp [here, cacheable], engaged, by simp⟩
    · simp only [settled, cacheable]
      split
      · exact h.goto (by simp [here, cacheable])
      · exact h.goto ⟨by simp [here, cacheable], ⟨engaged, by simpa using cacheable⟩, by simp⟩

theorem many_take (l : List Nat) (n : Nat) (s : Stage) (o : Nat) (r : Stage) :
    many l s o r = many (l.drop n) s o r + many (l.take n) s o r := by
  have split := congrArg (List.count o) (List.take_append_drop n l)
  rw [List.count_append] at split
  simp only [many]
  split_ifs <;> omega

/-- One step of one thread, out of the windows, keeps every object in custody. -/
theorem step_inv (h : Inv cfg w) (calm : Calm cfg w t move)
    (ran : step cfg w t move = some w') : Inv cfg w' := by
  -- a thread with a claim has an object that the front end caches
  have claimed : ∀ x, (w.pc t).plays cfg x .claimed ≠ 0 →
      At cfg w x (.hand t) .claimed none ∧ cfg.cacheable x = true := fun x has =>
    have has := h.inHand ⟨has, by simp⟩
    ⟨has, has.sane.frontEnd (.inl rfl)⟩
  unfold step at ran
  cases here : w.pc t <;> rw [here] at ran
  case idle => exact start_inv h here calm ran
  case releaseFailed x =>
    have impossible := h.ok t
    rw [here] at impossible
    exact impossible.elim
  -- what a step does next depends on the list or the flag that the thread carries
  case' marking k todo marked => cases todo
  case' toCentral batch retry => cases batch
  case' inserting x cleared after => cases cleared
  case' drain entries => cases entries
  all_goals cases move <;> simp only [stepAt, reduceCtorEq] at ran
  case popped.go x =>
    obtain ⟨cached, inv⟩ := h.popped here
    rw [if_pos cached] at ran
    exact Option.some.inj ran ▸ inv
  case marking.nil.go =>
    exact Option.some.inj ran ▸ h.goto (by simp [here, many])
  case marking.cons.go x todo =>
    obtain ⟨clear, inv⟩ := h.marking here
    rw [clear] at ran
    exact Option.some.inj ran ▸ inv
  case toSlot.accept k batch n =>
    refine Option.some.inj ran ▸ h.put (s := .front) (batch.take n) rfl (by simp) ?_ (by simp)
    intro o r
    simp only [here, Pc.plays, many_take batch n, retried, Option.toList_none, List.map_nil,
      many_nil, Nat.add_zero]
  case toTransfer.acceptTransfer batch retry c n =>
    refine Option.some.inj ran ▸ h.put (s := .front) (batch.take n) rfl (by simp) ?_ (by simp)
    intro o r
    simp only [here, Pc.plays, many_take batch n]
    omega
  case toCentral.nil.go =>
    refine Option.some.inj ran ▸ h.goto ⟨?_, ?_, ?_⟩ <;> rcases retry with _ | ⟨o, k⟩ <;>
      simp [here, resumed, retried, many]
  case toCentral.cons.go x rest => exact insert_carried h here ran
  case inserting.false.go => exact Option.some.inj ran ▸ h.clearQuarantined here
  case inserting.true.go => exact Option.some.inj ran ▸ h.leaveInsert here
  case screenCached.go x b =>
    refine Option.some.inj ran ▸ h.goto ⟨?_, ?_, ?_⟩ <;> split <;>
      simp [here]
  case screenCentralFree.go x b =>
    refine Option.some.inj ran ▸ h.goto ⟨?_, ?_, ?_⟩ <;> split <;> try split
    all_goals simp_all
  case tryMarkCached.go x b =>
    obtain rfl := Option.some.inj ran
    split
    · exact h.goto (by simp [here])
    · next marked =>
      have clear : w.cached x = false := by simpa using marked
      exact h.tryMarkCached here clear (by simpa [Calm, here, clear] using calm)
  case revalidateFree.go x b => exact Option.some.inj ran ▸ h.revalidateFree here
  case revalidateQuarantined.go x b => exact Option.some.inj ran ▸ h.revalidateQuarantined here
  case unmarkAndReject.go x => exact Option.some.inj ran ▸ h.unmarkAndReject here
  case quarantineLoad.go x b => exact loads_inv h (.inl here) (by rw [here]; exact ran)
  case quarantineFree.go x b => exact loads_inv h (.inr here) (by rw [here]; exact ran)
  case quarantineSwitch.reads x b enabled =>
    obtain rfl := Option.some.inj ran
    have cacheable := (claimed x (by simp [here, many])).2
    have engaged := h.ok t
    rw [here] at engaged
    split
    · exact h.goto ⟨by simp [here, cacheable], engaged, by simp⟩
    · refine h.goto ⟨fun o r => ?_, routed_ok, routed_unlocked⟩
      rw [routed_plays cacheable, here, Pc.plays]
  case quarantineCached.go x b =>
    have plain := h.ok t
    rw [here] at plain
    refine Option.some.inj ran ▸ h.goto ⟨?_, ?_, ?_⟩ <;> split <;>
      simp_all
  case markQuarantined.reads x b enabled =>
    split at ran
    next =>
      obtain rfl := Option.some.inj ran
      by_cases cacheable : cfg.cacheable x = true
      · obtain ⟨clear, inv⟩ := h.markHeld here cacheable
        simpa only [clear, Bool.false_eq_true, if_false, cacheable, Bool.true_or, if_true]
          using inv
      · have plain : cfg.cacheable x = false := by simpa using cacheable
        split
        · refine h.goto ⟨?_, ?_, ?_⟩ <;> simp [here, settled, plain]
        · next unmarked =>
          refine h.markPlain here plain (by simpa [Calm, here, plain] using calm) (by simpa using unmarked) ?_
          simp only [plain, Bool.false_or]
          split <;> simp
    next => contradiction
  case offer.held x b evicted => exact offer_held h here ran
  case offer.declined x b =>
    obtain rfl := Option.some.inj ran
    split
    next cacheable => exact h.goto (by simp [here, cacheable])
    next plain =>
      have has := h.inHand (t := t) (x := x) (s := .marked) (by simp [here, many, plain])
      exact h.goto (by simp [here, plain, has.sane.engaged rfl])
  case releaseClaim.go x b =>
    split at ran
    · exact Option.some.inj ran ▸ h.releaseClaim here
    · contradiction
  case handOver.go x evicted => exact Option.some.inj ran ▸ h.handOver here
  case drain.nil.go => exact Option.some.inj ran ▸ h.goto (by simp [here, many])
  case drain.cons.go x rest => exact insert_drained h here (by simpa [Calm, here] using calm) ran
  case insertOwn.go x => exact insert_own h here ran
  case insertFailed.go x =>
    have plain := h.ok t
    rw [here] at plain
    rw [plain.1] at ran
    exact Option.some.inj ran ▸ h.insertFailed here
  case push.pushed x k =>
    have has := (claimed x (by simp [here, many])).1
    exact Option.some.inj ran ▸ h.pushOwn has (by simp [here])
  case push.full x k n =>
    refine Option.some.inj ran ▸ h.grab (s := .front) _ rfl (count_restOf _ n) ?_ (by simp)
    simp [here, retried, Nat.add_comm]
  case push.declined x =>
    have cacheable := (claimed x (by simp [here, many])).2
    exact Option.some.inj ran ▸ h.goto (by simp [here, cacheable])
  case retryPush.go x k =>
    have has := (claimed x (by simp [here, many])).1
    exact Option.some.inj ran ▸ h.pushOwn has (by simp [here])
  case retryPush.declined x k =>
    have cacheable := (claimed x (by simp [here, many])).2
    exact Option.some.inj ran ▸ h.goto (by simp [here, cacheable])

/-- The worlds reached by schedules all of whose steps are calm. -/
inductive Reaches (cfg : Config) : World → Prop
  | init : Reaches cfg .init
  | step {w w' : World} (t : Nat) (move : Move) :
      Reaches cfg w → Calm cfg w t move → step cfg w t move = some w' → Reaches cfg w'

theorem init_inv : Inv cfg .init where
  placed := fun o => ⟨.nowhere, .central, none,
    { sane := by constructor <;> simp
      shelves := by simp [World.init]
      plays := by simp [World.init]
      free := rfl
      cached := rfl
      quarantined := rfl
      log := rfl }⟩
  locked := by simp [Locked, World.init]
  ok := fun _ => trivial

theorem Reaches.inv (h : Reaches cfg w) : Inv cfg w := by
  induction h with
  | init => exact init_inv
  | step _ _ _ calm ran ih => exact step_inv ih calm ran

/-- At every point of the log the object was freed at most as often as it was
handed out, and between two of its hand-outs it was freed. The log lists the
events newest first, so what came before a point is a suffix of it. -/
def Vending (o : Nat) (log : List Event) : Prop :=
  (∀ later earlier, log = later ++ earlier → earlier.countP (isFreed o) ≤ earlier.countP (isHandOut o)) ∧
  ∀ later between earlier, log = later ++ .handOut o :: (between ++ .handOut o :: earlier) →
    .freed o ∈ between

/-- In every interleaving whose steps are all calm no object is vended twice
while live and no double free succeeds. -/
theorem vending_of_calm (reached : Reaches cfg w) (o : Nat) : Vending o w.log := by
  obtain ⟨p, s, d, here⟩ := reached.inv.placed o
  have turns := here.log
  have apart : ∀ e, isHandOut o e = true → isFreed o e = false := by
    intro e
    cases e <;> simp [isHandOut, isFreed]
  have opens : isHandOut o (.handOut o) = true := by simp [isHandOut]
  refine ⟨fun later earlier split => ?_, fun later between earlier split => ?_⟩
  · rw [split] at turns
    obtain ⟨b, before⟩ := Turns.pending_of_append turns
    have balance := Turns.countP_of_pending apart before
    omega
  · rw [split] at turns
    obtain ⟨e, member, freed⟩ := Turns.closed_between opens opens turns
    cases e with
    | handOut x => simp [isFreed] at freed
    | freed x =>
      obtain rfl : x = o := by simpa [isFreed] using freed
      exact member

/-- Objects of the default arena in a build without the quarantine. -/
def defaultArena : Config := ⟨fun _ => true, fun _ => 0, false⟩

/-- One thread allocates an object and frees it to its slot, another pops it from there. -/
theorem vending_of_calm_reuse : ∃ w, Reaches defaultArena w ∧
    w.log = [.handOut 0, .freed 0, .handOut 0] ∧ Vending 0 w.log := by
  have reached : ∃ w, Reaches defaultArena w ∧ w.log = [.handOut 0, .freed 0, .handOut 0] := by
    refine ⟨_, .step 1 .go (.step 1 (.pop (.slot 0)) (.step 0 (.pushed 0) (.step 0 .go (.step 0 .go
      (.step 0 .go (.step 0 .go (.step 0 .go (.step 0 .go (.step 0 (.free 0 false)
      (.step 0 (.allocCentral 0) .init ?_ rfl) ?_ rfl) ?_ rfl) ?_ rfl) ?calm rfl) ?_ rfl) ?_ rfl)
      ?_ rfl) ?_ rfl) ?_ rfl) ?_ rfl, rfl⟩
    case calm =>
      intro _ u
      by_cases mine : u = 0
      · rw [mine]
        rfl
      · simp [World.init, mine, Pc.between]
    all_goals trivial
  obtain ⟨w, reached, log⟩ := reached
  exact ⟨w, reached, log, vending_of_calm reached 0⟩

def bypassingFree (t o : Nat) : List (Nat × Move) := (t, .free o true) :: List.replicate 9 (t, .go)

/-- Thread 0 allocates the object and frees it past the cache. Thread 1 refills
and has removed the object from central when thread 0 frees it again; none of
its bits is set, so the free goes through. The refill then marks the object and
pushes it to its slot, although it is central-free once more: both layers vend
it. -/
def doubleVend : List (Nat × Move) :=
  [(0, .allocCentral 0)] ++ bypassingFree 0 0 ++ [(1, .refillCentral 0 [0])] ++
    bypassingFree 0 0 ++
    [(1, .go), (1, .go), (1, .accept 1), (1, .acceptTransfer 0 0), (1, .go),
      (1, .pop (.slot 0)), (1, .go), (2, .allocCentral 0)]

theorem doubleVend_breaks_vending : ∃ w, run defaultArena .init doubleVend = some w ∧
    w.log = [.handOut 0, .handOut 0, .freed 0, .freed 0, .handOut 0] ∧ ¬ Vending 0 w.log := by
  have ran : (run defaultArena .init doubleVend).map World.log =
      some [.handOut 0, .handOut 0, .freed 0, .freed 0, .handOut 0] := by decide
  obtain ⟨w, ran, log⟩ := Option.map_eq_some_iff.mp ran
  refine ⟨w, ran, log, fun vending => ?_⟩
  have freed := vending.2 [] [] [.freed 0, .freed 0, .handOut 0] log
  contradiction

end Topomalloc.Race
