import Topomalloc.Backlog

/-! The pressure mode, the demand reserve and the recent peak of the release
controller.

A mode is left only past the margin below the threshold it was entered at. The
margin is that of the mode being left: a step from `Hard` straight down to
`Normal` honours the margin of `Hard`, and none below the `Soft` threshold that
it crosses as well. The reserve is withheld from the empty hugepages; the dirty
and the muzzy rungs are planned in full. The recent peak that caps the reserve
depends on the time since it was anchored, not on the ticks made since. -/
namespace Topomalloc
namespace Release

/-- No emergency condition was observed. -/
def ReleaseInputs.Calm (i : ReleaseInputs) : Prop := i.allocFailed = false ∧ i.cgroupCritical = false

/-- The utilisation as a number; it is always known. -/
def ReleaseInputs.utilization (i : ReleaseInputs) : Nat := i.utilizationBp.getD 0

theorem ReleaseInputs.utilizationBp_eq (i : ReleaseInputs) : i.utilizationBp = some i.utilization := by
  obtain ⟨u, known⟩ := i.utilizationBp_some
  rw [utilization, known]
  rfl

/-- Everything a tick counts as free. -/
def ReleaseInputs.free (i : ReleaseInputs) : Nat :=
  i.idleCacheBytes.toNat + i.dirtyBytes.toNat + i.muzzyBytes.toNat + i.emptyBackedHugepageBytes.toNat

/-- The bytes a plan returns to the system. -/
def ReleasePlan.returned (p : ReleasePlan) : Nat :=
  p.bytes .releaseEmptyHugepages + p.bytes .purgeDirty + p.bytes .releaseMuzzy

namespace ReleaseController
variable {c : ReleaseController} {now : UInt64} {i : ReleaseInputs} {t : Ticked}

/-- Notifications rose since the last tick. -/
def pressureRose (c : ReleaseController) (i : ReleaseInputs) : Bool :=
  decide (i.pressureNotifications > c.lastPressureNotifications)

/-- The recent peak with which a tick caps its reserve. -/
def peakAt (c : ReleaseController) (now : UInt64) (i : ReleaseInputs) : Option UInt64 :=
  (c.anchorPeak now i).recentPeak now i

/-! ## What a tick reads and leaves -/

/-- How a tick came to its mode, its anchor and its reserve, and what it withheld. -/
structure Ran (c : ReleaseController) (now : UInt64) (t : Ticked) : Prop where
  thresholds : t.next.thresholds = c.thresholds
  mode : c.classifyMode t.inputs (c.pressureRose t.inputs) = some t.next.mode
  planned : t.plan.mode = t.next.mode
  peak : t.next.recentPeakFree = (c.anchorPeak now t.inputs).recentPeakFree
  anchor : t.next.peakAnchorMs = (c.anchorPeak now t.inputs).peakAnchorMs
  capped : ∃ peak, c.peakAt now t.inputs = some peak ∧ demandReserve t.next.allocRateBps peak
    t.inputs.refillMissRatePpk t.next.mode = some t.plan.demandReserveBytes
  reserve : t.plan.demandReserveBytes = t.next.demandReserveBytes
  withheld : t.next.mode ≠ .emergency → t.plan.bytes .releaseEmptyHugepages ≤
    t.inputs.emptyBackedHugepageBytes.toNat - t.next.demandReserveBytes.toNat

theorem anchorPeak_frame (c : ReleaseController) (now : UInt64) (i : ReleaseInputs) :
    (c.anchorPeak now i).thresholds = c.thresholds ∧ (c.anchorPeak now i).mode = c.mode ∧
      (c.anchorPeak now i).lastPressureNotifications = c.lastPressureNotifications := by
  unfold anchorPeak
  split <;> exact ⟨rfl, rfl, rfl⟩

theorem stampClocks_frame (c : ReleaseController) (now : UInt64) (i : ReleaseInputs) :
    (c.stampClocks now i).thresholds = c.thresholds ∧ (c.stampClocks now i).mode = c.mode ∧
      (c.stampClocks now i).lastPressureNotifications = c.lastPressureNotifications ∧
      (c.stampClocks now i).recentPeakFree = c.recentPeakFree ∧
      (c.stampClocks now i).peakAnchorMs = c.peakAnchorMs ∧
      (c.stampClocks now i).allocRateBps = c.allocRateBps := by
  unfold stampClocks
  dsimp only
  split <;> split <;> exact ⟨rfl, rfl, rfl, rfl, rfl, rfl⟩

theorem planLadder_withheld (reserve : UInt64) (dirtyAged muzzyAged : Bool) :
    (c.planLadder i reserve dirtyAged muzzyAged).demandReserveBytes = reserve ∧ (c.mode ≠ .emergency →
        (c.planLadder i reserve dirtyAged muzzyAged).bytes .releaseEmptyHugepages ≤
          i.emptyBackedHugepageBytes.toNat - reserve.toNat) := by
  unfold planLadder
  dsimp only
  split
  · exact ⟨rfl, fun _ => Nat.zero_le _⟩
  split
  · exact ⟨rfl, fun _ => Nat.zero_le _⟩
  refine ⟨rfl, fun calm => ?_⟩
  have awake : (c.mode == .emergency) = false := by simpa using calm
  simp only [awake, Bool.false_eq_true, if_false]
  split
  · rw [satSub_toNat]
  · exact Nat.zero_le _

theorem tick_ran (c : ReleaseController) (now : UInt64) (i : ReleaseInputs) :
    ∃ t, c.tick now i = some t ∧ t.inputs = i ∧ Ran c now t := by
  obtain ⟨uncapped, c₁, observed, -, -, -, -, mode, -⟩ := observe_some c now i
  obtain ⟨plan, c₂, capped, -, mode', less, -⟩ := capPlan_some c₁ now uncapped
  simp only [tick, observed, capped, Option.bind_eq_bind, Option.bind_some]
  -- the rate cap leaves everything but the plan's bytes and the backlog
  have kept : c₂ = { c₁ with backlogBytes := c₂.backlogBytes } ∧
      plan.demandReserveBytes = uncapped.demandReserveBytes := by
    unfold capPlan at capped
    dsimp only at capped
    split at capped
    · obtain ⟨budget, -, rest⟩ := Option.bind_eq_some_iff.mp capped
      obtain ⟨rfl, rfl⟩ := Prod.mk.inj (Option.some.inj rest)
      exact ⟨rfl, rfl⟩
    · obtain ⟨rfl, rfl⟩ := Prod.mk.inj (Option.some.inj capped)
      exact ⟨rfl, rfl⟩
  obtain ⟨same, reserve⟩ := kept
  rw [same]
  obtain ⟨thresholds, modes, notified⟩ := c.anchorPeak_frame now i
  unfold observe at observed
  simp only [Option.bind_eq_bind, Option.bind_eq_some_iff, Option.pure_def, Option.some.injEq,
    Prod.mk.injEq] at observed
  obtain ⟨cap, peaked, allocRate, -, freeRate, -, next, classified, withheld, reserved, rfl, rfl⟩ := observed
  obtain ⟨thresholds', modes', notified', peak, anchor, rate⟩ := stampClocks_frame
    { c.anchorPeak now i with allocRateBps := allocRate, freeRateBps := freeRate } now i
  generalize ReleaseController.stampClocks _ now i = c₃ at *
  refine ⟨_, rfl, rfl, ?_⟩
  exact {
    thresholds := thresholds'.trans thresholds
    mode := by
      have before : c₃.mode = c.mode := modes'.trans modes
      have under : c₃.thresholds = c.thresholds := thresholds'.trans thresholds
      have since : c₃.lastPressureNotifications = c.lastPressureNotifications := notified'.trans notified
      rw [since] at classified
      unfold classifyMode at classified ⊢
      rw [before, under] at classified
      exact classified
    planned := by rw [mode', mode]
    peak := peak
    anchor := anchor
    capped := ⟨cap, peaked, by rw [reserve, (planLadder_withheld _ _ _).1, rate, reserved]⟩
    reserve := by rw [reserve, (planLadder_withheld _ _ _).1]
    withheld := fun calm => (less _).trans ((planLadder_withheld _ _ _).2 calm) }

/-! ## The margins -/

/-- A calm tick from `mode` to `next` steps down only past the margin of the mode
it leaves, and to `Normal` only below the `Soft` threshold. -/
structure StepsDown (th : PressureThresholds) (u : Nat) (mode next : PressureMode) : Prop where
  calm : next ≠ .emergency
  hard : mode = .hard → next ≠ .hard → u < th.hardBp.toNat - th.hysteresisBp.toNat
  soft : mode = .soft → next = .normal → u < th.softBp.toNat - th.hysteresisBp.toNat
  normal : next = .normal → u < th.softBp.toNat

theorem stepsDown_of_classified (calm : i.Calm) (classified : c.classifyMode i rose = some next) :
    StepsDown c.thresholds i.utilization c.mode next := by
  unfold classifyMode at classified
  rw [calm.1, calm.2, i.utilizationBp_eq] at classified
  simp only [Bool.or_self, Bool.false_eq_true, if_false, Option.bind_eq_bind, Option.bind_some]
    at classified
  generalize i.utilization = u at classified ⊢
  generalize c.mode = mode at classified ⊢
  constructor <;> grind [PressureMode.severity]

/-- Every tick of a run honours the margins, from the mode the run starts in. -/
def HonoursMargins (th : PressureThresholds) : (mode : PressureMode) → List Ticked → Prop
  | _, [] => True
  | mode, t :: ts =>
    StepsDown th t.inputs.utilization mode t.next.mode ∧ HonoursMargins th t.next.mode ts

theorem run_honours_margins (c : ReleaseController) (ticks : List (UInt64 × ReleaseInputs))
    (calm : ∀ tick ∈ ticks, tick.2.Calm) :
    ∃ ts, c.run ticks = some ts ∧ HonoursMargins c.thresholds c.mode ts := by
  induction ticks generalizing c with
  | nil => exact ⟨[], rfl, trivial⟩
  | cons head rest ih =>
    obtain ⟨now, i⟩ := head
    obtain ⟨t, ticked, rfl, ran⟩ := tick_ran c now i
    obtain ⟨ts, later, honoured⟩ := ih t.next fun tick member => calm tick (List.mem_cons_of_mem _ member)
    simp only [run, ticked, later, Option.bind_eq_bind, Option.bind_some]
    rw [ran.thresholds] at honoured
    exact ⟨_, rfl, stepsDown_of_classified (calm _ List.mem_cons_self) ran.mode, honoured⟩

/-- The one case in which the severer of two controllers lands below the other: it
leaves `Hard` for `Normal` where the other stays `Soft` by its margin. -/
def Overshoots (c c' : ReleaseController) (i : ReleaseInputs) : Prop :=
  c.mode = .soft ∧ c'.mode = .hard ∧ c.pressureRose i = false ∧
    c.thresholds.softBp.toNat - c.thresholds.hysteresisBp.toNat ≤ i.utilization ∧
    i.utilization < c.thresholds.softBp.toNat ∧
    i.utilization < c.thresholds.hardBp.toNat - c.thresholds.hysteresisBp.toNat

theorem classified_below_iff
    (calm : i.Calm) (thresholds : c'.thresholds = c.thresholds) (awake : c'.mode ≠ .emergency)
    (severer : c.mode.severity ≤ c'.mode.severity) (notified : c.pressureRose i = rose)
    (first : c.classifyMode i rose = some next) (second : c'.classifyMode i rose = some next') :
    next'.severity < next.severity ↔ Overshoots c c' i := by
  unfold classifyMode at first second
  rw [calm.1, calm.2, i.utilizationBp_eq] at first second
  simp only [Bool.or_self, Bool.false_eq_true, if_false, Option.bind_eq_bind, Option.bind_some]
    at first second
  unfold Overshoots
  rw [notified]
  rw [thresholds] at second
  generalize i.utilization = u at *
  generalize c.mode = mode at *
  generalize c'.mode = mode' at *
  cases mode <;> cases mode' <;> grind [PressureMode.severity]

/-- Margins over a whole run of calm ticks; and of two controllers given the same
tick the severer lands below the other exactly when it overshoots. -/
theorem modes_step_down :
    (∀ (c : ReleaseController) (ticks : List (UInt64 × ReleaseInputs)), (∀ tick ∈ ticks, tick.2.Calm) →
      ∃ ts, c.run ticks = some ts ∧ HonoursMargins c.thresholds c.mode ts) ∧
    ∀ (c c' : ReleaseController) (now : UInt64) (i : ReleaseInputs), i.Calm → c'.thresholds = c.thresholds →
      c'.lastPressureNotifications = c.lastPressureNotifications →
      c.mode.severity ≤ c'.mode.severity → c'.mode ≠ .emergency →
      ∃ t t', c.tick now i = some t ∧ c'.tick now i = some t' ∧
        (t'.next.mode.severity < t.next.mode.severity ↔ Overshoots c c' i) := by
  refine ⟨run_honours_margins, ?_⟩
  intro c c' now i calm thresholds notified severer awake
  obtain ⟨t, ticked, rfl, ran⟩ := tick_ran c now i
  obtain ⟨t', ticked', same, ran'⟩ := tick_ran c' now t.inputs
  have rose : c'.pressureRose t.inputs = c.pressureRose t.inputs := by
    rw [pressureRose, notified, pressureRose]
  have second := ran'.mode
  rw [same, rose] at second
  exact ⟨t, t', ticked, ticked', classified_below_iff calm thresholds awake severer rfl ran.mode second⟩

/-- A controller with the default settings in the given mode. -/
def defaultIn (mode : PressureMode) : ReleaseController :=
  { config := ⟨0, 0, 0, true⟩, thresholds := {}, maxLatency := .mayBlock, mode }

theorem modes_step_down_default :
    (∃ ts, (defaultIn .hard).run [(0, { cgroupCurrent := 80, cgroupMax := 100 })] = some ts ∧
      HonoursMargins {} .hard ts) ∧
    ∃ t t', (defaultIn .soft).tick 0 { cgroupCurrent := 72, cgroupMax := 100 } = some t ∧
      (defaultIn .hard).tick 0 { cgroupCurrent := 72, cgroupMax := 100 } = some t' ∧
      (t'.next.mode.severity < t.next.mode.severity ↔
        Overshoots (defaultIn .soft) (defaultIn .hard) { cgroupCurrent := 72, cgroupMax := 100 }) :=
  ⟨modes_step_down.1 (defaultIn .hard) _ (by simp [ReleaseInputs.Calm, ReleaseInputs.cgroupCritical]),
    modes_step_down.2 _ _ 0 _ ⟨rfl, rfl⟩ rfl rfl (by decide) (by decide)⟩

/-- From `Hard` at 92% a reading of 72%, above the 70% at which `Soft` is left, lands
in `Normal`; a controller in `Soft` stays there. -/
theorem hard_drops_past_soft :
    ((run (defaultIn .normal) [(0, { cgroupCurrent := 92, cgroupMax := 100 }),
        (1, { cgroupCurrent := 72, cgroupMax := 100 })]).map fun ts =>
      ts.map fun t => (t.inputs.utilization, t.next.mode)) =
      some [(9200, .hard), (7200, .normal)] ∧
    ((defaultIn .soft).tick 1 { cgroupCurrent := 72, cgroupMax := 100 }).map (fun t => t.next.mode) =
      some .soft ∧ ¬ 7200 < 7500 - 500 := by
  decide +kernel

/-! ## The reserve -/

/-- A plan outside an emergency withholds the reserve from the empty hugepages: of
the free memory it leaves the idle caches and as much of the reserve as the empty
hugepages cover. -/
theorem tick_withholds_reserve (c : ReleaseController) (now : UInt64) (i : ReleaseInputs) :
    ∃ t, c.tick now i = some t ∧ t.plan.demandReserveBytes = t.next.demandReserveBytes ∧
      (t.plan.mode ≠ .emergency → t.plan.bytes .releaseEmptyHugepages ≤ i.emptyBackedHugepageBytes.toNat -
          min t.plan.demandReserveBytes.toNat i.emptyBackedHugepageBytes.toNat ∧
        t.plan.returned ≤ i.free - i.idleCacheBytes.toNat -
          min t.plan.demandReserveBytes.toNat i.emptyBackedHugepageBytes.toNat ∧
        (t.plan.demandReserveBytes.toNat ≤ i.idleCacheBytes.toNat + i.emptyBackedHugepageBytes.toNat →
          t.plan.returned ≤ i.free - min t.plan.demandReserveBytes.toNat i.free)) := by
  obtain ⟨t, ticked, same, ran⟩ := tick_ran c now i
  obtain ⟨t', ticked', inOrder, -⟩ := tick_some c now i
  obtain rfl : t = t' := Option.some.inj (ticked.symm.trans ticked')
  refine ⟨t, ticked, ran.reserve, fun calm => ?_⟩
  have withheld := ran.withheld (ran.planned ▸ calm)
  have dirty := inOrder.supplied .purgeDirty
  have muzzy := inOrder.supplied .releaseMuzzy
  rw [same] at withheld dirty muzzy
  simp only [ReleaseInputs.supply, ReleaseInputs.purgeableDirty, satSub_toNat] at dirty muzzy
  rw [ran.reserve]
  unfold ReleasePlan.returned ReleaseInputs.free
  omega

/-- A megabyte allocated in a second makes the reserve a megabyte; all free memory is
dirty, and the plan purges all of it. -/
theorem aged_dirty_ignores_reserve :
    (run (defaultIn .normal) [(0, {}), (1000, { allocatedBytesTotal := 1000000, dirtyBytes := 1000000 })]).map
      (fun ts => ts.map fun t =>
        (t.plan.mode, t.inputs.free, t.plan.demandReserveBytes, t.plan.returned)) =
      some [(.normal, 0, 0, 0), (.normal, 1000000, 1000000, 1000000)] := by
  decide +kernel

/-! ## The recent peak -/

/-- A tick makes its reserve with the recent peak `peak`. -/
def CapsWith (c : ReleaseController) (now : UInt64) (i : ReleaseInputs) (peak : UInt64) : Prop :=
  ∃ t, c.tick now i = some t ∧ demandReserve t.next.allocRateBps peak i.refillMissRatePpk
    t.next.mode = some t.plan.demandReserveBytes

theorem capsWith_of_peakAt (found : c.peakAt now i = some peak) : c.CapsWith now i peak := by
  obtain ⟨t, ticked, rfl, ran⟩ := tick_ran c now i
  obtain ⟨peak', found', reserved⟩ := ran.capped
  obtain rfl : peak = peak' := Option.some.inj (found.symm.trans found')
  exact ⟨t, ticked, reserved⟩

/-- The controller after a run of ticks. -/
def after (c : ReleaseController) : List (UInt64 × ReleaseInputs) → Option ReleaseController
  | [] => some c
  | (now, i) :: rest => do
    let t ← c.tick now i
    after t.next rest

/-- The peak `p` relaxed toward `f` for `age` milliseconds. -/
def relaxed (p f age : Nat) : Nat := f + (p - f) * (peakDecayMs - min age peakDecayMs) / peakDecayMs

theorem relaxed_self (f age : Nat) : relaxed f f age = f := by
  simp [relaxed]

theorem relaxed_aged (aged : peakDecayMs ≤ age) : relaxed p f age = f := by
  simp [relaxed, Nat.min_eq_right aged]

theorem relaxed_le (age : Nat) (le : f ≤ p) : relaxed p f age ≤ p := by
  have share : (p - f) * (peakDecayMs - min age peakDecayMs) / peakDecayMs ≤ p - f := by
    refine Nat.div_le_of_le_mul ?_
    rw [Nat.mul_comm peakDecayMs]
    exact Nat.mul_le_mul_left _ (Nat.sub_le _ _)
  unfold relaxed
  omega

theorem recentPeak_toNat (held : freeNow i ≤ c.recentPeakFree) :
    ∃ peak, c.recentPeak now i = some peak ∧ peak.toNat =
      relaxed c.recentPeakFree.toNat (freeNow i).toNat (now.toNat - c.peakAnchorMs.toNat) := by
  have bound := relaxed_le (now.toNat - c.peakAnchorMs.toNat) (UInt64.le_iff_toNat_le.mp held)
  have small := c.recentPeakFree.toNat_lt
  unfold recentPeak minus
  rw [if_pos held]
  simp only [Option.bind_eq_bind, Option.bind_some]
  rw [u128_mul _ (by rw [peakDecayMs, reserveWindowMs]; omega), satSub_toNat, UInt64.toNat_sub_of_le _ _ held]
  unfold relaxed at bound ⊢
  simp only [Option.bind_some, u64]
  generalize _ / peakDecayMs = rest at bound ⊢
  have narrow : rest < 2 ^ 64 := by omega
  rw [if_pos narrow]
  refine ⟨_, rfl, ?_⟩
  rw [satAdd, saturate_toNat, UInt64.toNat_ofNat_of_lt' narrow]
  omega

/-- The peak is the one anchored at `start`, or it has come down to `f` for good by
the time `stop`. -/
def Held (p start f stop : Nat) (c : ReleaseController) : Prop :=
  c.recentPeakFree.toNat = p ∧ c.peakAnchorMs.toNat = start ∨
    c.recentPeakFree.toNat = f ∧ (f = p ∨ peakDecayMs ≤ stop - start)

theorem Held.anchorPeak (held : Held p start f stop c) (le : f ≤ p) (free : (freeNow i).toNat = f)
    (before : now.toNat ≤ stop) : Held p start f stop (c.anchorPeak now i) := by
  unfold ReleaseController.anchorPeak
  split
  · rename_i again
    rw [ge_iff_le, UInt64.le_iff_toNat_le, satSub_toNat] at again
    refine .inr ⟨free, ?_⟩
    rcases held with ⟨peak, anchor⟩ | ⟨-, settled⟩
    · rcases again with high | aged
      · exact .inl (by omega)
      · exact .inr (by omega)
    · exact settled
  · exact held

theorem Held.peakAt (held : Held p start f stop.toNat c) (le : f ≤ p) (free : (freeNow i).toNat = f) :
    ∃ peak, c.peakAt stop i = some peak ∧ peak.toNat = relaxed p f (stop.toNat - start) := by
  have top : freeNow i ≤ (c.anchorPeak stop i).recentPeakFree := freeNow_le_anchor
  obtain ⟨peak, found, value⟩ := recentPeak_toNat top
  refine ⟨peak, found, ?_⟩
  rw [value, free]
  rcases held.anchorPeak le free (Nat.le_refl _) with ⟨top, anchor⟩ | ⟨low, rfl | aged⟩
  · rw [top, anchor]
  · rw [low, relaxed_self, relaxed_self]
  · rw [low, relaxed_self, relaxed_aged aged]

theorem Held.after (held : Held p start f stop c) (le : f ≤ p)
    (steady : ∀ tick ∈ ticks, tick.1.toNat ≤ stop ∧ (freeNow tick.2).toNat = f) :
    ∃ c', c.after ticks = some c' ∧ Held p start f stop c' := by
  induction ticks generalizing c with
  | nil => exact ⟨c, rfl, held⟩
  | cons head rest ih =>
    obtain ⟨now, i⟩ := head
    obtain ⟨before, free⟩ := steady _ List.mem_cons_self
    obtain ⟨t, ticked, rfl, ran⟩ := tick_ran c now i
    have next : Held p start f stop t.next := by
      unfold Held
      rw [ran.peak, ran.anchor]
      exact held.anchorPeak le free before
    obtain ⟨c', later, final⟩ := ih next fun tick member => steady tick (List.mem_cons_of_mem _ member)
    exact ⟨c', by simp only [ReleaseController.after, ticked, Option.bind_eq_bind, Option.bind_some, later], final⟩

/-- Whatever ticks were made since the peak was anchored, a tick at `stop` caps its
reserve with the same recent peak, as long as the free supply stayed the same. -/
theorem peak_at_any_cadence (c : ReleaseController) (f : UInt64) (below : f ≤ c.recentPeakFree)
    (stop : UInt64) (i j : ReleaseInputs) (ticks others : List (UInt64 × ReleaseInputs))
    (ordered : (ticks.map Prod.fst ++ [stop]).Pairwise (· ≤ ·))
    (ordered' : (others.map Prod.fst ++ [stop]).Pairwise (· ≤ ·))
    (steady : ∀ tick ∈ (stop, i) :: ticks, freeNow tick.2 = f)
    (steady' : ∀ tick ∈ (stop, j) :: others, freeNow tick.2 = f) :
    ∃ c₁ c₂ peak, c.after ticks = some c₁ ∧ c.after others = some c₂ ∧
      c₁.peakAt stop i = some peak ∧ c₂.peakAt stop j = some peak ∧
      c₁.CapsWith stop i peak ∧ c₂.CapsWith stop j peak := by
  have le := UInt64.le_iff_toNat_le.mp below
  have held : Held c.recentPeakFree.toNat c.peakAnchorMs.toNat f.toNat stop.toNat c := .inl ⟨rfl, rfl⟩
  have ends : ∀ (ticks : List (UInt64 × ReleaseInputs)) (i : ReleaseInputs),
      (ticks.map Prod.fst ++ [stop]).Pairwise (· ≤ ·) →
      (∀ tick ∈ (stop, i) :: ticks, freeNow tick.2 = f) →
      ∃ c' peak, c.after ticks = some c' ∧ c'.peakAt stop i = some peak ∧ peak.toNat =
        relaxed c.recentPeakFree.toNat f.toNat (stop.toNat - c.peakAnchorMs.toNat) := by
    intro ticks i ordered steady
    obtain ⟨-, -, before⟩ := List.pairwise_append.mp ordered
    have kept : ∀ tick ∈ ticks, tick.1.toNat ≤ stop.toNat ∧ (freeNow tick.2).toNat = f.toNat :=
      fun tick member =>
        ⟨UInt64.le_iff_toNat_le.mp (before _ (List.mem_map_of_mem member) _ List.mem_cons_self),
          congrArg UInt64.toNat (steady tick (List.mem_cons_of_mem _ member))⟩
    obtain ⟨c', ran, final⟩ := held.after le kept
    obtain ⟨peak, found, value⟩ := final.peakAt le
      (congrArg UInt64.toNat (steady (stop, i) List.mem_cons_self))
    exact ⟨c', peak, ran, found, value⟩
  obtain ⟨c₁, peak, ran, found, value⟩ := ends ticks i ordered steady
  obtain ⟨c₂, peak', ran', found', value'⟩ := ends others j ordered' steady'
  obtain rfl : peak = peak' := UInt64.toNat_inj.mp (value.trans value'.symm)
  exact ⟨c₁, c₂, peak, ran, ran', found, found', capsWith_of_peakAt found, capsWith_of_peakAt found'⟩

/-- A megabyte anchored at time 0, half of it left: one tick at four seconds, or two
ticks before it. -/
theorem peak_at_any_cadence_halved :
    ∃ c₁ c₂ peak,
      ({ defaultIn .normal with recentPeakFree := 1000000 } : ReleaseController).after [] = some c₁ ∧
      ({ defaultIn .normal with recentPeakFree := 1000000 } : ReleaseController).after
        [(1, { dirtyBytes := 500000 }), (3999, { dirtyBytes := 500000 })] = some c₂ ∧
      c₁.peakAt 4000 { dirtyBytes := 500000 } = some peak ∧
      c₂.peakAt 4000 { dirtyBytes := 500000 } = some peak ∧
      c₁.CapsWith 4000 { dirtyBytes := 500000 } peak ∧ c₂.CapsWith 4000 { dirtyBytes := 500000 } peak :=
  peak_at_any_cadence _ 500000 (by decide) 4000 _ _ [] _ (by decide) (by decide)
    (by decide +kernel) (by decide +kernel)

end ReleaseController
end Release
end Topomalloc
