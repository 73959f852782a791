import Topomalloc.Machine
import Topomalloc.Lib.Budget

/-! The release controller of `release.rs`: from a clock reading and an
observation of the heap it plans how many bytes to give back on each rung of
the release ladder, under a rate cap.

Inputs and settings have the source's machine types. Intermediate results are
natural numbers, and each plain `+`, `-`, `*` and narrowing cast of the source
is a checked step here: a tick answers `none` if one of them would leave its
type. -/
namespace Topomalloc
namespace Release
open Function

/-! ## Checked and saturating arithmetic -/

/-- A `u64` result. -/
def u64 (x : Nat) : Option UInt64 := if x < 2 ^ 64 then some (.ofNat x) else none

/-- A `u128` result. -/
def u128 (x : Nat) : Option Nat := if x < 2 ^ 128 then some x else none

/-- A `u64` subtraction. -/
def minus (a b : UInt64) : Option UInt64 := if b ≤ a then some (a - b) else none

/-- `min(u64::MAX) as u64`. -/
def saturate (x : Nat) : UInt64 := .ofNat (min x (2 ^ 64 - 1))

/-- `u64::saturating_add`. -/
def satAdd (a b : UInt64) : UInt64 := saturate (a.toNat + b.toNat)

/-- `u64::saturating_sub`. -/
def satSub (a b : UInt64) : UInt64 := if b ≤ a then a - b else 0

/-! ## Settings and observations -/

structure DecayConfig where
  dirtyDecayMs : UInt64
  muzzyDecayMs : UInt64
  releaseRateBytesPerSec : UInt64
  backgroundPurgeEnabled : Bool
  deriving DecidableEq, Repr

structure PressureThresholds where
  softBp : UInt32 := 7500
  hardBp : UInt32 := 9000
  hysteresisBp : UInt32 := 500
  deriving DecidableEq, Repr

inductive PressureMode
  | normal
  | soft
  | hard
  | emergency
  deriving DecidableEq, Repr, Inhabited

def PressureMode.severity : PressureMode → Nat
  | .normal => 0
  | .soft => 1
  | .hard => 2
  | .emergency => 3

inductive LatencyClass
  | fastOnly
  | boundedSlow
  | mayBlock
  deriving DecidableEq, Repr, Inhabited

def LatencyClass.rank : LatencyClass → Nat
  | .fastOnly => 0
  | .boundedSlow => 1
  | .mayBlock => 2

def LatencyClass.permittedUnder (step tolerance : LatencyClass) : Bool := decide (step.rank ≤ tolerance.rank)

/-- The fields of `ReleaseInputs` that a tick reads. -/
structure ReleaseInputs where
  dirtyBytes : UInt64 := 0
  hotDirtyBytes : UInt64 := 0
  muzzyBytes : UInt64 := 0
  idleCacheBytes : UInt64 := 0
  emptyBackedHugepageBytes : UInt64 := 0
  coldSparseBytes : UInt64 := 0
  allocatedBytesTotal : UInt64 := 0
  freedBytesTotal : UInt64 := 0
  refillMissRatePpk : UInt32 := 0
  cgroupCurrent : UInt64 := 0
  cgroupMax : UInt64 := 0
  pressureNotifications : UInt64 := 0
  allocFailed : Bool := false
  cpuPressure : Bool := false
  deriving DecidableEq, Repr

namespace ReleaseInputs
variable (i : ReleaseInputs)

/-- `purgeable_dirty`. -/
def purgeableDirty : UInt64 := satSub i.dirtyBytes i.hotDirtyBytes

/-- `utilization_bp`. -/
def utilizationBp : Option Nat :=
  if i.cgroupMax = 0 then some 0
  else do
    let product ← u128 (i.cgroupCurrent.toNat * 10000)
    pure (min (product / i.cgroupMax.toNat) (2 ^ 32 - 1))

/-- `cgroup_critical`. -/
def cgroupCritical : Bool := i.cgroupMax != 0 && decide (i.cgroupCurrent ≥ i.cgroupMax)

end ReleaseInputs

/-! ## Plans -/

/-- The rungs of the release ladder. -/
inductive Rung
  | drainCaches
  | releaseEmptyHugepages
  | purgeDirty
  | dirtyToMuzzy
  | subreleaseColdSparse
  | releaseMuzzy
  | emergencyShrink
  deriving DecidableEq, Repr

/-- The rungs in the order they are funded. -/
def ladder : List Rung :=
  [.drainCaches, .releaseEmptyHugepages, .purgeDirty, .dirtyToMuzzy, .subreleaseColdSparse,
    .releaseMuzzy, .emergencyShrink]

/-- What an observation offers on each rung. -/
def ReleaseInputs.supply (i : ReleaseInputs) : Rung → Nat
  | .drainCaches => i.idleCacheBytes.toNat
  | .releaseEmptyHugepages => i.emptyBackedHugepageBytes.toNat
  | .purgeDirty | .dirtyToMuzzy => i.purgeableDirty.toNat
  | .subreleaseColdSparse => i.coldSparseBytes.toNat
  | .releaseMuzzy | .emergencyShrink => i.muzzyBytes.toNat

/-- `ReleasePlan`, the byte fields by rung. -/
structure ReleasePlan where
  mode : PressureMode := .normal
  demandReserveBytes : UInt64 := 0
  bytes : Rung → Nat := fun _ => 0
  disableHugecacheReserve : Bool := false

namespace ReleasePlan

/-- The bytes the plan asks for over all rungs. -/
def planned (p : ReleasePlan) : Nat := (ladder.map p.bytes).sum

/-- `total_bytes`, which saturates at every addition. -/
def totalBytes (p : ReleasePlan) : UInt64 :=
  (ladder.tail.map p.bytes).foldl (fun sum b => satAdd sum (saturate b)) (saturate (p.bytes .drainCaches))

end ReleasePlan

/-- `scale_plan_to_budget`. -/
def scalePlanToBudget (p : ReleasePlan) (budget : UInt64) : ReleasePlan :=
  { p with bytes := Budget.grant ladder p.bytes budget.toNat }

/-! ## Rates -/

/-- `RESERVE_WINDOW_MS`. -/
def reserveWindowMs : Nat := 1000

/-- `PEAK_DECAY_MS`. -/
def peakDecayMs : Nat := 8 * reserveWindowMs

/-- `rate_per_sec`. -/
def ratePerSec (delta elapsed : UInt64) : Option UInt64 :=
  if elapsed = 0 then some 0
  else do
    let product ← u128 (delta.toNat * 1000)
    pure (saturate (product / elapsed.toNat))

/-- `rate_budget`. -/
def rateBudget (rate elapsed : UInt64) (first : Bool) : Option UInt64 :=
  if elapsed = 0 ∧ first = false then some 0
  else do
    let ms := if elapsed = 0 then reserveWindowMs else elapsed.toNat
    let product ← u128 (rate.toNat * ms)
    pure (saturate (product / 1000))

/-- `demand_reserve`. -/
def demandReserve (allocRate recentPeak : UInt64) (missRate : UInt32) (mode : PressureMode) :
    Option UInt64 := do
  let product ← u128 (allocRate.toNat * reserveWindowMs)
  let base := product / 1000
  let missed ← u128 (base * missRate.toNat)
  let scaled ← u128 (base + missed / 1000)
  let capped := min scaled recentPeak.toNat
  pure <| saturate <| match mode with
    | .normal => capped
    | .soft => capped / 2
    | .hard => capped / 4
    | .emergency => 0

/-! ## The controller -/

/-- `ReleaseController`, without the statistics that no tick reads back. -/
structure ReleaseController where
  config : DecayConfig
  thresholds : PressureThresholds
  maxLatency : LatencyClass
  mode : PressureMode := .normal
  lastTickMs : UInt64 := 0
  started : Bool := false
  dirtySinceMs : UInt64 := 0
  dirtyPresent : Bool := false
  muzzySinceMs : UInt64 := 0
  muzzyPresent : Bool := false
  lastAllocatedTotal : UInt64 := 0
  lastFreedTotal : UInt64 := 0
  lastPressureNotifications : UInt64 := 0
  recentPeakFree : UInt64 := 0
  peakAnchorMs : UInt64 := 0
  allocRateBps : UInt64 := 0
  freeRateBps : UInt64 := 0
  demandReserveBytes : UInt64 := 0
  backlogBytes : UInt64 := 0
  deriving DecidableEq, Repr

namespace ReleaseController
variable (c : ReleaseController) (now : UInt64) (i : ReleaseInputs)

/-- The time since the last tick; a first tick has none. -/
def elapsedMs : UInt64 := if c.started then satSub now c.lastTickMs else 0

/-- Releasable free memory. -/
def freeNow : UInt64 :=
  satAdd (satAdd (satAdd i.idleCacheBytes i.dirtyBytes) i.muzzyBytes) i.emptyBackedHugepageBytes

/-- Anchor the recent peak at a new high, or once the old anchor has aged out. -/
def anchorPeak : ReleaseController :=
  if freeNow i ≥ c.recentPeakFree ∨ (satSub now c.peakAnchorMs).toNat ≥ peakDecayMs then
    { c with recentPeakFree := freeNow i, peakAnchorMs := now }
  else c

/-- The anchored peak, relaxed toward the current free memory by its age. -/
def recentPeak : Option UInt64 := do
  let age := min (satSub now c.peakAnchorMs).toNat peakDecayMs
  let excess ← minus c.recentPeakFree (freeNow i)
  let product ← u128 (excess.toNat * (peakDecayMs - age))
  let remaining ← u64 (product / peakDecayMs)
  pure (satAdd (freeNow i) remaining)

/-- The two decay clocks: each is stamped when its kind of memory appears. -/
def stampClocks : ReleaseController :=
  let c := if i.dirtyBytes = 0 ∨ c.dirtyPresent = false then
      { c with dirtyPresent := i.dirtyBytes != 0, dirtySinceMs := now }
    else c
  if i.muzzyBytes = 0 ∨ c.muzzyPresent = false then
    { c with muzzyPresent := i.muzzyBytes != 0, muzzySinceMs := now }
  else c

/-- `classify_mode`. -/
def classifyMode (pressureRose : Bool) : Option PressureMode :=
  if i.allocFailed || i.cgroupCritical then some .emergency
  else do
    let u ← i.utilizationBp
    let raw : PressureMode :=
      if u ≥ c.thresholds.hardBp.toNat then .hard
      else if u ≥ c.thresholds.softBp.toNat then .soft
      else .normal
    let raw := if pressureRose && decide (raw.severity < PressureMode.soft.severity) then .soft else raw
    if raw.severity ≥ c.mode.severity then pure raw
    else
      let stay := match c.mode with
        | .emergency | .normal => false
        | .hard => decide (u ≥ c.thresholds.hardBp.toNat - c.thresholds.hysteresisBp.toNat)
        | .soft => decide (u ≥ c.thresholds.softBp.toNat - c.thresholds.hysteresisBp.toNat)
      pure (if stay then c.mode else raw)

/-- `plan_ladder`, for the mode the controller is in. -/
def planLadder (reserve : UInt64) (dirtyAged muzzyAged : Bool) : ReleasePlan :=
  let sev := c.mode.severity
  let emergency := c.mode == .emergency
  let may (step : LatencyClass) : Bool := step.permittedUnder c.maxLatency
  let plan : ReleasePlan := { mode := c.mode, demandReserveBytes := reserve }
  if !c.config.backgroundPurgeEnabled && !emergency then plan
  else if i.cpuPressure && !emergency then plan
  else
    let purge := if dirtyAged && may .mayBlock then i.purgeableDirty.toNat else 0
    { plan with
      disableHugecacheReserve := emergency
      bytes := fun
        | .drainCaches =>
          if may .fastOnly then
            match sev with
            | 0 => i.idleCacheBytes.toNat / 4
            | 1 => i.idleCacheBytes.toNat / 2
            | _ => i.idleCacheBytes.toNat
          else 0
        | .releaseEmptyHugepages =>
          if decide (sev ≥ PressureMode.soft.severity) && may .mayBlock then
            (satSub i.emptyBackedHugepageBytes (if emergency then 0 else reserve)).toNat
          else 0
        | .purgeDirty => purge
        | .dirtyToMuzzy =>
          if dirtyAged && may .boundedSlow then i.purgeableDirty.toNat - purge else 0
        | .subreleaseColdSparse =>
          if decide (sev ≥ PressureMode.hard.severity) && may .boundedSlow then
            i.coldSparseBytes.toNat
          else 0
        | .releaseMuzzy => if muzzyAged && !emergency && may .mayBlock then i.muzzyBytes.toNat else 0
        | .emergencyShrink => if emergency && may .mayBlock then i.muzzyBytes.toNat else 0 }

/-- The part of `tick` before the rate cap: the new mode and clocks, and the
plan the ladder asks for. -/
def observe : Option (ReleasePlan × ReleaseController) := do
  let elapsed := c.elapsedMs now
  let c := c.anchorPeak now i
  let peak ← c.recentPeak now i
  let allocRate ← ratePerSec (satSub i.allocatedBytesTotal c.lastAllocatedTotal) elapsed
  let freeRate ← ratePerSec (satSub i.freedBytesTotal c.lastFreedTotal) elapsed
  let c := { c with allocRateBps := allocRate, freeRateBps := freeRate }
  let c := c.stampClocks now i
  let mode ← c.classifyMode i (decide (i.pressureNotifications > c.lastPressureNotifications))
  let c := { c with mode }
  let reserve ← demandReserve allocRate peak i.refillMissRatePpk mode
  let c := { c with demandReserveBytes := reserve }
  let accelerated := decide (mode.severity ≥ PressureMode.hard.severity)
  let dirtyAged := accelerated || decide (satSub now c.dirtySinceMs ≥ c.config.dirtyDecayMs)
  let muzzyAged := accelerated || decide (satSub now c.muzzySinceMs ≥ c.config.muzzyDecayMs)
  pure (c.planLadder i reserve dirtyAged muzzyAged, c)

/-- The rate cap: the plan that is granted, and the backlog. -/
def capPlan (plan : ReleasePlan) : Option (ReleasePlan × ReleaseController) :=
  let supply := plan.totalBytes
  let desired := max supply c.backlogBytes
  if c.config.releaseRateBytesPerSec ≠ 0 ∧ c.mode ≠ .emergency then do
    let budget ← rateBudget c.config.releaseRateBytesPerSec (c.elapsedMs now) (!c.started)
    let plan := scalePlanToBudget plan (min budget desired)
    pure (plan, { c with backlogBytes := min (satSub desired plan.totalBytes) supply })
  else pure (plan, { c with backlogBytes := 0 })

/-- What one tick did: the plan the ladder asked for, the plan it returned, and
the controller it left. -/
structure Ticked where
  inputs : ReleaseInputs
  uncapped : ReleasePlan
  plan : ReleasePlan
  next : ReleaseController

/-- `tick`. -/
def tick : Option Ticked := do
  let (uncapped, c) ← c.observe now i
  let (plan, c) ← c.capPlan now uncapped
  pure
    { inputs := i, uncapped, plan
      next := { c with
        lastTickMs := now, lastAllocatedTotal := i.allocatedBytesTotal
        lastFreedTotal := i.freedBytesTotal, lastPressureNotifications := i.pressureNotifications
        started := true } }

/-- A run of ticks, each given its time and what was observed. -/
def run (c : ReleaseController) : List (UInt64 × ReleaseInputs) → Option (List Ticked)
  | [] => some []
  | (now, i) :: rest => do
    let t ← c.tick now i
    let later ← run t.next rest
    pure (t :: later)

end ReleaseController

/-! ## No step overflows -/

theorem u128_of_lt (fits : x < 2 ^ 128) : u128 x = some x := if_pos fits

/-- The product of a `u64` and a number no larger is a `u128`. -/
theorem u128_mul (a : UInt64) (small : b ≤ 2 ^ 64) : u128 (a.toNat * b) = some (a.toNat * b) := by
  refine u128_of_lt ?_
  calc a.toNat * b ≤ a.toNat * 2 ^ 64 := Nat.mul_le_mul_left _ small
    _ < 2 ^ 64 * 2 ^ 64 := Nat.mul_lt_mul_of_pos_right a.toNat_lt (by decide)
    _ = 2 ^ 128 := by decide

theorem saturate_le (x : Nat) : (saturate x).toNat ≤ x := by
  have bounded : min x (2 ^ 64 - 1) < 2 ^ 64 := by omega
  rw [saturate, UInt64.toNat_ofNat_of_lt' bounded]
  exact Nat.min_le_left _ _

theorem min_toNat_le (a b : UInt64) : (min a b).toNat ≤ a.toNat := by
  change (if a ≤ b then a else b).toNat ≤ a.toNat
  split
  · exact Nat.le_refl _
  · rename_i lt
    exact Nat.le_of_lt (UInt64.lt_iff_toNat_lt.mp (UInt64.not_le.mp lt))

theorem satSub_toNat (a b : UInt64) : (satSub a b).toNat = a.toNat - b.toNat := by
  unfold satSub
  split
  · rename_i le
    exact UInt64.toNat_sub_of_le _ _ le
  · rename_i lt
    have := UInt64.lt_iff_toNat_lt.mp (UInt64.not_le.mp lt)
    simp only [UInt64.toNat_zero]
    omega

theorem ratePerSec_some (delta elapsed : UInt64) : ∃ rate, ratePerSec delta elapsed = some rate := by
  unfold ratePerSec
  split
  · exact ⟨0, rfl⟩
  · rw [u128_mul delta (by decide)]
    exact ⟨_, rfl⟩

/-- The time a tick is granted: the interval, or one window at the start. -/
def grantedMs (elapsed : UInt64) (first : Bool) : Nat :=
  if elapsed = 0 then (if first then reserveWindowMs else 0) else elapsed.toNat

theorem rateBudget_some (rate elapsed : UInt64) (first : Bool) :
    ∃ budget, rateBudget rate elapsed first = some budget ∧
      budget.toNat ≤ rate.toNat * grantedMs elapsed first / 1000 := by
  unfold rateBudget grantedMs
  by_cases still : elapsed = 0 <;> cases first <;>
    simp only [still, true_and, false_and, reduceCtorEq, ↓reduceIte]
  · exact ⟨0, rfl, by simp⟩
  · rw [u128_mul rate (by decide)]
    exact ⟨_, rfl, saturate_le _⟩
  all_goals
    rw [u128_mul rate elapsed.toNat_lt.le]
    exact ⟨_, rfl, saturate_le _⟩

theorem demandReserve_some (rate peak : UInt64) (miss : UInt32) (mode : PressureMode) :
    ∃ reserve, demandReserve rate peak miss mode = some reserve := by
  have base : rate.toNat * reserveWindowMs / 1000 = rate.toNat := by
    rw [reserveWindowMs]
    omega
  have missed : rate.toNat * miss.toNat < 2 ^ 96 :=
    calc rate.toNat * miss.toNat ≤ rate.toNat * 2 ^ 32 := Nat.mul_le_mul_left _ miss.toNat_lt.le
      _ < 2 ^ 64 * 2 ^ 32 := Nat.mul_lt_mul_of_pos_right rate.toNat_lt (by decide)
      _ = 2 ^ 96 := by decide
  have scaled : rate.toNat + rate.toNat * miss.toNat / 1000 < 2 ^ 128 := by
    have := rate.toNat_lt
    omega
  unfold demandReserve
  rw [u128_mul rate (by decide)]
  simp only [Option.bind_eq_bind, Option.bind_some, base]
  rw [u128_of_lt (show rate.toNat * miss.toNat < 2 ^ 128 by omega), Option.bind_some, u128_of_lt scaled]
  exact ⟨_, rfl⟩

theorem ReleaseInputs.utilizationBp_some (i : ReleaseInputs) : ∃ u, i.utilizationBp = some u := by
  unfold ReleaseInputs.utilizationBp
  split
  · exact ⟨0, rfl⟩
  · rw [u128_mul _ (by decide)]
    exact ⟨_, rfl⟩

namespace ReleaseController
variable {c : ReleaseController} {now : UInt64} {i : ReleaseInputs}

/-- After anchoring, the anchor is at least the current free memory. -/
theorem freeNow_le_anchor : freeNow i ≤ (c.anchorPeak now i).recentPeakFree := by
  unfold anchorPeak
  split
  · exact UInt64.le_refl _
  · rename_i held
    rw [not_or] at held
    exact UInt64.le_of_lt (UInt64.not_le.mp held.1)

theorem recentPeak_some (c : ReleaseController) (now : UInt64) (i : ReleaseInputs)
    (anchored : freeNow i ≤ c.recentPeakFree) :
    ∃ peak, c.recentPeak now i = some peak := by
  unfold recentPeak minus
  rw [if_pos anchored]
  simp only [Option.bind_eq_bind, Option.bind_some]
  generalize c.recentPeakFree - freeNow i = excess
  rw [u128_mul excess (by rw [peakDecayMs, reserveWindowMs]; omega)]
  have narrow : excess.toNat * (peakDecayMs - min (satSub now c.peakAnchorMs).toNat peakDecayMs) /
      peakDecayMs < 2 ^ 64 := by
    refine Nat.lt_of_le_of_lt ?_ excess.toNat_lt
    refine Nat.div_le_of_le_mul ?_
    rw [Nat.mul_comm peakDecayMs]
    exact Nat.mul_le_mul_left _ (Nat.sub_le _ _)
  simp only [Option.bind_some, u64, if_pos narrow]
  exact ⟨_, rfl⟩

theorem classifyMode_some (rose : Bool) : ∃ mode, c.classifyMode i rose = some mode := by
  obtain ⟨u, known⟩ := i.utilizationBp_some
  unfold classifyMode
  split
  · exact ⟨_, rfl⟩
  · simp only [known, Option.bind_eq_bind, Option.bind_some]
    exact ⟨_, (apply_ite some _ _ _).symm⟩

/-! ## What one tick plans -/

theorem planLadder_le (reserve : UInt64) (dirtyAged muzzyAged : Bool) (r : Rung) :
    (c.planLadder i reserve dirtyAged muzzyAged).bytes r ≤ i.supply r := by
  unfold planLadder
  dsimp only
  split
  · exact Nat.zero_le _
  split
  · exact Nat.zero_le _
  cases r <;> simp only [ReleaseInputs.supply]
  case drainCaches =>
    split
    · split <;> omega
    · exact Nat.zero_le _
  case releaseEmptyHugepages =>
    split
    · rw [satSub_toNat]
      exact Nat.sub_le _ _
    · exact Nat.zero_le _
  all_goals split <;> omega

theorem planLadder_mode (reserve : UInt64) (dirtyAged muzzyAged : Bool) :
    (c.planLadder i reserve dirtyAged muzzyAged).mode = c.mode := by
  unfold planLadder
  dsimp only
  split
  · rfl
  split <;> rfl

/-- A tick keeps the settings until it commits, and asks for no more than was
observed. -/
theorem observe_some (c : ReleaseController) (now : UInt64) (i : ReleaseInputs) :
    ∃ plan c', c.observe now i = some (plan, c') ∧ c'.config = c.config ∧ c'.started = c.started ∧
      c'.lastTickMs = c.lastTickMs ∧ c'.backlogBytes = c.backlogBytes ∧ plan.mode = c'.mode ∧
      ∀ r, plan.bytes r ≤ i.supply r := by
  have anchored : (c.anchorPeak now i).config = c.config ∧
      (c.anchorPeak now i).started = c.started ∧ (c.anchorPeak now i).lastTickMs = c.lastTickMs ∧
      (c.anchorPeak now i).backlogBytes = c.backlogBytes := by
    unfold anchorPeak
    split <;> exact ⟨rfl, rfl, rfl, rfl⟩
  have stamped (c : ReleaseController) : (c.stampClocks now i).config = c.config ∧
      (c.stampClocks now i).started = c.started ∧
      (c.stampClocks now i).lastTickMs = c.lastTickMs ∧
      (c.stampClocks now i).backlogBytes = c.backlogBytes := by
    unfold stampClocks
    dsimp only
    split <;> split <;> exact ⟨rfl, rfl, rfl, rfl⟩
  obtain ⟨peak, peaked⟩ := recentPeak_some (c.anchorPeak now i) now i
    freeNow_le_anchor
  obtain ⟨allocRate, allocated⟩ := ratePerSec_some
    (satSub i.allocatedBytesTotal (c.anchorPeak now i).lastAllocatedTotal) (c.elapsedMs now)
  obtain ⟨freeRate, freed⟩ := ratePerSec_some
    (satSub i.freedBytesTotal (c.anchorPeak now i).lastFreedTotal) (c.elapsedMs now)
  unfold observe
  simp only [peaked, allocated, freed, Option.bind_eq_bind, Option.bind_some]
  obtain ⟨config, started, last, owed⟩ := stamped
    { c.anchorPeak now i with allocRateBps := allocRate, freeRateBps := freeRate }
  generalize ReleaseController.stampClocks _ now i = c₁ at *
  obtain ⟨mode, classified⟩ := classifyMode_some (c := c₁) (i := i)
    (decide (i.pressureNotifications > c₁.lastPressureNotifications))
  obtain ⟨reserve, reserved⟩ := demandReserve_some allocRate peak i.refillMissRatePpk mode
  simp only [classified, reserved, Option.bind_some]
  exact ⟨_, _, rfl, config.trans anchored.1, started.trans anchored.2.1,
    last.trans anchored.2.2.1, owed.trans anchored.2.2.2, planLadder_mode _ _ _, planLadder_le _ _ _⟩

theorem ladder_nodup : ladder.Nodup := by decide

/-- The rate cap funds the rungs in order and, outside an emergency, grants no
more than the rate allows for the time that has passed. -/
theorem capPlan_some (c : ReleaseController) (now : UInt64) (plan : ReleasePlan) :
    ∃ plan' c', c.capPlan now plan = some (plan', c') ∧ c'.config = c.config ∧ plan'.mode = plan.mode ∧
      (∀ r, plan'.bytes r ≤ plan.bytes r) ∧
      (∀ before r after, ladder = before ++ r :: after → plan'.bytes r < plan.bytes r →
        ∀ r' ∈ after, plan'.bytes r' = 0) ∧
      (c.config.releaseRateBytesPerSec ≠ 0 → c.mode ≠ .emergency →
        plan'.planned ≤ c.config.releaseRateBytesPerSec.toNat *
          grantedMs (c.elapsedMs now) (!c.started) / 1000) := by
  unfold capPlan
  dsimp only
  split
  · obtain ⟨budget, allowed, most⟩ := rateBudget_some c.config.releaseRateBytesPerSec
      (c.elapsedMs now) (!c.started)
    simp only [allowed, Option.bind_eq_bind, Option.bind_some]
    refine ⟨_, _, rfl, rfl, rfl, fun r => Budget.grant_le _ _ _ _, ?_, fun _ _ => ?_⟩
    · intro before r after split cut r' later
      have nodup := ladder_nodup
      simp only [scalePlanToBudget, split] at cut nodup ⊢
      exact Budget.grant_of_cut nodup cut later
    · refine Nat.le_trans (Budget.grant_sum_le _ _ ladder_nodup) (Nat.le_trans ?_ most)
      exact min_toNat_le _ _
  · rename_i uncapped
    refine ⟨_, _, rfl, rfl, rfl, fun _ => Nat.le_refl _, ?_, fun rate mode => ?_⟩
    · exact fun _ _ _ _ cut => absurd cut (Nat.lt_irrefl _)
    · exact absurd ⟨rate, mode⟩ uncapped

/-- What is asked of one tick apart from the rate: no rung over its supply, and
none funded after one that was cut. -/
structure Ticked.InOrder (t : Ticked) : Prop where
  supplied : ∀ r, t.plan.bytes r ≤ t.inputs.supply r
  laddered : ∀ before r after, ladder = before ++ r :: after →
    t.plan.bytes r < t.uncapped.bytes r → ∀ r' ∈ after, t.plan.bytes r' = 0

theorem tick_some (c : ReleaseController) (now : UInt64) (i : ReleaseInputs) :
    ∃ t, c.tick now i = some t ∧ t.InOrder ∧ t.next.config = c.config ∧ t.next.started = true ∧
      t.next.lastTickMs = now ∧
      (c.config.releaseRateBytesPerSec ≠ 0 → t.plan.mode ≠ .emergency →
        t.plan.planned ≤ c.config.releaseRateBytesPerSec.toNat *
          grantedMs (c.elapsedMs now) (!c.started) / 1000) := by
  obtain ⟨uncapped, c₁, observed, config, started, last, -, mode, within⟩ := observe_some c now i
  obtain ⟨plan, c₂, capped, config', mode', less, laddered, slow⟩ := capPlan_some c₁ now uncapped
  have elapsed : c₁.elapsedMs now = c.elapsedMs now := by simp only [elapsedMs, started, last]
  simp only [tick, observed, capped, Option.bind_eq_bind, Option.bind_some]
  refine ⟨_, rfl, ⟨fun r => Nat.le_trans (less r) (within r), laddered⟩, config'.trans config, rfl,
    rfl, fun rate calm => ?_⟩
  rw [config, elapsed, started] at slow
  exact slow rate (by rw [← mode, ← mode']; exact calm)

/-! ## Whole runs -/

/-- The bytes planned outside emergencies. -/
def plannedCalm (ts : List Ticked) : Nat :=
  ((ts.filter fun t => decide (t.plan.mode ≠ .emergency)).map fun t => t.plan.planned).sum

/-- The time of the last tick of a run that follows a tick at `start`. -/
def lastMs (start : UInt64) (ticks : List (UInt64 × ReleaseInputs)) : UInt64 :=
  (ticks.map Prod.fst).getLastD start

theorem plannedCalm_cons (t : Ticked) (ts : List Ticked)
    (slow : t.plan.mode ≠ .emergency → t.plan.planned ≤ most) :
    plannedCalm (t :: ts) ≤ most + plannedCalm ts := by
  unfold plannedCalm
  by_cases calm : t.plan.mode = .emergency
  · simp [calm]
  · simp [calm, slow calm]

/-- A controller that has ticked before plans, outside emergencies, no more than
the rate allows from its last tick to the end of the run. -/
theorem run_of_started (ticks : List (UInt64 × ReleaseInputs))
    (started : c.started = true) (positive : c.config.releaseRateBytesPerSec ≠ 0)
    (ordered : (c.lastTickMs :: ticks.map Prod.fst).Pairwise (· ≤ ·)) :
    ∃ ts, c.run ticks = some ts ∧ (∀ t ∈ ts, t.InOrder) ∧ c.lastTickMs ≤ lastMs c.lastTickMs ticks ∧
      plannedCalm ts ≤ c.config.releaseRateBytesPerSec.toNat *
        ((lastMs c.lastTickMs ticks).toNat - c.lastTickMs.toNat) / 1000 := by
  induction ticks generalizing c with
  | nil => exact ⟨[], rfl, by simp, UInt64.le_refl _, by simp [plannedCalm]⟩
  | cons head rest ih =>
    obtain ⟨now, i⟩ := head
    simp only [List.map_cons, List.pairwise_cons, List.mem_cons, forall_eq_or_imp] at ordered
    obtain ⟨t, ticked, inOrder, config, started', last, slow⟩ := tick_some c now i
    obtain ⟨ts, ran, allInOrder, later, bound⟩ := ih (c := t.next) started' (config ▸ positive)
      (by rw [last]; exact List.pairwise_cons.mpr ordered.2)
    have first : c.lastTickMs.toNat ≤ now.toNat := UInt64.le_iff_toNat_le.mp ordered.1.1
    have final : lastMs c.lastTickMs ((now, i) :: rest) = lastMs t.next.lastTickMs rest := by
      rw [last]
      cases rest <;> rfl
    have second : now.toNat ≤ (lastMs t.next.lastTickMs rest).toNat := by
      rw [last] at later ⊢
      exact UInt64.le_iff_toNat_le.mp later
    -- the time this tick is granted is the time since the previous one
    have granted : grantedMs (c.elapsedMs now) (!c.started) = now.toNat - c.lastTickMs.toNat := by
      have elapsed := satSub_toNat now c.lastTickMs
      simp only [grantedMs, elapsedMs, started, Bool.not_true, if_true]
      split
      · rename_i still
        rw [still] at elapsed
        simpa using elapsed
      · exact elapsed
    rw [granted] at slow
    simp only [run, ticked, ran, Option.bind_eq_bind, Option.bind_some]
    refine ⟨_, rfl, ?_, ?_, ?_⟩
    · simpa using ⟨inOrder, allInOrder⟩
    · rw [final, UInt64.le_iff_toNat_le]
      omega
    · rw [final]
      rw [config, last] at bound
      rw [last] at second ⊢
      have planned := plannedCalm_cons t ts (slow positive)
      have whole : c.config.releaseRateBytesPerSec.toNat * ((lastMs now rest).toNat - c.lastTickMs.toNat) =
          c.config.releaseRateBytesPerSec.toNat * (now.toNat - c.lastTickMs.toNat) +
            c.config.releaseRateBytesPerSec.toNat * ((lastMs now rest).toNat - now.toNat) := by
        rw [← Nat.mul_add]
        congr 1
        omega
      omega

theorem run_of_new (ticks : List (UInt64 × ReleaseInputs)) (i : ReleaseInputs)
    (fresh : c.started = false) (positive : c.config.releaseRateBytesPerSec ≠ 0)
    (ordered : (now :: ticks.map Prod.fst).Pairwise (· ≤ ·)) :
    ∃ ts, c.run ((now, i) :: ticks) = some ts ∧ (∀ t ∈ ts, t.InOrder) ∧ plannedCalm ts ≤
        c.config.releaseRateBytesPerSec.toNat * ((lastMs now ticks).toNat - now.toNat) / 1000 +
          c.config.releaseRateBytesPerSec.toNat * reserveWindowMs / 1000 := by
  obtain ⟨t, ticked, inOrder, same, started, last, slow⟩ := tick_some c now i
  obtain ⟨ts, ran, allInOrder, -, bound⟩ := run_of_started ticks (c := t.next) started
    (same ▸ positive) (by rw [last]; exact ordered)
  simp only [run, ticked, ran, Option.bind_eq_bind, Option.bind_some]
  refine ⟨_, rfl, by simpa using ⟨inOrder, allInOrder⟩, ?_⟩
  simp only [same, last] at bound
  have first := plannedCalm_cons t ts (slow positive)
  simp only [grantedMs, elapsedMs, fresh, Bool.false_eq_true, if_false, if_true, Bool.not_false]
    at first
  omega

/-- Every tick of a run from a new controller returns, with no step out of its
type. Each plan stays within what was observed and funds the ladder in order.
Outside emergencies the plans add up to no more than the rate allows between the
first tick and the last, and one reserve window more. -/
theorem run_within_rate (config : DecayConfig) (thresholds : PressureThresholds)
    (maxLatency : LatencyClass) (positive : config.releaseRateBytesPerSec ≠ 0) (now : UInt64)
    (i : ReleaseInputs) (ticks : List (UInt64 × ReleaseInputs))
    (ordered : (now :: ticks.map Prod.fst).Pairwise (· ≤ ·)) :
    ∃ ts, run { config, thresholds, maxLatency } ((now, i) :: ticks) = some ts ∧ (∀ t ∈ ts, t.InOrder) ∧
      plannedCalm ts ≤ config.releaseRateBytesPerSec.toNat * ((lastMs now ticks).toNat - now.toNat) / 1000 +
          config.releaseRateBytesPerSec.toNat * reserveWindowMs / 1000 :=
  run_of_new ticks i rfl positive ordered

/-- One KiB a second over two ticks a second apart, with a MiB to drain. -/
theorem run_within_rate_kib :
    ∃ ts, run { config := ⟨0, 0, 1024, true⟩, thresholds := {}, maxLatency := .mayBlock }
        [(5, { idleCacheBytes := 1048576 }), (1005, { idleCacheBytes := 1048576 })] = some ts ∧
      (∀ t ∈ ts, t.InOrder) ∧ plannedCalm ts ≤ 1024 * (1005 - 5) / 1000 + 1024 * reserveWindowMs / 1000 :=
  run_within_rate ⟨0, 0, 1024, true⟩ {} .mayBlock (by decide) 5 { idleCacheBytes := 1048576 }
    [(1005, { idleCacheBytes := 1048576 })] (by decide)

end ReleaseController
end Release
end Topomalloc
