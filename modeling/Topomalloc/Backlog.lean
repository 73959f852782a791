import Topomalloc.Release

/-! The backlog of the release controller: what a rate-limited tick owes when it
is done. A tick counts the work it sees and the debt it carries as one, the
larger of the two, pays what it planned, and keeps of the rest no more than it
sees. A debt larger than the supply is therefore not forgiven by a tick that
plans the whole supply. -/
namespace Topomalloc
namespace Release

theorem saturate_toNat (x : Nat) : (saturate x).toNat = min x (2 ^ 64 - 1) := by
  have bounded : min x (2 ^ 64 - 1) < 2 ^ 64 := by omega
  rw [saturate, UInt64.toNat_ofNat_of_lt' bounded]

theorem max_toNat (a b : UInt64) : (max a b).toNat = max a.toNat b.toNat := by
  change (if a ≤ b then b else a).toNat = _
  split
  next le => rw [Nat.max_eq_right (UInt64.le_iff_toNat_le.mp le)]
  next gt => rw [Nat.max_eq_left (Nat.le_of_not_le fun le => gt (UInt64.le_iff_toNat_le.mpr le))]

theorem min_toNat (a b : UInt64) : (min a b).toNat = min a.toNat b.toNat := by
  change (if a ≤ b then a else b).toNat = _
  split
  next le => rw [Nat.min_eq_left (UInt64.le_iff_toNat_le.mp le)]
  next gt => rw [Nat.min_eq_right (Nat.le_of_not_le fun le => gt (UInt64.le_iff_toNat_le.mpr le))]

namespace ReleasePlan

/-- Saturating additions in a row saturate once. -/
theorem foldl_satAdd (rungs : List Nat) (sum : UInt64) :
    (rungs.foldl (fun sum b => satAdd sum (saturate b)) sum).toNat =
      min (sum.toNat + rungs.sum) (2 ^ 64 - 1) := by
  induction rungs generalizing sum with
  | nil =>
    have small := sum.toNat_lt
    simp only [List.foldl_nil, List.sum_nil]
    omega
  | cons b rungs ih =>
    rw [List.foldl_cons, ih, satAdd, saturate_toNat, saturate_toNat, List.sum_cons]
    omega

theorem totalBytes_toNat (p : ReleasePlan) : p.totalBytes.toNat = min p.planned (2 ^ 64 - 1) := by
  have whole : p.planned = p.bytes .drainCaches + (ladder.tail.map p.bytes).sum := rfl
  rw [totalBytes, foldl_satAdd, saturate_toNat, whole]
  omega

theorem totalBytes_le {p q : ReleasePlan} (less : ∀ r, p.bytes r ≤ q.bytes r) :
    p.totalBytes.toNat ≤ q.totalBytes.toNat := by
  have sums : p.planned ≤ q.planned := List.sum_le_sum fun r _ => less r
  rw [totalBytes_toNat, totalBytes_toNat]
  omega

end ReleasePlan

namespace ReleaseController
variable {c : ReleaseController} {now : UInt64} {i : ReleaseInputs}

/-- What a rate-limited tick outside an emergency leaves owed, for the debt
`carried` into it. -/
structure Ticked.Owes (t : Ticked) (carried : Nat) : Prop where
  planned : t.plan.totalBytes.toNat ≤ t.uncapped.totalBytes.toNat
  backlog : t.next.backlogBytes.toNat =
    min (max t.uncapped.totalBytes.toNat carried - t.plan.totalBytes.toNat)
      t.uncapped.totalBytes.toNat

/-- A debt that the supply covers is replaced by the work left unfunded. -/
theorem Ticked.Owes.backlog_eq {t : Ticked} (owes : t.Owes carried)
    (covered : carried ≤ t.uncapped.totalBytes.toNat) :
    t.next.backlogBytes.toNat = t.uncapped.totalBytes.toNat - t.plan.totalBytes.toNat := by
  rw [owes.backlog]
  omega

theorem Ticked.Owes.backlog_le {t : Ticked} (owes : t.Owes carried) :
    t.next.backlogBytes.toNat ≤ t.uncapped.totalBytes.toNat := by
  rw [owes.backlog]
  omega

theorem capPlan_backlog (capped : c.capPlan now plan = some (plan', c'))
    (limited : c.config.releaseRateBytesPerSec ≠ 0) (calm : c.mode ≠ .emergency) :
    plan'.totalBytes.toNat ≤ plan.totalBytes.toNat ∧ c'.backlogBytes.toNat =
        min (max plan.totalBytes.toNat c.backlogBytes.toNat - plan'.totalBytes.toNat)
          plan.totalBytes.toNat := by
  obtain ⟨budget, allowed, -⟩ := rateBudget_some c.config.releaseRateBytesPerSec (c.elapsedMs now)
    (!c.started)
  unfold capPlan at capped
  dsimp only at capped
  rw [if_pos ⟨limited, calm⟩, allowed] at capped
  simp only [Option.bind_eq_bind, Option.bind_some] at capped
  obtain ⟨rfl, rfl⟩ := Prod.mk.inj (Option.some.inj capped)
  refine ⟨ReleasePlan.totalBytes_le fun r => Budget.grant_le _ _ _ _, ?_⟩
  rw [min_toNat, satSub_toNat, max_toNat]

theorem tick_owes (c : ReleaseController) (now : UInt64) (i : ReleaseInputs) :
    ∃ t, c.tick now i = some t ∧ t.next.config = c.config ∧
      (c.config.releaseRateBytesPerSec ≠ 0 → t.plan.mode ≠ .emergency → t.Owes c.backlogBytes.toNat) := by
  obtain ⟨uncapped, c₁, observed, config, -, -, owed, mode, -⟩ := observe_some c now i
  obtain ⟨plan, c₂, capped, config', mode', -⟩ := capPlan_some c₁ now uncapped
  simp only [tick, observed, capped, Option.bind_eq_bind, Option.bind_some]
  refine ⟨_, rfl, config'.trans config, fun limited calm => ?_⟩
  have left := capPlan_backlog capped (by rwa [config]) (by rw [← mode, ← mode']; exact calm)
  rw [owed] at left
  exact ⟨left.1, left.2⟩

/-! ## Whole runs -/

/-- Every rate-limited tick of a run outside an emergency owes what its
predecessor's debt, `carried`, makes it owe. -/
def Settles (config : DecayConfig) : (carried : UInt64) → List Ticked → Prop
  | _, [] => True
  | carried, t :: ts =>
    (config.releaseRateBytesPerSec ≠ 0 → t.plan.mode ≠ .emergency →
      t.Owes carried.toNat ∧ t.next.backlogBytes.toNat ≤ t.uncapped.totalBytes.toNat ∧
        (carried.toNat ≤ t.uncapped.totalBytes.toNat → t.next.backlogBytes.toNat =
          t.uncapped.totalBytes.toNat - t.plan.totalBytes.toNat)) ∧
      Settles config t.next.backlogBytes ts

/-- Every tick of a run accounts for its backlog. -/
theorem run_settles (c : ReleaseController) (ticks : List (UInt64 × ReleaseInputs)) :
    ∃ ts, c.run ticks = some ts ∧ Settles c.config c.backlogBytes ts := by
  induction ticks generalizing c with
  | nil => exact ⟨[], rfl, trivial⟩
  | cons head rest ih =>
    obtain ⟨now, i⟩ := head
    obtain ⟨t, ticked, config, owes⟩ := tick_owes c now i
    obtain ⟨ts, ran, settled⟩ := ih t.next
    simp only [run, ticked, ran, Option.bind_eq_bind, Option.bind_some]
    refine ⟨_, rfl, fun limited calm => ?_, config ▸ settled⟩
    have owed := owes limited calm
    exact ⟨owed, owed.backlog_le, owed.backlog_eq⟩

/-- A KiB a second: the first tick leaves a debt, and the second plans all of a
supply that has shrunk, yet still owes as much as it planned. -/
theorem whole_supply_planned_leaves_backlog :
    (run { config := ⟨0, 0, 1024, true⟩, thresholds := {}, maxLatency := .mayBlock }
        [(0, { idleCacheBytes := 1048576 }), (1000000, { idleCacheBytes := 4000 })]).map
      (fun ts => ts.map fun t =>
        (t.uncapped.totalBytes, t.plan.totalBytes, t.next.backlogBytes, t.plan.mode)) =
      some [(262144, 1024, 261120, .normal), (1000, 1000, 1000, .normal)] := by
  decide +kernel

end ReleaseController
end Release
end Topomalloc
