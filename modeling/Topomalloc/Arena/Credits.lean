import Topomalloc.Arena.Quota

/-! Credits of arbitrary sizes, as a stale or a double free would issue them.

`credit` lowers the one counter that holds both the arena's own bytes and the
quota it set aside for its children, and stops at zero rather than at the quota
set aside. As long as no credit of an arena that set quota aside asks back more than
its own bytes, the counter covers the reservations, whatever was charged or freed
before. -/
namespace Topomalloc.ArenaTable
open Function

variable {t t' : ArenaTable} {ch : Charges} {a : Nat}

/-- A credit of an arena that set quota aside asks back no more than its own bytes. -/
def OwnCredit (t : ArenaTable) : Op → Prop
  | .credit a size => a < maxArenas → (t.slots a).reserved ≠ 0 →
    size ≤ (t.slots a).committed - (t.slots a).reserved
  | _ => True

instance (t : ArenaTable) (op : Op) : Decidable (t.OwnCredit op) := by
  cases op <;> unfold OwnCredit <;> infer_instance

/-- The tables that operations reach whose credits are of this kind. -/
inductive Steady : ArenaTable → Prop
  | new : Steady ArenaTable.new
  | step {t : ArenaTable} (op : Op) : Steady t → t.OwnCredit op → Steady (t.step op).2

/-- Some ledger accounts for the table: all that matters of an arena's charges
is their sum. -/
theorem Steady.sound (steady : Steady t) : ∃ ch, Sound t ch := by
  induction steady with
  | new => exact ⟨_, sound_new⟩
  | @step t op _ own ih =>
    obtain ⟨ch, sound⟩ := ih
    by_cases credit : ∃ a size, op = .credit a size
    · obtain ⟨a, size, rfl⟩ := credit
      have counted := sound.own a
      by_cases inside : a < maxArenas
      · refine ⟨update ch a (if (ch a).sum ≤ size then [] else [(ch a).sum - size]),
          sound.credit_to (fun held => ?_) ?_ fun nothing => ?_⟩
        · have enough := own inside held
          omega
        · split
          · rw [List.sum_nil]
            omega
          · rw [List.sum_singleton]
        · rw [nothing, List.sum_nil, if_pos (Nat.zero_le _)]
      · refine ⟨ch, ?_⟩
        simpa only [ArenaTable.step, ArenaTable.credit, slot, if_neg inside] using sound
    · have matched : ch.Matched op := by
        cases op with
        | credit a size => exact absurd ⟨a, size, rfl⟩ credit
        | _ => trivial
      exact ⟨_, sound.step op matched⟩

/-- Charges that all go through add up in the ledger. -/
theorem Sound.charges {sizes : List Nat} (sound : Sound t ch)
    (ran : t.runOk (sizes.map (.tryCharge a)) = some t') :
    ∃ ch', Sound t' ch' ∧ (ch' a).sum = sizes.sum + (ch a).sum := by
  induction sizes generalizing t ch with
  | nil =>
    cases ran
    exact ⟨ch, sound, by simp⟩
  | cons size sizes ih =>
    simp only [List.map_cons, runOk] at ran
    rcases sound.step_cases (.tryCharge a size) trivial with ⟨e, refused⟩ | ⟨t₁, went, charged⟩
    · rw [refused] at ran
      cases ran
    · rw [went] at ran
      obtain ⟨ch', sound', sum⟩ := ih charged ran
      refine ⟨ch', sound', ?_⟩
      rw [sum]
      simp only [Charges.after, update_self, List.sum_cons]
      omega

/-- In every table that is reached by operations whose credits are of this kind: the counter
of every arena covers the quota it set aside, and however it is charged from there, its charges
and the quotas of its live children stay within its own quota. -/
theorem quota_of_steady (steady : Steady t) (a : Nat) :
    (t.slots a).reserved ≤ (t.slots a).committed ∧
      ∀ (sizes : List Nat) (t' : ArenaTable), t.runOk (sizes.map (.tryCharge a)) = some t' →
        (t'.slots a).quotaLimit ≠ quotaUnlimited →
        ∑ c ∈ t'.children a, (t'.slots c).quotaLimit + sizes.sum ≤ (t'.slots a).quotaLimit := by
  obtain ⟨ch, sound⟩ := steady.sound
  refine ⟨?_, fun sizes t' ran finite => ?_⟩
  · have := sound.own a
    omega
  · obtain ⟨ch', sound', sum⟩ := sound.charges ran
    have own := sound'.own a
    have within := sound'.within a
    have held := sound'.reserved a
    rw [pledged, if_neg finite] at held
    omega

theorem runOk_single (went : (t.step op).1 = none) : t.runOk [op] = some (t.step op).2 := by
  unfold runOk
  split
  · rename_i stepped
    rw [stepped]
    rfl
  · rename_i stepped
    rw [stepped] at went
    cases went

/-- The family once the parent's own 10 bytes are credited. -/
def repaid : ArenaTable := (family ++ [Op.credit 1 10]).foldl (fun t op => (t.step op).2) .new

theorem quota_of_steady_repaid :
    Steady repaid ∧ (repaid.slots 1).reserved = 50 ∧ (repaid.slots 1).reserved ≤ (repaid.slots 1).committed ∧
      ∃ t', repaid.runOk [.tryCharge 1 50] = some t' ∧ t'.children 1 = {2} ∧
        (t'.slots 2).quotaLimit + 50 ≤ (t'.slots 1).quotaLimit := by
  have created := Steady.new.step (.create { rights := rightsAll, label := 0, quotaLimit := 100 }) trivial
  have delegated := created.step (.delegate 1 { rights := rightAlloc, label := 0, quotaLimit := 50 }) trivial
  have steady : Steady repaid :=
    (delegated.step (.tryCharge 1 10) trivial).step (.credit 1 10) (by decide +kernel)
  have charged : repaid.runOk [.tryCharge 1 50] = some (repaid.step (.tryCharge 1 50)).2 :=
    runOk_single (by decide +kernel)
  have children : (repaid.step (.tryCharge 1 50)).2.children 1 = {2} := by decide +kernel
  obtain ⟨covered, bound⟩ := quota_of_steady steady 1
  have within := bound [50] _ charged (by decide +kernel)
  rw [children, Finset.sum_singleton] at within
  exact ⟨steady, by decide +kernel, covered, _, charged, children, within⟩

/-- A credit of what the arena never charged is taken out of the quota held for
its child: the counter falls below the reservation, and the parent can then
charge its whole quota beside the child's. -/
theorem credit_falls_below_reservation :
    ∃ t t', ArenaTable.new.runOk [.create { rights := rightsAll, label := 0, quotaLimit := 100 },
         .delegate 1 { rights := rightAlloc, label := 0, quotaLimit := 50 },
         .credit 1 50] = some t ∧
      (t.slots 1).committed = 0 ∧ (t.slots 1).reserved = 50 ∧
      t.runOk [.tryCharge 1 100] = some t' ∧
      (t'.slots 1).quotaLimit < ∑ c ∈ t'.children 1, (t'.slots c).quotaLimit + 100 := by
  refine ⟨_, _, rfl, by decide +kernel, by decide +kernel, rfl, by decide +kernel⟩

end Topomalloc.ArenaTable
