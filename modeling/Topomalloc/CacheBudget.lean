import Topomalloc.Engine.State
import Topomalloc.Lib.Shrink

/-! The cache budget controller (`budget.rs`) on its own: the per-CPU cache it is
given, any budget and any thresholds.

`adapt` first moves each slot's soft capacity by a batch where its counters ask for
it, and then cuts soft capacities until their total is within the budget, down to one
batch and, when that is not enough, down to one object. The total is computed once and
then kept by subtraction. `adapt_settles` says what is left: a total that is the sum of
the soft capacities, capacities inside their window, and a total within the budget
unless no slot can give any more. -/
namespace Topomalloc
open Function

/-- `set_soft_capacity`. -/
def CpuSlot.setSoftCapacity (slot : CpuSlot) (cap : Nat) : CpuSlot :=
  { slot with softCapacity := max (min cap slot.hardCapacity) 1 }

/-- The greatest `u32`. -/
def u32Max : Nat := 2 ^ 32 - 1

namespace CpuCache

/-- Whether `per_cpu` and `slot` find an initialized slot at the key. -/
def has (c : CpuCache) (key : Nat × Nat) : Bool :=
  c.carved && decide (key.1 < maxCpus) && decide (key.2 < numSizeClasses) && (c.slots key.1 key.2).initialized

def slotAt (c : CpuCache) (key : Nat × Nat) : CpuSlot := c.slots key.1 key.2

/-- The per-CPU slots in the order the controller visits them. -/
def slotKeys : List (Nat × Nat) :=
  (List.range maxCpus).flatMap fun core => (List.range numSizeClasses).map fun sc => (core, sc)

def put (c : CpuCache) (key : Nat × Nat) (slot : CpuSlot) : CpuCache :=
  { c with slots := update c.slots key.1 (update (c.slots key.1) key.2 slot) }

end CpuCache

/-- The fields of `CacheBudget` that `adapt` reads. -/
structure CacheBudget where
  globalBudget : Nat
  missThreshold : Nat
  overflowThreshold : Nat

namespace CacheBudget

variable (b : CacheBudget)

/-- The first phase of `adapt` on one slot. -/
def adaptSlot (c : CpuCache) (key : Nat × Nat) : CpuCache :=
  if c.has key then
    let slot := c.slotAt key
    let batch := (row key.2).batch
    let calm := { slot with misses := 0, overflows := 0 }
    let soft :=
      if slot.misses > b.missThreshold ∧ slot.softCapacity < slot.hardCapacity then
        min (min (slot.softCapacity + batch) u32Max) slot.hardCapacity
      else if slot.overflows > b.overflowThreshold ∧ slot.softCapacity > batch then
        max (slot.softCapacity - batch) batch
      else slot.softCapacity
    c.put key (if soft ≠ slot.softCapacity then calm.setSoftCapacity soft else calm)
  else c

/-- The floor of one tier of the second phase. -/
def floor (batchFloor : Bool) (key : Nat × Nat) : Nat := if batchFloor then (row key.2).batch else 1

/-- One slot's turn in a pass of `shrink_to_floor`. A total within the budget ends
both loops of the source, so the turns that remain do nothing. -/
def shrinkSlot (batchFloor : Bool) (acc : Nat × Bool × CpuCache) (key : Nat × Nat) : Nat × Bool × CpuCache :=
  let (total, progress, c) := acc
  if total ≤ b.globalBudget ∨ c.has key = false then acc
  else
    let cur := (c.slotAt key).softCapacity
    let floor := floor batchFloor key
    if cur > floor then
      let soft := max (cur - (row key.2).batch) floor
      (total - (cur - soft), true, c.put key ((c.slotAt key).setSoftCapacity soft))
    else (total, progress, c)

/-- `shrink_to_floor`, with at most `fuel` turns of its outer loop. -/
def shrinkToFloor (batchFloor : Bool) : (fuel total : Nat) → CpuCache → Nat × CpuCache
  | 0, total, c => (total, c)
  | fuel + 1, total, c =>
    if total ≤ b.globalBudget then (total, c)
    else
      let after := CpuCache.slotKeys.foldl (b.shrinkSlot batchFloor) (total, false, c)
      if after.2.1 then shrinkToFloor batchFloor fuel after.1 after.2.2 else (after.1, after.2.2)

/-- `compute_total_capacity`, whose addition saturates. -/
def totalCapacity (c : CpuCache) : Nat :=
  CpuCache.slotKeys.foldl (fun total key =>
    if c.has key then min (total + (c.slotAt key).softCapacity) usizeMax else total) 0

/-- `adapt`; each of the two tiers runs for at most `fuel` passes. -/
def adapt (fuel : Nat) (c : CpuCache) : Nat × CpuCache :=
  let c := CpuCache.slotKeys.foldl b.adaptSlot c
  let (total, c) := b.shrinkToFloor true fuel (totalCapacity c) c
  if total > b.globalBudget then b.shrinkToFloor false fuel total c else (total, c)

end CacheBudget

/-! ## Soft capacities as levels -/

namespace CpuCache

/-- The soft capacity the controller counts at a key: an absent slot counts nothing. -/
def soft (c : CpuCache) (key : Nat × Nat) : Nat := if c.has key then (c.slotAt key).softCapacity else 0

/-- Every initialized slot has its soft capacity in `[1, hard_capacity]`, and both are
`u32`s. -/
def Legal (c : CpuCache) : Prop :=
  ∀ key, c.has key = true →
    1 ≤ (c.slotAt key).softCapacity ∧ (c.slotAt key).softCapacity ≤ (c.slotAt key).hardCapacity ∧
      (c.slotAt key).hardCapacity ≤ u32Max

/-- The same slots are initialized, with the same hard capacities and contents. -/
def Frame (c c' : CpuCache) : Prop :=
  ∀ key, c'.has key = c.has key ∧ (c'.slotAt key).hardCapacity = (c.slotAt key).hardCapacity ∧
    (c'.slotAt key).entries = (c.slotAt key).entries

variable {c c' c'' : CpuCache} {key : Nat × Nat} {slot : CpuSlot}

theorem Frame.refl (c : CpuCache) : Frame c c := fun _ => ⟨rfl, rfl, rfl⟩

theorem Frame.trans (first : Frame c c') (second : Frame c' c'') : Frame c c'' := fun key =>
  ⟨(second key).1.trans (first key).1, (second key).2.1.trans (first key).2.1,
    (second key).2.2.trans (first key).2.2⟩

@[simp] theorem slotAt_put_self : (c.put key slot).slotAt key = slot := by
  simp only [slotAt, put, update_self]

theorem slotAt_put_of_ne (away : other ≠ key) : (c.put key slot).slotAt other = c.slotAt other := by
  simp only [slotAt, put]
  by_cases core : other.1 = key.1
  · have sc : other.2 ≠ key.2 := fun same => away (Prod.ext core same)
    rw [core, update_self, update_of_ne sc]
  · rw [update_of_ne core]

/-- Whether a key has a slot depends on the slot alone. -/
theorem has_congr {c₁ c₂ : CpuCache} (carved : c₁.carved = c₂.carved)
    (same : (c₁.slotAt key).initialized = (c₂.slotAt key).initialized) : c₁.has key = c₂.has key := by
  simp only [slotAt] at same
  simp only [has, carved, same]

theorem ext_slotAt {c₂ : CpuCache} (carved : c₁.carved = c₂.carved)
    (same : ∀ key, c₁.slotAt key = c₂.slotAt key) : c₁ = c₂ := by
  obtain ⟨carved₁, slots₁⟩ := c₁
  obtain ⟨carved₂, slots₂⟩ := c₂
  obtain rfl : carved₁ = carved₂ := carved
  obtain rfl : slots₁ = slots₂ := by
    funext core sc
    exact same (core, sc)
  rfl

/-- Replacing an initialized slot by one of the same hard capacity and contents. -/
theorem put_frame (ready : slot.initialized = (c.slotAt key).initialized)
    (hard : slot.hardCapacity = (c.slotAt key).hardCapacity)
    (entries : slot.entries = (c.slotAt key).entries) : Frame c (c.put key slot) := by
  intro other
  by_cases here : other = key
  · subst here
    refine ⟨has_congr rfl ?_, ?_, ?_⟩ <;> rw [slotAt_put_self]
    · exact ready
    · exact hard
    · exact entries
  · refine ⟨has_congr rfl ?_, ?_, ?_⟩ <;> rw [slotAt_put_of_ne here]

theorem put_legal (legal : c.Legal) (frame : Frame c (c.put key slot))
    (low : c.has key = true → 1 ≤ slot.softCapacity ∧ slot.softCapacity ≤ slot.hardCapacity) :
    (c.put key slot).Legal := by
  intro other present
  rw [(frame other).1] at present
  by_cases here : other = key
  · subst here
    have hard := (frame other).2.1
    rw [slotAt_put_self] at hard ⊢
    exact ⟨(low present).1, (low present).2, hard ▸ (legal other present).2.2⟩
  · rw [slotAt_put_of_ne here]
    exact legal other present

theorem soft_put (present : c.has key = true) (frame : Frame c (c.put key slot)) :
    (c.put key slot).soft = update c.soft key slot.softCapacity := by
  funext other
  unfold soft
  rw [(frame other).1]
  by_cases here : other = key
  · subst here
    rw [update_self, slotAt_put_self, if_pos present]
  · rw [update_of_ne here, slotAt_put_of_ne here]

end CpuCache

namespace CpuCache

theorem slotKeys_eq : slotKeys = List.range maxCpus ×ˢ List.range numSizeClasses := by
  simp only [slotKeys, SProd.sprod, List.product]

theorem slotKeys_nodup : slotKeys.Nodup := by
  rw [slotKeys_eq]
  exact List.Nodup.product List.nodup_range List.nodup_range

theorem length_slotKeys : slotKeys.length = maxCpus * numSizeClasses := by
  rw [slotKeys_eq, List.length_product, List.length_range, List.length_range]

theorem mem_slotKeys : key ∈ slotKeys ↔ key.1 < maxCpus ∧ key.2 < numSizeClasses := by
  obtain ⟨core, sc⟩ := key
  rw [slotKeys_eq, List.mem_product, List.mem_range, List.mem_range]

end CpuCache

theorem batch_pos (lt : sc < numSizeClasses) : 0 < (row sc).batch := by
  rw [(row_sound lt).batch]
  decide

theorem CpuCache.mem_slotKeys_of_has {c : CpuCache} (present : c.has key = true) :
    key ∈ CpuCache.slotKeys := by
  simp only [CpuCache.has, Bool.and_eq_true, decide_eq_true_eq] at present
  exact CpuCache.mem_slotKeys.mpr ⟨present.1.1.2, present.1.2⟩

namespace CacheBudget
open CpuCache (Frame Legal)

variable {b : CacheBudget} {c : CpuCache} {key : Nat × Nat} {batchFloor : Bool}

/-- What `set_soft_capacity` leaves is inside the window of any slot that has one. -/
theorem setSoftCapacity_window {slot : CpuSlot} (cap : Nat) (room : 1 ≤ slot.hardCapacity) :
    1 ≤ (slot.setSoftCapacity cap).softCapacity ∧
      (slot.setSoftCapacity cap).softCapacity ≤ (slot.setSoftCapacity cap).hardCapacity := by
  simp only [CpuSlot.setSoftCapacity]
  omega

/-- A slot's first phase keeps the cache legal and its geometry. -/
theorem adaptSlot_spec (legal : c.Legal) : Frame c (b.adaptSlot c key) ∧ (b.adaptSlot c key).Legal := by
  by_cases present : c.has key = true
  · obtain ⟨one, window, -⟩ := legal key present
    have written : ∀ soft, let calm := { c.slotAt key with misses := 0, overflows := 0 }
        let c' := c.put key (if soft ≠ (c.slotAt key).softCapacity then calm.setSoftCapacity soft else calm)
        Frame c c' ∧ c'.Legal := by
      intro soft calm
      simp only
      split
      next =>
        have frame : Frame c (c.put key (calm.setSoftCapacity soft)) := CpuCache.put_frame rfl rfl rfl
        exact ⟨frame, CpuCache.put_legal legal frame fun _ =>
          setSoftCapacity_window soft (Nat.le_trans one window)⟩
      next =>
        have frame : Frame c (c.put key calm) := CpuCache.put_frame rfl rfl rfl
        exact ⟨frame, CpuCache.put_legal legal frame fun _ => ⟨one, window⟩⟩
    rw [adaptSlot, if_pos present]
    exact written _
  · rw [adaptSlot, if_neg present]
    exact ⟨.refl c, legal⟩

theorem foldl_adaptSlot_spec (keys : List (Nat × Nat)) (legal : c.Legal) :
    Frame c (keys.foldl b.adaptSlot c) ∧ (keys.foldl b.adaptSlot c).Legal := by
  induction keys generalizing c with
  | nil => exact ⟨.refl c, legal⟩
  | cons key rest ih =>
    have first : Frame c (b.adaptSlot c key) ∧ (b.adaptSlot c key).Legal := adaptSlot_spec legal
    obtain ⟨frames, legal⟩ := ih first.2
    exact ⟨first.1.trans frames, legal⟩

end CacheBudget

/-! ## Cutting to the budget -/

namespace CpuCache

variable {c c' c'' : CpuCache} {key : Nat × Nat}

/-- The cache with other soft capacities in its initialized slots. -/
def tune (c : CpuCache) (level : Nat × Nat → Nat) : CpuCache :=
  { c with slots := fun core sc =>
      if c.has (core, sc) then { c.slots core sc with softCapacity := level (core, sc) }
      else c.slots core sc }

/-- `c'` differs from `c` in soft capacities only. -/
def Tuned (c c' : CpuCache) : Prop := c' = c.tune c'.soft

theorem slotAt_tune (level : Nat × Nat → Nat) : (c.tune level).slotAt key =
    if c.has key then { c.slotAt key with softCapacity := level key } else c.slotAt key := rfl

theorem tune_frame (level : Nat × Nat → Nat) : Frame c (c.tune level) := by
  intro key
  rw [slotAt_tune]
  refine ⟨has_congr rfl ?_, ?_, ?_⟩
  · rw [slotAt_tune]
    split <;> rfl
  · split <;> rfl
  · split <;> rfl

theorem tune_tune (level level' : Nat × Nat → Nat) : (c.tune level).tune level' = c.tune level' := by
  refine ext_slotAt (by rfl) fun key => ?_
  rw [slotAt_tune, slotAt_tune, slotAt_tune, (tune_frame level key).1]
  split <;> rfl

theorem Tuned.refl (c : CpuCache) : Tuned c c := by
  unfold Tuned
  refine ext_slotAt (by rfl) fun key => ?_
  rw [slotAt_tune]
  split
  next present => rw [soft, if_pos present]
  next => rfl

theorem Tuned.trans (first : Tuned c c') (second : Tuned c' c'') : Tuned c c'' := by
  unfold Tuned at *
  calc c'' = c'.tune c''.soft := second
    _ = (c.tune c'.soft).tune c''.soft := by rw [← first]
    _ = c.tune c''.soft := tune_tune _ _

/-- Writing a soft capacity into an initialized slot is tuning the cache there. -/
theorem put_tuned (present : c.has key = true) :
    Tuned c (c.put key { c.slotAt key with softCapacity := value }) := by
  have frame : Frame c (c.put key { c.slotAt key with softCapacity := value }) := put_frame rfl rfl rfl
  unfold Tuned
  refine ext_slotAt (by rfl) fun other => ?_
  rw [slotAt_tune, soft_put present frame]
  by_cases here : other = key
  · subst here
    rw [slotAt_put_self, if_pos present, update_self]
  · rw [slotAt_put_of_ne here]
    split
    next there => rw [update_of_ne here, soft, if_pos there]
    next => rfl

end CpuCache

namespace CacheBudget
open CpuCache (Frame Legal Tuned)

variable {b : CacheBudget} {c : CpuCache} {key : Nat × Nat} {batchFloor : Bool}

/-- What a turn gives up. -/
def step (key : Nat × Nat) : Nat := (row key.2).batch

theorem floor_pos (mem : key ∈ CpuCache.slotKeys) : 1 ≤ floor batchFloor key := by
  unfold floor
  split
  next => exact batch_pos (CpuCache.mem_slotKeys.mp mem).2
  next => exact Nat.le_refl 1

/-- A slot's turn is a turn of the general walk over the soft capacities. -/
theorem shrinkSlot_turn (b : CacheBudget) (batchFloor : Bool) (key : Nat × Nat) (total : Nat)
    (progress : Bool) (legal : c.Legal) :
    let r := b.shrinkSlot batchFloor (total, progress, c) key
    Shrink.turn b.globalBudget step (floor batchFloor) ⟨total, progress, c.soft⟩ key =
        ⟨r.1, r.2.1, r.2.2.soft⟩ ∧ Tuned c r.2.2 ∧ r.2.2.Legal := by
  unfold Shrink.turn shrinkSlot
  simp only
  by_cases fits : total ≤ b.globalBudget
  · simp only [fits, if_true, true_or]
    exact ⟨trivial, .refl c, legal⟩
  · by_cases present : c.has key = true
    · obtain ⟨one, window, -⟩ := legal key present
      have soft : c.soft key = (c.slotAt key).softCapacity := if_pos present
      simp only [fits, present, soft, false_or, Bool.true_eq_false, if_false]
      by_cases above : floor batchFloor key < (c.slotAt key).softCapacity
      · have clamped : ∀ value, 1 ≤ value → value ≤ (c.slotAt key).softCapacity →
            (c.slotAt key).setSoftCapacity value = { c.slotAt key with softCapacity := value } := by
          intro value low high
          simp only [CpuSlot.setSoftCapacity]
          congr 1
          omega
        have least : 1 ≤ floor batchFloor key := floor_pos (CpuCache.mem_slotKeys_of_has present)
        simp only [above, if_true, step]
        generalize value_eq : max ((c.slotAt key).softCapacity - (row key.2).batch)
          (floor batchFloor key) = value
        have frame : Frame c (c.put key { c.slotAt key with softCapacity := value }) :=
          CpuCache.put_frame rfl rfl rfl
        rw [clamped value (by omega) (by omega), CpuCache.soft_put present frame]
        exact ⟨rfl, CpuCache.put_tuned present,
          CpuCache.put_legal legal frame fun _ => ⟨by simp only; omega, by simp only; omega⟩⟩
      · simp only [above, if_false]
        exact ⟨trivial, .refl c, legal⟩
    · have none : c.soft key = 0 := if_neg present
      have absent : c.has key = false := Bool.eq_false_of_not_eq_true present
      simp only [fits, absent, none, Nat.not_lt_zero, if_false, or_true, if_true]
      exact ⟨trivial, .refl c, legal⟩

theorem foldl_shrinkSlot_pass (b : CacheBudget) (batchFloor : Bool) (keys : List (Nat × Nat))
    (total : Nat) (progress : Bool)
    (legal : c.Legal) :
    let r := keys.foldl (b.shrinkSlot batchFloor) (total, progress, c)
    Shrink.pass b.globalBudget step (floor batchFloor) keys ⟨total, progress, c.soft⟩ =
        ⟨r.1, r.2.1, r.2.2.soft⟩ ∧ Tuned c r.2.2 ∧ r.2.2.Legal := by
  induction keys generalizing total progress c with
  | nil => exact ⟨rfl, .refl c, legal⟩
  | cons key rest ih =>
    obtain ⟨turn, tuned, legal⟩ := shrinkSlot_turn b batchFloor key total progress legal
    obtain ⟨pass, later, legal⟩ := ih (b.shrinkSlot batchFloor (total, progress, c) key).1
      (b.shrinkSlot batchFloor (total, progress, c) key).2.1 legal
    refine ⟨?_, tuned.trans later, legal⟩
    rw [Shrink.pass, List.foldl_cons, turn]
    exact pass

theorem shrinkToFloor_shrink (b : CacheBudget) (batchFloor : Bool) (fuel total : Nat) (legal : c.Legal) :
    let r := b.shrinkToFloor batchFloor fuel total c
    Shrink.shrink b.globalBudget step (floor batchFloor) CpuCache.slotKeys fuel total c.soft =
        (r.1, r.2.soft) ∧ Tuned c r.2 ∧ r.2.Legal := by
  induction fuel generalizing total c with
  | zero => exact ⟨rfl, .refl c, legal⟩
  | succ fuel ih =>
    rw [shrinkToFloor, Shrink.shrink]
    by_cases fits : total ≤ b.globalBudget
    · rw [if_pos fits, if_pos fits]
      exact ⟨rfl, .refl c, legal⟩
    · rw [if_neg fits, if_neg fits]
      obtain ⟨pass, tuned, legal⟩ := foldl_shrinkSlot_pass b batchFloor CpuCache.slotKeys total false legal
      rw [pass]
      generalize CpuCache.slotKeys.foldl (b.shrinkSlot batchFloor) (total, false, c) = after at *
      obtain ⟨total', progress, c'⟩ := after
      cases progress with
      | true =>
        obtain ⟨shrinks, later, legal⟩ := ih total' legal
        exact ⟨shrinks, tuned.trans later, legal⟩
      | false => exact ⟨rfl, tuned, legal⟩

/-- The soft capacities of a legal cache add up to a `usize`. -/
theorem sum_soft_le (legal : c.Legal) : Shrink.sum CpuCache.slotKeys c.soft ≤ usizeMax := by
  have each : ∀ level ∈ CpuCache.slotKeys.map c.soft, level ≤ u32Max := by
    intro level mem
    obtain ⟨key, -, rfl⟩ := List.mem_map.mp mem
    unfold CpuCache.soft
    split
    next present => exact Nat.le_trans (legal key present).2.1 (legal key present).2.2
    next => exact Nat.zero_le _
  calc Shrink.sum CpuCache.slotKeys c.soft
      ≤ (CpuCache.slotKeys.map c.soft).length • u32Max := List.sum_le_card_nsmul _ _ each
    _ = maxCpus * numSizeClasses * u32Max := by
      rw [List.length_map, CpuCache.length_slotKeys]
      rfl
    _ ≤ usizeMax := by decide

/-- While the sum is a `usize` the saturating addition is exact. -/
theorem foldl_saturating (keys : List (Nat × Nat)) (start : Nat)
    (room : start + Shrink.sum keys c.soft ≤ usizeMax) :
    keys.foldl (fun total key =>
      if c.has key then min (total + (c.slotAt key).softCapacity) usizeMax else total) start =
      start + Shrink.sum keys c.soft := by
  induction keys generalizing start with
  | nil => rfl
  | cons key rest ih =>
    simp only [Shrink.sum, List.map_cons, List.sum_cons] at room ih ⊢
    rw [List.foldl_cons, ← Nat.add_assoc]
    have added : (if c.has key then min (start + (c.slotAt key).softCapacity) usizeMax else start) =
        start + c.soft key := by
      unfold CpuCache.soft at room ⊢
      split
      next present =>
        rw [if_pos present] at room
        omega
      next => rfl
    rw [added]
    exact ih _ (by omega)

theorem totalCapacity_eq (legal : c.Legal) : totalCapacity c = Shrink.sum CpuCache.slotKeys c.soft := by
  have room : 0 + Shrink.sum CpuCache.slotKeys c.soft ≤ usizeMax := by
    rw [Nat.zero_add]
    exact sum_soft_le legal
  exact (foldl_saturating CpuCache.slotKeys 0 room).trans (Nat.zero_add _)

/-- One tier ends, with the exact total, and over the budget only when every slot is at
the tier's floor. -/
theorem shrinkToFloor_settles (b : CacheBudget) (batchFloor : Bool) (legal : c.Legal) :
    ∃ c', (∀ fuel, usizeMax ≤ fuel → b.shrinkToFloor batchFloor fuel (Shrink.sum CpuCache.slotKeys c.soft) c =
          (Shrink.sum CpuCache.slotKeys c'.soft, c')) ∧
      Frame c c' ∧ c'.Legal ∧
      (Shrink.sum CpuCache.slotKeys c'.soft ≤ b.globalBudget ∨
        ∀ key ∈ CpuCache.slotKeys, c'.soft key ≤ floor batchFloor key) := by
  have positive : ∀ key ∈ CpuCache.slotKeys, 0 < step key :=
    fun key mem => batch_pos (CpuCache.mem_slotKeys.mp mem).2
  obtain ⟨total', level', ends, even, -, -, done⟩ :=
    Shrink.shrink_settles CpuCache.slotKeys_nodup positive b.globalBudget (floor batchFloor)
      (rfl : Shrink.sum CpuCache.slotKeys c.soft = Shrink.sum CpuCache.slotKeys c.soft)
  have reached : ∀ fuel, usizeMax ≤ fuel →
      let r := b.shrinkToFloor batchFloor fuel (Shrink.sum CpuCache.slotKeys c.soft) c
      r.1 = total' ∧ r.2.soft = level' ∧ r.2 = c.tune level' ∧ r.2.Legal := by
    intro fuel enough
    obtain ⟨same, tuned, legal'⟩ := shrinkToFloor_shrink b batchFloor fuel
      (Shrink.sum CpuCache.slotKeys c.soft) legal
    have both := Prod.mk.inj (same.symm.trans (ends fuel (Nat.le_trans (sum_soft_le legal) enough)))
    refine ⟨both.1, both.2, ?_, legal'⟩
    rw [← both.2]
    exact tuned
  obtain ⟨-, soft, tuned, legal'⟩ := reached usizeMax (Nat.le_refl _)
  rw [tuned] at soft legal'
  refine ⟨c.tune level', fun fuel enough => ?_, CpuCache.tune_frame level', legal', ?_⟩
  · obtain ⟨total, -, cache, -⟩ := reached fuel enough
    exact Prod.ext (by rw [total, soft]; exact even) cache
  · rw [soft, ← even]
    exact done

/-- `adapt` on a legal cache ends, returns the sum of the soft capacities it leaves,
keeps each of them in `[1, hard_capacity]`, and is over the budget only when every
initialized slot is down to one object. -/
theorem adapt_settles (b : CacheBudget) (c : CpuCache) (legal : c.Legal) :
    ∃ total c', (∀ fuel, usizeMax ≤ fuel → b.adapt fuel c = (total, c')) ∧
      total = (CpuCache.slotKeys.map c'.soft).sum ∧
      Frame c c' ∧ c'.Legal ∧
      (total ≤ b.globalBudget ∨ ∀ key, c'.has key = true → (c'.slotAt key).softCapacity = 1) := by
  obtain ⟨frame₀, legal₀⟩ := foldl_adaptSlot_spec (b := b) CpuCache.slotKeys legal
  generalize tuned : CpuCache.slotKeys.foldl b.adaptSlot c = c₀ at frame₀ legal₀
  obtain ⟨c₁, ends₁, frame₁, legal₁, -⟩ := shrinkToFloor_settles b true legal₀
  have first : ∀ fuel, usizeMax ≤ fuel → b.adapt fuel c =
      if Shrink.sum CpuCache.slotKeys c₁.soft > b.globalBudget then
        b.shrinkToFloor false fuel (Shrink.sum CpuCache.slotKeys c₁.soft) c₁
      else (Shrink.sum CpuCache.slotKeys c₁.soft, c₁) := by
    intro fuel enough
    rw [adapt, tuned]
    simp only [totalCapacity_eq legal₀, ends₁ fuel enough]
  by_cases spent : Shrink.sum CpuCache.slotKeys c₁.soft > b.globalBudget
  · obtain ⟨c₂, ends₂, frame₂, legal₂, done⟩ := shrinkToFloor_settles b false legal₁
    refine ⟨_, c₂, fun fuel enough => ?_, rfl, (frame₀.trans frame₁).trans frame₂, legal₂,
      done.imp_right fun bottom key present => ?_⟩
    · rw [first fuel enough, if_pos spent]
      exact ends₂ fuel enough
    · have low := bottom key (CpuCache.mem_slotKeys_of_has present)
      rw [CpuCache.soft, if_pos present] at low
      exact Nat.le_antisymm low (legal₂ key present).1
  · refine ⟨_, c₁, fun fuel enough => ?_, rfl, frame₀.trans frame₁, legal₁, .inl (Nat.le_of_not_lt spent)⟩
    rw [first fuel enough, if_neg spent]
    rfl

/-- One busy slot, over any budget below one object. -/
def busySlot : CpuCache :=
  { carved := true
    slots := fun core sc =>
      if core = 3 ∧ sc = 0 then
        { initialized := true, softCapacity := 64, hardCapacity := 128, misses := 90 }
      else {} }

theorem busySlot_legal : busySlot.Legal := by
  intro key present
  simp only [CpuCache.has, busySlot, Bool.and_eq_true] at present
  simp only [CpuCache.slotAt, busySlot]
  split
  next => decide
  next away =>
    rw [if_neg away] at present
    exact absurd present.2 (by decide)

theorem adapt_settles_busySlot : ∃ total c',
    (∀ fuel, usizeMax ≤ fuel → adapt ⟨0, 64, 64⟩ fuel busySlot = (total, c')) ∧
      total = (CpuCache.slotKeys.map c'.soft).sum ∧ Frame busySlot c' ∧ c'.Legal ∧
      (total ≤ 0 ∨ ∀ key, c'.has key = true → (c'.slotAt key).softCapacity = 1) :=
  adapt_settles ⟨0, 64, 64⟩ busySlot busySlot_legal

end CacheBudget

end Topomalloc
