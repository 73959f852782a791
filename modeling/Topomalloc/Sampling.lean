import Topomalloc.Lib.Probing
import Topomalloc.Machine
import Mathlib.Data.Set.Card

/-! The live sampled-object set (`sampling.rs`): a table of `CAP` slots, a power of two,
with linear probing and backward-shift deletion.

The two loops of the source that have no bound of their own, the probe of the two
inserting calls and the one that closes the gap of a removal, run on `fuel`; every call
also counts the slots it reads. As long as one slot is empty the set is a partial map
from addresses to records (`sampled_objects_refine`), and every call ends after at most
`CAP` reads. In a full table the removal of a stored address never ends
(`call_ends_iff`). -/
namespace Topomalloc
open Function

structure SampledRecord where
  stackId : Nat
  bytes : Nat
  usable : Nat
  allocMs : Nat
  deriving DecidableEq, Repr

/-- `ObjSlot`; address zero marks an empty one. -/
structure ObjSlot where
  addr : Nat
  record : SampledRecord
  deriving DecidableEq, Repr

/-- `ObjSlot::EMPTY`. -/
def ObjSlot.empty : ObjSlot := ⟨0, ⟨0, 0, 0, 0⟩⟩

structure SampledObjects where
  slots : Nat → ObjSlot
  len : Nat
  dropped : Nat

namespace SampledObjects

/-- The greatest `u64`, where the count of drops stays. -/
def mostDrops : Nat := 2 ^ 64 - 1

def new : SampledObjects := ⟨fun _ => .empty, 0, 0⟩

section Model

variable (cap : Nat)

def maxLoad : Nat := cap - cap / 8

def home (addr : Nat) : Nat := ((addr * 0x9e3779b97f4a7c15 % 2 ^ 64) >>> 29) &&& (cap - 1)

def after (i : Nat) : Nat := (i + 1) &&& (cap - 1)

/-- The probe from `i` on: the first slot that is empty or holds the address, and how
many slots were read. -/
def probe (slots : Nat → ObjSlot) (addr : Nat) : (fuel i : Nat) → Option (Nat × Nat)
  | 0, _ => none
  | fuel + 1, i =>
    if (slots i).addr = 0 ∨ (slots i).addr = addr then some (i, 1)
    else (probe slots addr fuel (after cap i)).map fun r => (r.1, r.2 + 1)

/-- `on_alloc`. -/
def onAlloc (fuel : Nat) (t : SampledObjects) (addr : Nat) (record : SampledRecord) :
    Option (Bool × SampledObjects × Nat) :=
  if addr = 0 then some (false, t, 0)
  else if t.len ≥ maxLoad cap then
    some (false, { t with dropped := min (t.dropped + 1) mostDrops }, 0)
  else (probe cap t.slots addr fuel (home cap addr)).map fun (i, reads) =>
    if (t.slots i).addr = 0 then
      (true, { t with slots := update t.slots i ⟨addr, record⟩, len := t.len + 1 }, reads)
    else (false, { t with slots := update t.slots i { t.slots i with record } }, reads)

/-- `on_alloc_restore`. -/
def onAllocRestore (fuel : Nat) (t : SampledObjects) (addr : Nat) (record : SampledRecord) :
    Option (Bool × SampledObjects × Nat) :=
  if addr = 0 then some (false, t, 0)
  else if t.len ≥ cap then
    some (false, { t with dropped := min (t.dropped + 1) mostDrops }, 0)
  else (probe cap t.slots addr fuel (home cap addr)).map fun (i, reads) =>
    if (t.slots i).addr = 0 then
      (true, { t with slots := update t.slots i ⟨addr, record⟩, len := t.len + 1 }, reads)
    else (false, t, reads)

/-- `remove_at`: the slots with the gap closed, and how many were read. -/
def removeAt : (fuel : Nat) → (slots : Nat → ObjSlot) → (hole j : Nat) → Option ((Nat → ObjSlot) × Nat)
  | 0, _, _, _ => none
  | fuel + 1, slots, hole, j =>
    let j := after cap j
    let addr := (slots j).addr
    if addr = 0 then some (update slots hole .empty, 1)
    else
      let homeJ := home cap addr
      let canMove := if hole ≤ j then ¬(hole < homeJ ∧ homeJ ≤ j) else ¬(homeJ > hole ∨ homeJ ≤ j)
      (if canMove then removeAt fuel (update slots hole (slots j)) j j
        else removeAt fuel slots hole j).map fun r => (r.1, r.2 + 1)

/-- `on_free`; its own loop reads at most `CAP` slots. -/
def onFree (fuel : Nat) (t : SampledObjects) (addr : Nat) :
    Option (Option SampledRecord × SampledObjects × Nat) :=
  if addr = 0 then some (none, t, 0)
  else match probe cap t.slots addr cap (home cap addr) with
    | none => some (none, t, cap)
    | some (i, reads) =>
      if (t.slots i).addr = 0 then some (none, t, reads)
      else (removeAt cap fuel t.slots i i).map fun r =>
        (some (t.slots i).record, { t with slots := r.1, len := t.len - 1 }, reads + r.2)

/-- A call on the set. -/
inductive Call
  | onAlloc (addr : Nat) (record : SampledRecord)
  | onAllocRestore (addr : Nat) (record : SampledRecord)
  | onFree (addr : Nat)

/-- What a call returned. -/
inductive Answer
  | stored (fresh : Bool)
  | freed (record : Option SampledRecord)
  deriving DecidableEq

/-- One call: its answer, the set after it and how many slots it read. -/
def call (fuel : Nat) (t : SampledObjects) : Call → Option (Answer × SampledObjects × Nat)
  | .onAlloc addr record => (onAlloc cap fuel t addr record).map fun r => (.stored r.1, r.2)
  | .onAllocRestore addr record =>
    (onAllocRestore cap fuel t addr record).map fun r => (.stored r.1, r.2)
  | .onFree addr => (onFree cap fuel t addr).map fun r => (.freed r.1, r.2)

end Model

/-! ## The loops -/

/-- The address a slot holds. -/
def key (s : ObjSlot) : Option Nat := if s.addr = 0 then none else some s.addr

theorem key_eq_none : key s = none ↔ s.addr = 0 := by simp [key]

theorem key_eq_some : key s = some a ↔ s.addr = a ∧ a ≠ 0 := by
  unfold key
  split
  next zero => simp [zero, eq_comm]
  next some =>
    rw [Option.some.injEq]
    exact ⟨fun same => ⟨same, same ▸ some⟩, And.left⟩

section Loops

variable {cap k : Nat} (power : cap = 2 ^ k)
include power

theorem after_eq (inside : i < cap) : after cap i = Probing.next cap i := by
  rw [after, Probing.next, power, Nat.and_two_pow_sub_one_eq_mod]
  split
  next last => rw [last, Nat.mod_self]
  next => exact Nat.mod_eq_of_lt (by omega)

theorem home_lt (addr : Nat) : home cap addr < cap := by
  rw [home, power, Nat.and_two_pow_sub_one_eq_mod]
  exact Nat.mod_lt _ (Nat.two_pow_pos k)

/-- The probe ends where the walk stops. -/
theorem probe_stops {slots : Nat → ObjSlot} (named : addr ≠ 0) (start : i < cap)
    (stops : Probing.Stops key cap slots addr i p) (enough : Probing.dist cap i p < fuel) :
    probe cap slots addr fuel i = some (p, Probing.dist cap i p + 1) := by
  induction fuel generalizing i with
  | zero => omega
  | succ fuel ih =>
    by_cases here : i = p
    · subst here
      have stop : (slots i).addr = 0 ∨ (slots i).addr = addr :=
        stops.here.imp key_eq_none.mp fun found => (key_eq_some.mp found).1
      rw [probe, if_pos stop, Probing.dist_self]
    · obtain ⟨onWay, far⟩ := Probing.onWay_next start stops.inside start here
      have passed := stops.before i start (onWay.mpr (.inl rfl))
      rw [Ne, key_eq_none, Ne, key_eq_some, not_and_not_right] at passed
      have goes : ¬((slots i).addr = 0 ∨ (slots i).addr = addr) := by
        rintro (empty | found)
        · exact passed.1 empty
        · exact named (passed.2 found)
      have later : Probing.Stops key cap slots addr (Probing.next cap i) p :=
        ⟨stops.inside, stops.here, fun q inside onWay => stops.before q inside
          ((Probing.onWay_next start stops.inside inside here).1.mpr (.inr onWay))⟩
      rw [probe, if_neg goes, after_eq power start, ih (Probing.next_lt start) later (by omega), far]
      rfl

/-- With no empty slot and no slot of the address, the probe goes on. -/
theorem probe_none {slots : Nat → ObjSlot} (start : i < cap)
    (misses : ∀ q, q < cap → (slots q).addr ≠ 0 ∧ (slots q).addr ≠ addr) (fuel : Nat) :
    probe cap slots addr fuel i = none := by
  induction fuel generalizing i with
  | zero => rfl
  | succ fuel ih =>
    have := misses i start
    rw [probe, if_neg (by tauto), after_eq power start, ih (Probing.next_lt start)]
    rfl

omit power in
/-- The test of `remove_at`: an entry may move unless its home was passed. -/
theorem canMove_iff :
    (if hole ≤ j then ¬(hole < h ∧ h ≤ j) else ¬(h > hole ∨ h ≤ j)) ↔ ¬Probing.Passed hole j h := by
  unfold Probing.Passed
  split <;> exact Iff.rfl

open Classical in
/-- At a slot in use the gap moves there, unless the walk from the slot's home passed it. -/
theorem removeAt_filled (slots : Nat → ObjSlot) (hole : Nat) (inside : j < cap) (fuel : Nat)
    (filled : (slots (Probing.next cap j)).addr ≠ 0) :
    removeAt cap (fuel + 1) slots hole j =
      (if Probing.Passed hole (Probing.next cap j) (home cap (slots (Probing.next cap j)).addr) then
        removeAt cap fuel slots hole (Probing.next cap j)
      else removeAt cap fuel (update slots hole (slots (Probing.next cap j))) (Probing.next cap j)
        (Probing.next cap j)).map fun r => (r.1, r.2 + 1) := by
  rw [removeAt, after_eq power inside]
  simp only [filled, if_false, canMove_iff, ite_not]

/-- In a full table the gap is never closed. -/
theorem removeAt_none {slots : Nat → ObjSlot} (inside : j < cap) (inRing : hole < cap)
    (full : ∀ q, q < cap → (slots q).addr ≠ 0) (fuel : Nat) : removeAt cap fuel slots hole j = none := by
  induction fuel generalizing slots hole j with
  | zero => rfl
  | succ fuel ih =>
    have next := Probing.next_lt inside
    rw [removeAt_filled power slots hole inside fuel (full _ next)]
    split
    · rw [ih next inRing full]
      rfl
    · rw [ih next next fun q below => ?_]
      · rfl
      by_cases here : q = hole
      · subst here
        rw [update_self]
        exact full _ next
      · rw [update_of_ne here]
        exact full q below

open Probing in
/-- With an empty slot ahead the gap is closed there. -/
theorem removeAt_closes {slots : Nat → ObjSlot}
    (gap : Gap key (home cap) cap others free slots hole j) (inside : v < cap) (below : j < cap)
    (ahead : OnWay hole v j) (vacant : free v) (before : ∀ q, q < cap → OnWay hole v q → ¬free q) :
    ∃ hole' slots', (∀ fuel, Probing.dist cap j v ≤ fuel →
        removeAt cap fuel slots hole j = some (slots', Probing.dist cap j v)) ∧
      Sound key (home cap) cap slots' ∧
      (∀ s, key s ≠ none → ((∃ p, p < cap ∧ slots' p = s) ↔ others s)) ∧
      hole' < cap ∧ ¬free hole' ∧ ∀ q, q < cap → (key (slots' q) = none ↔ q = hole' ∨ free q) := by
  induction left : Probing.dist cap j v generalizing slots hole j with
  | zero =>
    unfold OnWay at ahead
    unfold Probing.dist at left
    split at ahead <;> split at left <;> omega
  | succ left' ih =>
    have apart : j ≠ v := by
      rintro rfl
      rw [Probing.dist_self] at left
      cases left
    have inRing := next_lt below
    have far := (onWay_next below inside below apart).2
    have some : ∀ fuel, left' + 1 ≤ fuel → ∃ rest, fuel = rest + 1 :=
      fun fuel enough => ⟨fuel - 1, by omega⟩
    by_cases stop : next cap j = v
    · -- The walk has met the empty slot.
      have empty : key (slots (next cap j)) = none := by
        rw [stop]
        exact (gap.vacant v inside).mpr vacant
      obtain ⟨sound, kept, emptied⟩ := gap.close (s := ObjSlot.empty) below empty rfl
      refine ⟨hole, _, fun fuel enough => ?_, sound, kept, gap.inside,
        fun free => gap.filled ((gap.vacant hole gap.inside).mpr free), emptied⟩
      obtain ⟨rest, rfl⟩ := some fuel enough
      rw [stop, Probing.dist_self] at far
      rw [removeAt, after_eq power below]
      simp only [key_eq_none.mp empty, if_true]
      rw [← left, far]
    · have onWay : OnWay hole v (next cap j) ∧ next cap j ≠ hole := by
        have := next_cases below
        unfold OnWay at ahead ⊢
        split at ahead <;> split <;> omega
      obtain ⟨a, met⟩ := Option.ne_none_iff_exists'.mp fun empty =>
        before _ inRing onWay.1 ((gap.vacant _ inRing).mp empty)
      have held := key_eq_some.mp met
      have filled := removeAt_filled power slots hole below
      rw [held.1] at filled
      by_cases passed : Passed hole (next cap j) (home cap a)
      · obtain ⟨hole', slots', ran, rest⟩ :=
          ih (gap.stay below met passed) inRing onWay.1 before (by omega)
        refine ⟨hole', slots', fun fuel enough => ?_, rest⟩
        obtain ⟨rest, rfl⟩ := some fuel enough
        rw [filled rest held.2, if_pos passed, ran rest (Nat.le_of_succ_le_succ enough)]
        rfl
      · obtain ⟨hole', slots', ran, rest⟩ :=
          ih (gap.move below onWay.2 met passed) inRing (onWay_start stop)
            (fun q below later => before q below (onWay.1.rest later)) (by omega)
        refine ⟨hole', slots', fun fuel enough => ?_, rest⟩
        obtain ⟨rest, rfl⟩ := some fuel enough
        rw [filled rest held.2, if_neg passed, ran rest (Nat.le_of_succ_le_succ enough)]
        rfl

end Loops

/-! ## What the set is for -/

/-- A partial map from addresses to records, and how many records were turned away. -/
structure Spec where
  map : Nat → Option SampledRecord
  drops : Nat

namespace Spec

def empty : Spec := ⟨fun _ => none, 0⟩

/-- How many addresses are stored. -/
noncomputable def size (s : Spec) : Nat := {a | s.map a ≠ none}.ncard

def store (s : Spec) (addr : Nat) (record : SampledRecord) : Spec :=
  { s with map := update s.map addr (some record) }

def drop (s : Spec) : Answer × Spec := (.stored false, { s with drops := s.drops + 1 })

open Classical in
/-- What each call is for. -/
noncomputable def call (cap : Nat) (s : Spec) : Call → Answer × Spec
  | .onAlloc addr record =>
    if addr = 0 then (.stored false, s)
    else if s.size ≥ maxLoad cap then s.drop
    else (.stored (s.map addr).isNone, s.store addr record)
  | .onAllocRestore addr record =>
    if addr = 0 then (.stored false, s)
    else if s.size ≥ cap then s.drop
    else if (s.map addr).isNone then (.stored true, s.store addr record)
    else (.stored false, s)
  | .onFree addr => (.freed (s.map addr), { s with map := update s.map addr none })

end Spec

/-- The slots in use. -/
def inUse (cap : Nat) (slots : Nat → ObjSlot) : Finset Nat :=
  (Finset.range cap).filter fun p => (slots p).addr ≠ 0

/-- Some slot holds the record under the address. -/
def Stores (cap : Nat) (t : SampledObjects) (addr : Nat) (record : SampledRecord) : Prop :=
  ∃ p, p < cap ∧ t.slots p = ⟨addr, record⟩

/-- The table holds the map, each address once and where its probe finds it. -/
structure Represents (cap : Nat) (t : SampledObjects) (s : Spec) : Prop where
  table : Probing.Sound key (home cap) cap t.slots
  len : t.len = (inUse cap t.slots).card
  map : ∀ addr record, s.map addr = some record ↔ addr ≠ 0 ∧ Stores cap t addr record
  dropped : t.dropped = min s.drops mostDrops

/-- A call whose loop has no end: a stored address is freed from a full table. -/
def Wedges (cap : Nat) (t : SampledObjects) : Call → Prop
  | .onFree addr => addr ≠ 0 ∧ t.len = cap ∧ ∃ record, Stores cap t addr record
  | _ => False

section Refinement

variable {cap k addr p : Nat} {record : SampledRecord} {t : SampledObjects} {s : Spec}

theorem represents_new : Represents cap new Spec.empty where
  table := by
    constructor
    · intro p _ a stored
      cases stored
    · intro p q _ _ _ _ a stored
      cases stored
  len := by
    rw [inUse, Finset.filter_false_of_mem]
    · rfl
    · intro p _
      exact not_not.mpr rfl
  map addr record := by
    refine iff_of_false (fun some => nomatch some) ?_
    rintro ⟨named, p, -, held⟩
    exact named (congrArg ObjSlot.addr held).symm
  dropped := rfl

theorem mem_inUse {slots : Nat → ObjSlot} : p ∈ inUse cap slots ↔ p < cap ∧ (slots p).addr ≠ 0 := by
  rw [inUse, Finset.mem_filter, Finset.mem_range]

theorem inUse_card_le : (inUse cap t.slots).card ≤ cap :=
  (Finset.card_filter_le _ _).trans (Finset.card_range cap).le

/-- Below its capacity the table has an empty slot. -/
theorem exists_empty (room : (inUse cap t.slots).card < cap) : ∃ v, v < cap ∧ (t.slots v).addr = 0 := by
  by_contra none
  have all : ∀ p ∈ Finset.range cap, (t.slots p).addr ≠ 0 := fun p mem empty =>
    none ⟨p, Finset.mem_range.mp mem, empty⟩
  rw [inUse, Finset.filter_true_of_mem all, Finset.card_range] at room
  omega

theorem full_slots (full : (inUse cap t.slots).card = cap) (inside : p < cap) : (t.slots p).addr ≠ 0 := by
  have whole : inUse cap t.slots = Finset.range cap :=
    Finset.eq_of_subset_of_card_le (Finset.filter_subset _ _) (by rw [Finset.card_range]; exact full.ge)
  have mem : p ∈ inUse cap t.slots := by
    rw [whole]
    exact Finset.mem_range.mpr inside
  exact (mem_inUse.mp mem).2

/-- The probe for the address ends at slot `p`, after at most `CAP` reads. -/
structure Finds (cap : Nat) (t : SampledObjects) (addr p : Nat) : Prop where
  stops : Probing.Stops key cap t.slots addr (home cap addr) p
  reads : Probing.dist cap (home cap addr) p + 1 ≤ cap
  probe : ∀ fuel, cap ≤ fuel → probe cap t.slots addr fuel (home cap addr) =
    some (p, Probing.dist cap (home cap addr) p + 1)

theorem finds_of_stops (power : cap = 2 ^ k) (named : addr ≠ 0)
    (stops : Probing.Stops key cap t.slots addr (home cap addr) p) : Finds cap t addr p :=
  have start := home_lt power addr
  have near := Probing.dist_lt start stops.inside
  ⟨stops, near, fun _ enough => probe_stops power named start stops (near.trans_le enough)⟩

/-- With any fuel from `CAP` on the call ends after at most `CAP` reads, with this answer
and a table of this map. -/
def Does (cap : Nat) (t : SampledObjects) (c : Call) (r : Answer × Spec) : Prop :=
  ∃ t' reads, reads ≤ cap ∧ Represents cap t' r.2 ∧
    ∀ fuel, cap ≤ fuel → call cap fuel t c = some (r.1, t', reads)

variable (rep : Represents cap t s)
include rep

/-- The map has as many addresses as slots are in use. -/
theorem Represents.size : s.size = t.len := by
  have image : {a | s.map a ≠ none} = (inUse cap t.slots).image fun p => (t.slots p).addr := by
    ext a
    simp only [Set.mem_ofPred_eq, Option.ne_none_iff_exists', Finset.coe_image, Set.mem_image,
      Finset.mem_coe, mem_inUse]
    constructor
    · rintro ⟨record, stored⟩
      obtain ⟨named, p, inside, held⟩ := (rep.map a record).mp stored
      exact ⟨p, ⟨inside, by rw [held]; exact named⟩, by rw [held]⟩
    · rintro ⟨p, ⟨inside, named⟩, rfl⟩
      exact ⟨_, (rep.map _ (t.slots p).record).mpr ⟨named, p, inside, rfl⟩⟩
  rw [Spec.size, image, Set.ncard_coe_finset, Finset.card_image_of_injOn, rep.len]
  intro p memP q memQ same
  obtain ⟨insideP, namedP⟩ := mem_inUse.mp (Finset.mem_coe.mp memP)
  have insideQ := (mem_inUse.mp (Finset.mem_coe.mp memQ)).1
  exact rep.table.single p q insideP insideQ (by simp) (by simp) _ (key_eq_some.mpr ⟨rfl, namedP⟩)
    (key_eq_some.mpr ⟨same.symm, namedP⟩)

theorem Represents.absent (named : addr ≠ 0) (absent : s.map addr = none) (inside : p < cap) :
    key (t.slots p) ≠ some addr := by
  intro stored
  have held := (key_eq_some.mp stored).1
  have := (rep.map addr (t.slots p).record).mpr ⟨named, p, inside, by rw [← held]⟩
  rw [absent] at this
  cases this

/-- Storing a record where the probe for its address ended. -/
theorem Represents.store (named : addr ≠ 0) (stops : Probing.Stops key cap t.slots addr (home cap addr) p)
    (others : ∀ q, q < cap → q ≠ p → key (t.slots q) ≠ some addr) (record : SampledRecord) :
    Represents cap { t with
      slots := update t.slots p ⟨addr, record⟩
      len := if (t.slots p).addr = 0 then t.len + 1 else t.len } (s.store addr record) where
  table := rep.table.store stops (key_eq_some.mpr ⟨rfl, named⟩) others
  len := by
    have used : inUse cap (update t.slots p ⟨addr, record⟩) = insert p (inUse cap t.slots) := by
      ext q
      simp only [mem_inUse, Finset.mem_insert]
      by_cases here : q = p
      · subst here
        simp [update_self, named, stops.inside]
      · simp [here]
    refine Eq.trans ?_ (congrArg Finset.card used).symm
    split
    next empty => rw [Finset.card_insert_of_notMem (by simp [mem_inUse, empty]), rep.len]
    next filled =>
      rw [Finset.insert_eq_of_mem (mem_inUse.mpr ⟨stops.inside, filled⟩), rep.len]
  map a r := by
    dsimp only [Spec.store, Stores]
    by_cases same : a = addr
    · subst same
      rw [update_self, Option.some.injEq]
      constructor
      · rintro rfl
        exact ⟨named, p, stops.inside, update_self ..⟩
      · rintro ⟨-, q, inside, held⟩
        by_cases here : q = p
        · subst here
          rw [update_self] at held
          exact congrArg ObjSlot.record held
        · rw [update_of_ne here] at held
          exact absurd (key_eq_some.mpr ⟨by rw [held], named⟩) (others q inside here)
    · rw [update_of_ne same, rep.map]
      refine and_congr_right fun other => exists_congr fun q => and_congr_right fun inside => ?_
      by_cases here : q = p
      · subst here
        rw [update_self]
        refine iff_of_false (fun held => ?_) fun held => same (congrArg ObjSlot.addr held).symm
        -- The slot was empty or held the address that is stored.
        rcases stops.here with vacant | found
        · exact other (by rw [← key_eq_none.mp vacant, held])
        · exact same (by rw [← (key_eq_some.mp found).1, held])
      · rw [update_of_ne here]
  dropped := rep.dropped

theorem Represents.drop : Represents cap { t with dropped := min (t.dropped + 1) mostDrops } s.drop.2 := by
  refine ⟨rep.table, rep.len, rep.map, ?_⟩
  have := rep.dropped
  simp only [Spec.drop]
  omega

variable (power : cap = 2 ^ k)
include power

/-- The probe for a stored address ends at its slot. -/
theorem Represents.finds_stored (stored : s.map addr = some record) :
    ∃ p, t.slots p = ⟨addr, record⟩ ∧ Finds cap t addr p ∧
      ∀ q, q < cap → q ≠ p → key (t.slots q) ≠ some addr := by
  obtain ⟨named, p, inside, held⟩ := (rep.map addr record).mp stored
  have here : key (t.slots p) = some addr := key_eq_some.mpr ⟨by rw [held], named⟩
  refine ⟨p, held, finds_of_stops power named (rep.table.stops_at inside here), ?_⟩
  intro q below away again
  exact away (rep.table.single q p below inside (by simp) (by simp) addr again here)

/-- The probe for an address that is not stored ends at an empty slot, if there is one. -/
theorem Represents.finds_absent (named : addr ≠ 0) (absent : s.map addr = none) (room : t.len < cap) :
    ∃ p, (t.slots p).addr = 0 ∧ Finds cap t addr p := by
  obtain ⟨v, inside, empty⟩ := exists_empty (rep.len ▸ room)
  obtain ⟨p, vacant, stops⟩ := Probing.exists_stops (home_lt power addr) inside
    (key_eq_none.mpr empty) fun q => rep.absent named absent
  exact ⟨p, key_eq_none.mp vacant, finds_of_stops power named stops⟩

/-- Taking a stored address out of a table with an empty slot. -/
theorem Represents.remove (named : addr ≠ 0) (inside : p < cap)
    (held : t.slots p = ⟨addr, record⟩) (room : t.len < cap) :
    ∃ slots' reads, Probing.dist cap (home cap addr) p + 1 + reads ≤ cap ∧
      (∀ fuel, cap ≤ fuel → removeAt cap fuel t.slots p p = some (slots', reads)) ∧
      Represents cap { t with slots := slots', len := t.len - 1 }
        { s with map := update s.map addr none } := by
  have here : key (t.slots p) = some addr := key_eq_some.mpr ⟨by rw [held], named⟩
  have filled : key (t.slots p) ≠ none := by
    rw [here]
    exact Option.some_ne_none addr
  obtain ⟨v, below, empty⟩ := exists_empty (rep.len ▸ room)
  obtain ⟨v, below, vacant, before⟩ := Probing.exists_first_vacant inside below (key_eq_none.mpr empty)
  have apart : p ≠ v := fun same => filled (same ▸ vacant)
  have offWay : ¬Probing.OnWay (home cap addr) p v := fun onWay =>
    rep.table.reach p inside addr here v below onWay vacant
  have round := Probing.dist_add_dist_lt (home_lt power addr) inside below offWay
  obtain ⟨hole', slots', ran, table, kept, inHole, used, emptied⟩ :=
    removeAt_closes power (rep.table.gap inside filled) below inside (Probing.onWay_start apart) vacant before
  refine ⟨slots', _, by omega, fun fuel enough => ran fuel ((Probing.dist_lt inside below).le.trans enough),
    table, ?_, fun a r => ?_, rep.dropped⟩
  · have erased : inUse cap slots' = (inUse cap t.slots).erase hole' := by
      ext q
      simp only [mem_inUse, Finset.mem_erase]
      by_cases below : q < cap
      · have := emptied q below
        rw [key_eq_none, key_eq_none] at this
        tauto
      · tauto
    refine Eq.trans ?_ (congrArg Finset.card erased).symm
    rw [Finset.card_erase_of_mem, rep.len]
    exact mem_inUse.mpr ⟨inHole, fun none => used (key_eq_none.mpr none)⟩
  · dsimp only [Stores]
    by_cases same : a = addr
    · subst same
      rw [update_self]
      refine iff_of_false (fun none => nomatch none) ?_
      rintro ⟨-, stored⟩
      -- The address would have stood in a second slot.
      obtain ⟨q, inside', away, found⟩ := (kept _ (by simp [key, named])).mp stored
      exact away (rep.table.single q p inside' inside (by simp) (by simp) a
        (key_eq_some.mpr ⟨by rw [found], named⟩) here)
    · rw [update_of_ne same, rep.map]
      refine and_congr_right fun other => ?_
      rw [kept ⟨a, r⟩ (by simp [key, other])]
      refine exists_congr fun q => and_congr_right fun inside' => ?_
      refine ⟨fun found => ⟨?_, found⟩, And.right⟩
      rintro rfl
      rw [held] at found
      exact same (congrArg ObjSlot.addr found).symm

/-- The insertion both calls share: an address that is not stored goes into the empty slot
its probe finds. -/
theorem Represents.insert (named : addr ≠ 0) (absent : s.map addr = none) (room : t.len < cap)
    (record : SampledRecord) :
    ∃ p, (t.slots p).addr = 0 ∧ Finds cap t addr p ∧
      Represents cap { t with slots := update t.slots p ⟨addr, record⟩, len := t.len + 1 }
        (s.store addr record) := by
  obtain ⟨p, empty, finds⟩ := rep.finds_absent power named absent room
  have made := rep.store named finds.stops (fun q inside _ => rep.absent named absent inside) record
  rw [if_pos empty] at made
  exact ⟨p, empty, finds, made⟩

theorem Represents.onAlloc (addr : Nat) (record : SampledRecord) :
    Does cap t (.onAlloc addr record) (s.call cap (.onAlloc addr record)) := by
  have load : maxLoad cap ≤ cap := Nat.sub_le _ _
  simp only [Does, SampledObjects.call, SampledObjects.onAlloc, Spec.call, rep.size]
  by_cases named : addr = 0
  · simp only [named, if_true]
    exact ⟨t, 0, Nat.zero_le _, rep, fun _ _ => rfl⟩
  simp only [named, if_false]
  by_cases loaded : t.len ≥ maxLoad cap
  · simp only [loaded, if_true]
    exact ⟨_, 0, Nat.zero_le _, rep.drop, fun _ _ => rfl⟩
  simp only [loaded, if_false]
  cases stored : s.map addr with
  | none =>
    obtain ⟨p, empty, finds, made⟩ := rep.insert power named stored (by omega) record
    refine ⟨_, _, finds.reads, made, fun fuel enough => ?_⟩
    rw [finds.probe fuel enough]
    simp only [Option.map_some, empty, if_true, Option.isNone_none]
  | some old =>
    obtain ⟨p, held, finds, others⟩ := rep.finds_stored power stored
    have made := rep.store named finds.stops others record
    simp only [held, named, if_false] at made
    refine ⟨_, _, finds.reads, made, fun fuel enough => ?_⟩
    rw [finds.probe fuel enough]
    simp only [Option.map_some, held, named, if_false, Option.isNone_some]

theorem Represents.onAllocRestore (addr : Nat) (record : SampledRecord) :
    Does cap t (.onAllocRestore addr record) (s.call cap (.onAllocRestore addr record)) := by
  simp only [Does, SampledObjects.call, SampledObjects.onAllocRestore, Spec.call, rep.size]
  by_cases named : addr = 0
  · simp only [named, if_true]
    exact ⟨t, 0, Nat.zero_le _, rep, fun _ _ => rfl⟩
  simp only [named, if_false]
  by_cases loaded : t.len ≥ cap
  · simp only [loaded, if_true]
    exact ⟨_, 0, Nat.zero_le _, rep.drop, fun _ _ => rfl⟩
  simp only [loaded, if_false]
  cases stored : s.map addr with
  | none =>
    obtain ⟨p, empty, finds, made⟩ := rep.insert power named stored (by omega) record
    refine ⟨_, _, finds.reads, made, fun fuel enough => ?_⟩
    rw [finds.probe fuel enough]
    simp only [Option.map_some, empty, if_true, Option.isNone_none]
  | some old =>
    obtain ⟨p, held, finds, -⟩ := rep.finds_stored power stored
    refine ⟨t, _, finds.reads, rep, fun fuel enough => ?_⟩
    rw [finds.probe fuel enough]
    simp only [Option.map_some, held, named, if_false, Option.isNone_some, Bool.false_eq_true]

theorem Represents.onFree (ends : ¬Wedges cap t (.onFree addr)) :
    Does cap t (.onFree addr) (s.call cap (.onFree addr)) := by
  simp only [Does, SampledObjects.call, SampledObjects.onFree, Spec.call]
  have kept : s.map addr = none → Represents cap t { s with map := update s.map addr none } := by
    intro absent
    rwa [← absent, update_eq_self]
  by_cases named : addr = 0
  · have absent : s.map addr = none :=
      Option.eq_none_iff_forall_not_mem.mpr fun r stored => ((rep.map addr r).mp stored).1 named
    simp only [named, if_true]
    subst named
    exact ⟨t, 0, Nat.zero_le _, kept absent, fun _ _ => by rw [absent]; rfl⟩
  simp only [named, if_false]
  cases stored : s.map addr with
  | none =>
    by_cases full : t.len = cap
    · -- The loop reads every slot once and gives up.
      have misses := probe_none power (home_lt power addr) (fun q inside =>
        ⟨full_slots (rep.len ▸ full) inside, fun held => rep.absent named stored inside
          (key_eq_some.mpr ⟨held, named⟩)⟩) cap
      rw [misses]
      exact ⟨t, cap, Nat.le_refl _, kept stored, fun _ _ => rfl⟩
    · have room : t.len < cap := Nat.lt_of_le_of_ne (rep.len ▸ inUse_card_le) full
      obtain ⟨p, empty, finds⟩ := rep.finds_absent power named stored room
      rw [finds.probe cap (Nat.le_refl _)]
      simp only [empty, if_true]
      exact ⟨t, _, finds.reads, kept stored, fun _ _ => rfl⟩
  | some record =>
    obtain ⟨p, held, finds, -⟩ := rep.finds_stored power stored
    have room : t.len < cap := Nat.lt_of_le_of_ne (rep.len ▸ inUse_card_le) fun full =>
      ends ⟨named, full, record, ((rep.map addr record).mp stored).2⟩
    obtain ⟨slots', reads, within, ran, removed⟩ := rep.remove power named finds.stops.inside held room
    rw [finds.probe cap (Nat.le_refl _)]
    simp only [held, named, if_false]
    refine ⟨_, _, within, removed, fun fuel enough => ?_⟩
    rw [ran fuel enough]
    rfl

/-- Every call that does not wedge does what the map does. -/
theorem Represents.call (ends : ¬Wedges cap t c) : Does cap t c (s.call cap c) := by
  cases c with
  | onAlloc addr record => exact rep.onAlloc power addr record
  | onAllocRestore addr record => exact rep.onAllocRestore power addr record
  | onFree addr => exact rep.onFree power ends

/-- A call that wedges has no end. -/
theorem Represents.wedged (wedges : Wedges cap t c) (fuel : Nat) :
    SampledObjects.call cap fuel t c = none := by
  cases c with
  | onAlloc => exact wedges.elim
  | onAllocRestore => exact wedges.elim
  | onFree addr =>
    obtain ⟨named, full, record, stored⟩ := wedges
    obtain ⟨p, held, finds, -⟩ := rep.finds_stored power ((rep.map addr record).mpr ⟨named, stored⟩)
    have endless := removeAt_none power finds.stops.inside finds.stops.inside
      (fun q inside => full_slots (rep.len ▸ full) inside) fuel
    simp only [SampledObjects.call, SampledObjects.onFree, named, if_false,
      finds.probe cap (Nat.le_refl _), held, endless, Option.map_none]

end Refinement

/-! ## Runs -/

/-- Calls in a row: the answers and the set after them. -/
def run (cap fuel : Nat) (t : SampledObjects) : List Call → Option (List Answer × SampledObjects)
  | [] => some ([], t)
  | c :: rest => (call cap fuel t c).bind fun r =>
    (run cap fuel r.2.1 rest).map fun later => (r.1 :: later.1, later.2)

noncomputable def Spec.run (cap : Nat) (s : Spec) : List Call → List Answer × Spec
  | [] => ([], s)
  | c :: rest => ((s.call cap c).1 :: ((s.call cap c).2.run cap rest).1, ((s.call cap c).2.run cap rest).2)

/-- Every state the calls lead through has an empty slot. -/
def Spare (cap : Nat) (t : SampledObjects) (calls : List Call) : Prop :=
  ∀ front answers t', front <+: calls → run cap cap t front = some (answers, t') →
    ∃ v, v < cap ∧ (t'.slots v).addr = 0

section Runs

variable {cap k fuel : Nat} {t t' : SampledObjects} {s : Spec} {calls : List Call}
  {answers : List Answer} (power : cap = 2 ^ k)
include power

/-- A run that came to its end did what the map does. -/
theorem Represents.run_eq (rep : Represents cap t s) (enough : cap ≤ fuel)
    (ran : run cap fuel t calls = some (answers, t')) :
    answers = (s.run cap calls).1 ∧ Represents cap t' (s.run cap calls).2 := by
  induction calls generalizing t s answers with
  | nil =>
    obtain ⟨rfl, rfl⟩ := Prod.mk.inj (Option.some.inj ran)
    exact ⟨rfl, rep⟩
  | cons c rest ih =>
    obtain ⟨r, called, rest'⟩ := Option.bind_eq_some_iff.mp ran
    obtain ⟨later, ran', same⟩ := Option.map_eq_some_iff.mp rest'
    obtain ⟨rfl, rfl⟩ := Prod.mk.inj same
    have ends : ¬Wedges cap t c := fun wedges => by
      rw [rep.wedged power wedges] at called
      cases called
    obtain ⟨t₁, reads, -, rep₁, does⟩ := rep.call power ends
    rw [does fuel enough] at called
    obtain rfl := Option.some.inj called
    obtain ⟨same, rep'⟩ := ih rep₁ ran'
    exact ⟨congrArg _ same, rep'⟩

/-- With an empty slot in every state the run comes to its end. -/
theorem Represents.run_ends (rep : Represents cap t s) (spare : Spare cap t calls) :
    ∃ t', (∀ fuel, cap ≤ fuel → run cap fuel t calls = some ((s.run cap calls).1, t')) ∧
      Represents cap t' (s.run cap calls).2 ∧ ∃ v, v < cap ∧ (t'.slots v).addr = 0 := by
  induction calls generalizing t s with
  | nil => exact ⟨t, fun _ _ => rfl, rep, spare [] [] t (List.nil_prefix) rfl⟩
  | cons c rest ih =>
    obtain ⟨v, inside, empty⟩ := spare [] [] t (List.nil_prefix) rfl
    have ends : ¬Wedges cap t c := by
      cases c with
      | onFree addr => exact fun wedges => full_slots (rep.len ▸ wedges.2.1) inside empty
      | _ => exact id
    obtain ⟨t₁, reads, -, rep₁, does⟩ := rep.call power ends
    obtain ⟨t', ran, rep', last⟩ := ih rep₁ fun front answers t' short ran =>
      spare (c :: front) ((s.call cap c).1 :: answers) t' (List.cons_prefix_cons.mpr ⟨rfl, short⟩) (by
        rw [run, does cap (Nat.le_refl _), Option.bind_some, ran]
        rfl)
    refine ⟨t', fun fuel enough => ?_, rep', last⟩
    rw [run, does fuel enough, Option.bind_some, ran fuel enough]
    rfl

end Runs

/-- As long as one slot stays empty, the set is a partial map: a run answers as the map
does, the table holds the map with each address in one slot, and freeing any address
then finds what the map has. -/
theorem sampled_objects_refine (k : Nat) (calls : List Call) (spare : Spare (2 ^ k) new calls) :
    let s := (Spec.empty.run (2 ^ k) calls).2
    ∃ t, (∀ fuel, 2 ^ k ≤ fuel → run (2 ^ k) fuel new calls = some ((Spec.empty.run (2 ^ k) calls).1, t)) ∧
      Represents (2 ^ k) t s ∧
      ∀ addr, Does (2 ^ k) t (.onFree addr) (s.call (2 ^ k) (.onFree addr)) := by
  obtain ⟨t, ran, rep, v, inside, empty⟩ := represents_new.run_ends rfl spare
  refine ⟨t, ran, rep, fun addr => rep.onFree rfl ?_⟩
  exact fun wedges => full_slots (rep.len ▸ wedges.2.1) inside empty

/-- The call ends after at most `CAP` reads. -/
def Ends (cap : Nat) (t : SampledObjects) (c : Call) : Prop :=
  ∃ answer t' reads, reads ≤ cap ∧ ∀ fuel, cap ≤ fuel → call cap fuel t c = some (answer, t', reads)

/-- In every state a run reaches, a call ends after at most `CAP` reads unless it frees a
stored address from a full table; then it has no end. -/
theorem call_ends_iff (k : Nat) {fuel : Nat} (enough : 2 ^ k ≤ fuel) {calls : List Call}
    {answers : List Answer} {t : SampledObjects}
    (ran : run (2 ^ k) fuel new calls = some (answers, t)) (c : Call) :
    (Ends (2 ^ k) t c ↔ ¬Wedges (2 ^ k) t c) ∧
      (Wedges (2 ^ k) t c → ∀ fuel, call (2 ^ k) fuel t c = none) := by
  have rep := (represents_new.run_eq rfl enough ran).2
  refine ⟨⟨?_, fun ends => ?_⟩, rep.wedged rfl⟩
  · rintro ⟨answer, t', reads, -, does⟩ wedges
    have := does (2 ^ k) (Nat.le_refl _)
    rw [rep.wedged rfl wedges] at this
    cases this
  · obtain ⟨t', reads, within, -, does⟩ := rep.call rfl ends
    exact ⟨_, t', reads, within, does⟩

/-- One slot, with one sample in it. -/
def oneSlot : SampledObjects := ⟨update (fun _ => .empty) 0 ⟨5, ⟨1, 8, 16, 0⟩⟩, 1, 0⟩

theorem oneSlot_reached :
    run (2 ^ 0) (2 ^ 0) new [.onAlloc 5 ⟨1, 8, 16, 0⟩] = some ([.stored true], oneSlot) := rfl

theorem call_ends_iff_oneSlot :
    (Ends (2 ^ 0) oneSlot (.onFree 5) ↔ ¬Wedges (2 ^ 0) oneSlot (.onFree 5)) ∧
      (Wedges (2 ^ 0) oneSlot (.onFree 5) → ∀ fuel, call (2 ^ 0) fuel oneSlot (.onFree 5) = none) :=
  call_ends_iff 0 (Nat.le_refl _) oneSlot_reached (.onFree 5)

/-- In a table of one slot the first sample can be stored and never freed. -/
theorem free_never_ends :
    run (2 ^ 0) (2 ^ 0) new [.onAlloc 5 ⟨1, 8, 16, 0⟩] = some ([.stored true], oneSlot) ∧
      ∀ fuel, call (2 ^ 0) fuel oneSlot (.onFree 5) = none :=
  ⟨oneSlot_reached, (represents_new.run_eq rfl (Nat.le_refl _) oneSlot_reached).2.wedged rfl
    ⟨by decide, rfl, ⟨1, 8, 16, 0⟩, 0, by decide, rfl⟩⟩

/-! ## The load limit -/

/-- The call is not a restore. -/
def Call.plain : Call → Bool
  | .onAllocRestore _ _ => false
  | _ => true

theorem onAlloc_len (ran : onAlloc cap fuel t addr record = some r) (within : t.len ≤ maxLoad cap) :
    r.2.1.len ≤ maxLoad cap := by
  unfold onAlloc at ran
  split at ran
  next =>
    obtain rfl := Option.some.inj ran
    exact within
  next =>
    split at ran
    next =>
      obtain rfl := Option.some.inj ran
      exact within
    next below =>
      obtain ⟨⟨i, reads⟩, -, rfl⟩ := Option.map_eq_some_iff.mp ran
      dsimp only
      split
      next => exact Nat.lt_of_not_ge below
      next => exact within

theorem onFree_len (ran : onFree cap fuel t addr = some r) : r.2.1.len ≤ t.len := by
  unfold onFree at ran
  split at ran
  next =>
    obtain rfl := Option.some.inj ran
    exact Nat.le_refl _
  next =>
    split at ran
    next =>
      obtain rfl := Option.some.inj ran
      exact Nat.le_refl _
    next =>
      split at ran
      next =>
        obtain rfl := Option.some.inj ran
        exact Nat.le_refl _
      next =>
        obtain ⟨closed, -, rfl⟩ := Option.map_eq_some_iff.mp ran
        exact Nat.sub_le _ _

theorem run_len (plain : ∀ c ∈ calls, c.plain = true) (within : t.len ≤ maxLoad cap)
    (ran : run cap fuel t calls = some (answers, t')) : t'.len ≤ maxLoad cap := by
  induction calls generalizing t answers with
  | nil =>
    obtain ⟨rfl, rfl⟩ := Prod.mk.inj (Option.some.inj ran)
    exact within
  | cons c rest ih =>
    obtain ⟨r, called, rest'⟩ := Option.bind_eq_some_iff.mp ran
    obtain ⟨later, ran', same⟩ := Option.map_eq_some_iff.mp rest'
    obtain ⟨rfl, rfl⟩ := Prod.mk.inj same
    refine ih (fun c mem => plain c (List.mem_cons_of_mem _ mem)) ?_ ran'
    cases c with
    | onAlloc addr record =>
      obtain ⟨made, inserted, rfl⟩ := Option.map_eq_some_iff.mp called
      exact onAlloc_len inserted within
    | onAllocRestore addr record => exact absurd (plain _ List.mem_cons_self) Bool.false_ne_true
    | onFree addr =>
      obtain ⟨made, freed, rfl⟩ := Option.map_eq_some_iff.mp called
      exact (onFree_len freed).trans within

/-- From eight slots on the load limit keeps one empty, as long as nothing is restored. -/
theorem spare_of_plain (large : 8 ≤ 2 ^ k)
    (plain : ∀ c ∈ calls, c.plain = true) : Spare (2 ^ k) new calls := by
  intro front answers t short ran
  have rep := (represents_new.run_eq rfl (Nat.le_refl _) ran).2
  have within := run_len (fun c mem => plain c (short.subset mem)) (Nat.zero_le _) ran
  refine exists_empty ?_
  rw [← rep.len]
  simp only [maxLoad] at within
  omega

theorem sampled_objects_refine_plain :
    let calls : List Call := [.onAlloc 4096 ⟨1, 8, 16, 0⟩, .onAlloc 8192 ⟨2, 8, 16, 0⟩, .onFree 4096]
    let s := (Spec.empty.run (2 ^ 3) calls).2
    ∃ t, (∀ fuel, 2 ^ 3 ≤ fuel → run (2 ^ 3) fuel new calls = some ((Spec.empty.run (2 ^ 3) calls).1, t)) ∧
      Represents (2 ^ 3) t s ∧
      ∀ addr, Does (2 ^ 3) t (.onFree addr) (s.call (2 ^ 3) (.onFree addr)) :=
  sampled_objects_refine 3 _ (spare_of_plain (by decide) (by decide))

/-- At the load limit every further sample is turned away. -/
theorem Spec.run_drops {s : Spec} (named : addr ≠ 0) (loaded : s.size ≥ maxLoad cap)
    (record : SampledRecord) (n : Nat) :
    (s.run cap (List.replicate n (.onAlloc addr record))).2 = { s with drops := s.drops + n } := by
  induction n generalizing s with
  | zero => rfl
  | succ n ih =>
    have turned : s.call cap (.onAlloc addr record) = s.drop := by
      simp only [Spec.call, named, loaded, if_false, if_true]
    have rest := ih (s := s.drop.2) loaded
    rw [List.replicate_succ, Spec.run, turned, rest]
    simp only [Spec.drop, Nat.add_comm 1 n, Nat.add_assoc]

theorem Spec.run_append {s : Spec} (first second : List Call) :
    (s.run cap (first ++ second)).2 = ((s.run cap first).2.run cap second).2 := by
  induction first generalizing s with
  | nil => rfl
  | cons c rest ih => exact ih

/-- Seven samples, the load limit of eight slots. -/
def seven : List Call := (List.range 7).map fun i => .onAlloc (i + 1) ⟨0, 8, 8, 0⟩

/-- Samples past the limit are turned away, and counted up to the greatest `u64`. -/
theorem run_past_limit (n : Nat) :
    let calls := seven ++ List.replicate n (.onAlloc 8 ⟨0, 8, 8, 0⟩)
    Spare (2 ^ 3) new calls ∧ (Spec.empty.run (2 ^ 3) calls).2.drops = n ∧
      ∃ answers t, run (2 ^ 3) (2 ^ 3) new calls = some (answers, t) ∧ t.dropped = min n mostDrops := by
  have plain : ∀ c ∈ seven ++ List.replicate n (.onAlloc 8 ⟨0, 8, 8, 0⟩), c.plain = true := by
    intro c mem
    rcases List.mem_append.mp mem with first | later
    · obtain ⟨i, -, rfl⟩ := List.mem_map.mp first
      rfl
    · rw [List.eq_of_mem_replicate later]
      rfl
  have spare := spare_of_plain (k := 3) (by decide) plain
  obtain ⟨answers, t₇, filled, len, dropped⟩ : ∃ answers t₇,
      run (2 ^ 3) (2 ^ 3) new seven = some (answers, t₇) ∧ t₇.len = 7 ∧ t₇.dropped = 0 :=
    ⟨_, _, rfl, rfl, rfl⟩
  have rep := (represents_new.run_eq rfl (Nat.le_refl _) filled).2
  have drops : (Spec.empty.run (2 ^ 3) (seven ++ List.replicate n (.onAlloc 8 ⟨0, 8, 8, 0⟩))).2.drops = n := by
    have full : (Spec.empty.run (2 ^ 3) seven).2.size ≥ maxLoad (2 ^ 3) := by
      rw [rep.size, len]
      decide
    have := rep.dropped
    rw [Spec.run_append, Spec.run_drops (by decide) full]
    simp only [mostDrops] at this ⊢
    omega
  obtain ⟨t, ran, rep', -⟩ := represents_new.run_ends rfl spare
  exact ⟨spare, drops, _, t, ran _ (Nat.le_refl _), by rw [rep'.dropped, drops]⟩

/-- After `2 ^ 64` drops the count is one short. -/
theorem drops_saturate :
    let calls := seven ++ List.replicate (2 ^ 64) (.onAlloc 8 ⟨0, 8, 8, 0⟩)
    Spare (2 ^ 3) new calls ∧ (Spec.empty.run (2 ^ 3) calls).2.drops = 2 ^ 64 ∧
      ∃ answers t, run (2 ^ 3) (2 ^ 3) new calls = some (answers, t) ∧
        t.dropped = min (2 ^ 64) mostDrops ∧ min (2 ^ 64) mostDrops ≠ 2 ^ 64 := by
  obtain ⟨spare, drops, answers, t, ran, dropped⟩ := run_past_limit (2 ^ 64)
  exact ⟨spare, drops, answers, t, ran, dropped, by decide⟩

end SampledObjects
end Topomalloc
