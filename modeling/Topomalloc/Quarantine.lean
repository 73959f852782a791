import Topomalloc.Lib.Ring
import Topomalloc.Arena.Table

/-! The delayed-reuse quarantine of `harden.rs`: a bounded ring of freed
allocations with byte, object and per-arena budgets.

The generator behind sampling and random eviction is an arbitrary supply of
draws. Counters are machine words; the sums of the debug oracle wrap as they do
in a release build. -/
namespace Topomalloc
open Function

/-! ## The membership filter -/

/-- `SampleBloom`, bit by bit. -/
structure SampleBloom where
  bits : Nat → Bool := fun _ => false

namespace SampleBloom

/-- `nbits`. -/
def nbits : Nat := 1024 * 64

/-- `positions`. -/
def positions (addr : Nat) : Nat × Nat :=
  let h1 := (addr * 0x9e3779b97f4a7c15 % 2 ^ 64) >>> 17
  let h2 := ((addr ^^^ (addr >>> 33)) * 0xff51afd7ed558ccd % 2 ^ 64) >>> 17
  (h1 % nbits, (h1 ^^^ h2) % nbits)

/-- `insert`. -/
def insert (b : SampleBloom) (addr : Nat) : SampleBloom :=
  ⟨update (update b.bits (positions addr).1 true) (positions addr).2 true⟩

/-- `maybe_contains`. -/
def maybeContains (b : SampleBloom) (addr : Nat) : Bool :=
  b.bits (positions addr).1 && b.bits (positions addr).2

theorem maybeContains_insert (b : SampleBloom) (addr other : Nat)
    (had : other = addr ∨ b.maybeContains other = true) : (b.insert addr).maybeContains other = true := by
  simp only [maybeContains, insert, update_apply, Bool.and_eq_true] at had ⊢
  rcases had with rfl | ⟨first, second⟩
  · simp
  · exact ⟨by simp [first], by simp [second]⟩

end SampleBloom

/-! ## State -/

/-- `QuarantineEntry`; a small object names its span. -/
structure QuarantineEntry where
  ptr : Nat
  span : Option Nat
  index : Nat
  arena : Nat
  bytes : Nat
  deriving DecidableEq, Repr

/-- `QUARANTINE_CAP`. -/
def quarantineCap : Nat := 1024

/-- `QUARANTINE_MAX_BATCH`. -/
def quarantineMaxBatch : Nat := 8

/-- `QuarantinePolicy`. -/
structure QuarantinePolicy where
  maxBytes : Nat := 16777216
  maxObjects : Nat := quarantineCap
  perArenaBytes : Nat := 0
  randomEvict : Bool := false
  sampleShift : Nat := 0
  deriving DecidableEq, Repr

/-- `Quarantine`. -/
structure Quarantine where
  ring : Ring QuarantineEntry quarantineCap
  insertsSinceRebuild : Nat := 0
  bloom : SampleBloom := {}
  bytes : Nat := 0
  count : Nat := 0
  perArena : Nat → Nat := fun _ => 0
  enabled : Bool := false
  policy : QuarantinePolicy := {}

/-- `Offer`. -/
inductive Offer
  | alreadyQuarantined
  | held
  | declined
  deriving DecidableEq, Repr

namespace Quarantine

/-- `Quarantine::new`. -/
def new : Quarantine where
  ring := { slots := fun _ => ⟨0, none, 0, defaultArena, 0⟩, head := 0, len := 0,
            head_lt := by decide, len_le := by decide }

variable (q : Quarantine)

/-- The entries held, oldest first. -/
def entries : List QuarantineEntry := q.ring.contents

/-- `set_policy`. -/
def setPolicy (p : QuarantinePolicy) : Quarantine :=
  { q with policy := { p with maxObjects := min p.maxObjects quarantineCap } }

/-- `sampled_in`, with the draw it may make. -/
def sampledIn (draw : Nat) : Bool :=
  q.policy.sampleShift == 0 || draw &&& (2 ^ min q.policy.sampleShift 63 - 1) == 0

/-- `contains_locked`. -/
def containsLocked (ptr : Nat) : Bool := q.bloom.maybeContains ptr && q.entries.any fun e => e.ptr == ptr

/-- `release_accounting`. -/
def releaseAccounting (e : QuarantineEntry) : Quarantine :=
  { q with
    bytes := wrappingSub64 q.bytes e.bytes
    count := (q.count + (2 ^ 32 - 1)) % 2 ^ 32
    perArena := if e.arena < maxArenas then
        update q.perArena e.arena (wrappingSub64 (q.perArena e.arena) e.bytes)
      else q.perArena }

/-- `rebuild_bloom`. -/
def rebuildBloom : Quarantine :=
  { q with bloom := q.entries.foldl (fun b e => b.insert e.ptr) {}, insertsSinceRebuild := 0 }

/-! ## Offering -/

/-- Whether an entry of this size still needs room. -/
def tight (bytes : Nat) : Bool :=
  decide (q.policy.maxBytes < wrappingAdd64 q.bytes bytes) ||
    decide (q.policy.maxObjects ≤ q.ring.len)

/-- The eviction loop of `offer`, with room for `n` more evictions. -/
def evictFor (bytes : Nat) : Nat → (Nat → Nat) → Quarantine → List QuarantineEntry × Quarantine
  | 0, _, q => ([], q)
  | n + 1, draws, q =>
    if q.tight bytes = true ∧ 0 < q.ring.len then
      let off := if q.policy.randomEvict then draws 0 % q.ring.len else 0
      let victim := q.ring.slots (q.ring.pos off)
      let q := { q with ring := q.ring.takeAt off }.releaseAccounting victim
      let (rest, q) := evictFor bytes n (fun i => draws (i + 1)) q
      (victim :: rest, q)
    else ([], q)

/-- The new entry goes in at the tail and on the books. -/
def push (e : QuarantineEntry) (room : q.ring.len < quarantineCap) : Quarantine :=
  { q with
    ring := q.ring.pushBack e room
    insertsSinceRebuild := q.insertsSinceRebuild + 1
    bloom := q.bloom.insert e.ptr
    bytes := wrappingAdd64 q.bytes e.bytes
    count := wrappingSucc32 q.count
    perArena := if e.arena < maxArenas then
        update q.perArena e.arena (wrappingAdd64 (q.perArena e.arena) e.bytes)
      else q.perArena }

/-- `push`, with the filter rebuilt from time to time. -/
def enqueue (e : QuarantineEntry) (room : q.ring.len < quarantineCap) : Quarantine :=
  if quarantineCap ≤ (q.push e room).insertsSinceRebuild then (q.push e room).rebuildBloom
  else q.push e room

/-- The conditions under which `offer` declines an entry it does not hold. -/
def declines (e : QuarantineEntry) (draw : Nat) : Bool :=
  let arenaHeld := if e.arena < maxArenas then q.perArena e.arena else 0
  !q.sampledIn draw || q.policy.maxObjects == 0 || decide (q.policy.maxBytes < e.bytes) ||
    (q.policy.perArenaBytes != 0 && decide (q.policy.perArenaBytes < wrappingAdd64 arenaHeld e.bytes))

/-- `offer`: the answer, what it evicted and the quarantine left. -/
def offer (e : QuarantineEntry) (draw : Nat) (draws : Nat → Nat) :
    Offer × List QuarantineEntry × Quarantine :=
  if q.containsLocked e.ptr = true then (.alreadyQuarantined, [], q)
  else if q.declines e draw = true then (.declined, [], q)
  else
    let (evicted, q) := evictFor e.bytes quarantineMaxBatch draws q
    if room : q.ring.len < quarantineCap then (.held, evicted, q.enqueue e room)
    else (if evicted.isEmpty then .declined else .held, evicted, q)

/-! ## Draining -/

/-- The pop loop of a drain, with room for `n` more entries. -/
def drainLoop (more : Quarantine → Bool) : Nat → Quarantine → List QuarantineEntry × Quarantine
  | 0, q => ([], q)
  | n + 1, q =>
    if more q = true ∧ 0 < q.ring.len then
      let e := q.ring.slots q.ring.head
      let (rest, q) := drainLoop more n ({ q with ring := q.ring.popFront }.releaseAccounting e)
      (e :: rest, q)
    else ([], q)

/-- An empty ring needs no membership bits. -/
def settleBloom : Quarantine :=
  if q.ring.len = 0 then { q with bloom := {}, insertsSinceRebuild := 0 } else q

/-- `drain_batch`. -/
def drainBatch : List QuarantineEntry × Quarantine :=
  let (out, q) := drainLoop (fun _ => true) quarantineMaxBatch q
  (out, q.settleBloom)

/-- Whether the held set is over the budget. -/
def excess : Bool := decide (q.policy.maxBytes < q.bytes) || decide (q.policy.maxObjects < q.ring.len)

/-- `drain_excess`. -/
def drainExcess : List QuarantineEntry × Quarantine :=
  let (out, q) := drainLoop excess quarantineMaxBatch q
  (out, q.settleBloom)

/-! ## The debug oracle -/

/-- A `u64` sum in a release build. -/
def wrappedSum (l : List Nat) : Nat := l.foldl wrappingAdd64 0

/-- The sizes of the entries of one arena. -/
def arenaSizes (l : List QuarantineEntry) (a : Nat) : List Nat :=
  (l.filter fun e => e.arena == a).map QuarantineEntry.bytes

/-- `check_invariants_locked`. -/
def checkInvariants : Bool :=
  !(decide (quarantineCap < q.ring.len) ||
    (decide (0 < q.ring.len) && decide (quarantineCap ≤ q.ring.head))) &&
  q.count == q.ring.len &&
  (q.entries.all fun e => q.bloom.maybeContains e.ptr) &&
  q.bytes == wrappedSum (q.entries.map QuarantineEntry.bytes) &&
  (List.range maxArenas).all fun a => q.perArena a == wrappedSum (arenaSizes q.entries a)

/-! ## Accounting -/

/-- The counters stand for the entries of `l`. -/
structure Tallies (q : Quarantine) (l : List QuarantineEntry) : Prop where
  count : q.count = l.length
  bytes : q.bytes = (l.map QuarantineEntry.bytes).sum % 2 ^ 64
  perArena : ∀ a < maxArenas, q.perArena a = (arenaSizes l a).sum % 2 ^ 64

structure Sound (q : Quarantine) : Prop where
  tallies : Tallies q q.entries
  filter : ∀ e ∈ q.entries, q.bloom.maybeContains e.ptr = true
  nodup : (q.entries.map QuarantineEntry.ptr).Nodup
  objects : q.policy.maxObjects ≤ quarantineCap

variable {q q' : Quarantine} {l l' out : List QuarantineEntry} {e : QuarantineEntry}
  {ring : Ring QuarantineEntry quarantineCap} {draw : Nat}

theorem length_entries (q : Quarantine) : q.entries.length = q.ring.len := Ring.length_contents _

theorem length_entries_le (q : Quarantine) : q.entries.length ≤ quarantineCap :=
  q.length_entries ▸ q.ring.len_le

theorem arenaSizes_cons (e : QuarantineEntry) (l : List QuarantineEntry) (a : Nat) :
    (arenaSizes (e :: l) a).sum = (if e.arena = a then e.bytes else 0) + (arenaSizes l a).sum := by
  by_cases same : e.arena = a <;> simp [arenaSizes, same]

theorem Tallies.perm (tallies : Tallies q l) (perm : l.Perm l') : Tallies q l' where
  count := by rw [tallies.count, perm.length_eq]
  bytes := by rw [tallies.bytes, (perm.map _).sum_eq]
  perArena := fun a inside => by
    rw [tallies.perArena a inside, arenaSizes, arenaSizes, ((perm.filter _).map _).sum_eq]

/-- Taking an entry off the books. -/
theorem Tallies.release (tallies : Tallies q (e :: l)) (fits : l.length < quarantineCap) :
    Tallies (q.releaseAccounting e) l where
  count := by
    have count := tallies.count
    simp only [List.length_cons] at count
    unfold quarantineCap at fits
    simp only [releaseAccounting]
    omega
  bytes := by
    simp only [releaseAccounting, tallies.bytes, List.map_cons, List.sum_cons]
    rw [Nat.add_comm, wrappingSub64_of_add]
  perArena := by
    intro a inside
    have before := tallies.perArena a inside
    rw [arenaSizes_cons] at before
    simp only [releaseAccounting]
    by_cases same : e.arena = a
    · subst same
      rw [if_pos inside, update_self, before, if_pos rfl, Nat.add_comm, wrappingSub64_of_add]
    · rw [if_neg same, Nat.zero_add] at before
      split
      · rw [update_of_ne (Ne.symm same), before]
      · exact before

/-- An entry taken out of the ring and off the books. -/
theorem Sound.remove (sound : Sound q)
    (perm : q.entries.Perm (e :: ring.contents)) : Sound ({ q with ring }.releaseAccounting e) := by
  have fits := q.length_entries_le
  rw [perm.length_eq, List.length_cons] at fits
  refine ⟨?_, ?_, ?_, sound.objects⟩
  · exact Tallies.release (q := { q with ring })
      ⟨(sound.tallies.perm perm).count, (sound.tallies.perm perm).bytes,
        (sound.tallies.perm perm).perArena⟩ (Nat.lt_of_succ_le fits)
  · intro held member
    exact sound.filter held (perm.mem_iff.mpr (List.mem_cons_of_mem _ member))
  · have nodup := (perm.map QuarantineEntry.ptr).nodup_iff.mp sound.nodup
    exact (List.nodup_cons.mp nodup).2

/-! ## The loops -/

/-- What both pop loops do: they hand out some of the held entries. -/
structure Handed (q : Quarantine) (out : List QuarantineEntry) (q' : Quarantine) : Prop where
  perm : q.entries.Perm (out ++ q'.entries)
  sound : Sound q'
  policy : q'.policy = q.policy
  bloom : q'.bloom = q.bloom

theorem Handed.nil (sound : Sound q) : Handed q [] q := ⟨.refl _, sound, rfl, rfl⟩

theorem Handed.cons (perm : q.entries.Perm (e :: ring.contents))
    (rest : Handed ({ q with ring }.releaseAccounting e) out q') : Handed q (e :: out) q' where
  perm := perm.trans (.cons e rest.perm)
  sound := rest.sound
  policy := rest.policy
  bloom := rest.bloom

/-- Eviction stops when the batch is full, nothing is left or the entry fits. -/
theorem evictFor_spec (sound : Sound q) (bytes n : Nat) (draws : Nat → Nat) :
    Handed q (evictFor bytes n draws q).1 (evictFor bytes n draws q).2 ∧
    ((evictFor bytes n draws q).1.length < n →
      (evictFor bytes n draws q).2.tight bytes = false ∨ (evictFor bytes n draws q).2.ring.len = 0) := by
  induction n generalizing q draws with
  | zero => exact ⟨.nil sound, fun lt => absurd lt (Nat.not_lt_zero _)⟩
  | succ n ih =>
    unfold evictFor
    split
    · rename_i more
      dsimp only
      generalize place : (if q.policy.randomEvict then draws 0 % q.ring.len else 0) = off
      have inside : off < q.ring.len := by
        rw [← place]
        split
        · exact Nat.mod_lt _ more.2
        · exact more.2
      have perm := Ring.contents_takeAt inside
      obtain ⟨handed, stops⟩ := ih (sound.remove perm) fun i => draws (i + 1)
      refine ⟨handed.cons perm, fun lt => stops ?_⟩
      simpa using lt
    · rename_i enough
      refine ⟨.nil sound, fun _ => ?_⟩
      by_cases tight : q.tight bytes = true
      · exact .inr (Nat.eq_zero_of_not_pos fun held => enough ⟨tight, held⟩)
      · exact .inl (by simpa using tight)

/-- An eviction loop that finds the ring crowded takes something out. -/
theorem evictFor_shrinks (sound : Sound q) (bytes : Nat) (draws : Nat → Nat)
    (crowded : q.policy.maxObjects ≤ q.ring.len) (held : 0 < q.ring.len) :
    (evictFor bytes (n + 1) draws q).2.ring.len < q.ring.len := by
  have handed := (evictFor_spec sound bytes (n + 1) draws).1
  have total := handed.perm.length_eq
  have some : 0 < (evictFor bytes (n + 1) draws q).1.length := by
    unfold evictFor
    rw [if_pos ⟨by simp [tight, crowded], held⟩]
    simp
  rw [List.length_append, length_entries, length_entries] at total
  omega

theorem drainLoop_spec (sound : Sound q) (more : Quarantine → Bool) (n : Nat) :
    Handed q (drainLoop more n q).1 (drainLoop more n q).2 ∧
    ((drainLoop more n q).1.length < n →
      more (drainLoop more n q).2 = false ∨ (drainLoop more n q).2.ring.len = 0) := by
  induction n generalizing q with
  | zero => exact ⟨.nil sound, fun lt => absurd lt (Nat.not_lt_zero _)⟩
  | succ n ih =>
    unfold drainLoop
    split
    · rename_i go
      dsimp only
      have perm : q.entries.Perm (q.ring.slots q.ring.head :: q.ring.popFront.contents) := by
        rw [entries, Ring.contents_popFront go.2]
      obtain ⟨handed, stops⟩ := ih (sound.remove perm)
      refine ⟨handed.cons perm, fun lt => stops ?_⟩
      simpa using lt
    · rename_i enough
      refine ⟨.nil sound, fun _ => ?_⟩
      by_cases wanted : more q = true
      · exact .inr (Nat.eq_zero_of_not_pos fun held => enough ⟨wanted, held⟩)
      · exact .inl (by simpa using wanted)

theorem Sound.settleBloom (sound : Sound q) : Sound q.settleBloom := by
  unfold Quarantine.settleBloom
  split
  · rename_i empty
    have none : q.entries = [] := Ring.contents_eq_nil.mpr empty
    refine ⟨⟨sound.tallies.count, sound.tallies.bytes, sound.tallies.perArena⟩, ?_, sound.nodup,
      sound.objects⟩
    intro e member
    change e ∈ q.entries at member
    rw [none] at member
    cases member
  · exact sound

theorem entries_settleBloom (q : Quarantine) : q.settleBloom.entries = q.entries := by
  unfold settleBloom
  split <;> rfl

/-! ## Admission -/

theorem maybeContains_foldl (l : List QuarantineEntry) (b : SampleBloom)
    (had : e ∈ l ∨ b.maybeContains e.ptr = true) :
    (l.foldl (fun b e => b.insert e.ptr) b).maybeContains e.ptr = true := by
  induction l generalizing b with
  | nil => simpa using had
  | cons first rest ih =>
    rw [List.foldl_cons]
    apply ih
    rcases had with member | already
    · rcases List.mem_cons.mp member with rfl | later
      · exact .inr (SampleBloom.maybeContains_insert _ _ _ (.inl rfl))
      · exact .inl later
    · exact .inr (SampleBloom.maybeContains_insert _ _ _ (.inr already))

theorem Sound.rebuildBloom (sound : Sound q) : Sound q.rebuildBloom :=
  ⟨⟨sound.tallies.count, sound.tallies.bytes, sound.tallies.perArena⟩,
    fun _ member => maybeContains_foldl _ _ (.inl member), sound.nodup, sound.objects⟩

/-- Putting an entry on the books. -/
theorem Tallies.push (tallies : Tallies q l) (fits : l.length < quarantineCap)
    (room : q.ring.len < quarantineCap) : Tallies (q.push e room) (e :: l) where
  count := by
    simp only [Quarantine.push, tallies.count, List.length_cons]
    unfold wrappingSucc32
    unfold quarantineCap at fits
    omega
  bytes := by
    simp only [Quarantine.push, tallies.bytes, List.map_cons, List.sum_cons]
    unfold wrappingAdd64
    omega
  perArena := by
    intro a inside
    have before := tallies.perArena a inside
    simp only [Quarantine.push]
    rw [arenaSizes_cons]
    by_cases same : e.arena = a
    · subst same
      rw [if_pos inside, update_self, before, if_pos rfl]
      unfold wrappingAdd64
      omega
    · rw [if_neg same, Nat.zero_add]
      split
      · rw [update_of_ne (Ne.symm same), before]
      · exact before

theorem entries_push (room : q.ring.len < quarantineCap) :
    (q.push e room).entries = q.entries ++ [e] := Ring.contents_pushBack room

theorem entries_enqueue (room : q.ring.len < quarantineCap) :
    (q.enqueue e room).entries = q.entries ++ [e] := by
  unfold enqueue
  split <;> exact entries_push room

theorem Sound.push (sound : Sound q) (room : q.ring.len < quarantineCap)
    (absent : ∀ held ∈ q.entries, held.ptr ≠ e.ptr) : Sound (q.push e room) := by
  have swap : (e :: q.entries).Perm (q.push e room).entries := by
    rw [entries_push]
    exact (List.perm_append_singleton e q.entries).symm
  refine ⟨(sound.tallies.push (by rwa [length_entries]) room).perm swap, ?_, ?_, sound.objects⟩
  · intro held member
    rcases List.mem_cons.mp (swap.mem_iff.mpr member) with rfl | before
    · exact SampleBloom.maybeContains_insert _ _ _ (.inl rfl)
    · exact SampleBloom.maybeContains_insert _ _ _ (.inr (sound.filter held before))
  · rw [← (swap.map QuarantineEntry.ptr).nodup_iff, List.map_cons, List.nodup_cons]
    refine ⟨fun clash => ?_, sound.nodup⟩
    obtain ⟨held, member, same⟩ := List.mem_map.mp clash
    exact absent held member same

theorem Sound.enqueue (sound : Sound q) (room : q.ring.len < quarantineCap)
    (absent : ∀ held ∈ q.entries, held.ptr ≠ e.ptr) : Sound (q.enqueue e room) := by
  unfold Quarantine.enqueue
  split
  · exact (sound.push room absent).rebuildBloom
  · exact sound.push room absent

/-! ## One call -/

/-- The filter answers no only for addresses that are not held. -/
theorem Sound.containsLocked_iff (sound : Sound q) (ptr : Nat) :
    q.containsLocked ptr = true ↔ ∃ e ∈ q.entries, e.ptr = ptr := by
  simp only [containsLocked, Bool.and_eq_true, List.any_eq_true, beq_iff_eq]
  constructor
  · rintro ⟨-, held⟩
    exact held
  · rintro ⟨e, member, rfl⟩
    exact ⟨sound.filter e member, e, member, rfl⟩

/-- Eviction leaves room: the ring was not full, or it was crowded and lost an
entry. -/
theorem Sound.evictFor_room (sound : Sound q) (draws : Nat → Nat) (wanted : q.declines e draw = false) :
    (evictFor e.bytes quarantineMaxBatch draws q).2.ring.len < quarantineCap := by
  have objects := sound.objects
  have full := q.ring.len_le
  have positive : q.policy.maxObjects ≠ 0 := by
    intro zero
    simp [declines, zero] at wanted
  have handed := (evictFor_spec sound e.bytes quarantineMaxBatch draws).1
  have total := handed.perm.length_eq
  rw [List.length_append, length_entries, length_entries] at total
  by_cases crowded : q.policy.maxObjects ≤ q.ring.len
  · obtain ⟨n, batch⟩ := Nat.exists_eq_add_one_of_ne_zero (by decide : quarantineMaxBatch ≠ 0)
    have fewer := evictFor_shrinks sound e.bytes (n := n) draws crowded (by omega)
    rw [batch]
    omega
  · omega

/-- What `offer` does, case by case. -/
theorem Sound.offer_cases (sound : Sound q) (e : QuarantineEntry) (draw : Nat) (draws : Nat → Nat) :
    (∃ held ∈ q.entries, held.ptr = e.ptr) ∧ q.offer e draw draws = (.alreadyQuarantined, [], q) ∨
    (∀ held ∈ q.entries, held.ptr ≠ e.ptr) ∧ q.declines e draw = true ∧
      q.offer e draw draws = (.declined, [], q) ∨
    (∀ held ∈ q.entries, held.ptr ≠ e.ptr) ∧ q.declines e draw = false ∧
      ∃ room, q.offer e draw draws = (.held, (evictFor e.bytes quarantineMaxBatch draws q).1,
        (evictFor e.bytes quarantineMaxBatch draws q).2.enqueue e room) := by
  unfold offer
  by_cases held : q.containsLocked e.ptr = true
  · exact .inl ⟨(sound.containsLocked_iff _).mp held, if_pos held⟩
  · have absent : ∀ held ∈ q.entries, held.ptr ≠ e.ptr := fun x member same =>
      held ((sound.containsLocked_iff _).mpr ⟨x, member, same⟩)
    rw [if_neg held]
    by_cases declines : q.declines e draw = true
    · exact .inr (.inl ⟨absent, declines, if_pos declines⟩)
    · have wanted : q.declines e draw = false := by simpa using declines
      have room := sound.evictFor_room draws wanted
      refine .inr (.inr ⟨absent, wanted, room, ?_⟩)
      rw [if_neg declines]
      dsimp only
      rw [dif_pos room]

/-! ## Budgets -/

/-- The counters are within the policy's budget. -/
def Within (q : Quarantine) : Prop := q.bytes ≤ q.policy.maxBytes ∧ q.count ≤ q.policy.maxObjects

theorem accounts_enqueue (room : q.ring.len < quarantineCap) :
    (q.enqueue e room).bytes = wrappingAdd64 q.bytes e.bytes ∧
    (q.enqueue e room).count = wrappingSucc32 q.count ∧ (q.enqueue e room).policy = q.policy ∧
    (q.enqueue e room).perArena = (q.push e room).perArena := by
  unfold enqueue
  split <;> exact ⟨rfl, rfl, rfl, rfl⟩

/-- An admission whose batch did not fill up ends within the budget. -/
theorem Sound.within_of_evictFor (sound : Sound q) (draws : Nat → Nat) (wanted : q.declines e draw = false)
    (unfilled : (evictFor e.bytes quarantineMaxBatch draws q).1.length < quarantineMaxBatch)
    (room : (evictFor e.bytes quarantineMaxBatch draws q).2.ring.len < quarantineCap) :
    Within ((evictFor e.bytes quarantineMaxBatch draws q).2.enqueue e room) := by
  obtain ⟨handed, stops⟩ := evictFor_spec sound e.bytes quarantineMaxBatch draws
  have small : e.bytes ≤ q.policy.maxBytes ∧ q.policy.maxObjects ≠ 0 := by
    simp only [declines, Bool.or_eq_false_iff, beq_eq_false_iff_ne, decide_eq_false_iff_not] at wanted
    exact ⟨by omega, wanted.1.1.2⟩
  have kept := handed.policy
  have ended := stops unfilled
  have tallies := handed.sound.tallies
  generalize (evictFor e.bytes quarantineMaxBatch draws q).2 = q' at *
  obtain ⟨bytes, count, policy, -⟩ := accounts_enqueue (e := e) room
  unfold Within
  rw [bytes, count, policy, tallies.count, length_entries]
  have succ : wrappingSucc32 q'.ring.len = q'.ring.len + 1 := by
    unfold wrappingSucc32
    unfold quarantineCap at room
    omega
  rw [succ]
  rcases ended with loose | empty
  · simp only [tight, Bool.or_eq_false_iff, decide_eq_false_iff_not] at loose
    omega
  · have none : q'.entries = [] := Ring.contents_eq_nil.mpr empty
    have zero : q'.bytes = 0 := by rw [tallies.bytes, none]; rfl
    rw [zero, empty, kept]
    unfold wrappingAdd64
    omega

theorem arenaSizes_append (l l' : List QuarantineEntry) (a : Nat) :
    (arenaSizes (l ++ l') a).sum = (arenaSizes l a).sum + (arenaSizes l' a).sum := by
  simp [arenaSizes]

theorem arenaSizes_le (l : List QuarantineEntry) (a : Nat) :
    (arenaSizes l a).sum ≤ (l.map QuarantineEntry.bytes).sum := by
  induction l with
  | nil => exact Nat.le_refl _
  | cons e l ih =>
    rw [arenaSizes_cons, List.map_cons, List.sum_cons]
    split <;> omega

/-- An admission keeps its own arena within the per-arena limit, as long as the
held sizes and the new one fit in a word. -/
theorem Sound.arena_of_evictFor (sound : Sound q) (draws : Nat → Nat) (wanted : q.declines e draw = false)
    (limited : q.policy.perArenaBytes ≠ 0) (inside : e.arena < maxArenas)
    (representable : (q.entries.map QuarantineEntry.bytes).sum + e.bytes < 2 ^ 64)
    (room : (evictFor e.bytes quarantineMaxBatch draws q).2.ring.len < quarantineCap) :
    ((evictFor e.bytes quarantineMaxBatch draws q).2.enqueue e room).perArena e.arena ≤
      q.policy.perArenaBytes := by
  obtain ⟨handed, -⟩ := evictFor_spec sound e.bytes quarantineMaxBatch draws
  have held := sound.tallies.perArena e.arena inside
  have fits := arenaSizes_le q.entries e.arena
  have before : (arenaSizes q.entries e.arena).sum + e.bytes ≤ q.policy.perArenaBytes := by
    have limit : ¬ q.policy.perArenaBytes < wrappingAdd64 (q.perArena e.arena) e.bytes := by
      intro beyond
      simp [declines, inside, limited, beyond] at wanted
    unfold wrappingAdd64 at limit
    omega
  have split : (arenaSizes q.entries e.arena).sum = (arenaSizes
      ((evictFor e.bytes quarantineMaxBatch draws q).1 ++
        (evictFor e.bytes quarantineMaxBatch draws q).2.entries) e.arena).sum := by
    rw [arenaSizes, arenaSizes, ((handed.perm.filter _).map _).sum_eq]
  rw [arenaSizes_append] at split
  have left := handed.sound.tallies.perArena e.arena inside
  rw [(accounts_enqueue (e := e) room).2.2.2]
  simp only [Quarantine.push, if_pos inside, update_self, left]
  unfold wrappingAdd64
  omega

theorem Sound.drainExcess (sound : Sound q) :
    Sound q.drainExcess.2 ∧ q.entries.Perm (q.drainExcess.1 ++ q.drainExcess.2.entries) ∧
      (q.drainExcess.1 = [] → Within q.drainExcess.2) := by
  obtain ⟨handed, stops⟩ := drainLoop_spec sound excess quarantineMaxBatch
  unfold Quarantine.drainExcess
  dsimp only
  refine ⟨handed.sound.settleBloom, by rw [entries_settleBloom]; exact handed.perm, fun none => ?_⟩
  have ended := stops (by rw [none]; decide)
  have tallies := handed.sound.tallies
  generalize (drainLoop excess quarantineMaxBatch q).2 = q' at *
  have same : q'.settleBloom.bytes = q'.bytes ∧ q'.settleBloom.count = q'.count ∧
      q'.settleBloom.policy = q'.policy := by
    unfold Quarantine.settleBloom
    split <;> exact ⟨rfl, rfl, rfl⟩
  unfold Within
  rw [same.1, same.2.1, same.2.2, tallies.count, length_entries]
  rcases ended with within | empty
  · simp only [excess, Bool.or_eq_false_iff, decide_eq_false_iff_not] at within
    omega
  · have none : q'.entries = [] := Ring.contents_eq_nil.mpr empty
    have zero : q'.bytes = 0 := by rw [tallies.bytes, none]; rfl
    rw [zero, empty]
    exact ⟨Nat.zero_le _, Nat.zero_le _⟩

/-- `drain_excess` called until it returns nothing, with a bound on the calls. -/
def converge : Nat → Quarantine → List QuarantineEntry × Quarantine
  | 0, q => q.drainExcess
  | n + 1, q => if q.drainExcess.1 = [] then q.drainExcess else converge n q.drainExcess.2

/-- Repeating `drain_excess` comes to an end, within the budget. -/
theorem Sound.converge (sound : Sound q) (enough : q.entries.length ≤ n) :
    (Quarantine.converge n q).1 = [] ∧ Within (Quarantine.converge n q).2 := by
  induction n generalizing q with
  | zero =>
    obtain ⟨-, perm, within⟩ := sound.drainExcess
    rw [List.eq_nil_of_length_eq_zero (Nat.eq_zero_of_le_zero enough)] at perm
    have none := (List.append_eq_nil_iff.mp perm.symm.eq_nil).1
    exact ⟨none, within none⟩
  | succ n ih =>
    obtain ⟨good, perm, within⟩ := sound.drainExcess
    unfold Quarantine.converge
    split
    · rename_i none
      exact ⟨none, within none⟩
    · rename_i some
      refine ih good ?_
      have total := perm.length_eq
      have positive := List.length_pos_iff.mpr some
      rw [List.length_append] at total
      omega

/-! ## Whole runs -/

inductive Op
  | offer (e : QuarantineEntry) (draw : Nat) (draws : Nat → Nat)
  | drainBatch
  | drainExcess
  | setPolicy (p : QuarantinePolicy)

/-- The quarantine, the entries `offer` answered `Held` for, and those handed
back in a batch. -/
structure Ledger where
  q : Quarantine
  admitted : List QuarantineEntry
  returned : List QuarantineEntry

def Ledger.step (s : Ledger) : Op → Ledger
  | .offer e draw draws =>
    let (answer, evicted, q) := s.q.offer e draw draws
    { q
      admitted := if answer = .held then s.admitted ++ [e] else s.admitted
      returned := s.returned ++ evicted }
  | .drainBatch => { s with q := s.q.drainBatch.2, returned := s.returned ++ s.q.drainBatch.1 }
  | .drainExcess => { s with q := s.q.drainExcess.2, returned := s.returned ++ s.q.drainExcess.1 }
  | .setPolicy p => { s with q := s.q.setPolicy p }

def run (ops : List Op) : Ledger := ops.foldl Ledger.step ⟨.new, [], []⟩

theorem sound_new : Sound .new where
  tallies := ⟨rfl, rfl, fun _ _ => rfl⟩
  filter := by intro e member; cases member
  nodup := List.nodup_nil
  objects := Nat.le_refl _

theorem Sound.drainBatch (sound : Sound q) :
    Sound q.drainBatch.2 ∧ q.entries.Perm (q.drainBatch.1 ++ q.drainBatch.2.entries) := by
  obtain ⟨handed, -⟩ := drainLoop_spec sound (fun _ => true) quarantineMaxBatch
  exact ⟨handed.sound.settleBloom, by
    simp only [Quarantine.drainBatch, entries_settleBloom]
    exact handed.perm⟩

/-- Everything admitted is handed back or still held. -/
def Ledger.Balanced (s : Ledger) : Prop := s.admitted.Perm (s.returned ++ s.q.entries)

/-- A batch leaves the ring. -/
theorem Ledger.Balanced.hand {s : Ledger} (balanced : s.Balanced)
    (perm : s.q.entries.Perm (out ++ l)) : s.admitted.Perm ((s.returned ++ out) ++ l) := by
  rw [List.append_assoc]
  exact balanced.trans (perm.append_left _)

theorem Ledger.step_balanced (s : Ledger) (op : Op) (sound : Sound s.q) (balanced : s.Balanced) :
    Sound (s.step op).q ∧ (s.step op).Balanced := by
  cases op with
  | offer e draw draws =>
    rcases sound.offer_cases e draw draws with ⟨-, answer⟩ | ⟨-, -, answer⟩ | ⟨absent, -, room, answer⟩
    · simpa [Ledger.step, Ledger.Balanced, answer] using ⟨sound, balanced⟩
    · simpa [Ledger.step, Ledger.Balanced, answer] using ⟨sound, balanced⟩
    · obtain ⟨handed, -⟩ := evictFor_spec sound e.bytes quarantineMaxBatch draws
      have still : ∀ held ∈ (evictFor e.bytes quarantineMaxBatch draws s.q).2.entries,
          held.ptr ≠ e.ptr := fun held member =>
        absent held (handed.perm.mem_iff.mpr (List.mem_append_right _ member))
      simp only [Ledger.step, Ledger.Balanced, answer, if_true, entries_enqueue, ← List.append_assoc]
      exact ⟨handed.sound.enqueue room still, (balanced.hand handed.perm).append_right [e]⟩
  | drainBatch => exact ⟨sound.drainBatch.1, balanced.hand sound.drainBatch.2⟩
  | drainExcess => exact ⟨sound.drainExcess.1, balanced.hand sound.drainExcess.2.1⟩
  | setPolicy p =>
    refine ⟨⟨⟨sound.tallies.count, sound.tallies.bytes, sound.tallies.perArena⟩, sound.filter,
      sound.nodup, Nat.min_le_right _ _⟩, balanced⟩

theorem run_balanced (ops : List Op) : Sound (run ops).q ∧ (run ops).Balanced := by
  unfold run
  suffices all : ∀ s : Ledger, Sound s.q → s.Balanced →
      Sound (ops.foldl Ledger.step s).q ∧ (ops.foldl Ledger.step s).Balanced from
    all _ sound_new (.refl _)
  induction ops with
  | nil => exact fun s sound balanced => ⟨sound, balanced⟩
  | cons op rest ih =>
    intro s sound balanced
    obtain ⟨good, even⟩ := s.step_balanced op sound balanced
    exact ih _ good even

theorem wrappedSum_eq (l : List Nat) : wrappedSum l = l.sum % 2 ^ 64 := by
  suffices all : ∀ init, init < 2 ^ 64 → l.foldl wrappingAdd64 init = (init + l.sum) % 2 ^ 64 by
    rw [wrappedSum, all 0 (by decide), Nat.zero_add]
  induction l with
  | nil =>
    intro init word
    rw [List.foldl_nil, List.sum_nil, Nat.add_zero, Nat.mod_eq_of_lt word]
  | cons x l ih =>
    intro init _
    rw [List.foldl_cons, ih (wrappingAdd64 init x) (Nat.mod_lt _ (by decide)), List.sum_cons]
    unfold wrappingAdd64
    omega

theorem Sound.checkInvariants (sound : Sound q) : q.checkInvariants = true := by
  have head := q.ring.head_lt
  have len := q.ring.len_le
  simp only [Quarantine.checkInvariants, wrappedSum_eq, Bool.and_eq_true, Bool.not_eq_true',
    Bool.or_eq_false_iff, Bool.and_eq_false_iff, decide_eq_false_iff_not, beq_iff_eq,
    List.all_eq_true, List.mem_range]
  refine ⟨⟨⟨⟨⟨by omega, .inr (by omega)⟩, ?_⟩, sound.filter⟩, sound.tallies.bytes⟩, sound.tallies.perArena⟩
  rw [sound.tallies.count, length_entries]

/-- After any calls the oracle holds, the counters are the sums over the ring,
every admitted entry was handed back once or is still held, a held address is
recognised, there is room for every admission, an admission that evicts fewer
entries than a batch holds ends within the budget, and repeated draining ends
within it. -/
theorem exactly_once_of_run (ops : List Op) :
    (run ops).q.checkInvariants = true ∧
    (run ops).admitted.Perm ((run ops).returned ++ (run ops).q.entries) ∧
    Tallies (run ops).q (run ops).q.entries ∧
    (∀ e draw draws, ((run ops).q.offer e draw draws).1 = .alreadyQuarantined ↔
      ∃ held ∈ (run ops).q.entries, held.ptr = e.ptr) ∧
    (∀ e draw draws, (run ops).q.declines e draw = false →
      (evictFor e.bytes quarantineMaxBatch draws (run ops).q).2.ring.len < quarantineCap) ∧
    (∀ e draw draws evicted q', (run ops).q.offer e draw draws = (.held, evicted, q') →
      (evicted.length < quarantineMaxBatch → Within q') ∧
      (q'.policy.perArenaBytes ≠ 0 → e.arena < maxArenas →
        ((run ops).q.entries.map QuarantineEntry.bytes).sum + e.bytes < 2 ^ 64 →
        q'.perArena e.arena ≤ q'.policy.perArenaBytes)) ∧
    (∀ n, (run ops).q.entries.length ≤ n →
      (converge n (run ops).q).1 = [] ∧ Within (converge n (run ops).q).2) := by
  obtain ⟨sound, balanced⟩ := run_balanced ops
  refine ⟨sound.checkInvariants, balanced, sound.tallies, ?_, ?_, ?_, fun n => sound.converge⟩
  · intro e draw draws
    rcases sound.offer_cases e draw draws with ⟨held, answer⟩ | ⟨absent, -, answer⟩ |
      ⟨absent, -, room, answer⟩
    · simpa [answer] using held
    · simpa [answer] using absent
    · simpa [answer] using absent
  · exact fun e draw draws wanted => sound.evictFor_room draws wanted
  · intro e draw draws evicted q' answered
    rcases sound.offer_cases e draw draws with ⟨-, answer⟩ | ⟨-, -, answer⟩ | ⟨-, wanted, room, answer⟩
    · simp [answer] at answered
    · simp [answer] at answered
    · rw [answer] at answered
      simp only [Prod.mk.injEq, true_and] at answered
      obtain ⟨rfl, rfl⟩ := answered
      have policy := (evictFor_spec sound e.bytes quarantineMaxBatch draws).1.policy
      rw [(accounts_enqueue room).2.2.1, policy]
      exact ⟨fun unfilled => sound.within_of_evictFor draws wanted unfilled room,
        fun limited inside fits => sound.arena_of_evictFor draws wanted limited inside fits room⟩

/-- Ten bytes held one by one under a budget of ten bytes. -/
def tenBytes : List Op :=
  .setPolicy { maxBytes := 10 } :: (List.range 10).map fun k => .offer ⟨k, none, 0, 0, 1⟩ 0 fun _ => 0

/-- One call evicts at most a batch: a ten-byte entry is admitted after eight of
the single bytes left. And sizes that wrap escape the byte budget. -/
theorem offer_exceeds_budget :
    (((run tenBytes).q.offer ⟨10, none, 0, 0, 10⟩ 0 fun _ => 0).1 = .held ∧
      ((run tenBytes).q.offer ⟨10, none, 0, 0, 10⟩ 0 fun _ => 0).2.2.bytes = 12) ∧
    (run [.setPolicy { maxBytes := 2 ^ 64 - 1 }, .offer ⟨1, none, 0, 0, 2 ^ 63⟩ 0 fun _ => 0,
      .offer ⟨2, none, 0, 0, 2 ^ 63⟩ 0 fun _ => 0]).q.bytes = 0 := by
  decide +kernel

end Quarantine
end Topomalloc
