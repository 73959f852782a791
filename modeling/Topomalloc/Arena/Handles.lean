import Topomalloc.Arena.Fates

/-! Handles over the lifecycle of arenas. A handle packs an arena's id with the
generation of its incarnation. Births and deaths alternate in a slot and each
advances the generation by one, so the generation counts them, and a handle
resolves in the incarnation it was issued in and in no other. -/
namespace Topomalloc.ArenaTable
open Function

/-! ## Handles -/

/-- A generation and an id in one word. -/
def packHandle (generation a : Nat) : Nat := generation <<< 32 ||| a

/-- `handle`. -/
def handle (t : ArenaTable) (a : Nat) : Option Nat :=
  match t.slot a with
  | none => none
  | some s => if s.state = .destroyed then none else some (packHandle s.generation a)

/-- `resolve_handle`. -/
def resolveHandle (t : ArenaTable) (h : Nat) : Option Nat :=
  let id := h &&& 0xffffffff
  let gen := (h >>> 32) % 2 ^ 32
  match t.slot id with
  | none => none
  | some s => if s.state ≠ .destroyed ∧ s.generation = gen then some id else none

variable {a : Nat}

/-! ## Histories -/

/-- A handle, with the arena it was issued for and that arena's incarnation. -/
structure Issue where
  handle : Nat
  arena : Nat
  incarnation : Nat

/-- A table with its past: how often each slot was born and has ended, and the
handles issued. -/
structure History where
  table : ArenaTable
  births : Nat → Nat
  deaths : Nat → Nat
  issued : List Issue

/-- One more for the slot named. -/
def tally (n : Nat → Nat) : Option Nat → Nat → Nat
  | none => n
  | some a => update n a (n a + 1)

inductive Call
  | op (op : Op)
  | handle (a : Nat)

namespace History

/-- At the start the default arena is in its first incarnation. -/
def new : History where
  table := ArenaTable.new
  births := update (fun _ => 0) defaultArena 1
  deaths := fun _ => 0
  issued := []

def after (h : History) : Call → History
  | .op op =>
    { h with
      table := (h.table.step op).2
      births := tally h.births (h.table.born op)
      deaths := tally h.deaths (h.table.gone op) }
  | .handle a =>
    match h.table.handle a with
    | none => h
    | some handle => { h with issued := ⟨handle, a, h.births a⟩ :: h.issued }

/-- Any calls in any order. -/
def run (calls : List Call) : History := calls.foldl after new

/-- The generation bumps of a slot. -/
def bumps (h : History) (a : Nat) : Nat := h.births a + h.deaths a

/-- Births and deaths alternate, and the generation counts them as long as it does
not wrap. -/
structure Alternates (h : History) (a : Nat) : Prop where
  dead : (h.table.slots a).state = .destroyed → h.births a = h.deaths a
  alive : (h.table.slots a).state ≠ .destroyed → h.births a = h.deaths a + 1
  counted : h.bumps a < 2 ^ 32 → (h.table.slots a).generation = h.bumps a

/-- An issued handle holds its incarnation's generation. -/
structure Issued (h : History) (i : Issue) : Prop where
  inside : i.arena < maxArenas
  first : 1 ≤ i.incarnation
  past : i.incarnation ≤ h.births i.arena
  packed : h.bumps i.arena < 2 ^ 32 → i.handle = packHandle (2 * i.incarnation - 1) i.arena

structure Consistent (h : History) : Prop where
  ready : Ready h.table
  alternates : ∀ a, Alternates h a
  small : ∀ a, (h.table.slots a).generation < 2 ^ 32
  issued : ∀ i ∈ h.issued, Issued h i

variable {h : History} {t : ArenaTable} {g x : Nat}

theorem tally_of_ne (n : Nat → Nat) (other : made ≠ some a) : tally n made a = n a := by
  cases made with
  | none => rfl
  | some b => exact update_of_ne (fun same => other (congrArg some same.symm)) _ _

theorem tally_self (n : Nat → Nat) : tally n (some a) a = n a + 1 := update_self ..

theorem le_tally (n : Nat → Nat) (made : Option Nat) : n a ≤ tally n made a := by
  by_cases here : made = some a
  · rw [here, tally_self]
    exact Nat.le_succ _
  · rw [tally_of_ne n here]

theorem nextGeneration_eq (room : g + 1 < 2 ^ 32) : nextGeneration g = g + 1 := by
  unfold nextGeneration wrappingSucc32
  rw [Nat.mod_eq_of_lt room, if_neg (Nat.succ_ne_zero g)]

theorem nextGeneration_lt (g : Nat) : nextGeneration g < 2 ^ 32 := by
  unfold nextGeneration wrappingSucc32
  split
  · decide
  · exact Nat.mod_lt _ (by decide)

theorem consistent_new : Consistent new where
  ready := by
    refine ⟨fun a beyond => ?_, by decide⟩
    have other : a ≠ defaultArena := Nat.ne_of_gt beyond
    simp [new, ArenaTable.new, other]
  alternates a := by
    by_cases here : a = defaultArena
    · subst here
      refine ⟨fun dead => ?_, fun _ => ?_, fun _ => ?_⟩
      · simp [new, ArenaTable.new] at dead
      · simp [new]
      · simp only [new, ArenaTable.new, bumps, update_self]
        exact nextGeneration_eq (by decide)
    · refine ⟨fun _ => ?_, fun alive => ?_, fun _ => ?_⟩
      · simp [new, here]
      · simp [new, ArenaTable.new, here] at alive
      · simp [new, ArenaTable.new, bumps, here]
  small a := by
    by_cases here : a = defaultArena
    · simp only [new, ArenaTable.new, here, update_self]
      exact nextGeneration_lt 0
    · simp [new, ArenaTable.new, here]
  issued i member := by simp [new] at member

theorem Consistent.alternates_op (consistent : Consistent h) (op : Op) (a : Nat) :
    Alternates (h.after (.op op)) a := by
  obtain ⟨dead, alive, counted⟩ := consistent.alternates a
  simp only [after]
  cases consistent.ready.fate op a with
  | kept unborn remains state generation =>
    refine ⟨?_, ?_, ?_⟩
    · simpa only [state, tally_of_ne _ unborn, tally_of_ne _ remains] using dead
    · simpa only [state, tally_of_ne _ unborn, tally_of_ne _ remains] using alive
    · simpa only [bumps, generation, tally_of_ne _ unborn, tally_of_ne _ remains] using counted
  | moved unborn remains turn generation =>
    obtain ⟨live, live', -⟩ := turn.live
    refine ⟨fun dead' => absurd dead' live', fun _ => ?_, ?_⟩
    · simpa only [tally_of_ne _ unborn, tally_of_ne _ remains] using alive live
    · simpa only [bumps, generation, tally_of_ne _ unborn, tally_of_ne _ remains] using counted
  | born made remains vacant state generation =>
    have even := dead vacant
    refine ⟨fun dead' => ?_, fun _ => ?_, fun room => ?_⟩
    · rw [dead'] at state
      simp at state
    · simp only [made, tally_self, tally_of_ne _ remains]
      omega
    · simp only [bumps, made, tally_self, tally_of_ne _ remains, generation] at room counted ⊢
      rw [counted (by omega), nextGeneration_eq (by omega)]
      omega
  | gone unborn ended cause state generation =>
    have odd := alive (by rcases cause with ⟨-, before⟩ | ⟨-, before⟩ <;> simp [before])
    refine ⟨fun _ => ?_, fun alive' => absurd state alive', fun room => ?_⟩
    · simp only [ended, tally_self, tally_of_ne _ unborn]
      omega
    · simp only [bumps, ended, tally_self, tally_of_ne _ unborn, generation] at room counted ⊢
      rw [counted (by omega), nextGeneration_eq (by omega)]
      omega

theorem Consistent.operate (consistent : Consistent h) (op : Op) : Consistent (h.after (.op op)) where
  ready := consistent.ready.step op
  alternates := consistent.alternates_op op
  small a := by
    have small := consistent.small a
    simp only [after]
    cases consistent.ready.fate op a with
    | kept _ _ _ generation => rwa [generation]
    | moved _ _ _ generation => rwa [generation]
    | born _ _ _ _ generation =>
      rw [generation]
      exact nextGeneration_lt _
    | gone _ _ _ _ generation =>
      rw [generation]
      exact nextGeneration_lt _
  issued i member := by
    obtain ⟨inside, first, past, packed⟩ := consistent.issued i member
    have births : h.births i.arena ≤ (h.after (.op op)).births i.arena := le_tally _ _
    have deaths : h.deaths i.arena ≤ (h.after (.op op)).deaths i.arena := le_tally _ _
    refine ⟨inside, first, past.trans births, fun room => packed ?_⟩
    simp only [bumps] at room ⊢
    omega

theorem handle_eq_some (issued : t.handle a = some x) :
    a < maxArenas ∧ (t.slots a).state ≠ .destroyed ∧ x = packHandle (t.slots a).generation a := by
  unfold ArenaTable.handle at issued
  split at issued
  · contradiction
  next s found =>
    obtain ⟨inside, rfl⟩ := slot_eq_some found
    split at issued
    · contradiction
    next live => exact ⟨inside, live, (Option.some.inj issued).symm⟩

theorem Consistent.issue (consistent : Consistent h) (a : Nat) : Consistent (h.after (.handle a)) := by
  simp only [after]
  split
  · exact consistent
  next x issued =>
    obtain ⟨inside, live, packed⟩ := handle_eq_some issued
    obtain ⟨-, alive, counted⟩ := consistent.alternates a
    have odd := alive live
    refine ⟨consistent.ready, fun c => ?_, consistent.small, fun i member => ?_⟩
    · obtain ⟨dead, alive, counted⟩ := consistent.alternates c
      exact ⟨dead, alive, counted⟩
    rcases List.mem_cons.mp member with rfl | earlier
    · refine ⟨inside, by dsimp only; omega, Nat.le_refl _, fun room => ?_⟩
      dsimp only [bumps] at room counted ⊢
      rw [packed, counted room, show h.births a + h.deaths a = 2 * h.births a - 1 by omega]
    · obtain ⟨inside, first, past, packed⟩ := consistent.issued i earlier
      exact ⟨inside, first, past, packed⟩

theorem consistent_run (calls : List Call) : Consistent (run calls) := by
  induction calls using List.reverseRecOn with
  | nil => exact consistent_new
  | append_singleton calls call ih =>
    rw [run, List.foldl_append]
    cases call with
    | op op => exact ih.operate op
    | handle a => exact ih.issue a

/-! ## Resolving -/

theorem packHandle_eq (small : a < 2 ^ 32) : packHandle g a = g * 2 ^ 32 + a := by
  rw [packHandle, ← Nat.shiftLeft_add_eq_or_of_lt small, Nat.shiftLeft_eq]

theorem resolveHandle_eq_some {id : Nat} :
    t.resolveHandle x = some id ↔ id = x % 2 ^ 32 ∧ id < maxArenas ∧
      (t.slots id).state ≠ .destroyed ∧ (t.slots id).generation = x / 2 ^ 32 % 2 ^ 32 := by
  have low : x &&& 0xffffffff = x % 2 ^ 32 := Nat.and_two_pow_sub_one_eq_mod x 32
  rw [resolveHandle, Nat.shiftRight_eq_div_pow, low]
  constructor
  · intro resolved
    split at resolved
    · contradiction
    next s found =>
      obtain ⟨inside, rfl⟩ := slot_eq_some found
      split at resolved
      next current =>
        obtain rfl := Option.some.inj resolved
        exact ⟨rfl, inside, current⟩
      next => contradiction
  · rintro ⟨rfl, inside, current⟩
    have found : t.slot (x % 2 ^ 32) = some (t.slots (x % 2 ^ 32)) := if_pos inside
    simp only [found]
    exact if_pos current

/-- A word resolves to the arena that has it for its handle. -/
theorem Consistent.resolve_iff_handle (consistent : Consistent h) (word : x < 2 ^ 64)
    (id : Nat) : h.table.resolveHandle x = some id ↔ h.table.handle id = some x := by
  rw [resolveHandle_eq_some]
  constructor
  · rintro ⟨low, inside, live, generation⟩
    have found : h.table.slot id = some (h.table.slots id) := if_pos inside
    simp only [ArenaTable.handle, found, if_neg live]
    rw [packHandle_eq (by omega), generation]
    congr 1
    omega
  · intro issued
    obtain ⟨inside, live, rfl⟩ := handle_eq_some issued
    have room : id < 2 ^ 32 := Nat.lt_of_lt_of_le inside (by decide)
    have small := consistent.small id
    rw [packHandle_eq room]
    exact ⟨by omega, inside, live, by omega⟩

/-- An issued handle resolves in the incarnation it was issued for, and in no
other. -/
theorem Consistent.resolve_issued (consistent : Consistent h) {i : Issue} (member : i ∈ h.issued)
    (room : h.bumps i.arena < 2 ^ 32) (id : Nat) :
    h.table.resolveHandle i.handle = some id ↔ id = i.arena ∧ h.births i.arena = i.incarnation ∧
        (h.table.slots i.arena).state ≠ .destroyed := by
  obtain ⟨inside, first, past, packed⟩ := consistent.issued i member
  obtain ⟨dead, alive, counted⟩ := consistent.alternates i.arena
  have generation := counted room
  have low : i.arena < 2 ^ 32 := Nat.lt_of_lt_of_le inside (by decide)
  have close : h.births i.arena ≤ h.deaths i.arena + 1 := by
    by_cases live : (h.table.slots i.arena).state = .destroyed
    · exact Nat.le_succ_of_le (Nat.le_of_eq (dead live))
    · exact Nat.le_of_eq (alive live)
  rw [packed room, packHandle_eq low, resolveHandle_eq_some]
  unfold bumps at *
  constructor
  · rintro ⟨same, -, live, current⟩
    obtain rfl : id = i.arena := by omega
    have odd := alive live
    exact ⟨rfl, by omega, live⟩
  · rintro ⟨rfl, current, live⟩
    have odd := alive live
    exact ⟨by omega, inside, live, by omega⟩

theorem finishReset_ok (done : (t.finishReset a).1 = .ok g) :
    (t.slots a).state = .resetting ∨ (t.slots a).state = .initializing := by
  unfold ArenaTable.finishReset at done
  split at done
  · contradiction
  next s found =>
    obtain ⟨-, rfl⟩ := slot_eq_some found
    split at done
    · contradiction
    next edge => exact canTransition_from edge

theorem finishDestroy_ok (done : (t.finishDestroy a).1 = .ok g) : (t.slots a).state = .draining := by
  unfold ArenaTable.finishDestroy at done
  split at done
  · contradiction
  next s found =>
    obtain ⟨-, rfl⟩ := slot_eq_some found
    split at done
    · contradiction
    next edge => exact canTransition_from edge

/-- After any calls in any order: a word resolves to the arena whose handle it is;
an issued handle resolves while its own incarnation lives, and never to a later
one. A destruction is finished only on a draining arena and a reset, of a
published arena, only on a resetting one. No call takes an arena out of
quarantine; an arena ends by the last step of its destruction or by being
abandoned before it was published. -/
theorem handles_of_run (calls : List Call) (room : ∀ a, (run calls).bumps a < 2 ^ 32) :
    (∀ x id, x < 2 ^ 64 →
      ((run calls).table.resolveHandle x = some id ↔ (run calls).table.handle id = some x)) ∧
    (∀ i ∈ (run calls).issued, ∀ id, (run calls).table.resolveHandle i.handle = some id ↔
      id = i.arena ∧ (run calls).births i.arena = i.incarnation ∧
        ((run calls).table.slots i.arena).state ≠ .destroyed) ∧
    (∀ a g, ((run calls).table.finishDestroy a).1 = .ok g → ((run calls).table.slots a).state = .draining) ∧
    (∀ a g, ((run calls).table.finishReset a).1 = .ok g → ((run calls).table.slots a).state ≠ .initializing →
      ((run calls).table.slots a).state = .resetting) ∧
    ∀ op a, let s := (run calls).table.slots a
      let s' := (run (calls ++ [.op op])).table.slots a
      (s.state = .errorQuarantined → s'.state = .errorQuarantined) ∧
      (s.state ≠ .destroyed → s'.state = .destroyed → op = .finishDestroy a ∧ s.state = .draining ∨
          op = .abandonPending a ∧ s.state = .initializing) ∧
      (s.state = .initializing → s'.state = .active → op ≠ .finishReset a → op = .publish a) := by
  have consistent := consistent_run calls
  refine ⟨fun x id word => consistent.resolve_iff_handle word id,
    fun i member => consistent.resolve_issued member (room i.arena),
    fun a g => finishDestroy_ok, fun a g done other => (finishReset_ok done).resolve_right other,
    fun op a => ?_⟩
  have next : run (calls ++ [.op op]) = (run calls).after (.op op) := by
    rw [run, List.foldl_append]
    rfl
  rw [next]
  dsimp only [after]
  cases consistent.ready.fate op a with
  | kept _ _ state _ =>
    rw [state]
    exact ⟨id, fun live dead => absurd dead live, fun pending active => by simp [pending] at active⟩
  | born _ _ vacant _ _ => simp [vacant]
  | gone _ _ cause state _ =>
    refine ⟨fun stuck => ?_, fun _ _ => ?_, fun _ active => by simp [state] at active⟩
    · rcases cause with ⟨-, before⟩ | ⟨-, before⟩ <;> simp [before] at stuck
    · exact cause.symm
  | moved _ _ turn _ =>
    obtain ⟨-, live, loose⟩ := turn.live
    refine ⟨fun stuck => absurd stuck loose, fun _ dead => absurd dead live,
      fun pending active other => ?_⟩
    rw [pending, active] at turn
    cases turn with
    | publish => rfl
    | finishReset => exact absurd rfl other

/-- An arena that is created, given a handle and reset. -/
def resetOnce : List Call := [.op (.create .free), .handle 1, .op (.beginReset 1), .op (.finishReset 1)]

theorem bumps_resetOnce (a : Nat) : (run resetOnce).bumps a < 2 ^ 32 := by
  have births : (run resetOnce).births = tally (update (fun _ => 0) defaultArena 1) (some 1) := rfl
  have deaths : (run resetOnce).deaths = fun _ => 0 := rfl
  rw [bumps, births, deaths]
  by_cases one : a = 1
  · subst one
    decide
  by_cases zero : a = defaultArena
  · subst zero
    decide
  · rw [tally, update_of_ne one, update_of_ne zero]
    exact Nat.two_pow_pos 32

/-- The handle survives the reset. -/
theorem handles_of_run_resetOnce :
    (∀ a, (run resetOnce).bumps a < 2 ^ 32) ∧ (run resetOnce).table.resolveHandle (packHandle 1 1) = some 1 :=
  ⟨bumps_resetOnce, ((handles_of_run resetOnce bumps_resetOnce).2.1 ⟨packHandle 1 1, 1, 1⟩ (.head _) 1).mpr
      ⟨rfl, rfl, by decide +kernel⟩⟩

/-- An arena created pending and then abandoned is destroyed without draining, and one
on which a reset is finished is published without `publish`. -/
theorem abandoned_without_draining :
    ((run [.op (.createPending .free)]).table.slots 1).state = .initializing ∧
      ((run [.op (.createPending .free), .op (.abandonPending 1)]).table.slots 1).state = .destroyed ∧
      ((run [.op (.createPending .free), .op (.finishReset 1)]).table.slots 1).state = .active := by
  decide

end History
end Topomalloc.ArenaTable
