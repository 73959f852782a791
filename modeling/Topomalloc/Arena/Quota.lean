import Topomalloc.Arena.Table

/-! Quota along the delegation tree.

Beside the table runs a ledger of each arena's outstanding own charges: a charge
enters it, a credit takes one out, and an arena that is reset, quarantined or
destroyed starts again from nothing, as its counter does. -/
namespace Topomalloc.ArenaTable
open Function

/-! ## Operations and runs -/

inductive Op
  | create (p : ArenaPolicy)
  | createPending (p : ArenaPolicy)
  | publish (a : Nat)
  | abandonPending (a : Nat)
  | delegate (parent : Nat) (d : Delegation)
  | tryCharge (a size : Nat)
  | credit (a size : Nat)
  | configure (a : Nat) (c : ArenaConfig)
  | beginReset (a : Nat)
  | finishReset (a : Nat)
  | beginDestroy (a : Nat)
  | finishDestroy (a : Nat)
  | quarantine (a : Nat)

def failure {α : Type} : Except ArenaError α → Option ArenaError
  | .ok _ => none
  | .error e => some e

/-- The error an operation answers, if any, and the table it leaves. -/
def step (t : ArenaTable) : Op → Option ArenaError × ArenaTable
  | .create p => (t.create p).map failure id
  | .createPending p => (t.createPending p).map failure id
  | .publish a => (t.publish a).map failure id
  | .abandonPending a => (t.abandonPending a).map failure id
  | .delegate parent d => (t.delegate parent d).map failure id
  | .tryCharge a size => (t.tryCharge a size).map failure id
  | .credit a size => (none, t.credit a size)
  | .configure a c => (t.configure a c).map failure id
  | .beginReset a => (t.beginReset a).map failure id
  | .finishReset a => (t.finishReset a).map failure id
  | .beginDestroy a => (t.beginDestroy a).map failure id
  | .finishDestroy a => (t.finishDestroy a).map failure id
  | .quarantine a => (t.quarantine a).map failure id

/-- The outstanding charges of each arena. -/
abbrev Charges := Nat → List Nat

/-- The charges outstanding after an operation. -/
def Charges.after (ch : Charges) : Option ArenaError → Op → Charges
  | none, .tryCharge a size => update ch a (size :: ch a)
  | none, .credit a size => update ch a ((ch a).erase size)
  | none, .finishReset a => update ch a []
  | none, .finishDestroy a => update ch a []
  | none, .quarantine a => update ch a []
  | _, _ => ch

/-- A credit gives back an outstanding charge. -/
def Charges.Matched (ch : Charges) : Op → Prop
  | .credit a size => size ∈ ch a
  | _ => True

inductive Reachable : ArenaTable → Charges → Prop
  | new : Reachable ArenaTable.new fun _ => []
  | step {t ch} (op : Op) : Reachable t ch → ch.Matched op →
      Reachable (t.step op).2 (ch.after (t.step op).1 op)

/-! ## The delegation tree -/

/-- The live arenas that `p` delegated. -/
def children (t : ArenaTable) (p : Nat) : Finset Nat :=
  {c ∈ Finset.range maxArenas | (t.slots c).state ≠ .destroyed ∧ (t.slots c).parent.map Prod.fst = some p}

/-- The quota `p` holds for its children; an unlimited arena holds none. -/
def pledged (t : ArenaTable) (p : Nat) : Nat :=
  if (t.slots p).quotaLimit = quotaUnlimited then 0
  else ∑ c ∈ t.children p, (t.slots c).quotaLimit

/-- `c` is `root` or was delegated, directly or not, by `root`. -/
def Descends (t : ArenaTable) : Nat → Nat → Prop := Relation.ReflTransGen fun p c => c ∈ t.children p

/-- What a child and its parent have to do with each other. -/
structure Hosts (p c : ArenaSlot) : Prop where
  standing : p.state = .active ∨ p.state = .resetting ∨ p.state = .errorQuarantined
  link : c.parent.map Prod.snd = some p.generation
  rights : containsRights p.rights c.rights = true
  label : c.label = p.label
  finite : p.quotaLimit ≠ quotaUnlimited → c.quotaLimit ≠ quotaUnlimited

structure Sound (t : ArenaTable) (ch : Charges) : Prop where
  own : ∀ a, (t.slots a).committed = (ch a).sum + (t.slots a).reserved
  within : ∀ a, (t.slots a).committed ≤ (t.slots a).quotaLimit
  reserved : ∀ a, (t.slots a).reserved = t.pledged a
  counted : ∀ a, (t.slots a).liveChildren = (t.children a).card
  hosted : ∀ p, ∀ c ∈ t.children p, Hosts (t.slots p) (t.slots c)
  idle : ∀ a, (t.slots a).state.isTerminal = true ∨ (t.slots a).state = .initializing → ch a = []
  pending : ∀ a, (t.slots a).state = .initializing → (t.slots a).parent = none
  named : ∀ a, (t.slots a).state ≠ .destroyed → (t.slots a).generation ≠ 0
  unused : ∀ a, t.highWater ≤ a → (t.slots a).state = .destroyed
  bounded : t.highWater ≤ maxArenas
  ambient : (t.slots defaultArena).state = .active
  word : ∀ a, (t.slots a).quotaLimit ≤ quotaUnlimited

variable {t t' : ArenaTable} {ch : Charges} {a p c : Nat} {s s' : ArenaSlot} {cs : List Nat}
  {good : ArenaTable → Prop} {e : ArenaError}

/-- The part of soundness that one slot and its own charges decide. -/
structure Fair (s : ArenaSlot) (cs : List Nat) : Prop where
  own : s.committed = cs.sum + s.reserved
  within : s.committed ≤ s.quotaLimit
  idle : s.state.isTerminal = true ∨ s.state = .initializing → cs = []
  pending : s.state = .initializing → s.parent = none
  named : s.state ≠ .destroyed → s.generation ≠ 0
  word : s.quotaLimit ≤ quotaUnlimited

theorem Sound.fair (sound : Sound t ch) (a : Nat) : Fair (t.slots a) (ch a) :=
  ⟨sound.own a, sound.within a, sound.idle a, sound.pending a, sound.named a, sound.word a⟩

theorem sound_of_fair (fair : ∀ a, Fair (t.slots a) (ch a))
    (reserved : ∀ a, (t.slots a).reserved = t.pledged a)
    (counted : ∀ a, (t.slots a).liveChildren = (t.children a).card)
    (hosted : ∀ p, ∀ c ∈ t.children p, Hosts (t.slots p) (t.slots c))
    (unused : ∀ a, t.highWater ≤ a → (t.slots a).state = .destroyed) (bounded : t.highWater ≤ maxArenas)
    (ambient : (t.slots defaultArena).state = .active) : Sound t ch :=
  ⟨fun a => (fair a).own, fun a => (fair a).within, reserved, counted, hosted, fun a => (fair a).idle,
    fun a => (fair a).pending, fun a => (fair a).named, unused, bounded, ambient,
    fun a => (fair a).word⟩

theorem nextGeneration_ne_zero (g : Nat) : nextGeneration g ≠ 0 := by
  unfold nextGeneration
  split <;> omega

theorem mem_children : c ∈ t.children p ↔
    c < maxArenas ∧ (t.slots c).state ≠ .destroyed ∧ (t.slots c).parent.map Prod.fst = some p := by
  simp only [children, Finset.mem_filter, Finset.mem_range]

theorem slot_eq_some (h : t.slot a = some s) : a < maxArenas ∧ s = t.slots a := by
  unfold slot at h
  split at h
  · exact ⟨‹_›, (Option.some.inj h).symm⟩
  · cases h

@[simp] theorem set_slots (t : ArenaTable) (a : Nat) (s : ArenaSlot) :
    (t.set a s).slots = update t.slots a s := rfl

@[simp] theorem set_highWater (t : ArenaTable) (a : Nat) (s : ArenaSlot) :
    (t.set a s).highWater = t.highWater := rfl

theorem Sound.live_lt (sound : Sound t ch) (live : (t.slots a).state ≠ .destroyed) : a < t.highWater := by
  by_contra beyond
  exact live (sound.unused a (by omega))

/-- An arena in any other state than those of a host has no children. -/
theorem Sound.childless (sound : Sound t ch)
    (closed : ¬ ((t.slots a).state = .active ∨ (t.slots a).state = .resetting ∨
      (t.slots a).state = .errorQuarantined)) : t.children a = ∅ :=
  Finset.eq_empty_of_forall_notMem fun c child => closed (sound.hosted a c child).standing

/-- An arena without children holds its own charges and nothing else. -/
theorem Sound.committed_of_childless (sound : Sound t ch) (none : t.children a = ∅) :
    (t.slots a).committed = (ch a).sum ∧ (t.slots a).reserved = 0 ∧ (t.slots a).liveChildren = 0 := by
  have held : (t.slots a).reserved = 0 := by
    rw [sound.reserved, pledged, none, Finset.sum_empty, ite_self]
  exact ⟨by rw [sound.own, held, Nat.add_zero], held, by rw [sound.counted, none, Finset.card_empty]⟩

/-- Two slots with the same place in the tree. -/
structure Kin (s s' : ArenaSlot) : Prop where
  parent : s'.parent = s.parent
  quota : s'.quotaLimit = s.quotaLimit
  rights : s'.rights = s.rights
  label : s'.label = s.label
  generation : s'.generation = s.generation
  live : s'.state = .destroyed ↔ s.state = .destroyed

theorem Kin.refl (s : ArenaSlot) : Kin s s := ⟨rfl, rfl, rfl, rfl, rfl, Iff.rfl⟩

/-- Where every other slot keeps its place, only `a` can enter or leave a set of
children. -/
theorem children_of_kin (kin : ∀ c, c ≠ a → Kin (t.slots c) (t'.slots c)) (other : c ≠ a) :
    c ∈ t'.children p ↔ c ∈ t.children p := by
  have same := kin c other
  simp only [mem_children, ne_eq, same.live, same.parent]

theorem Hosts.of_kin (hosts : Hosts q s) (parent : Kin q q') (child : Kin s s')
    (standing : q'.state = .active ∨ q'.state = .resetting ∨ q'.state = .errorQuarantined) :
    Hosts q' s' where
  standing := standing
  link := by rw [child.parent, parent.generation]; exact hosts.link
  rights := by rw [child.rights, parent.rights]; exact hosts.rights
  label := by rw [child.label, parent.label]; exact hosts.label
  finite := by rw [child.quota, parent.quota]; exact hosts.finite

/-! ## A slot rewritten in place -/

/-- Slot `a` may become `s'`, with `cs` outstanding. -/
structure Revises (t : ArenaTable) (a : Nat) (s' : ArenaSlot) (cs : List Nat) : Prop where
  kin : Kin (t.slots a) s'
  reserved : s'.reserved = (t.slots a).reserved
  counted : s'.liveChildren = (t.slots a).liveChildren
  own : s'.committed = cs.sum + s'.reserved
  within : s'.committed ≤ s'.quotaLimit
  idle : s'.state.isTerminal = true ∨ s'.state = .initializing → cs = []
  pending : s'.state = .initializing → (t.slots a).state = .initializing
  standing : s'.state = .active ∨ s'.state = .resetting ∨ s'.state = .errorQuarantined ∨ t.children a = ∅
  ambient : a = defaultArena → s'.state = .active

theorem Revises.fair (revises : Revises t a s' cs) (before : Fair (t.slots a) (ch a)) : Fair s' cs where
  own := revises.own
  within := revises.within
  idle := revises.idle
  pending := fun starting => by
    rw [revises.kin.parent]
    exact before.pending (revises.pending starting)
  named := fun live => by
    rw [revises.kin.generation]
    exact before.named fun gone => live (revises.kin.live.mpr gone)
  word := by
    rw [revises.kin.quota]
    exact before.word

theorem Sound.revise (sound : Sound t ch) (revises : Revises t a s' cs) :
    Sound (t.set a s') (update ch a cs) := by
  have kin : ∀ c, Kin (t.slots c) ((t.set a s').slots c) := by
    intro c
    by_cases same : c = a
    · subst same
      rw [set_slots, update_self]
      exact revises.kin
    · rw [set_slots, update_of_ne same]
      exact Kin.refl _
  have children : ∀ q, (t.set a s').children q = t.children q := by
    intro q
    ext c
    simp only [mem_children, ne_eq, (kin c).live, (kin c).parent]
  have pledged : ∀ q, (t.set a s').pledged q = t.pledged q := by
    intro q
    simp only [ArenaTable.pledged, children, (kin _).quota]
  -- every field at `a` is given by the revision, elsewhere by the table before
  refine sound_of_fair ?_ ?_ ?_ ?_ ?_ sound.bounded ?_
  · intro c
    by_cases same : c = a
    · subst same
      simpa using revises.fair (sound.fair c)
    · simpa [same] using sound.fair c
  · intro c
    rw [pledged, ← sound.reserved]
    by_cases same : c = a
    · subst same; simpa using revises.reserved
    · simp [same]
  · intro c
    rw [children, ← sound.counted]
    by_cases same : c = a
    · subst same; simpa using revises.counted
    · simp [same]
  · intro q c child
    rw [children] at child
    have hosts := sound.hosted q c child
    refine hosts.of_kin (kin q) (kin c) ?_
    by_cases same : q = a
    · subst same
      rw [set_slots, update_self]
      rcases revises.standing with h | h | h | empty
      · exact .inl h
      · exact .inr (.inl h)
      · exact .inr (.inr h)
      · rw [empty] at child
        cases child
    · rw [set_slots, update_of_ne same]
      exact hosts.standing
  · intro c beyond
    exact (kin c).live.mpr (sound.unused c beyond)
  · by_cases same : a = defaultArena
    · subst same; simpa using revises.ambient rfl
    · rw [set_slots, update_of_ne (Ne.symm same)]
      exact sound.ambient

/-! ## A slot that enters or leaves the tree -/

/-- What a parent holds for a child with this quota. -/
def share (s : ArenaSlot) (quota : Nat) : Nat := if s.quotaLimit = quotaUnlimited then 0 else quota

/-- A parent with one more child. -/
def funded (s : ArenaSlot) (quota : Nat) : ArenaSlot :=
  { s with
    committed := s.committed + share s quota
    reserved := s.reserved + share s quota
    liveChildren := s.liveChildren + 1 }

/-- A parent with one child less. -/
def refunded (s : ArenaSlot) (quota : Nat) : ArenaSlot :=
  { s with
    committed := s.committed - share s quota
    reserved := s.reserved - share s quota
    liveChildren := s.liveChildren - 1 }

/-- In `t'` the vacant slot `a` of `t` is an arena, and its parent pays for it. -/
structure Born (t t' : ArenaTable) (a : Nat) : Prop where
  vacant : (t.slots a).state = .destroyed
  room : a < t'.highWater ∧ t.highWater ≤ t'.highWater ∧ t'.highWater ≤ maxArenas
  state : (t'.slots a).state = .active ∨ (t'.slots a).state = .initializing ∧ (t'.slots a).parent = none
  accounts : (t'.slots a).committed = 0 ∧ (t'.slots a).reserved = 0 ∧
    (t'.slots a).liveChildren = (t.slots a).liveChildren
  named : (t'.slots a).generation ≠ 0
  word : (t'.slots a).quotaLimit ≤ quotaUnlimited
  apart : (t'.slots a).parent.map Prod.fst ≠ some a
  child : ∀ q, (t'.slots a).parent.map Prod.fst = some q → Hosts (t.slots q) (t'.slots a) ∧
    t'.slots q = funded (t.slots q) (t'.slots a).quotaLimit ∧
    (t.slots q).committed + share (t.slots q) (t'.slots a).quotaLimit ≤ (t.slots q).quotaLimit
  others : ∀ q, q ≠ a → (t'.slots a).parent.map Prod.fst ≠ some q → t'.slots q = t.slots q

theorem kin_funded (s : ArenaSlot) (quota : Nat) : Kin s (funded s quota) :=
  ⟨rfl, rfl, rfl, rfl, rfl, Iff.rfl⟩

theorem Born.fair (born : Born t t' a) : Fair (t'.slots a) [] where
  own := by rw [born.accounts.1, born.accounts.2.1, List.sum_nil]
  within := by
    rw [born.accounts.1]
    exact Nat.zero_le _
  idle := fun _ => rfl
  pending := fun starting => by
    rcases born.state with h | ⟨-, h⟩
    · rw [h] at starting
      cases starting
    · exact h
  named := fun _ => born.named
  word := born.word

theorem Fair.funded (fair : Fair s cs)
    (fits : s.committed + share s quota ≤ s.quotaLimit) : Fair (funded s quota) cs :=
  have own : s.committed + share s quota = cs.sum + (s.reserved + share s quota) := by
    rw [fair.own, Nat.add_assoc]
  ⟨own, fits, fair.idle, fair.pending, fair.named, fair.word⟩

theorem Sound.born (sound : Sound t ch) (born : Born t t' a) : Sound t' ch := by
  have childless : t.children a = ∅ := sound.childless (by rw [born.vacant]; decide)
  have idle : ch a = [] := sound.idle a (.inl (by rw [born.vacant]; rfl))
  have kin : ∀ q, q ≠ a → Kin (t.slots q) (t'.slots q) ∧ (t'.slots q).state = (t.slots q).state := by
    intro q other
    by_cases parent : (t'.slots a).parent.map Prod.fst = some q
    · rw [(born.child q parent).2.1]
      exact ⟨kin_funded _ _, rfl⟩
    · rw [born.others q other parent]
      exact ⟨Kin.refl _, rfl⟩
  have absent : ∀ q, a ∉ t.children q := fun q child => (mem_children.mp child).2.1 born.vacant
  have live : (t'.slots a).state ≠ .destroyed := by
    rcases born.state with h | ⟨h, -⟩ <;> simp [h]
  have children : ∀ q, t'.children q =
      if (t'.slots a).parent.map Prod.fst = some q then insert a (t.children q)
      else t.children q := by
    intro q
    ext c
    by_cases same : c = a
    · subst same
      have inside : c < maxArenas := by have := born.room; omega
      split <;> simp [mem_children, *]
    · rw [children_of_kin (fun c other => (kin c other).1) same]
      split <;> simp [same]
  have quotas : ∀ q, ∑ c ∈ t.children q, (t'.slots c).quotaLimit =
      ∑ c ∈ t.children q, (t.slots c).quotaLimit := by
    intro q
    refine Finset.sum_congr rfl fun c child => ?_
    exact (kin c fun same => absent q (same ▸ child)).1.quota
  have none : t'.children a = ∅ := by rw [children, if_neg born.apart, childless]
  refine sound_of_fair ?_ ?_ ?_ ?_ ?_ born.room.2.2 ?_
  · intro q
    by_cases same : q = a
    · subst same
      rw [idle]
      exact born.fair
    · by_cases parent : (t'.slots a).parent.map Prod.fst = some q
      · rw [(born.child q parent).2.1]
        exact (sound.fair q).funded (born.child q parent).2.2
      · rw [born.others q same parent]
        exact sound.fair q
  · intro q
    by_cases same : q = a
    · subst same
      rw [born.accounts.2.1, pledged, none, Finset.sum_empty, ite_self]
    · have before := sound.reserved q
      by_cases parent : (t'.slots a).parent.map Prod.fst = some q
      · unfold pledged at before ⊢
        rw [children, if_pos parent, Finset.sum_insert (absent q), quotas, (kin q same).1.quota,
          (born.child q parent).2.1]
        simp only [funded, share]
        by_cases unlimited : (t.slots q).quotaLimit = quotaUnlimited
        · simp only [if_pos unlimited] at before ⊢
          omega
        · simp only [if_neg unlimited] at before ⊢
          omega
      · rw [pledged, children, if_neg parent, quotas, (kin q same).1.quota, born.others q same parent]
        exact before
  · intro q
    by_cases same : q = a
    · subst same
      rw [born.accounts.2.2, none, sound.counted, childless]
    · by_cases parent : (t'.slots a).parent.map Prod.fst = some q
      · rw [children, if_pos parent, Finset.card_insert_of_notMem (absent q), ← sound.counted,
          (born.child q parent).2.1, funded]
      · rw [children, if_neg parent, born.others q same parent]
        exact sound.counted q
  · intro q c child
    have other : q ≠ a := by
      rintro rfl
      rw [none] at child
      cases child
    have standing := (kin q other).2
    by_cases same : c = a
    · subst same
      have hosts := (born.child q (mem_children.mp child).2.2).1
      exact hosts.of_kin (kin q other).1 (Kin.refl _) (by rw [standing]; exact hosts.standing)
    · have hosts := sound.hosted q c ((children_of_kin (fun c other => (kin c other).1) same).mp child)
      exact hosts.of_kin (kin q other).1 (kin c same).1 (by rw [standing]; exact hosts.standing)
  · intro q beyond
    have room := born.room
    rw [(kin q (by omega)).2]
    exact sound.unused q (by omega)
  · have other : defaultArena ≠ a := by
      rintro rfl
      exact absurd born.vacant (by simp [sound.ambient])
    rw [(kin _ other).2]
    exact sound.ambient

/-- In `t'` the arena `a` of `t` is gone, and its parent has its quota back. -/
structure Died (t t' : ArenaTable) (a : Nat) : Prop where
  closing : (t.slots a).state = .initializing ∨ (t.slots a).state = .draining
  gone : (t'.slots a).state = .destroyed
  accounts : (t'.slots a).committed = 0 ∧ (t'.slots a).reserved = 0 ∧
    (t'.slots a).liveChildren = (t.slots a).liveChildren
  highWater : t'.highWater = t.highWater
  quota : (t'.slots a).quotaLimit = (t.slots a).quotaLimit
  parent : ∀ q, a ∈ t.children q → t'.slots q = refunded (t.slots q) (t.slots a).quotaLimit
  others : ∀ q, q ≠ a → a ∉ t.children q → t'.slots q = t.slots q

theorem kin_refunded (s : ArenaSlot) (quota : Nat) : Kin s (refunded s quota) :=
  ⟨rfl, rfl, rfl, rfl, rfl, Iff.rfl⟩

theorem Died.fair (died : Died t t' a) (word : (t.slots a).quotaLimit ≤ quotaUnlimited) :
    Fair (t'.slots a) [] where
  own := by rw [died.accounts.1, died.accounts.2.1, List.sum_nil]
  within := by
    rw [died.accounts.1]
    exact Nat.zero_le _
  idle := fun _ => rfl
  pending := fun starting => by
    rw [died.gone] at starting
    cases starting
  named := fun live => absurd died.gone live
  word := died.quota ▸ word

theorem Fair.refunded (fair : Fair s cs) (enough : s.reserved = share s quota + (refunded s quota).reserved) :
    Fair (refunded s quota) cs :=
  have own : (ArenaTable.refunded s quota).committed = cs.sum + (ArenaTable.refunded s quota).reserved := by
    have before := fair.own
    simp only [ArenaTable.refunded] at enough ⊢
    omega
  ⟨own, Nat.le_trans (Nat.sub_le _ _) fair.within, fair.idle, fair.pending, fair.named, fair.word⟩

theorem Sound.died (sound : Sound t ch) (died : Died t t' a) : Sound t' (update ch a []) := by
  have childless : t.children a = ∅ :=
    sound.childless (by rcases died.closing with h | h <;> rw [h] <;> decide)
  have kin : ∀ q, q ≠ a → Kin (t.slots q) (t'.slots q) ∧ (t'.slots q).state = (t.slots q).state := by
    intro q other
    by_cases parent : a ∈ t.children q
    · rw [died.parent q parent]
      exact ⟨kin_refunded _ _, rfl⟩
    · rw [died.others q other parent]
      exact ⟨Kin.refl _, rfl⟩
  have children : ∀ q, t'.children q = (t.children q).erase a := by
    intro q
    ext c
    by_cases same : c = a
    · subst same
      simp [mem_children, died.gone]
    · rw [children_of_kin (fun c other => (kin c other).1) same]
      simp [same]
  have quotas : ∀ q, ∑ c ∈ (t.children q).erase a, (t'.slots c).quotaLimit =
      ∑ c ∈ (t.children q).erase a, (t.slots c).quotaLimit := by
    intro q
    exact Finset.sum_congr rfl fun c child => (kin c (Finset.ne_of_mem_erase child)).1.quota
  have none : t'.children a = ∅ := by rw [children, childless, Finset.erase_empty]
  -- the parent's reservation covers the quota it gives back
  have covered : ∀ q, a ∈ t.children q → (t.slots q).reserved =
      share (t.slots q) (t.slots a).quotaLimit + (refunded (t.slots q) (t.slots a).quotaLimit).reserved ∧
      (refunded (t.slots q) (t.slots a).quotaLimit).reserved = t'.pledged q := by
    intro q child
    have before := sound.reserved q
    have other : q ≠ a := by
      rintro rfl
      rw [childless] at child
      cases child
    unfold pledged at before ⊢
    rw [children, quotas, (kin q other).1.quota]
    simp only [refunded, share]
    by_cases unlimited : (t.slots q).quotaLimit = quotaUnlimited
    · simp only [if_pos unlimited] at before ⊢
      omega
    · rw [if_neg unlimited, ← Finset.add_sum_erase _ _ child] at before
      simp only [if_neg unlimited]
      omega
  refine sound_of_fair ?_ ?_ ?_ ?_ ?_ (died.highWater ▸ sound.bounded) ?_
  · intro q
    by_cases same : q = a
    · subst same
      rw [update_self]
      exact died.fair (sound.word q)
    · rw [update_of_ne same]
      by_cases parent : a ∈ t.children q
      · rw [died.parent q parent]
        exact (sound.fair q).refunded (covered q parent).1
      · rw [died.others q same parent]
        exact sound.fair q
  · intro q
    by_cases same : q = a
    · subst same
      rw [died.accounts.2.1, pledged, none, Finset.sum_empty, ite_self]
    · by_cases parent : a ∈ t.children q
      · rw [died.parent q parent]
        exact (covered q parent).2
      · rw [died.others q same parent, sound.reserved, pledged, pledged, children, quotas,
          (kin q same).1.quota, Finset.erase_eq_of_notMem parent]
  · intro q
    by_cases same : q = a
    · subst same
      rw [died.accounts.2.2, none, sound.counted, childless]
    · by_cases parent : a ∈ t.children q
      · rw [children, Finset.card_erase_of_mem parent, ← sound.counted, died.parent q parent, refunded]
      · rw [children, Finset.erase_eq_of_notMem parent, died.others q same parent]
        exact sound.counted q
  · intro q c child
    rw [children] at child
    obtain ⟨same, before⟩ := Finset.mem_erase.mp child
    have other : q ≠ a := by
      rintro rfl
      rw [childless] at before
      cases before
    have hosts := sound.hosted q c before
    exact hosts.of_kin (kin q other).1 (kin c same).1 (by rw [(kin q other).2]; exact hosts.standing)
  · intro q beyond
    by_cases same : q = a
    · subst same
      exact died.gone
    · rw [(kin q same).2]
      exact sound.unused q (died.highWater ▸ beyond)
  · have other : defaultArena ≠ a := by
      rintro rfl
      rcases died.closing with h | h <;> rw [sound.ambient] at h <;> cases h
    rw [(kin _ other).2]
    exact sound.ambient

/-! ## One operation -/

/-- A call is refused and changes nothing, or it goes through and leaves a table
with the property. -/
def Outcome {α : Type} (t : ArenaTable) (r : Except ArenaError α × ArenaTable)
    (good : ArenaTable → Prop) : Prop :=
  (∃ e, r = (.error e, t)) ∨ ∃ v t', r = (.ok v, t') ∧ good t'

theorem Outcome.refused {α : Type} (e : ArenaError) :
    Outcome (α := α) t (.error e, t) good := .inl ⟨e, rfl⟩

/-- Every operation on one arena looks its slot up first. -/
theorem Outcome.found {α : Type} {rest : ArenaSlot → Except ArenaError α × ArenaTable}
    (outcome : a < maxArenas → Outcome t (rest (t.slots a)) good) :
    Outcome t (match t.slot a with | none => (.error e, t) | some s => rest s) good := by
  split
  · exact .refused e
  · rename_i s found
    obtain ⟨inside, rfl⟩ := slot_eq_some found
    exact outcome inside

/-- A check that refuses the call. -/
theorem Outcome.unless {α : Type} [Decidable bad] {rest : Except ArenaError α × ArenaTable}
    (outcome : ¬ bad → Outcome t rest good) : Outcome t (if bad then (.error e, t) else rest) good := by
  split
  · exact .refused e
  · exact outcome ‹_›

section
variable (sound : Sound t ch)
include sound

theorem Sound.revised {α : Type} (v : α) (revises : Revises t a s' cs) :
    Outcome t (.ok v, t.set a s') (Sound · (update ch a cs)) :=
  .inr ⟨v, _, rfl, sound.revise revises⟩

/-- The same where the charges stay as they are. -/
theorem Sound.kept {α : Type} (v : α) (revises : Revises t a s' (ch a)) :
    Outcome t (.ok v, t.set a s') (Sound · ch) := by
  have kept := sound.revised v revises
  rwa [update_eq_self] at kept

/-- A move along the lifecycle that may drop the arena's own charges, as
`finish_reset` and `quarantine` do. -/
theorem Sound.revises_state (next : ArenaState) (resetGen : Nat)
    (live : (t.slots a).state ≠ .destroyed) (alive : next ≠ .destroyed)
    (own : committed = cs.sum + (t.slots a).reserved) (less : cs.sum ≤ (ch a).sum)
    (idle : next.isTerminal = true → cs = []) (started : next ≠ .initializing)
    (standing : next = .active ∨ next = .resetting ∨ next = .errorQuarantined ∨ t.children a = ∅)
    (ambient : a = defaultArena → next = .active) :
    Revises t a { t.slots a with committed, resetGen, state := next } cs where
  kin := ⟨rfl, rfl, rfl, rfl, rfl, iff_of_false alive live⟩
  reserved := rfl
  counted := rfl
  own := own
  within := by
    have before := sound.own a
    have limit := sound.within a
    show committed ≤ (t.slots a).quotaLimit
    omega
  idle := fun h => idle (h.resolve_right started)
  pending := fun h => absurd h started
  standing := standing
  ambient := ambient

theorem Sound.tryCharge (a size : Nat) :
    Outcome t (t.tryCharge a size) (Sound · (update ch a (size :: ch a))) := by
  unfold ArenaTable.tryCharge
  refine .found fun _ => .unless fun active => .unless fun _ => ?_
  split
  · exact .refused _
  rename_i next sum
  refine .unless fun fits => ?_
  obtain ⟨rfl, -⟩ := checkedAdd_eq_some.mp sum
  have state : (t.slots a).state = .active := by simpa using active
  have own := sound.own a
  refine sound.revised () ?_
  exact {
    kin := ⟨rfl, rfl, rfl, rfl, rfl, Iff.rfl⟩
    reserved := rfl
    counted := rfl
    own := by simp only [List.sum_cons]; omega
    within := by simpa using fits
    idle := by simp [state, ArenaState.isTerminal]
    pending := fun h => h
    standing := .inl state
    ambient := fun _ => state }

theorem Sound.standing (a : Nat) :
    (t.slots a).state = .active ∨ (t.slots a).state = .resetting ∨
      (t.slots a).state = .errorQuarantined ∨ t.children a = ∅ := by
  by_cases empty : t.children a = ∅
  · exact .inr (.inr (.inr empty))
  · obtain ⟨c, child⟩ := Finset.nonempty_iff_ne_empty.mpr empty
    rcases (sound.hosted a c child).standing with h | h | h
    · exact .inl h
    · exact .inr (.inl h)
    · exact .inr (.inr (.inl h))

/-- A credit that the quota set aside has no part in, which leaves `cs` outstanding. -/
theorem Sound.credit_to (apart : (t.slots a).reserved ≠ 0 → size ≤ (ch a).sum)
    (paid : cs.sum = (ch a).sum - size) (idle : ch a = [] → cs = []) :
    Sound (t.credit a size) (update ch a cs) := by
  by_cases inside : a < maxArenas
  · have own := sound.own a
    have within := sound.within a
    simp only [ArenaTable.credit, slot, if_pos inside]
    refine sound.revise ?_
    exact {
      kin := ⟨rfl, rfl, rfl, rfl, rfl, Iff.rfl⟩
      reserved := rfl
      counted := rfl
      own := by dsimp only; omega
      within := by dsimp only; omega
      idle := fun closed => idle (sound.idle a closed)
      pending := fun h => h
      standing := sound.standing a
      ambient := fun same => by subst same; exact sound.ambient }
  · -- no such arena, and nothing outstanding there
    have gone : (t.slots a).state = .destroyed := by
      by_contra live
      exact inside (Nat.lt_of_lt_of_le (sound.live_lt live) sound.bounded)
    have nothing : ch a = [] := sound.idle a (.inl (by rw [gone]; rfl))
    rw [idle nothing, ← nothing, update_eq_self]
    simpa only [ArenaTable.credit, slot, if_neg inside] using sound

/-- A credit that gives back an outstanding charge. -/
theorem Sound.credit (matched : size ∈ ch a) : Sound (t.credit a size) (update ch a ((ch a).erase size)) := by
  have rest := List.sum_erase matched
  refine sound.credit_to (fun _ => by omega) (by omega) fun nothing => ?_
  rw [nothing] at matched
  cases matched

theorem Sound.configure (a : Nat) (c : ArenaConfig) : Outcome t (t.configure a c) (Sound · ch) := by
  unfold ArenaTable.configure
  refine .found fun _ => .unless fun _ => sound.kept () ?_
  exact {
    kin := ⟨rfl, rfl, rfl, rfl, rfl, Iff.rfl⟩
    reserved := rfl
    counted := rfl
    own := sound.own a
    within := sound.within a
    idle := sound.idle a
    pending := fun h => h
    standing := sound.standing a
    ambient := fun same => by subst same; exact sound.ambient }

theorem Sound.publish (a : Nat) : Outcome t (t.publish a) (Sound · ch) := by
  unfold ArenaTable.publish
  refine .found fun _ => .unless fun starting => sound.kept () ?_
  have state : (t.slots a).state = .initializing := by simpa using starting
  exact sound.revises_state .active (t.slots a).resetGen (by simp [state]) (by simp) (sound.own a)
    (Nat.le_refl _) (by simp [ArenaState.isTerminal]) (by simp) (.inl rfl) (fun _ => rfl)

end

theorem live_of_transition {state next : ArenaState}
    (legal : ¬ state.canTransition next = false) : state ≠ .destroyed := by
  rintro rfl
  simp [ArenaState.canTransition] at legal

section
variable (sound : Sound t ch)
include sound

theorem Sound.beginReset (a : Nat) : Outcome t (t.beginReset a) (Sound · ch) := by
  unfold ArenaTable.beginReset transition
  refine .unless fun other => .found fun _ => .unless fun legal => sound.kept () ?_
  exact sound.revises_state .resetting (t.slots a).resetGen (live_of_transition legal) (by simp)
    (sound.own a) (Nat.le_refl _) (by simp [ArenaState.isTerminal]) (by simp) (.inr (.inl rfl))
    (fun same => absurd same other)

theorem Sound.finishReset (a : Nat) : Outcome t (t.finishReset a) (Sound · (update ch a [])) := by
  unfold ArenaTable.finishReset
  refine .found fun _ => .unless fun legal => sound.revised _ ?_
  exact sound.revises_state _ _ (live_of_transition legal) (by simp) (by simp) (Nat.zero_le _)
    (fun _ => rfl) (by simp) (.inl rfl) (fun _ => rfl)

theorem Sound.quarantine (a : Nat) : Outcome t (t.quarantine a) (Sound · (update ch a [])) := by
  unfold ArenaTable.quarantine
  refine .found fun _ => .unless fun legal => ?_
  have state : (t.slots a).state = .resetting ∨ (t.slots a).state = .draining := by
    cases h : (t.slots a).state <;> simp [h, ArenaState.canTransition] at legal ⊢
  exact sound.revised _ (sound.revises_state _ (t.slots a).resetGen
    (by rcases state with h | h <;> simp [h]) (by simp) (by simp) (Nat.zero_le _)
    (fun _ => rfl) (by simp) (.inr (.inr (.inl rfl))) (fun same => by
      subst same
      rcases state with h | h <;> rw [sound.ambient] at h <;> cases h))

theorem Sound.beginDestroy (a : Nat) : Outcome t (t.beginDestroy a) (Sound · ch) := by
  unfold ArenaTable.beginDestroy transition
  refine .unless fun other => .found fun _ => .unless fun childless => .found fun _ =>
    .unless fun legal => sound.kept () ?_
  have none : t.children a = ∅ := by
    rw [← Finset.card_eq_zero, ← sound.counted]
    simpa using childless
  exact sound.revises_state .draining (t.slots a).resetGen (live_of_transition legal) (by simp)
    (sound.own a) (Nat.le_refl _) (by simp [ArenaState.isTerminal]) (by simp)
    (.inr (.inr (.inr none))) (fun same => absurd same other)

theorem Sound.abandonPending (a : Nat) : Outcome t (t.abandonPending a) (Sound · ch) := by
  unfold ArenaTable.abandonPending
  refine .found fun _ => .unless fun starting => ?_
  have state : (t.slots a).state = .initializing := by simpa using starting
  have idle : ch a = [] := sound.idle a (.inr state)
  obtain ⟨committed, reserved, -⟩ := sound.committed_of_childless (sound.childless (a := a) (by simp [state]))
  rw [idle, List.sum_nil] at committed
  -- a pending arena was not delegated: nobody holds quota for it
  have orphan : ∀ q, a ∉ t.children q := by
    intro q child
    have parent := (mem_children.mp child).2.2
    simp [sound.pending a state] at parent
  refine .inr ⟨(), _, rfl, ?_⟩
  have dies : Died t (t.set a { t.slots a with
      state := .destroyed, rights := 0, generation := nextGeneration (t.slots a).generation }) a := {
    closing := .inl state
    gone := by simp
    accounts := by simp [committed, reserved]
    highWater := rfl
    quota := by simp
    parent := fun q child => absurd child (orphan q)
    others := fun q other _ => by simp [other] }
  have died := sound.died dies
  rwa [← idle, update_eq_self] at died

/-- Before a live arena is taken down its parent, if it has one, gets the quota
back; no other slot is touched. -/
theorem Sound.returnReservation (inside : a < maxArenas)
    (live : (t.slots a).state ≠ .destroyed) (apart : a ∉ t.children a) :
    (t.returnReservationToParent a).highWater = t.highWater ∧
    (∀ q, a ∈ t.children q →
      (t.returnReservationToParent a).slots q = refunded (t.slots q) (t.slots a).quotaLimit) ∧
    ∀ q, a ∉ t.children q → (t.returnReservationToParent a).slots q = t.slots q := by
  unfold returnReservationToParent
  cases link : (t.slots a).parent with
  | none =>
    refine ⟨rfl, fun q child => ?_, fun q _ => rfl⟩
    simp [mem_children, link] at child
  | some origin =>
    obtain ⟨p, g⟩ := origin
    have child : a ∈ t.children p := mem_children.mpr ⟨inside, live, by rw [link]; rfl⟩
    have only : ∀ q, a ∈ t.children q → q = p := by
      intro q childOf
      have parent := (mem_children.mp childOf).2.2
      simpa [link, eq_comm] using parent
    have hosts := sound.hosted p a child
    obtain rfl : g = (t.slots p).generation := by
      have linked := hosts.link
      simpa [link] using linked
    have other : a ≠ p := fun same => apart (same ▸ child)
    have parentLive : (t.slots p).state ≠ .destroyed := by
      rcases hosts.standing with h | h | h <;> simp [h]
    have parentInside : p < maxArenas := Nat.lt_of_lt_of_le (sound.live_lt parentLive) sound.bounded
    simp only [slot, if_pos parentInside, ne_eq, not_true_eq_false, if_false]
    have rest : ∀ q, a ∉ t.children q → q ≠ p := fun q none same => none (same ▸ child)
    by_cases unlimited : (t.slots p).quotaLimit = quotaUnlimited
    · rw [if_pos unlimited]
      refine ⟨rfl, fun q childOf => ?_, fun q none => ?_⟩
      · rw [only q childOf, set_slots, update_self, refunded, share, if_pos unlimited]
        rfl
      · rw [set_slots, update_of_ne (rest q none)]
    · have finite := hosts.finite unlimited
      rw [if_neg unlimited, set_slots, update_of_ne other, if_neg finite, releaseChildQuota, slot,
        if_pos parentInside]
      refine ⟨rfl, fun q childOf => ?_, fun q none => ?_⟩
      · simp only [only q childOf, set_slots, update_self, refunded, share, if_neg unlimited]
      · simp only [set_slots, update_of_ne (rest q none)]

theorem Sound.finishDestroy (a : Nat) : Outcome t (t.finishDestroy a) (Sound · (update ch a [])) := by
  unfold ArenaTable.finishDestroy
  refine .found fun inside => .unless fun legal => ?_
  have state : (t.slots a).state = .draining := by
    cases h : (t.slots a).state <;> simp [h, ArenaState.canTransition] at legal ⊢
  have live : (t.slots a).state ≠ .destroyed := by simp [state]
  refine .inr ⟨_, _, rfl, sound.died (a := a) ?_⟩
  have apart : ∀ q, a ∈ t.children q → q ≠ a := by
    rintro q child rfl
    have := (sound.hosted q q child).standing
    simp [state] at this
  have orphan : a ∉ t.children a := fun child => apart a child rfl
  obtain ⟨highWater, parent, others⟩ := sound.returnReservation inside live orphan
  exact {
    closing := .inr state
    gone := by simp
    accounts := by simp [others a orphan]
    highWater := highWater
    quota := by simp [others a orphan]
    parent := fun q child => by simpa [apart q child] using parent q child
    others := fun q other child => by simpa [other] using others q child }

end

/-! ## Claiming a slot -/

theorem claimSlot_cases (unused : ∀ a, t.highWater ≤ a → (t.slots a).state = .destroyed)
    (bounded : t.highWater ≤ maxArenas) :
    (∃ e, t.claimSlot = (.error e, t)) ∨
    ∃ a highWater, t.claimSlot = (.ok a, { t with highWater }) ∧ (t.slots a).state = .destroyed ∧
      a < highWater ∧ t.highWater ≤ highWater ∧ highWater ≤ maxArenas := by
  unfold ArenaTable.claimSlot
  split
  · exact .inr ⟨_, _, rfl, unused _ (Nat.le_refl _), by omega, by omega, by omega⟩
  · split
    · rename_i a found
      have listed := List.mem_of_find?_eq_some found
      have free := List.find?_some found
      simp only [List.mem_range'_1] at listed
      refine .inr ⟨a, t.highWater, rfl, by simpa using free, ?_, Nat.le_refl _, bounded⟩
      unfold maxArenas at *
      omega
    · exact .inl ⟨_, rfl⟩

/-- A new arena without a parent. -/
theorem Sound.createLockedInner (sound : Sound t ch) (p : ArenaPolicy) (publish : Bool) :
    Outcome t (t.createLockedInner p none publish) (Sound · ch) := by
  unfold ArenaTable.createLockedInner
  rcases claimSlot_cases sound.unused sound.bounded with ⟨e, refused⟩ | ⟨a, highWater, claimed, vacant, room⟩
  · rw [refused]
    exact .refused e
  · rw [claimed]
    refine .inr ⟨_, _, rfl, sound.born (a := a) ?_⟩
    exact {
      vacant := vacant
      room := by simpa using room
      state := by cases publish <;> simp [incarnate]
      accounts := by simp [incarnate]
      named := by simpa [incarnate] using nextGeneration_ne_zero _
      word := by simpa [incarnate] using p.quota_le
      apart := by simp [incarnate]
      child := fun q parent => by simp [incarnate] at parent
      others := fun q other _ => by simp [other] }

theorem Sound.create (sound : Sound t ch) (p : ArenaPolicy) : Outcome t (t.create p) (Sound · ch) := by
  unfold ArenaTable.create
  exact .unless fun _ => sound.createLockedInner p true

theorem Sound.createPending (sound : Sound t ch) (p : ArenaPolicy) :
    Outcome t (t.createPending p) (Sound · ch) := by
  unfold ArenaTable.createPending
  exact .unless fun _ => sound.createLockedInner p false

/-! ## Delegation -/

/-- The parent with the quota of a child set aside, before the child is there. -/
def earmarked (s : ArenaSlot) (quota : Nat) : ArenaSlot :=
  { s with committed := s.committed + share s quota, reserved := s.reserved + share s quota }

/-- The reservation step of a delegation, for a finite and an unlimited parent. -/
theorem Sound.reserve (sound : Sound t ch) (inside : p < maxArenas) (quota : Nat) :
    (∃ e, (if (t.slots p).quotaLimit ≠ quotaUnlimited then t.reserveChildQuota p quota
      else (.ok (), t)) = (.error e, t)) ∨
    (if (t.slots p).quotaLimit ≠ quotaUnlimited then t.reserveChildQuota p quota
      else (.ok (), t)) = (.ok (), t.set p (earmarked (t.slots p) quota)) ∧
    (t.slots p).committed + share (t.slots p) quota ≤ (t.slots p).quotaLimit := by
  by_cases unlimited : (t.slots p).quotaLimit = quotaUnlimited
  · refine .inr ⟨?_, ?_⟩
    · have same : earmarked (t.slots p) quota = t.slots p := by
        simp only [earmarked, share, if_pos unlimited, Nat.add_zero]
      rw [if_neg (by simpa using unlimited), same, set, update_eq_self]
    · rw [share, if_pos unlimited]
      exact sound.within p
  · simp only [ne_eq, unlimited, not_false_eq_true, if_true, reserveChildQuota, slot, if_pos inside]
    split
    · exact .inl ⟨_, rfl⟩
    rename_i next sum
    obtain ⟨rfl, representable⟩ := checkedAdd_eq_some.mp sum
    split
    · exact .inl ⟨_, rfl⟩
    rename_i fits
    have own := sound.own p
    have added : wrappingAdd64 (t.slots p).reserved quota = (t.slots p).reserved + quota := by
      unfold wrappingAdd64
      unfold usizeMax at representable
      omega
    refine .inr ⟨?_, ?_⟩
    · rw [added, earmarked, share, if_neg unlimited]
    · rw [share, if_neg unlimited]
      omega

/-- What a failed delegation set aside goes back in full. -/
theorem release_earmarked (inside : p < maxArenas) (quota : Nat) :
    (if (t.slots p).quotaLimit ≠ quotaUnlimited then
      (t.set p (earmarked (t.slots p) quota)).releaseChildQuota p quota
      else t.set p (earmarked (t.slots p) quota)) = t := by
  by_cases unlimited : (t.slots p).quotaLimit = quotaUnlimited
  · have same : earmarked (t.slots p) quota = t.slots p := by
      simp only [earmarked, share, if_pos unlimited, Nat.add_zero]
    rw [if_neg (by simpa using unlimited), same, set, update_eq_self]
  · rw [if_pos unlimited, releaseChildQuota, slot, if_pos inside]
    simp only [set, update_self, update_idem, earmarked, share, if_neg unlimited,
      Nat.add_sub_cancel, update_eq_self]

theorem born_child (d : Delegation) (active : (t.slots p).state = .active)
    (rights : containsRights (t.slots p).rights d.rights = true) (label : d.label = (t.slots p).label)
    (finite : (t.slots p).quotaLimit ≠ quotaUnlimited → d.quotaLimit ≠ quotaUnlimited)
    (fits : (t.slots p).committed + share (t.slots p) d.quotaLimit ≤ (t.slots p).quotaLimit)
    (vacant : (t.slots a).state = .destroyed)
    (room : a < t'.highWater ∧ t.highWater ≤ t'.highWater ∧ t'.highWater ≤ maxArenas)
    (child : t'.slots a = incarnate (t.slots a) d.policy (some (p, (t.slots p).generation)) true)
    (parent : t'.slots p = funded (t.slots p) d.quotaLimit)
    (others : ∀ q, q ≠ a → q ≠ p → t'.slots q = t.slots q) : Born t t' a where
  vacant := vacant
  room := room
  state := .inl (by rw [child]; rfl)
  accounts := by rw [child]; exact ⟨rfl, rfl, rfl⟩
  named := by rw [child]; exact nextGeneration_ne_zero _
  word := by rw [child]; exact d.quota_le
  apart := by
    rw [child]
    simp only [incarnate, Option.map_some, ne_eq, Option.some.injEq]
    rintro rfl
    rw [active] at vacant
    cases vacant
  child := by
    intro q origin
    rw [child] at origin ⊢
    obtain rfl : p = q := by simpa [incarnate] using origin
    exact ⟨⟨.inl active, rfl, rights, label, finite⟩, parent, fits⟩
  others := by
    intro q away stranger
    refine others q away ?_
    rintro rfl
    rw [child] at stranger
    exact stranger rfl

theorem Sound.grantChild (sound : Sound t ch) (d : Delegation) (active : (t.slots p).state = .active)
    (rights : containsRights (t.slots p).rights d.rights = true) (label : d.label = (t.slots p).label)
    (finite : (t.slots p).quotaLimit ≠ quotaUnlimited → d.quotaLimit ≠ quotaUnlimited) :
    Outcome t (t.grantChild p (t.slots p) d) (Sound · ch) := by
  have live : (t.slots p).state ≠ .destroyed := by simp [active]
  have inside : p < maxArenas := Nat.lt_of_lt_of_le (sound.live_lt live) sound.bounded
  unfold ArenaTable.grantChild
  dsimp only
  rcases sound.reserve inside d.quotaLimit with ⟨e, refused⟩ | ⟨reserved, fits⟩
  · rw [refused]
    exact .refused e
  rw [reserved]
  have unused : ∀ a, (t.set p (earmarked (t.slots p) d.quotaLimit)).highWater ≤ a →
      ((t.set p (earmarked (t.slots p) d.quotaLimit)).slots a).state = .destroyed := by
    intro a beyond
    have gone := sound.unused a beyond
    have other : a ≠ p := fun same => live (same ▸ gone)
    rwa [set_slots, update_of_ne other]
  simp only [ArenaTable.createLockedInner]
  rcases claimSlot_cases unused sound.bounded with ⟨e, refused⟩ | ⟨a, highWater, claimed, vacant, room⟩
  · rw [refused]
    dsimp only
    rw [release_earmarked inside]
    exact .refused e
  rw [claimed]
  have other : a ≠ p := by
    rintro rfl
    simp [earmarked, active] at vacant
  simp only [set_slots, update_of_ne other] at vacant
  simp only [slot, if_pos inside]
  refine .inr ⟨_, _, rfl, sound.born (born_child d active rights label finite fits vacant room
    (by simp [other]) ?_ fun q away distinct => by simp [away, distinct])⟩
  simp [Ne.symm other, funded, earmarked]

theorem Sound.delegate (sound : Sound t ch) (p : Nat) (d : Delegation) :
    Outcome t (t.delegate p d) (Sound · ch) := by
  unfold ArenaTable.delegate
  refine .found fun _ => .unless fun active => .unless fun rights => .unless fun enough =>
    .unless fun label => .unless fun _ => ?_
  refine sound.grantChild d (by simpa using active) (by simpa using rights) (by simpa using label) ?_
  intro limited same
  unfold ArenaSlot.remainingQuota at enough
  rw [if_neg limited] at enough
  have word := sound.word p
  omega

/-! ## Whole runs -/

theorem Outcome.step {α : Type} {r : Except ArenaError α × ArenaTable}
    (outcome : Outcome t r (Sound · ch')) (is : t.step op = r.map failure id)
    (ledger : ch.after none op = ch') :
    (∃ e, t.step op = (some e, t)) ∨ ∃ t', t.step op = (none, t') ∧ Sound t' (ch.after none op) := by
  rcases outcome with ⟨e, refused⟩ | ⟨v, t', went, good⟩
  · exact .inl ⟨e, by rw [is, refused]; rfl⟩
  · exact .inr ⟨t', by rw [is, went]; rfl, ledger ▸ good⟩

/-- An operation other than an unmatched credit is refused without a trace, or
it keeps the table sound. -/
theorem Sound.step_cases (sound : Sound t ch) (op : Op) (matched : ch.Matched op) :
    (∃ e, t.step op = (some e, t)) ∨ ∃ t', t.step op = (none, t') ∧ Sound t' (ch.after none op) := by
  cases op with
  | create p => exact (sound.create p).step rfl rfl
  | createPending p => exact (sound.createPending p).step rfl rfl
  | publish a => exact (sound.publish a).step rfl rfl
  | abandonPending a => exact (sound.abandonPending a).step rfl rfl
  | delegate p d => exact (sound.delegate p d).step rfl rfl
  | tryCharge a size => exact (sound.tryCharge a size).step rfl rfl
  | credit a size => exact .inr ⟨_, rfl, sound.credit matched⟩
  | configure a c => exact (sound.configure a c).step rfl rfl
  | beginReset a => exact (sound.beginReset a).step rfl rfl
  | finishReset a => exact (sound.finishReset a).step rfl rfl
  | beginDestroy a => exact (sound.beginDestroy a).step rfl rfl
  | finishDestroy a => exact (sound.finishDestroy a).step rfl rfl
  | quarantine a => exact (sound.quarantine a).step rfl rfl

theorem Sound.step (sound : Sound t ch) (op : Op) (matched : ch.Matched op) :
    Sound (t.step op).2 (ch.after (t.step op).1 op) := by
  rcases sound.step_cases op matched with ⟨e, refused⟩ | ⟨t', went, good⟩
  · rw [refused]
    exact sound
  · rw [went]
    exact good

theorem Sound.unchanged_of_error (sound : Sound t ch) (failed : t.step op = (some e, t')) : t' = t := by
  by_cases credit : ∃ a size, op = .credit a size
  · obtain ⟨a, size, rfl⟩ := credit
    cases failed
  · have matched : ch.Matched op := by
      cases op with
      | credit a size => exact absurd ⟨a, size, rfl⟩ credit
      | _ => trivial
    rcases sound.step_cases op matched with ⟨e, refused⟩ | ⟨_, went, -⟩
    · rw [refused] at failed
      cases failed
      rfl
    · rw [went] at failed
      cases failed

theorem children_new (p : Nat) : ArenaTable.new.children p = ∅ := by
  refine Finset.eq_empty_of_forall_notMem fun c child => ?_
  obtain ⟨-, live, parent⟩ := mem_children.mp child
  by_cases same : c = defaultArena
  · subst same
    simp [new] at parent
  · simp [new, same] at live

theorem sound_new : Sound ArenaTable.new fun _ => [] := by
  have slots : ∀ a, (ArenaTable.new.slots a).committed = 0 ∧ (ArenaTable.new.slots a).reserved = 0 ∧
      (ArenaTable.new.slots a).liveChildren = 0 ∧
      (ArenaTable.new.slots a).quotaLimit = quotaUnlimited ∧
      (ArenaTable.new.slots a).state = if a = defaultArena then .active else .destroyed := by
    intro a
    by_cases same : a = defaultArena <;> simp [new, same]
  refine ⟨?_, ?_, ?_, ?_, ?_, ?_, ?_, ?_, ?_, by decide, by decide, ?_⟩
  · intro a
    rw [(slots a).1, (slots a).2.1]
    rfl
  · intro a
    rw [(slots a).1]
    exact Nat.zero_le _
  · intro a
    rw [(slots a).2.1, pledged, if_pos (slots a).2.2.2.1]
  · intro a
    rw [(slots a).2.2.1, children_new, Finset.card_empty]
  · intro p c child
    rw [children_new] at child
    cases child
  · exact fun _ _ => rfl
  · intro a starting
    rw [(slots a).2.2.2.2] at starting
    split at starting <;> cases starting
  · intro a live
    rw [(slots a).2.2.2.2] at live
    split at live
    · rename_i same
      subst same
      decide
    · exact absurd rfl live
  · intro a beyond
    have other : a ≠ defaultArena := by
      rintro rfl
      exact absurd beyond (by decide)
    rw [(slots a).2.2.2.2, if_neg other]
  · intro a
    rw [(slots a).2.2.2.1]

theorem Reachable.sound (reached : Reachable t ch) : Sound t ch := by
  induction reached with
  | new => exact sound_new
  | step op _ matched ih => exact ih.step op matched

/-! ## What soundness says -/

theorem Sound.checkInvariants (sound : Sound t ch) : t.checkInvariants = true := by
  have registered : t.isRegistered defaultArena = true := by
    simp [isRegistered, slot, show defaultArena < maxArenas by decide, sound.ambient]
  simp only [ArenaTable.checkInvariants, registered, Bool.true_and, Bool.and_eq_true,
    decide_eq_true_eq, List.all_eq_true, List.mem_range]
  refine ⟨sound.bounded, fun a _ => ?_⟩
  have own := sound.own a
  simp only [slotSound, Bool.and_eq_true, decide_eq_true_eq, Bool.not_eq_true', Bool.and_eq_false_iff]
  refine ⟨⟨sound.within a, ?_⟩, ?_⟩
  · by_cases terminal : (t.slots a).state.isTerminal = true
    · rw [sound.idle a (.inl terminal), List.sum_nil] at own
      exact .inr (by simp; omega)
    · exact .inl (by simpa using terminal)
  · by_cases gone : (t.slots a).state = .destroyed
    · exact .inl (by simpa using gone)
    · exact .inr (by simpa using sound.named a gone)

/-- Delegation hands down no unlimited quota below a finite one. -/
theorem Sound.finite_of_descends (sound : Sound t ch)
    (finite : (t.slots root).quotaLimit ≠ quotaUnlimited) (below : t.Descends root c) :
    (t.slots c).quotaLimit ≠ quotaUnlimited := by
  induction below with
  | refl => exact finite
  | tail _ child ih => exact (sound.hosted _ _ child).finite ih

/-- The charges of the arenas below a finite one stay within its quota. -/
theorem Sound.subtree_le (sound : Sound t ch) (finite : (t.slots root).quotaLimit ≠ quotaUnlimited)
    (below : ∀ c ∈ members, t.Descends root c) :
    ∑ c ∈ members, (ch c).sum ≤ (t.slots root).quotaLimit := by
  classical
  -- sum over everything below the root, where each node's quota covers its children's
  let all : Finset Nat := insert root {c ∈ Finset.range maxArenas | t.Descends root c}
  let parent : Nat → Option Nat := fun c =>
    if (t.slots c).state = .destroyed then none else (t.slots c).parent.map Prod.fst
  have listed : ∀ c, t.Descends root c → c ∈ all := by
    intro c descends
    rcases Relation.ReflTransGen.cases_tail descends with rfl | ⟨b, -, child⟩
    · exact Finset.mem_insert_self _ _
    · exact Finset.mem_insert_of_mem (Finset.mem_filter.mpr
        ⟨Finset.mem_range.mpr (mem_children.mp child).1, descends⟩)
  have descends : ∀ c ∈ all, t.Descends root c := by
    intro c member
    rcases Finset.mem_insert.mp member with rfl | member
    · exact .refl
    · exact (Finset.mem_filter.mp member).2
  have covered : ∀ a ∈ all, (ch a).sum + ∑ c ∈ all with parent c = some a, (t.slots c).quotaLimit ≤
      (t.slots a).quotaLimit := by
    intro a member
    have own := sound.own a
    have within := sound.within a
    have reserved := sound.reserved a
    rw [pledged, if_neg (sound.finite_of_descends finite (descends a member))] at reserved
    have fewer : ∑ c ∈ all with parent c = some a, (t.slots c).quotaLimit ≤
        ∑ c ∈ t.children a, (t.slots c).quotaLimit := by
      refine Finset.sum_le_sum_of_subset fun c chosen => ?_
      have origin : parent c = some a := (Finset.mem_filter.mp chosen).2
      by_cases gone : (t.slots c).state = .destroyed
      · simp [parent, gone] at origin
      · simp only [parent, if_neg gone] at origin
        exact mem_children.mpr ⟨Nat.lt_of_lt_of_le (sound.live_lt gone) sound.bounded, gone, origin⟩
    omega
  have linked : ∀ c ∈ all, c ≠ root → ∃ a ∈ all, parent c = some a := by
    intro c member other
    rcases Relation.ReflTransGen.cases_tail (descends c member) with rfl | ⟨b, above, child⟩
    · exact absurd rfl other
    · obtain ⟨-, live, origin⟩ := mem_children.mp child
      exact ⟨b, listed b above, by simp only [parent, if_neg live, origin]⟩
  calc ∑ c ∈ members, (ch c).sum
      ≤ ∑ c ∈ all, (ch c).sum := Finset.sum_le_sum_of_subset fun c member => listed c (below c member)
    _ ≤ (t.slots root).quotaLimit :=
      Budget.sum_spent_le (fun c => (t.slots c).quotaLimit) covered (Finset.mem_insert_self _ _) linked

/-- In every state reached by operations whose credits give back outstanding
charges: quota, reservations and child counts agree with the ledger and the tree,
authority only narrows downwards, and a refused operation leaves no trace. -/
theorem quota_of_reachable (reached : Reachable t ch) :
    (∀ a, (t.slots a).committed ≤ (t.slots a).quotaLimit) ∧
    (∀ a, (t.slots a).committed = (ch a).sum + (t.slots a).reserved ∧ (t.slots a).reserved = t.pledged a) ∧
    (∀ a, (t.slots a).liveChildren = (t.children a).card) ∧
    (∀ root, (t.slots root).quotaLimit ≠ quotaUnlimited → ∀ members : Finset Nat,
      (∀ c ∈ members, t.Descends root c) →
      ∑ c ∈ members, (ch c).sum ≤ (t.slots root).quotaLimit) ∧
    (∀ p, ∀ c ∈ t.children p, containsRights (t.slots p).rights (t.slots c).rights = true ∧
      (t.slots c).label = (t.slots p).label) ∧
    t.checkInvariants = true ∧
    ∀ op e t', t.step op = (some e, t') → t' = t := by
  have sound := reached.sound
  refine ⟨sound.within, fun a => ⟨sound.own a, sound.reserved a⟩, sound.counted, ?_, ?_,
    sound.checkInvariants, fun _ _ _ failed => sound.unchanged_of_error failed⟩
  · intro root finite members below
    exact sound.subtree_le finite below
  · intro p c child
    exact ⟨(sound.hosted p c child).rights, (sound.hosted p c child).label⟩

/-- The table after operations that all go through. -/
def runOk (t : ArenaTable) : List Op → Option ArenaTable
  | [] => some t
  | op :: rest =>
    match t.step op with
    | (none, t) => t.runOk rest
    | (some _, _) => none

/-- An arena of 100 bytes that delegated 50 of them and holds 10 of its own. -/
def family : List Op :=
  [.create { rights := rightsAll, label := 0, quotaLimit := 100 },
   .delegate 1 { rights := rightAlloc, label := 0, quotaLimit := 50 },
   .tryCharge 1 10]

theorem quota_of_reachable_family :
    ∃ t ch, Reachable t ch ∧ ArenaTable.new.runOk family = some t ∧ (t.slots 1).committed = 60 ∧
      t.children 1 = {2} ∧ (ch 1).sum + (ch 2).sum ≤ 100 := by
  have reached := ((Reachable.new.step (.create { rights := rightsAll, label := 0, quotaLimit := 100 })
    trivial).step (.delegate 1 { rights := rightAlloc, label := 0, quotaLimit := 50 }) trivial).step
    (.tryCharge 1 10) trivial
  have descends := (quota_of_reachable reached).2.2.2.1 1 (by decide +kernel) {1, 2} (by
    intro c member
    rcases Finset.mem_insert.mp member with rfl | member
    · exact .refl
    · rw [Finset.mem_singleton.mp member]
      exact .single (by decide +kernel))
  refine ⟨_, _, reached, rfl, by decide +kernel, by decide +kernel, ?_⟩
  exact Nat.le_trans (Nat.le_of_eq (by simp)) (Nat.le_trans descends (by decide +kernel))

/-- A reset keeps the generation but forgets the charges. A credit for one of
them, made after the reset, is taken out of the quota held for the child, and
parent and child can then charge more than the parent was given. -/
theorem credit_after_reset_overcommits :
    (∃ t, ArenaTable.new.runOk (family ++ [.beginReset 1, .finishReset 1]) = some t ∧
      (t.slots 1).generation = 1 ∧ (t.slots 1).committed = 50 ∧ (t.slots 1).reserved = 50) ∧
    (∃ t, ArenaTable.new.runOk (family ++ [.beginReset 1, .finishReset 1, .credit 1 10]) = some t ∧
      (t.slots 1).generation = 1 ∧ (t.slots 1).committed = 40 ∧ (t.slots 1).reserved = 50) ∧
    ∃ t, ArenaTable.new.runOk (family ++ [.beginReset 1, .finishReset 1, .credit 1 10,
        .tryCharge 1 60, .tryCharge 2 50]) = some t ∧
      (t.slots 1).quotaLimit = 100 ∧ t.children 1 = {2} ∧ (t.slots 2).committed = 50 := by
  refine ⟨⟨_, rfl, ?_⟩, ⟨_, rfl, ?_⟩, _, rfl, ?_⟩ <;> decide +kernel

end Topomalloc.ArenaTable
