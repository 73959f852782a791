import Topomalloc.Large.Drain

/-! Calls of the large allocator that succeed. -/
namespace Topomalloc
namespace Engine
variable {σ : Type} {G : Grounds σ} {E : Env σ} {s s' : Engine σ} {live : Set Nat} {held : Set Region}
  {j : Nat}

/-- Slot `j` was written, and no other allocation changed. -/
def Wrote (s s' : Engine σ) (j : Nat) : Prop :=
  (∀ i, i ∈ s'.liveLarge ↔ i = j ∨ i ∈ s.liveLarge) ∧
    ∀ i ∈ s.liveLarge, i ≠ j → s'.largeSlot i = s.largeSlot i

/-- Slot `j` is a new allocation of the arena at `ptr`. -/
def Enters (s s' : Engine σ) (arena ptr j : Nat) : Prop :=
  j ∉ s.liveLarge ∧ Wrote s s' j ∧ (s'.largeSlot j).base = ptr ∧ (s'.largeSlot j).arena = arena

/-- The allocation in slot `j` at `ptr` went on with another usable size, the request
rounded up to pages. -/
def Resizes (s s' : Engine σ) (ptr request usable j : Nat) : Prop :=
  j ∈ s.liveLarge ∧ Wrote s s' j ∧ (s.largeSlot j).base = ptr ∧
    s'.largeSlot j = { s.largeSlot j with usable } ∧ alignUp (max request 1) pageSize = some usable

/-- What an allocation or a resize that succeeds does. -/
structure Serves (E : Env σ) (s : Engine σ) : Prop where
  allocate : ∀ arena bytes align hints zero ptr s',
    s.allocateWithIn E arena bytes align hints zero = (some ptr, s') →
    ∃ j, Enters s s' arena ptr j ∧ bytes ≤ (s'.largeSlot j).usable ∧ align ∣ ptr ∧
      (s'.largeSlot j).guarded = false
  guarded : ∀ arena size align ptr s', s.allocateGuarded E arena size align = (some ptr, s') →
    ∃ j, Enters s s' arena ptr j ∧ alignUp (max size 1) (max align 1) = some (s'.largeSlot j).usable ∧
      (align ∣ pageSize → align ∣ ptr) ∧ (s'.largeSlot j).guarded = true
  shrink : ∀ ptr request freed s', s.shrink E ptr request = (some freed, s') →
    ∃ j usable, Resizes s s' ptr request usable j ∧ usable + freed = (s.largeSlot j).usable ∧ 0 < freed
  grow : ∀ ptr request gained s', s.grow E ptr request = (some gained, s') →
    ∃ j usable, Resizes s s' ptr request usable j ∧ usable = (s.largeSlot j).usable + gained ∧ 0 < gained

theorem Stands.wrote (stands : Stands G s live held) (stands' : Stands G s' (insert j live) held')
    (slots : ∀ i ∈ live, i ≠ j → s'.large.slots i = s.large.slots i) : Wrote s s' j := by
  refine ⟨fun i => ?_, fun i member => slots i (stands.mem_liveLarge.mp member)⟩
  rw [stands'.mem_liveLarge, stands.mem_liveLarge, Set.mem_insert_iff]

theorem Added.enters (added : Added G s s' live held j) (stands : Stands G s live held)
    (based : (s'.large.slots j).base = ptr) (owned : (s'.large.slots j).arena = arena) :
    Enters s s' arena ptr j := by
  obtain ⟨_, stands', -⟩ := added.stands
  exact ⟨mt stands.mem_liveLarge.mp added.fresh, stands.wrote stands' fun i member _ =>
    added.slots i member, based, owned⟩

theorem Resized.resizes (resized : Resized G s s' live j usable)
    (stands : Stands G s live held) (here : s.IsLarge live j ptr)
    (rounded : alignUp (max request 1) pageSize = some usable) : Resizes s s' ptr request usable j := by
  obtain ⟨_, stands'⟩ := resized.stands
  rw [← Set.insert_eq_of_mem here.1] at stands'
  exact ⟨stands.mem_liveLarge.mpr here.1, stands.wrote stands' resized.slots, here.2, resized.slot, rounded⟩

/-- In every state of the allocator, whatever else the engine did in between, a call that
succeeds does to one allocation what it was asked for, and to the others nothing. -/
theorem calls_serve (state : LargeState G E s) (sound : G.Sound E) : Serves E s := by
  obtain ⟨live, held, stands⟩ := state.stands sound
  constructor
  · intro arena bytes align hints zero ptr s' ran
    obtain ⟨j, added, based, owned, rest⟩ := stands.allocateWithIn sound ran
    exact ⟨j, added.enters stands based owned, rest⟩
  · intro arena size align ptr s' ran
    obtain ⟨j, added, based, owned, rest⟩ := stands.allocateGuarded sound ran
    exact ⟨j, added.enters stands based owned, rest⟩
  · intro ptr request freed s' ran
    obtain ⟨-, j, usable, here, -, rounded, less, rfl, resized⟩ := stands.shrink sound ran
    exact ⟨j, usable, resized.resizes stands here rounded, Nat.add_sub_cancel' less.le,
      Nat.sub_pos_of_lt less⟩
  · intro ptr request gained s' ran
    obtain ⟨-, j, usable, here, -, rounded, more, rfl, resized⟩ := stands.grow sound ran
    exact ⟨j, usable, resized.resizes stands here rounded, (Nat.add_sub_cancel' more.le).symm,
      Nat.sub_pos_of_lt more⟩

/-- One page is allocated, then an arena is created, and the page can grow. -/
theorem calls_serve_single : ∃ g s, ExtentManager.fourPages = some g ∧
    s = (((single g).largeStep .willing (.allocate 0 pageSize pageSize {} false)).arenaCreate .free).2 ∧
    s.liveLarge = [0] ∧ (s.grow .willing pageSize (2 * pageSize)).1 = some pageSize ∧
    Serves .willing s := by
  have made := Option.some_get (x := ExtentManager.fourPages) (by decide +kernel)
  have sound := Grounds.uncached_sound (σ := Unit) (E := .willing) ⟨pageSize, 4 * pageSize⟩ rfl
  refine ⟨_, _, made.symm, rfl, by decide +kernel, by decide +kernel, calls_serve ?_ sound⟩
  exact .arenaCreate (.call (.opened (single_opened made.symm)) _) sound _

end Engine
end Topomalloc
