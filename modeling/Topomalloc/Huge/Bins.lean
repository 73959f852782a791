import Topomalloc.Lib.Links
import Topomalloc.Huge.Filler

/-! The bin lists of the hugepage filler. `Lists` says which hugepages the
links spell; `core` is the filler with all links erased. Refiling a hugepage
puts it in the bin its contents name, at the end of the list that keeps the
hugepages with room in front of the full ones. -/
namespace Topomalloc
open Function

/-- The slot with its links erased. -/
def HugePageSlot.body (s : HugePageSlot) : HugePageSlot := { s with binPrev := 0, binNext := 0 }

namespace HugePageFiller

/-- The filler with every link and list end erased. -/
def core (f : HugePageFiller) : HugePageFiller :=
  { f with slots := fun i => (f.slots i).body, bins := fun _ => 0, binTails := fun _ => 0 }

def binTable (f : HugePageFiller) : Links.Table HugeBin Nat :=
  { head := f.bins, tail := f.binTails, next := fun i => (f.slots i).binNext,
    prev := fun i => (f.slots i).binPrev }

variable {f f' : HugePageFiller} {i j v n : Nat} {b c : HugeBin} {s : HugePageSlot}
  {S : Nat → Prop} {L : HugeBin → List Nat}

/-! ## Link writes as table writes -/

theorem core_put : (f.put i s).core = f.core.put i s.body := by
  simp only [core, put, HugePageFiller.mk.injEq, and_true]
  exact comp_update HugePageSlot.body f.slots i s

theorem binTable_put :
    (f.put i s).binTable =
      { f.binTable with
        next := update f.binTable.next i s.binNext
        prev := update f.binTable.prev i s.binPrev } := by
  simp only [binTable, put]
  congr 1
  · exact comp_update HugePageSlot.binNext f.slots i s
  · exact comp_update HugePageSlot.binPrev f.slots i s

@[simp] theorem core_put_self : f.core.put i (f.slots i).body = f.core := by
  simp [put, core]

@[simp] theorem setBinPrev_core : (f.setBinPrev i v).core = f.core := core_put.trans core_put_self

@[simp] theorem setBinNext_core : (f.setBinNext i v).core = f.core := core_put.trans core_put_self

@[simp] theorem setBinHead_core : (f.setBinHead b v).core = f.core := rfl

@[simp] theorem setBinTail_core : (f.setBinTail b v).core = f.core := rfl

@[simp] theorem setBinPrev_binTable :
    (f.setBinPrev i v).binTable = { f.binTable with prev := update f.binTable.prev i v } :=
  binTable_put.trans (congrArg (Links.Table.mk _ _ · _) (update_eq_self i f.binTable.next))

@[simp] theorem setBinNext_binTable :
    (f.setBinNext i v).binTable = { f.binTable with next := update f.binTable.next i v } :=
  binTable_put.trans (congrArg (Links.Table.mk _ _ _) (update_eq_self i f.binTable.prev))

@[simp] theorem setBinHead_binTable :
    (f.setBinHead b v).binTable = { f.binTable with head := update f.binTable.head b v } := rfl

@[simp] theorem setBinTail_binTable :
    (f.setBinTail b v).binTable = { f.binTable with tail := update f.binTable.tail b v } := rfl

/-- `bin_insert` only writes links, apart from the tag of the hugepage. -/
theorem binInsert_core : (f.binInsert i b).core = f.core.put i { f.slots i with bin := b }.body := by
  dsimp only [binInsert]
  split <;> split <;> simp [core_put, HugePageSlot.body]

@[simp] theorem binRemove_core : (f.binRemove i).core = f.core := by
  dsimp only [binRemove]
  split <;> split <;> simp

/-- A full hugepage is linked in after the last one of its bin. -/
theorem binInsert_table_full (full : (f.slots i).used ≥ pagesPerHugepage)
    (last : f.binTable.nx NIL b (f.binTails b) = NIL) :
    (f.binInsert i b).binTable = f.binTable.insertAfter NIL b (f.binTails b) i := by
  have guard : ({ f.slots i with bin := b } : HugePageSlot).used ≥ pagesPerHugepage := full
  dsimp only [binInsert, get]
  rw [if_pos guard]
  simp only [Links.Table.insertAfter, last]
  by_cases empty : f.binTails b = NIL <;>
    simp [empty, Links.Table.setNext, Links.Table.setPrev, binTable_put]

/-- Any other hugepage is linked in before the first one. -/
theorem binInsert_table_room (room : ¬ (f.slots i).used ≥ pagesPerHugepage) :
    (f.binInsert i b).binTable = f.binTable.insertAfter NIL b NIL i := by
  have guard : ¬ ({ f.slots i with bin := b } : HugePageSlot).used ≥ pagesPerHugepage := room
  dsimp only [binInsert, get]
  rw [if_neg guard]
  by_cases empty : f.bins b = NIL <;>
    simp [empty, Links.Table.insertAfter, Links.Table.setNext, Links.Table.setPrev, Links.Table.nx,
      binTable_put] <;> simp [empty, binTable]

theorem binRemove_table : (f.binRemove i).binTable = f.binTable.remove NIL (f.slots i).bin i := by
  dsimp only [binRemove, get]
  by_cases first : (f.slots i).binPrev = NIL <;> by_cases last : (f.slots i).binNext = NIL <;>
    simp only [first, last, ne_eq, not_true_eq_false, not_false_eq_true, ↓reduceIte,
      setBinHead_binTable, setBinTail_binTable, setBinNext_binTable, setBinPrev_binTable] <;>
    simp [first, last, Links.Table.remove, Links.Table.setNext, Links.Table.setPrev, binTable]

/-! ## What the slots keep -/

/-- Equal cores have equal bodies everywhere. -/
theorem body_of_core (same : f'.core = f.core) (i : Nat) : (f'.slots i).body = (f.slots i).body :=
  congrArg (fun g : HugePageFiller => g.slots i) same

theorem binRemove_body (j : Nat) : ((f.binRemove i).slots j).body = (f.slots j).body :=
  body_of_core binRemove_core j

theorem binInsert_body_self : ((f.binInsert i b).slots i).body = { f.slots i with bin := b }.body := by
  have here := congrArg (fun g : HugePageFiller => g.slots i) (binInsert_core (f := f) (i := i) (b := b))
  simpa [put, core] using here

theorem binInsert_body_other (other : j ≠ i) : ((f.binInsert i b).slots j).body = (f.slots j).body := by
  have there := congrArg (fun g : HugePageFiller => g.slots j) (binInsert_core (f := f) (i := i) (b := b))
  simpa [put, core, other] using there

end HugePageFiller

/-- A field the links do not touch. -/
theorem HugePageSlot.used_of_body {s t : HugePageSlot} (same : s.body = t.body) : s.used = t.used := by
  have live : s.body.live = t.body.live := by rw [same]
  exact congrArg Bitmap.popcount live

theorem HugePageSlot.bin_of_body {s t : HugePageSlot} (same : s.body = t.body) : s.bin = t.bin := by
  have bins : s.body.bin = t.body.bin := by rw [same]
  exact bins

namespace HugePageFiller
variable {f f' : HugePageFiller} {i j v n : Nat} {b c : HugeBin} {s : HugePageSlot}
  {S : Nat → Prop} {L : HugeBin → List Nat} {l : List Nat}

/-! ## The lists -/

/-- The bins spell `L`, and hold the hugepages of `S`, each in the bin its tag
names. -/
structure Lists (f : HugePageFiller) (S : Nat → Prop) (L : HugeBin → List Nat) : Prop where
  held : f.binTable.Holds NIL L
  filed : Links.Filed L S fun i => (f.slots i).bin

/-- The hugepages with room come before the full ones. -/
def FullLast (f : HugePageFiller) (l : List Nat) : Prop :=
  l.Pairwise fun i j => (f.slots i).used ≥ pagesPerHugepage → (f.slots j).used ≥ pagesPerHugepage

theorem FullLast.congr (h : FullLast f l) (same : ∀ i ∈ l, (f'.slots i).used = (f.slots i).used) :
    FullLast f' l := by
  refine List.Pairwise.imp_of_mem ?_ h
  intro i j inI inJ order
  rw [same i inI, same j inJ]
  exact order

theorem FullLast.cons (h : FullLast f l) (room : ¬ (f.slots i).used ≥ pagesPerHugepage) :
    FullLast f (i :: l) := by
  refine List.pairwise_cons.mpr ⟨?_, h⟩
  intro j _ full
  exact absurd full room

theorem FullLast.concat (h : FullLast f l) (full : (f.slots i).used ≥ pagesPerHugepage) :
    FullLast f (l ++ [i]) := by
  refine List.pairwise_append.mpr ⟨h, List.pairwise_singleton .., ?_⟩
  intro j _ k inK _
  rw [List.mem_singleton.mp inK]
  exact full

theorem Lists.nodup (h : Lists f S L) (b : HugeBin) : (L b).Nodup :=
  (List.nodup_cons.mp (h.held.ring b).nodup).2

theorem Lists.not_mem (h : Lists f S L) (other : b ≠ (f.slots i).bin) : i ∉ L b := by
  intro member
  exact other ((h.filed b i).mp member).2.symm

/-- Unlinking a hugepage takes it off the list its tag names. -/
theorem Lists.binRemove (h : Lists f S L) (here : S i) :
    Lists (f.binRemove i) (fun j => S j ∧ j ≠ i)
      (update L (f.slots i).bin ((L (f.slots i).bin).erase i)) := by
  refine ⟨?_, ?_⟩
  · rw [binRemove_table]
    exact h.held.remove ((h.filed _ i).mpr ⟨here, rfl⟩)
  · refine (h.filed.erase (h.nodup _)).congr (fun _ => Iff.rfl) ?_
    intro j _
    exact HugePageSlot.bin_of_body (binRemove_body j)

/-- Linking a hugepage puts it on the list of the bin, at the end its
occupancy asks for. -/
theorem Lists.binInsert (h : Lists f S L) (fresh : ¬ S i) (real : i ≠ NIL) :
    Lists (f.binInsert i b) (fun j => S j ∨ j = i)
      (update L b (if (f.slots i).used ≥ pagesPerHugepage then L b ++ [i] else i :: L b)) := by
  have absent : ∀ c, i ∉ L c := fun c member => fresh ((h.filed c i).mp member).1
  refine ⟨?_, ?_⟩
  · split
    next full =>
      have last := (h.held.ring b).last.2
      rw [show f.binTable.pv NIL b NIL = f.binTails b by simp [Links.Table.pv, binTable]] at last
      rw [binInsert_table_full full last]
      exact h.held.pushBack absent real
    next room =>
      rw [binInsert_table_room room]
      exact h.held.pushFront absent real
  · have tags : Links.Filed L S fun j => ((f.binInsert i b).slots j).bin := by
      refine h.filed.congr (fun _ => Iff.rfl) ?_
      intro j inS
      have other : j ≠ i := fun same => fresh (same ▸ inS)
      exact HugePageSlot.bin_of_body (binInsert_body_other other)
    have tag : ((f.binInsert i b).slots i).bin = b :=
      HugePageSlot.bin_of_body (s := (f.binInsert i b).slots i) binInsert_body_self
    have inserted := tags.insert (x := i)
      (l := if (f.slots i).used ≥ pagesPerHugepage then L b ++ [i] else i :: L b) ?_
    · rwa [tag] at inserted
    · intro j
      rw [tag]
      split <;> simp [or_comm]

/-! ## Refiling -/

/-- The hugepage stands at the end of its list that its occupancy asks for. -/
def AtRightEnd (f : HugePageFiller) (i : Nat) : Prop :=
  if (f.slots i).used ≥ pagesPerHugepage then f.binTails (f.slots i).bin = i
  else f.bins (f.slots i).bin = i

/-- Refiling moves the hugepage, unless it already is where it belongs. -/
theorem refile_cases (f : HugePageFiller) (i : Nat) :
    f.refile i = (f.binRemove i).binInsert i (f.slots i).targetBin ∨
      f.refile i = f ∧ (f.slots i).bin = (f.slots i).targetBin ∧ f.AtRightEnd i := by
  by_cases move : (f.slots i).bin ≠ (f.slots i).targetBin ∨
      (if (f.slots i).used ≥ pagesPerHugepage then f.binTails (f.slots i).targetBin == i
        else f.bins (f.slots i).targetBin == i) = false
  · exact .inl (if_pos move)
  · refine .inr ⟨if_neg move, ?_⟩
    simp only [ne_eq, not_or, not_not, Bool.not_eq_false] at move
    refine ⟨move.1, ?_⟩
    unfold AtRightEnd
    rw [move.1]
    have atEnd := move.2
    split at atEnd
    next full => simpa [full] using atEnd
    next room => simpa [room] using atEnd

theorem refile_core :
    (f.refile i).core = f.core.put i { f.slots i with bin := (f.slots i).targetBin }.body := by
  rcases refile_cases f i with moved | ⟨kept, tag, -⟩
  · have body := binRemove_body (f := f) (i := i) i
    rw [moved, binInsert_core, binRemove_core]
    congr 1
    exact congrArg (fun s : HugePageSlot => { s with bin := (f.slots i).targetBin }) body
  · rw [kept, ← tag]
    exact core_put_self.symm

/-- Refiling writes the tag of the hugepage, and links. -/
theorem refile_body_self :
    ((f.refile i).slots i).body = { f.slots i with bin := (f.slots i).targetBin }.body := by
  have here := congrArg (fun g : HugePageFiller => g.slots i) (refile_core (f := f) (i := i))
  simpa [put, core] using here

theorem refile_body_other (other : j ≠ i) : ((f.refile i).slots j).body = (f.slots j).body := by
  have there := congrArg (fun g : HugePageFiller => g.slots j) (refile_core (f := f) (i := i))
  simpa [put, core, other] using there

theorem refile_used (j : Nat) : ((f.refile i).slots j).used = (f.slots j).used := by
  by_cases here : j = i
  · subst here
    have retagged := HugePageSlot.used_of_body (refile_body_self (f := f) (i := j))
    exact retagged
  · exact HugePageSlot.used_of_body (refile_body_other here)

/-- A hugepage that already stands at the right end of the right list needs no
move. -/
theorem Lists.fullLast_of_end (h : Lists f S L) (order : ∀ b, FullLast f ((L b).erase i))
    (atEnd : f.AtRightEnd i) (b : HugeBin) : FullLast f (L b) := by
  by_cases tagged : b = (f.slots i).bin
  · have ring := h.held.ring b
    have rest := order b
    have nodup := h.nodup b
    unfold AtRightEnd at atEnd
    split at atEnd
    next full =>
      have last := ring.last.1
      rw [show f.binTable.pv NIL b NIL = i by simp [Links.Table.pv, binTable, tagged, atEnd]] at last
      rcases (L b).eq_nil_or_concat with empty | ⟨front, back, spelled⟩
      · simp [FullLast, empty]
      · rw [List.concat_eq_append] at spelled
        rw [spelled, ← List.cons_append, List.getLast?_concat, Option.some.injEq] at last
        subst last
        rw [spelled] at rest nodup ⊢
        have absent : back ∉ front := fun member =>
          List.disjoint_of_nodup_append nodup member (by simp)
        rw [List.erase_append_right _ absent] at rest
        simp only [List.erase_cons_head, List.append_nil] at rest
        exact rest.concat full
    next room =>
      have first := ring.first
      rw [show f.binTable.nx NIL b NIL = i by simp [Links.Table.nx, binTable, tagged, atEnd]] at first
      cases spelled : L b with
      | nil => simp [FullLast]
      | cons head back =>
        rw [spelled, List.headD_cons] at first
        subst first
        rw [spelled, List.erase_cons_head] at rest
        exact rest.cons room
  · have rest := order b
    rwa [List.erase_of_not_mem (h.not_mem tagged)] at rest

/-- Refiling repairs the order of the lists when only the refiled hugepage may
be out of place. -/
theorem Lists.refile (h : Lists f S L) (here : S i) (real : i ≠ NIL)
    (order : ∀ b, FullLast f ((L b).erase i)) :
    ∃ L', Lists (f.refile i) S L' ∧ ∀ b, FullLast (f.refile i) (L' b) := by
  have occupancy : ∀ j, ((f.refile i).slots j).used = (f.slots j).used := refile_used
  rcases refile_cases f i with moved | ⟨kept, -, atEnd⟩
  · rw [moved] at occupancy ⊢
    have unlinked := h.binRemove here
    have linked := unlinked.binInsert (b := (f.slots i).targetBin) (by simp) real
    refine ⟨_, ⟨linked.held, linked.filed.congr ?_ fun _ _ => rfl⟩, ?_⟩
    · intro j
      by_cases same : j = i
      · simp [same, here]
      · simp [same]
    · -- every list is the old one without `i`, and `i` itself is at an end of its own
      intro b
      have same : ((f.binRemove i).slots i).used = (f.slots i).used :=
        HugePageSlot.used_of_body (binRemove_body i)
      have rest : ∀ b, FullLast f (update L (f.slots i).bin ((L (f.slots i).bin).erase i) b) := by
        intro b
        by_cases tagged : b = (f.slots i).bin
        · rw [tagged, update_self]
          exact order _
        · rw [update_of_ne tagged]
          have kept := order b
          rwa [List.erase_of_not_mem (h.not_mem tagged)] at kept
      refine FullLast.congr (f := f) ?_ fun j _ => occupancy j
      by_cases target : b = (f.slots i).targetBin
      · rw [target, update_self, same]
        split
        next full => exact (rest _).concat full
        next room => exact (rest _).cons room
      · rw [update_of_ne target]
        exact rest b
  · rw [kept]
    exact ⟨L, h, h.fullLast_of_end order atEnd⟩

end HugePageFiller
end Topomalloc
