import Topomalloc.Lib.Links
import Topomalloc.Extent.Map

/-! The link fields of the extent pool. `Lists` says which index lists the
links spell; `core` is the map with all links erased. Every list operation
changes one list and leaves the core alone, so the proofs about the extents
themselves never look at a link. -/
namespace Topomalloc
open Function

/-- The slot with its links erased. -/
def Slot.body (s : Slot) : Slot :=
  { s with addrPrev := 0, addrNext := 0, binPrev := 0, binNext := 0, freeNext := 0 }

/-- The fields the proofs read off a body. -/
theorem Slot.fields_of_body {s t : Slot} (same : s.body = t.body) :
    s.base = t.base ∧ s.len = t.len ∧ s.committedLen = t.committedLen ∧ s.state = t.state ∧
      s.occupied = t.occupied ∧ s.generation = t.generation := by
  have fields (α : Type) (f : Slot → α) : f s.body = f t.body := congrArg f same
  exact ⟨fields _ Slot.base, fields _ Slot.len, fields _ Slot.committedLen, fields _ Slot.state,
    fields _ Slot.occupied, fields _ Slot.generation⟩

/-- The two slots have the same links. -/
structure Slot.SameLinks (s s' : Slot) : Prop where
  addrPrev : s.addrPrev = s'.addrPrev
  addrNext : s.addrNext = s'.addrNext
  binPrev : s.binPrev = s'.binPrev
  binNext : s.binNext = s'.binNext
  freeNext : s.freeNext = s'.freeNext

namespace ExtentMap

/-- The map with every link and list head erased. -/
def core (m : ExtentMap) : ExtentMap :=
  { m with slots := fun i => (m.slots i).body, freeSlotHead := 0, addrHead := 0, addrTail := 0,
           bins := fun _ => 0 }

def addrTable (m : ExtentMap) : Links.Table Unit Nat :=
  { head := fun _ => m.addrHead, tail := fun _ => m.addrTail,
    next := fun i => (m.slots i).addrNext, prev := fun i => (m.slots i).addrPrev }

/-- The bins have no tail in the source; `tail` is supplied by the proofs. -/
def binTable (m : ExtentMap) (tail : Nat → Nat) : Links.Table Nat Nat :=
  { head := m.bins, tail, next := fun i => (m.slots i).binNext, prev := fun i => (m.slots i).binPrev }

/-- The links and the top of the stack of unused slots. -/
def slotStack (m : ExtentMap) : (Nat → Nat) × Nat := (fun i => (m.slots i).freeNext, m.freeSlotHead)

/-- The lists the links spell: `addr` in address order, `bins b` for each size
bin and `unused` for the stack of free slots. -/
structure Lists (m : ExtentMap) (addr : List Nat) (bins : Nat → List Nat) (unused : List Nat) : Prop where
  addrHeld : m.addrTable.Holds NIL fun _ => addr
  binsHeld : ∃ tail, (m.binTable tail).Holds NIL bins
  stacked : Links.Stack m.slotStack.1 NIL m.slotStack.2 unused
  unusedNodup : unused.Nodup
  unusedReal : NIL ∉ unused

variable {m m' : ExtentMap} {addr unused l₁ l₂ : List Nat} {bins : Nat → List Nat}
  {i j id b v : Nat} {s : Slot} {tail : Nat → Nat}

theorem core_put : (m.put i s).core = m.core.put i s.body := by
  simp only [core, put, ExtentMap.mk.injEq, and_true]
  exact comp_update Slot.body m.slots i s

theorem addrTable_put :
    (m.put i s).addrTable =
      { m.addrTable with
        next := update m.addrTable.next i s.addrNext
        prev := update m.addrTable.prev i s.addrPrev } := by
  simp only [addrTable, put]
  congr 1
  · exact comp_update Slot.addrNext m.slots i s
  · exact comp_update Slot.addrPrev m.slots i s

theorem binTable_put :
    (m.put i s).binTable tail =
      { m.binTable tail with
        next := update (m.binTable tail).next i s.binNext
        prev := update (m.binTable tail).prev i s.binPrev } := by
  simp only [binTable, put]
  congr 1
  · exact comp_update Slot.binNext m.slots i s
  · exact comp_update Slot.binPrev m.slots i s

theorem slotStack_put : (m.put i s).slotStack = (update m.slotStack.1 i s.freeNext, m.slotStack.2) :=
  congrArg (·, m.freeSlotHead) (comp_update Slot.freeNext m.slots i s)

/-! ## Link writes as table writes -/

@[simp] theorem core_update_self : m.core.put i (m.slots i).body = m.core := by
  simp [put, core]

@[simp] theorem setBinPrev_core : (m.setBinPrev i v).core = m.core := core_put.trans core_update_self

@[simp] theorem setBinNext_core : (m.setBinNext i v).core = m.core := core_put.trans core_update_self

@[simp] theorem setAddrPrev_core : (m.setAddrPrev i v).core = m.core := core_put.trans core_update_self

@[simp] theorem setAddrNext_core : (m.setAddrNext i v).core = m.core := core_put.trans core_update_self

@[simp] theorem setBinHead_core : (m.setBinHead b v).core = m.core := rfl

@[simp] theorem setAddrHead_core : (m.setAddrHead v).core = m.core := rfl

@[simp] theorem setAddrTail_core : (m.setAddrTail v).core = m.core := rfl

@[simp] theorem setBinPrev_stack : (m.setBinPrev i v).slotStack = m.slotStack :=
  slotStack_put.trans (congrArg (·, _) (update_eq_self i m.slotStack.1))

@[simp] theorem setBinNext_stack : (m.setBinNext i v).slotStack = m.slotStack :=
  slotStack_put.trans (congrArg (·, _) (update_eq_self i m.slotStack.1))

@[simp] theorem setAddrPrev_stack : (m.setAddrPrev i v).slotStack = m.slotStack :=
  slotStack_put.trans (congrArg (·, _) (update_eq_self i m.slotStack.1))

@[simp] theorem setAddrNext_stack : (m.setAddrNext i v).slotStack = m.slotStack :=
  slotStack_put.trans (congrArg (·, _) (update_eq_self i m.slotStack.1))

@[simp] theorem setBinHead_stack : (m.setBinHead b v).slotStack = m.slotStack := rfl

@[simp] theorem setAddrHead_stack : (m.setAddrHead v).slotStack = m.slotStack := rfl

@[simp] theorem setAddrTail_stack : (m.setAddrTail v).slotStack = m.slotStack := rfl

private theorem table_update_self {β : Type} (k : Links.Table β Nat) :
    ({ k with next := update k.next i (k.next i), prev := update k.prev i (k.prev i) } :
      Links.Table β Nat) = k := by
  simp

@[simp] theorem setBinPrev_addrTable : (m.setBinPrev i v).addrTable = m.addrTable :=
  addrTable_put.trans (table_update_self m.addrTable)

@[simp] theorem setBinNext_addrTable : (m.setBinNext i v).addrTable = m.addrTable :=
  addrTable_put.trans (table_update_self m.addrTable)

@[simp] theorem setBinHead_addrTable : (m.setBinHead b v).addrTable = m.addrTable := rfl

@[simp] theorem setAddrPrev_binTable : (m.setAddrPrev i v).binTable tail = m.binTable tail :=
  binTable_put.trans (table_update_self (m.binTable tail))

@[simp] theorem setAddrNext_binTable : (m.setAddrNext i v).binTable tail = m.binTable tail :=
  binTable_put.trans (table_update_self (m.binTable tail))

@[simp] theorem setAddrHead_binTable : (m.setAddrHead v).binTable tail = m.binTable tail := rfl

@[simp] theorem setAddrTail_binTable : (m.setAddrTail v).binTable tail = m.binTable tail := rfl

@[simp] theorem setBinPrev_binTable :
    (m.setBinPrev i v).binTable tail = { m.binTable tail with prev := update (m.binTable tail).prev i v } :=
  binTable_put.trans (congrArg (Links.Table.mk _ _ · _) (update_eq_self i (m.binTable tail).next))

@[simp] theorem setBinNext_binTable :
    (m.setBinNext i v).binTable tail = { m.binTable tail with next := update (m.binTable tail).next i v } :=
  binTable_put.trans (congrArg (Links.Table.mk _ _ _) (update_eq_self i (m.binTable tail).prev))

@[simp] theorem setBinHead_binTable :
    (m.setBinHead b v).binTable tail =
      { m.binTable tail with head := update (m.binTable tail).head b v } := rfl

@[simp] theorem setAddrPrev_addrTable :
    (m.setAddrPrev i v).addrTable = { m.addrTable with prev := update m.addrTable.prev i v } :=
  addrTable_put.trans (congrArg (Links.Table.mk _ _ · _) (update_eq_self i m.addrTable.next))

@[simp] theorem setAddrNext_addrTable :
    (m.setAddrNext i v).addrTable = { m.addrTable with next := update m.addrTable.next i v } :=
  addrTable_put.trans (congrArg (Links.Table.mk _ _ _) (update_eq_self i m.addrTable.prev))

@[simp] theorem setAddrHead_addrTable :
    (m.setAddrHead v).addrTable = { m.addrTable with head := fun _ => v } := rfl

@[simp] theorem setAddrTail_addrTable :
    (m.setAddrTail v).addrTable = { m.addrTable with tail := fun _ => v } := rfl

/-! ## The list operations as table operations -/

section Operations
variable {new after : Nat}

@[simp] theorem binInsert_core : (m.binInsert i).core = m.core := by
  dsimp only [binInsert]
  split <;> simp

@[simp] theorem binInsert_addrTable : (m.binInsert i).addrTable = m.addrTable := by
  dsimp only [binInsert]
  split <;> simp

@[simp] theorem binInsert_stack : (m.binInsert i).slotStack = m.slotStack := by
  dsimp only [binInsert]
  split <;> simp

@[simp] theorem binRemove_core : (m.binRemove i).core = m.core := by
  dsimp only [binRemove]
  split <;> split <;> simp

@[simp] theorem binRemove_addrTable : (m.binRemove i).addrTable = m.addrTable := by
  dsimp only [binRemove]
  split <;> split <;> simp

@[simp] theorem binRemove_stack : (m.binRemove i).slotStack = m.slotStack := by
  dsimp only [binRemove]
  split <;> split <;> simp

@[simp] theorem addrInsertAfter_core : (m.addrInsertAfter new after).core = m.core := by
  dsimp only [addrInsertAfter]
  split <;> split <;> simp

@[simp] theorem addrInsertAfter_binTable : (m.addrInsertAfter new after).binTable tail = m.binTable tail := by
  dsimp only [addrInsertAfter]
  split <;> split <;> simp

@[simp] theorem addrInsertAfter_stack : (m.addrInsertAfter new after).slotStack = m.slotStack := by
  dsimp only [addrInsertAfter]
  split <;> split <;> simp

@[simp] theorem addrRemove_core : (m.addrRemove i).core = m.core := by
  dsimp only [addrRemove]
  split <;> split <;> simp

@[simp] theorem addrRemove_binTable : (m.addrRemove i).binTable tail = m.binTable tail := by
  dsimp only [addrRemove]
  split <;> split <;> simp

@[simp] theorem addrRemove_stack : (m.addrRemove i).slotStack = m.slotStack := by
  dsimp only [addrRemove]
  split <;> split <;> simp

/-- `bin_insert` is insertion at the front of the slot's size bin. -/
theorem binInsert_table (tail : Nat → Nat) (bin : binIndex ((m.slots i).len / pageSize) = b) :
    ∃ tail', (m.binInsert i).binTable tail' = (m.binTable tail).insertAfter NIL b NIL i := by
  subst bin
  refine ⟨((m.binTable tail).insertAfter NIL (binIndex ((m.slots i).len / pageSize)) NIL i).tail, ?_⟩
  dsimp only [binInsert, get]
  by_cases empty : m.bins (binIndex ((m.slots i).len / pageSize)) = NIL <;>
    simp only [empty, ne_eq, not_true_eq_false, not_false_eq_true, ↓reduceIte, setBinHead_binTable,
      setBinNext_binTable, setBinPrev_binTable] <;>
    simp [empty, Links.Table.insertAfter, Links.Table.setNext, Links.Table.setPrev, Links.Table.nx, binTable]

/-- `bin_remove` unlinks the slot from its size bin and clears its own links. -/
theorem binRemove_table (tail : Nat → Nat) (bin : binIndex ((m.slots i).len / pageSize) = b) :
    ∃ tail', (m.binRemove i).binTable tail' =
      { (m.binTable tail).remove NIL b i with
        next := update ((m.binTable tail).remove NIL b i).next i NIL
        prev := update ((m.binTable tail).remove NIL b i).prev i NIL } := by
  subst bin
  refine ⟨((m.binTable tail).remove NIL (binIndex ((m.slots i).len / pageSize)) i).tail, ?_⟩
  dsimp only [binRemove, get]
  by_cases first : (m.slots i).binPrev = NIL <;> by_cases last : (m.slots i).binNext = NIL <;>
    simp only [first, last, ne_eq, not_true_eq_false, not_false_eq_true, ↓reduceIte,
      setBinHead_binTable, setBinNext_binTable, setBinPrev_binTable] <;>
    simp [first, last, Links.Table.remove, Links.Table.setNext, Links.Table.setPrev, binTable]

theorem addrInsertAfter_table :
    (m.addrInsertAfter new after).addrTable = m.addrTable.insertAfter NIL () after new := by
  dsimp only [addrInsertAfter, get]
  have unit (f : Unit → Nat) (v : Nat) : update f () v = fun _ => v := funext fun _ => rfl
  by_cases front : after = NIL
  · by_cases last : m.addrHead = NIL <;>
      simp only [front, last, ↓reduceIte, setAddrHead_addrTable, setAddrTail_addrTable,
        setAddrNext_addrTable, setAddrPrev_addrTable] <;>
      simp [last, unit, Links.Table.insertAfter, Links.Table.setNext, Links.Table.setPrev,
        Links.Table.nx, addrTable]
  · by_cases last : (m.slots after).addrNext = NIL <;>
      simp only [front, last, ↓reduceIte, setAddrTail_addrTable, setAddrNext_addrTable,
        setAddrPrev_addrTable] <;>
      simp [front, last, unit, Links.Table.insertAfter, Links.Table.setNext, Links.Table.setPrev,
        Links.Table.nx, addrTable]

theorem addrRemove_table : (m.addrRemove i).addrTable = m.addrTable.remove NIL () i := by
  dsimp only [addrRemove, get]
  have unit (f : Unit → Nat) (v : Nat) : update f () v = fun _ => v := funext fun _ => rfl
  by_cases first : (m.slots i).addrPrev = NIL <;> by_cases last : (m.slots i).addrNext = NIL <;>
    simp only [first, last, ne_eq, not_true_eq_false, not_false_eq_true, ↓reduceIte,
      setAddrHead_addrTable, setAddrTail_addrTable, setAddrNext_addrTable, setAddrPrev_addrTable] <;>
    simp [first, last, unit, Links.Table.remove, Links.Table.setNext, Links.Table.setPrev, addrTable]

end Operations

/-! ## What each operation does to the lists -/

/-- Writing a slot back with its old links keeps every list. -/
theorem Lists.put (h : Lists m addr bins unused) (links : s.SameLinks (m.slots i)) :
    Lists (m.put i s) addr bins unused := by
  obtain ⟨tail, held⟩ := h.binsHeld
  have sameAddr : (m.put i s).addrTable = m.addrTable := by
    rw [addrTable_put, links.addrPrev, links.addrNext]
    exact table_update_self m.addrTable
  have sameBins : (m.put i s).binTable tail = m.binTable tail := by
    rw [binTable_put, links.binPrev, links.binNext]
    exact table_update_self (m.binTable tail)
  have sameStack : (m.put i s).slotStack = m.slotStack := by
    rw [slotStack_put, links.freeNext]
    exact congrArg (·, _) (update_eq_self i m.slotStack.1)
  exact ⟨sameAddr ▸ h.addrHeld, ⟨tail, sameBins ▸ held⟩, sameStack ▸ h.stacked, h.unusedNodup, h.unusedReal⟩

theorem Lists.binInsert (h : Lists m addr bins unused) (fresh : ∀ c, i ∉ bins c) (real : i ≠ NIL)
    (bin : binIndex ((m.slots i).len / pageSize) = b) :
    Lists (m.binInsert i) addr (update bins b (i :: bins b)) unused := by
  obtain ⟨tail, held⟩ := h.binsHeld
  obtain ⟨tail', table⟩ := binInsert_table tail bin
  refine ⟨by rw [binInsert_addrTable]; exact h.addrHeld, ⟨tail', ?_⟩,
    by rw [binInsert_stack]; exact h.stacked, h.unusedNodup, h.unusedReal⟩
  rw [table]
  exact held.pushFront fresh real

theorem Lists.binRemove (h : Lists m addr bins unused) (bin : binIndex ((m.slots i).len / pageSize) = b)
    (member : i ∈ bins b) : Lists (m.binRemove i) addr (update bins b ((bins b).erase i)) unused := by
  obtain ⟨tail, held⟩ := h.binsHeld
  obtain ⟨tail', table⟩ := binRemove_table tail bin
  refine ⟨by rw [binRemove_addrTable]; exact h.addrHeld, ⟨tail', ?_⟩,
    by rw [binRemove_stack]; exact h.stacked, h.unusedNodup, h.unusedReal⟩
  -- `i` is in no bin afterwards, so clearing its own links is harmless
  have gone : ∀ c j, j ∈ update bins b ((bins b).erase i) c → j ≠ i := by
    intro c j inC same
    subst same
    by_cases eq : c = b
    · subst eq
      rw [update_self] at inC
      exact (List.nodup_cons.mp (held.ring c).nodup).2.not_mem_erase inC
    · rw [update_of_ne eq] at inC
      exact eq (held.apart _ _ _ inC member)
  rw [table]
  refine (held.remove member).congr rfl rfl ?_ ?_
  · exact fun c j inC => update_of_ne (gone c j inC) ..
  · exact fun c j inC => update_of_ne (gone c j inC) ..

/-- A family over one bucket is its only list. -/
private theorem update_unit (l l' : List Nat) : update (fun _ : Unit => l) () l' = fun _ => l' :=
  funext fun _ => rfl

theorem Lists.addrInsertAfter {new : Nat} (h : Lists m (l₁ ++ after :: l₂) bins unused)
    (fresh : new ∉ l₁ ++ after :: l₂) (real : new ≠ NIL) :
    Lists (m.addrInsertAfter new after) (l₁ ++ after :: new :: l₂) bins unused := by
  obtain ⟨tail, held⟩ := h.binsHeld
  refine ⟨?_, ⟨tail, by rw [addrInsertAfter_binTable]; exact held⟩,
    by rw [addrInsertAfter_stack]; exact h.stacked, h.unusedNodup, h.unusedReal⟩
  have inserted := h.addrHeld.insertAfter (b := ()) (a := after)
    (x := new) (l₁ ++ [after]) l₂ (by simp) (by rw [← List.cons_append, List.getLast?_concat])
    (fun _ => fresh) real
  rw [update_unit, List.append_assoc] at inserted
  rw [addrInsertAfter_table]
  exact inserted

theorem Lists.addrRemove (h : Lists m addr bins unused) (member : i ∈ addr) :
    Lists (m.addrRemove i) (addr.erase i) bins unused := by
  obtain ⟨tail, held⟩ := h.binsHeld
  refine ⟨?_, ⟨tail, by rw [addrRemove_binTable]; exact held⟩,
    by rw [addrRemove_stack]; exact h.stacked, h.unusedNodup, h.unusedReal⟩
  have removed := h.addrHeld.remove (b := ()) member
  rw [update_unit] at removed
  rw [addrRemove_table]
  exact removed

/-- A refused pop means that no slot is unused. -/
theorem Lists.popSlot_none (h : Lists m addr bins unused) (ran : m.popSlot = none) : unused = [] := by
  simp only [ExtentMap.popSlot] at ran
  split at ran
  · rename_i empty
    have stacked := h.stacked
    cases unused with
    | nil => rfl
    | cons i rest =>
      obtain ⟨top, -⟩ := stacked
      exact absurd (List.mem_cons_self ..) (top ▸ empty ▸ h.unusedReal)
  · cases ran

/-- A pop takes the top of the stack and only starts a new generation of it. -/
theorem Lists.popSlot (h : Lists m addr bins unused) (ran : m.popSlot = some (i, m')) :
    ∃ rest, unused = i :: rest ∧ Lists m' addr bins rest ∧
      m'.core = ({ m.core with unusedSlots := m.unusedSlots - 1 } : ExtentMap).put i
        { (m.slots i).body with generation := wrappingSucc32 (m.slots i).generation } := by
  simp only [ExtentMap.popSlot] at ran
  split at ran
  · cases ran
  · rename_i some
    simp only [Option.some.injEq, Prod.mk.injEq] at ran
    obtain ⟨rfl, rfl⟩ := ran
    obtain ⟨rest, spelled, below⟩ := h.stacked.pop some
    have nodup := h.unusedNodup
    have real := h.unusedReal
    rw [spelled] at nodup real
    have notBelow := (List.nodup_cons.mp nodup).1
    obtain ⟨tail, held⟩ := h.binsHeld
    refine ⟨rest, spelled, ⟨?_, ⟨tail, ?_⟩, ?_, (List.nodup_cons.mp nodup).2, fun inRest =>
      real (List.mem_cons_of_mem _ inRest)⟩, core_put⟩
    · rw [addrTable_put]
      exact h.addrHeld.congr rfl rfl (fun _ j _ => congrFun (update_eq_self _ m.addrTable.next) j)
        fun _ j _ => congrFun (update_eq_self _ m.addrTable.prev) j
    · rw [binTable_put]
      exact held.congr rfl rfl (fun _ j _ => congrFun (update_eq_self _ (m.binTable tail).next) j)
        fun _ j _ => congrFun (update_eq_self _ (m.binTable tail).prev) j
    · rw [slotStack_put]
      refine Links.Stack.congr below fun j inRest => update_of_ne ?_ ..
      rintro rfl
      exact notBelow inRest

@[simp] theorem pushSlot_core :
    (m.pushSlot i).core =
      { m.core.put i { (m.slots i).body with
          occupied := false, generation := wrappingSucc32 (m.slots i).generation } with
        unusedSlots := m.unusedSlots + 1 } := by
  simp only [pushSlot, core, ExtentMap.put, get, ExtentMap.mk.injEq, and_true]
  exact comp_update Slot.body m.slots i _

/-- Stacking a slot on top of the unused ones. -/
theorem Lists.stack {unusedSlots : Nat} (h : Lists m addr bins unused) (fresh : i ∉ unused)
    (real : i ≠ NIL) (links : s.SameLinks { m.slots i with freeNext := m.freeSlotHead }) :
    Lists { m.put i s with freeSlotHead := i, unusedSlots } addr bins (i :: unused) := by
  obtain ⟨tail, held⟩ := h.binsHeld
  refine ⟨?_, ⟨tail, ?_⟩, ⟨rfl, ?_⟩, List.nodup_cons.mpr ⟨fresh, h.unusedNodup⟩, ?_⟩
  · refine h.addrHeld.congr rfl rfl (fun _ j _ => ?_) fun _ j _ => ?_ <;>
      by_cases same : j = i <;>
      simp [ExtentMap.put, addrTable, update_apply, same, links.addrNext, links.addrPrev]
  · refine held.congr rfl rfl (fun _ j _ => ?_) fun _ j _ => ?_ <;>
      by_cases same : j = i <;>
      simp [ExtentMap.put, binTable, update_apply, same, links.binNext, links.binPrev]
  · have below : Links.Stack (update m.slotStack.1 i s.freeNext) NIL m.freeSlotHead unused := by
      refine h.stacked.congr fun j inUnused => update_of_ne ?_ ..
      rintro rfl
      exact fresh inUnused
    have top : (m.put i s).slotStack.1 = update m.slotStack.1 i s.freeNext := congrArg Prod.fst slotStack_put
    have next : (m.put i s).slotStack.1 i = m.freeSlotHead := by
      rw [top, update_self, links.freeNext]
    rw [← top] at below
    exact next ▸ below
  · simp [h.unusedReal, real.symm]

theorem Lists.pushSlot (h : Lists m addr bins unused) (fresh : i ∉ unused) (real : i ≠ NIL) :
    Lists (m.pushSlot i) addr bins (i :: unused) :=
  h.stack fresh real ⟨rfl, rfl, rfl, rfl, rfl⟩

/-! ## The lists and what they hold -/

/-- The size bin a slot's length calls for. -/
def binOf (m : ExtentMap) (i : Nat) : Nat := binIndex ((m.slots i).len / pageSize)

/-- The links spell `addr` and `unused`, and the bins hold exactly `S`, each
index in the bin of its size. -/
def Indexed (m : ExtentMap) (addr : List Nat) (S : Nat → Prop) (unused : List Nat) : Prop :=
  ∃ bins, Lists m addr bins unused ∧ Links.Filed bins S m.binOf

variable {S S' : Nat → Prop}

section
variable (h : Indexed m addr S unused)
include h

theorem Indexed.congr (sets : ∀ i, S' i ↔ S i) : Indexed m addr S' unused := by
  obtain ⟨bins, lists, filed⟩ := h
  exact ⟨bins, lists, filed.congr sets fun _ _ => rfl⟩

theorem Indexed.nodup : addr.Nodup := by
  obtain ⟨_, lists, -⟩ := h
  exact (List.nodup_cons.mp (lists.addrHeld.ring ()).nodup).2

theorem Indexed.addr_ne_nil (member : i ∈ addr) : i ≠ NIL := by
  obtain ⟨_, lists, -⟩ := h
  exact (lists.addrHeld.ring ()).ne_of_mem member

theorem Indexed.unused_nodup : unused.Nodup := by
  obtain ⟨_, lists, -⟩ := h
  exact lists.unusedNodup

theorem Indexed.put (links : s.SameLinks (m.slots i))
    (len : S i → s.len = (m.slots i).len) : Indexed (m.put i s) addr S unused := by
  obtain ⟨bins, lists, filed⟩ := h
  refine ⟨bins, lists.put links, filed.congr (fun _ => Iff.rfl) fun j inS => ?_⟩
  by_cases same : j = i
  · subst same
    simp [binOf, ExtentMap.put, len inS]
  · simp [binOf, ExtentMap.put, update_of_ne same]

end

private theorem binOf_core (same : m'.core = m.core) : m'.binOf = m.binOf := by
  have bins : m'.core.binOf = m.core.binOf := by rw [same]
  exact bins

theorem Indexed.binInsert (h : Indexed m addr S unused) (fresh : ¬ S i) (real : i ≠ NIL) :
    Indexed (m.binInsert i) addr (fun j => S j ∨ j = i) unused := by
  obtain ⟨bins, lists, filed⟩ := h
  have absent : ∀ c, i ∉ bins c := fun c inC => fresh ((filed c i).mp inC).1
  refine ⟨_, lists.binInsert absent real (b := m.binOf i) rfl, ?_⟩
  rw [binOf_core binInsert_core]
  exact filed.insert fun j => List.mem_cons

theorem Indexed.binRemove (h : Indexed m addr S unused) (member : S i) :
    Indexed (m.binRemove i) addr (fun j => S j ∧ j ≠ i) unused := by
  obtain ⟨bins, lists, filed⟩ := h
  have binned : i ∈ bins (m.binOf i) := (filed _ i).mpr ⟨member, rfl⟩
  refine ⟨_, lists.binRemove (b := m.binOf i) rfl binned, ?_⟩
  rw [binOf_core binRemove_core]
  obtain ⟨_, held⟩ := lists.binsHeld
  exact filed.erase (List.nodup_cons.mp (held.ring _).nodup).2

theorem Indexed.addrInsertAfter {new : Nat} (h : Indexed m (l₁ ++ after :: l₂) S unused)
    (fresh : new ∉ l₁ ++ after :: l₂) (real : new ≠ NIL) :
    Indexed (m.addrInsertAfter new after) (l₁ ++ after :: new :: l₂) S unused := by
  obtain ⟨bins, lists, filed⟩ := h
  refine ⟨bins, lists.addrInsertAfter fresh real, ?_⟩
  rwa [binOf_core addrInsertAfter_core]

section
variable (h : Indexed m addr S unused)
include h

theorem Indexed.addrRemove (member : i ∈ addr) : Indexed (m.addrRemove i) (addr.erase i) S unused := by
  obtain ⟨bins, lists, filed⟩ := h
  refine ⟨bins, lists.addrRemove member, ?_⟩
  rwa [binOf_core addrRemove_core]

theorem Indexed.popSlot_none (ran : m.popSlot = none) : unused = [] := by
  obtain ⟨_, lists, -⟩ := h
  exact lists.popSlot_none ran

theorem Indexed.popSlot (ran : m.popSlot = some (i, m')) :
    ∃ rest, unused = i :: rest ∧ i ≠ NIL ∧ Indexed m' addr S rest ∧
      m'.core = ({ m.core with unusedSlots := m.unusedSlots - 1 } : ExtentMap).put i
        { (m.slots i).body with generation := wrappingSucc32 (m.slots i).generation } := by
  obtain ⟨bins, lists, filed⟩ := h
  obtain ⟨rest, spelled, popped, core⟩ := lists.popSlot ran
  have real : i ≠ NIL := fun null => lists.unusedReal (by simp [spelled, null])
  refine ⟨rest, spelled, real, ⟨bins, popped, filed.congr (fun _ => Iff.rfl) fun j _ => ?_⟩, core⟩
  have len : (m'.slots j).len = (m.slots j).len := by
    have atJ : (m'.core.slots j).len = _ := congrArg (fun c : ExtentMap => (c.slots j).len) core
    by_cases same : j = i
    · subst same
      exact atJ.trans (by simp [ExtentMap.put, Slot.body])
    · exact atJ.trans (by simp [ExtentMap.put, update_of_ne same, ExtentMap.core, Slot.body])
  simp [binOf, len]

theorem Indexed.pushSlot (fresh : i ∉ unused) (real : i ≠ NIL) :
    Indexed (m.pushSlot i) addr S (i :: unused) := by
  obtain ⟨bins, lists, filed⟩ := h
  refine ⟨bins, lists.pushSlot fresh real, filed.congr (fun _ => Iff.rfl) fun j _ => ?_⟩
  by_cases same : j = i
  · subst same
    simp [binOf, ExtentMap.pushSlot, ExtentMap.put, get]
  · simp [binOf, ExtentMap.pushSlot, ExtentMap.put, update_of_ne same]

/-- Scalars are not indexed. -/
theorem Indexed.setCounters (freeBytes committedBytes : Nat) :
    Indexed { m with freeBytes, committedBytes } addr S unused := by
  obtain ⟨bins, lists, filed⟩ := h
  exact ⟨bins, ⟨lists.addrHeld, lists.binsHeld, lists.stacked, lists.unusedNodup, lists.unusedReal⟩, filed⟩

end

end ExtentMap
end Topomalloc
