import Topomalloc.Extent.Alloc

/-! The invariant oracle of `extent.rs` accepts every well-formed back-end, and
the freshly built one is well formed. -/
namespace Topomalloc
open Function Tiling

namespace ExtentMap

variable {m m' : ExtentMap} {addr unused l : List Nat} {i j id b p : Nat}

/-! ## The pool is counted once -/

/-- The listed and the unused slots are the whole pool. -/
theorem WF.pool (wf : WF m addr unused) : (addr ++ unused).Perm (List.range m.cap) := by
  refine (List.perm_ext_iff_of_nodup ?_ List.nodup_range).mpr fun i => ?_
  · refine List.nodup_append.mpr ⟨wf.indexed.nodup, wf.indexed.unused_nodup, ?_⟩
    exact fun i listed j spare => wf.shape.apart listed spare
  · rw [List.mem_append, List.mem_range, wf.shape.covers i]

theorem WF.pool_length (wf : WF m addr unused) : addr.length + unused.length = m.cap := by
  simpa using wf.pool.length_eq

/-- A list of distinct listed slots fits the step bound of the walks. -/
theorem WF.length_le (wf : WF m addr unused) (nodup : l.Nodup) (listed : ∀ i ∈ l, i ∈ addr) :
    l.length ≤ m.cap := by
  have inPool : l ⊆ List.range m.cap := fun i member =>
    List.mem_range.mpr (wf.shape.lt_cap (listed i member))
  simpa using (nodup.subperm inPool).length_le

/-! ## The walks of the oracle -/

/-- Walking a bin finds exactly its members. -/
theorem reachesFrom_eq (nexts : ∀ j, next j = (m.slots j).binNext) (path : Links.Path next prev NIL p j l)
    (short : l.length ≤ fuel) (real : NIL ∉ l) : m.reachesFrom i fuel j = decide (i ∈ l) := by
  induction l generalizing p j fuel with
  | nil =>
    unfold reachesFrom
    simp [show j = NIL from path]
  | cons a l ih =>
    obtain ⟨rfl, -, rest⟩ := path
    have here : j ≠ NIL := fun null => real (by simp [null])
    unfold reachesFrom
    rw [if_neg here]
    by_cases found : j = i
    · simp [found]
    · rw [if_neg found]
      cases fuel with
      | zero => simp at short
      | succ fuel =>
        have step := ih (nexts j ▸ rest) (by simpa using short) fun null => real (by simp [null])
        simp only [step, List.mem_cons, Ne.symm found, false_or]

theorem walkBin_eq (nexts : ∀ j, next j = (m.slots j).binNext) (path : Links.Path next prev NIL p j l)
    (short : l.length ≤ fuel) (real : NIL ∉ l)
    (binned : ∀ i ∈ l, (m.slots i).occupied = true ∧ (m.slots i).state.isFree = true ∧ m.binOf i = b) :
    m.walkBin b fuel j = true := by
  induction l generalizing p j fuel with
  | nil =>
    unfold walkBin
    simp [show j = NIL from path]
  | cons a l ih =>
    obtain ⟨rfl, -, rest⟩ := path
    have here : j ≠ NIL := fun null => real (by simp [null])
    obtain ⟨occupied, free, bin⟩ := binned j (by simp)
    unfold walkBin
    rw [if_neg here]
    cases fuel with
    | zero => simp at short
    | succ fuel =>
      have step := ih (nexts j ▸ rest) (by simpa using short) (fun null => real (by simp [null]))
        fun i member => binned i (by simp [member])
      simp only [get, occupied, free, show binIndex ((m.slots j).len / pageSize) = b from bin, step]
      simp

/-- One turn of the address walk accepts a sound slot at the cursor. -/
theorem slotOk_of_sound (sound : (m.slots i).Sound) (inBin : m.isInBin i = (m.slots i).state.isFree)
    (bound : (m.slots i).base + (m.slots i).len ≤ usizeMax) :
    m.slotOk i (m.slots i).addrPrev (m.slots i).base = true := by
  have coupled : ((m.slots i).state.isFree &&
      (m.slots i).state.isBacked != decide ((m.slots i).committedLen = (m.slots i).len)) = false := by
    cases free : (m.slots i).state.isFree with
    | false => rfl
    | true =>
      rw [Bool.true_and, bne_eq_false_iff_eq, Bool.eq_iff_iff, decide_eq_true_iff]
      exact sound.coupled free
  have fits : (checkedAdd (m.slots i).base (m.slots i).len).isSome = true := by
    simp [checkedAdd, bound]
  have backing := sound.backing
  simp only [slotOk, get, sound.occupied, inBin, coupled, fits, sound.page]
  have pos := sound.pos
  simp
  omega

theorem walkAddr_eq (fuel : Nat) (nexts : ∀ j, next j = (m.slots j).addrNext)
    (prevs : ∀ j, prev j = (m.slots j).addrPrev) (path : Links.Path next prev NIL p i l)
    (tiles : Tiles (fun j => (m.slots j).base) (fun j => (m.slots j).len) cursor l hi)
    (bound : hi ≤ usizeMax) (sound : ∀ j ∈ l, (m.slots j).Sound)
    (inBin : ∀ j ∈ l, m.isInBin j = (m.slots j).state.isFree) (short : l.length ≤ fuel)
    (real : NIL ∉ l) (entered : w.prev = p) (starts : w.cursor = cursor) :
    m.walkAddr fuel i w = some
      { cursor := hi, prev := l.getLastD p, listed := w.listed + l.length,
        freeBytes := w.freeBytes + (l.map fun j => (m.slots j).freeLen).sum,
        committed := w.committed + (l.map fun j => (m.slots j).committedLen).sum } := by
  induction l generalizing p i fuel cursor w with
  | nil =>
    unfold walkAddr
    obtain rfl : cursor = hi := tiles
    simp [show i = NIL from path, ← entered, ← starts]
  | cons a l ih =>
    obtain ⟨rfl, back, rest⟩ := path
    obtain ⟨here, tiles⟩ := tiles
    have notNull : i ≠ NIL := fun null => real (by simp [null])
    have ok : m.slotOk i w.prev w.cursor = true := by
      have top := tiles.le
      dsimp only at here top
      rw [entered, starts, ← back, prevs i, ← here]
      exact slotOk_of_sound (sound i (by simp)) (inBin i (by simp)) (by omega)
    unfold walkAddr
    cases fuel with
    | zero => simp at short
    | succ fuel =>
      rw [if_neg notNull, if_neg (by simp [ok])]
      dsimp only
      rw [ih fuel (nexts i ▸ rest) tiles (fun j member => sound j (by simp [member]))
        (fun j member => inBin j (by simp [member])) (by simpa using short)
        (fun null => real (by simp [null])) rfl (by rw [starts])]
      simp only [List.getLastD_cons, List.length_cons, List.map_cons, List.sum_cons, Slot.freeLen, get]
      congr 2 <;> omega

/-- The oracle accepts a well-formed back-end. -/
theorem WF.checkInvariants (wf : WF m addr unused) : m.checkInvariants = true := by
  obtain ⟨bins, lists, filed⟩ := wf.indexed
  obtain ⟨tail, held⟩ := lists.binsHeld
  have shape := wf.shape
  have binNodup : ∀ b, (bins b).Nodup := fun b => (List.nodup_cons.mp (held.ring b).nodup).2
  have binLength : ∀ b, (bins b).length ≤ m.cap := fun b =>
    wf.length_le (binNodup b) fun i member => ((filed b i).mp member).1.1
  have inBin : ∀ i ∈ addr, m.isInBin i = (m.slots i).state.isFree := by
    intro i listed
    have found := reachesFrom_eq (i := i) (m := m) (fun _ => rfl) (held.path (m.binOf i))
      (binLength _) (held.ring _).not_mem
    refine found.trans ?_
    rw [Bool.eq_iff_iff, decide_eq_true_iff, filed]
    simp [listed]
  have walked := walkAddr_eq (m := m)
    (w := { cursor := m.regionBase, prev := NIL, listed := 0, freeBytes := 0, committed := 0 }) m.cap
    (fun _ => rfl) (fun _ => rfl) (lists.addrHeld.path ()) shape.tiles shape.bound shape.sound inBin
    (wf.length_le wf.indexed.nodup fun _ => id) (lists.addrHeld.ring ()).not_mem rfl rfl
  have last : addr.getLastD NIL = m.addrTail := by
    have atEnd := (lists.addrHeld.ring ()).last.1
    rw [List.getLast?_cons, Option.some.injEq, Links.Table.pv, if_pos rfl] at atEnd
    rw [List.getLastD_eq_getLast?, atEnd]
    rfl
  have count := shape.count
  have pool := wf.pool_length
  unfold ExtentMap.checkInvariants
  rw [show m.addrTable.head () = m.addrHead from rfl] at walked
  rw [walked]
  simp only [last, Nat.zero_add, shape.free, shape.committed, decide_true, Bool.true_and]
  rw [count, decide_eq_true pool, Bool.true_and, List.all_eq_true]
  intro b _
  refine walkBin_eq (fun _ => rfl) (held.path b) (binLength b) (held.ring b).not_mem ?_
  intro i member
  obtain ⟨⟨listed, free⟩, bin⟩ := (filed b i).mp member
  exact ⟨(shape.sound i listed).occupied, free, bin⟩

/-! ## Construction -/

/-- What the stacking loop of `new` keeps: no slot is occupied and the
counters are zero. -/
structure Blank (m : ExtentMap) (regionBase regionLen slotCap : Nat) (unused : List Nat) : Prop where
  lists : Lists m [] (fun _ => []) unused
  vacant : ∀ j, (m.slots j).occupied = false
  cap : m.cap = slotCap
  base : m.regionBase = regionBase
  len : m.regionLen = regionLen
  freeBytes : m.freeBytes = 0
  committedBytes : m.committedBytes = 0
  count : m.unusedSlots = unused.length

section Construction
variable {regionBase regionLen slotCap slotBytes : Nat} {metaOk : Bool}

theorem blank_empty (regionBase regionLen slotCap : Nat) :
    Blank (empty regionBase regionLen slotCap) regionBase regionLen slotCap [] := by
  have ring {β : Type} (k : Links.Table β Nat) (b : β) (head : k.head b = NIL) (tail : k.tail b = NIL) :
      Links.Ring (k.nx NIL b) (k.pv NIL b) NIL [] :=
    ⟨by simp, by simp [Links.Linked, Links.Table.nx, Links.Table.pv, head, tail]⟩
  refine ⟨⟨⟨fun b => ring _ b rfl rfl, by simp⟩, ⟨fun _ => NIL, ⟨fun b => ring _ b rfl rfl, by simp⟩⟩,
    rfl, by simp, by simp⟩, fun _ => rfl, rfl, rfl, rfl, rfl, rfl, rfl⟩

theorem Blank.stackSlot (h : Blank m regionBase regionLen slotCap unused) (fresh : i ∉ unused)
    (real : i ≠ NIL) : Blank (m.stackSlot i) regionBase regionLen slotCap (i :: unused) := by
  refine ⟨h.lists.stack fresh real ⟨rfl, rfl, rfl, rfl, rfl⟩, fun j => ?_, h.cap, h.base, h.len,
    h.freeBytes, h.committedBytes, congrArg (· + 1) h.count⟩
  by_cases same : j = i
  · subst same
    simp [ExtentMap.stackSlot, put, get, h.vacant j]
  · simp [ExtentMap.stackSlot, put, update_of_ne same, h.vacant j]

theorem Blank.stackAll (h : Blank m regionBase regionLen slotCap unused)
    (fresh : (l.reverse ++ unused).Nodup) (real : NIL ∉ l) :
    Blank (l.foldl ExtentMap.stackSlot m) regionBase regionLen slotCap (l.reverse ++ unused) := by
  induction l generalizing m unused with
  | nil => exact h
  | cons a l ih =>
    rw [List.reverse_cons, List.append_assoc, List.singleton_append] at fresh ⊢
    have notStacked : a ∉ unused := (List.nodup_cons.mp (List.nodup_append.mp fresh).2.1).1
    exact ih (h.stackSlot notStacked fun null => real (by simp [null])) fresh
      fun inRest => real (by simp [inRest])

theorem Blank.popSlot (h : Blank m regionBase regionLen slotCap (id :: unused)) :
    ∃ m', m.popSlot = some (id, m') ∧ Blank m' regionBase regionLen slotCap unused := by
  obtain ⟨top, -⟩ := h.lists.stacked
  have head : m.freeSlotHead = id := top
  have real : id ≠ NIL := fun null => h.lists.unusedReal (by simp [null])
  have ran : ∃ m', m.popSlot = some (id, m') := by simp [ExtentMap.popSlot, head, real]
  obtain ⟨m', ran⟩ := ran
  obtain ⟨rest, spelled, lists, -⟩ := h.lists.popSlot ran
  obtain rfl : unused = rest := (List.cons.inj spelled).2
  refine ⟨m', ran, ?_⟩
  simp only [ExtentMap.popSlot, head, real, ↓reduceIte, Option.some.injEq, Prod.mk.injEq, true_and] at ran
  subst ran
  refine ⟨lists, fun j => ?_, h.cap, h.base, h.len, h.freeBytes, h.committedBytes, ?_⟩
  · by_cases same : j = id
    · subst same
      simp [put, get, h.vacant j]
    · simp [put, update_of_ne same, h.vacant j]
  · simp [put, h.count]

/-- A one-extent list over a map that listed nothing. -/
theorem Lists.seed (h : Lists m [] (fun _ => []) unused) (real : id ≠ NIL)
    (prev : s.addrPrev = NIL) (next : s.addrNext = NIL) (free : s.freeNext = (m.slots id).freeNext) :
    Lists { m.put id s with addrHead := id, addrTail := id } [id] (fun _ => []) unused := by
  obtain ⟨tail, held⟩ := h.binsHeld
  have head : m.addrHead = NIL := (h.addrHeld.path () : m.addrTable.head () = NIL)
  refine ⟨?_, ⟨tail, held.congr rfl rfl (by simp) (by simp)⟩, ?_, h.unusedNodup, h.unusedReal⟩
  · have inserted := h.addrHeld.pushFront (b := ()) (x := id) (by simp) real
    have table : ({ m.put id s with addrHead := id, addrTail := id } : ExtentMap).addrTable =
        m.addrTable.insertAfter NIL () NIL id := by
      change (((m.put id s).setAddrHead id).setAddrTail id).addrTable = _
      rw [setAddrTail_addrTable, setAddrHead_addrTable, addrTable_put, prev, next]
      simp only [Links.Table.insertAfter, Links.Table.setNext, Links.Table.setPrev, Links.Table.nx,
        ↓reduceIte, show m.addrTable.head () = NIL from head]
      rfl
    rw [table]
    exact inserted
  · have stack : ({ m.put id s with addrHead := id, addrTail := id } : ExtentMap).slotStack = m.slotStack := by
      refine (slotStack_put (m := m) (i := id) (s := s)).trans ?_
      rw [free]
      exact congrArg (·, _) (update_eq_self id m.slotStack.1)
    rw [stack]
    exact h.stacked

theorem Blank.seed (h : Blank m regionBase regionLen slotCap unused) (real : id ≠ NIL)
    (covers : ∀ i, i < slotCap ↔ i ∈ [id] ∨ i ∈ unused) (fresh : id ∉ unused)
    (pos : 0 < regionLen) (pageLen : pageSize ∣ regionLen) (pageBase : pageSize ∣ regionBase)
    (capBound : slotCap ≤ NIL) (bound : regionBase + regionLen ≤ usizeMax) :
    WF (m.seed id) [id] unused ∧ ((m.seed id).slots id).state = .reserved := by
  obtain rfl := h.base
  obtain rfl := h.len
  set s : Slot := { m.get id with
    base := m.regionBase, len := m.regionLen, committedLen := 0, hugeBase := 0, hugeLen := 0,
    arena := 0, splitGen := 0, flags := 0, state := .reserved, occupied := true,
    canary := false, addrPrev := NIL, addrNext := NIL } with spelled
  set m₁ : ExtentMap := { m.put id s with addrHead := id, addrTail := id } with written
  have listed : Indexed m₁ [id] (fun _ => False) unused :=
    ⟨fun _ => [], h.lists.seed real rfl rfl rfl, by simp [Links.Filed]⟩
  have binned := listed.binInsert (i := id) not_false real
  obtain ⟨cap, base, len, -, -, committed, count⟩ := scalars_of_core (binInsert_core (m := m₁) (i := id))
  have body : ∀ j, ((m₁.binInsert id).slots j).body = (m₁.slots j).body := body_of_core binInsert_core
  have elsewhere : ∀ j, j ≠ id → m₁.slots j = m.slots j := fun j other => by
    simp [m₁, put, update_of_ne other]
  have here : ((m₁.binInsert id).slots id).body = s.body := by
    rw [body id]
    simp [m₁, put]
  change WF { m₁.binInsert id with freeBytes := (m₁.binInsert id).regionLen } [id] unused ∧
    ((m₁.binInsert id).slots id).state = .reserved
  generalize m₁.binInsert id = m₂ at *
  obtain ⟨slotBase, slotLen, slotCommitted, state, -, -⟩ := Slot.fields_of_body here
  have sound : s.Sound := ⟨rfl, pos, pageLen, .inl rfl, fun _ => by
    simp [s, ExtentState.isBacked, Nat.ne_of_lt pos]⟩
  refine ⟨⟨(binned.setCounters m₂.regionLen _).congr fun j => ?_, ?_⟩, state⟩
  · by_cases same : j = id
    · subst same
      simp [state, s, ExtentState.isFree]
    · simp [same]
  · refine ⟨?_, ?_, ?_, ?_, ?_, ?_, ?_, ?_, ?_, ?_⟩
    · exact fun i => by simpa only [cap, m₁, core, put, h.cap] using covers i
    · intro i member
      rw [List.mem_singleton.mp member]
      exact sound.of_body here
    · intro j spare
      have other : j ≠ id := fun same => fresh (same ▸ spare)
      rw [(Slot.fields_of_body (body j)).2.2.2.2.1, elsewhere j other]
      exact h.vacant j
    · refine ⟨slotBase.trans base.symm, ?_⟩
      simp only [Tiles, slotLen, base, len]
      rfl
    · simp only [List.map_cons, List.map_nil, List.sum_cons, List.sum_nil, Slot.freeLen, state, slotLen, len]
      rfl
    · simp only [List.map_cons, List.map_nil, List.sum_cons, List.sum_nil, slotCommitted]
      exact committed.trans h.committedBytes
    · exact count.trans h.count
    · exact (cap.trans h.cap).trans_le capBound
    · exact base ▸ pageBase
    · rw [base, len]
      exact bound

/-- The map `new` builds is well formed, and nothing in it is live. -/
theorem new_wf (made : new metaOk slotBytes regionBase regionLen slotCap = some m) :
    ∃ addr unused, WF m addr unused ∧ ∀ j, ¬ m.Live j := by
  simp only [new, Option.bind_eq_bind] at made
  split at made
  · cases made
  rename_i valid
  simp only [not_or, not_not] at valid
  obtain ⟨nonempty, someSlot, pageBase, pageLen, capBound, wraps⟩ := valid
  obtain ⟨top, noWrap⟩ : ∃ top, checkedAdd regionBase regionLen = some top := by
    simpa [Option.isNone_iff_eq_none, ← Option.ne_none_iff_exists'] using wraps
  obtain ⟨rfl, bound⟩ := checkedAdd_eq_some.mp noWrap
  obtain ⟨bytes, -, made⟩ := Option.bind_eq_some_iff.mp made
  split at made
  · cases made
  obtain ⟨⟨id, popped⟩, ran, made⟩ := Option.bind_eq_some_iff.mp made
  have stacked := (blank_empty regionBase regionLen slotCap).stackAll (l := (List.range slotCap).reverse)
    (by simpa using List.nodup_range) (by simp; omega)
  rw [List.reverse_reverse, List.append_nil] at stacked
  obtain ⟨rest, spelled⟩ : ∃ rest, List.range slotCap = 0 :: rest := by
    obtain ⟨n, rfl⟩ := Nat.exists_eq_succ_of_ne_zero someSlot
    exact ⟨_, List.range_succ_eq_map⟩
  have nodup := List.nodup_range (n := slotCap)
  rw [spelled] at ran stacked nodup
  obtain ⟨m', ran', blank⟩ := stacked.popSlot
  rw [ran', Option.some.injEq, Prod.mk.injEq] at ran
  obtain ⟨rfl, rfl⟩ := ran
  obtain rfl := Option.some.inj made
  obtain ⟨wf, state⟩ := blank.seed (by decide) (fun i => by rw [← List.mem_range, spelled]; simp)
    (List.nodup_cons.mp nodup).1 (by omega) pageLen pageBase (by omega) bound
  refine ⟨_, _, wf, fun j live => ?_⟩
  obtain ⟨listed, active⟩ := wf.live_iff.mp live
  rw [List.mem_singleton.mp listed, state] at active
  cases active

/-- The new map is over the region asked for. -/
theorem new_rooted (made : new metaOk slotBytes regionBase regionLen slotCap = some m) :
    m.regionBase = regionBase ∧ m.regionLen = regionLen := by
  simp only [new, Option.bind_eq_bind] at made
  split at made
  · cases made
  obtain ⟨bytes, -, made⟩ := Option.bind_eq_some_iff.mp made
  split at made
  · cases made
  obtain ⟨⟨id, popped⟩, ran, made⟩ := Option.bind_eq_some_iff.mp made
  obtain rfl := Option.some.inj made
  have stacked : ∀ (l : List Nat) (m : ExtentMap),
      (l.foldl stackSlot m).regionBase = m.regionBase ∧ (l.foldl stackSlot m).regionLen = m.regionLen := by
    intro l
    induction l with
    | nil => exact fun _ => ⟨rfl, rfl⟩
    | cons i rest ih => exact fun m => ih (m.stackSlot i)
  obtain ⟨base, len⟩ := stacked (List.range slotCap).reverse (empty regionBase regionLen slotCap)
  generalize (List.range slotCap).reverse.foldl stackSlot _ = m at *
  simp only [popSlot] at ran
  split at ran
  · cases ran
  · cases ran
    simp only [seed, binInsert]
    split <;> exact ⟨base, len⟩

/-- Naming the arena of the initial extent changes nothing else. -/
theorem WF.setArena (wf : WF m addr unused) (dead : ∀ j, ¬ m.Live j) (arena : Nat) :
    ∃ addr unused, WF (m.setArena arena) addr unused ∧ ∀ j, ¬ (m.setArena arena).Live j := by
  obtain ⟨bins, lists, filed⟩ := wf.indexed
  have shape := wf.shape
  have renamed : WF { m with arena } addr unused :=
    ⟨⟨bins, ⟨lists.addrHeld, lists.binsHeld, lists.stacked, lists.unusedNodup, lists.unusedReal⟩, filed⟩,
      ⟨shape.covers, shape.sound, shape.vacant, shape.tiles, shape.free, shape.committed, shape.count,
        shape.capBound, shape.basePage, shape.bound⟩⟩
  simp only [ExtentMap.setArena]
  split
  · rename_i head
    have listed : m.addrHead ∈ addr := by
      have path := lists.addrHeld.path ()
      cases addr with
      | nil => exact absurd path head
      | cons a l => exact path.1 ▸ List.mem_cons_self ..
    have sound := shape.sound _ listed
    have written := renamed.put (s := { m.slots m.addrHead with arena }) m.freeBytes m.committedBytes listed
      ⟨rfl, rfl, rfl, rfl, rfl⟩
      rfl rfl ⟨sound.occupied, sound.pos, sound.page, sound.backing, sound.coupled⟩ rfl rfl rfl
    have effect := wroteTo_put (m := { m with arena }) m.addrHead { m.slots m.addrHead with arena }
      m.freeBytes m.committedBytes
    refine ⟨addr, unused, written, fun j live => dead j ?_⟩
    by_cases same : j = m.addrHead
    · subst same
      obtain ⟨-, -, -, state, occupied, -⟩ := Slot.fields_of_body effect.written
      exact ⟨live.1, occupied.symm.trans live.2.1, state.symm.trans live.2.2⟩
    · obtain ⟨-, -, -, state, occupied, -⟩ := Slot.fields_of_body (effect.other j same)
      exact ⟨live.1, occupied.symm.trans live.2.1, state.symm.trans live.2.2⟩
  · exact ⟨addr, unused, renamed, dead⟩

end Construction

end ExtentMap
end Topomalloc
