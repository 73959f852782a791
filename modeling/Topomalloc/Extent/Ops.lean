import Topomalloc.Extent.Shape

/-! Each operation of the extent map keeps `WF`. The specification lemma of an
operation says how the address list changes and what the touched slots become;
every other slot keeps its body. -/
namespace Topomalloc
open Function Tiling

namespace ExtentMap

variable {m m' c : ExtentMap} {addr unused l₁ l₂ : List Nat} {i j id right prefixLen : Nat}

/-! ## Split -/

/-- What a split does to the slots. -/
structure SplitAt (m m' : ExtentMap) (id prefixLen right : Nat) : Prop where
  pos : 0 < prefixLen
  lt : prefixLen < (m.slots id).len
  page : pageSize ∣ prefixLen
  region : SameRegion m m'
  leftBody : (m'.slots id).body = (leftHalf (snapshot id (m.slots id)) prefixLen (m.slots id)).body
  rightBody : (m'.slots right).body = (rightHalf (snapshot id (m.slots id)) (m.slots id).canary prefixLen
    { m.slots right with generation := wrappingSucc32 (m.slots right).generation }).body
  other : ∀ j, j ≠ id → j ≠ right → (m'.slots j).body = (m.slots j).body
  freeBytes : m'.freeBytes = m.freeBytes
  committedBytes : m'.committedBytes = m.committedBytes
  unusedSlots : m'.unusedSlots = m.unusedSlots - 1

theorem SplitAt.left_fields (h : SplitAt m m' id prefixLen right) :
    (m'.slots id).base = (m.slots id).base ∧ (m'.slots id).len = prefixLen ∧
      (m'.slots id).state = (m.slots id).state ∧
      (m'.slots id).committedLen =
        if (m.slots id).committedLen = (m.slots id).len then prefixLen else 0 := by
  obtain ⟨base, len, committed, state, -⟩ := Slot.fields_of_body h.leftBody
  exact ⟨base, len, state, committed⟩

theorem SplitAt.right_fields (h : SplitAt m m' id prefixLen right) :
    (m'.slots right).base = (m.slots id).base + prefixLen ∧
      (m'.slots right).len = (m.slots id).len - prefixLen ∧
      (m'.slots right).state = (m.slots id).state ∧
      (m'.slots right).committedLen =
        if (m.slots id).committedLen = (m.slots id).len then (m.slots id).len - prefixLen else 0 := by
  obtain ⟨base, len, committed, state, -⟩ := Slot.fields_of_body h.rightBody
  exact ⟨base, len, state, committed⟩

/-- A split only refuses a bad length or an empty pool. -/
theorem WF.splitIn_some (wf : WF m addr unused) (listed : id ∈ addr) (spare : unused ≠ [])
    (pos : 0 < prefixLen) (lt : prefixLen < (m.slots id).len)
    (page : pageSize ∣ prefixLen) : ∃ right m', m.splitIn id prefixLen = some (right, m') := by
  cases popped : m.popSlot with
  | none => exact absurd (wf.indexed.popSlot_none popped) spare
  | some answer =>
    have shape : ¬ (prefixLen = 0 ∨ prefixLen ≥ (m.slots id).len ∨ ¬ pageSize ∣ prefixLen) := by
      rintro (zero | large | ragged)
      · omega
      · omega
      · exact ragged page
    simp only [splitIn, wf.view_eq listed, snapshot, shape, ↓reduceIte, popped]
    exact ⟨_, _, rfl⟩

theorem WF.splitIn_eq (wf : WF m addr unused) (ran : m.splitIn id prefixLen = some (right, m')) :
    id ∈ addr ∧ 0 < prefixLen ∧ prefixLen < (m.slots id).len ∧ pageSize ∣ prefixLen ∧
      ∃ popped, m.popSlot = some (right, popped) ∧
        m' = popped.installSplit (snapshot id (m.slots id)) id right prefixLen := by
  simp only [splitIn] at ran
  split at ran
  · cases ran
  rename_i parent seen
  obtain ⟨listed, rfl⟩ := wf.view_some seen
  split at ran
  · cases ran
  rename_i valid
  split at ran
  · cases ran
  rename_i r popped pop
  simp only [Option.some.injEq, Prod.mk.injEq] at ran
  obtain ⟨rfl, rfl⟩ := ran
  simp only [snapshot, not_or, not_not] at valid
  exact ⟨listed, by omega, by omega, valid.2.2, popped, pop, rfl⟩

/-- The body of a slot is read off the core. -/
theorem body_of_core (core : m.core = c) (j : Nat) : (m.slots j).body = c.slots j :=
  congrArg (fun c : ExtentMap => c.slots j) core

/-- The scalars are read off the core. -/
theorem scalars_of_core (core : m.core = c) :
    m.cap = c.cap ∧ m.regionBase = c.regionBase ∧ m.regionLen = c.regionLen ∧ m.arena = c.arena ∧
      m.freeBytes = c.freeBytes ∧ m.committedBytes = c.committedBytes ∧
      m.unusedSlots = c.unusedSlots := by
  subst core
  exact ⟨rfl, rfl, rfl, rfl, rfl, rfl, rfl⟩

/-- A write computed from a slot whose links do not matter. -/
theorem core_put_map {f : Slot → Slot} (core : m.core = c)
    (links : ∀ s : Slot, (f s).body = (f s.body).body) :
    (m.put i (f (m.slots i))).core = c.put i (f (c.slots i)).body := by
  rw [core_put, core, links, body_of_core core]

/-- The slots after a split, in terms of those its pop left. -/
theorem installSplit_core (parent : Extent) (id right prefixLen : Nat) :
    (m.installSplit parent id right prefixLen).core =
      let c := m.core.put right (rightHalf parent (m.slots id).canary prefixLen (m.slots right)).body
      c.put id (leftHalf parent prefixLen (c.slots id)).body := by
  dsimp only [installSplit]
  split_ifs
  · rw [binInsert_core, binInsert_core, addrInsertAfter_core]
    exact core_put_map (f := leftHalf parent prefixLen) (binRemove_core.trans core_put) fun _ => rfl
  · rw [addrInsertAfter_core]
    exact core_put_map (f := leftHalf parent prefixLen) core_put fun _ => rfl

theorem Indexed.installSplit
    (h : Indexed m (l₁ ++ id :: l₂) S rest) (parent : Extent) (prefixLen : Nat)
    (fresh : right ∉ l₁ ++ id :: l₂) (real : right ≠ NIL)
    (binned : S id ↔ (m.slots id).state.isFree = true) (unbinned : ¬ S right) :
    Indexed (m.installSplit parent id right prefixLen) (l₁ ++ id :: right :: l₂)
      (fun j => S j ∨ j = right ∧ (m.slots id).state.isFree = true) rest := by
  have ne : id ≠ right := fun same => fresh (by simp [same])
  have idReal : id ≠ NIL := h.addr_ne_nil (by simp)
  have installed : Indexed (m.put right (rightHalf parent (m.get id).canary prefixLen (m.get right)))
      (l₁ ++ id :: l₂) S rest := h.put ⟨rfl, rfl, rfl, rfl, rfl⟩ fun inS => absurd inS unbinned
  have state : (m.put right (rightHalf parent (m.get id).canary prefixLen (m.get right))).get id =
      m.slots id := by simp [get, ExtentMap.put, update_of_ne ne]
  dsimp only [ExtentMap.installSplit]
  rw [state]
  generalize m.put right (rightHalf parent (m.get id).canary prefixLen (m.get right)) = m₁ at installed
  split_ifs with free
  · have removed := installed.binRemove (binned.mpr free)
    have shrunk := removed.put (i := id) (s := leftHalf parent prefixLen ((m₁.binRemove id).slots id))
      ⟨rfl, rfl, rfl, rfl, rfl⟩ fun inS => absurd rfl inS.2
    have listed := shrunk.addrInsertAfter fresh real
    have left := listed.binInsert (i := id) (by simp) idReal
    have both := left.binInsert (i := right) (by simp [unbinned, ne.symm]) real
    refine both.congr fun j => ?_
    by_cases atId : j = id
    · subst atId; simp [binned.mpr free]
    · simp [atId, free]
  · have shrunk := installed.put (i := id) (s := leftHalf parent prefixLen (m₁.slots id))
      ⟨rfl, rfl, rfl, rfl, rfl⟩ fun inS => absurd (binned.mp inS) free
    refine (shrunk.addrInsertAfter fresh real).congr fun j => ?_
    simp [free]

/-- What a split does to the slots, read off the core. -/
theorem WF.splitAt (wf : WF m addr unused)
    (ran : m.splitIn id prefixLen = some (right, m')) : SplitAt m m' id prefixLen right := by
  obtain ⟨listed, pos, lt, page, popped, pop, rfl⟩ := wf.splitIn_eq ran
  obtain ⟨rest, rfl, real, -, core⟩ := wf.indexed.popSlot pop
  have ne : id ≠ right := wf.shape.apart listed (by simp)
  have poppedRight : (popped.slots right).body = { (m.slots right).body with
      generation := wrappingSucc32 (m.slots right).generation } := by
    rw [body_of_core core]; simp [put]
  have poppedOther : ∀ j, j ≠ right → (popped.slots j).body = (m.slots j).body := by
    intro j other
    rw [body_of_core core]
    simp [put, update_of_ne other, ExtentMap.core]
  have canary : (popped.slots id).canary = (m.slots id).canary := by
    have bodies := congrArg Slot.canary (poppedOther id ne)
    exact bodies
  have final := installSplit_core (m := popped) (snapshot id (m.slots id)) id right prefixLen
  rw [canary] at final
  obtain ⟨cap, base, len, arena, free, committed, spare⟩ := scalars_of_core core
  obtain ⟨cap', base', len', arena', free', committed', spare'⟩ := scalars_of_core final
  refine ⟨pos, lt, page, ⟨cap'.trans cap, base'.trans base, len'.trans len, arena'.trans arena⟩,
    ?_, ?_, ?_, free'.trans free, committed'.trans committed, spare'.trans spare⟩
  · rw [body_of_core final]
    simp only [put, update_self, update_of_ne ne, ExtentMap.core, poppedOther id ne]
    rfl
  · rw [body_of_core final]
    simp only [put, update_self, update_of_ne ne.symm, ExtentMap.core]
    have bodies := congrArg
      (fun r => (rightHalf (snapshot id (m.slots id)) (m.slots id).canary prefixLen r).body) poppedRight
    exact bodies
  · intro j notId notRight
    rw [body_of_core final]
    simp only [put, update_of_ne notId, update_of_ne notRight, ExtentMap.core, poppedOther j notRight]

theorem WF.splitIn (wf : WF m (l₁ ++ id :: l₂) unused) (ran : m.splitIn id prefixLen = some (right, m')) :
    ∃ rest, unused = right :: rest ∧ WF m' (l₁ ++ id :: right :: l₂) rest ∧
      SplitAt m m' id prefixLen right := by
  have effect := wf.splitAt ran
  have nodup := wf.indexed.nodup
  have unusedNodup := wf.indexed.unused_nodup
  obtain ⟨listed, pos, lt, page, popped, pop, rfl⟩ := wf.splitIn_eq ran
  obtain ⟨rest, rfl, real, indexed, core⟩ := wf.indexed.popSlot pop
  have shape := wf.shape
  have notRight : ∀ j ∈ l₁ ++ id :: l₂, j ≠ right := fun j inAddr => shape.apart inAddr (by simp)
  have fresh : right ∉ l₁ ++ id :: l₂ := fun inAddr => notRight right inAddr rfl
  have notId : ∀ j, j ∈ l₁ ∨ j ∈ l₂ → j ≠ id := by
    rintro j inRest rfl
    simp only [List.nodup_append, List.nodup_cons] at nodup
    grind
  have sound := shape.sound id listed
  have poppedId : (popped.slots id).state = (m.slots id).state := by
    have bodies := congrArg Slot.state (body_of_core core id)
    simpa [put, update_of_ne (notRight id listed), ExtentMap.core, Slot.body] using bodies
  refine ⟨rest, rfl, ⟨?_, ?_⟩, effect⟩
  · have installed := indexed.installSplit (snapshot id (m.slots id)) prefixLen
      fresh real (by simp [poppedId]) (by simp [fresh])
    generalize popped.installSplit (snapshot id (m.slots id)) id right prefixLen = m' at *
    have leftState := congrArg Slot.state effect.leftBody
    have rightState := congrArg Slot.state effect.rightBody
    refine installed.congr fun j => ?_
    rcases eq_or_ne j id with rfl | other
    · simp_all [Slot.body, leftHalf]
    rcases eq_or_ne j right with rfl | otherRight
    · simp_all [Slot.body, rightHalf, snapshot]
    · have same := congrArg Slot.state (effect.other j other otherRight)
      simp_all [Slot.body]
  · generalize popped.installSplit (snapshot id (m.slots id)) id right prefixLen = m' at *
    have whole : Shape m (l₁ ++ [id] ++ l₂) (right :: rest) := by simpa using shape
    obtain ⟨lBase, lLen, lState, lCommitted⟩ := effect.left_fields
    obtain ⟨rBase, rLen, rState, rCommitted⟩ := effect.right_fields
    have lOccupied := (Slot.fields_of_body effect.leftBody).2.2.2.2.1
    have rOccupied := (Slot.fields_of_body effect.rightBody).2.2.2.2.1
    have suffixPage : pageSize ∣ (m.slots id).len - prefixLen := Nat.dvd_sub sound.page page
    have backing := sound.backing
    have replaced : Shape m' (l₁ ++ [id, right] ++ l₂) rest := by
      refine whole.replace effect.region ?_ ?_ ?_ ?_ ?_ ?_ ?_ ?_
      · intro j inRest
        exact effect.other j (notId j inRest) (notRight j (by grind))
      · intro j inNew
        rcases List.mem_pair.mp inNew with rfl | rfl
        · exact sound.part (lOccupied.trans sound.occupied) (by omega) (lLen ▸ page) lState
            (by rw [lCommitted, lLen])
        · exact sound.part rOccupied (by omega) (rLen ▸ suffixPage) rState (by rw [rCommitted, rLen])
      · intro lo hi middle
        simp only [Tiles] at middle ⊢
        omega
      · have := effect.freeBytes
        simp only [List.map_cons, List.map_nil, List.sum_cons, List.sum_nil, Slot.freeLen, lState, rState,
          lLen, rLen]
        split <;> omega
      · have := effect.committedBytes
        simp only [List.map_cons, List.map_nil, List.sum_cons, List.sum_nil, lCommitted, rCommitted]
        split <;> omega
      · intro j
        simp only [List.mem_cons, List.not_mem_nil]
        tauto
      · intro j spare
        have other : j ≠ right := fun same => (List.nodup_cons.mp unusedNodup).1 (same ▸ spare)
        have notHere : j ≠ id := (shape.apart listed (List.mem_cons_of_mem _ spare)).symm
        obtain ⟨-, -, -, -, occupied, -⟩ := Slot.fields_of_body (effect.other j notHere other)
        exact occupied.trans (shape.vacant j (by simp [spare]))
      · have := effect.unusedSlots
        have := shape.count
        simp only [List.length_cons] at this
        omega
    simpa using replaced

/-! ## Merge -/

/-- The slot `right` was retired and `left` became `k`. -/
structure MergedTo (m m' : ExtentMap) (left right : Nat) (k : Slot) : Prop where
  region : SameRegion m m'
  keptBody : (m'.slots left).body = k.body
  retired : (m'.slots right).body = { (m.slots right).body with
    occupied := false, generation := wrappingSucc32 (m.slots right).generation }
  other : ∀ j, j ≠ left → j ≠ right → (m'.slots j).body = (m.slots j).body
  committedBytes : m'.committedBytes = m.committedBytes
  unusedSlots : m'.unusedSlots = m.unusedSlots + 1

variable {left : Nat} {k : Slot}

/-- The effect of retiring `right` after a write to `left` is read off the core. -/
theorem mergedTo_of_core (freeBytes : Nat) (ne : left ≠ right)
    (core : m'.core = ({ m.core.put left k.body with freeBytes } : ExtentMap)) :
    MergedTo m (m'.pushSlot right) left right k ∧ (m'.pushSlot right).freeBytes = freeBytes := by
  have final := pushSlot_core (m := m') (i := right)
  obtain ⟨cap, base, len, arena, free, committed, spare⟩ := scalars_of_core core
  obtain ⟨cap', base', len', arena', free', committed', spare'⟩ := scalars_of_core final
  have rightBody : (m'.slots right).body = (m.slots right).body := by
    rw [body_of_core core]
    simp [put, update_of_ne ne.symm, ExtentMap.core]
  refine ⟨⟨⟨cap'.trans cap, base'.trans base, len'.trans len, arena'.trans arena⟩, ?_, ?_, ?_,
    committed'.trans committed, ?_⟩, free'.trans free⟩
  · rw [body_of_core final]
    simp only [put, update_of_ne ne, core, update_self]
  · rw [body_of_core final]
    simp only [put, update_self, rightBody]
    have generation := (Slot.fields_of_body rightBody).2.2.2.2.2
    rw [generation]
  · intro j notLeft notRight
    rw [body_of_core final]
    simp only [put, update_of_ne notRight, core, update_of_ne notLeft]
    rfl
  · rw [spare', spare]
    rfl

/-- Merging two neighbours keeps the back-end well formed, whatever the kept
slot becomes, as long as it is sound and covers both. -/
theorem WF.mergedTo (wf : WF m (l₁ ++ left :: right :: l₂) unused) (effect : MergedTo m m' left right k)
    (sound : k.Sound) (base : k.base = (m.slots left).base)
    (len : k.len = (m.slots left).len + (m.slots right).len)
    (committed : k.committedLen = (m.slots left).committedLen + (m.slots right).committedLen)
    (free : m'.freeBytes + (m.slots left).freeLen + (m.slots right).freeLen = m.freeBytes + k.freeLen)
    (indexed : Indexed m' (l₁ ++ left :: l₂)
      (fun j => j ∈ l₁ ++ left :: l₂ ∧ (m'.slots j).state.isFree = true) (right :: unused)) :
    WF m' (l₁ ++ left :: l₂) (right :: unused) := by
  refine ⟨indexed, ?_⟩
  have shape := wf.shape
  have nodup := wf.indexed.nodup
  simp only [List.nodup_append, List.nodup_cons, List.mem_cons] at nodup
  have apart : ∀ j, j ∈ l₁ ∨ j ∈ l₂ → j ≠ left ∧ j ≠ right := by grind
  obtain ⟨kBase, kLen, kCommitted, kState, kOccupied, -⟩ := Slot.fields_of_body effect.keptBody
  have whole : Shape m (l₁ ++ [left, right] ++ l₂) unused := by simpa using shape
  have replaced : Shape m' (l₁ ++ [left] ++ l₂) (right :: unused) := by
    refine whole.replace effect.region ?_ ?_ ?_ ?_ ?_ ?_ ?_ ?_
    · exact fun j inRest => effect.other j (apart j inRest).1 (apart j inRest).2
    · intro j inNew
      rw [List.mem_singleton.mp inNew]
      exact sound.of_body effect.keptBody
    · intro lo hi middle
      simp only [Tiles] at middle ⊢
      omega
    · simp only [List.map_cons, List.map_nil, List.sum_cons, List.sum_nil]
      have kept : (m'.slots left).freeLen = k.freeLen := by simp [Slot.freeLen, kState, kLen]
      omega
    · have := effect.committedBytes
      simp only [List.map_cons, List.map_nil, List.sum_cons, List.sum_nil]
      omega
    · intro j
      simp only [List.mem_cons, List.not_mem_nil]
      tauto
    · intro j spare
      rcases List.mem_cons.mp spare with rfl | spare
      · have occupied := congrArg Slot.occupied effect.retired
        exact occupied
      · have notLeft := (shape.apart (j := j) (i := left) (by simp) spare).symm
        have notRight := (shape.apart (j := j) (i := right) (by simp) spare).symm
        obtain ⟨-, -, -, -, occupied, -⟩ := Slot.fields_of_body (effect.other j notLeft notRight)
        exact occupied.trans (shape.vacant j spare)
    · have := effect.unusedSlots
      have := shape.count
      simp only [List.length_cons]
      omega
  simpa using replaced

theorem mergeable_iff :
    mergeable lv rv = true ↔ lv.stop = rv.base ∧ lv.arena = rv.arena ∧ lv.state.isFree = true ∧
      rv.state.isFree = true ∧ (lv.committedLen = lv.len ↔ rv.committedLen = rv.len) ∧
      lv.hugeLen = 0 ∧ rv.hugeLen = 0 := by
  simp only [mergeable, Bool.and_eq_true, decide_eq_true_eq, beq_iff_eq, decide_eq_decide, and_assoc]

/-- Extents the merge gate lets through: distinct free neighbours that are
both backed or both unbacked. -/
theorem WF.mergeIn_eq (wf : WF m addr unused) (ran : m.mergeIn left right = (true, m')) :
    left ∈ addr ∧ right ∈ addr ∧ (m.slots left).base + (m.slots left).len = (m.slots right).base ∧
      (m.slots left).state.isFree = true ∧ (m.slots right).state.isFree = true ∧
      ((m.slots left).committedLen = (m.slots left).len ↔
        (m.slots right).committedLen = (m.slots right).len) ∧
      m' = m.installMerge (snapshot left (m.slots left)) (snapshot right (m.slots right)) left right := by
  simp only [mergeIn] at ran
  split at ran
  case h_2 => cases ran
  rename_i lv rv seenLeft seenRight
  obtain ⟨listedLeft, rfl⟩ := wf.view_some seenLeft
  obtain ⟨listedRight, rfl⟩ := wf.view_some seenRight
  split at ran
  · cases ran
  rename_i gate
  simp only [not_or, Bool.not_eq_false] at gate
  obtain ⟨ne, gate⟩ := gate
  obtain ⟨meets, -, freeLeft, freeRight, compatible, -⟩ := mergeable_iff.mp gate
  have stop : (m.slots left).base + (m.slots left).len = (m.slots right).base := by
    have := wf.shape.within listedLeft
    have := wf.shape.bound
    simp only [snapshot, Extent.stop] at meets
    omega
  simp only [Prod.mk.injEq, true_and] at ran
  exact ⟨listedLeft, listedRight, stop, freeLeft, freeRight, compatible, ran.symm⟩

theorem mergeIn_false (ran : m.mergeIn left right = (false, m')) : m' = m := by
  simp only [mergeIn] at ran
  split at ran
  · split at ran
    · simpa using ran.symm
    · cases ran
  · simpa using ran.symm

/-- What a merge does to the slots. -/
theorem installMerge_effect (lv rv : Extent) (ne : left ≠ right) :
    MergedTo m (m.installMerge lv rv left right) left right
        (mergedSlot lv rv (m.slots right).canary (m.slots left)) ∧
      (m.installMerge lv rv left right).freeBytes = m.freeBytes := by
  have unlinked : (((m.binRemove left).binRemove right).addrRemove right).core = m.core := by simp
  have written := core_put_map (i := left) (f := mergedSlot lv rv (m.get right).canary) unlinked
    fun _ => rfl
  exact mergedTo_of_core (k := mergedSlot lv rv (m.slots right).canary (m.slots left))
    m.freeBytes ne ((binInsert_core (i := left)).trans written)

/-- The neighbour that goes is the second of the two in address order. -/
theorem erase_second (nodup : (l₁ ++ left :: right :: l₂).Nodup) :
    (l₁ ++ left :: right :: l₂).erase right = l₁ ++ left :: l₂ := by
  have notBefore : right ∉ l₁ ++ [left] := by
    simp only [List.nodup_append, List.nodup_cons, List.mem_cons] at nodup
    simp only [List.mem_append, List.mem_singleton]
    grind
  rw [show l₁ ++ left :: right :: l₂ = l₁ ++ [left] ++ right :: l₂ by simp,
    List.erase_append_right _ notBefore]
  simp

theorem Indexed.installMerge (h : Indexed m (l₁ ++ left :: right :: l₂) S unused) (lv rv : Extent)
    (freeLeft : S left) (freeRight : S right) (ne : left ≠ right) (spare : right ∉ unused) :
    Indexed (m.installMerge lv rv left right) (l₁ ++ left :: l₂) (fun j => S j ∧ j ≠ right)
      (right :: unused) := by
  have leftReal : left ≠ NIL := h.addr_ne_nil (by simp)
  have rightReal : right ≠ NIL := h.addr_ne_nil (by simp)
  have unbinned := (h.binRemove freeLeft).binRemove (i := right) ⟨freeRight, ne.symm⟩
  have unlisted := unbinned.addrRemove (i := right) (by simp)
  rw [erase_second h.nodup] at unlisted
  have rewritten := unlisted.put (i := left) (s := mergedSlot lv rv (m.get right).canary
    ((((m.binRemove left).binRemove right).addrRemove right).get left)) ⟨rfl, rfl, rfl, rfl, rfl⟩
    fun inS => absurd rfl inS.1.2
  have retired := (rewritten.binInsert (i := left) (by simp) leftReal).pushSlot spare rightReal
  refine retired.congr fun j => ?_
  rcases eq_or_ne j left with rfl | other
  · simp [freeLeft, ne]
  · simp [other]

theorem mergedSlot_free : (mergedSlot lv rv canary s).state.isFree = true := by
  simp only [mergedSlot]
  split <;> rfl

/-- Two backed extents merge into a dirty one, two unbacked ones into a
released one. -/
theorem mergedSlot_sound (canary : Bool) (left : s.Sound) (right : t.Sound)
    (compatible : s.committedLen = s.len ↔ t.committedLen = t.len) :
    (mergedSlot (snapshot i s) (snapshot j t) canary s).Sound := by
  have leftPos := left.pos
  have rightPos := right.pos
  have leftBacking := left.backing
  have rightBacking := right.backing
  refine ⟨left.occupied, ?_, ?_, ?_, fun _ => ?_⟩
  · simp only [mergedSlot, snapshot]; omega
  · exact Nat.dvd_add left.page right.page
  · simp only [mergedSlot, snapshot]; omega
  · by_cases backed : s.committedLen + t.committedLen = s.len + t.len <;>
      simp [mergedSlot, snapshot, backed, ExtentState.isBacked]

theorem WF.mergeIn (wf : WF m addr unused) (ran : m.mergeIn left right = (true, m')) :
    ∃ l₁ l₂, addr = l₁ ++ left :: right :: l₂ ∧ WF m' (l₁ ++ left :: l₂) (right :: unused) ∧
      MergedTo m m' left right (mergedSlot (snapshot left (m.slots left))
        (snapshot right (m.slots right)) (m.slots right).canary (m.slots left)) ∧
      (m.slots left).state.isFree = true ∧ (m.slots right).state.isFree = true := by
  obtain ⟨listedLeft, listedRight, meets, freeLeft, freeRight, compatible, rfl⟩ := wf.mergeIn_eq ran
  have soundLeft := wf.shape.sound left listedLeft
  have soundRight := wf.shape.sound right listedRight
  obtain ⟨l₁, l₂, rfl⟩ := wf.shape.tiles.adjacent (fun i listed => (wf.shape.sound i listed).pos)
    listedLeft listedRight meets
  have ne : left ≠ right := by
    rintro rfl
    have := soundLeft.pos
    omega
  have spare : right ∉ unused := fun spare => wf.shape.apart listedRight spare rfl
  obtain ⟨effect, free⟩ := installMerge_effect (m := m) (snapshot left (m.slots left))
    (snapshot right (m.slots right)) ne
  have sound := mergedSlot_sound (i := left) (j := right) (m.slots right).canary
    soundLeft soundRight compatible
  have indexed := wf.indexed.installMerge (snapshot left (m.slots left))
    (snapshot right (m.slots right)) ⟨listedLeft, freeLeft⟩ ⟨listedRight, freeRight⟩ ne spare
  generalize m.installMerge (snapshot left (m.slots left)) (snapshot right (m.slots right)) left right
    = m' at *
  have kept : (m'.slots left).state.isFree = true := by
    rw [(Slot.fields_of_body effect.keptBody).2.2.2.1]
    exact mergedSlot_free
  refine ⟨l₁, l₂, rfl, wf.mergedTo effect sound rfl rfl rfl ?_ (indexed.congr fun j => ?_), effect,
    freeLeft, freeRight⟩
  · rw [free]
    simp only [Slot.freeLen, freeLeft, freeRight, mergedSlot_free, ↓reduceIte]
    exact Nat.add_assoc ..
  · rcases eq_or_ne j left with rfl | notLeft
    · simp [kept, freeLeft, ne]
    rcases eq_or_ne j right with rfl | notRight
    · have nodup := wf.indexed.nodup
      simp only [List.nodup_append, List.nodup_cons, List.mem_cons] at nodup
      simp only [List.mem_append, List.mem_cons]
      grind
    · rw [(Slot.fields_of_body (effect.other j notLeft notRight)).2.2.2.1]
      simp [notRight]

/-! ## Live extents -/

/-- The slot holds an extent that was handed out. -/
def Live (m : ExtentMap) (j : Nat) : Prop :=
  j < m.cap ∧ (m.slots j).occupied = true ∧ (m.slots j).state = .active

/-- No live extent was touched, and none appeared. -/
structure SameLive (m m' : ExtentMap) : Prop where
  region : SameRegion m m'
  kept : ∀ j, m.Live j → (m'.slots j).body = (m.slots j).body
  back : ∀ j, m'.Live j → m.Live j

variable {m'' : ExtentMap}

theorem Live.of_body (live : m.Live j) (region : SameRegion m m')
    (same : (m'.slots j).body = (m.slots j).body) : m'.Live j := by
  obtain ⟨-, -, -, state, occupied, -⟩ := Slot.fields_of_body same
  exact ⟨region.cap ▸ live.1, occupied.trans live.2.1, state.trans live.2.2⟩

theorem SameLive.live_iff (h : SameLive m m') : m'.Live j ↔ m.Live j :=
  ⟨h.back j, fun live => live.of_body h.region (h.kept j live)⟩

theorem SameLive.refl : SameLive m m := ⟨.refl, fun _ _ => rfl, fun _ live => live⟩

theorem SameLive.trans (h : SameLive m m') (h' : SameLive m' m'') : SameLive m m'' :=
  ⟨h.region.trans h'.region, fun j live => (h'.kept j (h.live_iff.mpr live)).trans (h.kept j live),
    fun j live => h.back j (h'.back j live)⟩

theorem WF.live_iff (wf : WF m addr unused) : m.Live j ↔ j ∈ addr ∧ (m.slots j).state = .active := by
  constructor
  · rintro ⟨lt, occupied, state⟩
    rcases (wf.shape.covers j).mp lt with listed | spare
    · exact ⟨listed, state⟩
    · simp [wf.shape.vacant j spare] at occupied
  · rintro ⟨listed, state⟩
    exact ⟨wf.shape.lt_cap listed, (wf.shape.sound j listed).occupied, state⟩

private theorem not_active {s : ExtentState} (free : s.isFree = true) : s ≠ .active := by
  rintro rfl
  cases free

/-- Splitting a free extent touches no live one. -/
theorem SplitAt.sameLive (h : SplitAt m m' id prefixLen right) (free : (m.slots id).state.isFree = true)
    (vacant : (m.slots right).occupied = false) : SameLive m m' := by
  refine ⟨h.region, fun j live => h.other j ?_ ?_, fun j live => ?_⟩
  · rintro rfl
    exact not_active free live.2.2
  · rintro rfl
    simp [live.2.1] at vacant
  · have notId : j ≠ id := by
      rintro rfl
      exact not_active free (h.left_fields.2.2.1 ▸ live.2.2)
    have notRight : j ≠ right := by
      rintro rfl
      exact not_active free (h.right_fields.2.2.1 ▸ live.2.2)
    obtain ⟨-, -, -, state, occupied, -⟩ := Slot.fields_of_body (h.other j notId notRight)
    exact ⟨h.region.cap ▸ live.1, occupied ▸ live.2.1, state ▸ live.2.2⟩

/-- Merging free extents touches no live one. -/
theorem MergedTo.sameLive (h : MergedTo m m' left right k) (freeLeft : (m.slots left).state.isFree = true)
    (freeRight : (m.slots right).state.isFree = true) (free : k.state.isFree = true) : SameLive m m' := by
  refine ⟨h.region, fun j live => h.other j ?_ ?_, fun j live => ?_⟩
  · rintro rfl
    exact not_active freeLeft live.2.2
  · rintro rfl
    exact not_active freeRight live.2.2
  · have notLeft : j ≠ left := by
      rintro rfl
      exact not_active free ((Slot.fields_of_body h.keptBody).2.2.2.1 ▸ live.2.2)
    have notRight : j ≠ right := by
      rintro rfl
      have occupied : (m'.slots j).occupied = false := congrArg Slot.occupied h.retired
      simp [live.2.1] at occupied
    obtain ⟨-, -, -, state, occupied, -⟩ := Slot.fields_of_body (h.other j notLeft notRight)
    exact ⟨h.region.cap ▸ live.1, occupied ▸ live.2.1, state ▸ live.2.2⟩

end ExtentMap
end Topomalloc
