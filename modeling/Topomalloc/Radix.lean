import Topomalloc.Lib.Trie
import Topomalloc.PageMap

/-! The radix tree behind the page map, node by node, and that it refines the
page map.

A node is a pointer, zero for null; the metadata source hands out fresh nodes,
numbered in the order it does so. In an entry the owner is the address of its
descriptor. -/
namespace Topomalloc
open Function

/-! ## Entry encoding -/

namespace PageEntry

/-- `TAG_SMALL`, `TAG_LARGE`, `TAG_RELEASED`; the empty entry is the zero word. -/
def encode : PageEntry → Nat
  | .empty => 0
  | .small p => p ||| 1
  | .large p => p ||| 2
  | .released p => p ||| 3

/-- `decode`. -/
def decode (bits : Nat) : PageEntry :=
  let ptr := bits &&& (2 ^ 64 - 1 - 7)
  match bits &&& 7 with
  | 1 => .small ptr
  | 2 => .large ptr
  | 3 => .released ptr
  | _ => .empty

/-- The descriptor's address is an 8-aligned machine word. -/
def Aligned : PageEntry → Prop
  | .empty => True
  | .small p | .large p | .released p => 8 ∣ p ∧ p < 2 ^ 64

theorem tag_or (aligned : 8 ∣ p) (small : tag < 8) : p ||| tag = p + tag := by
  obtain ⟨k, rfl⟩ := aligned
  exact (Nat.two_pow_add_eq_or_of_lt (i := 3) small k).symm

theorem and_mask (tag : Nat) (aligned : 8 ∣ p) (word : p < 2 ^ 64) (small : tag < 8) :
    (p + tag) &&& 7 = tag ∧ (p + tag) &&& (2 ^ 64 - 1 - 7) = p := by
  obtain ⟨k, rfl⟩ := aligned
  refine ⟨?_, ?_⟩
  · rw [show (7 : Nat) = 2 ^ 3 - 1 from rfl, Nat.and_two_pow_sub_one_eq_mod]
    omega
  · -- the mask is `2 ^ 61 - 1` three bits up, where the tag has no bits
    have mask : (2 ^ 64 - 1 - 7 : Nat) = (2 ^ 61 - 1) * 2 ^ 3 := by decide
    apply Nat.eq_of_testBit_eq
    intro i
    rw [Nat.testBit_and, mask, Nat.testBit_mul_two_pow, Nat.mul_comm 8 k, show (8 : Nat) = 2 ^ 3 from rfl,
      Nat.testBit_mul_two_pow]
    by_cases high : 3 ≤ i
    · obtain ⟨j, rfl⟩ : ∃ j, i = j + 3 := ⟨i - 3, by omega⟩
      have quotient : (k * 2 ^ 3 + tag) / 2 ^ 3 = k := by omega
      rw [Nat.testBit_add, quotient, Nat.add_sub_cancel, Nat.testBit_two_pow_sub_one]
      by_cases inside : j < 61
      · simp [inside]
      · have above : k < 2 ^ j :=
          Nat.lt_of_lt_of_le (show k < 2 ^ 61 by omega) (Nat.pow_le_pow_right (by decide) (by omega))
        simp [inside, Nat.testBit_lt_two_pow above]
    · simp [high]

/-- An entry read back is the entry that was written. -/
theorem decode_encode (aligned : e.Aligned) : decode e.encode = e := by
  cases e with
  | empty => rfl
  | small p =>
    have masks := and_mask 1 aligned.1 aligned.2 (by decide)
    simp only [encode, decode, tag_or aligned.1 (show 1 < 8 by decide), masks]
  | large p =>
    have masks := and_mask 2 aligned.1 aligned.2 (by decide)
    simp only [encode, decode, tag_or aligned.1 (show 2 < 8 by decide), masks]
  | released p =>
    have masks := and_mask 3 aligned.1 aligned.2 (by decide)
    simp only [encode, decode, tag_or aligned.1 (show 3 < 8 by decide), masks]

theorem encode_inj {e' : PageEntry} (aligned : e.Aligned) (aligned' : e'.Aligned)
    (same : e.encode = e'.encode) : e = e' := by
  rw [← decode_encode aligned, same, decode_encode aligned']

end PageEntry

/-! ## The tree -/

/-- `(p >> (k * RADIX_BITS)) & SLOT_MASK`. -/
def slotIndex (p k : Nat) : Nat := (p >>> (k * 10)) &&& 1023

/-- `PageMap` with its nodes; `allocated` numbers them. -/
structure Radix where
  tree : Trie := ⟨0, fun _ _ => 0⟩
  nodeBytes : Nat := 0
  allocated : Nat := 0

namespace Radix

/-- The walk of `find_leaf` below `node`, over the groups left. -/
def findFrom (r : Radix) (p : Nat) : List Nat → Nat → Option Nat
  | [], node => some node
  | k :: groups, node =>
    let child := r.tree.words node (slotIndex p k)
    if child = 0 then none else r.findFrom p groups child

/-- `find_leaf`. -/
def findLeaf (r : Radix) (p : Nat) : Option Nat :=
  if r.tree.root = 0 then none else r.findFrom p [4, 3, 2, 1] r.tree.root

/-- `lookup`. -/
def lookup (r : Radix) (addr : Nat) : PageEntry :=
  match r.findLeaf (pageOf addr) with
  | some leaf => .decode (r.tree.words leaf (slotIndex (pageOf addr) 0))
  | none => .empty

variable {σ : Type} (E : Env σ) {k : Nat}

/-- The next node, zeroed and accounted for. -/
def zeroNode (r : Radix) : Radix where
  tree := ⟨r.tree.root, update r.tree.words (r.allocated + 1) fun _ => 0⟩
  nodeBytes := wrappingAdd64 r.nodeBytes 8192
  allocated := r.allocated + 1

/-- `alloc_node`. -/
def allocNode (r : Radix) (w : σ) : Option Nat × Radix × σ :=
  match E.metaOk w with
  | (false, w) => (none, r, w)
  | (true, w) => (some (r.allocated + 1), r.zeroNode, w)

/-- `root_or_create`. -/
def rootOrCreate (r : Radix) (w : σ) : Option Nat × Radix × σ :=
  if r.tree.root ≠ 0 then (some r.tree.root, r, w)
  else match r.allocNode E w with
    | (none, r, w) => (none, r, w)
    | (some node, r, w) => (some node, { r with tree := { r.tree with root := node } }, w)

/-- `child_or_create`. -/
def childOrCreate (r : Radix) (w : σ) (node i : Nat) : Option Nat × Radix × σ :=
  if r.tree.words node i ≠ 0 then (some (r.tree.words node i), r, w)
  else match r.allocNode E w with
    | (none, r, w) => (none, r, w)
    | (some child, r, w) => (some child, { r with tree := r.tree.write node i child }, w)

/-- The walk of `leaf_or_create` below `node`. -/
def createFrom (p : Nat) (r : Radix) (w : σ) : List Nat → Nat → Option Nat × Radix × σ
  | [], node => (some node, r, w)
  | k :: groups, node =>
    match r.childOrCreate E w node (slotIndex p k) with
    | (none, r, w) => (none, r, w)
    | (some child, r, w) => createFrom p r w groups child

/-- `leaf_or_create`. -/
def leafOrCreate (r : Radix) (w : σ) (p : Nat) : Option Nat × Radix × σ :=
  match r.rootOrCreate E w with
  | (none, r, w) => (none, r, w)
  | (some root, r, w) => createFrom E p r w [4, 3, 2, 1] root

/-- The first phase of `publish_range`, which is all of `reserve_large_range`. -/
def reservePages (r : Radix) (w : σ) : List Nat → Bool × Radix × σ
  | [] => (true, r, w)
  | p :: rest =>
    match r.leafOrCreate E w p with
    | (none, r, w) => (false, r, w)
    | (some _, r, w) => r.reservePages w rest

/-- The second phase of `publish_range`; `none` where `expect` would panic. -/
def publishPages (entry : Nat) (r : Radix) : List Nat → Option Radix
  | [] => some r
  | p :: rest =>
    match r.findLeaf p with
    | none => none
    | some leaf =>
      let prior := r.tree.words leaf (slotIndex p 0)
      if prior = 0 ∨ prior = entry then
        publishPages entry { r with tree := r.tree.write leaf (slotIndex p 0) entry } rest
      else publishPages entry r rest

/-- `publish_range`; `none` where it would panic. -/
def publishRange (r : Radix) (w : σ) (base stop : Nat) (entry : PageEntry) : Option (Bool × Radix × σ) :=
  match r.reservePages E w (pageRange base stop) with
  | (false, r, w) => some (false, r, w)
  | (true, r, w) =>
    match r.publishPages entry.encode (pageRange base stop) with
    | none => none
    | some r => some (true, r, w)

/-- `overwrite_existing_range`. -/
def overwritePages (entry : Nat) (r : Radix) : List Nat → Radix
  | [] => r
  | p :: rest =>
    match r.findLeaf p with
    | none => overwritePages entry r rest
    | some leaf =>
      overwritePages entry { r with tree := r.tree.write leaf (slotIndex p 0) entry } rest

/-! ## Refinement -/

/-- Page numbers of 64-bit addresses. -/
def pageCount : Nat := 1024 ^ (4 + 1)

theorem pageOf_lt (word : addr < 2 ^ 64) : pageOf addr < pageCount := by
  unfold pageOf pageCount pageSize
  omega

theorem slotIndex_eq (p k : Nat) : slotIndex p k = Trie.digit 1024 p k := by
  rw [slotIndex, show (1023 : Nat) = 2 ^ 10 - 1 from rfl, Nat.and_two_pow_sub_one_eq_mod,
    Nat.shiftRight_eq_div_pow, Trie.digit, Nat.mul_comm, Nat.pow_mul]

/-- The node at depth `d` on the way to page `p`. -/
def reach (r : Radix) (p d : Nat) : Nat := r.tree.reach 1024 4 p d

/-- The groups of the walk, highest first. -/
def groups : Nat → List Nat
  | 0 => []
  | k + 1 => (k + 1) :: groups k

/-- One step of the walk, as the source indexes it. -/
theorem reach_step (r : Radix) (p : Nat) (le : k + 1 ≤ 4) (there : r.reach p (4 - (k + 1)) ≠ 0) :
    r.tree.words (r.reach p (4 - (k + 1))) (slotIndex p (k + 1)) = r.reach p (4 - k) := by
  obtain ⟨d, depth⟩ : ∃ d, 4 - (k + 1) = d := ⟨_, rfl⟩
  have next : 4 - k = d + 1 := by omega
  have group : k + 1 = 4 - d := by omega
  rw [depth] at there ⊢
  rw [next, slotIndex_eq, group]
  exact (if_neg there).symm

theorem findFrom_groups (r : Radix) (p : Nat) (le : k ≤ 4) (there : r.reach p (4 - k) ≠ 0) :
    r.findFrom p (groups k) (r.reach p (4 - k)) =
      if r.reach p 4 = 0 then none else some (r.reach p 4) := by
  induction k with
  | zero =>
    rw [if_neg there]
    rfl
  | succ k ih =>
    simp only [groups, findFrom]
    rw [reach_step r p le there]
    by_cases absent : r.reach p (4 - k) = 0
    · have none : r.reach p 4 = 0 := by
        by_contra leaf
        exact Trie.reach_ne_zero_of_le (d := 4 - k) (by omega) leaf absent
      rw [if_pos absent, if_pos none]
    · rw [if_neg absent]
      exact ih (by omega) absent

theorem findLeaf_eq (r : Radix) (p : Nat) :
    r.findLeaf p = if r.reach p 4 = 0 then none else some (r.reach p 4) := by
  rw [findLeaf]
  by_cases empty : r.tree.root = 0
  · have none : r.reach p 4 = 0 := by
      by_contra leaf
      exact Trie.reach_ne_zero_of_le (d := 0) (by decide) leaf empty
    rw [if_pos empty, if_pos none]
  · rw [if_neg empty]
    exact findFrom_groups r p (k := 4) (by decide) empty

/-- The tree stands for the page map: it has the nodes of the page map, each on
its own, and in every leaf the page map's entries. -/
structure Refines (r : Radix) (m : PageMap) : Prop where
  nodes : ∀ p < pageCount, ∀ d ≤ 4, m.nodes (5 - d, Trie.stem 1024 4 p d) = decide (r.reach p d ≠ 0)
  spread : r.tree.Spread 1024 4
  bounded : ∀ p < pageCount, ∀ d ≤ 4, r.reach p d ≤ r.allocated
  entries : ∀ p < pageCount, r.reach p 4 ≠ 0 →
    r.tree.words (r.reach p 4) (slotIndex p 0) = (m.entries p).encode
  aligned : ∀ p, (m.entries p).Aligned

variable {E} {r r' : Radix} {m m' : PageMap} {w w' : σ} {p q d : Nat} {pages : List Nat} {ok : Bool}

theorem nodePath_eq (p : Nat) :
    nodePath p = (5, 0) :: [4, 3, 2, 1].map fun k => (k, Trie.stem 1024 4 p (5 - k)) := by
  simp [nodePath, Trie.stem]

theorem Refines.findLeaf (refines : Refines r m) (inside : p < pageCount) :
    m.findLeaf p = decide (r.reach p 4 ≠ 0) := by
  have nodes := refines.nodes p inside
  have top : Trie.stem 1024 4 p 0 = 0 := Nat.div_eq_of_lt inside
  have deep : ∀ d ≤ 4, r.reach p 4 ≠ 0 → r.reach p d ≠ 0 := fun d le leaf =>
    Trie.reach_ne_zero_of_le le leaf
  rw [PageMap.findLeaf, nodePath_eq p]
  simp only [List.all_cons, List.map_cons, List.map_nil, List.all_nil, Bool.and_true]
  have root := nodes 0 (by decide)
  rw [top] at root
  rw [root, nodes 1 (by decide), nodes 2 (by decide), nodes 3 (by decide), nodes 4 (by decide)]
  by_cases leaf : r.reach p 4 = 0
  · simp [leaf]
  · simp [leaf, deep 0 (by decide) leaf, deep 1 (by decide) leaf, deep 2 (by decide) leaf,
      deep 3 (by decide) leaf]

/-- A lookup in the tree is a lookup in the page map. -/
theorem Refines.lookup (refines : Refines r m) (word : addr < 2 ^ 64) : r.lookup addr = m.lookup addr := by
  have inside := pageOf_lt word
  rw [Radix.lookup, findLeaf_eq, PageMap.lookup, refines.findLeaf inside]
  by_cases leaf : r.reach (pageOf addr) 4 = 0
  · simp [leaf]
  · simp only [leaf, if_false, ne_eq, not_false_eq_true, decide_true, if_true]
    rw [refines.entries _ inside leaf, PageEntry.decode_encode (refines.aligned _)]

/-! ## Growing the tree -/

theorem reach_zero : ({} : Radix).reach p d = 0 := by
  cases d with
  | zero => rfl
  | succ d =>
    simp only [reach, Trie.reach, ite_self]

theorem refines_new : Refines {} PageMap.new where
  nodes := fun p _ d _ => by simp [PageMap.new, reach_zero]
  spread := fun p _ d _ _ _ _ _ met _ => absurd (reach_zero (p := p) (d := d)) met
  bounded := fun p _ d _ => by rw [reach_zero]
  entries := fun p _ leaf => absurd reach_zero leaf
  aligned := fun _ => trivial

section
variable (refines : Refines r m)
include refines

theorem Refines.unused (inside : p < pageCount) (le : d ≤ 4) : r.reach p d ≠ r.allocated + 1 := by
  have := refines.bounded p inside d le
  omega

theorem Refines.reach_zeroNode (inside : p < pageCount) (le : d ≤ 4) : r.zeroNode.reach p d = r.reach p d :=
  Trie.reach_update le fun _ => refines.unused inside

/-- A node that is not yet linked changes nothing. -/
theorem Refines.zeroNode : Refines r.zeroNode m where
  nodes := by
    intro p inside d le
    rw [refines.reach_zeroNode inside le]
    exact refines.nodes p inside d le
  spread := by
    intro p p' d d' inside inside' le le' met same
    have first := refines.reach_zeroNode inside le
    have second := refines.reach_zeroNode inside' le'
    unfold reach at first second
    rw [first] at met same
    rw [second] at same
    exact refines.spread p p' d d' inside inside' le le' met same
  bounded := by
    intro p inside d le
    rw [refines.reach_zeroNode inside le]
    exact Nat.le_succ_of_le (refines.bounded p inside d le)
  entries := by
    intro p inside leaf
    rw [refines.reach_zeroNode inside (by decide)] at leaf ⊢
    simp only [Radix.zeroNode, update_of_ne (refines.unused inside (le_refl 4))]
    exact refines.entries p inside leaf
  aligned := refines.aligned

/-- A page without a leaf has no owner. -/
theorem Refines.empty (inside : p < pageCount) (absent : r.reach p 4 = 0) : m.entries p = .empty := by
  by_contra owned
  have leaf : m.findLeaf p = true := m.rooted p owned
  rw [refines.findLeaf inside] at leaf
  simp [absent] at leaf

/-- A new root. -/
theorem Refines.root (empty : r.tree.root = 0) :
    Refines { r.zeroNode with tree := { r.zeroNode.tree with root := r.allocated + 1 } }
      (m.addNode (5, 0)) := by
  have before : ∀ p d, r.reach p d = 0 := by
    intro p d
    by_contra there
    exact Trie.reach_ne_zero_of_le (Nat.zero_le d) there empty
  have after : ∀ p d, Radix.reach
      { r.zeroNode with tree := { r.zeroNode.tree with root := r.allocated + 1 } } p d =
      if d = 0 then r.allocated + 1 else 0 := by
    intro p d
    cases d with
    | zero => rfl
    | succ d =>
      induction d with
      | zero => simp [reach, Trie.reach, Radix.zeroNode]
      | succ d ih =>
        rw [if_neg (by omega)] at ih ⊢
        exact if_pos ih
  refine ⟨?_, ?_, ?_, ?_, refines.aligned⟩
  · intro p inside d le
    rw [after, PageMap.addNode_nodes, refines.nodes p inside d le, before]
    by_cases top : d = 0
    · subst top
      have stem : Trie.stem 1024 4 p 0 = 0 := Nat.div_eq_of_lt inside
      simp [stem]
    · have lower : 5 - d ≠ 5 := by omega
      simp [top, lower]
  · intro p p' d d' inside inside' _ _ met same
    change Radix.reach _ p d ≠ 0 at met
    change Radix.reach _ p d = Radix.reach _ p' d' at same
    rw [after] at met same
    rw [after] at same
    have top : d = 0 := by
      by_contra deeper
      exact met (if_neg deeper)
    have top' : d' = 0 := by
      by_contra deeper
      rw [if_pos top, if_neg deeper] at same
      omega
    subst top top'
    exact ⟨rfl, (Nat.div_eq_of_lt inside).trans (Nat.div_eq_of_lt inside').symm⟩
  · intro p _ d _
    rw [after]
    split
    · exact Nat.le_refl _
    · exact Nat.zero_le _
  · intro p _ leaf
    exact absurd (after p 4) (by rw [if_neg (by decide)]; exact leaf)

/-- A new node below the one at depth `d` on the way to `q`. -/
theorem Refines.link (key : q < pageCount) (inner : d < 4)
    (there : r.reach q d ≠ 0) (absent : r.reach q (d + 1) = 0) :
    Refines { r.zeroNode with
        tree := r.zeroNode.tree.write (r.reach q d) (slotIndex q (4 - d)) (r.allocated + 1) }
      (m.addNode (5 - (d + 1), Trie.stem 1024 4 q (d + 1))) ∧
    Radix.reach { r.zeroNode with
        tree := r.zeroNode.tree.write (r.reach q d) (slotIndex q (4 - d)) (r.allocated + 1) } q (d + 1) =
      r.allocated + 1 := by
  have spare := refines.zeroNode
  have same : r.zeroNode.tree.reach 1024 4 q d = r.reach q d := refines.reach_zeroNode key (by omega)
  have free : r.zeroNode.tree.words (r.zeroNode.tree.reach 1024 4 q d) (Trie.digit 1024 q (4 - d)) = 0 := by
    have next : r.zeroNode.reach q (d + 1) = 0 := by
      rw [refines.reach_zeroNode key (by omega), absent]
    rw [reach, Trie.reach, if_neg (by rw [same]; exact there)] at next
    exact next
  have blank : ∀ i, r.zeroNode.tree.words (r.allocated + 1) i = 0 := by
    intro i
    simp [Radix.zeroNode]
  have unused : ∀ p d, p < pageCount → d ≤ 4 → r.zeroNode.tree.reach 1024 4 p d ≠ r.allocated + 1 := by
    intro p d inside le
    have kept : r.zeroNode.tree.reach 1024 4 p d = r.reach p d := refines.reach_zeroNode inside le
    rw [kept]
    exact refines.unused inside le
  have met : r.zeroNode.tree.reach 1024 4 q d ≠ 0 := by rw [same]; exact there
  rw [slotIndex_eq, ← same]
  generalize grown : ({ r.zeroNode with
      tree := r.zeroNode.tree.write (r.zeroNode.tree.reach 1024 4 q d) (Trie.digit 1024 q (4 - d))
        (r.allocated + 1) } : Radix) = r'
  have after : ∀ p < pageCount, ∀ d' ≤ 4, r'.reach p d' =
      if d' = d + 1 ∧ Trie.stem 1024 4 p d' = Trie.stem 1024 4 q d' then r.allocated + 1
      else r.reach p d' := by
    intro p inside d' le
    rw [← refines.reach_zeroNode inside le, ← grown]
    exact Trie.reach_link (by decide) spare.spread inner key met free blank unused inside le
  refine ⟨⟨?_, ?_, ?_, ?_, refines.aligned⟩, ?_⟩
  · intro p inside d' le
    rw [after p inside d' le, PageMap.addNode_nodes, refines.nodes p inside d' le]
    by_cases fresh : d' = d + 1 ∧ Trie.stem 1024 4 p d' = Trie.stem 1024 4 q d'
    · obtain ⟨rfl, stems⟩ := fresh
      simp [stems]
    · have other : ¬ ((5 - d', Trie.stem 1024 4 p d') = (5 - (d + 1), Trie.stem 1024 4 q (d + 1))) := by
        intro pair
        obtain ⟨level, stems⟩ := Prod.mk.inj pair
        have depth : d' = d + 1 := by omega
        exact fresh ⟨depth, depth ▸ stems⟩
      rw [if_neg fresh, decide_eq_false other, Bool.or_false]
  · rw [← grown]
    exact Trie.Spread.link (by decide) spare.spread inner key met free blank unused
  · intro p inside d' le
    rw [after p inside d' le, ← grown]
    split
    · exact Nat.le_refl _
    · exact Nat.le_succ_of_le (refines.bounded p inside d' le)
  · intro p inside leaf
    rw [after p inside 4 (by decide)] at leaf ⊢
    rw [← grown]
    simp only [Trie.write_words]
    by_cases fresh : 4 = d + 1 ∧ Trie.stem 1024 4 p 4 = Trie.stem 1024 4 q 4
    · -- the new node is the leaf of `p`, which had none
      have none : r.reach p 4 = 0 := by
        have congr : r.reach p 4 = r.reach q 4 := Trie.reach_congr (by decide) (by decide) fresh.2
        rw [congr, fresh.1]
        exact absent
      have apart : r.allocated + 1 ≠ r.zeroNode.tree.reach 1024 4 q d := fun hit =>
        unused q d key (by omega) hit.symm
      rw [if_pos fresh, if_neg fun hit => apart hit.1, blank, PageMap.addNode_entries, refines.empty inside none]
      rfl
    · rw [if_neg fresh] at leaf ⊢
      have kept : r.zeroNode.tree.reach 1024 4 p 4 = r.reach p 4 := refines.reach_zeroNode inside (by decide)
      have apart : r.reach p 4 ≠ r.zeroNode.tree.reach 1024 4 q d := by
        intro hit
        have depth := (spare.spread p q 4 d inside key (by decide) (by omega)
          (by rw [kept]; exact leaf) (by rw [kept]; exact hit)).1
        omega
      rw [if_neg fun hit => apart hit.1, ← kept]
      exact spare.entries p inside (by rw [refines.reach_zeroNode inside (by decide)]; exact leaf)
  · rw [after q key (d + 1) (by omega), if_pos ⟨rfl, rfl⟩]

/-! ## The walks in step -/

/-- One step of both walks: the child is there, or the metadata source refuses,
or both grow the same node. -/
theorem Refines.childOrCreate (inside : p < pageCount) (inner : d < 4) (there : r.reach p d ≠ 0) (w : σ) :
    (m.nodes (5 - (d + 1), Trie.stem 1024 4 p (d + 1)) = true ∧ r.reach p (d + 1) ≠ 0 ∧
      r.childOrCreate E w (r.reach p d) (slotIndex p (4 - d)) = (some (r.reach p (d + 1)), r, w)) ∨
    (m.nodes (5 - (d + 1), Trie.stem 1024 4 p (d + 1)) = false ∧ ∃ w', E.metaOk w = (false, w') ∧
      r.childOrCreate E w (r.reach p d) (slotIndex p (4 - d)) = (none, r, w')) ∨
    (m.nodes (5 - (d + 1), Trie.stem 1024 4 p (d + 1)) = false ∧ ∃ w' r', E.metaOk w = (true, w') ∧
      r.childOrCreate E w (r.reach p d) (slotIndex p (4 - d)) = (some (r'.reach p (d + 1)), r', w') ∧
      r'.reach p (d + 1) ≠ 0 ∧
      Refines r' (m.addNode (5 - (d + 1), Trie.stem 1024 4 p (d + 1)))) := by
  have child : r.tree.words (r.reach p d) (slotIndex p (4 - d)) = r.reach p (d + 1) := by
    rw [slotIndex_eq]
    exact (if_neg there).symm
  rw [refines.nodes p inside (d + 1) (by omega), Radix.childOrCreate, child]
  by_cases absent : r.reach p (d + 1) = 0
  · rw [if_neg (by simpa using absent), allocNode]
    rcases asked : E.metaOk w with ⟨granted, w'⟩
    cases granted with
    | false => exact .inr (.inl ⟨by simp [absent], w', rfl, rfl⟩)
    | true =>
      obtain ⟨grown, new⟩ := refines.link inside inner there absent
      refine .inr (.inr ⟨by simp [absent], w', _, rfl, ?_, ?_, grown⟩)
      · rw [new]
      · rw [new]
        omega
  · exact .inl ⟨by simp [absent], absent, if_pos absent⟩

end

theorem createFrom_refines (le : k ≤ 4) (refines : Refines r m) (inside : p < pageCount)
    (there : r.reach p (4 - k) ≠ 0)
    (ran : m.createPath E w ((groups k).map fun k => (k, Trie.stem 1024 4 p (5 - k))) = (ok, m', w')) :
    ∃ leaf r', createFrom E p r w (groups k) (r.reach p (4 - k)) = (leaf, r', w') ∧
      leaf.isSome = ok ∧ Refines r' m' := by
  induction k generalizing r m w with
  | zero =>
    simp only [groups, List.map_nil, PageMap.createPath, Prod.mk.injEq] at ran
    obtain ⟨rfl, rfl, rfl⟩ := ran
    exact ⟨_, _, rfl, rfl, refines⟩
  | succ k ih =>
    obtain ⟨d, depth⟩ : ∃ d, 4 - (k + 1) = d := ⟨_, rfl⟩
    have level : k + 1 = 5 - (d + 1) := by omega
    have stems : 5 - (k + 1) = d + 1 := by omega
    have group : k + 1 = 4 - d := by omega
    have next : 4 - k = d + 1 := by omega
    simp only [groups, List.map_cons, PageMap.createPath] at ran
    rw [stems, level] at ran
    simp only [groups, createFrom]
    rw [depth] at there ⊢
    rw [next] at ih
    rw [group]
    rcases refines.childOrCreate (E := E) inside (by omega) there w with ⟨node, met, went⟩ |
      ⟨node, w₁, asked, went⟩ | ⟨node, w₁, r₁, asked, went, met, grown⟩
    · rw [node, if_pos rfl] at ran
      rw [went]
      exact ih (by omega) refines met ran
    · simp only [node, Bool.false_eq_true, if_false, asked, Prod.mk.injEq] at ran
      obtain ⟨rfl, rfl, rfl⟩ := ran
      rw [went]
      exact ⟨_, _, rfl, rfl, refines⟩
    · simp only [node, Bool.false_eq_true, if_false, asked] at ran
      rw [went]
      exact ih (by omega) grown met ran

theorem Refines.leafOrCreate (refines : Refines r m) (inside : p < pageCount)
    (ran : m.leafOrCreate E w p = (ok, m', w')) :
    ∃ leaf r', r.leafOrCreate E w p = (leaf, r', w') ∧ leaf.isSome = ok ∧ Refines r' m' := by
  have root := refines.nodes p inside 0 (by decide)
  have top : Trie.stem 1024 4 p 0 = 0 := Nat.div_eq_of_lt inside
  rw [top] at root
  change m.nodes (5, 0) = decide (r.tree.root ≠ 0) at root
  rw [PageMap.leafOrCreate, nodePath_eq, PageMap.createPath, root] at ran
  rw [Radix.leafOrCreate, rootOrCreate]
  by_cases empty : r.tree.root = 0
  · rw [if_neg (by simpa using empty), allocNode]
    rw [if_neg (by simp [empty])] at ran
    rcases asked : E.metaOk w with ⟨granted, w₁⟩
    rw [asked] at ran
    cases granted with
    | false =>
      simp only [Prod.mk.injEq] at ran
      obtain ⟨rfl, rfl, rfl⟩ := ran
      exact ⟨_, _, rfl, rfl, refines⟩
    | true =>
      exact createFrom_refines (k := 4) (by decide) (refines.root empty) inside (Nat.succ_ne_zero _) ran
  · rw [if_pos empty]
    rw [if_pos (by simp [empty])] at ran
    exact createFrom_refines (k := 4) (by decide) refines inside empty ran

theorem Refines.reservePages (refines : Refines r m) (inside : ∀ p ∈ pages, p < pageCount)
    (ran : m.reservePages E w pages = (ok, m', w')) :
    ∃ r', r.reservePages E w pages = (ok, r', w') ∧ Refines r' m' := by
  induction pages generalizing r m w with
  | nil =>
    simp only [PageMap.reservePages, Prod.mk.injEq] at ran
    obtain ⟨rfl, rfl, rfl⟩ := ran
    exact ⟨_, rfl, refines⟩
  | cons p rest ih =>
    rcases made : m.leafOrCreate E w p with ⟨okay, m₁, w₁⟩
    rw [PageMap.reservePages, made] at ran
    obtain ⟨leaf, r₁, went, answer, grown⟩ := refines.leafOrCreate (inside p (by simp)) made
    rw [Radix.reservePages, went]
    cases leaf with
    | none =>
      obtain rfl : okay = false := by simpa using answer.symm
      simp only [Prod.mk.injEq] at ran
      obtain ⟨rfl, rfl, rfl⟩ := ran
      exact ⟨_, rfl, grown⟩
    | some leaf =>
      obtain rfl : okay = true := by simpa using answer.symm
      exact ih grown (fun q later => inside q (by simp [later])) ran

/-! ## Writing entries -/

/-- The word of page `p` in its leaf. -/
def word (r : Radix) (p : Nat) : Nat := r.tree.words (r.reach p 4) (slotIndex p 0)

/-- The same nodes, with other words in the leaves. -/
structure SameTree (r r' : Radix) : Prop where
  reach : ∀ p < pageCount, ∀ d ≤ 4, r'.reach p d = r.reach p d
  spread : r'.tree.Spread 1024 4
  allocated : r'.allocated = r.allocated

theorem SameTree.refl (spread : r.tree.Spread 1024 4) : SameTree r r := ⟨fun _ _ _ _ => rfl, spread, rfl⟩

theorem SameTree.trans (first : SameTree r r') (second : SameTree r' r'') : SameTree r r'' :=
  ⟨fun p inside d le => (second.reach p inside d le).trans (first.reach p inside d le),
    second.spread, second.allocated.trans first.allocated⟩

/-- The store of one entry. -/
def store (r : Radix) (p v : Nat) : Radix := { r with tree := r.tree.write (r.reach p 4) (slotIndex p 0) v }

section
variable (spread : r.tree.Spread 1024 4)
include spread

theorem store_sameTree (inside : p < pageCount) (v : Nat) : SameTree r (r.store p v) :=
  ⟨fun _ inside' _ le => Trie.reach_write_leaf spread inside inside' le,
    Trie.Spread.write_leaf spread inside, rfl⟩

/-- No two pages share a slot: a store is seen at its own page only. -/
theorem word_store (inside : p < pageCount) (other : q < pageCount)
    (leaf : r.reach q 4 ≠ 0) (v : Nat) : (r.store p v).word q = if q = p then v else r.word q := by
  have kept : (r.store p v).reach q 4 = r.reach q 4 :=
    (store_sameTree spread inside v).reach q other 4 (by decide)
  rw [word, kept, store, Trie.write_words]
  by_cases same : q = p
  · rw [if_pos same, same, if_pos ⟨rfl, rfl⟩]
  · rw [if_neg same, if_neg, word]
    rintro ⟨node, slot⟩
    rw [slotIndex_eq, slotIndex_eq] at slot
    exact same (spread.key_eq other inside leaf node slot)

theorem publishPages_spec (entry : Nat)
    (inside : ∀ p ∈ pages, p < pageCount) (leaves : ∀ p ∈ pages, r.reach p 4 ≠ 0) :
    ∃ r', publishPages entry r pages = some r' ∧ SameTree r r' ∧
      ∀ q < pageCount, r.reach q 4 ≠ 0 → r'.word q =
        if q ∈ pages ∧ (r.word q = 0 ∨ r.word q = entry) then entry else r.word q := by
  induction pages generalizing r with
  | nil => exact ⟨r, rfl, .refl spread, fun q _ _ => by simp⟩
  | cons p rest ih =>
    have here := inside p (by simp)
    have leaf := leaves p (by simp)
    simp only [publishPages, findLeaf_eq, if_neg leaf]
    by_cases free : r.word p = 0 ∨ r.word p = entry
    · have same := store_sameTree spread here entry
      obtain ⟨r', went, tree, words⟩ := ih (r := r.store p entry) same.spread
        (fun q later => inside q (by simp [later]))
        (fun q later => by
          rw [same.reach q (inside q (by simp [later])) 4 (by decide)]
          exact leaves q (by simp [later]))
      refine ⟨r', (if_pos free).trans went, same.trans tree, fun q other there => ?_⟩
      rw [words q other (by rw [same.reach q other 4 (by decide)]; exact there),
        word_store spread here other there]
      by_cases at_p : q = p
      · subst at_p
        simp [free]
      · simp [at_p]
    · obtain ⟨r', went, tree, words⟩ := ih spread (fun q later => inside q (by simp [later]))
        (fun q later => leaves q (by simp [later]))
      refine ⟨r', (if_neg free).trans went, tree, fun q other there => ?_⟩
      rw [words q other there]
      by_cases at_p : q = p
      · subst at_p
        simp [free]
      · simp [at_p]

theorem overwritePages_spec (entry : Nat) (inside : ∀ p ∈ pages, p < pageCount) :
    SameTree r (overwritePages entry r pages) ∧
      ∀ q < pageCount, r.reach q 4 ≠ 0 → (overwritePages entry r pages).word q =
        if q ∈ pages then entry else r.word q := by
  induction pages generalizing r with
  | nil => exact ⟨.refl spread, fun q _ _ => by simp [overwritePages]⟩
  | cons p rest ih =>
    have here := inside p (by simp)
    simp only [overwritePages, findLeaf_eq]
    by_cases leaf : r.reach p 4 = 0
    · rw [if_pos leaf]
      obtain ⟨tree, words⟩ := ih spread (fun q later => inside q (by simp [later]))
      refine ⟨tree, fun q other there => ?_⟩
      have away : q ≠ p := fun same => there (same ▸ leaf)
      rw [words q other there]
      simp [away]
    · rw [if_neg leaf]
      have same := store_sameTree spread here entry
      obtain ⟨tree, words⟩ := ih (r := r.store p entry) same.spread
        (fun q later => inside q (by simp [later]))
      refine ⟨same.trans tree, fun q other there => ?_⟩
      have next := words q other (by rw [same.reach q other 4 (by decide)]; exact there)
      rw [word_store spread here other there] at next
      refine next.trans ?_
      by_cases at_p : q = p
      · subst at_p
        simp
      · simp [at_p]

end

/-- Words rewritten as the entries are. -/
theorem Refines.rewrite (refines : Refines r m) (same : SameTree r r')
    (aligned : ∀ e, e.Aligned → (f e).Aligned) (words : ∀ p < pageCount, r.reach p 4 ≠ 0 → r'.word p =
      (if inPages base stop p = true then f (m.entries p) else m.entries p).encode) :
    Refines r' (m.rewrite base stop f) where
  nodes := by
    intro p inside d le
    rw [same.reach p inside d le]
    exact refines.nodes p inside d le
  spread := same.spread
  bounded := by
    intro p inside d le
    rw [same.reach p inside d le, same.allocated]
    exact refines.bounded p inside d le
  entries := by
    intro p inside leaf
    rw [same.reach p inside 4 (by decide)] at leaf
    have there : m.findLeaf p = true := by simp [refines.findLeaf inside, leaf]
    simp only [PageMap.rewrite, there, Bool.and_true]
    exact words p inside leaf
  aligned := by
    intro p
    simp only [PageMap.rewrite]
    split
    · exact aligned _ (refines.aligned p)
    · exact refines.aligned p

theorem inPages_lt (space : stop ≤ 2 ^ 64) (inside : inPages base stop p = true) : p < pageCount := by
  simp only [inPages, Bool.and_eq_true, decide_eq_true_eq] at inside
  exact Nat.lt_of_le_of_lt inside.2 (pageOf_lt (by omega))

theorem Refines.publishRange (refines : Refines r m) (space : stop ≤ 2 ^ 64)
    (aligned : entry.Aligned) (ran : m.publishRange E w base stop entry = (ok, m', w')) :
    ∃ r', r.publishRange E w base stop entry = some (ok, r', w') ∧ Refines r' m' := by
  have inside : ∀ p ∈ pageRange base stop, p < pageCount := fun p member =>
    inPages_lt space (PageMap.mem_pageRange.mp member)
  rcases made : m.reservePages E w (pageRange base stop) with ⟨okay, m₁, w₁⟩
  rw [PageMap.publishRange, made] at ran
  obtain ⟨r₁, went, grown⟩ := refines.reservePages inside made
  rw [Radix.publishRange, went]
  cases okay with
  | false =>
    simp only [Prod.mk.injEq] at ran
    obtain ⟨rfl, rfl, rfl⟩ := ran
    exact ⟨r₁, rfl, grown⟩
  | true =>
    simp only [Prod.mk.injEq] at ran
    obtain ⟨rfl, rfl, rfl⟩ := ran
    have leaves : ∀ p ∈ pageRange base stop, r₁.reach p 4 ≠ 0 := by
      intro p member
      have leaf := (PageMap.reservePages_spec made).2.2.1 rfl p member
      rw [grown.findLeaf (inside p member)] at leaf
      simpa using leaf
    obtain ⟨r', stored, same, words⟩ := publishPages_spec grown.spread entry.encode inside leaves
    refine ⟨r', by simp only [stored], grown.rewrite same ?_ ?_⟩
    · intro e good
      split
      · exact aligned
      · exact good
    · intro p here leaf
      have prior : r₁.word p = (m₁.entries p).encode := grown.entries p here leaf
      rw [words p here leaf, prior]
      -- the words are compared as the entries are
      have free : (m₁.entries p).encode = 0 ↔ m₁.entries p = .empty :=
        ⟨fun zero => PageEntry.encode_inj (grown.aligned p) (show PageEntry.Aligned .empty from trivial) zero,
          fun empty => by rw [empty]; rfl⟩
      have equal : (m₁.entries p).encode = entry.encode ↔ m₁.entries p = entry :=
        ⟨fun same => PageEntry.encode_inj (grown.aligned p) aligned same, fun same => by rw [same]⟩
      simp only [PageMap.mem_pageRange, free, equal]
      by_cases range : inPages base stop p = true
      · by_cases write : m₁.entries p = .empty ∨ m₁.entries p = entry <;> simp [range, write]
      · simp [range]

theorem Refines.overwriteRange (refines : Refines r m) (space : stop ≤ 2 ^ 64) (aligned : entry.Aligned) :
    Refines (overwritePages entry.encode r (pageRange base stop)) (m.overwriteRange base stop entry) := by
  have inside : ∀ p ∈ pageRange base stop, p < pageCount := fun p member =>
    inPages_lt space (PageMap.mem_pageRange.mp member)
  obtain ⟨same, words⟩ := overwritePages_spec refines.spread entry.encode inside
  refine refines.rewrite same (fun _ _ => aligned) fun p here leaf => ?_
  have prior : r.word p = (m.entries p).encode := refines.entries p here leaf
  rw [words p here leaf, prior]
  simp only [PageMap.mem_pageRange]
  split <;> rfl

end Radix
end Topomalloc
