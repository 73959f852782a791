import Topomalloc.Machine

/-! The generated size-class table, the lookup of `size_class.rs` and the slab
geometry of `slab.rs`.

A slab is a run of pages cut into objects of one class. The engine never gives
a slab a header, and its base is page aligned, so object `k` starts `k` object
sizes above the base. -/
namespace Topomalloc

/-- `QUANTUM`. -/
def quantum : Nat := 16

/-- `SMALL_MAX`. -/
def smallMax : Nat := 32768

/-- `HUGE_THRESHOLD`. -/
def hugeThreshold : Nat := 2097152

/-- `MAX_ALIGN`. -/
def maxAlign : Nat := 16384

structure SizeClassRow where
  size : Nat
  align : Nat
  slabPages : Nat
  objectsPerSlab : Nat
  batch : Nat
  maxLocalCapacity : Nat
  deriving DecidableEq, Repr, Inhabited

/-- `SIZE_CLASSES`. -/
def sizeClasses : List SizeClassRow :=
  [⟨16, 16, 1, 1024, 32, 256⟩, ⟨32, 32, 1, 512, 32, 256⟩, ⟨48, 16, 1, 341, 32, 256⟩,
    ⟨64, 64, 1, 256, 32, 256⟩, ⟨80, 16, 1, 204, 32, 256⟩, ⟨96, 32, 1, 170, 32, 256⟩,
    ⟨112, 16, 1, 146, 32, 256⟩, ⟨128, 128, 1, 128, 32, 256⟩, ⟨144, 16, 1, 113, 32, 256⟩,
    ⟨160, 32, 1, 102, 32, 256⟩, ⟨176, 16, 1, 93, 32, 256⟩, ⟨192, 64, 1, 85, 32, 256⟩,
    ⟨208, 16, 1, 78, 32, 256⟩, ⟨224, 32, 1, 73, 32, 256⟩, ⟨240, 16, 1, 68, 32, 256⟩,
    ⟨256, 256, 1, 64, 32, 256⟩, ⟨288, 32, 1, 56, 32, 256⟩, ⟨320, 64, 1, 51, 32, 256⟩,
    ⟨352, 32, 1, 46, 32, 256⟩, ⟨384, 128, 1, 42, 32, 256⟩, ⟨416, 32, 1, 39, 32, 256⟩,
    ⟨448, 64, 1, 36, 32, 256⟩, ⟨480, 32, 1, 34, 32, 256⟩, ⟨512, 512, 1, 32, 32, 256⟩,
    ⟨576, 64, 1, 28, 32, 256⟩, ⟨640, 128, 1, 25, 32, 256⟩, ⟨704, 64, 1, 23, 32, 256⟩,
    ⟨768, 256, 1, 21, 32, 256⟩, ⟨832, 64, 1, 19, 32, 256⟩, ⟨896, 128, 1, 18, 32, 256⟩,
    ⟨960, 64, 1, 17, 32, 256⟩, ⟨1024, 1024, 1, 16, 32, 256⟩, ⟨1152, 128, 1, 14, 32, 256⟩,
    ⟨1280, 256, 1, 12, 32, 256⟩, ⟨1408, 128, 1, 11, 32, 256⟩, ⟨1536, 512, 1, 10, 32, 256⟩,
    ⟨1664, 128, 1, 9, 32, 256⟩, ⟨1792, 256, 1, 9, 32, 256⟩, ⟨1920, 128, 1, 8, 32, 256⟩,
    ⟨2048, 2048, 1, 8, 32, 256⟩, ⟨2304, 256, 1, 7, 32, 256⟩, ⟨2560, 512, 1, 6, 32, 256⟩,
    ⟨2816, 256, 1, 5, 32, 256⟩, ⟨3072, 1024, 1, 5, 32, 256⟩, ⟨3328, 256, 1, 4, 32, 256⟩,
    ⟨3584, 512, 1, 4, 32, 256⟩, ⟨3840, 256, 1, 4, 32, 256⟩, ⟨4096, 4096, 1, 4, 32, 256⟩,
    ⟨4608, 512, 1, 3, 32, 256⟩, ⟨5120, 1024, 1, 3, 32, 256⟩, ⟨5632, 512, 1, 2, 32, 256⟩,
    ⟨6144, 2048, 1, 2, 32, 256⟩, ⟨6656, 512, 1, 2, 32, 256⟩, ⟨7168, 1024, 1, 2, 32, 256⟩,
    ⟨7680, 512, 1, 2, 32, 256⟩, ⟨8192, 8192, 1, 2, 32, 256⟩, ⟨9216, 1024, 1, 1, 32, 256⟩,
    ⟨10240, 2048, 1, 1, 32, 256⟩, ⟨11264, 1024, 1, 1, 32, 256⟩, ⟨12288, 4096, 1, 1, 32, 256⟩,
    ⟨13312, 1024, 1, 1, 32, 256⟩, ⟨14336, 2048, 1, 1, 32, 256⟩, ⟨15360, 1024, 1, 1, 32, 256⟩,
    ⟨16384, 16384, 1, 1, 32, 256⟩, ⟨18432, 2048, 2, 1, 32, 256⟩, ⟨20480, 4096, 2, 1, 32, 256⟩,
    ⟨22528, 2048, 2, 1, 32, 256⟩, ⟨24576, 8192, 2, 1, 32, 256⟩, ⟨26624, 2048, 2, 1, 32, 256⟩,
    ⟨28672, 4096, 2, 1, 32, 256⟩, ⟨30720, 2048, 2, 1, 32, 256⟩, ⟨32768, 16384, 2, 1, 32, 256⟩]

/-- `SIZE_TO_CLASS`, run-length encoded: each class with the number of
consecutive granules that map to it. -/
def sizeToClassRuns : List (Nat × Nat) :=
  [(0, 1), (1, 1), (2, 1), (3, 1), (4, 1), (5, 1), (6, 1), (7, 1), (8, 1), (9, 1), (10, 1),
    (11, 1), (12, 1), (13, 1), (14, 1), (15, 1), (16, 2), (17, 2), (18, 2), (19, 2), (20, 2),
    (21, 2), (22, 2), (23, 2), (24, 4), (25, 4), (26, 4), (27, 4), (28, 4), (29, 4), (30, 4),
    (31, 4), (32, 8), (33, 8), (34, 8), (35, 8), (36, 8), (37, 8), (38, 8), (39, 8), (40, 16),
    (41, 16), (42, 16), (43, 16), (44, 16), (45, 16), (46, 16), (47, 16), (48, 32), (49, 32),
    (50, 32), (51, 32), (52, 32), (53, 32), (54, 32), (55, 32), (56, 64), (57, 64), (58, 64),
    (59, 64), (60, 64), (61, 64), (62, 64), (63, 64), (64, 128), (65, 128), (66, 128), (67, 128),
    (68, 128), (69, 128), (70, 128), (71, 128)]

/-- Entry `g` of a run-length encoded table. -/
def runAt : List (Nat × Nat) → Nat → Option Nat
  | [], _ => none
  | (value, count) :: rest, g => if g < count then some value else runAt rest (g - count)

/-- `SIZE_CLASSES.len()`. -/
def numSizeClasses : Nat := 72

/-- `size_class::row`. The source indexes the table, and panics past its end. -/
def row (sc : Nat) : SizeClassRow := sizeClasses.getD sc default

/-- `size_class::checked_row`. -/
def checkedRow (sc : Nat) : Option SizeClassRow := sizeClasses[sc]?

/-- `align_walk`: the first class from `start` on with a sufficient alignment. -/
def alignWalk (start align : Nat) : Option Nat :=
  (List.range' start (numSizeClasses - start)).find? fun i => decide (align ≤ (row i).align)

/-- `size_class`. -/
def sizeClass (size align : Nat) : Option Nat :=
  if size = 0 ∨ size > smallMax ∨ align > maxAlign then none
  else (runAt sizeToClassRuns ((size - 1) / quantum)).bind fun start => alignWalk start align

/-- `MAX_BATCH_LEN`: the largest batch of the table. -/
def maxBatchLen : Nat := 32

/-! ## The table -/

/-- What the compile-time assertions of `slab.rs` check of each row, and the
bounds that hold of every row besides. -/
structure SizeClassRow.Sound (r : SizeClassRow) : Prop where
  size : 0 < r.size
  align : isPowerOfTwo r.align = true
  divides : r.align ∣ r.size
  page : r.align ∣ pageSize
  objects : 0 < r.objectsPerSlab
  fits : r.objectsPerSlab * r.size ≤ r.slabPages * pageSize
  pages : 0 < r.slabPages
  short : r.slabPages ≤ 2
  batch : r.batch = maxBatchLen
  capacity : maxBatchLen ≤ r.maxLocalCapacity

theorem length_sizeClasses : sizeClasses.length = numSizeClasses := by decide

theorem checkedRow_of_lt (lt : sc < numSizeClasses) : checkedRow sc = some (row sc) := by
  have inside : sc < sizeClasses.length := length_sizeClasses ▸ lt
  simp [checkedRow, row, inside]

theorem row_of_lt (lt : sc < numSizeClasses) : row sc ∈ sizeClasses :=
  List.mem_of_getElem? (checkedRow_of_lt lt)

/-- Every row of the table is sound. -/
theorem row_sound (lt : sc < numSizeClasses) : (row sc).Sound := by
  have all : ∀ r ∈ sizeClasses, 0 < r.size ∧ isPowerOfTwo r.align = true ∧ r.align ∣ r.size ∧
      r.align ∣ pageSize ∧ 0 < r.objectsPerSlab ∧
      r.objectsPerSlab * r.size ≤ r.slabPages * pageSize ∧ 0 < r.slabPages ∧ r.slabPages ≤ 2 ∧
      r.batch = maxBatchLen ∧ maxBatchLen ≤ r.maxLocalCapacity := by decide
  obtain ⟨size, align, divides, page, objects, fits, pages, short, batch, capacity⟩ := all _ (row_of_lt lt)
  exact ⟨size, align, divides, page, objects, fits, pages, short, batch, capacity⟩

/-! ## Slabs -/

structure SlabLayout where
  object0 : Nat
  objectSize : Nat
  objectCount : Nat
  deriving DecidableEq, Repr

namespace SlabLayout

/-- `SlabLayout::compute`. -/
def compute (sc base slabHeader : Nat) : Option SlabLayout := do
  let row ← checkedRow sc
  let slabBytes ← checkedMul row.slabPages pageSize
  let object0 ← alignUp (← checkedAdd base slabHeader) row.align
  let slabEnd ← checkedAdd base slabBytes
  if row.size = 0 ∨ object0 ≥ slabEnd then none
  let objectCount := min ((slabEnd - object0) / row.size) row.objectsPerSlab
  if objectCount = 0 then none
  let lastEnd ← checkedAdd (← checkedAdd object0 ((objectCount - 1) * row.size)) row.size
  if lastEnd > slabEnd then none
  some { object0, objectSize := row.size, objectCount }

/-- `object_addr`. -/
def objectAddr (l : SlabLayout) (i : Nat) : Option Nat :=
  if i ≥ l.objectCount then none else checkedAdd l.object0 (i * l.objectSize)

/-- `addr_to_index`. -/
def addrToIndex (l : SlabLayout) (addr : Nat) : Option Nat :=
  if l.objectSize = 0 ∨ addr < l.object0 then none
  else
    let delta := addr - l.object0
    let idx := delta / l.objectSize
    if idx ≥ l.objectCount ∨ delta % l.objectSize ≠ 0 then none else some idx

end SlabLayout
end Topomalloc
