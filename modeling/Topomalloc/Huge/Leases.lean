import Topomalloc.Huge.Oracle

/-! The allocations of a hugepage backend. A ledger beside the run enters each
region `allocate` returns and takes out what `free_region` accepts; in every
state the blocks that the bitmaps describe are those of the ledger, so what the
bitmaps let `free_region` accept is exactly what is outstanding. -/
namespace Topomalloc
open Function Bitmap

namespace Region
variable {r r' : Region} {regionBase hp off start : Nat}

/-- The whole pages of a region, as the backend counts them. -/
def pages (r : Region) : Nat := r.len / pageSize

/-- The hugepages a run of that many pages takes. -/
def hugepages (r : Region) : Nat := (r.pages + pagesPerHugepage - 1) / pagesPerHugepage

/-- The block that a region of the backend names. -/
def block (regionBase : Nat) (r : Region) : Block :=
  if r.pages ≤ pagesPerHugepage then
    .packed ((r.base - regionBase) / hugepageSize) ((r.base - regionBase) % hugepageSize / pageSize)
      r.pages
  else .run ((r.base - regionBase) / hugepageSize) r.hugepages

/-- The bytes the block takes: a run takes whole hugepages. -/
def footprint (r : Region) : Nat :=
  if r.pages ≤ pagesPerHugepage then r.len else r.hugepages * hugepageSize

/-- Where the backend places regions: on the pages of one hugepage, or on whole
hugepages. -/
structure Placed (regionBase : Nat) (r : Region) : Prop where
  above : regionBase ≤ r.base
  page : pageSize ∣ r.base - regionBase
  run : pagesPerHugepage < r.pages → hugepageSize ∣ r.base - regionBase
  fits : r.pages ≤ pagesPerHugepage →
    (r.base - regionBase) % hugepageSize / pageSize + r.pages ≤ pagesPerHugepage
  whole : pageSize ∣ r.len

theorem eq_of_pages (base : r.base = r'.base) (whole : pageSize ∣ r.len)
    (whole' : pageSize ∣ r'.len) (count : r.pages = r'.pages) : r = r' := by
  cases r with
  | mk base₁ len₁ =>
    cases r' with
    | mk base₂ len₂ =>
      simp only [Region.pages] at base whole whole' count
      rw [← Nat.div_mul_cancel whole, ← Nat.div_mul_cancel whole', count, base]

theorem block_few (few : r.pages ≤ pagesPerHugepage) :
    r.block regionBase = .packed ((r.base - regionBase) / hugepageSize)
      ((r.base - regionBase) % hugepageSize / pageSize) r.pages :=
  if_pos few

theorem block_many (many : ¬r.pages ≤ pagesPerHugepage) :
    r.block regionBase = .run ((r.base - regionBase) / hugepageSize) r.hugepages :=
  if_neg many

theorem block_packed (here : r.base = regionBase + hp * hugepageSize + off * pageSize)
    (page : off < pagesPerHugepage) (few : r.pages ≤ pagesPerHugepage) :
    r.block regionBase = .packed hp off r.pages := by
  have offset : r.base - regionBase = hp * hugepageSize + off * pageSize := by omega
  rw [block, if_pos few, offset]
  simp only [hugepageSize, pageSize, pagesPerHugepage, Block.packed.injEq, and_true] at *
  constructor <;> omega

theorem block_run (here : r.base = regionBase + start * hugepageSize)
    (many : ¬r.pages ≤ pagesPerHugepage) : r.block regionBase = .run start r.hugepages := by
  have offset : r.base - regionBase = start * hugepageSize := by omega
  rw [block, if_neg many, offset, Nat.mul_div_cancel _ (by decide)]

/-- Pages of one hugepage, or more than a hugepage from its start, are placed. -/
theorem placed_at {base pages : Nat} (here : base = regionBase + hp * hugepageSize + off * pageSize)
    (page : off < pagesPerHugepage)
    (room : off + pages ≤ pagesPerHugepage ∨ off = 0 ∧ pagesPerHugepage < pages) :
    Placed regionBase ⟨base, pages * pageSize⟩ := by
  have count : Region.pages ⟨base, pages * pageSize⟩ = pages := Nat.mul_div_cancel _ pageSize_pos
  have offset : base - regionBase = hp * hugepageSize + off * pageSize := by omega
  refine ⟨by dsimp only; omega, ?_, ?_, ?_, Nat.dvd_mul_left ..⟩
  · rw [offset]
    exact Nat.dvd_add ((by decide : pageSize ∣ hugepageSize).trans (Nat.dvd_mul_left ..))
      (Nat.dvd_mul_left ..)
  · rw [count, offset]
    intro many
    obtain rfl : off = 0 := by omega
    rw [Nat.zero_mul, Nat.add_zero]
    exact Nat.dvd_mul_left ..
  · rw [count, offset]
    intro few
    simp only [hugepageSize, pageSize, pagesPerHugepage] at *
    omega

/-- Where a placed region stands. -/
theorem Placed.base (placed : Placed regionBase r) :
    r.base = regionBase + (r.base - regionBase) / hugepageSize * hugepageSize +
      (r.base - regionBase) % hugepageSize / pageSize * pageSize := by
  have above := placed.above
  obtain ⟨q, eq⟩ := placed.page
  rw [eq]
  simp only [hugepageSize, pageSize] at *
  omega

/-- A placed region of a run stands on a hugepage. -/
theorem Placed.base_run (placed : Placed regionBase r) (many : pagesPerHugepage < r.pages) :
    r.base = regionBase + (r.base - regionBase) / hugepageSize * hugepageSize := by
  have above := placed.above
  rw [Nat.div_mul_cancel (placed.run many)]
  omega

/-- The addresses of a block are those its pages cover. -/
theorem Placed.covers (placed : Placed regionBase r) (page : k < pagesPerHugepage) :
    (r.block regionBase).Covers j k ↔ r.base ≤ regionBase + j * hugepageSize + k * pageSize ∧
        regionBase + j * hugepageSize + k * pageSize < r.base + r.footprint := by
  have here := placed.base
  simp only [block, footprint]
  split
  · rename_i few
    obtain ⟨len, eq⟩ := placed.whole
    have pages : r.pages = len := by rw [Region.pages, eq, Nat.mul_div_cancel_left _ pageSize_pos]
    have fits := placed.fits few
    rw [pages] at few fits
    rw [Block.Covers, pages, eq]
    generalize (r.base - regionBase) / hugepageSize = hp at *
    generalize (r.base - regionBase) % hugepageSize / pageSize = off at *
    simp only [hugepageSize, pageSize, pagesPerHugepage] at *
    omega
  · rename_i many
    have start := placed.base_run (by omega)
    rw [Block.Covers, HugePageFiller.InRange]
    generalize (r.base - regionBase) / hugepageSize = hp at *
    simp only [hugepageSize, pageSize, pagesPerHugepage] at *
    omega

end Region

/-- A region `allocate` returned, with the size it stands for and the alignment
that was asked for. -/
structure Lease where
  region : Region
  bytes : Nat
  align : Nat
  deriving DecidableEq, Repr

/-- The region names the lease: it is its region, or a region of the same run
with as many hugepages. -/
def Lease.Named (h : Lease) (r : Region) : Prop :=
  h.region = r ∨ h.region.base = r.base ∧ pagesPerHugepage < h.region.pages ∧
    pagesPerHugepage < r.pages ∧ h.region.hugepages = r.hugepages

structure Lease.Proper (regionBase : Nat) (h : Lease) : Prop where
  placed : h.region.Placed regionBase
  aligned : h.align ∣ h.region.base
  sized : ∃ pages, pagesFor h.bytes pageSize = some pages ∧ h.region.len = pages * pageSize

namespace HugePageBackend
variable {σ : Type} {P : Provider σ} {g g' : HugePageBackend} {f : HugePageFiller}
  {held before after : List Lease} {h : Lease} {w w' : σ} {bytes align pages : Nat}

/-- The blocks that the bitmaps describe are those of the ledger. -/
structure Tracks (g : HugePageBackend) (held : List Lease) : Prop where
  settled : g.filler.Settled
  standing : g.released = false
  base : g.filler.regionBase = g.region.base
  aligned : hugepageSize ∣ g.region.base
  long : g.filler.capacity * hugepageSize ≤ g.region.len
  space : g.region.base + g.region.len ≤ usizeMax
  blocks : Block.Tracks g.filler.faces (held.map fun h => h.region.block g.region.base)
  proper : ∀ h ∈ held, h.Proper g.region.base

theorem Tracks.hugeBase (tracks : Tracks g held) (j : Nat) :
    g.filler.hugeBase j = g.region.base + j * hugepageSize := by
  rw [HugePageFiller.hugeBase, tracks.base]

/-- Another ledger for another filler over the same hugepages. -/
theorem Tracks.refill (tracks : Tracks g held) (refits : Refits g g')
    (blocks : Block.Tracks g'.filler.faces (held'.map fun h => h.region.block g.region.base))
    (proper : ∀ h ∈ held', h.Proper g.region.base) : Tracks g' held' where
  settled := refits.settled
  standing := refits.released.trans tracks.standing
  base := by rw [refits.regionBase, refits.region, tracks.base]
  aligned := refits.region ▸ tracks.aligned
  long := by
    rw [refits.capacity, refits.region]
    exact tracks.long
  space := refits.region ▸ tracks.space
  blocks := refits.region ▸ blocks
  proper := refits.region ▸ proper

theorem Tracks.rests (tracks : Tracks g held) (rests : Rests g g') : Tracks g' held :=
  tracks.refill rests.toRefits (tracks.blocks.congr rests.faces) tracks.proper

/-! ## Allocating -/

/-- A page offset that is a multiple of the stride is aligned. -/
theorem aligned_of_stride (strided : HugePageFiller.alignStride align = some stride) (dvd : stride ∣ off)
    (aligned : hugepageSize ∣ base) : align ∣ base + hp * hugepageSize + off * pageSize := by
  simp only [HugePageFiller.alignStride, Option.ite_none_left_eq_some, not_or, Bool.not_eq_false,
    Nat.not_lt, Option.some.injEq] at strided
  obtain ⟨⟨power, small⟩, rfl⟩ := strided
  have huge : align ∣ hugepageSize := isPowerOfTwo_dvd_of_le power (by decide) small
  have whole : align ∣ base + hp * hugepageSize :=
    Nat.dvd_add (huge.trans aligned) (huge.trans (Nat.dvd_mul_left ..))
  refine Nat.dvd_add whole ?_
  split at dvd
  · rename_i tiny
    exact (isPowerOfTwo_dvd_of_le power isPowerOfTwo_pageSize tiny).trans (Nat.dvd_mul_left ..)
  · rename_i large
    have pages : pageSize ∣ align := isPowerOfTwo_dvd_of_le isPowerOfTwo_pageSize power (by omega)
    rw [← Nat.div_mul_cancel pages]
    exact Nat.mul_dvd_mul_right dvd _

/-- The ledger after an answered allocation. -/
def enter (held : List Lease) (bytes align : Nat) : Option Region → List Lease
  | none => held
  | some region => held ++ [⟨region, bytes, align⟩]

section
variable (tracks : Tracks g held) {r : Region}
include tracks

/-- One lease more. -/
theorem Tracks.entered (refits : Refits g g') (blocks : Block.Tracks g'.filler.faces
      ((held.map fun h => h.region.block g.region.base) ++ [r.block g.region.base]))
    (proper : Lease.Proper g.region.base ⟨r, bytes, align⟩) :
    Tracks g' (enter held bytes align (some r)) := by
  refine tracks.refill refits ?_ fun h member => ?_
  · rw [enter, List.map_append]
    exact blocks
  · rcases List.mem_append.mp member with old | new
    · exact tracks.proper h old
    · rw [List.mem_singleton.mp new]
      exact proper

theorem allocate_tracks {hints : PlaceHints} {answer : Option Region}
    (ran : g.allocate P bytes align hints w = (answer, g', w')) :
    Tracks g' (enter held bytes align answer) := by
  have count : ∀ base pages, Region.pages ⟨base, pages * pageSize⟩ = pages :=
    fun _ _ => Nat.mul_div_cancel _ pageSize_pos
  have region : ∀ base len, g.region.base ≤ base → g.subregion base len = ⟨base, len⟩ := by
    intro base len above
    rw [subregion, regionOffset, Nat.add_sub_cancel' above]
  cases allocate_cases tracks.settled ran with
  | refused rests => exact tracks.rests rests
  | @packed _ pages hp off stride base sized few aimed _ strided dvd refits sound single pos fits
      clear faces =>
    rw [tracks.hugeBase] at aimed
    rw [region base _ (by omega)]
    refine tracks.entered refits ?_ ⟨Region.placed_at aimed (by omega) (.inl fits), ?_, pages, sized, rfl⟩
    · have block := Region.block_packed (r := ⟨base, pages * pageSize⟩) aimed (by omega)
        ((count ..).trans_le few)
      rw [block, count]
      exact (tracks.blocks.carve sound single pos fits clear).congr faces
    · dsimp only
      rw [aimed]
      exact aligned_of_stride strided dvd tracks.aligned
  | @run _ pages n start base sized many aimed _ power small refits rounded pos empty members other =>
    rw [tracks.hugeBase] at aimed
    rw [region base _ (by omega)]
    have here : base = g.region.base + start * hugepageSize + 0 * pageSize := by omega
    refine tracks.entered refits ?_ ⟨Region.placed_at here (by decide) (.inr ⟨rfl, by omega⟩), ?_,
      pages, sized, rfl⟩
    · have block := Region.block_run (r := ⟨base, pages * pageSize⟩) aimed (by rwa [count])
      rw [block, Region.hugepages, count, ← rounded]
      exact tracks.blocks.reserve pos empty members other
    · have huge : align ∣ hugepageSize := isPowerOfTwo_dvd_of_le power (by decide) small
      dsimp only
      rw [aimed]
      exact Nat.dvd_add (huge.trans tracks.aligned) (huge.trans (Nat.dvd_mul_left ..))

/-! ## Freeing and trimming -/

/-- The ledger without the lease at a base. -/
def strike (held : List Lease) (base : Nat) : List Lease := held.filter fun h => h.region.base != base

/-- What a lease takes is not empty and lies in the reservation. -/
theorem Tracks.inside (member : h ∈ held) :
    0 < h.region.footprint ∧ h.region.len ≤ h.region.footprint ∧ h.region.pages ≠ 0 ∧
      h.region.base + h.region.footprint ≤ g.region.base + g.region.len := by
  have placed := (tracks.proper h member).placed
  have holds := tracks.blocks.holds _ (List.mem_map_of_mem member)
  have here := placed.base
  have long := tracks.long
  have bound := tracks.settled.wf.bound
  obtain ⟨count, whole⟩ := placed.whole
  have pages : h.region.pages = count := by
    rw [Region.pages, whole, Nat.mul_div_cancel_left _ pageSize_pos]
  simp only [Region.block, Region.footprint] at holds ⊢
  split at holds
  · rename_i few
    rw [if_pos few]
    have packed : (g.filler.faces _).Packed _ h.region.pages := holds
    have pos := packed.pos
    have fits := packed.fits
    have below := tracks.settled.wf.below_of_live (packed.live _ (Nat.le_refl _) (by omega))
    rw [pages] at pos fits ⊢
    generalize (h.region.base - g.region.base) / hugepageSize = hp at *
    generalize (h.region.base - g.region.base) % hugepageSize / pageSize = off at *
    rw [whole]
    simp only [hugepageSize, pageSize, pagesPerHugepage] at *
    omega
  · rename_i many
    rw [if_neg many]
    obtain ⟨pos, members⟩ := holds
    have start := placed.base_run (by omega)
    have rounded : h.region.hugepages = (count + pagesPerHugepage - 1) / pagesPerHugepage := by
      rw [Region.hugepages, pages]
    rw [pages] at many ⊢
    generalize (h.region.base - g.region.base) / hugepageSize = hp at *
    generalize h.region.hugepages = n at *
    have last := (members (hp + n - 1) ⟨by omega, by omega⟩).2.2 0 (by decide)
    have below := tracks.settled.wf.below_of_live last
    rw [whole]
    simp only [hugepageSize, pageSize, pagesPerHugepage] at *
    omega

/-- A lease takes the page at its base. -/
theorem Tracks.covers_base (member : h ∈ held) :
    (h.region.block g.region.base).Covers ((h.region.base - g.region.base) / hugepageSize)
      ((h.region.base - g.region.base) % hugepageSize / pageSize) := by
  have placed := (tracks.proper h member).placed
  have page : (h.region.base - g.region.base) % hugepageSize / pageSize < pagesPerHugepage := by
    simp only [hugepageSize, pageSize, pagesPerHugepage]
    omega
  have pos := (tracks.inside member).1
  rw [placed.covers page, ← placed.base]
  omega

/-- Distinct leases have distinct bases. -/
theorem Tracks.bases : held.Pairwise fun a b => a.region.base ≠ b.region.base := by
  have apart := List.pairwise_map.mp tracks.blocks.apart
  refine apart.imp_of_mem fun {a b} memberA memberB apart same => ?_
  have covers := tracks.covers_base memberB
  rw [← same] at covers
  exact apart _ _ (tracks.covers_base memberA) covers

/-- The leases around one of them. -/
theorem Tracks.split (member : h ∈ held) :
    ∃ before after, held = before ++ h :: after ∧ strike held h.region.base = before ++ after ∧
      ∀ f : Lease → Lease, (held.map fun k => if k.region.base = h.region.base then f k else k) =
        before ++ f h :: after := by
  obtain ⟨before, after, rfl⟩ := List.append_of_mem member
  obtain ⟨-, rest, across⟩ := List.pairwise_append.mp tracks.bases
  have first : ∀ k ∈ before, k.region.base ≠ h.region.base := fun k listed =>
    across k listed h (by simp)
  have last : ∀ k ∈ after, k.region.base ≠ h.region.base := fun k listed =>
    ((List.pairwise_cons.mp rest).1 k listed).symm
  refine ⟨before, after, rfl, ?_, fun f => ?_⟩
  · simp only [strike, List.filter_append, List.filter_cons, bne_self_eq_false]
    rw [List.filter_eq_self.mpr fun k listed => by simpa using first k listed,
      List.filter_eq_self.mpr fun k listed => by simpa using last k listed]
    simp
  · rw [List.map_append, List.map_cons, if_pos rfl]
    congr 1
    · exact (List.map_congr_left fun k listed => if_neg (first k listed)).trans (List.map_id _)
    · congr 1
      exact (List.map_congr_left fun k listed => if_neg (last k listed)).trans (List.map_id _)

/-- A region that names a lease has its block. -/
theorem Tracks.named_iff (member : h ∈ held) (whole : pageSize ∣ r.len) :
    h.Named r ↔ h.region.base = r.base ∧ h.region.block g.region.base = r.block g.region.base := by
  have held' := (tracks.proper h member).placed.whole
  constructor
  · rintro (rfl | ⟨base, many, many', count⟩)
    · exact ⟨rfl, rfl⟩
    · refine ⟨base, ?_⟩
      rw [Region.block, Region.block, if_neg (by omega), if_neg (by omega), base, count]
  · rintro ⟨base, block⟩
    simp only [Region.block] at block
    split at block <;> split at block
    · left
      obtain ⟨-, -, pages⟩ := Block.packed.inj block
      exact Region.eq_of_pages base held' whole pages
    · cases block
    · cases block
    · obtain ⟨-, count⟩ := Block.run.inj block
      exact .inr ⟨base, by omega, by omega, count⟩

/-- An address of a lease is the backend's. -/
theorem Tracks.ours (member : h ∈ held)
    (base : h.region.base = r.base) (pages : r.len ≠ 0) : g.ours r = true := by
  have above := (tracks.proper h member).placed.above
  obtain ⟨pos, -, -, inside⟩ := tracks.inside member
  have space := tracks.space
  have wrapped : (g.region.base + g.region.len) % 2 ^ 64 = g.region.base + g.region.len :=
    Nat.mod_eq_of_lt (by simp only [usizeMax] at space; omega)
  simp only [HugePageBackend.ours, wrapped, Bool.and_eq_true, decide_eq_true_eq, bne_iff_ne]
  omega

/-- A packed region that is freed names the block the filler frees. -/
theorem Tracks.block_of_packed
    (few : r.pages ≤ pagesPerHugepage) (base : r.base = g.filler.hugeBase hp + off * pageSize)
    (packed : (g.filler.faces hp).Packed off r.pages) :
    r.block g.region.base = .packed hp off r.pages ∧
      ∃ h ∈ held, h.region.base = r.base ∧ h.region.block g.region.base = r.block g.region.base := by
  have pos := packed.pos
  have fits := packed.fits
  rw [tracks.hugeBase] at base
  have block := Region.block_packed base (by omega) few
  refine ⟨block, ?_⟩
  obtain ⟨h, member, same⟩ := List.mem_map.mp (tracks.blocks.mem_of_packed packed)
  refine ⟨h, member, ?_, same.trans block.symm⟩
  have placed := (tracks.proper h member).placed
  simp only [Region.block] at same
  split at same
  · obtain ⟨hugepage, offset, -⟩ := Block.packed.inj same
    rw [placed.base, hugepage, offset, base]
  · cases same

theorem Tracks.block_of_run (many : ¬r.pages ≤ pagesPerHugepage)
    (base : r.base = g.filler.hugeBase start) (pos : 0 < r.hugepages)
    (single : (g.filler.faces start).inRun = true) (led : (g.filler.faces start).runLen = r.hugepages)
    (live : (g.filler.faces start).live.getLsbD 0 = true) :
    r.block g.region.base = .run start r.hugepages ∧
      ∃ h ∈ held, h.region.base = r.base ∧ h.region.block g.region.base = r.block g.region.base := by
  rw [tracks.hugeBase] at base
  have block := Region.block_run base many
  refine ⟨block, ?_⟩
  obtain ⟨h, member, same⟩ := List.mem_map.mp (tracks.blocks.mem_of_run single led pos live)
  refine ⟨h, member, ?_, same.trans block.symm⟩
  have placed := (tracks.proper h member).placed
  simp only [Region.block] at same
  split at same
  · cases same
  · obtain ⟨hugepage, -⟩ := Block.run.inj same
    rw [placed.base_run (by omega), hugepage, base]

/-- The pages live in `g'` are those of `g` without the block. -/
def Removes (g g' : HugePageBackend) (b : Block) : Prop :=
  ∀ j k, (g'.filler.faces j).live.getLsbD k = true ↔ (g.filler.faces j).live.getLsbD k = true ∧ ¬b.Covers j k

/-- One lease is taken out. -/
theorem Tracks.struck (member : h ∈ held) (refits : Refits g g') {base : Nat}
    (aimed : h.region.base = base) (blocks : ∀ before after, Block.Tracks g.filler.faces
      (before ++ h.region.block g.region.base :: after) →
      Block.Tracks g'.filler.faces (before ++ after)) : Tracks g' (strike held base) := by
  subst aimed
  obtain ⟨before, after, rfl, struck, -⟩ := tracks.split member
  rw [struck]
  refine tracks.refill refits ?_ ?_
  · have old := tracks.blocks
    rw [List.map_append, List.map_cons] at old
    rw [List.map_append]
    exact blocks _ _ old
  · intro k listed
    refine tracks.proper k ?_
    simp only [List.mem_append, List.mem_cons] at listed ⊢
    tauto

/-- The outcome of a free: the region names no lease and nothing changed, or the
lease that it names was taken out. -/
def Freed (g : HugePageBackend) (held : List Lease) (r : Region) : Bool × HugePageBackend → Prop
  | (false, g') => g' = g ∧ ∀ h ∈ held, ¬(h.region.base = r.base ∧
    h.region.block g.region.base = r.block g.region.base)
  | (true, g') => ∃ h ∈ held, h.region.base = r.base ∧
    h.region.block g.region.base = r.block g.region.base ∧ Tracks g' (strike held r.base) ∧
    Removes g g' (r.block g.region.base)

theorem Tracks.freePacked (few : r.pages ≤ pagesPerHugepage)
    (refits : Refits g { g with filler := (g.filler.free r.base r.pages).2 }) :
    Freed g held r ((g.filler.free r.base r.pages).1.valid,
      { g with filler := (g.filler.free r.base r.pages).2 }) := by
  rcases tracks.settled.wf.free_faces r.base r.pages with
    ⟨refused, same, unknown⟩ | ⟨accepted, hp, off, base, packed, moved⟩
  · rw [refused, same]
    refine ⟨rfl, ?_⟩
    rintro h member ⟨base, block⟩
    have holds := tracks.blocks.holds _ (List.mem_map_of_mem member)
    have here := (tracks.proper h member).placed.base
    rw [base, ← tracks.hugeBase] at here
    rw [block, Region.block_few few] at holds
    exact unknown ⟨_, _, here, holds⟩
  · rw [accepted]
    obtain ⟨block, h, member, base', block'⟩ := tracks.block_of_packed few base packed
    refine ⟨h, member, base', block', ?_, ?_⟩
    · refine tracks.struck member refits base' fun before after old => ?_
      rw [block', block] at old
      exact old.free.congr moved.faces
    · intro j k
      rw [moved.faces j, block]
      by_cases same : j = hp
      · subst same
        simp only [update_self, Face.free, getLsbD_clearRun, Block.Covers, true_and, Bool.and_eq_true,
          Bool.not_eq_true', decide_eq_false_iff_not]
      · simp [Block.Covers, same]

theorem Tracks.freeRun (many : ¬r.pages ≤ pagesPerHugepage)
    (refits : Refits g { g with filler := (g.filler.freeHugepages r.base r.hugepages).2, cache := c })
    (kept : (g.filler.freeHugepages r.base r.hugepages).1.valid = false → c = g.cache) :
    Freed g held r ((g.filler.freeHugepages r.base r.hugepages).1.valid,
      { g with filler := (g.filler.freeHugepages r.base r.hugepages).2, cache := c }) := by
  rcases tracks.settled.wf.freeHugepages_faces r.base r.hugepages with
    ⟨refused, unknown⟩ | ⟨accepted, start, base, pos, single, led, live, moved, blank⟩
  · rw [refused] at kept ⊢
    rw [kept rfl]
    refine ⟨rfl, ?_⟩
    rintro h member ⟨base, block⟩
    have holds := tracks.blocks.holds _ (List.mem_map_of_mem member)
    have placed := (tracks.proper h member).placed
    have large : ¬h.region.pages ≤ pagesPerHugepage := by
      intro few
      rw [Region.block_few few, Region.block_many many] at block
      cases block
    have here := placed.base_run (by omega)
    rw [base, ← tracks.hugeBase] at here
    rw [block, Region.block_many many] at holds
    exact unknown ⟨_, here, holds⟩
  · rw [accepted]
    obtain ⟨block, h, member, base', block'⟩ := tracks.block_of_run many base pos single led live
    refine ⟨h, member, base', block', ?_, ?_⟩
    · refine tracks.struck member refits base' fun before after old => ?_
      rw [block', block] at old
      refine old.release (fun j inRange => ?_) moved.other
      rw [blank j inRange]
      rfl
    · intro j k
      rw [block]
      by_cases inRange : HugePageFiller.InRange start r.hugepages j
      · rw [blank j inRange]
        simp only [Block.Covers, inRange, true_and]
        constructor
        · intro live
          simp [Face.blank] at live
        · rintro ⟨live, outside⟩
          exact absurd (BitVec.lt_of_getLsbD live) outside
      · rw [moved.other j inRange]
        simp [Block.Covers, inRange]

/-- What `free_region` does. -/
theorem Tracks.freeRegion (r : Region) : Freed g held r (g.freeRegion r) := by
  by_cases ours : g.ours r = true
  · have refits := freeRegion_refits tracks.settled r
    unfold HugePageBackend.freeRegion at refits ⊢
    rw [if_neg (by simp [tracks.standing]), if_neg (by simp [ours])] at refits ⊢
    dsimp only at refits ⊢
    by_cases few : r.len / pageSize ≤ pagesPerHugepage
    · rw [if_pos few] at refits ⊢
      exact tracks.freePacked few refits
    · rw [if_neg few] at refits ⊢
      exact tracks.freeRun few refits fun refused => if_neg (Bool.eq_false_iff.mp refused)
  · have refused : g.freeRegion r = (false, g) := by
      simp [HugePageBackend.freeRegion, ours, tracks.standing]
    rw [refused]
    refine ⟨rfl, ?_⟩
    rintro h member ⟨base, block⟩
    apply ours
    apply tracks.ours member base
    -- an empty region names no block
    intro zero
    have none : r.pages = 0 := by simp [Region.pages, zero]
    have holds := tracks.blocks.holds _ (List.mem_map_of_mem member)
    rw [block, Region.block_few (by omega)] at holds
    have := Face.Packed.pos holds
    omega

/-- The ledger after a trim that gave back `freed` bytes. -/
def relet (held : List Lease) (base newLen : Nat) : Option Nat → List Lease
  | none => held
  | some freed => held.map fun h =>
    if h.region.base = base then
      { h with region := ⟨h.region.base, h.region.len - freed⟩, bytes := max newLen 1 }
    else h

/-- A packed lease is cut to fewer pages. -/
theorem Tracks.trimmed (settled : f.Settled) (rounded : pagesFor (max newLen 1) pageSize = some newPages)
    (base : r.base = g.filler.hugeBase hp + off * pageSize)
    (packed : (g.filler.faces hp).Packed off r.pages) (pos : 0 < newPages) (shorter : newPages < r.pages)
    (moved : g.filler.Moved f hp ((g.filler.faces hp).trim off r.pages newPages)) :
    Tracks { g with filler := f } (relet held r.base newLen (some ((r.pages - newPages) * pageSize))) := by
  have fits := packed.fits
  obtain ⟨block, h, member, base', block'⟩ := tracks.block_of_packed (by omega) base packed
  obtain ⟨before, after, rfl, -, relets⟩ := tracks.split member
  have proper := tracks.proper h (by simp)
  obtain ⟨count, whole⟩ := proper.placed.whole
  have pages : h.region.pages = r.pages := by
    rw [block] at block'
    simp only [Region.block] at block'
    split at block'
    · exact (Block.packed.inj block').2.2
    · cases block'
  have same : count = r.pages := by
    rw [← pages, Region.pages, whole, Nat.mul_div_cancel_left _ pageSize_pos]
  have left : h.region.len - (r.pages - newPages) * pageSize = newPages * pageSize := by
    rw [whole, same, Nat.mul_comm pageSize, ← Nat.sub_mul, Nat.sub_sub_self (by omega)]
  have number : Region.pages ⟨h.region.base, newPages * pageSize⟩ = newPages :=
    Nat.mul_div_cancel _ pageSize_pos
  have here : h.region.base = g.region.base + hp * hugepageSize + off * pageSize := by
    rw [base', base, tracks.hugeBase]
  have named : Region.block g.region.base ⟨h.region.base, newPages * pageSize⟩ = .packed hp off newPages := by
    have block := Region.block_packed (r := ⟨h.region.base, newPages * pageSize⟩) here (by omega)
      (by rw [number]; omega)
    rw [number] at block
    exact block
  have ledger : relet (before ++ h :: after) r.base newLen (some ((r.pages - newPages) * pageSize)) =
      before ++ ⟨⟨h.region.base, newPages * pageSize⟩, max newLen 1, h.align⟩ :: after := by
    rw [relet, ← base', relets fun k => { k with
      region := ⟨k.region.base, k.region.len - (r.pages - newPages) * pageSize⟩
      bytes := max newLen 1 }, left]
  rw [ledger]
  have refits : Refits g { g with filler := f } := ⟨settled, moved.capacity, moved.regionBase, rfl, rfl⟩
  refine tracks.refill refits ?_ ?_
  · have old := tracks.blocks
    rw [List.map_append, List.map_cons, block', block] at old
    rw [List.map_append, List.map_cons, named]
    exact (old.trim pos shorter).congr moved.faces
  · intro k listed
    rcases List.mem_append.mp listed with old | listed
    · exact tracks.proper k (List.mem_append_left _ old)
    rcases List.mem_cons.mp listed with rfl | old
    · have placed := proper.placed
      have fewer := placed.fits (by omega)
      refine ⟨⟨placed.above, placed.page, ?_, ?_, Nat.dvd_mul_left ..⟩, proper.aligned, newPages, rounded,
        rfl⟩
      · rw [number]
        omega
      · rw [number]
        dsimp only
        omega
    · exact tracks.proper k (List.mem_append_right _ (List.mem_cons_of_mem _ old))

theorem Tracks.trimRegion (r : Region) (newLen : Nat) :
    Tracks (g.trimRegion r newLen).2 (relet held r.base newLen (g.trimRegion r newLen).1) := by
  rcases trimRegion_cases tracks.settled r newLen with
    same | ⟨newPages, hp, off, f, rounded, base, packed, pos, shorter, settled, moved, same⟩
  · rw [same]
    exact tracks
  · rw [same]
    exact tracks.trimmed settled rounded base packed pos shorter moved

/-! ## Runs -/

theorem Tracks.markCold (addr : Nat) : Tracks (g.markCold addr).2 held :=
  tracks.rests (rests_of_unmoved (tracks.settled.markCold addr)
    (HugePageFiller.markCold_unmoved g.filler addr))

theorem Tracks.subrelease (base pages : Nat) (pressureHigh : Bool) (w : σ) :
    Tracks (g.subrelease P base pages pressureHigh w).2.1 held :=
  tracks.rests (subrelease_rests tracks.settled base pages pressureHigh w)

end

/-- A backend with its provider state and the ledger of its leases. -/
structure Tracked (σ : Type) where
  backend : HugePageBackend
  world : σ
  held : List Lease

/-- The ledger after a call. -/
def Tracked.record (P : Provider σ) (s : Tracked σ) : Call → List Lease
  | .allocate bytes align hints =>
    enter s.held bytes align (s.backend.allocate P bytes align hints s.world).1
  | .freeRegion r => if (s.backend.freeRegion r).1 then strike s.held r.base else s.held
  | .tryCacheRevoking r arena =>
    if ((hook P).tryCacheRevoking (s.backend, s.world) r arena).1 then strike s.held r.base
    else s.held
  | .trimRegion r newLen => relet s.held r.base newLen (s.backend.trimRegion r newLen).1
  | _ => s.held

/-- One recorded call. -/
def Tracked.step (P : Provider σ) (s : Tracked σ) (call : Call) : Tracked σ where
  backend := (HugePageBackend.step P (s.backend, s.world) call).1
  world := (HugePageBackend.step P (s.backend, s.world) call).2
  held := s.record P call

def Tracked.run (P : Provider σ) (s : Tracked σ) (calls : List Call) : Tracked σ :=
  calls.foldl (Tracked.step P) s

/-- The ledger is a ghost: it does not change the run. -/
theorem Tracked.run_eq (s : Tracked σ) (calls : List Call) :
    ((s.run P calls).backend, (s.run P calls).world) = HugePageBackend.run P (s.backend, s.world) calls := by
  induction calls generalizing s with
  | nil => rfl
  | cons call calls ih => exact ih (s.step P call)

theorem Tracked.step_tracks {s : Tracked σ} (tracks : Tracks s.backend s.held) (call : Call) :
    Tracks (s.step P call).backend (s.step P call).held := by
  have freed : ∀ r, Tracks (s.backend.freeRegion r).2
      (if (s.backend.freeRegion r).1 then strike s.held r.base else s.held) := by
    intro r
    have outcome := tracks.freeRegion r
    generalize s.backend.freeRegion r = answer at outcome
    obtain ⟨_ | _, g'⟩ := answer
    · obtain ⟨rfl, -⟩ := outcome
      exact tracks
    · obtain ⟨h, -, -, -, struck, -⟩ := outcome
      exact struck
  have releases : ∀ (g : HugePageBackend) (base pages : Nat) (w : σ), Tracks g s.held →
      Tracks (g.subrelease P base pages true w).2.1 s.held :=
    fun _ base pages w tracks => tracks.subrelease base pages true w
  cases call with
  | allocate bytes align hints => exact allocate_tracks tracks Prod.mk.eta.symm
  | freeRegion r => exact freed r
  | tryCacheRevoking r arena =>
    rcases asked : P.revokeDescendants s.world arena r with ⟨_ | _, w⟩
    · simpa only [Tracked.step, Tracked.record, HugePageBackend.step, hook, asked,
        Bool.false_eq_true, if_false] using tracks
    · simpa only [Tracked.step, Tracked.record, HugePageBackend.step, hook, asked] using freed r
  | trimRegion r newLen => exact tracks.trimRegion r newLen
  | subrelease base pages pressureHigh => exact tracks.subrelease base pages pressureHigh s.world
  | releaseEmptyExcessBounded reserve maxRelease =>
    exact releaseExcessFrom_keeps P (I := (Tracks · s.held)) releases _ _ _ _ _ _ _ _ tracks
  | releaseEmptyWithinBytes budget =>
    exact releaseWithinFrom_keeps P (I := (Tracks · s.held)) releases _ _ _ _ _ tracks
  | markCold addr => exact tracks.markCold addr

theorem Tracked.run_tracks {s : Tracked σ} (tracks : Tracks s.backend s.held) (calls : List Call) :
    Tracks (s.run P calls).backend (s.run P calls).held := by
  induction calls generalizing s with
  | nil => exact tracks
  | cons call calls ih => exact ih (Tracked.step_tracks tracks call)

/-- What the provider promises of a reservation of `len` bytes: it is at least
as long, and ends inside the address space. -/
structure Reservation (region : Region) (len : Nat) : Prop where
  long : len ≤ region.len
  space : region.base + region.len ≤ usizeMax

variable {source : MetadataSource} {region : Region} {arena capacityHugepages regionCacheSlots : Nat}

theorem new_fields (built : new source region arena capacityHugepages regionCacheSlots = some g) :
    g.released = false ∧ g.filler.regionBase = g.region.base ∧ g.region = region ∧
      hugepageSize ∣ region.base ∧ g.filler.capacity = capacityHugepages ∧
      g.filler.slots = fun _ => {} := by
  unfold HugePageBackend.new at built
  split at built
  · contradiction
  simp only [Option.bind_eq_bind, Option.bind_eq_some_iff, Option.some.injEq] at built
  obtain ⟨-, -, filler, made, -, -, rfl⟩ := built
  unfold HugePageFiller.new at made
  split at made
  · contradiction
  rename_i sized
  simp only [Option.bind_eq_bind, Option.bind_eq_some_iff, Option.ite_none_left_eq_some,
    Option.some.injEq] at made
  obtain ⟨-, -, -, -, -, -, -, rfl⟩ := made
  simp only [not_or, not_not] at sized
  exact ⟨rfl, rfl, rfl, sized.2.2, rfl, rfl⟩

theorem new_tracks (built : new source region arena capacityHugepages regionCacheSlots = some g)
    (reserved : Reservation region (capacityHugepages * hugepageSize)) : Tracks g [] := by
  obtain ⟨standing, base, same, aligned, capacity, slots⟩ := new_fields built
  refine ⟨new_settled built, standing, base, same ▸ aligned, ?_, same ▸ reserved.space, ?_,
    fun _ member => absurd member (by simp)⟩
  · rw [capacity, same]
    exact reserved.long
  · refine Block.tracks_blank.congr fun j => ?_
    rw [HugePageFiller.faces, slots]
    rfl

/-- Page `k` of hugepage `j` is live. -/
def LivePage (g : HugePageBackend) (j k : Nat) : Prop := (g.filler.slots j).live.getLsbD k = true

/-- Page `k` of hugepage `j` is one the lease takes: its own pages, for a run
the pages of its hugepages. -/
def Takes (g : HugePageBackend) (h : Lease) (j k : Nat) : Prop :=
  h.region.base ≤ g.filler.hugeBase j + k * pageSize ∧
    g.filler.hugeBase j + k * pageSize < h.region.base + h.region.footprint

/-- The leases are disjoint and as asked for, and `free_region` accepts exactly
the regions that name one. -/
structure Agrees (g : HugePageBackend) (held : List Lease) : Prop where
  disjoint : held.Pairwise fun a b => a.region.base + a.region.len ≤ b.region.base ∨
    b.region.base + b.region.len ≤ a.region.base
  inside : ∀ h ∈ held, g.region.base ≤ h.region.base ∧
    h.region.base + h.region.len ≤ g.region.base + g.region.len
  aligned : ∀ h ∈ held, h.align ∣ h.region.base
  sized : ∀ h ∈ held, ∃ pages, pagesFor h.bytes pageSize = some pages ∧ h.region.len = pages * pageSize
  live : ∀ j k, k < pagesPerHugepage → (LivePage g j k ↔ ∃ h ∈ held, Takes g h j k)
  accepts : ∀ r : Region, pageSize ∣ r.len → ((g.freeRegion r).1 = true ↔ ∃ h ∈ held, h.Named r)
  removes : ∀ r : Region, pageSize ∣ r.len → ∀ h ∈ held, h.Named r → ∀ j k,
    k < pagesPerHugepage → (LivePage (g.freeRegion r).2 j k ↔ LivePage g j k ∧ ¬Takes g h j k)
  refuses : ∀ r : Region, (g.freeRegion r).1 = false → (g.freeRegion r).2 = g

theorem Tracks.takes_iff (tracks : Tracks g held) (member : h ∈ held)
    (page : k < pagesPerHugepage) : Takes g h j k ↔ (h.region.block g.region.base).Covers j k := by
  rw [(tracks.proper h member).placed.covers page, Takes, tracks.hugeBase]

/-- Leases of disjoint blocks are disjoint. -/
theorem Tracks.disjoint (tracks : Tracks g held) :
    held.Pairwise fun a b => a.region.base + a.region.len ≤ b.region.base ∨
      b.region.base + b.region.len ≤ a.region.base := by
  have apart := List.pairwise_map.mp tracks.blocks.apart
  refine apart.imp_of_mem fun {a b} memberA memberB apart => ?_
  -- of two overlapping leases one takes the other's first page
  have misses : ∀ {a b : Lease}, a ∈ held → b ∈ held →
      (a.region.block g.region.base).Apart (b.region.block g.region.base) →
      a.region.base ≤ b.region.base → a.region.base + a.region.len ≤ b.region.base := by
    intro a b memberA memberB apart below
    by_contra beyond
    have placed := (tracks.proper a memberA).placed
    obtain ⟨-, footprint, -⟩ := tracks.inside memberA
    have covers := tracks.covers_base memberB
    refine apart _ _ ?_ covers
    have page : (b.region.base - g.region.base) % hugepageSize / pageSize < pagesPerHugepage := by
      simp only [hugepageSize, pageSize, pagesPerHugepage]
      omega
    rw [placed.covers page, ← (tracks.proper b memberB).placed.base]
    omega
  rcases Nat.le_total a.region.base b.region.base with below | below
  · exact .inl (misses memberA memberB apart below)
  · exact .inr (misses memberB memberA apart.symm below)

theorem Tracks.agrees (tracks : Tracks g held) : Agrees g held where
  disjoint := tracks.disjoint
  inside := by
    intro h member
    have above := (tracks.proper h member).placed.above
    obtain ⟨-, footprint, -, inside⟩ := tracks.inside member
    omega
  aligned h member := (tracks.proper h member).aligned
  sized h member := (tracks.proper h member).sized
  live := by
    intro j k page
    constructor
    · intro live
      obtain ⟨_, listed, covers⟩ := tracks.blocks.complete j k live
      obtain ⟨h, member, rfl⟩ := List.mem_map.mp listed
      exact ⟨h, member, (tracks.takes_iff member page).mpr covers⟩
    · rintro ⟨h, member, takes⟩
      have holds := tracks.blocks.holds _ (List.mem_map_of_mem member)
      exact holds.live ((tracks.takes_iff member page).mp takes)
  accepts := by
    intro r whole
    have outcome := tracks.freeRegion r
    generalize g.freeRegion r = answer at outcome
    obtain ⟨_ | _, g'⟩ := answer
    · obtain ⟨-, unknown⟩ := outcome
      simp only [Bool.false_eq_true, false_iff, not_exists, not_and]
      exact fun h member named => unknown h member ((tracks.named_iff member whole).mp named)
    · obtain ⟨h, member, base, block, -⟩ := outcome
      simp only [true_iff]
      exact ⟨h, member, (tracks.named_iff member whole).mpr ⟨base, block⟩⟩
  removes := by
    intro r whole h member named j k page
    have outcome := tracks.freeRegion r
    have target := (tracks.named_iff member whole).mp named
    generalize g.freeRegion r = answer at outcome
    obtain ⟨_ | _, g'⟩ := answer
    · exact absurd target (outcome.2 h member)
    · obtain ⟨-, -, -, -, -, removes⟩ := outcome
      rw [tracks.takes_iff member page, target.2]
      exact removes j k
  refuses := by
    intro r refused
    have outcome := tracks.freeRegion r
    generalize g.freeRegion r = answer at outcome refused
    obtain ⟨_ | _, g'⟩ := answer
    · exact outcome.1
    · cases refused

/-- In every reachable state the outstanding regions are as allocated, and
`free_region` takes back those and no others. -/
theorem leases_after_calls (built : new source region arena capacityHugepages regionCacheSlots = some g)
    (reserved : Reservation region (capacityHugepages * hugepageSize)) (w : σ) (calls : List Call) :
    let s := Tracked.run P ⟨g, w, []⟩ calls
    (s.backend, s.world) = HugePageBackend.run P (g, w) calls ∧ Agrees s.backend s.held :=
  ⟨Tracked.run_eq _ calls, (Tracked.run_tracks (new_tracks built reserved) calls).agrees⟩

theorem twoHugepages_leases :
    let s := Tracked.run Provider.willing ⟨twoHugepages, (), []⟩
      [.allocate (3 * pageSize) pageSize {}, .allocate hugepageSize 1 {},
        .trimRegion ⟨0, 3 * pageSize⟩ pageSize, .freeRegion ⟨0, pageSize⟩]
    (s.backend, s.world) = HugePageBackend.run Provider.willing (twoHugepages, ())
      [.allocate (3 * pageSize) pageSize {}, .allocate hugepageSize 1 {},
        .trimRegion ⟨0, 3 * pageSize⟩ pageSize, .freeRegion ⟨0, pageSize⟩] ∧
      Agrees s.backend s.held :=
  leases_after_calls twoHugepages_eq_new ⟨Nat.le_refl _, by decide⟩ () _

end HugePageBackend
end Topomalloc
