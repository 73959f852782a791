import Topomalloc.Radix

/-! What the page map is for: a finite partial map from page numbers to owners,
and that every run of the radix tree is a run of it.

The pages of the map are those whose leaf exists. A page outside it has no
owner, and overwriting does not bring it in. -/
namespace Topomalloc

/-- A byte range of the 64-bit address space. -/
structure ByteRange where
  base : Nat
  stop : Nat
  space : stop ≤ 2 ^ 64
  deriving DecidableEq, Repr

/-- A page with a byte in the range. -/
def ByteRange.Covers (range : ByteRange) (p : Nat) : Prop :=
  ∃ addr, range.base ≤ addr ∧ addr < range.stop ∧ pageOf addr = p

theorem ByteRange.covers_iff (range : ByteRange) (p : Nat) :
    range.Covers p ↔ inPages range.base range.stop p = true := by
  simp only [Covers, inPages, Bool.and_eq_true, decide_eq_true_eq]
  simp only [pageOf, pageSize]
  constructor
  · rintro ⟨addr, above, below, rfl⟩
    exact ⟨⟨by omega, Nat.div_le_div_right above⟩, Nat.div_le_div_right (by omega)⟩
  · rintro ⟨⟨some, first⟩, last⟩
    -- the first byte of the page, or of the range when that comes later
    exact ⟨max range.base (p * 16384), by omega, by omega, by omega⟩

instance (range : ByteRange) (p : Nat) : Decidable (range.Covers p) :=
  decidable_of_iff _ (range.covers_iff p).symm

variable {p : Nat}

theorem ByteRange.lt_of_covers {range : ByteRange} (covers : range.Covers p) : p < Radix.pageCount :=
  Radix.inPages_lt range.space ((range.covers_iff p).mp covers)

/-- The address of a descriptor. -/
structure Desc where
  addr : Nat
  aligned : 8 ∣ addr
  word : addr < 2 ^ 64
  deriving DecidableEq, Repr

/-- The calls that change the page map. A span's or a large descriptor's range
is what the descriptor says at the call. -/
inductive PageOp
  | installSpan (span : Desc) (range : ByteRange)
  | installLarge (large : Desc) (range : ByteRange)
  | installLargeRange (large : Desc) (range : ByteRange)
  | reserveLargeRange (range : ByteRange)
  | releaseSpan (span : Desc) (range : ByteRange)
  | retireSpan (range : ByteRange)
  | retireLarge (range : ByteRange)
  | retireLargeRange (range : ByteRange)
  deriving DecidableEq, Repr

namespace Radix
variable {σ : Type} (E : Env σ)

def installSpan (r : Radix) (w : σ) (span : Desc) (range : ByteRange) : Option (Bool × Radix × σ) :=
  r.publishRange E w range.base range.stop (.small span.addr)

def installLarge (r : Radix) (w : σ) (large : Desc) (range : ByteRange) : Option (Bool × Radix × σ) :=
  r.publishRange E w range.base range.stop (.large large.addr)

def installLargeRange (r : Radix) (w : σ) (large : Desc) (range : ByteRange) : Option (Bool × Radix × σ) :=
  r.publishRange E w range.base range.stop (.large large.addr)

def reserveLargeRange (r : Radix) (w : σ) (range : ByteRange) : Bool × Radix × σ :=
  r.reservePages E w (pageRange range.base range.stop)

def releaseSpan (r : Radix) (span : Desc) (range : ByteRange) : Radix :=
  overwritePages (PageEntry.released span.addr).encode r (pageRange range.base range.stop)

def retireSpan (r : Radix) (range : ByteRange) : Radix := overwritePages 0 r (pageRange range.base range.stop)

def retireLarge (r : Radix) (range : ByteRange) : Radix :=
  overwritePages 0 r (pageRange range.base range.stop)

def retireLargeRange (r : Radix) (range : ByteRange) : Radix :=
  overwritePages 0 r (pageRange range.base range.stop)

/-- One call: whether it succeeded, the tree and the metadata source after it;
`none` where it would panic. -/
def step (r : Radix) (w : σ) : PageOp → Option (Bool × Radix × σ)
  | .installSpan span range => r.installSpan E w span range
  | .installLarge large range => r.installLarge E w large range
  | .installLargeRange large range => r.installLargeRange E w large range
  | .reserveLargeRange range => some (r.reserveLargeRange E w range)
  | .releaseSpan span range => some (true, r.releaseSpan span range, w)
  | .retireSpan range => some (true, r.retireSpan range, w)
  | .retireLarge range => some (true, r.retireLarge range, w)
  | .retireLargeRange range => some (true, r.retireLargeRange range, w)

/-- A run, with the answer of each call. -/
def run (r : Radix) (w : σ) : List PageOp → Option (List Bool × Radix × σ)
  | [] => some ([], r, w)
  | op :: rest =>
    match r.step E w op with
    | none => none
    | some (ok, r, w) =>
      match run r w rest with
      | none => none
      | some (oks, r, w) => some (ok :: oks, r, w)

end Radix

/-! ## The partial map -/

/-- A finite partial map from page numbers to entries. -/
structure Owners where
  pages : Finset Nat
  owner : Nat → PageEntry
  unowned : ∀ p, p ∉ pages → owner p = .empty

namespace Owners

def empty : Owners := ⟨∅, fun _ => .empty, fun _ _ => rfl⟩

/-- No owner changed; pages may have been brought in. -/
structure Grown (t t' : Owners) : Prop where
  pages : t.pages ⊆ t'.pages
  owner : t'.owner = t.owner

/-- The range's pages that had no owner, or this one, have this one. -/
structure Installed (range : ByteRange) (entry : PageEntry) (t t' : Owners) : Prop where
  pages : t.pages ⊆ t'.pages
  covered : ∀ p, range.Covers p → p ∈ t'.pages
  owner : ∀ p, t'.owner p =
    if range.Covers p ∧ (t.owner p = .empty ∨ t.owner p = entry) then entry else t.owner p

/-- The range's pages that are in the map have this entry. -/
structure Overwritten (range : ByteRange) (entry : PageEntry) (t t' : Owners) : Prop where
  pages : t'.pages = t.pages
  owner : ∀ p, t'.owner p = if range.Covers p ∧ p ∈ t.pages then entry else t.owner p

/-- An install, done or failed. -/
def Install (range : ByteRange) (entry : PageEntry) (t t' : Owners) : Bool → Prop
  | true => Installed range entry t t'
  | false => Grown t t'

variable {σ : Type} (E : Env σ)

/-- What a call does to the map and asks of the metadata source when it answers `ok`. It
fails only where the source refuses. -/
def Step (t : Owners) (w : σ) (op : PageOp) (ok : Bool) (t' : Owners) (w' : σ) : Prop :=
  match op with
  | .installSpan span range => E.Asked w ok w' ∧ Install range (.small span.addr) t t' ok
  | .installLarge large range => E.Asked w ok w' ∧ Install range (.large large.addr) t t' ok
  | .installLargeRange large range => E.Asked w ok w' ∧ Install range (.large large.addr) t t' ok
  | .reserveLargeRange range =>
    E.Asked w ok w' ∧ Grown t t' ∧ (ok = true → ∀ p, range.Covers p → p ∈ t'.pages)
  | .releaseSpan span range => (ok = true ∧ w' = w) ∧ Overwritten range (.released span.addr) t t'
  | .retireSpan range => (ok = true ∧ w' = w) ∧ Overwritten range .empty t t'
  | .retireLarge range => (ok = true ∧ w' = w) ∧ Overwritten range .empty t t'
  | .retireLargeRange range => (ok = true ∧ w' = w) ∧ Overwritten range .empty t t'

/-- The map goes from `t` to `t'` and the source from `w` to `w'` by the calls, with these
answers. -/
inductive Run : Owners → σ → List PageOp → List Bool → Owners → σ → Prop
  | done (t : Owners) (w : σ) : Run t w [] [] t w
  | next {oks : List Bool} (first : Step E t w op ok mid w₁) (rest : Run mid w₁ ops oks t' w') :
      Run t w (op :: ops) (ok :: oks) t' w'

variable {E}

/-- A page once in the map stays in it. -/
theorem Step.pages (step : Step E t w op ok t' w') : t.pages ⊆ t'.pages := by
  have installs : ∀ {range entry}, Install range entry t t' ok → t.pages ⊆ t'.pages := by
    intro range entry install
    cases ok with
    | true => exact Installed.pages install
    | false => exact Grown.pages install
  have overwrites : ∀ {range entry}, Overwritten range entry t t' → t.pages ⊆ t'.pages :=
    fun overwritten => overwritten.pages ▸ Finset.Subset.refl _
  cases op with
  | installSpan | installLarge | installLargeRange => exact installs step.2
  | reserveLargeRange => exact step.2.1.pages
  | releaseSpan | retireSpan | retireLarge | retireLargeRange => exact overwrites step.2

end Owners

/-! ## The tree is a partial map -/

namespace PageMap
variable {σ : Type} {E : Env σ} {m m' : PageMap} {w w' : σ} {range : ByteRange} {entry : PageEntry}
  {ok : Bool}

/-- The partial map a page map stands for. -/
def owners (m : PageMap) : Owners where
  pages := (Finset.range Radix.pageCount).filter fun p => m.findLeaf p = true
  owner p := if p < Radix.pageCount then m.entries p else .empty
  unowned p outside := by
    split
    · rename_i inside
      by_contra owned
      exact outside (Finset.mem_filter.mpr ⟨Finset.mem_range.mpr inside, m.rooted p owned⟩)
    · rfl

theorem mem_owners : p ∈ m.owners.pages ↔ p < Radix.pageCount ∧ m.findLeaf p = true := by
  simp only [owners, Finset.mem_filter, Finset.mem_range]

theorem owners_owner (inside : p < Radix.pageCount) : m.owners.owner p = m.entries p := if_pos inside

theorem owners_outside (outside : ¬p < Radix.pageCount) : m.owners.owner p = .empty := if_neg outside

theorem owners_subset (leaves : ∀ p, m.findLeaf p = true → m'.findLeaf p = true) :
    m.owners.pages ⊆ m'.owners.pages := by
  intro p member
  obtain ⟨inside, leaf⟩ := mem_owners.mp member
  exact mem_owners.mpr ⟨inside, leaves p leaf⟩

theorem Extends.owners (extended : Extends m m') : m.owners.Grown m'.owners := by
  refine ⟨owners_subset extended.leaf, ?_⟩
  simp only [PageMap.owners, extended.entries]

theorem publishRange_install (ran : m.publishRange E w range.base range.stop entry = (ok, m', w')) :
    E.Asked w ok w' ∧ Owners.Install range entry m.owners m'.owners ok := by
  obtain ⟨asked, leaves, failed, done, -⟩ := publishRange_spec ran
  refine ⟨asked, ?_⟩
  cases ok with
  | false => exact ⟨owners_subset leaves, by simp only [PageMap.owners, failed rfl]⟩
  | true =>
    refine ⟨owners_subset leaves, fun p covers => ?_, fun p => ?_⟩
    · refine mem_owners.mpr ⟨range.lt_of_covers covers, ?_⟩
      exact publishRange_leaf ran p ((range.covers_iff p).mp covers)
    · by_cases inside : p < Radix.pageCount
      · rw [owners_owner inside, owners_owner inside, done rfl p]
        simp only [range.covers_iff]
      · have outside : ¬range.Covers p := fun covers => inside (range.lt_of_covers covers)
        rw [owners_outside inside, owners_outside inside, if_neg fun both => outside both.1]

theorem overwriteRange_overwritten (m : PageMap) (range : ByteRange) (entry : PageEntry) :
    Owners.Overwritten range entry m.owners (m.overwriteRange range.base range.stop entry).owners := by
  refine ⟨rfl, fun p => ?_⟩
  by_cases inside : p < Radix.pageCount
  · rw [owners_owner inside, owners_owner inside]
    simp only [overwriteRange, rewrite, Bool.and_eq_true, range.covers_iff, mem_owners, inside, true_and]
  · have outside : ¬range.Covers p := fun covers => inside (range.lt_of_covers covers)
    rw [owners_outside inside, owners_outside inside, if_neg fun both => outside both.1]

end PageMap

namespace Radix
variable {σ : Type} {E : Env σ} {r r' : Radix} {m : PageMap} {w w' : σ}

section
variable (refines : Refines r m)
include refines

/-- A publish in the tree is an install in the map, and does not fail where the
pages are in the map already. -/
theorem Refines.install (range : ByteRange) (entry : PageEntry) (aligned : entry.Aligned) (w : σ) :
    ∃ ok r' m' w', r.publishRange E w range.base range.stop entry = some (ok, r', w') ∧
      Refines r' m' ∧ (E.Asked w ok w' ∧ Owners.Install range entry m.owners m'.owners ok) ∧
      ((∀ p, range.Covers p → p ∈ m.owners.pages) → ok = true) := by
  rcases ran : m.publishRange E w range.base range.stop entry with ⟨ok, m', w'⟩
  obtain ⟨r', went, refines'⟩ := refines.publishRange range.space aligned ran
  refine ⟨ok, r', m', w', went, refines', PageMap.publishRange_install ran, fun covered => ?_⟩
  obtain ⟨-, -, -, -, succeeds⟩ := PageMap.publishRange_spec ran
  exact succeeds fun p inside =>
    (PageMap.mem_owners.mp (covered p ((range.covers_iff p).mpr inside))).2

theorem Refines.overwrite (range : ByteRange) (entry : PageEntry) (aligned : entry.Aligned) :
    ∃ m', Refines (overwritePages entry.encode r (pageRange range.base range.stop)) m' ∧
      Owners.Overwritten range entry m.owners m'.owners :=
  ⟨_, refines.overwriteRange range.space aligned, m.overwriteRange_overwritten range entry⟩

theorem Refines.reserve (range : ByteRange) (w : σ) :
    ∃ ok r' m' w', r.reserveLargeRange E w range = (ok, r', w') ∧ Refines r' m' ∧
      E.Asked w ok w' ∧ m.owners.Grown m'.owners ∧ (ok = true → ∀ p, range.Covers p → p ∈ m'.owners.pages) := by
  rcases ran : m.reservePages E w (pageRange range.base range.stop) with ⟨ok, m', w'⟩
  have inside : ∀ p ∈ pageRange range.base range.stop, p < pageCount := fun p member =>
    inPages_lt range.space (PageMap.mem_pageRange.mp member)
  obtain ⟨r', went, refines'⟩ := refines.reservePages inside ran
  obtain ⟨extended, asked, leaves, -⟩ := PageMap.reservePages_spec ran
  refine ⟨ok, r', m', w', went, refines', asked, extended.owners, fun done p covers => ?_⟩
  have member := PageMap.mem_pageRange.mpr ((range.covers_iff p).mp covers)
  exact PageMap.mem_owners.mpr ⟨inside p member, leaves done p member⟩

/-- No call panics, each does to the tree what it does to the map, and an
install over pages of the map does not fail. -/
theorem Refines.step (w : σ) (op : PageOp) :
    ∃ ok r' m' w', r.step E w op = some (ok, r', w') ∧ Refines r' m' ∧
      Owners.Step E m.owners w op ok m'.owners w' ∧
      (∀ large range, op = .installLargeRange large range →
        (∀ p, range.Covers p → p ∈ m.owners.pages) → ok = true) := by
  cases op with
  | installSpan span range =>
    obtain ⟨ok, r', m', w', went, refines', install, -⟩ :=
      refines.install (E := E) range (.small span.addr) ⟨span.aligned, span.word⟩ w
    exact ⟨ok, r', m', w', went, refines', install, nofun⟩
  | installLarge large range =>
    obtain ⟨ok, r', m', w', went, refines', install, -⟩ :=
      refines.install (E := E) range (.large large.addr) ⟨large.aligned, large.word⟩ w
    exact ⟨ok, r', m', w', went, refines', install, nofun⟩
  | installLargeRange large range =>
    obtain ⟨ok, r', m', w', went, refines', install, succeeds⟩ :=
      refines.install (E := E) range (.large large.addr) ⟨large.aligned, large.word⟩ w
    refine ⟨ok, r', m', w', went, refines', install, fun _ _ same => ?_⟩
    cases same
    exact succeeds
  | reserveLargeRange range =>
    obtain ⟨ok, r', m', w', went, refines', reserved⟩ := refines.reserve (E := E) range w
    exact ⟨ok, r', m', w', congrArg some went, refines', reserved, nofun⟩
  | releaseSpan span range =>
    obtain ⟨m', refines', written⟩ := refines.overwrite range (.released span.addr) ⟨span.aligned, span.word⟩
    exact ⟨true, _, m', w, rfl, refines', ⟨⟨rfl, rfl⟩, written⟩, nofun⟩
  | retireSpan range | retireLarge range | retireLargeRange range =>
    obtain ⟨m', refines', written⟩ := refines.overwrite range .empty trivial
    exact ⟨true, _, m', w, rfl, refines', ⟨⟨rfl, rfl⟩, written⟩, nofun⟩

/-- A call before place `j` reserved page `p`. -/
def ReservedBefore (ops : List PageOp) (oks : List Bool) (j p : Nat) : Prop :=
  ∃ i < j, ∃ range, ops[i]? = some (.reserveLargeRange range) ∧ oks[i]? = some true ∧ range.Covers p

theorem Refines.run (w : σ) (ops : List PageOp) :
    ∃ oks r' m' w', r.run E w ops = some (oks, r', w') ∧ Refines r' m' ∧
      Owners.Run E m.owners w ops oks m'.owners w' ∧
      ∀ (j : Nat) large range, ops[j]? = some (.installLargeRange large range) →
        (∀ p, range.Covers p → p ∈ m.owners.pages ∨ ReservedBefore ops oks j p) → oks[j]? = some true := by
  induction ops generalizing r m w with
  | nil => exact ⟨[], r, m, w, rfl, refines, .done _ _, fun j _ _ found => by simp at found⟩
  | cons op rest ih =>
    obtain ⟨ok, r₁, m₁, w₁, went, refines₁, step, succeeds⟩ := refines.step (E := E) w op
    obtain ⟨oks, r', m', w', ran, refines', run, covered⟩ := ih refines₁ w₁
    refine ⟨ok :: oks, r', m', w', by simp only [Radix.run, went, ran], refines', .next step run,
      fun j large range found pages => ?_⟩
    cases j with
    | zero =>
      simp only [List.getElem?_cons_zero, Option.some.injEq] at found ⊢
      refine succeeds large range found fun p covers => ?_
      rcases pages p covers with inside | ⟨i, before, -⟩
      · exact inside
      · omega
    | succ j =>
      simp only [List.getElem?_cons_succ] at found ⊢
      refine covered j large range found fun p covers => ?_
      rcases pages p covers with inside | ⟨i, before, wide, asked, granted, reserved⟩
      · exact .inl (step.pages inside)
      · cases i with
        | zero =>
          simp only [List.getElem?_cons_zero, Option.some.injEq] at asked granted
          subst asked granted
          exact .inl (step.2.2 rfl p reserved)
        | succ i => exact .inr ⟨i, by omega, wide, asked, granted, reserved⟩

end

/-- From an empty tree, every sequence of calls runs without a panic as a
sequence of calls on the partial map, with the same requests to the metadata source,
whatever it answers. Every lookup then reads the map, distinct pages have distinct
slots, a leaf word is the encoding of the entry it stands for, and an install over
pages reserved earlier did not fail. -/
theorem run_refines_owners (E : Env σ) (w : σ) (ops : List PageOp) :
    ∃ oks r w' table, ({} : Radix).run E w ops = some (oks, r, w') ∧ Owners.Run E .empty w ops oks table w' ∧
      (∀ addr < 2 ^ 64, r.lookup addr = table.owner (pageOf addr)) ∧
      (∀ p < 2 ^ 50, ∀ q < 2 ^ 50, ∀ leaf, r.findLeaf p = some leaf → r.findLeaf q = some leaf →
        slotIndex p 0 = slotIndex q 0 → p = q) ∧
      (∀ p < 2 ^ 50, ∀ leaf, r.findLeaf p = some leaf →
        r.tree.words leaf (slotIndex p 0) = (table.owner p).encode) ∧
      (∀ e : PageEntry, e.Aligned → PageEntry.decode e.encode = e) ∧
      ∀ (j : Nat) large range, ops[j]? = some (.installLargeRange large range) →
        (∀ p, range.Covers p → ReservedBefore ops oks j p) → oks[j]? = some true := by
  obtain ⟨oks, r, m, w', ran, refines, run, reserved⟩ := refines_new.run (E := E) w ops
  have start : PageMap.new.owners = .empty := by
    simp [PageMap.owners, Owners.empty, PageMap.new, PageMap.findLeaf, nodePath]
  have count : pageCount = 2 ^ 50 := by decide
  have found : ∀ {p leaf}, r.findLeaf p = some leaf → leaf = r.reach p 4 ∧ r.reach p 4 ≠ 0 := by
    intro p leaf found
    rw [findLeaf_eq] at found
    split at found
    · cases found
    · rename_i there
      exact ⟨(Option.some.inj found).symm, there⟩
  refine ⟨oks, r, w', m.owners, ran, start ▸ run, fun addr word => ?_, ?_, ?_,
    fun e aligned => PageEntry.decode_encode aligned, fun j large range found pages =>
      reserved j large range found fun p covers => .inr (pages p covers)⟩
  · rw [refines.lookup word, m.lookup_eq, PageMap.owners_owner (pageOf_lt word)]
  · intro p inside q other leaf atP atQ slots
    obtain ⟨rfl, there⟩ := found atP
    rw [slotIndex_eq, slotIndex_eq] at slots
    exact refines.spread.key_eq (count ▸ inside) (count ▸ other) there (found atQ).1 slots
  · intro p inside leaf atP
    obtain ⟨rfl, there⟩ := found atP
    have below : p < pageCount := count ▸ inside
    rw [PageMap.owners_owner below]
    exact refines.entries p below there

/-- A page that was reserved is found under its owner; the page after it has none. -/
example :
    ((({} : Radix).run .willing () [.reserveLargeRange ⟨0, pageSize, by decide⟩,
        .installLargeRange ⟨64, by decide, by decide⟩ ⟨0, pageSize, by decide⟩]).map fun o =>
      (o.1, o.2.1.lookup 1, o.2.1.lookup pageSize)) = some ([true, true], .large 64, .empty) := by
  decide +kernel

end Radix
end Topomalloc
