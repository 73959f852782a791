import Topomalloc.Huge.Runs

/-! Which allocations the bitmaps stand for. The filler keeps no table of
allocations: a `free` is judged from the live bits, the head bits and the run
marks alone. Here is the set of blocks those bits describe, and that it changes
with the bits as a table would. -/
namespace Topomalloc
open Function Bitmap

/-- What a `free` reads of a hugepage. The length counts in a run only. -/
structure Face where
  live : PageBits
  heads : PageBits
  inRun : Bool
  runLen : Nat

/-- The face of a slot. -/
def HugePageSlot.face (s : HugePageSlot) : Face := ⟨s.live, s.heads, s.inRun, if s.inRun then s.runLen else 0⟩

namespace Face
variable {s : Face} {off off' pages pages' newPages k : Nat}

/-- A hugepage without an allocation. -/
def blank : Face := ⟨0, 0, false, 0⟩

def carve (s : Face) (off pages : Nat) : Face :=
  { s with live := setRun s.live off pages, heads := bitSet s.heads off }

def free (s : Face) (off pages : Nat) : Face :=
  { s with live := clearRun s.live off pages, heads := bitClear s.heads off }

def trim (s : Face) (off pages newPages : Nat) : Face :=
  { s with live := clearRun s.live (off + newPages) (pages - newPages) }

/-- Heads are live, and a live page that is no head continues the page before. -/
structure Sound (s : Face) : Prop where
  headsLive : ∀ k, s.heads.getLsbD k = true → s.live.getLsbD k = true
  headed : ∀ k, s.live.getLsbD k = true → s.heads.getLsbD k = true ∨ 0 < k ∧ s.live.getLsbD (k - 1) = true

/-- The pages from `off` on are one packed allocation. -/
structure Packed (s : Face) (off pages : Nat) : Prop where
  pos : 0 < pages
  fits : off + pages ≤ pagesPerHugepage
  single : s.inRun = false
  live : ∀ k, off ≤ k → k < off + pages → s.live.getLsbD k = true
  head : s.heads.getLsbD off = true
  inner : ∀ k, off < k → k < off + pages → s.heads.getLsbD k = false
  next : off + pages < pagesPerHugepage → s.live.getLsbD (off + pages) = true →
    s.heads.getLsbD (off + pages) = true

/-- A head inside a packed allocation is its first page. -/
theorem Packed.eq_of_head (packed : s.Packed off pages) (head : s.heads.getLsbD k = true)
    (lower : off ≤ k) (upper : k < off + pages) : k = off := by
  by_contra other
  have none := packed.inner k (by omega) upper
  rw [head] at none
  contradiction

/-- An allocation does not reach past another's length: the page after it would
be live and no head. -/
theorem Packed.not_longer (packed : s.Packed off pages) (packed' : s.Packed off pages') :
    ¬pages < pages' := by
  intro longer
  have fits := packed'.fits
  have live := packed'.live (off + pages) (by omega) (by omega)
  have head := packed.next (by omega) live
  have pos := packed.pos
  have none := packed'.inner (off + pages) (by omega) (by omega)
  rw [head] at none
  contradiction

/-- The bits say how long an allocation is. -/
theorem Packed.unique (packed : s.Packed off pages) (packed' : s.Packed off pages') : pages = pages' := by
  have := packed.not_longer packed'
  have := packed'.not_longer packed
  omega

theorem Packed.carved (sound : s.Sound) (single : s.inRun = false) (pos : 0 < pages)
    (fits : off + pages ≤ pagesPerHugepage)
    (clear : ∀ k, off ≤ k → k < off + pages → s.live.getLsbD k = false) :
    (s.carve off pages).Packed off pages := by
  refine ⟨pos, fits, single, ?_, ?_, ?_, ?_⟩
  · intro k lower upper
    simp only [carve, getLsbD_setRun]
    simp [lower, upper, show k < pagesPerHugepage by omega]
  · simp only [carve, getLsbD_bitSet]
    simp [show off < pagesPerHugepage by omega]
  · intro k lower upper
    have old := sound.headsLive k
    have free := clear k (by omega) upper
    simp only [carve, getLsbD_bitSet]
    grind
  · -- the page before the next one was clear, so the next one is a head
    intro inside live
    have old := sound.headed (off + pages)
    have free := clear (off + pages - 1) (by omega) (by omega)
    simp only [carve, getLsbD_bitSet, getLsbD_setRun] at live ⊢
    grind

/-- Carving clear pages leaves the other allocations alone. -/
theorem Packed.carve_other (packed : s.Packed off' pages') (pos : 0 < pages)
    (clear : ∀ k, off ≤ k → k < off + pages → s.live.getLsbD k = false) :
    (s.carve off pages).Packed off' pages' := by
  have apart : ∀ k, off ≤ k → k < off + pages → ¬(off' ≤ k ∧ k < off' + pages') := by
    intro k lower upper inside
    have live := packed.live k inside.1 inside.2
    rw [clear k lower upper] at live
    contradiction
  refine ⟨packed.pos, packed.fits, packed.single, ?_, ?_, ?_, ?_⟩
  · intro k lower upper
    have live := packed.live k lower upper
    simp only [carve, getLsbD_setRun, live, Bool.true_or]
  · have head := packed.head
    simp only [carve, getLsbD_bitSet, head, Bool.true_or]
  · intro k lower upper
    have none := packed.inner k lower upper
    have away := apart off (by omega) (by omega)
    simp only [carve, getLsbD_bitSet, none, Bool.false_or, decide_eq_false_iff_not]
    rintro ⟨rfl, -⟩
    exact away ⟨by omega, upper⟩
  · intro inside live
    have next := packed.next inside
    have away := apart (off' + pages' - 1)
    have pos' := packed.pos
    simp only [carve, getLsbD_bitSet, getLsbD_setRun] at live ⊢
    grind

/-- Freeing one allocation leaves those that share no page with it alone. -/
theorem Packed.free_other (packed : s.Packed off' pages') (freed : s.Packed off pages)
    (apart : ∀ k, off ≤ k → k < off + pages → ¬(off' ≤ k ∧ k < off' + pages')) :
    (s.free off pages).Packed off' pages' := by
  have pos := freed.pos
  have away := apart off (by omega) (by omega)
  refine ⟨packed.pos, packed.fits, packed.single, ?_, ?_, ?_, ?_⟩
  · intro k lower upper
    have live := packed.live k lower upper
    have outside := apart k
    simp only [free, getLsbD_clearRun]
    grind
  · have head := packed.head
    have pos' := packed.pos
    simp only [free, getLsbD_bitClear]
    grind
  · intro k lower upper
    have none := packed.inner k lower upper
    simp only [free, getLsbD_bitClear, none, Bool.false_and]
  · intro inside live
    have next := packed.next inside
    simp only [free, getLsbD_bitClear, getLsbD_clearRun] at live ⊢
    grind

theorem Packed.trimmed (packed : s.Packed off pages) (pos : 0 < newPages)
    (shorter : newPages < pages) : (s.trim off pages newPages).Packed off newPages := by
  have fits := packed.fits
  refine ⟨pos, by omega, packed.single, ?_, packed.head, ?_, ?_⟩
  · intro k lower upper
    have live := packed.live k lower (by omega)
    simp only [trim, getLsbD_clearRun]
    grind
  · intro k lower upper
    exact packed.inner k lower (by omega)
  · intro inside live
    simp only [trim, getLsbD_clearRun] at live
    grind

theorem Packed.trim_other (packed : s.Packed off' pages')
    (apart : ∀ k, off ≤ k → k < off + pages → ¬(off' ≤ k ∧ k < off' + pages')) (pos : 0 < newPages)
    (shorter : newPages < pages) : (s.trim off pages newPages).Packed off' pages' := by
  refine ⟨packed.pos, packed.fits, packed.single, ?_, packed.head, packed.inner, ?_⟩
  · intro k lower upper
    have live := packed.live k lower upper
    have outside := apart k
    simp only [trim, getLsbD_clearRun]
    grind
  · intro inside live
    simp only [trim, getLsbD_clearRun] at live
    exact packed.next inside (by grind)

end Face

/-! ## Blocks -/

/-- An allocation of the filler: pages of one hugepage, or a run of whole
ones. -/
inductive Block
  | packed (hp off pages : Nat)
  | run (start n : Nat)
  deriving DecidableEq, Repr

namespace Block
variable {F F' : Nat → Face} {hp off pages newPages start n : Nat} {b c : Block}

/-- Page `k` of hugepage `j` belongs to the block. -/
def Covers : Block → (j k : Nat) → Prop
  | packed hp off pages, j, k => j = hp ∧ off ≤ k ∧ k < off + pages
  | run start n, j, k => HugePageFiller.InRange start n j ∧ k < pagesPerHugepage

/-- The bits describe the block. -/
def Holds (F : Nat → Face) : Block → Prop
  | packed hp off pages => (F hp).Packed off pages
  | run start n => 0 < n ∧ ∀ j, HugePageFiller.InRange start n j →
    (F j).inRun = true ∧ (F j).runLen = (if j = start then n else 0) ∧
      ∀ k < pagesPerHugepage, (F j).live.getLsbD k = true

def Apart (b c : Block) : Prop := ∀ j k, b.Covers j k → ¬c.Covers j k

theorem Apart.symm (apart : b.Apart c) : c.Apart b := fun j k covers covers' => apart j k covers' covers

/-- The pages of a block are live. -/
theorem Holds.live (holds : b.Holds F) (covers : b.Covers j k) : (F j).live.getLsbD k = true := by
  cases b with
  | packed hp off pages =>
    obtain ⟨rfl, lower, upper⟩ := covers
    exact holds.live k lower upper
  | run start n => exact (holds.2 j covers.1).2.2 k covers.2

/-- The blocks held are those the bits describe: they share no page, and every
live page belongs to one. -/
structure Tracks (F : Nat → Face) (held : List Block) : Prop where
  holds : ∀ b ∈ held, b.Holds F
  complete : ∀ j k, (F j).live.getLsbD k = true → ∃ b ∈ held, b.Covers j k
  apart : held.Pairwise Apart

variable {held before after : List Block}

theorem tracks_blank : Tracks (fun _ => Face.blank) [] :=
  ⟨fun _ member => absurd member (by simp), fun _ k live => by simp [Face.blank] at live, .nil⟩

/-- What the bits call a packed allocation is held. -/
theorem Tracks.mem_of_packed (tracks : Tracks F held) (packed : (F hp).Packed off pages) :
    Block.packed hp off pages ∈ held := by
  have pos := packed.pos
  obtain ⟨b, member, covers⟩ := tracks.complete hp off (packed.live off (Nat.le_refl _) (by omega))
  have holds := tracks.holds b member
  cases b with
  | packed hp' off' pages' =>
    obtain ⟨rfl, lower, upper⟩ := covers
    obtain rfl := Face.Packed.eq_of_head holds packed.head lower upper
    rw [packed.unique holds]
    exact member
  | run start n =>
    have inRun := (holds.2 hp covers.1).1
    rw [packed.single] at inRun
    contradiction

/-- What the bits call the first hugepage of a run leads a run that is held. -/
theorem Tracks.mem_of_run (tracks : Tracks F held) (single : (F start).inRun = true)
    (led : (F start).runLen = n) (pos : 0 < n) (live : (F start).live.getLsbD 0 = true) :
    Block.run start n ∈ held := by
  obtain ⟨b, member, covers⟩ := tracks.complete start 0 live
  have holds := tracks.holds b member
  cases b with
  | packed hp off pages =>
    obtain ⟨rfl, -⟩ := covers
    rw [Face.Packed.single holds] at single
    contradiction
  | run start' n' =>
    have length := (holds.2 start covers.1).2.1
    rw [led] at length
    split at length
    · rename_i same
      subst same length
      exact member
    · omega

/-- Nothing held moves when the bits do not. -/
theorem Tracks.congr (tracks : Tracks F held) (same : ∀ j, F' j = F j) : Tracks F' held := by
  obtain rfl : F' = F := funext same
  exact tracks

/-- A block of clear pages is entered. -/
theorem Tracks.enter (tracks : Tracks F held) (clear : ∀ j k, b.Covers j k → (F j).live.getLsbD k = false)
    (others : ∀ c : Block, c.Holds F → c.Apart b → c.Holds F') (holds : b.Holds F')
    (more : ∀ j k, (F' j).live.getLsbD k = true → (F j).live.getLsbD k = true ∨ b.Covers j k) :
    Tracks F' (held ++ [b]) := by
  have apart : ∀ c ∈ held, c.Apart b := by
    intro c member j k covers covered
    have live := (tracks.holds c member).live covers
    rw [clear j k covered] at live
    contradiction
  refine ⟨?_, ?_, ?_⟩
  · intro c member
    rcases List.mem_append.mp member with old | new
    · exact others c (tracks.holds c old) (apart c old)
    · rw [List.mem_singleton.mp new]
      exact holds
  · intro j k live
    rcases more j k live with old | new
    · obtain ⟨c, member, covers⟩ := tracks.complete j k old
      exact ⟨c, List.mem_append_left _ member, covers⟩
    · exact ⟨b, by simp, new⟩
  · apply List.pairwise_append.mpr
    refine ⟨tracks.apart, List.pairwise_singleton _ _, ?_⟩
    intro c member d new
    rw [List.mem_singleton.mp new]
    exact apart c member

/-- A block is replaced by one inside it, or by none. -/
theorem Tracks.replace (tracks : Tracks F (before ++ b :: after)) (F' : Nat → Face) (now : Option Block)
    (others : ∀ c : Block, c.Holds F → c.Apart b → c.Holds F') (holds : ∀ c ∈ now, c.Holds F')
    (inside : ∀ c ∈ now, ∀ j k, c.Covers j k → b.Covers j k) (less : ∀ j k, (F' j).live.getLsbD k = true →
      (F j).live.getLsbD k = true ∧ (b.Covers j k → ∃ c ∈ now, c.Covers j k)) :
    Tracks F' (before ++ now.toList ++ after) := by
  obtain ⟨first, rest, across⟩ := List.pairwise_append.mp tracks.apart
  obtain ⟨ahead, later⟩ := List.pairwise_cons.mp rest
  have kept : ∀ c, c ∈ before ∨ c ∈ after → c.Holds F ∧ c.Apart b := by
    rintro c (member | member)
    · exact ⟨tracks.holds c (by simp [member]), across c member b (by simp)⟩
    · exact ⟨tracks.holds c (by simp [member]), (ahead c member).symm⟩
  refine ⟨?_, ?_, ?_⟩
  · intro c member
    simp only [List.mem_append, Option.mem_toList] at member
    rcases member with (old | new) | old
    · exact others c (kept c (.inl old)).1 (kept c (.inl old)).2
    · exact holds c new
    · exact others c (kept c (.inr old)).1 (kept c (.inr old)).2
  · intro j k live
    obtain ⟨old, covered⟩ := less j k live
    obtain ⟨c, member, covers⟩ := tracks.complete j k old
    simp only [List.mem_append, List.mem_cons] at member
    rcases member with old | rfl | old
    · exact ⟨c, by simp [old], covers⟩
    · obtain ⟨d, new, covers'⟩ := covered covers
      exact ⟨d, by simp [Option.mem_def.mp new], covers'⟩
    · exact ⟨c, by simp [old], covers⟩
  · rw [List.append_assoc]
    apply List.pairwise_append.mpr
    refine ⟨first, ?_, ?_⟩
    · apply List.pairwise_append.mpr
      refine ⟨by cases now <;> simp, later, ?_⟩
      intro c new d old j k covers covers'
      exact ahead d old j k (inside c (by simpa using new) j k covers) covers'
    · intro c old d member
      rcases List.mem_append.mp member with new | later
      · intro j k covers covers'
        exact across c old b (by simp) j k covers (inside d (by simpa using new) j k covers')
      · exact across c old d (by simp [later])

/-! ## What the filler does to the blocks -/

/-- Another face at a hugepage that no block of a run uses. -/
theorem Holds.update (holds : c.Holds F) (s : Face) (single : (F hp).inRun = false)
    (packed : ∀ off' pages', c = .packed hp off' pages' → s.Packed off' pages') :
    c.Holds (update F hp s) := by
  cases c with
  | packed hp' off' pages' =>
    by_cases same : hp' = hp
    · subst same
      simpa [Holds] using packed off' pages' rfl
    · simpa [Holds, same] using holds
  | run start n =>
    refine ⟨holds.1, fun j inRange => ?_⟩
    have old := holds.2 j inRange
    have other : j ≠ hp := by
      rintro rfl
      rw [single] at old
      exact absurd old.1 (by simp)
    rw [update_of_ne other]
    exact old

theorem Tracks.carve (tracks : Tracks F held) (sound : (F hp).Sound) (single : (F hp).inRun = false)
    (pos : 0 < pages) (fits : off + pages ≤ pagesPerHugepage)
    (clear : ∀ k, off ≤ k → k < off + pages → (F hp).live.getLsbD k = false) :
    Tracks (update F hp ((F hp).carve off pages)) (held ++ [.packed hp off pages]) := by
  apply tracks.enter
  · rintro j k ⟨rfl, lower, upper⟩
    exact clear k lower upper
  · intro c holds _
    refine holds.update _ single ?_
    rintro off' pages' rfl
    exact Face.Packed.carve_other holds pos clear
  · simpa [Holds] using Face.Packed.carved sound single pos fits clear
  · intro j k live
    by_cases same : j = hp
    · subst same
      simp only [update_self, Face.carve, getLsbD_setRun, Bool.or_eq_true, decide_eq_true_eq] at live
      rcases live with old | ⟨lower, upper, -⟩
      · exact .inl old
      · exact .inr ⟨rfl, lower, upper⟩
    · rw [update_of_ne same] at live
      exact .inl live

theorem Tracks.free (tracks : Tracks F (before ++ .packed hp off pages :: after)) :
    Tracks (update F hp ((F hp).free off pages)) (before ++ after) := by
  have packed : (F hp).Packed off pages := tracks.holds (.packed hp off pages) (by simp)
  have result := tracks.replace (update F hp ((F hp).free off pages)) none ?_ (by simp) (by simp) ?_
  · simpa using result
  · intro c holds apart
    refine holds.update _ packed.single ?_
    rintro off' pages' rfl
    exact Face.Packed.free_other holds packed fun k lower upper inside =>
      apart hp k ⟨rfl, inside⟩ ⟨rfl, lower, upper⟩
  · intro j k live
    by_cases same : j = hp
    · subst same
      simp only [update_self, Face.free, getLsbD_clearRun, Bool.and_eq_true, Bool.not_eq_true',
        decide_eq_false_iff_not] at live
      refine ⟨live.1, ?_⟩
      rintro ⟨-, lower, upper⟩
      exact absurd ⟨lower, upper⟩ live.2
    · rw [update_of_ne same] at live
      refine ⟨live, ?_⟩
      rintro ⟨rfl, -⟩
      exact absurd rfl same

theorem Tracks.trim (tracks : Tracks F (before ++ .packed hp off pages :: after))
    (pos : 0 < newPages) (shorter : newPages < pages) :
    Tracks (update F hp ((F hp).trim off pages newPages)) (before ++ .packed hp off newPages :: after) := by
  have packed : (F hp).Packed off pages := tracks.holds (.packed hp off pages) (by simp)
  have result := tracks.replace (update F hp ((F hp).trim off pages newPages))
    (some (.packed hp off newPages)) ?_ ?_ ?_ ?_
  · simpa using result
  · intro c holds apart
    refine holds.update _ packed.single ?_
    rintro off' pages' rfl
    exact Face.Packed.trim_other holds (fun k lower upper inside =>
      apart hp k ⟨rfl, inside⟩ ⟨rfl, lower, upper⟩) pos shorter
  · rintro c ⟨⟩
    simpa [Holds] using packed.trimmed pos shorter
  · rintro c ⟨⟩ j k ⟨rfl, lower, upper⟩
    exact ⟨rfl, lower, by omega⟩
  · intro j k live
    by_cases same : j = hp
    · subst same
      simp only [update_self, Face.trim, getLsbD_clearRun, Bool.and_eq_true, Bool.not_eq_true',
        decide_eq_false_iff_not] at live
      refine ⟨live.1, ?_⟩
      rintro ⟨-, lower, upper⟩
      exact ⟨_, rfl, rfl, lower, by omega⟩
    · rw [update_of_ne same] at live
      refine ⟨live, ?_⟩
      rintro ⟨rfl, -⟩
      exact absurd rfl same

/-- A run is reserved over hugepages without live pages. -/
theorem Tracks.reserve (tracks : Tracks F held) (pos : 0 < n)
    (empty : ∀ j, HugePageFiller.InRange start n j → (F j).live = 0)
    (members : ∀ j, HugePageFiller.InRange start n j → (F' j).inRun = true ∧
      (F' j).runLen = (if j = start then n else 0) ∧
      ∀ k < pagesPerHugepage, (F' j).live.getLsbD k = true)
    (other : ∀ j, ¬HugePageFiller.InRange start n j → F' j = F j) :
    Tracks F' (held ++ [.run start n]) := by
  apply tracks.enter
  · rintro j k ⟨inRange, -⟩
    simp [empty j inRange]
  · intro c holds apart
    have outside : ∀ j k, c.Covers j k → F' j = F j := by
      intro j k covers
      apply other
      intro inRange
      have live := holds.live covers
      rw [empty j inRange] at live
      simp at live
    cases c with
    | packed hp off pages =>
      have packed : (F hp).Packed off pages := holds
      have := packed.pos
      have same := outside hp off ⟨rfl, Nat.le_refl _, by omega⟩
      simpa [Holds, same] using holds
    | run start' n' =>
      refine ⟨holds.1, fun j inRange => ?_⟩
      rw [outside j 0 ⟨inRange, by decide⟩]
      exact holds.2 j inRange
  · exact ⟨pos, members⟩
  · intro j k live
    by_cases inRange : HugePageFiller.InRange start n j
    · exact .inr ⟨inRange, BitVec.lt_of_getLsbD live⟩
    · rw [other j inRange] at live
      exact .inl live

theorem Tracks.release (tracks : Tracks F (before ++ .run start n :: after))
    (members : ∀ j, HugePageFiller.InRange start n j → (F' j).live = 0)
    (other : ∀ j, ¬HugePageFiller.InRange start n j → F' j = F j) : Tracks F' (before ++ after) := by
  have result := tracks.replace F' none ?_ (by simp) (by simp) ?_
  · simpa using result
  · intro c holds apart
    have outside : ∀ j, c.Covers j 0 ∨ (∃ k, k < pagesPerHugepage ∧ c.Covers j k) → F' j = F j := by
      rintro j (covers | ⟨k, inside, covers⟩)
      · exact other j fun inRange => apart j 0 covers ⟨inRange, by decide⟩
      · exact other j fun inRange => apart j k covers ⟨inRange, inside⟩
    cases c with
    | packed hp off pages =>
      have packed : (F hp).Packed off pages := holds
      have := packed.pos
      have := packed.fits
      have same := outside hp (.inr ⟨off, by omega, rfl, Nat.le_refl _, by omega⟩)
      simpa [Holds, same] using holds
    | run start' n' =>
      refine ⟨holds.1, fun j inRange => ?_⟩
      rw [outside j (.inl ⟨inRange, by decide⟩)]
      exact holds.2 j inRange
  · intro j k live
    have outside : ¬HugePageFiller.InRange start n j := by
      intro inRange
      rw [members j inRange] at live
      simp at live
    rw [other j outside] at live
    exact ⟨live, fun covers => absurd covers.1 outside⟩

end Block
end Topomalloc
