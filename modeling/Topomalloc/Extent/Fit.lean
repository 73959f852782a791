import Topomalloc.Extent.Oracle

/-! Best fit is exact. A bin is a doubling range of page counts, so every extent
of a lower bin is shorter than every extent of a higher one; the first bin that
holds a fit therefore holds the shortest, although the alignment may rule out
longer extents on the way. The bins together hold no more slots than the pool,
so the cumulative step cap is never what ends the search. -/
namespace Topomalloc

namespace ExtentMap

variable {m m' : ExtentMap} {addr unused l visited : List Nat} {neededLen align i j p : Nat}
  {best : Option Hit}

/-- The slot holds a free extent. -/
def Free (m : ExtentMap) (j : Nat) : Prop :=
  j < m.cap ∧ (m.slots j).occupied = true ∧ (m.slots j).state.isFree = true

theorem WF.free_iff (wf : WF m addr unused) : m.Free j ↔ j ∈ addr ∧ (m.slots j).state.isFree = true :=
  ⟨fun h => ⟨wf.listed_of_occupied h.1 h.2.1, h.2.2⟩,
    fun h => ⟨wf.shape.lt_cap h.1, (wf.shape.sound j h.1).occupied, h.2⟩⟩

/-- The extent can hold `neededLen` bytes at a multiple of `align`. -/
def CanHold (s : Slot) (neededLen align : Nat) : Prop :=
  ∃ a, align ∣ a ∧ s.base ≤ a ∧ a + neededLen ≤ s.base + s.len

/-- The test of the scan is exact on an extent that does not wrap. -/
theorem fits_iff_canHold (power : isPowerOfTwo align = true) (word : align ≤ usizeMax)
    (bound : s.base + s.len ≤ usizeMax) :
    (∃ found, fits s neededLen align = some found) ↔ CanHold s neededLen align := by
  constructor
  · rintro ⟨⟨aligned, before⟩, found⟩
    obtain ⟨rounded, rfl, large⟩ := fits_eq_some found
    obtain ⟨dvd, le, -⟩ := alignUp_spec (isPowerOfTwo_pos power) rounded
    exact ⟨aligned, dvd, le, by omega⟩
  · rintro ⟨a, dvd, le, large⟩
    obtain ⟨r, rounded, first⟩ := alignUp_of_multiple power word dvd le (by omega)
    obtain ⟨-, above, -⟩ := alignUp_spec (isPowerOfTwo_pos power) rounded
    have total : checkedAdd (r - s.base) neededLen = some (r - s.base + neededLen) := if_pos (by omega)
    have enough : s.len ≥ r - s.base + neededLen := by omega
    exact ⟨(r, r - s.base), by simp only [fits, rounded, total, if_pos enough]⟩

theorem alignUp_isLeast (power : isPowerOfTwo align = true)
    (rounded : alignUp value align = some r) : IsLeast {a | align ∣ a ∧ value ≤ a} r := by
  obtain ⟨dvd, above, lt, -⟩ := alignUp_spec (isPowerOfTwo_pos power) rounded
  refine ⟨⟨dvd, above⟩, ?_⟩
  rintro a ⟨dvdA, le⟩
  by_contra below
  have := Nat.le_of_dvd (by omega) (Nat.dvd_sub dvd dvdA)
  omega

/-! ## One bin -/

/-- One turn of the inner loop under `Fit::Best`. -/
def visit (m : ExtentMap) (neededLen align : Nat) (best : Option Hit) (i : Nat) : Option Hit :=
  match fits (m.slots i) neededLen align with
  | none => best
  | some (aligned, before) => m.keepBest best ⟨i, aligned, before⟩

/-- The answer is a shortest of the extents `visited` that fit, and there is one
if any fits. -/
def Shortest (m : ExtentMap) (neededLen align : Nat) (visited : List Nat) : Option Hit → Prop
  | none => ∀ j ∈ visited, fits (m.slots j) neededLen align = none
  | some hit => hit.slot ∈ visited ∧
      fits (m.slots hit.slot) neededLen align = some (hit.aligned, hit.before) ∧
      ∀ j ∈ visited, fits (m.slots j) neededLen align ≠ none → (m.slots hit.slot).len ≤ (m.slots j).len

theorem Shortest.visit (h : Shortest m neededLen align visited best) (i : Nat) :
    Shortest m neededLen align (visited ++ [i]) (m.visit neededLen align best i) := by
  cases found : fits (m.slots i) neededLen align with
  | none =>
    rw [ExtentMap.visit, found]
    cases best with
    | none =>
      intro j member
      rcases List.mem_append.mp member with earlier | here
      · exact h j earlier
      · exact List.mem_singleton.mp here ▸ found
    | some hit =>
      obtain ⟨inside, fitting, least⟩ := h
      refine ⟨by simp [inside], fitting, fun j member fits => ?_⟩
      rcases List.mem_append.mp member with earlier | here
      · exact least j earlier fits
      · rw [List.mem_singleton.mp here] at fits
        exact absurd found fits
  | some answer =>
    obtain ⟨aligned, before⟩ := answer
    rw [ExtentMap.visit, found]
    cases best with
    | none =>
      refine ⟨by simp, found, fun j member fits => ?_⟩
      rcases List.mem_append.mp member with earlier | here
      · exact absurd (h j earlier) fits
      · rw [List.mem_singleton.mp here]
    | some hit =>
      obtain ⟨inside, fitting, least⟩ := h
      simp only [keepBest]
      split
      · rename_i shorter
        refine ⟨by simp, found, fun j member fits => ?_⟩
        rcases List.mem_append.mp member with earlier | here
        · exact Nat.le_trans (Nat.le_of_lt shorter) (least j earlier fits)
        · rw [List.mem_singleton.mp here]
      · rename_i longer
        refine ⟨by simp [inside], fitting, fun j member fits => ?_⟩
        rcases List.mem_append.mp member with earlier | here
        · exact least j earlier fits
        · rw [List.mem_singleton.mp here]
          exact Nat.not_lt.mp longer

theorem Shortest.foldl (h : Shortest m neededLen align visited best) (l : List Nat) :
    Shortest m neededLen align (visited ++ l) (l.foldl (m.visit neededLen align) best) := by
  induction l generalizing visited best with
  | nil => simpa using h
  | cons i l ih =>
    have rest := ih (h.visit i)
    rwa [List.append_assoc] at rest

/-- With enough steps left, the scan of a bin visits all of it. -/
theorem scanBin_best (path : Links.Path (fun j => (m.slots j).binNext) prev NIL p i l)
    (real : NIL ∉ l) (enough : l.length ≤ fuel) :
    m.scanBin neededLen align .best fuel i best =
      .go (fuel - l.length) (l.foldl (m.visit neededLen align) best) := by
  induction l generalizing i p fuel best with
  | nil =>
    unfold scanBin
    simp [show i = NIL from path]
  | cons a l ih =>
    obtain ⟨rfl, -, rest⟩ := path
    have here : i ≠ NIL := fun null => real (by simp [null])
    cases fuel with
    | zero => simp at enough
    | succ fuel =>
      have step (best : Option Hit) : m.scanBin neededLen align .best fuel (m.slots i).binNext best =
          .go (fuel - l.length) (l.foldl (m.visit neededLen align) best) :=
        ih rest (fun null => real (by simp [null])) (by simpa using enough)
      unfold scanBin
      rw [if_neg here]
      simp only [get, List.foldl_cons, List.length_cons, Nat.add_sub_add_right, visit]
      cases found : fits (m.slots i) neededLen align with
      | none => exact step best
      | some answer => exact step _

/-! ## All bins -/

/-- Whether `find_fit` under `Fit::Best` leaves through its step cap, the only
way out from inside a bin. -/
def stepCapHit (m : ExtentMap) (neededLen align : Nat) : List Nat → Nat → Option Hit → Bool
  | [], _, _ => false
  | b :: rest, fuel, best =>
    match m.scanBin neededLen align .best fuel (m.bins b) best with
    | .stop _ => true
    | .go fuel best => if best.isSome then false else m.stepCapHit neededLen align rest fuel best

/-- The bins in ascending order, each of them holding shorter extents than the
next: the first bin with a fit settles the search. -/
theorem scanBins_best {bins : List Nat}
    (paths : ∀ b, Links.Path (fun j => (m.slots j).binNext) prev NIL NIL (m.bins b) (L b))
    (real : ∀ b, NIL ∉ L b) (ascending : bins.Pairwise (· < ·))
    (segregated : ∀ b c, b < c → ∀ i ∈ L b, ∀ j ∈ L c, (m.slots i).len ≤ (m.slots j).len)
    (enough : (bins.flatMap L).length ≤ fuel) :
    m.stepCapHit neededLen align bins fuel none = false ∧ Shortest m neededLen align (bins.flatMap L)
        (m.scanBins neededLen align .best bins fuel none) := by
  induction bins generalizing fuel with
  | nil => exact ⟨rfl, by simp [scanBins, Shortest]⟩
  | cons b rest ih =>
    simp only [List.flatMap_cons, List.length_append] at enough
    have scanned : m.scanBin neededLen align .best fuel (m.bins b) none =
        .go (fuel - (L b).length) ((L b).foldl (m.visit neededLen align) none) :=
      scanBin_best (paths b) (real b) (by omega)
    have nothing : Shortest m neededLen align [] none := by simp [Shortest]
    have shortest : Shortest m neededLen align (L b)
        ((L b).foldl (m.visit neededLen align) none) := nothing.foldl (L b)
    obtain ⟨later, sorted⟩ := List.pairwise_cons.mp ascending
    simp only [stepCapHit, scanBins, scanned, true_and, List.flatMap_cons]
    generalize (L b).foldl (m.visit neededLen align) none = best at *
    cases best with
    | none =>
      simp only [Option.isSome_none, Bool.false_eq_true, ↓reduceIte]
      have left : (rest.flatMap L).length ≤ fuel - (L b).length := by omega
      obtain ⟨uncapped, found⟩ := ih sorted left
      refine ⟨uncapped, ?_⟩
      cases answer : m.scanBins neededLen align .best rest (fuel - (L b).length) none with
      | none =>
        rw [answer] at found
        intro j member
        rcases List.mem_append.mp member with here | above
        · exact shortest j here
        · exact found j above
      | some hit =>
        rw [answer] at found
        obtain ⟨inside, fitting, least⟩ := found
        refine ⟨by simp only [List.mem_append, inside, or_true], fitting, fun j member fits => ?_⟩
        rcases List.mem_append.mp member with here | above
        · exact absurd (shortest j here) fits
        · exact least j above fits
    | some hit =>
      simp only [Option.isSome_some, ↓reduceIte, true_and]
      obtain ⟨inside, fitting, least⟩ := shortest
      refine ⟨List.mem_append_left _ inside, fitting, fun j member fits => ?_⟩
      rcases List.mem_append.mp member with here | above
      · exact least j here fits
      · obtain ⟨c, inRest, inBin⟩ := List.mem_flatMap.mp above
        exact segregated b c (later c inRest) _ inside _ inBin

theorem binIndex_mono (le : a ≤ b) : binIndex a ≤ binIndex b := by
  unfold binIndex
  split
  · exact Nat.zero_le _
  · rw [if_neg (by omega)]
    have := (Nat.log2_lt (n := a) (k := b.log2 + 1) (by omega)).mpr (Nat.lt_of_le_of_lt le Nat.lt_log2_self)
    omega

/-- An extent of the address space is in one of the bins. -/
theorem binIndex_lt (bound : bytes ≤ usizeMax) : binIndex (bytes / pageSize) < nbins := by
  unfold binIndex
  split
  · decide
  · rename_i nonzero
    have pages : bytes / pageSize < 2 ^ 64 := by
      have := Nat.div_le_self bytes pageSize
      simp only [usizeMax] at bound
      omega
    have := (Nat.log2_lt nonzero).mpr pages
    simp only [nbins]
    omega

/-- `find_fit` under `Fit::Best`: the step cap is not hit, and the answer is a
shortest of all free extents that fit. -/
theorem WF.findFit_best (wf : WF m addr unused) (neededLen align : Nat) :
    ∃ free : List Nat, (∀ j, j ∈ free → m.Free j) ∧
      (∀ j, m.Free j → fits (m.slots j) neededLen align ≠ none → j ∈ free) ∧
      m.stepCapHit neededLen align (List.range' (binIndex (neededLen / pageSize))
        (nbins - binIndex (neededLen / pageSize))) m.cap none = false ∧
      Shortest m neededLen align free (m.findFit neededLen align .best) := by
  obtain ⟨bins, lists, filed⟩ := wf.indexed
  obtain ⟨tail, held⟩ := lists.binsHeld
  set start := binIndex (neededLen / pageSize)
  have inBin {b j : Nat} (member : j ∈ bins b) : m.Free j ∧ m.binOf j = b := by
    obtain ⟨⟨listed, free⟩, bin⟩ := (filed b j).mp member
    exact ⟨wf.free_iff.mpr ⟨listed, free⟩, bin⟩
  have ascending : (List.range' start (nbins - start)).Pairwise (· < ·) := List.pairwise_lt_range'
  have nodup : ((List.range' start (nbins - start)).flatMap bins).Nodup := by
    refine List.nodup_flatMap.mpr ⟨fun b _ => (List.nodup_cons.mp (held.ring b).nodup).2, ?_⟩
    refine ascending.imp fun {b c} lt => ?_
    intro j inB inC
    exact Nat.ne_of_lt lt (held.apart b c j inB inC)
  have short : ((List.range' start (nbins - start)).flatMap bins).length ≤ m.cap := by
    refine wf.length_le nodup fun j member => ?_
    obtain ⟨b, -, inB⟩ := List.mem_flatMap.mp member
    exact ((filed b j).mp inB).1.1
  have segregated : ∀ b c, b < c → ∀ i ∈ bins b, ∀ j ∈ bins c, (m.slots i).len ≤ (m.slots j).len := by
    intro b c lt i inB j inC
    obtain ⟨-, rfl⟩ := inBin inB
    obtain ⟨-, rfl⟩ := inBin inC
    by_contra longer
    have := binIndex_mono (Nat.div_le_div_right (c := pageSize) (Nat.le_of_lt (Nat.not_le.mp longer)))
    simp only [binOf] at lt
    omega
  have real (b : Nat) : NIL ∉ bins b := (List.nodup_cons.mp (held.ring b).nodup).1
  obtain ⟨uncapped, shortest⟩ : m.stepCapHit neededLen align _ m.cap none = false ∧
      Shortest m neededLen align _ (m.findFit neededLen align .best) :=
    scanBins_best (fun b => held.path b) real ascending segregated short
  refine ⟨_, fun j member => ?_, fun j free fitting => ?_, uncapped, shortest⟩
  · obtain ⟨b, -, inB⟩ := List.mem_flatMap.mp member
    exact (inBin inB).1
  · -- a fit is at least as long as the request, so its bin is searched
    obtain ⟨listed, isFree⟩ := wf.free_iff.mp free
    obtain ⟨⟨aligned, before⟩, found⟩ := Option.ne_none_iff_exists'.mp fitting
    obtain ⟨-, -, large⟩ := fits_eq_some found
    have within := wf.shape.within listed
    have bound := wf.shape.bound
    have low : start ≤ m.binOf j := binIndex_mono (Nat.div_le_div_right (by omega))
    have high : m.binOf j < nbins := binIndex_lt (by omega)
    refine List.mem_flatMap.mpr ⟨m.binOf j, ?_, (filed _ j).mpr ⟨⟨listed, isFree⟩, rfl⟩⟩
    rw [List.mem_range'_1]
    omega

/-- Best fit is exact: it answers iff some free extent can hold the request at
an aligned base, with a shortest of them all, and never because it ran out of
steps. A carve is refused only if nothing fits or the pool lacks the slots for
the splits, and otherwise makes exactly the first aligned bytes of that extent
live. -/
theorem findFit_best_exact (wf : WF m addr unused) (pos : 0 < neededLen) (page : pageSize ∣ neededLen)
    (power : isPowerOfTwo align = true) (word : align ≤ usizeMax) :
    m.stepCapHit neededLen align (List.range' (binIndex (neededLen / pageSize))
        (nbins - binIndex (neededLen / pageSize))) m.cap none = false ∧
      ((∃ hit, m.findFit neededLen align .best = some hit) ↔
        ∃ j, m.Free j ∧ CanHold (m.slots j) neededLen align) ∧
      (∀ hit, m.findFit neededLen align .best = some hit →
        m.Free hit.slot ∧ CanHold (m.slots hit.slot) neededLen align ∧
          ∀ j, m.Free j → CanHold (m.slots j) neededLen align → (m.slots hit.slot).len ≤ (m.slots j).len) ∧
      (∀ m', m.carveIn neededLen align .best = (none, m') →
        (¬ ∃ j, m.Free j ∧ CanHold (m.slots j) neededLen align) ∨
          ∃ hit, m.findFit neededLen align .best = some hit ∧ m.unusedSlots < hit.splits m neededLen) ∧
      ∀ id m', m.carveIn neededLen align .best = (some id, m') →
        ∃ hit, m.findFit neededLen align .best = some hit ∧ m'.Live id ∧
          IsLeast {a | align ∣ a ∧ (m.slots hit.slot).base ≤ a} (m'.slots id).base ∧
          (m'.slots id).len = neededLen := by
  obtain ⟨free, isFree, complete, uncapped, shortest⟩ := wf.findFit_best neededLen align
  have holds {j : Nat} (free : m.Free j) :
      (∃ found, fits (m.slots j) neededLen align = some found) ↔ CanHold (m.slots j) neededLen align := by
    have within := wf.shape.within (wf.free_iff.mp free).1
    have bound := wf.shape.bound
    exact fits_iff_canHold power word (by omega)
  have found_iff : (∃ hit, m.findFit neededLen align .best = some hit) ↔
      ∃ j, m.Free j ∧ CanHold (m.slots j) neededLen align := by
    constructor
    · rintro ⟨hit, found⟩
      rw [found] at shortest
      have inside := isFree _ shortest.1
      exact ⟨hit.slot, inside, (holds inside).mp ⟨_, shortest.2.1⟩⟩
    · rintro ⟨j, inside, can⟩
      obtain ⟨answer, fitting⟩ := (holds inside).mpr can
      cases found : m.findFit neededLen align .best with
      | some hit => exact ⟨hit, rfl⟩
      | none =>
        rw [found] at shortest
        have missed := shortest j (complete j inside (by simp [fitting]))
        simp [fitting] at missed
  refine ⟨uncapped, found_iff, ?_, ?_, ?_⟩
  · intro hit found
    rw [found] at shortest
    obtain ⟨inside, fitting, least⟩ := shortest
    refine ⟨isFree _ inside, (holds (isFree _ inside)).mp ⟨_, fitting⟩, fun j other can => ?_⟩
    obtain ⟨answer, fits⟩ := (holds other).mpr can
    exact least j (complete j other (by simp [fits])) (by simp [fits])
  · intro m' refused
    cases found : m.findFit neededLen align .best with
    | none => exact .inl fun can => by simpa [found] using found_iff.mpr can
    | some hit =>
      refine .inr ⟨hit, rfl, Nat.not_le.mp fun enough => ?_⟩
      obtain ⟨id, m₁, addr₁, unused₁, carved, -⟩ := wf.carveIn_hit (by omega) page power found enough
      simp [carved] at refused
  · intro id m' carve
    obtain ⟨impossible, -⟩ | ⟨_, m₁, addr₁, unused₁, hit, same, found, wf₁, listed₁, readied, rfl, wf', carved⟩ :=
      wf.carveIn carve
    · cases impossible
    obtain rfl := Option.some.inj same
    obtain ⟨-, effect, -, -⟩ := wf₁.activate listed₁ readied.free
    obtain ⟨base, -⟩ := Slot.fields_of_body effect.written
    have start : ((m₁.activate id).slots id).base = hit.aligned := base.trans readied.base
    obtain ⟨-, -, rounded, -, -⟩ := wf.findFit found
    refine ⟨hit, found, carved.live, ?_, carved.len⟩
    rw [start]
    exact alignUp_isLeast power rounded

/-- Two pages at an odd page, with a slot to split off the page in front. -/
theorem findFit_best_exact_oddPages :
    ∃ m hit, new true 128 pageSize (3 * pageSize) 3 = some m ∧
      m.findFit pageSize (2 * pageSize) .best = some hit ∧ m.Free hit.slot := by
  obtain ⟨m, made⟩ := Option.isSome_iff_exists.mp
    (show (new true 128 pageSize (3 * pageSize) 3).isSome = true by decide +kernel)
  obtain ⟨addr, unused, wf, -⟩ := new_wf made
  obtain ⟨-, -, good, -⟩ := findFit_best_exact wf pageSize_pos (dvd_refl _)
    (show isPowerOfTwo (2 * pageSize) = true by decide) (by decide)
  have answered : ((new true 128 pageSize (3 * pageSize) 3).bind
      fun m => m.findFit pageSize (2 * pageSize) .best).isSome = true := by decide +kernel
  rw [made] at answered
  obtain ⟨hit, found⟩ := Option.isSome_iff_exists.mp answered
  exact ⟨m, hit, made, found, (good hit found).1⟩

end ExtentMap
end Topomalloc
