import Topomalloc.Huge.Answers
import Topomalloc.Huge.Oracle

/-! The filler under any calls of its public interface. The completion calls
(`mark_committed`, `mark_run_committed`, `unsubrelease`) take a token back, and
a token may be stale or forged; the other calls take addresses and counts, all
of them machine words.

A token is checked for its geometry only. One that names an untouched hugepage
passes, and the hugepage is filed although it is in no list. So the results here
are about calls whose tokens name touched hugepages. A ledger beside the filler
holds the allocations it has handed out: what a call frees is on the ledger, and
what it takes is free. -/
namespace Topomalloc
open Function Bitmap

namespace HugePageFiller

/-- A call that may change the filler, with its arguments. -/
inductive Call
  | place (pages align : UInt64) (hints : PlaceHints)
  | markCommitted (p : Placement)
  | free (base pages : UInt64)
  | trim (base oldPages newPages : UInt64)
  | subrelease (base pages : UInt64) (pressureHigh : Bool)
  | unsubrelease (sr : Subrelease)
  | reserveHugepages (n : UInt64)
  | reserveHugepagesAt (base n : UInt64)
  | markRunCommitted (run : HugeRun)
  | freeHugepages (base n : UInt64)
  | markCold (addr : UInt64)

/-- The filler, and the allocations it has handed out and not taken back. -/
structure Booked where
  filler : HugePageFiller
  held : List Block

/-- The pages at an address, as a block. -/
def packedAt (f : HugePageFiller) (base pages : Nat) : Block :=
  .packed ((base - f.regionBase) / hugepageSize) ((base - f.regionBase) % hugepageSize / pageSize) pages

/-- The hugepages at an address, as a block. -/
def runAt (f : HugePageFiller) (base n : Nat) : Block := .run ((base - f.regionBase) / hugepageSize) n

/-- The ledger after a reservation. An answer for more hugepages than there are
names none of them. -/
def enterRun (s : Booked) (answer : Option HugeRun) : List Block :=
  match answer with
  | none => s.held
  | some run =>
    if run.hugepages ≤ s.filler.capacity then s.filler.runAt run.base run.hugepages :: s.held
    else s.held

/-- One call of the filler; `none` is an access outside its table. -/
def step (s : Booked) : Call → Option Booked
  | .place pages align hints => do
    let (placed, f) ← Checked.place s.filler pages.toNat align.toNat hints
    match placed with
    | none => some ⟨f, s.held⟩
    | some p => some ⟨f, s.filler.packedAt p.base p.pages :: s.held⟩
  | .markCommitted p => do
    let f ← Checked.markCommitted s.filler p
    some ⟨f, s.held⟩
  | .free base pages => do
    let (report, f) ← Checked.free s.filler base.toNat pages.toNat
    some ⟨f, if report.valid then s.held.erase (s.filler.packedAt base.toNat pages.toNat) else s.held⟩
  | .trim base oldPages newPages => do
    let (ok, f) ← Checked.trim s.filler base.toNat oldPages.toNat newPages.toNat
    some ⟨f, if ok then s.filler.packedAt base.toNat newPages.toNat ::
      s.held.erase (s.filler.packedAt base.toNat oldPages.toNat) else s.held⟩
  | .subrelease base pages pressureHigh => do
    let (_, f) ← Checked.subrelease s.filler base.toNat pages.toNat pressureHigh
    some ⟨f, s.held⟩
  | .unsubrelease sr => do
    let f ← Checked.unsubrelease s.filler sr
    some ⟨f, s.held⟩
  | .reserveHugepages n => do
    let (run, f) ← Checked.reserveHugepages s.filler n.toNat
    some ⟨f, enterRun s run⟩
  | .reserveHugepagesAt base n => do
    let (run, f) ← Checked.reserveHugepagesAt s.filler base.toNat n.toNat
    some ⟨f, enterRun s run⟩
  | .markRunCommitted run => do
    let f ← Checked.markRunCommitted s.filler run
    some ⟨f, s.held⟩
  | .freeHugepages base n => do
    let (report, f) ← Checked.freeHugepages s.filler base.toNat n.toNat
    some ⟨f, if report.valid then s.held.erase (s.filler.runAt base.toNat n.toNat) else s.held⟩
  | .markCold addr => do
    let (_, f) ← Checked.markCold s.filler addr.toNat
    some ⟨f, s.held⟩

/-- A token that passes the checks names touched hugepages. -/
def Call.Aimed (f : HugePageFiller) : Call → Prop
  | .markCommitted p => ∀ off, f.validateRun p.hugepage p.base p.pages = some off →
    (f.slots p.hugepage).touched = true
  | .unsubrelease sr => ∀ base off, checkedAdd f.regionBase sr.regionOffset = some base →
    f.validateRun sr.hugepage base (sr.len / pageSize) = some off →
    (f.slots sr.hugepage).touched = true
  | .markRunCommitted run => ∀ start, run.base = f.hugeBase start →
    start + run.hugepages ≤ f.capacity → ∀ j, InRange start run.hugepages j →
    (f.slots j).touched = true
  | _ => True

/-- The block is a run of pages none of which is live, inside the region. -/
def Vacant (f : HugePageFiller) : Block → Prop
  | .packed hp off pages => hp < f.capacity ∧ off + pages ≤ pagesPerHugepage ∧
    ∀ k, off ≤ k → k < off + pages → (f.slots hp).live.getLsbD k = false
  | .run start n => start + n ≤ f.capacity ∧ ∀ j, InRange start n j → (f.slots j).live = 0

/-- The blocks a call may give or take: what it frees or trims is an allocation
that was handed out, what it reserves is free. A call with a token names
none. -/
def Call.Names (s : Booked) : Call → Block → Prop
  | .place pages _ _, b => s.filler.Vacant b ∧ ∃ hp off, b = .packed hp off pages.toNat
  | .free base pages, b => b ∈ s.held ∧ ∃ hp off,
    base.toNat = s.filler.hugeBase hp + off * pageSize ∧ b = .packed hp off pages.toNat
  | .trim base oldPages _, b => b ∈ s.held ∧ ∃ hp off,
    base.toNat = s.filler.hugeBase hp + off * pageSize ∧ b = .packed hp off oldPages.toNat
  | .reserveHugepages n, b => s.filler.Vacant b ∧ ∃ start, b = .run start n.toNat
  | .reserveHugepagesAt base n, b => s.filler.Vacant b ∧ ∃ start,
    base.toNat = s.filler.hugeBase start ∧ b = .run start n.toNat
  | .freeHugepages base n, b => b ∈ s.held ∧ ∃ start,
    base.toNat = s.filler.hugeBase start ∧ b = .run start n.toNat
  | _, _ => False

/-- A page is live after the call as it was before, unless it belongs to a block
the call names. -/
def Within (s s' : Booked) (call : Call) : Prop :=
  ∀ j k, (s'.filler.slots j).live.getLsbD k ≠ (s.filler.slots j).live.getLsbD k →
    ∃ b, call.Names s b ∧ b.Covers j k

/-- The bins are lists of the touched hugepages, each in the bin its tag names
and in no other. -/
def Filed (f : HugePageFiller) : Prop := ∃ L, f.Lists (fun i => (f.slots i).touched = true) L

/-- The states that aimed calls reach from a filler. -/
inductive Reached (f : HugePageFiller) : Booked → Prop
  | start : Reached f ⟨f, []⟩
  | step (before : Reached f s) (aimed : call.Aimed s.filler)
    (ran : HugePageFiller.step s call = some s') : Reached f s'

/-! ## What holds throughout -/

/-- The filler is ranged and well formed, and its bits describe the blocks on
the ledger. -/
structure Kept (s : Booked) : Prop where
  ranged : s.filler.Ranged
  wf : WF s.filler s.filler.nextUntouched
  tracks : Block.Tracks s.filler.faces s.held

variable {f f' : HugePageFiller} {s s' : Booked} {b : Block} {hp off pages start n base : Nat}
  {call : Call} {held held' : List Block}

theorem packedAt_eq (aimed : base = f.hugeBase hp + off * pageSize) (page : off < pagesPerHugepage) :
    f.packedAt base pages = .packed hp off pages := by
  have offset : base - f.regionBase = hp * hugepageSize + off * pageSize := by
    rw [aimed, hugeBase]
    omega
  rw [packedAt, offset]
  simp only [hugepageSize, pageSize, pagesPerHugepage, Block.packed.injEq, and_true] at *
  constructor <;> omega

theorem runAt_eq (aimed : base = f.hugeBase start) : f.runAt base n = .run start n := by
  have offset : base - f.regionBase = start * hugepageSize := by
    rw [aimed, hugeBase]
    omega
  rw [runAt, offset, Nat.mul_div_cancel _ (by decide)]

theorem WF.filed (wf : WF f f.nextUntouched) : f.Filed := by
  obtain ⟨L, lists, -⟩ := wf.lists
  refine ⟨L, lists.held, lists.filed.congr (fun i => ?_) fun _ _ => rfl⟩
  exact ⟨wf.below_of_touched, fun below => (wf.sound i below).touched⟩

/-- A call that moves no block. -/
theorem Kept.unmoved (kept : Kept s) (keeps : Keeps s.filler f') (wf : WF f' f'.nextUntouched)
    (unmoved : Unmoved s.filler f') : Kept ⟨f', s.held⟩ ∧ Within s ⟨f', s.held⟩ call := by
  refine ⟨⟨keeps.ranged, wf, kept.tracks.congr unmoved.faces⟩, ?_⟩
  intro j k changed
  have same : (f'.slots j).live = (s.filler.slots j).live := congrArg Face.live (unmoved.faces j)
  rw [same] at changed
  exact absurd rfl changed

/-- A call that changes the face of one hugepage, on the pages of a block. -/
theorem Kept.moved (keeps : Keeps s.filler f') (wf : WF f' f'.nextUntouched)
    (moved : Moved s.filler f' hp face) (tracks : Block.Tracks (update s.filler.faces hp face) held')
    (named : call.Names s (.packed hp off pages))
    (inside : ∀ k, face.live.getLsbD k ≠ (s.filler.faces hp).live.getLsbD k → off ≤ k ∧ k < off + pages) :
    Kept ⟨f', held'⟩ ∧ Within s ⟨f', held'⟩ call := by
  refine ⟨⟨keeps.ranged, wf, tracks.congr moved.faces⟩, ?_⟩
  intro j k changed
  have after := moved.faces j
  by_cases here : j = hp
  · subst here
    rw [update_self] at after
    have live : (f'.slots j).live = face.live := congrArg Face.live after
    refine ⟨_, named, rfl, inside k ?_⟩
    rw [← live]
    exact changed
  · rw [update_of_ne here] at after
    have live : (f'.slots j).live = (s.filler.slots j).live := congrArg Face.live after
    rw [live] at changed
    exact absurd rfl changed

/-- A call that changes the faces of a run of hugepages. -/
theorem Kept.movedRange (keeps : Keeps s.filler f') (wf : WF f' f'.nextUntouched)
    (moved : MovedRange s.filler f' start n) (tracks : Block.Tracks f'.faces held')
    (named : call.Names s (.run start n)) : Kept ⟨f', held'⟩ ∧ Within s ⟨f', held'⟩ call := by
  refine ⟨⟨keeps.ranged, wf, tracks⟩, ?_⟩
  intro j k changed
  by_cases inRange : InRange start n j
  · refine ⟨_, named, inRange, ?_⟩
    by_contra outside
    rw [BitVec.getLsbD_of_ge _ _ (by omega), BitVec.getLsbD_of_ge _ _ (by omega)] at changed
    exact changed rfl
  · have live : (f'.slots j).live = (s.filler.slots j).live :=
      congrArg Face.live (moved.other j inRange)
    rw [live] at changed
    exact absurd rfl changed

end HugePageFiller

theorem Block.Tracks.perm (tracks : Block.Tracks F held) (perm : held.Perm held') : Block.Tracks F held' := by
  refine ⟨fun b member => tracks.holds b (perm.mem_iff.mpr member), ?_, ?_⟩
  · intro j k live
    obtain ⟨b, member, covers⟩ := tracks.complete j k live
    exact ⟨b, perm.mem_iff.mp member, covers⟩
  · exact perm.pairwise tracks.apart fun apart => apart.symm

/-- A held block may stand first. -/
theorem Block.Tracks.front
    (tracks : Block.Tracks F held) (member : b ∈ held) : Block.Tracks F ([] ++ b :: held.erase b) :=
  tracks.perm (List.perm_cons_erase member)

namespace HugePageFiller
variable {f f' : HugePageFiller} {s s' : Booked} {b : Block} {hp off pages start n base : Nat}
  {call : Call} {held held' : List Block} {run : HugeRun}

/-! ## One call -/

/-- The call goes through, and keeps what holds. -/
abbrev Keeping (s : Booked) (call : Call) : Prop := ∃ s', step s call = some s' ∧ Kept s' ∧ Within s s' call

/-- A call of the checked filler, and the ledger after it. -/
theorem Goes.keeping (goes : Goes f checked f') (made : step s call = checked >>= next)
    (rest : Keeps f f' → ∃ s', next f' = some s' ∧ Kept s' ∧ Within s s' call) : Keeping s call := by
  obtain ⟨rfl, keeps⟩ := goes
  rw [Keeping, made]
  exact rest keeps

theorem Answers.keeping {α : Type} {checked : Option (α × HugePageFiller)}
    {plain : α × HugePageFiller} {next : α × HugePageFiller → Option Booked}
    (answers : Answers f checked plain) (made : step s call = checked >>= next)
    (rest : Keeps f plain.2 → ∃ s', next (plain.1, plain.2) = some s' ∧ Kept s' ∧ Within s s' call) :
    Keeping s call := by
  obtain ⟨rfl, keeps⟩ := answers
  rw [Keeping, made]
  exact rest keeps

theorem Kept.place (kept : Kept s) (pages align : UInt64) (hints : PlaceHints) :
    Keeping s (.place pages align hints) := by
  refine Answers.keeping (Checked.place_eq kept.ranged _ _ _) rfl fun keeps => ?_
  cases placed : s.filler.place pages.toNat align.toNat hints with
  | none => exact ⟨_, rfl, kept.unmoved kept.ranged.keeps kept.wf .refl⟩
  | some result =>
    obtain ⟨p, f'⟩ := result
    rw [placed] at keeps
    obtain ⟨g, hp, off, stride, wf, opened, -, pos, usable, carve⟩ := kept.wf.place placed
    obtain ⟨wf', length⟩ := wf.carve pos usable carve
    obtain ⟨aimed, moved⟩ := carve_moved carve
    obtain ⟨below, fits, clear, -⟩ := usable
    dsimp only at below fits clear
    rw [runIsClear_iff] at clear
    have unmoved := opened.unmoved kept.wf
    have moving := unmoved.moved moved
    have sound := wf.sound hp below
    have here : s.filler.packedAt p.base p.pages = .packed hp off pages.toNat := by
      rw [length]
      refine packedAt_eq (aimed.trans ?_) (by omega)
      rw [hugeBase, hugeBase, opened.regionBase]
    have live : (s.filler.slots hp).live = (g.slots hp).live := (congrArg Face.live (unmoved.faces hp) :).symm
    have entered := (kept.tracks.congr unmoved.faces).carve sound.face
      (sound.not_inRun (by omega) (clear off (by omega) (by omega))) pos fits clear
    refine ⟨_, rfl, Kept.moved keeps wf' moving ?_ ⟨⟨?_, fits, ?_⟩, hp, off, rfl⟩ ?_⟩
    · rw [here]
      refine (entered.perm (List.perm_append_singleton ..)).congr fun j => ?_
      by_cases other : j = hp
      · subst other
        rw [update_self, update_self]
      · rw [update_of_ne other, update_of_ne other, unmoved.faces j]
    · rw [← opened.capacity]
      exact Nat.lt_of_lt_of_le below wf.bound
    · intro k lower upper
      rw [live]
      exact clear k lower upper
    · intro k changed
      rw [← unmoved.faces hp, Face.carve, getLsbD_setRun] at changed
      by_contra outside
      rw [decide_eq_false (by tauto), Bool.or_false] at changed
      exact changed rfl

/-- The pages a freed or trimmed run clears. -/
theorem clearRun_inside
    (changed : (clearRun live at_ len).getLsbD k ≠ live.getLsbD k) : at_ ≤ k ∧ k < at_ + len := by
  rw [getLsbD_clearRun] at changed
  by_contra outside
  rw [decide_eq_false outside, Bool.not_false, Bool.and_true] at changed
  exact changed rfl

theorem WF.free (h : WF f f.nextUntouched) (base pages : Nat) :
    WF (f.free base pages).2 (f.free base pages).2.nextUntouched := by
  rcases free_cases base pages f with ⟨same, -⟩ | ⟨hp, off, -, -, touched, pos, -, alloc, -, same⟩
  · rw [same]
    exact h
  · have below := h.below_of_touched touched
    rw [same, (refiled f hp _).same.nextUntouched]
    exact h.write below freed_sameLinks ((h.sound hp below).freed alloc pos)

theorem Kept.free (kept : Kept s) (base pages : UInt64) : Keeping s (.free base pages) := by
  have wf := kept.wf.free base.toNat pages.toNat
  refine Answers.keeping (Checked.free_eq kept.ranged _ _) rfl fun keeps => ⟨_, rfl, ?_⟩
  rcases kept.wf.free_faces base.toNat pages.toNat with
    ⟨refused, same, -⟩ | ⟨accepted, hp, off, aimed, packed, moved⟩
  · rw [refused, same]
    exact kept.unmoved kept.ranged.keeps kept.wf .refl
  · have pos := packed.pos
    have fits := packed.fits
    have member := kept.tracks.mem_of_packed packed
    rw [accepted, packedAt_eq aimed (by omega)]
    refine Kept.moved keeps wf moved (kept.tracks.front member).free ⟨member, hp, off, aimed, rfl⟩ ?_
    intro k changed
    exact clearRun_inside changed

theorem WF.trim (h : WF f f.nextUntouched) (base oldPages newPages : Nat) :
    WF (f.trim base oldPages newPages).2 (f.trim base oldPages newPages).2.nextUntouched := by
  rcases trim_cases base oldPages newPages f with
    same | ⟨hp, off, -, touched, pos, shorter, -, alloc, same⟩
  · rw [same]
    exact h
  · have below := h.below_of_touched touched
    rw [same, (refiled f hp _).same.nextUntouched]
    exact h.write below ⟨rfl, rfl, rfl⟩ ((h.sound hp below).trimmed alloc pos shorter)

theorem Kept.trim (kept : Kept s) (base oldPages newPages : UInt64) :
    Keeping s (.trim base oldPages newPages) := by
  have wf := kept.wf.trim base.toNat oldPages.toNat newPages.toNat
  refine Answers.keeping (Checked.trim_eq kept.ranged _ _ _) rfl fun keeps => ⟨_, rfl, ?_⟩
  rcases result : s.filler.trim base.toNat oldPages.toNat newPages.toNat with ⟨ok, f'⟩
  rw [result] at keeps wf
  rcases trim_faces result with ⟨rfl, rfl⟩ | ⟨rfl, hp, off, aimed, packed, pos, shorter, moved⟩
  · exact kept.unmoved kept.ranged.keeps kept.wf .refl
  · have fits := packed.fits
    have member := kept.tracks.mem_of_packed packed
    rw [packedAt_eq aimed (by omega), packedAt_eq aimed (by omega)]
    refine Kept.moved keeps wf moved ((kept.tracks.front member).trim pos shorter) ⟨member, hp, off, aimed, rfl⟩ ?_
    intro k changed
    have bounds := clearRun_inside changed
    omega

theorem WF.subrelease (h : WF f f.nextUntouched)
    (ran : f.subrelease base pages pressureHigh = some (sr, f')) : WF f' f'.nextUntouched := by
  obtain ⟨hp, off, -, touched, -, -, -, -, rfl⟩ := subrelease_cases ran
  have below := h.below_of_touched touched
  have written := h.write (s := unbacked (f.slots hp) off pages) below ⟨rfl, rfl, rfl⟩
    (h.sound hp below).unbacked
  rw [(refiled f hp _).same.nextUntouched]
  exact written.setSubreleaseEvents _

theorem Kept.subrelease (kept : Kept s) (base pages : UInt64) (pressureHigh : Bool) :
    Keeping s (.subrelease base pages pressureHigh) := by
  refine Answers.keeping (Checked.subrelease_eq kept.ranged _ _ _) rfl fun keeps => ⟨_, rfl, ?_⟩
  cases given : s.filler.subrelease base.toNat pages.toNat pressureHigh with
  | none => exact kept.unmoved kept.ranged.keeps kept.wf .refl
  | some result =>
    rw [given] at keeps
    exact kept.unmoved keeps (kept.wf.subrelease given) (subrelease_unmoved given).1

/-- Backing pages of a touched hugepage keeps the filler well formed. -/
theorem WF.back (h : WF f f.nextUntouched) (touched : (f.slots hp).touched = true) :
    WF ((f.put hp (backed (f.slots hp) off pages)).refile hp)
      ((f.put hp (backed (f.slots hp) off pages)).refile hp).nextUntouched := by
  have below := h.below_of_touched touched
  rw [(refiled f hp _).same.nextUntouched]
  exact h.write below ⟨rfl, rfl, rfl⟩ (h.sound hp below).backed

theorem Kept.markCommitted (kept : Kept s)
    (aimed : (Call.markCommitted p).Aimed s.filler) : Keeping s (.markCommitted p) := by
  refine Goes.keeping (Checked.markCommitted_eq kept.ranged p) rfl fun keeps =>
    ⟨_, rfl, kept.unmoved keeps ?_ (markCommitted_unmoved _ p)⟩
  unfold HugePageFiller.markCommitted
  cases valid : s.filler.validateRun p.hugepage p.base p.pages with
  | none => exact kept.wf
  | some off => exact kept.wf.back (aimed off valid)

theorem Kept.unsubrelease (kept : Kept s)
    (aimed : (Call.unsubrelease sr).Aimed s.filler) : Keeping s (.unsubrelease sr) := by
  refine Goes.keeping (Checked.unsubrelease_eq kept.ranged sr) rfl fun keeps =>
    ⟨_, rfl, kept.unmoved keeps ?_ (unsubrelease_unmoved _ sr)⟩
  unfold HugePageFiller.unsubrelease
  dsimp only
  cases start : checkedAdd s.filler.regionBase sr.regionOffset with
  | none => exact kept.wf
  | some base =>
    dsimp only
    cases valid : s.filler.validateRun sr.hugepage base (sr.len / pageSize) with
    | none => exact kept.wf
    | some off => exact kept.wf.back (aimed base off start valid)

theorem Kept.markRunCommitted (kept : Kept s)
    (aimed : (Call.markRunCommitted run).Aimed s.filler) : Keeping s (.markRunCommitted run) := by
  obtain ⟨wf, unmoved⟩ := kept.wf.markRunCommitted run aimed
  exact Goes.keeping (Checked.markRunCommitted_eq kept.ranged run) rfl fun keeps =>
    ⟨_, rfl, kept.unmoved keeps wf unmoved⟩

theorem Kept.markCold (kept : Kept s) (addr : UInt64) : Keeping s (.markCold addr) := by
  refine Answers.keeping (Checked.markCold_eq kept.ranged _) rfl fun keeps =>
    ⟨_, rfl, kept.unmoved keeps ?_ (markCold_unmoved _ _)⟩
  unfold HugePageFiller.markCold
  cases s.filler.indexOf addr.toNat with
  | none => exact kept.wf
  | some i =>
    dsimp only [get]
    split
    · exact kept.wf
    next touched =>
      have below := kept.wf.below_of_touched (by simpa using touched)
      have sound := kept.wf.sound i below
      dsimp only
      rw [(refiled s.filler i _).same.nextUntouched]
      exact kept.wf.write below ⟨rfl, rfl, rfl⟩
        ⟨sound.touched, sound.apart, sound.headsLive, sound.headed, sound.runFull, sound.runLed⟩

/-- A run that was taken enters the ledger. -/
theorem Kept.takes (kept : Kept s) (takes : Takes s.filler f' run start n)
    (keeps : Keeps s.filler f') (named : call.Names s (.run start n)) :
    Kept ⟨f', enterRun s (some run)⟩ ∧ Within s ⟨f', enterRun s (some run)⟩ call := by
  have marked := takes.marked
  have bound := marked.wf.bound
  have inside := marked.inside
  have capacity := takes.capacity
  obtain ⟨moved, members⟩ := takes.faces
  have entered := kept.tracks.reserve marked.pos (fun j inRange => takes.empty j inRange) members
    moved.other
  have here : s.filler.runAt run.base run.hugepages = .run start n := by
    rw [marked.hugepages]
    refine runAt_eq (marked.base.trans ?_)
    rw [hugeBase, hugeBase, takes.regionBase]
  rw [enterRun, if_pos (by rw [marked.hugepages]; omega), here]
  exact Kept.movedRange keeps marked.wf moved (entered.perm (List.perm_append_singleton ..)) named

theorem Takes.vacant (takes : Takes f f' run start n) : f.Vacant (.run start n) := by
  have bound := takes.marked.wf.bound
  have inside := takes.marked.inside
  have capacity := takes.capacity
  exact ⟨by omega, takes.empty⟩

theorem Kept.reserveHugepages (kept : Kept s) (n : UInt64) : Keeping s (.reserveHugepages n) := by
  refine Answers.keeping (Checked.reserveHugepages_eq kept.ranged) rfl fun keeps => ⟨_, rfl, ?_⟩
  cases taken : s.filler.reserveHugepages n.toNat with
  | none => exact kept.unmoved kept.ranged.keeps kept.wf .refl
  | some result =>
    rw [taken] at keeps
    obtain ⟨start, takes⟩ := kept.wf.reserveHugepages taken
    exact kept.takes takes keeps ⟨takes.vacant, start, rfl⟩

theorem Kept.reserveHugepagesAt (kept : Kept s) (base n : UInt64) :
    Keeping s (.reserveHugepagesAt base n) := by
  rcases Checked.reserveHugepagesAt_eq kept.ranged base.toNat n.toNat_lt with
    answers | ⟨many, run, asked, ran⟩
  · refine answers.keeping rfl fun keeps => ⟨_, rfl, ?_⟩
    cases taken : s.filler.reserveHugepagesAt base.toNat n.toNat with
    | none => exact kept.unmoved kept.ranged.keeps kept.wf .refl
    | some result =>
      rw [taken] at keeps
      obtain ⟨start, aimed, -, takes⟩ := kept.wf.reserveHugepagesAt taken
      exact kept.takes takes keeps ⟨takes.vacant, start, aimed, rfl⟩
  · refine ⟨_, by rw [step, ran]; rfl, ?_⟩
    rw [enterRun, if_neg (by rw [asked]; omega)]
    exact kept.unmoved kept.ranged.keeps kept.wf .refl

theorem WF.freeHugepages (h : WF f f.nextUntouched) (base n : Nat) :
    WF (f.freeHugepages base n).2 (f.freeHugepages base n).2.nextUntouched := by
  rcases freeHugepages_cases base n f with same | ⟨start, -, pos, -, -, members, same⟩
  · rw [same]
    exact h
  · have inside : start + n ≤ f.nextUntouched := by
      have last := h.below_of_touched (members (start + n - 1) (by simp only [InRange]; omega)).1
      omega
    obtain ⟨wf, region, -, -⟩ := h.writeAll wholeFreed (fun _ => rfl) (fun _ => ⟨rfl, rfl, rfl⟩)
      (fun _ sound => sound.wholeFreed) inside
    rw [same]
    exact region.nextUntouched ▸ wf

theorem Kept.freeHugepages (kept : Kept s) (base n : UInt64) : Keeping s (.freeHugepages base n) := by
  have wf := kept.wf.freeHugepages base.toNat n.toNat
  refine Answers.keeping (Checked.freeHugepages_eq kept.ranged _) rfl fun keeps => ⟨_, rfl, ?_⟩
  rcases kept.wf.freeHugepages_faces base.toNat n.toNat with
    ⟨same, -⟩ | ⟨accepted, start, aimed, pos, single, led, live, moved, blank⟩
  · rw [same]
    exact kept.unmoved kept.ranged.keeps kept.wf .refl
  · have member := kept.tracks.mem_of_run single led pos live
    rw [accepted, runAt_eq aimed]
    refine Kept.movedRange keeps wf moved ?_ ⟨member, start, aimed, rfl⟩
    refine (kept.tracks.front member).release ?_ moved.other
    intro j inRange
    rw [blank j inRange]
    rfl

theorem Kept.step (kept : Kept s) (aimed : call.Aimed s.filler) : Keeping s call := by
  cases call with
  | place pages align hints => exact kept.place pages align hints
  | markCommitted p => exact kept.markCommitted aimed
  | free base pages => exact kept.free base pages
  | trim base oldPages newPages => exact kept.trim base oldPages newPages
  | subrelease base pages pressureHigh => exact kept.subrelease base pages pressureHigh
  | unsubrelease sr => exact kept.unsubrelease aimed
  | reserveHugepages n => exact kept.reserveHugepages n
  | reserveHugepagesAt base n => exact kept.reserveHugepagesAt base n
  | markRunCommitted run => exact kept.markRunCommitted aimed
  | freeHugepages base n => exact kept.freeHugepages base n
  | markCold addr => exact kept.markCold addr

/-! ## Every state reached -/

variable {metaOk : Bool} {slotBytes regionBase capacity : Nat}

theorem new_kept (built : HugePageFiller.new metaOk slotBytes regionBase capacity = some f) :
    Kept ⟨f, []⟩ := by
  have wf := (new_settled built).wf
  unfold HugePageFiller.new at built
  split at built
  · contradiction
  next sized =>
    simp only [Option.bind_eq_bind, Option.bind_eq_some_iff, Option.ite_none_left_eq_some,
      Option.some.injEq] at built
    obtain ⟨len, long, -, -, -, -, -, rfl⟩ := built
    have fits := (checkedMul_eq_some.mp long).2
    have first : InTable capacity 0 := .inr (by omega)
    exact ⟨⟨by dsimp only; omega, Nat.lt_succ_of_le fits, Nat.zero_le _, fun _ => .inl rfl,
      fun _ => .inl rfl, fun _ => ⟨first, first, Nat.two_pow_pos 32⟩⟩, wf, Block.tracks_blank⟩

theorem Reached.kept (built : HugePageFiller.new metaOk slotBytes regionBase capacity = some f)
    (reached : Reached f s) : Kept s := by
  induction reached with
  | start => exact new_kept built
  | step before aimed ran kept =>
    obtain ⟨s', ran', kept', -⟩ := kept.step aimed
    rw [ran] at ran'
    obtain rfl := Option.some.inj ran'
    exact kept'

/-- After any aimed calls on a new filler, any aimed call returns: it stays
inside the slot table, changes no live page outside a block it names, and
leaves the bins in order. -/
theorem filed_of_reached (built : HugePageFiller.new metaOk slotBytes regionBase capacity = some f)
    (reached : Reached f s) (call : Call) (aimed : call.Aimed s.filler) :
    ∃ s', step s call = some s' ∧ Within s s' call ∧ s'.filler.Filed := by
  obtain ⟨s', ran, kept, within⟩ := (reached.kept built).step aimed
  exact ⟨s', ran, within, kept.wf.filed⟩

/-- A new filler of two hugepages at address 0. -/
def twoSlots : HugePageFiller :=
  { slots := fun _ => {}, capacity := 2, regionBase := 0, nextUntouched := 0
    bins := fun _ => NIL, binTails := fun _ => NIL, subreleaseEvents := 0 }

theorem twoSlots_eq_new : HugePageFiller.new true 96 0 2 = some twoSlots := rfl

/-- The count wraps the bound check of `reserve_hugepages_at`. -/
theorem filed_of_reached_twoSlots :
    ∃ s', step ⟨twoSlots, []⟩ (.reserveHugepagesAt 2097152 18446744073709551615) = some s' ∧
      Within ⟨twoSlots, []⟩ s' (.reserveHugepagesAt 2097152 18446744073709551615) ∧
      s'.filler.Filed :=
  filed_of_reached twoSlots_eq_new .start _ trivial

/-- A forged placement on an untouched hugepage passes the geometry check and
is filed: the hugepage heads a bin. -/
theorem untouched_filed_by_forged_token :
    ∃ s', step ⟨twoSlots, []⟩ (.markCommitted ⟨1, 2097152, 1, none⟩) = some s' ∧ ¬ s'.filler.Filed := by
  obtain ⟨s', ran⟩ := Option.isSome_iff_exists.mp
    (show (step ⟨twoSlots, []⟩ (.markCommitted ⟨1, 2097152, 1, none⟩)).isSome = true by decide +kernel)
  have looked : (step ⟨twoSlots, []⟩ (.markCommitted ⟨1, 2097152, 1, none⟩)).map (fun s =>
      (s.filler.bins .emptyBacked, (s.filler.slots 1).touched)) = some (1, false) := by
    decide +kernel
  rw [ran, Option.map_some, Option.some.injEq, Prod.mk.injEq] at looked
  refine ⟨s', ran, ?_⟩
  rintro ⟨L, lists⟩
  have path := lists.held.path .emptyBacked
  rw [show s'.filler.binTable.head .emptyBacked = 1 from looked.1] at path
  cases spelled : L .emptyBacked with
  | nil =>
    rw [spelled] at path
    exact absurd (show 1 = NIL from path) (by decide)
  | cons i rest =>
    rw [spelled] at path
    have member : 1 ∈ L .emptyBacked := by
      rw [spelled, path.1]
      simp
    have touched := ((lists.filed _ _).mp member).1
    rw [looked.2] at touched
    contradiction

end HugePageFiller
end Topomalloc
