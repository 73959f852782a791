import Topomalloc.Large.Resize
import Topomalloc.Extent.Ledger

/-! Sequences of calls to the large allocator, with any pointers and any
answers of the provider, the metadata source and the region cache. -/
namespace Topomalloc
open Function ExtentMap
namespace Engine
variable {σ : Type} {G : Grounds σ} {E : Env σ} {s s' : Engine σ} {free : List Nat} {live : Set Nat}
  {held : Set Region} {i j p : Nat}

/-! ## The remaining calls -/

/-- Writing fields of a descriptor that say nothing of where the allocation is. -/
theorem Housed.touch (h : Housed G s free live held) (base : d.base = (s.large.slots j).base)
    (usable : d.usable = (s.large.slots j).usable) (backing : d.backing = (s.large.slots j).backing)
    (guarded : d.guarded = (s.large.slots j).guarded) (link : d.freeNext = (s.large.slots j).freeNext) :
    Housed G (s.setLarge j d) free live held := by
  have slot : ∀ i, (s.setLarge j d).large.slots i = if i = j then d else s.large.slots i := fun i =>
    update_apply ..
  refine { h with pool := ?_, seated := ?_, pages := ?_ }
  · refine h.pool.congr fun i _ => ?_
    rw [slot i]
    split
    · rename_i same
      rw [link, same]
    · rfl
  · intro i member
    have seated := h.seated i member
    rw [slot i]
    split
    · rename_i same
      subst same
      simp only [Seated, LargeSlot.Takes, LargeSlot.stop, base, usable, backing, guarded] at seated ⊢
      exact seated
    · exact seated
  · intro p i
    refine (h.pages p i).trans (and_congr_right fun member => ?_)
    rw [slot i]
    split
    · rename_i same
      rw [LargeSlot.stop, LargeSlot.stop, base, usable, same]
    · rfl

section
variable (stands : Stands G s live held)
include stands

/-- `note_requested` changes what one descriptor says was asked for. -/
theorem Stands.noteRequested (ptr requested : Nat) :
    Stands G (s.noteRequested ptr requested) live held ∧ LargeOnly G s (s.noteRequested ptr requested) := by
  obtain ⟨free, h, full⟩ := id stands
  unfold Engine.noteRequested
  split
  · exact ⟨stands, .refl⟩
  split
  · exact ⟨stands, .refl⟩
  · exact ⟨⟨free, h.touch rfl rfl rfl rfl rfl, full⟩, .of_entries rfl rfl fun _ leaf => leaf⟩

/-- `free_arena` ends allocations of the arena and no others. -/
theorem Stands.freeArenaLoop {arena : Nat} (sound : G.Sound E)
    (ran : Engine.freeArenaLoop E arena scrub fuel count bytes all s = (answer, s')) :
    ∃ live' held', Stands G s' live' held' ∧ LargeOnly G s s' ∧ live' ⊆ live ∧
      (∀ j ∈ live', s'.large.slots j = s.large.slots j) ∧
      ∀ j ∈ live, (s.large.slots j).arena ≠ arena → j ∈ live' := by
  induction fuel generalizing s count bytes all live held with
  | zero =>
    cases ran
    exact ⟨live, held, stands, .refl, Set.Subset.refl _, fun _ _ => rfl, fun _ member _ => member⟩
  | succ fuel ih =>
    simp only [Engine.freeArenaLoop] at ran
    split at ran
    · cases ran
      exact ⟨live, held, stands, .refl, Set.Subset.refl _, fun _ _ => rfl, fun _ member _ => member⟩
    rename_i k found
    obtain ⟨owner, mine⟩ : s.pagemap.lookup (s.largeSlot k).base = .large k ∧
        (s.largeSlot k).arena = arena := by
      have chosen := List.find?_some found
      simpa only [Bool.and_eq_true, decide_eq_true_eq] using chosen
    split at ran
    · rename_i revoked s₁ freeing
      obtain ⟨-, j, isLarge, dropped, -⟩ := stands.freeInner sound freeing
      obtain ⟨free, h, -⟩ := stands
      obtain rfl : j = k := by
        have there := largeAt_eq_some.mp (h.largeAt sound isLarge)
        rw [PageMap.lookup_eq, there] at owner
        cases owner
        rfl
      obtain ⟨held₁, stands₁⟩ := dropped.stands
      obtain ⟨live', held', stands', only, fewer, slots, others⟩ := ih stands₁ ran
      refine ⟨live', held', stands', dropped.only.trans only, fun i kept => (fewer kept).1, ?_, ?_⟩
      · intro i kept
        exact (slots i kept).trans (dropped.slots i (fewer kept).1 (fewer kept).2)
      · intro i member other
        have ne : i ≠ j := by
          rintro rfl
          exact other mine
        apply others i ⟨member, ne⟩
        rw [dropped.slots i member ne]
        exact other
    · rename_i revoked s₁ freeing
      obtain ⟨rfl, -⟩ := stands.freeInner sound freeing
      cases ran
      exact ⟨live, held, stands, .refl, Set.Subset.refl _, fun _ _ => rfl, fun _ member _ => member⟩

/-! ## Runs -/

/-- The calls to the large allocator. -/
inductive LargeOp
  | allocate (arena bytes align : Nat) (hints : Hints) (zero : Bool)
  | allocateGuarded (arena size align : Nat)
  | free (ptr : Nat) (scrub : Bool)
  | freeRevoking (ptr arena : Nat) (scrub : Bool)
  | shrink (ptr newUsable : Nat)
  | grow (ptr newUsable : Nat)
  | freeArena (arena : Nat) (scrub : Bool)
  | noteRequested (ptr requested : Nat)

/-- The state after one call. -/
def largeStep (E : Env σ) (s : Engine σ) : LargeOp → Engine σ
  | .allocate arena bytes align hints zero => (s.allocateWithIn E arena bytes align hints zero).2
  | .allocateGuarded arena size align => (s.allocateGuarded E arena size align).2
  | .free ptr scrub => (s.freeScrubbing E ptr scrub).2
  | .freeRevoking ptr arena scrub => (s.freeInner E ptr (some arena) scrub).2
  | .shrink ptr newUsable => (s.shrink E ptr newUsable).2
  | .grow ptr newUsable => (s.grow E ptr newUsable).2
  | .freeArena arena scrub => (s.freeArena E arena scrub).2
  | .noteRequested ptr requested => s.noteRequested ptr requested

def largeRun (E : Env σ) (s : Engine σ) (ops : List LargeOp) : Engine σ := ops.foldl (largeStep E) s

theorem Stands.freed (sound : G.Sound E) (ptr : Nat) (revoke : Option Nat) (scrub : Bool) :
    ∃ live' held', Stands G (s.freeInner E ptr revoke scrub).2 live' held' ∧
      LargeOnly G s (s.freeInner E ptr revoke scrub).2 := by
  rcases ran : s.freeInner E ptr revoke scrub with ⟨⟨retired, reclaimed⟩, s'⟩
  have outcome := stands.freeInner sound ran
  cases retired with
  | true =>
    obtain ⟨-, j, -, dropped, -⟩ := outcome
    obtain ⟨held', stands'⟩ := dropped.stands
    exact ⟨_, held', stands', dropped.only⟩
  | false =>
    obtain ⟨rfl, -⟩ := outcome
    exact ⟨live, held, stands, .refl⟩

theorem Stands.step (sound : G.Sound E) (op : LargeOp) :
    ∃ live' held', Stands G (s.largeStep E op) live' held' ∧ LargeOnly G s (s.largeStep E op) := by
  cases op with
  | allocate arena bytes align hints zero =>
    simp only [largeStep]
    rcases ran : s.allocateWithIn E arena bytes align hints zero with ⟨_ | ptr, s'⟩
    · obtain ⟨⟨⟨held', stands', -⟩, only, -⟩, -⟩ := stands.allocateWithIn sound ran
      exact ⟨live, held', stands', only⟩
    · obtain ⟨j, ⟨-, ⟨held', stands', -⟩, only, -⟩, -⟩ := stands.allocateWithIn sound ran
      exact ⟨_, held', stands', only⟩
  | allocateGuarded arena size align =>
    simp only [largeStep]
    rcases ran : s.allocateGuarded E arena size align with ⟨_ | ptr, s'⟩
    · obtain ⟨⟨⟨held', stands', -⟩, only, -⟩, -⟩ := stands.allocateGuarded sound ran
      exact ⟨live, held', stands', only⟩
    · obtain ⟨j, ⟨-, ⟨held', stands', -⟩, only, -⟩, -⟩ := stands.allocateGuarded sound ran
      exact ⟨_, held', stands', only⟩
  | free ptr scrub => exact stands.freed sound ptr none scrub
  | freeRevoking ptr arena scrub => exact stands.freed sound ptr (some arena) scrub
  | shrink ptr newUsable =>
    simp only [largeStep]
    rcases ran : s.shrink E ptr newUsable with ⟨_ | bytes, s'⟩
    · have untouched := stands.shrink sound ran
      exact ⟨live, held, untouched.stands, untouched.only⟩
    · obtain ⟨-, j, usable, -, -, -, -, -, ⟨held', stands'⟩, only, -⟩ := stands.shrink sound ran
      exact ⟨live, held', stands', only⟩
  | grow ptr newUsable =>
    simp only [largeStep]
    rcases ran : s.grow E ptr newUsable with ⟨_ | bytes, s'⟩
    · have untouched := stands.grow sound ran
      exact ⟨live, held, untouched.stands, untouched.only⟩
    · obtain ⟨-, j, usable, -, -, -, -, -, ⟨held', stands'⟩, only, -⟩ := stands.grow sound ran
      exact ⟨live, held', stands', only⟩
  | freeArena arena scrub =>
    obtain ⟨live', held', stands', only, -⟩ := stands.freeArenaLoop sound
      (Prod.mk.eta (p := s.freeArena E arena scrub)).symm
    exact ⟨live', held', stands', only⟩
  | noteRequested ptr requested => exact ⟨live, held, stands.noteRequested ptr requested⟩

theorem Stands.run (sound : G.Sound E) (ops : List LargeOp) :
    ∃ live' held', Stands G (s.largeRun E ops) live' held' := by
  induction ops generalizing s live held with
  | nil => exact ⟨live, held, stands⟩
  | cons op ops ih =>
    obtain ⟨live₁, held₁, stands₁, -⟩ := stands.step sound op
    exact ih stands₁

/-! ## Internal fragmentation -/

/-- The slots in use, by the links of the free stack. -/
def liveLarge (s : Engine σ) : List Nat :=
  (List.range s.large.highWater).filter fun j =>
    decide (j ∉ Pool.walk (fun j => (s.large.slots j).freeNext) NIL s.large.highWater s.large.freeHead)

theorem Stands.mem_liveLarge : j ∈ s.liveLarge ↔ j ∈ live := by
  obtain ⟨free, h, full⟩ := stands
  rw [liveLarge, h.pool.walk_eq, List.mem_filter, List.mem_range, decide_eq_true_eq]
  exact ⟨full j, h.used j⟩

end

theorem totalWaste_eq (slots : List Nat) :
    s.totalWaste slots = min ((slots.map fun j => waste (s.largeSlot j)).sum) usizeMax := by
  have fold : ∀ total, total ≤ usizeMax →
      slots.foldl (fun total j => min (total + waste (s.largeSlot j)) usizeMax) total =
        min (total + (slots.map fun j => waste (s.largeSlot j)).sum) usizeMax := by
    induction slots with
    | nil =>
      intro total bound
      simp [Nat.min_eq_left bound]
    | cons j rest ih =>
      intro total bound
      rw [List.foldl_cons, ih _ (Nat.min_le_right ..), List.map_cons, List.sum_cons]
      omega
  rw [totalWaste, fold 0 (Nat.zero_le _), Nat.zero_add]

/-- The waste of the slots in use, while that of all slots ever taken fits. -/
theorem Stands.internalFragmentationBytes (stands : Stands G s live held)
    (fits : ((List.range s.large.highWater).map fun j => waste (s.largeSlot j)).sum ≤ usizeMax) :
    s.internalFragmentationBytes = (s.liveLarge.map fun j => waste (s.largeSlot j)).sum := by
  obtain ⟨free, h, -⟩ := stands
  have walked : Pool.walk (fun j => (s.largeSlot j).freeNext) NIL s.large.highWater s.large.freeHead =
    free := h.pool.walk_eq
  have perm : (List.range s.large.highWater).Perm (s.liveLarge ++ free) := by
    rw [List.perm_ext_iff_of_nodup List.nodup_range]
    · intro j
      rw [List.mem_append, liveLarge, h.pool.walk_eq, List.mem_filter, decide_eq_true_eq]
      by_cases listed : j ∈ free
      · simp [listed, h.pool.below j listed]
      · simp [listed]
    · refine (List.nodup_range.filter _).append h.pool.nodup ?_
      intro j used listed
      rw [h.pool.walk_eq, List.mem_filter, decide_eq_true_eq] at used
      exact used.2 listed
  have total := (perm.map fun j => waste (s.largeSlot j)).sum_eq
  rw [List.map_append, List.sum_append] at total
  rw [Engine.internalFragmentationBytes, walked, totalWaste_eq, totalWaste_eq]
  omega

/-! ## What the structures say of each other -/

/-- The pool, the page map, the extents and the leases of the cache describe the
same allocations. -/
structure Described (s : Engine σ) (held : Set Region) : Prop where
  pages : ∀ p j, s.pagemap.entries p = .large j ↔
    j ∈ s.liveLarge ∧ inPages (s.largeSlot j).base (s.largeSlot j).stop p = true
  seated : ∀ j ∈ s.liveLarge, Seated s.largeExtents.map held (s.largeSlot j)
  grounds : ∀ i ∈ s.liveLarge, ∀ j ∈ s.liveLarge, i ≠ j → ∀ p,
    ((s.largeSlot i).ground s.largeExtents.map).HasPage p →
      ¬((s.largeSlot j).ground s.largeExtents.map).HasPage p
  disjoint : ∀ i ∈ s.liveLarge, ∀ j ∈ s.liveLarge, i ≠ j →
    (s.largeSlot i).stop ≤ (s.largeSlot j).base ∨ (s.largeSlot j).stop ≤ (s.largeSlot i).base

theorem Stands.described (stands : Stands G s live held) (sound : G.Sound E) : s.Described held := by
  have mem : ∀ j, j ∈ s.liveLarge ↔ j ∈ live := fun j => stands.mem_liveLarge
  obtain ⟨free, h, -⟩ := stands
  have apart : ∀ i ∈ s.liveLarge, ∀ j ∈ s.liveLarge, i ≠ j → ∀ p,
      ((s.largeSlot i).ground s.largeExtents.map).HasPage p →
        ¬((s.largeSlot j).ground s.largeExtents.map).HasPage p := by
    intro i member j member' ne p
    exact h.ground_apart sound ((mem i).mp member) ((mem j).mp member') ne
  refine ⟨fun p j => ?_, fun j member => h.seated j ((mem j).mp member), apart, ?_⟩
  · rw [mem]
    exact h.pages p j
  · intro i member j member' ne
    have within := (h.takes ((mem i).mp member)).within
    have within' := (h.takes ((mem j).mp member')).within
    have apart' := (h.paged sound ((mem i).mp member)).disjoint (h.paged sound ((mem j).mp member'))
      (apart i member j member' ne)
    simp only [largeSlot]
    omega

/-- No allocation is where the pointer points. -/
theorem Stands.stray (stands : Stands G s live held)
    (stray : ptr = 0 ∨ ∀ j ∈ s.liveLarge, (s.largeSlot j).base ≠ ptr) :
    (∀ revoke scrub, s.freeInner E ptr revoke scrub = ((false, false), s)) ∧
      (∀ newUsable, s.shrink E ptr newUsable = (none, s)) ∧
      ∀ newUsable, s.grow E ptr newUsable = (none, s) := by
  have wrong : ∀ j, s.largeAt ptr = some j → ptr = 0 ∨ ptr ≠ (s.largeSlot j).base := by
    intro j found
    rcases stray with null | foreign
    · exact .inl null
    · obtain ⟨free, h, -⟩ := id stands
      refine .inr fun based => foreign j ?_ based.symm
      exact stands.mem_liveLarge.mpr (h.isLarge found based).1
  refine ⟨fun revoke scrub => ?_, fun newUsable => ?_, fun newUsable => ?_⟩
  · unfold Engine.freeInner
    split
    · rfl
    · rename_i j found
      exact if_pos (wrong j found)
  · unfold Engine.shrink
    split
    · rfl
    · rename_i j found
      exact if_pos ((wrong j found).imp_right .inl)
  · unfold Engine.grow
    split
    · rfl
    · rename_i j found
      dsimp only
      split
      · rfl
      · exact if_pos ((wrong j found).imp_right .inl)

/-- A request failed: no slot is taken, and none that was in use changed, nor
did a page. -/
structure Failed (s s' : Engine σ) : Prop where
  live : ∀ j, j ∈ s'.liveLarge ↔ j ∈ s.liveLarge
  slots : ∀ j ∈ s.liveLarge, s'.largeSlot j = s.largeSlot j
  entries : s'.pagemap.entries = s.pagemap.entries

theorem Refused.failed (refused : Refused G s s' live held) (stands : Stands G s live held) :
    Failed s s' := by
  obtain ⟨held', stands', -⟩ := refused.stands
  refine ⟨fun j => stands'.mem_liveLarge.trans stands.mem_liveLarge.symm, ?_, refused.entries⟩
  exact fun j member => refused.slots j (stands.mem_liveLarge.mp member)

/-- The allocation of slot `j` was freed: its pages are no one's, and no other changed. -/
structure Frees (s s' : Engine σ) (j : Nat) : Prop where
  live : ∀ i, i ∈ s'.liveLarge ↔ i ∈ s.liveLarge ∧ i ≠ j
  slots : ∀ i ∈ s.liveLarge, i ≠ j → s'.largeSlot i = s.largeSlot i
  entries : ∀ p, s'.pagemap.entries p =
    if inPages (s.largeSlot j).base (s.largeSlot j).stop p = true then .empty
    else s.pagemap.entries p

/-- What holds between calls, what a free does, and what another call does when it fails. -/
structure Contract (G : Grounds σ) (E : Env σ) (s : Engine σ) : Prop where
  described : ∃ held, G.Leased s.world held ∧ s.Described held
  stray : ∀ ptr, (ptr = 0 ∨ ∀ j ∈ s.liveLarge, (s.largeSlot j).base ≠ ptr) →
    (∀ revoke scrub, s.freeInner E ptr revoke scrub = ((false, false), s)) ∧
      (∀ newUsable, s.shrink E ptr newUsable = (none, s)) ∧
      ∀ newUsable, s.grow E ptr newUsable = (none, s)
  free : ∀ j ∈ s.liveLarge, (s.largeSlot j).base ≠ 0 → ∀ revoke scrub, ∃ reclaimed s',
    s.freeInner E (s.largeSlot j).base revoke scrub = ((true, reclaimed), s') ∧ Frees s s' j ∧
      Ended s s' j reclaimed
  resize : ∀ ptr newUsable s', s.shrink E ptr newUsable = (none, s') ∨ s.grow E ptr newUsable = (none, s') →
    s'.large = s.large ∧ s'.pagemap.entries = s.pagemap.entries ∧
      SameLive s.largeExtents.map s'.largeExtents.map
  allocate : ∀ arena bytes align hints zero s', s.allocateWithIn E arena bytes align hints zero = (none, s') →
    Failed s s' ∧ SameLive s.largeExtents.map s'.largeExtents.map
  guarded : ∀ arena size align s', s.allocateGuarded E arena size align = (none, s') →
    Failed s s' ∧ Withholds E s s'
  fragmentation : ((List.range s.large.highWater).map fun j => waste (s.largeSlot j)).sum ≤ usizeMax →
    s.internalFragmentationBytes = (s.liveLarge.map fun j => waste (s.largeSlot j)).sum

theorem Stands.contract (stands : Stands G s live held) (sound : G.Sound E) : Contract G E s where
  described := by
    obtain ⟨free, h, -⟩ := id stands
    exact ⟨held, h.leased, stands.described sound⟩
  stray _ := stands.stray
  free j member real revoke scrub := by
    have here : s.IsLarge live j (s.largeSlot j).base := ⟨stands.mem_liveLarge.mp member, rfl⟩
    rcases ran : s.freeInner E (s.largeSlot j).base revoke scrub with ⟨⟨retired, reclaimed⟩, s'⟩
    have outcome := stands.freeInner sound ran
    cases retired with
    | false => exact absurd (outcome.2.2 j here) real
    | true =>
      obtain ⟨-, k, here', dropped, -⟩ := outcome
      obtain rfl : k = j := by
        obtain ⟨free, h, -⟩ := id stands
        exact Option.some.inj ((h.largeAt sound here').symm.trans (h.largeAt sound here))
      obtain ⟨held', stands'⟩ := dropped.stands
      refine ⟨reclaimed, s', rfl, ⟨fun i => ?_, fun i old => ?_, dropped.entries⟩, dropped.extents⟩
      · rw [stands'.mem_liveLarge, stands.mem_liveLarge]
        rfl
      · exact dropped.slots i (stands.mem_liveLarge.mp old)
  resize ptr newUsable s' ran := by
    have untouched : Untouched G s s' live held := by
      rcases ran with ran | ran
      · exact stands.shrink sound ran
      · exact stands.grow sound ran
    exact ⟨untouched.pool, untouched.unmoved.entries, untouched.unmoved.extents⟩
  allocate _ _ _ _ _ s' ran := by
    obtain ⟨refused, same⟩ := stands.allocateWithIn sound ran
    exact ⟨refused.failed stands, same⟩
  guarded _ _ _ s' ran := by
    obtain ⟨refused, extents⟩ := stands.allocateGuarded sound ran
    exact ⟨refused.failed stands, extents⟩
  fragmentation := stands.internalFragmentationBytes

/-- A large allocator as its constructor leaves it, over a page map that knows
none of its pages. -/
structure Opened (G : Grounds σ) (s : Engine σ) : Prop where
  pool : ∃ metaOk slotBytes cap, LargePool.new metaOk slotBytes cap = some s.large
  extents : ∃ metaOk slotBytes arena slotCap policy,
    ExtentManager.new metaOk slotBytes G.extents arena slotCap policy = some s.largeExtents
  entries : ∀ p j, s.pagemap.entries p ≠ .large j
  clean : ∀ p, G.Page p → s.pagemap.entries p = .empty
  leased : G.Leased s.world ∅

theorem Opened.stands (opened : Opened G s) : Stands G s ∅ ∅ := by
  obtain ⟨⟨_, _, cap, made⟩, ⟨_, _, _, _, _, built⟩, entries, clean, leased⟩ := opened
  obtain ⟨settled, -⟩ := ExtentManager.new_settled built
  obtain ⟨region, base, len⟩ := ExtentManager.new_region built
  obtain ⟨limit, pool⟩ : cap ≤ NIL ∧ s.large = { cap } := by
    unfold LargePool.new at made
    split at made
    · cases made
    · rename_i bound
      simp only [not_or, not_lt] at bound
      split at made
      · cases made
      split at made
      · exact ⟨bound.2, (Option.some.inj made).symm⟩
      · cases made
  refine ⟨[], ⟨?_, nofun, settled, region, base, len, leased, nofun, ?_, fun p ours => .inl (clean p ours)⟩,
    ?_⟩
  · rw [pool]
    exact Pool.stocked_empty limit
  · intro p j
    exact ⟨fun owned => absurd owned (entries p j), fun both => absurd both.1 (by simp)⟩
  · rintro j ⟨below, -⟩
    rw [pool] at below
    exact absurd below (Nat.not_lt_zero j)

/-- After any calls, with any answers of the provider and the metadata source
and any cache that keeps to its contract. -/
theorem contract_after_calls (opened : Opened G s) (sound : G.Sound E) (ops : List LargeOp) :
    Contract G E (s.largeRun E ops) := by
  obtain ⟨live, held, stands⟩ := opened.stands.run sound ops
  exact stands.contract sound

/-- A new engine over the extents, with room for one large allocation. -/
def fresh {σ : Type} (world : σ) (g : ExtentManager) : Engine σ where
  world
  pagemap := .new
  spans := { cap := 1 }
  quarantine := .new
  spanExtents := g
  large := { cap := 1 }
  largeExtents := g
  arenas := .new
  globalBudget := 0

theorem fresh_opened (made : ExtentManager.fourPages = some g)
    (extents : G.extents = ⟨pageSize, 4 * pageSize⟩) (leased : G.Leased w ∅) : Opened G (fresh w g) where
  pool := ⟨true, 1, 1, rfl⟩
  extents := ⟨true, 128, 0, 4, .retain, extents ▸ made⟩
  entries _ _ := nofun
  clean _ _ := rfl
  leased

/-- The engine without a region cache. -/
def single (g : ExtentManager) : Engine Unit := fresh () g

theorem single_opened (made : ExtentManager.fourPages = some g) :
    Opened (.uncached ⟨pageSize, 4 * pageSize⟩) (single g) :=
  fresh_opened made rfl rfl

theorem contract_after_calls_single :
    ∃ g, ExtentManager.fourPages = some g ∧
      Contract (.uncached ⟨pageSize, 4 * pageSize⟩) .willing ((single g).largeRun .willing
        [.allocate 0 (3 * pageSize) pageSize {} false, .shrink pageSize pageSize,
          .grow pageSize (2 * pageSize), .free pageSize false]) := by
  obtain ⟨g, made⟩ := ExtentManager.exists_fourPages
  exact ⟨g, made, contract_after_calls (single_opened made) (Grounds.uncached_sound _ rfl) _⟩

/-- The provider never makes pages accessible again. -/
def sealing : Env Unit where
  __ := Env.willing
  provider := { Provider.willing with
    protect := fun _ _ _ _ accessible => (if accessible then .error .unsupported else .ok (), ()) }

/-- A guarded request that finds no slot keeps its extent when the guards stay
inaccessible, and a shrink leaves what was asked for above what is usable. -/
theorem guarded_failure_withholds :
    ∃ g, ExtentManager.fourPages = some g ∧
      (∃ s, s = (single g).largeRun sealing [.allocate 0 pageSize pageSize {} false] ∧
        (s.allocateGuarded sealing 0 1 1).1 = none ∧
        ¬SameLive s.largeExtents.map (s.allocateGuarded sealing 0 1 1).2.largeExtents.map) ∧
      ∃ s, s = (single g).largeRun sealing
          [.allocate 0 (2 * pageSize) pageSize {} false, .shrink pageSize pageSize] ∧
        s.liveLarge = [0] ∧
        (s.internalFragmentationBytes : Int) ≠ (s.largeSlot 0).usable - (s.largeSlot 0).requested := by
  refine ⟨ExtentManager.fourPages.get (by decide +kernel), (Option.some_get _).symm,
    ⟨_, rfl, by decide +kernel, fun same => ?_⟩, _, rfl, by decide +kernel, by decide +kernel⟩
  -- extent 1 has the three pages of the request, and nothing refers to it
  obtain ⟨-, -, active⟩ := same.back 1 ⟨by decide +kernel, by decide +kernel, by decide +kernel⟩
  exact absurd active (by decide +kernel)

end Engine
end Topomalloc
