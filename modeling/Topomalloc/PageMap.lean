import Topomalloc.Huge.Filler

/-! What the engine is built over, and the page map of `pagemap.rs`.

The page map is a radix tree from page numbers to owners. Its nodes come from
the metadata source, so growing it can fail; nodes are never given back, so a
range whose leaves exist can always be written. -/
namespace Topomalloc

/-- Everything the engine calls and does not own, over one state `σ`, with the
switches of the build and of the deterministic mode. Every answer is arbitrary.
`metaOk` is the metadata source: whether its next request is served. -/
structure Env (σ : Type) where
  provider : Provider σ
  hook : RegionCacheHook σ
  metaOk : σ → Bool × σ
  currentCore : σ → Nat × σ
  draw : σ → Nat × σ
  guardSampled : σ → Bool × σ
  learned : σ → Nat → PlaceHints
  metadata : Nat → Bool
  quarantine : Bool
  guardPages : Bool
  secureScrub : Bool
  junkFill : Bool
  forceSlow : Bool
  forcePurge : Bool

/-- Nothing fails, nothing is cached, and no hardening is switched on. -/
def Env.willing {σ : Type} : Env σ where
  provider := .willing
  hook := noRegionCache σ
  metaOk w := (true, w)
  currentCore w := (0, w)
  draw w := (0, w)
  guardSampled w := (false, w)
  learned _ _ := {}
  metadata _ := false
  quarantine := false
  guardPages := false
  secureScrub := false
  junkFill := false
  forceSlow := false
  forcePurge := false

/-- A property of the state that every call but those to the region cache
keeps. -/
structure Env.Keeps {σ : Type} (E : Env σ) (I : σ → Prop) : Prop where
  metaOk : ∀ w, I w → I (E.metaOk w).2
  currentCore : ∀ w, I w → I (E.currentCore w).2
  draw : ∀ w, I w → I (E.draw w).2
  guardSampled : ∀ w, I w → I (E.guardSampled w).2
  commit : ∀ w r offset len, I w → I (E.provider.commit w r offset len).2
  decommit : ∀ w r offset len, I w → I (E.provider.decommit w r offset len).2
  protect : ∀ w r offset len accessible, I w → I (E.provider.protect w r offset len accessible).2
  revoke : ∀ w arena r, I w → I (E.provider.revokeDescendants w arena r).2

/-- `w'` is reached from `w` without a call to the region cache. -/
def Env.Idle {σ : Type} (E : Env σ) (w w' : σ) : Prop := ∀ I, E.Keeps I → I w → I w'

namespace Env.Idle
variable {σ : Type} {E : Env σ} {w w' w'' : σ}

theorem refl : E.Idle w w := fun _ _ h => h

theorem trans (h : E.Idle w w') (h' : E.Idle w' w'') : E.Idle w w'' :=
  fun I keeps start => h' I keeps (h I keeps start)

variable {r : Region} {offset len arena : Nat} {answer : Except BackendError Unit}

theorem ofCommit (asked : E.provider.commit w r offset len = (answer, w')) : E.Idle w w' :=
  fun I keeps start => by simpa [asked] using keeps.commit w r offset len start

theorem ofDecommit (asked : E.provider.decommit w r offset len = (answer, w')) : E.Idle w w' :=
  fun I keeps start => by simpa [asked] using keeps.decommit w r offset len start

theorem ofProtect (asked : E.provider.protect w r offset len accessible = (answer, w')) : E.Idle w w' :=
  fun I keeps start => by simpa [asked] using keeps.protect w r offset len accessible start

theorem ofRevoke (asked : E.provider.revokeDescendants w arena r = (answer, w')) : E.Idle w w' :=
  fun I keeps start => by simpa [asked] using keeps.revoke w arena r start

end Env.Idle

/-- The metadata source was asked until it refused (`false`), or granted every request
there was. -/
inductive Env.Asked {σ : Type} (E : Env σ) : σ → Bool → σ → Prop
  | done (w : σ) : Asked E w true w
  | refused {w w' : σ} (asked : E.metaOk w = (false, w')) : Asked E w false w'
  | granted {w mid w' : σ} {ok : Bool} (asked : E.metaOk w = (true, mid)) (rest : Asked E mid ok w') :
      Asked E w ok w'

namespace Env.Asked
variable {σ : Type} {E : Env σ} {w mid w' : σ} {ok : Bool}

theorem trans (first : E.Asked w true mid) (rest : E.Asked mid ok w') : E.Asked w ok w' := by
  generalize yes : true = all at first
  induction first with
  | done => exact rest
  | refused => contradiction
  | granted asked _ ih => exact .granted asked (ih rest yes)

theorem idle (asked : E.Asked w ok w') : E.Idle w w' := by
  intro I keeps start
  induction asked with
  | done => exact start
  | refused asked => simpa [asked] using keeps.metaOk _ start
  | granted asked _ ih => exact ih (by simpa [asked] using keeps.metaOk _ start)

end Env.Asked

inductive PageEntry
  | empty
  | small (span : Nat)
  | large (desc : Nat)
  | released (span : Nat)
  deriving DecidableEq, Repr, Inhabited

/-- `page_of`. -/
def pageOf (addr : Nat) : Nat := addr / pageSize

/-- Membership in `page_range`. -/
def inPages (base stop p : Nat) : Bool :=
  decide (base < stop) && decide (pageOf base ≤ p) && decide (p ≤ pageOf (stop - 1))

/-- `page_range`. -/
def pageRange (base stop : Nat) : List Nat :=
  if stop ≤ base then [] else List.range' (pageOf base) (pageOf (stop - 1) - pageOf base + 1)

/-- The nodes on the way from the root to the leaf of page `p`, each by its
level and the page-number bits above it. -/
def nodePath (p : Nat) : List (Nat × Nat) :=
  [(5, 0), (4, p / 2 ^ 40), (3, p / 2 ^ 30), (2, p / 2 ^ 20), (1, p / 2 ^ 10)]

/-- A page map: the nodes that exist, and the entries. Only a page whose leaf
exists has an owner. -/
structure PageMap where
  nodes : Nat × Nat → Bool
  entries : Nat → PageEntry
  rooted : ∀ p, entries p ≠ .empty → (nodePath p).all nodes = true

namespace PageMap

def new : PageMap where
  nodes _ := false
  entries _ := .empty
  rooted _ h := absurd rfl h

/-- `find_leaf` finds a leaf. -/
def findLeaf (m : PageMap) (p : Nat) : Bool := (nodePath p).all m.nodes

def lookup (m : PageMap) (addr : Nat) : PageEntry :=
  if m.findLeaf (pageOf addr) then m.entries (pageOf addr) else .empty

def addNode (m : PageMap) (node : Nat × Nat) : PageMap where
  nodes n := m.nodes n || decide (n = node)
  entries := m.entries
  rooted p owned := by
    have leaf := m.rooted p owned
    simp only [List.all_eq_true, Bool.or_eq_true] at leaf ⊢
    exact fun n member => .inl (leaf n member)

theorem addNode_nodes (m : PageMap) (node n : Nat × Nat) :
    (m.addNode node).nodes n = (m.nodes n || decide (n = node)) := rfl

theorem addNode_entries (m : PageMap) (node : Nat × Nat) : (m.addNode node).entries = m.entries := rfl

variable {σ : Type} (E : Env σ)

/-- The loop of `leaf_or_create` over the rest of the path. -/
def createPath (m : PageMap) (w : σ) : List (Nat × Nat) → Bool × PageMap × σ
  | [] => (true, m, w)
  | node :: rest =>
    if m.nodes node then m.createPath w rest
    else match E.metaOk w with
      | (false, w) => (false, m, w)
      | (true, w) => (m.addNode node).createPath w rest

/-- `leaf_or_create`. -/
def leafOrCreate (m : PageMap) (w : σ) (p : Nat) : Bool × PageMap × σ := m.createPath E w (nodePath p)

/-- The first phase of `publish_range`, which is all of `reserve_large_range`. -/
def reservePages (m : PageMap) (w : σ) : List Nat → Bool × PageMap × σ
  | [] => (true, m, w)
  | p :: rest =>
    match m.leafOrCreate E w p with
    | (false, m, w) => (false, m, w)
    | (true, m, w) => m.reservePages w rest

/-- Rewrite the entries of a byte range, where the leaf exists. -/
def rewrite (m : PageMap) (base stop : Nat) (f : PageEntry → PageEntry) : PageMap where
  nodes := m.nodes
  entries p := if inPages base stop p && m.findLeaf p then f (m.entries p) else m.entries p
  rooted p owned := by
    by_cases written : (inPages base stop p && m.findLeaf p) = true
    · exact (Bool.and_eq_true_iff.mp written).2
    · exact m.rooted p (by simpa only [if_neg written] using owned)

/-- `publish_range`: no entry changes unless every leaf exists. -/
def publishRange (m : PageMap) (w : σ) (base stop : Nat) (entry : PageEntry) : Bool × PageMap × σ :=
  match m.reservePages E w (pageRange base stop) with
  | (false, m, w) => (false, m, w)
  | (true, m, w) =>
    (true, m.rewrite base stop fun prior => if prior = .empty ∨ prior = entry then entry else prior, w)

/-- `overwrite_existing_range`. -/
def overwriteRange (m : PageMap) (base stop : Nat) (entry : PageEntry) : PageMap :=
  m.rewrite base stop fun _ => entry

/-! ## What the operations do -/

variable {E} {m m' : PageMap} {w w' : σ} {p base stop : Nat} {entry : PageEntry} {ok : Bool}

theorem lookup_eq (m : PageMap) (addr : Nat) : m.lookup addr = m.entries (pageOf addr) := by
  unfold lookup
  split
  · rfl
  · rename_i noLeaf
    by_contra owned
    exact noLeaf (m.rooted _ (Ne.symm owned))

theorem mem_pageRange : p ∈ pageRange base stop ↔ inPages base stop p = true := by
  simp only [pageRange, inPages, Bool.and_eq_true, decide_eq_true_eq]
  split
  · simp
    omega
  · have ordered : pageOf base ≤ pageOf (stop - 1) := Nat.div_le_div_right (by omega)
    rw [List.mem_range'_1]
    omega

/-- Leaves were added at most: no entry changed, and what could be written
still can. -/
structure Extends (m m' : PageMap) : Prop where
  entries : m'.entries = m.entries
  leaf : ∀ p, m.findLeaf p = true → m'.findLeaf p = true

theorem Extends.refl : Extends m m := ⟨rfl, fun _ leaf => leaf⟩

theorem Extends.trans (h : Extends m m') (h' : Extends m' m'') : Extends m m'' :=
  ⟨h'.entries.trans h.entries, fun p leaf => h'.leaf p (h.leaf p leaf)⟩

theorem addNode_extends (node : Nat × Nat) : Extends m (m.addNode node) := by
  refine ⟨rfl, fun p leaf => ?_⟩
  simp only [findLeaf, addNode, List.all_eq_true, Bool.or_eq_true] at leaf ⊢
  exact fun n member => .inl (leaf n member)

theorem createPath_nodes (ran : m.createPath E w path = (ok, m', w'))
    (node : Nat × Nat) (there : m.nodes node = true) : m'.nodes node = true := by
  induction path generalizing m w with
  | nil =>
    simp only [createPath, Prod.mk.injEq] at ran
    rw [← ran.2.1]
    exact there
  | cons next rest ih =>
    simp only [createPath] at ran
    split at ran
    · exact ih ran there
    · split at ran
      · cases ran
        exact there
      · exact ih ran (by simp [addNode, there])

theorem createPath_spec (ran : m.createPath E w path = (ok, m', w')) :
    Extends m m' ∧ E.Asked w ok w' ∧ (ok = true → path.all m'.nodes = true) ∧
      (path.all m.nodes = true → ok = true ∧ m' = m) := by
  induction path generalizing m w with
  | nil =>
    simp only [createPath, Prod.mk.injEq] at ran
    obtain ⟨rfl, rfl, rfl⟩ := ran
    exact ⟨.refl, .done w, fun _ => rfl, fun _ => ⟨rfl, rfl⟩⟩
  | cons node rest ih =>
    simp only [createPath] at ran
    split at ran
    · rename_i there
      obtain ⟨extended, asked, complete, kept⟩ := ih ran
      refine ⟨extended, asked, fun done => ?_, fun all => ?_⟩
      · have grown := createPath_nodes ran node there
        simp [grown, complete done]
      · simp only [List.all_cons, Bool.and_eq_true] at all
        exact kept all.2
    · rename_i missing
      split at ran
      · rename_i w₁ asked
        cases ran
        refine ⟨.refl, .refused asked, nofun, fun all => ?_⟩
        simp [missing] at all
      · rename_i w₁ asked
        obtain ⟨extended, rest, complete, -⟩ := ih ran
        refine ⟨(addNode_extends node).trans extended, .granted asked rest, fun done => ?_, fun all => ?_⟩
        · have grown := createPath_nodes ran node (by simp [addNode])
          simp [grown, complete done]
        · simp [missing] at all

theorem reservePages_spec (ran : m.reservePages E w pages = (ok, m', w')) :
    Extends m m' ∧ E.Asked w ok w' ∧ (ok = true → ∀ p ∈ pages, m'.findLeaf p = true) ∧
      ((∀ p ∈ pages, m.findLeaf p = true) → ok = true ∧ m' = m) := by
  induction pages generalizing m w with
  | nil =>
    simp only [reservePages, Prod.mk.injEq] at ran
    obtain ⟨rfl, rfl, rfl⟩ := ran
    exact ⟨.refl, .done w, fun _ p member => absurd member (by simp), fun _ => ⟨rfl, rfl⟩⟩
  | cons p rest ih =>
    simp only [reservePages] at ran
    split at ran
    · rename_i m₁ w₁ made
      cases ran
      obtain ⟨extended, asked, -, kept⟩ := createPath_spec made
      exact ⟨extended, asked, nofun, fun all => absurd (kept (all p (by simp))).1 nofun⟩
    · rename_i m₁ w₁ made
      obtain ⟨extended, asked, complete, kept⟩ := createPath_spec made
      obtain ⟨extended', asked', complete', kept'⟩ := ih ran
      refine ⟨extended.trans extended', asked.trans asked', fun done q member => ?_, fun all => ?_⟩
      · rcases List.mem_cons.mp member with rfl | later
        · exact extended'.leaf q (complete rfl)
        · exact complete' done q later
      · obtain ⟨-, rfl⟩ := kept (all p (by simp))
        exact kept' fun q later => all q (by simp [later])

/-- Publishing a range fails with no entry changed, or gives the pages of the
range that were free to the new owner. Where the leaves exist it succeeds. -/
theorem publishRange_spec (ran : m.publishRange E w base stop entry = (ok, m', w')) :
    E.Asked w ok w' ∧ (∀ p, m.findLeaf p = true → m'.findLeaf p = true) ∧
      (ok = false → m'.entries = m.entries) ∧
      (ok = true → ∀ p, m'.entries p =
        if inPages base stop p = true ∧ (m.entries p = .empty ∨ m.entries p = entry) then entry
        else m.entries p) ∧
      ((∀ p, inPages base stop p = true → m.findLeaf p = true) → ok = true) := by
  simp only [publishRange] at ran
  split at ran
  · rename_i m₁ w₁ reserved
    cases ran
    obtain ⟨extended, asked, -, kept⟩ := reservePages_spec reserved
    refine ⟨asked, extended.leaf, fun _ => extended.entries, nofun, fun leaves => ?_⟩
    exact (kept fun p member => leaves p (mem_pageRange.mp member)).1
  · rename_i m₁ w₁ reserved
    cases ran
    obtain ⟨extended, asked, complete, -⟩ := reservePages_spec reserved
    refine ⟨asked, extended.leaf, nofun, fun _ p => ?_, fun _ => rfl⟩
    simp only [rewrite, extended.entries]
    by_cases inside : inPages base stop p = true
    · simp only [inside, complete rfl p (mem_pageRange.mpr inside), Bool.and_self, ↓reduceIte, true_and]
    · simp [inside]

/-- After a publish every page of the range has its leaf. -/
theorem publishRange_leaf (ran : m.publishRange E w base stop entry = (true, m', w')) (p : Nat)
    (inside : inPages base stop p = true) : m'.findLeaf p = true := by
  simp only [publishRange] at ran
  split at ran
  · cases ran
  · rename_i m₁ w₁ reserved
    cases ran
    exact (reservePages_spec reserved).2.2.1 rfl p (mem_pageRange.mpr inside)

/-- Emptying a range empties exactly its pages. -/
theorem overwriteRange_empty (m : PageMap) (base stop p : Nat) :
    (m.overwriteRange base stop .empty).entries p =
      if inPages base stop p = true then .empty else m.entries p := by
  simp only [overwriteRange, rewrite, Bool.and_eq_true]
  by_cases inside : inPages base stop p = true
  · by_cases leaf : m.findLeaf p = true
    · simp [inside, leaf]
    · have unowned : m.entries p = .empty := by
        by_contra owned
        exact leaf (m.rooted p owned)
      simp [inside, leaf, unowned]
  · simp [inside]

theorem overwriteRange_leaf (m : PageMap) (base stop p : Nat) (entry : PageEntry) :
    (m.overwriteRange base stop entry).findLeaf p = m.findLeaf p := rfl

/-- Pages outside an overwritten range keep their owner. -/
theorem overwriteRange_of_not_mem (outside : inPages base stop p = false) :
    (m.overwriteRange base stop entry).entries p = m.entries p := by
  simp [overwriteRange, rewrite, outside]

end PageMap
end Topomalloc
