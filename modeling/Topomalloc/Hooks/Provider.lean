import Topomalloc.Provider
import Topomalloc.Machine

/-! `HookProvider` of `hooks.rs` over many reservations. The hook may answer any
region. One that fails the checks, or meets a live reservation, is handed back to
the hook at once, exactly as it was answered; the others are recorded until they are
released. The flag that catches a hook calling back is left out, and a build
without debug assertions is meant. -/
namespace Topomalloc

/-- `ExtentHooks`, without the advisory calls. A hook may answer anything. -/
structure ExtentHooks (σ : Type) where
  alloc : σ → (size align : Nat) → Except BackendError Region × σ
  dealloc : σ → Region → (committed : Bool) → Except BackendError Unit × σ
  commit : σ → Region → (offset len : Nat) → Except BackendError Unit × σ
  decommit : σ → Region → (offset len : Nat) → Except BackendError Unit × σ
  purgeLazy : σ → Region → (offset len : Nat) → Except BackendError Unit × σ
  purgeForced : σ → Region → (offset len : Nat) → Except BackendError Unit × σ

/-- Hooks that back and unback whatever they are asked to. -/
def ExtentHooks.willing {σ : Type} (alloc : σ → Nat → Nat → Except BackendError Region × σ) :
    ExtentHooks σ where
  alloc := alloc
  dealloc w _ _ := (.ok (), w)
  commit w _ _ _ := (.ok (), w)
  decommit w _ _ _ := (.ok (), w)
  purgeLazy w _ _ _ := (.ok (), w)
  purgeForced w _ _ _ := (.ok (), w)

/-- `ReservationInner`. -/
structure Reservations where
  ranges : List (Nat × Nat) := []
  overflowed : Bool := false

/-- `RESERVATION_CAP`. -/
def reservationCap : Nat := 4

/-- `try_record`; `none` is the overlap. -/
def Reservations.tryRecord (l : Reservations) (base len : Nat) : Option Reservations :=
  let saturated (b n : Nat) := min (b + n) usizeMax
  if l.ranges.any fun (b, n) => decide (base < saturated b n) && decide (b < saturated base len) then none
  else if l.ranges.length < reservationCap then some { l with ranges := l.ranges ++ [(base, len)] }
  else some { l with overflowed := true }

/-- `remove`: the last range takes the place of the one removed. -/
def Reservations.remove (l : Reservations) (base : Nat) : Bool × Reservations :=
  match l.ranges.findIdx? fun range => range.1 == base with
  | some i => (true, { l with ranges := (l.ranges.set i (l.ranges.getLastD (0, 0))).dropLast })
  | none => (l.overflowed, l)

/-- Two ranges of addresses without a common one. -/
def Region.Apart (r r' : Region) : Prop := r.base + r.len ≤ r'.base ∨ r'.base + r'.len ≤ r.base

instance (r r' : Region) : Decidable (r.Apart r') := inferInstanceAs (Decidable (_ ∨ _))

/-- The state of a `HookProvider` that `reserve` and `release` use. -/
structure HookProvider where
  live : Reservations := {}
  releaseHookFailures : Nat := 0

/-- What a call of the provider answers and leaves, with the regions it handed to
the dealloc hook and the hint that went with each. -/
structure HookAnswer (σ α : Type) where
  answer : Except BackendError α
  provider : HookProvider
  world : σ
  deallocs : List (Region × Bool) := []

namespace HookProvider
variable {σ : Type} (H : ExtentHooks σ)

/-- `validate_alloc`. -/
def validateAlloc (region : Region) (size align : Nat) : Bool :=
  region.base != 0 && region.base &&& (align - 1) == 0 && decide (size ≤ region.len)

/-- Hand `region` back to the hook. -/
def dealloc (p : HookProvider) (w : σ) (region : Region) (committed : Bool) :
    Except BackendError Unit × HookProvider × σ :=
  match H.dealloc w region committed with
  | (.ok _, w) => (.ok (), p, w)
  | (.error e, w) =>
    (.error e, { p with releaseHookFailures := wrappingAdd64 p.releaseHookFailures 1 }, w)

/-- The rejection of an answer. -/
def reject (p : HookProvider) (w : σ) (region : Region) : HookAnswer σ Region :=
  let (_, p, w) := p.dealloc H w region false
  ⟨.error .invalidRequest, p, w, [(region, false)]⟩

/-- `reserve`. -/
def reserve (p : HookProvider) (w : σ) (size align : Nat) : HookAnswer σ Region :=
  if size = 0 ∨ isPowerOfTwo align = false then ⟨.error .invalidRequest, p, w, []⟩
  else match H.alloc w size align with
    | (.error e, w) => ⟨.error e, p, w, []⟩
    | (.ok region, w) =>
      if validateAlloc region size align = false then p.reject H w region
      else match p.live.tryRecord region.base region.len with
        | none => p.reject H w region
        | some live => ⟨.ok region, { p with live }, w, []⟩

/-- `release`. -/
def release (p : HookProvider) (w : σ) (region : Region) : HookAnswer σ Unit :=
  let p := { p with live := (p.live.remove region.base).2 }
  let (answer, p, w) := p.dealloc H w region true
  ⟨answer, p, w, [(region, true)]⟩

/-! ## Answers -/

variable {p : HookProvider} {w : σ} {size align : Nat} {region : Region}

theorem dealloc_live (p : HookProvider) (w : σ) (region : Region) (committed : Bool) :
    (p.dealloc H w region committed).2.1.live = p.live := by
  unfold dealloc
  split
  · rfl
  · rfl

theorem validateAlloc_eq_false (power : isPowerOfTwo align = true) :
    validateAlloc region size align = false ↔ region.base = 0 ∨ ¬align ∣ region.base ∨ region.len < size := by
  obtain ⟨k, rfl⟩ := isPowerOfTwo_iff.mp power
  rw [← Bool.not_eq_true, validateAlloc, Nat.and_two_pow_sub_one_eq_mod, Bool.and_eq_true,
    Bool.and_eq_true, bne_iff_ne, beq_iff_eq, decide_eq_true_eq, ← Nat.dvd_iff_mod_eq_zero]
  by_cases null : region.base = 0
  · simp [null]
  · by_cases aligned : 2 ^ k ∣ region.base
    · simp [null, aligned]
    · simp [null, aligned]

/-- What `reserve` does with the hook's answer. -/
inductive Reserved (H : ExtentHooks σ) (p : HookProvider) (w : σ) (size align : Nat)
    (a : HookAnswer σ Region) : Prop
  | refused (answer : a.answer = .error e) (kept : a.provider = p) (quiet : a.deallocs = [])
      (unanswered : ∀ region w', H.alloc w size align = (.ok region, w') →
        size = 0 ∨ isPowerOfTwo align = false)
  | rejected {region : Region} {w' : σ} (asked : H.alloc w size align = (.ok region, w'))
      (answer : a.answer = .error .invalidRequest) (kept : a.provider.live = p.live)
      (returned : a.deallocs = [(region, false)])
  | accepted {region : Region} {w' : σ} {live : Reservations}
      (asked : H.alloc w size align = (.ok region, w')) (answer : a.answer = .ok region)
      (pos : size ≠ 0) (nonNull : region.base ≠ 0) (aligned : align ∣ region.base)
      (long : size ≤ region.len) (recorded : p.live.tryRecord region.base region.len = some live)
      (kept : a.provider = { p with live }) (quiet : a.deallocs = [])

theorem reserve_reserved (p : HookProvider) (w : σ) (size align : Nat) :
    Reserved H p w size align (p.reserve H w size align) := by
  unfold reserve
  split
  next bad => exact .refused rfl rfl rfl fun _ _ _ => bad
  next sized =>
    rw [not_or, Bool.not_eq_false] at sized
    split
    next e w' declined =>
      exact .refused rfl rfl rfl fun region w'' answered => by
        rw [declined] at answered
        cases answered
    next region w' asked =>
      split
      · exact .rejected asked rfl (dealloc_live H p w' region false) rfl
      next valid =>
        rw [validateAlloc_eq_false sized.2, not_or, not_or, not_not, Nat.not_lt] at valid
        obtain ⟨nonNull, aligned, long⟩ := valid
        split
        · exact .rejected asked rfl (dealloc_live H p w' region false) rfl
        next live recorded =>
          exact .accepted asked rfl sized.1 nonNull aligned long recorded rfl rfl

/-! ## The recorded set -/

instance : Std.Symm Region.Apart := ⟨fun _ _ => Or.symm⟩

/-- A region as it is recorded. -/
def range (r : Region) : Nat × Nat := (r.base, r.len)

theorem range_injective : Function.Injective range := by
  rintro ⟨base, len⟩ ⟨base', len'⟩ same
  obtain ⟨rfl, rfl⟩ := Prod.mk.inj same
  rfl

/-- The provider records the live regions, which are nonempty, end below the end of
the address space, and are apart. -/
structure Records (l : Reservations) (live : List Region) : Prop where
  recorded : l.ranges.Perm (live.map range)
  whole : l.overflowed = false
  filled : ∀ r ∈ live, r.len ≠ 0
  ends : ∀ r ∈ live, r.base + r.len < 2 ^ 64
  apart : live.Pairwise Region.Apart

variable {l l' : Reservations} {live : List Region} {r : Region}

theorem Records.nodup (records : Records l live) : live.Nodup := by
  refine records.apart.imp_of_mem fun {a b} memberA memberB apart same => ?_
  subst same
  have filled := records.filled a memberA
  unfold Region.Apart at apart
  omega

/-- A region that may be recorded meets none of the live ones. -/
theorem Records.apart_of_tryRecord (records : Records l live) (ends : r.base + r.len < 2 ^ 64)
    (taken : l.tryRecord r.base r.len = some l') : ∀ a ∈ live, Region.Apart a r := by
  intro a member
  have listed : range a ∈ l.ranges := records.recorded.mem_iff.mpr (List.mem_map_of_mem member)
  unfold Reservations.tryRecord at taken
  dsimp only at taken
  split at taken
  · contradiction
  next clear =>
    rw [Bool.not_eq_true, List.any_eq_false] at clear
    have free := clear (range a) listed
    rw [Bool.and_eq_true] at free
    have clearOf : ¬(r.base < min (a.base + a.len) usizeMax ∧ a.base < min (r.base + r.len) usizeMax) :=
      fun ⟨first, second⟩ => free ⟨decide_eq_true first, decide_eq_true second⟩
    have endA := records.ends a member
    have lenA := records.filled a member
    unfold Region.Apart
    unfold usizeMax at clearOf
    omega

theorem Records.record (records : Records l live) (room : live.length < reservationCap)
    (filled : r.len ≠ 0) (ends : r.base + r.len < 2 ^ 64)
    (taken : l.tryRecord r.base r.len = some l') : Records l' (live ++ [r]) := by
  have apart := records.apart_of_tryRecord ends taken
  have length : l.ranges.length < reservationCap := by
    rw [records.recorded.length_eq, List.length_map]
    exact room
  have added : l' = { l with ranges := l.ranges ++ [range r] } := by
    unfold Reservations.tryRecord at taken
    dsimp only at taken
    split at taken
    · contradiction
    · exact (Option.some.inj taken).symm
  subst added
  refine ⟨?_, records.whole, fun b member => ?_, fun b member => ?_, ?_⟩
  · rw [List.map_append]
    exact records.recorded.append_right _
  · rcases List.mem_append.mp member with old | new
    · exact records.filled b old
    · exact List.mem_singleton.mp new ▸ filled
  · rcases List.mem_append.mp member with old | new
    · exact records.ends b old
    · exact List.mem_singleton.mp new ▸ ends
  · refine List.pairwise_append.mpr ⟨records.apart, List.pairwise_singleton _ _, fun a member b new => ?_⟩
    rw [List.mem_singleton.mp new]
    exact apart a member

/-- Putting the last entry in the place of another and dropping the end removes that
other one. -/
theorem set_last_dropLast_perm {α : Type} (d : α) {l : List α} (inside : i < l.length) :
    ((l.set i (l.getLastD d)).dropLast).Perm (l.eraseIdx i) := by
  rcases List.eq_nil_or_concat l with rfl | ⟨front, last, rfl⟩
  · exact absurd inside (Nat.not_lt_zero i)
  rw [List.concat_eq_append] at inside ⊢
  rw [List.getLastD_concat]
  by_cases early : i < front.length
  · rw [List.set_append_left _ _ early, List.dropLast_concat, List.eraseIdx_append_of_lt_length early]
    exact (List.set_perm_cons_eraseIdx early last).trans (List.perm_append_singleton _ _).symm
  · have final : i = front.length := by
      rw [List.length_append, List.length_singleton] at inside
      omega
    subst final
    rw [List.set_append_right _ _ (Nat.le_refl _), Nat.sub_self, List.set_cons_zero,
      List.dropLast_concat, List.eraseIdx_append_of_length_le (Nat.le_refl _), Nat.sub_self,
      List.eraseIdx_cons_zero, List.append_nil]

/-- The entry found by its base is the region's. -/
theorem Records.remove (records : Records l live) (member : r ∈ live) :
    Records (l.remove r.base).2 (live.erase r) := by
  have listed : range r ∈ l.ranges := records.recorded.mem_iff.mpr (List.mem_map_of_mem member)
  unfold Reservations.remove
  cases found : l.ranges.findIdx? fun range => range.1 == r.base with
  | none =>
    have missing := List.findIdx?_eq_none_iff.mp found (range r) listed
    simp [range] at missing
  | some i =>
    obtain ⟨inside, based, -⟩ := List.findIdx?_eq_some_iff_getElem.mp found
    have entry : l.ranges[i] = range r := by
      have there : l.ranges[i] ∈ live.map range := records.recorded.mem_iff.mp (List.getElem_mem inside)
      obtain ⟨a, memberA, same⟩ := List.mem_map.mp there
      rw [← same] at based ⊢
      have bases : a.base = r.base := by simpa [range] using based
      by_contra differ
      have other : a ≠ r := fun eq => differ (congrArg range eq)
      have apart : Region.Apart a r := records.apart.forall memberA member other
      have filledA := records.filled a memberA
      have filledR := records.filled r member
      unfold Region.Apart at apart
      omega
    refine ⟨?_, records.whole, fun b left => ?_, fun b left => ?_, ?_⟩
    · dsimp only
      refine (set_last_dropLast_perm (0, 0) inside).trans ?_
      have erased : (l.ranges.eraseIdx i).Perm (l.ranges.erase (range r)) := by
        have whole := List.getElem_cons_eraseIdx_perm inside
        rw [entry] at whole
        exact (whole.trans (List.perm_cons_erase listed)).cons_inv
      refine erased.trans ((records.recorded.erase _).trans (List.Perm.of_eq ?_))
      exact (List.map_erase range_injective live).symm
    · exact records.filled b (List.mem_of_mem_erase left)
    · exact records.ends b (List.mem_of_mem_erase left)
    · exact records.apart.sublist List.erase_sublist

/-! ## Runs -/

/-- A provider with the regions it accepted and has not released. -/
structure Session (σ : Type) where
  provider : HookProvider
  world : σ
  live : List Region

namespace Session

/-- After a call of `reserve`. -/
def afterReserve (s : Session σ) (size align : Nat) : Session σ :=
  let a := s.provider.reserve H s.world size align
  { provider := a.provider
    world := a.world
    live := match a.answer with
      | .ok region => s.live ++ [region]
      | .error _ => s.live }

/-- After the release of a live region. -/
def afterRelease (s : Session σ) (region : Region) : Session σ :=
  let a := s.provider.release H s.world region
  { provider := a.provider, world := a.world, live := s.live.erase region }

end Session

/-- Calls of `reserve` and releases of live regions in any order, with no more live
than the provider can record, and every accepted region ending below the end of the
address space. -/
inductive Reached (H : ExtentHooks σ) : Session σ → Prop
  | new (w : σ) : Reached H ⟨{}, w, []⟩
  | reserve {s : Session σ} (size align : Nat) (before : Reached H s)
      (room : (s.afterReserve H size align).live.length ≤ reservationCap)
      (ends : ∀ region, (s.provider.reserve H s.world size align).answer = .ok region →
        region.base + region.len < 2 ^ 64) : Reached H (s.afterReserve H size align)
  | release {s : Session σ} {region : Region} (before : Reached H s) (member : region ∈ s.live) :
      Reached H (s.afterRelease H region)

theorem Reached.records (reached : Reached H s) : Records s.provider.live s.live := by
  induction reached with
  | new w => exact ⟨List.Perm.refl _, rfl, by simp, by simp, .nil⟩
  | @reserve s size align before room ends ih =>
    unfold Session.afterReserve at room ⊢
    dsimp only at room ⊢
    cases reserve_reserved H s.provider s.world size align with
    | refused answer kept quiet unanswered =>
      rw [answer, kept]
      exact ih
    | rejected asked answer kept returned =>
      rw [answer, kept]
      exact ih
    | accepted asked answer pos nonNull aligned long recorded kept quiet =>
      rw [answer] at room ⊢
      rw [kept]
      dsimp only at room ⊢
      rw [List.length_append, List.length_singleton] at room
      exact ih.record (by omega) (by omega) (ends _ answer) recorded
  | @release s region before member ih =>
    unfold Session.afterRelease HookProvider.release
    dsimp only
    rw [dealloc_live]
    exact ih.remove member

/-- What the hook is asked and told. An accepted region is not null, aligned and long
enough; a rejected answer is handed back once, as it was. As long as the accepted
regions end below the end of the address space, the recorded set is what was
accepted and not released, an accepted region meets no live one, and a release hands
back a region that meets no other live one. -/
theorem reservations_of_reached (H : ExtentHooks σ) :
    (∀ p w size align, let a := reserve H p w size align
      (∀ region, a.answer = .ok region → region.base ≠ 0 ∧ align ∣ region.base ∧
        size ≤ region.len ∧ a.deallocs = []) ∧
      ∀ e region w', a.answer = .error e → size ≠ 0 → isPowerOfTwo align = true →
        H.alloc w size align = (.ok region, w') → a.deallocs = [(region, false)]) ∧
    ∀ s, Reached H s → s.provider.live.ranges.Perm (s.live.map range) ∧ s.live.Pairwise Region.Apart ∧
      (∀ size align region, (s.provider.reserve H s.world size align).answer = .ok region →
        region.base + region.len < 2 ^ 64 → ∀ a ∈ s.live, Region.Apart a region) ∧
      ∀ region ∈ s.live, (s.provider.release H s.world region).deallocs = [(region, true)] ∧
        ∀ a ∈ s.live.erase region, Region.Apart a region := by
  refine ⟨fun p w size align => ?_, fun s reached => ?_⟩
  · cases reserve_reserved H p w size align with
    | refused answer kept quiet unanswered =>
      refine ⟨fun region accepted => ?_, fun e region w' _ pos power asked => ?_⟩
      · rw [answer] at accepted
        cases accepted
      · rcases unanswered region w' asked with zero | odd
        · exact absurd zero pos
        · rw [power] at odd
          cases odd
    | rejected asked answer kept returned =>
      refine ⟨fun region accepted => ?_, fun e region w' _ _ _ asked' => ?_⟩
      · rw [answer] at accepted
        cases accepted
      · rw [asked] at asked'
        cases asked'
        exact returned
    | accepted asked answer pos nonNull aligned long recorded kept quiet =>
      refine ⟨fun region accepted => ?_, fun e region w' refused => ?_⟩
      · rw [answer] at accepted
        cases accepted
        exact ⟨nonNull, aligned, long, quiet⟩
      · rw [answer] at refused
        cases refused
  · have records := reached.records H
    refine ⟨records.recorded, records.apart, fun size align region answered ends => ?_,
      fun region member => ⟨rfl, fun a left => ?_⟩⟩
    · cases reserve_reserved H s.provider s.world size align with
      | refused answer => rw [answer] at answered; cases answered
      | rejected _ answer => rw [answer] at answered; cases answered
      | accepted asked answer pos nonNull aligned long recorded kept quiet =>
        rw [answer] at answered
        cases answered
        exact records.apart_of_tryRecord ends recorded
    · have nodup : s.live.Nodup := records.nodup
      obtain ⟨other, there⟩ := (nodup.mem_erase_iff).mp left
      exact records.apart.forall there member other

/-- Hooks that answer with the regions of a list, one after another. -/
def scripted : ExtentHooks (List Region) := .willing fun
    | [], _, _ => (.error .outOfMemory, [])
    | region :: rest, _, _ => (.ok region, rest)

/-- A hook that answers twice with the same page. -/
def samePage : Session (List Region) := ⟨{}, [⟨pageSize, pageSize⟩, ⟨pageSize, pageSize⟩], []⟩

/-- The second answer is rejected and handed back, and with it the region that is
still live. -/
theorem hand_back_covers_live :
    (samePage.afterReserve scripted pageSize pageSize).live = [⟨pageSize, pageSize⟩] ∧
      ((samePage.afterReserve scripted pageSize pageSize).provider.reserve scripted
        (samePage.afterReserve scripted pageSize pageSize).world pageSize pageSize).deallocs =
        [(⟨pageSize, pageSize⟩, false)] := by
  decide +kernel

/-- Past the end of the address space the check goes wrong: both regions are accepted. -/
theorem wrapped_regions_meet :
    let s : Session (List Region) := ⟨{}, [⟨2 ^ 64 - pageSize, pageSize⟩, ⟨2 ^ 64 - 1, 1⟩], []⟩
    ((s.afterReserve scripted 1 1).afterReserve scripted 1 1).live =
        [⟨2 ^ 64 - pageSize, pageSize⟩, ⟨2 ^ 64 - 1, 1⟩] ∧
      ¬Region.Apart ⟨2 ^ 64 - pageSize, pageSize⟩ ⟨2 ^ 64 - 1, 1⟩ := by
  decide +kernel

/-- Two pages are recorded; the first, when released, is handed back and is apart from
the second. -/
theorem reservations_of_reached_twoPages :
    let s : Session (List Region) := ⟨{}, [⟨pageSize, pageSize⟩, ⟨2 * pageSize, pageSize⟩], []⟩
    let t := (s.afterReserve scripted pageSize pageSize).afterReserve scripted pageSize pageSize
    Reached scripted t ∧ t.live = [⟨pageSize, pageSize⟩, ⟨2 * pageSize, pageSize⟩] ∧
      (t.provider.release scripted t.world ⟨pageSize, pageSize⟩).deallocs = [(⟨pageSize, pageSize⟩, true)] ∧
      ∀ a ∈ t.live.erase ⟨pageSize, pageSize⟩, Region.Apart a ⟨pageSize, pageSize⟩ := by
  intro s t
  have step : ∀ {s : Session (List Region)} {r : Region}, Reached scripted s →
      (s.afterReserve scripted pageSize pageSize).live.length ≤ reservationCap →
      (s.provider.reserve scripted s.world pageSize pageSize).answer = .ok r →
      r.base + r.len < 2 ^ 64 → Reached scripted (s.afterReserve scripted pageSize pageSize) := by
    intro s r before room answered ends
    refine .reserve pageSize pageSize before room fun region same => ?_
    rw [answered] at same
    cases same
    exact ends
  have reached : Reached scripted t :=
    step (step (.new _) (by decide +kernel) (r := ⟨pageSize, pageSize⟩) rfl (by decide))
      (by decide +kernel) (r := ⟨2 * pageSize, pageSize⟩) rfl (by decide)
  exact ⟨reached, by decide +kernel, ((reservations_of_reached scripted).2 t reached).2.2.2 _
    (by decide +kernel)⟩

end HookProvider
end Topomalloc
