import Mathlib.Data.List.Chain
import Mathlib.Data.List.Nodup

/-! Intrusive doubly-linked lists. A family of lists, one for each bucket,
shares a single table of links; every bucket has its own head and tail. A
distinguished index `s` plays the null link.

The head of a bucket is read as the forward link of `s` and its tail as the
backward link of `s` (`Table.nx`, `Table.pv`), so a bucket is a ring through
`s` and insertion and removal need no case split on the ends. -/
namespace Topomalloc.Links
open List Function

section Ring
variable {ι : Type*} {next prev next' prev' : ι → ι} {s x a : ι} {l l₁ l₂ : List ι}

/-- Consecutive members point at each other. -/
def Linked (next prev : ι → ι) (l : List ι) : Prop := l.IsChain fun a b => next a = b ∧ prev b = a

/-- The members `l`, in order, of a ring closed through `s`. -/
structure Ring (next prev : ι → ι) (s : ι) (l : List ι) : Prop where
  nodup : (s :: l).Nodup
  linked : Linked next prev (s :: l ++ [s])

/-- A run of links reads the forward link of every member but the last and
the backward link of every member but the first. -/
theorem Linked.congr (h : Linked next prev l) (forward : ∀ a ∈ l.dropLast, next' a = next a)
    (backward : ∀ b ∈ l.tail, prev' b = prev b) : Linked next' prev' l := by
  unfold Linked at *
  induction l with
  | nil => simp
  | cons a l ih =>
    cases l with
    | nil => simp
    | cons b l =>
      rw [isChain_cons_cons] at h ⊢
      have first := forward a (by simp)
      have second := backward b (by simp)
      refine ⟨⟨first.trans h.1.1, second.trans h.1.2⟩, ih h.2 ?_ ?_⟩
      · intro c member
        exact forward c (by simp [member])
      · intro c member
        exact backward c (by simp only [tail_cons] at member ⊢; exact mem_cons_of_mem _ member)

theorem Ring.congr (h : Ring next prev s l) (forward : ∀ a ∈ s :: l, next' a = next a)
    (backward : ∀ b ∈ s :: l, prev' b = prev b) : Ring next' prev' s l := by
  refine ⟨h.nodup, h.linked.congr ?_ ?_⟩
  · intro a member
    rw [dropLast_concat] at member
    exact forward a member
  · intro b member
    refine backward b ?_
    simpa [or_comm] using member

theorem Ring.not_mem (h : Ring next prev s l) : s ∉ l := (nodup_cons.mp h.nodup).1

theorem Ring.ne_of_mem (h : Ring next prev s l) (member : x ∈ l) : x ≠ s :=
  fun same => h.not_mem (same ▸ member)

/-- The two neighbours of a member, and the links that name them. -/
theorem Ring.neighbours (h : Ring next prev s (l₁ ++ x :: l₂)) :
    ∃ before p n after, s :: l₁ = before ++ [p] ∧ l₂ ++ [s] = n :: after ∧
      next p = x ∧ prev x = p ∧ next x = n ∧ prev n = x ∧
      Linked next prev (before ++ [p]) ∧ Linked next prev (n :: after) := by
  obtain ⟨before, p, front⟩ : ∃ before p, s :: l₁ = before ++ [p] :=
    ⟨_, _, (dropLast_append_getLast (cons_ne_nil s l₁)).symm⟩
  obtain ⟨n, after, back⟩ : ∃ n after, l₂ ++ [s] = n :: after := exists_cons_of_ne_nil (by simp)
  have linked := h.linked
  have spelled : s :: (l₁ ++ x :: l₂) ++ [s] = before ++ p :: x :: n :: after := by
    calc s :: (l₁ ++ x :: l₂) ++ [s] = (s :: l₁) ++ x :: (l₂ ++ [s]) := by simp
      _ = _ := by rw [front, back]; simp
  rw [spelled, Linked, isChain_append_cons_cons, isChain_cons_cons] at linked
  exact ⟨before, p, n, after, front, back, linked.2.1.1, linked.2.1.2, linked.2.2.1.1,
    linked.2.2.1.2, linked.1, linked.2.2.2⟩

section
variable (h : Ring next prev s l)
include h

/-- The neighbours a removal writes to are members or the null link itself. -/
theorem Ring.prev_mem (member : x ∈ l) : prev x ∈ s :: l := by
  obtain ⟨l₁, l₂, rfl⟩ := append_of_mem member
  obtain ⟨before, p, n, after, front, -, -, atPrev, -⟩ := h.neighbours
  have inFront : p ∈ s :: l₁ := by rw [front]; simp
  grind

theorem Ring.next_mem (member : x ∈ l) : next x ∈ s :: l := by
  obtain ⟨l₁, l₂, rfl⟩ := append_of_mem member
  obtain ⟨before, p, n, after, -, back, -, -, atNext, -⟩ := h.neighbours
  have inBack : n ∈ l₂ ++ [s] := by rw [back]; simp
  grind

/-- The forward link of the null link is the first member. -/
theorem Ring.first : next s = l.headD s := by
  have linked := h.linked
  cases l with
  | nil => simpa [Linked] using linked.rel_head? (x := s) (l := [s]) (by simp) |>.1
  | cons a l =>
    rw [cons_append, cons_append, Linked, isChain_cons_cons] at linked
    exact linked.1.1

/-- The backward link of the null link is the last member, whose forward link is the
null link. -/
theorem Ring.last : (s :: l).getLast? = some (prev s) ∧ next (prev s) = s := by
  obtain ⟨before, p, front⟩ : ∃ before p, s :: l = before ++ [p] :=
    ⟨_, _, (dropLast_append_getLast (cons_ne_nil s l)).symm⟩
  have linked := h.linked
  rw [front, append_assoc, cons_append, nil_append, Linked, isChain_append_cons_cons] at linked
  rw [front, linked.2.1.2, getLast?_concat]
  exact ⟨rfl, linked.2.1.1⟩

end

/-- The walk from `h`, entered from `p`, that meets `l` and ends at `s`. -/
def Path (next prev : ι → ι) (s : ι) : ι → ι → List ι → Prop
  | _, h, [] => h = s
  | p, h, a :: l => h = a ∧ prev a = p ∧ Path next prev s a (next a) l

theorem Path.congr (path : Path next prev s p h l) (nexts : ∀ a ∈ l, next' a = next a)
    (prevs : ∀ a ∈ l, prev' a = prev a) : Path next' prev' s p h l := by
  induction l generalizing p h with
  | nil => exact path
  | cons a l ih =>
    refine ⟨path.1, (prevs a (by simp)).trans path.2.1, ?_⟩
    rw [nexts a (by simp)]
    exact ih path.2.2 (fun b member => nexts b (by simp [member])) fun b member =>
      prevs b (by simp [member])

/-- A ring is met in order by walking it from the null link. -/
theorem Ring.path (h : Ring next prev s l) : Path next prev s s (next s) l := by
  have walk : ∀ (l : List ι) (p : ι), Linked next prev (p :: l ++ [s]) → Path next prev s p (next p) l := by
    intro l
    induction l with
    | nil =>
      intro p linked
      exact (linked.rel_head? (x := p) (l := [s]) (by simp)).1
    | cons a l ih =>
      intro p linked
      rw [cons_append, cons_append, Linked, isChain_cons_cons] at linked
      exact ⟨linked.1.1, linked.1.2, ih a linked.2⟩
  exact walk l s h.linked

/-- Following the forward link of a member gives the member after it. -/
theorem Ring.next_eq (h : Ring next prev s (l₁ ++ x :: l₂)) : next x = l₂.headD s := by
  obtain ⟨before, p, n, after, -, back, -, -, atNext, -⟩ := h.neighbours
  rw [atNext]
  cases l₂ with
  | nil => exact (cons.inj back).1.symm
  | cons b l₂ => exact (cons.inj back).1.symm

variable [DecidableEq ι]

/-- Joining a member's neighbours to each other removes exactly that member. -/
theorem Ring.unlink (h : Ring next prev s (l₁ ++ x :: l₂)) :
    Ring (update next (prev x) (next x)) (update prev (next x) (prev x)) s (l₁ ++ l₂) := by
  obtain ⟨before, p, n, after, front, back, -, atPrev, atNext, -, left, right⟩ := h.neighbours
  have nodup := h.nodup
  rw [atPrev, atNext]
  refine ⟨by simp only [nodup_cons, nodup_append, mem_append] at nodup ⊢; grind, ?_⟩
  have spelled : s :: (l₁ ++ l₂) ++ [s] = before ++ p :: n :: after := by
    calc s :: (l₁ ++ l₂) ++ [s] = (s :: l₁) ++ (l₂ ++ [s]) := by simp
      _ = _ := by rw [front, back]; simp
  have frontTail : (before ++ [p]).tail = l₁ := by rw [← front]; rfl
  have backInit : (n :: after).dropLast = l₂ := by rw [← back]; simp
  have pMem : p ∈ s :: l₁ := by rw [front]; simp
  have nMem : n ∈ l₂ ++ [s] := by rw [back]; simp
  have frontNodup : (before ++ [p]).Nodup := by
    rw [← front]; simp only [nodup_cons, nodup_append, mem_append] at nodup ⊢; grind
  have backNodup : (n :: after).Nodup := by
    rw [← back]; simp only [nodup_cons, nodup_append, mem_append] at nodup ⊢; grind
  rw [spelled, Linked, isChain_append_cons_cons]
  refine ⟨left.congr ?_ ?_, ⟨by simp, by simp⟩, right.congr ?_ ?_⟩
  · intro a member
    rw [dropLast_concat] at member
    exact update_of_ne (by simp only [nodup_append] at frontNodup; grind) ..
  · intro b member
    rw [frontTail] at member
    exact update_of_ne (by simp only [nodup_cons, nodup_append, mem_append] at nodup; grind) ..
  · intro a member
    rw [backInit] at member
    exact update_of_ne (by simp only [nodup_cons, nodup_append, mem_append] at nodup; grind) ..
  · intro b member
    rw [tail_cons] at member
    exact update_of_ne (by simp only [nodup_cons] at backNodup; grind) ..

/-- Linking a fresh index between the last member of `s :: l₁` and its
successor inserts exactly that index. -/
theorem Ring.link (h : Ring next prev s (l₁ ++ l₂)) (at_ : (s :: l₁).getLast? = some a)
    (fresh : x ∉ s :: (l₁ ++ l₂)) :
    Ring (update (update next x (next a)) a x) (update (update prev x a) (next a) x) s (l₁ ++ x :: l₂) := by
  obtain ⟨before, front⟩ : ∃ before, s :: l₁ = before ++ [a] := by
    rwa [getLast?_eq_some_iff] at at_
  obtain ⟨n, after, back⟩ : ∃ n after, l₂ ++ [s] = n :: after := exists_cons_of_ne_nil (by simp)
  have nodup := h.nodup
  have linked := h.linked
  have spelled : s :: (l₁ ++ l₂) ++ [s] = before ++ a :: n :: after := by
    calc s :: (l₁ ++ l₂) ++ [s] = (s :: l₁) ++ (l₂ ++ [s]) := by simp
      _ = _ := by rw [front, back]; simp
  have spelled' : s :: (l₁ ++ x :: l₂) ++ [s] = before ++ a :: x :: n :: after := by
    calc s :: (l₁ ++ x :: l₂) ++ [s] = (s :: l₁) ++ x :: (l₂ ++ [s]) := by simp
      _ = _ := by rw [front, back]; simp
  rw [spelled, Linked, isChain_append_cons_cons] at linked
  obtain ⟨left, ⟨atNext, -⟩, right⟩ := linked
  have frontTail : (before ++ [a]).tail = l₁ := by rw [← front]; rfl
  have backInit : (n :: after).dropLast = l₂ := by rw [← back]; simp
  have aMem : a ∈ s :: l₁ := by rw [front]; simp
  have nMem : n ∈ l₂ ++ [s] := by rw [back]; simp
  have frontNodup : (before ++ [a]).Nodup := by
    rw [← front]; simp only [nodup_cons, nodup_append, mem_append] at nodup ⊢; grind
  have backNodup : (n :: after).Nodup := by
    rw [← back]; simp only [nodup_cons, nodup_append, mem_append] at nodup ⊢; grind
  have beforeMem : ∀ c ∈ before, c ∈ s :: l₁ := by intro c member; rw [front]; simp [member]
  have afterMem : ∀ c ∈ after, c ∈ l₂ ++ [s] := by intro c member; rw [back]; simp [member]
  have notA : x ≠ a := by grind
  have notN : x ≠ n := by grind
  rw [atNext]
  refine ⟨by simp only [nodup_cons, nodup_append, mem_append] at nodup ⊢; grind, ?_⟩
  rw [spelled', Linked, isChain_append_cons_cons, isChain_cons_cons]
  refine ⟨Linked.congr left ?_ ?_, ⟨by simp, by simp [notN]⟩, ⟨by simp [notA], by simp⟩,
    Linked.congr right ?_ ?_⟩
  · intro c member
    rw [dropLast_concat] at member
    have notLast : c ≠ a := by simp only [nodup_append] at frontNodup; grind
    have notFresh : c ≠ x := by grind
    rw [update_of_ne notLast, update_of_ne notFresh]
  · intro c member
    rw [frontTail] at member
    have notNext : c ≠ n := by simp only [nodup_cons, nodup_append, mem_append] at nodup; grind
    have notFresh : c ≠ x := by grind
    rw [update_of_ne notNext, update_of_ne notFresh]
  · intro c member
    rw [backInit] at member
    have notLast : c ≠ a := by simp only [nodup_cons, nodup_append, mem_append] at nodup; grind
    have notFresh : c ≠ x := by grind
    rw [update_of_ne notLast, update_of_ne notFresh]
  · intro c member
    rw [tail_cons] at member
    have notNext : c ≠ n := by simp only [nodup_cons] at backNodup; grind
    have notFresh : c ≠ x := by grind
    rw [update_of_ne notNext, update_of_ne notFresh]

theorem Ring.erase (h : Ring next prev s l) (member : x ∈ l) :
    Ring (update next (prev x) (next x)) (update prev (next x) (prev x)) s (l.erase x) := by
  obtain ⟨l₁, l₂, rfl⟩ := append_of_mem member
  have notBefore : x ∉ l₁ := by
    have nodup := h.nodup
    simp only [nodup_cons, nodup_append] at nodup
    grind
  rw [erase_append_right _ notBefore, erase_cons_head]
  exact h.unlink

end Ring

section Table
variable {β ι : Type*}

/-- The links of a family of lists: a head and a tail for each bucket, and one
pair of links for each index. -/
structure Table (β ι : Type*) where
  head : β → ι
  tail : β → ι
  next : ι → ι
  prev : ι → ι

variable [DecidableEq ι]

namespace Table

/-- The forward links of bucket `b`, its head being the link of `s`. -/
def nx (k : Table β ι) (s : ι) (b : β) (i : ι) : ι := if i = s then k.head b else k.next i

/-- The backward links of bucket `b`, its tail being the link of `s`. -/
def pv (k : Table β ι) (s : ι) (b : β) (i : ι) : ι := if i = s then k.tail b else k.prev i

/-- Every bucket `b` holds exactly `L b`, in order, and no index is in two
buckets. -/
structure Holds (k : Table β ι) (s : ι) (L : β → List ι) : Prop where
  ring : ∀ b, Ring (k.nx s b) (k.pv s b) s (L b)
  apart : ∀ b c x, x ∈ L b → x ∈ L c → b = c

variable {k k' : Table β ι} {s : ι} {b c : β} {i x a v : ι} {L : β → List ι}

theorem Holds.nx_of_mem (h : Holds k s L) (member : x ∈ L b) : k.nx s b x = k.next x := by
  simp [nx, (h.ring b).ne_of_mem member]

theorem Holds.pv_of_mem (h : Holds k s L) (member : x ∈ L b) : k.pv s b x = k.prev x := by
  simp [pv, (h.ring b).ne_of_mem member]

/-- Walking a bucket from its head meets its members in order. -/
theorem Holds.path (h : Holds k s L) (b : β) : Path k.next k.prev s s (k.head b) (L b) := by
  have walk := (h.ring b).path
  rw [show k.nx s b s = k.head b by simp [nx]] at walk
  exact walk.congr (fun a member => (h.nx_of_mem member).symm)
    fun a member => (h.pv_of_mem member).symm

/-- Only the ends of the buckets and the links of their members matter. -/
theorem Holds.congr (h : Holds k s L) (heads : k'.head = k.head) (tails : k'.tail = k.tail)
    (nexts : ∀ b, ∀ x ∈ L b, k'.next x = k.next x)
    (prevs : ∀ b, ∀ x ∈ L b, k'.prev x = k.prev x) : Holds k' s L := by
  refine ⟨fun b => (h.ring b).congr ?_ ?_, h.apart⟩
  · intro a member
    rcases mem_cons.mp member with rfl | member
    · simp [nx, heads]
    · simp [nx, heads, nexts b a member]
  · intro a member
    rcases mem_cons.mp member with rfl | member
    · simp [pv, tails]
    · simp [pv, tails, prevs b a member]

variable [DecidableEq β]

def setNext (k : Table β ι) (s : ι) (b : β) (i v : ι) : Table β ι :=
  if i = s then { k with head := update k.head b v } else { k with next := update k.next i v }

def setPrev (k : Table β ι) (s : ι) (b : β) (i v : ι) : Table β ι :=
  if i = s then { k with tail := update k.tail b v } else { k with prev := update k.prev i v }

/-- Take `x` out of bucket `b`. -/
def remove (k : Table β ι) (s : ι) (b : β) (x : ι) : Table β ι :=
  (k.setNext s b (k.prev x) (k.next x)).setPrev s b (k.next x) (k.prev x)

/-- Put `x` after `a` in bucket `b`; after `s` is at the front. -/
def insertAfter (k : Table β ι) (s : ι) (b : β) (a x : ι) : Table β ι :=
  let n := k.nx s b a
  let linked := { k with next := update k.next x n, prev := update k.prev x a }
  (linked.setNext s b a x).setPrev s b n x

@[simp] theorem setNext_nx : (k.setNext s b i v).nx s b = update (k.nx s b) i v := by
  funext j
  by_cases hi : i = s <;> by_cases hj : j = s <;> by_cases hij : j = i <;>
    simp_all [nx, setNext]

@[simp] theorem setNext_pv : (k.setNext s b i v).pv s c = k.pv s c := by
  funext j
  by_cases hi : i = s <;> simp [pv, setNext, hi]

@[simp] theorem setPrev_pv : (k.setPrev s b i v).pv s b = update (k.pv s b) i v := by
  funext j
  by_cases hi : i = s <;> by_cases hj : j = s <;> by_cases hij : j = i <;>
    simp_all [pv, setPrev]

@[simp] theorem setPrev_nx : (k.setPrev s b i v).nx s c = k.nx s c := by
  funext j
  by_cases hi : i = s <;> simp [nx, setPrev, hi]

/-- Writing a forward link of one bucket leaves the others alone, apart from
the written index itself. -/
theorem setNext_nx_other (other : c ≠ b) (j : ι) (apart : j ≠ i ∨ j = s) :
    (k.setNext s b i v).nx s c j = k.nx s c j := by
  by_cases hi : i = s <;> by_cases hj : j = s <;> simp_all [nx, setNext]

theorem setPrev_pv_other (other : c ≠ b) (j : ι) (apart : j ≠ i ∨ j = s) :
    (k.setPrev s b i v).pv s c j = k.pv s c j := by
  by_cases hi : i = s <;> by_cases hj : j = s <;> simp_all [pv, setPrev]

private theorem apart_update (h : Holds k s L) (from_ : ∀ y ∈ new, y ∈ L b ∨ ∀ c, y ∉ L c) :
    ∀ c d y, y ∈ update L b new c → y ∈ update L b new d → c = d := by
  intro c d y inC inD
  have apart := h.apart
  by_cases hc : c = b <;> by_cases hd : d = b
  · rw [hc, hd]
  · subst hc
    rw [update_self] at inC
    rw [update_of_ne hd] at inD
    rcases from_ y inC with old | absent
    · exact apart _ _ y old inD
    · exact absurd inD (absent d)
  · subst hd
    rw [update_self] at inD
    rw [update_of_ne hc] at inC
    rcases from_ y inD with old | absent
    · exact apart _ _ y inC old
    · exact absurd inC (absent c)
  · rw [update_of_ne hc] at inC
    rw [update_of_ne hd] at inD
    exact apart _ _ y inC inD

theorem Holds.remove (h : Holds k s L) (member : x ∈ L b) :
    Holds (k.remove s b x) s (update L b ((L b).erase x)) := by
  have atNext := h.nx_of_mem member
  have atPrev := h.pv_of_mem member
  have nextIn := (h.ring b).next_mem member
  have prevIn := (h.ring b).prev_mem member
  rw [atNext] at nextIn
  rw [atPrev] at prevIn
  refine ⟨fun c => ?_, apart_update h fun y inErase => .inl (mem_of_mem_erase inErase)⟩
  by_cases same : c = b
  · subst same
    rw [update_self]
    simpa [Table.remove, atNext, atPrev] using (h.ring c).erase member
  · rw [update_of_ne same]
    -- a neighbour of `x` is `s` or a member of `b`, so no link of `c` is written
    have outside : ∀ y ∈ s :: L c, ∀ z ∈ s :: L b, y ≠ z ∨ y = s := by
      intro y inC z inB
      by_contra both
      simp only [not_or, not_not] at both
      obtain ⟨rfl, notNull⟩ := both
      simp only [mem_cons, notNull, false_or] at inC inB
      exact same (h.apart _ _ y inC inB)
    refine (h.ring c).congr ?_ ?_
    · intro y inC
      rw [Table.remove, setPrev_nx, setNext_nx_other same y (outside y inC _ prevIn)]
    · intro y inC
      rw [Table.remove, setPrev_pv_other same y (outside y inC _ nextIn), setNext_pv]

theorem Holds.insertAfter (h : Holds k s L) (l₁ l₂ : List ι) (split : L b = l₁ ++ l₂)
    (at_ : (s :: l₁).getLast? = some a) (fresh : ∀ c, x ∉ L c) (notNull : x ≠ s) :
    Holds (k.insertAfter s b a x) s (update L b (l₁ ++ x :: l₂)) := by
  have ring := h.ring b
  rw [split] at ring
  have inA : a ∈ s :: l₁ := mem_of_mem_getLast? at_
  have inN : k.nx s b a ∈ s :: L b := by
    by_cases null : a = s
    · subst null
      rw [(h.ring b).first]
      cases L b <;> simp
    · refine (h.ring b).next_mem ?_
      rw [split]
      grind
  refine ⟨fun c => ?_, apart_update h fun y inNew => ?_⟩
  · by_cases same : c = b
    · subst same
      rw [update_self]
      have freshHere : x ∉ s :: (l₁ ++ l₂) := by
        rw [← split]
        simp [notNull, fresh c]
      have linked := ring.link at_ freshHere
      refine linked.congr ?_ ?_ <;> intro y _ <;>
        simp only [Table.insertAfter, setPrev_nx, setNext_nx, setNext_pv, setPrev_pv] <;>
        congr 1 <;> funext z <;> by_cases hz : z = s <;> by_cases hx : z = x <;>
        simp_all [nx, pv, update_apply]
    · rw [update_of_ne same]
      have outside : ∀ y ∈ s :: L c, ∀ z ∈ s :: L b, y ≠ z ∨ y = s := by
        intro y inC z inB
        by_contra both
        simp only [not_or, not_not] at both
        obtain ⟨rfl, notSentinel⟩ := both
        simp only [mem_cons, notSentinel, false_or] at inC inB
        exact same (h.apart _ _ y inC inB)
      have notX : ∀ y ∈ s :: L c, y ≠ x := by
        intro y inC eq
        subst eq
        rcases mem_cons.mp inC with null | inC
        · exact notNull null
        · exact fresh c inC
      have inB : a ∈ s :: L b := by rw [split]; grind
      refine (h.ring c).congr ?_ ?_
      · intro y inC
        simp only [Table.insertAfter, setPrev_nx]
        rw [setNext_nx_other same y (outside y inC _ inB)]
        simp [nx, update_of_ne (notX y inC)]
      · intro y inC
        simp only [Table.insertAfter]
        rw [setPrev_pv_other same y (outside y inC _ inN), setNext_pv]
        simp [pv, update_of_ne (notX y inC)]
  · rw [split]
    by_cases isX : y = x
    · exact .inr (isX ▸ fresh)
    · left
      simp only [mem_append, mem_cons, isX, false_or] at inNew
      exact mem_append.mpr inNew

/-- Insertion at the front of a bucket. -/
theorem Holds.pushFront (h : Holds k s L) (fresh : ∀ c, x ∉ L c) (notNull : x ≠ s) :
    Holds (k.insertAfter s b s x) s (update L b (x :: L b)) :=
  h.insertAfter [] (L b) (by simp) (by simp) fresh notNull

/-- Insertion at the back of a bucket. -/
theorem Holds.pushBack (h : Holds k s L) (fresh : ∀ c, x ∉ L c) (notNull : x ≠ s) :
    Holds (k.insertAfter s b (k.tail b) x) s (update L b (L b ++ [x])) :=
  h.insertAfter (L b) [] (by simp) (by simpa [pv] using (h.ring b).last.1) fresh notNull

end Table
end Table

section Filed
variable {β ι : Type*} {L : β → List ι} {S S' : ι → Prop} {f f' : ι → β} {x : ι}

/-- The buckets hold exactly the indices of `S`, each in the bucket `f` names. -/
def Filed (L : β → List ι) (S : ι → Prop) (f : ι → β) : Prop := ∀ b i, i ∈ L b ↔ S i ∧ f i = b

theorem Filed.congr (h : Filed L S f) (sets : ∀ i, S' i ↔ S i) (bucket : ∀ i, S i → f' i = f i) :
    Filed L S' f' := by
  intro b i
  rw [h b i, sets i]
  constructor
  · rintro ⟨inS, rfl⟩
    exact ⟨inS, bucket i inS⟩
  · rintro ⟨inS, rfl⟩
    exact ⟨inS, (bucket i inS).symm⟩

variable [DecidableEq β]

/-- Any list with one more member than the bucket had files that member. -/
theorem Filed.insert (h : Filed L S f) (members : ∀ i, i ∈ l ↔ i = x ∨ i ∈ L (f x)) :
    Filed (update L (f x) l) (fun i => S i ∨ i = x) f := by
  intro b i
  by_cases here : b = f x
  · subst here
    rw [update_self, members, h (f x) i]
    constructor
    · rintro (rfl | ⟨inS, eq⟩)
      · exact ⟨.inr rfl, rfl⟩
      · exact ⟨.inl inS, eq⟩
    · rintro ⟨inS | rfl, eq⟩
      · exact .inr ⟨inS, eq⟩
      · exact .inl rfl
  · rw [update_of_ne here, h b i]
    constructor
    · rintro ⟨inS, rfl⟩
      exact ⟨.inl inS, rfl⟩
    · rintro ⟨inS | rfl, rfl⟩
      · exact ⟨inS, rfl⟩
      · exact absurd rfl here

variable [DecidableEq ι]

theorem Filed.erase (h : Filed L S f) (nodup : (L (f x)).Nodup) :
    Filed (update L (f x) ((L (f x)).erase x)) (fun i => S i ∧ i ≠ x) f := by
  intro b i
  by_cases here : b = f x
  · subst here
    rw [update_self, nodup.mem_erase_iff, h (f x) i]
    tauto
  · rw [update_of_ne here, h b i]
    constructor
    · rintro ⟨inS, rfl⟩
      exact ⟨⟨inS, fun same => here (same ▸ rfl)⟩, rfl⟩
    · rintro ⟨⟨inS, -⟩, rfl⟩
      exact ⟨inS, rfl⟩

end Filed

section Stack
variable {ι : Type*} {next next' : ι → ι} {s h : ι} {l : List ι}

/-- The members met from `h` by following `next` until the null link `s`. -/
def Stack (next : ι → ι) (s : ι) : ι → List ι → Prop
  | h, [] => h = s
  | h, a :: l => h = a ∧ Stack next s (next a) l

theorem Stack.congr (stack : Stack next s h l) (same : ∀ a ∈ l, next' a = next a) : Stack next' s h l := by
  induction l generalizing h with
  | nil => exact stack
  | cons a l ih =>
    refine ⟨stack.1, ?_⟩
    rw [same a (by simp)]
    exact ih stack.2 fun b member => same b (by simp [member])

/-- A stack whose head is a real index has that index on top. -/
theorem Stack.pop (stack : Stack next s h l) (some : h ≠ s) :
    ∃ rest, l = h :: rest ∧ Stack next s (next h) rest := by
  cases l with
  | nil => exact absurd stack some
  | cons a rest =>
    obtain ⟨rfl, below⟩ := stack
    exact ⟨rest, rfl, below⟩

end Stack
end Topomalloc.Links
