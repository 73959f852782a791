/-! The seams below the allocator: the backing provider of `backend.rs` and the
region-cache hook of `extent.rs`.

A provider is arbitrary: its calls are functions of a state `σ` that nothing
above the seam inspects, so a statement for every `σ` and every provider covers
every pattern of successes and failures. The two seams share the state, since a
hugepage backend is a region cache over the same provider. -/
namespace Topomalloc

/-- A reserved address range. -/
structure Region where
  base : Nat
  len : Nat
  deriving DecidableEq, Repr

inductive BackendError
  | outOfMemory
  | invalidRequest
  | unsupported
  deriving DecidableEq, Repr

/-- `TopoBackingProvider`, without the reservation calls, which only
construction and teardown make. -/
structure Provider (σ : Type) where
  commit : σ → Region → (offset len : Nat) → Except BackendError Unit × σ
  decommit : σ → Region → (offset len : Nat) → Except BackendError Unit × σ
  purgeLazy : σ → Region → (offset len : Nat) → Except BackendError Unit × σ
  purgeForced : σ → Region → (offset len : Nat) → Except BackendError Unit × σ
  protect : σ → Region → (offset len : Nat) → (accessible : Bool) → Except BackendError Unit × σ
  revokeDescendants : σ → (arena : Nat) → Region → Except BackendError Unit × σ
  committedMemoryIsZeroed : Bool

/-- The provider went from one state to another without changing the memory it
backs: it refused what it was asked, or revoked. -/
inductive Provider.Spared {σ : Type} (P : Provider σ) (w : σ) : σ → Prop
  | refl : P.Spared w w
  | commit (h : P.Spared w w') (refused : P.commit w' region offset len = (.error err, w'')) : P.Spared w w''
  | decommit (h : P.Spared w w')
      (refused : P.decommit w' region offset len = (.error err, w'')) : P.Spared w w''
  | purgeLazy (h : P.Spared w w')
      (refused : P.purgeLazy w' region offset len = (.error err, w'')) : P.Spared w w''
  | purgeForced (h : P.Spared w w')
      (refused : P.purgeForced w' region offset len = (.error err, w'')) : P.Spared w w''
  | revoke (h : P.Spared w w') (revoked : P.revokeDescendants w' arena region = (answer, w'')) :
      P.Spared w w''

/-- A provider that never fails. -/
def Provider.willing {σ : Type} : Provider σ where
  commit w _ _ _ := (.ok (), w)
  decommit w _ _ _ := (.ok (), w)
  purgeLazy w _ _ _ := (.ok (), w)
  purgeForced w _ _ _ := (.ok (), w)
  protect w _ _ _ _ := (.ok (), w)
  revokeDescendants w _ _ := (.ok (), w)
  committedMemoryIsZeroed := true

/-! ## Placement hints (`flags.rs`) -/

inductive Lifetime
  | unspecified
  | short
  | medium
  | long
  deriving DecidableEq, Repr, Inhabited

inductive HugepagePolicy
  | default
  | avoid
  | prefer
  deriving DecidableEq, Repr, Inhabited

/-- The fields of `Hints` that a region cache reads. -/
structure Hints where
  hugepage : HugepagePolicy := .default
  lifetime : Lifetime := .unspecified
  hotness : Nat := 0
  deriving DecidableEq, Repr, Inhabited

/-- `RegionCacheHook`. -/
structure RegionCacheHook (σ : Type) where
  tryAlloc : σ → (bytes align : Nat) → Hints → Option Region × σ
  tryCache : σ → Region → Bool × σ
  tryCacheRevoking : σ → Region → (arena : Nat) → Bool × σ
  tryTrim : σ → Region → (newLen : Nat) → Option Nat × σ

/-- `NoRegionCache`: every call declines. -/
def noRegionCache (σ : Type) : RegionCacheHook σ where
  tryAlloc w _ _ _ := (none, w)
  tryCache w _ := (false, w)
  tryCacheRevoking w _ _ := (false, w)
  tryTrim w _ _ := (none, w)

end Topomalloc
