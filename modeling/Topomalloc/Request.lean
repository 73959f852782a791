import Topomalloc.SizeClass
import Topomalloc.Huge.Filler

/-! Request flags (`flags.rs`), placement classes (`placement.rs`) and request
classification (`classify.rs`). -/
namespace Topomalloc

/-! ## Flags -/

/-- `RequestFlags::from_raw` accepts the word: no reserved bit is set, and not
both hugepage bits. -/
def acceptsRaw (raw : Nat) : Bool := raw < 2 ^ 23 && !(raw.testBit 3 && raw.testBit 4)

/-- A flag word that `from_raw` accepted. -/
structure RequestFlags where
  raw : Nat
  accepted : acceptsRaw raw = true
  deriving DecidableEq

namespace RequestFlags

/-- `RequestFlags::NONE`. -/
def none : RequestFlags := ⟨0, by decide⟩

def zero (f : RequestFlags) : Bool := f.raw.testBit 0

def cacheBypass (f : RequestFlags) : Bool := f.raw.testBit 1

def guarded (f : RequestFlags) : Bool := f.raw.testBit 2

def hugepage (f : RequestFlags) : HugepagePolicy :=
  if f.raw.testBit 3 then .avoid else if f.raw.testBit 4 then .prefer else .default

def lifetime (f : RequestFlags) : Lifetime :=
  match f.raw / 2 ^ 5 % 4 with
  | 1 => .short
  | 2 => .medium
  | 3 => .long
  | _ => .unspecified

def hotness (f : RequestFlags) : Nat := f.raw / 2 ^ 7 % 256

/-- `RequestFlags::arena`: the field holds the id plus one, zero meaning the
default arena. -/
def arena (f : RequestFlags) : Nat := f.raw / 2 ^ 15 % 256 - 1

/-- The hints a region cache reads. -/
def hints (f : RequestFlags) : Hints :=
  { hugepage := f.hugepage, lifetime := f.lifetime, hotness := f.hotness }

end RequestFlags

/-! ## Placement classes -/

/-- `PlaceClass::from_hints(..).as_u8()`. -/
def placeClass (h : PlaceHints) : Nat :=
  match h.hotness with
  | .hot => 2
  | .cold => 1
  | .neutral =>
    match h.lifetime with
    | .long => 2
    | .short => 3
    | _ => 0

/-- `ANY_PLACE_CLASS`. -/
def anyPlaceClass : Nat := 255

/-- `Allocator::unhinted_place_class`. -/
def unhintedPlaceClass : Nat := placeClass { hotness := .fromHint 0, lifetime := .unspecified }

/-- `Allocator::apply_learned`: what was learned of a bucket fills in a request
that carries no placement hint. -/
def applyLearned (learned : PlaceHints) (h : Hints) : Hints :=
  if h.hotness ≠ 0 ∨ h.lifetime ≠ .unspecified then h
  else if learned = {} then h
  else
    { h with
      hotness := match learned.hotness with
        | .cold => 0
        | .neutral => 64
        | .hot => 200
      lifetime := learned.lifetime }

/-! ## Classification -/

/-- `RequestKind`. -/
inductive RequestKind
  | small (sc usable : Nat)
  | medium (bytes : Nat)
  | large (bytes : Nat)
  deriving DecidableEq, Repr

/-- `classify`, for a flag word that was accepted. The arena and the flags of
the source's `Request` are those of the word, and its label is always public. -/
def classify (size align : Nat) : Option RequestKind :=
  if isPowerOfTwo align = false then none
  else
    let effective := if size = 0 then 1 else size
    match sizeClass effective align with
    | some sc => some (.small sc (row sc).size)
    | none =>
      let span := max effective align
      (alignUp span pageSize).map fun bytes =>
        if span ≥ hugeThreshold then .large bytes else .medium bytes

/-- `medium_large_usable`. -/
def mediumLargeUsable (size : Nat) : Option Nat := alignUp (if size = 0 then 1 else size) pageSize

/-- `SizeClassDist::BUCKET_MEDIUM` and `BUCKET_LARGE` come after the small
classes, which are their own buckets. -/
def RequestKind.bucket : RequestKind → Nat
  | .small sc _ => sc
  | .medium _ => numSizeClasses
  | .large _ => numSizeClasses + 1

end Topomalloc
