import Topomalloc.Engine.State

/-! The residency bits of a span (`span.rs`), the central lists (`central.rs`), and
the creation and retirement of spans (`allocator.rs`).

The source's `u32` counter of live slots wraps in a release build, and so does
the one here. -/
namespace Topomalloc

namespace Engine
open Function

variable {σ : Type} (E : Env σ) (s : Engine σ)

/-! ## Residency bits -/

/-- `FreeBitmap::new_for`, as the words it has. -/
def newWords (w : σ) (n : Nat) : Option Nat × σ :=
  if bitmapWords n ≤ inlineWords then (some inlineWords, w)
  else match E.metaOk w with
    | (false, w) => (none, w)
    | (true, w) => (some (bitmapWords n), w)

/-- The three bitmaps of `SpanDescriptor::new`. -/
def newBits (w : σ) (n : Nat) : Option SpanBits × σ :=
  match newWords E w n with
  | (none, w) => (none, w)
  | (some freeWords, w) =>
    match if E.quarantine then newWords E w n else (some 0, w) with
    | (none, w) => (none, w)
    | (some quarantinedWords, w) =>
      match E.metaOk w with
      | (false, w) => (none, w)
      | (true, w) => (some { freeWords, quarantinedWords, cachedWords := bitmapWords n }, w)

/-- `recycle_to` of either bitmap: whether the words suffice or could grow. -/
def recycleWords (w : σ) (words n : Nat) : Bool × Nat × σ :=
  if bitmapWords n > words then
    match E.metaOk w with
    | (false, w) => (false, words, w)
    | (true, w) => (true, bitmapWords n, w)
  else (true, words, w)

/-- The bitmap half of `SpanDescriptor::recycle`. A bitmap that cannot grow
leaves those before it cleared. -/
def recycleBits (w : σ) (b : SpanBits) (n : Nat) : Bool × SpanBits × σ :=
  match recycleWords E w b.freeWords n with
  | (false, _, w) => (false, b, w)
  | (true, freeWords, w) =>
    let b := { b with freeWords, free := fun _ => false }
    match if E.quarantine then recycleWords E w b.quarantinedWords n else (true, b.quarantinedWords, w) with
    | (false, _, w) => (false, b, w)
    | (true, quarantinedWords, w) =>
      let b := { b with quarantinedWords, quarantined := fun _ => false }
      match recycleWords E w b.cachedWords n with
      | (false, _, w) => (false, b, w)
      | (true, cachedWords, w) =>
        (true, { b with cachedWords, cached := fun _ => false, liveCount := 0, centralFree := 0,
                        placeClass := 0 }, w)

/-- `try_mark_cached`. -/
def tryMarkCached (i k : Nat) : Bool × Engine σ :=
  let b := s.bits i
  if k ≥ (s.span i).objectCount ∨ b.cached k = true then (false, s)
  else (true, s.setBits i { b with cached := update b.cached k true })

/-- `unmark_cached`. -/
def unmarkCached (i k : Nat) : Bool × Engine σ :=
  let b := s.bits i
  if k ≥ (s.span i).objectCount ∨ b.cached k = false then (false, s)
  else (true, s.setBits i { b with cached := update b.cached k false })

/-! ## The central lists -/

/-- The central lists and the descriptors they move. -/
def core : Central := ⟨s.spans.slots, s.bits, s.central⟩

def setCore (c : Central) : Engine σ :=
  { s with spans := { s.spans with slots := c.slots }, bits := c.bits, central := c.bins }

/-- `remove_batch`. -/
def removeBatch (arena sc cls desired : Nat) : Option (Nat × List Nat) × Engine σ :=
  let (answer, c) := s.core.removeBatch E.forceSlow arena sc cls desired
  (answer, s.setCore c)

/-- `insert_batch` and `insert_batch_scrubbing`: how many objects went in, and
whether the caller must now retire the span. -/
def insertBatch (i : Nat) (indices : List Nat) (scrubbing : Bool) : (Nat × Bool) × Engine σ :=
  let d := s.span i
  let ((inserted, retire), c) := s.core.insertBatch E.quarantine i indices
  let s := s.setCore c
  ((inserted.length, retire),
    if scrubbing then inserted.foldl (fun s k => s.fill E (d.objectAt k) (row d.sc).size) s else s)

/-- `activate_span`. A failed install clears the bits and leaves the state of
the descriptor as it was. -/
def activateSpan (i : Nat) : Bool × Engine σ :=
  let d := s.span i
  let s := s.setCore (s.core.fillBits i)
  match s.pagemap.publishRange E s.world d.base d.stop (.small i) with
  | (false, pagemap, world) =>
    let s := { s with pagemap, world }
    (false, s.setCore (s.core.clearBits i))
  | (true, pagemap, world) =>
    let s := { s with pagemap, world }
    (true, (s.setCore (s.core.enlist i)).note (.gained d.arena d.base d.stop))

/-- What both deactivations do: the span leaves the lists, and its pages are
released. -/
def unlistSpan (i : Nat) : Engine σ :=
  let d := s.span i
  let s := s.setCore (s.core.unlist i)
  { s with pagemap := s.pagemap.overwriteRange d.base d.stop (.released i) }

/-- `deactivate_span`. The source asserts that the span is empty. -/
def deactivateSpan (i : Nat) : Engine σ := if s.core.isEmpty i then s.unlistSpan i else s

/-- `deactivate_span_forced`, with the live count it discards. -/
def deactivateSpanForced (i : Nat) : Nat × Engine σ :=
  if (s.span i).state ≠ .active then (0, s) else ((s.bits i).liveCount, s.unlistSpan i)

/-! ## Span slots -/

/-- Push a slot on the free stack and take it off the live count. -/
def pushSpanSlot (i : Nat) : Engine σ :=
  let s := (s.setSpan i { s.span i with freeNext := s.spans.freeHead }).note (.returned i)
  { s with spans := { s.spans with freeHead := i, live := wrappingPred32 s.spans.live } }

/-- `backing.free(ext)` of a span extent. -/
def freeSpanExtent (ext : ExtentRef) : Engine σ :=
  let (_, spanExtents, world) := s.spanExtents.freeCanary E.provider s.world ext false E.forcePurge
  { s with spanExtents, world }

/-- `scrub_on_release`. -/
def scrubOnRelease (arena : Nat) : Bool := E.secureScrub || s.arenas.labelOf arena != publicLabel

/-- Log the revocation of a region if the provider grants it. -/
def noteRevoke (arena : Nat) (region : Option Region) : Engine σ :=
  match region with
  | none => s
  | some r =>
    match (E.provider.revokeDescendants s.world arena r).1 with
    | .ok _ => s.note (.revoked arena r.base (r.base + r.len))
    | .error _ => s

/-- `reclaim_span_slot`; whether the revocation succeeded. -/
def reclaimSpanSlot (i arena : Nat) : Bool × Engine σ :=
  let d := s.span i
  let s := { s with pagemap := s.pagemap.overwriteRange d.base d.stop .empty }
  let s := (s.note (.lost arena d.base d.stop)).pushSpanSlot i
  let s := if s.scrubOnRelease E arena then
      match s.spanExtents.regionOf d.extent with
      | some r => s.wipe r.base r.len
      | none => s
    else s
  let s := s.noteRevoke E arena (s.spanExtents.regionOf d.extent)
  let (answer, spanExtents, world) :=
    s.spanExtents.freeRevokingCanary E.provider s.world d.extent arena false E.forcePurge
  let s := { s with spanExtents, world }
  (answer.isOk, if answer.isOk then s.note (.unbacked i) else s)

/-- `retire_span`. -/
def retireSpan (i : Nat) : Engine σ :=
  let arena := (s.span i).arena
  ((s.deactivateSpan i).reclaimSpanSlot E i arena).2

/-- `force_retire_span`. -/
def forceRetireSpan (i : Nat) : Bool × Engine σ :=
  let d := s.span i
  let (discarded, s) := s.deactivateSpanForced i
  let s := { s with freedBytes := wrappingAdd64 s.freedBytes (discarded * (row d.sc).size) }
  s.reclaimSpanSlot E i d.arena

/-! ## Creating a span -/

/-- Pop a free slot, or take the next fresh one; the flag says fresh. -/
def takeSpanSlot : Option (Nat × Bool) × Engine σ :=
  if s.spans.freeHead ≠ NIL then
    let i := s.spans.freeHead
    (some (i, false), { s with spans := { s.spans with freeHead := (s.span i).freeNext } }.note (.taken i))
  else if s.spans.highWater < s.spans.cap then
    let i := s.spans.highWater
    (some (i, true), { s with spans := { s.spans with highWater := i + 1 } }.note (.taken i))
  else (none, s)

/-- Write the descriptor of a taken slot, or put the slot back. -/
def initSpanSlot (i : Nat) (fresh : Bool) (arena sc base count : Nat) : Bool × Engine σ :=
  let written (s : Engine σ) (b : SpanBits) : Engine σ :=
    (s.setBits i b).setSpan i { s.span i with
      arena, sc, base, pageCount := (row sc).slabPages, objectCount := count, state := .active }
  if fresh then
    match newBits E s.world count with
    | (none, world) => (false, { s with world, spans := { s.spans with highWater := i } })
    | (some b, world) => (true, written { s with world } b)
  else
    match recycleBits E s.world (s.bits i) count with
    | (false, b, world) =>
      let s := { s with world }.setBits i b
      let s := (s.setSpan i { s.span i with freeNext := s.spans.freeHead }).note (.returned i)
      (false, { s with spans := { s.spans with freeHead := i } })
    | (true, b, world) => (true, written { s with world } b)

/-- `create_span`. -/
def createSpan (arena sc cls : Nat) : Bool × Engine σ :=
  let bytes := (row sc).slabPages * pageSize
  match s.spanExtents.alloc E.provider s.world bytes pageSize .best with
  | (.error _, spanExtents, world) => (false, { s with spanExtents, world })
  | (.ok ext, spanExtents, world) =>
    let s := { s with spanExtents, world }
    match s.spanExtents.regionOf ext with
    | none => (false, s)
    | some region =>
      let s := s.fill E region.base bytes
      match SlabLayout.compute sc region.base 0 with
      | none => (false, s.freeSpanExtent E ext)
      | some layout =>
        match s.takeSpanSlot with
        | (none, s) => (false, s.freeSpanExtent E ext)
        | (some (i, fresh), s) =>
          match s.initSpanSlot E i fresh arena sc region.base layout.objectCount with
          | (false, s) => (false, s.freeSpanExtent E ext)
          | (true, s) =>
            let s := s.setSpan i { s.span i with extent := ext }
            let s := { s with spans := { s.spans with live := s.spans.live + 1 } }
            let s := s.setBits i { s.bits i with placeClass := cls % 4 }
            match s.activateSpan E i with
            | (true, s) => (true, s)
            | (false, s) =>
              (false, (((s.note (.stranded i)).pushSpanSlot i).freeSpanExtent E ext).note (.unbacked i))

end Engine
end Topomalloc
