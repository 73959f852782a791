import Topomalloc.Huge.Filler

/-! `HugePageBackend` of `huge.rs`: the filler and the region cache of freed
whole-hugepage runs over one reserved region, and their use as the region-cache
hook of the large path. Each public call holds the backend's lock from its
first to its last step, or for each of the steps of a release loop, so a
sequential run is a list of calls. -/
namespace Topomalloc

/-- `RegionCacheEntry`; a zero length marks an empty entry. -/
structure RegionCacheEntry where
  base : Nat := 0
  hugepages : Nat := 0
  deriving DecidableEq, Repr, Inhabited

/-- `RegionCache`: freed runs kept for reuse. Nothing keeps an entry in step
with the filler, which may have given the hugepages away since. -/
structure RegionCache where
  entries : Nat → RegionCacheEntry
  slots : Nat
  live : Nat

namespace RegionCache

/-- `RegionCache::new`. -/
def new (metaOk : Bool) (entryBytes slots : Nat) : Option RegionCache := do
  if slots = 0 ∨ slots > NIL then none
  else
    let _ ← checkedMul slots entryBytes
    if metaOk = false then none else some { entries := fun _ => {}, slots, live := 0 }

def setEntry (c : RegionCache) (i : Nat) (e : RegionCacheEntry) : RegionCache :=
  { c with entries := Function.update c.entries i e }

/-- The loop of `take` over the entries `is`. An entry of the right length is
consumed even when the filler refuses it. -/
def takeFrom (hugepages n : Nat) :
    List Nat → RegionCache → HugePageFiller → Option HugeRun × RegionCache × HugePageFiller
  | [], c, f => (none, c, f)
  | i :: is, c, f =>
    let e := c.entries i
    if e.hugepages = n then
      let c := { c.setEntry i {} with live := c.live - 1 }
      match f.reserveHugepagesAt e.base hugepages with
      | some (run, f) => (some run, c, f)
      | none => takeFrom hugepages n is c f
    else takeFrom hugepages n is c f

/-- `take`. The length is compared as a `u32`. -/
def take (c : RegionCache) (hugepages : Nat) (f : HugePageFiller) :
    Option HugeRun × RegionCache × HugePageFiller :=
  let n := hugepages % 2 ^ 32
  if n = 0 then (none, c, f) else takeFrom hugepages n (List.range c.slots) c f

def store (c : RegionCache) (base hugepages : Nat) : Bool × RegionCache :=
  match (List.range c.slots).find? fun i => (c.entries i).hugepages == 0 with
  | some i =>
    (true, { c.setEntry i ⟨base, hugepages % 2 ^ 32⟩ with live := c.live + 1 })
  | none => (false, c)

end RegionCache

/-- `HugePageBackend`, without the provider and the lock. -/
structure HugePageBackend where
  region : Region
  arena : Nat
  filler : HugePageFiller
  cache : RegionCache
  released : Bool

namespace HugePageBackend
variable {σ : Type} (P : Provider σ) (g : HugePageBackend)

/-- The sizes of the two metadata tables' rows and whether the metadata source
supplies each table. -/
structure MetadataSource where
  slotBytes : Nat
  entryBytes : Nat
  fillerOk : Bool
  cacheOk : Bool

/-- `HugePageBackend::new` over the reservation the provider made for it. -/
def new (source : MetadataSource) (region : Region) (arena capacityHugepages regionCacheSlots : Nat) :
    Option HugePageBackend := do
  if capacityHugepages = 0 then none
  else
    let _ ← checkedMul capacityHugepages hugepageSize
    let filler ← HugePageFiller.new source.fillerOk source.slotBytes region.base capacityHugepages
    let cache ← RegionCache.new source.cacheOk source.entryBytes regionCacheSlots
    some { region, arena, filler, cache, released := false }

def regionOffset (addr : Nat) : Nat := addr - g.region.base

def subregion (addr len : Nat) : Region := { base := g.region.base + g.regionOffset addr, len }

/-- Commit the run a placement still needs, if any. -/
def commitRun (run : Option (Nat × Nat)) (w : σ) : Except BackendError Unit × σ :=
  match run with
  | none => (.ok (), w)
  | some (offset, len) => P.commit w g.region offset len

def allocatePacked (pages align : Nat) (hints : PlaceHints) (w : σ) : Option Region × HugePageBackend × σ :=
  match g.filler.place pages align hints with
  | none => (none, g, w)
  | some (p, filler) =>
    match g.commitRun P p.commitRun w with
    | (.error _, w) => (none, { g with filler := (filler.free p.base p.pages).2 }, w)
    | (.ok _, w) =>
      (some (g.subregion p.base (pages * pageSize)), { g with filler := filler.markCommitted p }, w)

/-- The run `allocate_run` serves from: a cached one, else a new one. -/
def obtainRun (n : Nat) : Option HugeRun × HugePageBackend :=
  match g.cache.take n g.filler with
  | (some run, cache, filler) => (some run, { g with cache, filler })
  | (none, cache, filler) =>
    match filler.reserveHugepages n with
    | some (run, filler) => (some run, { g with cache, filler })
    | none => (none, { g with cache, filler })

def allocateRun (pages : Nat) (w : σ) : Option Region × HugePageBackend × σ :=
  let n := (pages + pagesPerHugepage - 1) / pagesPerHugepage
  match g.obtainRun n with
  | (none, g) => (none, g, w)
  | (some run, g) =>
    match g.commitRun P run.commitRun w with
    | (.error _, w) => (none, { g with filler := (g.filler.freeHugepages run.base n).2 }, w)
    | (.ok _, w) =>
      (some (g.subregion run.base (pages * pageSize)), { g with filler := g.filler.markRunCommitted run }, w)

def allocate (bytes align : Nat) (hints : PlaceHints) (w : σ) : Option Region × HugePageBackend × σ :=
  if g.released then (none, g, w)
  else match pagesFor bytes pageSize with
    | none => (none, g, w)
    | some pages =>
      if pages = 0 ∨ isPowerOfTwo align = false ∨ align > hugepageSize then (none, g, w)
      else if pages ≤ pagesPerHugepage then g.allocatePacked P pages align hints w
      else g.allocateRun P pages w

/-- The region lies, by its base, in the backend's own region. -/
def ours (r : Region) : Bool :=
  g.region.base ≤ r.base && r.base < (g.region.base + g.region.len) % 2 ^ 64 && r.len != 0

def freeRegion (r : Region) : Bool × HugePageBackend :=
  if g.released then (false, g)
  else if g.ours r = false then (false, g)
  else
    let pages := r.len / pageSize
    if pages ≤ pagesPerHugepage then
      let (report, filler) := g.filler.free r.base pages
      (report.valid, { g with filler })
    else
      let n := (pages + pagesPerHugepage - 1) / pagesPerHugepage
      let (report, filler) := g.filler.freeHugepages r.base n
      let cache := if report.valid then (g.cache.store r.base n).2 else g.cache
      (report.valid, { g with filler, cache })

def trimRegion (r : Region) (newLen : Nat) : Option Nat × HugePageBackend :=
  if g.released then (none, g)
  else if g.ours r = false then (none, g)
  else
    let oldPages := r.len / pageSize
    match pagesFor (max newLen 1) pageSize with
    | none => (none, g)
    | some newPages =>
      if newPages ≥ oldPages ∨ oldPages > pagesPerHugepage then (none, g)
      else
        match g.filler.trim r.base oldPages newPages with
        | (true, filler) => (some ((oldPages - newPages) * pageSize), { g with filler })
        | (false, _) => (none, g)

/-! ## Giving memory back -/

/-- `subrelease`: revoke, then decommit; either failure takes the run back. -/
def subrelease (g : HugePageBackend) (base pages : Nat) (pressureHigh : Bool) (w : σ) :
    Nat × HugePageBackend × σ :=
  if g.released then (0, g, w)
  else match g.filler.subrelease base pages pressureHigh with
    | none => (0, g, w)
    | some (sr, filler) =>
      let undone := { g with filler := filler.unsubrelease sr }
      match P.revokeDescendants w g.arena (g.subregion (g.region.base + sr.regionOffset) sr.len) with
      | (.error _, w) => (0, undone, w)
      | (.ok _, w) =>
        match P.decommit w g.region sr.regionOffset sr.len with
        | (.error _, w) => (0, undone, w)
        | (.ok _, w) => (sr.len, { g with filler }, w)

/-- The loop of `release_hugepage_runs`. Each turn moves `searchFrom` past a
run of at least one page, so one turn for each page is enough. -/
def releaseRunsFrom (idx base maxBytes : Nat) :
    (fuel released searchFrom : Nat) → HugePageBackend → σ → Nat × HugePageBackend × σ
  | 0, released, _, g, w => (released, g, w)
  | fuel + 1, released, searchFrom, g, w =>
    let remaining := maxBytes - released
    if remaining = 0 then (released, g, w)
    else match g.filler.nextCommittedRun idx searchFrom with
      | none => (released, g, w)
      | some (off, pages) =>
        let budgetPages := remaining / pageSize
        if budgetPages = 0 then (released, g, w)
        else
          let (bytes, g, w) := g.subrelease P (base + off * pageSize) (min pages budgetPages) true w
          releaseRunsFrom idx base maxBytes fuel (released + bytes) (off + pages) g w

def releaseHugepageRuns (idx base maxBytes : Nat) (w : σ) : Nat × HugePageBackend × σ :=
  releaseRunsFrom P idx base maxBytes (pagesPerHugepage + 1) 0 0 g w

/-- The loop of `release_empty_excess_bounded`. Each turn moves `start` past
a hugepage, so one turn for each of them is enough. -/
def releaseExcessFrom (reserve maxRelease : Nat) :
    (fuel released releases kept start : Nat) → HugePageBackend → σ → Nat × HugePageBackend × σ
  | 0, released, _, _, _, g, w => (released, g, w)
  | fuel + 1, released, releases, kept, start, g, w =>
    if releases ≥ maxRelease then (released, g, w)
    else match g.filler.nextEmptyBacked start with
      | none => (released, g, w)
      | some (idx, base, _) =>
        if kept < reserve then
          releaseExcessFrom reserve maxRelease fuel released releases (kept + 1) (idx + 1) g w
        else
          let (bytes, g, w) := g.releaseHugepageRuns P idx base usizeMax w
          releaseExcessFrom reserve maxRelease fuel (released + bytes) (releases + 1) kept (idx + 1)
            g w

def releaseEmptyExcessBounded (reserve maxRelease : Nat) (w : σ) : Nat × HugePageBackend × σ :=
  releaseExcessFrom P reserve maxRelease (g.filler.capacity + 1) 0 0 0 0 g w

/-- The loop of `release_empty_within_bytes`. -/
def releaseWithinFrom (budget : Nat) :
    (fuel released start : Nat) → HugePageBackend → σ → Nat × HugePageBackend × σ
  | 0, released, _, g, w => (released, g, w)
  | fuel + 1, released, start, g, w =>
    match g.filler.nextEmptyBacked start with
    | none => (released, g, w)
    | some (idx, base, committed) =>
      let remaining := budget - released
      if committed * pageSize > remaining then
        releaseWithinFrom budget fuel released (idx + 1) g w
      else
        let (bytes, g, w) := g.releaseHugepageRuns P idx base remaining w
        releaseWithinFrom budget fuel (released + bytes) (idx + 1) g w

def releaseEmptyWithinBytes (budget : Nat) (w : σ) : Nat × HugePageBackend × σ :=
  releaseWithinFrom P budget (g.filler.capacity + 1) 0 0 g w

def markCold (g : HugePageBackend) (addr : Nat) : Bool × HugePageBackend :=
  let (answer, filler) := g.filler.markCold addr
  (answer, { g with filler })

def checkInvariants (g : HugePageBackend) : Bool := g.filler.checkInvariants

/-! ## As a region cache -/

/-- The backend as `RegionCacheHook`, over the provider's state and its own. -/
def hook : RegionCacheHook (HugePageBackend × σ) where
  tryAlloc s bytes align hints :=
    if hints.hugepage = .avoid then (none, s)
    else s.1.allocate P bytes align { hotness := .fromHint hints.hotness, lifetime := hints.lifetime } s.2
  tryCache s r :=
    let (answer, g) := s.1.freeRegion r
    (answer, g, s.2)
  tryCacheRevoking s r arena :=
    match P.revokeDescendants s.2 arena r with
    | (.error _, w) => (false, s.1, w)
    | (.ok _, w) =>
      let (answer, g) := s.1.freeRegion r
      (answer, g, w)
  tryTrim s r newLen :=
    let (answer, g) := s.1.trimRegion r newLen
    (answer, g, s.2)

end HugePageBackend
end Topomalloc
