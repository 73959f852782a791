import Topomalloc.Release

/-! The statistics record of `topo-stats`, its redaction for a labelled observer
and its JSON text. Counts are natural numbers that the source keeps in `u64`;
only the saturating sums of the derived gauges and the wrapping sum of the
visible bytes can leave that range. -/
namespace Topomalloc

/-- `u64::saturating_mul`. -/
def saturatingMul64 (a b : Nat) : Nat := min (a * b) (2 ^ 64 - 1)

/-! ## The groups of figures -/

/-- `StateBytes`. -/
structure StateBytes where
  reserved : Nat := 0
  active : Nat := 0
  dirty : Nat := 0
  muzzy : Nat := 0
  released : Nat := 0
  deriving DecidableEq, Repr

namespace StateBytes
variable (b : StateBytes)

/-- `total`. -/
def total : Nat := b.reserved + b.active + b.dirty + b.muzzy + b.released

/-- `free`. -/
def free : Nat := b.reserved + b.dirty + b.muzzy + b.released

/-- The sum `record_allocator` takes of the two backends. -/
def plus (c : StateBytes) : StateBytes where
  reserved := b.reserved + c.reserved
  active := b.active + c.active
  dirty := b.dirty + c.dirty
  muzzy := b.muzzy + c.muzzy
  released := b.released + c.released

end StateBytes

/-- `HookFailureStats`. -/
structure HookFailureStats where
  commit : Nat := 0
  release : Nat := 0
  split : Nat := 0
  merge : Nat := 0
  deriving DecidableEq, Repr

/-- `HugeBin::COUNT`. -/
def hugeBinCount : Nat := 9

/-- `HugeStats`. -/
structure HugeStats where
  coverageBytes : Nat := 0
  liveBytesOnIntact : Nat := 0
  liveBytesOnPartial : Nat := 0
  emptyBackedBytes : Nat := 0
  emptyReleasedBytes : Nat := 0
  partialSubreleasedBytes : Nat := 0
  fragmentationBytes : Nat := 0
  liveTotalBytes : Nat := 0
  bins : Fin hugeBinCount → Nat := fun _ => 0

/-- `coverage_ratio_bp`. -/
def HugeStats.coverageRatioBp (h : HugeStats) : Nat :=
  if h.liveTotalBytes = 0 then 10000
  else min (saturatingMul64 h.liveBytesOnIntact 10000 / h.liveTotalBytes) 10000

/-- `ReleaseStats`. -/
structure ReleaseStats where
  mode : Release.PressureMode := .normal
  backlogBytes : Nat := 0
  plannedBytesTotal : Nat := 0
  ticks : Nat := 0
  demandReserveBytes : Nat := 0
  activeTicks : Nat := 0
  allocRateBps : Nat := 0
  freeRateBps : Nat := 0

/-- `PressureMode::as_str`. -/
def Release.PressureMode.asStr : Release.PressureMode → String
  | .normal => "normal"
  | .soft => "soft"
  | .hard => "hard"
  | .emergency => "emergency"

/-- `PlacementStats`. -/
structure PlacementStats where
  sitesTracked : Nat := 0
  confidentSites : Nat := 0
  allocSamples : Nat := 0
  freeSamples : Nat := 0
  censoredSamples : Nat := 0
  evictions : Nat := 0
  sampledLiveBytes : Nat := 0

/-- `NodeRouterStats`. -/
structure NodeRouterStats where
  nodes : Nat
  bindFailures : Nat
  rebalanceMoves : Nat
  rebalanceReleasedBytes : Nat
  spillovers : Nat

/-- `Profile`. -/
inductive Profile
  | performance
  | hardened
  | debug
  | deterministicTest
  | lowRss
  | hugepageOptimized
  deriving DecidableEq, Repr

/-- `Profile::as_str`. -/
def Profile.asStr : Profile → String
  | .performance => "performance"
  | .hardened => "hardened"
  | .debug => "debug"
  | .deterministicTest => "deterministic_test"
  | .lowRss => "low_rss"
  | .hugepageOptimized => "hugepage_optimized"

/-- `AllocatorStats`. -/
structure AllocatorStats where
  liveBytes : Nat
  peakLiveBytes : Nat
  allocatedBytesTotal : Nat
  freedBytesTotal : Nat
  centralFreeBytes : Nat
  perCpuBytes : Nat
  transferBytes : Nat
  spanBackend : StateBytes
  largeBackend : StateBytes
  pagemapMetadataBytes : Nat
  liveSpans : Nat
  liveLarge : Nat
  liveInternalFragmentationBytes : Nat
  liveArenas : Nat
  numaBindFailures : Nat
  hookFailures : HookFailureStats
  arenasDestroyed : Nat
  arenasQuarantined : Nat
  guardProtectFailures : Nat
  quarantineBytes : Nat
  deriving DecidableEq

/-! ## The record -/

/-- `Stats`. -/
structure Stats where
  epoch : Nat := 0
  profile : Profile := .performance
  liveBytes : Nat := 0
  peakLiveBytes : Nat := 0
  allocatedBytesTotal : Nat := 0
  freedBytesTotal : Nat := 0
  rssBytes : Nat := 0
  perCpuBytes : Nat := 0
  threadCacheBytes : Nat := 0
  transferBytes : Nat := 0
  centralFreeBytes : Nat := 0
  metadataBytes : Nat := 0
  activeBytes : Nat := 0
  retainedBytes : Nat := 0
  dirtyBytes : Nat := 0
  muzzyBytes : Nat := 0
  releasedBytes : Nat := 0
  pageheapFreeBytes : Nat := 0
  virtualBytes : Nat := 0
  quarantineBytes : Nat := 0
  liveArenas : Nat := 0
  arenasDestroyed : Nat := 0
  arenasQuarantined : Nat := 0
  guardProtectFailures : Nat := 0
  numaBindFailures : Nat := 0
  hookFailures : HookFailureStats := {}
  hugepage : HugeStats := {}
  release : ReleaseStats := {}
  numaNodes : Nat := 0
  llcDomains : Nat := 0
  numaRouterBindFailures : Nat := 0
  numaRebalanceMoves : Nat := 0
  numaRebalanceReleasedBytes : Nat := 0
  numaSpillovers : Nat := 0
  placement : PlacementStats := {}
  sampledInternalFragmentationBytes : Nat := 0
  exactInternalFragmentationBytes : Nat := 0

/-- `ArenaLine`. -/
structure ArenaLine where
  id : Nat
  label : Nat
  used : Nat
  reserved : Nat
  deriving DecidableEq, Repr

/-- `SizeClassLine`. -/
structure SizeClassLine where
  sizeClass : Nat
  size : Nat
  freeBytes : Nat

/-- `CpuCacheLine`. -/
structure CpuCacheLine where
  cpu : Nat
  objects : Nat
  bytes : Nat

/-- `NumaNodeLine`. -/
structure NumaNodeLine where
  node : Nat
  coverageBytes : Nat
  emptyBackedBytes : Nat
  liveBytes : Nat

/-- `StatsDetail`. -/
structure StatsDetail where
  arenas : List ArenaLine := []
  sizeClasses : List SizeClassLine := []
  cpus : List CpuCacheLine := []
  numaNodes : List NumaNodeLine := []

namespace Stats
variable (s : Stats)

/-- `record_backend`. -/
def recordBackend (b : StateBytes) : Stats :=
  { s with
    activeBytes := b.active
    retainedBytes := b.reserved
    dirtyBytes := b.dirty
    muzzyBytes := b.muzzy
    releasedBytes := b.released
    pageheapFreeBytes := b.free
    virtualBytes := b.total }

/-- `record_allocator`. -/
def recordAllocator (a : AllocatorStats) : Stats :=
  recordBackend { s with
    liveBytes := a.liveBytes
    peakLiveBytes := a.peakLiveBytes
    allocatedBytesTotal := a.allocatedBytesTotal
    freedBytesTotal := a.freedBytesTotal
    centralFreeBytes := a.centralFreeBytes
    perCpuBytes := a.perCpuBytes
    transferBytes := a.transferBytes
    metadataBytes := a.pagemapMetadataBytes
    exactInternalFragmentationBytes := a.liveInternalFragmentationBytes
    quarantineBytes := a.quarantineBytes
    liveArenas := a.liveArenas
    arenasDestroyed := a.arenasDestroyed
    arenasQuarantined := a.arenasQuarantined
    guardProtectFailures := a.guardProtectFailures
    numaBindFailures := a.numaBindFailures
    hookFailures := a.hookFailures } (a.spanBackend.plus a.largeBackend)

/-- `record_placement`. -/
def recordPlacement (p : PlacementStats) : Stats := { s with placement := p }

/-- `record_fragmentation`. -/
def recordFragmentation (bytes : Nat) : Stats := { s with sampledInternalFragmentationBytes := bytes }

/-- `record_rss`. -/
def recordRss (bytes : Nat) : Stats := { s with rssBytes := bytes }

/-- `record_huge`. -/
def recordHuge (h : HugeStats) : Stats := { s with hugepage := h }

/-- `record_node_router`. -/
def recordNodeRouter (r : NodeRouterStats) : Stats :=
  { s with
    numaNodes := r.nodes
    numaRouterBindFailures := r.bindFailures
    numaRebalanceMoves := r.rebalanceMoves
    numaRebalanceReleasedBytes := r.rebalanceReleasedBytes
    numaSpillovers := r.spillovers }

end Stats

/-! ## Flags -/

/-- `StatsFlags`. -/
structure StatsFlags where
  bits : UInt64
  deriving DecidableEq

namespace StatsFlags

def summary : StatsFlags := ⟨0⟩
def byArena : StatsFlags := ⟨1⟩
def bySizeClass : StatsFlags := ⟨2⟩
def byCpu : StatsFlags := ⟨4⟩
def byNuma : StatsFlags := ⟨8⟩
def byHugepage : StatsFlags := ⟨16⟩
def consistentSnapshot : StatsFlags := ⟨32⟩
def resetPeaks : StatsFlags := ⟨64⟩

/-- `ALL`. -/
def all : StatsFlags :=
  ⟨byArena.bits ||| bySizeClass.bits ||| byCpu.bits ||| byNuma.bits ||| byHugepage.bits |||
    consistentSnapshot.bits ||| resetPeaks.bits⟩

/-- `contains`. -/
def contains (f other : StatsFlags) : Bool := f.bits &&& other.bits == other.bits

/-- `has_unknown_bits`. -/
def hasUnknownBits (f : StatsFlags) : Bool := f.bits &&& ~~~all.bits != 0

end StatsFlags

/-! ## Redaction -/

/-- `OBSERVER_LABEL_TOP`. -/
def observerLabelTop : Nat := 2 ^ 32 - 1

/-- `redact_arenas`. -/
def redactArenas (arenas : List ArenaLine) (observerLabel : Nat) : List ArenaLine :=
  arenas.filter fun a => decide (a.label ≤ observerLabel)

/-- The `u64` sum of the bytes the arenas use. -/
def usedBytes (arenas : List ArenaLine) : Nat := arenas.foldl (fun total a => wrappingAdd64 total a.used) 0

/-- `redact_summary`. -/
def redactSummary (full : Stats) (visible : List ArenaLine) (observerLabel : Nat) : Stats :=
  if observerLabel = observerLabelTop then full
  else
    { epoch := full.epoch
      profile := full.profile
      liveBytes := usedBytes visible
      allocatedBytesTotal := usedBytes visible
      freedBytesTotal := 0
      liveArenas := visible.length }

/-! ## The text -/

/-- `VERSION`. -/
def version : String := "0.4.3"

/-- The elements of a JSON array, each on a line of its own. -/
def rows (items : List String) : String := ",".intercalate (items.map ("\n    " ++ ·))

/-- A detail array of `to_json_with`. -/
def detailArray (name : String) (items : List String) : String :=
  ",\n  \"" ++ name ++ "\": [" ++ rows items ++ (if items.isEmpty then "]" else "\n  ]")

namespace Stats
variable (s : Stats)

/-- The fixed part of `to_json_with`. -/
def summaryJson : String :=
  String.join [
    "\x7b\n",
    "  \"topomalloc_version\": \"", version, "\",\n",
    "  \"epoch\": ", toString s.epoch, ",\n",
    "  \"profile\": \"", s.profile.asStr, "\",\n",
    "  \"application\": \x7b\n",
    "    \"live_bytes\": ", toString s.liveBytes, ",\n",
    "    \"peak_live_bytes\": ", toString s.peakLiveBytes, ",\n",
    "    \"allocated_bytes_total\": ", toString s.allocatedBytesTotal, ",\n",
    "    \"freed_bytes_total\": ", toString s.freedBytesTotal, ",\n",
    "    \"rss_bytes\": ", toString s.rssBytes, "\n",
    "  \x7d,\n",
    "  \"cache\": \x7b\n",
    "    \"per_cpu_bytes\": ", toString s.perCpuBytes, ",\n",
    "    \"thread_cache_bytes\": ", toString s.threadCacheBytes, ",\n",
    "    \"transfer_bytes\": ", toString s.transferBytes, "\n",
    "  \x7d,\n",
    "  \"central\": \x7b\n",
    "    \"free_bytes\": ", toString s.centralFreeBytes, "\n",
    "  \x7d,\n",
    "  \"arenas\": \x7b\n",
    "    \"count\": ", toString s.liveArenas, ",\n",
    "    \"destroyed\": ", toString s.arenasDestroyed, ",\n",
    "    \"quarantined\": ", toString s.arenasQuarantined, ",\n",
    "    \"numa_bind_failures\": ", toString s.numaBindFailures, ",\n",
    "    \"hook_failures\": \x7b\n",
    "      \"commit\": ", toString s.hookFailures.commit, ",\n",
    "      \"release\": ", toString s.hookFailures.release, ",\n",
    "      \"split\": ", toString s.hookFailures.split, ",\n",
    "      \"merge\": ", toString s.hookFailures.merge, "\n",
    "    \x7d\n",
    "  \x7d,\n",
    "  \"backend\": \x7b\n",
    "    \"active_bytes\": ", toString s.activeBytes, ",\n",
    "    \"retained_bytes\": ", toString s.retainedBytes, ",\n",
    "    \"dirty_bytes\": ", toString s.dirtyBytes, ",\n",
    "    \"muzzy_bytes\": ", toString s.muzzyBytes, ",\n",
    "    \"released_bytes\": ", toString s.releasedBytes, ",\n",
    "    \"pageheap_free_bytes\": ", toString s.pageheapFreeBytes, ",\n",
    "    \"virtual_bytes\": ", toString s.virtualBytes, ",\n",
    "    \"total_managed_vm_bytes\": ", toString (saturatingAdd64 s.virtualBytes s.metadataBytes), "\n",
    "  \x7d,\n",
    "  \"quarantine\": \x7b\n",
    "    \"bytes\": ", toString s.quarantineBytes, "\n",
    "  \x7d,\n",
    "  \"hardening\": \x7b\n",
    "    \"guard_protect_failures\": ", toString s.guardProtectFailures, "\n",
    "  \x7d,\n",
    "  \"hugepage\": \x7b\n",
    "    \"coverage_bytes\": ", toString s.hugepage.coverageBytes, ",\n",
    "    \"live_bytes_on_intact_hugepages\": ", toString s.hugepage.liveBytesOnIntact, ",\n",
    "    \"live_bytes_on_partial_hugepages\": ", toString s.hugepage.liveBytesOnPartial, ",\n",
    "    \"empty_backed_bytes\": ", toString s.hugepage.emptyBackedBytes, ",\n",
    "    \"empty_released_bytes\": ", toString s.hugepage.emptyReleasedBytes, ",\n",
    "    \"partial_subreleased_bytes\": ", toString s.hugepage.partialSubreleasedBytes, ",\n",
    "    \"fragmentation_bytes\": ", toString s.hugepage.fragmentationBytes, ",\n",
    "    \"coverage_ratio_bp\": ", toString s.hugepage.coverageRatioBp, ",\n",
    "    \"bin_counts\": [", ",".intercalate ((List.ofFn s.hugepage.bins).map toString), "]\n",
    "  \x7d,\n",
    "  \"release\": \x7b\n",
    "    \"pressure_mode\": \"", s.release.mode.asStr, "\",\n",
    "    \"backlog_bytes\": ", toString s.release.backlogBytes, ",\n",
    "    \"demand_reserve_bytes\": ", toString s.release.demandReserveBytes, ",\n",
    "    \"planned_bytes_total\": ", toString s.release.plannedBytesTotal, ",\n",
    "    \"ticks\": ", toString s.release.ticks, ",\n",
    "    \"active_ticks\": ", toString s.release.activeTicks, ",\n",
    "    \"alloc_rate_bps\": ", toString s.release.allocRateBps, ",\n",
    "    \"free_rate_bps\": ", toString s.release.freeRateBps, "\n",
    "  \x7d,\n",
    "  \"topology\": \x7b\n",
    "    \"numa_nodes\": ", toString s.numaNodes, ",\n",
    "    \"llc_domains\": ", toString s.llcDomains, ",\n",
    "    \"router_bind_failures\": ", toString s.numaRouterBindFailures, ",\n",
    "    \"rebalance_moves\": ", toString s.numaRebalanceMoves, ",\n",
    "    \"rebalance_released_bytes\": ", toString s.numaRebalanceReleasedBytes, ",\n",
    "    \"spillovers\": ", toString s.numaSpillovers, "\n",
    "  \x7d,\n",
    "  \"placement\": \x7b\n",
    "    \"sites_tracked\": ", toString s.placement.sitesTracked, ",\n",
    "    \"confident_sites\": ", toString s.placement.confidentSites, ",\n",
    "    \"alloc_samples\": ", toString s.placement.allocSamples, ",\n",
    "    \"free_samples\": ", toString s.placement.freeSamples, ",\n",
    "    \"censored_samples\": ", toString s.placement.censoredSamples, ",\n",
    "    \"evictions\": ", toString s.placement.evictions, ",\n",
    "    \"sampled_live_bytes\": ", toString s.placement.sampledLiveBytes, "\n",
    "  \x7d,\n",
    "  \"fragmentation\": \x7b\n",
    "    \"internal_exact_bytes\": ", toString s.exactInternalFragmentationBytes, ",\n",
    "    \"internal_sampled_bytes\": ", toString s.sampledInternalFragmentationBytes, ",\n",
    "    \"external_bytes\": ", toString (saturatingAdd64 s.dirtyBytes s.muzzyBytes), ",\n",
    "    \"cache_bytes\": ",
      toString (saturatingAdd64 (saturatingAdd64 s.perCpuBytes s.threadCacheBytes) s.transferBytes),
      ",\n",
    "    \"hugepage_bytes\": ", toString s.hugepage.fragmentationBytes, ",\n",
    "    \"metadata_overhead_bytes\": ", toString s.metadataBytes, "\n",
    "  \x7d,\n",
    "  \"metadata\": \x7b\n",
    "    \"bytes\": ", toString s.metadataBytes, "\n",
    "  \x7d"]

end Stats

/-- One element of `by_arena`. -/
def ArenaLine.json (a : ArenaLine) : String :=
  String.join ["\x7b\"id\": ", toString a.id, ", \"label\": ", toString a.label,
    ", \"used_bytes\": ", toString a.used, ", \"reserved_bytes\": ", toString a.reserved, "\x7d"]

/-- One element of `by_size_class`. -/
def SizeClassLine.json (c : SizeClassLine) : String :=
  String.join ["\x7b\"class\": ", toString c.sizeClass, ", \"size\": ", toString c.size,
    ", \"free_bytes\": ", toString c.freeBytes, "\x7d"]

/-- One element of `by_cpu`. -/
def CpuCacheLine.json (c : CpuCacheLine) : String :=
  String.join ["\x7b\"cpu\": ", toString c.cpu, ", \"objects\": ", toString c.objects,
    ", \"bytes\": ", toString c.bytes, "\x7d"]

/-- One element of `by_numa_node`. -/
def NumaNodeLine.json (n : NumaNodeLine) : String :=
  String.join ["\x7b\"node\": ", toString n.node, ", \"coverage_bytes\": ",
    toString n.coverageBytes, ", \"empty_backed_bytes\": ", toString n.emptyBackedBytes,
    ", \"live_bytes\": ", toString n.liveBytes, "\x7d"]

/-- One element of `by_hugepage_bin`. -/
def hugeBinJson (bin count : Nat) : String :=
  String.join ["\x7b\"bin\": ", toString bin, ", \"count\": ", toString count, "\x7d"]

/-- The text a flag adds when it is set. -/
def StatsFlags.whenSet (f other : StatsFlags) (text : String) : String :=
  if f.contains other then text else ""

/-- `to_json_with`. The array of hugepage bins is never empty and always closes
on a line of its own. -/
def Stats.toJsonWith (s : Stats) (flags : StatsFlags) (detail : StatsDetail) : String :=
  String.join [
    s.summaryJson,
    flags.whenSet .byArena (detailArray "by_arena" (detail.arenas.map (·.json))),
    flags.whenSet .bySizeClass (detailArray "by_size_class" (detail.sizeClasses.map (·.json))),
    flags.whenSet .byCpu (detailArray "by_cpu" (detail.cpus.map (·.json))),
    flags.whenSet .byNuma (detailArray "by_numa_node" (detail.numaNodes.map (·.json))),
    flags.whenSet .byHugepage (",\n  \"by_hugepage_bin\": [" ++
      rows (List.ofFn fun i => hugeBinJson i (s.hugepage.bins i)) ++ "\n  ]"),
    "\n\x7d"]

end Topomalloc
