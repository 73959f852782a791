import Topomalloc.Engine.Calls
import Topomalloc.Large.Runs
import Topomalloc.Stats.Report

/-! The statistics surface of `stats_api.rs`: what a call reads of the process,
what it redacts for a labelled observer, and the text it gives out.

The observer's view of a process is the snapshot epoch, the build profile and
the lines of the registered arenas whose label is not above the observer's. A
report for a label below the top is computed from that view alone, and making it
moves nothing but the epoch. No other thread runs during a call. -/
namespace Topomalloc

/-! ## What a call reads -/

/-- The counters of the engine that its model leaves out: those of the page map,
of the backends and the node bindings, and the central lists' totals. -/
structure Gauges where
  spanBackend : StateBytes := {}
  largeBackend : StateBytes := {}
  pagemapMetadataBytes : Nat := 0
  totalCentralFree : Nat → Nat := fun _ => 0
  liveLarge : Nat := 0
  numaBindFailures : Nat := 0
  hookFailures : HookFailureStats := {}

/-- The live NUMA router, as far as it is read. -/
structure RouterView where
  stats : NodeRouterStats
  coverage : HugeStats
  nodeCoverage : List HugeStats

/-- The process a call reads: the statics of the surface, the engine once it is
built, and what the sampler, the kernel and the router answer. -/
structure Process (σ : Type) where
  statsEpoch : Nat
  profile : Profile
  engine : Option (Engine σ)
  gauges : Gauges
  placement : PlacementStats
  sampledInternalFragmentation : Nat
  rss : Nat
  router : Option RouterView

namespace ArenaTable
variable (t : ArenaTable)

/-- `live_count`. -/
def liveCount : Nat := ((List.range t.highWater).filter fun a => (t.slots a).state != .destroyed).length

/-- `quarantined_count`. -/
def quarantinedCount : Nat :=
  ((List.range t.highWater).filter fun a => (t.slots a).state == .errorQuarantined).length

/-- The line of an arena, from its `ArenaStats`. -/
def line (a : Nat) : Option ArenaLine :=
  (t.slot a).bind fun s =>
    if s.state ≠ .destroyed then some ⟨a, s.label, s.committed - s.reserved, s.reserved⟩ else none

end ArenaTable

namespace Engine
variable {σ : Type} (s : Engine σ) (g : Gauges)

/-- The objects in the slots of class `sc`, over all cores. -/
def cachedObjects (sc : Nat) : Nat :=
  if s.cpu.carved then ((List.range maxCpus).map fun core => (s.cpu.slots core sc).entries.length).sum
  else 0

/-- `front_end_bytes`. -/
def frontEndBytes : Nat × Nat :=
  (((List.range numSizeClasses).map fun sc => s.cachedObjects sc * (row sc).size).sum,
    ((List.range numSizeClasses).map fun sc => (s.transfer sc).entries.length * (row sc).size).sum)

/-- `Allocator::stats`. -/
def stats : AllocatorStats where
  liveBytes := s.allocatedBytes - s.freedBytes
  peakLiveBytes := max s.peakLiveBytes (s.allocatedBytes - s.freedBytes)
  allocatedBytesTotal := s.allocatedBytes
  freedBytesTotal := s.freedBytes
  centralFreeBytes := ((List.range numSizeClasses).map fun sc => g.totalCentralFree sc * (row sc).size).sum
  perCpuBytes := s.frontEndBytes.1
  transferBytes := s.frontEndBytes.2
  spanBackend := g.spanBackend
  largeBackend := g.largeBackend
  pagemapMetadataBytes := g.pagemapMetadataBytes
  liveSpans := s.spans.live
  liveLarge := g.liveLarge
  liveInternalFragmentationBytes := s.internalFragmentationBytes
  liveArenas := s.arenas.liveCount
  numaBindFailures := g.numaBindFailures
  hookFailures := g.hookFailures
  arenasDestroyed := s.arenas.destroyedCount
  arenasQuarantined := s.arenas.quarantinedCount
  guardProtectFailures := s.guardProtectFailures
  quarantineBytes := s.quarantine.bytes

/-- `for_each_size_class_central_free`, as `size_class_lines` visits it. -/
def sizeClassLines : List SizeClassLine :=
  ((List.range numSizeClasses).map fun sc =>
      (⟨sc, (row sc).size, g.totalCentralFree sc * (row sc).size⟩ : SizeClassLine)).filter
    fun line => decide (line.freeBytes > 0)

/-- `for_each_cpu_cache`, as `cpu_cache_lines` visits it. -/
def cpuCacheLines : List CpuCacheLine :=
  if s.cpu.carved then
    ((List.range maxCpus).map fun core =>
        (⟨core, ((List.range numSizeClasses).map fun sc => (s.cpu.slots core sc).entries.length).sum,
          ((List.range numSizeClasses).map fun sc =>
            (s.cpu.slots core sc).entries.length * (row sc).size).sum⟩ : CpuCacheLine)).filter
      fun line => decide (line.objects > 0)
  else []

end Engine

/-! ## Composing a report -/

/-- The loop of `allocator_stats` over the answers still to come. -/
def settle (snap : AllocatorStats) : List AllocatorStats → AllocatorStats
  | [] => snap
  | again :: rest => if again = snap then again else settle again rest

/-- `allocator_stats`. -/
def allocatorStats (read : AllocatorStats) (consistent : Bool) : AllocatorStats :=
  if consistent then settle read (List.replicate 8 read) else read

/-- What `compose` gives. -/
structure Composed where
  summary : Stats
  detail : StatsDetail

/-- `checked_flags`. -/
def checkedFlags (word : UInt64) : Option StatsFlags :=
  if StatsFlags.hasUnknownBits ⟨word⟩ then none else some ⟨word⟩

namespace Process
variable {σ : Type} (p : Process σ)

/-- `next_epoch`: the epoch of the snapshot, and the counter after it. -/
def nextEpoch : Nat × Process σ :=
  (wrappingAdd64 p.statsEpoch 1, { p with statsEpoch := wrappingAdd64 p.statsEpoch 1 })

/-- `all_arena_lines`. -/
def allArenaLines : List ArenaLine :=
  match p.engine with
  | none => []
  | some s => (List.range maxArenas).filterMap s.arenas.line

/-- `size_class_lines`. -/
def sizeClassLines : List SizeClassLine :=
  match p.engine with
  | none => []
  | some _ => Engine.sizeClassLines p.gauges

/-- `cpu_cache_lines`. -/
def cpuCacheLines : List CpuCacheLine :=
  match p.engine with
  | none => []
  | some s => s.cpuCacheLines

/-- `numa_node_lines`. -/
def numaNodeLines : List NumaNodeLine :=
  match p.router with
  | none => []
  | some r => (r.nodeCoverage.take r.stats.nodes).zipIdx.map fun (c, node) =>
      ⟨node, c.coverageBytes, c.emptyBackedBytes, c.liveTotalBytes⟩

/-- The summary of the whole process, before any redaction. -/
def fullStats (epoch : Nat) (flags : StatsFlags) : Stats :=
  let s : Stats := { epoch, profile := p.profile }
  let s := match p.engine with
    | none => s
    | some e => s.recordAllocator (allocatorStats (e.stats p.gauges) (flags.contains .consistentSnapshot))
  let s := s.recordPlacement p.placement
  let s := s.recordFragmentation p.sampledInternalFragmentation
  let s := s.recordRss p.rss
  match p.router with
  | none => s
  | some r => (s.recordNodeRouter r.stats).recordHuge r.coverage

/-- The part of `compose` that chooses what the observer gets: the summary, the
arena lines, and whether anything is kept back. -/
def observed (full : Stats) (flags : StatsFlags) (observerLabel : Option Nat) :
    Stats × List ArenaLine × Bool :=
  let allArenas := if flags.contains .byArena || observerLabel.isSome then p.allArenaLines else []
  match observerLabel with
  | some low =>
    let visible := redactArenas allArenas low
    (redactSummary full visible low, visible, decide (low ≠ observerLabelTop))
  | none => (full, allArenas, false)

/-- The reset of the peak that `compose` makes on request. -/
def resetPeaks : Process σ := { p with engine := p.engine.map Engine.resetPeakLive }

/-- `compose`. -/
def compose (flags : StatsFlags) (observerLabel : Option Nat) (delivering : Bool) : Composed × Process σ :=
  let (epoch, p) := p.nextEpoch
  let (summary, visibleArenas, redacting) := p.observed (p.fullStats epoch flags) flags observerLabel
  let p := if flags.contains .resetPeaks && delivering && !redacting then p.resetPeaks else p
  ({ summary
     detail :=
      { arenas := if flags.contains .byArena then visibleArenas else []
        sizeClasses := if flags.contains .bySizeClass && !redacting then p.sizeClassLines else []
        cpus := if flags.contains .byCpu && !redacting then p.cpuCacheLines else []
        numaNodes := if flags.contains .byNuma && !redacting then p.numaNodeLines else [] } },
    p)

/-- `render_json`. -/
def renderJson (flags : StatsFlags) (observerLabel : Option Nat) (delivering : Bool) : String × Process σ :=
  let (c, p) := p.compose flags observerLabel delivering
  (c.summary.toJsonWith flags c.detail, p)

end Process

/-- `write_to_c_buf`, with the capacity of the buffer unless it is null: the full
length, and the bytes written. -/
def writeToCBuf (text : String) (cap : Option Nat) : Nat × List UInt8 :=
  let bytes := text.toUTF8.toList
  match cap with
  | some (room + 1) => (bytes.length, bytes.take room ++ [0])
  | _ => (bytes.length, [])

/-- `topomalloc_stats_json_for_label`. -/
def topomallocStatsJsonForLabel {σ : Type} (p : Process σ) (cap : Option Nat) (word : UInt64)
    (observerLabel : Nat) : (Nat × List UInt8) × Process σ :=
  match checkedFlags word with
  | none => ((0, []), p)
  | some flags =>
    let (json, p) := p.renderJson flags (some observerLabel) (cap.any (0 < ·))
    (writeToCBuf json cap, p)

/-! ## The observer's view -/

/-- What an observer may know of a process. -/
structure View where
  epoch : Nat
  profile : Profile
  arenas : List ArenaLine

/-- The view of an observer with label `low`. -/
def Process.view {σ : Type} (p : Process σ) (low : Nat) : View where
  epoch := p.statsEpoch
  profile := p.profile
  arenas := redactArenas p.allArenaLines low

/-- The report for an observer, computed from the view. -/
def View.report (v : View) (flags : StatsFlags) : String :=
  Stats.toJsonWith
    { epoch := wrappingAdd64 v.epoch 1
      profile := v.profile
      liveBytes := usedBytes v.arenas
      allocatedBytesTotal := usedBytes v.arenas
      liveArenas := v.arenas.length }
    flags { arenas := if flags.contains .byArena then v.arenas else [] }

namespace Process
variable {σ : Type} {p q : Process σ} {flags : StatsFlags} {low : Nat} {delivering : Bool}

/-- Whatever was recorded of the process, its epoch and profile are as they
were. -/
theorem fullStats_head (flags : StatsFlags) (epoch : Nat) :
    (p.fullStats epoch flags).epoch = epoch ∧ (p.fullStats epoch flags).profile = p.profile := by
  unfold fullStats
  cases p.engine <;> cases p.router <;> exact ⟨rfl, rfl⟩

/-- Below the top the summary keeps only the view, and the detail is marked as
kept back. -/
theorem observed_below (below : low ≠ observerLabelTop) (full : Stats) :
    p.observed full flags (some low) =
      ({ epoch := full.epoch
         profile := full.profile
         liveBytes := usedBytes (p.view low).arenas
         allocatedBytesTotal := usedBytes (p.view low).arenas
         liveArenas := (p.view low).arenas.length }, (p.view low).arenas, true) := by
  simp only [observed, redactSummary, view, Option.isSome_some, Bool.or_true, if_true, if_false,
    ne_eq, below, not_false_eq_true, decide_true]

/-- A report for a label below the top is a function of the view, and only the
epoch is different after it. -/
theorem renderJson_below (below : low ≠ observerLabelTop) :
    p.renderJson flags (some low) delivering =
      ((p.view low).report flags, { p with statsEpoch := wrappingAdd64 p.statsEpoch 1 }) := by
  obtain ⟨epoch, profile⟩ := fullStats_head (p := p.nextEpoch.2) flags p.nextEpoch.1
  simp only [renderJson, compose, observed_below below, epoch, profile, Bool.not_true,
    Bool.and_false, if_false, Bool.false_eq_true]
  rfl

/-- Two processes that look alike to an observer below the top give it the same
text, whatever the flags and whether or not the text is delivered, and the call
leaves everything but the snapshot epoch as it was. -/
theorem report_noninterference (flags : StatsFlags) (delivering delivering' : Bool)
    (below : low ≠ observerLabelTop) (sameEpoch : p.statsEpoch = q.statsEpoch)
    (sameProfile : p.profile = q.profile)
    (sameLines : redactArenas p.allArenaLines low = redactArenas q.allArenaLines low) :
    (p.renderJson flags (some low) delivering).1 = (q.renderJson flags (some low) delivering').1 ∧
      (p.renderJson flags (some low) delivering).2 =
        { p with statsEpoch := wrappingAdd64 p.statsEpoch 1 } := by
  have sameView : p.view low = q.view low := by
    simp only [view, sameEpoch, sameProfile, sameLines]
  rw [renderJson_below below, renderJson_below below, sameView]
  exact ⟨rfl, rfl⟩

/-- Two arenas, of which the second is under label 7 and has committed `bytes`. -/
def secretArenas (bytes : Nat) : ArenaTable := ((ArenaTable.new.create (.free 7)).2.tryCharge 1 bytes).2

/-- An engine with those arenas. -/
def secretEngine (g : ExtentManager) (bytes : Nat) : Engine Unit :=
  { Engine.single g with
    arenas := secretArenas bytes
    allocatedBytes := bytes
    peakLiveBytes := 2 * bytes }

/-- A process with that engine, and `bytes` resident. -/
def secretProcess (g : ExtentManager) (bytes : Nat) : Process Unit where
  statsEpoch := 4
  profile := .performance
  engine := some (secretEngine g bytes)
  gauges := {}
  placement := {}
  sampledInternalFragmentation := 0
  rss := bytes
  router := none

/-- An observer under label 3 cannot tell how much the arena under label 7 holds. -/
theorem report_noninterference_secret :
    ∃ g, ExtentManager.fourPages = some g ∧ ((secretProcess g 4096).renderJson .all (some 3) true).1 =
        ((secretProcess g 64).renderJson .all (some 3) true).1 := by
  obtain ⟨g, made⟩ := ExtentManager.exists_fourPages
  have sameLines : redactArenas (secretProcess g 4096).allArenaLines 3 =
      redactArenas (secretProcess g 64).allArenaLines 3 := by
    change redactArenas ((List.range maxArenas).filterMap (secretArenas 4096).line) 3 =
      redactArenas ((List.range maxArenas).filterMap (secretArenas 64).line) 3
    decide +kernel
  have same := report_noninterference (p := secretProcess g 4096) (q := secretProcess g 64)
    .all true true (by decide) rfl rfl sameLines
  exact ⟨g, made, same.1⟩

/-- An unrestricted report after a restricted one has another epoch than without it. -/
theorem restricted_report_shows_later :
    ∃ g, ExtentManager.fourPages = some g ∧
      ((secretProcess g 64).compose .all none true).1.summary.epoch = 5 ∧
      (((secretProcess g 64).renderJson .all (some 3) true).2.compose .all none true).1.summary.epoch = 6 := by
  obtain ⟨g, made⟩ := ExtentManager.exists_fourPages
  refine ⟨g, made, rfl, ?_⟩
  rw [renderJson_below (by decide)]
  rfl

end Process

/-- The calls of one observer, one after the other: what each returned and wrote. -/
def labelCalls {σ : Type} (low : Nat) (p : Process σ) :
    List (Option Nat × UInt64) → List (Nat × List UInt8)
  | [] => []
  | (cap, word) :: rest =>
    let (answer, p) := topomallocStatsJsonForLabel p cap word low
    answer :: labelCalls low p rest

/-- Observers that see the same view get the same bytes and lengths from the C call, however
often and with whatever buffers and flags they ask. -/
theorem label_calls_noninterference {σ : Type} {p q : Process σ} {low : Nat}
    (below : low ≠ observerLabelTop) (sameView : p.view low = q.view low)
    (calls : List (Option Nat × UInt64)) : labelCalls low p calls = labelCalls low q calls := by
  induction calls generalizing p q with
  | nil => rfl
  | cons call rest ih =>
    simp only [labelCalls, topomallocStatsJsonForLabel]
    cases checkedFlags call.2 with
    | none => rw [ih sameView]
    | some flags =>
      simp only [Process.renderJson_below below, sameView]
      refine congrArg _ (ih ?_)
      exact congrArg (fun v : View => { v with epoch := wrappingAdd64 v.epoch 1 }) sameView

theorem label_calls_noninterference_secret :
    ∃ g, ExtentManager.fourPages = some g ∧
      labelCalls 3 (Process.secretProcess g 4096) [(none, 0), (some 64, 0)] =
        labelCalls 3 (Process.secretProcess g 64) [(none, 0), (some 64, 0)] := by
  obtain ⟨g, made⟩ := ExtentManager.exists_fourPages
  have sameLines : redactArenas ((List.range maxArenas).filterMap (Process.secretArenas 4096).line) 3 =
      redactArenas ((List.range maxArenas).filterMap (Process.secretArenas 64).line) 3 := by
    decide +kernel
  refine ⟨g, made, label_calls_noninterference (by decide) ?_ _⟩
  exact congrArg (View.mk 4 .performance) sameLines

end Topomalloc
