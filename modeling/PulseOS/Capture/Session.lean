import PulseOS.Capture.Schema
import PulseOS.Lib.Saturating

/-!
# The sampling session

A session is created, started and stopped once.  It counts what was delivered and what was lost
on the way; when it stops, the counters decide the status.

* `LayeredLossCounters`, `SessionConfig`, `SessionMetadata` — with their encoders and decoders.
* `SamplingSession` — the life cycle (`start`, `stop`) and the counting functions.
* `reads_metadata` — the decoder inverts the encoder when every string and the per-CPU list fit
  their 32-bit prefixes (`SessionMetadata.Fits`); what it returns always fits (`total_metadata`).
* `modest_metadata` — it reserves with measure: the per-CPU list is reserved behind its check.
-/

namespace PulseOS.Capture

open Cursor UInt32

/-! ## Scope -/

inductive CaptureScope where
  | allCpus
  | perCpu (cpu : UInt32)
  | task (tid : UInt64)
  deriving DecidableEq, Repr

namespace CaptureScope

def toBytes : CaptureScope → UInt32 × UInt64
  | .allCpus => (0, 0)
  | .perCpu cpu => (1, cpu.toUInt64)
  | .task tid => (2, tid)

def fromRaw (scopeType : UInt32) (target : UInt64) : CaptureScope :=
  if scopeType = 1 then .perCpu target.toUInt32
  else if scopeType = 2 then .task target
  else .allCpus

@[simp] theorem fromRaw_toBytes (scope : CaptureScope) :
    fromRaw scope.toBytes.1 scope.toBytes.2 = scope := by
  cases scope with
  | allCpus => decide
  | perCpu cpu | task tid => simp [toBytes, fromRaw]

end CaptureScope

/-! ## Counters -/

structure LayeredLossCounters where
  attempted : UInt64 := 0
  delivered : UInt64 := 0
  lostRecordsTotal : UInt64 := 0
  perCpuLost : List (UInt32 × UInt64) := []
  ringbufLost : UInt64 := 0
  discardedRecords : UInt64 := 0
  reEntryDrops : UInt64 := 0
  helperFailures : UInt64 := 0
  budgetFailures : UInt64 := 0
  verifierFailures : UInt64 := 0
  loadFailures : UInt64 := 0
  attachFailures : UInt64 := 0
  consumerCorruptRecords : UInt64 := 0
  consumerOutOfBounds : UInt64 := 0
  deriving DecidableEq, Repr

/-- A CPU number and its count. -/
def CPU_LOST_SIZE : Nat := 12

namespace LayeredLossCounters

def new : LayeredLossCounters := {}

/-- The entry of `cpu` is raised; without one, an entry is added. -/
def addCpuLost (cpu : UInt32) (count : UInt64) : List (UInt32 × UInt64) → List (UInt32 × UInt64)
  | [] => [(cpu, count)]
  | (c, n) :: rest =>
    if c = cpu then (c, Saturating.addU64 n count) :: rest
    else (c, n) :: addCpuLost cpu count rest

variable (l : LayeredLossCounters)

def recordPerCpuLost (cpu : UInt32) (count : UInt64) : LayeredLossCounters :=
  { l with
    perCpuLost := addCpuLost cpu count l.perCpuLost
    lostRecordsTotal := Saturating.addU64 l.lostRecordsTotal count }

def hasLoss : Bool :=
  decide (0 < l.lostRecordsTotal) || decide (0 < l.ringbufLost) || decide (0 < l.discardedRecords)

def hasError : Bool :=
  decide (0 < l.reEntryDrops) || decide (0 < l.helperFailures) || decide (0 < l.budgetFailures) ||
    decide (0 < l.verifierFailures) || decide (0 < l.loadFailures) ||
    decide (0 < l.attachFailures) || decide (0 < l.consumerCorruptRecords) ||
    decide (0 < l.consumerOutOfBounds)

/-- One entry of the per-CPU list. -/
def cpuBytes (e : UInt32 × UInt64) : Bytes := leBytes 4 e.1.toNat ++ leBytes 8 e.2.toNat

def toBytes : Bytes :=
  leBytes 8 l.attempted.toNat ++ leBytes 8 l.delivered.toNat ++
    leBytes 8 l.lostRecordsTotal.toNat ++ leBytes 8 l.ringbufLost.toNat ++
    leBytes 8 l.discardedRecords.toNat ++ leBytes 8 l.reEntryDrops.toNat ++
    leBytes 8 l.helperFailures.toNat ++ leBytes 8 l.budgetFailures.toNat ++
    leBytes 8 l.verifierFailures.toNat ++ leBytes 8 l.loadFailures.toNat ++
    leBytes 8 l.attachFailures.toNat ++ leBytes 8 l.consumerCorruptRecords.toNat ++
    leBytes 8 l.consumerOutOfBounds.toNat ++ leBytes 4 l.perCpuLost.length ++
    l.perCpuLost.flatMap cpuBytes

def readCpu : Cursor CaptureError (UInt32 × UInt64) := do
  let cpu ← u32
  let count ← u64
  pure (cpu, count)

/-- `for _ in 0..cpu_count { per_cpu_lost.push(..) }`. -/
def readCpus (cpuCount : UInt32) : Cursor CaptureError (List (UInt32 × UInt64)) :=
  iterate (fun cpus => do
    let entry ← readCpu
    pure (cpus ++ [entry])) cpuCount.toNat []

def read : Cursor CaptureError LayeredLossCounters := do
  need (13 * 8 + 4) .truncatedMetadata
  let attempted ← u64
  let delivered ← u64
  let lostRecordsTotal ← u64
  let ringbufLost ← u64
  let discardedRecords ← u64
  let reEntryDrops ← u64
  let helperFailures ← u64
  let budgetFailures ← u64
  let verifierFailures ← u64
  let loadFailures ← u64
  let attachFailures ← u64
  let consumerCorruptRecords ← u64
  let consumerOutOfBounds ← u64
  let cpuCount ← u32
  need (cpuCount.toNat * CPU_LOST_SIZE) .truncatedMetadata
  reserve cpuCount.toNat CPU_LOST_SIZE
  let perCpuLost ← readCpus cpuCount
  pure {
    attempted, delivered, lostRecordsTotal, perCpuLost, ringbufLost, discardedRecords
    reEntryDrops, helperFailures, budgetFailures, verifierFailures, loadFailures
    attachFailures, consumerCorruptRecords, consumerOutOfBounds }

/-- The number of per-CPU entries fits its prefix. -/
def Fits : Prop := l.perCpuLost.length < 2 ^ 32

instance : Decidable l.Fits := inferInstanceAs (Decidable (_ < _))

end LayeredLossCounters

open LayeredLossCounters

theorem length_flatMap_cpuBytes : ∀ cpus : List (UInt32 × UInt64),
    (cpus.flatMap cpuBytes).length = cpus.length * CPU_LOST_SIZE
  | [] => rfl
  | e :: cpus => by
    simp [cpuBytes, CPU_LOST_SIZE]
    omega

theorem reads_cpus {cpus : List (UInt32 × UInt64)} (hlen : cpus.length < 2 ^ 32) :
    Reads (readCpus (ofNat cpus.length)) (cpus.flatMap cpuBytes) cpus := by
  unfold readCpus
  rw [toNat_ofNat', Nat.mod_eq_of_lt hlen]
  have hentry : ∀ e : UInt32 × UInt64, Reads readCpu (cpuBytes e) e := fun e =>
    (reads_u32 e.1).bind ((reads_u64 e.2).last rfl)
  have hloop := reads_iterate
    (fun cpus => do
      let entry ← readCpu
      pure (cpus ++ [entry])) (fun l x => l ++ [x]) cpuBytes cpus
    (fun l e _ => (hentry e).last rfl) []
  rwa [foldl_concat, List.nil_append] at hloop

theorem reads_counters {l : LayeredLossCounters} (h : l.Fits) : Reads read l.toBytes l := by
  have hcount : Reads u32 (leBytes 4 l.perCpuLost.length) (ofNat l.perCpuLost.length)
      (ε := CaptureError) := by
    have hread := reads_u32 (ε := CaptureError) (ofNat l.perCpuLost.length)
    rwa [toNat_ofNat', Nat.mod_eq_of_lt h] at hread
  refine reads_need ?_ (by simp [toBytes]; omega)
  unfold toBytes
  simp only [List.append_assoc]
  iterate 13 refine (reads_u64 _).bind ?_
  refine hcount.bind ?_
  refine reads_need ?_ ?_
  · exact reads_reserve ((reads_cpus h).last rfl)
  · rw [length_flatMap_cpuBytes, toNat_ofNat', Nat.mod_eq_of_lt h]

theorem total_cpus (count : UInt32) : Total (count.toNat * CPU_LOST_SIZE) 0 (readCpus count)
      fun cpus => cpus.length = count.toNat := by
  have hloop := total_iterate (· * CPU_LOST_SIZE)
    (fun cpus => do
      let entry ← readCpu
      pure (cpus ++ [entry])) (fun i cpus => cpus.length = i) ?_ count.toNat 0 [] rfl
  · rwa [Nat.zero_add, Nat.zero_mul] at hloop
  · intro k i cpus hlen
    rw [Nat.succ_mul]
    have hentry : Total (k * CPU_LOST_SIZE + CPU_LOST_SIZE) (k * CPU_LOST_SIZE) readCpu
        fun _ => True :=
      total_u32.bind fun _ _ =>
        total_u64.bind fun _ _ => total_pure trivial
    exact hentry.bind fun e _ => total_pure (by simp [hlen])

theorem total_counters : Total 0 0 read Fits := by
  refine .need (by omega) ?_
  iterate 13 refine total_u64.bind fun _ _ => ?_
  refine total_u32.bind fun count _ => ?_
  have hcount := count.toNat_lt
  refine .need (by unfold CPU_LOST_SIZE; omega) ?_
  refine (total_reserve _ _).bind fun _ _ => ?_
  refine (total_cpus count).bind fun cpus hcpus => total_pure ?_
  change cpus.length < 2 ^ 32
  omega

theorem modest_cpus (count : UInt32) : Modest (readCpus count) := by
  refine modest_iterate (fun cpus => ?_) _ _
  exact (modest_u32.bind fun _ => modest_u64.bind fun _ => modest_pure _).bind fun _ =>
    modest_pure _

theorem modest_counters : Modest read := by
  refine (modest_need _ _).bind fun _ => ?_
  iterate 4 refine modest_u64.bind fun _ => modest_u64.bind fun _ => modest_u64.bind fun _ => ?_
  refine modest_u64.bind fun _ => modest_u32.bind fun count => ?_
  exact modest_need_reserve ((modest_cpus count).bind fun _ => modest_pure _)

/-! ## Configuration -/

structure SessionConfig where
  pulseCommit : String
  targetArch : CaptureArch
  kernelElfPath : String
  kernelElfHash : String
  imagePath : String
  imageHash : String
  libbpfFixtureVersion : String
  progId : UInt32
  mapId : UInt32
  linkId : UInt32
  perfEventId : UInt32
  outputPath : String
  scope : CaptureScope
  samplePeriod : UInt64
  bufferPages : UInt64
  clockName : String
  clockResNs : UInt64
  deriving DecidableEq, Repr

namespace SessionConfig

variable (c : SessionConfig)

def toBytes : Bytes :=
  encodeString c.pulseCommit ++ leBytes 4 c.targetArch.asU32.toNat ++
    encodeString c.kernelElfPath ++ encodeString c.kernelElfHash ++ encodeString c.imagePath ++
    encodeString c.imageHash ++ encodeString c.libbpfFixtureVersion ++
    leBytes 4 c.progId.toNat ++ leBytes 4 c.mapId.toNat ++ leBytes 4 c.linkId.toNat ++
    leBytes 4 c.perfEventId.toNat ++ encodeString c.outputPath ++
    leBytes 4 c.scope.toBytes.1.toNat ++ leBytes 8 c.scope.toBytes.2.toNat ++
    leBytes 8 c.samplePeriod.toNat ++ leBytes 8 c.bufferPages.toNat ++
    encodeString c.clockName ++ leBytes 8 c.clockResNs.toNat

def read : Cursor CaptureError SessionConfig := do
  let pulseCommit ← decodeString
  need 4 .truncatedMetadata
  let rawArch ← u32
  let kernelElfPath ← decodeString
  let kernelElfHash ← decodeString
  let imagePath ← decodeString
  let imageHash ← decodeString
  let libbpfFixtureVersion ← decodeString
  need 16 .truncatedMetadata
  let progId ← u32
  let mapId ← u32
  let linkId ← u32
  let perfEventId ← u32
  let outputPath ← decodeString
  need 12 .truncatedMetadata
  let scopeType ← u32
  let scopeTarget ← u64
  need 16 .truncatedMetadata
  let samplePeriod ← u64
  let bufferPages ← u64
  let clockName ← decodeString
  need 8 .truncatedMetadata
  let clockResNs ← u64
  pure {
    pulseCommit, targetArch := CaptureArch.fromU32 rawArch, kernelElfPath, kernelElfHash
    imagePath, imageHash, libbpfFixtureVersion, progId, mapId, linkId, perfEventId, outputPath
    scope := CaptureScope.fromRaw scopeType scopeTarget
    samplePeriod, bufferPages, clockName, clockResNs }

def strings : List String :=
  [c.pulseCommit, c.kernelElfPath, c.kernelElfHash, c.imagePath, c.imageHash,
    c.libbpfFixtureVersion, c.outputPath, c.clockName]

def Fits : Prop := ∀ s ∈ c.strings, Short s

instance : Decidable c.Fits :=
  inferInstanceAs (Decidable (∀ s ∈ c.strings, Short s))

end SessionConfig

theorem reads_config {c : SessionConfig} (h : c.Fits) : Reads SessionConfig.read c.toBytes c := by
  simp only [SessionConfig.Fits, SessionConfig.strings, List.forall_mem_cons] at h
  obtain ⟨hcommit, helf, helfHash, himage, himageHash, hfixture, hout, hclock, -⟩ := h
  unfold SessionConfig.toBytes
  simp only [List.append_assoc]
  refine (reads_string hcommit).bind ?_
  refine reads_need ?_ (by simp)
  refine (reads_u32 _).bind ?_
  refine (reads_string helf).bind ?_
  refine (reads_string helfHash).bind ?_
  refine (reads_string himage).bind ?_
  refine (reads_string himageHash).bind ?_
  refine (reads_string hfixture).bind ?_
  refine reads_need ?_ (by simp; omega)
  iterate 4 refine (reads_u32 _).bind ?_
  refine (reads_string hout).bind ?_
  refine reads_need ?_ (by simp; omega)
  refine (reads_u32 _).bind ?_
  refine (reads_u64 _).bind ?_
  refine reads_need ?_ (by simp; omega)
  refine (reads_u64 _).bind ?_
  refine (reads_u64 _).bind ?_
  refine (reads_string hclock).bind ?_
  refine reads_need ?_ (by simp)
  refine (reads_u64 _).last ?_
  rw [CaptureArch.fromU32_asU32, CaptureScope.fromRaw_toBytes]

theorem total_config : Total 0 0 SessionConfig.read SessionConfig.Fits := by
  refine total_decodeString.bind fun _ hcommit => ?_
  refine .need (by omega) ?_
  refine total_u32.bind fun _ _ => ?_
  refine total_decodeString.bind fun _ helf => ?_
  refine total_decodeString.bind fun _ helfHash => ?_
  refine total_decodeString.bind fun _ himage => ?_
  refine total_decodeString.bind fun _ himageHash => ?_
  refine total_decodeString.bind fun _ hfixture => ?_
  refine .need (by omega) ?_
  iterate 4 refine total_u32.bind fun _ _ => ?_
  refine total_decodeString.bind fun _ hout => ?_
  refine .need (by omega) ?_
  refine total_u32.bind fun _ _ => ?_
  refine total_u64.bind fun _ _ => ?_
  refine .need (by omega) ?_
  refine total_u64.bind fun _ _ => ?_
  refine total_u64.bind fun _ _ => ?_
  refine total_decodeString.bind fun _ hclock => ?_
  refine .need (by omega) ?_
  refine total_u64.bind fun _ _ => total_pure ?_
  simp only [SessionConfig.Fits, SessionConfig.strings, List.forall_mem_cons]
  exact ⟨hcommit, helf, helfHash, himage, himageHash, hfixture, hout, hclock, nofun⟩

theorem modest_config : Modest SessionConfig.read := by
  refine modest_decodeString.bind fun _ => (modest_need _ _).bind fun _ => ?_
  refine modest_u32.bind fun _ => modest_decodeString.bind fun _ => ?_
  refine modest_decodeString.bind fun _ => modest_decodeString.bind fun _ => ?_
  refine modest_decodeString.bind fun _ => modest_decodeString.bind fun _ => ?_
  refine (modest_need _ _).bind fun _ => modest_u32.bind fun _ => modest_u32.bind fun _ => ?_
  refine modest_u32.bind fun _ => modest_u32.bind fun _ => modest_decodeString.bind fun _ => ?_
  refine (modest_need _ _).bind fun _ => modest_u32.bind fun _ => modest_u64.bind fun _ => ?_
  refine (modest_need _ _).bind fun _ => modest_u64.bind fun _ => modest_u64.bind fun _ => ?_
  refine modest_decodeString.bind fun _ => (modest_need _ _).bind fun _ => ?_
  exact modest_u64.bind fun _ => modest_pure _

/-! ## Metadata -/

structure SessionMetadata where
  config : SessionConfig
  startNs : UInt64
  stopNs : UInt64
  status : SessionStatusCode
  counters : LayeredLossCounters
  deriving DecidableEq, Repr

namespace SessionMetadata

def toBytes (m : SessionMetadata) : Bytes :=
  m.config.toBytes ++ leBytes 8 m.startNs.toNat ++ leBytes 8 m.stopNs.toNat ++
    leBytes 4 m.status.asU32.toNat ++ m.counters.toBytes

/-- The counters are decoded from the rest of the slice, `&slice[offset..]`, which reads the same
bytes as going on at the offset. -/
def read : Cursor CaptureError SessionMetadata := do
  let config ← SessionConfig.read
  need 20 .truncatedMetadata
  let startNs ← u64
  let stopNs ← u64
  let rawStatus ← u32
  let counters ← LayeredLossCounters.read
  pure { config, startNs, stopNs, status := SessionStatusCode.fromU32 rawStatus, counters }

def Fits (m : SessionMetadata) : Prop := m.config.Fits ∧ m.counters.Fits

end SessionMetadata

theorem reads_metadata {m : SessionMetadata} (h : m.Fits) :
    Reads SessionMetadata.read m.toBytes m := by
  unfold SessionMetadata.toBytes
  simp only [List.append_assoc]
  refine (reads_config h.1).bind ?_
  refine reads_need ?_ (by simp; omega)
  refine (reads_u64 _).bind ?_
  refine (reads_u64 _).bind ?_
  refine (reads_u32 _).bind ?_
  refine (reads_counters h.2).last ?_
  rw [SessionStatusCode.fromU32_asU32]

theorem total_metadata : Total 0 0 SessionMetadata.read SessionMetadata.Fits := by
  refine total_config.bind fun _ hconfig => ?_
  refine .need (by omega) ?_
  refine total_u64.bind fun _ _ => ?_
  refine total_u64.bind fun _ _ => ?_
  refine total_u32.bind fun _ _ => ?_
  exact total_counters.bind fun _ hcounters => total_pure ⟨hconfig, hcounters⟩

theorem modest_metadata : Modest SessionMetadata.read := by
  refine modest_config.bind fun _ => (modest_need _ _).bind fun _ => ?_
  refine modest_u64.bind fun _ => modest_u64.bind fun _ => modest_u32.bind fun _ => ?_
  exact modest_counters.bind fun _ => modest_pure _

/-! ## Life cycle -/

inductive SessionState where
  | created
  | running (startNs : UInt64)
  | stopped (startNs stopNs : UInt64)
  deriving DecidableEq, Repr

structure SamplingSession where
  config : SessionConfig
  state : SessionState
  counters : LayeredLossCounters
  deriving DecidableEq, Repr

namespace SamplingSession

def new (config : SessionConfig) : SamplingSession := ⟨config, .created, .new⟩

variable (s : SamplingSession)

def isRunning : Bool :=
  match s.state with
  | .running _ => true
  | _ => false

def start (nowNs : UInt64) : SamplingSession × Except CaptureError Unit :=
  match s.state with
  | .created => ({ s with state := .running nowNs }, .ok ())
  | _ => (s, .error (.ioError "session already started or finished"))

/-- The counters of a session after `f`. -/
def count (f : LayeredLossCounters → LayeredLossCounters) : SamplingSession :=
  { s with counters := f s.counters }

def recordSampleDelivered : SamplingSession :=
  s.count fun l => { l with attempted := l.attempted + 1, delivered := l.delivered + 1 }

def recordPerfLost (cpu : UInt32) (n : UInt64) : SamplingSession :=
  s.count fun l => { l with attempted := l.attempted + n }.recordPerCpuLost cpu n

def recordRingbufLost (n : UInt64) : SamplingSession :=
  s.count fun l =>
    { l with attempted := l.attempted + n, ringbufLost := Saturating.addU64 l.ringbufLost n }

def recordDiscardedRecord : SamplingSession :=
  s.count fun l => { l with discardedRecords := l.discardedRecords + 1 }

def recordConsumerCorruption : SamplingSession :=
  s.count fun l => { l with consumerCorruptRecords := l.consumerCorruptRecords + 1 }

/-- The status the counters call for. -/
def status : SessionStatusCode :=
  if s.counters.hasError then .incompleteError
  else if s.counters.hasLoss then .incompleteLoss
  else .complete

def stop (nowNs : UInt64) : SamplingSession × Except CaptureError SessionMetadata :=
  match s.state with
  | .running startNs =>
    ({ s with state := .stopped startNs nowNs },
      .ok { config := s.config, startNs, stopNs := nowNs, status := s.status,
            counters := s.counters })
  | _ => (s, .error (.ioError "cannot stop session that is not running"))

end SamplingSession

end PulseOS.Capture
