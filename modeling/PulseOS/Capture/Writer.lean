import PulseOS.Capture.Session

/-!
# The capture writer

The writer takes samples from the perf buffer and the ring buffer, turns each into a normalized
record, checks it against the registry and appends it; losses and malformed frames are counted.
`finish` stops the session and emits the file.

* `Call`, `CaptureWriter.apply`, `CaptureWriter.run` — the calls a client makes, in any order.
* `Report`, `Call.report` — what a call tells the writer, as one of a few kinds; `apply_eq` is the
  one equation the results about runs are derived from.
* `Holds.run` — what every run keeps: the buffer holds the encodings of the accepted records, all
  of them valid, and the counters agree with their number.
-/

namespace PulseOS.Capture

open List NormalizedRecord UInt64

def PERF_RECORD_LOST : UInt32 := 2
def PERF_RECORD_SAMPLE : UInt32 := 9

/-- `1 << 31`. -/
def BPF_RINGBUF_BUSY_BIT : UInt32 := 0x80000000

/-- `1 << 30`. -/
def BPF_RINGBUF_DISCARD_BIT : UInt32 := 0x40000000

def BPF_RINGBUF_HDR_MASK : UInt32 := BPF_RINGBUF_BUSY_BIT ||| BPF_RINGBUF_DISCARD_BIT

structure CaptureWriter where
  config : SessionConfig
  registry : SchemaRegistry
  session : SamplingSession
  recordsBuf : Bytes
  recordsCount : UInt64

namespace CaptureWriter

def new (config : SessionConfig) (registry : SchemaRegistry) : CaptureWriter where
  config := config
  registry := registry
  session := SamplingSession.new config
  recordsBuf := []
  recordsCount := 0

def start (w : CaptureWriter) (nowNs : UInt64) : CaptureWriter × Except CaptureError Unit :=
  let (session, r) := w.session.start nowNs
  ({ w with session }, r)

variable (w : CaptureWriter) (cpu : UInt32)

def writeRecord (record : NormalizedRecord) : CaptureWriter × Except CaptureError Unit :=
  if !w.session.isRunning then (w, .error (.ioError "session is not running"))
  else
    match w.registry.validateRecord record with
    | .error e => (w, .error e)
    | .ok () =>
      ({ w with
          recordsBuf := w.recordsBuf ++ record.toBytes
          recordsCount := w.recordsCount + 1
          session := w.session.recordSampleDelivered }, .ok ())

/-- A malformed sample or frame is counted and refused. -/
def corrupt : CaptureWriter × Except CaptureError Unit :=
  ({ w with session := w.session.recordConsumerCorruption }, .error .truncatedRecord)

def ingestPerfSample (rawSample : Bytes) : CaptureWriter × Except CaptureError Unit :=
  if !w.session.isRunning then (w, .error (.ioError "session is not running"))
  else if rawSample.length = 48 ∧ (w.registry.lookup PERF_EVENT_SOFTWARE_ID).isSome then
    match fromPerfEventSlice PERF_EVENT_SOFTWARE_ID rawSample with
    | .error e => (w, .error e)
    | .ok rec => w.writeRecord { rec with cpuId := cpu }
  else if 40 ≤ rawSample.length ∧ u32At rawSample 4 = 1 ∧ 1 ≤ u32At rawSample 0 ∧
      u32At rawSample 0 ≤ 7 ∧ (w.registry.lookup (u32At rawSample 0)).isSome then
    match fromTracepointSlice (u32At rawSample 0) rawSample with
    | .error e => (w, .error e)
    | .ok rec => w.writeRecord { rec with cpuId := cpu }
  else w.corrupt

def ingestPerfLost (count : UInt64) : CaptureWriter :=
  { w with session := w.session.recordPerfLost cpu count }

def ingestRawPerfFrame (rawFrame : Bytes) : CaptureWriter × Except CaptureError Unit :=
  if rawFrame.length < 8 then w.corrupt
  else
    let eventType := u32At rawFrame 0
    let recSize := leNat ((rawFrame.drop 6).take 2)
    if rawFrame.length < recSize then w.corrupt
    else if eventType = PERF_RECORD_SAMPLE then
      if recSize < 12 then w.corrupt
      else
        let rawLen := (u32At rawFrame 8).toNat
        if recSize < 12 + rawLen then w.corrupt
        else w.ingestPerfSample cpu ((rawFrame.drop 12).take rawLen)
    else if eventType = PERF_RECORD_LOST then
      if recSize < 24 then w.corrupt
      else (w.ingestPerfLost cpu (u64At rawFrame 16), .ok ())
    else w.corrupt

def ingestRingbufLost (count : UInt64) : CaptureWriter :=
  { w with session := w.session.recordRingbufLost count }

def ingestRingbufSample (rawSample : Bytes) : CaptureWriter × Except CaptureError Unit :=
  w.ingestPerfSample cpu rawSample

def ingestRawRingbufFrame (rawFrame : Bytes) : CaptureWriter × Except CaptureError Unit :=
  if rawFrame.length < 8 then w.corrupt
  else
    let rawHdr := u32At rawFrame 0
    -- the producer has not finished committing
    if rawHdr &&& BPF_RINGBUF_BUSY_BIT ≠ 0 then (w, .error .truncatedRecord)
    else
      let dataLen := (rawHdr &&& ~~~BPF_RINGBUF_HDR_MASK).toNat
      if rawFrame.length < 8 + dataLen then w.corrupt
      else if rawHdr &&& BPF_RINGBUF_DISCARD_BIT ≠ 0 then
        ({ w with session := w.session.recordDiscardedRecord }, .ok ())
      else w.ingestRingbufSample cpu ((rawFrame.drop 8).take dataLen)

variable (metadata : SessionMetadata)

def metadataBuf : Bytes :=
  w.registry.toBytes ++ metadata.toBytes

def header : CaptureHeader :=
  let metadataOffset := CAPTURE_HEADER_SIZE
  let metadataSize := (w.metadataBuf metadata).length
  let recordsOffset := metadataOffset + metadataSize
  let recordsSize := w.recordsBuf.length
  let trailerOffset := recordsOffset + recordsSize
  { CaptureHeader.new w.config.targetArch with
    metadataOffset := ofNat metadataOffset
    metadataSize := ofNat metadataSize
    recordsOffset := ofNat recordsOffset
    recordsCount := w.recordsCount
    recordsSize := ofNat recordsSize
    trailerOffset := ofNat trailerOffset
    trailerSize := ofNat CAPTURE_TRAILER_SIZE }

/-- Everything the checksum covers. -/
def body : Bytes :=
  (w.header metadata).toBytes ++ w.metadataBuf metadata ++ w.recordsBuf

def trailer : CaptureTrailer :=
  CaptureTrailer.new w.recordsCount (ofNat w.recordsBuf.length)
    (computeChecksum (w.body metadata)) metadata.status

def output : Bytes :=
  w.body metadata ++ (w.trailer metadata).toBytes

/-- A file larger than an allocation can be makes `Vec::with_capacity` panic. -/
def finish (stopNs : UInt64) : CaptureWriter × Exec CaptureError Bytes :=
  match w.session.stop stopNs with
  | (session, .error e) => ({ w with session }, Exec.err e)
  | (session, .ok metadata) =>
    ({ w with session },
      if (w.body metadata).length + CAPTURE_TRAILER_SIZE ≤ ISIZE_MAX then .ok (w.output metadata)
      else Exec.panic .overflow)

end CaptureWriter

/-! ## Calls -/

/-- What a client can call. -/
inductive Call where
  | start (nowNs : UInt64)
  | writeRecord (record : NormalizedRecord)
  | ingestPerfSample (cpu : UInt32) (rawSample : Bytes)
  | ingestPerfLost (cpu : UInt32) (count : UInt64)
  | ingestRawPerfFrame (cpu : UInt32) (rawFrame : Bytes)
  | ingestRingbufLost (count : UInt64)
  | ingestRingbufSample (cpu : UInt32) (rawSample : Bytes)
  | ingestRawRingbufFrame (cpu : UInt32) (rawFrame : Bytes)
  | finish (stopNs : UInt64)
  deriving DecidableEq, Repr

namespace CaptureWriter

def apply (w : CaptureWriter) : Call → CaptureWriter
  | .start nowNs => (w.start nowNs).1
  | .writeRecord record => (w.writeRecord record).1
  | .ingestPerfSample cpu rawSample => (w.ingestPerfSample cpu rawSample).1
  | .ingestPerfLost cpu count => w.ingestPerfLost cpu count
  | .ingestRawPerfFrame cpu rawFrame => (w.ingestRawPerfFrame cpu rawFrame).1
  | .ingestRingbufLost count => w.ingestRingbufLost count
  | .ingestRingbufSample cpu rawSample => (w.ingestRingbufSample cpu rawSample).1
  | .ingestRawRingbufFrame cpu rawFrame => (w.ingestRawRingbufFrame cpu rawFrame).1
  | .finish stopNs => (w.finish stopNs).1

def run (w : CaptureWriter) (calls : List Call) : CaptureWriter := calls.foldl apply w

end CaptureWriter

/-! ## Reports -/

/-- What a call tells the writer. -/
inductive Report where
  /-- a record to be written -/
  | record (r : NormalizedRecord)
  /-- a sample that none of the known formats fits -/
  | unknown
  /-- a frame that does not hold what its header says -/
  | malformed
  | perfLost (cpu : UInt32) (count : UInt64)
  | ringbufLost (count : UInt64)
  | discarded
  /-- a ring-buffer frame the producer still writes -/
  | busy
  | start (nowNs : UInt64)
  | finish (stopNs : UInt64)
  deriving DecidableEq, Repr

variable (reg : SchemaRegistry) (cpu : UInt32) (raw : Bytes)

/-- The record of a sample: a software `perf_event` by its size, a tracepoint by its first two
words. -/
def SchemaRegistry.normalize : Option NormalizedRecord :=
  if raw.length = 48 ∧ (reg.lookup PERF_EVENT_SOFTWARE_ID).isSome then
    (fromPerfEventSlice PERF_EVENT_SOFTWARE_ID raw).toOption.map
      fun rec => { rec with cpuId := cpu }
  else if 40 ≤ raw.length ∧ u32At raw 4 = 1 ∧ 1 ≤ u32At raw 0 ∧ u32At raw 0 ≤ 7 ∧
      (reg.lookup (u32At raw 0)).isSome then
    (fromTracepointSlice (u32At raw 0) raw).toOption.map
      fun rec => { rec with cpuId := cpu }
  else none

def SchemaRegistry.sampleReport : Report :=
  match reg.normalize cpu raw with
  | some rec => .record rec
  | none => .unknown

/-- What a raw perf-buffer frame holds. -/
def SchemaRegistry.perfFrameReport : Report :=
  let recSize := leNat ((raw.drop 6).take 2)
  if raw.length < 8 then .malformed
  else if raw.length < recSize then .malformed
  else if u32At raw 0 = PERF_RECORD_SAMPLE then
    if recSize < 12 then .malformed
    else if recSize < 12 + (u32At raw 8).toNat then .malformed
    else reg.sampleReport cpu ((raw.drop 12).take (u32At raw 8).toNat)
  else if u32At raw 0 = PERF_RECORD_LOST then
    if recSize < 24 then .malformed else .perfLost cpu (u64At raw 16)
  else .malformed

/-- What a raw ring-buffer frame holds. -/
def SchemaRegistry.ringbufFrameReport : Report :=
  let dataLen := (u32At raw 0 &&& ~~~BPF_RINGBUF_HDR_MASK).toNat
  if raw.length < 8 then .malformed
  else if u32At raw 0 &&& BPF_RINGBUF_BUSY_BIT ≠ 0 then .busy
  else if raw.length < 8 + dataLen then .malformed
  else if u32At raw 0 &&& BPF_RINGBUF_DISCARD_BIT ≠ 0 then .discarded
  else reg.sampleReport cpu ((raw.drop 8).take dataLen)

def Call.report : Call → Report
  | .start nowNs => .start nowNs
  | .writeRecord record => .record record
  | .ingestPerfSample cpu raw => reg.sampleReport cpu raw
  | .ingestPerfLost cpu count => .perfLost cpu count
  | .ingestRawPerfFrame cpu raw => reg.perfFrameReport cpu raw
  | .ingestRingbufLost count => .ringbufLost count
  | .ingestRingbufSample cpu raw => reg.sampleReport cpu raw
  | .ingestRawRingbufFrame cpu raw => reg.ringbufFrameReport cpu raw
  | .finish stopNs => .finish stopNs

namespace CaptureWriter

variable (w : CaptureWriter)

/-- The writer after a report. -/
def receive : Report → CaptureWriter
  | .record r => (w.writeRecord r).1
  | .unknown => if w.session.isRunning then w.corrupt.1 else w
  | .malformed => w.corrupt.1
  | .perfLost cpu count => w.ingestPerfLost cpu count
  | .ringbufLost count => w.ingestRingbufLost count
  | .discarded => { w with session := w.session.recordDiscardedRecord }
  | .busy => w
  | .start nowNs => (w.start nowNs).1
  | .finish stopNs => (w.finish stopNs).1

theorem writeRecord_of_not_running {w : CaptureWriter} (h : w.session.isRunning = false)
    (r : NormalizedRecord) : (w.writeRecord r).1 = w := by
  simp [writeRecord, h]

theorem ingestPerfSample_eq (cpu : UInt32) (raw : Bytes) :
    (w.ingestPerfSample cpu raw).1 = w.receive (w.registry.sampleReport cpu raw) := by
  unfold ingestPerfSample SchemaRegistry.sampleReport SchemaRegistry.normalize
  cases hrun : w.session.isRunning with
  | false =>
    rw [Bool.not_false, if_pos rfl]
    split
    · exact (writeRecord_of_not_running hrun _).symm
    · simp [receive, hrun]
  | true =>
    rw [Bool.not_true, if_neg Bool.false_ne_true]
    split
    · rename_i hperf
      have hlong : ¬ raw.length < 48 := by omega
      simp [fromPerfEventSlice, hlong, Except.toOption, receive]
    · split
      · rename_i htrace
        have hlong : ¬ raw.length < 40 := by omega
        simp [fromTracepointSlice, hlong, Except.toOption, receive]
      · simp [receive, hrun]

theorem ingestRawPerfFrame_eq (cpu : UInt32) (raw : Bytes) :
    (w.ingestRawPerfFrame cpu raw).1 = w.receive (w.registry.perfFrameReport cpu raw) := by
  unfold ingestRawPerfFrame SchemaRegistry.perfFrameReport
  dsimp only
  split
  · rfl
  split
  · rfl
  split
  · split
    · rfl
    split
    · rfl
    · exact ingestPerfSample_eq w cpu _
  split
  · split <;> rfl
  · rfl

theorem ingestRawRingbufFrame_eq (cpu : UInt32) (raw : Bytes) :
    (w.ingestRawRingbufFrame cpu raw).1 = w.receive (w.registry.ringbufFrameReport cpu raw) := by
  unfold ingestRawRingbufFrame SchemaRegistry.ringbufFrameReport ingestRingbufSample
  dsimp only
  split
  · rfl
  split
  · rfl
  split
  · rfl
  split
  · rfl
  · exact ingestPerfSample_eq w cpu _

/-- **A call does what its report calls for.** -/
theorem apply_eq (c : Call) : w.apply c = w.receive (c.report w.registry) := by
  cases c with
  | start nowNs | writeRecord record => rfl
  | ingestPerfSample cpu raw | ingestRingbufSample cpu raw => exact ingestPerfSample_eq w cpu raw
  | ingestPerfLost cpu count => rfl
  | ingestRawPerfFrame cpu raw => exact ingestRawPerfFrame_eq w cpu raw
  | ingestRingbufLost count => rfl
  | ingestRawRingbufFrame cpu raw => exact ingestRawRingbufFrame_eq w cpu raw
  | finish stopNs => rfl

/-! ## Runs -/

/-- The record a call gets into the capture, if any. -/
def accepted (c : Call) : List NormalizedRecord :=
  match c.report w.registry with
  | .record r =>
    match (w.writeRecord r).2 with
    | .ok () => [r]
    | .error _ => []
  | _ => []

/-- The records a sequence of calls gets into the capture, in order. -/
def written : CaptureWriter → List Call → List NormalizedRecord
  | _, [] => []
  | w, c :: calls => w.accepted c ++ (w.apply c).written calls

/-- What a writer holds after the records `recs` were accepted. -/
structure Holds (config : SessionConfig) (registry : SchemaRegistry) (recs : List NormalizedRecord)
    (w : CaptureWriter) : Prop where
  configKept : w.config = config
  sessionConfig : w.session.config = config
  registryKept : w.registry = registry
  buf : w.recordsBuf = recs.flatMap NormalizedRecord.toBytes
  count : w.recordsCount = ofNat recs.length
  delivered : w.session.counters.delivered = w.recordsCount
  valid : ∀ r ∈ recs, registry.validateRecord r = .ok ()

theorem holds_new (config : SessionConfig) (registry : SchemaRegistry) :
    Holds config registry [] (new config registry) where
  configKept := rfl
  sessionConfig := rfl
  registryKept := rfl
  buf := rfl
  count := rfl
  delivered := rfl
  valid := nofun

section Holds

variable {config : SessionConfig} {registry : SchemaRegistry} {recs : List NormalizedRecord}
  {w : CaptureWriter}

theorem Holds.session (h : Holds config registry recs w) {session : SamplingSession}
    (hconfig : session.config = w.session.config)
    (hdelivered : session.counters.delivered = w.session.counters.delivered) :
    Holds config registry recs { w with session } where
  configKept := h.configKept
  sessionConfig := hconfig.trans h.sessionConfig
  registryKept := h.registryKept
  buf := h.buf
  count := h.count
  delivered := hdelivered.trans h.delivered
  valid := h.valid

theorem writeRecord_cases (w : CaptureWriter) (r : NormalizedRecord) :
    (∃ e, w.writeRecord r = (w, .error e)) ∨
      w.session.isRunning = true ∧ w.registry.validateRecord r = .ok () ∧ w.writeRecord r =
          ({ w with
              recordsBuf := w.recordsBuf ++ r.toBytes
              recordsCount := w.recordsCount + 1
              session := w.session.recordSampleDelivered }, .ok ()) := by
  unfold writeRecord
  cases hrun : w.session.isRunning with
  | false => exact .inl ⟨_, rfl⟩
  | true =>
    cases hval : w.registry.validateRecord r with
    | error e => exact .inl ⟨e, rfl⟩
    | ok u => exact .inr ⟨rfl, rfl, rfl⟩

theorem Holds.writeRecord (h : Holds config registry recs w) (r : NormalizedRecord) :
    Holds config registry
      (recs ++ match (w.writeRecord r).2 with
        | .ok () => [r]
        | .error _ => []) (w.writeRecord r).1 := by
  rcases writeRecord_cases w r with ⟨e, he⟩ | ⟨-, hval, hok⟩
  · rw [he, append_nil]
    exact h
  · rw [hok]
    refine ⟨h.configKept, h.sessionConfig, h.registryKept, ?_, ?_, ?_, fun r' hr' => ?_⟩
    · change w.recordsBuf ++ r.toBytes = _
      rw [h.buf, flatMap_append, flatMap_singleton]
    · change w.recordsCount + 1 = _
      rw [h.count, length_append, length_singleton, ofNat_add]
      rfl
    · change w.session.counters.delivered + 1 = w.recordsCount + 1
      rw [h.delivered]
    · rcases mem_append.mp hr' with hr' | hr'
      · exact h.valid r' hr'
      · rw [mem_singleton.mp hr', ← h.registryKept]
        exact hval

theorem session_start (s : SamplingSession) (nowNs : UInt64) :
    (s.start nowNs).1.config = s.config ∧ (s.start nowNs).1.counters = s.counters := by
  unfold SamplingSession.start
  split <;> exact ⟨rfl, rfl⟩

theorem session_stop (s : SamplingSession) (nowNs : UInt64) :
    (s.stop nowNs).1.config = s.config ∧ (s.stop nowNs).1.counters = s.counters := by
  unfold SamplingSession.stop
  split <;> exact ⟨rfl, rfl⟩

theorem finish_fst (w : CaptureWriter) (stopNs : UInt64) :
    (w.finish stopNs).1 = { w with session := (w.session.stop stopNs).1 } := by
  unfold finish
  split
  · rename_i h
    rw [h]
  · rename_i h
    rw [h]

theorem Holds.apply (h : Holds config registry recs w) (c : Call) :
    Holds config registry (recs ++ w.accepted c) (w.apply c) := by
  rw [apply_eq]
  unfold accepted
  cases hc : c.report w.registry with
  | record r => exact h.writeRecord r
  | unknown =>
    rw [append_nil]
    unfold receive
    dsimp only
    split
    · exact h.session rfl rfl
    · exact h
  | malformed | perfLost cpu count | ringbufLost count | discarded =>
    exact (append_nil recs).symm ▸ h.session rfl rfl
  | busy => exact (append_nil recs).symm ▸ h
  | start nowNs =>
    rw [append_nil]
    obtain ⟨hconfig, hcounters⟩ := session_start w.session nowNs
    exact h.session hconfig (congrArg LayeredLossCounters.delivered hcounters)
  | finish stopNs =>
    rw [append_nil]
    obtain ⟨hconfig, hcounters⟩ := session_stop w.session stopNs
    change Holds config registry recs (w.finish stopNs).1
    rw [finish_fst]
    exact h.session hconfig (congrArg LayeredLossCounters.delivered hcounters)

/-- **What every sequence of calls keeps.** -/
theorem Holds.run : ∀ (calls : List Call) {recs : List NormalizedRecord} {w : CaptureWriter},
    Holds config registry recs w → Holds config registry (recs ++ w.written calls) (w.run calls)
  | [], recs, w, h => by
    simp only [written, append_nil]
    exact h
  | c :: calls, recs, w, h => by
    simp only [written, ← append_assoc]
    exact (h.apply c).run calls

end Holds

end CaptureWriter

end PulseOS.Capture
