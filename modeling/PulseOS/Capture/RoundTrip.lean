import PulseOS.Capture.Reader

/-!
# A capture reads back as it was written

The lengths of strings, field lists, the schema table and the per-CPU list are written as 32-bit
prefixes, cut off without a check.  A file reads back as what the writer held exactly if none of
them was cut.

* `header_layout`, `frame_output` — the header points to what `finish` wrote, and the trailer is
  accepted.
* `reads_back_iff` — **the file reads back as it was written if and only if every length fits its
  prefix.**
* `wide_schema_lost` — a schema with `2 ^ 32` fields does not read back.
-/

namespace PulseOS.Capture

open SchemaRegistry

open Cursor CaptureWriter List CaptureHeader CaptureTrailer CaptureReader Except

/-- What a validated record says about its payload. -/
theorem SchemaRegistry.payload_lt {reg : SchemaRegistry} {r : NormalizedRecord}
    (h : reg.validateRecord r = .ok ()) : r.payload.length < 2 ^ 32 := by
  unfold validateRecord at h
  split at h
  · exact nomatch h
  · rename_i schema _
    split at h
    · exact nomatch h
    · split at h
      · exact nomatch h
      · rename_i hlen
        rw [not_not.mp hlen]
        exact schema.payloadSize.toNat_lt

theorem length_le_flatMap : ∀ recs : List NormalizedRecord,
    recs.length ≤ (recs.flatMap NormalizedRecord.toBytes).length
  | [] => le_rfl
  | r :: recs => by
    have hrest := length_le_flatMap recs
    rw [flatMap_cons, length_append, NormalizedRecord.length_toBytes, length_cons]
    unfold RECORD_HEADER_SIZE
    omega

section Output

variable {w : CaptureWriter} {m : SessionMetadata}

theorem length_body (w : CaptureWriter) (m : SessionMetadata) :
    (w.body m).length = CAPTURE_HEADER_SIZE + (w.metadataBuf m).length + w.recordsBuf.length := by
  unfold body
  rw [length_append, length_append, length_toBytes ⟨rfl, rfl⟩]

theorem length_output (w : CaptureWriter) (m : SessionMetadata) :
    (w.output m).length = (w.body m).length + CAPTURE_TRAILER_SIZE := by
  unfold output
  rw [length_append, length_toBytes rfl]

/-- Where the header says the parts of the file are. -/
structure Layout (w : CaptureWriter) (m : SessionMetadata) : Prop where
  metadataOffset : (w.header m).metadataOffset.toNat = CAPTURE_HEADER_SIZE
  metadataSize : (w.header m).metadataSize.toNat = (w.metadataBuf m).length
  recordsOffset : (w.header m).recordsOffset.toNat = CAPTURE_HEADER_SIZE + (w.metadataBuf m).length
  recordsSize : (w.header m).recordsSize.toNat = w.recordsBuf.length
  trailerOffset : (w.header m).trailerOffset.toNat = (w.body m).length
  trailerSize : (w.header m).trailerSize.toNat = CAPTURE_TRAILER_SIZE

section Fits

variable (hlen : (w.body m).length + CAPTURE_TRAILER_SIZE ≤ ISIZE_MAX)

include hlen

theorem header_layout : Layout w m := by
  have hbody := length_body w m
  have hfit : ∀ n, n ≤ (w.body m).length → (UInt64.ofNat n).toNat = n := by
    intro n hn
    rw [UInt64.toNat_ofNat', Nat.mod_eq_of_lt]
    unfold ISIZE_MAX at hlen
    omega
  refine ⟨hfit _ (by omega), hfit _ (by omega), hfit _ (by omega), hfit _ (by omega), ?_, rfl⟩
  rw [hbody]
  exact hfit _ (by omega)

/-- **The reader accepts the frame of a finished file.** -/
theorem frame_output :
    (CaptureReader.frame (w.output m)).outcome = .ok (w.header m, w.trailer m) := by
  have hlay := header_layout hlen
  have houtLen := length_output w m
  rw [CaptureReader.frame_eq_ok, hlay.trailerOffset, hlay.trailerSize]
  have hheader : (CaptureHeader.fromBytes (w.output m)).outcome = .ok (w.header m) := by
    have hout : w.output m = (w.header m).toBytes ++
        (w.metadataBuf m ++ (w.recordsBuf ++ (w.trailer m).toBytes)) := by
      simp only [output, body, append_assoc]
    rw [CaptureHeader.fromBytes, hout]
    exact (reads_header ⟨rfl, rfl⟩).start _ (by rw [← hout, houtLen]; exact hlen)
  have htrailer : (CaptureTrailer.fromBytes (((w.output m).drop (w.body m).length).take
      CAPTURE_TRAILER_SIZE)).outcome = .ok (w.trailer m) := by
    have hcut : ((w.output m).drop (w.body m).length).take CAPTURE_TRAILER_SIZE =
        (w.trailer m).toBytes ++ [] := by
      rw [output, drop_left, append_nil]
      exact take_of_length_le (length_toBytes rfl).le
    rw [hcut]
    exact (reads_trailer rfl).start _ (by
      rw [append_nil, length_toBytes rfl]
      decide)
  refine ⟨hheader, ?_, houtLen.ge, htrailer, rfl, ?_, ?_⟩
  · unfold ISIZE_MAX at hlen
    omega
  · exact UInt64.toNat_inj.mp rfl
  · rw [output, take_left]
    rfl

omit hlen in
theorem slice_metadataBuf (w : CaptureWriter) (m : SessionMetadata) :
    ((w.output m).drop CAPTURE_HEADER_SIZE).take (w.metadataBuf m).length = w.metadataBuf m := by
  have hhead := length_toBytes (h := w.header m) ⟨rfl, rfl⟩
  simp only [output, body, append_assoc]
  rw [← hhead, drop_left, take_left]

omit hlen in
theorem slice_recordsBuf (w : CaptureWriter) (m : SessionMetadata) :
    ((w.output m).drop (CAPTURE_HEADER_SIZE + (w.metadataBuf m).length)).take
      w.recordsBuf.length = w.recordsBuf := by
  have hhead := length_toBytes (h := w.header m) ⟨rfl, rfl⟩
  have hfront : ((w.header m).toBytes ++ w.metadataBuf m).length =
      CAPTURE_HEADER_SIZE + (w.metadataBuf m).length := by
    rw [length_append, hhead]
  unfold output body
  rw [append_assoc _ w.recordsBuf, ← hfront, drop_left, take_left]

theorem metadata_output (hreg : w.registry.Fits) (hm : m.Fits) :
    (metadata (w.output m) (w.header m)).outcome = .ok (w.registry, m) := by
  have hlay := header_layout hlen
  have hbody := length_body w m
  have houtLen := length_output w m
  have hsum : w.registry.toBytes.length + m.toBytes.length = (w.metadataBuf m).length :=
    (length_append).symm
  rw [metadata_eq_ok, hlay.metadataOffset, hlay.metadataSize, slice_metadataBuf]
  refine ⟨?_, by omega, w.registry.toBytes.length, ?_, by omega, ?_⟩
  · unfold ISIZE_MAX at hlen
    omega
  · have hread := reads_registry hreg [] m.toBytes (by
      rw [nil_append, length_append]
      omega)
    rwa [nil_append, length_nil, Nat.zero_add] at hread
  · have hread := (reads_metadata hm).start [] (by
      rw [append_nil]
      omega)
    rw [append_nil] at hread
    rwa [metadataBuf, drop_left]

omit hlen in
theorem metadata_fits {bytes : Bytes} {h : CaptureHeader} {reg : SchemaRegistry}
    (hlen : bytes.length ≤ ISIZE_MAX)
    (hok : (metadata bytes h).outcome = .ok (reg, m)) : reg.Fits ∧ m.Fits := by
  obtain ⟨-, -, consumed, hreg, -, hm⟩ := metadata_eq_ok.mp hok
  obtain ⟨⟨m', next⟩, hread, hpure⟩ := Metered.bind_eq_ok.mp hm
  obtain rfl := ok.inj hpure
  constructor
  · refine ((total_registry _ 0 ?_ (Nat.zero_le _)).value hreg).2.2
    simp only [length_take, length_drop]
    omega
  · refine ((total_metadata _ 0 ?_ (Nat.zero_le _)).value hread).2.2
    simp only [length_take, length_drop]
    omega

variable {recs : List NormalizedRecord}

/-- **The record loop returns the accepted records, or fails.** -/
theorem records_output (hbuf : w.recordsBuf = recs.flatMap NormalizedRecord.toBytes)
    (hcount : w.recordsCount = UInt64.ofNat recs.length)
    (hsmall : ∀ r ∈ recs, r.payload.length < 2 ^ 32) {reg : SchemaRegistry}
    {out : List NormalizedRecord} :
    (records (w.output m) (w.header m) reg).outcome = .ok out ↔
      out = recs ∧ ∀ r ∈ recs, reg.validateRecord r = .ok () := by
  have hlay := header_layout hlen
  have hbody := length_body w m
  have houtLen := length_output w m
  have hadd : CAPTURE_HEADER_SIZE + (w.metadataBuf m).length + w.recordsBuf.length < 2 ^ 64 := by
    unfold ISIZE_MAX at hlen
    omega
  have hrounds : recs.length ≤ w.recordsBuf.length := hbuf ▸ length_le_flatMap recs
  rw [records_eq_ok, hlay.recordsOffset, hlay.recordsSize]
  have hmax : (w.output m).length ≤ ISIZE_MAX := houtLen ▸ hlen
  have hend : CAPTURE_HEADER_SIZE + (w.metadataBuf m).length + w.recordsBuf.length ≤
      (w.output m).length := by omega
  have hloop := @readRecords_encoded reg (w.output m) _ hmax hend recs
    w.recordsBuf.length (CAPTURE_HEADER_SIZE + (w.metadataBuf m).length) out hsmall
    (Nat.le_add_right _ _) hrounds (by rw [Nat.add_sub_cancel_left, slice_recordsBuf, hbuf])
  rw [hloop]
  constructor
  · rintro ⟨-, -, hout, -⟩
    exact hout
  · rintro ⟨rfl, hvalid⟩
    exact ⟨hadd, hend, ⟨rfl, hvalid⟩, hcount.symm⟩

end Fits

end Output

/-! ## Runs of the writer -/

theorem finish_eq_ok {w : CaptureWriter} {stopNs : UInt64} {bytes : Bytes} :
    (w.finish stopNs).2 = .ok bytes ↔ ∃ m, (w.session.stop stopNs).2 = .ok m ∧
      (w.body m).length + CAPTURE_TRAILER_SIZE ≤ ISIZE_MAX ∧ bytes = w.output m := by
  unfold finish
  rcases hstop : w.session.stop stopNs with ⟨session, e | m⟩
  · simp
  · dsimp only
    split
    · rename_i hlen
      constructor
      · intro h
        exact ⟨m, rfl, hlen, (ok.inj h).symm⟩
      · rintro ⟨m', hm, -, rfl⟩
        rw [ok.inj hm]
    · rename_i hlen
      constructor
      · intro h
        exact absurd h (Exec.panic_ne_ok _ _)
      · rintro ⟨m', hm, hlen', -⟩
        rw [ok.inj hm] at hlen
        exact absurd hlen' hlen

/-- The metadata of a session that stops carries its configuration, counters and status. -/
theorem stop_eq_ok {s : SamplingSession} {nowNs : UInt64} {m : SessionMetadata}
    (h : (s.stop nowNs).2 = .ok m) :
    m.config = s.config ∧ m.counters = s.counters ∧ m.status = s.status := by
  unfold SamplingSession.stop at h
  split at h
  · obtain rfl := ok.inj h
    exact ⟨rfl, rfl, rfl⟩
  · exact nomatch h

section Runs

variable {config : SessionConfig} {registry : SchemaRegistry} {recs : List NormalizedRecord}
  {w : CaptureWriter} {m : SessionMetadata}

section
variable (h : Holds config registry recs w)
  (hlen : (w.body m).length + CAPTURE_TRAILER_SIZE ≤ ISIZE_MAX)
include h hlen

/-- The accepted records take the buffer, whose size bounds their number. -/
theorem CaptureWriter.Holds.records_size : w.recordsCount.toNat = recs.length := by
  have hbody := length_body w m
  have hrounds := length_le_flatMap recs
  rw [← h.buf] at hrounds
  rw [h.count, UInt64.toNat_ofNat', Nat.mod_eq_of_lt]
  unfold ISIZE_MAX at hlen
  omega

/-- **The reader on a finished file**: the frame and the records are what was written, whatever
registry and metadata are decoded as. -/
theorem CaptureWriter.Holds.fromBytes_output {d : CaptureData} :
    (CaptureReader.fromBytes (w.output m)).outcome = .ok d ↔
      d.header = w.header m ∧ d.trailer = w.trailer m ∧ d.records = recs ∧
      (metadata (w.output m) (w.header m)).outcome = .ok (d.registry, d.metadata) ∧
      ∀ r ∈ recs, d.registry.validateRecord r = .ok () := by
  have hsmall : ∀ r ∈ recs, r.payload.length < 2 ^ 32 := fun r hr =>
    payload_lt (h.valid r hr)
  rw [fromBytes_eq_ok, frame_output hlen]
  constructor
  · rintro ⟨hframe, hmeta, hrecs⟩
    obtain ⟨hheader, htrailer⟩ := Prod.mk.inj (ok.inj hframe)
    rw [← hheader] at hmeta hrecs
    obtain ⟨hout, hvalid⟩ := (records_output hlen h.buf h.count hsmall).mp hrecs
    exact ⟨hheader.symm, htrailer.symm, hout, hmeta, hvalid⟩
  · rintro ⟨hheader, htrailer, hout, hmeta, hvalid⟩
    rw [hheader, htrailer]
    exact ⟨rfl, hmeta, (records_output hlen h.buf h.count hsmall).mpr ⟨hout, hvalid⟩⟩

end

end Runs

/-- Header and trailer agree with what is between them in counts, sizes and status. -/
structure CaptureData.Agrees (d : CaptureData) : Prop where
  count : d.header.recordsCount.toNat = d.records.length
  size : d.header.recordsSize.toNat = (d.records.flatMap NormalizedRecord.toBytes).length
  metadataSize : d.header.metadataSize.toNat = (d.registry.toBytes ++ d.metadata.toBytes).length
  trailerCount : d.trailer.recordsCount = d.header.recordsCount
  trailerBytes : d.trailer.recordsBytes = d.header.recordsSize
  status : d.trailer.statusCode = d.metadata.status

/-- **A finished file reads back as it was written if and only if every length in the registry
and the metadata fits its 32-bit prefix.** -/
theorem reads_back_iff (config : SessionConfig) (registry : SchemaRegistry) (calls : List Call)
    (stopNs : UInt64) (bytes : Bytes)
    (h : (((new config registry).run calls).finish stopNs).2 = .ok bytes) :
    ∃ m, (((new config registry).run calls).session.stop stopNs).2 = .ok m ∧
      ((∃ d, (CaptureReader.fromBytes bytes).outcome = .ok d ∧ d.registry = registry ∧
          d.metadata = m ∧ d.records = (new config registry).written calls ∧
          d.Agrees) ↔ config.Fits ∧ registry.Fits ∧ m.counters.Fits) := by
  obtain ⟨m, hstop, hlen, rfl⟩ := finish_eq_ok.mp h
  have hholds := (holds_new config registry).run calls
  rw [nil_append] at hholds
  have hconfig : m.config = config := (stop_eq_ok hstop).1.trans hholds.sessionConfig
  refine ⟨m, hstop, ?_, ?_⟩
  · rintro ⟨d, hd, hreg, hmeta, -, -⟩
    obtain ⟨-, -, -, hok, -⟩ := (hholds.fromBytes_output hlen).mp hd
    have hfits := metadata_fits (by rw [length_output]; exact hlen) hok
    rw [hreg, hmeta] at hfits
    exact ⟨hconfig ▸ hfits.2.1, hfits.1, hfits.2.2⟩
  · rintro ⟨hc, hreg, hcounters⟩
    have hm : m.Fits := ⟨hconfig.symm ▸ hc, hcounters⟩
    have hok := metadata_output hlen (hholds.registryKept.symm ▸ hreg) hm
    rw [hholds.registryKept] at hok
    have hlay := header_layout hlen
    refine ⟨⟨_, registry, m, _, _⟩, (hholds.fromBytes_output hlen).mpr
      ⟨rfl, rfl, rfl, hok, hholds.valid⟩, rfl, rfl, rfl, ?_⟩
    refine ⟨hholds.records_size hlen, ?_, ?_, rfl, rfl, rfl⟩
    · rw [← hholds.buf]
      exact hlay.recordsSize
    · exact hlay.metadataSize.trans (by rw [metadataBuf, hholds.registryKept])

/-- A configuration without texts. -/
def blankConfig : SessionConfig where
  pulseCommit := ""
  targetArch := .riscv64
  kernelElfPath := ""
  kernelElfHash := ""
  imagePath := ""
  imageHash := ""
  libbpfFixtureVersion := ""
  progId := 0
  mapId := 0
  linkId := 0
  perfEventId := 0
  outputPath := ""
  scope := .allCpus
  samplePeriod := 0
  bufferPages := 0
  clockName := ""
  clockResNs := 0

theorem blankConfig_fits : blankConfig.Fits := by decide

def tickConfig : SessionConfig := { blankConfig with scope := .task 9, clockName := "monotonic" }

def tickSchema : EventSchema where
  eventId := 1
  category := "timer"
  name := "tick"
  version := 1
  payloadSize := 4
  fields := [⟨"period", 0, 4, .u32⟩]

def switchSchema : EventSchema where
  eventId := 2
  category := "sched"
  name := "switch"
  version := 1
  payloadSize := 12
  fields := [⟨"next", 0, 8, .u64⟩, ⟨"state", 8, 4, .byteArray 4⟩]

def tick : NormalizedRecord where
  eventId := 1
  schemaVersion := 1
  timestampNs := 7
  cpuId := 2
  pid := 3
  tid := 3
  taskId := 9
  payload := [1, 2, 3, 4]

def switched : NormalizedRecord :=
  { tick with eventId := 2, timestampNs := 8, payload := [9, 0, 0, 0, 0, 0, 0, 0, 82, 0, 0, 0] }

def tickRegistry : SchemaRegistry := (new.register tickSchema).register switchSchema

theorem reads_back_tick : ∃ bytes d, (((new tickConfig tickRegistry).run
      [.start 5, .writeRecord tick, .ingestPerfLost 1 6, .writeRecord switched]).finish 8).2 =
        .ok bytes ∧ (CaptureReader.fromBytes bytes).outcome = .ok d ∧ d.registry = tickRegistry ∧
    d.records = [tick, switched] ∧ d.metadata.config = tickConfig ∧
    d.metadata.counters.perCpuLost = [(1, 6)] := by
  obtain ⟨bytes, hbytes⟩ : ∃ bytes, (((new tickConfig tickRegistry).run
      [.start 5, .writeRecord tick, .ingestPerfLost 1 6, .writeRecord switched]).finish 8).2 =
        .ok bytes :=
    ⟨_, finish_eq_ok.mpr ⟨_, rfl, by decide +kernel, rfl⟩⟩
  obtain ⟨m, hm, hiff⟩ := reads_back_iff _ _ _ _ _ hbytes
  obtain rfl := ok.inj hm
  obtain ⟨d, hd, hreg, hmeta, hrecs, -⟩ :=
    hiff.mpr ⟨by decide +kernel, by decide +kernel, by decide +kernel⟩
  exact ⟨bytes, d, hbytes, hd, hreg, hrecs, by rw [hmeta]; rfl, by rw [hmeta]; rfl⟩

/-! ## Lengths that do not fit -/

def blankField : FieldSchema := ⟨"", 0, 0, .u8⟩

def wideSchema (n : Nat) : EventSchema := ⟨1, "", "", 1, 4, List.replicate n blankField⟩

def wideRegistry (n : Nat) : SchemaRegistry := new.register (wideSchema n)

theorem length_wideRegistry (n : Nat) : (wideRegistry n).toBytes.length = 28 + n * 20 := by
  have hfields : ((List.replicate n blankField).flatMap FieldSchema.toBytes).length = n * 20 := by
    rw [length_flatMap, map_replicate, sum_replicate]
    rfl
  have hschema : (wideSchema n).toBytes.length = 24 + n * 20 := by
    unfold EventSchema.toBytes
    rw [length_append]
    change _ + ((List.replicate n blankField).flatMap FieldSchema.toBytes).length = _
    rw [hfields]
    simp [wideSchema]
  change (leBytes 4 1 ++ ((wideSchema n).toBytes ++ [])).length = _
  rw [length_append, length_append, hschema, leBytes_length, length_nil]
  omega

/-- **A schema of `2 ^ 32` fields is written with a field count of zero**: the file is produced,
and what it reads back as, if anything, is not the registry it was written from. -/
theorem wide_schema_lost : ∃ bytes,
    (((new blankConfig (wideRegistry (2 ^ 32))).run [.start 0]).finish 1).2 = .ok bytes ∧
    blankConfig.Fits ∧
    (∀ s ∈ (wideRegistry (2 ^ 32)).schemas, ∀ f ∈ s.fields, f.fieldType.Fits) ∧
    ¬ ∃ d, (CaptureReader.fromBytes bytes).outcome = .ok d ∧
      d.registry = wideRegistry (2 ^ 32) := by
  obtain ⟨n, hn⟩ : ∃ n, n = 2 ^ 32 := ⟨_, rfl⟩
  rw [← hn]
  have hlen : ∀ m : SessionMetadata, m.toBytes.length ≤ 1000 →
      (((new blankConfig (wideRegistry n)).run [.start 0]).body m).length +
        CAPTURE_TRAILER_SIZE ≤ ISIZE_MAX := by
    intro m hm
    rw [length_body]
    change CAPTURE_HEADER_SIZE + ((wideRegistry n).toBytes ++ m.toBytes).length + 0 +
      CAPTURE_TRAILER_SIZE ≤ ISIZE_MAX
    rw [length_append, length_wideRegistry]
    unfold CAPTURE_HEADER_SIZE CAPTURE_TRAILER_SIZE ISIZE_MAX
    omega
  obtain ⟨bytes, hbytes⟩ : ∃ bytes,
      (((new blankConfig (wideRegistry n)).run [.start 0]).finish 1).2 = .ok bytes :=
    ⟨_, finish_eq_ok.mpr ⟨⟨blankConfig, 0, 1, .complete, .new⟩, rfl, hlen _ (by decide +kernel),
      rfl⟩⟩
  refine ⟨bytes, hbytes, blankConfig_fits, ?_, ?_⟩
  · intro s hs f hf
    obtain rfl : s = wideSchema n := mem_singleton.mp hs
    rw [(mem_replicate.mp hf).2]
    trivial
  · rintro ⟨d, hd, hreg⟩
    obtain ⟨m, -, hmax, rfl⟩ := finish_eq_ok.mp hbytes
    have hholds := (holds_new blankConfig (wideRegistry n)).run [.start 0]
    obtain ⟨-, -, -, hok, -⟩ := (hholds.fromBytes_output hmax).mp hd
    have hfits := (metadata_fits (by rw [length_output]; exact hmax) hok).1
    rw [hreg] at hfits
    have hwide := (hfits.2 (wideSchema n) (mem_singleton.mpr rfl)).2.2.1
    change (List.replicate n blankField).length < 2 ^ 32 at hwide
    rw [length_replicate] at hwide
    omega

end PulseOS.Capture
