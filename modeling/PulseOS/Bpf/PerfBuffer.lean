import PulseOS.Errno
import PulseOS.Lib.Bytes
import PulseOS.Lib.Circular
import PulseOS.Lib.Loop
import PulseOS.Lib.Saturating

/-!
# The perf event buffer

`PerfBuffer` with its producer (`outputSampleWithId`) and its consumer (`parseRecords`).  The
control page is the fields `dataHead` and `dataTail`, the data pages the bytes `data`.

* `writeCircular_eq`, `readCircular_eq` — the copies around the end of the data area are the
  circular `put` and `window`.
* `outputSampleWithId_cases` — what an output call returns and stores: a sample record, or a
  record of the losses before it and the sample record.
-/

namespace PulseOS.Bpf

open Exec Circular Saturating UInt64

def PERF_RECORD_LOST : UInt32 := 2
def PERF_RECORD_SAMPLE : UInt32 := 9

/-- A record as the consumer returns it. -/
inductive PerfRecord where
  | sample (rawLen : UInt32) (data : Bytes)
  | lost (id lost : UInt64)
  deriving DecidableEq, Repr

structure ConsumerErrorCounters where
  corruptRecords : UInt64
  outOfBounds : UInt64
  deriving DecidableEq, Repr

structure PerfBuffer where
  dataSize : Nat
  data : Bytes
  dataHead : UInt64
  dataTail : UInt64
  lostCount : UInt64
  totalLost : UInt64
  consumerCorruptRecords : UInt64
  consumerOutOfBounds : UInt64
  deriving DecidableEq, Repr

namespace PerfBuffer

/-- The page counts `new` accepts; the control page and the data pages exist in memory. -/
def PagesAccepted (nrDataPages : Nat) : Prop :=
  nrDataPages ≠ 0 ∧ nrDataPages.isPowerOfTwo ∧ (1 + nrDataPages) * 4096 < 2 ^ 64

instance (n : Nat) : Decidable (PagesAccepted n) := inferInstanceAs (Decidable (_ ∧ _ ∧ _))

/-- `new`, once the pages are allocated and zeroed. -/
def new (nrDataPages : Nat) : Except LinuxError PerfBuffer :=
  if PagesAccepted nrDataPages then
    .ok { dataSize := nrDataPages * 4096, data := zeros (nrDataPages * 4096), dataHead := 0,
          dataTail := 0, lostCount := 0, totalLost := 0, consumerCorruptRecords := 0,
          consumerOutOfBounds := 0 }
  else .error .EINVAL

variable {ε : Type} (pb : PerfBuffer)

def writeCircular (offsetInData : Nat) (bytes : Bytes) : Exec ε PerfBuffer :=
  -- `data_size - offset_in_data` wraps, and the copy leaves the pages, for an offset past the end
  if pb.dataSize < offsetInData then panic .overflow
  else
    let spaceToEnd := pb.dataSize - offsetInData
    if bytes.length ≤ spaceToEnd then do
      let d ← copyIn pb.data offsetInData bytes
      .ok { pb with data := d }
    else do
      let d ← copyIn pb.data offsetInData (bytes.take spaceToEnd)
      let d ← copyIn d 0 (bytes.drop spaceToEnd)
      .ok { pb with data := d }

def readCircular (offsetInData len : Nat) : Exec ε Bytes :=
  if pb.dataSize < offsetInData then panic .overflow
  else
    let spaceToEnd := pb.dataSize - offsetInData
    if len ≤ spaceToEnd then copyOut pb.data offsetInData len
    else do
      let a ← copyOut pb.data offsetInData spaceToEnd
      let b ← copyOut pb.data 0 (len - spaceToEnd)
      .ok (a ++ b)

/-- The eight bytes of a `PerfEventHeader` with `misc = 0`. -/
def headerBytes (eventType : UInt32) (size : UInt16) : Bytes :=
  leBytes 4 eventType.toNat ++ (leBytes 2 0 ++ leBytes 2 size.toNat)

/-- `(8 + 4 + payload_len + 7) & !7`. -/
def sampleRecSize (payloadLen : Nat) : Nat := align8 (8 + 4 + payloadLen)

def lostRecSize : Nat := 24

/-- The zeroed padding behind a payload. -/
def writePadding (offset padLen : Nat) : Exec ε PerfBuffer :=
  if padLen > 0 then pb.writeCircular offset (zeros padLen) else .ok pb

def writeSampleRecord (atHead : UInt64) (data : Bytes) (recSize : Nat) : Exec ε PerfBuffer := do
  let headerBuf := headerBytes PERF_RECORD_SAMPLE (UInt16.ofNat recSize) ++
    leBytes 4 (UInt32.ofNat data.length).toNat
  let offset := atHead.toNat % pb.dataSize
  let pb ← pb.writeCircular offset headerBuf
  let offset := (offset + 12) % pb.dataSize
  let pb ← pb.writeCircular offset data
  let offset := (offset + data.length) % pb.dataSize
  pb.writePadding offset (recSize - (12 + data.length))

def lostRecord (id lost : UInt64) : Bytes :=
  headerBytes PERF_RECORD_LOST (UInt16.ofNat lostRecSize) ++
    (leBytes 8 id.toNat ++ leBytes 8 lost.toNat)

def lose : PerfBuffer :=
  { pb with lostCount := pb.lostCount + 1, totalLost := pb.totalLost + 1 }

def resetLost : PerfBuffer := { pb with lostCount := 0 }

/-- `output_sample_with_id`, with the buffer as it is left behind in either case. -/
def outputSampleWithId (id : UInt64) (data : Bytes) :
    Exec ε (Except LinuxError Unit × PerfBuffer) :=
  let recSize := sampleRecSize data.length
  let head := pb.dataHead
  let used := (head - pb.dataTail).toNat
  if recSize > pb.dataSize then .ok (.error .E2BIG, pb)
  else if used > pb.dataSize then .ok (.error .EINVAL, pb)
  else
    let available := pb.dataSize - used
    let pendingLost := pb.lostCount
    if pendingLost > 0 ∧ available ≥ lostRecSize + recSize then do
      let pb := pb.resetLost
      let pb ← pb.writeCircular (head.toNat % pb.dataSize) (lostRecord id pendingLost)
      let nextHead := head + ofNat lostRecSize
      let pb ← pb.writeSampleRecord nextHead data recSize
      .ok (.ok (), { pb with dataHead := nextHead + ofNat recSize })
    else if available ≥ recSize then do
      let pb ← pb.writeSampleRecord head data recSize
      .ok (.ok (), { pb with dataHead := head + ofNat recSize })
    else .ok (.error .ENOSPC, pb.lose)

def consumerErrorCounters : ConsumerErrorCounters :=
  ⟨pb.consumerCorruptRecords, pb.consumerOutOfBounds⟩

abbrev ParseResult := Except ConsumerErrorCounters (List PerfRecord × UInt64) × PerfBuffer

/-- The loop of `parse_records`. -/
structure ParseState where
  pb : PerfBuffer
  records : List PerfRecord
  lostCount : UInt64

/-- The record of a known type at `offset`, with the losses it reports. -/
def readRecord (offset : Nat) (eventType : UInt32) (lostCount : UInt64) :
    Exec ε (List PerfRecord × UInt64) :=
  if eventType = PERF_RECORD_SAMPLE then do
    let rawLenBytes ← pb.readCircular ((offset + 8) % pb.dataSize) 4
    let rawLen := UInt32.ofNat (leNat rawLenBytes)
    let data ← pb.readCircular ((offset + 12) % pb.dataSize) rawLen.toNat
    .ok ([.sample rawLen data], lostCount)
  else if eventType = PERF_RECORD_LOST then do
    let idBytes ← pb.readCircular ((offset + 8) % pb.dataSize) 8
    let lostBytes ← pb.readCircular ((offset + 16) % pb.dataSize) 8
    let lost := ofNat (leNat lostBytes)
    .ok ([.lost (ofNat (leNat idBytes)) lost], addU64 lostCount lost)
  else .ok ([], lostCount)

def corrupt : PerfBuffer :=
  { pb with consumerCorruptRecords := pb.consumerCorruptRecords + 1 }

def parseRound (head : UInt64) (s : ParseState) : Exec ε (ParseState ⊕ ParseResult) :=
  let pb := s.pb
  let left := (head - pb.dataTail).toNat
  if left = 0 then .ok (.inr (.ok (s.records, s.lostCount), pb))
  else do
    let offset := pb.dataTail.toNat % pb.dataSize
    let headerBytes ← pb.readCircular offset 8
    let eventType := UInt32.ofNat (leNat (headerBytes.take 4))
    let recSize := (UInt16.ofNat (leNat (headerBytes.drop 6))).toNat
    if recSize < 8 ∨ recSize > pb.dataSize ∨ recSize > left then
      .ok (.inr (.error pb.corrupt.consumerErrorCounters, pb.corrupt))
    else do
      let (new, lostCount) ← pb.readRecord offset eventType s.lostCount
      .ok (.inl { pb := { pb with dataTail := pb.dataTail + ofNat recSize }
                  records := s.records ++ new
                  lostCount })

/-- `parse_records`.  Every round consumes at least a header of the bytes in use, which bounds
the rounds. -/
def parseRecords : Exec ε ParseResult :=
  let head := pb.dataHead
  let used := (head - pb.dataTail).toNat
  if used > pb.dataSize then
    let pb := { pb with consumerOutOfBounds := pb.consumerOutOfBounds + 1 }
    .ok (.error pb.consumerErrorCounters, pb)
  else Loop.iter (parseRound head) (used + 1) { pb, records := [], lostCount := 0 }

/-! ## The copies -/

abbrev Wf : Prop := Area pb.data pb.dataSize

variable {pb : PerfBuffer}

variable {n : Nat} {d : Bytes}

theorem new_of_accepted (h : PagesAccepted n) : ∃ pb, new n = .ok pb := ⟨_, if_pos h⟩

theorem PagesAccepted.wf (hp : PagesAccepted n) (hsize : pb.dataSize = n * 4096)
    (hlen : pb.data.length = pb.dataSize) : pb.Wf := by
  have hlt : pb.dataSize < 2 ^ 64 := by
    have := hp.2.2
    omega
  refine ⟨by have := hp.1; omega, hlt, ?_, hlen⟩
  obtain ⟨k, hk⟩ := hp.2.1
  have hpow : pb.dataSize = 2 ^ (k + 12) := by rw [hsize, hk, pow_add]; rfl
  rw [hpow] at hlt ⊢
  exact Nat.pow_dvd_pow 2 ((Nat.pow_lt_pow_iff_right (by norm_num)).mp hlt).le

theorem new_fresh (h : new n = .ok pb) :
    pb.Wf ∧ PagesAccepted n ∧ pb.dataSize = n * 4096 ∧ pb.dataHead = 0 ∧ pb.dataTail = 0 ∧
      pb.lostCount = 0 := by
  unfold new at h
  split at h
  · rename_i hp
    cases h
    exact ⟨hp.wf rfl (zeros_length _), hp, rfl, rfl, rfl, rfl⟩
  · cases h

def withData (pb : PerfBuffer) (d : Bytes) : PerfBuffer := { pb with data := d }

@[simp] theorem withData_dataSize (pb : PerfBuffer) (d : Bytes) :
    (pb.withData d).dataSize = pb.dataSize := rfl

theorem writeCircular_eq (h : Area d pb.dataSize) (pos : Nat) {b : Bytes} (hlen : b.length ≤ pb.dataSize) :
    ((pb.withData d).writeCircular (pos % pb.dataSize) b : Exec ε PerfBuffer) =
      .ok (pb.withData (put d pos b)) := by
  have hsplit := h.copyIn_eq (ε := ε) pos hlen
  unfold writeCircular
  rw [withData_dataSize, if_neg (h.offset_le pos)]
  by_cases hc : b.length ≤ pb.dataSize - pos % pb.dataSize
  · rw [if_pos hc] at hsplit
    simp only [if_pos hc, withData, hsplit, ok_bind]
  · rw [if_neg hc] at hsplit
    obtain ⟨d', hd', hd''⟩ := bind_eq_ok.mp hsplit
    simp only [if_neg hc, withData, hd', hd'', ok_bind]

theorem readCircular_eq (h : pb.Wf) (pos : Nat) {len : Nat} (hlen : len ≤ pb.dataSize) :
    (pb.readCircular (pos % pb.dataSize) len : Exec ε Bytes) = .ok (window pb.data pos len) := by
  have hsplit := h.copyOut_eq (ε := ε) pos hlen
  unfold readCircular
  rw [if_neg (h.offset_le pos)]
  exact hsplit

/-! ## The producer -/

def sampleRecord (data : Bytes) : Bytes :=
  headerBytes PERF_RECORD_SAMPLE (UInt16.ofNat (sampleRecSize data.length)) ++
    (leBytes 4 (UInt32.ofNat data.length).toNat ++
      (data ++ zeros (sampleRecSize data.length - (12 + data.length))))

@[simp] theorem headerBytes_length (ty : UInt32) (size : UInt16) :
    (headerBytes ty size).length = 8 := by
  simp [headerBytes]

theorem sampleRecSize_bounds (len : Nat) :
    12 + len ≤ sampleRecSize len ∧ sampleRecSize len < 12 + len + 8 :=
  le_align8 _

@[simp] theorem sampleRecord_length (data : Bytes) :
    (sampleRecord data).length = sampleRecSize data.length := by
  have := sampleRecSize_bounds data.length
  simp only [sampleRecord, List.length_append, headerBytes_length, leBytes_length, zeros_length]
  omega

@[simp] theorem lostRecord_length (id lost : UInt64) :
    (lostRecord id lost).length = lostRecSize := by
  simp [lostRecord, lostRecSize]

theorem writePadding_eq (h : Area d pb.dataSize) (pos : Nat) {padLen : Nat} (hlen : padLen ≤ pb.dataSize) :
    ((pb.withData d).writePadding (pos % pb.dataSize) padLen : Exec ε PerfBuffer) =
      .ok (pb.withData (put d pos (zeros padLen))) := by
  unfold writePadding
  split
  · rw [writeCircular_eq h pos (by rw [zeros_length]; exact hlen)]
  · rename_i hz
    rw [Nat.eq_zero_of_not_pos hz]
    rfl

theorem writeSampleRecord_eq (h : Area d pb.dataSize) (at_ : UInt64) (data : Bytes)
    (hsize : sampleRecSize data.length ≤ pb.dataSize) :
    ((pb.withData d).writeSampleRecord at_ data (sampleRecSize data.length) : Exec ε PerfBuffer) =
      .ok (pb.withData (put d at_.toNat (sampleRecord data))) := by
  have hb := sampleRecSize_bounds data.length
  have h1 := h.stored at_.toNat (headerBytes PERF_RECORD_SAMPLE
    (UInt16.ofNat (sampleRecSize data.length)) ++ leBytes 4 (UInt32.ofNat data.length).toNat)
  have h2 := h1.stored (at_.toNat + 12) data
  simp only [writeSampleRecord, withData_dataSize]
  rw [writeCircular_eq h _ (by simp; omega), ok_bind]
  simp only [withData_dataSize, Nat.mod_add_mod]
  rw [writeCircular_eq h1 _ (by omega), ok_bind]
  simp only [withData_dataSize, Nat.mod_add_mod]
  rw [writePadding_eq h2 _ (by omega)]
  congr 2
  simp only [sampleRecord, put_append, headerBytes_length, leBytes_length, Nat.add_assoc,
    Nat.reduceAdd]

/-- `pb` with `bytes` stored at its head. -/
def pushed (pb : PerfBuffer) (bytes : Bytes) : PerfBuffer :=
  { pb with
    data := put pb.data pb.dataHead.toNat bytes
    dataHead := pb.dataHead + ofNat bytes.length }

def used (pb : PerfBuffer) : Nat := (pb.dataHead - pb.dataTail).toNat

/-- **What `output_sample_with_id` does.** -/
theorem outputSampleWithId_cases (h : pb.Wf) (id : UInt64) (data : Bytes) :
    (∃ e, (pb.outputSampleWithId id data : Exec ε _) = .ok (.error e, pb) ∧
      (pb.dataSize < sampleRecSize data.length ∨ pb.dataSize < pb.used)) ∨
    ((pb.outputSampleWithId id data : Exec ε _) = .ok (.error .ENOSPC, pb.lose) ∧
      pb.dataSize < pb.used + sampleRecSize data.length) ∨
    ((pb.outputSampleWithId id data : Exec ε _) = .ok (.ok (), pb.pushed (sampleRecord data)) ∧
      pb.used + sampleRecSize data.length ≤ pb.dataSize) ∨
    ((pb.outputSampleWithId id data : Exec ε _) =
        .ok (.ok (), (pb.pushed (lostRecord id pb.lostCount ++ sampleRecord data)).resetLost) ∧
      0 < pb.lostCount ∧ pb.used + (lostRecSize + sampleRecSize data.length) ≤ pb.dataSize) := by
  have hlost : lostRecSize = 24 := rfl
  unfold outputSampleWithId
  simp only
  by_cases hbig : sampleRecSize data.length > pb.dataSize
  · exact .inl ⟨.E2BIG, by rw [if_pos hbig], .inl hbig⟩
  by_cases hused : (pb.dataHead - pb.dataTail).toNat > pb.dataSize
  · exact .inl ⟨.EINVAL, by rw [if_neg hbig, if_pos hused], .inr hused⟩
  rw [if_neg hbig, if_neg hused]
  by_cases hlosses : pb.lostCount > 0 ∧
      pb.dataSize - (pb.dataHead - pb.dataTail).toNat ≥ lostRecSize + sampleRecSize data.length
  · refine .inr (.inr (.inr ⟨?_, hlosses.1, ?_⟩))
    · rw [if_pos hlosses]
      have hreset : Area pb.data pb.resetLost.dataSize := h
      have hfirst := writeCircular_eq (ε := ε) hreset pb.dataHead.toNat
        (b := lostRecord id pb.lostCount)
        (show _ ≤ pb.dataSize by rw [lostRecord_length]; omega)
      have hstored := hreset.stored pb.dataHead.toNat (lostRecord id pb.lostCount)
      have hsecond := writeSampleRecord_eq (ε := ε) hstored
        (pb.dataHead + UInt64.ofNat lostRecSize) data (show _ ≤ pb.dataSize by omega)
      -- the second record starts where the first one ends
      have hnext : put (put pb.data pb.dataHead.toNat (lostRecord id pb.lostCount))
          (pb.dataHead + UInt64.ofNat lostRecSize).toNat (sampleRecord data) =
          put pb.data pb.dataHead.toNat (lostRecord id pb.lostCount ++ sampleRecord data) := by
        rw [put_append, lostRecord_length]
        apply put_congr
        rw [hstored.length_eq, UInt64.toNat_add, UInt64.toNat_ofNat', Nat.mod_mod_of_dvd _ hreset.size_dvd]
        rfl
      rw [show pb.resetLost = pb.resetLost.withData pb.data from rfl, withData_dataSize, hfirst,
        ok_bind, hsecond, ok_bind, hnext]
      simp only [pushed, withData, resetLost, List.length_append, lostRecord_length, sampleRecord_length,
        UInt64.ofNat_add, UInt64.add_assoc]
    · unfold used
      omega
  · rw [if_neg hlosses]
    by_cases hfits : pb.dataSize - (pb.dataHead - pb.dataTail).toNat ≥ sampleRecSize data.length
    · refine .inr (.inr (.inl ⟨?_, by unfold used; omega⟩))
      rw [if_pos hfits, show pb = pb.withData pb.data from rfl]
      rw [writeSampleRecord_eq h _ _ (by omega), ok_bind]
      simp only [pushed, withData, sampleRecord_length]
    · refine .inr (.inl ⟨?_, by unfold used; omega⟩)
      rw [if_neg hfits]

end PerfBuffer

end PulseOS.Bpf
