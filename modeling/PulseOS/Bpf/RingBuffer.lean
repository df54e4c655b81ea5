import PulseOS.Errno
import PulseOS.Lib.Bytes
import PulseOS.Lib.Circular
import PulseOS.Lib.Loop

/-!
# The BPF ring buffer

`BpfRingBuf` with its producer (`output`) and its consumer (`parseRecords`).  The two control
pages are the fields `producerPos` and `consumerPos`, the data pages the bytes `data`.

* `writeCircular_eq`, `readCircular_eq` — the copies around the end of the data area are the
  circular `put` and `window`.
* `output_cases` — what `output` returns and stores, case by case; on a buffer whose data area
  has its size it never faults, whatever the positions (`output_meets`).
-/

namespace PulseOS.Bpf

open Exec Circular UInt32

def BPF_RINGBUF_BUSY_BIT : UInt32 := 0x80000000
def BPF_RINGBUF_DISCARD_BIT : UInt32 := 0x40000000
def BPF_RINGBUF_LEN_MASK : UInt32 := ~~~(BPF_RINGBUF_BUSY_BIT ||| BPF_RINGBUF_DISCARD_BIT)
def BPF_RINGBUF_HDR_SZ : Nat := 8
def BPF_RINGBUF_PAGE_SIZE : Nat := 4096
def BPF_RB_NO_WAKEUP : UInt64 := 1
def BPF_RB_FORCE_WAKEUP : UInt64 := 2

structure RingBufRecord where
  data : Bytes
  deriving DecidableEq, Repr

structure RingBufConsumerCounters where
  corruptRecords : UInt64
  discardedRecords : UInt64
  deriving DecidableEq, Repr

structure BpfRingBuf where
  dataSize : Nat
  data : Bytes
  producerPos : UInt64
  consumerPos : UInt64
  ringbufLost : UInt64
  readableSequence : UInt64
  consumerCorruptRecords : UInt64
  consumerDiscardedRecords : UInt64
  deriving DecidableEq, Repr

namespace BpfRingBuf

/-- The sizes `new` accepts: nonzero multiples of the page size that are powers of two. -/
def SizeAccepted (dataSize : Nat) : Prop :=
  dataSize ≠ 0 ∧ dataSize % BPF_RINGBUF_PAGE_SIZE = 0 ∧ dataSize.isPowerOfTwo ∧ dataSize < 2 ^ 64

instance (n : Nat) : Decidable (SizeAccepted n) := inferInstanceAs (Decidable (_ ∧ _ ∧ _ ∧ _))

/-- `new`, once the pages are allocated and zeroed. -/
def new (dataSize : Nat) : Except LinuxError BpfRingBuf :=
  if SizeAccepted dataSize then
    .ok { dataSize, data := zeros dataSize, producerPos := 0, consumerPos := 0, ringbufLost := 0,
          readableSequence := 0, consumerCorruptRecords := 0, consumerDiscardedRecords := 0 }
  else .error .EINVAL

variable {ε : Type} (rb : BpfRingBuf)

def notifyReadable : BpfRingBuf :=
  { rb with readableSequence := rb.readableSequence + 1 }

/-- The ranges of the data area that `len` bytes from `offset` occupy. -/
def splitCircularRanges (offset len : Nat) : Exec ε ((Nat × Nat) × Option (Nat × Nat)) :=
  -- `data_size - offset` wraps, and the copies go out of the pages, for an offset past the end
  if rb.dataSize < offset then panic .overflow
  else
    let spaceToEnd := rb.dataSize - offset
    if len ≤ spaceToEnd then .ok ((offset, len), none)
    else .ok ((offset, spaceToEnd), some (0, len - spaceToEnd))

def writeCircular (offsetInData : Nat) (bytes : Bytes) : Exec ε BpfRingBuf := do
  let ((off1, len1), second) ← rb.splitCircularRanges offsetInData bytes.length
  let d ← copyIn rb.data off1 (bytes.take len1)
  match second with
  | none => .ok { rb with data := d }
  | some (off2, len2) => do
    let d ← copyIn d off2 ((bytes.drop len1).take len2)
    .ok { rb with data := d }

def readCircular (offsetInData len : Nat) : Exec ε Bytes := do
  let ((off1, len1), second) ← rb.splitCircularRanges offsetInData len
  let a ← copyOut rb.data off1 len1
  match second with
  | none => .ok a
  | some (off2, len2) => do
    let b ← copyOut rb.data off2 len2
    .ok (a ++ b)

/-- `(BPF_RINGBUF_HDR_SZ + payload_len + 7) & !7`. -/
def recSize (payloadLen : Nat) : Nat := align8 (BPF_RINGBUF_HDR_SZ + payloadLen)

/-- The record header `[len, pg_off]` with `pg_off = 0`. -/
def hdrBytes (len : UInt32) : Bytes := leBytes 4 len.toNat ++ leBytes 4 0

def lose : BpfRingBuf := { rb with ringbufLost := rb.ringbufLost + 1 }

/-- The zeroed padding behind a payload. -/
def writePadding (padOffset padLen : Nat) : Exec ε BpfRingBuf :=
  if padLen > 0 then rb.writeCircular padOffset (zeros padLen) else .ok rb

/-- The writes of a reservation: the header is written busy first and committed after the
payload. -/
def writeRecord (dataOffset : Nat) (data : Bytes) : Exec ε BpfRingBuf := do
  let payloadLen := data.length
  let rb ← rb.writeCircular dataOffset (hdrBytes (ofNat payloadLen ||| BPF_RINGBUF_BUSY_BIT))
  let payloadOffset := (dataOffset + BPF_RINGBUF_HDR_SZ) % rb.dataSize
  let rb ← rb.writeCircular payloadOffset data
  let padLen := recSize payloadLen - (BPF_RINGBUF_HDR_SZ + payloadLen)
  let rb ← rb.writePadding ((payloadOffset + payloadLen) % rb.dataSize) padLen
  rb.writeCircular dataOffset (hdrBytes (ofNat payloadLen))

/-- `output`, with the buffer as it is left behind in either case. -/
def output (data : Bytes) (flags : UInt64) : Exec ε (Except LinuxError Unit × BpfRingBuf) :=
  let size := recSize data.length
  let prod := rb.producerPos
  let used := (prod - rb.consumerPos).toNat
  if flags &&& ~~~(BPF_RB_NO_WAKEUP ||| BPF_RB_FORCE_WAKEUP) ≠ 0 then .ok (.error .EINVAL, rb)
  else if size > rb.dataSize then .ok (.error .E2BIG, rb)
  else if used > rb.dataSize then .ok (.error .EAGAIN, rb.lose)
  else if rb.dataSize - used < size then .ok (.error .EAGAIN, rb.lose)
  else do
    let rb ← rb.writeRecord (prod.toNat % rb.dataSize) data
    let rb := { rb with producerPos := prod + UInt64.ofNat size }
    if flags &&& BPF_RB_NO_WAKEUP = 0 ∨ flags &&& BPF_RB_FORCE_WAKEUP ≠ 0 then
      .ok (.ok (), rb.notifyReadable)
    else .ok (.ok (), rb)

/-- The loop of `parse_records`: the buffer with its consumer position, and the records so
far. -/
structure ParseState where
  rb : BpfRingBuf
  records : List RingBufRecord

abbrev ParseResult := Except LinuxError (List RingBufRecord × RingBufConsumerCounters) × BpfRingBuf

def counters : RingBufConsumerCounters :=
  ⟨rb.consumerCorruptRecords, rb.consumerDiscardedRecords⟩

def corrupt : BpfRingBuf :=
  { rb with consumerCorruptRecords := rb.consumerCorruptRecords + 1 }

def parseRound (prod : UInt64) (s : ParseState) : Exec ε (ParseState ⊕ ParseResult) :=
  let rb := s.rb
  let cons := rb.consumerPos
  let left := (prod - cons).toNat
  if left < BPF_RINGBUF_HDR_SZ then .ok (.inr (.ok (s.records, rb.counters), rb))
  else do
    let offset := cons.toNat % rb.dataSize
    let hdr ← rb.readCircular offset BPF_RINGBUF_HDR_SZ
    let rawLen := ofNat (leNat (hdr.take 4))
    -- still busy: the producer is not done
    if rawLen &&& BPF_RINGBUF_BUSY_BIT ≠ 0 then .ok (.inr (.ok (s.records, rb.counters), rb))
    else
      let payloadLen := (rawLen &&& BPF_RINGBUF_LEN_MASK).toNat
      let size := recSize payloadLen
      if size > left ∨ size > rb.dataSize then .ok (.inr (.error .EINVAL, rb.corrupt))
      else
        let rb' := { rb with consumerPos := cons + UInt64.ofNat size }
        if rawLen &&& BPF_RINGBUF_DISCARD_BIT ≠ 0 then
          .ok (.inl
            { s with rb := { rb' with consumerDiscardedRecords := rb.consumerDiscardedRecords + 1 } })
        else do
          let data ← rb.readCircular ((offset + BPF_RINGBUF_HDR_SZ) % rb.dataSize) payloadLen
          .ok (.inl { rb := rb', records := s.records ++ [⟨data⟩] })

/-- `parse_records`.  Every round consumes at least a header of the bytes in use, which bounds
the rounds. -/
def parseRecords : Exec ε ParseResult :=
  let prod := rb.producerPos
  let used := (prod - rb.consumerPos).toNat
  if used > rb.dataSize then .ok (.error .EINVAL, rb.corrupt)
  else Loop.iter (parseRound prod) (used + 1) { rb, records := [] }

/-! ## The copies -/

abbrev Wf : Prop := Area rb.data rb.dataSize

variable {rb : BpfRingBuf}

variable {n : Nat} {d : Bytes}

theorem SizeAccepted.dvd (h : SizeAccepted n) : n ∣ 2 ^ 64 := by
  obtain ⟨_, _, ⟨k, rfl⟩, hlt⟩ := h
  exact Nat.pow_dvd_pow 2 (Nat.pow_lt_pow_iff_right (by norm_num) |>.mp hlt).le

theorem new_of_accepted (h : SizeAccepted n) : ∃ rb, new n = .ok rb := ⟨_, if_pos h⟩

theorem new_wf (h : new n = .ok rb) : rb.Wf := by
  unfold new at h
  split at h
  · rename_i hs
    cases h
    exact ⟨Nat.pos_of_ne_zero hs.1, hs.2.2.2, hs.dvd, zeros_length n⟩
  · cases h

def withData (rb : BpfRingBuf) (d : Bytes) : BpfRingBuf := { rb with data := d }

@[simp] theorem withData_dataSize (rb : BpfRingBuf) (d : Bytes) :
    (rb.withData d).dataSize = rb.dataSize := rfl

theorem writeCircular_eq (h : Area d rb.dataSize) (pos : Nat) {b : Bytes} (hlen : b.length ≤ rb.dataSize) :
    ((rb.withData d).writeCircular (pos % rb.dataSize) b : Exec ε BpfRingBuf) =
      .ok (rb.withData (put d pos b)) := by
  have hsplit := h.copyIn_eq (ε := ε) pos hlen
  unfold writeCircular splitCircularRanges
  rw [withData_dataSize, if_neg (h.offset_le pos)]
  by_cases hc : b.length ≤ rb.dataSize - pos % rb.dataSize
  · rw [if_pos hc] at hsplit
    simp only [if_pos hc, ok_bind, List.take_length, withData, hsplit]
  · rw [if_neg hc] at hsplit
    obtain ⟨d', hd', hd''⟩ := bind_eq_ok.mp hsplit
    simp only [if_neg hc, ok_bind, withData, hd']
    rw [List.take_of_length_le (by simp), hd'']
    rfl

theorem readCircular_eq (h : rb.Wf) (pos : Nat) {len : Nat} (hlen : len ≤ rb.dataSize) :
    (rb.readCircular (pos % rb.dataSize) len : Exec ε Bytes) = .ok (window rb.data pos len) := by
  have hsplit := h.copyOut_eq (ε := ε) pos hlen
  unfold readCircular splitCircularRanges
  rw [if_neg (h.offset_le pos)]
  by_cases hc : len ≤ rb.dataSize - pos % rb.dataSize
  · rw [if_pos hc] at hsplit
    simp only [if_pos hc, ok_bind, hsplit]
  · rw [if_neg hc] at hsplit
    simp only [if_neg hc, ok_bind]
    exact hsplit

/-! ## The producer -/

def record (payload : Bytes) : Bytes :=
  hdrBytes (ofNat payload.length) ++
    (payload ++ zeros (recSize payload.length - (BPF_RINGBUF_HDR_SZ + payload.length)))

@[simp] theorem hdrBytes_length (len : UInt32) : (hdrBytes len).length = BPF_RINGBUF_HDR_SZ := by
  simp [hdrBytes, BPF_RINGBUF_HDR_SZ]

theorem recSize_bounds (len : Nat) :
    BPF_RINGBUF_HDR_SZ + len ≤ recSize len ∧ recSize len < BPF_RINGBUF_HDR_SZ + len + 8 :=
  le_align8 _

@[simp] theorem record_length (payload : Bytes) :
    (record payload).length = recSize payload.length := by
  have := recSize_bounds payload.length
  simp only [record, List.length_append, hdrBytes_length, zeros_length]
  omega

theorem writePadding_eq (h : Area d rb.dataSize) (pos : Nat) {padLen : Nat} (hlen : padLen ≤ rb.dataSize) :
    ((rb.withData d).writePadding (pos % rb.dataSize) padLen : Exec ε BpfRingBuf) =
      .ok (rb.withData (put d pos (zeros padLen))) := by
  unfold writePadding
  split
  · rw [writeCircular_eq h pos (by rw [zeros_length]; exact hlen)]
  · rename_i hz
    rw [Nat.eq_zero_of_not_pos hz]
    rfl

theorem writeRecord_eq (h : rb.Wf) (data : Bytes)
    (hsize : recSize data.length ≤ rb.dataSize) (pos : Nat) :
    (rb.writeRecord (pos % rb.dataSize) data : Exec ε BpfRingBuf) =
      .ok (rb.withData (put rb.data pos (record data))) := by
  have hb := recSize_bounds data.length
  have hhdr : ∀ len, (hdrBytes len).length ≤ rb.dataSize := fun len => by
    rw [hdrBytes_length]; omega
  have h1 := h.stored pos (hdrBytes (ofNat data.length ||| BPF_RINGBUF_BUSY_BIT))
  have h2 := h1.stored (pos + BPF_RINGBUF_HDR_SZ) data
  have h3 := h2.stored (pos + BPF_RINGBUF_HDR_SZ + data.length)
    (zeros (recSize data.length - (BPF_RINGBUF_HDR_SZ + data.length)))
  rw [show rb = rb.withData rb.data from rfl]
  simp only [writeRecord, withData_dataSize]
  rw [writeCircular_eq h pos (hhdr _), ok_bind]
  simp only [withData_dataSize, Nat.mod_add_mod]
  rw [writeCircular_eq h1 _ (by omega), ok_bind, withData_dataSize, Nat.mod_add_mod,
    writePadding_eq h2 _ (by omega), ok_bind, writeCircular_eq h3 pos (hhdr _)]
  -- the committed header replaces the busy one at the front of what was stored
  have hover := put_overwrite (d := rb.data)
    (a := hdrBytes (ofNat data.length ||| BPF_RINGBUF_BUSY_BIT))
    (b := hdrBytes (ofNat data.length))
    (r := data ++ zeros (recSize data.length - (BPF_RINGBUF_HDR_SZ + data.length))) pos (by simp)
    (by simp only [List.length_append, hdrBytes_length, zeros_length, h.length_eq]; omega)
  rw [put_append, put_append, hdrBytes_length] at hover
  rw [hover]
  rfl

/-- A record is stored when it fits beside the bytes in use. -/
def Fits (rb : BpfRingBuf) (data : Bytes) : Prop :=
  (rb.producerPos - rb.consumerPos).toNat + recSize data.length ≤ rb.dataSize

/-- What a successful `output` leaves behind, up to the wake-up counter. -/
def stored (rb : BpfRingBuf) (data : Bytes) (seq : UInt64) : BpfRingBuf :=
  { rb with
    data := put rb.data rb.producerPos.toNat (record data)
    producerPos := rb.producerPos + UInt64.ofNat (recSize data.length)
    readableSequence := seq }

/-- **What `output` does.** -/
theorem output_cases (h : rb.Wf) (data : Bytes) (flags : UInt64) :
    (∃ e, (rb.output data flags : Exec ε _) = .ok (.error e, rb) ∧ e ≠ .EAGAIN ∧
      (flags &&& ~~~(BPF_RB_NO_WAKEUP ||| BPF_RB_FORCE_WAKEUP) ≠ 0 ∨
        rb.dataSize < recSize data.length)) ∨
    ((rb.output data flags : Exec ε _) = .ok (.error .EAGAIN, rb.lose) ∧ ¬ rb.Fits data) ∨
    (∃ seq, (rb.output data flags : Exec ε _) = .ok (.ok (), rb.stored data seq) ∧
      rb.Fits data) := by
  unfold output
  by_cases hflags : flags &&& ~~~(BPF_RB_NO_WAKEUP ||| BPF_RB_FORCE_WAKEUP) ≠ 0
  · refine .inl ⟨.EINVAL, ?_, by decide, .inl hflags⟩
    simp [hflags]
  by_cases hbig : recSize data.length > rb.dataSize
  · refine .inl ⟨.E2BIG, ?_, by decide, .inr hbig⟩
    simp [hflags, hbig]
  by_cases hused : (rb.producerPos - rb.consumerPos).toNat > rb.dataSize
  · refine .inr (.inl ⟨?_, by unfold Fits; omega⟩)
    simp [hflags, hbig, hused]
  by_cases havail : rb.dataSize - (rb.producerPos - rb.consumerPos).toNat < recSize data.length
  · refine .inr (.inl ⟨?_, by unfold Fits; omega⟩)
    simp [hflags, hbig, hused, havail]
  refine .inr (.inr ?_)
  have hfits : rb.Fits data := by unfold Fits; omega
  simp only [hflags, hbig, hused, havail, if_false, writeRecord_eq h data (by omega), ok_bind]
  split
  · exact ⟨rb.readableSequence + 1, rfl, hfits⟩
  · exact ⟨rb.readableSequence, rfl, hfits⟩

theorem output_meets (h : rb.Wf) (data : Bytes) (flags : UInt64) :
    Meets (rb.output data flags : Exec ε _)
      (fun p => p.2.Wf ∧ p.2.dataSize = rb.dataSize) (fun _ => False) := by
  rcases output_cases (ε := ε) h data flags with ⟨e, hout, -⟩ | ⟨hout, -⟩ | ⟨seq, hout, -⟩
  · rw [hout]
    exact ⟨h, rfl⟩
  · rw [hout]
    exact ⟨h, rfl⟩
  · rw [hout]
    exact ⟨h.stored _ _, rfl⟩

end BpfRingBuf

end PulseOS.Bpf
