import PulseOS.Capture.Writer

/-!
# The capture reader

The reader takes the file apart: the header, the trailer the header points to, the checksum of
everything in front of it, the registry and the session metadata, and the records one by one.

* `CaptureReader.frame`, `.metadata`, `.records` — the three parts of `from_bytes`, in its order.
-/

namespace PulseOS.Capture

open Cursor Metered

structure CaptureData where
  header : CaptureHeader
  registry : SchemaRegistry
  metadata : SessionMetadata
  records : List NormalizedRecord
  trailer : CaptureTrailer
  deriving DecidableEq

namespace CaptureReader

/-- The header, and the trailer it points to. -/
def frame (bytes : Bytes) : Metered CaptureError (CaptureHeader × CaptureTrailer) := do
  let header ← CaptureHeader.fromBytes bytes
  let trailerOffset := header.trailerOffset.toNat
  let trailerSize := header.trailerSize.toNat
  let stop ← add trailerOffset trailerSize
  refuse (bytes.length < stop) .truncatedTrailer
  let trailerBytes ← slice bytes trailerOffset stop
  let trailer ← CaptureTrailer.fromBytes trailerBytes
  let covered ← slice bytes 0 trailerOffset
  ofExcept (trailer.validateIntegrity header.recordsCount header.recordsSize
    (computeChecksum covered))
  pure (header, trailer)

/-- The registry, and the session metadata behind it. -/
def metadata (bytes : Bytes) (header : CaptureHeader) :
    Metered CaptureError (SchemaRegistry × SessionMetadata) := do
  let metaOffset := header.metadataOffset.toNat
  let stop ← add metaOffset header.metadataSize.toNat
  refuse (bytes.length < stop) .truncatedMetadata
  let metaBytes ← slice bytes metaOffset stop
  let (registry, regConsumed) ← SchemaRegistry.read metaBytes 0
  let rest ← slice metaBytes regConsumed metaBytes.length
  let metadata ← SessionMetadata.read.start rest
  pure (registry, metadata)

/-- `while rec_pos < rec_end`. -/
def readRecords (registry : SchemaRegistry) (bytes : Bytes) (recEnd : Nat) :
    Nat → Nat → Metered CaptureError (List NormalizedRecord)
  | 0, recPos => if recPos < recEnd then hang else pure []
  | fuel + 1, recPos =>
    if recPos < recEnd then do
      let window ← slice bytes recPos recEnd
      let (rec, consumed) ← NormalizedRecord.read window 0
      ofExcept (registry.validateRecord rec)
      let next ← add recPos consumed
      let rest ← readRecords registry bytes recEnd fuel next
      pure (rec :: rest)
    else pure []

/-- The records; a round takes at least a byte, so the size of the range bounds the rounds. -/
def records (bytes : Bytes) (header : CaptureHeader) (registry : SchemaRegistry) :
    Metered CaptureError (List NormalizedRecord) := do
  let recordsOffset := header.recordsOffset.toNat
  let recordsSize := header.recordsSize.toNat
  let recEnd ← add recordsOffset recordsSize
  refuse (bytes.length < recEnd) .truncatedRecord
  reserve header.recordsCount.toNat RECORD_HEADER_SIZE
  let records ← readRecords registry bytes recEnd recordsSize recordsOffset
  refuse (UInt64.ofNat records.length ≠ header.recordsCount)
    (.recordCountMismatch header.recordsCount (UInt64.ofNat records.length))
  pure records

def fromBytes (bytes : Bytes) : Metered CaptureError CaptureData := do
  let (header, trailer) ← frame bytes
  let (registry, metadata) ← metadata bytes header
  let records ← records bytes header registry
  pure { header, registry, metadata, records, trailer }

/-! ## The frame -/

variable {bytes : Bytes} {h : CaptureHeader}

/-- **When a header and a trailer are accepted.** -/
theorem frame_eq_ok {t : CaptureTrailer} : (frame bytes).outcome = .ok (h, t) ↔
      (CaptureHeader.fromBytes bytes).outcome = .ok h ∧
      h.trailerOffset.toNat + h.trailerSize.toNat < 2 ^ 64 ∧
      h.trailerOffset.toNat + h.trailerSize.toNat ≤ bytes.length ∧
      (CaptureTrailer.fromBytes
        ((bytes.drop h.trailerOffset.toNat).take h.trailerSize.toNat)).outcome = .ok t ∧
      t.recordsCount = h.recordsCount ∧ t.recordsBytes = h.recordsSize ∧
      t.checksum = computeChecksum (bytes.take h.trailerOffset.toNat) := by
  unfold frame
  constructor
  · intro hf
    obtain ⟨h', hh, hf⟩ := bind_eq_ok.mp hf
    obtain ⟨stop, hadd, hf⟩ := bind_eq_ok.mp hf
    obtain ⟨-, hlen, hf⟩ := bind_eq_ok.mp hf
    obtain ⟨tb, htb, hf⟩ := bind_eq_ok.mp hf
    obtain ⟨t', ht, hf⟩ := bind_eq_ok.mp hf
    obtain ⟨cov, hcov, hf⟩ := bind_eq_ok.mp hf
    obtain ⟨⟨⟩, hval, hf⟩ := bind_eq_ok.mp hf
    obtain ⟨rfl, rfl⟩ := Prod.mk.inj (Except.ok.inj hf)
    obtain ⟨hlt, rfl⟩ := add_eq_ok.mp hadd
    obtain ⟨-, hle, rfl⟩ := slice_eq_ok.mp htb
    obtain ⟨-, -, rfl⟩ := slice_eq_ok.mp hcov
    rw [Nat.add_sub_cancel_left] at ht
    have hint := CaptureTrailer.validateIntegrity_eq_ok.mp (ofExcept_eq_ok.mp hval)
    rw [List.drop_zero, Nat.sub_zero] at hint
    exact ⟨hh, hlt, hle, ht, hint⟩
  · rintro ⟨hh, hlt, hle, ht, hint⟩
    rw [bind_of_ok hh]
    rw [bind_of_ok (outcome_add_of_lt hlt), bind_of_ok (refuse_eq_ok (u := ()).mpr (by omega)),
      bind_of_ok (outcome_slice_of_le (by omega) hle), Nat.add_sub_cancel_left,
      bind_of_ok ht,
      bind_of_ok (outcome_slice_of_le (Nat.zero_le _) (by omega)),
      List.drop_zero, Nat.sub_zero,
      bind_of_ok (ofExcept_eq_ok.mpr (CaptureTrailer.validateIntegrity_eq_ok.mpr hint))]
    rfl

/-! ## Metadata and records -/

theorem metadata_eq_ok {reg : SchemaRegistry} {m : SessionMetadata} :
    (metadata bytes h).outcome = .ok (reg, m) ↔
      h.metadataOffset.toNat + h.metadataSize.toNat < 2 ^ 64 ∧
      h.metadataOffset.toNat + h.metadataSize.toNat ≤ bytes.length ∧
      ∃ consumed, (SchemaRegistry.read
          ((bytes.drop h.metadataOffset.toNat).take h.metadataSize.toNat) 0).outcome =
            .ok (reg, consumed) ∧
        consumed ≤ h.metadataSize.toNat ∧
        (SessionMetadata.read.start
          (((bytes.drop h.metadataOffset.toNat).take h.metadataSize.toNat).drop
            consumed)).outcome = .ok m := by
  unfold metadata
  constructor
  · intro hok
    obtain ⟨stop, hadd, hok⟩ := bind_eq_ok.mp hok
    obtain ⟨⟨⟩, -, hok⟩ := bind_eq_ok.mp hok
    obtain ⟨metaBytes, hslice, hok⟩ := bind_eq_ok.mp hok
    obtain ⟨⟨reg', consumed⟩, hreg, hok⟩ := bind_eq_ok.mp hok
    obtain ⟨rest, hrest, hok⟩ := bind_eq_ok.mp hok
    obtain ⟨m', hm, hok⟩ := bind_eq_ok.mp hok
    obtain ⟨rfl, rfl⟩ := Prod.mk.inj (Except.ok.inj hok)
    obtain ⟨hlt, rfl⟩ := add_eq_ok.mp hadd
    obtain ⟨-, hle, rfl⟩ := slice_eq_ok.mp hslice
    obtain ⟨hcons, -, rfl⟩ := slice_eq_ok.mp hrest
    rw [Nat.add_sub_cancel_left] at hreg hm hcons
    rw [List.take_of_length_le (by rw [List.length_drop])] at hm
    rw [List.length_take] at hcons
    exact ⟨hlt, hle, consumed, hreg, by omega, hm⟩
  · rintro ⟨hlt, hle, consumed, hreg, hcons, hm⟩
    have hlen : ((bytes.drop h.metadataOffset.toNat).take h.metadataSize.toNat).length =
        h.metadataSize.toNat := by
      rw [List.length_take, List.length_drop]
      omega
    rw [bind_of_ok (outcome_add_of_lt hlt), bind_of_ok (refuse_eq_ok (u := ()).mpr (by omega)),
      bind_of_ok (outcome_slice_of_le (by omega) hle), Nat.add_sub_cancel_left,
      bind_of_ok hreg]
    rw [bind_of_ok (outcome_slice_of_le (by omega) le_rfl),
      List.take_of_length_le (by rw [List.length_drop]), bind_of_ok hm]
    rfl

theorem records_eq_ok {reg : SchemaRegistry} {out : List NormalizedRecord} :
    (records bytes h reg).outcome = .ok out ↔ h.recordsOffset.toNat + h.recordsSize.toNat < 2 ^ 64 ∧
      h.recordsOffset.toNat + h.recordsSize.toNat ≤ bytes.length ∧
      (readRecords reg bytes (h.recordsOffset.toNat + h.recordsSize.toNat) h.recordsSize.toNat
        h.recordsOffset.toNat).outcome = .ok out ∧
      UInt64.ofNat out.length = h.recordsCount := by
  unfold records
  constructor
  · intro hok
    obtain ⟨recEnd, hadd, hok⟩ := bind_eq_ok.mp hok
    obtain ⟨⟨⟩, hrange, hok⟩ := bind_eq_ok.mp hok
    rw [bind_of_ok (outcome_reserve _ _)] at hok
    obtain ⟨out', hloop, hok⟩ := bind_eq_ok.mp hok
    obtain ⟨⟨⟩, hcount, hok⟩ := bind_eq_ok.mp hok
    obtain rfl := Except.ok.inj hok
    obtain ⟨hlt, rfl⟩ := add_eq_ok.mp hadd
    have hle := refuse_eq_ok.mp hrange
    exact ⟨hlt, by omega, hloop, not_not.mp (refuse_eq_ok.mp hcount)⟩
  · rintro ⟨hlt, hle, hloop, hcount⟩
    rw [bind_of_ok (outcome_add_of_lt hlt), bind_of_ok (refuse_eq_ok (u := ()).mpr (by omega)),
      bind_of_ok (outcome_reserve _ _), bind_of_ok hloop,
      bind_of_ok (refuse_eq_ok (u := ()).mpr (not_not.mpr hcount))]
    rfl

theorem fromBytes_eq_ok {d : CaptureData} : (fromBytes bytes).outcome = .ok d ↔
      (frame bytes).outcome = .ok (d.header, d.trailer) ∧
      (metadata bytes d.header).outcome = .ok (d.registry, d.metadata) ∧
      (records bytes d.header d.registry).outcome = .ok d.records := by
  unfold fromBytes
  constructor
  · intro hok
    obtain ⟨⟨h, t⟩, hframe, hok⟩ := bind_eq_ok.mp hok
    obtain ⟨⟨reg, m⟩, hmeta, hok⟩ := bind_eq_ok.mp hok
    obtain ⟨recs, hrecs, hok⟩ := bind_eq_ok.mp hok
    obtain rfl := Except.ok.inj hok
    exact ⟨hframe, hmeta, hrecs⟩
  · rintro ⟨hframe, hmeta, hrecs⟩
    rw [bind_of_ok hframe]
    rw [bind_of_ok hmeta]
    rw [bind_of_ok hrecs]
    rfl

/-! ## The record loop -/

section Records

variable {registry : SchemaRegistry} {bytes : Bytes} {recEnd fuel recPos : Nat}

theorem readRecords_of_not_lt (h : ¬ recPos < recEnd) :
    (readRecords registry bytes recEnd fuel recPos).outcome = .ok [] := by
  cases fuel with
  | zero | succ fuel => rw [readRecords, if_neg h]; rfl

theorem readRecords_succ (h : recPos < recEnd) (hend : recEnd ≤ bytes.length) :
    (readRecords registry bytes recEnd (fuel + 1) recPos).outcome =
      ((NormalizedRecord.read ((bytes.drop recPos).take (recEnd - recPos)) 0 >>= fun p => do
        ofExcept (registry.validateRecord p.1)
        let next ← add recPos p.2
        let rest ← readRecords registry bytes recEnd fuel next
        pure (p.1 :: rest)) : Metered CaptureError _).outcome := by
  rw [readRecords, if_pos h, bind_of_ok (outcome_slice_of_le h.le hend)]

theorem read_encoded {r : NormalizedRecord} (hr : r.payload.length < 2 ^ 32) (rest : Bytes)
    (hlen : (r.toBytes ++ rest).length ≤ ISIZE_MAX) :
    (NormalizedRecord.read (r.toBytes ++ rest) 0).outcome = .ok (r, r.toBytes.length) := by
  have h := reads_record hr [] rest hlen
  rwa [List.nil_append, List.length_nil, Nat.zero_add] at h

theorem length_window (h : recPos ≤ recEnd) (hend : recEnd ≤ bytes.length) :
    ((bytes.drop recPos).take (recEnd - recPos)).length = recEnd - recPos := by
  rw [List.length_take, List.length_drop]
  omega

/-- **On encoded records the loop returns them, if the registry accepts them all, and nothing
else.** -/
theorem readRecords_encoded (hlen : bytes.length ≤ ISIZE_MAX) (hend : recEnd ≤ bytes.length) :
    ∀ (recs : List NormalizedRecord) (fuel recPos : Nat) (out : List NormalizedRecord),
      (∀ r ∈ recs, r.payload.length < 2 ^ 32) → recPos ≤ recEnd → recs.length ≤ fuel →
      (bytes.drop recPos).take (recEnd - recPos) = recs.flatMap NormalizedRecord.toBytes →
        ((readRecords registry bytes recEnd fuel recPos).outcome = .ok out ↔
          out = recs ∧ ∀ r ∈ recs, registry.validateRecord r = .ok ()) := by
  intro recs
  induction recs with
  | nil =>
    intro fuel recPos out _ hpos _ hwin
    have hdone := length_window hpos hend
    rw [hwin, List.flatMap_nil, List.length_nil] at hdone
    rw [readRecords_of_not_lt (by omega)]
    simp only [Except.ok.injEq, List.not_mem_nil, false_implies, implies_true, and_true]
    exact eq_comm
  | cons r recs ih =>
    intro fuel recPos out hsmall hpos hfuel hwin
    obtain ⟨fuel, rfl⟩ : ∃ k, fuel = k + 1 := ⟨fuel - 1, by simp at hfuel; omega⟩
    have hwlen := length_window hpos hend
    rw [List.flatMap_cons] at hwin
    have hrlen := NormalizedRecord.length_toBytes r
    have hsplit : recEnd - recPos =
        r.toBytes.length + (recs.flatMap NormalizedRecord.toBytes).length := by
      rw [← hwlen, hwin, List.length_append]
    have hlt : recPos < recEnd := by
      rw [hrlen] at hsplit
      unfold RECORD_HEADER_SIZE at hsplit
      omega
    have hread := read_encoded (hsmall r (List.mem_cons_self ..))
      (recs.flatMap NormalizedRecord.toBytes)
      (by rw [List.length_append, ← hsplit]; omega)
    have hrest : (bytes.drop (recPos + r.toBytes.length)).take
        (recEnd - (recPos + r.toBytes.length)) = recs.flatMap NormalizedRecord.toBytes := by
      have hdrop := congrArg (List.drop r.toBytes.length) hwin
      rwa [List.drop_take, List.drop_drop, List.drop_left, Nat.sub_sub] at hdrop
    have hadd : recPos + r.toBytes.length < 2 ^ 64 := by
      unfold ISIZE_MAX at hlen
      omega
    have ih' := fun out => ih fuel (recPos + r.toBytes.length) out
      (fun r' hr' => hsmall r' (List.mem_cons_of_mem _ hr')) (by omega)
      (by simpa using hfuel) hrest
    rw [readRecords_succ hlt hend, hwin, bind_of_ok hread]
    constructor
    · intro h
      obtain ⟨⟨⟩, hval, h⟩ := bind_eq_ok.mp h
      rw [bind_of_ok (outcome_add_of_lt hadd)] at h
      obtain ⟨rest, hloop, h⟩ := bind_eq_ok.mp h
      obtain rfl := Except.ok.inj h
      obtain ⟨rfl, hvalid⟩ := (ih' rest).mp hloop
      refine ⟨rfl, fun r' hr' => ?_⟩
      rcases List.mem_cons.mp hr' with rfl | hr'
      · exact ofExcept_eq_ok.mp hval
      · exact hvalid r' hr'
    · rintro ⟨rfl, hvalid⟩
      have hloop := (ih' recs).mpr ⟨rfl, fun r' hr' => hvalid r' (List.mem_cons_of_mem _ hr')⟩
      have hval := ofExcept_eq_ok.mpr (hvalid r (List.mem_cons_self ..))
      rw [bind_of_ok hval, bind_of_ok (outcome_add_of_lt hadd), bind_of_ok hloop]
      rfl

end Records

end CaptureReader

end PulseOS.Capture
