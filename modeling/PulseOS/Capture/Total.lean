import PulseOS.Capture.Reader

/-!
# The capture reader on untrusted bytes

The checksum restricts nothing: whoever writes the file also writes its sum.  What is left to stop
an offset, a size or a count of the file is the reader's own comparison, made after the addition.

* `safe_frame`, `safe_metadata`, `safe_records` — when each part returns and reserves with measure.
* `reader_total_iff` — when the whole reader does.
-/

namespace PulseOS.Capture

open Cursor Metered

/-- A byte slice; none is longer than `isize::MAX`. -/
def Slice := { bytes : Bytes // bytes.length ≤ ISIZE_MAX }

namespace CaptureReader

variable {bytes : Bytes} {limit : Nat}

/-- A decoder that stays inside its slice and reserves with measure is safe at its start. -/
theorem safe_start {α : Type} {d : Cursor CaptureError α} {P : α → Prop} (ht : Total 0 0 d P)
    (hm : Modest d) (hlen : bytes.length ≤ ISIZE_MAX) (hlimit : bytes.length ≤ limit) :
    (d.start bytes).Safe limit := by
  unfold Cursor.start
  rw [safe_bind]
  exact ⟨⟨(ht bytes 0 hlen (Nat.zero_le _)).returns, (hm bytes 0).mono hlimit⟩,
    fun _ _ => safe_pure _⟩

/-- A range of the file: its end is added up, and then compared with the length. -/
theorem safe_range {α : Type} {a b : Nat} {e : CaptureError} {k : Nat → Metered CaptureError α} :
    (do let stop ← add a b; refuse (bytes.length < stop) e; k stop).Safe limit ↔
      a + b < 2 ^ 64 ∧ (a + b ≤ bytes.length → (k (a + b)).Safe limit) := by
  rw [safe_bind, safe_add]
  refine and_congr_right fun hfit => ⟨fun hsafe hin => ?_, fun hk stop hstop => ?_⟩
  · exact (safe_bind.mp (hsafe _ (outcome_add_of_lt hfit))).2 () (refuse_eq_ok.mpr (by omega))
  · obtain ⟨-, rfl⟩ := add_eq_ok.mp hstop
    rw [safe_bind]
    exact ⟨safe_refuse, fun _ hin => hk (Nat.le_of_not_lt (refuse_eq_ok.mp hin))⟩

theorem safe_frame (hlen : bytes.length ≤ ISIZE_MAX) :
    (frame bytes).Safe bytes.length ↔ ∀ h, (CaptureHeader.fromBytes bytes).outcome = .ok h →
      h.trailerOffset.toNat + h.trailerSize.toNat < 2 ^ 64 := by
  unfold frame
  rw [safe_bind]
  constructor
  · rintro ⟨-, hrest⟩ h hh
    exact (safe_range.mp (hrest h hh)).1
  · intro hfit
    refine ⟨safe_start total_header modest_header hlen le_rfl, fun h hh => ?_⟩
    refine safe_range.mpr ⟨hfit h hh, fun hle => ?_⟩
    rw [safe_bind]
    refine ⟨safe_slice.mpr ⟨by omega, hle⟩, fun tb htb => ?_⟩
    have htlen : tb.length ≤ bytes.length := by
      obtain ⟨-, -, rfl⟩ := slice_eq_ok.mp htb
      exact (List.length_take_le' _ _).trans (by simp)
    rw [safe_bind]
    refine ⟨safe_start total_trailer modest_trailer (htlen.trans hlen) htlen, fun t _ => ?_⟩
    rw [safe_bind]
    refine ⟨safe_slice.mpr ⟨Nat.zero_le _, by omega⟩, fun cov _ => ?_⟩
    rw [safe_bind]
    exact ⟨safe_ofExcept, fun _ _ => safe_pure _⟩

/-- The part of the file the header gives for registry and metadata. -/
def metaBytes (bytes : Bytes) (h : CaptureHeader) : Bytes :=
  (bytes.drop h.metadataOffset.toNat).take h.metadataSize.toNat

/-- The range of the metadata fits an address, and no schema in it announces more fields than the
file could hold. -/
def MetadataFits (bytes : Bytes) (h : CaptureHeader) : Prop :=
  h.metadataOffset.toNat + h.metadataSize.toNat < 2 ^ 64 ∧
    (h.metadataOffset.toNat + h.metadataSize.toNat ≤ bytes.length → 4 ≤ (metaBytes bytes h).length →
        FieldCountsFit bytes.length (metaBytes bytes h) (u32At (metaBytes bytes h) 0).toNat 4)

theorem safe_metadata (hlen : bytes.length ≤ ISIZE_MAX) (h : CaptureHeader) :
    (metadata bytes h).Safe bytes.length ↔ MetadataFits bytes h := by
  have hmlen : (metaBytes bytes h).length ≤ bytes.length :=
    (List.length_take_le' _ _).trans (by simp)
  unfold metadata MetadataFits
  refine safe_range.trans (and_congr_right fun _ => forall_congr' fun hle => ?_)
  rw [← within_registry hmlen, safe_bind]
  constructor
  · intro hsafe
    have hsafe := hsafe.2 _ (outcome_slice_of_le (by omega) hle)
    rw [Nat.add_sub_cancel_left, safe_bind] at hsafe
    exact hsafe.1.2
  · intro hcounts
    refine ⟨safe_slice.mpr ⟨by omega, hle⟩, fun mb hmb => ?_⟩
    obtain ⟨-, -, rfl⟩ := slice_eq_ok.mp hmb
    rw [Nat.add_sub_cancel_left, safe_bind]
    have htotal := total_registry (metaBytes bytes h) 0 (hmlen.trans hlen) (Nat.zero_le _)
    refine ⟨⟨htotal.returns, hcounts⟩, fun p hp => ?_⟩
    have hbound := htotal.value hp
    rw [safe_bind]
    refine ⟨safe_slice.mpr ⟨hbound.2.1, le_rfl⟩, fun rest hrest => ?_⟩
    have hrlen : rest.length ≤ bytes.length := by
      obtain ⟨-, -, rfl⟩ := slice_eq_ok.mp hrest
      refine (List.length_take_le' _ _).trans ?_
      rw [List.length_drop]
      exact (Nat.sub_le _ _).trans hmlen
    rw [safe_bind]
    exact ⟨safe_start total_metadata modest_metadata (hrlen.trans hlen) hrlen,
      fun _ _ => safe_pure _⟩

/-- The record loop returns: a round takes at least the header of a record. -/
theorem safe_readRecords {registry : SchemaRegistry} {recEnd : Nat}
    (hlen : bytes.length ≤ ISIZE_MAX) (hend : recEnd ≤ bytes.length) :
    ∀ (fuel recPos : Nat), recEnd ≤ recPos + fuel →
      (readRecords registry bytes recEnd fuel recPos).Safe bytes.length := by
  intro fuel
  induction fuel with
  | zero =>
    intro recPos hfuel
    rw [readRecords, if_neg (by omega)]
    exact safe_pure _
  | succ fuel ih =>
    intro recPos hfuel
    rw [readRecords]
    split
    swap
    · exact safe_pure _
    rename_i hlt
    rw [safe_bind]
    refine ⟨safe_slice.mpr ⟨hlt.le, hend⟩, fun window hwin => ?_⟩
    obtain ⟨-, -, rfl⟩ := slice_eq_ok.mp hwin
    have hwlen := length_window hlt.le hend
    have htotal := total_record ((bytes.drop recPos).take (recEnd - recPos)) 0 (by omega) (by omega)
    rw [safe_bind]
    refine ⟨⟨htotal.returns, (modest_record _ 0).mono (by omega)⟩, fun p hp => ?_⟩
    have hstop := (htotal.value hp).2.1
    have hmoved := consumes_record _ 0 p.1 p.2 hp
    unfold RECORD_HEADER_SIZE at hmoved
    rw [safe_bind]
    refine ⟨safe_ofExcept, fun _ _ => ?_⟩
    rw [safe_bind]
    unfold ISIZE_MAX at hlen
    refine ⟨safe_add.mpr (by omega), fun next hnext => ?_⟩
    obtain ⟨-, rfl⟩ := add_eq_ok.mp hnext
    rw [safe_bind]
    exact ⟨ih _ (by omega), fun _ _ => safe_pure _⟩

/-- The range of the records fits an address, and the file could hold the records announced. -/
def RecordsFit (bytes : Bytes) (h : CaptureHeader) : Prop :=
  h.recordsOffset.toNat + h.recordsSize.toNat < 2 ^ 64 ∧
    (h.recordsOffset.toNat + h.recordsSize.toNat ≤ bytes.length →
      h.recordsCount.toNat * RECORD_HEADER_SIZE ≤ bytes.length)

theorem safe_records (hlen : bytes.length ≤ ISIZE_MAX) (h : CaptureHeader) (reg : SchemaRegistry) :
    (records bytes h reg).Safe bytes.length ↔ RecordsFit bytes h := by
  unfold records RecordsFit
  refine safe_range.trans (and_congr_right fun _ => forall_congr' fun hle => ?_)
  rw [safe_bind]
  constructor
  · exact fun hsafe => safe_reserve.mp hsafe.1
  · intro hcount
    refine ⟨safe_reserve.mpr hcount, fun _ _ => ?_⟩
    rw [safe_bind]
    refine ⟨safe_readRecords hlen hle _ _ (by omega), fun _ _ => ?_⟩
    rw [safe_bind]
    exact ⟨safe_refuse, fun _ _ => safe_pure _⟩

/-- What the reader trusts of a file: as far as it gets, the ranges it adds up fit an address and
the counts it reserves for are no more than the file could hold. -/
def Trusted (bytes : Bytes) : Prop :=
  ∀ h, (CaptureHeader.fromBytes bytes).outcome = .ok h →
    h.trailerOffset.toNat + h.trailerSize.toNat < 2 ^ 64 ∧
      ∀ t, (frame bytes).outcome = .ok (h, t) → MetadataFits bytes h ∧
        ∀ p, (metadata bytes h).outcome = .ok p → RecordsFit bytes h

/-- **The reader returns and reserves no more than the file could hold exactly if the ranges and
counts it trusts allow it.** -/
theorem reader_total_iff (input : Slice) :
    (fromBytes input.1).Safe input.1.length ↔ Trusted input.1 := by
  obtain ⟨bytes, hlen⟩ := input
  unfold fromBytes
  rw [safe_bind, safe_frame hlen]
  constructor
  · rintro ⟨hadd, hrest⟩ h hh
    refine ⟨hadd h hh, fun t ht => ?_⟩
    have hsafe := hrest _ ht
    rw [safe_bind, safe_metadata hlen] at hsafe
    refine ⟨hsafe.1, fun p hp => ?_⟩
    have hrecs := hsafe.2 p hp
    rw [safe_bind, safe_records hlen] at hrecs
    exact hrecs.1
  · intro htrust
    refine ⟨fun h hh => (htrust h hh).1, fun p hp => ?_⟩
    obtain ⟨hmeta, hrecs⟩ := (htrust p.1 (frame_eq_ok.mp hp).1).2 p.2 hp
    rw [safe_bind, safe_metadata hlen]
    refine ⟨hmeta, fun q hq => ?_⟩
    rw [safe_bind, safe_records hlen]
    exact ⟨hrecs q hq, fun _ _ => safe_pure _⟩

/-- A header whose trailer ends behind the last address. -/
def overflowing : CaptureHeader :=
  { CaptureHeader.new .riscv64 with trailerOffset := 0xFFFFFFFFFFFFFFFF, trailerSize := 41 }

/-- The reader gets the header back. -/
theorem fromBytes_overflowing :
    (CaptureHeader.fromBytes overflowing.toBytes).outcome = .ok overflowing := by
  have hstamped : overflowing.Stamped := ⟨rfl, rfl⟩
  have hread := (reads_header hstamped).start []
    (by rw [List.append_nil, CaptureHeader.length_toBytes hstamped]; decide)
  rwa [List.append_nil] at hread

/-- **Eighty bytes stop the reader**: the sum of two header fields overflows before it is compared
with the length of the file. -/
theorem overflowing_header_panics : overflowing.toBytes.length = 80 ∧
      (fromBytes overflowing.toBytes).outcome = Exec.panic .overflow := by
  refine ⟨CaptureHeader.length_toBytes ⟨rfl, rfl⟩, ?_⟩
  unfold fromBytes frame
  rw [outcome_bind, bind_of_ok fromBytes_overflowing]
  have hadd : (add overflowing.trailerOffset.toNat overflowing.trailerSize.toNat :
      Metered CaptureError Nat).outcome = Exec.panic .overflow := by
    rw [add, if_neg (by simp [overflowing])]
    rfl
  rw [outcome_bind, hadd]
  rfl

end CaptureReader

end PulseOS.Capture
