import PulseOS.Capture.Checksum
import PulseOS.Capture.RoundTrip
import PulseOS.Capture.Total

/-!
# Damaged captures

A round of the checksum loses nothing: where two texts differ in one byte, their checksums differ.

* `damaged_refused` — **the reader refuses a finished file that was cut short, or in which a byte
  between header and trailer was changed.**
-/

namespace PulseOS.Capture

open CaptureReader CaptureWriter List

/-- The top bit of the polynomial is set, so it is not what a shift leaves. -/
theorem crcBit_eq_zero {c : UInt32} (h : crcBit c = 0) : c = 0 := by
  have hhalf : (c >>> 1).toNat = c.toNat / 2 := by simp [Nat.shiftRight_eq_div_pow]
  have hlow : (c &&& 1).toNat = c.toNat % 2 := by simp
  have hlt := c.toNat_lt
  rw [crcBit, UInt32.xor_eq_zero_iff] at h
  rcases lowBit_cases c with h0 | h1
  · rw [h0] at h hlow
    rw [h] at hhalf
    simp at hhalf hlow
    exact UInt32.toNat_inj.mp (by simp; omega)
  · rw [h1] at h
    rw [h] at hhalf
    simp at hhalf
    omega

theorem checksumBit_injective : Function.Injective checksumBit := by
  intro a b h
  rw [checksumBit_eq, checksumBit_eq, UInt32.xor_left_inj, ← UInt32.xor_eq_zero_iff,
    ← crcBit_xor] at h
  exact UInt32.xor_eq_zero_iff.mp (crcBit_eq_zero h)

theorem foldl_checksumByte_injective : ∀ data : Bytes,
    Function.Injective fun c => data.foldl checksumByte c
  | [] => fun _ _ h => h
  | _ :: data => fun _ _ h =>
    (UInt32.xor_left_inj _).mp
      (checksumBit_injective.iterate 8 (foldl_checksumByte_injective data h))

/-- The registers differ from the changed byte on. -/
theorem foldl_checksumByte_set {b : UInt8} : ∀ {data : Bytes} {i : Nat} (c : UInt32),
    i < data.length → data[i]? ≠ some b →
      (data.set i b).foldl checksumByte c ≠ data.foldl checksumByte c
  | x :: data, 0, c, _, hb => by
    intro h
    have hbyte := checksumBit_injective.iterate 8 (foldl_checksumByte_injective data h)
    refine hb (congrArg some (UInt8.toNat_inj.mp ?_))
    have hnat := congrArg UInt32.toNat ((UInt32.xor_right_inj _).mp hbyte)
    simpa using hnat.symm
  | x :: data, i + 1, c, hi, hb =>
    foldl_checksumByte_set (checksumByte c x) (by simpa using hi) (by simpa using hb)

theorem computeChecksum_set {data : Bytes} {i : Nat} {b : UInt8} (hi : i < data.length)
    (hb : data[i]? ≠ some b) : computeChecksum (data.set i b) ≠ computeChecksum data := by
  intro h
  exact foldl_checksumByte_set _ hi hb (UInt32.not_inj.mp h)

/-- An accepted header is there in full. -/
theorem header_needs {bytes : Bytes} {h : CaptureHeader}
    (hok : (CaptureHeader.fromBytes bytes).outcome = .ok h) :
    CAPTURE_HEADER_SIZE ≤ bytes.length := by
  obtain ⟨p, hread, -⟩ := Metered.bind_eq_ok.mp hok
  obtain ⟨u, off, hneed, -⟩ := Cursor.bind_eq_ok.mp hread
  rw [Cursor.outcome_need (by decide)] at hneed
  split at hneed
  · cases hneed
  · omega

section Damage

variable {w : CaptureWriter} {m : SessionMetadata}

/-- Only the first bytes make the header. -/
theorem header_append {rest : Bytes} (hlen : CAPTURE_HEADER_SIZE + rest.length ≤ ISIZE_MAX) :
    (CaptureHeader.fromBytes ((w.header m).toBytes ++ rest)).outcome = .ok (w.header m) :=
  (reads_header ⟨rfl, rfl⟩).start rest (by
    rw [length_append, CaptureHeader.length_toBytes ⟨rfl, rfl⟩]
    exact hlen)

variable (hlen : (w.body m).length + CAPTURE_TRAILER_SIZE ≤ ISIZE_MAX)
include hlen

/-- Behind the header of a finished file no range overflows, so a frame that is not accepted is
refused with an error. -/
theorem frame_refused {bytes : Bytes} (hfits : bytes.length ≤ ISIZE_MAX)
    (hheader : ∀ h, (CaptureHeader.fromBytes bytes).outcome = .ok h → h = w.header m)
    (hframe : ∀ t, (frame bytes).outcome ≠ .ok (w.header m, t)) :
    ∃ e, (fromBytes bytes).outcome = Exec.err e := by
  have hlay := header_layout hlen
  have hsafe : (frame bytes).Safe bytes.length := by
    refine (safe_frame hfits).mpr fun h hh => ?_
    rw [hheader h hh, hlay.trailerOffset, hlay.trailerSize]
    unfold ISIZE_MAX at hlen
    omega
  cases hf : (frame bytes).outcome with
  | ok p =>
    obtain ⟨h, t⟩ := p
    rw [hheader h (frame_eq_ok.mp hf).1] at hf
    exact absurd hf (hframe t)
  | error e =>
    have hreturns := hsafe.1
    rw [hf] at hreturns
    cases e with
    | err e => exact ⟨e, by rw [fromBytes, Metered.outcome_bind, hf]; rfl⟩
    | panic | hang => exact hreturns.elim

theorem prefix_refused {n : Nat} (hn : n < (w.output m).length) :
    ∃ e, (fromBytes ((w.output m).take n)).outcome = Exec.err e := by
  have hlay := header_layout hlen
  have hout := length_output w m
  have hbody := length_body w m
  have htake : ((w.output m).take n).length = n := by rw [length_take, min_eq_left hn.le]
  refine frame_refused hlen (by omega) (fun h hh => ?_) fun t ht => ?_
  · have hsize := header_needs hh
    have hhead := CaptureHeader.length_toBytes (h := w.header m) ⟨rfl, rfl⟩
    have hsplit : (w.output m).take n = (w.header m).toBytes ++
        (w.metadataBuf m ++ (w.recordsBuf ++ (w.trailer m).toBytes)).take
          (n - CAPTURE_HEADER_SIZE) := by
      simp only [output, body, append_assoc]
      rw [take_append, take_of_length_le (by omega), hhead]
    rw [hsplit, header_append (by rw [length_take]; omega)] at hh
    exact (Except.ok.inj hh).symm
  · obtain ⟨-, -, hle, -⟩ := frame_eq_ok.mp ht
    rw [hlay.trailerOffset, hlay.trailerSize] at hle
    omega

/-- Header and trailer are read as before, and the checksum is another. -/
theorem changed_refused {i : Nat} {b : UInt8} (hi : CAPTURE_HEADER_SIZE ≤ i)
    (hbody : i < (w.body m).length) (hb : (w.output m)[i]? ≠ some b) :
    ∃ e, (fromBytes ((w.output m).set i b)).outcome = Exec.err e := by
  have hlay := header_layout hlen
  have hsplit : (w.output m).set i b = (w.body m).set i b ++ (w.trailer m).toBytes :=
    set_append_left _ _ hbody
  refine frame_refused hlen (by rw [length_set, length_output]; exact hlen) (fun h hh => ?_)
    fun t ht => ?_
  · have hhead := CaptureHeader.length_toBytes (h := w.header m) ⟨rfl, rfl⟩
    have hheader : (w.body m).set i b = (w.header m).toBytes ++
        (w.metadataBuf m ++ w.recordsBuf).set (i - CAPTURE_HEADER_SIZE) b := by
      rw [body, append_assoc, set_append_right _ _ (by omega), hhead]
    have hlength := length_body w m
    rw [hsplit, hheader, append_assoc, header_append (by
      rw [length_append, length_set, length_append, CaptureTrailer.length_toBytes rfl]
      omega)] at hh
    exact (Except.ok.inj hh).symm
  · obtain ⟨-, -, -, ht, -, -, hsum⟩ := frame_eq_ok.mp ht
    obtain ⟨-, -, -, ht', -, -, hsum'⟩ := frame_eq_ok.mp (frame_output hlen)
    rw [hlay.trailerOffset, hsplit] at ht hsum
    rw [drop_left' (length_set ..)] at ht
    rw [take_left' (length_set ..)] at hsum
    rw [hlay.trailerOffset, output, drop_left, ht] at ht'
    rw [hlay.trailerOffset, output, take_left, ← Except.ok.inj ht', hsum] at hsum'
    rw [output, getElem?_append_left hbody] at hb
    exact computeChecksum_set hbody hb hsum'

end Damage

variable {w : CaptureWriter}

/-- **The reader refuses a damaged file with an error**: a finished file cut short anywhere, or
with one byte between header and trailer changed. -/
theorem damaged_refused {stopNs : UInt64} {bytes : Bytes} (h : (w.finish stopNs).2 = .ok bytes) :
    (∀ n < bytes.length, ∃ e, (fromBytes (bytes.take n)).outcome = Exec.err e) ∧
    ∀ i b, CAPTURE_HEADER_SIZE ≤ i → i + CAPTURE_TRAILER_SIZE < bytes.length →
      bytes[i]? ≠ some b → ∃ e, (fromBytes (bytes.set i b)).outcome = Exec.err e := by
  obtain ⟨m, -, hlen, rfl⟩ := finish_eq_ok.mp h
  refine ⟨fun n hn => prefix_refused hlen hn, fun i b hi hlt hb => ?_⟩
  rw [length_output] at hlt
  exact changed_refused hlen hi (by omega) hb

theorem damaged_refused_tick : ∃ bytes,
    (((new tickConfig tickRegistry).run [.start 5, .writeRecord tick]).finish 8).2 = .ok bytes ∧
      (∃ e, (fromBytes (bytes.take 90)).outcome = Exec.err e) ∧
      ∃ e, (fromBytes (bytes.set 100 255)).outcome = Exec.err e := by
  have hbytes : (((new tickConfig tickRegistry).run [.start 5, .writeRecord tick]).finish 8).2 =
      .ok _ := finish_eq_ok.mpr ⟨_, rfl, by decide +kernel, rfl⟩
  have hrefused := damaged_refused hbytes
  exact ⟨_, hbytes, hrefused.1 90 (by decide +kernel),
    hrefused.2 100 255 (by decide) (by decide +kernel) (by decide +kernel)⟩

end PulseOS.Capture
