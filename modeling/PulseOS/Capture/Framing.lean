import PulseOS.Lib.Cursor

/-!
# Framing of a capture file

A capture starts with a fixed header that says where everything stands, and ends with a fixed
trailer that holds the record counts again, a checksum of all bytes before it and the status of
the session.

* `encodeString`, `decodeString` — strings behind a 32-bit length.
* `CaptureHeader`, `CaptureTrailer` — with their encoders and decoders;
  `reads_header`, `reads_trailer` invert them.
* `computeChecksum` — the bitwise checksum as the source computes it.  The mask it derives from
  the bit shifted out is the inverse of the usual one.
-/

namespace PulseOS.Capture

open Cursor UInt32

/-- `b"PBCAP001"`. -/
def CAPTURE_HEADER_MAGIC : Bytes := [0x50, 0x42, 0x43, 0x41, 0x50, 0x30, 0x30, 0x31]

/-- `b"PBCAPTRL"`. -/
def CAPTURE_TRAILER_MAGIC : Bytes := [0x50, 0x42, 0x43, 0x41, 0x50, 0x54, 0x52, 0x4C]

def FORMAT_VERSION_V1 : UInt32 := 1
def SCHEMA_VERSION_V1 : UInt32 := 1
def CAPTURE_HEADER_SIZE : Nat := 80
def CAPTURE_TRAILER_SIZE : Nat := 40

inductive CaptureArch where
  | unknown
  | riscv64
  | loongArch64
  deriving DecidableEq, Repr

def CaptureArch.fromU32 (raw : UInt32) : CaptureArch :=
  if raw = 1 then .riscv64 else if raw = 2 then .loongArch64 else .unknown

def CaptureArch.asU32 : CaptureArch → UInt32
  | .unknown => 0
  | .riscv64 => 1
  | .loongArch64 => 2

@[simp] theorem CaptureArch.fromU32_asU32 (arch : CaptureArch) : fromU32 arch.asU32 = arch := by
  cases arch <;> decide

inductive SessionStatusCode where
  | complete
  | incompleteLoss
  | incompleteTruncated
  | incompleteError
  deriving DecidableEq, Repr

def SessionStatusCode.fromU32 (raw : UInt32) : SessionStatusCode :=
  if raw = 0 then .complete
  else if raw = 1 then .incompleteLoss
  else if raw = 2 then .incompleteTruncated
  else .incompleteError

def SessionStatusCode.asU32 : SessionStatusCode → UInt32
  | .complete => 0
  | .incompleteLoss => 1
  | .incompleteTruncated => 2
  | .incompleteError => 3

@[simp] theorem SessionStatusCode.fromU32_asU32 (status : SessionStatusCode) :
    fromU32 status.asU32 = status := by
  cases status <;> decide

inductive CaptureError where
  | badMagic
  | unsupportedFormatVersion (version : UInt32)
  | unsupportedSchemaVersion (version : UInt32)
  | truncatedHeader
  | badTrailerMagic
  | truncatedTrailer
  | truncatedMetadata
  | truncatedRecord
  | schemaMismatch (expected actual : UInt32)
  | recordCountMismatch (expected actual : UInt64)
  | byteCountMismatch (expected actual : UInt64)
  | checksumMismatch (expected actual : UInt32)
  | incompleteStatus (status : SessionStatusCode)
  | invalidRecordOffset
  | invalidTrailerOffset
  | ioError (message : String)
  deriving DecidableEq, Repr

/-! ## The checksum -/

/-- One round of the inner loop. -/
def checksumBit (crc : UInt32) : UInt32 :=
  let mask := (~~~((crc &&& 1) - 1)) ^^^ 0xFFFFFFFF
  (crc >>> 1) ^^^ (0xEDB88320 &&& mask)

def checksumByte (crc : UInt32) (byte : UInt8) : UInt32 :=
  checksumBit^[8] (crc ^^^ byte.toUInt32)

def computeChecksum (data : Bytes) : UInt32 := ~~~ data.foldl checksumByte 0xFFFFFFFF

/-! ## Strings -/

variable (s : String)

/-- Bytes that are valid UTF-8, behind their number as a `u32`. -/
def encodeString : Bytes :=
  leBytes 4 s.utf8ByteSize ++ s.toUTF8.data.toList

def decodeString : Cursor CaptureError String := do
  need 4 .truncatedMetadata
  let len ← u32
  need len.toNat .truncatedMetadata
  let b ← take len.toNat
  match String.fromUTF8? ⟨b.toArray⟩ with
  | some s => pure s
  | none => fail .truncatedMetadata

/-- The length of the string can be written in its prefix. -/
def Short : Prop := s.utf8ByteSize < 2 ^ 32

instance : Decidable (Short s) := inferInstanceAs (Decidable (_ < _))

theorem length_utf8 : s.toUTF8.data.toList.length = s.utf8ByteSize := by
  rw [Array.length_toList]
  rfl

@[simp] theorem length_encodeString : (encodeString s).length = 4 + s.utf8ByteSize := by
  rw [encodeString, List.length_append, leBytes_length, length_utf8]

theorem fromUTF8_toUTF8 : String.fromUTF8? ⟨s.toUTF8.data.toList.toArray⟩ = some s := by
  rw [Array.toArray_toList]
  exact dif_pos s.isValidUTF8

theorem reads_string {s : String} (h : Short s) : Reads decodeString (encodeString s) s := by
  refine reads_need ?_ (by simp)
  have hlen : (ofNat s.utf8ByteSize).toNat = s.utf8ByteSize := by
    rw [toNat_ofNat']
    exact Nat.mod_eq_of_lt h
  have hprefix : Reads u32 (leBytes 4 s.utf8ByteSize) (ofNat s.utf8ByteSize)
      (ε := CaptureError) := by
    have hread := reads_u32 (ε := CaptureError) (ofNat s.utf8ByteSize)
    rwa [hlen] at hread
  refine hprefix.bind ?_
  rw [hlen]
  refine reads_need ?_ (length_utf8 s).ge
  refine (reads_take (length_utf8 s)).last ?_
  rw [fromUTF8_toUTF8]

theorem total_decodeString : Total 0 0 decodeString Short := by
  refine .need (by omega) ?_
  refine total_u32.bind fun len _ => ?_
  have hlen := len.toNat_lt
  refine .need (by omega) ?_
  refine (total_take (Nat.zero_add _)).bind fun b hb => ?_
  split
  · rename_i s hs
    refine total_pure ?_
    unfold String.fromUTF8? at hs
    split at hs
    · obtain rfl := Option.some.inj hs
      change b.toArray.size < 2 ^ 32
      rw [List.size_toArray, hb]
      exact hlen
    · exact nomatch hs
  · exact total_fail _

theorem modest_decodeString : Modest decodeString := by
  refine (modest_need _ _).bind fun _ => modest_u32.bind fun len => ?_
  refine (modest_need _ _).bind fun _ => (modest_take _).bind fun b => ?_
  split
  · exact modest_pure _
  · exact modest_fail _

/-! ## The header -/

structure CaptureHeader where
  magic : Bytes
  formatVersion : UInt32
  schemaVersion : UInt32
  headerSize : UInt32
  targetArch : CaptureArch
  metadataOffset : UInt64
  metadataSize : UInt64
  recordsOffset : UInt64
  recordsCount : UInt64
  recordsSize : UInt64
  trailerOffset : UInt64
  trailerSize : UInt64
  deriving DecidableEq, Repr

namespace CaptureHeader

def new (arch : CaptureArch) : CaptureHeader where
  magic := CAPTURE_HEADER_MAGIC
  formatVersion := FORMAT_VERSION_V1
  schemaVersion := SCHEMA_VERSION_V1
  headerSize := ofNat CAPTURE_HEADER_SIZE
  targetArch := arch
  metadataOffset := 0
  metadataSize := 0
  recordsOffset := 0
  recordsCount := 0
  recordsSize := 0
  trailerOffset := 0
  trailerSize := UInt64.ofNat CAPTURE_TRAILER_SIZE

/-- The fields are copied to consecutive ranges of the buffer. -/
def toBytes (h : CaptureHeader) : Bytes :=
  h.magic ++ leBytes 4 h.formatVersion.toNat ++ leBytes 4 h.schemaVersion.toNat ++
    leBytes 4 h.headerSize.toNat ++ leBytes 4 h.targetArch.asU32.toNat ++
    leBytes 8 h.metadataOffset.toNat ++ leBytes 8 h.metadataSize.toNat ++
    leBytes 8 h.recordsOffset.toNat ++ leBytes 8 h.recordsCount.toNat ++
    leBytes 8 h.recordsSize.toNat ++ leBytes 8 h.trailerOffset.toNat ++
    leBytes 8 h.trailerSize.toNat

def read : Cursor CaptureError CaptureHeader := do
  need CAPTURE_HEADER_SIZE .truncatedHeader
  let magic ← take 8
  refuse (magic ≠ CAPTURE_HEADER_MAGIC) .badMagic
  let formatVersion ← u32
  refuse (formatVersion ≠ FORMAT_VERSION_V1) (.unsupportedFormatVersion formatVersion)
  let schemaVersion ← u32
  let headerSize ← u32
  let rawArch ← u32
  let metadataOffset ← u64
  let metadataSize ← u64
  let recordsOffset ← u64
  let recordsCount ← u64
  let recordsSize ← u64
  let trailerOffset ← u64
  let trailerSize ← u64
  pure {
    magic, formatVersion, schemaVersion, headerSize
    targetArch := CaptureArch.fromU32 rawArch
    metadataOffset, metadataSize, recordsOffset, recordsCount, recordsSize
    trailerOffset, trailerSize }

def fromBytes (bytes : Bytes) : Metered CaptureError CaptureHeader := read.start bytes

def Stamped (h : CaptureHeader) : Prop :=
  h.magic = CAPTURE_HEADER_MAGIC ∧ h.formatVersion = FORMAT_VERSION_V1

theorem length_toBytes {h : CaptureHeader} (hs : h.Stamped) :
    h.toBytes.length = CAPTURE_HEADER_SIZE := by
  simp [toBytes, hs.1, CAPTURE_HEADER_MAGIC, CAPTURE_HEADER_SIZE]

end CaptureHeader

theorem total_header : Total 0 0 CaptureHeader.read fun _ => True := by
  refine .need (by decide) ?_
  refine (total_take (m := 72) (k := 8) rfl).bind fun _ _ => ?_
  refine (total_refuse _).bind fun _ _ => ?_
  refine total_u32.bind fun _ _ => ?_
  refine (total_refuse _).bind fun _ _ => ?_
  iterate 3 refine total_u32.bind fun _ _ => ?_
  iterate 6 refine total_u64.bind fun _ _ => ?_
  exact total_u64.bind fun _ _ => total_pure trivial

theorem modest_header : Modest CaptureHeader.read := by
  refine (modest_need _ _).bind fun _ => (modest_take _).bind fun _ => ?_
  refine (modest_refuse _).bind fun _ => modest_u32.bind fun _ => ?_
  refine (modest_refuse _).bind fun _ => modest_u32.bind fun _ => ?_
  refine modest_u32.bind fun _ => modest_u32.bind fun _ => ?_
  refine modest_u64.bind fun _ => modest_u64.bind fun _ => modest_u64.bind fun _ => ?_
  refine modest_u64.bind fun _ => modest_u64.bind fun _ => modest_u64.bind fun _ => ?_
  exact modest_u64.bind fun _ => modest_pure _

theorem reads_header {h : CaptureHeader} (hs : h.Stamped) :
    Reads CaptureHeader.read h.toBytes h := by
  refine reads_need ?_ (CaptureHeader.length_toBytes hs).ge
  have hmagic : h.magic.length = 8 := by rw [hs.1]; rfl
  unfold CaptureHeader.toBytes
  simp only [List.append_assoc]
  refine (reads_take hmagic).bind ?_
  refine reads_refuse ?_ (not_not.mpr hs.1)
  refine (reads_u32 _).bind ?_
  refine reads_refuse ?_ (not_not.mpr hs.2)
  iterate 3 refine (reads_u32 _).bind ?_
  iterate 6 refine (reads_u64 _).bind ?_
  refine (reads_u64 _).last ?_
  rw [CaptureArch.fromU32_asU32]

/-! ## The trailer -/

structure CaptureTrailer where
  magic : Bytes
  recordsCount : UInt64
  recordsBytes : UInt64
  checksum : UInt32
  statusCode : SessionStatusCode
  trailerSize : UInt32
  reserved : UInt32
  deriving DecidableEq, Repr

namespace CaptureTrailer

def new (recordsCount recordsBytes : UInt64) (checksum : UInt32)
    (statusCode : SessionStatusCode) : CaptureTrailer where
  magic := CAPTURE_TRAILER_MAGIC
  recordsCount := recordsCount
  recordsBytes := recordsBytes
  checksum := checksum
  statusCode := statusCode
  trailerSize := ofNat CAPTURE_TRAILER_SIZE
  reserved := 0

def toBytes (t : CaptureTrailer) : Bytes :=
  t.magic ++ leBytes 8 t.recordsCount.toNat ++ leBytes 8 t.recordsBytes.toNat ++
    leBytes 4 t.checksum.toNat ++ leBytes 4 t.statusCode.asU32.toNat ++
    leBytes 4 t.trailerSize.toNat ++ leBytes 4 t.reserved.toNat

def read : Cursor CaptureError CaptureTrailer := do
  need CAPTURE_TRAILER_SIZE .truncatedTrailer
  let magic ← take 8
  refuse (magic ≠ CAPTURE_TRAILER_MAGIC) .badTrailerMagic
  let recordsCount ← u64
  let recordsBytes ← u64
  let checksum ← u32
  let rawStatus ← u32
  let trailerSize ← u32
  let reserved ← u32
  pure {
    magic, recordsCount, recordsBytes, checksum
    statusCode := SessionStatusCode.fromU32 rawStatus
    trailerSize, reserved }

def fromBytes (bytes : Bytes) : Metered CaptureError CaptureTrailer := read.start bytes

def validateIntegrity (t : CaptureTrailer) (actualRecordCount actualPayloadBytes : UInt64)
    (actualChecksum : UInt32) : Except CaptureError Unit :=
  if t.recordsCount ≠ actualRecordCount then
    .error (.recordCountMismatch t.recordsCount actualRecordCount)
  else if t.recordsBytes ≠ actualPayloadBytes then
    .error (.byteCountMismatch t.recordsBytes actualPayloadBytes)
  else if t.checksum ≠ actualChecksum then
    .error (.checksumMismatch t.checksum actualChecksum)
  else .ok ()

theorem validateIntegrity_eq_ok {t : CaptureTrailer} {count size : UInt64} {sum : UInt32} :
    t.validateIntegrity count size sum = .ok () ↔
      t.recordsCount = count ∧ t.recordsBytes = size ∧ t.checksum = sum := by
  unfold validateIntegrity
  split
  · rename_i h
    simp [h]
  split
  · rename_i h
    simp [h]
  split
  · rename_i h
    simp [h]
  · simp_all

theorem length_toBytes {t : CaptureTrailer} (hm : t.magic = CAPTURE_TRAILER_MAGIC) :
    t.toBytes.length = CAPTURE_TRAILER_SIZE := by
  simp [toBytes, hm, CAPTURE_TRAILER_MAGIC, CAPTURE_TRAILER_SIZE]

end CaptureTrailer

open CaptureTrailer

theorem total_trailer : Total 0 0 read fun _ => True := by
  refine .need (by decide) ?_
  refine (total_take (m := 32) (k := 8) rfl).bind fun _ _ => ?_
  refine (total_refuse _).bind fun _ _ => ?_
  refine total_u64.bind fun _ _ => ?_
  refine total_u64.bind fun _ _ => ?_
  iterate 3 refine total_u32.bind fun _ _ => ?_
  exact total_u32.bind fun _ _ => total_pure trivial

theorem modest_trailer : Modest read := by
  refine (modest_need _ _).bind fun _ => (modest_take _).bind fun _ => ?_
  refine (modest_refuse _).bind fun _ => modest_u64.bind fun _ => modest_u64.bind fun _ => ?_
  refine modest_u32.bind fun _ => modest_u32.bind fun _ => modest_u32.bind fun _ => ?_
  exact modest_u32.bind fun _ => modest_pure _

theorem reads_trailer {t : CaptureTrailer} (hm : t.magic = CAPTURE_TRAILER_MAGIC) :
    Reads read t.toBytes t := by
  refine reads_need ?_ (length_toBytes hm).ge
  have hmagic : t.magic.length = 8 := by rw [hm]; rfl
  unfold toBytes
  simp only [List.append_assoc]
  refine (reads_take hmagic).bind ?_
  refine reads_refuse ?_ (not_not.mpr hm)
  refine (reads_u64 _).bind ?_
  refine (reads_u64 _).bind ?_
  iterate 3 refine (reads_u32 _).bind ?_
  refine (reads_u32 _).last ?_
  rw [SessionStatusCode.fromU32_asU32]

end PulseOS.Capture
