import PulseOS.Capture.Framing

/-!
# Records and the schema registry

A normalized record is a fixed header and a payload.  The registry says, for each event, which
version and payload size its records have; it is written into the capture in front of the session
metadata.

* `NormalizedRecord` — encoder, decoder, and the two raw sample formats it is made from.
* `SchemaRegistry` — schemas with distinct event ids; `register` keeps them distinct.
* `reads_record`, `reads_registry` — the decoders invert the encoders, for a registry whose
  lengths all fit their 32-bit prefixes (`SchemaRegistry.Fits`); what the decoder returns always
  fits (`total_registry`).
-/

namespace PulseOS.Capture

open Cursor Metered UInt32

/-- `u32::from_ne_bytes(raw[i..i + 4])`, at an index the caller has checked. -/
def u32At (raw : Bytes) (i : Nat) : UInt32 := ofNat (leNat ((raw.drop i).take 4))

/-- `u64::from_ne_bytes(raw[i..i + 8])`, at an index the caller has checked. -/
def u64At (raw : Bytes) (i : Nat) : UInt64 := UInt64.ofNat (leNat ((raw.drop i).take 8))

/-! ## Records -/

def RECORD_HEADER_SIZE : Nat := 48

structure NormalizedRecord where
  eventId : UInt32
  schemaVersion : UInt32
  timestampNs : UInt64
  cpuId : UInt32
  pid : UInt32
  tid : UInt32
  taskId : UInt64
  payload : Bytes
  deriving DecidableEq, Repr

namespace NormalizedRecord

def toBytes (r : NormalizedRecord) : Bytes :=
  leBytes 4 r.eventId.toNat ++ leBytes 4 r.schemaVersion.toNat ++ leBytes 8 r.timestampNs.toNat ++
    leBytes 4 r.cpuId.toNat ++ leBytes 4 r.pid.toNat ++ leBytes 4 r.tid.toNat ++
    leBytes 4 0 ++ leBytes 8 r.taskId.toNat ++ leBytes 4 r.payload.length ++ leBytes 4 0 ++
    r.payload

def read : Cursor CaptureError NormalizedRecord := do
  need RECORD_HEADER_SIZE .truncatedRecord
  let eventId ← u32
  let schemaVersion ← u32
  let timestampNs ← u64
  let cpuId ← u32
  let pid ← u32
  let tid ← u32
  let _reserved ← take 4
  let taskId ← u64
  let payloadLen ← u32
  let _pad ← take 4
  need payloadLen.toNat .truncatedRecord
  let payload ← take payloadLen.toNat
  pure { eventId, schemaVersion, timestampNs, cpuId, pid, tid, taskId, payload }

variable (eventId : UInt32) (slice : Bytes)

/-- The record of a raw tracepoint context. -/
def fromTracepointSlice : Except CaptureError NormalizedRecord :=
  if slice.length < 40 then .error .truncatedRecord
  else .ok {
    eventId
    schemaVersion := u32At slice 4
    timestampNs := u64At slice 8
    cpuId := u32At slice 16
    pid := u32At slice 20
    tid := u32At slice 24
    taskId := u64At slice 32
    payload := slice.drop 40 }

/-- The record of a software `perf_event` context. -/
def fromPerfEventSlice : Except CaptureError NormalizedRecord :=
  if slice.length < 48 then .error .truncatedRecord
  else .ok {
    eventId
    schemaVersion := 1
    timestampNs := u64At slice 16
    cpuId := u32At slice 24
    pid := u32At slice 28
    tid := u32At slice 32
    taskId := u64At slice 40
    payload := leBytes 8 (u64At slice 0).toNat ++ leBytes 8 (u64At slice 8).toNat }

@[simp] theorem length_toBytes (r : NormalizedRecord) :
    r.toBytes.length = RECORD_HEADER_SIZE + r.payload.length := by
  simp [toBytes, RECORD_HEADER_SIZE]
  omega

end NormalizedRecord

theorem reads_record {r : NormalizedRecord} (h : r.payload.length < 2 ^ 32) :
    Reads NormalizedRecord.read r.toBytes r := by
  refine reads_need ?_ (by simp)
  have hlen : (ofNat r.payload.length).toNat = r.payload.length := by
    rw [toNat_ofNat']
    exact Nat.mod_eq_of_lt h
  have hprefix : Reads u32 (leBytes 4 r.payload.length) (ofNat r.payload.length)
      (ε := CaptureError) := by
    have hread := reads_u32 (ε := CaptureError) (ofNat r.payload.length)
    rwa [hlen] at hread
  unfold NormalizedRecord.toBytes
  simp only [List.append_assoc]
  refine (reads_u32 _).bind ?_
  refine (reads_u32 _).bind ?_
  refine (reads_u64 _).bind ?_
  iterate 3 refine (reads_u32 _).bind ?_
  refine (reads_take (leBytes_length 4 0)).bind ?_
  refine (reads_u64 _).bind ?_
  refine hprefix.bind ?_
  refine (reads_take (leBytes_length 4 0)).bind ?_
  rw [hlen]
  exact reads_need ((reads_take rfl).last rfl) le_rfl

theorem total_record : Total 0 0 NormalizedRecord.read fun _ => True := by
  refine .need (by decide) ?_
  refine total_u32.bind fun _ _ => ?_
  refine total_u32.bind fun _ _ => ?_
  refine total_u64.bind fun _ _ => ?_
  iterate 3 refine total_u32.bind fun _ _ => ?_
  refine (total_take (m := 16) (k := 4) rfl).bind fun _ _ => ?_
  refine total_u64.bind fun _ _ => ?_
  refine total_u32.bind fun len _ => ?_
  refine (total_take (m := 0) (k := 4) rfl).bind fun _ _ => ?_
  have hlen := len.toNat_lt
  refine .need (by omega) ?_
  exact (total_take (Nat.zero_add _)).bind fun _ _ => total_pure trivial

theorem consumes_record : Consumes RECORD_HEADER_SIZE NormalizedRecord.read := by
  refine (consumes_need _ _).bind (m := 48) fun _ => consumes_u32.bind (m := 44) fun _ => ?_
  refine consumes_u32.bind (m := 40) fun _ => consumes_u64.bind (m := 32) fun _ => ?_
  refine consumes_u32.bind (m := 28) fun _ => consumes_u32.bind (m := 24) fun _ => ?_
  refine consumes_u32.bind (m := 20) fun _ => (consumes_take 4).bind (m := 16) fun _ => ?_
  refine consumes_u64.bind (m := 8) fun _ => consumes_u32.bind (m := 4) fun len => ?_
  refine (consumes_take 4).bind (m := 0) fun _ => (consumes_need _ _).bind (m := 0) fun _ => ?_
  intro s off b next h
  have hlast := ((consumes_take len.toNat).bind fun _ => consumes_pure _) s off b next h
  omega

theorem modest_record : Modest NormalizedRecord.read := by
  refine (modest_need _ _).bind fun _ => modest_u32.bind fun _ => modest_u32.bind fun _ => ?_
  refine modest_u64.bind fun _ => modest_u32.bind fun _ => modest_u32.bind fun _ => ?_
  refine modest_u32.bind fun _ => (modest_take _).bind fun _ => modest_u64.bind fun _ => ?_
  refine modest_u32.bind fun _ => (modest_take _).bind fun _ => (modest_need _ _).bind fun _ => ?_
  exact (modest_take _).bind fun _ => modest_pure _

/-! ## Schemas -/

def PERF_EVENT_SOFTWARE_ID : UInt32 := 0x1000

inductive FieldTypeId where
  | u8
  | u16
  | u32
  | u64
  | i32
  | i64
  | byteArray (size : Nat)
  deriving DecidableEq, Repr

namespace FieldTypeId

def toBytes : FieldTypeId → UInt32 × UInt32
  | .u8 => (1, 1)
  | .u16 => (2, 2)
  | .u32 => (3, 4)
  | .u64 => (4, 8)
  | .i32 => (5, 4)
  | .i64 => (6, 8)
  | .byteArray n => (7, ofNat n)

def fromRaw (typeId extra : UInt32) : FieldTypeId :=
  if typeId = 1 then .u8
  else if typeId = 2 then .u16
  else if typeId = 3 then .u32
  else if typeId = 4 then .u64
  else if typeId = 5 then .i32
  else if typeId = 6 then .i64
  else .byteArray extra.toNat

/-- The size of a byte array can be written as a `u32`. -/
def Fits : FieldTypeId → Prop
  | .byteArray n => n < 2 ^ 32
  | _ => True

instance (t : FieldTypeId) : Decidable t.Fits :=
  match t with
  | .byteArray n => inferInstanceAs (Decidable (n < 2 ^ 32))
  | .u8 | .u16 | .u32 | .u64 | .i32 | .i64 => isTrue trivial

theorem fromRaw_toBytes {t : FieldTypeId} (h : t.Fits) : fromRaw t.toBytes.1 t.toBytes.2 = t := by
  cases t with
  | byteArray n =>
    have hn : (ofNat n).toNat = n := by
      rw [toNat_ofNat']
      exact Nat.mod_eq_of_lt h
    simpa [toBytes, fromRaw] using hn
  | _ => decide

theorem fits_fromRaw (typeId extra : UInt32) : (fromRaw typeId extra).Fits := by
  unfold fromRaw
  repeat' split
  all_goals first | exact trivial | exact extra.toNat_lt

end FieldTypeId

structure FieldSchema where
  name : String
  offset : UInt32
  size : UInt32
  fieldType : FieldTypeId
  deriving DecidableEq, Repr

structure EventSchema where
  eventId : UInt32
  category : String
  name : String
  version : UInt32
  payloadSize : UInt32
  fields : List FieldSchema
  deriving DecidableEq, Repr

/-- A field takes at least a name length and four words. -/
def MIN_FIELD_SIZE : Nat := 20

namespace FieldSchema

variable (f : FieldSchema)

def toBytes : Bytes :=
  encodeString f.name ++ leBytes 4 f.offset.toNat ++ leBytes 4 f.size.toNat ++
    leBytes 4 f.fieldType.toBytes.1.toNat ++ leBytes 4 f.fieldType.toBytes.2.toNat

def read : Cursor CaptureError FieldSchema := do
  let name ← decodeString
  need 16 .truncatedMetadata
  let offset ← u32
  let size ← u32
  let typeId ← u32
  let extra ← u32
  pure { name, offset, size, fieldType := FieldTypeId.fromRaw typeId extra }

/-- The lengths in the field fit their 32-bit places. -/
def Fits : Prop := Short f.name ∧ f.fieldType.Fits

instance : Decidable f.Fits := inferInstanceAs (Decidable (_ ∧ _))

end FieldSchema

theorem reads_field {f : FieldSchema} (h : f.Fits) : Reads FieldSchema.read f.toBytes f := by
  unfold FieldSchema.toBytes
  simp only [List.append_assoc]
  refine (reads_string h.1).bind ?_
  refine reads_need ?_ (by simp)
  iterate 3 refine (reads_u32 _).bind ?_
  refine (reads_u32 _).last ?_
  rw [FieldTypeId.fromRaw_toBytes h.2]

theorem total_field : Total 0 0 FieldSchema.read FieldSchema.Fits := by
  refine total_decodeString.bind fun name hname => ?_
  refine .need (by omega) ?_
  iterate 3 refine total_u32.bind fun _ _ => ?_
  exact total_u32.bind fun _ _ =>
    total_pure ⟨hname, FieldTypeId.fits_fromRaw _ _⟩

theorem modest_field : Modest FieldSchema.read := by
  refine modest_decodeString.bind fun _ => (modest_need _ _).bind fun _ => ?_
  refine modest_u32.bind fun _ => modest_u32.bind fun _ => modest_u32.bind fun _ => ?_
  exact modest_u32.bind fun _ => modest_pure _

namespace EventSchema

variable (s : EventSchema)

def toBytes : Bytes :=
  leBytes 4 s.eventId.toNat ++ leBytes 4 s.version.toNat ++ leBytes 4 s.payloadSize.toNat ++
    encodeString s.category ++ encodeString s.name ++ leBytes 4 s.fields.length ++
    s.fields.flatMap FieldSchema.toBytes

/-- A schema up to its fields, and how many fields are announced. -/
def readHead : Cursor CaptureError (EventSchema × UInt32) := do
  need 12 .truncatedMetadata
  let eventId ← u32
  let version ← u32
  let payloadSize ← u32
  let category ← decodeString
  let name ← decodeString
  need 4 .truncatedMetadata
  let fieldCount ← u32
  pure ({ eventId, category, name, version, payloadSize, fields := [] }, fieldCount)

/-- `for _ in 0..field_count { fields.push(..) }`. -/
def readFields (fieldCount : UInt32) : Cursor CaptureError (List FieldSchema) :=
  iterate (fun fields => do
    let f ← FieldSchema.read
    pure (fields ++ [f])) fieldCount.toNat []

/-- The room for the fields is reserved by the count alone. -/
def read : Cursor CaptureError EventSchema := do
  let (schema, fieldCount) ← readHead
  reserve fieldCount.toNat MIN_FIELD_SIZE
  let fields ← readFields fieldCount
  pure { schema with fields }

/-- The lengths in the schema fit their 32-bit places. -/
def Fits : Prop :=
  Short s.category ∧ Short s.name ∧ s.fields.length < 2 ^ 32 ∧ ∀ f ∈ s.fields, f.Fits

instance : Decidable s.Fits :=
  inferInstanceAs (Decidable (_ ∧ _ ∧ _ ∧ ∀ f ∈ s.fields, f.Fits))

end EventSchema

open EventSchema

theorem foldl_concat {α : Type} : ∀ (xs ys : List α), xs.foldl (fun l x => l ++ [x]) ys = ys ++ xs
  | [], ys => by simp
  | x :: xs, ys => by rw [List.foldl_cons, foldl_concat xs]; simp

theorem reads_fields {fields : List FieldSchema} (hlen : fields.length < 2 ^ 32)
    (h : ∀ f ∈ fields, f.Fits) :
    Reads (readFields (ofNat fields.length)) (fields.flatMap FieldSchema.toBytes) fields := by
  unfold readFields
  rw [toNat_ofNat', Nat.mod_eq_of_lt hlen]
  have hloop := reads_iterate
    (fun fields => do
      let f ← FieldSchema.read
      pure (fields ++ [f])) (fun l x => l ++ [x]) FieldSchema.toBytes fields
    (fun l f hf => (reads_field (h f hf)).last rfl) []
  rwa [foldl_concat, List.nil_append] at hloop

variable {s : EventSchema} {limit : Nat}

theorem reads_schema (h : s.Fits) : Reads read s.toBytes s := by
  obtain ⟨hcat, hname, hlen, hfields⟩ := h
  have hcount : Reads u32 (leBytes 4 s.fields.length) (ofNat s.fields.length)
      (ε := CaptureError) := by
    have hread := reads_u32 (ε := CaptureError) (ofNat s.fields.length)
    rwa [toNat_ofNat', Nat.mod_eq_of_lt hlen] at hread
  have hhead : Reads readHead
      (leBytes 4 s.eventId.toNat ++ leBytes 4 s.version.toNat ++
        leBytes 4 s.payloadSize.toNat ++ encodeString s.category ++ encodeString s.name ++
        leBytes 4 s.fields.length)
      ({ s with fields := [] }, ofNat s.fields.length) := by
    simp only [List.append_assoc]
    refine reads_need ?_ (by simp; omega)
    iterate 3 refine (reads_u32 _).bind ?_
    refine (reads_string hcat).bind ?_
    refine (reads_string hname).bind ?_
    exact reads_need (hcount.last rfl) (by simp)
  refine hhead.bind ?_
  exact reads_reserve ((reads_fields hlen hfields).last rfl)

theorem total_schemaHead : Total 0 0 readHead fun p => Short p.1.category ∧ Short p.1.name := by
  refine .need (by omega) ?_
  iterate 3 refine total_u32.bind fun _ _ => ?_
  refine total_decodeString.bind fun _ hcat => ?_
  refine total_decodeString.bind fun _ hname => ?_
  refine .need (by omega) ?_
  exact total_u32.bind fun _ _ => total_pure ⟨hcat, hname⟩

theorem total_fields (count : UInt32) : Total 0 0 (readFields count) fun fields =>
    fields.length = count.toNat ∧ ∀ f ∈ fields, f.Fits := by
  have hloop := total_iterate (fun _ => 0)
    (fun fields => do
      let f ← FieldSchema.read
      pure (fields ++ [f])) (fun i fields => fields.length = i ∧ ∀ f ∈ fields, f.Fits) ?_
    count.toNat 0 [] ⟨rfl, nofun⟩
  · rwa [Nat.zero_add] at hloop
  · rintro - i fields ⟨hlen, hfits⟩
    refine total_field.bind fun f hf => total_pure ⟨by simp [hlen], fun g hg => ?_⟩
    rcases List.mem_append.mp hg with hg | hg
    · exact hfits g hg
    · rw [List.mem_singleton.mp hg]
      exact hf

theorem total_schema : Total 0 0 read Fits := by
  refine total_schemaHead.bind fun p hp => ?_
  refine (total_reserve _ _).bind fun _ _ => ?_
  refine (total_fields _).bind fun fields hfields => total_pure ?_
  have hlt := p.2.toNat_lt
  exact ⟨hp.1, hp.2, hfields.1 ▸ hlt, hfields.2⟩

theorem modest_schemaHead : Modest readHead := by
  refine (modest_need _ _).bind fun _ => modest_u32.bind fun _ => modest_u32.bind fun _ => ?_
  refine modest_u32.bind fun _ => modest_decodeString.bind fun _ => ?_
  refine modest_decodeString.bind fun _ => (modest_need _ _).bind fun _ => ?_
  exact modest_u32.bind fun _ => modest_pure _

theorem modest_fields (count : UInt32) : Modest (readFields count) :=
  modest_iterate (fun _ => modest_field.bind fun _ => modest_pure _) _ _

/-! ## The registry -/

/-- The known schemas, one for each event. -/
structure SchemaRegistry where
  schemas : List EventSchema
  distinct : (schemas.map eventId).Nodup

namespace SchemaRegistry

@[ext] theorem ext {a b : SchemaRegistry} (h : a.schemas = b.schemas) : a = b := by
  cases a
  cases b
  cases h
  rfl

instance : DecidableEq SchemaRegistry := fun a b =>
  decidable_of_iff (a.schemas = b.schemas) ⟨ext, fun h => h ▸ rfl⟩

def new : SchemaRegistry := ⟨[], List.nodup_nil⟩

/-- The schemas after `register`: the entry of the same event is replaced, else one is added. -/
def registered (schemas : List EventSchema) (schema : EventSchema) : List EventSchema :=
  match schemas.findIdx? (fun s => s.eventId == schema.eventId) with
  | some pos => schemas.set pos schema
  | none => schemas ++ [schema]

variable {schemas : List EventSchema}

theorem distinct_registered (schema : EventSchema) (h : (schemas.map eventId).Nodup) :
    ((registered schemas schema).map eventId).Nodup := by
  unfold registered
  split
  · rename_i pos hpos
    obtain ⟨hlt, hid, -⟩ := List.findIdx?_eq_some_iff_getElem.mp hpos
    have hsame : (schemas.set pos schema).map eventId = schemas.map eventId := by
      rw [List.map_set]
      rw [← beq_iff_eq.mp hid, ← List.getElem_map eventId (h := by simpa using hlt)]
      exact List.set_getElem_self _
    rw [hsame]
    exact h
  · rename_i hnone
    rw [List.findIdx?_eq_none_iff] at hnone
    rw [List.map_append, List.map_singleton]
    refine h.append (List.nodup_singleton _) ?_
    rw [List.disjoint_singleton]
    intro hmem
    obtain ⟨s, hs, hid⟩ := List.mem_map.mp hmem
    have := hnone s hs
    simp [hid] at this

variable (reg : SchemaRegistry)

def register (schema : EventSchema) : SchemaRegistry :=
  ⟨registered reg.schemas schema, distinct_registered schema reg.distinct⟩

def lookup (eventId : UInt32) : Option EventSchema :=
  reg.schemas.find? fun s => s.eventId == eventId

def validateRecord (record : NormalizedRecord) : Except CaptureError Unit :=
  match reg.lookup record.eventId with
  | none => .error (.schemaMismatch 0 record.eventId)
  | some schema =>
    if record.schemaVersion ≠ schema.version then
      .error (.schemaMismatch schema.version record.schemaVersion)
    else if record.payload.length ≠ schema.payloadSize.toNat then
      .error (.byteCountMismatch schema.payloadSize.toUInt64 (UInt64.ofNat record.payload.length))
    else .ok ()

def toBytes : Bytes :=
  leBytes 4 reg.schemas.length ++ reg.schemas.flatMap EventSchema.toBytes

/-- `for _ in 0..count { reg.register(..) }`. -/
def readSchemas (count : Nat) (reg : SchemaRegistry) : Cursor CaptureError SchemaRegistry :=
  iterate (fun reg => do
    let schema ← read
    pure (reg.register schema)) count reg

def read : Cursor CaptureError SchemaRegistry := do
  need 4 .truncatedMetadata
  let count ← u32
  readSchemas count.toNat new

/-- The lengths in the registry fit their 32-bit places. -/
def Fits : Prop :=
  reg.schemas.length < 2 ^ 32 ∧ ∀ s ∈ reg.schemas, s.Fits

instance : Decidable reg.Fits :=
  inferInstanceAs (Decidable (_ ∧ ∀ s ∈ reg.schemas, s.Fits))

theorem registered_of_notMem {schema : EventSchema} (h : schema.eventId ∉ schemas.map eventId) :
    registered schemas schema = schemas ++ [schema] := by
  have hnone : schemas.findIdx? (fun s => s.eventId == schema.eventId) = none := by
    rw [List.findIdx?_eq_none_iff]
    intro s hs
    rw [beq_eq_false_iff_ne]
    intro hid
    exact h (hid ▸ List.mem_map_of_mem hs)
  rw [registered, hnone]

theorem mem_registered {schema s : EventSchema} (h : s ∈ registered schemas schema) :
    s ∈ schemas ∨ s = schema := by
  unfold registered at h
  split at h
  · exact (List.mem_or_eq_of_mem_set h)
  · simpa using h

theorem length_registered_le (schemas : List EventSchema) (schema : EventSchema) :
    (registered schemas schema).length ≤ schemas.length + 1 := by
  unfold registered
  split
  · simp
  · simp

theorem foldl_register : ∀ (xs : List EventSchema) (reg : SchemaRegistry),
    ((reg.schemas ++ xs).map eventId).Nodup → (xs.foldl register reg).schemas = reg.schemas ++ xs
  | [], reg, _ => by simp
  | x :: xs, reg, h => by
    have hnew : x.eventId ∉ reg.schemas.map eventId := by
      rw [List.map_append, List.map_cons] at h
      intro hmem
      exact List.disjoint_of_nodup_append h hmem (List.mem_cons_self ..)
    have hstep : (reg.register x).schemas = reg.schemas ++ [x] := registered_of_notMem hnew
    have happ : reg.schemas ++ x :: xs = (reg.register x).schemas ++ xs := by
      rw [hstep, List.append_assoc, List.singleton_append]
    rw [happ] at h ⊢
    exact foldl_register xs (reg.register x) h

end SchemaRegistry

open SchemaRegistry

theorem reads_registry {reg : SchemaRegistry} (h : reg.Fits) :
    Reads SchemaRegistry.read reg.toBytes reg := by
  have hcount : Reads u32 (leBytes 4 reg.schemas.length) (ofNat reg.schemas.length)
      (ε := CaptureError) := by
    have hread := reads_u32 (ε := CaptureError) (ofNat reg.schemas.length)
    rwa [toNat_ofNat', Nat.mod_eq_of_lt h.1] at hread
  refine reads_need ?_ (by simp [SchemaRegistry.toBytes])
  refine hcount.bind ?_
  rw [toNat_ofNat', Nat.mod_eq_of_lt h.1]
  have hfold : reg.schemas.foldl SchemaRegistry.register SchemaRegistry.new = reg := by
    apply SchemaRegistry.ext
    exact SchemaRegistry.foldl_register reg.schemas SchemaRegistry.new reg.distinct
  have hloop := reads_iterate
    (fun reg => do
      let schema ← EventSchema.read
      pure (reg.register schema)) SchemaRegistry.register EventSchema.toBytes reg.schemas
    (fun r s hs => (reads_schema (h.2 s hs)).last rfl) SchemaRegistry.new
  rwa [hfold] at hloop

theorem total_registry : Total 0 0 SchemaRegistry.read SchemaRegistry.Fits := by
  refine .need (by omega) ?_
  refine total_u32.bind fun count _ => ?_
  have hcount := count.toNat_lt
  have hloop := total_iterate (fun _ => 0)
    (fun reg => do
      let schema ← EventSchema.read
      pure (reg.register schema))
    (fun i reg => reg.schemas.length ≤ i ∧ ∀ s ∈ reg.schemas, s.Fits) ?_
    count.toNat 0 SchemaRegistry.new ⟨le_rfl, nofun⟩
  · refine hloop.mono fun reg hreg => ⟨?_, hreg.2⟩
    rw [Nat.zero_add] at hreg
    exact hreg.1.trans_lt hcount
  · rintro - i reg ⟨hlen, hfits⟩
    refine total_schema.bind fun schema hschema => total_pure ⟨?_, fun s hs => ?_⟩
    · exact (SchemaRegistry.length_registered_le _ _).trans (by omega)
    · rcases SchemaRegistry.mem_registered hs with hs | rfl
      · exact hfits s hs
      · exact hschema

/-! ## What the registry decoder reserves -/

/-- Each field count announced by the next `n` entries of the schema table at an offset, up to the
first that does not decode, is one that `limit` bytes could hold. -/
def FieldCountsFit (limit : Nat) (slice : Bytes) : Nat → Nat → Prop
  | 0, _ => True
  | n + 1, off => ∀ schema fieldCount mid,
    (readHead slice off).outcome = .ok ((schema, fieldCount), mid) →
      fieldCount.toNat * MIN_FIELD_SIZE ≤ limit ∧ ∀ fields next,
        (readFields fieldCount slice mid).outcome = .ok (fields, next) →
          FieldCountsFit limit slice n next

variable {slice : Bytes}

theorem within_schema (hlen : slice.length ≤ limit) (off : Nat) :
    (EventSchema.read slice off).Within limit ↔ ∀ schema fieldCount mid,
      (readHead slice off).outcome = .ok ((schema, fieldCount), mid) →
        fieldCount.toNat * MIN_FIELD_SIZE ≤ limit := by
  unfold EventSchema.read
  rw [bind_apply, within_bind]
  constructor
  · rintro ⟨-, h⟩ schema fieldCount mid hhead
    have hres := h _ hhead
    dsimp only at hres
    rw [bind_apply, within_bind] at hres
    exact hres.1 ⟨fieldCount.toNat, MIN_FIELD_SIZE⟩ (List.mem_singleton.mpr rfl)
  · intro h
    refine ⟨(modest_schemaHead slice off).mono hlen, ?_⟩
    rintro ⟨⟨schema, fieldCount⟩, mid⟩ hhead
    dsimp only
    rw [bind_apply, within_bind]
    refine ⟨fun r hr => ?_, fun p _ => ?_⟩
    · rw [List.mem_singleton.mp hr]
      exact h schema fieldCount mid hhead
    · exact (((modest_fields fieldCount).bind fun _ => modest_pure _) slice p.2).mono hlen

theorem schema_eq_ok {off next : Nat} :
    (EventSchema.read slice off).outcome = .ok (s, next) ↔ ∃ schema fieldCount mid fields,
      (readHead slice off).outcome = .ok ((schema, fieldCount), mid) ∧
        (readFields fieldCount slice mid).outcome = .ok (fields, next) ∧
          s = { schema with fields } := by
  unfold EventSchema.read
  rw [Cursor.bind_eq_ok]
  constructor
  · rintro ⟨⟨schema, fieldCount⟩, mid, hhead, h⟩
    rw [Cursor.bind_eq_ok] at h
    obtain ⟨⟨⟩, mid', hres, h⟩ := h
    obtain ⟨-, rfl⟩ := Prod.mk.inj (Except.ok.inj hres)
    obtain ⟨fields, next', hfields, hs⟩ := Cursor.bind_eq_ok.mp h
    obtain ⟨rfl, rfl⟩ := Prod.mk.inj (Except.ok.inj hs)
    exact ⟨schema, fieldCount, mid, fields, hhead, hfields, rfl⟩
  · rintro ⟨schema, fieldCount, mid, fields, hhead, hfields, rfl⟩
    refine ⟨(schema, fieldCount), mid, hhead, ?_⟩
    rw [Cursor.bind_eq_ok]
    refine ⟨(), mid, rfl, ?_⟩
    rw [Cursor.bind_eq_ok]
    exact ⟨fields, next, hfields, rfl⟩

theorem within_readSchemas (hlen : slice.length ≤ limit) :
    ∀ (n : Nat) (reg : SchemaRegistry) (off : Nat), (readSchemas n reg slice off).Within limit ↔
        FieldCountsFit limit slice n off
  | 0, reg, off => iff_of_true nofun trivial
  | n + 1, reg, off => by
    have hround : (readSchemas (n + 1) reg slice off).Within limit ↔
        (EventSchema.read slice off).Within limit ∧ ∀ s next,
          (EventSchema.read slice off).outcome = .ok (s, next) →
            (readSchemas n (reg.register s) slice next).Within limit := by
      unfold readSchemas
      rw [iterate, bind_apply, within_bind, bind_apply, within_bind]
      constructor
      · rintro ⟨⟨hread, -⟩, hrest⟩
        refine ⟨hread, fun s next hs => hrest (reg.register s, next) ?_⟩
        rw [bind_of_ok hs]
        rfl
      · rintro ⟨hread, hrest⟩
        refine ⟨⟨hread, fun _ _ => nofun⟩, fun p hp => ?_⟩
        obtain ⟨⟨s, next⟩, hs, hp⟩ := bind_eq_ok.mp hp
        obtain rfl := Except.ok.inj hp
        exact hrest s next hs
    rw [hround, within_schema hlen]
    simp only [within_readSchemas hlen n, schema_eq_ok]
    constructor
    · rintro ⟨hcount, hrest⟩ schema fieldCount mid hhead
      exact ⟨hcount schema fieldCount mid hhead, fun fields next hfields =>
        hrest _ next ⟨schema, fieldCount, mid, fields, hhead, hfields, rfl⟩⟩
    · intro h
      refine ⟨fun schema fieldCount mid hhead => (h schema fieldCount mid hhead).1, ?_⟩
      rintro s next ⟨schema, fieldCount, mid, fields, hhead, hfields, -⟩
      exact (h schema fieldCount mid hhead).2 fields next hfields

/-- **The registry decoder reserves with measure exactly if the field counts announced do.** -/
theorem within_registry (hlen : slice.length ≤ limit) : (SchemaRegistry.read slice 0).Within limit ↔
      (4 ≤ slice.length → FieldCountsFit limit slice (u32At slice 0).toNat 4) := by
  unfold SchemaRegistry.read
  rw [bind_apply, within_bind]
  rw [outcome_need (by omega), Nat.zero_add]
  by_cases hshort : slice.length < 4
  · rw [if_pos hshort]
    refine iff_of_true ⟨(modest_need _ _ slice 0).mono hlen, nofun⟩ fun h => ?_
    omega
  · rw [if_neg hshort]
    have hcount : (u32 slice 0 : Metered CaptureError _).outcome = .ok (u32At slice 0, 4) := by
      unfold u32
      rw [bind_apply, bind_of_ok (outcome_take (by omega) (by omega))]
      rfl
    simp only [Except.ok.injEq, forall_eq', bind_apply, within_bind, hcount,
      within_readSchemas hlen]
    constructor
    · rintro ⟨-, -, h⟩ _
      exact h
    · intro h
      exact ⟨(modest_need _ _ slice 0).mono hlen, (modest_u32 slice 0).mono hlen, h (by omega)⟩

end PulseOS.Capture
