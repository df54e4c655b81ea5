import Std.Data.TreeMap.Lemmas
import PulseOS.Bpf.RingBuffer

/-!
# BPF maps

Map attributes, the storage kinds, and the element operations of `BpfMap`.  A `BpfMapSpec` carries
what `validate` checks when a map is created and a `BpfMap` carries that its storage fits its
attributes, so that the operations have no fault left to guard against.

* `lookup_meets`, `readValueBytes_meets`, `writeValueBytes_meets`, `update_meets`,
  `delete_meets`, `outputRingbuf_meets` — every operation returns, and keeps id and attributes.
-/

namespace PulseOS.Bpf

open Exec

def BPF_F_NO_PREALLOC : UInt32 := 0x001
def BPF_F_RDONLY_PROG : UInt32 := 0x080
def BPF_F_WRONLY_PROG : UInt32 := 0x100

def BPF_NOEXIST : UInt64 := 1
def BPF_EXIST : UInt64 := 2

def BPF_MAP_MAX_KEY_SIZE : Nat := 512
def BPF_MAP_MAX_VALUE_SIZE : Nat := 64 * 1024

inductive BpfMapType where
  | hash
  | array
  | perfEventArray
  | ringBuf
  deriving DecidableEq, Repr

namespace BpfMapType

def allowedFlags : BpfMapType → UInt32
  | .hash => BPF_F_NO_PREALLOC ||| BPF_F_RDONLY_PROG ||| BPF_F_WRONLY_PROG
  | .array => BPF_F_RDONLY_PROG ||| BPF_F_WRONLY_PROG
  | .perfEventArray => 0
  | .ringBuf => 0

/-- Flags outside the type's set, or both access restrictions at once, are refused. -/
def FlagsOk (t : BpfMapType) (flags : UInt32) : Prop :=
  flags &&& ~~~t.allowedFlags = 0 ∧
    flags &&& (BPF_F_RDONLY_PROG ||| BPF_F_WRONLY_PROG) ≠ BPF_F_RDONLY_PROG ||| BPF_F_WRONLY_PROG

def KeyOk : BpfMapType → Nat → Prop
  | .array, n => n = 4
  | .perfEventArray, n => n = 4
  | .hash, n => n ≠ 0
  | .ringBuf, n => n = 0

def ValOk : BpfMapType → Nat → Prop
  | .perfEventArray, n => n = 4
  | .ringBuf, n => n = 0
  | _, n => n ≠ 0

def EntriesOk : BpfMapType → Nat → Prop
  | .ringBuf, n => n ≠ 0 ∧ n % 4096 = 0 ∧ n.isPowerOfTwo
  | _, n => n ≠ 0

instance (t : BpfMapType) (f : UInt32) : Decidable (t.FlagsOk f) :=
  inferInstanceAs (Decidable (_ ∧ _))

end BpfMapType

/-- Validated, immutable map attributes. -/
structure BpfMapSpec where
  mapType : BpfMapType
  keySize : Nat
  valueSize : Nat
  maxEntries : Nat
  mapFlags : UInt32
  flagsOk : mapType.FlagsOk mapFlags
  keyOk : mapType.KeyOk keySize
  valOk : mapType.ValOk valueSize
  entriesOk : mapType.EntriesOk maxEntries
  entries_lt : maxEntries < 2 ^ 32
  key_le : keySize ≤ BPF_MAP_MAX_KEY_SIZE
  value_le : valueSize ≤ BPF_MAP_MAX_VALUE_SIZE
  deriving DecidableEq

namespace BpfMapSpec

variable (spec : BpfMapSpec)

def RdonlyProg : Prop := spec.mapFlags &&& BPF_F_RDONLY_PROG ≠ 0

def WronlyProg : Prop := spec.mapFlags &&& BPF_F_WRONLY_PROG ≠ 0

instance : Decidable spec.RdonlyProg := inferInstanceAs (Decidable (_ ≠ _))

instance : Decidable spec.WronlyProg := inferInstanceAs (Decidable (_ ≠ _))

end BpfMapSpec

/-! ## Storage -/

/-- A perf event that samples can be written to, by its handle. -/
abbrev PerfEventOutputSink := Nat

inductive BpfMapStorage where
  | array (values : Bytes)
  | hash (map : Std.TreeMap Bytes Bytes)
  | perfEventArray (fds : List (Option UInt32)) (slots : List (Option PerfEventOutputSink))
  | ringBuf (rb : BpfRingBuf)

/-- `u32::from_ne_bytes(key.try_into().map_err(|_| EINVAL)?) as usize`. -/
def keyIndex (key : Bytes) : Exec LinuxError Nat :=
  if key.length = 4 then .ok (leNat key) else err .EINVAL

/-- `out.copy_from_slice(src)` into a buffer of `n` bytes. -/
def copyFromSlice {ε : Type} (n : Nat) (src : Bytes) : Exec ε Bytes :=
  if src.length = n then .ok src else panic .index

namespace BpfMapStorage

variable (st : BpfMapStorage) (key : Bytes)

def lookup (valSize maxEntries out : Nat) : Exec LinuxError Bytes :=
  match st with
  | .array values => do
    let index ← keyIndex key
    if index ≥ maxEntries then err .ENOENT
    else do
      let v ← slice values (index * valSize) (index * valSize + valSize)
      copyFromSlice out v
  | .hash map => do
    let val ← okOr .ENOENT map[key]?
    copyFromSlice out val
  | .perfEventArray fds _ => do
    let index ← keyIndex key
    if index ≥ maxEntries then err .ENOENT
    else do
      let fd ← okOr .ENOENT (fds[index]?.join)
      copyFromSlice out (leBytes 4 fd.toNat)
  | .ringBuf _ => err .EINVAL

def readValue (offset valSize maxEntries out : Nat) : Exec LinuxError Bytes :=
  if offset + out > valSize then err .EINVAL
  else match st with
  | .array values => do
    let index ← keyIndex key
    if index ≥ maxEntries then err .ENOENT
    else slice values (index * valSize + offset) (index * valSize + offset + out)
  | .hash map => do
    let val ← okOr .ENOENT map[key]?
    slice val offset (offset + out)
  | .perfEventArray fds _ => do
    let index ← keyIndex key
    if index ≥ maxEntries then err .ENOENT
    else do
      let fd ← okOr .ENOENT (fds[index]?.join)
      if offset + out > 4 then err .EINVAL
      else slice (leBytes 4 fd.toNat) offset (offset + out)
  | .ringBuf _ => err .EINVAL

def writeValue (offset valSize maxEntries : Nat) (data : Bytes) : Exec LinuxError BpfMapStorage :=
  if offset + data.length > valSize then err .EINVAL
  else match st with
  | .array values => do
    let index ← keyIndex key
    if index ≥ maxEntries then err .ENOENT
    else do
      let values ← copyInto values (index * valSize + offset) data
      .ok (.array values)
  | .hash map => do
    let val ← okOr .ENOENT map[key]?
    let val ← copyInto val offset data
    .ok (.hash (map.insert key val))
  | .perfEventArray fds slots => do
    let index ← keyIndex key
    if index ≥ maxEntries then err .ENOENT
    else if offset = 0 ∧ data.length = 4 then do
      let fds ← set fds index (some (UInt32.ofNat (leNat data)))
      .ok (.perfEventArray fds slots)
    else err .EINVAL
  | .ringBuf _ => err .EINVAL

def update (value : Bytes) (flags : UInt64) (valSize maxEntries : Nat) :
    Exec LinuxError BpfMapStorage :=
  match st with
  | .array values => do
    let index ← keyIndex key
    if index ≥ maxEntries then err .E2BIG
    else if flags = BPF_NOEXIST then err .EEXIST
    else do
      let _ ← slice values (index * valSize) (index * valSize + valSize)
      let value ← copyFromSlice valSize value
      let values ← copyInto values (index * valSize) value
      .ok (.array values)
  | .hash map =>
    match map[key]? with
    | some existing =>
      if flags = BPF_NOEXIST then err .EEXIST
      else do
        let value ← copyFromSlice existing.length value
        .ok (.hash (map.insert key value))
    | none =>
      if flags = BPF_EXIST then err .ENOENT
      else if map.size ≥ maxEntries then err .E2BIG
      else .ok (.hash (map.insert key value))
  | .perfEventArray fds slots => do
    let index ← keyIndex key
    if index ≥ maxEntries then err .E2BIG
    else do
      let fd ← get fds index
      if flags = BPF_NOEXIST ∧ fd.isSome then err .EEXIST
      else if flags = BPF_EXIST ∧ fd.isNone then err .ENOENT
      else if value.length ≠ 4 then err .EINVAL
      else do
        let fds ← set fds index (some (UInt32.ofNat (leNat value)))
        .ok (.perfEventArray fds slots)
  | .ringBuf _ => err .EINVAL

def delete : Exec LinuxError BpfMapStorage :=
  match st with
  | .array _ => err .EINVAL
  | .hash map => do
    let _ ← okOr .ENOENT map[key]?
    .ok (.hash (map.erase key))
  | .perfEventArray fds slots => do
    let index ← keyIndex key
    if index ≥ fds.length then err .EINVAL
    else do
      let fd ← get fds index
      if fd.isNone then err .ENOENT
      else do
        let fds ← set fds index none
        let slots ← set slots index none
        .ok (.perfEventArray fds slots)
  | .ringBuf _ => err .EINVAL

/-- The ring buffer's `output`, with the storage as it is left behind. -/
def outputRingbuf (data : Bytes) (flags : UInt64) :
    Exec LinuxError (Except LinuxError Unit × BpfMapStorage) :=
  match st with
  | .ringBuf rb => do
    let (r, rb') ← rb.output data flags
    .ok (r, .ringBuf rb')
  | st => .ok (.error .EINVAL, st)

/-- `set_slot` of a perf event array. -/
def setSlot (index : UInt32) (fd : Option UInt32)
    (slot : Option PerfEventOutputSink) (maxEntries : Nat) : Exec LinuxError BpfMapStorage :=
  match st with
  | .perfEventArray fds slots =>
    if index.toNat ≥ maxEntries then err .E2BIG
    else do
      let fds ← set fds index.toNat fd
      let slots ← set slots index.toNat slot
      .ok (.perfEventArray fds slots)
  | _ => err .EINVAL

/-- The storage fits the attributes. -/
def Wf (spec : BpfMapSpec) : Prop :=
  match st with
  | .array values =>
    spec.mapType = .array ∧ values.length = spec.maxEntries * spec.valueSize
  | .hash map =>
    spec.mapType = .hash ∧ map.size ≤ spec.maxEntries ∧
      ∀ k v : Bytes, map[k]? = some v → k.length = spec.keySize ∧ v.length = spec.valueSize
  | .perfEventArray fds slots =>
    spec.mapType = .perfEventArray ∧ fds.length = spec.maxEntries ∧ slots.length = spec.maxEntries
  | .ringBuf rb =>
    spec.mapType = .ringBuf ∧ rb.Wf ∧ rb.dataSize = spec.maxEntries

/-! ## What the operations return -/

section Meets

variable {st} {spec : BpfMapSpec}

theorem keyIndex_meets (key : Bytes) : Yields (keyIndex key) fun _ => True := by
  unfold keyIndex
  split <;> trivial

/-- What is done at the index a key names, when it is below `n`. -/
theorem index_meets {α : Type} {P : α → Prop} {n : Nat} {e : LinuxError}
    {f : Nat → Exec LinuxError α} (key : Bytes)
    (h : ∀ index, index < n → Yields (f index) P) :
    Yields (do let index ← keyIndex key; if index ≥ n then err e else f index) P := by
  refine (keyIndex_meets key).bind fun index _ => ?_
  split
  · trivial
  · rename_i hi
    exact h index (Nat.not_le.mp hi)

theorem slot_le {index n : Nat} (size : Nat) (h : index < n) : index * size + size ≤ n * size := by
  calc index * size + size = (index + 1) * size := by rw [Nat.succ_mul]
    _ ≤ n * size := Nat.mul_le_mul_right _ h

theorem lookup_meets (h : st.Wf spec) (key : Bytes) :
    Yields (st.lookup key spec.valueSize spec.maxEntries spec.valueSize)
      fun v => v.length = spec.valueSize := by
  match st, h with
  | .array values, h =>
    refine index_meets key fun index hi => ?_
    have hle := slot_le spec.valueSize hi
    have hlen := h.2
    rw [slice_of_le (by omega) (by omega), ok_bind, copyFromSlice, if_pos (by simp; omega),
      yields_ok]
    simp
    omega
  | .hash map, h =>
    refine meets_okOr_bind (fun v hv => ?_) trivial
    have hlen := (h.2.2 key v hv).2
    rw [copyFromSlice, if_pos hlen]
    exact hlen
  | .perfEventArray fds slots, h =>
    refine index_meets key fun index hi => ?_
    refine meets_okOr_bind (fun fd _ => ?_) trivial
    have hval : spec.valueSize = 4 := by
      have := spec.valOk
      rw [h.1] at this
      exact this
    rw [copyFromSlice, if_pos (by simp [hval]), meets_ok]
    simp [hval]
  | .ringBuf rb, _ => trivial

theorem readValue_meets (h : st.Wf spec) (key : Bytes) (offset out : Nat) :
    Yields (st.readValue key offset spec.valueSize spec.maxEntries out)
      fun v => v.length = out := by
  unfold readValue
  split
  · trivial
  rename_i hoff
  match st, h with
  | .array values, h =>
    refine index_meets key fun index hi => ?_
    have hle := slot_le spec.valueSize hi
    have hlen := h.2
    rw [slice_of_le (by omega) (by omega), yields_ok]
    simp
    omega
  | .hash map, h =>
    refine meets_okOr_bind (fun v hv => ?_) trivial
    have hlen := (h.2.2 key v hv).2
    rw [slice_of_le (by omega) (by omega), meets_ok]
    simp
    omega
  | .perfEventArray fds slots, h =>
    refine index_meets key fun index hi => ?_
    refine meets_okOr_bind (fun fd _ => ?_) trivial
    split
    · trivial
    · rw [slice_of_le (by omega) (by simp; omega), meets_ok]
      simp
      omega
  | .ringBuf rb, _ => trivial

variable {map : Std.TreeMap Bytes Bytes} {key} {value : Bytes}

theorem insert_wf (h : (hash map).Wf spec) (hk : key.length = spec.keySize)
    (hv : value.length = spec.valueSize) (hsize : (map.insert key value).size ≤ spec.maxEntries) :
    (hash (map.insert key value)).Wf spec := by
  refine ⟨h.1, hsize, fun k v hkv => ?_⟩
  rw [Std.TreeMap.getElem?_insert] at hkv
  split at hkv
  · rename_i heq
    cases hkv
    rw [← Std.LawfulEqOrd.eq_of_compare heq]
    exact ⟨hk, hv⟩
  · exact h.2.2 k v hkv

theorem size_insert_of_mem {old : Bytes}
    (h : map[key]? = some old) : (map.insert key value).size = map.size := by
  have hmem : key ∈ map := Std.TreeMap.mem_iff_isSome_getElem?.mpr (by rw [h]; rfl)
  rw [Std.TreeMap.size_insert, if_pos (Std.TreeMap.mem_iff_contains.mp hmem)]

section
variable (h : st.Wf spec)
include h

theorem writeValue_meets (hk : key.length = spec.keySize) (offset : Nat) (data : Bytes) :
    Yields (st.writeValue key offset spec.valueSize spec.maxEntries data)
      fun st' => st'.Wf spec := by
  unfold writeValue
  split
  · trivial
  rename_i hoff
  match st, h with
  | .array values, h =>
    refine index_meets key fun index hi => ?_
    have hle := slot_le spec.valueSize hi
    have hlen := h.2
    rw [copyInto_of_le (by omega), ok_bind, yields_ok]
    refine ⟨h.1, ?_⟩
    simp
    omega
  | .hash map, h =>
    refine meets_okOr_bind (fun v hv => ?_) trivial
    have hlen := (h.2.2 key v hv).2
    rw [copyInto_of_le (by omega), ok_bind, meets_ok]
    refine insert_wf h hk (by simp; omega) ?_
    rw [size_insert_of_mem hv]
    exact h.2.1
  | .perfEventArray fds slots, h =>
    refine index_meets key fun index hi => ?_
    split
    · have hfds := h.2.1
      rw [set_of_lt (by omega), ok_bind, yields_ok]
      exact ⟨h.1, List.length_set.trans hfds, h.2.2⟩
    · trivial
  | .ringBuf rb, _ => trivial

theorem update_meets (hk : key.length = spec.keySize)
    (hv : value.length = spec.valueSize) (flags : UInt64) :
    Yields (st.update key value flags spec.valueSize spec.maxEntries)
      fun st' => st'.Wf spec := by
  unfold update
  match st, h with
  | .array values, h =>
    refine index_meets key fun index hi => ?_
    have hle := slot_le spec.valueSize hi
    have hlen := h.2
    split
    · trivial
    · rw [slice_of_le (by omega) (by omega), ok_bind, copyFromSlice, if_pos hv, ok_bind,
        copyInto_of_le (by omega), ok_bind, yields_ok]
      refine ⟨h.1, ?_⟩
      simp
      omega
  | .hash map, h =>
    simp only
    split
    · rename_i old hold
      split
      · trivial
      · rw [copyFromSlice, if_pos (by rw [hv, (h.2.2 key old hold).2]), ok_bind, yields_ok]
        refine insert_wf h hk hv ?_
        rw [size_insert_of_mem hold]
        exact h.2.1
    · split
      · trivial
      · split
        · trivial
        · rename_i hsize
          refine insert_wf h hk hv ?_
          have := Std.TreeMap.size_insert_le (t := map) (k := key) (v := value)
          omega
  | .perfEventArray fds slots, h =>
    refine index_meets key fun index hi => ?_
    have hfds := h.2.1
    have hlt : index < fds.length := by omega
    rw [get_of_some (List.getElem?_eq_getElem hlt), ok_bind]
    split
    · trivial
    · split
      · trivial
      · split
        · trivial
        · rw [set_of_lt hlt, ok_bind, yields_ok]
          exact ⟨h.1, List.length_set.trans hfds, h.2.2⟩
  | .ringBuf rb, _ => trivial

theorem delete_meets (key : Bytes) : Yields (st.delete key) fun st' => st'.Wf spec := by
  match st, h with
  | .array _, _ => trivial
  | .hash map, h =>
    refine meets_okOr_bind (fun _ _ => ?_) trivial
    refine ⟨h.1, le_trans Std.TreeMap.size_erase_le h.2.1, fun k v hkv => ?_⟩
    rw [Std.TreeMap.getElem?_erase] at hkv
    split at hkv
    · cases hkv
    · exact h.2.2 k v hkv
  | .perfEventArray fds slots, h =>
    refine index_meets key fun index hi => ?_
    have hfds := h.2.1
    have hslots := h.2.2
    rw [get_of_some (List.getElem?_eq_getElem hi), ok_bind]
    split
    · trivial
    · rw [set_of_lt (by omega), ok_bind, set_of_lt (by omega), ok_bind, yields_ok]
      exact ⟨h.1, List.length_set.trans hfds, List.length_set.trans hslots⟩
  | .ringBuf _, _ => trivial

theorem outputRingbuf_meets (data : Bytes) (flags : UInt64) :
    Meets (st.outputRingbuf data flags) (fun p => p.2.Wf spec) (fun _ => False) := by
  match st, h with
  | .array _, h => exact h
  | .hash _, h => exact h
  | .perfEventArray _ _, h => exact h
  | .ringBuf rb, h =>
    refine (BpfRingBuf.output_meets h.2.1 data flags).bind fun p hp => ?_
    exact ⟨h.1, hp.1, hp.2.trans h.2.2⟩

theorem setSlot_meets (index : UInt32) (fd : Option UInt32) (slot : Option PerfEventOutputSink) :
    Yields (st.setSlot index fd slot spec.maxEntries) fun st' => st'.Wf spec := by
  match st, h with
  | .array _, _ => trivial
  | .hash _, _ => trivial
  | .perfEventArray fds slots, h =>
    unfold setSlot
    simp only
    split
    · trivial
    · have hfds := h.2.1
      have hslots := h.2.2
      rw [set_of_lt (by omega), ok_bind, set_of_lt (by omega), ok_bind, yields_ok]
      exact ⟨h.1, List.length_set.trans hfds, List.length_set.trans hslots⟩
  | .ringBuf _, _ => trivial

end

end Meets

end BpfMapStorage

open BpfMapStorage

/-! ## Maps -/

structure BpfMap where
  id : UInt32
  spec : BpfMapSpec
  storage : BpfMapStorage
  wf : storage.Wf spec

/-- What the verifier keeps of a map: its identity and its attributes. -/
structure MapRef where
  id : UInt32
  spec : BpfMapSpec
  deriving DecidableEq

namespace BpfMap

variable (m : BpfMap)

def ref : MapRef := ⟨m.id, m.spec⟩

/-- `m` with the storage an operation leaves behind. -/
def store (x : Exec LinuxError BpfMapStorage)
    (h : Meets x (fun st => st.Wf m.spec) (fun _ => True)) : Exec LinuxError BpfMap :=
  match x, h with
  | .ok st, h => .ok { m with storage := st, wf := h }
  | .error e, _ => .error e

theorem store_meets {m : BpfMap} {x : Exec LinuxError BpfMapStorage}
    (h : Yields x fun st => st.Wf m.spec) :
    Yields (m.store x h) fun m' => m'.ref = m.ref ∧ x = .ok m'.storage := by
  match x, h with
  | .ok st, h => exact ⟨rfl, rfl⟩
  | .error (.err e), h => trivial

variable (key : Bytes)

/-- `lookup` into a buffer of `out` bytes. -/
def lookup (out : Nat) : Exec LinuxError Bytes :=
  if key.length ≠ m.spec.keySize ∨ out ≠ m.spec.valueSize then err .EINVAL
  else m.storage.lookup key m.spec.valueSize m.spec.maxEntries out

/-- `read_value_bytes` into a buffer of `out` bytes. -/
def readValueBytes (offset out : Nat) : Exec LinuxError Bytes :=
  if key.length ≠ m.spec.keySize then err .EINVAL
  else m.storage.readValue key offset m.spec.valueSize m.spec.maxEntries out

def writeValueBytes (offset : Nat) (data : Bytes) : Exec LinuxError BpfMap :=
  if hk : key.length = m.spec.keySize then
    m.store (m.storage.writeValue key offset m.spec.valueSize m.spec.maxEntries data)
      (writeValue_meets m.wf hk offset data)
  else err .EINVAL

def update (value : Bytes) (flags : UInt64) : Exec LinuxError BpfMap :=
  if h : key.length = m.spec.keySize ∧ value.length = m.spec.valueSize then
    if flags > BPF_EXIST then err .EINVAL
    else m.store (m.storage.update key value flags m.spec.valueSize m.spec.maxEntries)
      (update_meets m.wf h.1 h.2 flags)
  else err .EINVAL

def delete : Exec LinuxError BpfMap :=
  if key.length ≠ m.spec.keySize then err .EINVAL
  else m.store (m.storage.delete key) (delete_meets m.wf key)

/-- `output_perf_event`; what the sink answers is up to the perf event behind it. -/
def outputPerfEvent (index : UInt32) (data : Bytes)
    (outputSample : PerfEventOutputSink → Bytes → Except LinuxError Unit) :
    Except LinuxError Unit :=
  match m.storage with
  | .perfEventArray _ slots =>
    match slots[index.toNat]?.join with
    | some slot => outputSample slot data
    | none => .error .ENOENT
  | _ => .error .EINVAL

def setSlot (index : UInt32) (fd : Option UInt32)
    (slot : Option PerfEventOutputSink) : Exec LinuxError BpfMap :=
  m.store (m.storage.setSlot index fd slot m.spec.maxEntries) (setSlot_meets m.wf index fd slot)

/-- `output_ringbuf`, with the map as it is left behind. -/
def outputRingbuf (data : Bytes) (flags : UInt64) :
    Exec LinuxError (Except LinuxError Unit × BpfMap) :=
  match m.storage.outputRingbuf data flags, outputRingbuf_meets m.wf data flags with
  | .ok (r, st), h => .ok (r, { m with storage := st, wf := h })
  | .error e, _ => .error e

theorem lookup_meets (out : Nat) : Yields (m.lookup key out) fun v => v.length = out := by
  unfold lookup
  split
  · trivial
  · rename_i h
    obtain ⟨-, rfl⟩ := not_or.mp h |>.imp not_not.mp not_not.mp
    exact BpfMapStorage.lookup_meets m.wf key

theorem readValueBytes_meets (offset out : Nat) :
    Yields (m.readValueBytes key offset out) fun v => v.length = out := by
  unfold readValueBytes
  split
  · trivial
  · exact readValue_meets m.wf key offset out

theorem writeValueBytes_meets (offset : Nat) (data : Bytes) :
    Yields (m.writeValueBytes key offset data) fun m' => m'.ref = m.ref := by
  unfold writeValueBytes
  split
  · exact (store_meets _).mono (fun _ h => h.1) fun _ _ => trivial
  · trivial

theorem update_meets (key value : Bytes) (flags : UInt64) :
    Yields (m.update key value flags) fun m' => m'.ref = m.ref := by
  unfold update
  split
  · split
    · trivial
    · exact (store_meets _).mono (fun _ h => h.1) fun _ _ => trivial
  · trivial

theorem delete_meets : Yields (m.delete key) fun m' => m'.ref = m.ref := by
  unfold delete
  split
  · trivial
  · exact (store_meets _).mono (fun _ h => h.1) fun _ _ => trivial

theorem outputRingbuf_meets (data : Bytes) (flags : UInt64) : Meets (m.outputRingbuf data flags)
      (fun p => p.2.ref = m.ref ∧ m.storage.outputRingbuf data flags = .ok (p.1, p.2.storage))
      (fun _ => False) := by
  have hst := BpfMapStorage.outputRingbuf_meets m.wf data flags
  unfold outputRingbuf
  split
  · rename_i heq _
    exact ⟨rfl, heq⟩
  · rename_i e _ heq _
    rw [heq] at hst
    cases e <;> exact hst

end BpfMap

end PulseOS.Bpf
