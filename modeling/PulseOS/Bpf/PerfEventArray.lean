import PulseOS.Bpf.Soundness
import PulseOS.Lib.Transition

/-!
# Perf event arrays

A `BPF_MAP_TYPE_PERF_EVENT_ARRAY` map keeps a descriptor and an output slot at every index.  User
space writes both: `sys_bpf` updates the map and then calls `set_slot`.  Programs write through
`bpf_map_update_elem`, which knows descriptors only.

* `run_inStep` — descriptor and slot are present together, and are what one update read, in every
  run in which programs write no descriptor and user memory holds still between the two reads of the
  key.
-/

namespace PulseOS.Bpf

open Exec Transition BpfInsn Function BpfMapStorage

/-! ## What the operations write -/

namespace BpfMap

/-- The descriptor that a lookup reports. -/
def fdAt (m : BpfMap) (i : Nat) : Option UInt32 :=
  match m.storage with
  | .perfEventArray fds _ => fds[i]?.join
  | _ => none

/-- The slot that `output_perf_event` writes to. -/
def slotAt (m : BpfMap) (i : Nat) : Option PerfEventOutputSink :=
  match m.storage with
  | .perfEventArray _ slots => slots[i]?.join
  | _ => none

end BpfMap

variable {m m' : BpfMap}

theorem storage_of_perfEventArray (h : m.spec.mapType = .perfEventArray) :
    ∃ fds slots, m.storage = .perfEventArray fds slots ∧ fds.length = m.spec.maxEntries ∧
      slots.length = m.spec.maxEntries := by
  have hwf := m.wf
  cases hst : m.storage with
  | perfEventArray fds slots =>
    rw [hst] at hwf
    exact ⟨fds, slots, rfl, hwf.2⟩
  | array values | hash map | ringBuf rb =>
    rw [hst] at hwf
    rw [hwf.1] at h
    cases h

theorem join_set {α : Type} (l : List (Option α)) {k : Nat} (hk : k < l.length) (a : Option α)
    (i : Nat) : (l.set k a)[i]?.join = if i = k then a else l[i]?.join := by
  rw [List.getElem?_set]
  by_cases h : i = k
  · subst h
    rw [if_pos rfl, if_pos hk, if_pos rfl]
    rfl
  · rw [if_neg (Ne.symm h), if_neg h]

theorem leNat_leBytes_toNat (i : UInt32) : leNat (leBytes 4 i.toNat) = i.toNat := by
  have := i.toNat_lt
  rw [leNat_leBytes]
  omega

theorem keyIndex_leBytes (i : UInt32) : keyIndex (leBytes 4 i.toNat) = .ok i.toNat := by
  rw [keyIndex, if_pos (leBytes_length 4 _), leNat_leBytes_toNat]

theorem store_eq_ok {x : Exec LinuxError BpfMapStorage}
    {h : Yields x (fun st => st.Wf m.spec)} (hm : m.store x h = .ok m') :
    m'.spec = m.spec ∧ x = .ok m'.storage := by
  obtain ⟨href, hx⟩ := (BpfMap.store_meets h).value hm
  exact ⟨congrArg MapRef.spec href, hx⟩

/-- An update of a descriptor that goes through. -/
def BpfMap.Writable (m : BpfMap) (key : UInt32) (flags : UInt64) : Prop :=
  key.toNat < m.spec.maxEntries ∧ flags ≤ BPF_EXIST ∧
    ¬ (flags = BPF_NOEXIST ∧ (m.fdAt key.toNat).isSome = true) ∧
    ¬ (flags = BPF_EXIST ∧ (m.fdAt key.toNat).isNone = true)

variable {slots : List (Option PerfEventOutputSink)} {fds : List (Option UInt32)}
  {slot : Option PerfEventOutputSink}

theorem fdAt_eq (h : m.storage = .perfEventArray fds slots) (i : Nat) :
    m.fdAt i = fds[i]?.join := by
  rw [BpfMap.fdAt, h]

theorem slotAt_eq (h : m.storage = .perfEventArray fds slots) (i : Nat) :
    m.slotAt i = slots[i]?.join := by
  rw [BpfMap.slotAt, h]

/-- `m'` has `fd` and `slot` at the index `k`, and is `m` elsewhere. -/
structure Writes (m m' : BpfMap) (k : Nat) (fd : Option UInt32)
    (slot : Option PerfEventOutputSink) : Prop where
  spec : m'.spec = m.spec
  fd : ∀ i, m'.fdAt i = if i = k then fd else m.fdAt i
  slot : ∀ i, m'.slotAt i = if i = k then slot else m.slotAt i

variable {fd : Option UInt32} {index key : UInt32}

theorem writes_both {k : Nat} (hspec : m'.spec = m.spec)
    (hst : m.storage = .perfEventArray fds slots)
    (hst' : m'.storage = .perfEventArray (fds.set k fd) (slots.set k slot))
    (hfds : k < fds.length) (hslots : k < slots.length) : Writes m m' k fd slot := by
  refine ⟨hspec, fun i => ?_, fun i => ?_⟩
  · rw [fdAt_eq hst', fdAt_eq hst, join_set fds hfds]
  · rw [slotAt_eq hst', slotAt_eq hst, join_set slots hslots]

section

variable (htype : m.spec.mapType = .perfEventArray)

include htype

theorem update_spec {value : UInt32} {flags : UInt64}
    (h : m.update (leBytes 4 key.toNat) (leBytes 4 value.toNat) flags = .ok m') :
    m.Writable key flags ∧ Writes m m' key.toNat (some value) (m.slotAt key.toNat) := by
  obtain ⟨fds, slots, hst, hfds, hslots⟩ := storage_of_perfEventArray htype
  unfold BpfMap.update at h
  split at h
  · split at h
    · cases h
    · rename_i hflags
      obtain ⟨hspec, hx⟩ := store_eq_ok h
      rw [hst, BpfMapStorage.update, keyIndex_leBytes, ok_bind] at hx
      split at hx
      · cases hx
      · rename_i hk
        have hk : key.toNat < fds.length := by omega
        have hfd : m.fdAt key.toNat = fds[key.toNat] := by
          rw [fdAt_eq hst, List.getElem?_eq_getElem hk]
          rfl
        rw [get_of_lt hk, ok_bind, ← hfd] at hx
        split at hx
        · cases hx
        · split at hx
          · cases hx
          · rw [if_neg (by simp), set_of_lt hk, ok_bind, leNat_leBytes_toNat,
              UInt32.ofNat_toNat] at hx
            have hst' := (Except.ok.inj hx).symm
            refine ⟨⟨by omega, UInt64.not_lt.mp hflags, ‹_›, ‹_›⟩, hspec, fun i => ?_, fun i => ?_⟩
            · rw [fdAt_eq hst', fdAt_eq hst, join_set fds hk]
            · rw [slotAt_eq hst', slotAt_eq hst, slotAt_eq hst]
              split
              · rename_i hi
                rw [hi]
              · rfl
  · cases h

theorem delete_spec
    (h : m.delete (leBytes 4 key.toNat) = .ok m') : Writes m m' key.toNat none none := by
  obtain ⟨fds, slots, hst, hfds, hslots⟩ := storage_of_perfEventArray htype
  unfold BpfMap.delete at h
  split at h
  · cases h
  · obtain ⟨hspec, hx⟩ := store_eq_ok h
    rw [hst, delete, keyIndex_leBytes, ok_bind] at hx
    split at hx
    · cases hx
    · rename_i hk
      have hk : key.toNat < fds.length := by omega
      rw [get_of_lt hk, ok_bind] at hx
      split at hx
      · cases hx
      · rw [set_of_lt hk, ok_bind, set_of_lt (by omega), ok_bind] at hx
        exact writes_both hspec hst (Except.ok.inj hx).symm hk (by omega)

theorem setSlot_spec (h : m.setSlot index fd slot = .ok m') : Writes m m' index.toNat fd slot := by
  obtain ⟨fds, slots, hst, hfds, hslots⟩ := storage_of_perfEventArray htype
  obtain ⟨hspec, hx⟩ := store_eq_ok h
  rw [hst, setSlot] at hx
  split at hx
  · cases hx
  · rename_i hk
    rw [set_of_lt (by omega), ok_bind, set_of_lt (by omega), ok_bind] at hx
    exact writes_both hspec hst (Except.ok.inj hx).symm (by omega) (by omega)

theorem setSlot_ok (hk : index.toNat < m.spec.maxEntries) (fd : Option UInt32)
    (slot : Option PerfEventOutputSink) : ∃ m', m.setSlot index fd slot = .ok m' := by
  obtain ⟨fds, slots, hst, hfds, hslots⟩ := storage_of_perfEventArray htype
  have hx : m.storage.setSlot index fd slot m.spec.maxEntries =
      .ok (.perfEventArray (fds.set index.toNat fd) (slots.set index.toNat slot)) := by
    rw [hst, setSlot, if_neg (by omega), set_of_lt (by omega), ok_bind,
      set_of_lt (by omega), ok_bind]
  unfold BpfMap.setSlot BpfMap.store
  split
  · exact ⟨_, rfl⟩
  · rename_i heq _
    rw [hx] at heq
    cases heq

end

/-! ## Operations and runs -/

/-- An array with the descriptor and the perf event that the last `MapUpdateElem` read for every
index. -/
structure Traced where
  map : BpfMap
  read : Nat → Option (UInt32 × PerfEventOutputSink)

/-- What the reads of user memory return in one `MapUpdateElem`: `sys_bpf` reads key and value to
find the perf event, `bpf_map_update_elem` reads them again. -/
structure UserReads where
  key : Except LinuxError UInt32
  value : Except LinuxError UInt32
  keyAgain : Except LinuxError UInt32
  valueAgain : Except LinuxError UInt32

inductive ArrayOp where
  /-- `BPF_MAP_UPDATE_ELEM`, with the perf event behind each descriptor of the caller -/
  | mapUpdateElem (reads : UserReads) (flags : UInt64)
      (event : UInt32 → Except LinuxError PerfEventOutputSink)
  | mapDeleteElem (key : Except LinuxError UInt32)
  /-- `bpf_map_update_elem` of a program -/
  | updateHelper (key value : UInt32) (flags : UInt64)
  | deleteHelper (key : UInt32)

namespace Traced

variable (s : Traced)

def update (key value : UInt32) (flags : UInt64) : Option Traced :=
  match s.map.update (leBytes 4 key.toNat) (leBytes 4 value.toNat) flags with
  | .ok map => some { s with map }
  | .error _ => none

def setSlot (index fd : UInt32) (slot : PerfEventOutputSink) : Option Traced :=
  match s.map.setSlot index (some fd) (some slot) with
  | .ok map => some ⟨map, Function.update s.read index.toNat (some (fd, slot))⟩
  | .error _ => none

def delete (key : UInt32) : Option Traced :=
  match s.map.delete (leBytes 4 key.toNat) with
  | .ok map => some ⟨map, Function.update s.read key.toNat none⟩
  | .error _ => none

/-- `MapUpdateElem` of `sys_bpf` on a perf event array. -/
def mapUpdateElem (reads : UserReads) (flags : UInt64)
    (event : UInt32 → Except LinuxError PerfEventOutputSink) : Traced :=
  match reads.key, reads.value with
  | .ok cpu, .ok perfFd =>
    match event perfFd, reads.keyAgain, reads.valueAgain with
    | .ok slot, .ok key, .ok value =>
      match s.update key value flags with
      | some s => (s.setSlot cpu perfFd slot).getD s
      | none => s
    | _, _, _ => s
  | _, _ => s

def apply : ArrayOp → Traced
  | .mapUpdateElem reads flags event => s.mapUpdateElem reads flags event
  | .mapDeleteElem (.ok key) => (s.delete key).getD s
  | .mapDeleteElem (.error _) => s
  | .updateHelper key value flags => (s.update key value flags).getD s
  | .deleteHelper key => (s.delete key).getD s

def Step (op : ArrayOp) (s' : Traced) : Prop := s' = s.apply op

/-- A map that was just created. -/
def Fresh : Prop :=
  s.map.spec.mapType = .perfEventArray ∧
    ∀ i, s.map.fdAt i = none ∧ s.map.slotAt i = none ∧ s.read i = none

/-- Descriptor and slot are present together, and are those that one update read. -/
def InStep : Prop :=
  ∀ i, ((s.map.fdAt i).isSome = true ↔ (s.map.slotAt i).isSome = true) ∧
    s.map.fdAt i = (s.read i).map Prod.fst ∧ s.map.slotAt i = (s.read i).map Prod.snd

/-- No program writes a descriptor, and the key in user memory holds still. -/
def Agreeing : ArrayOp → Prop
  | .mapUpdateElem reads _ _ => reads.keyAgain = reads.key
  | .updateHelper key _ flags => ¬ s.map.Writable key flags
  | _ => True

variable {s s' : Traced}

/-- An array whose descriptors and slots are in step. -/
structure Inv (s : Traced) : Prop where
  type : s.map.spec.mapType = .perfEventArray
  inStep : s.InStep

variable {key value : UInt32}

section
variable (hi : Inv s)
include hi

theorem Inv.delete (h : s.delete key = some s') : Inv s' := by
  unfold Traced.delete at h
  split at h
  · rename_i map hmap
    cases h
    have hw := delete_spec hi.type hmap
    refine ⟨(congrArg BpfMapSpec.mapType hw.spec).trans hi.type, fun i => ?_⟩
    dsimp only
    rw [hw.fd, hw.slot]
    by_cases hik : i = key.toNat
    · rw [if_pos hik, if_pos hik, hik, Function.update_self]
      exact ⟨Iff.rfl, rfl, rfl⟩
    · rw [if_neg hik, if_neg hik, update_of_ne hik]
      exact hi.inStep i
  · cases h

theorem Inv.deleteD (key : UInt32) : Inv ((s.delete key).getD s) := by
  cases h : s.delete key with
  | none => exact hi
  | some s' => exact hi.delete h

theorem Inv.update_none {flags : UInt64}
    (h : ¬ s.map.Writable key flags) : s.update key value flags = none := by
  unfold Traced.update
  split
  · rename_i map hmap
    exact absurd (update_spec hi.type hmap).1 h
  · rfl

/-- An update and the `set_slot` after it, at one index. -/
theorem Inv.update_setSlot {fd : UInt32} {flags : UInt64}
    {slot : PerfEventOutputSink} (h : s.update key value flags = some s') :
    Inv ((s'.setSlot key fd slot).getD s') := by
  unfold Traced.update at h
  split at h
  · rename_i map hmap
    cases h
    obtain ⟨hwritable, hw⟩ := update_spec hi.type hmap
    have htype : map.spec.mapType = .perfEventArray :=
      (congrArg BpfMapSpec.mapType hw.spec).trans hi.type
    have hk : key.toNat < map.spec.maxEntries := by
      rw [hw.spec]
      exact hwritable.1
    obtain ⟨map', hmap'⟩ := setSlot_ok htype hk (some fd) (some slot)
    have hw' := setSlot_spec htype hmap'
    unfold Traced.setSlot
    rw [hmap']
    refine ⟨(congrArg BpfMapSpec.mapType hw'.spec).trans htype, fun i => ?_⟩
    dsimp only [Option.getD_some]
    rw [hw'.fd, hw'.slot]
    by_cases hik : i = key.toNat
    · rw [if_pos hik, if_pos hik, hik, Function.update_self]
      exact ⟨Iff.rfl, rfl, rfl⟩
    · rw [if_neg hik, if_neg hik, hw.fd, hw.slot, if_neg hik, if_neg hik, update_of_ne hik]
      exact hi.inStep i
  · cases h

theorem Inv.mapUpdateElem {reads : UserReads} (hkey : reads.keyAgain = reads.key)
    (flags : UInt64) (event : UInt32 → Except LinuxError PerfEventOutputSink) :
    Inv (s.mapUpdateElem reads flags event) := by
  unfold Traced.mapUpdateElem
  split
  · rename_i cpu perfFd hcpu _
    split
    · rename_i slot key value _ hagain _
      rw [hkey, hcpu] at hagain
      cases hagain
      split
      · rename_i s' hupdate
        exact hi.update_setSlot hupdate
      · exact hi
    · exact hi
  · exact hi

theorem Inv.apply {op : ArrayOp} (hok : Agreeing s op) : Inv (s.apply op) := by
  cases op with
  | mapUpdateElem reads flags event => exact hi.mapUpdateElem hok flags event
  | mapDeleteElem key =>
    cases key with
    | ok key => exact hi.deleteD key
    | error _ => exact hi
  | updateHelper key value flags =>
    change Inv ((s.update key value flags).getD s)
    rw [hi.update_none hok]
    exact hi
  | deleteHelper key => exact hi.deleteD key

end

/-- **Descriptors and slots stay in step** in every run whose steps agree. -/
theorem run_inStep {h : List ArrayOp} (hrun : Run Fresh (Guarded Agreeing Step) h s) :
    s.InStep := by
  refine Inv.inStep (hrun.invariant (fun s hs => ⟨hs.1, fun i => ?_⟩) fun s op s' hi hstep => ?_)
  · obtain ⟨hfd, hslot, hread⟩ := hs.2 i
    rw [hfd, hslot, hread]
    exact ⟨Iff.rfl, rfl, rfl⟩
  · obtain ⟨hok, rfl⟩ := hstep
    exact hi.apply hok

end Traced

/-! ## One entry -/

/-- An empty perf event array of one entry. -/
def oneEvent : BpfMap where
  id := 1
  spec :=
    { mapType := .perfEventArray, keySize := 4, valueSize := 4, maxEntries := 1, mapFlags := 0,
      flagsOk := by decide, keyOk := rfl, valOk := rfl, entriesOk := nofun, entries_lt := by decide,
      key_le := by decide, value_le := by decide }
  storage := .perfEventArray [none] [none]
  wf := ⟨rfl, rfl, rfl⟩

def oneTraced : Traced := ⟨oneEvent, fun _ => none⟩

theorem oneTraced_fresh : oneTraced.Fresh := by
  refine ⟨rfl, fun i => ?_⟩
  cases i <;> exact ⟨rfl, rfl, rfl⟩

/-- The event with handle `event` behind the descriptor `fd` is put at index 0. -/
def putEvent (fd : UInt32) (event : PerfEventOutputSink) : ArrayOp :=
  .mapUpdateElem ⟨.ok 0, .ok fd, .ok 0, .ok fd⟩ 0 fun _ => .ok event

/-- An entry is put in, replaced and deleted. -/
theorem putEvent_run : ∃ s s',
    Run Traced.Fresh (Guarded Traced.Agreeing Traced.Step) [putEvent 8 6, putEvent 7 5] s ∧
    (s.map.fdAt 0 = some 8 ∧ s.map.slotAt 0 = some 6) ∧ s.InStep ∧
    Run Traced.Fresh (Guarded Traced.Agreeing Traced.Step)
      [.mapDeleteElem (.ok 0), putEvent 8 6, putEvent 7 5] s' ∧
    s'.map.fdAt 0 = none ∧ s'.InStep := by
  have h₀ : Run Traced.Fresh (Guarded Traced.Agreeing Traced.Step) [] oneTraced :=
    .init oneTraced_fresh
  have h₁ := h₀.guarded (a := putEvent 7 5) rfl rfl
  have h₂ := h₁.guarded (a := putEvent 8 6) rfl rfl
  have h₃ := h₂.guarded (a := ArrayOp.mapDeleteElem (.ok 0)) rfl trivial
  exact ⟨_, _, h₂, by decide +kernel, Traced.run_inStep h₂, h₃, by decide +kernel,
    Traced.run_inStep h₃⟩

/-- `bpf_map_update_elem(map, &0, &7, BPF_ANY)`. -/
def updateZero (map : Int32) : List BpfInsn :=
  [new 0x18 1 1 0 map, new 0 0 0 0 0, new 0x62 10 0 (-4) 0,
   new 0x62 10 0 (-8) 7, new 0xbf 2 10 0 0, new 0x07 2 0 0 (-4),
   new 0xbf 3 10 0 0, new 0x07 3 0 0 (-8), new 0xb7 4 0 0 0,
   new 0x85 0 0 0 2, new 0x95 0 0 0 0]

def updateZeroVerified : VerifiedProgram := ⟨.tracepoint, updateZero 0, [oneEvent.ref]⟩

/-- The machine has put a descriptor without a slot into its first map. -/
def lonelyFd (vm : Vm) : Bool :=
  vm.maps.head?.any fun m => m.fdAt 0 == some 7 && m.slotAt 0 == none

/-- **A program puts in a descriptor without a slot**: the step breaks the agreement, and a program
that the verifier accepts takes it. -/
theorem update_without_slot :
    (∃ s, Run Traced.Fresh Traced.Step [.updateHelper 0 7 0] s ∧ ¬ s.InStep) ∧
      Accepted (updateZero 3) updateZeroVerified ∧
      ∃ vm, Running true updateZeroVerified.insns [oneEvent] (zeros 80) quietEnv
        (Vector.replicate _ 0) vm ∧ lonelyFd vm = true := by
  refine ⟨⟨_, .step (.init oneTraced_fresh) rfl, fun hin => ?_⟩,
    ⟨true, .tracepoint, 0, some fun _ => .ok oneEvent.ref, {}, by decide +kernel⟩, ?_⟩
  · exact absurd (hin 0).1 (by decide +kernel)
  · have hafter : (Loop.after (step true updateZeroVerified.insns (zeros 80) quietEnv) 9
        (Vm.start [oneEvent])).any lonelyFd = true := by decide +kernel
    obtain ⟨vm, hvm, hlonely⟩ := (Option.any_eq_true _ _).mp hafter
    exact ⟨vm, ⟨by decide +kernel, Loop.reaches_of_after hvm⟩, hlonely⟩

end PulseOS.Bpf
