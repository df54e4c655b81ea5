import PulseOS.Bpf.Interpreter
import PulseOS.Lib.Agree

/-!
# What a step shows of write-only maps

Two machines that differ in nothing but the value bytes of maps created with
`BPF_F_WRONLY_PROG` take the same step and again differ in nothing else, unless the step loads
through a pointer into such a value, hands such a pointer to an output helper, or copies such a
value into another map.
-/

namespace PulseOS.Bpf

open Exec BpfMapSpec

/-! ## Storage -/

/-- The same keys, with values of the same size. -/
inductive SameShape : BpfMapStorage → BpfMapStorage → Prop
  | array {values values' : Bytes} (length : values.length = values'.length) :
    SameShape (.array values) (.array values')
  | hash {map map' : Std.TreeMap Bytes Bytes}
    (entries : ∀ key : Bytes,
      Option.Rel (fun v v' : Bytes => v.length = v'.length) map[key]? map'[key]?)
    (size : map.size = map'.size) : SameShape (.hash map) (.hash map')

theorem agree_copyFromSlice {ε : Type} {src src' : Bytes} (h : src.length = src'.length) (n : Nat) :
    Agree (fun v v' : Bytes => v.length = v'.length) (copyFromSlice n src : Exec ε Bytes)
      (copyFromSlice n src') := by
  unfold copyFromSlice
  rw [h]
  exact .ite (fun _ => .ok h) fun _ => .error

namespace SameShape

section Hash

variable {map map' : Std.TreeMap Bytes Bytes}
  (entries : ∀ key : Bytes,
    Option.Rel (fun v v' : Bytes => v.length = v'.length) map[key]? map'[key]?)
  (size : map.size = map'.size) (key : Bytes)

include entries

theorem contains_eq : map.contains key = map'.contains key := by
  rw [Std.TreeMap.contains_eq_isSome_getElem?, Std.TreeMap.contains_eq_isSome_getElem?]
  have hkey := entries key
  revert hkey
  generalize map[key]? = o, map'[key]? = o'
  intro hkey
  cases hkey <;> rfl

include size

theorem insert {v v' : Bytes} (hv : v.length = v'.length) :
    SameShape (.hash (map.insert key v)) (.hash (map'.insert key v')) := by
  refine .hash (fun k => ?_) ?_
  · rw [Std.TreeMap.getElem?_insert, Std.TreeMap.getElem?_insert]
    split
    · exact .some hv
    · exact entries k
  · rw [Std.TreeMap.size_insert, Std.TreeMap.size_insert, size]
    simp only [contains_eq entries]

theorem erase : SameShape (.hash (map.erase key)) (.hash (map'.erase key)) := by
  refine .hash (fun k => ?_) ?_
  · rw [Std.TreeMap.getElem?_erase, Std.TreeMap.getElem?_erase]
    split
    · exact .none
    · exact entries k
  · rw [Std.TreeMap.size_erase, Std.TreeMap.size_erase, size]
    simp only [contains_eq entries]

end Hash

variable {st st' : BpfMapStorage} (h : SameShape st st') (key : Bytes)

include h

theorem lookup (valSize maxEntries out : Nat) :
    Agree (fun _ _ => True) (st.lookup key valSize maxEntries out)
      (st'.lookup key valSize maxEntries out) := by
  cases h with
  | array length =>
    refine .same fun index => .guard fun _ => ?_
    refine (agree_slice length _ _).bind fun v v' hv => ?_
    exact (agree_copyFromSlice hv out).mono fun _ _ _ => trivial
  | hash entries _ =>
    refine (agree_okOr _ (entries key)).bind fun v v' hv => ?_
    exact (agree_copyFromSlice hv out).mono fun _ _ _ => trivial

theorem readValue (offset valSize maxEntries out : Nat) :
    Agree (fun v v' : Bytes => v.length = v'.length) (st.readValue key offset valSize maxEntries out)
      (st'.readValue key offset valSize maxEntries out) := by
  refine .guard fun _ => ?_
  cases h with
  | array length =>
    exact .same fun index => .guard fun _ => agree_slice length _ _
  | hash entries _ => exact (agree_okOr _ (entries key)).bind fun v v' hv => agree_slice hv _ _

theorem writeValue (offset valSize maxEntries : Nat) (data : Bytes) :
    Agree SameShape (st.writeValue key offset valSize maxEntries data)
      (st'.writeValue key offset valSize maxEntries data) := by
  refine .guard fun _ => ?_
  cases h with
  | array length =>
    refine .same fun index => .guard fun _ => ?_
    exact (agree_copyInto length rfl _).bind fun _ _ hlen => .ok (.array hlen)
  | hash entries size =>
    refine (agree_okOr _ (entries key)).bind fun v v' hv => ?_
    exact (agree_copyInto hv rfl _).bind fun _ _ hlen => .ok (insert entries size key hlen)

theorem update {value value' : Bytes}
    (hv : value.length = value'.length) (flags : UInt64) (valSize maxEntries : Nat) :
    Agree SameShape (st.update key value flags valSize maxEntries)
      (st'.update key value' flags valSize maxEntries) := by
  cases h with
  | array length =>
    refine .same fun index => .guard fun _ => .guard fun _ => ?_
    refine (agree_slice length _ _).bind fun _ _ _ => ?_
    refine (agree_copyFromSlice hv valSize).bind fun v v' hv' => ?_
    exact (agree_copyInto length hv' _).bind fun _ _ hlen => .ok (.array hlen)
  | @hash map map' entries size =>
    have hentry := entries key
    simp only [BpfMapStorage.update, size]
    revert hentry
    generalize map[key]? = old, map'[key]? = old'
    intro hentry
    cases hentry with
    | some hlen =>
      refine .guard fun _ => ?_
      rw [hlen]
      exact (agree_copyFromSlice hv _).bind fun _ _ hlen => .ok (insert entries size key hlen)
    | none => exact .guard fun _ => .guard fun _ => .ok (insert entries size key hv)

theorem delete : Agree SameShape (st.delete key) (st'.delete key) := by
  cases h with
  | array _ => exact .error
  | hash entries size =>
    exact (agree_okOr _ (entries key)).bind fun _ _ _ => .ok (erase entries size key)

end SameShape

/-! ## Maps -/

/-- `m'` is `m` up to the value bytes of a write-only map. -/
structure Similar (m m' : BpfMap) : Prop where
  ref : m.ref = m'.ref
  shape : m.spec.WronlyProg → SameShape m.storage m'.storage
  same : ¬ m.spec.WronlyProg → m = m'

theorem not_wronlyProg (spec : BpfMapSpec)
    (h : spec.mapType = .perfEventArray ∨ spec.mapType = .ringBuf) : ¬ spec.WronlyProg := by
  have hflags := spec.flagsOk.1
  have hzero : spec.mapFlags = 0 := by
    rcases h with h | h <;> rw [h] at hflags <;> simpa [BpfMapType.allowedFlags] using hflags
  simp [WronlyProg, hzero]

/-- Write-only maps are arrays and hash maps. -/
theorem Similar.refl (m : BpfMap) : Similar m m := by
  refine ⟨rfl, fun hw => ?_, fun _ => rfl⟩
  have hwf := m.wf
  cases hst : m.storage with
  | array values => exact .array rfl
  | hash map =>
    refine .hash (fun key => ?_) rfl
    cases map[key]? with
    | none => exact .none
    | some v => exact .some rfl
  | perfEventArray | ringBuf =>
    rw [hst] at hwf
    exact absurd hw (not_wronlyProg _ (by rw [hwf.1]; decide))

namespace Similar

variable {m m' : BpfMap} (h : Similar m m')

include h

theorem spec_eq : m.spec = m'.spec := congrArg MapRef.spec h.ref

theorem ring (htype : m.spec.mapType = .ringBuf) : m = m' := h.same (not_wronlyProg _ (.inr htype))

/-- Only write-only maps are to be compared. -/
theorem agree {ε α : Type} {R : α → α → Prop} {f : BpfMap → Exec ε α} (hR : ∀ a, R a a)
    (hw : m.spec.WronlyProg → Agree R (f m) (f m')) : Agree R (f m) (f m') := by
  by_cases hwronly : m.spec.WronlyProg
  · exact hw hwronly
  · rw [← h.same hwronly]
    exact .refl hR _

theorem lookup (key : Bytes) (out : Nat) :
    Agree (fun _ _ => True) (m.lookup key out) (m'.lookup key out) := by
  refine h.agree (f := (·.lookup key out)) (fun _ => trivial) fun hw => ?_
  unfold BpfMap.lookup
  rw [← h.spec_eq]
  exact .guard fun _ => (h.shape hw).lookup _ _ _ _

theorem readValueBytes (key : Bytes) (offset out : Nat) :
    Agree (fun v v' : Bytes => v.length = v'.length) (m.readValueBytes key offset out)
      (m'.readValueBytes key offset out) := by
  refine h.agree (f := (·.readValueBytes key offset out)) (fun _ => rfl) fun hw => ?_
  unfold BpfMap.readValueBytes
  rw [← h.spec_eq]
  exact .guard fun _ => (h.shape hw).readValue _ _ _ _ _

theorem store {x x' : Exec LinuxError BpfMapStorage} (hw : m.spec.WronlyProg)
    (hx : Yields x fun st => st.Wf m.spec) (hx' : Yields x' fun st => st.Wf m'.spec)
    (hagree : Agree SameShape x x') : Agree Similar (m.store x hx) (m'.store x' hx') := by
  cases hagree with
  | ok hshape => exact .ok ⟨h.ref, fun _ => hshape, fun hnot => absurd hw hnot⟩
  | error => exact .error

theorem writeValueBytes (key : Bytes) (offset : Nat) (data : Bytes) :
    Agree Similar (m.writeValueBytes key offset data) (m'.writeValueBytes key offset data) := by
  refine h.agree (f := (·.writeValueBytes key offset data)) Similar.refl fun hw => ?_
  have hspec := h.spec_eq
  unfold BpfMap.writeValueBytes
  by_cases hk : key.length = m.spec.keySize
  · rw [dif_pos hk, dif_pos (hspec ▸ hk)]
    refine h.store hw _ _ ?_
    rw [← hspec]
    exact (h.shape hw).writeValue _ _ _ _ _
  · rw [dif_neg hk, dif_neg (hspec ▸ hk)]
    exact .error

/-- The values may differ where the map is write-only. -/
theorem update (key : Bytes) {value value' : Bytes} (hv : value.length = value'.length)
    (hsame : ¬ m.spec.WronlyProg → value = value') (flags : UInt64) :
    Agree Similar (m.update key value flags) (m'.update key value' flags) := by
  by_cases hw : m.spec.WronlyProg
  · have hspec := h.spec_eq
    unfold BpfMap.update
    by_cases hk : key.length = m.spec.keySize ∧ value.length = m.spec.valueSize
    · rw [dif_pos hk, dif_pos (by rw [← hspec, ← hv]; exact hk)]
      refine .guard fun _ => h.store hw _ _ ?_
      rw [← hspec]
      exact (h.shape hw).update key hv flags _ _
    · rw [dif_neg hk, dif_neg (by rw [← hspec, ← hv]; exact hk)]
      exact .error
  · rw [← h.same hw, hsame hw]
    exact .refl Similar.refl _

theorem delete (key : Bytes) : Agree Similar (m.delete key) (m'.delete key) := by
  refine h.agree (f := (·.delete key)) Similar.refl fun hw => ?_
  have hspec := h.spec_eq
  unfold BpfMap.delete
  by_cases hk : key.length ≠ m.spec.keySize
  · rw [if_pos hk, if_pos (hspec ▸ hk)]
    exact .error
  · rw [if_neg hk, if_neg (hspec ▸ hk)]
    exact h.store hw _ _ ((h.shape hw).delete key)

end Similar

/-! ## Machines -/

/-- The maps of two machines are similar one by one. -/
def MapsSimilar (maps maps' : List BpfMap) : Prop :=
  ∀ i : Nat, Option.Rel Similar maps[i]? maps'[i]?

variable {maps maps' : List BpfMap} {m m' : BpfMap}

theorem MapsSimilar.set (h : MapsSimilar maps maps') (i : Nat) (hm : Similar m m') :
    MapsSimilar (maps.set i m) (maps'.set i m') := by
  intro j
  have hj := h j
  rw [List.getElem?_set', List.getElem?_set']
  split
  · revert hj
    generalize maps[j]? = o, maps'[j]? = o'
    intro hj
    cases hj with
    | some _ => exact .some hm
    | none => exact .none
  · exact hj

namespace Vm

def withMaps (vm : Vm) (maps : List BpfMap) : Vm := { vm with maps }

end Vm

/-- `vm'` is `vm` up to the value bytes of write-only maps. -/
structure SameView (vm vm' : Vm) : Prop where
  eq : vm' = vm.withMaps vm'.maps
  maps : MapsSimilar vm.maps vm'.maps

/-- `run` does the same with other maps, up to `R`. -/
def Alike {α : Type} (R : α → α → Prop) (vm : Vm) (maps : List BpfMap)
    (run : Vm → Exec BpfVmError α) : Prop :=
  Agree R (run vm) (run (vm.withMaps maps))

variable {checks : Bool} {insns : List BpfInsn} {insn : BpfInsn} {context : Bytes} {env : BpfEnv}
  {vm vm' : Vm} {maps : List BpfMap}

section SimilarMaps

variable (h : MapsSimilar vm.maps maps)

include h

theorem setReg_sameView (r : Nat) (v : VmValue)
    (len : Nat) : Agree SameView (vm.setReg r v len) ((vm.withMaps maps).setReg r v len) :=
  .same fun _ => .ok ⟨rfl, h⟩

omit h in
theorem callReturn_sameView (h : SameView vm vm') (v : VmValue) :
    Agree SameView (vm.callReturn v) (vm'.callReturn v) := by
  rw [h.eq]
  exact .same fun _ => .same fun _ => .ok ⟨rfl, h.maps⟩

theorem getMap_similar (mapIdx : Nat) :
    Agree Similar (vm.getMap mapIdx) ((vm.withMaps maps).getMap mapIdx) :=
  agree_okOr _ (h mapIdx)

/-! ## Arithmetic and jumps -/

theorem stepLd_sameView : Alike SameView vm maps (stepLd insns insn) :=
  .ite (fun _ => .ite (fun _ => setReg_sameView h _ _ _) fun _ => .same fun _ =>
    setReg_sameView h _ _ _) fun _ => .error

theorem stepAlu32_sameView : Alike SameView vm maps (stepAlu32 insn) :=
  .ite (fun _ => .same fun _ => setReg_sameView h _ _ _) fun _ =>
    .same fun _ => .same fun _ => .same fun _ => setReg_sameView h _ _ _

theorem moveValueOffset_agree (mapIdx offset : Nat) :
    Alike Eq vm maps (moveValueOffset checks insn · mapIdx offset) := by
  refine .same fun _ => .same fun _ => (getMap_similar h mapIdx).bind fun m m' hm => ?_
  rw [hm.spec_eq]
  exact .refl (fun _ => rfl) _

theorem scalarAlu64_sameView : Alike SameView vm maps (scalarAlu64 insn) :=
  .same fun _ => .same fun _ => .same fun _ => setReg_sameView h _ _ _

theorem addSub64_sameView (v : VmValue) : Alike SameView vm maps (addSub64 checks insn · v) := by
  cases v with
  | ptrStack offset | ptrContext offset => exact .same fun _ => setReg_sameView h _ _ _
  | ptrMapValueArray mapIdx entryIdx offset | ptrMapValueHash mapIdx lookupId offset =>
    exact (moveValueOffset_agree h mapIdx offset).bind fun _ _ he => he ▸ setReg_sameView h _ _ _
  | _ => exact scalarAlu64_sameView h

theorem stepAlu64_sameView : Alike SameView vm maps (stepAlu64 checks insn) :=
  .ite (fun _ => .ite (fun _ => setReg_sameView h _ _ _) fun _ => .same fun _ =>
    setReg_sameView h _ _ _) fun _ => .ite (fun _ => .same fun _ => addSub64_sameView h _)
    fun _ => scalarAlu64_sameView h

theorem stepCondJump_sameView : Alike SameView vm maps (stepCondJump insn) :=
  .same fun _ => .ok ⟨rfl, h⟩

/-! ## Loads and stores -/

/-- The map a value pointer points into. -/
def valueMap : VmValue → Option Nat
  | .ptrMapValueArray mapIdx _ _ => some mapIdx
  | .ptrMapValueHash mapIdx _ _ => some mapIdx
  | _ => none

/-- The map register `r` points into a value of. -/
def pointedMap (vm : Vm) (r : Nat) : Option BpfMap := do vm.maps[← valueMap (← vm.regs[r]?)]?

/-- Register `r` points into a value of a map with attributes `P`. -/
def PointsInto (P : BpfMapSpec → Prop) (vm : Vm) (r : Nat) : Prop :=
  ∃ m ∈ pointedMap vm r, P m.spec

instance (P : BpfMapSpec → Prop) [DecidablePred P] (vm : Vm) (r : Nat) :
    Decidable (PointsInto P vm r) :=
  inferInstanceAs (Decidable (∃ m ∈ pointedMap vm r, P m.spec))

/-- `v` is no pointer into a write-only map. -/
def NotWronly (vm : Vm) (v : VmValue) : Prop :=
  ∀ mapIdx m, valueMap v = some mapIdx → vm.maps[mapIdx]? = some m → ¬ m.spec.WronlyProg

variable {v : VmValue}

omit h in
theorem pointedMap_eq {r mapIdx : Nat} (hv : vm.reg r = .ok v) (hmap : valueMap v = some mapIdx) :
    pointedMap vm r = vm.maps[mapIdx]? := by
  obtain ⟨hr, hv⟩ := vget_eq_ok.mp hv
  simp [pointedMap, Vector.getElem?_eq_some_iff.mpr ⟨hr, hv⟩, hmap]

omit h in
theorem notWronly_of_reg {r : Nat} (h : ¬ PointsInto WronlyProg vm r)
    (hv : vm.reg r = .ok v) : NotWronly vm v := by
  intro mapIdx m hmap hm hw
  exact h ⟨m, (pointedMap_eq hv hmap).trans hm, hw⟩

theorem getMap_eq {mapIdx : Nat} (hm : ∀ m, vm.maps[mapIdx]? = some m → ¬ m.spec.WronlyProg) :
    (vm.withMaps maps).getMap mapIdx = vm.getMap mapIdx := by
  have hi := h mapIdx
  unfold Vm.getMap Vm.withMaps
  revert hi hm
  generalize vm.maps[mapIdx]? = o, maps[mapIdx]? = o'
  intro hm hi
  cases hi with
  | some hsim => rw [hsim.same (hm _ rfl)]
  | none => rfl

theorem loadThrough_eq (hv : NotWronly vm v) (size : Nat) :
    loadThrough checks context insn (vm.withMaps maps) v size =
      loadThrough checks context insn vm v size := by
  cases v with
  | ptrMapValueArray mapIdx entryIdx offset =>
    simp only [loadThrough, loadArray]
    rw [getMap_eq h fun m hm => hv mapIdx m rfl hm]
  | ptrMapValueHash mapIdx lookupId offset =>
    simp only [loadThrough, loadHash]
    rw [getMap_eq h fun m hm => hv mapIdx m rfl hm]
    rfl
  | scalar x =>
    unfold loadThrough
    split <;> first | contradiction | rfl
  | _ => rfl

theorem stepLdx_sameView (hsrc : ¬ PointsInto WronlyProg vm insn.srcReg) :
    Alike SameView vm maps (stepLdx checks context insn) := by
  refine .same fun size => ?_
  change Agree SameView (vm.reg insn.srcReg >>= _) (vm.reg insn.srcReg >>= _)
  cases hv : vm.reg insn.srcReg with
  | error e => exact .error
  | ok v =>
    rw [ok_bind, ok_bind, loadThrough_eq h (notWronly_of_reg hsrc hv)]
    exact .same fun x => setReg_sameView h _ _ _

theorem setMap_sameView (mapIdx : Nat) (hm : Similar m m') :
    SameView (vm.setMap mapIdx m) ((vm.withMaps maps).setMap mapIdx m') :=
  ⟨rfl, MapsSimilar.set h mapIdx hm⟩

theorem writeWord_sameView (mapIdx : Nat)
    (hm : Similar m m') (key : Bytes) (eff : Nat) (bytes : Bytes) :
    Agree SameView (do
      let map ← mapErr (fun _ => .outOfBoundsAccess) (m.writeValueBytes key eff bytes)
      .ok { vm.setMap mapIdx map with pc := vm.pc + 1 } : Exec BpfVmError Vm) (do
        let map ← mapErr (fun _ => .outOfBoundsAccess) (m'.writeValueBytes key eff bytes)
        .ok { (vm.withMaps maps).setMap mapIdx map with pc := vm.pc + 1 }) := by
  refine (agree_mapErr _ (hm.writeValueBytes key eff bytes)).bind fun a b hab => ?_
  exact .ok ⟨rfl, (setMap_sameView h mapIdx hab).maps⟩

theorem storeThrough_sameView (v : VmValue)
    (bytes : Bytes) : Alike SameView vm maps (storeThrough checks insn · v bytes) := by
  cases v with
  | ptrStack offset =>
    exact .same fun _ => .same fun _ => .same fun _ => .same fun _ =>
      .ok ⟨rfl, h⟩
  | ptrMapValueArray mapIdx entryIdx offset =>
    refine .same fun eff => (getMap_similar h mapIdx).bind fun m m' hm => ?_
    exact writeWord_sameView h mapIdx hm _ eff bytes
  | ptrMapValueHash mapIdx lookupId offset =>
    refine .same fun eff => (getMap_similar h mapIdx).bind fun m m' hm => ?_
    exact .same fun l => .same fun key => writeWord_sameView h mapIdx hm key eff bytes
  | scalar x =>
    unfold storeThrough
    split <;> first | contradiction | exact .error
  | _ => exact .error

theorem stepSt_sameView : Alike SameView vm maps (stepSt checks insn) :=
  .same fun _ => .same fun _ => .same fun _ => .same fun _ => storeThrough_sameView h _ _

/-! ## Helper calls -/

/-- The same index, with similar maps behind it. -/
inductive SameArg : Nat × BpfMap → Nat × BpfMap → Prop
  | intro (mapIdx : Nat) {m m' : BpfMap} (similar : Similar m m') : SameArg (mapIdx, m) (mapIdx, m')

theorem helperMap_similar (r : Nat) : Alike SameArg vm maps (helperMap · r) :=
  .same fun _ => .same fun mapIdx => (getMap_similar h mapIdx).bind fun _ _ hm => .ok ⟨mapIdx, hm⟩

omit h in
theorem helperMap_reg {r mapIdx : Nat} (h : helperMap vm r = .ok (mapIdx, m)) :
    vm.regs[r]? = some (.ptrMap mapIdx) ∧ vm.maps[mapIdx]? = some m := by
  obtain ⟨v, hv, h⟩ := bind_eq_ok.mp h
  obtain ⟨idx, hidx, h⟩ := bind_eq_ok.mp h
  obtain ⟨map, hmap, h⟩ := bind_eq_ok.mp h
  cases h
  obtain ⟨hr, hv⟩ := vget_eq_ok.mp hv
  cases v with
  | ptrMap _ =>
    cases hidx
    exact ⟨Vector.getElem?_eq_some_iff.mpr ⟨hr, hv⟩, okOr_eq_ok.mp hmap⟩
  | _ => cases hidx

/-- The map whose pointer is in register `r`. -/
def givenMap (vm : Vm) (r : Nat) : Option BpfMap :=
  match vm.regs[r]? with
  | some (.ptrMap mapIdx) => vm.maps[mapIdx]?
  | _ => none

omit h in
theorem givenMap_eq {r : Nat} {p : Nat × BpfMap} (h : helperMap vm r = .ok p) :
    givenMap vm r = some p.2 := by
  obtain ⟨hreg, hmap⟩ := helperMap_reg h
  rw [givenMap, hreg]
  exact hmap

omit h in
theorem lookupValue_agree (hm : Similar m m') (mapIdx : Nat) (key : Bytes) :
    Agree Eq (lookupValue vm mapIdx m key) (lookupValue (vm.withMaps maps) mapIdx m' key) := by
  unfold lookupValue
  rw [← hm.spec_eq]
  split
  · exact .same fun idx => .ite (fun _ => .ok rfl) fun _ => .ok rfl
  · refine (agree_attempt (hm.lookup key _)).bind fun found found' hfound => ?_
    match found, found', hfound with
    | .error _, .error _, _ => exact .ok rfl
    | .ok _, .ok _, _ => exact .guard fun _ => .same fun _ => .ok rfl
  · exact .ok rfl
  · exact .ok rfl

theorem callLookup_sameView : Alike SameView vm maps (callLookup checks) := by
  refine (helperMap_similar h _).bind fun p p' hp => ?_
  obtain ⟨mapIdx, hm⟩ := hp
  simp only
  rw [← hm.spec_eq]
  refine .same fun key => (lookupValue_agree hm mapIdx key).bind fun q q' hq => ?_
  rw [hq]
  exact callReturn_sameView ⟨rfl, h⟩ _

theorem helperValue_agree (v : VmValue) (size : Nat) :
    Alike (fun a b : Bytes => a.length = b.length) vm maps (helperValue checks · v size) := by
  cases v with
  | ptrStack offset =>
    exact Agree.refl (R := fun a b : Bytes => a.length = b.length) (fun _ => rfl) _
  | ptrMapValueArray srcMap entryIdx offset =>
    exact (getMap_similar h srcMap).bind fun _ _ hm => agree_mapErr _ (hm.readValueBytes _ _ _)
  | ptrMapValueHash srcMap lookupId offset =>
    exact (getMap_similar h srcMap).bind fun _ _ hm => .same fun _ => .same fun _ =>
      agree_mapErr _ (hm.readValueBytes _ _ _)
  | _ => exact .error

theorem mapHelper_sameView (mapIdx : Nat)
    (hm : Similar m m') {x x' : Exec LinuxError BpfMap} (hx : Agree Similar x x') :
    Agree SameView (do
      let r ← attempt x
      (vm.setMap mapIdx (mapAfter m r)).callReturn (helperReturn r)) (do
        let r ← attempt x'
        ((vm.withMaps maps).setMap mapIdx (mapAfter m' r)).callReturn (helperReturn r)) := by
  refine (agree_attempt hx).bind fun r r' hr => ?_
  match r, r', hr with
  | .ok a, .ok b, hab => exact callReturn_sameView (setMap_sameView h mapIdx hab) _
  | .error _, .error _, rfl => exact callReturn_sameView (setMap_sameView h mapIdx hm) _

theorem helperValue_eq (hv : NotWronly vm v) (size : Nat) :
    helperValue checks (vm.withMaps maps) v size = helperValue checks vm v size := by
  cases v with
  | ptrMapValueArray mapIdx entryIdx offset =>
    simp only [helperValue, arrayBytes]
    rw [getMap_eq h fun m hm => hv mapIdx m rfl hm]
  | ptrMapValueHash mapIdx lookupId offset =>
    simp only [helperValue, hashBytes]
    rw [getMap_eq h fun m hm => hv mapIdx m rfl hm]
    rfl
  | _ => rfl

/-- The values differ at most on their way into a write-only map. -/
theorem helperValue_into (hv : ¬ m.spec.WronlyProg → NotWronly vm v) (size : Nat) :
    Alike (fun a b : Bytes => a.length = b.length ∧ (¬ m.spec.WronlyProg → a = b)) vm maps
      (helperValue checks · v size) := by
  by_cases hw : m.spec.WronlyProg
  · exact (helperValue_agree h v size).mono fun _ _ hlen => ⟨hlen, fun hnot => absurd hw hnot⟩
  · simp only [Alike, helperValue_eq h (hv hw)]
    exact .refl (fun _ => ⟨rfl, fun _ => rfl⟩) _

theorem callUpdate_sameView (hdata : ∀ m ∈ givenMap vm BPF_REG_1, ¬ m.spec.WronlyProg →
    ¬ PointsInto WronlyProg vm BPF_REG_3) : Alike SameView vm maps (callUpdate checks) := by
  refine (helperMap_similar h _).with_eq.bind fun p p' hp => ?_
  obtain ⟨harg, hp⟩ := hp
  have harg := givenMap_eq harg
  obtain ⟨mapIdx, hm⟩ := hp
  simp only
  rw [← hm.spec_eq]
  refine .same fun key => ?_
  change Agree SameView (vm.reg BPF_REG_3 >>= _) (vm.reg BPF_REG_3 >>= _)
  cases hv : vm.reg BPF_REG_3 with
  | error e => exact .error
  | ok v =>
    have hvalue := fun hw => notWronly_of_reg (hdata _ harg hw) hv
    refine (helperValue_into h hvalue _).bind fun a b hab => .same fun flags => ?_
    exact mapHelper_sameView h mapIdx hm (hm.update key hab.1 hab.2 flags)

theorem callDelete_sameView : Alike SameView vm maps (callDelete checks) := by
  refine (helperMap_similar h _).bind fun p p' hp => ?_
  obtain ⟨mapIdx, hm⟩ := hp
  simp only
  rw [← hm.spec_eq]
  exact .same fun key => mapHelper_sameView h mapIdx hm (hm.delete key)

theorem helperData_eq (hv : NotWronly vm v) (size : Nat) :
    helperData context (vm.withMaps maps) v size = helperData context vm v size := by
  cases v with
  | ptrMapValueArray mapIdx entryIdx offset =>
    simp only [helperData, arrayBytes]
    rw [getMap_eq h fun m hm => hv mapIdx m rfl hm]
  | ptrMapValueHash mapIdx lookupId offset =>
    simp only [helperData, hashBytes]
    rw [getMap_eq h fun m hm => hv mapIdx m rfl hm]
    rfl
  | _ => rfl

theorem callPerfEventOutput_sameView (hdata : ¬ PointsInto WronlyProg vm BPF_REG_4) :
    Alike SameView vm maps (callPerfEventOutput context env) := by
  refine (helperMap_similar h _).bind fun p p' hp => ?_
  obtain ⟨mapIdx, hm⟩ := hp
  have hview : SameView vm (vm.withMaps maps) := ⟨rfl, h⟩
  simp only
  rw [← hm.spec_eq]
  refine .guard fun htype => ?_
  rw [← hm.same (not_wronlyProg _ (.inl (not_not.mp htype)))]
  refine .same fun flags => .ite (fun _ => callReturn_sameView hview _) fun _ => ?_
  refine .same fun size => ?_
  change Agree SameView (vm.reg BPF_REG_4 >>= _) (vm.reg BPF_REG_4 >>= _)
  cases hv : vm.reg BPF_REG_4 with
  | error e => exact .error
  | ok v =>
    rw [ok_bind, ok_bind, helperData_eq h (notWronly_of_reg hdata hv)]
    exact .same fun data => callReturn_sameView hview _

theorem callRingbufOutput_sameView (hdata : ¬ PointsInto WronlyProg vm BPF_REG_2) :
    Alike SameView vm maps (callRingbufOutput context) := by
  refine (helperMap_similar h _).bind fun p p' hp => ?_
  obtain ⟨mapIdx, hm⟩ := hp
  simp only
  rw [← hm.spec_eq]
  refine .guard fun htype => ?_
  rw [← hm.ring (not_not.mp htype)]
  refine .same fun size => .same fun flags => ?_
  change Agree SameView (vm.reg BPF_REG_2 >>= _) (vm.reg BPF_REG_2 >>= _)
  cases hv : vm.reg BPF_REG_2 with
  | error e => exact .error
  | ok v =>
    rw [ok_bind, ok_bind, helperData_eq h (notWronly_of_reg hdata hv)]
    exact .same fun data => .same fun q =>
      callReturn_sameView (setMap_sameView h mapIdx (.refl q.2)) _

/-! ## Steps -/

/-- The instruction loads no value of a write-only map, hands none to an output helper and copies
none into a map that can be read. -/
@[mk_iff]
structure ReadsNoWronly (insn : BpfInsn) (vm : Vm) : Prop where
  load : insn.cls = BPF_LDX → ¬ PointsInto WronlyProg vm insn.srcReg
  perfEventOutput : insn.isCall = true → insn.imm = BPF_FUNC_PERF_EVENT_OUTPUT →
    ¬ PointsInto WronlyProg vm BPF_REG_4
  ringbufOutput : insn.isCall = true → insn.imm = BPF_FUNC_RINGBUF_OUTPUT →
    ¬ PointsInto WronlyProg vm BPF_REG_2
  updateElem : insn.isCall = true → insn.imm = BPF_FUNC_MAP_UPDATE_ELEM →
    ∀ m ∈ givenMap vm BPF_REG_1, ¬ m.spec.WronlyProg → ¬ PointsInto WronlyProg vm BPF_REG_3

instance (insn : BpfInsn) (vm : Vm) : Decidable (ReadsNoWronly insn vm) :=
  decidable_of_iff' _ (readsNoWronly_iff insn vm)

theorem stepCall_sameView (hcall : insn.isCall = true) (hread : ReadsNoWronly insn vm) :
    Alike SameView vm maps (stepCall checks context env insn) := by
  have hview : SameView vm (vm.withMaps maps) := ⟨rfl, h⟩
  refine .ite (fun _ => callLookup_sameView h) fun _ => ?_
  refine .ite (fun himm => callUpdate_sameView h (hread.updateElem hcall himm)) fun _ => ?_
  refine .ite (fun _ => callDelete_sameView h) fun _ => ?_
  refine .ite (fun _ => callReturn_sameView hview _) fun _ => ?_
  refine .ite (fun _ => callReturn_sameView hview _) fun _ => ?_
  refine .ite (fun himm => callPerfEventOutput_sameView h (hread.perfEventOutput hcall himm))
    fun _ => ?_
  refine .ite (fun himm => callRingbufOutput_sameView h (hread.ringbufOutput hcall himm))
    fun _ => ?_
  exact .guard fun _ => .error

/-- The loop goes on with the same view, or ends with the same value. -/
def SameRound : Vm ⊕ UInt64 → Vm ⊕ UInt64 → Prop := Sum.LiftRel SameView Eq

theorem stepJmp_sameRound (hread : ReadsNoWronly insn vm) :
    Alike SameRound vm maps (stepJmp checks context env insn) := by
  refine .ite (fun _ => .same fun _ => .ok (.inr rfl)) fun _ => ?_
  refine .ite (fun _ => .ok (.inl ⟨rfl, h⟩)) fun _ => ?_
  refine .ite (fun hcall => ?_) fun _ => ?_
  · exact (stepCall_sameView h hcall hread).bind fun _ _ hv => .ok (.inl hv)
  · exact (stepCondJump_sameView h).bind fun _ _ hv => .ok (.inl hv)

theorem stepInsn_sameRound (hread : ReadsNoWronly insn vm) :
    Alike SameRound vm maps (stepInsn checks insns context env insn) := by
  have hok : ∀ a b : Vm, SameView a b →
      Agree SameRound (.ok (.inl a) : Exec BpfVmError (Vm ⊕ UInt64)) (.ok (.inl b)) :=
    fun _ _ hv => .ok (.inl hv)
  refine .ite (fun _ => (stepLd_sameView h).bind hok) fun _ => ?_
  refine .ite (fun _ => (stepAlu32_sameView h).bind hok) fun _ => ?_
  refine .ite (fun _ => (stepAlu64_sameView h).bind hok) fun _ => ?_
  refine .ite (fun hcls => (stepLdx_sameView h (hread.load hcls)).bind hok) fun _ => ?_
  refine .ite (fun _ => (stepSt_sameView h).bind hok) fun _ => ?_
  exact .ite (fun _ => stepJmp_sameRound h hread) fun _ => .error

/-- **A step shows nothing of write-only maps** unless its instruction reads one. -/
theorem step_sameView (hread : ∀ insn, insns[vm.pc]? = some insn → ReadsNoWronly insn vm) :
    Alike SameRound vm maps (step checks insns context env) := by
  refine .ite (fun _ => .guard fun _ => ?_) fun _ => .error
  change Agree SameRound (get insns vm.pc >>= _) (get insns vm.pc >>= _)
  cases hget : (get insns vm.pc : Exec BpfVmError BpfInsn) with
  | error e => exact .error
  | ok insn =>
    have hr := hread insn (get_eq_ok.mp hget)
    have hread' : ReadsNoWronly insn { vm with steps := vm.steps + 1 } :=
      ⟨hr.load, hr.perfEventOutput, hr.ringbufOutput, hr.updateElem⟩
    have h' : MapsSimilar { vm with steps := vm.steps + 1 }.maps maps := h
    exact stepInsn_sameRound h' hread'

end SimilarMaps

end PulseOS.Bpf
