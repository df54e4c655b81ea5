import PulseOS.Bpf.SimulationMemory

/-!
# Helper calls of modelled machines
-/

namespace PulseOS.Bpf

open Exec VerifierState

variable {checks : Bool} {maps : List MapRef} {limit : Nat} {insn : BpfInsn} {st : VerifierState}
  {vm : Vm} {context : Bytes} {t : RegType} {v : VmValue} {E : BpfVmError → Prop}

/-! ## Return -/

variable {r0 : RegType}

theorem afterCall_regs {i : Nat} {u : RegType} (h : (st.afterCall r0).regs[i]? = some u) :
    (i = 0 ∧ u = r0) ∨ (1 ≤ i ∧ i < 6 ∧ u = .notInit) ∨ (6 ≤ i ∧ st.regs[i]? = some u) := by
  simp only [afterCall, BPF_REG_0, BPF_REG_1, BPF_REG_2, BPF_REG_3, BPF_REG_4, BPF_REG_5] at h
  rcases put_regs h with ⟨hi, hu⟩ | ⟨h0, h⟩
  · exact .inl ⟨hi.symm, hu⟩
  -- the argument registers
  iterate 5
    rcases put_regs h with ⟨hi, hu⟩ | ⟨hne, h⟩
    · exact .inr (.inl ⟨by omega, by omega, hu⟩)
  exact .inr (.inr ⟨by omega, h⟩)

theorem afterCall_stackInit (r0 : RegType) : (st.afterCall r0).stackInit = st.stackInit := by
  simp only [afterCall, put_stackInit]

theorem callReturn_spec (vm : Vm) (v : VmValue) : ∃ regs, vm.callReturn v =
    .ok { vm with regs, pc := vm.pc + 1 } ∧ ∀ i (hi : i < 11),
      regs[i] = if 1 ≤ i ∧ i < 6 then .uninit else if i = 0 then v else vm.regs[i] := by
  obtain ⟨regs, hfill, hget⟩ := fillRange_spec (ε := BpfVmError) (vm.regs.set 0 v) BPF_REG_1
    .uninit 5 (by decide)
  refine ⟨regs, ?_, fun i hi => ?_⟩
  · rw [Vm.callReturn, vset_of_lt (by decide), ok_bind, hfill, ok_bind]
  · rw [hget i hi, Vector.getElem_set]
    simp only [eq_comm]

/-- The next instruction is modelled with the call's result `t`. -/
abbrev Returned (maps : List MapRef) (insn : BpfInsn) (st : VerifierState) (vm : Vm)
    (t : RegType) :=
  Follows maps [(nextPc vm.pc insn, st.afterCall t)] vm

/-- **The end of a helper call**, on a machine that differs from `vm₀` in its maps and lookups. -/
theorem callReturn_follows {vm₀ : Vm} (hm : Models maps st vm)
    (hv : HasType vm.lookups.length t v) (hpc : vm.pc + 1 = nextPc vm₀.pc insn)
    (hsteps : vm.steps = vm₀.steps) :
    Meets (vm.callReturn v) (Returned maps insn st vm₀ t) E := by
  obtain ⟨regs, heq, hget⟩ := callReturn_spec vm v
  rw [heq]
  refine ⟨_, List.mem_singleton.mpr rfl, hpc, ⟨?_, ?_, hm.maps, hm.keys⟩, hsteps⟩
  swap
  · rw [afterCall_stackInit]
    exact hm.stack
  intro r u hu
  have hr : r < 11 := lt_of_reg hu
  refine ⟨_, Vector.getElem?_eq_getElem hr, ?_⟩
  rcases afterCall_regs hu with ⟨rfl, rfl⟩ | ⟨h1, h6, rfl⟩ | ⟨h6, hu⟩
  · rw [hget 0 hr, if_neg (by omega), if_pos rfl]
    exact hv
  · exact .notInit
  · obtain ⟨w, hw, hty⟩ := hm.regs r u hu
    obtain ⟨_, rfl⟩ := Vector.getElem?_eq_some_iff.mp hw
    rw [hget r hr, if_neg (by omega), if_neg (by omega)]
    exact hty

theorem helperReturn_hasType {α : Type} (n : Nat) (r : Except LinuxError α) :
    HasType n .scalar (helperReturn r) := by
  cases r <;> exact .scalar

/-! ## Arguments -/

variable {mapIdx r : Nat} {m : MapRef}

theorem helperMap_ok (hm : Models maps st vm) (h : MapIn maps st r mapIdx m) :
    ∃ map, helperMap vm r = .ok (mapIdx, map) ∧ vm.getMap mapIdx = .ok map ∧ map.ref = m := by
  obtain ⟨v, hv, hty⟩ := hm.regs _ _ h.1
  obtain ⟨map, hget, href⟩ := hm.getMap h.2
  cases hty
  refine ⟨map, ?_, hget, href⟩
  rw [helperMap, Vm.reg_of_some hv, ok_bind, mapOf, ok_bind, hget, ok_bind]

theorem stackBytes_ok {off : Int} {size : Nat} (h : StackBytes st off size) (checks : Bool)
    (vm : Vm) : ∃ bytes, stackBytes checks vm (BPF_STACK_SIZE + off).toNat size = .ok bytes ∧
      bytes.length = size := by
  have hS := stackSize_eq
  obtain ⟨lo, hi, -⟩ := h
  rw [stackBytes, withinLimit_eq (by omega) (by omega), ok_bind, vslice,
    slice_of_le (by omega) (by simp; omega)]
  exact ⟨_, rfl, by simp; omega⟩

theorem helperKey_ok (hm : Models maps st vm) (h : KeyIn st m) (checks : Bool) :
    ∃ key, helperKey checks vm m.spec.keySize = .ok key ∧ key.length = m.spec.keySize := by
  obtain ⟨off, hreg, hbytes⟩ := h
  obtain ⟨v, hv, hty⟩ := hm.regs _ _ hreg
  cases hty
  rw [helperKey, Vm.reg_of_some hv, ok_bind]
  exact stackBytes_ok hbytes checks vm

/-- The errors of a helper call. -/
structure HelperErrors (E : BpfVmError → Prop) : Prop where
  failed : ∀ e, E (.helperFailed e)
  bounds : E .outOfBoundsAccess

section Errors

variable (hE : HelperErrors E)

include hE

theorem getMap_meets (vm : Vm) (mapIdx : Nat) :
    Meets (vm.getMap mapIdx) (fun map => vm.getMap mapIdx = .ok map) E :=
  meets_okOr (fun _ h => okOr_eq_ok.mpr h) fun _ => hE.bounds

theorem readHelper_meets (map : BpfMap) (key : Bytes) (offset size : Nat) :
    Meets (mapErr .helperFailed (map.readValueBytes key offset size)) (fun _ => True) E :=
  meets_mapErr ((map.readValueBytes_meets key offset size).mono (fun _ _ => trivial)
    fun e _ => hE.failed e)

theorem arrayBytes_meets (vm : Vm) (srcMap : Nat) (entryIdx : UInt32) (offset size : Nat) :
    Meets (arrayBytes vm srcMap entryIdx offset size) (fun _ => True) E :=
  (getMap_meets hE vm srcMap).bind fun map _ => readHelper_meets hE map _ offset size

section

variable (hm : Models maps st vm)

include hm

theorem hashBytes_meets (srcMap : Nat) (lookupId : UInt8) (offset size : Nat) :
    Meets (hashBytes vm srcMap lookupId offset size) (fun _ => True) E := by
  refine (getMap_meets hE vm srcMap).bind fun map _ => ?_
  refine (meets_okOr (P := fun l => l ∈ vm.lookups) (fun _ h => List.mem_of_getElem? h)
    fun _ => hE.bounds).bind fun l hl => ?_
  obtain ⟨key, hkey, -⟩ := keyBytes_ok (hm.keys l hl)
  rw [hkey, ok_bind]
  exact readHelper_meets hE map key offset size

theorem helperValue_meets (h : ValueIn st m) (checks : Bool) : ∃ v, vm.reg BPF_REG_3 = .ok v ∧
      Meets (helperValue checks vm v m.spec.valueSize) (fun _ => True) E := by
  cases h with
  | stack reg bytes =>
    obtain ⟨v, hv, hty⟩ := hm.regs _ _ reg
    cases hty
    obtain ⟨buf, hbuf, -⟩ := stackBytes_ok bytes checks vm
    refine ⟨_, Vm.reg_of_some hv, ?_⟩
    rw [helperValue, hbuf]
    trivial
  | value reg =>
    obtain ⟨v, hv, hty⟩ := hm.regs _ _ reg
    refine ⟨v, Vm.reg_of_some hv, ?_⟩
    cases hty with
    | arrayValue => exact arrayBytes_meets hE vm _ _ _ _
    | hashValue => exact hashBytes_meets hE hm _ _ _ _

omit hm in
theorem checkedBytes_meets (mem : Bytes) (offset size : Nat) :
    Meets (checkedBytes mem offset size) (fun _ => True) E := by
  unfold checkedBytes
  split
  · exact hE.bounds
  · rename_i top htop
    have hle : offset ≤ top := by
      unfold checkedAdd at htop
      split at htop
      · cases htop
        omega
      · cases htop
    refine .ite (fun _ => hE.bounds) fun hlen => ?_
    rw [slice_of_le hle (Nat.not_lt.mp hlen)]
    trivial

theorem helperData_meets {allowed : Bool}
    (h : DataIn st r allowed) (context : Bytes) (size : Nat) : ∃ v, vm.reg r = .ok v ∧
      Meets (helperData context vm v size) (fun _ => True) E := by
  cases h with
  | stack reg | context reg =>
    obtain ⟨v, hv, hty⟩ := hm.regs _ _ reg
    cases hty
    exact ⟨_, Vm.reg_of_some hv, checkedBytes_meets hE _ _ _⟩
  | value reg =>
    obtain ⟨v, hv, hty⟩ := hm.regs _ _ reg
    refine ⟨v, Vm.reg_of_some hv, ?_⟩
    cases hty with
    | arrayValue => exact arrayBytes_meets hE vm _ _ _ _
    | hashValue => exact hashBytes_meets hE hm _ _ _ _

omit hE in
theorem scalarArg_ok (h : st.regs[r]? = some .scalar) : ∃ x, vm.scalarReg r = .ok x := by
  obtain ⟨v, hv, hty⟩ := hm.regs _ _ h
  rw [Vm.scalarReg_of_some hv]
  exact hty.asScalar nofun hty.isPointer_scalar

theorem helperSize_meets
    (h : st.regs[r]? = some .scalar) : Meets (helperSize vm r) (fun _ => True) E := by
  obtain ⟨x, hx⟩ := scalarArg_ok hm h
  rw [helperSize, hx, ok_bind]
  exact .ite (fun _ => hE.bounds) fun _ => trivial

/-! ## The helpers -/

omit hE in
theorem Models.addLookup {l : ActiveLookup} (hl : l.keyLen ≤ BPF_MAP_MAX_KEY_SIZE) :
    Models maps st { vm with lookups := vm.lookups ++ [l] } where
  regs := fun r t ht => by
    obtain ⟨v, hv, hty⟩ := hm.regs r t ht
    exact ⟨v, hv, hty.mono (by simp)⟩
  stack := hm.stack
  maps := hm.maps
  keys := fun l' hl' => by
    rcases List.mem_append.mp hl' with hl' | hl'
    · exact hm.keys l' hl'
    · rw [List.mem_singleton.mp hl']
      exact hl

theorem lookupValue_meets {map : BpfMap} {key : Bytes} (hkey : key.length = map.spec.keySize) :
    Meets (lookupValue vm mapIdx map key) (fun p => Models maps st { vm with lookups := p.2 } ∧
        HasType p.2.length (.ptrMapValue mapIdx 0 false) p.1) E := by
  unfold lookupValue
  split
  · rename_i harray
    have h4 : key.length = 4 := by
      have hok := map.spec.keyOk
      rw [harray] at hok
      exact hkey.trans hok
    rw [keyIndex, if_pos h4]
    exact .ite (fun _ => ⟨hm, .arrayValue⟩) fun _ => ⟨hm, .nullValue⟩
  · refine (meets_attempt (map.lookup_meets key map.spec.valueSize)).bind fun found _ => ?_
    cases found with
    | error e => exact ⟨hm, .nullValue⟩
    | ok value =>
      refine .ite (fun _ => hE.bounds) fun hfull => ?_
      have hfit := map.spec.key_le
      obtain ⟨buf, hbuf⟩ := vcopy_ok (ε := BpfVmError) (a := 0)
        (Vector.replicate BPF_MAP_MAX_KEY_SIZE (0 : UInt8)) key (by omega)
      rw [hbuf, ok_bind]
      refine ⟨hm.addLookup hfit, .hashValue ?_⟩
      have hlt : vm.lookups.length < 64 := Nat.not_le.mp hfull
      rw [UInt8.toNat_ofNat_of_lt' (lt_trans hlt (by decide)), List.length_append]
      exact Nat.lt_succ_self _
  · exact ⟨hm, .nullValue⟩
  · exact ⟨hm, .nullValue⟩

end

end Errors

section Helpers

variable {mapIdx : Nat} {m : MapRef}

variable {map : BpfMap}

theorem mapAfter_ref {r : Except LinuxError BpfMap}
    (h : ∀ map', r = .ok map' → map'.ref = map.ref) : (mapAfter map r).ref = map.ref := by
  cases r with
  | ok map' => exact h map' rfl
  | error e => rfl

theorem mapHelper_meets (hm : Models maps st vm) {x : Exec LinuxError BpfMap}
    (hget : vm.getMap mapIdx = .ok map)
    (hx : Yields x fun map' => map'.ref = map.ref) (hnext : OneSlot insn vm) :
    Meets (do
      let r ← attempt x
      (vm.setMap mapIdx (mapAfter map r)).callReturn (helperReturn r))
      (Returned maps insn st vm .scalar) E := by
  refine (meets_attempt hx).bind fun r hr => ?_
  have href : (mapAfter map r).ref = map.ref := by
    refine mapAfter_ref fun map' h => ?_
    rw [h] at hr
    exact hr
  exact callReturn_follows (hm.setMap hget href) (helperReturn_hasType _ r) hnext rfl

section
variable (hm : Models maps st vm) (hmap : MapIn maps st BPF_REG_1 mapIdx m) (hkey : KeyIn st m)
  (hnext : OneSlot insn vm)
include hm hmap hkey hnext

theorem callLookup_meets (hE : HelperErrors E) :
    Meets (callLookup checks vm) (Returned maps insn st vm (.ptrMapValue mapIdx 0 false)) E := by
  obtain ⟨map, harg, -, rfl⟩ := helperMap_ok hm hmap
  obtain ⟨key, hkey, hlen⟩ := helperKey_ok hm hkey checks
  have hkey' : helperKey checks vm map.spec.keySize = .ok key := hkey
  rw [callLookup, harg, ok_bind]
  simp only
  rw [hkey', ok_bind]
  refine (lookupValue_meets hE hm hlen).bind fun p hp => ?_
  exact callReturn_follows hp.1 hp.2 hnext rfl

theorem callUpdate_meets (hE : HelperErrors E) (hvalue : ValueIn st m)
    (hflags : st.regs[BPF_REG_4]? = some .scalar) :
    Meets (callUpdate checks vm) (Returned maps insn st vm .scalar) E := by
  obtain ⟨map, harg, hget, rfl⟩ := helperMap_ok hm hmap
  obtain ⟨key, hkey, -⟩ := helperKey_ok hm hkey checks
  obtain ⟨v, hv, hvalue⟩ := helperValue_meets hE hm hvalue checks
  obtain ⟨flags, hflags⟩ := scalarArg_ok hm hflags
  have hkey' : helperKey checks vm map.spec.keySize = .ok key := hkey
  have hvalue' : Meets (helperValue checks vm v map.spec.valueSize) (fun _ => True) E := hvalue
  rw [callUpdate, harg, ok_bind]
  simp only
  rw [hkey', ok_bind, hv, ok_bind]
  refine hvalue'.bind fun value _ => ?_
  rw [hflags, ok_bind]
  exact mapHelper_meets hm hget (map.update_meets key value flags) hnext

theorem callDelete_meets : Meets (callDelete checks vm) (Returned maps insn st vm .scalar) E := by
  obtain ⟨map, harg, hget, rfl⟩ := helperMap_ok hm hmap
  obtain ⟨key, hkey, -⟩ := helperKey_ok hm hkey checks
  have hkey' : helperKey checks vm map.spec.keySize = .ok key := hkey
  rw [callDelete, harg, ok_bind]
  simp only
  rw [hkey', ok_bind]
  exact mapHelper_meets hm hget (map.delete_meets key) hnext

end

theorem callPerfEventOutput_meets (hE : HelperErrors E) (env : BpfEnv) (hm : Models maps st vm)
    (hmap : MapIn maps st BPF_REG_2 mapIdx m) (htype : m.spec.mapType = .perfEventArray)
    (hflags : st.regs[BPF_REG_3]? = some .scalar) (hdata : DataIn st BPF_REG_4 false)
    (hsize : st.regs[BPF_REG_5]? = some .scalar) (hnext : OneSlot insn vm) :
    Meets (callPerfEventOutput context env vm) (Returned maps insn st vm .scalar) E := by
  obtain ⟨map, harg, -, rfl⟩ := helperMap_ok hm hmap
  obtain ⟨flags, hflags⟩ := scalarArg_ok hm hflags
  rw [callPerfEventOutput, harg, ok_bind]
  simp only
  have hnot : ¬ map.spec.mapType ≠ .perfEventArray := not_not.mpr htype
  rw [if_neg hnot, hflags, ok_bind]
  refine .ite (fun _ => callReturn_follows hm .scalar hnext rfl) fun _ => ?_
  refine (helperSize_meets hE hm hsize).bind fun size _ => ?_
  obtain ⟨v, hv, hdata⟩ := helperData_meets hE hm hdata context size
  rw [hv, ok_bind]
  refine hdata.bind fun data _ => ?_
  exact callReturn_follows hm (helperReturn_hasType _ _) hnext rfl

theorem callRingbufOutput_meets (hE : HelperErrors E) (hm : Models maps st vm)
    (hmap : MapIn maps st BPF_REG_1 mapIdx m) (htype : m.spec.mapType = .ringBuf)
    (hdata : DataIn st BPF_REG_2 true) (hsize : st.regs[BPF_REG_3]? = some .scalar)
    (hflags : st.regs[BPF_REG_4]? = some .scalar) (hnext : OneSlot insn vm) :
    Meets (callRingbufOutput context vm) (Returned maps insn st vm .scalar) E := by
  obtain ⟨map, harg, hget, rfl⟩ := helperMap_ok hm hmap
  obtain ⟨flags, hflags⟩ := scalarArg_ok hm hflags
  rw [callRingbufOutput, harg, ok_bind]
  simp only
  have hnot : ¬ map.spec.mapType ≠ .ringBuf := not_not.mpr htype
  rw [if_neg hnot]
  refine (helperSize_meets hE hm hsize).bind fun size _ => ?_
  obtain ⟨v, hv, hdata⟩ := helperData_meets hE hm hdata context size
  rw [hflags, ok_bind, hv, ok_bind]
  refine hdata.bind fun data _ => ?_
  refine (meets_mapErr ((map.outputRingbuf_meets data flags).mono (fun _ h => h.1)
    fun e _ => hE.failed e)).bind fun p hp => ?_
  exact callReturn_follows (hm.setMap hget hp) (helperReturn_hasType _ _) hnext rfl

end Helpers

/-- **A helper call that follows its rule.** -/
theorem stepCall_meets (hE : HelperErrors E) (env : BpfEnv) (hm : Models maps st vm)
    (hcall : CallOk maps st insn.imm r0) (hnext : OneSlot insn vm) :
    Meets (stepCall checks context env insn vm) (Returned maps insn st vm r0) E := by
  unfold stepCall
  generalize insn.imm = helper at hcall
  cases hcall with
  | lookup map key => exact callLookup_meets hm map key hnext hE
  | update map _ key value flags => exact callUpdate_meets hm map key hnext hE value flags
  | delete map _ _ key => exact callDelete_meets hm map key hnext
  | ktime | processorId => exact callReturn_follows hm .scalar hnext rfl
  | perfEventOutput map type flags data size =>
    exact callPerfEventOutput_meets hE env hm map type flags data size hnext
  | ringbufOutput map type data size flags =>
    exact callRingbufOutput_meets hE hm map type data size flags hnext

end PulseOS.Bpf
