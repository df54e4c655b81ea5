import PulseOS.Bpf.Simulation

/-!
# Loads and stores of modelled machines

* `stepLdx_outcome` — a load that follows its rule reads a word; through a map value pointer it
  may still fail, when the entry is gone.
-/

namespace PulseOS.Bpf

open Exec

variable {checks : Bool} {maps : List MapRef} {limit : Nat} {covered : Prop} {insn : BpfInsn}
  {st : VerifierState} {vm : Vm} {context : Bytes} {t : RegType} {v : VmValue}

/-! ## Offsets -/

variable {E : BpfVmError → Prop} {size : Nat}

theorem accessSize_eq (h : insn.memSizeBytes = .ok size) : accessSize insn = .ok size := by
  rw [accessSize, h]

theorem accessWidth_of_memSizeBytes (h : insn.memSizeBytes = .ok size) : AccessWidth size := by
  obtain ⟨size', h', hw⟩ := memSizeBytes_width insn
  rw [h] at h'
  cases h'
  exact hw

theorem effOffset_eq {offset : Nat} (h0 : 0 ≤ offset + insn.off.toInt)
    (h1 : offset + insn.off.toInt < 2 ^ 64) :
    effOffset insn offset = .ok (offset + insn.off.toInt).toNat := by
  rw [effOffset, checkedAddSigned, if_pos ⟨h0, h1⟩]
  rfl

variable {eff mapIdx size : Nat} {off : Int} {st' : VerifierState}

theorem effOffset_toNat (h : 0 ≤ off) (h0 : 0 ≤ off + insn.off.toInt)
    (h1 : off + insn.off.toInt < 2 ^ 64) :
    effOffset insn off.toNat = .ok (off + insn.off.toInt).toNat := by
  have hnat : (off.toNat : Int) = off := Int.toNat_of_nonneg h
  rw [effOffset_eq (by omega) (by omega), hnat]

theorem withinLimit_eq {top : Nat} (h : eff + size ≤ top) (hlt : eff + size < 2 ^ 64) :
    withinLimit checks eff size top = .ok () := by
  rw [withinLimit, addUsize_of_lt hlt, ok_bind, if_neg (by omega)]

theorem fromNeBytes_ok {mem : Bytes} (hw : AccessWidth size)
    (h : eff + size ≤ mem.length) : ∃ x, fromNeBytes mem eff size = .ok x := by
  unfold AccessWidth at hw
  rw [fromNeBytes, if_pos hw, slice_of_le (by omega) h]
  exact ⟨_, rfl⟩

/-! ## Loads -/

theorem loadContext_meets (hw : AccessWidth size)
    (h0 : 0 ≤ off) (hlimit : limit ≤ 80) (lo : 0 ≤ off + insn.off.toInt)
    (hi : off + insn.off.toInt + size ≤ limit) (aligned : (off + insn.off.toInt) % size = 0)
    (hE : ¬ limit ≤ context.length → E .outOfBoundsAccess) (checks : Bool) :
    Meets (loadContext checks context insn off.toNat size) (fun _ => True) E := by
  have heff := effOffset_toNat h0 lo (by omega)
  have halign : ¬ (off + insn.off.toInt).toNat % size ≠ 0 := by
    rw [not_not]
    rcases hw with rfl | rfl | rfl | rfl <;> omega
  rw [loadContext, heff, ok_bind, withinLimit, addUsize_of_lt (by omega), ok_bind]
  by_cases htop : (off + insn.off.toInt).toNat + size > context.length
  · rw [if_pos htop, err_bind]
    exact hE (by omega)
  · obtain ⟨x, hx⟩ := fromNeBytes_ok hw (Nat.not_lt.mp htop)
    rw [if_neg htop, ok_bind, if_neg halign, hx]
    trivial

theorem keyBytes_ok {l : ActiveLookup} (h : l.keyLen ≤ BPF_MAP_MAX_KEY_SIZE) :
    ∃ key, l.keyBytes = .ok key ∧ key.length = l.keyLen := by
  rw [ActiveLookup.keyBytes, vslice, slice_of_le (Nat.zero_le _) (by simpa using h)]
  exact ⟨_, rfl, by simp; omega⟩

theorem readWord_meets (map : BpfMap) (key : Bytes) (eff : Nat)
    (hw : AccessWidth size) (hE : E .outOfBoundsAccess) :
    Meets (do
      let buf ← mapErr (fun _ => .outOfBoundsAccess) (map.readValueBytes key eff size)
      fromNeBytes buf 0 size) (fun _ => True) E := by
  refine (meets_mapErr ((map.readValueBytes_meets key eff size).mono (fun _ h => h)
    fun _ _ => hE)).bind fun buf hbuf => ?_
  obtain ⟨x, hx⟩ := fromNeBytes_ok hw (show 0 + size ≤ buf.length by omega)
  rw [hx]
  trivial

theorem unexecutable_ldx (h : insn.cls = BPF_LDX) (regs : Vector VmValue 11) :
    unexecutable insn regs = false := by
  unfold unexecutable
  rw [h]
  rfl

theorem tolerated_ldx (h : insn.cls = BPF_LDX) (hv : vm.regs[insn.srcReg]? = some v)
    (hp : covered → v.isStackOrContext = false) : Tolerated covered insn vm .outOfBoundsAccess := by
  unfold Tolerated throughStackOrContext
  rw [if_pos h, hv]
  exact hp

theorem vcopy_ok {ε α : Type} {n : Nat} {a : Nat} (w : Vector α n) (src : List α)
    (h : a + src.length ≤ n) : ∃ w', (vcopy w a src : Exec ε (Vector α n)) = .ok w' := by
  rw [vcopy, dif_pos h]
  exact ⟨_, rfl⟩

theorem tolerated_st (h : insn.cls = BPF_ST ∨ insn.cls = BPF_STX)
    (hv : vm.regs[insn.dstReg]? = some v) (hp : covered → v.isStackOrContext = false) :
    Tolerated covered insn vm .outOfBoundsAccess := by
  have hne : insn.cls ≠ BPF_LDX := by
    rcases h with h | h <;> rw [h] <;> decide
  unfold Tolerated throughStackOrContext
  rw [if_neg hne, if_pos h, hv]
  exact hp

section

variable (hm : Models maps st vm)

include hm

theorem loadStack_ok (hw : AccessWidth size)
    (h0 : -BPF_STACK_SIZE ≤ off) (h : StackBytes st (off + insn.off.toInt) size) (checks : Bool) :
    ∃ x, loadStack checks insn vm (BPF_STACK_SIZE + off).toNat size = .ok x := by
  have hS := stackSize_eq
  obtain ⟨lo, hi, init⟩ := h
  have heff : effOffset insn (BPF_STACK_SIZE + off).toNat =
      .ok (BPF_STACK_SIZE + (off + insn.off.toInt)).toNat := by
    rw [effOffset_toNat (by omega) (by omega) (by omega), Int.add_assoc]
  rw [loadStack, heff, ok_bind, withinLimit_eq (by omega) (by omega), ok_bind]
  have hinit : forRange (fun b => do
      let init ← vget vm.stackInit ((BPF_STACK_SIZE + (off + insn.off.toInt)).toNat + b)
      if init then .ok ()
      else err (.uninitializedStack (asI32 (BPF_STACK_SIZE + (off + insn.off.toInt)).toNat -
        BPF_STACK_SIZE) size) : Nat → Exec BpfVmError Unit) size = .ok () := by
    refine forRange_eq_ok.mpr fun b hb => ?_
    obtain ⟨hlt, hb'⟩ := Vector.getElem?_eq_some_iff.mp (hm.stack _ (init b hb))
    rw [vget_of_lt hlt, ok_bind, hb', if_pos rfl]
  rw [hinit, ok_bind]
  exact fromNeBytes_ok hw (by simp; omega)

theorem Models.lookup {lookupId : UInt8} (h : lookupId.toNat < vm.lookups.length) :
    ∃ l key, vm.lookups[lookupId.toNat]? = some l ∧ l.keyBytes = .ok key := by
  obtain ⟨key, hkey, -⟩ := keyBytes_ok (hm.keys _ (List.getElem_mem h))
  exact ⟨_, key, List.getElem?_eq_getElem h, hkey⟩

variable {m : MapRef} {bytes : Bytes}

theorem loadValue_meets (hw : AccessWidth size) (h0 : 0 ≤ off)
    (hmap : maps[mapIdx]? = some m) (lo : 0 ≤ off + insn.off.toInt)
    (hi : off + insn.off.toInt + size ≤ m.spec.valueSize)
    (hty : HasType vm.lookups.length (.ptrMapValue mapIdx off true) v) (hE : E .outOfBoundsAccess) :
    Meets (loadThrough checks context insn vm v size) (fun _ => True) E := by
  have hv := valueSize_lt m
  have heff := effOffset_toNat h0 lo (by omega)
  obtain ⟨map, hget, -⟩ := hm.getMap hmap
  cases hty with
  | arrayValue =>
    rw [loadThrough, loadArray, heff, ok_bind, hget, ok_bind]
    exact readWord_meets map _ _ hw hE
  | hashValue lt =>
    obtain ⟨l, key, hl, hkey⟩ := hm.lookup lt
    rw [loadThrough, loadHash, heff, ok_bind, hget, ok_bind, get_of_some hl, ok_bind, hkey, ok_bind]
    exact readWord_meets map _ _ hw hE

/-- **A load that follows its rule.** -/
theorem stepLdx_outcome (ht : TypeOk maps limit t)
    (hlimit : limit ≤ 80) (hctx : covered → limit ≤ context.length)
    (hcls : insn.cls = BPF_LDX) (hdst : insn.dstReg ≤ 10) (hwidth : insn.memSizeBytes = .ok size)
    (hsrc : st.regs[insn.srcReg]? = some t) (hload : Loadable maps limit st insn.off.toInt size t)
    (hnext : OneSlot insn vm) :
    Outcome covered insn vm (stepLdx checks context insn vm) (Puts maps insn st vm .scalar) := by
  have hw := accessWidth_of_memSizeBytes hwidth
  obtain ⟨v, hv, hty⟩ := hm.regs _ _ hsrc
  refine .intro (unexecutable_ldx hcls _) ?_
  rw [stepLdx, accessSize_eq hwidth, ok_bind, Vm.reg_of_some hv, ok_bind]
  have hword : Meets (loadThrough checks context insn vm v size) (fun _ => True)
      (Tolerated covered insn vm) := by
    cases hload with
    | context lo hi aligned =>
      cases hty
      exact loadContext_meets hw ht.1 hlimit lo hi aligned
        (fun hshort => tolerated_ldx hcls hv fun hc => absurd (hctx hc) hshort) checks
    | stack bytes =>
      cases hty
      obtain ⟨x, hx⟩ := loadStack_ok hm hw ht.1 bytes checks
      rw [loadThrough, hx]
      trivial
    | value map lo hi =>
      obtain ⟨_, -, h0, -⟩ := ht
      refine loadValue_meets hm hw h0 map lo hi hty (tolerated_ldx hcls hv fun _ => ?_)
      cases hty <;> rfl
  refine hword.bind fun x _ => ?_
  rw [vm.setReg_eq hdst]
  exact follows_put hm _ .scalar hnext

/-! ## Stores -/

theorem storeStack_follows (h0 : -BPF_STACK_SIZE ≤ off)
    (lo : -BPF_STACK_SIZE ≤ off + insn.off.toInt) (hi : off + insn.off.toInt + bytes.length ≤ 0)
    (init : Initialized st (off + insn.off.toInt) bytes.length st') (hnext : OneSlot insn vm) :
    Meets (storeStack checks insn vm (BPF_STACK_SIZE + off).toNat bytes)
      (Follows maps [(nextPc vm.pc insn, st')] vm) E := by
  have hS := stackSize_eq
  have heff : effOffset insn (BPF_STACK_SIZE + off).toNat =
      .ok (BPF_STACK_SIZE + (off + insn.off.toInt)).toNat := by
    rw [effOffset_toNat (by omega) (by omega) (by omega), Int.add_assoc]
  obtain ⟨stack, hstack⟩ := vcopy_ok (ε := BpfVmError) vm.stack bytes
    (a := (BPF_STACK_SIZE + (off + insn.off.toInt)).toNat) (by omega)
  obtain ⟨stackInit, hinit, hget⟩ := fillRange_spec (ε := BpfVmError) vm.stackInit
    (BPF_STACK_SIZE + (off + insn.off.toInt)).toNat true bytes.length (by omega)
  rw [storeStack, heff, ok_bind, withinLimit_eq (by omega) (by omega), ok_bind, hstack, ok_bind,
    hinit, ok_bind]
  refine ⟨_, List.mem_singleton.mpr rfl, hnext, ⟨?_, ?_, hm.maps, hm.keys⟩, rfl⟩
  · intro r t ht
    rw [init.1] at ht
    exact hm.regs r t ht
  · intro i hi'
    obtain ⟨hlt, hi'⟩ := Vector.getElem?_eq_some_iff.mp hi'
    rw [init.2 i hlt] at hi'
    rw [Vector.getElem?_eq_getElem hlt, hget i hlt]
    split
    · rfl
    · rename_i hout
      rw [if_neg hout] at hi'
      have := hm.stack i (by rw [Vector.getElem?_eq_getElem hlt, hi'])
      rw [Vector.getElem?_eq_getElem hlt] at this
      exact this

theorem storeValue_meets (h0 : 0 ≤ off) (hmap : maps[mapIdx]? = some m)
    (lo : 0 ≤ off + insn.off.toInt) (hi : off + insn.off.toInt + bytes.length ≤ m.spec.valueSize)
    (hty : HasType vm.lookups.length (.ptrMapValue mapIdx off true) v)
    (hE : E .outOfBoundsAccess) (hnext : OneSlot insn vm) :
    Meets (storeThrough checks insn vm v bytes) (Follows maps [(nextPc vm.pc insn, st)] vm) E := by
  have hv := valueSize_lt m
  have heff := effOffset_toNat h0 lo (by omega)
  obtain ⟨map, hget, -⟩ := hm.getMap hmap
  have hwrite : ∀ key : Bytes, Meets (do
      let map ← mapErr (fun _ => .outOfBoundsAccess)
        (map.writeValueBytes key (off + insn.off.toInt).toNat bytes)
      .ok { vm.setMap mapIdx map with pc := vm.pc + 1 } : Exec BpfVmError Vm)
      (Follows maps [(nextPc vm.pc insn, st)] vm) E := by
    intro key
    refine (meets_mapErr ((map.writeValueBytes_meets key _ bytes).mono (fun _ h => h)
      fun _ _ => hE)).bind fun map' hmap' => ?_
    exact ⟨_, List.mem_singleton.mpr rfl, hnext, (hm.setMap hget hmap').jump _, rfl⟩
  cases hty with
  | arrayValue =>
    rw [storeThrough, storeArray, heff, ok_bind, hget, ok_bind]
    exact hwrite _
  | hashValue lt =>
    obtain ⟨l, key, hl, hkey⟩ := hm.lookup lt
    rw [storeThrough, storeHash, heff, ok_bind, hget, ok_bind, get_of_some hl, ok_bind, hkey,
      ok_bind]
    exact hwrite _

/-- A stored register that holds a pointer is refused; otherwise there is a word to store. -/
theorem storedValue_cases (hcls : insn.cls = BPF_ST ∨ insn.cls = BPF_STX)
    (hsrc : insn.cls = BPF_STX → ∃ u, st.regs[insn.srcReg]? = some u ∧ u ≠ .notInit) :
    (unexecutable insn vm.regs = true ∧ storedValue insn vm = err .invalidInstruction) ∨
      (unexecutable insn vm.regs = false ∧ ∃ x, storedValue insn vm = .ok x) := by
  rcases hcls with hcls | hcls
  · refine .inr ⟨?_, ?_⟩
    · unfold unexecutable
      rw [hcls]
      rfl
    · rw [storedValue, if_pos hcls]
      exact ⟨_, rfl⟩
  · obtain ⟨u, hu, hinit⟩ := hsrc hcls
    obtain ⟨v, hv, hty⟩ := hm.regs _ _ hu
    have hunexec : unexecutable insn vm.regs = v.isPointer := by
      rw [← pointerIn_of_some hv]
      unfold unexecutable
      rw [hcls]
      rfl
    have hne : insn.cls ≠ BPF_ST := by
      rw [hcls]
      decide
    rw [storedValue, if_neg hne, Vm.scalarReg_of_some hv, hunexec]
    cases hp : v.isPointer with
    | true => exact .inl ⟨rfl, asScalar_pointer hp⟩
    | false => exact .inr ⟨rfl, hty.asScalar hinit hp⟩

/-- **A store that follows its rule.** -/
theorem stepSt_outcome (ht : TypeOk maps limit t) (hcls : insn.cls = BPF_ST ∨ insn.cls = BPF_STX)
    (hwidth : insn.memSizeBytes = .ok size) (hdst : st.regs[insn.dstReg]? = some t)
    (hsrc : insn.cls = BPF_STX → ∃ u, st.regs[insn.srcReg]? = some u ∧ u ≠ .notInit)
    (hstored : Stored maps st insn.off.toInt size t st') (hnext : OneSlot insn vm) :
    Outcome covered insn vm (stepSt checks insn vm) (Follows maps [(nextPc vm.pc insn, st')] vm) := by
  have hw := (accessWidth_of_memSizeBytes hwidth).bounds
  obtain ⟨v, hv, hty⟩ := hm.regs _ _ hdst
  rw [stepSt, accessSize_eq hwidth, ok_bind]
  rcases storedValue_cases hm hcls hsrc with ⟨hunexec, hval⟩ | ⟨hunexec, x, hval⟩
  · refine .invalid hunexec ?_
    rw [hval, err_bind]
  · refine .intro hunexec ?_
    rw [hval, ok_bind, slice_of_le (Nat.zero_le _) (by simp; omega), ok_bind, Vm.reg_of_some hv,
      ok_bind]
    have hlen : (((leBytes 8 x.toNat).drop 0).take (size - 0)).length = size := by simp; omega
    generalize ((leBytes 8 x.toNat).drop 0).take (size - 0) = bytes at hlen
    subst hlen
    cases hstored with
    | stack lo hi init =>
      cases hty
      rw [storeThrough]
      exact storeStack_follows hm ht.1 lo hi init hnext
    | value map lo hi =>
      obtain ⟨_, -, h0, -⟩ := ht
      refine storeValue_meets hm h0 map lo hi hty (tolerated_st hcls hv fun _ => ?_) hnext
      cases hty <;> rfl

end

end PulseOS.Bpf
