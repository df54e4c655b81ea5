import PulseOS.Bpf.Accepted
import PulseOS.Bpf.Interpreter

/-!
# Machines and abstract states

`Models maps st vm` says that the machine `vm` is one of those the abstract state `st` stands for.
This module relates the two for arithmetic; memory, helpers and jumps follow in the next ones.
-/

namespace PulseOS.Bpf

open Exec VerifierState IntTy

/-! ## Values -/

/-- The values of type `t`, when `n` lookups were made. -/
inductive HasType (n : Nat) : RegType → VmValue → Prop
  | notInit {v : VmValue} : HasType n .notInit v
  | scalar {v : UInt64} : HasType n .scalar (.scalar v)
  | null : HasType n .scalar .null
  | context {off : Int} : HasType n (.ptrContext off) (.ptrContext off.toNat)
  | stack {off : Int} : HasType n (.ptrStack off) (.ptrStack (BPF_STACK_SIZE + off).toNat)
  | map {mapIdx : Nat} : HasType n (.ptrMap mapIdx) (.ptrMap mapIdx)
  | arrayValue {mapIdx : Nat} {off : Int} {nullChecked : Bool} {entryIdx : UInt32} :
    HasType n (.ptrMapValue mapIdx off nullChecked) (.ptrMapValueArray mapIdx entryIdx off.toNat)
  | hashValue {mapIdx : Nat} {off : Int} {nullChecked : Bool} {lookupId : UInt8}
    (lt : lookupId.toNat < n) :
    HasType n (.ptrMapValue mapIdx off nullChecked) (.ptrMapValueHash mapIdx lookupId off.toNat)
  | nullValue {mapIdx : Nat} {off : Int} : HasType n (.ptrMapValue mapIdx off false) .null
  | zeroValue {mapIdx : Nat} {off : Int} : HasType n (.ptrMapValue mapIdx off false) (.scalar 0)

def VmValue.isPointer : VmValue → Bool
  | .uninit => false
  | .scalar _ => false
  | .null => false
  | _ => true

variable {n : Nat} {t : RegType} {v : VmValue}

theorem HasType.mono {m : Nat} (h : HasType n t v) (hm : n ≤ m) : HasType m t v := by
  cases h with
  | hashValue lt => exact .hashValue (lt_of_lt_of_le lt hm)
  | _ => constructor

theorem asScalar_pointer (h : v.isPointer = true) : v.asScalar = err .invalidInstruction := by
  cases v <;> first | rfl | cases h

theorem HasType.asScalar (h : HasType n t v) (ht : t ≠ .notInit) (hv : v.isPointer = false) :
    ∃ x, v.asScalar = .ok x := by
  cases h with
  | notInit => exact absurd rfl ht
  | scalar => exact ⟨_, rfl⟩
  | null | nullValue | zeroValue => exact ⟨0, rfl⟩
  | _ => cases hv

theorem HasType.isPointer_scalar (h : HasType n .scalar v) : v.isPointer = false := by
  cases h <;> rfl

theorem HasType.truncate {x : UInt64} (h : HasType n t v) (hx : v.asScalar = .ok x) :
    HasType n t (.scalar x.toUInt32.toUInt64) := by
  cases h with
  | notInit => exact .notInit
  | scalar | null => exact .scalar
  | nullValue | zeroValue =>
    cases hx
    exact .zeroValue
  | _ => cases hx

/-! ## Machines -/

namespace Vm

/-- `vm` with `v` in register `r`, `len` slots on. -/
def put (vm : Vm) (r : Nat) (v : VmValue) (len : Nat) : Vm :=
  { vm with regs := vm.regs.setIfInBounds r v, pc := vm.pc + len }

variable {vm : Vm} {r : Nat}

theorem reg_of_some (h : vm.regs[r]? = some v) : vm.reg r = .ok v := by
  obtain ⟨hr, rfl⟩ := Vector.getElem?_eq_some_iff.mp h
  exact vget_of_lt hr

theorem scalarReg_of_some (h : vm.regs[r]? = some v) : vm.scalarReg r = v.asScalar := by
  rw [scalarReg, reg_of_some h, ok_bind]

theorem setReg_eq (vm : Vm) (h : r ≤ 10) (v : VmValue) (len : Nat) :
    vm.setReg r v len = .ok (vm.put r v len) := by
  have hr : r < 11 := by omega
  simp [setReg, put, vset_of_lt hr, Vector.setIfInBounds, Vector.set, Array.setIfInBounds, hr]

end Vm

/-- `vm` is a machine that `st` stands for. -/
structure Models (maps : List MapRef) (st : VerifierState) (vm : Vm) : Prop where
  regs : ∀ (r : Nat) (t : RegType), st.regs[r]? = some t →
    ∃ v, vm.regs[r]? = some v ∧ HasType vm.lookups.length t v
  stack : ∀ i : Nat, st.stackInit[i]? = some true → vm.stackInit[i]? = some true
  maps : vm.maps.map BpfMap.ref = maps
  keys : ∀ l ∈ vm.lookups, l.keyLen ≤ BPF_MAP_MAX_KEY_SIZE

section Models

variable {maps : List MapRef} {st : VerifierState} {vm : Vm}

theorem initial_models (maps : List BpfMap) :
    Models (maps.map BpfMap.ref) initial (Vm.start maps) where
  regs := fun r t h => by
    obtain ⟨hr, rfl⟩ := Vector.getElem?_eq_some_iff.mp h
    refine ⟨_, Vector.getElem?_eq_getElem hr, ?_⟩
    simp only [initial, Vm.start, Vector.getElem_set, Vector.getElem_replicate]
    split
    · exact .stack
    · split
      · exact .context
      · exact .notInit
  stack := fun i h => by
    obtain ⟨_, h⟩ := Vector.getElem?_eq_some_iff.mp h
    simp [initial] at h
  maps := rfl
  keys := nofun

section
variable (h : Models maps st vm)
include h

theorem Models.put {t : RegType} {v : VmValue} (hv : HasType vm.lookups.length t v) (r len : Nat) :
    Models maps (st.put r t) (vm.put r v len) where
  regs := fun i u hu => by
    have hi : i < 11 := lt_of_reg hu
    rcases put_regs hu with ⟨rfl, rfl⟩ | ⟨hne, hu⟩
    · refine ⟨v, ?_, hv⟩
      simp [Vm.put, hi]
    · obtain ⟨w, hw, hty⟩ := h.regs i u hu
      refine ⟨w, ?_, hty⟩
      simp only [Vm.put, Vector.getElem?_setIfInBounds, if_neg hne]
      exact hw
  stack := h.stack
  maps := h.maps
  keys := h.keys

theorem Models.jump (pc : Nat) : Models maps st { vm with pc } := ⟨h.regs, h.stack, h.maps, h.keys⟩

/-- The map behind an index of the verifier. -/
theorem Models.getMap {mapIdx : Nat} {m : MapRef}
    (hm : maps[mapIdx]? = some m) : ∃ map, vm.getMap mapIdx = .ok map ∧ map.ref = m := by
  rw [← h.maps, List.getElem?_map] at hm
  obtain ⟨map, hmap, rfl⟩ := Option.map_eq_some_iff.mp hm
  exact ⟨map, by rw [Vm.getMap, hmap]; rfl, rfl⟩

theorem Models.setMap {mapIdx : Nat} {map map' : BpfMap}
    (hget : vm.getMap mapIdx = .ok map) (href : map'.ref = map.ref) :
    Models maps st (vm.setMap mapIdx map') where
  regs := h.regs
  stack := h.stack
  maps := by
    obtain ⟨hlt, hm⟩ := List.getElem?_eq_some_iff.mp (okOr_eq_ok.mp hget)
    have hlt' : mapIdx < (vm.maps.map BpfMap.ref).length := by simpa using hlt
    have hself : (vm.maps.map BpfMap.ref)[mapIdx] = map.ref := by simp [hm]
    rw [← h.maps]
    simp only [Vm.setMap]
    rw [List.map_set, href, ← hself, List.set_getElem_self]
  keys := h.keys

end

end Models

/-! ## What the interpreter has no case for -/

/-- Register `r` holds a pointer. -/
def pointerIn (regs : Vector VmValue 11) (r : Nat) : Bool := regs[r]?.any VmValue.isPointer

variable (insn : BpfInsn) (regs : Vector VmValue 11)

/-- The second operand is a register that holds a pointer. -/
def pointerSrc : Bool :=
  !insn.isSrcImm && pointerIn regs insn.srcReg

/-- ALU opcodes without a meaning, and byte swaps of a width the class does not have. -/
def undefinedAlu : Bool :=
  insn.op == 0xe0 || insn.op == 0xf0 || (insn.op == BPF_END &&
    !(if insn.cls = BPF_ALU then insn.imm == 16 || insn.imm == 32 else insn.imm == 64))

def undefinedJump : Bool :=
  insn.op == BPF_JA || insn.op == BPF_CALL || insn.op == BPF_EXIT || insn.op == 0xe0 ||
    insn.op == 0xf0

/-- The value `v` cannot be compared with zero. -/
def undefinedNullTest (v : VmValue) : Bool :=
  match v with
  | .uninit => false
  | .scalar _ => undefinedJump insn
  | .null => !(insn.op == BPF_JEQ || insn.op == BPF_JNE)
  | .ptrMapValueArray _ _ _ => !(insn.op == BPF_JEQ || insn.op == BPF_JNE)
  | .ptrMapValueHash _ _ _ => !(insn.op == BPF_JEQ || insn.op == BPF_JNE)
  | _ => true

/-- The comparison of a conditional jump has no meaning for its operands. -/
def undefinedComparison : Bool :=
  if insn.isSrcImm = true ∧ insn.imm = 0 then regs[insn.dstReg]?.any (undefinedNullTest insn)
  else pointerIn regs insn.dstReg || pointerSrc insn regs || undefinedJump insn

/-- The interpreter has no case for this instruction with these operands. -/
def unexecutable : Bool :=
  if insn.cls = BPF_ALU then
    if insn.op = BPF_MOV then pointerSrc insn regs
    else pointerIn regs insn.dstReg || pointerSrc insn regs || undefinedAlu insn
  else if insn.cls = BPF_ALU64 then undefinedAlu insn
  else if insn.cls = BPF_STX then pointerIn regs insn.srcReg
  else if insn.cls = BPF_JMP ∨ insn.cls = BPF_JMP32 then
    !(insn.isExit || insn.isJa || insn.isCall) && undefinedComparison insn regs
  else false

def VmValue.isStackOrContext : VmValue → Bool
  | .ptrStack _ => true
  | .ptrContext _ => true
  | _ => false

/-- A load or store through a stack or context pointer. -/
def throughStackOrContext : Bool :=
  if insn.cls = BPF_LDX then regs[insn.srcReg]?.any VmValue.isStackOrContext
  else if insn.cls = BPF_ST ∨ insn.cls = BPF_STX then
    regs[insn.dstReg]?.any VmValue.isStackOrContext
  else false

/-- The errors left to an instruction that can be executed, where `covered` says that the context
has all the bytes the verifier counts on. -/
def Tolerated (covered : Prop) (insn : BpfInsn) (vm : Vm) : BpfVmError → Prop
  | .divideByZero => True
  | .helperFailed _ => True
  | .outOfBoundsAccess => covered → throughStackOrContext insn vm.regs = false
  | _ => False

/-- `x` fails as an invalid instruction exactly if the instruction is `unexecutable`; otherwise
it returns a value satisfying `P` or a tolerated error. -/
def Outcome {α : Type} (covered : Prop) (insn : BpfInsn) (vm : Vm) (x : Exec BpfVmError α)
    (P : α → Prop) : Prop :=
  if unexecutable insn vm.regs = true then x = err .invalidInstruction
  else Meets x P (Tolerated covered insn vm)

/-- `vm'` is modelled by one of the successors. -/
def Follows (maps : List MapRef) (succs : List (Nat × VerifierState)) (vm vm' : Vm) : Prop :=
  ∃ s ∈ succs, vm'.pc = s.1 ∧ Models maps s.2 vm' ∧ vm'.steps = vm.steps

/-- The next instruction is modelled with `t` in the target of `insn`. -/
abbrev Puts (maps : List MapRef) (insn : BpfInsn) (st : VerifierState) (vm : Vm) (t : RegType) :=
  Follows maps [(nextPc vm.pc insn, st.put insn.dstReg t)] vm

abbrev OneSlot (insn : BpfInsn) (vm : Vm) : Prop := vm.pc + 1 = nextPc vm.pc insn

section Outcome

variable {α β : Type} {covered : Prop} {insn : BpfInsn} {vm : Vm} {x : Exec BpfVmError α}
  {P : α → Prop}

theorem Outcome.intro (hx : unexecutable insn vm.regs = false)
    (h : Meets x P (Tolerated covered insn vm)) : Outcome covered insn vm x P := by
  rw [Outcome, hx, if_neg Bool.false_ne_true]
  exact h

theorem Outcome.invalid (hx : unexecutable insn vm.regs = true)
    (h : x = err .invalidInstruction) : Outcome covered insn vm x P := by
  rw [Outcome, if_pos hx]
  exact h

theorem Outcome.map {f : α → β} {Q : β → Prop} (h : Outcome covered insn vm x P)
    (hf : ∀ a, P a → Q (f a)) : Outcome covered insn vm (x >>= fun a => .ok (f a)) Q := by
  unfold Outcome at h ⊢
  split at h
  · rename_i hx
    rw [if_pos hx, h]
    rfl
  · rename_i hx
    rw [if_neg hx]
    exact h.bind fun a ha => hf a ha

/-- An outcome depends on the registers only. -/
theorem Outcome.mono {vm' : Vm} {Q : α → Prop} (h : Outcome covered insn vm' x P)
    (hregs : vm'.regs = vm.regs) (hP : ∀ a, P a → Q a) : Outcome covered insn vm x Q := by
  have htol : ∀ e, Tolerated covered insn vm' e → Tolerated covered insn vm e := by
    intro e he
    unfold Tolerated at he ⊢
    rwa [hregs] at he
  unfold Outcome at h ⊢
  rw [hregs] at h
  split at h
  · rename_i hx
    rw [if_pos hx, h]
  · rename_i hx
    rw [if_neg hx]
    exact Meets.mono h hP htol

theorem Outcome.invalid_iff (h : Outcome covered insn vm x P) :
    x = err .invalidInstruction ↔ unexecutable insn vm.regs = true := by
  unfold Outcome at h
  split at h
  · rename_i hx
    exact ⟨fun _ => hx, fun _ => h⟩
  · rename_i hx
    exact ⟨fun he => (Meets.error h he).elim, fun hu => absurd hu hx⟩

end Outcome

variable {maps : List MapRef} {limit : Nat} {covered : Prop} {insn : BpfInsn} {st : VerifierState}
  {vm : Vm}

theorem follows_put (h : Models maps st vm) {t : RegType} {v : VmValue} {len pc : Nat} (r : Nat)
    (hv : HasType vm.lookups.length t v) (hpc : vm.pc + len = pc) :
    Follows maps [(pc, st.put r t)] vm (vm.put r v len) :=
  ⟨_, List.mem_singleton.mpr rfl, hpc, h.put hv r len, rfl⟩

theorem nextPc_ldImm64 (h : insn.isLdImm64 = true) (pc : Nat) : pc + 2 = nextPc pc insn := by
  rw [nextPc, if_pos h]

theorem nextPc_other (h : insn.isLdImm64 = false) (pc : Nat) : pc + 1 = nextPc pc insn := by
  rw [nextPc, if_neg (by simp [h])]

theorem not_isLdImm64 (h : insn.cls ≠ BPF_LD) : insn.isLdImm64 = false := by
  cases hld : insn.isLdImm64 with
  | false => rfl
  | true => exact absurd (isLdImm64_cls insn hld) h

/-- The loop goes on with a machine modelled by a successor, or ends. -/
def Continues (maps : List MapRef) (succs : List (Nat × VerifierState)) (vm : Vm) :
    Vm ⊕ UInt64 → Prop
  | .inl vm' => Follows maps succs vm vm'
  | .inr _ => True

/-! ## LD_IMM64 -/

variable {E : BpfVmError → Prop} (insns : List BpfInsn)

theorem immHi_meets (vm : Vm) : Meets (immHi insns vm) (fun _ => True) E := by
  unfold immHi
  split
  · rename_i hlt
    rw [get_of_lt hlt]
    trivial
  · trivial

variable {mapIdx offset r : Nat} {t' : RegType}

theorem stepLd_map (hm : Models maps st vm) (hld : insn.isLdImm64 = true)
    (hsrc : insn.srcReg = BPF_PSEUDO_MAP_FD) (hdst : insn.dstReg ≤ 10)
    (hrel : insn.imm.toInt = mapIdx) : Meets (stepLd insns insn vm)
      (Puts maps insn st vm (.ptrMap mapIdx)) E := by
  have himm := imm_bounds insn
  rw [stepLd, if_pos hld, if_pos hsrc, hrel, asUsize_natCast (by omega), vm.setReg_eq hdst]
  exact follows_put hm _ .map (nextPc_ldImm64 hld _)

theorem stepLd_imm (hm : Models maps st vm)
    (hld : insn.isLdImm64 = true) (hsrc : insn.srcReg ≠ BPF_PSEUDO_MAP_FD)
    (hdst : insn.dstReg ≤ 10) : Meets (stepLd insns insn vm)
      (Puts maps insn st vm .scalar) E := by
  rw [stepLd, if_pos hld, if_neg hsrc]
  refine (immHi_meets insns vm).bind fun hi _ => ?_
  rw [vm.setReg_eq hdst]
  exact follows_put hm _ .scalar (nextPc_ldImm64 hld _)

/-! ## Arithmetic -/

theorem op_cases (insn : BpfInsn) : insn.op = BPF_ADD ∨ insn.op = BPF_SUB ∨ insn.op = BPF_MUL ∨
    insn.op = BPF_DIV ∨ insn.op = BPF_OR ∨ insn.op = BPF_AND ∨ insn.op = BPF_LSH ∨
    insn.op = BPF_RSH ∨ insn.op = BPF_NEG ∨ insn.op = BPF_MOD ∨ insn.op = BPF_XOR ∨
    insn.op = BPF_MOV ∨ insn.op = BPF_ARSH ∨ insn.op = BPF_END ∨ insn.op = 0xe0 ∨
    insn.op = 0xf0 := by
  unfold BpfInsn.op
  generalize insn.code = c
  revert c
  apply UInt8.forall_of_bitVec
  decide

theorem undefinedAlu_eq_true : undefinedAlu insn = true ↔ insn.op = 0xe0 ∨ insn.op = 0xf0 ∨
    (insn.op = BPF_END ∧ if insn.cls = BPF_ALU then insn.imm ≠ 16 ∧ insn.imm ≠ 32
      else insn.imm ≠ 64) := by
  unfold undefinedAlu
  by_cases hcls : insn.cls = BPF_ALU <;> simp [hcls, or_assoc]

theorem alu32_undefined (hcls : insn.cls = BPF_ALU) (h : undefinedAlu insn = true)
    (dst src : UInt32) : alu32 insn.op insn.imm dst src = err .invalidInstruction := by
  rcases undefinedAlu_eq_true.mp h with h | h | ⟨h, himm⟩
  · rw [h]
    rfl
  · rw [h]
    rfl
  · rw [if_pos hcls] at himm
    rw [h]
    change (if insn.imm = 16 then _ else if insn.imm = 32 then _ else _) = _
    rw [if_neg himm.1, if_neg himm.2]

theorem alu64_undefined (hcls : insn.cls ≠ BPF_ALU) (h : undefinedAlu insn = true)
    (dst src : UInt64) : alu64 insn.op insn.imm dst src = err .invalidInstruction := by
  rcases undefinedAlu_eq_true.mp h with h | h | ⟨h, himm⟩
  · rw [h]
    rfl
  · rw [h]
    rfl
  · rw [if_neg hcls] at himm
    rw [h]
    change (if insn.imm = 64 then _ else _) = _
    rw [if_neg himm]

/-- What an opcode with a meaning is not. -/
theorem defined_of_not_undefined (h : undefinedAlu insn = false) : insn.op ≠ 0xe0 ∧
    insn.op ≠ 0xf0 ∧ (insn.op = BPF_END → if insn.cls = BPF_ALU then insn.imm = 16 ∨ insn.imm = 32
      else insn.imm = 64) := by
  have hdef := fun hu => Bool.false_ne_true (h.symm.trans (undefinedAlu_eq_true.mpr hu))
  refine ⟨fun he => hdef (.inl he), fun he => hdef (.inr (.inl he)), fun hend => ?_⟩
  by_contra himm
  refine hdef (.inr (.inr ⟨hend, ?_⟩))
  split at himm
  · rename_i hcls
    rw [if_pos hcls]
    exact not_or.mp himm
  · rename_i hcls
    rw [if_neg hcls]
    exact himm

theorem alu32_meets (hcls : insn.cls = BPF_ALU) (hmov : insn.op ≠ BPF_MOV)
    (h : undefinedAlu insn = false) (dst src : UInt32) :
    Meets (alu32 insn.op insn.imm dst src) (fun _ => True) (Tolerated covered insn vm) := by
  obtain ⟨he0, hf0, hend⟩ := defined_of_not_undefined h
  repeat refine .ite (fun _ => trivial) fun _ => ?_
  refine .ite (fun _ => .ite (fun _ => trivial) fun _ => trivial) fun _ => ?_
  refine .ite (fun _ => .ite (fun _ => trivial) fun _ => trivial) fun _ => ?_
  repeat refine .ite (fun _ => trivial) fun _ => ?_
  refine .ite (fun he => .ite (fun _ => trivial) fun h16 => .ite (fun _ => trivial) fun h32 => ?_)
    fun _ => ?_
  · have himm := hend he
    rw [if_pos hcls] at himm
    rcases himm with himm | himm
    · exact absurd himm h16
    · exact absurd himm h32
  · -- no opcode is left
    have hop := op_cases insn
    tauto

theorem alu64_meets (hcls : insn.cls ≠ BPF_ALU) (hmov : insn.op ≠ BPF_MOV)
    (h : undefinedAlu insn = false) (dst src : UInt64) :
    Meets (alu64 insn.op insn.imm dst src) (fun _ => True) (Tolerated covered insn vm) := by
  obtain ⟨he0, hf0, hend⟩ := defined_of_not_undefined h
  repeat refine .ite (fun _ => trivial) fun _ => ?_
  refine .ite (fun _ => .ite (fun _ => trivial) fun _ => trivial) fun _ => ?_
  refine .ite (fun _ => .ite (fun _ => trivial) fun _ => trivial) fun _ => ?_
  repeat refine .ite (fun _ => trivial) fun _ => ?_
  refine .ite (fun he => .ite (fun _ => trivial) fun h64 => ?_) fun _ => ?_
  · have himm := hend he
    rw [if_neg hcls] at himm
    exact absurd himm h64
  · have hop := op_cases insn
    tauto

/-! ## Operands -/

theorem pointerIn_of_some (h : vm.regs[r]? = some v) : pointerIn vm.regs r = v.isPointer := by
  rw [pointerIn, h, Option.any_some]

theorem exists_of_pointerIn (h : pointerIn vm.regs r = true) :
    ∃ v, vm.regs[r]? = some v ∧ v.isPointer = true := by
  cases hv : vm.regs[r]? with
  | none => simp [pointerIn, hv] at h
  | some v => exact ⟨v, rfl, (pointerIn_of_some hv).symm.trans h⟩

theorem SrcScalar.init (h : SrcScalar insn st) : SrcInit insn st := by
  rcases h with h | h
  · exact .inl h
  · exact .inr ⟨_, h, nofun⟩

theorem SrcScalar.not_pointerSrc (h : SrcScalar insn st) (hm : Models maps st vm) :
    pointerSrc insn vm.regs = false := by
  unfold pointerSrc
  rcases h with h | h
  · rw [h]
    rfl
  · obtain ⟨v, hv, hty⟩ := hm.regs _ _ h
    rw [pointerIn_of_some hv, hty.isPointer_scalar, Bool.and_false]

/-- A second operand that is a pointer is refused. -/
theorem scalarReg_src_pointer (h : pointerSrc insn vm.regs = true) :
    insn.isSrcImm = false ∧ vm.scalarReg insn.srcReg = err .invalidInstruction := by
  unfold pointerSrc at h
  rw [Bool.and_eq_true, Bool.not_eq_true'] at h
  refine ⟨h.1, ?_⟩
  obtain ⟨v, hv, hp⟩ := exists_of_pointerIn h.2
  rw [Vm.scalarReg_of_some hv, asScalar_pointer hp]

section

variable (hm : Models maps st vm)

include hm

section
variable (hsrc : SrcInit insn st) (hp : pointerSrc insn vm.regs = false)
include hsrc hp

theorem scalarReg_src_ok (himm : insn.isSrcImm = false) :
    ∃ x, vm.scalarReg insn.srcReg = .ok x := by
  rcases hsrc with h | ⟨t, ht, hinit⟩
  · rw [himm] at h
    cases h
  · obtain ⟨v, hv, hty⟩ := hm.regs _ _ ht
    rw [pointerSrc, himm, pointerIn_of_some hv] at hp
    rw [Vm.scalarReg_of_some hv]
    exact hty.asScalar hinit (by simpa using hp)

theorem srcValue_ok : ∃ x, srcValue insn vm = .ok x := by
  unfold srcValue
  split
  · exact ⟨_, rfl⟩
  · rename_i himm
    exact scalarReg_src_ok hm hsrc hp (by simpa using himm)

theorem srcValue32_ok : ∃ x, srcValue32 insn vm = .ok x := by
  unfold srcValue32
  split
  · exact ⟨_, rfl⟩
  · rename_i himm
    obtain ⟨x, hx⟩ := scalarReg_src_ok hm hsrc hp (by simpa using himm)
    exact ⟨x.toUInt32, by rw [hx, ok_bind]⟩

end

/-! ## Moves -/

theorem stepAlu32_movImm
    (hmov : insn.op = BPF_MOV) (himm : insn.isSrcImm = true) (hdst : insn.dstReg ≤ 10)
    (hnext : OneSlot insn vm) :
    Meets (stepAlu32 insn vm) (Puts maps insn st vm .scalar) E := by
  rw [stepAlu32, if_pos hmov, srcValue32, if_pos himm, ok_bind, vm.setReg_eq hdst]
  exact follows_put hm _ .scalar hnext

omit hm in
theorem stepAlu64_movImm (checks : Bool) (hm : Models maps st vm)
    (hmov : insn.op = BPF_MOV) (himm : insn.isSrcImm = true) (hdst : insn.dstReg ≤ 10)
    (hnext : OneSlot insn vm) :
    Meets (stepAlu64 checks insn vm) (Puts maps insn st vm .scalar) E := by
  rw [stepAlu64, if_pos hmov, if_pos himm, vm.setReg_eq hdst]
  exact follows_put hm _ .scalar hnext

theorem stepAlu32_movReg (hcls : insn.cls = BPF_ALU)
    (hmov : insn.op = BPF_MOV) (himm : insn.isSrcImm = false)
    (hsrc : st.regs[insn.srcReg]? = some t) (hinit : t ≠ .notInit) (hdst : insn.dstReg ≤ 10)
    (hnext : OneSlot insn vm) :
    Outcome covered insn vm (stepAlu32 insn vm) (Puts maps insn st vm t) := by
  have hunexec : unexecutable insn vm.regs = pointerSrc insn vm.regs := by
    rw [unexecutable, if_pos hcls, if_pos hmov]
  have hstep : stepAlu32 insn vm = (do
      let x ← vm.scalarReg insn.srcReg
      vm.setReg insn.dstReg (.scalar x.toUInt32.toUInt64) 1) := by
    rw [stepAlu32, if_pos hmov, srcValue32, if_neg (by simp [himm])]
    cases vm.scalarReg insn.srcReg <;> rfl
  rw [hstep]
  cases hp : pointerSrc insn vm.regs with
  | true =>
    refine .invalid (hunexec.trans hp) ?_
    rw [(scalarReg_src_pointer hp).2, err_bind]
  | false =>
    refine .intro (hunexec.trans hp) ?_
    obtain ⟨v, hv, hty⟩ := hm.regs _ _ hsrc
    obtain ⟨x, hx⟩ := scalarReg_src_ok hm (.inr ⟨t, hsrc, hinit⟩) hp himm
    rw [hx, ok_bind, vm.setReg_eq hdst]
    rw [Vm.scalarReg_of_some hv] at hx
    exact follows_put hm _ (hty.truncate hx) hnext

omit hm in
theorem stepAlu64_movReg (checks : Bool) (hm : Models maps st vm)
    (hmov : insn.op = BPF_MOV) (himm : insn.isSrcImm = false)
    (hsrc : st.regs[insn.srcReg]? = some t) (hdst : insn.dstReg ≤ 10) (hnext : OneSlot insn vm) :
    Meets (stepAlu64 checks insn vm) (Puts maps insn st vm t) E := by
  obtain ⟨v, hv, hty⟩ := hm.regs _ _ hsrc
  rw [stepAlu64, if_pos hmov, if_neg (by simp [himm]), Vm.reg_of_some hv, ok_bind,
    vm.setReg_eq hdst]
  exact follows_put hm _ hty hnext

/-! ## Scalar arithmetic -/

section
variable (hmov : insn.op ≠ BPF_MOV) (hdst : st.regs[insn.dstReg]? = some .scalar)
  (hsrc : SrcScalar insn st) (hnext : OneSlot insn vm)
include hmov hdst hsrc hnext

theorem stepAlu32_scalar (hcls : insn.cls = BPF_ALU) :
    Outcome covered insn vm (stepAlu32 insn vm) (Puts maps insn st vm .scalar) := by
  obtain ⟨v, hv, hty⟩ := hm.regs _ _ hdst
  have hr := lt_of_reg hdst
  obtain ⟨x, hx⟩ := hty.asScalar nofun hty.isPointer_scalar
  obtain ⟨y, hy⟩ := srcValue32_ok hm hsrc.init (hsrc.not_pointerSrc hm)
  have hunexec : unexecutable insn vm.regs = undefinedAlu insn := by
    rw [unexecutable, if_pos hcls, if_neg hmov, pointerIn_of_some hv, hty.isPointer_scalar,
      hsrc.not_pointerSrc hm]
    rfl
  rw [stepAlu32, if_neg hmov, Vm.scalarReg_of_some hv, hx, ok_bind, hy, ok_bind]
  cases hu : undefinedAlu insn with
  | true =>
    refine .invalid (hunexec.trans hu) ?_
    rw [alu32_undefined hcls hu, err_bind]
  | false =>
    refine .intro (hunexec.trans hu) ((alu32_meets hcls hmov hu _ _).bind fun res _ => ?_)
    rw [vm.setReg_eq (by omega)]
    exact follows_put hm _ .scalar hnext

theorem scalarAlu64_outcome (hcls : insn.cls = BPF_ALU64) :
    Outcome covered insn vm (scalarAlu64 insn vm) (Puts maps insn st vm .scalar) := by
  have hne : insn.cls ≠ BPF_ALU := by
    rw [hcls]
    decide
  obtain ⟨v, hv, hty⟩ := hm.regs _ _ hdst
  have hr := lt_of_reg hdst
  obtain ⟨x, hx⟩ := hty.asScalar nofun hty.isPointer_scalar
  obtain ⟨y, hy⟩ := srcValue_ok hm hsrc.init (hsrc.not_pointerSrc hm)
  have hunexec : unexecutable insn vm.regs = undefinedAlu insn := by
    rw [unexecutable, if_neg hne, if_pos hcls]
  rw [scalarAlu64, Vm.scalarReg_of_some hv, hx, ok_bind, hy, ok_bind]
  cases hu : undefinedAlu insn with
  | true =>
    refine .invalid (hunexec.trans hu) ?_
    rw [alu64_undefined hne hu, err_bind]
  | false =>
    refine .intro (hunexec.trans hu) ((alu64_meets hne hmov hu _ _).bind fun res _ => ?_)
    rw [vm.setReg_eq (by omega)]
    exact follows_put hm _ .scalar hnext

theorem stepAlu64_scalar (checks : Bool) (hcls : insn.cls = BPF_ALU64) :
    Outcome covered insn vm (stepAlu64 checks insn vm) (Puts maps insn st vm .scalar) := by
  obtain ⟨v, hv, hty⟩ := hm.regs _ _ hdst
  rw [stepAlu64, if_neg hmov]
  split
  · rw [Vm.reg_of_some hv, ok_bind]
    cases hty with
    | scalar | null => exact scalarAlu64_outcome hm hmov hdst hsrc hnext hcls
  · exact scalarAlu64_outcome hm hmov hdst hsrc hnext hcls

end

end

variable (checks : Bool)

/-! ## Pointer arithmetic -/

theorem immU64_toInt (insn : BpfInsn) : (immU64 insn).toInt64.toInt = insn.imm.toInt := by
  simp [immU64]

theorem effDelta_eq (himm : insn.isSrcImm = true) :
    effDelta checks insn vm = .ok (movedOff insn 0) := by
  have hb := imm_bounds insn
  rw [effDelta, srcValue, if_pos himm, ok_bind]
  simp only [immU64_toInt]
  unfold movedOff
  split
  · rw [Int.zero_add]
  · rw [arith_of_fits ⟨by simp only [lo]; omega, by simp only [hi]; omega⟩, Int.zero_sub]

theorem movedOff_eq (insn : BpfInsn) (off : Int) : movedOff insn off = off + movedOff insn 0 := by
  unfold movedOff
  split <;> omega

theorem movedOff_bounds (insn : BpfInsn) :
    -2 ^ 31 ≤ movedOff insn 0 ∧ movedOff insn 0 ≤ 2 ^ 31 := by
  have hb := imm_bounds insn
  unfold movedOff
  split <;> omega

theorem moveOffset_eq (himm : insn.isSrcImm = true)
    (hoff : offset ≤ 65536) (hnew : 0 ≤ offset + movedOff insn 0) :
    moveOffset checks insn vm offset = .ok (offset + movedOff insn 0).toNat := by
  have hb := movedOff_bounds insn
  have hwrap : wrap .i64 offset = offset := by
    simp only [wrap]
    rw [Int.bmod_def]
    omega
  rw [moveOffset, effDelta_eq checks himm, ok_bind, hwrap,
    arith_of_fits ⟨by simp only [lo]; omega, by simp only [hi]; omega⟩, ok_bind,
    asUsize_of_nonneg hnew (by omega)]

theorem moveValueOffset_eq (hm : Models maps st vm) (himm : insn.isSrcImm = true)
    {m : MapRef} (hmap : maps[mapIdx]? = some m)
    (hnew : 0 ≤ offset + movedOff insn 0) (hle : offset + movedOff insn 0 ≤ m.spec.valueSize) :
    moveValueOffset checks insn vm mapIdx offset = .ok (offset + movedOff insn 0).toNat := by
  have hv := valueSize_lt m
  obtain ⟨map, hget, rfl⟩ := hm.getMap hmap
  have hle' : ¬ (offset + movedOff insn 0).toNat > map.spec.valueSize := by
    change (offset : Int) + movedOff insn 0 ≤ map.spec.valueSize at hle
    omega
  rw [moveValueOffset, effDelta_eq checks himm, ok_bind, checkedAddSigned,
    if_pos ⟨hnew, by omega⟩, okOr, ok_bind, hget, ok_bind, if_neg hle']

/-- Moving a pointer by a constant, in 64 bits. -/
theorem addSub64_move
    (hm : Models maps st vm) (ht : TypeOk maps limit t) (hlimit : limit ≤ 80)
    (himm : insn.isSrcImm = true) (hr : insn.dstReg ≤ 10) (hty : HasType vm.lookups.length t v)
    (hmoved : Moved maps limit insn t t') (hnext : OneSlot insn vm) :
    Meets (addSub64 checks insn vm v) (Puts maps insn st vm t') E := by
  have hS := stackSize_eq
  cases hmoved with
  | @stack off lo hi =>
    cases hty
    obtain ⟨h0, h1⟩ := ht
    rw [movedOff_eq] at lo hi ⊢
    have hnat : (((BPF_STACK_SIZE : Int) + off).toNat : Int) = BPF_STACK_SIZE + off :=
      Int.toNat_of_nonneg (by omega)
    rw [addSub64, moveOffset_eq checks himm (by omega) (by omega), ok_bind, vm.setReg_eq hr, hnat,
      Int.add_assoc]
    exact follows_put hm _ .stack hnext
  | @context off lo hi =>
    cases hty
    obtain ⟨h0, h1⟩ := ht
    rw [movedOff_eq] at lo hi ⊢
    have hnat : (off.toNat : Int) = off := Int.toNat_of_nonneg h0
    rw [addSub64, moveOffset_eq checks himm (by omega) (by omega), ok_bind, vm.setReg_eq hr, hnat]
    exact follows_put hm _ .context hnext
  | @value mapIdx off m map lo hi =>
    obtain ⟨_, -, h0, -⟩ := ht
    rw [movedOff_eq] at lo hi ⊢
    have hnat : (off.toNat : Int) = off := Int.toNat_of_nonneg h0
    cases hty with
    | arrayValue =>
      rw [addSub64, moveValueOffset_eq checks hm himm map (by omega) (by omega), ok_bind,
        vm.setReg_eq hr, hnat]
      exact follows_put hm _ .arrayValue hnext
    | hashValue lt =>
      rw [addSub64, moveValueOffset_eq checks hm himm map (by omega) (by omega), ok_bind,
        vm.setReg_eq hr, hnat]
      exact follows_put hm _ (.hashValue lt) hnext

theorem Moved.isPointer (h : Moved maps limit insn t t') (hty : HasType n t v) :
    v.isPointer = true := by
  cases h with
  | stack | context => cases hty; rfl
  | value => cases hty <;> rfl

theorem stepAlu32_move {P : Vm → Prop} (hm : Models maps st vm)
    (hcls : insn.cls = BPF_ALU) (hmov : insn.op ≠ BPF_MOV)
    (hdst : st.regs[insn.dstReg]? = some t) (hmoved : Moved maps limit insn t t') :
    Outcome covered insn vm (stepAlu32 insn vm) P := by
  obtain ⟨v, hv, hty⟩ := hm.regs _ _ hdst
  have hp := hmoved.isPointer hty
  refine .invalid ?_ ?_
  · rw [unexecutable, if_pos hcls, if_neg hmov, pointerIn_of_some hv, hp]
    rfl
  · rw [stepAlu32, if_neg hmov, Vm.scalarReg_of_some hv, asScalar_pointer hp, err_bind]

end PulseOS.Bpf
