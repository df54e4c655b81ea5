import PulseOS.Bpf.SimulationCalls

/-!
# One instruction of a modelled machine

* `takeJump_spec` — a comparison decides the refined type of the register it tests.
* `stepInsn_outcome` — an instruction that follows a rule, run on a modelled machine, leads to a
  machine modelled by a successor or fails in a tolerated way; it fails as an invalid instruction
  exactly if it is `unexecutable`.
-/

namespace PulseOS.Bpf

open Exec Outcome

variable {checks : Bool} {maps : List MapRef} {limit : Nat} {covered : Prop}
  {insns : List BpfInsn} {insn : BpfInsn} {st : VerifierState} {vm : Vm} {context : Bytes}
  {env : BpfEnv} {t : RegType} {v : VmValue} {n : Nat}

/-! ## Comparisons -/

theorem evalJumpCondition_cases (insn : BpfInsn) (du su : UInt64) (ds ss : Int64) :
    (undefinedJump insn = true → evalJumpCondition insn.op du su ds ss = err .invalidInstruction) ∧
      (undefinedJump insn = false → ∃ taken, evalJumpCondition insn.op du su ds ss = .ok taken) := by
  unfold undefinedJump
  rcases op_cases insn with hop | hop | hop | hop | hop | hop | hop | hop | hop | hop | hop |
    hop | hop | hop | hop | hop <;> rw [hop] <;>
    first
    | exact ⟨fun _ => rfl, fun h => absurd h (by decide)⟩
    | exact ⟨fun h => absurd h (by decide), fun _ => ⟨_, rfl⟩⟩

theorem refineNull_eq (h : ¬ (insn.isSrcImm = true ∧ insn.imm = 0)) (t : RegType) :
    refineNull insn t = (t, t) := by
  cases t <;> simp [refineNull, h]

/-- The type of the tested register once the jump is decided. -/
def refined (insn : BpfInsn) (t : RegType) (taken : Bool) : RegType :=
  if taken then (refineNull insn t).2 else (refineNull insn t).1

/-- Zero is compared as a number. -/
theorem compareScalars_zero {taken : Bool} {mapIdx : Nat} {off : Int}
    (hzero : insn.isSrcImm = true ∧ insn.imm = 0) (h : compareScalars insn 0 0 = .ok taken) :
    HasType n (refined insn (.ptrMapValue mapIdx off false) taken) (.scalar 0) := by
  unfold refined refineNull
  simp only [if_pos hzero]
  by_cases hne : insn.op = BPF_JNE
  · rw [compareScalars, hne] at h
    simp only [hne, if_pos]
    have htaken : taken = false := by
      cases h
      simp
    rw [htaken]
    exact .scalar
  · by_cases heq : insn.op = BPF_JEQ
    · rw [compareScalars, heq] at h
      rw [if_neg hne, if_pos heq]
      have htaken : taken = true := by
        cases h
        simp
      rw [htaken]
      exact .scalar
    · rw [if_neg hne, if_neg heq, ite_self]
      exact .zeroValue

/-- A test of a value against null, decided by whether the value is a pointer. -/
def nullTest (insn : BpfInsn) (isNull : Bool) : Exec BpfVmError Bool :=
  if insn.op = BPF_JEQ then .ok isNull
  else if insn.op = BPF_JNE then .ok (!isNull)
  else err .invalidInstruction

theorem nullTest_spec (isNull : Bool) {P : Bool → Prop} (heq : insn.op = BPF_JEQ → P isNull)
    (hne : insn.op = BPF_JNE → P !isNull) :
    if (!(insn.op == BPF_JEQ || insn.op == BPF_JNE)) = true
    then nullTest insn isNull = err .invalidInstruction
    else ∃ taken, nullTest insn isNull = .ok taken ∧ P taken := by
  unfold nullTest
  by_cases he : insn.op = BPF_JEQ
  · rw [if_neg (by simp [he]), if_pos he]
    exact ⟨_, rfl, heq he⟩
  · rw [if_neg he]
    by_cases hn : insn.op = BPF_JNE
    · rw [if_neg (by simp [hn]), if_pos hn]
      exact ⟨_, rfl, hne hn⟩
    · rw [if_pos (by simp [he, hn]), if_neg hn]

theorem compareScalars_spec (dst src : UInt64) {P : Bool → Prop}
    (h : ∀ taken, compareScalars insn dst src = .ok taken → P taken) :
    if undefinedJump insn = true then compareScalars insn dst src = err .invalidInstruction
    else ∃ taken, compareScalars insn dst src = .ok taken ∧ P taken := by
  have heval := evalJumpCondition_cases insn (unsignedOperand insn dst) (unsignedOperand insn src)
    (signedOperand insn dst) (signedOperand insn src)
  cases hu : undefinedJump insn with
  | true => exact heval.1 hu
  | false =>
    obtain ⟨taken, ht⟩ := heval.2 hu
    exact ⟨taken, ht, h taken ht⟩

/-- **A test against null** refines the register it tests. -/
theorem compareZero_spec (hty : HasType n t v) (hinit : t ≠ .notInit)
    (hzero : insn.isSrcImm = true ∧ insn.imm = 0) :
    if undefinedNullTest insn v = true then compareZero insn v = err .invalidInstruction
    else ∃ taken, compareZero insn v = .ok taken ∧ HasType n (refined insn t taken) v := by
  have hvalue : ∀ (mapIdx : Nat) (off : Int) (nullChecked : Bool),
      (insn.op = BPF_JEQ → refineNull insn (.ptrMapValue mapIdx off nullChecked) =
        (.ptrMapValue mapIdx off true, .scalar)) ∧
      (insn.op = BPF_JNE → refineNull insn (.ptrMapValue mapIdx off nullChecked) =
        (.scalar, .ptrMapValue mapIdx off true)) := by
    intro mapIdx off nullChecked
    constructor
    · intro he
      have hne : insn.op ≠ BPF_JNE := by
        rw [he]
        decide
      simp only [refineNull]
      rw [if_pos hzero, if_neg hne, if_pos he]
    · intro hn
      simp only [refineNull]
      rw [if_pos hzero, if_pos hn]
  cases hty with
  | notInit => exact absurd rfl hinit
  | scalar =>
    refine compareScalars_spec _ _ fun taken _ => ?_
    cases taken <;> exact .scalar
  | null => exact nullTest_spec true (fun _ => .null) fun _ => .null
  | context | stack | map => exact rfl
  | arrayValue =>
    refine nullTest_spec false (fun he => ?_) fun hn => ?_
    · rw [refined, ((hvalue _ _ _).1 he)]
      exact .arrayValue
    · rw [refined, ((hvalue _ _ _).2 hn)]
      exact .arrayValue
  | hashValue lt =>
    refine nullTest_spec false (fun he => ?_) fun hn => ?_
    · rw [refined, ((hvalue _ _ _).1 he)]
      exact .hashValue lt
    · rw [refined, ((hvalue _ _ _).2 hn)]
      exact .hashValue lt
  | nullValue =>
    refine nullTest_spec true (fun he => ?_) fun hn => ?_
    · rw [refined, ((hvalue _ _ _).1 he)]
      exact .null
    · rw [refined, ((hvalue _ _ _).2 hn)]
      exact .null
  | zeroValue => exact compareScalars_spec _ _ fun taken h => compareScalars_zero hzero h

/-- **The comparison of a conditional jump.** -/
theorem takeJump_spec (hm : Models maps st vm) (hv : vm.regs[insn.dstReg]? = some v)
    (hty : HasType vm.lookups.length t v) (hinit : t ≠ .notInit) (hsrc : SrcInit insn st) :
    if undefinedComparison insn vm.regs = true then takeJump insn vm = err .invalidInstruction
    else ∃ taken, takeJump insn vm = .ok taken ∧
      HasType vm.lookups.length (refined insn t taken) v := by
  unfold undefinedComparison takeJump
  by_cases hzero : insn.isSrcImm = true ∧ insn.imm = 0
  · rw [if_pos hzero, if_pos hzero, hv, Option.any_some, Vm.reg_of_some hv, ok_bind]
    exact compareZero_spec hty hinit hzero
  · rw [if_neg hzero, if_neg hzero, pointerIn_of_some hv, Vm.scalarReg_of_some hv]
    have hkeep : ∀ taken, refined insn t taken = t := by
      intro taken
      rw [refined, refineNull_eq hzero]
      exact ite_self _
    cases hp : v.isPointer with
    | true =>
      rw [asScalar_pointer hp]
      rfl
    | false =>
      obtain ⟨x, hx⟩ := hty.asScalar hinit hp
      rw [hx, ok_bind]
      cases hps : pointerSrc insn vm.regs with
      | true =>
        obtain ⟨himm, hscalar⟩ := scalarReg_src_pointer hps
        have hrefused : srcValue insn vm = err .invalidInstruction := by
          rw [srcValue, if_neg (by simp [himm]), hscalar]
        rw [hrefused]
        rfl
      | false =>
        obtain ⟨y, hy⟩ := srcValue_ok hm hsrc hps
        rw [hy, ok_bind]
        refine compareScalars_spec x y fun taken _ => ?_
        rw [hkeep]
        exact hty

/-! ## Jumps -/

/-- A value of a sharper type refines the state. -/
theorem Models.retype (hm : Models maps st vm) {r : Nat} (hv : vm.regs[r]? = some v)
    (hty : HasType vm.lookups.length t v) : Models maps (st.put r t) vm where
  regs := fun i u hu => by
    rcases VerifierState.put_regs hu with ⟨rfl, rfl⟩ | ⟨-, hu⟩
    · exact ⟨v, hv, hty⟩
    · exact hm.regs i u hu
  stack := hm.stack
  maps := hm.maps
  keys := hm.keys

theorem unexecutable_jmp (h : insn.cls = BPF_JMP ∨ insn.cls = BPF_JMP32)
    (regs : Vector VmValue 11) : unexecutable insn regs =
      (!(insn.isExit || insn.isJa || insn.isCall) && undefinedComparison insn regs) := by
  unfold unexecutable
  rw [if_neg, if_neg, if_neg, if_pos h] <;> rcases h with h | h <;> rw [h] <;> decide

theorem stepCondJump_outcome (hm : Models maps st vm)
    (hcls : insn.cls = BPF_JMP ∨ insn.cls = BPF_JMP32) (hexit : insn.isExit = false)
    (hja : insn.isJa = false) (hcall : insn.isCall = false)
    (hdst : st.regs[insn.dstReg]? = some t) (hinit : t ≠ .notInit) (hsrc : SrcInit insn st)
    (hnext : OneSlot insn vm) :
    Outcome covered insn vm (stepCondJump insn vm)
      (Follows maps [(nextPc vm.pc insn, st.put insn.dstReg (refineNull insn t).1),
        (jumpTarget vm.pc insn, st.put insn.dstReg (refineNull insn t).2)] vm) := by
  obtain ⟨v, hv, hty⟩ := hm.regs _ _ hdst
  have hunexec : unexecutable insn vm.regs = undefinedComparison insn vm.regs := by
    rw [unexecutable_jmp hcls, hexit, hja, hcall]
    rfl
  have hjump := takeJump_spec hm hv hty hinit hsrc
  cases hu : undefinedComparison insn vm.regs with
  | true =>
    rw [if_pos hu] at hjump
    refine .invalid (hunexec.trans hu) ?_
    rw [stepCondJump, hjump, err_bind]
  | false =>
    rw [if_neg (by simp [hu])] at hjump
    obtain ⟨taken, htaken, hty'⟩ := hjump
    refine .intro (hunexec.trans hu) ?_
    rw [stepCondJump, htaken, ok_bind]
    cases taken with
    | true =>
      exact ⟨_, List.mem_cons_of_mem _ (List.mem_singleton.mpr rfl), rfl,
        (hm.retype hv hty').jump _, rfl⟩
    | false =>
      exact ⟨_, List.mem_cons_self, hnext, (hm.retype hv hty').jump _, rfl⟩

/-! ## Pointer arithmetic in 64 bits -/

theorem stepAlu64_move {t' : RegType} (hm : Models maps st vm) (ht : TypeOk maps limit t)
    (hlimit : limit ≤ 80) (hcls : insn.cls = BPF_ALU64)
    (hop : insn.op = BPF_ADD ∨ insn.op = BPF_SUB) (himm : insn.isSrcImm = true)
    (hdst : st.regs[insn.dstReg]? = some t) (hmoved : Moved maps limit insn t t')
    (hnext : OneSlot insn vm) :
    Outcome covered insn vm (stepAlu64 checks insn vm) (Puts maps insn st vm t') := by
  obtain ⟨v, hv, hty⟩ := hm.regs _ _ hdst
  have hr := VerifierState.lt_of_reg hdst
  have hmov : insn.op ≠ BPF_MOV := by
    rcases hop with h | h <;> rw [h] <;> decide
  have hunexec : unexecutable insn vm.regs = false := by
    have hdef : undefinedAlu insn = false := by
      unfold undefinedAlu
      rcases hop with h | h <;> rw [h] <;> rfl
    rw [unexecutable, if_neg (by rw [hcls]; decide), if_pos hcls, hdef]
  refine .intro hunexec ?_
  rw [stepAlu64, if_neg hmov, if_pos hop, Vm.reg_of_some hv, ok_bind]
  exact addSub64_move checks hm ht hlimit himm (by omega) hty hmoved hnext

/-! ## Instructions -/

section Dispatch

variable (checks insns context env vm)

theorem stepInsn_ld (h : insn.cls = BPF_LD) : stepInsn checks insns context env insn vm =
    stepLd insns insn vm >>= fun vm => .ok (.inl vm) := by
  rw [stepInsn, h]
  rfl

theorem stepInsn_alu (h : insn.cls = BPF_ALU) : stepInsn checks insns context env insn vm =
    stepAlu32 insn vm >>= fun vm => .ok (.inl vm) := by
  rw [stepInsn, h]
  rfl

theorem stepInsn_alu64 (h : insn.cls = BPF_ALU64) : stepInsn checks insns context env insn vm =
    stepAlu64 checks insn vm >>= fun vm => .ok (.inl vm) := by
  rw [stepInsn, h]
  rfl

theorem stepInsn_ldx (h : insn.cls = BPF_LDX) : stepInsn checks insns context env insn vm =
    stepLdx checks context insn vm >>= fun vm => .ok (.inl vm) := by
  rw [stepInsn, h]
  rfl

theorem stepInsn_st (h : insn.cls = BPF_ST ∨ insn.cls = BPF_STX) :
    stepInsn checks insns context env insn vm =
      stepSt checks insn vm >>= fun vm => .ok (.inl vm) := by
  rw [stepInsn]
  rcases h with h | h <;> rw [h] <;> rfl

theorem stepInsn_jmp (h : insn.cls = BPF_JMP ∨ insn.cls = BPF_JMP32) :
    stepInsn checks insns context env insn vm = stepJmp checks context env insn vm := by
  rw [stepInsn]
  rcases h with h | h <;> rw [h] <;> rfl

end Dispatch

theorem isExit_cls (h : insn.isExit = true) : insn.cls = BPF_JMP := by
  rw [BpfInsn.cls, beq_iff_eq.mp h]
  decide

theorem isJa_cls (h : insn.isJa = true) : insn.cls = BPF_JMP := by
  rw [BpfInsn.cls, beq_iff_eq.mp h]
  decide

theorem isCall_cls (h : insn.isCall = true) : insn.cls = BPF_JMP := by
  rw [BpfInsn.cls, beq_iff_eq.mp h]
  decide

theorem unexecutable_ld (h : insn.cls = BPF_LD) (regs : Vector VmValue 11) :
    unexecutable insn regs = false := by
  unfold unexecutable
  rw [h]
  rfl

/-- Moves in 64 bits are executable whatever they move. -/
theorem unexecutable_mov64 (h : insn.cls = BPF_ALU64) (hmov : insn.op = BPF_MOV)
    (regs : Vector VmValue 11) : unexecutable insn regs = false := by
  rw [unexecutable, if_neg (by rw [h]; decide), if_pos h, undefinedAlu, hmov]
  rfl

theorem unexecutable_movImm32 (h : insn.cls = BPF_ALU) (hmov : insn.op = BPF_MOV)
    (himm : insn.isSrcImm = true) (regs : Vector VmValue 11) : unexecutable insn regs = false := by
  rw [unexecutable, if_pos h, if_pos hmov, pointerSrc, himm]
  rfl

theorem tolerated_helperErrors (h : insn.cls = BPF_JMP) (vm : Vm) :
    HelperErrors (Tolerated covered insn vm) where
  failed := fun _ => trivial
  bounds := by
    unfold Tolerated throughStackOrContext
    rw [h]
    exact fun _ => rfl

/-- **One instruction.** -/
theorem stepInsn_outcome {succs : List (Nat × VerifierState)} (checks : Bool)
    (insns : List BpfInsn) (context : Bytes) (env : BpfEnv) (hm : Models maps st vm)
    (hst : StateOk maps limit st) (hrule : AbsStep maps limit vm.pc insn st succs)
    (hlimit : limit ≤ 80) (hctx : covered → limit ≤ context.length) :
    Outcome covered insn vm (stepInsn checks insns context env insn vm) (Continues maps succs vm) := by
  -- a successor of an arithmetic or memory instruction is the next instruction
  have hone : insn.cls ≠ BPF_LD → vm.pc + 1 = nextPc vm.pc insn := fun h =>
    nextPc_other (not_isLdImm64 h) _
  have halu : insn.cls = BPF_ALU ∨ insn.cls = BPF_ALU64 → vm.pc + 1 = nextPc vm.pc insn :=
    fun h => hone (by rcases h with h | h <;> rw [h] <;> decide)
  have hjmp : insn.cls = BPF_JMP ∨ insn.cls = BPF_JMP32 → vm.pc + 1 = nextPc vm.pc insn :=
    fun h => hone (by rcases h with h | h <;> rw [h] <;> decide)
  cases hrule with
  | ldMap ld src dst relocated map =>
    have hcls := isLdImm64_cls insn ld
    rw [stepInsn_ld _ _ _ _ _ hcls]
    exact (intro (unexecutable_ld hcls _)
      (stepLd_map insns hm ld src dst relocated)).map fun _ h => h
  | ldImm ld src dst =>
    have hcls := isLdImm64_cls insn ld
    rw [stepInsn_ld _ _ _ _ _ hcls]
    exact (intro (unexecutable_ld hcls _) (stepLd_imm insns hm ld src dst)).map fun _ h => h
  | movImm cls op imm dst =>
    have hnext := halu cls
    rcases cls with cls | cls
    · rw [stepInsn_alu _ _ _ _ _ cls]
      exact (intro (unexecutable_movImm32 cls op imm _)
        (stepAlu32_movImm hm op imm dst hnext)).map fun _ h => h
    · rw [stepInsn_alu64 _ _ _ _ _ cls]
      exact (intro (unexecutable_mov64 cls op _)
        (stepAlu64_movImm checks hm op imm dst hnext)).map fun _ h => h
  | movReg cls op imm src init dst =>
    have hnext := halu cls
    rcases cls with cls | cls
    · rw [stepInsn_alu _ _ _ _ _ cls]
      exact (stepAlu32_movReg hm cls op imm src init dst hnext).map fun _ h => h
    · rw [stepInsn_alu64 _ _ _ _ _ cls]
      exact (intro (unexecutable_mov64 cls op _)
        (stepAlu64_movReg checks hm op imm src dst hnext)).map fun _ h => h
  | alu cls op dst src =>
    have hnext := halu cls
    rcases cls with cls | cls
    · rw [stepInsn_alu _ _ _ _ _ cls]
      exact (stepAlu32_scalar hm op dst src hnext cls).map fun _ h => h
    · rw [stepInsn_alu64 _ _ _ _ _ cls]
      exact (stepAlu64_scalar hm op dst src hnext checks cls).map fun _ h => h
  | move cls op imm dst moved =>
    have hnext := halu cls
    rcases cls with cls | cls
    · have hmov : insn.op ≠ BPF_MOV := by
        rcases op with h | h <;> rw [h] <;> decide
      rw [stepInsn_alu _ _ _ _ _ cls]
      exact (stepAlu32_move hm cls hmov dst moved).map fun _ h => h
    · rw [stepInsn_alu64 _ _ _ _ _ cls]
      exact (stepAlu64_move hm (hst _ _ dst) hlimit cls op imm dst moved hnext).map fun _ h => h
  | load cls dst width src loadable =>
    rw [stepInsn_ldx _ _ _ _ _ cls]
    exact (stepLdx_outcome hm (hst _ _ src) hlimit hctx cls dst width src loadable
      (hone (by rw [cls]; decide))).map fun _ h => h
  | store cls width dst src stored =>
    rw [stepInsn_st _ _ _ _ _ cls]
    exact (stepSt_outcome hm (hst _ _ dst) cls width dst src stored
      (hone (by rcases cls with h | h <;> rw [h] <;> decide))).map fun _ h => h
  | exit exit r0 =>
    have hcls := isExit_cls exit
    obtain ⟨x, hx⟩ := scalarArg_ok hm r0
    refine .intro (by rw [unexecutable_jmp (.inl hcls), exit]; rfl) ?_
    rw [stepInsn_jmp _ _ _ _ _ (.inl hcls), stepJmp, if_pos exit, hx, ok_bind]
    trivial
  | ja exit ja =>
    have hcls := isJa_cls ja
    refine .intro (by rw [unexecutable_jmp (.inl hcls), exit, ja]; rfl) ?_
    rw [stepInsn_jmp _ _ _ _ _ (.inl hcls), stepJmp, if_neg (by simp [exit]), if_pos ja]
    exact ⟨_, List.mem_singleton.mpr rfl, rfl, hm.jump _, rfl⟩
  | call exit ja call ok =>
    have hcls := isCall_cls call
    refine .intro (by rw [unexecutable_jmp (.inl hcls), exit, ja, call]; rfl) ?_
    rw [stepInsn_jmp _ _ _ _ _ (.inl hcls), stepJmp, if_neg (by simp [exit]),
      if_neg (by simp [ja]), if_pos call]
    exact (stepCall_meets (tolerated_helperErrors hcls vm) env hm ok (hjmp (.inl hcls))).bind
      fun _ h => h
  | branch cls exit ja call dst init src =>
    rw [stepInsn_jmp _ _ _ _ _ cls, stepJmp, if_neg (by simp [exit]), if_neg (by simp [ja]),
      if_neg (by simp [call])]
    exact (stepCondJump_outcome hm cls exit ja call dst init src (hjmp cls)).map fun _ h => h

end PulseOS.Bpf
