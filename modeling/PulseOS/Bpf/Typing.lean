import PulseOS.Bpf.Verifier

/-!
# Typing rules of verified programs

What pass 2 of the verifier checks, as rules: when an instruction may run in an abstract state,
and which states can follow.  The rules say nothing about evaluation order, error messages or
machine arithmetic.

* `AbsStep` — one rule for each way an instruction is accepted.
* `AbsStep.stateOk` — the rules preserve `StateOk`.
-/

namespace PulseOS.Bpf

/-! ## Register types -/

variable (maps : List MapRef) (limit : Nat)

/-- The pointers of type `t` stay inside the context, the stack or a value of a known map. -/
def TypeOk : RegType → Prop
  | .notInit => True
  | .scalar => True
  | .ptrContext off => 0 ≤ off ∧ off ≤ limit
  | .ptrStack off => -BPF_STACK_SIZE ≤ off ∧ off ≤ 0
  | .ptrMap mapIdx => mapIdx < maps.length
  | .ptrMapValue mapIdx off _ =>
    ∃ m, maps[mapIdx]? = some m ∧ 0 ≤ off ∧ off ≤ m.spec.valueSize

def StateOk (st : VerifierState) : Prop :=
  ∀ (r : Nat) (t : RegType), st.regs[r]? = some t → TypeOk maps limit t

theorem typeOk_notInit : TypeOk maps limit .notInit := trivial

theorem typeOk_scalar : TypeOk maps limit .scalar := trivial

variable {maps maps' : List MapRef} {st : VerifierState} {limit : Nat} {t : RegType}

theorem getElem?_of_isPrefix (h : maps <+: maps') {i : Nat} {m : MapRef} (hm : maps[i]? = some m) :
    maps'[i]? = some m := by
  obtain ⟨rest, rfl⟩ := h
  rw [List.getElem?_append_left (List.getElem?_eq_some_iff.mp hm).1]
  exact hm

theorem TypeOk.mono (h : TypeOk maps limit t) (hmaps : maps <+: maps') : TypeOk maps' limit t := by
  match t, h with
  | .notInit, _ => trivial
  | .scalar, _ => trivial
  | .ptrContext _, h => exact h
  | .ptrStack _, h => exact h
  | .ptrMap _, h => exact lt_of_lt_of_le h hmaps.length_le
  | .ptrMapValue _ _ _, ⟨m, hm, hoff⟩ => exact ⟨m, getElem?_of_isPrefix hmaps hm, hoff⟩

theorem StateOk.mono (h : StateOk maps limit st) (hmaps : maps <+: maps') :
    StateOk maps' limit st :=
  fun r t ht => (h r t ht).mono hmaps

namespace VerifierState

/-- `st` with register `r` of type `t`. -/
def put (st : VerifierState) (r : Nat) (t : RegType) : VerifierState :=
  { st with regs := st.regs.setIfInBounds r t }

variable {st : VerifierState} {r : Nat} {t : RegType}

theorem put_regs {i : Nat} {u : RegType} (h : (st.put r t).regs[i]? = some u) :
    (r = i ∧ u = t) ∨ (r ≠ i ∧ st.regs[i]? = some u) := by
  simp only [put, Vector.getElem?_setIfInBounds] at h
  split at h
  · rename_i he
    split at h
    · cases h
      exact .inl ⟨he, rfl⟩
    · cases h
  · rename_i he
    exact .inr ⟨he, h⟩

@[simp] theorem put_stackInit : (st.put r t).stackInit = st.stackInit := rfl

theorem lt_of_reg (h : st.regs[r]? = some t) : r < 11 := (Vector.getElem?_eq_some_iff.mp h).1

def afterCall (st : VerifierState) (r0 : RegType) : VerifierState :=
  (((((st.put BPF_REG_1 .notInit).put BPF_REG_2 .notInit).put BPF_REG_3 .notInit).put
    BPF_REG_4 .notInit).put BPF_REG_5 .notInit).put BPF_REG_0 r0

end VerifierState

variable {maps : List MapRef} {r0 : RegType}

theorem StateOk.put (h : StateOk maps limit st) (ht : TypeOk maps limit t) (r : Nat) :
    StateOk maps limit (st.put r t) := by
  intro i u hu
  rcases VerifierState.put_regs hu with ⟨-, rfl⟩ | ⟨-, hu⟩
  · exact ht
  · exact h i u hu

theorem StateOk.afterCall (h : StateOk maps limit st) (h0 : TypeOk maps limit r0) :
    StateOk maps limit (st.afterCall r0) := by
  have hn := typeOk_notInit maps limit
  exact (((((h.put hn _).put hn _).put hn _).put hn _).put hn _).put h0 _

theorem initial_stateOk (maps : List MapRef) (limit : Nat) :
    StateOk maps limit VerifierState.initial := by
  intro r t h
  obtain ⟨hr, rfl⟩ := Vector.getElem?_eq_some_iff.mp h
  simp only [VerifierState.initial, Vector.getElem_set, Vector.getElem_replicate]
  split
  · simp [TypeOk]
  · split <;> simp [TypeOk]

/-! ## Operands -/

/-- The offset after `BPF_ADD` or `BPF_SUB` of the immediate. -/
def movedOff (insn : BpfInsn) (off : Int) : Int :=
  if insn.op = BPF_ADD then off + insn.imm.toInt else off - insn.imm.toInt

variable (maps : List MapRef) (limit : Nat) (st : VerifierState)

/-- Pointer arithmetic that stays inside what the pointer points to. -/
inductive Moved (insn : BpfInsn) : RegType → RegType → Prop
  | stack {off : Int} (lo : -BPF_STACK_SIZE ≤ movedOff insn off) (hi : movedOff insn off ≤ 0) :
    Moved insn (.ptrStack off) (.ptrStack (movedOff insn off))
  | context {off : Int} (lo : 0 ≤ movedOff insn off) (hi : movedOff insn off ≤ limit) :
    Moved insn (.ptrContext off) (.ptrContext (movedOff insn off))
  | value {mapIdx : Nat} {off : Int} {m : MapRef} (map : maps[mapIdx]? = some m)
    (lo : 0 ≤ movedOff insn off) (hi : movedOff insn off ≤ m.spec.valueSize) :
    Moved insn (.ptrMapValue mapIdx off true)
      (.ptrMapValue mapIdx (movedOff insn off) true)

/-- `size` initialized bytes of the stack at `off`. -/
structure StackBytes (off : Int) (size : Nat) : Prop where
  lo : -BPF_STACK_SIZE ≤ off
  hi : off + size ≤ 0
  init : ∀ b < size, st.stackInit[(BPF_STACK_SIZE + off).toNat + b]? = some true

/-- A pointer a load of `size` bytes with displacement `disp` may go through. -/
inductive Loadable (disp : Int) (size : Nat) : RegType → Prop
  | context {off : Int} (lo : 0 ≤ off + disp) (hi : off + disp + size ≤ limit)
    (aligned : (off + disp) % size = 0) : Loadable disp size (.ptrContext off)
  | stack {off : Int} (bytes : StackBytes st (off + disp) size) : Loadable disp size (.ptrStack off)
  | value {mapIdx : Nat} {off : Int} {m : MapRef} (map : maps[mapIdx]? = some m)
    (lo : 0 ≤ off + disp) (hi : off + disp + size ≤ m.spec.valueSize) :
    Loadable disp size (.ptrMapValue mapIdx off true)

/-- `st` with `size` bytes of the stack at `off` initialized. -/
def Initialized (off : Int) (size : Nat) (st' : VerifierState) : Prop :=
  st'.regs = st.regs ∧ ∀ i (h : i < BPF_STACK_SIZE), st'.stackInit[i] =
    if (BPF_STACK_SIZE + off).toNat ≤ i ∧ i < (BPF_STACK_SIZE + off).toNat + size then true
    else st.stackInit[i]

/-- A store of `size` bytes with displacement `disp` through a pointer, and the state after it. -/
inductive Stored (disp : Int) (size : Nat) : RegType → VerifierState → Prop
  | stack {off : Int} {st' : VerifierState} (lo : -BPF_STACK_SIZE ≤ off + disp)
    (hi : off + disp + size ≤ 0) (init : Initialized st (off + disp) size st') :
    Stored disp size (.ptrStack off) st'
  | value {mapIdx : Nat} {off : Int} {m : MapRef} (map : maps[mapIdx]? = some m)
    (lo : 0 ≤ off + disp) (hi : off + disp + size ≤ m.spec.valueSize) :
    Stored disp size (.ptrMapValue mapIdx off true) st

/-! ## Helper calls -/

/-- Register `r` holds the map `m`. -/
def MapIn (r mapIdx : Nat) (m : MapRef) : Prop :=
  st.regs[r]? = some (.ptrMap mapIdx) ∧ maps[mapIdx]? = some m

/-- R2 points to an initialized key. -/
def KeyIn (m : MapRef) : Prop :=
  ∃ off, st.regs[BPF_REG_2]? = some (.ptrStack off) ∧ StackBytes st off m.spec.keySize

/-- R3 points to an initialized value, or to a value in some map. -/
inductive ValueIn (m : MapRef) : Prop
  | stack {off : Int} (reg : st.regs[BPF_REG_3]? = some (.ptrStack off))
    (bytes : StackBytes st off m.spec.valueSize)
  | value {mapIdx : Nat} {off : Int} (reg : st.regs[BPF_REG_3]? = some (.ptrMapValue mapIdx off true))

/-- Register `r` points to memory an output helper may read; the context only if `context`. -/
inductive DataIn (r : Nat) (context : Bool) : Prop
  | stack {off : Int} (reg : st.regs[r]? = some (.ptrStack off))
  | value {mapIdx : Nat} {off : Int} (reg : st.regs[r]? = some (.ptrMapValue mapIdx off true))
  | context {off : Int} (reg : st.regs[r]? = some (.ptrContext off)) (allowed : context = true)

/-- The helper calls that are accepted, with the type of their result. -/
inductive CallOk : Int32 → RegType → Prop
  | lookup {mapIdx : Nat} {m : MapRef} (map : MapIn maps st BPF_REG_1 mapIdx m) (key : KeyIn st m) :
    CallOk BPF_FUNC_MAP_LOOKUP_ELEM (.ptrMapValue mapIdx 0 false)
  | update {mapIdx : Nat} {m : MapRef} (map : MapIn maps st BPF_REG_1 mapIdx m)
    (writable : ¬ m.spec.RdonlyProg) (key : KeyIn st m) (value : ValueIn st m)
    (flags : st.regs[BPF_REG_4]? = some .scalar) : CallOk BPF_FUNC_MAP_UPDATE_ELEM .scalar
  | delete {mapIdx : Nat} {m : MapRef} (map : MapIn maps st BPF_REG_1 mapIdx m)
    (deletable : m.spec.mapType ≠ .array) (writable : ¬ m.spec.RdonlyProg) (key : KeyIn st m) :
    CallOk BPF_FUNC_MAP_DELETE_ELEM .scalar
  | ktime : CallOk BPF_FUNC_KTIME_GET_NS .scalar
  | processorId : CallOk BPF_FUNC_GET_SMP_PROCESSOR_ID .scalar
  | perfEventOutput {mapIdx : Nat} {m : MapRef} (map : MapIn maps st BPF_REG_2 mapIdx m)
    (type : m.spec.mapType = .perfEventArray) (flags : st.regs[BPF_REG_3]? = some .scalar)
    (data : DataIn st BPF_REG_4 false) (size : st.regs[BPF_REG_5]? = some .scalar) :
    CallOk BPF_FUNC_PERF_EVENT_OUTPUT .scalar
  | ringbufOutput {mapIdx : Nat} {m : MapRef} (map : MapIn maps st BPF_REG_1 mapIdx m)
    (type : m.spec.mapType = .ringBuf) (data : DataIn st BPF_REG_2 true)
    (size : st.regs[BPF_REG_3]? = some .scalar) (flags : st.regs[BPF_REG_4]? = some .scalar) :
    CallOk BPF_FUNC_RINGBUF_OUTPUT .scalar

/-! ## Instructions -/

variable (pc : Nat) (insn : BpfInsn) (st : VerifierState)

/-- The second operand is an immediate or an initialized register. -/
def SrcInit : Prop :=
  insn.isSrcImm = true ∨ ∃ t, st.regs[insn.srcReg]? = some t ∧ t ≠ .notInit

/-- The second operand is an immediate or a scalar. -/
def SrcScalar : Prop :=
  insn.isSrcImm = true ∨ st.regs[insn.srcReg]? = some .scalar

/-- The instructions that are accepted at `pc` in state `st`, with the states that follow.  A
`LD_IMM64` of a map carries the map's index, as relocation leaves it. -/
inductive AbsStep : List (Nat × VerifierState) → Prop
  | ldMap {mapIdx : Nat} (ld : insn.isLdImm64 = true) (src : insn.srcReg = BPF_PSEUDO_MAP_FD)
    (dst : insn.dstReg ≤ 10) (relocated : insn.imm.toInt = mapIdx) (map : mapIdx < maps.length) :
    AbsStep [(nextPc pc insn, st.put insn.dstReg (.ptrMap mapIdx))]
  | ldImm (ld : insn.isLdImm64 = true) (src : insn.srcReg ≠ BPF_PSEUDO_MAP_FD)
    (dst : insn.dstReg ≤ 10) : AbsStep [(nextPc pc insn, st.put insn.dstReg .scalar)]
  | movImm (cls : insn.cls = BPF_ALU ∨ insn.cls = BPF_ALU64) (op : insn.op = BPF_MOV)
    (imm : insn.isSrcImm = true) (dst : insn.dstReg ≤ 10) :
    AbsStep [(nextPc pc insn, st.put insn.dstReg .scalar)]
  | movReg {t : RegType} (cls : insn.cls = BPF_ALU ∨ insn.cls = BPF_ALU64) (op : insn.op = BPF_MOV)
    (imm : insn.isSrcImm = false) (src : st.regs[insn.srcReg]? = some t) (init : t ≠ .notInit)
    (dst : insn.dstReg ≤ 10) : AbsStep [(nextPc pc insn, st.put insn.dstReg t)]
  | alu (cls : insn.cls = BPF_ALU ∨ insn.cls = BPF_ALU64) (op : insn.op ≠ BPF_MOV)
    (dst : st.regs[insn.dstReg]? = some .scalar) (src : SrcScalar insn st) :
    AbsStep [(nextPc pc insn, st.put insn.dstReg .scalar)]
  | move {t t' : RegType} (cls : insn.cls = BPF_ALU ∨ insn.cls = BPF_ALU64)
    (op : insn.op = BPF_ADD ∨ insn.op = BPF_SUB) (imm : insn.isSrcImm = true)
    (dst : st.regs[insn.dstReg]? = some t) (moved : Moved maps limit insn t t') :
    AbsStep [(nextPc pc insn, st.put insn.dstReg t')]
  | load {t : RegType} {size : Nat} (cls : insn.cls = BPF_LDX) (dst : insn.dstReg ≤ 10)
    (width : insn.memSizeBytes = .ok size) (src : st.regs[insn.srcReg]? = some t)
    (loadable : Loadable maps limit st insn.off.toInt size t) :
    AbsStep [(nextPc pc insn, st.put insn.dstReg .scalar)]
  | store {t : RegType} {size : Nat} {st' : VerifierState}
    (cls : insn.cls = BPF_ST ∨ insn.cls = BPF_STX) (width : insn.memSizeBytes = .ok size)
    (dst : st.regs[insn.dstReg]? = some t)
    (src : insn.cls = BPF_STX → ∃ u, st.regs[insn.srcReg]? = some u ∧ u ≠ .notInit)
    (stored : Stored maps st insn.off.toInt size t st') : AbsStep [(nextPc pc insn, st')]
  | exit (exit : insn.isExit = true) (r0 : st.regs[BPF_REG_0]? = some .scalar) : AbsStep []
  | ja (exit : insn.isExit = false) (ja : insn.isJa = true) : AbsStep [(jumpTarget pc insn, st)]
  | call {r0 : RegType} (exit : insn.isExit = false) (ja : insn.isJa = false)
    (call : insn.isCall = true) (ok : CallOk maps st insn.imm r0) :
    AbsStep [(nextPc pc insn, st.afterCall r0)]
  | branch {t : RegType} (cls : insn.cls = BPF_JMP ∨ insn.cls = BPF_JMP32)
    (exit : insn.isExit = false) (ja : insn.isJa = false) (call : insn.isCall = false)
    (dst : st.regs[insn.dstReg]? = some t) (init : t ≠ .notInit) (src : SrcInit insn st) :
    AbsStep [(nextPc pc insn, st.put insn.dstReg (refineNull insn t).1),
       (jumpTarget pc insn, st.put insn.dstReg (refineNull insn t).2)]

/-! ## The rules preserve well-formed states -/

variable {maps : List MapRef} {limit pc : Nat} {insn : BpfInsn} {st : VerifierState}

theorem Moved.typeOk {t t' : RegType} (h : Moved maps limit insn t t') : TypeOk maps limit t' := by
  cases h with
  | stack lo hi | context lo hi => exact ⟨lo, hi⟩
  | value map lo hi => exact ⟨_, map, lo, hi⟩

theorem Stored.stateOk {disp : Int} {size : Nat} {st' : VerifierState}
    (h : Stored maps st disp size t st') (hst : StateOk maps limit st) :
    StateOk maps limit st' := by
  cases h with
  | stack _ _ init =>
    intro r u hu
    rw [init.1] at hu
    exact hst r u hu
  | value => exact hst

theorem CallOk.typeOk {helper : Int32} (h : CallOk maps st helper r0) : TypeOk maps limit r0 := by
  cases h with
  | lookup map _ => exact ⟨_, map.2, Int.le_refl _, Int.natCast_nonneg _⟩
  | _ => trivial

theorem refineNull_typeOk (insn : BpfInsn) (h : TypeOk maps limit t) :
    TypeOk maps limit (refineNull insn t).1 ∧ TypeOk maps limit (refineNull insn t).2 := by
  match t, h with
  | .ptrMapValue mapIdx off nullChecked, h =>
    unfold refineNull
    simp only
    split
    · split
      · exact ⟨trivial, h⟩
      · split
        · exact ⟨h, trivial⟩
        · exact ⟨h, h⟩
    · exact ⟨h, h⟩
  | .notInit, h => exact ⟨h, h⟩
  | .scalar, h => exact ⟨h, h⟩
  | .ptrContext _, h => exact ⟨h, h⟩
  | .ptrStack _, h => exact ⟨h, h⟩
  | .ptrMap _, h => exact ⟨h, h⟩

/-- **The states after an accepted instruction are well-formed.** -/
theorem AbsStep.stateOk {succs : List (Nat × VerifierState)}
    (h : AbsStep maps limit pc insn st succs) (hst : StateOk maps limit st) :
    ∀ s ∈ succs, StateOk maps limit s.2 := by
  have hone : ∀ {pc' : Nat} {st' : VerifierState}, StateOk maps limit st' →
      ∀ s ∈ [(pc', st')], StateOk maps limit s.2 := by
    intro pc' st' h' s hs
    rw [List.mem_singleton.mp hs]
    exact h'
  cases h with
  | ldMap _ _ _ _ map =>
    exact hone (hst.put (show TypeOk maps limit (.ptrMap _) from map) _)
  | ldImm | movImm | alu | load => exact hone (hst.put (typeOk_scalar _ _) _)
  | movReg _ _ _ src => exact hone (hst.put (hst _ _ src) _)
  | move _ _ _ _ moved => exact hone (hst.put moved.typeOk _)
  | store _ _ _ _ stored => exact hone (stored.stateOk hst)
  | exit => nofun
  | ja => exact hone hst
  | call _ _ _ ok => exact hone (hst.afterCall ok.typeOk)
  | branch _ _ _ _ dst =>
    obtain ⟨hfall, hjump⟩ := refineNull_typeOk insn (hst _ _ dst)
    intro s hs
    rcases List.mem_cons.mp hs with rfl | hs
    · exact hst.put hfall _
    · exact hone (hst.put hjump _) s hs

end PulseOS.Bpf
