import PulseOS.Bpf.Typing

/-!
# Pass 2 implements the typing rules

Each function of pass 2, run in a well-formed state on an instruction with existing registers,
returns or rejects, and what it accepts follows a rule.

* `simInsn_overflow` — `MoveOverflows` says exactly which instructions overflow `i32`.
-/

namespace PulseOS.Bpf

open Exec VerifierState

variable {checks : Bool} {config : VerifierConfig} {maps : List MapRef} {pc : Nat}
  {insn : BpfInsn} {st : VerifierState}

theorem stackSize_eq : (BPF_STACK_SIZE : Int) = 512 := rfl

/-! ## Registers and stack -/

namespace VerifierState

variable {r : Nat}

theorem reg_meets (st : VerifierState) (h : r ≤ 10) :
    Yields (st.reg r) fun t => st.regs[r]? = some t := by
  rw [reg, vget_of_lt (by omega), yields_ok]
  exact Vector.getElem?_eq_getElem (by omega)

theorem reg_of_some {t : RegType} (h : st.regs[r]? = some t) : st.reg r = .ok t := by
  obtain ⟨hr, rfl⟩ := Vector.getElem?_eq_some_iff.mp h
  exact vget_of_lt hr

theorem readReg_meets (st : VerifierState) (pc : Nat) (h : r ≤ 10) :
    Yields (st.readReg pc r) fun t => st.regs[r]? = some t ∧ t ≠ .notInit := by
  refine (st.reg_meets h).bind fun t ht => ?_
  split
  · trivial
  · rename_i hinit
    exact ⟨ht, hinit⟩

theorem setReg_eq (st : VerifierState) (h : r ≤ 10) (t : RegType) :
    st.setReg r t = .ok (st.put r t) := by
  have hr : r < 11 := by omega
  simp [setReg, put, vset_of_lt hr, Vector.setIfInBounds, Vector.set, Array.setIfInBounds, hr]

theorem requireInit_meets {start len : Nat} (h : start + len ≤ BPF_STACK_SIZE)
    (uninit : Nat → Reject) :
    Yields (st.requireInit start len uninit)
      fun _ => ∀ b < len, st.stackInit[start + b]? = some true := by
  have hround : ∀ b < len, Yields (do
      let init ← vget st.stackInit (start + b)
      if init then .ok () else err (uninit b) : Exec Reject Unit) fun _ => True := by
    intro b hb
    rw [vget_of_lt (by omega), ok_bind]
    split <;> trivial
  refine (forRange_meets hround).with_eq.mono (fun _ hall b hb => ?_) fun _ _ => trivial
  have hb' := forRange_eq_ok.mp hall.2 b hb
  rw [vget_of_lt (by omega), ok_bind] at hb'
  split at hb'
  · rename_i hinit
    rw [Vector.getElem?_eq_getElem (by omega), hinit]
  · cases hb'

theorem markInit_meets {off : Int} {size : Nat} (hlo : -BPF_STACK_SIZE ≤ off)
    (hhi : off + size ≤ 0) :
    Yields (st.markInit (BPF_STACK_SIZE + off).toNat size) (Initialized st off size) := by
  obtain ⟨w, hw, hget⟩ := fillRange_spec (ε := Reject) st.stackInit (BPF_STACK_SIZE + off).toNat
    true size (by omega)
  rw [markInit, hw, ok_bind, yields_ok]
  exact ⟨rfl, hget⟩

end VerifierState

theorem callReturn_eq (st : VerifierState) (r0 : RegType) :
    callReturn st r0 = .ok (st.afterCall r0) := by
  unfold callReturn afterCall
  rw [st.setReg_eq (by decide), ok_bind, setReg_eq _ (by decide), ok_bind,
    setReg_eq _ (by decide), ok_bind, setReg_eq _ (by decide), ok_bind,
    setReg_eq _ (by decide), ok_bind, setReg_eq _ (by decide)]

/-! ## Offset arithmetic -/

theorem arith_i32 {ε : Type} {r : Int} (h : -2 ^ 31 ≤ r ∧ r < 2 ^ 31) :
    (arith checks .i32 r : Exec ε Int) = .ok r :=
  arith_of_fits h

theorem outOfBounds_eq {off size lo hi : Int} (h : -2 ^ 31 ≤ off + size ∧ off + size < 2 ^ 31) :
    outOfBounds checks off size lo hi = .ok (decide (off < lo ∨ off + size > hi)) := by
  unfold outOfBounds
  by_cases hlo : off < lo
  · simp [hlo]
  · simp [hlo, arith_i32 h]

variable {off : Int} {size : Nat} {t : RegType} {mapIdx : Nat}

theorem stackIndex_eq (hlo : -BPF_STACK_SIZE ≤ off) (hhi : off ≤ 0) :
    stackIndex checks off = .ok (BPF_STACK_SIZE + off).toNat := by
  have hS := stackSize_eq
  rw [stackIndex, arith_i32 (by omega), ok_bind, asUsize_of_nonneg (by omega) (by omega)]

theorem stackArg_meets (hlo : -BPF_STACK_SIZE ≤ off) (hhi : off ≤ 0)
    (hsize : size ≤ BPF_MAP_MAX_VALUE_SIZE) (oob uninit : String) :
    Yields (stackArg checks pc st off size oob uninit) fun _ => StackBytes st off size := by
  have hS := stackSize_eq
  have hmax : BPF_MAP_MAX_VALUE_SIZE = 65536 := rfl
  unfold stackArg
  rw [asI32_of_lt (by omega), outOfBounds_eq (by omega), ok_bind]
  split
  · trivial
  · rename_i hbad
    have hin : ¬ (off < -BPF_STACK_SIZE ∨ off + size > 0) := by simpa using hbad
    rw [stackIndex_eq hlo hhi, ok_bind]
    refine (requireInit_meets (by omega) _).mono (fun _ hinit => ?_) fun _ _ => trivial
    exact ⟨hlo, by omega, hinit⟩

/-- The widths of memory accesses. -/
def AccessWidth (size : Nat) : Prop := size = 1 ∨ size = 2 ∨ size = 4 ∨ size = 8

theorem memSizeBytes_width (insn : BpfInsn) :
    ∃ size, insn.memSizeBytes = .ok size ∧ AccessWidth size := by
  unfold AccessWidth
  rcases memSizeBytes_cases insn with h | h | h | h <;> exact ⟨_, h, by simp⟩

theorem memSize_meets (insn : BpfInsn) :
    Yields (memSize insn) fun size => insn.memSizeBytes = .ok size ∧ AccessWidth size := by
  obtain ⟨size, hsize, hwidth⟩ := memSizeBytes_width insn
  rw [memSize, hsize]
  exact ⟨rfl, hwidth⟩

theorem AccessWidth.bounds (h : AccessWidth size) : 1 ≤ size ∧ size ≤ 8 := by
  unfold AccessWidth at h
  omega

theorem stackAccess_meets (hlo : -BPF_STACK_SIZE ≤ off) (hhi : off ≤ 0)
    (hsize : AccessWidth size) (what : String) :
    Yields (stackAccess checks pc insn what off size)
      fun eff => eff = off + insn.off.toInt ∧ -BPF_STACK_SIZE ≤ eff ∧ eff + size ≤ 0 := by
  have hS := stackSize_eq
  have hoff := off_bounds insn
  have hw := hsize.bounds
  unfold stackAccess
  rw [arith_i32 (by omega), ok_bind, outOfBounds_eq (by omega), ok_bind]
  split
  · trivial
  · rename_i hbad
    have hin : ¬ (off + insn.off.toInt < -BPF_STACK_SIZE ∨ off + insn.off.toInt + size > 0) := by
      simpa using hbad
    rw [arith_i32 (by omega), ok_bind]
    split
    · trivial
    · exact ⟨rfl, by omega, by omega⟩

theorem valueSize_lt (m : MapRef) : m.spec.valueSize ≤ 65536 := m.spec.value_le

variable {limit r : Nat} {m : MapRef}

theorem mapValueAccess_meets {nullChecked : Bool} {size : Nat}
    (ht : TypeOk maps limit (.ptrMapValue mapIdx off nullChecked)) (hsize : AccessWidth size)
    (what : String) :
    Yields (mapValueAccess checks maps pc insn what mapIdx off nullChecked size)
      fun _ => nullChecked = true ∧ ∃ m, maps[mapIdx]? = some m ∧ 0 ≤ off + insn.off.toInt ∧
        off + insn.off.toInt + size ≤ m.spec.valueSize := by
  obtain ⟨m, hm, h0, hle⟩ := ht
  have hoff := off_bounds insn
  have hw := hsize.bounds
  have hv := valueSize_lt m
  unfold mapValueAccess
  split
  · trivial
  · rename_i hchecked
    rw [arith_i32 (by omega), ok_bind, get_of_some hm, ok_bind, asI32_of_lt (by omega),
      outOfBounds_eq (by omega), ok_bind]
    split
    · trivial
    · rename_i hbad
      have hin : ¬ (off + insn.off.toInt < 0 ∨ off + insn.off.toInt + size > m.spec.valueSize) := by
        simpa using hbad
      exact ⟨by simpa using hchecked, m, hm, by omega, by omega⟩

/-! ## Pointer arithmetic -/

/-- The offset of a pointer whose arithmetic is accepted. -/
def pointerOff : RegType → Option Int
  | .ptrStack off => some off
  | .ptrContext off => some off
  | .ptrMapValue _ off true => some off
  | _ => none

/-- `BPF_ADD` or `BPF_SUB` moves a pointer out of the range of `i32`. -/
def MoveOverflows (insn : BpfInsn) (t : RegType) : Prop :=
  insn.isSrcImm = true ∧ ∃ off, pointerOff t = some off ∧
    ¬ (-2 ^ 31 ≤ movedOff insn off ∧ movedOff insn off < 2 ^ 31)

/-- An offset that was moved out of the range of `i32` wraps to one that is out of every
bound, so that an accepted offset is the exact one. -/
theorem shiftOff_meets (hoff : -512 ≤ off ∧ off ≤ 65536)
    (hfit : checks = true → -2 ^ 31 ≤ movedOff insn off ∧ movedOff insn off < 2 ^ 31) :
    Yields (shiftOff checks insn off)
      fun new => -512 ≤ new → new ≤ 65536 → new = movedOff insn off := by
  have himm := imm_bounds insn
  have hr : -2 ^ 31 - 512 ≤ movedOff insn off ∧ movedOff insn off ≤ 2 ^ 31 + 65536 := by
    unfold movedOff
    split <;> omega
  change Meets (if -2 ^ 31 ≤ movedOff insn off ∧ movedOff insn off < 2 ^ 31 then _ else _) _ _
  split
  · exact fun _ _ => rfl
  · rename_i hout
    split
    · rename_i hc
      exact absurd (hfit hc) hout
    · intro hlo hhi
      exfalso
      change -512 ≤ Int.bmod (movedOff insn off) (2 ^ 32) at hlo
      change Int.bmod (movedOff insn off) (2 ^ 32) ≤ 65536 at hhi
      generalize movedOff insn off = v at *
      rw [Int.bmod_def] at hlo hhi
      split at hlo <;> omega

theorem shiftOff_overflow (h : ¬ (-2 ^ 31 ≤ movedOff insn off ∧ movedOff insn off < 2 ^ 31)) :
    shiftOff true insn off = panic .overflow := by
  exact (if_neg h).trans (if_pos rfl)

theorem scalarSrc_meets (hsrc : insn.srcReg ≤ 10) (msg : String) :
    Yields (scalarSrc pc insn st msg) fun _ => SrcScalar insn st := by
  unfold scalarSrc
  split
  · rename_i himm
    exact .inl himm
  · refine (st.reg_meets hsrc).bind fun t ht => ?_
    split
    · trivial
    · rename_i hscalar
      rw [not_not.mp hscalar] at ht
      exact .inr ht

section

variable (ht : TypeOk maps (maxContextSizeForProgType config.progType) t)

include ht

theorem simAddSub_meets (hdst : insn.dstReg ≤ 10) (hsrc : insn.srcReg ≤ 10)
    (hfit : checks = true → ¬ MoveOverflows insn t) :
    Yields (simAddSub checks config maps pc insn st t)
      fun st' => (t = .scalar ∧ SrcScalar insn st ∧ st' = st.put insn.dstReg .scalar) ∨
        (insn.isSrcImm = true ∧ ∃ t', Moved maps (maxContextSizeForProgType config.progType) insn t t' ∧
          st' = st.put insn.dstReg t') := by
  have hS := stackSize_eq
  have hlimit : (maxContextSizeForProgType config.progType : Int) ≤ 80 := by
    cases config.progType <;> decide
  have hfits : insn.isSrcImm = true → ∀ off, pointerOff t = some off → checks = true →
      -2 ^ 31 ≤ movedOff insn off ∧ movedOff insn off < 2 ^ 31 := by
    intro himm off hoff hc
    by_contra hout
    exact hfit hc ⟨himm, off, hoff, hout⟩
  unfold simAddSub
  match t, ht with
  | .notInit, _ => trivial
  | .ptrMap _, _ => trivial
  | .scalar, _ =>
    refine (scalarSrc_meets hsrc _).bind fun _ hs => ?_
    rw [st.setReg_eq hdst]
    exact .inl ⟨rfl, hs, rfl⟩
  | .ptrStack off, ht =>
    simp only
    split
    · trivial
    · rename_i himm
      have himm' : insn.isSrcImm = true := by simpa using himm
      have hoff : -512 ≤ off ∧ off ≤ 65536 := ⟨ht.1, by have := ht.2; omega⟩
      refine (shiftOff_meets hoff (hfits himm' off rfl)).bind fun new hnew => ?_
      split
      · trivial
      · rename_i hin
        have he := hnew (by omega) (by omega)
        subst he
        rw [st.setReg_eq hdst]
        exact .inr ⟨himm', _, .stack (by omega) (by omega), rfl⟩
  | .ptrContext off, ht =>
    simp only
    split
    · trivial
    · rename_i himm
      have himm' : insn.isSrcImm = true := by simpa using himm
      have hoff : -512 ≤ off ∧ off ≤ 65536 := by
        obtain ⟨h0, h1⟩ := ht
        omega
      refine (shiftOff_meets hoff (hfits himm' off rfl)).bind fun new hnew => ?_
      split
      · trivial
      · rename_i hin
        have he := hnew (by omega) (by omega)
        subst he
        rw [st.setReg_eq hdst]
        exact .inr ⟨himm', _, .context (by omega) (by omega), rfl⟩
  | .ptrMapValue mapIdx off false, _ => trivial
  | .ptrMapValue mapIdx off true, ht =>
    obtain ⟨m, hm, h0, hle⟩ := ht
    have hv := valueSize_lt m
    simp only [Bool.not_true, Bool.false_eq_true, if_false]
    split
    · trivial
    · rename_i himm
      have himm' : insn.isSrcImm = true := by simpa using himm
      refine (shiftOff_meets (by omega) (hfits himm' off rfl)).bind fun new hnew => ?_
      rw [get_of_some hm, ok_bind, asI32_of_lt (by omega)]
      split
      · trivial
      · rename_i hin
        have he := hnew (by omega) (by omega)
        subst he
        rw [st.setReg_eq hdst]
        exact .inr ⟨himm', _, .value hm (by omega) (by omega), rfl⟩

omit ht in
theorem simAddSub_overflow (h : MoveOverflows insn t) :
    simAddSub true config maps pc insn st t = panic .overflow := by
  obtain ⟨himm, off, hoff, hout⟩ := h
  match t, hoff with
  | .ptrStack _, rfl => simp [simAddSub, himm, shiftOff_overflow hout]
  | .ptrContext _, rfl => simp [simAddSub, himm, shiftOff_overflow hout]
  | .ptrMapValue _ _ true, rfl => simp [simAddSub, himm, shiftOff_overflow hout]

omit ht in
theorem initSrc_meets (hsrc : insn.srcReg ≤ 10) :
    Yields (initSrc pc insn st) fun _ => SrcInit insn st := by
  unfold initSrc
  split
  · rename_i himm
    exact .inl himm
  · exact (st.readReg_meets pc hsrc).bind fun t ht => .inr ⟨t, ht⟩

/-! ## Instructions -/

/-- `BPF_ADD` or `BPF_SUB` of this instruction overflows in this state. -/
def AddSubOverflows (insn : BpfInsn) (st : VerifierState) : Prop :=
  (insn.cls = BPF_ALU ∨ insn.cls = BPF_ALU64) ∧ (insn.op = BPF_ADD ∨ insn.op = BPF_SUB) ∧
    ∃ t, st.regs[insn.dstReg]? = some t ∧ MoveOverflows insn t

theorem checkLoad_meets (hsize : AccessWidth size) :
    Yields (checkLoad checks config maps pc insn st t size)
      fun _ =>
        Loadable maps (maxContextSizeForProgType config.progType) st insn.off.toInt size t := by
  have hS := stackSize_eq
  have hw := hsize.bounds
  have hoff := off_bounds insn
  have hlimit : (maxContextSizeForProgType config.progType : Int) ≤ 80 := by
    cases config.progType <;> decide
  unfold checkLoad
  match t, ht with
  | .notInit, _ => trivial
  | .scalar, _ => trivial
  | .ptrMap _, _ => trivial
  | .ptrContext off, ht =>
    obtain ⟨h0, h1⟩ := ht
    simp only
    rw [arith_i32 (by omega), ok_bind, outOfBounds_eq (by omega), ok_bind]
    split
    · trivial
    · rename_i hbad
      have hin : ¬ (off + insn.off.toInt < 0 ∨ off + insn.off.toInt + size >
          maxContextSizeForProgType config.progType) := by
        simpa using hbad
      split
      · trivial
      · rename_i haligned
        refine .context (by omega) (by omega) ?_
        rw [← Int.tmod_eq_emod_of_nonneg (by omega)]
        exact not_not.mp haligned
  | .ptrStack off, ht =>
    refine (stackAccess_meets ht.1 ht.2 hsize _).bind fun eff heff => ?_
    obtain ⟨rfl, hlo, hhi⟩ := heff
    rw [stackIndex_eq hlo (by omega), ok_bind]
    refine (requireInit_meets (by omega) _).mono (fun _ hinit => ?_) fun _ _ => trivial
    exact .stack ⟨hlo, hhi, hinit⟩
  | .ptrMapValue mapIdx off nullChecked, ht =>
    refine (mapValueAccess_meets ht hsize _).mono (fun _ h => ?_) fun _ _ => trivial
    obtain ⟨rfl, m, hm, hlo, hhi⟩ := h
    exact .value hm hlo hhi

theorem simStore_meets (hsize : AccessWidth size) : Yields (simStore checks maps pc insn st t size)
      (Stored maps st insn.off.toInt size t) := by
  unfold simStore
  match t, ht with
  | .notInit, _ => trivial
  | .scalar, _ => trivial
  | .ptrMap _, _ => trivial
  | .ptrContext _, _ => trivial
  | .ptrStack off, ht =>
    refine (stackAccess_meets ht.1 ht.2 hsize _).bind fun eff heff => ?_
    obtain ⟨rfl, hlo, hhi⟩ := heff
    rw [stackIndex_eq hlo (by omega), ok_bind]
    exact (markInit_meets hlo hhi).mono (fun _ h => .stack hlo hhi h) fun _ _ => trivial
  | .ptrMapValue mapIdx off nullChecked, ht =>
    refine (mapValueAccess_meets ht hsize _).bind fun _ h => ?_
    obtain ⟨rfl, m, hm, hlo, hhi⟩ := h
    exact Stored.value hm hlo hhi

end

section Instructions

variable (hst : StateOk maps (maxContextSizeForProgType config.progType) st)
  (hdst : insn.dstReg ≤ 10) (hsrc : insn.srcReg ≤ 10)
include hst hdst hsrc

theorem simAlu_meets (hcls : insn.cls = BPF_ALU ∨ insn.cls = BPF_ALU64)
    (hfit : checks = true → ¬ AddSubOverflows insn st) :
    Yields (simAlu checks config maps pc insn st)
      fun st' => AbsStep maps (maxContextSizeForProgType config.progType) pc insn st
        [(nextPc pc insn, st')] := by
  refine (initSrc_meets hsrc).bind fun _ hinit => ?_
  split
  · rename_i hmov
    split
    · rename_i himm
      rw [st.setReg_eq hdst]
      exact .movImm hcls hmov himm hdst
    · rename_i himm
      rcases hinit with himm' | ⟨t, ht, hne⟩
      · exact absurd himm' himm
      · rw [reg_of_some ht, ok_bind, st.setReg_eq hdst]
        exact .movReg hcls hmov (by simpa using himm) ht hne hdst
  · rename_i hmov
    refine (st.readReg_meets pc hdst).bind fun t ht => ?_
    split
    · rename_i hop
      refine (simAddSub_meets (hst _ _ ht.1) hdst hsrc fun hc ho => ?_).mono (fun st' h => ?_)
        fun _ _ => trivial
      · exact hfit hc ⟨hcls, hop, t, ht.1, ho⟩
      · rcases h with ⟨rfl, hs, rfl⟩ | ⟨himm, t', hmoved, rfl⟩
        · exact .alu hcls hmov ht.1 hs
        · exact .move hcls hop himm ht.1 hmoved
    · split
      · trivial
      · rename_i hscalar
        refine (scalarSrc_meets hsrc _).bind fun _ hs => ?_
        rw [st.setReg_eq hdst]
        exact .alu hcls hmov (by rw [ht.1, not_not.mp hscalar]) hs

theorem simLdx_meets (hcls : insn.cls = BPF_LDX) : Yields (simLdx checks config maps pc insn st)
      fun st' => AbsStep maps (maxContextSizeForProgType config.progType) pc insn st
        [(nextPc pc insn, st')] := by
  refine (st.readReg_meets pc hsrc).bind fun t ht => ?_
  refine (memSize_meets insn).bind fun size hsize => ?_
  refine (checkLoad_meets (hst _ _ ht.1) hsize.2).bind fun _ hload => ?_
  rw [st.setReg_eq hdst]
  exact .load hcls hdst hsize.1 ht.1 hload

theorem simSt_meets (hcls : insn.cls = BPF_ST ∨ insn.cls = BPF_STX) :
    Yields (simSt checks maps pc insn st)
      fun st' => AbsStep maps (maxContextSizeForProgType config.progType) pc insn st
        [(nextPc pc insn, st')] := by
  refine (st.readReg_meets pc hdst).bind fun t ht => ?_
  have hstored : Yields (initStored pc insn st) fun _ => insn.cls = BPF_STX →
      ∃ u, st.regs[insn.srcReg]? = some u ∧ u ≠ .notInit := by
    unfold initStored
    split
    · exact (st.readReg_meets pc hsrc).bind fun u hu _ => ⟨u, hu⟩
    · rename_i hne
      exact fun he => absurd he hne
  refine hstored.bind fun _ hsrc' => ?_
  refine (memSize_meets insn).bind fun size hsize => ?_
  exact (simStore_meets (hst _ _ ht.1) hsize.2).mono
    (fun st' h => .store hcls hsize.1 ht.1 hsrc' h) fun _ _ => trivial

end Instructions

/-! ## Helper calls -/

theorem scalarArg_meets (hr : r ≤ 10) (msg : String) :
    Yields (scalarArg pc st r msg) fun _ => st.regs[r]? = some .scalar := by
  refine (st.reg_meets hr).bind fun t ht => ?_
  split
  · trivial
  · rename_i hscalar
    rw [meets_ok, ht, not_not.mp hscalar]

theorem dataArg_meets (hr : r ≤ 10) (name : String) (context : Bool) :
    Yields (dataArg pc st name r context) fun _ => DataIn st r context := by
  refine (st.reg_meets hr).bind fun t ht => ?_
  match t, ht with
  | .ptrStack off, ht =>
    simp only
    split
    · trivial
    · exact .stack ht
  | .ptrMapValue _ _ true, ht => exact DataIn.value ht
  | .ptrMapValue _ _ false, _ => trivial
  | .ptrContext _, ht =>
    cases context with
    | true => exact .context ht rfl
    | false => trivial
  | .notInit, _ => trivial
  | .scalar, _ => trivial
  | .ptrMap _, _ => trivial

theorem writableMap_meets (hm : maps[mapIdx]? = some m) (msg : String) :
    Yields (writableMap maps pc mapIdx msg) fun _ => ¬ m.spec.RdonlyProg := by
  rw [writableMap, get_of_some hm, ok_bind]
  split
  · trivial
  · rename_i hw
    exact hw

theorem typedMap_meets (hm : maps[mapIdx]? = some m) (t : BpfMapType) (msg : String) :
    Yields (typedMap maps pc mapIdx t msg) fun _ => m.spec.mapType = t := by
  rw [typedMap, get_of_some hm, ok_bind]
  split
  · trivial
  · rename_i ht
    exact not_not.mp ht

/-- A helper call is accepted and leaves `st'`. -/
abbrev Called (maps : List MapRef) (st : VerifierState) (imm : Int32) (st' : VerifierState) :
    Prop :=
  ∃ r0, st' = st.afterCall r0 ∧ CallOk maps st imm r0

section Calls

variable {limit : Nat} (hst : StateOk maps limit st)
include hst

theorem mapArg_meets {r : Nat} (hr : r ≤ 10) (msg : String) :
    Yields (mapArg pc st r msg) fun mapIdx => ∃ m, MapIn maps st r mapIdx m := by
  refine (st.reg_meets hr).bind fun t ht => ?_
  match t, ht with
  | .ptrMap mapIdx, ht =>
    exact ⟨_, ht, List.getElem?_eq_getElem (hst r _ ht)⟩
  | .notInit, _ => trivial
  | .scalar, _ => trivial
  | .ptrContext _, _ => trivial
  | .ptrStack _, _ => trivial
  | .ptrMapValue _ _ _, _ => trivial

variable {mapIdx : Nat} {m : MapRef}

theorem keyArg_meets (hm : maps[mapIdx]? = some m) (name : String) :
    Yields (keyArg checks maps pc st name mapIdx) fun _ => KeyIn st m := by
  refine (st.reg_meets (by decide)).bind fun t ht => ?_
  match t, ht with
  | .ptrStack off, ht =>
    simp only
    rw [get_of_some hm, ok_bind]
    have hoff := hst _ _ ht
    have hkey : m.spec.keySize ≤ BPF_MAP_MAX_VALUE_SIZE := le_trans m.spec.key_le (by decide)
    exact (stackArg_meets hoff.1 hoff.2 hkey _ _).mono (fun _ h => ⟨off, ht, h⟩) fun _ _ => trivial
  | .notInit, _ => trivial
  | .scalar, _ => trivial
  | .ptrContext _, _ => trivial
  | .ptrMap _, _ => trivial
  | .ptrMapValue _ _ _, _ => trivial

theorem valueArg_meets (hm : maps[mapIdx]? = some m) :
    Yields (valueArg checks maps pc st mapIdx) fun _ => ValueIn st m := by
  refine (st.reg_meets (by decide)).bind fun t ht => ?_
  match t, ht with
  | .ptrStack off, ht =>
    simp only
    rw [get_of_some hm, ok_bind]
    have hoff := hst _ _ ht
    exact (stackArg_meets hoff.1 hoff.2 m.spec.value_le _ _).mono (fun _ h => .stack ht h)
      fun _ _ => trivial
  | .ptrMapValue _ _ true, ht => exact ValueIn.value ht
  | .ptrMapValue _ _ false, _ => trivial
  | .notInit, _ => trivial
  | .scalar, _ => trivial
  | .ptrContext _, _ => trivial
  | .ptrMap _, _ => trivial

theorem simLookup_meets :
    Yields (simLookup checks maps pc st) (Called maps st BPF_FUNC_MAP_LOOKUP_ELEM) := by
  refine (mapArg_meets hst (by decide) _).bind fun mapIdx ⟨m, hm⟩ => ?_
  refine (keyArg_meets hst hm.2 _).bind fun _ hkey => ?_
  rw [callReturn_eq]
  exact ⟨_, rfl, .lookup hm hkey⟩

theorem simUpdate_meets :
    Yields (simUpdate checks maps pc st) (Called maps st BPF_FUNC_MAP_UPDATE_ELEM) := by
  refine (mapArg_meets hst (by decide) _).bind fun mapIdx ⟨m, hm⟩ => ?_
  refine (writableMap_meets hm.2 _).bind fun _ hw => ?_
  refine (keyArg_meets hst hm.2 _).bind fun _ hkey => ?_
  refine (valueArg_meets hst hm.2).bind fun _ hvalue => ?_
  refine (scalarArg_meets (by decide) _).bind fun _ hflags => ?_
  rw [callReturn_eq]
  exact ⟨_, rfl, .update hm hw hkey hvalue hflags⟩

theorem simDelete_meets :
    Yields (simDelete checks maps pc st) (Called maps st BPF_FUNC_MAP_DELETE_ELEM) := by
  refine (mapArg_meets hst (by decide) _).bind fun mapIdx ⟨m, hm⟩ => ?_
  have hdel : Yields (deletableMap maps pc mapIdx)
      fun _ => m.spec.mapType ≠ .array ∧ ¬ m.spec.RdonlyProg := by
    rw [deletableMap, get_of_some hm.2, ok_bind]
    split
    · trivial
    · rename_i harray
      exact (writableMap_meets hm.2 _).mono (fun _ hw => ⟨harray, hw⟩) fun _ _ => trivial
  refine hdel.bind fun _ hd => ?_
  refine (keyArg_meets hst hm.2 _).bind fun _ hkey => ?_
  rw [callReturn_eq]
  exact ⟨_, rfl, .delete hm hd.1 hd.2 hkey⟩

theorem simPerfEventOutput_meets :
    Yields (simPerfEventOutput maps pc st) (Called maps st BPF_FUNC_PERF_EVENT_OUTPUT) := by
  have hctx : Yields (contextArg pc st) fun _ => True := by
    refine (st.reg_meets (by decide)).bind fun t _ => ?_
    cases t <;> trivial
  refine hctx.bind fun _ _ => ?_
  refine (mapArg_meets hst (by decide) _).bind fun mapIdx ⟨m, hm⟩ => ?_
  refine (typedMap_meets hm.2 _ _).bind fun _ htype => ?_
  refine (scalarArg_meets (by decide) _).bind fun _ hflags => ?_
  refine (dataArg_meets (by decide) _ _).bind fun _ hdata => ?_
  refine (scalarArg_meets (by decide) _).bind fun _ hsize => ?_
  rw [callReturn_eq]
  exact ⟨_, rfl, .perfEventOutput hm htype hflags hdata hsize⟩

theorem simRingbufOutput_meets :
    Yields (simRingbufOutput maps pc st) (Called maps st BPF_FUNC_RINGBUF_OUTPUT) := by
  refine (mapArg_meets hst (by decide) _).bind fun mapIdx ⟨m, hm⟩ => ?_
  refine (typedMap_meets hm.2 _ _).bind fun _ htype => ?_
  refine (dataArg_meets (by decide) _ _).bind fun _ hdata => ?_
  refine (scalarArg_meets (by decide) _).bind fun _ hsize => ?_
  refine (scalarArg_meets (by decide) _).bind fun _ hflags => ?_
  rw [callReturn_eq]
  exact ⟨_, rfl, .ringbufOutput hm htype hdata hsize hflags⟩

theorem simCall_meets : Yields (simCall checks maps pc insn st) (Called maps st insn.imm) := by
  unfold simCall
  simp only
  split
  · rename_i h
    rw [h]
    exact simLookup_meets hst
  split
  · rename_i h
    rw [h]
    exact simUpdate_meets hst
  split
  · rename_i h
    rw [h]
    exact simDelete_meets hst
  split
  · rename_i h
    rw [h, callReturn_eq]
    exact ⟨_, rfl, .ktime⟩
  split
  · rename_i h
    rw [h, callReturn_eq]
    exact ⟨_, rfl, .processorId⟩
  split
  · rename_i h
    rw [h]
    exact simPerfEventOutput_meets hst
  split
  · rename_i h
    rw [h]
    exact simRingbufOutput_meets hst
  split <;> trivial

end Calls

/-! ## Jumps and the whole instruction -/

theorem simCondJump_meets (hdst : insn.dstReg ≤ 10) (hsrc : insn.srcReg ≤ 10)
    (hcls : insn.cls = BPF_JMP ∨ insn.cls = BPF_JMP32) (hexit : insn.isExit = false)
    (hja : insn.isJa = false) (hcall : insn.isCall = false) :
    Yields (simCondJump pc insn st) (AbsStep maps limit pc insn st) := by
  refine (st.readReg_meets pc hdst).bind fun t ht => ?_
  refine (initSrc_meets hsrc).bind fun _ hinit => ?_
  simp only
  rw [st.setReg_eq hdst, ok_bind, st.setReg_eq hdst]
  exact .branch hcls hexit hja hcall ht.1 ht.2 hinit

theorem simJmp_meets (hst : StateOk maps limit st) (hdst : insn.dstReg ≤ 10)
    (hsrc : insn.srcReg ≤ 10) (hcls : insn.cls = BPF_JMP ∨ insn.cls = BPF_JMP32) :
    Yields (simJmp checks maps pc insn st) (AbsStep maps limit pc insn st) := by
  unfold simJmp
  split
  · rename_i hexit
    have hr0 : Yields (simExit pc st) fun _ => st.regs[BPF_REG_0]? = some .scalar := by
      refine (st.reg_meets (by decide)).bind fun t ht => ?_
      cases t with
      | scalar => exact ht
      | _ => trivial
    exact hr0.bind fun _ h => .exit hexit h
  rename_i hexit
  have hexit' : insn.isExit = false := by simpa using hexit
  split
  · rename_i hja
    exact .ja hexit' hja
  rename_i hja
  have hja' : insn.isJa = false := by simpa using hja
  split
  · rename_i hcall
    refine (simCall_meets hst).bind fun st' h => ?_
    obtain ⟨r0, rfl, hok⟩ := h
    exact .call hexit' hja' hcall hok
  · rename_i hcall
    exact simCondJump_meets hdst hsrc hcls hexit' hja' (by simpa using hcall)

/-- **What pass 2 accepts follows a rule, and nothing but the overflow of an offset keeps it
from returning.** -/
theorem simInsn_meets (hst : StateOk maps (maxContextSizeForProgType config.progType) st)
    (hdst : insn.dstReg ≤ 10) (hsrc : insn.srcReg ≤ 10)
    (hfit : checks = true → ¬ AddSubOverflows insn st) :
    Yields (simInsn checks config maps pc insn st)
      (AbsStep maps (maxContextSizeForProgType config.progType) pc insn st) := by
  unfold simInsn
  split
  · rename_i hcls
    exact (simAlu_meets hst hdst hsrc hcls hfit).bind fun st' h => h
  split
  · rename_i hcls
    exact (simLdx_meets hst hdst hsrc hcls).bind fun st' h => h
  split
  · rename_i hcls
    exact (simSt_meets hst hdst hsrc hcls).bind fun st' h => h
  split
  · rename_i hcls
    exact simJmp_meets hst hdst hsrc hcls
  · trivial

theorem simInsn_overflow (h : AddSubOverflows insn st) :
    simInsn true config maps pc insn st = panic .overflow := by
  obtain ⟨hcls, hop, t, ht, hover⟩ := h
  have himm := hover.1
  have hmov : insn.op ≠ BPF_MOV := by
    rcases hop with h | h <;> rw [h] <;> decide
  have hinit : t ≠ .notInit := by
    rintro rfl
    obtain ⟨-, off, hoff, -⟩ := hover
    cases hoff
  simp [simInsn, hcls, simAlu, initSrc, himm, hmov, readReg,
    reg_of_some ht, hinit, hop, simAddSub_overflow hover]

end PulseOS.Bpf
