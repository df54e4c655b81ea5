import PulseOS.Errno

/-!
# eBPF instruction encoding

Model of `pulse_core/src/bpf/insn.rs`: the 8-byte instruction, its field decoders and the
opcode, helper and flag constants.  `BpfInsn.cls` is the source's `class`.
-/

namespace PulseOS.Bpf

abbrev BPF_REG_0 : Nat := 0
abbrev BPF_REG_1 : Nat := 1
abbrev BPF_REG_2 : Nat := 2
abbrev BPF_REG_3 : Nat := 3
abbrev BPF_REG_4 : Nat := 4
abbrev BPF_REG_5 : Nat := 5
abbrev BPF_REG_10 : Nat := 10

/-! Instruction classes (bits 0..2). -/

def BPF_LD : UInt8 := 0x00
def BPF_LDX : UInt8 := 0x01
def BPF_ST : UInt8 := 0x02
def BPF_STX : UInt8 := 0x03
def BPF_ALU : UInt8 := 0x04
def BPF_JMP : UInt8 := 0x05
def BPF_JMP32 : UInt8 := 0x06
def BPF_ALU64 : UInt8 := 0x07

/-! Size modifiers (bits 3..4) and mode modifiers (bits 5..7). -/

def BPF_W : UInt8 := 0x00
def BPF_H : UInt8 := 0x08
def BPF_B : UInt8 := 0x10
def BPF_DW : UInt8 := 0x18

def BPF_IMM : UInt8 := 0x00
def BPF_ABS : UInt8 := 0x20
def BPF_IND : UInt8 := 0x40
def BPF_LEN : UInt8 := 0x80
def BPF_MSH : UInt8 := 0xa0
def BPF_ATOMIC : UInt8 := 0xc0

/-! ALU operations (bits 4..7) and the source operand flag (bit 3). -/

def BPF_ADD : UInt8 := 0x00
def BPF_SUB : UInt8 := 0x10
def BPF_MUL : UInt8 := 0x20
def BPF_DIV : UInt8 := 0x30
def BPF_OR : UInt8 := 0x40
def BPF_AND : UInt8 := 0x50
def BPF_LSH : UInt8 := 0x60
def BPF_RSH : UInt8 := 0x70
def BPF_NEG : UInt8 := 0x80
def BPF_MOD : UInt8 := 0x90
def BPF_XOR : UInt8 := 0xa0
def BPF_MOV : UInt8 := 0xb0
def BPF_ARSH : UInt8 := 0xc0
def BPF_END : UInt8 := 0xd0

def BPF_K : UInt8 := 0x00

/-! JMP operations (bits 4..7). -/

def BPF_JA : UInt8 := 0x00
def BPF_JEQ : UInt8 := 0x10
def BPF_JGT : UInt8 := 0x20
def BPF_JGE : UInt8 := 0x30
def BPF_JSET : UInt8 := 0x40
def BPF_JNE : UInt8 := 0x50
def BPF_JSGT : UInt8 := 0x60
def BPF_JSGE : UInt8 := 0x70
def BPF_CALL : UInt8 := 0x80
def BPF_EXIT : UInt8 := 0x90
def BPF_JLT : UInt8 := 0xa0
def BPF_JLE : UInt8 := 0xb0
def BPF_JSLT : UInt8 := 0xc0
def BPF_JSLE : UInt8 := 0xd0

/-- Pseudo source register of a `LD_IMM64` that names a map. -/
def BPF_PSEUDO_MAP_FD : Nat := 1

/-! Helper ids. -/

def BPF_FUNC_MAP_LOOKUP_ELEM : Int32 := 1
def BPF_FUNC_MAP_UPDATE_ELEM : Int32 := 2
def BPF_FUNC_MAP_DELETE_ELEM : Int32 := 3
def BPF_FUNC_KTIME_GET_NS : Int32 := 5
def BPF_FUNC_GET_SMP_PROCESSOR_ID : Int32 := 8
def BPF_FUNC_PERF_EVENT_OUTPUT : Int32 := 25
def BPF_FUNC_RINGBUF_OUTPUT : Int32 := 130
def BPF_FUNC_RINGBUF_RESERVE : Int32 := 131
def BPF_FUNC_RINGBUF_SUBMIT : Int32 := 132
def BPF_FUNC_RINGBUF_DISCARD : Int32 := 133
def BPF_FUNC_RINGBUF_QUERY : Int32 := 134

def BPF_F_INDEX_MASK : UInt64 := 0xffffffff
def BPF_F_CURRENT_CPU : UInt64 := BPF_F_INDEX_MASK

/-- 8-byte eBPF instruction (`struct bpf_insn`). -/
structure BpfInsn where
  code : UInt8
  regs : UInt8
  off : Int16
  imm : Int32
  deriving DecidableEq, Repr

namespace BpfInsn

def new (code dst src : UInt8) (off : Int16) (imm : Int32) : BpfInsn :=
  ⟨code, (src <<< 4) ||| (dst &&& 0x0f), off, imm⟩

variable (insn : BpfInsn)

def dstReg : Nat := (insn.regs &&& 0x0f).toNat

def srcReg : Nat := ((insn.regs >>> 4) &&& 0x0f).toNat

def cls : UInt8 := insn.code &&& 0x07

def size : UInt8 := insn.code &&& 0x18

def mode : UInt8 := insn.code &&& 0xe0

def op : UInt8 := insn.code &&& 0xf0

def isSrcImm : Bool := (insn.code &&& 0x08) == BPF_K

def isLdImm64 : Bool := insn.code == (BPF_LD ||| BPF_IMM ||| BPF_DW)

def isExit : Bool := insn.code == (BPF_JMP ||| BPF_EXIT)

def isCall : Bool := insn.code == (BPF_JMP ||| BPF_CALL)

def isJa : Bool := insn.code == (BPF_JMP ||| BPF_JA)

def isJmp : Bool := insn.cls == BPF_JMP

def isJmp32 : Bool := insn.cls == BPF_JMP32

def memSizeBytes : Except LinuxError Nat :=
  if insn.size = BPF_B then .ok 1
  else if insn.size = BPF_H then .ok 2
  else if insn.size = BPF_W then .ok 4
  else if insn.size = BPF_DW then .ok 8
  else .error .EINVAL

end BpfInsn

/-! ## Facts about the encoding -/

/-- A property of every byte is checked byte by byte. -/
theorem UInt8.forall_of_bitVec {P : UInt8 → Prop} (h : ∀ b : BitVec 8, P ⟨b⟩) (c : UInt8) : P c :=
  h c.toBitVec

variable (insn : BpfInsn)

theorem memSizeBytes_cases :
    insn.memSizeBytes = .ok 1 ∨ insn.memSizeBytes = .ok 2 ∨ insn.memSizeBytes = .ok 4 ∨
      insn.memSizeBytes = .ok 8 := by
  unfold BpfInsn.memSizeBytes BpfInsn.size
  generalize insn.code = c
  revert c
  apply UInt8.forall_of_bitVec
  decide

theorem isLdImm64_cls (h : insn.isLdImm64 = true) : insn.cls = BPF_LD := by
  unfold BpfInsn.isLdImm64 at h
  rw [beq_iff_eq] at h
  unfold BpfInsn.cls
  rw [h]
  decide

theorem off_bounds : -2 ^ 15 ≤ insn.off.toInt ∧ insn.off.toInt < 2 ^ 15 :=
  ⟨insn.off.le_toInt, insn.off.toInt_lt⟩

theorem imm_bounds : -2 ^ 31 ≤ insn.imm.toInt ∧ insn.imm.toInt < 2 ^ 31 :=
  ⟨insn.imm.le_toInt, insn.imm.toInt_lt⟩

end PulseOS.Bpf
