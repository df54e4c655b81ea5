import PulseOS.Lib.Bitmap

/-!
# Signal frames

* `TrapFrame`, `FpState`, `SavedSignalContext` — what the kernel keeps of an interrupted thread.
* `Memory` — user memory as the kernel reads it: every read may see other bytes, and may fail.
* `restoreUserSignalContext`, `restoreUserSignalFpState` — the reads of `rt_sigreturn`.
* `restoreFromSigreturn` — the whole call, with every effect on the thread.
* `deliverHandler`, `ThreadSignal.setBlockedMask`, … — the other operations that change the mask or
  the stack of saved contexts.
-/

namespace PulseOS.Signal

def NSIG : Nat := 64

def SIGKILL : Nat := 9

def sigBit (sig : Nat) : Option (BitVec 64) :=
  if 1 ≤ sig ∧ sig ≤ NSIG then some (1#64 <<< (sig - 1)) else none

end PulseOS.Signal

namespace PulseOS.Signal.Frame

inductive Arch where
  | riscv64
  | loongarch64
  deriving DecidableEq

inductive AxError where
  | badAddress
  | invalidInput
  deriving DecidableEq

abbrev Usize := BitVec 64

namespace Arch

def sp : Arch → Fin 32
  | .riscv64 => 2
  | .loongarch64 => 3

/-- The index of the first argument register. -/
def a0 : Arch → Fin 32
  | .riscv64 => 10
  | .loongarch64 => 4

/-- The index of the return address, on both. -/
def ra : Fin 32 := 1

/-- Where the general registers are in a `ucontext`. -/
def gregsOffset : Arch → Nat
  | .riscv64 => 176
  | .loongarch64 => 184

def MINSIGSTKSZ : Arch → Nat
  | .riscv64 => 2048
  | .loongarch64 => 4096

end Arch

def SIGINFO_FRAME_SIZE : Nat := 128

def UCONTEXT_FRAME_SIZE : Nat := 1024

def UCONTEXT_STACK_OFFSET : Nat := 16

def UCONTEXT_STACK_FLAGS_OFFSET : Nat := UCONTEXT_STACK_OFFSET + 8

def UCONTEXT_STACK_SIZE_OFFSET : Nat := UCONTEXT_STACK_OFFSET + 2 * 8

def UCONTEXT_SIGMASK_OFFSET : Nat := 40

def UCONTEXT_PC_OFFSET : Nat := 176

def RISCV_D_FPU_OFFSET : Nat := UCONTEXT_PC_OFFSET + 32 * 8

def RISCV_D_FCSR_OFFSET : Nat := RISCV_D_FPU_OFFSET + 32 * 8

def RISCV_EXT_RESERVED_OFFSET : Nat := RISCV_D_FPU_OFFSET + 129 * 4

def RISCV_EXT_HEADER_OFFSET : Nat := RISCV_EXT_RESERVED_OFFSET + 4

def LOONGARCH_SC_FLAGS_OFFSET : Nat := UCONTEXT_PC_OFFSET + 8 + 32 * 8

def LOONGARCH_SC_EXTCONTEXT_OFFSET : Nat := LOONGARCH_SC_FLAGS_OFFSET + 8

def LOONGARCH_SCTX_INFO_SIZE : Nat := 16

def LOONGARCH_LSX_CONTEXT_SIZE : Nat := 32 * 16 + 8 + 8

def LOONGARCH_LSX_CONTEXT_OFFSET : Nat := LOONGARCH_SC_EXTCONTEXT_OFFSET + LOONGARCH_SCTX_INFO_SIZE

def LOONGARCH_LSX_HEADER_SIZE_OFFSET : Nat := LOONGARCH_SC_EXTCONTEXT_OFFSET + 4

def LOONGARCH_LSX_FCC_OFFSET : Nat := LOONGARCH_LSX_CONTEXT_OFFSET + 32 * 16

def LOONGARCH_LSX_FCSR_OFFSET : Nat := LOONGARCH_LSX_FCC_OFFSET + 8

def LOONGARCH_LSX_FRAME_SIZE : Nat := LOONGARCH_SCTX_INFO_SIZE + LOONGARCH_LSX_CONTEXT_SIZE

def LOONGARCH_SC_USED_FP : BitVec 32 := 1

def LOONGARCH_LSX_CTX_MAGIC : BitVec 32 := 0x53580001

def SA_ONSTACK : BitVec 64 := 0x08000000

def SA_NODEFER : BitVec 64 := 0x40000000

def SS_ONSTACK : BitVec 32 := 1

def SS_DISABLE : BitVec 32 := 2

def SS_AUTODISARM : BitVec 32 := 0x80000000

def SS_FLAG_BITS : BitVec 32 := SS_AUTODISARM

def SIGSTOP : Nat := 19

structure TrapFrame where
  regs : Fin 32 → Usize
  /-- `sepc` or `era`. -/
  pc : Usize
  /-- `sstatus` or `prmd`. -/
  status : Usize
  /-- The padding words of `loongarch64`. -/
  pad : Usize × Usize

/-- The floating-point registers as bytes; `fcc` is there on `loongarch64`, `fs` on `riscv64`. -/
structure FpState where
  fp : List (BitVec 8)
  fcc : List (BitVec 8)
  fcsr : BitVec 32
  fs : Nat

def FpState.default : FpState := ⟨List.replicate 512 0, List.replicate 8 0, 0, 0⟩

structure SignalAltStack where
  sp : Usize
  size : Usize
  flags : BitVec 32

namespace SignalAltStack

def disabled : SignalAltStack := ⟨0, 0, SS_DISABLE⟩

variable (stack : SignalAltStack)

def isDisabled : Bool := stack.flags &&& SS_DISABLE != 0

def isActive : Bool := stack.flags &&& SS_ONSTACK != 0

def isAutodisarm : Bool := stack.flags &&& SS_AUTODISARM != 0

def contains (sp : Usize) : Bool := !stack.isDisabled && decide (sp - stack.sp < stack.size)

def withoutRuntimeFlags : SignalAltStack := { stack with flags := stack.flags &&& ~~~SS_ONSTACK }

def setActiveForSp (sp : Usize) : SignalAltStack :=
  let stack := stack.withoutRuntimeFlags
  if stack.contains sp then { stack with flags := stack.flags ||| SS_ONSTACK } else stack

def fromUserParts (sp size : Usize) (flags : BitVec 32) : Option SignalAltStack :=
  let mode := flags &&& ~~~SS_FLAG_BITS
  if mode = SS_DISABLE then some ⟨0, 0, SS_DISABLE ||| (flags &&& SS_FLAG_BITS)⟩
  else if mode = 0 ∨ mode = SS_ONSTACK then some ⟨sp, size, flags &&& SS_FLAG_BITS⟩
  else none

end SignalAltStack

structure SavedSignalContext where
  tf : TrapFrame
  oldMask : BitVec 64
  userUcontext : Option Nat
  fp : FpState

/-- The bytes that the kernel sees at its `k`-th read of a call. -/
abbrev Memory := Nat → Nat → Option (BitVec 8)

namespace Memory

variable (mem : Memory)

/-- `read_user_bytes`. -/
def readBytes (k addr len : Nat) : Except AxError (List (BitVec 8)) :=
  match (List.range len).mapM fun i => mem k (addr + i) with
  | some bytes => .ok bytes
  | none => .error .badAddress

/-- Little-endian. -/
def decode : List (BitVec 8) → Nat
  | [] => 0
  | byte :: bytes => byte.toNat + 256 * decode bytes

def readUsize (k addr : Nat) : Except AxError Usize :=
  (mem.readBytes k addr 8).map fun bytes => BitVec.ofNat 64 (decode bytes)

def readU32 (k addr : Nat) : Except AxError (BitVec 32) :=
  (mem.readBytes k addr 4).map fun bytes => BitVec.ofNat 32 (decode bytes)

end Memory

/-- `checked_add`, with the error that its callers give. -/
def signalContextAddr (ucontext offset : Nat) : Except AxError Nat :=
  if ucontext + offset < 2 ^ 64 then .ok (ucontext + offset) else .error .badAddress

def sanitizeMask (mask : BitVec 64) : BitVec 64 :=
  let mask := match sigBit SIGKILL with
    | some bit => mask &&& ~~~bit
    | none => mask
  match sigBit SIGSTOP with
  | some bit => mask &&& ~~~bit
  | none => mask

section Restore

variable (arch : Arch) (kernelAspaceBase : Nat) (mem : Memory) (k ucontext : Nat)

def readUserSignalPc : Except AxError Usize := do
  let addr ← signalContextAddr ucontext UCONTEXT_PC_OFFSET
  mem.readUsize k addr

def readUserSignalMask : Except AxError (BitVec 64) := do
  let addr ← signalContextAddr ucontext UCONTEXT_SIGMASK_OFFSET
  mem.readUsize k addr

def readUserSignalAltstack : Except AxError (Option SignalAltStack) := do
  let stackAddr ← signalContextAddr ucontext UCONTEXT_STACK_OFFSET
  let flagsAddr ← signalContextAddr ucontext UCONTEXT_STACK_FLAGS_OFFSET
  let sizeAddr ← signalContextAddr ucontext UCONTEXT_STACK_SIZE_OFFSET
  let sp ← mem.readUsize k stackAddr
  let flags ← mem.readU32 (k + 1) flagsAddr
  let size ← mem.readUsize (k + 2) sizeAddr
  return SignalAltStack.fromUserParts sp size flags

/-- The registers from the 32 words of the `ucontext`; register 0 is not among them. -/
def TrapFrame.setGregs (tf : TrapFrame) (gregs : List (BitVec 8)) : TrapFrame :=
  { tf with regs := fun i =>
      if i = 0 then tf.regs 0
      else BitVec.ofNat 64 (Memory.decode ((gregs.drop (8 * i.val)).take 8)) }

variable (saved : SavedSignalContext)

/-- The reads of registers, program counter, mask and alternate stack. -/
def readUserSignalContext (ucontext : Nat) :
    Except AxError (TrapFrame × BitVec 64 × Option SignalAltStack) := do
  let gregsAddr ← signalContextAddr ucontext arch.gregsOffset
  let gregs ← mem.readBytes 0 gregsAddr (32 * 8)
  let tf := saved.tf.setGregs gregs
  if kernelAspaceBase ≤ (tf.regs arch.sp).toNat then throw .badAddress
  let pc ← readUserSignalPc mem 1 ucontext
  if kernelAspaceBase ≤ pc.toNat then throw .badAddress
  let mask ← readUserSignalMask mem 2 ucontext
  let altstack ← readUserSignalAltstack mem 3 ucontext
  return ({ tf with pc }, mask, altstack.filter fun stack =>
    stack.isDisabled || decide (arch.MINSIGSTKSZ ≤ stack.size.toNat))

def restoreUserSignalContext : Except AxError (TrapFrame × BitVec 64 × Option SignalAltStack) :=
  match saved.userUcontext with
  | none => .ok (saved.tf, saved.oldMask, none)
  | some ucontext => readUserSignalContext arch kernelAspaceBase mem saved ucontext

def readRiscvFpState (ucontext : Nat) : Except AxError FpState := do
  let reserved ← mem.readU32 6 (← signalContextAddr ucontext RISCV_EXT_RESERVED_OFFSET)
  let extMagic ← mem.readU32 7 (← signalContextAddr ucontext RISCV_EXT_HEADER_OFFSET)
  let extSize ← mem.readU32 8 (← signalContextAddr ucontext (RISCV_EXT_HEADER_OFFSET + 4))
  if reserved ≠ 0 ∨ extMagic ≠ 0 ∨ extSize ≠ 0 then throw .invalidInput
  let fp ← mem.readBytes 9 (← signalContextAddr ucontext RISCV_D_FPU_OFFSET) (32 * 8)
  let fcsr ← mem.readU32 10 (← signalContextAddr ucontext RISCV_D_FCSR_OFFSET)
  return { saved.fp with fp, fcsr }

def readLoongarchFpState (ucontext : Nat) : Except AxError FpState := do
  let flags ← mem.readU32 6 (← signalContextAddr ucontext LOONGARCH_SC_FLAGS_OFFSET)
  if flags &&& LOONGARCH_SC_USED_FP = 0 then return .default
  let extcontext ← signalContextAddr ucontext LOONGARCH_SC_EXTCONTEXT_OFFSET
  let magic ← mem.readU32 7 extcontext
  let size ← mem.readU32 8 (← signalContextAddr ucontext LOONGARCH_LSX_HEADER_SIZE_OFFSET)
  if magic ≠ LOONGARCH_LSX_CTX_MAGIC ∨ size.toNat < LOONGARCH_LSX_FRAME_SIZE then
    throw .invalidInput
  let fp ← mem.readBytes 9 (← signalContextAddr ucontext LOONGARCH_LSX_CONTEXT_OFFSET) (32 * 16)
  let fcc ← mem.readBytes 10 (← signalContextAddr ucontext LOONGARCH_LSX_FCC_OFFSET) 8
  let fcsr ← mem.readU32 11 (← signalContextAddr ucontext LOONGARCH_LSX_FCSR_OFFSET)
  return { saved.fp with fp, fcc, fcsr }

def restoreUserSignalFpState : Except AxError FpState :=
  match saved.userUcontext with
  | none => .ok saved.fp
  | some ucontext =>
    match arch with
    | .riscv64 => readRiscvFpState mem saved ucontext
    | .loongarch64 => readLoongarchFpState mem saved ucontext

end Restore

structure ThreadSignal where
  blocked : BitVec 64
  inHandler : Bool
  skipOnce : Bool
  /-- `saved_ctx`, the last one first. -/
  savedCtx : List SavedSignalContext
  altstack : SignalAltStack
  sigsuspendRestore : Option (BitVec 64)

namespace ThreadSignal

def new : ThreadSignal := ⟨0, false, false, [], .disabled, none⟩

variable (s : ThreadSignal)

def setBlockedMask (mask : BitVec 64) : ThreadSignal := { s with blocked := sanitizeMask mask }

def beginSigsuspend (mask : BitVec 64) : ThreadSignal :=
  { s.setBlockedMask mask with sigsuspendRestore := some s.blocked }

def maybeRestoreSigsuspendMask : ThreadSignal :=
  match s.sigsuspendRestore with
  | some old => { s.setBlockedMask old with sigsuspendRestore := none }
  | none => s

def setAltstack (stack : SignalAltStack) : ThreadSignal :=
  { s with altstack := stack.withoutRuntimeFlags }

def enterAltstack : ThreadSignal :=
  if s.altstack.isDisabled then s
  else if s.altstack.isAutodisarm then { s with altstack := .disabled }
  else { s with altstack := { s.altstack with flags := s.altstack.flags ||| SS_ONSTACK } }

def restoreAltstackFromFrame (frame : Option SignalAltStack) (sp : Usize) : ThreadSignal :=
  { s with altstack := (frame.getD s.altstack.withoutRuntimeFlags).setActiveForSp sp }

def resetRuntimeOnExec : ThreadSignal :=
  { s with
    inHandler := false
    skipOnce := false
    savedCtx := []
    sigsuspendRestore := none
    altstack := .disabled }

/-- `prepare_for_forced_signal`, as far as the thread goes. -/
def prepareForForcedSignal (sig : Nat) : ThreadSignal :=
  match sigBit sig with
  | none => s
  | some bit =>
    { s with
      blocked := if s.blocked &&& bit ≠ 0 then s.blocked &&& ~~~bit else s.blocked
      skipOnce := false }

end ThreadSignal

structure Machine where
  tf : TrapFrame
  fp : FpState
  signal : ThreadSignal

structure SigAction where
  handler : Usize
  flags : BitVec 64
  mask : BitVec 64

def signalFrameBase (currentSp : Usize) (actionFlags : BitVec 64) (altstack : SignalAltStack)
    (frameSize : Nat) : Except AxError (Nat × Bool) := do
  let useAltstack := actionFlags &&& SA_ONSTACK != 0 && !altstack.isDisabled && !altstack.isActive &&
    !altstack.contains currentSp
  let stackTop ← if useAltstack then signalContextAddr altstack.sp.toNat altstack.size.toNat
    else pure currentSp.toNat
  if stackTop < frameSize then throw .badAddress
  let frameBase := (stackTop - frameSize) / 16 * 16
  if useAltstack ∧ frameBase < altstack.sp.toNat then throw .badAddress
  return (frameBase, useAltstack)

namespace Machine

variable (m : Machine)

/-- The mask while the handler runs. -/
def handlerMask (sig : Nat) (act : SigAction) : BitVec 64 :=
  let mask := m.signal.blocked ||| act.mask
  sanitizeMask (if act.flags &&& SA_NODEFER = 0 then
    match sigBit sig with
    | some bit => mask ||| bit
    | none => mask
  else mask)

/-- `check_signals_and_deliver` for a signal with a handler.  `written` says whether the frame could
be written to user memory; if not, the thread gets `SIGSEGV` instead. -/
def deliverHandler (arch : Arch) (sig : Nat) (act : SigAction) (trampoline : Usize)
    (written : Bool) : Machine :=
  let restoreMask := m.signal.sigsuspendRestore.getD m.signal.blocked
  let signal := { m.signal with sigsuspendRestore := none }
  match signalFrameBase (m.tf.regs arch.sp) act.flags signal.altstack
      (SIGINFO_FRAME_SIZE + UCONTEXT_FRAME_SIZE), written with
  | .ok (frameBase, usedAltstack), true =>
    let saved : SavedSignalContext :=
      ⟨m.tf, restoreMask, some (frameBase + SIGINFO_FRAME_SIZE), m.fp⟩
    let signal := { signal with savedCtx := saved :: signal.savedCtx }
    let signal := if usedAltstack then signal.enterAltstack else signal
    let regs := Function.update m.tf.regs (arch.a0 + 1) (BitVec.ofNat 64 frameBase)
    let regs := Function.update regs (arch.a0 + 2)
      (BitVec.ofNat 64 (frameBase + SIGINFO_FRAME_SIZE))
    let regs := Function.update regs arch.sp (BitVec.ofNat 64 frameBase)
    let regs := Function.update regs arch.a0 (BitVec.ofNat 64 sig)
    let regs := Function.update regs Arch.ra trampoline
    { m with
      tf := { m.tf with regs, pc := act.handler }
      signal := { signal.setBlockedMask (m.handlerMask sig act) with inHandler := true } }
  | _, _ => { m with signal := signal.setBlockedMask restoreMask }

def restoreFromSigreturn (arch : Arch) (kernelAspaceBase : Nat) (mem : Memory) :
    Except AxError Usize × Machine :=
  match m.signal.savedCtx with
  | [] => (.error .invalidInput, m)
  | saved :: rest =>
    match restoreUserSignalContext arch kernelAspaceBase mem saved with
    | .error e => (.error e, m)
    | .ok (tf, mask, altstack) =>
      match restoreUserSignalFpState arch mem saved with
      | .error e => (.error e, m)
      | .ok fp =>
        let signal := { m.signal with savedCtx := rest, blocked := sanitizeMask mask }
        let signal := signal.restoreAltstackFromFrame altstack (tf.regs arch.sp)
        (.ok (tf.regs arch.a0),
          { tf, fp, signal := { signal with inHandler := !rest.isEmpty, skipOnce := true } })

end Machine

end PulseOS.Signal.Frame
