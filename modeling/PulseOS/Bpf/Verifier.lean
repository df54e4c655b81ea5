import PulseOS.Bpf.Insn
import PulseOS.Bpf.Map
import PulseOS.Lib.Worklist

/-!
# The eBPF verifier

Model of `verify_program`.  Pass 1 (`checkInsns`, `buildCfg`) looks at the instructions
one by one and at the control-flow graph; pass 2 (`simulate`) explores abstract states from a
worklist.

A rejection carries its error and the line it adds to the log.  Indexing panics out of range
and the `i32` offset arithmetic is that of a build with or without overflow checks (`checks`).
-/

namespace PulseOS.Bpf

open Exec

def BPF_MAXINSNS : Nat := 4096
def BPF_MAX_STATES : Nat := 65536
abbrev BPF_STACK_SIZE : Nat := 512
def MAX_CONTEXT_SIZE : Nat := 80

inductive BpfProgType where
  | tracepoint
  | perfEvent
  deriving DecidableEq, Repr

/-- `size_of::<PerfEventContext>()`. -/
def PERF_EVENT_CONTEXT_SIZE : Nat := 48

def maxContextSizeForProgType : BpfProgType → Nat
  | .perfEvent => PERF_EVENT_CONTEXT_SIZE
  | .tracepoint => MAX_CONTEXT_SIZE

structure VerifierConfig where
  progType : BpfProgType
  logLevel : UInt32
  maxInsns : Nat
  maxStates : Nat

def VerifierConfig.new (progType : BpfProgType) (logLevel : UInt32) : VerifierConfig :=
  { progType, logLevel, maxInsns := BPF_MAXINSNS, maxStates := BPF_MAX_STATES }

/-- What `resolve_map` answers to a file descriptor; the calls are numbered, since the
descriptor table may change between them. -/
abbrev MapResolver := Nat → UInt32 → Except LinuxError MapRef

structure VerifierLog where
  buffer : String := ""
  trueSize : Nat := 0
  deriving DecidableEq, Repr

def VerifierLog.append (log : VerifierLog) (idx : Nat) (msg : String) : VerifierLog :=
  let line := s!"{idx}: {msg}\n"
  { buffer := log.buffer ++ line, trueSize := log.trueSize + line.utf8ByteSize }

/-- A rejection: the error returned, and the instruction and text it is logged with. -/
structure Reject where
  errno : LinuxError
  line : Option (Nat × String)
  deriving DecidableEq, Repr

def reject {α : Type} (pc : Nat) (msg : String) (e : LinuxError) : Exec Reject α :=
  err ⟨e, some (pc, msg)⟩

structure VerifiedProgram where
  progType : BpfProgType
  insns : List BpfInsn
  referencedMaps : List MapRef
  deriving DecidableEq

inductive RegType where
  | notInit
  | scalar
  | ptrContext (off : Int)
  | ptrStack (off : Int)
  | ptrMap (mapIdx : Nat)
  | ptrMapValue (mapIdx : Nat) (off : Int) (nullChecked : Bool)
  deriving DecidableEq, Repr

structure VerifierState where
  regs : Vector RegType 11
  stackInit : Vector Bool BPF_STACK_SIZE
  deriving DecidableEq

namespace VerifierState

def initial : VerifierState where
  regs := ((Vector.replicate 11 .notInit).set BPF_REG_1 (.ptrContext 0)).set BPF_REG_10
    (.ptrStack 0)
  stackInit := Vector.replicate BPF_STACK_SIZE false

variable (st : VerifierState)

/-- `state.regs[r]`. -/
def reg (r : Nat) : Exec Reject RegType := vget st.regs r

/-- `state.regs[r] = t`. -/
def setReg (r : Nat) (t : RegType) : Exec Reject VerifierState := do
  let regs ← vset st.regs r t
  .ok { st with regs }

/-- A register that an instruction reads must be initialized. -/
def readReg (pc r : Nat) : Exec Reject RegType := do
  let t ← st.reg r
  if t = .notInit then reject pc s!"read uninitialized register R{r}" .EACCES
  else .ok t

/-- `for b in 0..len { if !state.stack_init[start + b] { .. } }`. -/
def requireInit (start len : Nat) (uninit : Nat → Reject) : Exec Reject Unit :=
  forRange (fun b => do
    let init ← vget st.stackInit (start + b)
    if init then .ok () else err (uninit b)) len

/-- `for b in 0..len { state.stack_init[start + b] = true }`. -/
def markInit (start len : Nat) : Exec Reject VerifierState := do
  let stackInit ← fillRange st.stackInit start true len
  .ok { st with stackInit }

end VerifierState

/-! ## Pass 1: instructions -/

def isMemClass (c : UInt8) : Bool := c == BPF_LD || c == BPF_LDX || c == BPF_ST || c == BPF_STX

/-- The checks of one instruction other than `LD_IMM64`. -/
def checkInsn (i : Nat) (insn : BpfInsn) : Exec Reject Unit :=
  if isMemClass insn.cls ∧ insn.mode = BPF_ATOMIC then
    reject i "atomic operations are not supported in this slice" .EINVAL
  else if isMemClass insn.cls ∧ (insn.mode = BPF_ABS ∨ insn.mode = BPF_IND ∨
      insn.mode = BPF_LEN ∨ insn.mode = BPF_MSH) then
    reject i "unsupported legacy packet mode" .EINVAL
  else if insn.dstReg > 10 ∨ insn.srcReg > 10 then
    reject i "invalid register index > 10" .EINVAL
  else if insn.dstReg = BPF_REG_10 ∧ (insn.cls = BPF_ALU ∨ insn.cls = BPF_ALU64 ∨
      insn.cls = BPF_LD ∨ insn.cls = BPF_LDX) then
    reject i "cannot modify read-only frame pointer R10" .EINVAL
  else if ¬ (insn.cls = BPF_LD ∨ insn.cls = BPF_LDX ∨ insn.cls = BPF_ST ∨ insn.cls = BPF_STX ∨
      insn.cls = BPF_ALU ∨ insn.cls = BPF_JMP ∨ insn.cls = BPF_JMP32 ∨ insn.cls = BPF_ALU64) then
    reject i "unknown instruction class" .EINVAL
  else .ok ()

/-- The index of the next instruction. -/
def nextPc (pc : Nat) (insn : BpfInsn) : Nat := if insn.isLdImm64 then pc + 2 else pc + 1

variable (insns : List BpfInsn)

/-- One round of the first loop, over the index and `is_ld_imm64_slot2`. -/
def checkRound (s : Nat × List Bool) : Exec Reject ((Nat × List Bool) ⊕ List Bool) :=
  let (i, slot2) := s
  if i < insns.length then do
    let insn ← get insns i
    if insn.isLdImm64 then
      if i + 1 ≥ insns.length then
        reject i "incomplete LD_IMM64 instruction at end of program" .EINVAL
      else do
        let second ← get insns (i + 1)
        if second.code ≠ 0 ∨ second.dstReg ≠ 0 ∨ second.srcReg ≠ 0 ∨ second.off ≠ 0 then
          reject (i + 1) "invalid second slot of LD_IMM64 instruction" .EINVAL
        else do
          let slot2 ← set slot2 (i + 1) true
          .ok (.inl (i + 2, slot2))
    else do
      checkInsn i insn
      .ok (.inl (i + 1, slot2))
  else .ok (.inr slot2)

/-- The first loop, with the second slots it marks. -/
def checkInsns : Exec Reject (List Bool) :=
  Loop.iter (checkRound insns) (insns.length + 1) (0, List.replicate insns.length false)

/-! ## Pass 1: control flow -/

def validateJumpTarget (src : Nat) (off : Int16) (n : Nat) (slot2 : List Bool) : Exec Reject Nat :=
  let target : Int := src + 1 + off.toInt
  if target < 0 ∨ target ≥ n then
    reject src s!"out of range jump target {target}" .EINVAL
  else do
    let second ← get slot2 target.toNat
    if second then reject src "jump into second slot of LD_IMM64" .EINVAL
    else if target ≤ src then reject src "backward jump / loop detected" .EINVAL
    else .ok target.toNat

/-- The control-flow successors of instruction `i`. -/
def insnEdges (n : Nat) (slot2 : List Bool) (i : Nat) (insn : BpfInsn) : Exec Reject (List Nat) :=
  let next := nextPc i insn
  if insn.isExit then .ok []
  else if insn.isJa then do
    let target ← validateJumpTarget i insn.off n slot2
    .ok [target]
  else if insn.isJmp ∨ insn.isJmp32 then
    if insn.isCall then
      if next ≥ n then reject i "program falls off end after helper call" .EINVAL
      else .ok [next]
    else do
      let target ← validateJumpTarget i insn.off n slot2
      if next ≥ n then reject i "program falls off end on fall-through" .EINVAL
      else .ok [next, target]
  else if next ≥ n then reject i "program falls off end without exit" .EINVAL
  else .ok [next]

variable (slot2 : List Bool)

/-- One round of the edge loop, over the index and `cfg_edges`. -/
def cfgRound (s : Nat × List (List Nat)) :
    Exec Reject ((Nat × List (List Nat)) ⊕ List (List Nat)) :=
  let (i, edges) := s
  if i < insns.length then do
    let second ← get slot2 i
    if second then .ok (.inl (i + 1, edges))
    else do
      let insn ← get insns i
      let succs ← insnEdges insns.length slot2 i insn
      let old ← get edges i
      let edges ← set edges i (old ++ succs)
      .ok (.inl (if insn.isExit then i + 1 else nextPc i insn, edges))
  else .ok (.inr edges)

def buildCfg : Exec Reject (List (List Nat)) :=
  Loop.iter (cfgRound insns slot2) (insns.length + 1) (0, List.replicate insns.length [])

/-- `for &succ in &cfg_edges[pc] { if !reachable[succ] { .. } }`. -/
def markSuccs : List Nat → List Bool × List Nat → Exec Reject (List Bool × List Nat)
  | [], s => .ok s
  | succ :: rest, (reachable, queue) => do
    let seen ← get reachable succ
    if seen then markSuccs rest (reachable, queue)
    else do
      let reachable ← set reachable succ true
      markSuccs rest (reachable, queue ++ [succ])

/-- `reachable[pc + 1] = true` behind a `LD_IMM64`. -/
def markSlot2 (n : Nat) (insn : BpfInsn) (pc : Nat) (reachable : List Bool) :
    Exec Reject (List Bool) :=
  if insn.isLdImm64 ∧ pc + 1 < n then set reachable (pc + 1) true else .ok reachable

def reachRound (edges : List (List Nat)) (s : List Bool × List Nat) :
    Exec Reject ((List Bool × List Nat) ⊕ List Bool) :=
  match s with
  | (reachable, []) => .ok (.inr reachable)
  | (reachable, pc :: queue) => do
    let insn ← get insns pc
    let reachable ← markSlot2 insns.length insn pc reachable
    let succs ← get edges pc
    let s ← markSuccs succs (reachable, queue)
    .ok (.inl s)

/-- Reachability from instruction 0.  Every round takes an instruction from the queue, and an
instruction enters the queue when it is first reached. -/
def findReachable (edges : List (List Nat)) : Exec Reject (List Bool) := do
  let reachable ← set (List.replicate insns.length false) 0 true
  Loop.iter (reachRound insns edges) (2 * insns.length + 2) (reachable, [0])

def requireReachable (n : Nat) (slot2 reachable : List Bool) : Exec Reject Unit :=
  forRange (fun idx => do
    let seen ← get reachable idx
    if seen then .ok ()
    else do
      let second ← get slot2 idx
      if second then .ok () else reject idx "unreachable instruction" .EINVAL) n

/-! ## Pass 2: memory operands -/

section Simulate

variable (checks : Bool) (config : VerifierConfig) (maps : List MapRef) (pc : Nat)
  (insn : BpfInsn) (st : VerifierState)

/-- `off < lo || off + size > hi`. -/
def outOfBounds (off size lo hi : Int) : Exec Reject Bool :=
  if off < lo then .ok true
  else do
    let top ← arith checks .i32 (off + size)
    .ok (decide (top > hi))

/-- `(BPF_STACK_SIZE as i32 + off) as usize`. -/
def stackIndex (off : Int) : Exec Reject Nat := do
  let idx ← arith checks .i32 (BPF_STACK_SIZE + off)
  .ok (asUsize idx)

/-- A helper's stack argument: in bounds and initialized. -/
def stackArg (off : Int) (size : Nat) (oob uninit : String) : Exec Reject Unit := do
  let bad ← outOfBounds checks off (asI32 size) (-BPF_STACK_SIZE) 0
  if bad then reject pc oob .EACCES
  else do
    let start ← stackIndex checks off
    st.requireInit start size fun _ => ⟨.EACCES, some (pc, uninit)⟩

/-- `insn.mem_size_bytes()?`. -/
def memSize : Exec Reject Nat :=
  match insn.memSizeBytes with
  | .ok n => .ok n
  | .error e => err ⟨e, none⟩

/-- The effective offset of a stack access, bounds and alignment checked; `what` names the
access. -/
def stackAccess (what : String) (off : Int) (size : Nat) : Exec Reject Int := do
  let effOff ← arith checks .i32 (off + insn.off.toInt)
  let bad ← outOfBounds checks effOff size (-BPF_STACK_SIZE) 0
  if bad then reject pc s!"invalid stack {what} at offset {effOff} size {size}" .EACCES
  else do
    let neg ← arith checks .i32 (-effOff)
    if neg.tmod size ≠ 0 then
      reject pc s!"unaligned stack {what} at offset {effOff} size {size}" .EACCES
    else .ok effOff

/-- The bounds check of an access through a map value pointer. -/
def mapValueAccess (what : String) (mapIdx : Nat) (off : Int) (nullChecked : Bool) (size : Nat) :
    Exec Reject Unit :=
  if !nullChecked then
    reject pc "map value pointer must be checked for NULL before dereference" .EACCES
  else do
    let effOff ← arith checks .i32 (off + insn.off.toInt)
    let map ← get maps mapIdx
    let bad ← outOfBounds checks effOff size 0 (asI32 map.spec.valueSize)
    if bad then
      reject pc s!"map value {what} out of bounds at offset {effOff} size {size}" .EACCES
    else .ok ()

/-! ## Pass 2: instructions -/

/-- `if op == BPF_ADD { off + delta } else { off - delta }`. -/
def shiftOff (off : Int) : Exec Reject Int :=
  arith checks .i32 (if insn.op = BPF_ADD then off + insn.imm.toInt else off - insn.imm.toInt)

/-- `!is_src_imm && state.regs[src] != Scalar`. -/
def scalarSrc (msg : String) : Exec Reject Unit :=
  if insn.isSrcImm then .ok ()
  else do
    let t ← st.reg insn.srcReg
    if t ≠ .scalar then reject pc msg .EACCES else .ok ()

variable (t : RegType)

/-- `BPF_ADD` and `BPF_SUB` on a register of type `t`. -/
def simAddSub : Exec Reject VerifierState :=
  let dst := insn.dstReg
  match t with
  | .ptrStack off =>
    if !insn.isSrcImm then
      reject pc "variable stack pointer arithmetic is not supported" .EACCES
    else do
      let newOff ← shiftOff checks insn off
      if newOff < -BPF_STACK_SIZE ∨ newOff > 0 then
        reject pc s!"stack pointer offset out of bounds: {newOff}" .EACCES
      else st.setReg dst (.ptrStack newOff)
  | .ptrContext off =>
    if !insn.isSrcImm then
      reject pc "variable context pointer arithmetic is not supported" .EACCES
    else do
      let newOff ← shiftOff checks insn off
      if newOff < 0 ∨ newOff > maxContextSizeForProgType config.progType then
        reject pc s!"context pointer offset out of bounds: {newOff}" .EACCES
      else st.setReg dst (.ptrContext newOff)
  | .scalar => do
    scalarSrc pc insn st "cannot add pointer to scalar"
    st.setReg dst .scalar
  | .ptrMapValue mapIdx off nullChecked =>
    if !nullChecked then
      reject pc "cannot perform arithmetic on unchecked map value pointer" .EACCES
    else if !insn.isSrcImm then
      reject pc "variable pointer arithmetic on map value is not supported" .EACCES
    else do
      let newOff ← shiftOff checks insn off
      let map ← get maps mapIdx
      if newOff < 0 ∨ newOff > asI32 map.spec.valueSize then
        reject pc "map value pointer offset out of bounds" .EACCES
      else st.setReg dst (.ptrMapValue mapIdx newOff true)
  | _ => reject pc "invalid pointer arithmetic on map pointer" .EACCES

/-- `!is_src_imm && state.regs[src] == NotInit`. -/
def initSrc : Exec Reject Unit :=
  if insn.isSrcImm then .ok ()
  else do
    let _ ← st.readReg pc insn.srcReg
    .ok ()

def simAlu : Exec Reject VerifierState := do
  let dst := insn.dstReg
  initSrc pc insn st
  if insn.op = BPF_MOV then
    if insn.isSrcImm then st.setReg dst .scalar
    else do
      let t ← st.reg insn.srcReg
      st.setReg dst t
  else do
    let t ← st.readReg pc dst
    if insn.op = BPF_ADD ∨ insn.op = BPF_SUB then simAddSub checks config maps pc insn st t
    else if t ≠ .scalar then reject pc "invalid ALU operation on pointer" .EACCES
    else do
      scalarSrc pc insn st "invalid ALU operation with pointer source"
      st.setReg dst .scalar

/-- The check of a load through a register of type `t`. -/
def checkLoad (size : Nat) : Exec Reject Unit :=
  match t with
  | .ptrContext ctxOff => do
    let effOff ← arith checks .i32 (ctxOff + insn.off.toInt)
    let bad ← outOfBounds checks effOff size 0 (maxContextSizeForProgType config.progType)
    if bad then reject pc s!"invalid context access at offset {effOff} size {size}" .EACCES
    else if effOff.tmod size ≠ 0 then
      reject pc s!"unaligned context access at offset {effOff} size {size}" .EACCES
    else .ok ()
  | .ptrStack stkOff => do
    let effOff ← stackAccess checks pc insn "access" stkOff size
    let start ← stackIndex checks effOff
    st.requireInit start size fun b =>
      ⟨.EACCES, some (pc, s!"read uninitialized stack at offset {effOff + b}")⟩
  | .ptrMapValue mapIdx mapOff nullChecked =>
    mapValueAccess checks maps pc insn "access" mapIdx mapOff nullChecked size
  | _ => reject pc s!"invalid load from non-pointer register R{insn.srcReg}" .EACCES

def simLdx : Exec Reject VerifierState := do
  let t ← st.readReg pc insn.srcReg
  let size ← memSize insn
  checkLoad checks config maps pc insn st t size
  st.setReg insn.dstReg .scalar

/-- A store through a register of type `t`. -/
def simStore (size : Nat) : Exec Reject VerifierState :=
  match t with
  | .ptrContext _ => reject pc "cannot write to read-only context" .EACCES
  | .ptrStack stkOff => do
    let effOff ← stackAccess checks pc insn "write" stkOff size
    let start ← stackIndex checks effOff
    st.markInit start size
  | .ptrMapValue mapIdx mapOff nullChecked => do
    mapValueAccess checks maps pc insn "write" mapIdx mapOff nullChecked size
    .ok st
  | _ => reject pc s!"invalid store to non-pointer register R{insn.dstReg}" .EACCES

/-- `class == BPF_STX && state.regs[src] == NotInit`. -/
def initStored : Exec Reject Unit :=
  if insn.cls = BPF_STX then do
    let _ ← st.readReg pc insn.srcReg
    .ok ()
  else .ok ()

def simSt : Exec Reject VerifierState := do
  let t ← st.readReg pc insn.dstReg
  initStored pc insn st
  let size ← memSize insn
  simStore checks maps pc insn st t size

/-! ## Pass 2: helper calls -/

/-- Register `r` must hold a map. -/
def mapArg (r : Nat) (msg : String) : Exec Reject Nat := do
  let t ← st.reg r
  match t with
  | .ptrMap mapIdx => .ok mapIdx
  | _ => reject pc msg .EACCES

def scalarArg (r : Nat) (msg : String) : Exec Reject Unit := do
  let t ← st.reg r
  if t ≠ .scalar then reject pc msg .EACCES else .ok ()

/-- The key of an element helper, behind R2. -/
def keyArg (name : String) (mapIdx : Nat) : Exec Reject Unit := do
  let t ← st.reg BPF_REG_2
  match t with
  | .ptrStack keyOff => do
    let map ← get maps mapIdx
    stackArg checks pc st keyOff map.spec.keySize "key pointer out of stack bounds"
      "read uninitialized key on stack"
  | _ => reject pc s!"{name} R2 must be a pointer to stack key" .EACCES

variable (mapIdx : Nat)

/-- The value of `bpf_map_update_elem`, behind R3. -/
def valueArg : Exec Reject Unit := do
  let t ← st.reg BPF_REG_3
  match t with
  | .ptrStack off => do
    let map ← get maps mapIdx
    stackArg checks pc st off map.spec.valueSize "value pointer out of stack bounds"
      "read uninitialized value on stack"
  | .ptrMapValue _ _ nullChecked =>
    if !nullChecked then
      reject pc "map value pointer must be null checked before passing to update" .EACCES
    else .ok ()
  | _ => reject pc "bpf_map_update_elem R3 must be a pointer to value" .EACCES

/-- The data of an output helper, behind register `r`; `context` allows the context. -/
def dataArg (name : String) (r : Nat) (context : Bool) : Exec Reject Unit := do
  let t ← st.reg r
  match t with
  | .ptrStack off =>
    if off < -BPF_STACK_SIZE ∨ off > 0 then
      reject pc s!"{name} R{r} data pointer out of stack bounds" .EACCES
    else .ok ()
  | .ptrMapValue _ _ nullChecked =>
    if !nullChecked then
      reject pc "map value pointer must be null checked before passing to output" .EACCES
    else .ok ()
  | .ptrContext _ =>
    if context then .ok ()
    else reject pc s!"{name} R{r} must be pointer to memory" .EACCES
  | _ => reject pc s!"{name} R{r} must be pointer to memory" .EACCES

/-- The map behind `mapIdx` must not be read-only for programs. -/
def writableMap (msg : String) : Exec Reject Unit := do
  let map ← get maps mapIdx
  if map.spec.RdonlyProg then reject pc msg .EACCES else .ok ()

/-- Clobbers the caller-saved registers and sets R0. -/
def callReturn (r0 : RegType) : Exec Reject VerifierState := do
  let st ← st.setReg BPF_REG_1 .notInit
  let st ← st.setReg BPF_REG_2 .notInit
  let st ← st.setReg BPF_REG_3 .notInit
  let st ← st.setReg BPF_REG_4 .notInit
  let st ← st.setReg BPF_REG_5 .notInit
  st.setReg BPF_REG_0 r0

def simLookup : Exec Reject VerifierState := do
  let mapIdx ← mapArg pc st BPF_REG_1 "bpf_map_lookup_elem R1 must be a valid BPF map pointer"
  keyArg checks maps pc st "bpf_map_lookup_elem" mapIdx
  callReturn st (.ptrMapValue mapIdx 0 false)

def simUpdate : Exec Reject VerifierState := do
  let mapIdx ← mapArg pc st BPF_REG_1 "bpf_map_update_elem R1 must be a valid BPF map pointer"
  writableMap maps pc mapIdx "cannot write to read-only map"
  keyArg checks maps pc st "bpf_map_update_elem" mapIdx
  valueArg checks maps pc st mapIdx
  scalarArg pc st BPF_REG_4 "bpf_map_update_elem R4 flags must be a scalar"
  callReturn st .scalar

/-- Array elements cannot be deleted. -/
def deletableMap : Exec Reject Unit := do
  let map ← get maps mapIdx
  if map.spec.mapType = .array then reject pc "cannot delete from array map" .EINVAL
  else writableMap maps pc mapIdx "cannot delete from read-only map"

def simDelete : Exec Reject VerifierState := do
  let mapIdx ← mapArg pc st BPF_REG_1 "bpf_map_delete_elem R1 must be a valid BPF map pointer"
  deletableMap maps pc mapIdx
  keyArg checks maps pc st "bpf_map_delete_elem" mapIdx
  callReturn st .scalar

/-- The map of an output helper must be of type `t`. -/
def typedMap (t : BpfMapType) (msg : String) : Exec Reject Unit := do
  let map ← get maps mapIdx
  if map.spec.mapType ≠ t then reject pc msg .EINVAL else .ok ()

def contextArg : Exec Reject Unit := do
  let t ← st.reg BPF_REG_1
  match t with
  | .ptrContext _ => .ok ()
  | _ => reject pc "bpf_perf_event_output R1 must be context pointer" .EACCES

def simPerfEventOutput : Exec Reject VerifierState := do
  contextArg pc st
  let mapIdx ← mapArg pc st BPF_REG_2 "bpf_perf_event_output R2 must be a valid BPF map pointer"
  typedMap maps pc mapIdx .perfEventArray "bpf_perf_event_output R2 must be a PERF_EVENT_ARRAY map"
  scalarArg pc st BPF_REG_3 "bpf_perf_event_output R3 flags must be a scalar"
  dataArg pc st "bpf_perf_event_output" BPF_REG_4 false
  scalarArg pc st BPF_REG_5 "bpf_perf_event_output R5 size must be a scalar"
  callReturn st .scalar

def simRingbufOutput : Exec Reject VerifierState := do
  let mapIdx ← mapArg pc st BPF_REG_1 "bpf_ringbuf_output R1 must be a valid BPF map pointer"
  typedMap maps pc mapIdx .ringBuf "bpf_ringbuf_output R1 must be a RINGBUF map"
  dataArg pc st "bpf_ringbuf_output" BPF_REG_2 true
  scalarArg pc st BPF_REG_3 "bpf_ringbuf_output R3 size must be a scalar"
  scalarArg pc st BPF_REG_4 "bpf_ringbuf_output R4 flags must be a scalar"
  callReturn st .scalar

def simCall : Exec Reject VerifierState :=
  let helper := insn.imm
  if helper = BPF_FUNC_MAP_LOOKUP_ELEM then simLookup checks maps pc st
  else if helper = BPF_FUNC_MAP_UPDATE_ELEM then simUpdate checks maps pc st
  else if helper = BPF_FUNC_MAP_DELETE_ELEM then simDelete checks maps pc st
  else if helper = BPF_FUNC_KTIME_GET_NS then callReturn st .scalar
  else if helper = BPF_FUNC_GET_SMP_PROCESSOR_ID then callReturn st .scalar
  else if helper = BPF_FUNC_PERF_EVENT_OUTPUT then simPerfEventOutput maps pc st
  else if helper = BPF_FUNC_RINGBUF_OUTPUT then simRingbufOutput maps pc st
  else if helper = BPF_FUNC_RINGBUF_RESERVE ∨ helper = BPF_FUNC_RINGBUF_SUBMIT ∨
      helper = BPF_FUNC_RINGBUF_DISCARD ∨ helper = BPF_FUNC_RINGBUF_QUERY then
    reject pc s!"ring buffer helper {helper.toInt} unsupported" .EOPNOTSUPP
  else reject pc s!"unsupported helper call ID {helper.toInt}" .EINVAL

/-! ## Pass 2: jumps -/

/-- `(pc as isize + 1 + insn.off as isize) as usize`. -/
def jumpTarget : Nat := isizeAsUsize (pc + 1 + insn.off.toInt)

def simExit : Exec Reject Unit := do
  let t ← st.reg BPF_REG_0
  match t with
  | .notInit => reject pc "R0 not initialized at exit" .EACCES
  | .scalar => .ok ()
  | _ => reject pc "R0 contains pointer at exit" .EACCES

/-- The register types after a comparison: on fall-through, and at the jump target.  A map
value pointer compared with zero is refined. -/
def refineNull : RegType × RegType :=
  match t with
  | .ptrMapValue mapIdx off _ =>
    if insn.isSrcImm ∧ insn.imm = 0 then
      if insn.op = BPF_JNE then (.scalar, .ptrMapValue mapIdx off true)
      else if insn.op = BPF_JEQ then (.ptrMapValue mapIdx off true, .scalar)
      else (t, t)
    else (t, t)
  | _ => (t, t)

def simCondJump : Exec Reject (List (Nat × VerifierState)) := do
  let t ← st.readReg pc insn.dstReg
  initSrc pc insn st
  let (fall, jump) := refineNull insn t
  let stFall ← st.setReg insn.dstReg fall
  let stJump ← st.setReg insn.dstReg jump
  .ok [(nextPc pc insn, stFall), (jumpTarget pc insn, stJump)]

def simJmp : Exec Reject (List (Nat × VerifierState)) :=
  if insn.isExit then do
    simExit pc st
    .ok []
  else if insn.isJa then .ok [(jumpTarget pc insn, st)]
  else if insn.isCall then do
    let st ← simCall checks maps pc insn st
    .ok [(nextPc pc insn, st)]
  else simCondJump pc insn st

/-- The successors of an abstract state at an instruction other than `LD_IMM64`. -/
def simInsn : Exec Reject (List (Nat × VerifierState)) :=
  if insn.cls = BPF_ALU ∨ insn.cls = BPF_ALU64 then do
    let st ← simAlu checks config maps pc insn st
    .ok [(nextPc pc insn, st)]
  else if insn.cls = BPF_LDX then do
    let st ← simLdx checks config maps pc insn st
    .ok [(nextPc pc insn, st)]
  else if insn.cls = BPF_ST ∨ insn.cls = BPF_STX then do
    let st ← simSt checks maps pc insn st
    .ok [(nextPc pc insn, st)]
  else if insn.cls = BPF_JMP ∨ insn.cls = BPF_JMP32 then simJmp checks maps pc insn st
  else reject pc "unhandled instruction class" .EINVAL

end Simulate

/-! ## Pass 2: the exploration -/

/-- What the simulated paths share: `referenced_maps` and `relocations`. -/
structure Refs where
  maps : List MapRef
  relocations : List (Nat × Nat)

/-- The index of a map, which is added when its id is new. -/
def Refs.mapIndex (refs : Refs) (map : MapRef) : Nat × List MapRef :=
  match refs.maps.findIdx? (fun m => m.id == map.id) with
  | some idx => (idx, refs.maps)
  | none => (refs.maps.length, refs.maps ++ [map])

/-- `LD_IMM64` of a map: resolves the descriptor and records the relocation. -/
def loadMap (resolver : Option MapResolver) (call : Nat) (refs : Refs) (pc : Nat)
    (insn : BpfInsn) : Exec Reject (Nat × Refs) :=
  let mapFd := insn.imm.toUInt32
  match resolver with
  | none => reject pc "no map resolver provided to resolve map fd" .EBADF
  | some resolve =>
    match resolve call mapFd with
    | .error e => reject pc s!"failed to resolve map fd {mapFd}: {e.name}" e
    | .ok map =>
      let (mapIdx, maps) := refs.mapIndex map
      let relocations :=
        if refs.relocations.any (·.1 == pc) then refs.relocations
        else refs.relocations ++ [(pc, mapIdx)]
      .ok (mapIdx, { maps, relocations })

variable (checks : Bool) (config : VerifierConfig) (insns : List BpfInsn)
  (resolver : Option MapResolver)

/-- One abstract state at one instruction. -/
def simulate (call : Nat) (refs : Refs) (s : Nat × VerifierState) :
    Exec Reject (List (Nat × VerifierState) × Refs) := do
  let (pc, st) := s
  let insn ← get insns pc
  if insn.isLdImm64 then
    if insn.srcReg = BPF_PSEUDO_MAP_FD then do
      let (mapIdx, refs) ← loadMap resolver call refs pc insn
      let st ← st.setReg insn.dstReg (.ptrMap mapIdx)
      .ok ([(nextPc pc insn, st)], refs)
    else do
      let st ← st.setReg insn.dstReg .scalar
      .ok ([(nextPc pc insn, st)], refs)
  else do
    let succs ← simInsn checks config refs.maps pc insn st
    .ok (succs, refs)

def explorer : Worklist.Explorer Reject (Nat × VerifierState) Refs where
  budget := config.maxStates
  overrun := fun s => ⟨.E2BIG, some (s.1, "verifier state budget exceeded")⟩
  visit := simulate checks config insns resolver

/-- `for (pc, map_idx) in relocations { relocated_insns[pc].imm = map_idx as i32 }`. -/
def relocate (insns : List BpfInsn) : List (Nat × Nat) → Exec Reject (List BpfInsn)
  | [] => .ok insns
  | (pc, mapIdx) :: rest => do
    let insn ← get insns pc
    let insns ← set insns pc { insn with imm := Int32.ofNat mapIdx }
    relocate insns rest

/-! ## The verifier -/

/-- Pass 1, with the second slots of `LD_IMM64`. -/
def pass1 : Exec Reject (List Bool) := do
  let slot2 ← checkInsns insns
  let edges ← buildCfg insns slot2
  let reachable ← findReachable insns edges
  requireReachable insns.length slot2 reachable
  .ok slot2

/-- Pass 2 and the relocation of the instructions. -/
def pass2 : Exec Reject VerifiedProgram := do
  let (_, refs) ← Worklist.explore (explorer checks config insns resolver)
    (0, VerifierState.initial) ⟨[], []⟩
  let relocated ← relocate insns refs.relocations
  .ok { progType := config.progType, insns := relocated, referencedMaps := refs.maps }

def checkProgram : Exec Reject VerifiedProgram :=
  if insns.length = 0 then reject 0 "program has 0 instructions" .EINVAL
  else if insns.length > config.maxInsns then
    reject 0 "program exceeds maximum instruction limit" .E2BIG
  else do
    let _ ← pass1 insns
    pass2 checks config insns resolver

/-- `verify_program`, with the log it leaves behind. -/
def verifyProgram (log : VerifierLog) : Exec LinuxError VerifiedProgram × VerifierLog :=
  match checkProgram checks config insns resolver with
  | .error (.err r) =>
    (err r.errno, match r.line with
      | some (pc, msg) => log.append pc msg
      | none => log)
  | .ok vp => (.ok vp, log)
  | .error (.panic f) => (panic f, log)
  | .error .hang => (.error .hang, log)

end PulseOS.Bpf
