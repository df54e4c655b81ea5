import PulseOS.Bpf.Verifier

/-!
# The eBPF interpreter

Model of `interpreter::execute`: a register machine over tagged values (`VmValue`), a stack whose
bytes are tracked as initialized or not, and the lookups a program has made in hash maps.
`step` is one iteration of the main loop; `execute` runs it.

What the surroundings answer (`BpfEnv`, and the perf events behind a perf event array) is given
as functions of the step at which they are asked.
-/

namespace PulseOS.Bpf

open Exec

def BPF_MAX_STEPS : Nat := 65536
def BPF_MAX_RECURSION_DEPTH : Nat := 4
def BPF_MAX_LOOKUP_REFS : Nat := 64
abbrev BPF_MAX_CPUS : Nat := 16

inductive BpfVmError where
  | stepLimitExceeded
  | recursionLimitExceeded
  | invalidInstruction
  | uninitializedRegister (r : UInt8)
  | uninitializedStack (offset : Int) (size : Nat)
  | nullPointerDereference
  | outOfBoundsAccess
  | unalignedMemoryAccess
  | readOnlyAccess
  | invalidHelperCall (id : Int32)
  | helperFailed (e : LinuxError)
  | divideByZero
  deriving DecidableEq, Repr

structure BpfEnv where
  ktimeGetNs : Nat → UInt64
  getSmpProcessorId : Nat → UInt32
  /-- what the perf event behind a slot answers to a sample -/
  outputSample : Nat → PerfEventOutputSink → Bytes → Except LinuxError Unit

inductive VmValue where
  | uninit
  | scalar (v : UInt64)
  | ptrContext (offset : Nat)
  | ptrStack (offset : Nat)
  | ptrMap (mapIdx : Nat)
  | ptrMapValueArray (mapIdx : Nat) (entryIdx : UInt32) (offset : Nat)
  | ptrMapValueHash (mapIdx : Nat) (lookupId : UInt8) (offset : Nat)
  | null
  deriving DecidableEq, Repr

def VmValue.asScalar : VmValue → Exec BpfVmError UInt64
  | .scalar v => .ok v
  | .null => .ok 0
  | .uninit => err (.uninitializedRegister 0)
  | _ => err .invalidInstruction

structure ActiveLookup where
  mapIdx : Nat
  key : Vector UInt8 BPF_MAP_MAX_KEY_SIZE
  keyLen : Nat

/-- `&l.key[..l.key_len]`. -/
def ActiveLookup.keyBytes (l : ActiveLookup) : Exec BpfVmError Bytes := vslice l.key 0 l.keyLen

structure Vm where
  regs : Vector VmValue 11
  stack : Vector UInt8 BPF_STACK_SIZE
  stackInit : Vector Bool BPF_STACK_SIZE
  lookups : List ActiveLookup
  pc : Nat
  steps : Nat
  maps : List BpfMap

namespace Vm

def start (maps : List BpfMap) : Vm where
  regs := ((Vector.replicate 11 .uninit).set BPF_REG_1 (.ptrContext 0) (by decide : 1 < 11)).set
    BPF_REG_10 (.ptrStack BPF_STACK_SIZE) (by decide : 10 < 11)
  stack := Vector.replicate BPF_STACK_SIZE 0
  stackInit := Vector.replicate BPF_STACK_SIZE false
  lookups := []
  pc := 0
  steps := 0
  maps := maps

variable (vm : Vm)

/-- `regs[r]`. -/
def reg (r : Nat) : Exec BpfVmError VmValue := vget vm.regs r

/-- `regs[r] = v; pc += len`. -/
def setReg (r : Nat) (v : VmValue) (len : Nat) : Exec BpfVmError Vm := do
  let regs ← vset vm.regs r v
  .ok { vm with regs, pc := vm.pc + len }

/-- `regs[r].as_scalar()?`. -/
def scalarReg (r : Nat) : Exec BpfVmError UInt64 := do
  let v ← vm.reg r
  v.asScalar

/-- `maps.get(map_idx).ok_or(OutOfBoundsAccess)?`. -/
def getMap (mapIdx : Nat) : Exec BpfVmError BpfMap := okOr .outOfBoundsAccess vm.maps[mapIdx]?

def setMap (mapIdx : Nat) (map : BpfMap) : Vm := { vm with maps := vm.maps.set mapIdx map }

/-- Sets R0, `regs[1..=5].fill(Uninit)` and `pc += 1` at the end of a helper call. -/
def callReturn (r0 : VmValue) : Exec BpfVmError Vm := do
  let regs ← vset vm.regs BPF_REG_0 r0
  let regs ← fillRange regs BPF_REG_1 .uninit 5
  .ok { vm with regs, pc := vm.pc + 1 }

end Vm

/-- `(-(e.code() as i64)) as u64`. -/
def errnoReturn (e : LinuxError) : UInt64 := UInt64.ofInt (-(e.code : Int))

/-- `match r { Ok(()) => 0, Err(e) => -e }`. -/
def helperReturn {α : Type} : Except LinuxError α → VmValue
  | .ok _ => .scalar 0
  | .error e => .scalar (errnoReturn e)

/-! ## Arithmetic -/

/-- The 32-bit operations other than `BPF_MOV`. -/
def alu32 (op : UInt8) (imm : Int32) (dst src : UInt32) : Exec BpfVmError UInt32 :=
  if op = BPF_ADD then .ok (dst + src)
  else if op = BPF_SUB then .ok (dst - src)
  else if op = BPF_MUL then .ok (dst * src)
  else if op = BPF_DIV then if src = 0 then err .divideByZero else .ok (dst / src)
  else if op = BPF_MOD then if src = 0 then err .divideByZero else .ok (dst % src)
  else if op = BPF_OR then .ok (dst ||| src)
  else if op = BPF_AND then .ok (dst &&& src)
  else if op = BPF_LSH then .ok (dst <<< (src &&& 31))
  else if op = BPF_RSH then .ok (dst >>> (src &&& 31))
  else if op = BPF_ARSH then .ok (dst.toInt32 >>> (src &&& 31).toInt32).toUInt32
  else if op = BPF_NEG then .ok (-dst.toInt32).toUInt32
  else if op = BPF_XOR then .ok (dst ^^^ src)
  else if op = BPF_END then
    if imm = 16 then .ok dst.toUInt16.toUInt32
    else if imm = 32 then .ok dst
    else err .invalidInstruction
  else err .invalidInstruction

/-- The 64-bit operations other than `BPF_MOV` and pointer arithmetic. -/
def alu64 (op : UInt8) (imm : Int32) (dst src : UInt64) : Exec BpfVmError UInt64 :=
  if op = BPF_ADD then .ok (dst + src)
  else if op = BPF_SUB then .ok (dst - src)
  else if op = BPF_MUL then .ok (dst * src)
  else if op = BPF_DIV then if src = 0 then err .divideByZero else .ok (dst / src)
  else if op = BPF_MOD then if src = 0 then err .divideByZero else .ok (dst % src)
  else if op = BPF_OR then .ok (dst ||| src)
  else if op = BPF_AND then .ok (dst &&& src)
  else if op = BPF_LSH then .ok (dst <<< (src &&& 63))
  else if op = BPF_RSH then .ok (dst >>> (src &&& 63))
  else if op = BPF_ARSH then .ok (dst.toInt64 >>> (src &&& 63).toInt64).toUInt64
  else if op = BPF_NEG then .ok (-dst.toInt64).toUInt64
  else if op = BPF_XOR then .ok (dst ^^^ src)
  else if op = BPF_END then if imm = 64 then .ok dst else err .invalidInstruction
  else err .invalidInstruction

def evalJumpCondition (op : UInt8) (du su : UInt64) (ds ss : Int64) : Exec BpfVmError Bool :=
  if op = BPF_JEQ then .ok (du == su)
  else if op = BPF_JNE then .ok (du != su)
  else if op = BPF_JGT then .ok (decide (du > su))
  else if op = BPF_JGE then .ok (decide (du ≥ su))
  else if op = BPF_JLT then .ok (decide (du < su))
  else if op = BPF_JSGT then .ok (decide (ds > ss))
  else if op = BPF_JSGE then .ok (decide (ds ≥ ss))
  else if op = BPF_JSLT then .ok (decide (ds < ss))
  else if op = BPF_JSLE then .ok (decide (ds ≤ ss))
  else if op = BPF_JSET then .ok ((du &&& su) != 0)
  else if op = BPF_JLE then .ok (decide (du ≤ su))
  else err .invalidInstruction

/-- `match size { 1 => .., 2 => .., 4 => .., 8 => .., _ => .. }` on the bytes at `eff`. -/
def fromNeBytes (mem : Bytes) (eff size : Nat) : Exec BpfVmError UInt64 :=
  if size = 1 ∨ size = 2 ∨ size = 4 ∨ size = 8 then do
    let bytes ← slice mem eff (eff + size)
    .ok (UInt64.ofNat (leNat bytes))
  else err .invalidInstruction

section Step

variable (checks : Bool) (insns : List BpfInsn) (context : Bytes) (env : BpfEnv)
  (insn : BpfInsn) (vm : Vm)

/-- `insn.imm as i64 as u64`. -/
def immU64 : UInt64 := insn.imm.toInt64.toUInt64

/-- The second operand of a 64-bit instruction. -/
def srcValue : Exec BpfVmError UInt64 :=
  if insn.isSrcImm then .ok (immU64 insn) else vm.scalarReg insn.srcReg

/-! ## Instructions -/

/-- The upper half of a `LD_IMM64` constant, from its second slot. -/
def immHi : Exec BpfVmError UInt64 :=
  if vm.pc + 1 < insns.length then do
    let second ← get insns (vm.pc + 1)
    .ok second.imm.toUInt32.toUInt64
  else .ok 0

def stepLd : Exec BpfVmError Vm :=
  if insn.isLdImm64 then
    if insn.srcReg = BPF_PSEUDO_MAP_FD then
      vm.setReg insn.dstReg (.ptrMap (asUsize insn.imm.toInt)) 2
    else do
      let hi ← immHi insns vm
      vm.setReg insn.dstReg (.scalar ((hi <<< 32) ||| insn.imm.toUInt32.toUInt64)) 2
  else err .invalidInstruction

/-- The second operand of a 32-bit instruction. -/
def srcValue32 : Exec BpfVmError UInt32 :=
  if insn.isSrcImm then .ok insn.imm.toUInt32
  else do
    let v ← vm.scalarReg insn.srcReg
    .ok v.toUInt32

def stepAlu32 : Exec BpfVmError Vm :=
  if insn.op = BPF_MOV then do
    let v ← srcValue32 insn vm
    vm.setReg insn.dstReg (.scalar v.toUInt64) 1
  else do
    let dst ← vm.scalarReg insn.dstReg
    let src ← srcValue32 insn vm
    let res ← alu32 insn.op insn.imm dst.toUInt32 src
    vm.setReg insn.dstReg (.scalar res.toUInt64) 1

/-- `if op == BPF_ADD { delta } else { -delta }` of a pointer instruction. -/
def effDelta : Exec BpfVmError Int := do
  let v ← srcValue insn vm
  let delta := v.toInt64.toInt
  if insn.op = BPF_ADD then .ok delta else arith checks .i64 (-delta)

/-- `(offset as i64 + eff_delta) as usize`. -/
def moveOffset (offset : Nat) : Exec BpfVmError Nat := do
  let delta ← effDelta checks insn vm
  let sum ← arith checks .i64 (IntTy.wrap .i64 offset + delta)
  .ok (asUsize sum)

/-- The new offset of a map value pointer. -/
def moveValueOffset (mapIdx offset : Nat) : Exec BpfVmError Nat := do
  let delta ← effDelta checks insn vm
  let newOff ← okOr .outOfBoundsAccess (checkedAddSigned offset delta)
  let map ← vm.getMap mapIdx
  if newOff > map.spec.valueSize then err .outOfBoundsAccess else .ok newOff

/-- 64-bit arithmetic on scalars. -/
def scalarAlu64 : Exec BpfVmError Vm := do
  let dst ← vm.scalarReg insn.dstReg
  let src ← srcValue insn vm
  let res ← alu64 insn.op insn.imm dst src
  vm.setReg insn.dstReg (.scalar res) 1

variable (v : VmValue)

/-- `BPF_ADD` and `BPF_SUB` on the value `v` of the destination. -/
def addSub64 : Exec BpfVmError Vm :=
  match v with
  | .ptrStack offset => do
    let newOff ← moveOffset checks insn vm offset
    vm.setReg insn.dstReg (.ptrStack newOff) 1
  | .ptrContext offset => do
    let newOff ← moveOffset checks insn vm offset
    vm.setReg insn.dstReg (.ptrContext newOff) 1
  | .ptrMapValueArray mapIdx entryIdx offset => do
    let newOff ← moveValueOffset checks insn vm mapIdx offset
    vm.setReg insn.dstReg (.ptrMapValueArray mapIdx entryIdx newOff) 1
  | .ptrMapValueHash mapIdx lookupId offset => do
    let newOff ← moveValueOffset checks insn vm mapIdx offset
    vm.setReg insn.dstReg (.ptrMapValueHash mapIdx lookupId newOff) 1
  | _ => scalarAlu64 insn vm

def stepAlu64 : Exec BpfVmError Vm :=
  if insn.op = BPF_MOV then
    if insn.isSrcImm then vm.setReg insn.dstReg (.scalar (immU64 insn)) 1
    else do
      let v ← vm.reg insn.srcReg
      vm.setReg insn.dstReg v 1
  else if insn.op = BPF_ADD ∨ insn.op = BPF_SUB then do
    let v ← vm.reg insn.dstReg
    addSub64 checks insn vm v
  else scalarAlu64 insn vm

/-- `insn.mem_size_bytes().map_err(|_| InvalidInstruction)?`. -/
def accessSize : Exec BpfVmError Nat :=
  match insn.memSizeBytes with
  | .ok n => .ok n
  | .error _ => err .invalidInstruction

/-- `offset.checked_add_signed(off).ok_or(OutOfBoundsAccess)?`. -/
def effOffset (offset : Nat) : Exec BpfVmError Nat :=
  okOr .outOfBoundsAccess (checkedAddSigned offset insn.off.toInt)

/-- `eff + size > limit`. -/
def withinLimit (eff size limit : Nat) : Exec BpfVmError Unit := do
  let top ← addUsize checks eff size
  if top > limit then err .outOfBoundsAccess else .ok ()

def loadContext (offset size : Nat) : Exec BpfVmError UInt64 := do
  let eff ← effOffset insn offset
  withinLimit checks eff size context.length
  if eff % size ≠ 0 then err .unalignedMemoryAccess
  else fromNeBytes context eff size

def loadStack (offset size : Nat) : Exec BpfVmError UInt64 := do
  let eff ← effOffset insn offset
  withinLimit checks eff size BPF_STACK_SIZE
  forRange (fun b => do
    let init ← vget vm.stackInit (eff + b)
    if init then .ok ()
    else err (.uninitializedStack (asI32 eff - BPF_STACK_SIZE) size)) size
  fromNeBytes vm.stack.toList eff size

variable (mapIdx : Nat)

def loadArray (entryIdx : UInt32) (offset size : Nat) : Exec BpfVmError UInt64 := do
  let eff ← effOffset insn offset
  let map ← vm.getMap mapIdx
  let buf ← mapErr (fun _ => .outOfBoundsAccess)
    (map.readValueBytes (leBytes 4 entryIdx.toNat) eff size)
  fromNeBytes buf 0 size

def loadHash (lookupId : UInt8) (offset size : Nat) : Exec BpfVmError UInt64 := do
  let eff ← effOffset insn offset
  let map ← vm.getMap mapIdx
  let l ← get vm.lookups lookupId.toNat
  let key ← l.keyBytes
  let buf ← mapErr (fun _ => .outOfBoundsAccess) (map.readValueBytes key eff size)
  fromNeBytes buf 0 size

/-- The word a load through the pointer `v` reads. -/
def loadThrough (size : Nat) : Exec BpfVmError UInt64 :=
  match v with
  | .ptrContext offset => loadContext checks context insn offset size
  | .ptrStack offset => loadStack checks insn vm offset size
  | .ptrMapValueArray mapIdx entryIdx offset => loadArray insn vm mapIdx entryIdx offset size
  | .ptrMapValueHash mapIdx lookupId offset => loadHash insn vm mapIdx lookupId offset size
  | .null => err .nullPointerDereference
  | .scalar 0 => err .nullPointerDereference
  | _ => err .invalidInstruction

def stepLdx : Exec BpfVmError Vm := do
  let size ← accessSize insn
  let v ← vm.reg insn.srcReg
  let val ← loadThrough checks context insn vm v size
  vm.setReg insn.dstReg (.scalar val) 1

def storeStack (offset : Nat) (bytes : Bytes) : Exec BpfVmError Vm := do
  let eff ← effOffset insn offset
  withinLimit checks eff bytes.length BPF_STACK_SIZE
  let stack ← vcopy vm.stack eff bytes
  let stackInit ← fillRange vm.stackInit eff true bytes.length
  .ok { vm with stack, stackInit, pc := vm.pc + 1 }

def storeArray (entryIdx : UInt32) (offset : Nat) (bytes : Bytes) : Exec BpfVmError Vm := do
  let eff ← effOffset insn offset
  let map ← vm.getMap mapIdx
  let map ← mapErr (fun _ => .outOfBoundsAccess)
    (map.writeValueBytes (leBytes 4 entryIdx.toNat) eff bytes)
  .ok { vm.setMap mapIdx map with pc := vm.pc + 1 }

def storeHash (lookupId : UInt8) (offset : Nat) (bytes : Bytes) : Exec BpfVmError Vm := do
  let eff ← effOffset insn offset
  let map ← vm.getMap mapIdx
  let l ← get vm.lookups lookupId.toNat
  let key ← l.keyBytes
  let map ← mapErr (fun _ => .outOfBoundsAccess) (map.writeValueBytes key eff bytes)
  .ok { vm.setMap mapIdx map with pc := vm.pc + 1 }

/-- The store of `bytes` through the pointer `v`. -/
def storeThrough (bytes : Bytes) : Exec BpfVmError Vm :=
  match v with
  | .ptrContext _ => err .readOnlyAccess
  | .ptrStack offset => storeStack checks insn vm offset bytes
  | .ptrMapValueArray mapIdx entryIdx offset => storeArray insn vm mapIdx entryIdx offset bytes
  | .ptrMapValueHash mapIdx lookupId offset => storeHash insn vm mapIdx lookupId offset bytes
  | .null => err .nullPointerDereference
  | .scalar 0 => err .nullPointerDereference
  | _ => err .invalidInstruction

/-- The word a store writes. -/
def storedValue : Exec BpfVmError UInt64 :=
  if insn.cls = BPF_ST then .ok insn.imm.toUInt32.toUInt64 else vm.scalarReg insn.srcReg

def stepSt : Exec BpfVmError Vm := do
  let size ← accessSize insn
  let val ← storedValue insn vm
  let bytes ← slice (leBytes 8 val.toNat) 0 size
  let v ← vm.reg insn.dstReg
  storeThrough checks insn vm v bytes

/-! ## Helper calls -/

def mapOf : Exec BpfVmError Nat :=
  match v with
  | .ptrMap mapIdx => .ok mapIdx
  | _ => err .invalidInstruction

def helperMap (r : Nat) : Exec BpfVmError (Nat × BpfMap) := do
  let v ← vm.reg r
  let mapIdx ← mapOf v
  let map ← vm.getMap mapIdx
  .ok (mapIdx, map)

/-- `stack[off..off + size]`, bounds checked. -/
def stackBytes (off size : Nat) : Exec BpfVmError Bytes := do
  withinLimit checks off size BPF_STACK_SIZE
  vslice vm.stack off (off + size)

/-- The key behind R2. -/
def helperKey (size : Nat) : Exec BpfVmError Bytes := do
  let v ← vm.reg BPF_REG_2
  match v with
  | .ptrStack offset => stackBytes checks vm offset size
  | _ => err .invalidInstruction

/-- `size` bytes of the map value behind an array pointer. -/
def arrayBytes (srcMap : Nat) (entryIdx : UInt32) (offset size : Nat) : Exec BpfVmError Bytes := do
  let src ← vm.getMap srcMap
  mapErr .helperFailed (src.readValueBytes (leBytes 4 entryIdx.toNat) offset size)

/-- `size` bytes of the map value behind a hash pointer. -/
def hashBytes (srcMap : Nat) (lookupId : UInt8) (offset size : Nat) : Exec BpfVmError Bytes := do
  let src ← vm.getMap srcMap
  let l ← okOr .outOfBoundsAccess vm.lookups[lookupId.toNat]?
  let key ← l.keyBytes
  mapErr .helperFailed (src.readValueBytes key offset size)

/-- The value of `bpf_map_update_elem`. -/
def helperValue (size : Nat) : Exec BpfVmError Bytes :=
  match v with
  | .ptrStack offset => stackBytes checks vm offset size
  | .ptrMapValueArray srcMap entryIdx offset => arrayBytes vm srcMap entryIdx offset size
  | .ptrMapValueHash srcMap lookupId offset => hashBytes vm srcMap lookupId offset size
  | _ => err .invalidInstruction

/-- `mem[offset..offset + size]`, where the end must not overflow. -/
def checkedBytes (mem : Bytes) (offset size : Nat) : Exec BpfVmError Bytes :=
  match checkedAdd offset size with
  | none => err .outOfBoundsAccess
  | some top => if top > mem.length then err .outOfBoundsAccess else slice mem offset top

/-- The data of an output helper. -/
def helperData (size : Nat) : Exec BpfVmError Bytes :=
  match v with
  | .ptrStack offset => checkedBytes vm.stack.toList offset size
  | .ptrMapValueArray srcMap entryIdx offset => arrayBytes vm srcMap entryIdx offset size
  | .ptrMapValueHash srcMap lookupId offset => hashBytes vm srcMap lookupId offset size
  | .ptrContext offset => checkedBytes context offset size
  | _ => err .invalidInstruction

/-- The pointer `bpf_map_lookup_elem` returns, and the lookups with the one it records. -/
def lookupValue (map : BpfMap) (key : Bytes) : Exec BpfVmError (VmValue × List ActiveLookup) :=
  match map.spec.mapType with
  | .array => do
    let idx ← mapErr (fun _ => .invalidInstruction) (keyIndex key)
    if idx < map.spec.maxEntries then
      .ok (.ptrMapValueArray mapIdx (UInt32.ofNat idx) 0, vm.lookups)
    else .ok (.null, vm.lookups)
  | .hash => do
    let found ← attempt (map.lookup key map.spec.valueSize)
    match found with
    | .error _ => .ok (.null, vm.lookups)
    | .ok _ =>
      if vm.lookups.length ≥ BPF_MAX_LOOKUP_REFS then err .outOfBoundsAccess
      else do
        let buf ← vcopy (Vector.replicate BPF_MAP_MAX_KEY_SIZE 0) 0 key
        .ok (.ptrMapValueHash mapIdx (UInt8.ofNat vm.lookups.length) 0,
          vm.lookups ++ [{ mapIdx, key := buf, keyLen := map.spec.keySize }])
  | .perfEventArray => .ok (.null, vm.lookups)
  | .ringBuf => .ok (.null, vm.lookups)

def callLookup : Exec BpfVmError Vm := do
  let (mapIdx, map) ← helperMap vm BPF_REG_1
  let key ← helperKey checks vm map.spec.keySize
  let (r0, lookups) ← lookupValue vm mapIdx map key
  Vm.callReturn { vm with lookups } r0

/-- The map an operation leaves behind. -/
def mapAfter (map : BpfMap) : Except LinuxError BpfMap → BpfMap
  | .ok map' => map'
  | .error _ => map

def callUpdate : Exec BpfVmError Vm := do
  let (mapIdx, map) ← helperMap vm BPF_REG_1
  let key ← helperKey checks vm map.spec.keySize
  let v ← vm.reg BPF_REG_3
  let value ← helperValue checks vm v map.spec.valueSize
  let flags ← vm.scalarReg BPF_REG_4
  let r ← attempt (map.update key value flags)
  (vm.setMap mapIdx (mapAfter map r)).callReturn (helperReturn r)

def callDelete : Exec BpfVmError Vm := do
  let (mapIdx, map) ← helperMap vm BPF_REG_1
  let key ← helperKey checks vm map.spec.keySize
  let r ← attempt (map.delete key)
  (vm.setMap mapIdx (mapAfter map r)).callReturn (helperReturn r)

/-- The size argument of an output helper. -/
def helperSize (r : Nat) : Exec BpfVmError Nat := do
  let size ← vm.scalarReg r
  if size.toNat > 65535 then err .outOfBoundsAccess else .ok size.toNat

/-- The array index `bpf_perf_event_output` writes to. -/
def targetCpu (flags : UInt64) : UInt32 :=
  let cpuIdx := (flags &&& BPF_F_INDEX_MASK).toUInt32
  if cpuIdx = BPF_F_CURRENT_CPU.toUInt32 then env.getSmpProcessorId vm.steps else cpuIdx

def callPerfEventOutput : Exec BpfVmError Vm := do
  let (_, map) ← helperMap vm BPF_REG_2
  if map.spec.mapType ≠ .perfEventArray then err .invalidInstruction
  else do
    let flags ← vm.scalarReg BPF_REG_3
    let cpu := targetCpu env vm flags
    if cpu.toNat ≥ map.spec.maxEntries then vm.callReturn (.scalar (errnoReturn .EINVAL))
    else do
      let size ← helperSize vm BPF_REG_5
      let v ← vm.reg BPF_REG_4
      let data ← helperData context vm v size
      vm.callReturn (helperReturn (map.outputPerfEvent cpu data (env.outputSample vm.steps)))

def callRingbufOutput : Exec BpfVmError Vm := do
  let (mapIdx, map) ← helperMap vm BPF_REG_1
  if map.spec.mapType ≠ .ringBuf then err .invalidInstruction
  else do
    let size ← helperSize vm BPF_REG_3
    let flags ← vm.scalarReg BPF_REG_4
    let v ← vm.reg BPF_REG_2
    let data ← helperData context vm v size
    let (r, map) ← mapErr .helperFailed (map.outputRingbuf data flags)
    (vm.setMap mapIdx map).callReturn (helperReturn r)

def stepCall : Exec BpfVmError Vm :=
  let helper := insn.imm
  if helper = BPF_FUNC_MAP_LOOKUP_ELEM then callLookup checks vm
  else if helper = BPF_FUNC_MAP_UPDATE_ELEM then callUpdate checks vm
  else if helper = BPF_FUNC_MAP_DELETE_ELEM then callDelete checks vm
  else if helper = BPF_FUNC_KTIME_GET_NS then
    vm.callReturn (.scalar (env.ktimeGetNs vm.steps))
  else if helper = BPF_FUNC_GET_SMP_PROCESSOR_ID then
    vm.callReturn (.scalar (env.getSmpProcessorId vm.steps).toUInt64)
  else if helper = BPF_FUNC_PERF_EVENT_OUTPUT then callPerfEventOutput context env vm
  else if helper = BPF_FUNC_RINGBUF_OUTPUT then callRingbufOutput context vm
  else if helper = BPF_FUNC_RINGBUF_RESERVE ∨ helper = BPF_FUNC_RINGBUF_SUBMIT ∨
      helper = BPF_FUNC_RINGBUF_DISCARD ∨ helper = BPF_FUNC_RINGBUF_QUERY then
    err (.helperFailed .EOPNOTSUPP)
  else err (.invalidHelperCall helper)

/-! ## Jumps -/

/-- `dst_val as u32 as u64` in a 32-bit comparison. -/
def unsignedOperand (v : UInt64) : UInt64 :=
  if insn.cls = BPF_JMP32 then v.toUInt32.toUInt64 else v

/-- `dst_val as i32 as i64` in a 32-bit comparison. -/
def signedOperand (v : UInt64) : Int64 :=
  if insn.cls = BPF_JMP32 then v.toUInt32.toInt32.toInt64 else v.toInt64

/-- The comparison of two scalars. -/
def compareScalars (dst src : UInt64) : Exec BpfVmError Bool :=
  evalJumpCondition insn.op (unsignedOperand insn dst) (unsignedOperand insn src)
    (signedOperand insn dst) (signedOperand insn src)

/-- The comparison of the value `v` with the immediate zero. -/
def compareZero : Exec BpfVmError Bool :=
  match v with
  | .ptrMapValueArray _ _ _ | .ptrMapValueHash _ _ _ =>
    if insn.op = BPF_JEQ then .ok false
    else if insn.op = BPF_JNE then .ok true
    else err .invalidInstruction
  | .null =>
    if insn.op = BPF_JEQ then .ok true
    else if insn.op = BPF_JNE then .ok false
    else err .invalidInstruction
  | v => do
    let dst ← v.asScalar
    compareScalars insn dst 0

def takeJump : Exec BpfVmError Bool :=
  if insn.isSrcImm ∧ insn.imm = 0 then do
    let v ← vm.reg insn.dstReg
    compareZero insn v
  else do
    let dst ← vm.scalarReg insn.dstReg
    let src ← srcValue insn vm
    compareScalars insn dst src

def stepCondJump : Exec BpfVmError Vm := do
  let taken ← takeJump insn vm
  .ok { vm with pc := if taken then jumpTarget vm.pc insn else vm.pc + 1 }

/-- `BPF_JMP` and `BPF_JMP32`; an exit leaves the loop with the value of R0. -/
def stepJmp : Exec BpfVmError (Vm ⊕ UInt64) :=
  if insn.isExit then do
    let r0 ← vm.scalarReg BPF_REG_0
    .ok (.inr r0)
  else if insn.isJa then .ok (.inl { vm with pc := jumpTarget vm.pc insn })
  else if insn.isCall then do
    let vm ← stepCall checks context env insn vm
    .ok (.inl vm)
  else do
    let vm ← stepCondJump insn vm
    .ok (.inl vm)

/-! ## The main loop -/

def stepInsn : Exec BpfVmError (Vm ⊕ UInt64) :=
  if insn.cls = BPF_LD then do
    let vm ← stepLd insns insn vm
    .ok (.inl vm)
  else if insn.cls = BPF_ALU then do
    let vm ← stepAlu32 insn vm
    .ok (.inl vm)
  else if insn.cls = BPF_ALU64 then do
    let vm ← stepAlu64 checks insn vm
    .ok (.inl vm)
  else if insn.cls = BPF_LDX then do
    let vm ← stepLdx checks context insn vm
    .ok (.inl vm)
  else if insn.cls = BPF_ST ∨ insn.cls = BPF_STX then do
    let vm ← stepSt checks insn vm
    .ok (.inl vm)
  else if insn.cls = BPF_JMP ∨ insn.cls = BPF_JMP32 then stepJmp checks context env insn vm
  else err .invalidInstruction

/-- One iteration of `while pc < n`. -/
def step : Exec BpfVmError (Vm ⊕ UInt64) :=
  if vm.pc < insns.length then
    if vm.steps + 1 > BPF_MAX_STEPS then err .stepLimitExceeded
    else do
      let insn ← get insns vm.pc
      stepInsn checks insns context env insn { vm with steps := vm.steps + 1 }
  else err .invalidInstruction

end Step

variable (checks : Bool) (insns : List BpfInsn) (maps : List BpfMap) (context : Bytes)
  (env : BpfEnv) (depths : Vector Nat BPF_MAX_CPUS)

/-- `execute`, with the recursion depths of the CPUs at entry; the guard restores them on every
way out. -/
def execute : Exec BpfVmError UInt64 := do
  let depth ← vget depths ((env.getSmpProcessorId 0).toNat % BPF_MAX_CPUS)
  if depth ≥ BPF_MAX_RECURSION_DEPTH then err .recursionLimitExceeded
  else Loop.iter (step checks insns context env) (BPF_MAX_STEPS + 2) (Vm.start maps)

/-- `vm` is the machine before some iteration of the run, which gets that far only below the
recursion limit. -/
def Running (vm : Vm) : Prop :=
  depths.get ⟨(env.getSmpProcessorId 0).toNat % BPF_MAX_CPUS, Nat.mod_lt _ (by decide)⟩ <
      BPF_MAX_RECURSION_DEPTH ∧
    Loop.Reaches (step checks insns context env) (Vm.start maps) vm

end PulseOS.Bpf
