import PulseOS.Errno
import PulseOS.Lib.Saturating
import PulseOS.Lib.Table

/-!
# System V semaphores

The semaphore sets of `ipc/sem.rs` and the critical sections of `sys_semtimedop` and `sys_semctl`
under the lock of a set.

* `checkOps`, `applyOps` — the two passes over the operations of one call.
* `recordUndos`, `exitSemUndos` — the `SEM_UNDO` amounts of a process and what its exit does with
  them.
* `semctl` — the commands that read or set semaphores.

`checks` tells whether the kernel is built with overflow checks; a section that stops in a panic
leaves what it had written until then.
-/

namespace PulseOS.Ipc

open Saturating List

structure Sem where
  semval : UInt16
  sempid : Int32
  semncnt : UInt16
  semzcnt : UInt16
  deriving DecidableEq, Repr

structure SemBuf where
  semNum : UInt16
  semOp : Int16
  semFlg : Int16
  deriving DecidableEq, Repr

variable (op : SemBuf)

def SemBuf.index : Nat := op.semNum.toNat

def SemBuf.amount : Int := op.semOp.toInt

def SemBuf.nowait : Bool := op.semFlg &&& 0x800 != 0

def SemBuf.undo : Bool := op.semFlg &&& 0x1000 != 0

structure SemUndoEntry where
  semid : Int32
  semNum : UInt16
  undoVal : Int16
  deriving DecidableEq, Repr

structure SemSetInner where
  nsems : Nat
  sems : List Sem
  removed : Bool
  size : sems.length = nsems

namespace SemSetInner

def new (nsems : Nat) (pid : Int32) : SemSetInner where
  nsems
  sems := replicate nsems ⟨0, pid, 0, 0⟩
  removed := false
  size := length_replicate

def withSems (set : SemSetInner) (sems : List Sem) (h : sems.length = set.sems.length) :
    SemSetInner :=
  { set with sems, size := h.trans set.size }

end SemSetInner

/-! ## The operations of one call -/

inductive Check where
  | pass
  | fail
  | panic
  deriving DecidableEq, Repr

/-- A semaphore's value after one operation; a decrement is not checked here. -/
def nextVal (val : UInt16) (op : Int16) : UInt16 :=
  if 0 < op.toInt then addU16 val op.toUInt16
  else if op.toInt < 0 then val - (-op).toUInt16
  else val

variable (checks : Bool)

/-- `-op` overflows for `i16::MIN`. -/
def negOverflows (op : Int16) : Bool := checks && op.toInt == -32768

def checkOps : List UInt16 → List SemBuf → Check
  | _, [] => .pass
  | vals, op :: ops =>
    match vals[op.index]? with
    | none => .fail
    | some val =>
      if 0 < op.amount then checkOps (vals.set op.index (nextVal val op.semOp)) ops
      else if op.amount = 0 then if val ≠ 0 then .fail else checkOps vals ops
      else if negOverflows checks op.semOp then .panic
      else if val < (-op.semOp).toUInt16 then .fail
      else checkOps (vals.set op.index (nextVal val op.semOp)) ops

def Sem.apply (sem : Sem) (pid : Int32) (op : SemBuf) : Sem :=
  { sem with semval := nextVal sem.semval op.semOp, sempid := pid }

/-- The subtraction of `apply_ops` goes below zero. -/
def Sem.underflows (sem : Sem) (op : SemBuf) : Bool :=
  decide (op.amount < 0) && decide (sem.semval < (-op.semOp).toUInt16)

/-- The semaphores and whether the loop panicked. -/
def applyOps (pid : Int32) : List Sem → List SemBuf → List Sem × Bool
  | sems, [] => (sems, false)
  | sems, op :: ops =>
    match sems[op.index]? with
    | none => (sems, true)
    | some sem =>
      if negOverflows checks op.semOp || (checks && sem.underflows op) then (sems, true)
      else applyOps pid (sems.set op.index (sem.apply pid op)) ops

def SemUndoEntry.isFor (semid : Int32) (semNum : UInt16) (entry : SemUndoEntry) : Bool :=
  entry.semid == semid && entry.semNum == semNum

def SemUndoEntry.lower (entry : SemUndoEntry) : SemUndoEntry :=
  { entry with undoVal := subI16 entry.undoVal op.semOp }

/-- The entries and whether the loop panicked. -/
def recordUndos (semid : Int32) : List SemUndoEntry → List SemBuf → List SemUndoEntry × Bool
  | undos, [] => (undos, false)
  | undos, op :: ops =>
    if op.undo then
      match undos.findIdx? (·.isFor semid op.semNum) with
      | some j =>
        recordUndos semid (undos.modify j (·.lower op)) ops
      | none =>
        if negOverflows checks op.semOp then (undos, true)
        else recordUndos semid (undos ++ [⟨semid, op.semNum, -op.semOp⟩]) ops
    else recordUndos semid undos ops

/-- The loop that adds the caller to `semzcnt` or `semncnt` of every operation. -/
def countWaits : List Sem → List SemBuf → List Sem × Bool
  | sems, [] => (sems, false)
  | sems, op :: ops =>
    match sems[op.index]? with
    | none => countWaits sems ops
    | some sem =>
      if op.amount = 0 then
        if checks && sem.semzcnt == 65535 then (sems, true)
        else countWaits (sems.set op.index { sem with semzcnt := sem.semzcnt + 1 }) ops
      else
        if checks && sem.semncnt == 65535 then (sems, true)
        else countWaits (sems.set op.index { sem with semncnt := sem.semncnt + 1 }) ops

def Sem.uncount (sem : Sem) : Sem :=
  if op.amount = 0 then { sem with semzcnt := subU16 sem.semzcnt 1 }
  else { sem with semncnt := subU16 sem.semncnt 1 }

def uncountWaits (sems : List Sem) (sops : List SemBuf) : List Sem :=
  sops.foldl (fun sems op => sems.modify op.index (Sem.uncount op)) sems

/-! ## Every loop keeps the number of semaphores -/

theorem length_applyOps (pid : Int32) (sems : List Sem) (sops : List SemBuf) :
    (applyOps checks pid sems sops).1.length = sems.length := by
  induction sops generalizing sems with
  | nil => rfl
  | cons op ops ih =>
    unfold applyOps
    split
    · rfl
    · split
      · rfl
      · rw [ih, length_set]

theorem length_countWaits (sems : List Sem) (sops : List SemBuf) :
    (countWaits checks sems sops).1.length = sems.length := by
  induction sops generalizing sems with
  | nil => rfl
  | cons op ops ih =>
    unfold countWaits
    split
    · exact ih sems
    · split <;> split
      · rfl
      · rw [ih, length_set]
      · rfl
      · rw [ih, length_set]

theorem length_uncountWaits (sems : List Sem) (sops : List SemBuf) :
    (uncountWaits sems sops).length = sems.length := by
  unfold uncountWaits
  induction sops generalizing sems with
  | nil => rfl
  | cons op ops ih => rw [foldl_cons, ih, length_modify]

/-! ## The sections of `sys_semtimedop` -/

inductive Attempt where
  /-- applied the operations, notified the queue and returned `0` -/
  | committed
  | returned (e : LinuxError)
  /-- counted itself, cloned the queue and dropped the lock -/
  | waits
  | panicked
  deriving DecidableEq, Repr

structure Outcome where
  result : Attempt
  set : SemSetInner
  undos : List SemUndoEntry

variable (pid : Int32) (sops : List SemBuf) (set : SemSetInner)

def SemSetInner.values : List UInt16 := set.sems.map (·.semval)

def SemSetInner.applied : SemSetInner :=
  set.withSems (applyOps checks pid set.sems sops).1 (length_applyOps checks pid set.sems sops)

def SemSetInner.counted : SemSetInner :=
  set.withSems (countWaits checks set.sems sops).1 (length_countWaits checks set.sems sops)

/-- One round of the loop up to the wait, by process `pid` with undo entries `undos`; `expired`
when its timeout has elapsed. -/
def semopSection (semid pid : Int32) (expired : Bool) (sops : List SemBuf)
    (set : SemSetInner) (undos : List SemUndoEntry) : Outcome :=
  if set.removed then ⟨.returned .EIDRM, set, undos⟩
  else if sops.any fun op => decide (set.nsems ≤ op.index) then ⟨.returned .EFBIG, set, undos⟩
  else
    match checkOps checks set.values sops with
    | .panic => ⟨.panicked, set, undos⟩
    | .pass =>
      if (applyOps checks pid set.sems sops).2 then
        ⟨.panicked, set.applied checks pid sops, undos⟩
      else
        let (undos, panicked) := recordUndos checks semid undos sops
        ⟨if panicked then .panicked else .committed, set.applied checks pid sops, undos⟩
    | .fail =>
      if sops.any (·.nowait) then ⟨.returned .EAGAIN, set, undos⟩
      else if expired then ⟨.returned .EAGAIN, set, undos⟩
      else
        ⟨if (countWaits checks set.sems sops).2 then .panicked else .waits,
          set.counted checks sops, undos⟩

/-- The section after the wait: the error returned, or `none` for another round. -/
def wakeSection (signal timedOut : Bool) : Option LinuxError × SemSetInner :=
  (if set.removed then some .EIDRM else if signal then some .EINTR
   else if timedOut then some .EAGAIN
   else none,
   set.withSems (uncountWaits set.sems sops) (length_uncountWaits set.sems sops))

/-! ## `sys_semctl` -/

inductive Command where
  | rmid
  | getVal
  | setVal (arg : Int32)
  | getPid
  | getNcnt
  | getZcnt
  /-- the array in user memory, when it can be read -/
  | setAll (array : Option (Nat → UInt16))

/-- What a section of `sys_semctl` returns, what it leaves, and whether it notified the queue. -/
structure CtlOutcome where
  result : Except LinuxError Int
  set : SemSetInner
  notifies : Bool

/-- The semaphore a command names. -/
def SemSetInner.select (semnum : Int32) : Option (Nat × Sem) :=
  if semnum.toInt < 0 then none
  else (set.sems[semnum.toInt.toNat]?).map (Prod.mk semnum.toInt.toNat)

/-- A command that reads one field. -/
def SemSetInner.get (semnum : Int32) (field : Sem → Int) : CtlOutcome :=
  match set.select semnum with
  | none => ⟨.error .EINVAL, set, false⟩
  | some (_, sem) => ⟨.ok (field sem), set, false⟩

def SemSetInner.setVal (i : Nat) (sem : Sem) (val : UInt16) : SemSetInner :=
  set.withSems (set.sems.set i { sem with semval := val, sempid := pid }) length_set

def SemSetInner.setAll (vals : Nat → UInt16) : SemSetInner :=
  set.withSems (set.sems.mapIdx fun i sem => { sem with semval := vals i, sempid := pid })
    length_mapIdx

def semctl (pid semnum : Int32) (set : SemSetInner) (cmd : Command) : CtlOutcome :=
  if set.removed then ⟨.error .EIDRM, set, false⟩
  else
    match cmd with
    | .rmid => ⟨.ok 0, { set with removed := true }, true⟩
    | .getVal => set.get semnum (·.semval.toNat)
    | .setVal arg =>
      match set.select semnum with
      | none => ⟨.error .EINVAL, set, false⟩
      | some (i, sem) =>
        if arg.toInt < 0 ∨ 65535 < arg.toInt then ⟨.error .EINVAL, set, false⟩
        else ⟨.ok 0, set.setVal pid i sem (UInt16.ofNat arg.toInt.toNat), true⟩
    | .getPid => set.get semnum (·.sempid.toInt)
    | .getNcnt => set.get semnum (·.semncnt.toNat)
    | .getZcnt => set.get semnum (·.semzcnt.toNat)
    | .setAll none => ⟨.error .EFAULT, set, false⟩
    | .setAll (some vals) => ⟨.ok 0, set.setAll pid vals, true⟩

/-! ## Exit of a process -/

/-- `(sem.semval as i16).saturating_add(entry.undo_val) as u16`. -/
def Sem.revert (undoVal : Int16) (sem : Sem) : Sem :=
  { sem with semval := (addI16 sem.semval.toInt16 undoVal).toUInt16, sempid := pid }

def SemSetInner.revert (entry : SemUndoEntry) (set : SemSetInner) : SemSetInner :=
  set.withSems (set.sems.modify entry.semNum.toNat (Sem.revert pid entry.undoVal))
    (length_modify ..)

abbrev Sets := Table Int32 SemSetInner

/-- The body of the loop of `exit_sem_undos`. -/
def exitSemUndo (sets : Sets) (entry : SemUndoEntry) : Sets :=
  match sets.lookup entry.semid with
  | some set => sets.insert entry.semid (set.revert pid entry)
  | none => sets

def exitSemUndos (undos : List SemUndoEntry) (sets : Sets) : Sets :=
  undos.foldl (exitSemUndo pid) sets

end PulseOS.Ipc
