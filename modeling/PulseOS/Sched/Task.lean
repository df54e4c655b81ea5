import PulseOS.Lib.Saturating

/-!
# Tasks of the EEVDF scheduler

The scheduling state of a task (`EEVDFTask`) and the arithmetic of virtual time.  The fields are
atomics of the source; the scheduler changes them under its lock only.  Times and virtual times are
`u64`, lags are `i64` kept as integers with their saturation written out, priorities are the encoded
ones: `1..=99` for real-time tasks and `-120..=-81` for the nice values `-20..=19`.
-/

namespace PulseOS.Sched

open Saturating

def NICE_0_WEIGHT : Nat := 1024

def RT_TIME_SLICE_NS : UInt64 := 50000000

def I64_MAX : Int := 0x7FFFFFFFFFFFFFFF

def NICE_TO_WEIGHT : List Nat :=
  [88761, 71755, 56483, 46273, 36291, 29154, 23254, 18705, 14949, 11916, 9548, 7620, 6100, 4904,
   3906, 3121, 2501, 1991, 1586, 1277, 1024, 820, 655, 526, 423, 335, 272, 215, 172, 137, 110, 87,
   70, 56, 45, 36, 29, 23, 18, 15]

inductive EnqueueReason where
  | spawn
  | wake
  | yield
  | preempt
  | migration
  deriving DecidableEq, Repr

inductive RtPolicy where
  | fifo
  | roundRobin
  deriving DecidableEq, Repr

variable (priority : Int)

def isRtPriority : Bool := decide (1 ≤ priority ∧ priority ≤ 99)

def isNormalPriority : Bool := decide (-120 ≤ priority ∧ priority ≤ -81)

def validPriority : Bool := isRtPriority priority || isNormalPriority priority

def weightForPriority : Nat :=
  if isNormalPriority priority then NICE_TO_WEIGHT.getD (priority + 120).toNat 0
  else NICE_0_WEIGHT

/-- The virtual run time that `deltaExec` of execution is charged. -/
def calcDeltaFair (deltaExec : UInt64) (weight : Nat) : UInt64 :=
  sat64 (deltaExec.toNat * NICE_0_WEIGHT / max weight 1)

def signedDifference (lhs rhs : UInt64) : Int :=
  if rhs ≤ lhs then min ((subU64 lhs rhs).toNat : Int) I64_MAX
  else -min ((subU64 rhs lhs).toNat : Int) I64_MAX

def applyLag (virtualTime : UInt64) (lag : Int) : UInt64 :=
  if 0 ≤ lag then UInt64.ofNat (virtualTime.toNat - lag.toNat)
  else sat64 (virtualTime.toNat + lag.natAbs)

variable (baseSlice : UInt64)

/-- The entry of `NORMAL_VIRTUAL_SLICES` for a weight. -/
def normalVirtualSlice (weight : Nat) : UInt64 :=
  let slice := sat64 (baseSlice.toNat * NICE_0_WEIGHT / weight)
  if slice = 0 then 1 else slice

structure EEVDFTask where
  priority : Int
  vruntime : UInt64
  deadline : UInt64
  execStart : UInt64
  running : Bool
  savedVlag : Int
  lagVtime : UInt64
  hasSavedLag : Bool
  queueId : UInt64
  rtPolicy : RtPolicy
  rtRemaining : UInt64
  deriving Repr

namespace EEVDFTask

/-- An ordinary nice-0 task. -/
def new : EEVDFTask where
  priority := -100
  vruntime := 0
  deadline := 0
  execStart := 0
  running := false
  savedVlag := 0
  lagVtime := 0
  hasSavedLag := false
  queueId := 0
  rtPolicy := .roundRobin
  rtRemaining := RT_TIME_SLICE_NS

def isRt (task : EEVDFTask) : Bool := isRtPriority task.priority

variable (task : EEVDFTask)

def isRoundRobin : Bool := task.rtPolicy == .roundRobin

def weight : Nat := weightForPriority task.priority

/-- The list of a real-time task: the highest priority has index `0`. -/
def rtIndex : Nat := (99 - task.priority).toNat

def setPriority : EEVDFTask :=
  if validPriority priority then { task with priority } else task

def resetRtSlice : EEVDFTask := { task with rtRemaining := RT_TIME_SLICE_NS }

def setRtPolicy (policy : RtPolicy) (task : EEVDFTask) : EEVDFTask :=
  let task := { task with rtPolicy := policy }
  if policy = .roundRobin then task.resetRtSlice else task

def startRunning (now : UInt64) (task : EEVDFTask) : EEVDFTask :=
  { task with execStart := now, running := true }

/-- Charge the time since the last charge. -/
def accountRuntime (now : UInt64) (keepRunning : Bool) (task : EEVDFTask) : EEVDFTask :=
  if !task.running then task
  else
    let deltaExec := subU64 now task.execStart
    let task := { task with execStart := now, running := keepRunning }
    if task.isRt then
      if task.isRoundRobin then { task with rtRemaining := subU64 task.rtRemaining deltaExec }
      else task
    else
      { task with vruntime := addU64 task.vruntime (calcDeltaFair deltaExec task.weight) }

/-- The length of a request in virtual time. -/
def virtualSlice : UInt64 :=
  if isNormalPriority task.priority then normalVirtualSlice baseSlice task.weight
  else max baseSlice 1

def lagLimit : Int :=
  min (mulU64 (task.virtualSlice baseSlice) 2).toNat I64_MAX

def saveLag (baseSlice virtualTime : UInt64) (task : EEVDFTask) : EEVDFTask :=
  if task.isRt then task
  else
    let limit := task.lagLimit baseSlice
    { task with
      savedVlag := clamp (-limit) limit (signedDifference virtualTime task.vruntime)
      lagVtime := virtualTime
      hasSavedLag := true }

/-- Let a lag decay towards zero over the virtual time slept. -/
def decayLag (lag : Int) (slept : UInt64) : Int :=
  let decay := min (slept.toNat : Int) I64_MAX
  if 0 < lag then max (clamp (-I64_MAX - 1) I64_MAX (lag - decay)) 0
  else min (clamp (-I64_MAX - 1) I64_MAX (lag + decay)) 0

/-- The part of `place_task` that does not touch the scheduler. -/
def place (baseSlice virtualTime : UInt64) (reason : EnqueueReason) (task : EEVDFTask) :
    EEVDFTask :=
  let keepsLag := reason = .wake ∨ reason = .migration
  let lag := if keepsLag ∧ task.hasSavedLag then task.savedVlag else 0
  let task := if keepsLag then { task with hasSavedLag := false } else task
  let lag :=
    if reason = .wake then decayLag lag (subU64 virtualTime task.lagVtime) else lag
  let limit := task.lagLimit baseSlice
  let vruntime := applyLag virtualTime (clamp (-limit) limit lag)
  { task with vruntime, deadline := addU64 vruntime (task.virtualSlice baseSlice) }

def refreshDeadline (force : Bool) (task : EEVDFTask) : EEVDFTask :=
  if force ∨ task.deadline = 0 ∨ task.deadline ≤ task.vruntime then
    { task with deadline := addU64 task.vruntime (task.virtualSlice baseSlice) }
  else task

/-- `(deadline, queue_id)`, the order of the eligible tree. -/
def eligibleKey : Nat ×ₗ Nat := toLex (task.deadline.toNat, task.queueId.toNat)

/-- `(vruntime, deadline, queue_id)`, the order of the ineligible tree. -/
def ineligibleKey : Nat ×ₗ Nat ×ₗ Nat :=
  toLex (task.vruntime.toNat, toLex (task.deadline.toNat, task.queueId.toNat))

end EEVDFTask

end PulseOS.Sched
