import PulseOS.Lib.Bitmap
import PulseOS.Lib.Ordered
import PulseOS.Sched.Task

/-!
# The EEVDF scheduler

`EEVDFScheduler` with every operation a host calls.  `τ` names the tasks: an `Arc<EEVDFTask>` is a
name, and `tasks` holds the atomics behind it.  The trees are lists ordered by the keys of the
source; a task is linked in a tree when it is in the list.  `u128` sums and the task count are
natural numbers with the saturation of the source.  The base slice is the parameter `S` of the
operations.
-/

namespace PulseOS.Sched

open Bitmap Saturating Function EEVDFTask

def U128_MAX : Nat := 2 ^ 128 - 1

def USIZE_MAX : Nat := 2 ^ 64 - 1

/-- Result of checking whether the ordinary queue can preempt a request. -/
structure EligiblePreemptionCache where
  hasEligiblePreemption : Bool
  preemptionCurrentDeadline : UInt64
  preemptionVruntime : Option UInt64

/-- A negative answer holds until the first boundary at which it may change. -/
def EligiblePreemptionCache.covers (cache : EligiblePreemptionCache) (virtualTime : UInt64) :
    Bool :=
  cache.hasEligiblePreemption ||
    (cache.preemptionVruntime.elim true fun threshold => decide (virtualTime < threshold))

structure EEVDFScheduler (τ : Type) where
  tasks : τ → EEVDFTask
  rtQueues : Nat → List τ
  rtBitmap : BitVec 128
  normalEligible : List τ
  normalIneligible : List τ
  normalIneligibleDeadlineLowerBound : Option UInt64
  normalTaskCount : Nat
  normalTotalWeight : Nat
  normalWeightedVruntime : Nat
  normalPreemptionCache : Option EligiblePreemptionCache
  current : Option τ
  virtualTime : UInt64
  sequence : UInt64
  clockNs : UInt64

namespace EEVDFScheduler

variable {τ : Type}

def new (tasks : τ → EEVDFTask) : EEVDFScheduler τ where
  tasks
  rtQueues := fun _ => []
  rtBitmap := 0
  normalEligible := []
  normalIneligible := []
  normalIneligibleDeadlineLowerBound := none
  normalTaskCount := 0
  normalTotalWeight := 0
  normalWeightedVruntime := 0
  normalPreemptionCache := none
  current := none
  virtualTime := 0
  sequence := 0
  clockNs := 0

/-! ## Virtual time -/

variable (s : EEVDFScheduler τ)

def advanceClock (now : UInt64) : EEVDFScheduler τ :=
  { s with clockNs := max s.clockNs now }

/-- Weight and weighted virtual run time of the current task, when it is an ordinary one. -/
def currentLoad : Nat × Nat :=
  match s.current with
  | some t =>
    if (s.tasks t).isRt then (0, 0)
    else ((s.tasks t).weight, min ((s.tasks t).vruntime.toNat * (s.tasks t).weight) U128_MAX)
  | none => (0, 0)

def updateVirtualTime : EEVDFScheduler τ :=
  let totalWeight := min (s.normalTotalWeight + s.currentLoad.1) U128_MAX
  let weightedVruntime := min (s.normalWeightedVruntime + s.currentLoad.2) U128_MAX
  if totalWeight = 0 then s
  else { s with virtualTime := max s.virtualTime (sat64 (weightedVruntime / totalWeight)) }

/-! ## The trees of ordinary tasks -/

def eligibleKey (t : τ) : Nat ×ₗ Nat := (s.tasks t).eligibleKey

def ineligibleKey (t : τ) : Nat ×ₗ Nat ×ₗ Nat := (s.tasks t).ineligibleKey

def noteNormalIneligibleRemove : EEVDFScheduler τ :=
  if s.normalIneligible.isEmpty then { s with normalIneligibleDeadlineLowerBound := none } else s

def isEligible (virtualTime : UInt64) (t : τ) : Bool :=
  decide ((s.tasks t).vruntime ≤ virtualTime)

/-- Move the tasks that have become eligible. -/
def promoteNormalEligible (virtualTime : UInt64) : EEVDFScheduler τ :=
  let moved := Ordered.transfer s.eligibleKey (s.isEligible virtualTime) s.normalIneligible
    s.normalEligible
  let promoted := decide (moved.1.length < s.normalIneligible.length)
  let s := { s with normalIneligible := moved.1, normalEligible := moved.2 }
  if promoted then s.noteNormalIneligibleRemove else s

/-- `update_virtual_time` followed by the promotion up to it. -/
def refreshed : EEVDFScheduler τ :=
  s.updateVirtualTime.promoteNormalEligible s.updateVirtualTime.virtualTime

def insertNormalIneligible (t : τ) : EEVDFScheduler τ :=
  let deadline := (s.tasks t).deadline
  { s with
    normalIneligibleDeadlineLowerBound :=
      some (s.normalIneligibleDeadlineLowerBound.elim deadline fun bound => min bound deadline)
    normalIneligible := Ordered.insert s.ineligibleKey t s.normalIneligible }

def accountNormalInsert (t : τ) : EEVDFScheduler τ :=
  let weight := (s.tasks t).weight
  let weightedVruntime := min ((s.tasks t).vruntime.toNat * weight) U128_MAX
  { s with
    normalTotalWeight := min (s.normalTotalWeight + weight) U128_MAX
    normalWeightedVruntime := min (s.normalWeightedVruntime + weightedVruntime) U128_MAX }

/-- The steps of `insert_normal` that count the task and link it in its tree. -/
def linkNormal (t : τ) : EEVDFScheduler τ :=
  let s := s.accountNormalInsert t
  let s := { s with normalTaskCount := min (s.normalTaskCount + 1) USIZE_MAX }
  if (s.tasks t).vruntime ≤ s.virtualTime then
    { s with normalEligible := Ordered.insert s.eligibleKey t s.normalEligible }
  else s.insertNormalIneligible t

def accountNormalRemove (t : τ) : EEVDFScheduler τ :=
  let weight := (s.tasks t).weight
  let weightedVruntime := min ((s.tasks t).vruntime.toNat * weight) U128_MAX
  { s with
    normalTotalWeight := s.normalTotalWeight - weight
    normalWeightedVruntime := s.normalWeightedVruntime - weightedVruntime }

def finishNormalRemove (t : τ) : EEVDFScheduler τ :=
  { ({ s with normalTaskCount := s.normalTaskCount - 1 } : EEVDFScheduler τ).accountNormalRemove t
    with normalPreemptionCache := none }

def pickNormalFromEligible : EEVDFScheduler τ × Option τ :=
  match s.normalEligible with
  | [] => (s, none)
  | t :: rest => (({ s with normalEligible := rest }).finishNormalRemove t, some t)

def pickNormalFromIneligible : EEVDFScheduler τ × Option τ :=
  match s.normalIneligible with
  | [] => (s, none)
  | t :: rest =>
    (({ s with normalIneligible := rest }).noteNormalIneligibleRemove.finishNormalRemove t, some t)

/-- The sequence number after wrapping past `0`. -/
def nextSequence (sequence : UInt64) : UInt64 := if sequence + 1 = 0 then 1 else sequence + 1

variable [DecidableEq τ] (S : UInt64) (s : EEVDFScheduler τ) (t : τ)

def modifyTask (f : EEVDFTask → EEVDFTask) : EEVDFScheduler τ :=
  { s with tasks := update s.tasks t (f (s.tasks t)) }

def removeNormalTask : EEVDFScheduler τ × Option τ :=
  if t ∈ s.normalEligible then
    (({ s with normalEligible := s.normalEligible.erase t }).finishNormalRemove t, some t)
  else if t ∈ s.normalIneligible then
    (({ s with normalIneligible := s.normalIneligible.erase t }).noteNormalIneligibleRemove
      |>.finishNormalRemove t, some t)
  else (s, none)

def insertNormal : EEVDFScheduler τ :=
  let s := s.refreshed
  let sequence := nextSequence s.sequence
  let s := ({ s with sequence }).modifyTask t fun task => { task with queueId := sequence }
  { (s.linkNormal t).refreshed with normalPreemptionCache := none }

/-! ## Queueing -/

def saveLag : EEVDFScheduler τ :=
  s.modifyTask t (EEVDFTask.saveLag S s.virtualTime)

variable (reason : EnqueueReason) (now : UInt64)

def placeTask : EEVDFScheduler τ :=
  let s := s.updateVirtualTime
  s.modifyTask t (place S s.virtualTime reason)

def stopTask : EEVDFScheduler τ :=
  let isCurrent := decide (s.current = some t)
  if !isCurrent && !(s.tasks t).running then s
  else
    let s := s.modifyTask t (accountRuntime now false)
    let s := if (s.tasks t).isRt then s else s.updateVirtualTime.saveLag S t
    if isCurrent then { s with current := none } else s

/-- The branch of `enqueue_at` for real-time tasks. -/
def enqueueRt : EEVDFScheduler τ :=
  let s := s.stopTask S t now
  let task := s.tasks t
  let index := task.rtIndex
  let keepSlice := task.isRoundRobin && reason == .preempt && decide (0 < task.rtRemaining)
  let s :=
    if reason == .preempt && (!task.isRoundRobin || keepSlice) then
      { s with rtQueues := update s.rtQueues index (t :: s.rtQueues index) }
    else
      let s := if task.isRoundRobin then s.modifyTask t resetRtSlice else s
      { s with rtQueues := update s.rtQueues index (s.rtQueues index ++ [t]) }
  { s with rtBitmap := s.rtBitmap ||| (1#128 <<< index) }

/-- What `enqueue_at` does to an ordinary task before it is inserted. -/
def prepareNormal : EEVDFScheduler τ :=
  let s :=
    if (reason = .wake ∨ reason = .migration) ∧ s.current = some t then s.stopTask S t now else s
  match reason with
  | .spawn => s.placeTask S t reason
  | .wake => s.placeTask S t reason
  | .migration => s.placeTask S t reason
  | .preempt => (s.stopTask S t now).modifyTask t (refreshDeadline S false)
  | .yield =>
    let s := (s.stopTask S t now).updateVirtualTime
    let s :=
      if (s.tasks t).vruntime ≤ s.virtualTime then
        s.modifyTask t fun task => { task with vruntime := max task.deadline task.vruntime }
      else s
    s.modifyTask t (refreshDeadline S true)

def enqueueAt : EEVDFScheduler τ :=
  let s := s.advanceClock now
  if (s.tasks t).isRt then s.enqueueRt S t reason now
  else (s.prepareNormal S t reason now).insertNormal t

def clearRtBit (index : Nat) : EEVDFScheduler τ :=
  if (s.rtQueues index).isEmpty then { s with rtBitmap := s.rtBitmap &&& ~~~(1#128 <<< index) }
  else s

def pickNormal : EEVDFScheduler τ × Option τ :=
  let s := s.refreshed
  match s.pickNormalFromEligible with
  | (s, some t) => (s, some t)
  | (s, none) => s.pickNormalFromIneligible

def pickRt : EEVDFScheduler τ × Option τ :=
  let index := trailingZeros s.rtBitmap
  let picked := s.rtQueues index
  (({ s with rtQueues := update s.rtQueues index picked.tail }).clearRtBit index, picked.head?)

def pickAt : EEVDFScheduler τ × Option τ :=
  let s := s.advanceClock now
  if s.rtBitmap ≠ 0 then s.pickRt else s.pickNormal

def removeRt (index : Nat) : EEVDFScheduler τ × Option τ :=
  if t ∈ s.rtQueues index then
    (({ s with rtQueues := update s.rtQueues index ((s.rtQueues index).erase t) })
      |>.clearRtBit index, some t)
  else (s, none)

def removeQueued : EEVDFScheduler τ × Option τ :=
  if (s.tasks t).isRt then s.removeRt t (s.tasks t).rtIndex else s.removeNormalTask t

/-! ## Operations of the host -/

def enqueue : EEVDFScheduler τ :=
  s.enqueueAt S t reason now

def enqueueNew : EEVDFScheduler τ :=
  s.enqueueAt S t .spawn s.clockNs

def requeuePrevious (prev : τ) (preempt : Bool) : EEVDFScheduler τ :=
  s.enqueueAt S prev (if preempt then .preempt else .yield) s.clockNs

def remove : EEVDFScheduler τ × Option τ :=
  if s.current = some t then (s, none)
  else (s.updateVirtualTime.saveLag S t).removeQueued t

/-- The first task, from the front of the tree, that the predicate accepts; its answer may depend
on the number `n` of the call. -/
def accepted (predicate : Nat → τ → Bool) : Nat → List τ → Option τ
  | _, [] => none
  | n, t :: ts => if predicate n t then some t else accepted predicate (n + 1) ts

def detachNormalTask (predicate : Nat → τ → Bool) : EEVDFScheduler τ × Option τ :=
  let s := s.refreshed
  match accepted predicate 0 s.normalEligible with
  | some t =>
    ((({ s with normalEligible := s.normalEligible.erase t }).finishNormalRemove t).saveLag S t,
      some t)
  | none =>
    match accepted predicate s.normalEligible.length s.normalIneligible with
    | some t =>
      (((({ s with normalIneligible := s.normalIneligible.erase t }).noteNormalIneligibleRemove)
        |>.finishNormalRemove t).saveLag S t, some t)
    | none => (s, none)

def pickNextAt : EEVDFScheduler τ × Option τ := s.pickAt now

def startRunning : EEVDFScheduler τ :=
  { s.modifyTask t (EEVDFTask.startRunning now) with current := some t }

def onTaskStart : EEVDFScheduler τ :=
  let s := s.advanceClock now
  let s :=
    if !(s.tasks t).isRt && (s.tasks t).deadline == 0 then
      let s := s.updateVirtualTime
      s.modifyTask t fun task =>
        refreshDeadline S true { task with vruntime := s.virtualTime }
    else s
  s.startRunning t now

def onTaskStop : EEVDFScheduler τ :=
  (s.advanceClock now).stopTask S t now

/-- The highest priority with a queued real-time task. -/
def highestReady : Int := 99 - trailingZeros s.rtBitmap

/-- The answer of `has_eligible_preemption` without its cache, in the form it is cached. -/
def scanPreemption (currentDeadline : UInt64) : EligiblePreemptionCache :=
  let hasEligiblePreemption :=
    s.normalEligible.head?.any fun t => decide ((s.tasks t).deadline < currentDeadline)
  let mayHaveIneligiblePreemption :=
    s.normalIneligibleDeadlineLowerBound.elim (!s.normalIneligible.isEmpty)
      fun deadline => decide (deadline < currentDeadline)
  let preemption :=
    if !hasEligiblePreemption && mayHaveIneligiblePreemption then
      s.normalIneligible.find? fun t => decide ((s.tasks t).deadline < currentDeadline)
    else none
  ⟨hasEligiblePreemption, currentDeadline, preemption.map fun t => (s.tasks t).vruntime⟩

def hasEligiblePreemption (currentDeadline : UInt64) : EEVDFScheduler τ × Bool :=
  let s := s.refreshed
  match s.normalPreemptionCache.filter fun cache =>
      cache.covers s.virtualTime && cache.preemptionCurrentDeadline == currentDeadline with
  | some cache => (s, cache.hasEligiblePreemption)
  | none =>
    let cache := s.scanPreemption currentDeadline
    ({ s with normalPreemptionCache := some cache }, cache.hasEligiblePreemption)

/-- The part of `tick_at` for a real-time task that is charged for its time. -/
def tickRt : EEVDFScheduler τ × Bool :=
  let task := s.tasks t
  let expired := task.isRoundRobin && task.rtRemaining == 0
  if s.rtBitmap ≠ 0 ∧ (task.priority < s.highestReady ∨
      (s.highestReady = task.priority ∧ expired)) then (s, true)
  else (if expired then s.modifyTask t resetRtSlice else s, false)

/-- The part of `tick_at` for an ordinary task. -/
def tickNormal : EEVDFScheduler τ × Bool :=
  if s.rtBitmap ≠ 0 then (s, true)
  else if s.normalTaskCount = 0 then
    (s.modifyTask t (refreshDeadline S false), false)
  else if (s.tasks t).deadline ≤ (s.tasks t).vruntime then
    (s.modifyTask t (refreshDeadline S true), true)
  else s.hasEligiblePreemption (s.tasks t).deadline

def tickAt : EEVDFScheduler τ × Bool :=
  let s := s.advanceClock now
  let isRt := (s.tasks t).isRt
  if s.current = some t ∧ isRt ∧ !(s.tasks t).isRoundRobin then
    (s, decide (s.rtBitmap ≠ 0 ∧ (s.tasks t).priority < s.highestReady))
  else
    let s :=
      if s.current = some t then s.modifyTask t (accountRuntime now true)
      else s.startRunning t now
    if isRt then s.tickRt t else s.tickNormal S t

def candidatePreempts (current candidate : τ) (now : UInt64) : EEVDFScheduler τ × Bool :=
  let s := s.advanceClock now
  let s :=
    if s.current = some current then s.modifyTask current (accountRuntime now true)
    else s
  let running := s.tasks current
  let waiting := s.tasks candidate
  match running.isRt, waiting.isRt with
  | false, true => (s, true)
  | true, false => (s, false)
  | true, true =>
    (s, decide (running.priority < waiting.priority) ||
      (running.isRoundRobin && waiting.priority == running.priority && running.rtRemaining == 0))
  | false, false =>
    let s := s.updateVirtualTime
    (s, decide (waiting.vruntime ≤ s.virtualTime) &&
      (decide (s.virtualTime < running.vruntime) || decide (waiting.deadline < running.deadline)))

/-- The new priority, and where that puts the task when it is the current one. -/
def storePriority (priority : Int) (isCurrent : Bool) : EEVDFScheduler τ :=
  let s := s.modifyTask t fun task => { task with priority }
  if isRtPriority priority then
    s.modifyTask t fun task =>
      let task := { task with hasSavedLag := false }
      if task.isRoundRobin then task.resetRtSlice else task
  else if isCurrent then
    let s := s.updateVirtualTime
    s.modifyTask t fun task =>
      refreshDeadline S true { task with vruntime := s.virtualTime }
  else s

def setPriorityInner (priority : Int) (now : UInt64) : EEVDFScheduler τ × Bool :=
  if !validPriority priority then (s, false)
  else
    let s := s.advanceClock now
    if s.current = some t then
      let wasRt := (s.tasks t).isRt
      let s := s.modifyTask t (accountRuntime now true)
      let s := if wasRt then s else s.updateVirtualTime
      (s.storePriority S t priority true, true)
    else
      let removed := (s.updateVirtualTime.saveLag S t).removeQueued t
      let s := removed.1.storePriority S t priority false
      match removed.2 with
      | some queued => (s.enqueueAt S queued .migration now, true)
      | none => (s, true)

def updatePriorityAt (priority : Int) (now : UInt64) : EEVDFScheduler τ × Bool :=
  s.setPriorityInner S t priority now

def setRtPolicyAt (policy : RtPolicy) (now : UInt64) : EEVDFScheduler τ :=
  let s := s.advanceClock now
  let s := if s.current = some t then s.modifyTask t (accountRuntime now true) else s
  s.modifyTask t (setRtPolicy policy)

end EEVDFScheduler

end PulseOS.Sched
