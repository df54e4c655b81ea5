import PulseOS.Lib.Table
import PulseOS.Lib.Transition

/-!
# The futex table

`futex_wait_mask` reads the word, translates its address, looks its queue up and then, under the
lock of that queue, reads the word again through the frame it translated to.  Wakers store through
the address space and look the queue up for themselves; pruning takes empty queues out of the table,
and copy-on-write puts another frame under a page.

* `queueMask`, `removeIfEmpty`, `removeBitsetIfEmpty`, `pruneEmptyEntries` — the sections under
  the lock of a shard.  A queue is taken out only where `Arc::strong_count` is one.
* `stepWait`, `stepWake` — the calls, one section under a lock or one access to memory at a time.

A `WaitQueue` is named by its allocation; `handles` lists the threads that hold an `Arc` on it
beside the table.  The process table and `GLOBAL_FUTEX_TABLE` are one table, with `is_priv` part of
the key. No task exits, and what the calls return is left out.
-/

namespace PulseOS.Futex

inductive TaskState where
  | running
  | ready
  | blocked
  deriving DecidableEq

end PulseOS.Futex

namespace PulseOS.FutexTable

open Transition Futex Function

def PAGE_SIZE : Nat := 4096

def FUTEX_SHARDS : UInt64 := 32

/-- `u32::MAX`, the bitset of the queues that are not in `bitset_queues`. -/
def ANY : UInt32 := 0xffffffff

def futexShardIndex (key : UInt64) : Nat :=
  let hash := (key >>> 2) * 0x9e3779b97f4a7c15
  ((hash ^^^ (hash >>> 32)) &&& (FUTEX_SHARDS - 1)).toNat

structure Key where
  key : Nat
  isPriv : Bool
  deriving DecidableEq

structure Wait where
  addr : Nat
  expected : UInt32
  isPrivate : Bool
  bitset : UInt32
  deriving DecidableEq

/-- A store to the word and the `futex_wake` after it; `wake_no_resched` looks at one queue only. -/
structure Wake where
  addr : Nat
  value : UInt32
  count : Nat
  isPrivate : Bool
  bitset : UInt32
  resched : Bool
  deriving DecidableEq

/-- Where `futex_wait_mask` is; `frame` is the one it translated its address to. -/
inductive WaitPoint where
  | value
  | translate
  | signal (frame : Nat)
  | key (frame : Nat)
  | lookup (frame : Nat) (key : Key)
  | enroll (frame : Nat) (key : Key) (queue : Nat)
  | asleep (key : Key) (queue : Nat)
  | cancel (key : Key) (queue : Nat)
  | drop (key : Key) (queue : Nat)
  | remove (key : Key)
  deriving DecidableEq

/-- Where a waker is. -/
inductive WakePoint where
  | store
  | key
  | lookup (key : Key)
  | notify (key : Key) (queue woken : Nat)
  | drop (key : Key) (queue woken : Nat)
  | remove (key : Key) (woken : Nat)
  | masks (key : Key) (woken : Nat)
  | notifyMask (key : Key) (queues : List Nat) (woken : Nat)
  | dropMask (key : Key) (queues : List Nat) (woken : Nat)
  | removeMasks (key : Key)
  deriving DecidableEq

inductive Phase (τ : Type) where
  | idle
  | wait (w : Wait) (point : WaitPoint)
  | wake (w : Wake) (point : WakePoint)
  /-- `unblock_one_task` of the task that was popped, before the waker goes on at `point` -/
  | unblock (w : Wake) (point : WakePoint) (target : τ) (cleared : Bool)
  deriving DecidableEq

structure Thread (τ : Type) where
  phase : Phase τ
  state : TaskState
  inWaitQueue : Bool
  /-- a signal is pending, the group exits or the deadline has passed -/
  interrupted : Bool

structure System (τ : Type) where
  threads : τ → Thread τ
  /-- the frame of each page of the address space -/
  pages : Nat → Option Nat
  frames : Nat → Nat → UInt32
  queues : Table Key Nat
  bitsetQueues : Table Key (Table UInt32 Nat)
  waiting : Nat → List τ
  handles : Nat → List τ
  /-- the next allocation -/
  next : Nat

inductive Call where
  | wait (w : Wait)
  | wake (w : Wake)

inductive Action (τ : Type) where
  | call (t : τ) (c : Call)
  | step (t : τ)
  | preempt (t : τ)
  | schedule (t : τ)
  | interrupt (t : τ)
  | resume (t : τ)
  /-- a timer event or `interrupt_task` unblocks the task -/
  | rouse (t : τ)
  | store (addr : Nat) (value : UInt32)
  /-- `prune_empty_entries` of one shard of one table -/
  | prune (isPriv : Bool) (shard : Nat)
  /-- copy-on-write: the page gets another frame, with a copy of its content -/
  | replace (page frame : Nat)

variable {τ : Type}

namespace System

/-! ## The address space -/

variable (s : System τ)

/-- `query_vaddr`. -/
def translate (addr : Nat) : Option Nat := s.pages (addr / PAGE_SIZE)

/-- The word of the address space. -/
def word (addr : Nat) : Option UInt32 :=
  (s.translate addr).map fun frame => s.frames frame (addr % PAGE_SIZE)

def setWord (addr : Nat) (value : UInt32) : System τ :=
  match s.translate addr with
  | some frame => { s with
      frames := update s.frames frame
        (update (s.frames frame) (addr % PAGE_SIZE) value) }
  | none => s

def futexKey (addr : Nat) (isPrivate : Bool) : Key :=
  if isPrivate then ⟨addr, true⟩
  else ⟨((s.translate addr).map fun frame => frame * PAGE_SIZE + addr % PAGE_SIZE).getD addr, false⟩

/-! ## The shards -/

variable (key : Key)

/-- The queue the table holds for a key and a bitset. -/
def queueAt (bitset : UInt32) : Option Nat :=
  if bitset = ANY then s.queues.lookup key
  else (s.bitsetQueues.lookup key).bind fun byBitset => byBitset.lookup bitset

/-- `Arc::strong_count` of a queue of the table. -/
def strongCount (q : Nat) : Nat := (s.handles q).length + 1

def removable (q : Nat) : Bool := (s.waiting q).isEmpty && s.strongCount q = 1

def clone (t : τ) (q : Nat) : System τ :=
  { s with handles := update s.handles q (t :: s.handles q) }

/-- `entry(key).or_insert_with(…).clone()`, in the map of the bitset. -/
def queueMask (t : τ) (key : Key) (bitset : UInt32) : System τ × Nat :=
  match s.queueAt key bitset with
  | some q => (s.clone t q, q)
  | none =>
    let s' :=
      if bitset = ANY then { s with queues := s.queues.insert key s.next, next := s.next + 1 }
      else { s with
        bitsetQueues := s.bitsetQueues.insert key
          (((s.bitsetQueues.lookup key).getD ∅).insert bitset s.next)
        next := s.next + 1 }
    (s'.clone t s.next, s.next)

def bitsetQueuesFor (wakeBitset : UInt32) : List Nat :=
  ((((s.bitsetQueues.lookup key).getD ∅).entries.filter fun e => e.1 &&& wakeBitset ≠ 0).insertionSort
    fun e e' => e.1 ≤ e'.1).map Sigma.snd

def removeIfEmpty : System τ :=
  match s.queues.lookup key with
  | some q => if s.removable q then { s with queues := s.queues.erase key } else s
  | none => s

/-- `retain` of the queues that are in use. -/
def retainUsed (byBitset : Table UInt32 Nat) : Table UInt32 Nat :=
  byBitset.filterMap fun _ q => if s.removable q then none else some q

def removeBitsetIfEmpty : System τ :=
  match s.bitsetQueues.lookup key with
  | some byBitset => { s with
      bitsetQueues := if (s.retainUsed byBitset).entries.isEmpty then s.bitsetQueues.erase key
        else s.bitsetQueues.insert key (s.retainUsed byBitset) }
  | none => s

def removeMaskIfEmpty (bitset : UInt32) : System τ :=
  if bitset = ANY then s.removeIfEmpty key else s.removeBitsetIfEmpty key

def inShard (isPriv : Bool) (shard : Nat) (key : Key) : Bool :=
  key.isPriv = isPriv && futexShardIndex (UInt64.ofNat key.key) = shard

def pruneEmptyEntries (isPriv : Bool) (shard : Nat) : System τ :=
  { s with
    queues := s.queues.filterMap fun key q =>
      if inShard isPriv shard key && s.removable q then none else some q
    bitsetQueues := s.bitsetQueues.filterMap fun key byBitset =>
      if inShard isPriv shard key then
        if (s.retainUsed byBitset).entries.isEmpty then none else some (s.retainUsed byBitset)
      else some byBitset }

section
variable [DecidableEq τ] (s : System τ) (t : τ)

def dropHandle (q : Nat) : System τ :=
  { s with handles := update s.handles q ((s.handles q).erase t) }

def modify (f : Thread τ → Thread τ) : System τ :=
  { s with threads := update s.threads t (f (s.threads t)) }

def goto (phase : Phase τ) : System τ :=
  s.modify t fun th => { th with phase }

/-! ## Waiting -/

def cancelEvents (q : Nat) : System τ :=
  if t ∈ s.waiting q then
    { s with waiting := update s.waiting q ((s.waiting q).filter (· ≠ t)) }.modify t
      fun th => { th with inWaitQueue := false }
  else s

def stepWait (w : Wait) : WaitPoint → System τ
  | .value =>
    s.goto t (if s.word w.addr = some w.expected then .wait w .translate else .idle)
  | .translate =>
    match s.translate w.addr with
    | some frame => s.goto t (.wait w (.signal frame))
    | none => s.goto t .idle
  | .signal frame =>
    s.goto t (if (s.threads t).interrupted then .idle else .wait w (.key frame))
  | .key frame => s.goto t (.wait w (.lookup frame (s.futexKey w.addr w.isPrivate)))
  | .lookup frame key =>
    let (s', q) := s.queueMask t key w.bitset
    s'.goto t (.wait w (.enroll frame key q))
  | .enroll frame key q =>
    if (s.threads t).interrupted then s.goto t (.wait w (.cancel key q))
    else if s.frames frame (w.addr % PAGE_SIZE) ≠ w.expected then s.goto t (.wait w (.cancel key q))
    else { s with waiting := update s.waiting q (s.waiting q ++ [t]) }.modify t
      fun th => { th with phase := .wait w (.asleep key q), state := .blocked, inWaitQueue := true }
  | .asleep key q => s.goto t (.wait w (.cancel key q))
  | .cancel key q => (s.cancelEvents t q).goto t (.wait w (.drop key q))
  | .drop key q => (s.dropHandle t q).goto t (.wait w (.remove key))
  | .remove key => (s.removeMaskIfEmpty key w.bitset).goto t .idle

/-! ## Waking -/

/-- The loop of `notify_one`: the task it pops and has still to unblock, or a running one. -/
def popTask (threads : τ → Thread τ) : List τ → (τ → Thread τ) × List τ × Option (τ × Bool)
  | [] => (threads, [], none)
  | u :: rest =>
    let unset := update threads u { threads u with inWaitQueue := false }
    match (threads u).state with
    | .blocked => (threads, rest, some (u, true))
    | .running => if (threads u).inWaitQueue then (unset, rest, some (u, false))
      else popTask unset rest
    | .ready => popTask unset rest

/-- One round of a loop of `notify_one`: `again` is where a count leads, `done` where no task does.
-/
def notify (w : Wake) (q : Nat) (again done : WakePoint) : System τ :=
  let (threads, queue, popped) := popTask s.threads (s.waiting q)
  let s' := { s with threads, waiting := update s.waiting q queue }
  match popped with
  | none => s'.goto t (.wake w done)
  | some (u, true) => s'.goto t (.unblock w again u false)
  | some (_, false) => s'.goto t (.wake w again)

def stepWake (w : Wake) : WakePoint → System τ
  | .store => (s.setWord w.addr w.value).goto t (.wake w .key)
  | .key => s.goto t (.wake w (.lookup (s.futexKey w.addr w.isPrivate)))
  | .lookup key =>
    match s.queues.lookup key with
    | some q => (s.clone t q).goto t (.wake w (.notify key q 0))
    | none => s.goto t (if w.resched then .wake w (.masks key 0) else .idle)
  | .notify key q woken =>
    if woken < w.count then s.notify t w q (.notify key q (woken + 1)) (.drop key q woken)
    else s.goto t (.wake w (.drop key q woken))
  | .drop key q woken => (s.dropHandle t q).goto t (.wake w (.remove key woken))
  | .remove key woken =>
    (s.removeIfEmpty key).goto t (if w.resched then .wake w (.masks key woken) else .idle)
  | .masks key woken =>
    if woken < w.count then
      ((s.bitsetQueuesFor key w.bitset).foldl (fun s q => s.clone t q) s).goto t
        (.wake w (.notifyMask key (s.bitsetQueuesFor key w.bitset) woken))
    else s.goto t (.wake w (.removeMasks key))
  | .notifyMask key queues woken =>
    match queues with
    | [] => s.goto t (.wake w (.removeMasks key))
    | q :: _ =>
      if woken < w.count then
        s.notify t w q (.notifyMask key queues (woken + 1)) (.dropMask key queues woken)
      else s.goto t (.wake w (.dropMask key queues woken))
  | .dropMask key queues woken =>
    match queues with
    | [] => s.goto t (.wake w (.removeMasks key))
    | q :: rest => (s.dropHandle t q).goto t (.wake w (.notifyMask key rest woken))
  | .removeMasks key => (s.removeBitsetIfEmpty key).goto t .idle

def unblockTask : System τ :=
  if (s.threads t).state = .blocked then s.modify t fun th => { th with state := .ready } else s

/-- The next step of the call a thread is in. -/
def stepThread : Option (System τ) :=
  match (s.threads t).phase with
  | .idle => none
  | .wait w point => some (s.stepWait t w point)
  | .wake w point => some (s.stepWake t w point)
  | .unblock w point target cleared =>
    if cleared then some ((s.unblockTask target).goto t (.wake w point))
    else some ((s.modify target fun th => { th with inWaitQueue := false }).goto t
      (.unblock w point target true))

def exec : Action τ → Option (System τ)
  | .call t c =>
    match (s.threads t).phase with
    | .idle =>
      if (s.threads t).state = .running then
        some (s.goto t (match c with
          | .wait w => .wait w .value
          | .wake w => .wake w .store))
      else none
    | _ => none
  | .step t => if (s.threads t).state = .running then s.stepThread t else none
  | .preempt t =>
    if (s.threads t).state = .running then
      some (s.modify t fun th => { th with state := .ready })
    else none
  | .schedule t =>
    if (s.threads t).state = .ready then
      some (s.modify t fun th => { th with state := .running })
    else none
  | .interrupt t => some (s.modify t fun th => { th with interrupted := true })
  | .resume t => some (s.modify t fun th => { th with interrupted := false })
  | .rouse t => some (s.unblockTask t)
  | .store addr value => some (s.setWord addr value)
  | .prune isPriv shard => some (s.pruneEmptyEntries isPriv shard)
  | .replace page frame =>
    match s.pages page with
    | some old => some { s with
        pages := update s.pages page (some frame)
        frames := update s.frames frame (s.frames old) }
    | none => none

end

end System

/-- No call has begun, and the table is empty. -/
structure Initial (s : System τ) : Prop where
  idle : ∀ t, (s.threads t).phase = .idle
  queues : s.queues = ∅
  bitsetQueues : s.bitsetQueues = ∅
  waiting : ∀ q, s.waiting q = []
  handles : ∀ q, s.handles q = []

/-- Every task runs, every page has a frame of its own and every word is zero. -/
def System.start : System τ where
  threads _ := ⟨.idle, .running, false, false⟩
  pages page := some page
  frames _ _ := 0
  queues := ∅
  bitsetQueues := ∅
  waiting _ := []
  handles _ := []
  next := 0

theorem initial_start : Initial (System.start : System τ) :=
  ⟨fun _ => rfl, rfl, rfl, fun _ => rfl, fun _ => rfl⟩

end PulseOS.FutexTable
