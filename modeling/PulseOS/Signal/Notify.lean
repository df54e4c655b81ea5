import PulseOS.Lib.Transition

/-!
# Who is told of a process-directed signal

* `Group` — the shared pending queue of a thread group, the masks of its threads, which of them
  sleep, and which are due for a delivery check.
* `sendNext` — `queue_signal_to_process_with_admission`: enqueue, list the threads, and notify the
  first one that does not block the signal; where there is none, those with a signal wait queue.
* `threadNext` — a thread changes its mask, passes a delivery check, sleeps, wakes or exits.

Dispositions do not change.  Thread-directed signals, `skip_once`, the masks of handlers, and
whether a real-time signal has another record are inputs of the steps that depend on them.
-/

namespace PulseOS.Signal.Notify

open Transition Function

def NSIG : Nat := 64

def SIGKILL : Nat := 9

def SIGSTOP : Nat := 19

def SIGRTMIN : Nat := 32

def sanitizeMask (mask : Nat → Bool) : Nat → Bool :=
  fun sig => mask sig && !(sig == SIGKILL || sig == SIGSTOP)

inductive SenderPc where
  | idle
  /-- Before the enqueue.  The list of threads was taken already if the signal is ignored. -/
  | put (sig : Nat) (threads : Option (List Nat))
  | listThreads (sig : Nat)
  /-- Looks at the masks of `rest`; `threads` is the whole list. -/
  | testing (sig : Nat) (rest threads : List Nat)
  | notifying (sig t : Nat) (rest threads : List Nat)
  | waiters (sig : Nat) (rest : List Nat)
  deriving DecidableEq

structure Group where
  senders : Nat → SenderPc
  live : List Nat
  pending : Nat → Bool
  ignored : Nat → Bool
  blocked : Nat → Nat → Bool
  asleep : Nat → Bool
  /-- The thread has been notified since the signal was queued, or has unblocked it since, and has
  not passed a delivery check. -/
  due : Nat → Nat → Bool

inductive SendMove where
  | begin (sig : Nat)
  | put (queued : Bool)
  /-- `other`: a thread-directed signal can be delivered; `waits`: the wait queue is not empty. -/
  | advance (other waits : Bool)

inductive ThreadMove where
  | setBlockedMask (mask : Nat → Bool)
  /-- A delivery check that takes a shared signal or none and leaves the mask; `left`: the signal
  has another record. -/
  | check (taken : Option Nat) (left : Bool) (mask : Nat → Bool)
  | sleep
  | wake
  | exit

inductive Action where
  | send (c : Nat) (move : SendMove)
  | thread (t : Nat) (move : ThreadMove)
  /-- A record is dequeued for `signalfd` or a signal wait, or is discarded. -/
  | take (sig : Nat)

namespace Group

variable (g : Group)

def Initial : Prop := (∀ c, g.senders c = .idle) ∧ ∀ sig, g.pending sig = false

def setSender (c : Nat) (pc : SenderPc) : Group :=
  { g with senders := update g.senders c pc }

/-- Pending and not ignored. -/
def deliverable (sig : Nat) : Bool := g.pending sig && !g.ignored sig

/-- `has_deliverable_pending_signal`, as far as the shared queue goes. -/
def hasDeliverable (t : Nat) : Bool :=
  (List.range' 1 NSIG).any fun sig => g.deliverable sig && !g.blocked t sig

/-- `notify_signal_pending` of a thread that has something to deliver interrupts its task. -/
def interrupt (t : Nat) : Group :=
  { g with
    asleep := update g.asleep t false
    due := update g.due t fun _ => true }

/-- `notify_signal_pending`, with its result. -/
def notifySignalPending (t : Nat) (other : Bool) : Group × Bool :=
  if other || g.hasDeliverable t then (if t ∈ g.live then g.interrupt t else g, true) else (g, false)

/-- A record goes into the shared queue. -/
def enqueue (sig : Nat) : Group :=
  { g with
    pending := update g.pending sig true
    due := fun t => update (g.due t) sig false }

def sendNext (c : Nat) : SendMove → Option Group
  | .begin sig =>
    if g.senders c = .idle ∧ 1 ≤ sig ∧ sig ≤ NSIG ∧
        ¬ (g.ignored sig = true ∧ ∃ t ∈ g.live, g.blocked t sig = false) then
      some (g.setSender c (.put sig (if g.ignored sig then some g.live else none)))
    else none
  | .put queued =>
    match g.senders c with
    | .put sig threads =>
      -- a standard signal that is pending stands for the new one, and a limit may be reached
      if queued = true ∧ (g.pending sig = false ∨ SIGRTMIN ≤ sig) then
        some ((g.enqueue sig).setSender c (match threads with
          | some threads => .testing sig threads threads
          | none => .listThreads sig))
      else some (g.setSender c .idle)
    | _ => none
  | .advance other waits =>
    match g.senders c with
    | .listThreads sig => some (g.setSender c (.testing sig g.live g.live))
    | .testing sig (t :: rest) threads =>
      some (g.setSender c
        (if g.blocked t sig then .testing sig rest threads else .notifying sig t rest threads))
    | .testing sig [] threads => some (g.setSender c (.waiters sig threads))
    | .notifying sig t rest threads =>
      let (g, deliverable) := g.notifySignalPending t other
      some (g.setSender c (if deliverable then .idle else .testing sig rest threads))
    | .waiters sig (t :: rest) =>
      let g := if waits then (g.notifySignalPending t other).1 else g
      some (g.setSender c (.waiters sig rest))
    | .waiters _ [] => some (g.setSender c .idle)
    | _ => none

/-- What is pending once a signal was taken. -/
def remaining : Option Nat → Bool → Nat → Bool
  | some sig, left => update g.pending sig left
  | none, _ => g.pending

def threadNext (t : Nat) : ThreadMove → Option Group
  | .setBlockedMask mask =>
    if t ∈ g.live ∧ g.asleep t = false then
      some { g with
        blocked := update g.blocked t (sanitizeMask mask)
        due := update g.due t fun sig =>
          g.due t sig || (g.blocked t sig && !sanitizeMask mask sig) }
    else none
  | .check taken left mask =>
    if t ∈ g.live ∧ g.asleep t = false ∧
        taken.all (fun sig => g.deliverable sig && !g.blocked t sig && (!left || SIGRTMIN ≤ sig)) = true then
      some { g with
        pending := g.remaining taken left
        blocked := update g.blocked t (sanitizeMask mask)
        due := update g.due t fun _ => false }
    else none
  | .sleep =>
    if t ∈ g.live ∧ g.hasDeliverable t = false then
      some { g with asleep := update g.asleep t true }
    else none
  | .wake => some { g with asleep := update g.asleep t false }
  | .exit =>
    if t ∈ g.live ∧ g.asleep t = false then some { g with live := g.live.filter (· != t) } else none

def next : Action → Option Group
  | .send c move => g.sendNext c move
  | .thread t move => g.threadNext t move
  | .take sig => some { g with pending := update g.pending sig false }

/-- A pending signal that some thread does not block has a thread that does not block it, that is
awake, and that was notified and has not passed a delivery check. -/
def Consumable : Prop :=
  ∀ sig, g.pending sig = true → g.ignored sig = false → (∀ c, g.senders c = .idle) →
    (∃ t ∈ g.live, g.blocked t sig = false) →
      ∃ t ∈ g.live, g.blocked t sig = false ∧ g.due t sig = true ∧ g.asleep t = false

variable (t sig : Nat)

/-- Every other thread blocks the signal. -/
def OthersBlock : Prop := ∀ t' ∈ g.live, t' ≠ t → g.blocked t' sig = true

/-- Another thread is on its way to the signal. -/
def OtherDue : Prop :=
  ∃ t' ∈ g.live, t' ≠ t ∧ g.blocked t' sig = false ∧ g.due t' sig = true

/-- The condition on a step: a thread blocks a pending signal, passes a delivery check without it,
or exits, only where another thread is on its way to the signal, or where no other thread could
take it. -/
def KeepsTarget : Action → Prop
  | .thread t (.setBlockedMask mask) => ∀ sig ∈ List.range' 1 NSIG, g.deliverable sig = true →
    g.blocked t sig = false → sanitizeMask mask sig = true → g.OthersBlock t sig ∨ g.OtherDue t sig
  | .thread t (.check taken left mask) => ∀ sig ∈ List.range' 1 NSIG, g.deliverable sig = true →
    taken ≠ some sig ∨ left = true →
      sanitizeMask mask sig = true ∧ (g.blocked t sig = true ∨ g.OthersBlock t sig) ∨
        g.OtherDue t sig
  | .thread t .exit => ∀ sig ∈ List.range' 1 NSIG, g.deliverable sig = true → g.blocked t sig = false →
    g.OthersBlock t sig ∨ g.OtherDue t sig
  | _ => True

instance : Decidable (g.OthersBlock t sig) := by
  unfold OthersBlock
  infer_instance

instance : Decidable (g.OtherDue t sig) := by
  unfold OtherDue
  infer_instance

instance (a : Action) : Decidable (g.KeepsTarget a) := by
  unfold KeepsTarget
  split <;> infer_instance

end Group

end PulseOS.Signal.Notify
