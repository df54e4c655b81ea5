import PulseOS.Errno
import PulseOS.Lib.Table
import PulseOS.Lib.Transition
import PulseOS.Lock.Target

/-!
# Advisory locks of open files

`flock.rs`: the table `FLOCK_MAPS` and the threads that use it.  Each critical section under a shard
mutex is one step, with the `notify_all` calls made inside it; enrolment on the cloned wait queue is
a step of its own, and so is `flock_release_owner` for each shard.

* `decode`, `convertSection`, `attemptSection`, `releaseSection`, `releaseShardSection` — the
  operation word and the sections of `do_flock` and of the two release functions.
* `requestedSince owner target history` — a section of `do_flock` asked for the lock after the
  owner's last release of the target.
* `reachable_mutualExclusion` — every `LockState` has owners, each once, an exclusive one exactly
  one, all of whom asked for it since they last released it; and a request that returns `Ok` leaves
  its owner in the list with the type it asked for.
-/

namespace PulseOS.Lock.Flock

open Transition AList List

inductive FlockType where
  | shared
  | exclusive
  deriving DecidableEq, Repr

structure LockState where
  lockType : FlockType
  owners : List UInt64
  waitQueue : WaitQueue

abbrev Locks := Table LockTarget LockState

/-! ## The operation word -/

def LOCK_SH : BitVec 32 := 1
def LOCK_EX : BitVec 32 := 2
def LOCK_NB : BitVec 32 := 4
def LOCK_UN : BitVec 32 := 8

inductive Operation where
  | unlock
  | lock (lockType : FlockType) (nonblocking : Bool)
  deriving DecidableEq, Repr

/-- The checks at the head of `do_flock`. -/
def decode (operation : BitVec 32) : Except LinuxError Operation :=
  let isSh := operation &&& LOCK_SH != 0
  let isEx := operation &&& LOCK_EX != 0
  let isUn := operation &&& LOCK_UN != 0
  let isNb := operation &&& LOCK_NB != 0
  if isSh.toNat + isEx.toNat + isUn.toNat ≠ 1 then .error .EINVAL
  else if operation &&& ~~~(LOCK_SH ||| LOCK_EX ||| LOCK_NB ||| LOCK_UN) ≠ 0 then .error .EINVAL
  else if isUn then .ok .unlock
  else .ok (.lock (if isSh then .shared else .exclusive) isNb)

/-! ## Critical sections -/

structure Request where
  owner : UInt64
  target : LockTarget
  lockType : FlockType

def LockState.canAcquire (state : LockState) (r : Request) : Bool :=
  let holdsAlready := state.owners.contains r.owner
  match r.lockType with
  | .shared =>
    match state.lockType with
    | .shared => true
    | .exclusive => state.owners.length == 1 && holdsAlready
  | .exclusive => if holdsAlready then state.owners.length == 1 else state.owners.isEmpty

variable (locks : Locks) (owner : UInt64)

/-- Take `owner` out of a state, and the state out of the table with its last owner. -/
def dropOwner (target : LockTarget) (state : LockState) : Locks :=
  let owners := state.owners.erase owner
  if owners.isEmpty then locks.erase target else locks.insert target { state with owners }

/-- The section before the loop of `do_flock`: whether the call returns `Ok(0)`, the queues that
are notified, and the table. -/
def convertSection (r : Request) : Bool × List WaitQueue × Locks :=
  match locks.lookup r.target with
  | some state =>
    if state.owners.contains r.owner then
      if state.lockType = r.lockType then (true, [], locks)
      else (false, [state.waitQueue], dropOwner locks r.owner r.target state)
    else (false, [], locks)
  | none => (false, [], locks)

inductive Attempt where
  | granted
  | failed (e : LinuxError)
  /-- waits on the cloned queue -/
  | waits (queue : WaitQueue)

/-- The section of one pass of the loop of `do_flock`. -/
def attemptSection (fresh : WaitQueue) (r : Request) (nonblocking : Bool) : Attempt × Locks :=
  match locks.lookup r.target with
  | some state =>
    if state.canAcquire r then
      let owners := if state.owners.contains r.owner then state.owners
        else state.owners ++ [r.owner]
      (.granted, locks.insert r.target { state with lockType := r.lockType, owners })
    else if nonblocking then (.failed .EAGAIN, locks)
    else (.waits state.waitQueue, locks)
  | none => (.granted, locks.insert r.target ⟨r.lockType, [r.owner], fresh⟩)

/-- The condition of `wait_until`, signals apart. -/
def acquirable (r : Request) : Bool :=
  match locks.lookup r.target with
  | some state => state.canAcquire r
  | none => true

/-- `flock_release_target_owner`: the queues that are notified, and the table. -/
def releaseSection (target : LockTarget) : List WaitQueue × Locks :=
  match locks.lookup target with
  | some state =>
    if state.owners.contains owner then ([state.waitQueue], dropOwner locks owner target state)
    else ([], locks)
  | none => ([], locks)

/-- What `flock_release_owner` leaves of one state. -/
def releaseState (shard : Nat) (target : LockTarget) (state : LockState) : Option LockState :=
  if lockTargetShard target = shard ∧ state.owners.contains owner then
    let owners := state.owners.erase owner
    if owners.isEmpty then none else some { state with owners }
  else some state

/-- The section of `flock_release_owner` for one shard. -/
def releaseShardSection (shard : Nat) : List WaitQueue × Locks :=
  (locks.entries.filterMap fun e =>
    if lockTargetShard e.1 = shard ∧ e.2.owners.contains owner then some e.2.waitQueue else none,
   locks.filterMap (releaseState owner shard))

/-! ## Threads -/

inductive Phase where
  | idle
  /-- in the loop of `do_flock`, before its section -/
  | attempting (r : Request) (nonblocking : Bool)
  /-- with a clone of the queue, awake -/
  | cloned (r : Request) (queue : WaitQueue)
  /-- enrolled on the cloned queue -/
  | enrolled (r : Request) (queue : WaitQueue)
  /-- `flock_release_owner` before `shard` -/
  | releasing (owner : UInt64) (shard : Nat)

/-- `notify_all` wakes the threads enrolled on the queues. -/
def Phase.notified (queues : List WaitQueue) : Phase → Phase
  | .enrolled r queue => if queues.contains queue then .cloned r queue else .enrolled r queue
  | p => p

def Attempt.phase (r : Request) : Attempt → Phase
  | .granted => .idle
  | .failed _ => .idle
  | .waits queue => .cloned r queue

def Attempt.isGranted : Attempt → Bool
  | .granted => true
  | _ => false

structure State (Thread : Type) where
  locks : Locks
  phase : Thread → Phase
  /-- the next `WaitQueue` allocation -/
  fresh : WaitQueue

inductive Event where
  | convert (r : Request) (returns : Bool)
  | attempt (r : Request) (granted : Bool)
  | release (owner : UInt64) (target : LockTarget)
  | releaseShard (owner : UInt64) (shard : Nat)
  /-- none: a call that only checks its arguments, or a move of `wait_until` -/
  | none

variable {Thread : Type} [DecidableEq Thread]

/-- A section of `t`: the threads on the notified queues wake up. -/
def State.move (s : State Thread) (t : Thread) (queues : List WaitQueue) (locks : Locks)
    (p : Phase) : State Thread :=
  { s with locks, phase := Function.update (fun u => (s.phase u).notified queues) t p }

inductive Step (s : State Thread) : Thread × Event → State Thread → Prop
  | invalid {t : Thread} {operation : BitVec 32} {e : LinuxError} :
      s.phase t = .idle → decode operation = .error e → Step s (t, .none) s
  | unlock {t : Thread} {owner : UInt64} {target : LockTarget} {operation : BitVec 32} :
      s.phase t = .idle → decode operation = .ok .unlock →
      Step s (t, .release owner target) (s.move t (releaseSection s.locks owner target).1
        (releaseSection s.locks owner target).2 .idle)
  | convert {t : Thread} {r : Request} {operation : BitVec 32} {nonblocking : Bool} :
      s.phase t = .idle → decode operation = .ok (.lock r.lockType nonblocking) →
      Step s (t, .convert r (convertSection s.locks r).1)
        (s.move t (convertSection s.locks r).2.1 (convertSection s.locks r).2.2
          (if (convertSection s.locks r).1 then .idle else .attempting r nonblocking))
  | attempt {t : Thread} {r : Request} {nonblocking : Bool} :
      s.phase t = .attempting r nonblocking →
      Step s (t, .attempt r (attemptSection s.locks s.fresh r nonblocking).1.isGranted)
        { s.move t [] (attemptSection s.locks s.fresh r nonblocking).2
            ((attemptSection s.locks s.fresh r nonblocking).1.phase r) with
          fresh := s.fresh + 1 }
  /-- a pending signal ends the wait with `EINTR` -/
  | interrupt {t : Thread} {r : Request} {queue : WaitQueue} :
      s.phase t = .cloned r queue → Step s (t, .none) (s.move t [] s.locks .idle)
  | enrol {t : Thread} {r : Request} {queue : WaitQueue} :
      s.phase t = .cloned r queue → acquirable s.locks r = false →
      Step s (t, .none) (s.move t [] s.locks (.enrolled r queue))
  | resume {t : Thread} {r : Request} {queue : WaitQueue} :
      s.phase t = .cloned r queue → acquirable s.locks r = true →
      Step s (t, .none) (s.move t [] s.locks (.attempting r false))
  /-- a signal takes the thread off the queue -/
  | signal {t : Thread} {r : Request} {queue : WaitQueue} :
      s.phase t = .enrolled r queue → Step s (t, .none) (s.move t [] s.locks (.cloned r queue))
  | releaseTarget {t : Thread} {owner : UInt64} {target : LockTarget} : s.phase t = .idle →
      Step s (t, .release owner target) (s.move t (releaseSection s.locks owner target).1
        (releaseSection s.locks owner target).2 .idle)
  | release {t : Thread} {owner : UInt64} :
      s.phase t = .idle → Step s (t, .none) (s.move t [] s.locks (.releasing owner 0))
  | releaseShard {t : Thread} {owner : UInt64} {shard : Nat} :
      s.phase t = .releasing owner shard → shard < LOCK_TABLE_SHARDS →
      Step s (t, .releaseShard owner shard)
        (s.move t (releaseShardSection s.locks owner shard).1
          (releaseShardSection s.locks owner shard).2 (.releasing owner (shard + 1)))
  | released {t : Thread} {owner : UInt64} :
      s.phase t = .releasing owner LOCK_TABLE_SHARDS → Step s (t, .none) (s.move t [] s.locks .idle)

def Initial (s : State Thread) : Prop := s.locks = ∅ ∧ ∀ t, s.phase t = .idle

/-! ## Lock states -/

/-- Owners, each once, and exactly one of an exclusive lock. -/
structure LockState.Valid (state : LockState) : Prop where
  nonempty : state.owners ≠ []
  nodup : state.owners.Nodup
  exclusive : state.lockType = .exclusive → state.owners.length = 1

variable {owner : UInt64} {locks : Locks} {state state' : LockState} {other target : LockTarget}

theorem LockState.Valid.erase (h : state.Valid)
    (ho : owner ∈ state.owners) (hne : state.owners.erase owner ≠ []) :
    ({ state with owners := state.owners.erase owner } : LockState).Valid := by
  refine ⟨hne, h.nodup.erase owner, fun hx => ?_⟩
  have hone := h.exclusive hx
  have hlen := length_erase_of_mem ho
  exact absurd (eq_nil_of_length_eq_zero (by omega)) hne

/-- The table of `can_acquire` keeps the lock state valid and enters the owner. -/
theorem LockState.Valid.acquire (h : state.Valid) {r : Request}
    (hc : state.canAcquire r = true) {owners : List UInt64}
    (howners : owners = if state.owners.contains r.owner then state.owners
      else state.owners ++ [r.owner]) :
    ({ state with lockType := r.lockType, owners } : LockState).Valid ∧ r.owner ∈ owners := by
  by_cases hin : r.owner ∈ state.owners
  · -- the owner is in the list: it stays as it is
    rw [if_pos (by simpa using hin)] at howners
    subst howners
    refine ⟨⟨h.nonempty, h.nodup, fun hx => ?_⟩, hin⟩
    have hx' : r.lockType = .exclusive := hx
    simpa [LockState.canAcquire, hx', hin] using hc
  · -- a new owner joins only a shared lock
    rw [if_neg (by simpa using hin)] at howners
    subst howners
    have hshared : r.lockType = .shared := by
      cases ht : r.lockType with
      | shared => rfl
      | exclusive =>
        have : state.owners = [] := by simpa [LockState.canAcquire, ht, hin] using hc
        exact absurd this h.nonempty
    refine ⟨⟨by simp, ?_, fun hx => ?_⟩, by simp⟩
    · exact nodup_append.mpr ⟨h.nodup, by simp, by
        intro a ha b hb hab
        rw [hab, mem_singleton.mp hb] at ha
        exact hin ha⟩
    · have hx' : r.lockType = .exclusive := hx
      rw [hshared] at hx'
      cases hx'

/-! ## The table under each section -/

theorem lookup_dropOwner (h : (dropOwner locks owner target state).lookup other = some state') :
    (other = target ∧ state' = { state with owners := state.owners.erase owner } ∧
      state.owners.erase owner ≠ []) ∨ other ≠ target ∧ locks.lookup other = some state' := by
  simp only [dropOwner] at h
  by_cases ho : other = target
  · subst ho
    split at h
    · rw [lookup_erase] at h
      cases h
    · rename_i hne
      rw [lookup_insert] at h
      cases h
      exact .inl ⟨rfl, rfl, by simpa using hne⟩
  · refine .inr ⟨ho, ?_⟩
    split at h
    · rwa [lookup_erase_ne ho] at h
    · rwa [lookup_insert_ne ho] at h

/-- A state after a release by `owner` where `released` holds of its target: the owner is out. -/
structure Released (locks : Locks) (owner : UInt64) (released : Prop) (target : LockTarget)
    (state' : LockState) : Prop where
  out : released → owner ∉ state'.owners
  old : ∃ state, locks.lookup target = some state ∧ (state' = state ∨
    (owner ∈ state.owners ∧ state.owners.erase owner ≠ [] ∧
      state' = { state with owners := state.owners.erase owner }))

section
variable (hv : ∀ T st, locks.lookup T = some st → st.Valid)
include hv

theorem releaseSection_released
    (h : (releaseSection locks owner target).2.lookup other = some state') :
    Released locks owner (other = target) other state' := by
  unfold releaseSection at h
  split at h
  · rename_i state hl
    split at h
    · rename_i hin
      have hin' : owner ∈ state.owners := by simpa using hin
      rcases lookup_dropOwner h with ⟨rfl, rfl, hne⟩ | ⟨hne, ho⟩
      · exact ⟨fun _ => (hv _ _ hl).nodup.not_mem_erase, state, hl, .inr ⟨hin', hne, rfl⟩⟩
      · exact ⟨fun he => absurd he hne, state', ho, .inl rfl⟩
    · rename_i hin
      refine ⟨fun he => ?_, state', h, .inl rfl⟩
      subst he
      have : state = state' := Option.some.inj (hl.symm.trans h)
      subst this
      simpa using hin
  · rename_i hl
    refine ⟨fun he => ?_, state', h, .inl rfl⟩
    subst he
    rw [hl] at h
    cases h

theorem releaseShardSection_released {shard : Nat}
    (h : (releaseShardSection locks owner shard).2.lookup other = some state') :
    Released locks owner (lockTargetShard other = shard) other state' := by
  have hlookup : (releaseShardSection locks owner shard).2.lookup other =
      (locks.lookup other).bind (releaseState owner shard other) := Table.lookup_filterMap _ _ _
  rw [hlookup] at h
  obtain ⟨state, hl, h⟩ := Option.bind_eq_some_iff.mp h
  simp only [releaseState] at h
  split at h
  · rename_i hin
    have hin' : owner ∈ state.owners := by simpa using hin.2
    split at h
    · cases h
    · rename_i hne
      cases h
      exact ⟨fun _ => (hv _ _ hl).nodup.not_mem_erase, state, hl,
        .inr ⟨hin', by simpa using hne, rfl⟩⟩
  · rename_i hin
    cases h
    exact ⟨fun he => by simpa [he] using hin, _, hl, .inl rfl⟩

end

/-! ## Mutual exclusion -/

/-- A section of `do_flock` asked for the lock on `target` after the last release by `owner`; the
history lists the latest step first. -/
def requestedSince (owner : UInt64) (target : LockTarget) : List (Thread × Event) → Bool
  | [] => false
  | (_, .convert r _) :: history =>
    (r.owner == owner && r.target == target) || requestedSince owner target history
  | (_, .attempt r _) :: history =>
    (r.owner == owner && r.target == target) || requestedSince owner target history
  | (_, .release o T) :: history =>
    !(o == owner && T == target) && requestedSince owner target history
  | (_, .releaseShard o shard) :: history =>
    !(o == owner && lockTargetShard target == shard) && requestedSince owner target history
  | (_, .none) :: history => requestedSince owner target history

/-- The invariant, over the steps so far. -/
structure Exclusive (history : List (Thread × Event)) (locks : Locks) : Prop where
  valid : ∀ target state, locks.lookup target = some state → state.Valid
  requested : ∀ target state, locks.lookup target = some state → ∀ owner ∈ state.owners,
    requestedSince owner target history = true

section Exclusive

variable {history : List (Thread × Event)} {locks locks' : Locks} {r : Request} {t : Thread}

omit [DecidableEq Thread] in
/-- A release keeps the invariant when the history forgets requests of released locks only. -/
theorem Exclusive.release (h : Exclusive history locks) {owner : UInt64} {e : Event}
    {released : LockTarget → Prop} (hr : ∀ target state', locks'.lookup target = some state' →
      Released locks owner (released target) target state')
    (he : ∀ o target, (o = owner → ¬ released target) →
      requestedSince o target history = true → requestedSince o target ((t, e) :: history) = true) :
    Exclusive ((t, e) :: history) locks' := by
  refine ⟨fun target state' hl => ?_, fun target state' hl o ho => ?_⟩
  · obtain ⟨-, state, hold, rfl | ⟨hin, hne, rfl⟩⟩ := hr target state' hl
    · exact h.valid target _ hold
    · exact (h.valid target _ hold).erase hin hne
  · obtain ⟨hout, state, hold, hst⟩ := hr target state' hl
    refine he o target (fun heq hrel => hout hrel (heq ▸ ho)) (h.requested target state hold o ?_)
    rcases hst with rfl | ⟨-, -, rfl⟩
    · exact ho
    · exact mem_of_mem_erase ho

omit [DecidableEq Thread] in
theorem Exclusive.convert (h : Exclusive history locks) (returns : Bool) :
    Exclusive ((t, .convert r returns) :: history) (convertSection locks r).2.2 := by
  have hmore : ∀ {o target}, requestedSince o target history = true →
      requestedSince o target ((t, .convert r returns) :: history) = true := fun ho => by
    rw [requestedSince, ho, Bool.or_true]
  have hkeep : Exclusive ((t, .convert r returns) :: history) locks :=
    ⟨h.valid, fun target state hl o ho => hmore (h.requested target state hl o ho)⟩
  unfold convertSection
  split
  · rename_i state hl
    split
    · rename_i hin
      split
      · exact hkeep
      · -- the old lock is released before the new one is asked for
        refine ⟨fun target state' hl' => ?_, fun target state' hl' o ho => hmore ?_⟩
        · rcases lookup_dropOwner hl' with ⟨rfl, rfl, hne⟩ | ⟨-, hold⟩
          · exact (h.valid _ _ hl).erase (by simpa using hin) hne
          · exact h.valid _ _ hold
        · rcases lookup_dropOwner hl' with ⟨rfl, rfl, -⟩ | ⟨-, hold⟩
          · exact h.requested _ _ hl o (mem_of_mem_erase ho)
          · exact h.requested _ _ hold o ho
    · exact hkeep
  · exact hkeep

omit [DecidableEq Thread] in
theorem Exclusive.attempt (h : Exclusive history locks) (fresh : WaitQueue) (nonblocking : Bool)
    (granted : Bool) :
    Exclusive ((t, .attempt r granted) :: history)
      (attemptSection locks fresh r nonblocking).2 := by
  have hself : requestedSince r.owner r.target ((t, .attempt r granted) :: history) = true := by
    simp [requestedSince]
  have hmore : ∀ {o target}, requestedSince o target history = true →
      requestedSince o target ((t, .attempt r granted) :: history) = true := fun ho => by
    rw [requestedSince, ho, Bool.or_true]
  have hkeep : Exclusive ((t, .attempt r granted) :: history) locks :=
    ⟨h.valid, fun target state hl o ho => hmore (h.requested target state hl o ho)⟩
  -- a table that differs in the state of the target only
  have hinsert : ∀ {state : LockState}, state.Valid →
      (∀ o ∈ state.owners, requestedSince o r.target ((t, .attempt r granted) :: history) = true) →
      Exclusive ((t, .attempt r granted) :: history) (locks.insert r.target state) := by
    intro state hv hreq
    refine ⟨fun target state' hl => ?_, fun target state' hl o ho => ?_⟩ <;>
      by_cases ht : target = r.target
    · subst ht
      rw [lookup_insert] at hl
      cases hl
      exact hv
    · rw [lookup_insert_ne ht] at hl
      exact hkeep.valid target state' hl
    · subst ht
      rw [lookup_insert] at hl
      cases hl
      exact hreq o ho
    · rw [lookup_insert_ne ht] at hl
      exact hkeep.requested target state' hl o ho
  unfold attemptSection
  split
  · rename_i state hl
    split
    · rename_i hc
      refine hinsert ((h.valid _ _ hl).acquire hc rfl).1 fun o ho => ?_
      have hcases : o ∈ state.owners ∨ o = r.owner := by
        split at ho
        · exact .inl ho
        · simpa using ho
      rcases hcases with ho | rfl
      · exact hmore (h.requested _ _ hl o ho)
      · exact hself
    · split
      · exact hkeep
      · exact hkeep
  · refine hinsert ⟨by simp, by simp, fun _ => rfl⟩ fun o ho => ?_
    rw [mem_singleton.mp ho]
    exact hself

variable {s s' : State Thread} {e : Event}

/-- **Every step keeps the locks exclusive.** -/
theorem step_exclusive (h : Exclusive history s.locks) (hs : Step s (t, e) s') :
    Exclusive ((t, e) :: history) s'.locks := by
  have hnone : Exclusive ((t, .none) :: history) s.locks := ⟨h.valid, h.requested⟩
  have hrelease : ∀ owner target, Exclusive ((t, .release owner target) :: history)
      (releaseSection s.locks owner target).2 := by
    intro owner target
    refine h.release (fun _ _ hl => releaseSection_released h.valid hl) fun o T hne ho => ?_
    simp only [requestedSince, ho, Bool.and_true, Bool.not_eq_true', Bool.and_eq_false_iff,
      beq_eq_false_iff_ne]
    by_cases heq : owner = o
    · exact .inr fun hT => hne heq.symm hT.symm
    · exact .inl heq
  cases hs with
  | invalid => exact hnone
  | unlock => exact hrelease _ _
  | convert => exact h.convert _
  | attempt => exact h.attempt _ _ _
  | interrupt | enrol | resume | signal => exact hnone
  | releaseTarget => exact hrelease _ _
  | release => exact hnone
  | @releaseShard _ owner _ _ _ =>
    refine h.release (fun _ _ hl => releaseShardSection_released h.valid hl) fun o T hne ho => ?_
    simp only [requestedSince, ho, Bool.and_true, Bool.not_eq_true', Bool.and_eq_false_iff,
      beq_eq_false_iff_ne]
    by_cases heq : owner = o
    · exact .inr (hne heq.symm)
    · exact .inl heq
  | released => exact hnone

theorem run_exclusive {history : List (Thread × Event)} {s : State Thread}
    (h : Run Initial Step history s) : Exclusive history s.locks := by
  induction h with
  | init hi =>
    have hempty : ∀ {target state}, lookup target (∅ : Locks) ≠ some state := nofun
    rw [hi.1]
    exact ⟨fun _ _ hl => absurd hl hempty, fun _ _ hl => absurd hl hempty⟩
  | step _ hs ih => exact step_exclusive ih hs

/-- The request is granted: its owner is in the list, with the type asked for. -/
def Held (locks : Locks) (r : Request) : Prop :=
  ∃ state, locks.lookup r.target = some state ∧ r.owner ∈ state.owners ∧ state.lockType = r.lockType

theorem convert_held (h : (convertSection locks r).1 = true) :
    Held (convertSection locks r).2.2 r := by
  unfold convertSection at h ⊢
  split
  · rename_i state hl
    rw [hl] at h
    simp only at h
    split
    · rename_i hin
      rw [if_pos hin] at h
      split
      · rename_i ht
        exact ⟨state, hl, by simpa using hin, ht⟩
      · rename_i ht
        rw [if_neg ht] at h
        cases h
    · rename_i hin
      rw [if_neg hin] at h
      cases h
  · rename_i hl
    rw [hl] at h
    cases h

theorem attempt_held (hv : ∀ target state, locks.lookup target = some state → state.Valid)
    {fresh : WaitQueue} {nonblocking : Bool}
    (h : (attemptSection locks fresh r nonblocking).1.isGranted = true) :
    Held (attemptSection locks fresh r nonblocking).2 r := by
  unfold attemptSection at h ⊢
  split
  · rename_i state hl
    rw [hl] at h
    simp only at h
    split
    · rename_i hc
      exact ⟨_, lookup_insert _, ((hv _ _ hl).acquire hc rfl).2, rfl⟩
    · rename_i hc
      rw [if_neg hc] at h
      split at h <;> cases h
  · exact ⟨_, lookup_insert _, mem_singleton_self _, rfl⟩

/-- The lock request `r` of a call that `e` ends with `Ok`. -/
def Event.Returns (e : Event) (r : Request) : Prop := e = .convert r true ∨ e = .attempt r true

/-- **Mutual exclusion of `flock`**, for every interleaving of any threads: each lock state has
owners, each of them once and asked for since it last released the target, an exclusive one has
exactly one; and a lock request that returns `Ok` leaves its owner in the list with its type. -/
theorem reachable_mutualExclusion (history : List (Thread × Event)) (s : State Thread)
    (h : Run Initial Step history s) :
    (∀ target state, s.locks.lookup target = some state → state.owners ≠ [] ∧ state.owners.Nodup ∧
      (state.lockType = .exclusive → state.owners.length = 1) ∧
      ∀ owner ∈ state.owners, requestedSince owner target history = true) ∧
    ∀ t e s' r, Step s (t, e) s' → e.Returns r → Held s'.locks r := by
  have hex := run_exclusive h
  refine ⟨fun target state hl => ?_, fun t e s' r hs he => ?_⟩
  · have hv := hex.valid target state hl
    exact ⟨hv.nonempty, hv.nodup, hv.exclusive, hex.requested target state hl⟩
  · cases hs with
    | @convert _ r' _ _ _ _ =>
      rcases he with he | he
      · obtain ⟨rfl, hret⟩ := Event.convert.inj he
        exact convert_held hret
      · cases he
    | @attempt _ r' _ _ =>
      rcases he with he | he
      · cases he
      · obtain ⟨rfl, hret⟩ := Event.attempt.inj he
        exact attempt_held hex.valid hret
    | _ => rcases he with he | he <;> cases he

end Exclusive

/-- A request for an exclusive lock on an object. -/
def exclusively (owner : UInt64) : Request := ⟨owner, .fdObject 1, .exclusive⟩

/-- Thread 0 locks an object for owner 1, and thread 1 waits for it with owner 2. -/
theorem exclusively_mutualExclusion : ∃ history, ∃ s : State (Fin 2), Run Initial Step history s ∧
      Held s.locks (exclusively 1) ∧ (∃ queue, s.phase 1 = .cloned (exclusively 2) queue) ∧
      (∀ target state, s.locks.lookup target = some state → state.owners ≠ [] ∧ state.owners.Nodup ∧
        (state.lockType = .exclusive → state.owners.length = 1) ∧
        ∀ owner ∈ state.owners, requestedSince owner target history = true) ∧
      ∀ t e s' r, Step s (t, e) s' → e.Returns r → Held s'.locks r := by
  have hstart : Run Initial Step [] (⟨∅, fun _ => .idle, 0⟩ : State (Fin 2)) :=
    .init ⟨rfl, fun _ => rfl⟩
  have hconvert := hstart.step (@Step.convert _ _ _ 0 (exclusively 1) LOCK_EX false rfl (by decide))
  have hattempt := hconvert.step (@Step.attempt _ _ _ 0 (exclusively 1) false rfl)
  have hconvert := hattempt.step (@Step.convert _ _ _ 1 (exclusively 2) LOCK_EX false rfl
    (by decide))
  have hattempt := hconvert.step (@Step.attempt _ _ _ 1 (exclusively 2) false rfl)
  exact ⟨_, _, hattempt, ⟨_, rfl, by decide, rfl⟩, ⟨_, rfl⟩, reachable_mutualExclusion _ _ hattempt⟩

end PulseOS.Lock.Flock
