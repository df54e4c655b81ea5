import PulseOS.Lib.Table
import PulseOS.Lib.Threads
import PulseOS.Lib.Transition
import PulseOS.Lock.RecordLock
import PulseOS.Lock.Target

/-!
# Waiting for record locks

The table `RECORD_LOCKS` and the threads that use it.  Every critical section under a shard lock is
one step; so is every `notify_all`, which `record_lock.rs` calls after the lock is dropped, and
every pass of `wait_until` over its condition.  `release_owner` is one step for each shard.

* `reachable_waiters_attended` — waiters hold the queue of the state in the table, and every change
  of a target's locks notifies it.
* `asleep_blocked_or_notified` — so no wakeup is lost: a thread asleep is still blocked, or some
  thread is about to notify its queue.
-/

namespace PulseOS.Lock.Record

open Exec Threads Transition Function AList Bool

structure RecordLockState where
  entries : List RecordLock
  waitQueue : WaitQueue
  waiters : Nat

abbrev Locks := Table LockTarget RecordLockState

structure Request where
  owner : RecordLockOwner
  target : LockTarget
  start : Int
  stop : Int
  lockType : RecordLockType

/-- The lock of another owner in the way of a request. -/
def Request.conflict (r : Request) (entries : List RecordLock) : Option RecordLock :=
  Lock.conflict entries r.owner r.start r.stop r.lockType

/-! ## Critical sections -/

inductive SetLock where
  /-- returns `Ok(0)` after it notified the queue -/
  | granted (queue : WaitQueue)
  | failed (e : LinuxError)
  /-- counted itself and waits on the cloned queue -/
  | waits (queue : WaitQueue)

variable (locks : Locks)

/-- The section of `set_lock`; `fresh` is the queue `or_default` would create. -/
def setLockSection (fresh : WaitQueue) (r : Request) (blocking : Bool) :
    Exec Empty (SetLock × Locks) :=
  let state := (locks.lookup r.target).getD ⟨[], fresh, 0⟩
  if (r.conflict state.entries).isNone then do
    let (result, entries) ← Lock.set state.entries r.owner r.start r.stop r.lockType
    let locks := locks.insert r.target { state with entries }
    match result with
    | .ok () => .ok (.granted state.waitQueue, locks)
    | .error e => .ok (.failed e, locks)
  else if !blocking then .ok (.failed .EAGAIN, locks.insert r.target state)
  else
    .ok (.waits state.waitQueue, locks.insert r.target { state with waiters := state.waiters + 1 })

variable (owner : RecordLockOwner) (target : LockTarget)

/-- Put a state back, or remove it when nothing is locked and nobody waits. -/
def settle (state : RecordLockState) : Locks :=
  if state.entries.isEmpty && state.waiters == 0 then locks.erase target
  else locks.insert target state

def finishWait : Locks :=
  match locks.lookup target with
  | some state => settle locks target { state with waiters := state.waiters - 1 }
  | none => locks

/-- The section of `unlock_lock`: the queue to notify and the table. -/
def unlockSection (start stop : Int) : Exec Empty (List WaitQueue × Locks) :=
  match locks.lookup target with
  | some state => do
    let (entries, changed) ← clearOwnerRange state.entries owner start stop
    .ok (if changed then [state.waitQueue] else [], settle locks target { state with entries })
  | none => .ok ([], locks)

/-- The section of `release_owner_target`: the queue to notify and the table. -/
def releaseTargetSection : List WaitQueue × Locks :=
  match locks.lookup target with
  | some state =>
    let (entries, changed) := releaseOwner state.entries owner
    (if changed then [state.waitQueue] else [], settle locks target { state with entries })
  | none => ([], locks)

/-- What the section of `release_owner` leaves of one state. -/
def releaseState (shard : Nat) (target : LockTarget)
    (state : RecordLockState) : Option RecordLockState :=
  if lockTargetShard target = shard then
    let entries := (releaseOwner state.entries owner).1
    if !entries.isEmpty || state.waiters != 0 then some { state with entries } else none
  else some state

/-- The section of `release_owner` for one shard: the queues to notify and the table. -/
def releaseShardSection (shard : Nat) : List WaitQueue × Locks :=
  (locks.entries.filterMap fun e =>
    if lockTargetShard e.1 = shard ∧ (releaseOwner e.2.entries owner).2 = true then
      some e.2.waitQueue
    else none,
   locks.filterMap (releaseState owner shard))

/-! ## Threads -/

inductive Phase where
  | idle
  /-- counted in `waiters`, with a clone of the queue; `asleep` when enrolled on it -/
  | waiting (request : Request) (queue : WaitQueue) (asleep : Bool)
  /-- the shard lock is dropped, the queues are still to be notified -/
  | notifying (queues : List WaitQueue)
  /-- `release_owner` before `shard` -/
  | releasing (owner : RecordLockOwner) (shard : Nat) (queues : List WaitQueue)

open Phase

/-- The request and the queue of a thread that counted itself and has not run `finish_wait`. -/
def Phase.wait : Phase → Option (Request × WaitQueue)
  | .waiting request queue _ => some (request, queue)
  | _ => none

def Phase.waitsFor (p : Phase) : Bool := p.wait.any (·.1.target == target)

/-- The queues a thread is about to notify. -/
def Phase.toNotify : Phase → List WaitQueue
  | .notifying queues => queues
  | .releasing _ _ queues => queues
  | _ => []

/-- `notify_all` wakes the threads enrolled on the queue. -/
def Phase.notified (queue : WaitQueue) : Phase → Phase
  | .waiting request q true => .waiting request q (q != queue)
  | p => p

/-- Where `set_lock` stands after its section. -/
def SetLock.phase (r : Request) : SetLock → Phase
  | .granted queue => .notifying [queue]
  | .failed _ => .idle
  | .waits queue => .waiting r queue false

structure State (Thread : Type) where
  locks : Locks
  phase : Thread → Phase
  /-- the next `WaitQueue` allocation -/
  fresh : WaitQueue

open State

variable {Thread : Type} [DecidableEq Thread] (s : State Thread)

def State.move (t : Thread) (locks : Locks) (p : Phase) : State Thread :=
  { s with locks, phase := update s.phase t p }

/-- The condition of `wait_until`, signals apart. -/
def unblocked (r : Request) : Bool :=
  match locks.lookup r.target with
  | some state => (r.conflict state.entries).isNone
  | none => true

inductive Step (s : State Thread) (t : Thread) : State Thread → Prop
  | setLock {r : Request} {blocking : Bool} {result : SetLock} {locks : Locks} :
      s.phase t = .idle → validateRange r.start r.stop = .ok () →
      setLockSection s.locks s.fresh r blocking = .ok (result, locks) →
      Step s t { s.move t locks (result.phase r) with fresh := s.fresh + 1 }
  /-- a signal is pending, or the condition of `wait_until` held -/
  | finishWait {r : Request} {queue : WaitQueue} : s.phase t = .waiting r queue false →
      Step s t (s.move t (finishWait s.locks r.target) .idle)
  | sleep {r : Request} {queue : WaitQueue} :
      s.phase t = .waiting r queue false → unblocked s.locks r = false →
      Step s t (s.move t s.locks (.waiting r queue true))
  /-- a signal takes the thread off the queue -/
  | interrupt {r : Request} {queue : WaitQueue} :
      s.phase t = .waiting r queue true → Step s t (s.move t s.locks (.waiting r queue false))
  | notify {queue : WaitQueue} {queues : List WaitQueue} :
      s.phase t = .notifying (queue :: queues) →
      Step s t { s with
        phase := update (fun u => (s.phase u).notified queue) t (.notifying queues) }
  | notified : s.phase t = .notifying [] → Step s t (s.move t s.locks .idle)
  | unlock {owner : RecordLockOwner} {target : LockTarget} {start stop : Int}
      {queues : List WaitQueue} {locks : Locks} :
      s.phase t = .idle → validateRange start stop = .ok () →
      unlockSection s.locks owner target start stop = .ok (queues, locks) →
      Step s t (s.move t locks (.notifying queues))
  | releaseTarget {owner : RecordLockOwner} {target : LockTarget} : s.phase t = .idle →
      Step s t (s.move t (releaseTargetSection s.locks owner target).2
        (.notifying (releaseTargetSection s.locks owner target).1))
  | release {owner : RecordLockOwner} :
      s.phase t = .idle → Step s t (s.move t s.locks (.releasing owner 0 []))
  | releaseShard {owner : RecordLockOwner} {shard : Nat} {queues : List WaitQueue} :
      s.phase t = .releasing owner shard queues → shard < LOCK_TABLE_SHARDS →
      Step s t (s.move t (releaseShardSection s.locks owner shard).2
        (.releasing owner (shard + 1) (queues ++ (releaseShardSection s.locks owner shard).1)))
  | released {owner : RecordLockOwner} {queues : List WaitQueue} :
      s.phase t = .releasing owner LOCK_TABLE_SHARDS queues →
      Step s t (s.move t s.locks (.notifying queues))

def Initial : Prop := s.locks = ∅ ∧ ∀ t, s.phase t = .idle

/-! ## What the sections do -/

def locksOf : List RecordLock :=
  ((locks.lookup target).map (·.entries)).getD []

/-- The state of a target before and after a section in which no thread starts or ends to wait. -/
inductive KeepsWaiters : Option RecordLockState → Option RecordLockState → Prop
  | absent : KeepsWaiters none none
  | created {state : RecordLockState} : state.waiters = 0 → KeepsWaiters none (some state)
  | removed {state : RecordLockState} : state.waiters = 0 → KeepsWaiters (some state) none
  | kept {state state' : RecordLockState} : state'.waitQueue = state.waitQueue →
      state'.waiters = state.waiters → KeepsWaiters (some state) (some state')

theorem KeepsWaiters.refl : ∀ state : Option RecordLockState, KeepsWaiters state state
  | none => .absent
  | some _ => .kept rfl rfl

/-- A section that notifies `queues` afterwards. -/
structure Section (old new : Locks) (queues : List WaitQueue) : Prop where
  keeps : ∀ target, KeepsWaiters (old.lookup target) (new.lookup target)
  announces : ∀ target state, old.lookup target = some state →
    locksOf new target ≠ locksOf old target → state.waitQueue ∈ queues

theorem Section.refl (queues : List WaitQueue) : Section locks locks queues :=
  ⟨fun _ => .refl _, fun _ _ _ hne => absurd rfl hne⟩

theorem lookup_settle (state : RecordLockState) : (settle locks target state).lookup target =
      if state.entries.isEmpty && state.waiters == 0 then none else some state := by
  unfold settle
  split
  · exact lookup_erase _ _
  · exact lookup_insert _

variable {entries : List RecordLock} {queues : List WaitQueue} {target} {locks}

theorem lookup_settle_ne {other : LockTarget} (h : other ≠ target)
    (state : RecordLockState) : (settle locks target state).lookup other = locks.lookup other := by
  unfold settle
  split
  · exact lookup_erase_ne h
  · exact lookup_insert_ne h

theorem locksOf_settle (locks : Locks) (target : LockTarget) (state : RecordLockState) :
    locksOf (settle locks target state) target = state.entries := by
  rw [locksOf, lookup_settle]
  split
  · rename_i h
    simp only [and_eq_true, List.isEmpty_iff] at h
    simp [h.1]
  · rfl

theorem section_settle {state : RecordLockState} (h : locks.lookup target = some state)
    (hq : entries ≠ state.entries → state.waitQueue ∈ queues) :
    Section locks (settle locks target { state with entries }) queues := by
  refine ⟨fun other => ?_, fun other st hst hne => ?_⟩
  · by_cases ho : other = target
    · subst ho
      rw [h, lookup_settle]
      split
      · rename_i he
        simp only [and_eq_true, beq_iff_eq] at he
        exact .removed he.2
      · exact .kept rfl rfl
    · rw [lookup_settle_ne ho]
      exact .refl _
  · by_cases ho : other = target
    · subst ho
      rw [h] at hst
      cases hst
      rw [locksOf_settle] at hne
      exact hq (by simpa [locksOf, h] using hne)
    · simp [locksOf, lookup_settle_ne ho] at hne

variable {locks' : Locks} {owner} {fresh : WaitQueue}

theorem unlockSection_spec {start stop : Int}
    (h : unlockSection locks owner target start stop = .ok (queues, locks')) :
    Section locks locks' queues := by
  unfold unlockSection at h
  split at h
  · rename_i state hl
    obtain ⟨r, hr, hcleared⟩ := clearOwnerRange_spec state.entries owner start stop
    rw [hr, ok_bind] at h
    cases h
    refine section_settle hl fun hne => ?_
    cases hc : r.2 with
    | true => simp
    | false => exact absurd (hcleared.2.2 hc) hne
  · cases h
    exact .refl _ _

theorem releaseOwner_unchanged
    (h : (releaseOwner entries owner).2 = false) : (releaseOwner entries owner).1 = entries := by
  simp only [releaseOwner, bne_eq_false_iff_eq] at h
  exact List.filter_sublist.eq_of_length h

theorem releaseTargetSection_spec (locks : Locks) (owner : RecordLockOwner) (target : LockTarget) :
    Section locks (releaseTargetSection locks owner target).2
      (releaseTargetSection locks owner target).1 := by
  unfold releaseTargetSection
  split
  · rename_i state hl
    refine section_settle hl fun hne => ?_
    cases hc : (releaseOwner state.entries owner).2 with
    | true => simp [hc]
    | false => exact absurd (releaseOwner_unchanged hc) hne
  · exact .refl _ _

theorem releaseState_entries (owner : RecordLockOwner) (shard : Nat) (target : LockTarget)
    (state : RecordLockState) :
    ((releaseState owner shard target state).map (·.entries)).getD [] =
      if lockTargetShard target = shard then (releaseOwner state.entries owner).1
      else state.entries := by
  simp only [releaseState]
  split
  · split
    · rfl
    · rename_i he
      simp only [not_eq_true, or_eq_false_iff, not_eq_false', List.isEmpty_iff] at he
      simp [he.1]
  · rfl

theorem releaseShardSection_spec (locks : Locks) (owner : RecordLockOwner) (shard : Nat) :
    Section locks (releaseShardSection locks owner shard).2
      (releaseShardSection locks owner shard).1 := by
  have hlookup : ∀ target, (releaseShardSection locks owner shard).2.lookup target =
      (locks.lookup target).bind (releaseState owner shard target) :=
    fun target => Table.lookup_filterMap _ _ _
  refine ⟨fun target => ?_, fun target state hl hne => ?_⟩
  · rw [hlookup]
    cases locks.lookup target with
    | none => exact .absent
    | some state =>
      simp only [Option.bind_some, releaseState]
      split
      · split
        · exact .kept rfl rfl
        · rename_i he
          simp only [not_eq_true, or_eq_false_iff, bne_eq_false_iff_eq] at he
          exact .removed he.2
      · exact .refl _
  · rw [locksOf, locksOf, hlookup, hl, Option.bind_some, releaseState_entries] at hne
    have hmem : ⟨target, state⟩ ∈ locks.entries := mem_lookup_iff.mp hl
    refine List.mem_filterMap.mpr ⟨⟨target, state⟩, hmem, ?_⟩
    split at hne
    · rename_i hshard
      cases hc : (releaseOwner state.entries owner).2 with
      | true => simp [hshard]
      | false => exact absurd (releaseOwner_unchanged hc) hne
    · exact absurd rfl hne

/-- What the section of `set_lock` does. -/
inductive SetLockSpec (locks : Locks) (r : Request) : SetLock → Locks → Prop
  | granted {queue : WaitQueue} {locks' : Locks} : Section locks locks' [queue] →
      SetLockSpec locks r (.granted queue) locks'
  | failed {e : LinuxError} {locks' : Locks} : Section locks locks' [] →
      SetLockSpec locks r (.failed e) locks'
  | waits {state : RecordLockState} : locks.lookup r.target = some state →
      SetLockSpec locks r (.waits state.waitQueue)
        (locks.insert r.target { state with waiters := state.waiters + 1 })

theorem section_insert (hq : entries ≠ ((locks.lookup target).getD ⟨[], fresh, 0⟩).entries →
      ((locks.lookup target).getD ⟨[], fresh, 0⟩).waitQueue ∈ queues) :
    Section locks
      (locks.insert target { (locks.lookup target).getD ⟨[], fresh, 0⟩ with entries }) queues := by
  refine ⟨fun other => ?_, fun other st hst hne => ?_⟩
  · by_cases ho : other = target
    · subst ho
      rw [lookup_insert]
      cases locks.lookup other with
      | none => exact .created rfl
      | some state => exact .kept rfl rfl
    · rw [lookup_insert_ne ho]
      exact .refl _
  · by_cases ho : other = target
    · subst ho
      rw [hst] at hq
      refine hq ?_
      simpa [locksOf, hst] using hne
    · simp [locksOf, lookup_insert_ne ho] at hne

theorem setLockSection_spec {r : Request} {blocking : Bool} {result : SetLock}
    (h : setLockSection locks fresh r blocking = .ok (result, locks')) :
    SetLockSpec locks r result locks' := by
  simp only [setLockSection] at h
  split at h
  · obtain ⟨⟨res, entries⟩, hset, h⟩ := bind_eq_ok.mp h
    cases res with
    | ok _ =>
      cases h
      exact .granted (section_insert fun _ => List.mem_singleton_self _)
    | error e =>
      cases h
      exact .failed (section_insert fun hne => absurd (set_error hset) hne)
  · rename_i hc
    split at h
    · cases h
      exact .failed (section_insert fun hne => absurd rfl hne)
    · cases h
      cases hl : locks.lookup r.target with
      | none =>
        -- a new state has no locks to conflict with
        rw [hl] at hc
        exact absurd rfl hc
      | some state => exact .waits hl

/-! ## The invariant -/

section Attended

variable [Fintype Thread]

/-- `waiters` counts the threads that wait, and they hold the queue of the state in the table. -/
structure Attended (locks : Locks) (phase : Thread → Phase) : Prop where
  counted : ∀ target state, locks.lookup target = some state →
    state.waiters = count (waitsFor target) phase
  present : ∀ t r queue, (phase t).wait = some (r, queue) →
    ∃ state, locks.lookup r.target = some state ∧ state.waitQueue = queue

variable {phase phase' : Thread → Phase} {t : Thread} {r : Request} {queue : WaitQueue} {p : Phase}
  {s}

theorem waitsFor_of_wait (h : p.wait = some (r, queue)) : p.waitsFor r.target = true := by
  simp [waitsFor, h]

theorem not_waitsFor (h : p.wait = none) (target : LockTarget) : p.waitsFor target = false := by
  simp [waitsFor, h]

omit [DecidableEq Thread] in
theorem Attended.none_wait (h : Attended locks phase) {target : LockTarget}
    (hl : locks.lookup target = none) : count (waitsFor target) phase = 0 := by
  refine count_eq_zero fun u => ?_
  cases hw : (phase u).wait with
  | none => exact not_waitsFor hw target
  | some w =>
    obtain ⟨state, hstate, -⟩ := h.present u w.1 w.2 hw
    simp only [waitsFor, hw, Option.any_some, beq_eq_false_iff_ne]
    rintro rfl
    rw [hl] at hstate
    cases hstate

omit [DecidableEq Thread] in
theorem Attended.keep (h : Attended locks phase)
    (hk : ∀ target, KeepsWaiters (locks.lookup target) (locks'.lookup target))
    (hw : ∀ u, (phase' u).wait = (phase u).wait) : Attended locks' phase' := by
  have hcount : ∀ target, count (waitsFor target) phase' = count (waitsFor target) phase :=
    fun target => count_congr fun u => by simp only [waitsFor, hw]
  refine ⟨fun target state hl => ?_, fun u r queue hu => ?_⟩
  · rw [hcount]
    have hkt := hk target
    rw [hl] at hkt
    generalize hold : locks.lookup target = old at hkt
    cases hkt with
    | created h0 => rw [h0, h.none_wait hold]
    | kept _ hwt => rw [hwt, h.counted target _ hold]
  · rw [hw] at hu
    obtain ⟨state, hl, hq⟩ := h.present u r queue hu
    have hkt := hk r.target
    rw [hl] at hkt
    generalize hnew : locks'.lookup r.target = new at hkt
    cases hkt with
    | removed h0 =>
      have := count_pos (p := waitsFor r.target) (waitsFor_of_wait hu)
      rw [← h.counted _ _ hl] at this
      omega
    | kept hqt _ => exact ⟨_, rfl, hqt.trans hq⟩

omit [Fintype Thread] in
/-- The thread that acts is outside the wait before and after. -/
theorem wait_update (hold : (phase t).wait = none) (hnew : p.wait = none) (u : Thread) :
    (update phase t p u).wait = (phase u).wait := by
  by_cases hu : u = t
  · subst hu
    rw [update_self, hold, hnew]
  · rw [update_of_ne hu]

theorem Attended.enter (h : Attended locks phase) {state : RecordLockState}
    (hl : locks.lookup r.target = some state) (hold : (phase t).wait = none) :
    Attended (locks.insert r.target { state with waiters := state.waiters + 1 })
      (update phase t (.waiting r state.waitQueue false)) := by
  refine ⟨fun target st hst => ?_, fun u r' queue hu => ?_⟩
  · by_cases ht : target = r.target
    · subst ht
      rw [lookup_insert] at hst
      cases hst
      rw [count_enter (not_waitsFor hold _) (waitsFor_of_wait rfl), ← h.counted _ _ hl]
    · rw [lookup_insert_ne ht] at hst
      have hsame : (waiting r state.waitQueue false).waitsFor target =
          (phase t).waitsFor target := by
        rw [not_waitsFor hold]
        simpa [waitsFor, wait] using Ne.symm ht
      rw [count_stay hsame, h.counted _ _ hst]
  · have hstate : ∃ st, locks.lookup r'.target = some st ∧ st.waitQueue = queue := by
      by_cases hut : u = t
      · subst hut
        rw [update_self] at hu
        cases hu
        exact ⟨state, hl, rfl⟩
      · rw [update_of_ne hut] at hu
        exact h.present u r' queue hu
    obtain ⟨st, hst, hq⟩ := hstate
    by_cases ht : r'.target = r.target
    · rw [ht] at hst ⊢
      rw [hl] at hst
      cases hst
      exact ⟨_, lookup_insert _, hq⟩
    · exact ⟨st, by rw [lookup_insert_ne ht]; exact hst, hq⟩

theorem Attended.leave (h : Attended locks phase) (hw : (phase t).wait = some (r, queue)) :
    Attended (finishWait locks r.target) (update phase t .idle) := by
  obtain ⟨state, hl, -⟩ := h.present t r queue hw
  have hcount : count (waitsFor r.target) (update phase t .idle) + 1 =
      count (waitsFor r.target) phase :=
    count_leave (waitsFor_of_wait hw) rfl
  rw [← h.counted _ _ hl] at hcount
  rw [finishWait, hl]
  refine ⟨fun target st hst => ?_, fun u r' q hu => ?_⟩
  · by_cases ht : target = r.target
    · subst ht
      rw [lookup_settle] at hst
      split at hst
      · cases hst
      · cases hst
        simp only
        omega
    · rw [lookup_settle_ne ht] at hst
      have hother : (phase t).waitsFor target = false := by
        simpa [waitsFor, hw] using Ne.symm ht
      rw [count_stay (by rw [hother]; rfl), h.counted _ _ hst]
  · by_cases hut : u = t
    · subst hut
      rw [update_self] at hu
      cases hu
    · have hu' := hu
      rw [update_of_ne hut] at hu'
      obtain ⟨st, hst, hq⟩ := h.present u r' q hu'
      by_cases ht : r'.target = r.target
      · rw [ht] at hst ⊢
        rw [hl] at hst
        cases hst
        -- somebody still waits, so the state stays
        have hpos := count_pos (p := waitsFor r'.target) (waitsFor_of_wait hu)
        rw [ht] at hpos
        have hkeep : ¬ (state.entries.isEmpty && state.waiters - 1 == 0) = true := by
          simp only [and_eq_true, beq_iff_eq]
          omega
        exact ⟨{ state with waiters := state.waiters - 1 }, by rw [lookup_settle, if_neg hkeep], hq⟩
      · exact ⟨st, by rw [lookup_settle_ne ht]; exact hst, hq⟩

theorem notified_wait (queue : WaitQueue) (p : Phase) : (p.notified queue).wait = p.wait := by
  unfold notified
  split <;> rfl

theorem setLock_attended {blocking : Bool} {result : SetLock}
    (h : Attended s.locks s.phase) (hidle : s.phase t = .idle)
    (hsec : setLockSection s.locks s.fresh r blocking = .ok (result, locks')) :
    Attended locks' (update s.phase t (result.phase r)) := by
  have hold : (s.phase t).wait = none := by rw [hidle]; rfl
  cases setLockSection_spec hsec with
  | granted hs | failed hs => exact h.keep hs.keeps (wait_update hold rfl)
  | waits hl => exact h.enter hl hold

/-- **Every step keeps the waiters attended.** -/
theorem step_attended {s' : State Thread} (h : Attended s.locks s.phase) (hs : Step s t s') :
    Attended s'.locks s'.phase := by
  have hidle : s.phase t = .idle → (s.phase t).wait = none := fun he => by rw [he]; rfl
  cases hs with
  | setLock hp _ hsec => exact setLock_attended h hp hsec
  | finishWait hp => exact h.leave (by rw [hp]; rfl)
  | sleep hp _ | interrupt hp =>
    refine h.keep (fun _ => .refl _) fun u => ?_
    by_cases hu : u = t
    · subst hu
      simp [move, hp, wait]
    · simp [move, hu]
  | notify hp =>
    refine h.keep (fun _ => .refl _) fun u => ?_
    by_cases hu : u = t
    · subst hu
      simp [hp, wait]
    · simp [hu, notified_wait]
  | notified hp | released hp => exact h.keep (fun _ => .refl _) (wait_update (by rw [hp]; rfl) rfl)
  | unlock hp _ hsec => exact h.keep (unlockSection_spec hsec).keeps (wait_update (hidle hp) rfl)
  | releaseTarget hp =>
    exact h.keep (releaseTargetSection_spec _ _ _).keeps (wait_update (hidle hp) rfl)
  | release hp => exact h.keep (fun _ => .refl _) (wait_update (hidle hp) rfl)
  | releaseShard hp _ =>
    exact h.keep (releaseShardSection_spec _ _ _).keeps (wait_update (by rw [hp]; rfl) rfl)

/-- `s` is reached by some interleaving of the threads. -/
abbrev Reached (s : State Thread) : Prop := Reachable Initial Step s

theorem Reached.attended (h : Reached s) : Attended s.locks s.phase := by
  refine h.invariant ?_ fun s t s' hs hstep => step_attended hs hstep
  rintro s ⟨hlocks, hphase⟩
  refine ⟨fun target state hl => ?_, fun u r q hu => ?_⟩
  · rw [hlocks] at hl
    cases hl
  · rw [hphase] at hu
    cases hu

end Attended

/-! ## Notifications -/

section Notified

variable {s} {s' : State Thread} {t : Thread} {state : RecordLockState} {queue : WaitQueue}

omit [DecidableEq Thread] in
theorem setLock_announces {r : Request} {blocking : Bool} {result : SetLock} {locks' : Locks}
    (hsec : setLockSection s.locks s.fresh r blocking = .ok (result, locks'))
    (hl : s.locks.lookup target = some state)
    (hne : locksOf locks' target ≠ locksOf s.locks target) :
    state.waitQueue ∈ (result.phase r).toNotify := by
  cases setLockSection_spec hsec with
  | granted hs | failed hs => exact hs.announces target state hl hne
  | waits hw =>
    refine absurd ?_ hne
    by_cases ht : target = r.target
    · subst ht
      simp [locksOf, hw]
    · simp [locksOf, lookup_insert_ne ht]

theorem locksOf_finishWait (locks : Locks) (target other : LockTarget) :
    locksOf (finishWait locks target) other = locksOf locks other := by
  unfold finishWait
  split
  · rename_i state hl
    by_cases ho : other = target
    · subst ho
      rw [locksOf_settle, locksOf, hl]
      rfl
    · simp [locksOf, lookup_settle_ne ho]
  · rfl

/-- **A thread that changes the locks of a target is about to notify its queue.** -/
theorem step_announces (hs : Step s t s') (hl : s.locks.lookup target = some state)
    (hne : locksOf s'.locks target ≠ locksOf s.locks target) :
    state.waitQueue ∈ (s'.phase t).toNotify := by
  cases hs with
  | setLock _ _ hsec => simpa [move] using setLock_announces hsec hl hne
  | finishWait => exact absurd (locksOf_finishWait _ _ _) hne
  | sleep | interrupt | notify | notified => exact absurd rfl hne
  | unlock _ _ hsec =>
    simpa [move, toNotify] using (unlockSection_spec hsec).announces target state hl hne
  | releaseTarget =>
    simpa [move, toNotify] using (releaseTargetSection_spec _ _ _).announces target state hl hne
  | release => exact absurd rfl hne
  | releaseShard =>
    have := (releaseShardSection_spec _ _ _).announces target state hl hne
    simp [move, toNotify, this]
  | released => exact absurd rfl hne

/-- A thread asleep was asleep before and its queue was not notified, or it has just found the
request blocked. -/
theorem step_asleep {u : Thread} {r : Request} (hs : Step s t s')
    (hu : s'.phase u = .waiting r queue true) :
    (s.phase u = .waiting r queue true ∧ ∀ queues, s.phase t ≠ .notifying (queue :: queues)) ∨
      unblocked s.locks r = false ∧ s'.locks = s.locks := by
  -- every step but `sleep` leaves the acting thread awake
  have hother : ∀ {p : Phase}, p ≠ .waiting r queue true →
      update s.phase t p u = .waiting r queue true →
      (∀ queues, s.phase t ≠ .notifying (queue :: queues)) →
      s.phase u = .waiting r queue true ∧ ∀ queues, s.phase t ≠ .notifying (queue :: queues) := by
    intro p hp hmove hn
    by_cases hut : u = t
    · subst hut
      exact absurd (by simpa using hmove) hp
    · exact ⟨by simpa [hut] using hmove, hn⟩
  cases hs with
  | @setLock _ _ result _ hp _ _ =>
    refine .inl (hother ?_ hu (by simp [hp]))
    cases result <;> simp [SetLock.phase]
  | finishWait hp | interrupt hp => exact .inl (hother (by simp) hu (by simp [hp]))
  | sleep hp hb =>
    by_cases hut : u = t
    · subst hut
      simp only [move, update_self, waiting.injEq] at hu
      exact .inr ⟨hu.1 ▸ hb, rfl⟩
    · exact .inl ⟨by simpa [move, hut] using hu, by simp [hp]⟩
  | notify hp =>
    by_cases hut : u = t
    · subst hut
      simp at hu
    · simp only [update_of_ne hut] at hu
      unfold notified at hu
      split at hu
      · rename_i hold
        simp only [waiting.injEq, bne_iff_ne] at hu
        obtain ⟨rfl, rfl, hne⟩ := hu
        refine .inl ⟨hold, fun queues hq => ?_⟩
        rw [hp] at hq
        cases hq
        exact hne rfl
      · rename_i hnot
        exact absurd hu (hnot _ _)
  | notified hp | unlock hp _ _ | releaseTarget hp | release hp | releaseShard hp _ | released hp =>
    exact .inl (hother (by simp) hu (by simp [hp]))

/-- A queue to be notified stays so until it is. -/
theorem step_toNotify {u : Thread} (hs : Step s t s') (hu : queue ∈ (s.phase u).toNotify) :
    queue ∈ (s'.phase u).toNotify ∨ ∃ queues, s.phase t = .notifying (queue :: queues) := by
  by_cases hut : u = t
  · subst hut
    cases hs with
    | setLock hp _ _ | finishWait hp | sleep hp _ | interrupt hp
    | notified hp | unlock hp _ _ | releaseTarget hp | release hp => simp [hp, toNotify] at hu
    | @notify q queues hp =>
      rw [hp] at hu
      rcases List.mem_cons.mp hu with rfl | hu
      · exact .inr ⟨queues, hp⟩
      · exact .inl (by simpa [toNotify] using hu)
    | releaseShard hp _ =>
      rw [hp] at hu
      exact .inl (by simp [move, toNotify]; exact .inl hu)
    | released hp =>
      rw [hp] at hu
      exact .inl (by simpa [move, toNotify] using hu)
  · refine .inl ?_
    have hphase : (s'.phase u).toNotify = (s.phase u).toNotify := by
      cases hs with
      | @notify q queues hp =>
        simp only [update_of_ne hut]
        unfold notified
        split
        · rename_i hw
          rw [hw]
          rfl
        · rfl
      | _ => simp [move, hut]
    rw [hphase]
    exact hu

theorem unblocked_eq (locks : Locks) (r : Request) :
    unblocked locks r = (r.conflict (locksOf locks r.target)).isNone := by
  unfold unblocked locksOf
  cases locks.lookup r.target <;> rfl

variable [Fintype Thread]

/-- **Waiters never wait on a stale queue**: while a thread waits, its target has a state whose
queue it holds and whose `waiters` counts the threads waiting for it, and every change of the
target's locks notifies that queue. -/
theorem reachable_waiters_attended (s : State Thread) (h : Reached s) (t : Thread) (r : Request)
    (queue : WaitQueue) (hw : (s.phase t).wait = some (r, queue)) :
    (∃ state, s.locks.lookup r.target = some state ∧ state.waitQueue = queue ∧
      state.waiters = count (waitsFor r.target) s.phase) ∧
    ∀ u s', Step s u s' → locksOf s'.locks r.target ≠ locksOf s.locks r.target →
      queue ∈ (s'.phase u).toNotify := by
  obtain ⟨state, hl, hq⟩ := h.attended.present t r queue hw
  refine ⟨⟨state, hl, hq, h.attended.counted _ _ hl⟩, fun u s' hs hne => ?_⟩
  rw [← hq]
  exact step_announces hs hl hne

/-- **No wakeup is lost**: a thread asleep is still blocked, or some thread is about to notify its
queue. -/
theorem asleep_blocked_or_notified (s : State Thread) (h : Reached s) (t : Thread) (r : Request)
    (queue : WaitQueue) (ht : s.phase t = .waiting r queue true) :
    unblocked s.locks r = false ∨ ∃ u, queue ∈ (s.phase u).toNotify := by
  obtain ⟨history, hrun⟩ := h
  induction hrun generalizing t r queue with
  | init hi =>
    rw [hi.2 t] at ht
    cases ht
  | @step history s a s' hrun hs ih =>
    rcases step_asleep hs ht with ⟨hold, hquiet⟩ | ⟨hb, hlocks⟩
    · rcases ih t r queue hold with hb | ⟨u, hu⟩
      · by_cases hsame : locksOf s'.locks r.target = locksOf s.locks r.target
        · exact .inl (by rw [unblocked_eq, hsame, ← unblocked_eq]; exact hb)
        · have hatt : Attended s.locks s.phase := Reached.attended ⟨history, hrun⟩
          obtain ⟨state, hl, hq⟩ := hatt.present t r queue (by rw [hold]; rfl)
          exact .inr ⟨a, hq ▸ step_announces hs hl hsame⟩
      · rcases step_toNotify hs hu with hu' | ⟨queues, hq⟩
        · exact .inr ⟨u, hu'⟩
        · exact absurd hq (hquiet queues)
    · exact .inl (hlocks ▸ hb)

end Notified

/-- A request for the first ten bytes of an object. -/
def firstTen (pid : UInt64) : Request := ⟨.posix pid, .fdObject 1, 0, 10, .write⟩

/-- Thread `false` holds a write lock that thread `true` waits for. -/
def contended : State Bool :=
  { locks := insert (.fdObject 1) ⟨[⟨.posix 1, 0, 10, .write⟩], 0, 1⟩ ∅
    phase := update (update (fun _ => .idle) false (.notifying [0])) true
      (.waiting (firstTen 2) 0 false)
    fresh := 2 }

theorem contended_reached : Reached contended := by
  have hstart : Reached (⟨∅, fun _ => .idle, 0⟩ : State Bool) := .start ⟨rfl, fun _ => rfl⟩
  have hheld := hstart.next (@Step.setLock _ _ _ false (firstTen 1) true (.granted 0)
    (insert (.fdObject 1) ⟨[⟨.posix 1, 0, 10, .write⟩], 0, 0⟩ ∅) rfl rfl rfl)
  exact hheld.next (@Step.setLock _ _ _ true (firstTen 2) true (.waits 0)
    (insert (.fdObject 1) ⟨[⟨.posix 1, 0, 10, .write⟩], 0, 1⟩ ∅) rfl rfl rfl)

theorem contended_waiters_attended :
    (∃ state, contended.locks.lookup (.fdObject 1) = some state ∧ state.waitQueue = 0 ∧
      state.waiters = count (waitsFor (.fdObject 1)) contended.phase) ∧
    ∀ u s', Step contended u s' →
      locksOf s'.locks (.fdObject 1) ≠ locksOf contended.locks (.fdObject 1) →
      0 ∈ (s'.phase u).toNotify :=
  reachable_waiters_attended contended contended_reached true (firstTen 2) 0 rfl

/-- The waiter goes to sleep. -/
theorem contended_asleep : ∃ s : State Bool, s.phase true = .waiting (firstTen 2) 0 true ∧
    (unblocked s.locks (firstTen 2) = false ∨ ∃ u, 0 ∈ (s.phase u).toNotify) := by
  have hasleep : Step contended true
      (contended.move true contended.locks (.waiting (firstTen 2) 0 true)) := .sleep rfl rfl
  exact ⟨_, rfl, asleep_blocked_or_notified _ (contended_reached.next hasleep) true _ 0 rfl⟩

end PulseOS.Lock.Record
