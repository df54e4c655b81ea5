import PulseOS.Lock.Flock

/-!
# Waiting for advisory locks

A thread that finds the lock taken clones the wait queue of the `LockState`, drops the shard mutex
and enrols on the clone in `wait_until`.  The state, and with it the queue, is deleted with its last
owner, and the next locker creates another one.

* `enrolled_on_orphan` — the lock changes hands between the clone and the enrolment, and the waiter
  sleeps on a queue that nobody will notify.
* `reachable_onCurrentQueue` — waiters are on the present queue in every run in which no lock state
  is created for a target that some thread still waits for.
-/

namespace PulseOS.Lock.Flock

open Transition Step

variable {Thread : Type} [DecidableEq Thread]

/-- The request and the cloned queue of a thread in `wait_until`, or on its way there. -/
def Phase.wait : Phase → Option (Request × WaitQueue)
  | .cloned r queue => some (r, queue)
  | .enrolled r queue => some (r, queue)
  | _ => none

def Phase.waitsFor (target : LockTarget) (p : Phase) : Bool := p.wait.any (·.1.target == target)

/-- Threads enrolled for a lock held against them are on the queue that its release notifies. -/
def OnCurrentQueue (s : State Thread) : Prop :=
  ∀ t r queue state, s.phase t = .enrolled r queue → s.locks.lookup r.target = some state →
    state.canAcquire r = false → state.waitQueue = queue

/-- The lock changes hands between the clone and the enrolment of a waiter. -/
theorem enrolled_on_orphan :
    ∃ s : State (Fin 3), Reachable Initial Step s ∧ ¬ OnCurrentQueue s := by
  have hstart : Reachable Initial Step (⟨∅, fun _ => .idle, 0⟩ : State (Fin 3)) :=
    .start ⟨rfl, fun _ => rfl⟩
  -- thread 0 locks the object, thread 1 clones the queue
  have hlock := (hstart.next (@convert _ _ _ 0 (exclusively 1) LOCK_EX false rfl (by decide))).next
    (@attempt _ _ _ 0 (exclusively 1) false rfl)
  have hclone := (hlock.next (@convert _ _ _ 1 (exclusively 2) LOCK_EX false rfl (by decide))).next
    (@attempt _ _ _ 1 (exclusively 2) false rfl)
  -- the lock is released, and thread 2 takes it
  have hunlock := hclone.next (@unlock _ _ _ 0 1 (.fdObject 1) LOCK_UN rfl (by decide))
  have htaken := (hunlock.next
    (@convert _ _ _ 2 (exclusively 3) LOCK_EX false rfl (by decide))).next
    (@attempt _ _ _ 2 (exclusively 3) false rfl)
  have henrol := htaken.next (@enrol _ _ _ 1 (exclusively 2) 0 rfl (by decide))
  refine ⟨_, henrol, fun h => ?_⟩
  have hqueue := h 1 (exclusively 2) 0 ⟨.exclusive, [3], 2⟩ rfl rfl (by decide)
  cases hqueue

/-! ## Runs that keep the queues -/

/-- A lock state is created only for a target that no thread waits for. -/
def Unawaited (s : State Thread) : Thread × Event → Prop
  | (_, .attempt r _) =>
    s.locks.lookup r.target = none → ∀ u, (s.phase u).waitsFor r.target = false
  | _ => True

variable (locks : Locks)

/-- The queues of waiting threads are those in the table. -/
def Current (phase : Thread → Phase) : Prop :=
  ∀ t r queue, (phase t).wait = some (r, queue) → ∀ state, locks.lookup r.target = some state →
    state.waitQueue = queue

/-- Every state after a section has the queue it had before. -/
def KeepsQueues (locks locks' : Locks) : Prop :=
  ∀ target state', locks'.lookup target = some state' →
    ∃ state, locks.lookup target = some state ∧ state'.waitQueue = state.waitQueue

theorem KeepsQueues.refl : KeepsQueues locks locks := fun _ state' h => ⟨state', h, rfl⟩

theorem dropOwner_keepsQueues {locks : Locks} {owner : UInt64} {target : LockTarget}
    {state : LockState} (hl : locks.lookup target = some state) :
    KeepsQueues locks (dropOwner locks owner target state) := by
  intro other state' h
  rcases lookup_dropOwner h with ⟨rfl, rfl, -⟩ | ⟨-, ho⟩
  · exact ⟨state, hl, rfl⟩
  · exact ⟨state', ho, rfl⟩

theorem convertSection_keepsQueues (r : Request) :
    KeepsQueues locks (convertSection locks r).2.2 := by
  unfold convertSection
  split
  · rename_i state hl
    split
    · split
      · exact .refl _
      · exact dropOwner_keepsQueues hl
    · exact .refl _
  · exact .refl _

theorem releaseSection_keepsQueues (owner : UInt64) (target : LockTarget) :
    KeepsQueues locks (releaseSection locks owner target).2 := by
  unfold releaseSection
  split
  · rename_i state hl
    split
    · exact dropOwner_keepsQueues hl
    · exact .refl _
  · exact .refl _

theorem releaseShardSection_keepsQueues (owner : UInt64) (shard : Nat) :
    KeepsQueues locks (releaseShardSection locks owner shard).2 := by
  intro target state' h
  have hlookup : (releaseShardSection locks owner shard).2.lookup target =
      (locks.lookup target).bind (releaseState owner shard target) := Table.lookup_filterMap _ _ _
  rw [hlookup] at h
  obtain ⟨state, hl, h⟩ := Option.bind_eq_some_iff.mp h
  refine ⟨state, hl, ?_⟩
  simp only [releaseState] at h
  split at h
  · split at h
    · cases h
    · cases h
      rfl
  · cases h
    rfl

/-- A pass of the loop of `do_flock` waits on the queue in the table, and creates a state only
where there is none. -/
theorem attemptSection_cases (fresh : WaitQueue) (r : Request) (nonblocking : Bool) :
    (locks.lookup r.target = none ∧ ∃ state, attemptSection locks fresh r nonblocking =
        (.granted, locks.insert r.target state)) ∨
    (KeepsQueues locks (attemptSection locks fresh r nonblocking).2 ∧
      ∀ queue, (attemptSection locks fresh r nonblocking).1 = .waits queue →
        ∃ state, (attemptSection locks fresh r nonblocking).2.lookup r.target = some state ∧
          state.waitQueue = queue) := by
  unfold attemptSection
  split
  · rename_i state hl
    refine .inr ?_
    split
    · refine ⟨fun target state' h => ?_, nofun⟩
      by_cases ht : target = r.target
      · subst ht
        rw [AList.lookup_insert] at h
        cases h
        exact ⟨state, hl, rfl⟩
      · rw [AList.lookup_insert_ne ht] at h
        exact ⟨state', h, rfl⟩
    · split
      · exact ⟨.refl _, nofun⟩
      · refine ⟨.refl _, fun queue hq => ?_⟩
        cases hq
        exact ⟨state, hl, rfl⟩
  · rename_i hl
    exact .inl ⟨hl, _, rfl⟩

theorem notified_wait (queues : List WaitQueue) (p : Phase) : (p.notified queues).wait = p.wait := by
  unfold Phase.notified
  split
  · split <;> rfl
  · rfl

/-- A section that keeps the queues, run by a thread that does not wait afterwards, or that waits
on a queue in the table. -/
theorem Current.keep {s : State Thread} {locks : Locks} {queues : List WaitQueue} {p : Phase}
    {t : Thread} (h : Current s.locks s.phase) (hk : KeepsQueues s.locks locks)
    (hp : ∀ r queue, p.wait = some (r, queue) → ∀ state, locks.lookup r.target = some state →
      state.waitQueue = queue) : Current locks (s.move t queues locks p).phase := by
  intro u r queue hu state hl
  by_cases hut : u = t
  · subst hut
    exact hp r queue (by simpa [State.move] using hu) state hl
  · obtain ⟨old, hold, hq⟩ := hk r.target state hl
    rw [hq]
    exact h u r queue (by simpa [State.move, hut, notified_wait] using hu) old hold

theorem step_current {s s' : State Thread} {a : Thread × Event} (h : Current s.locks s.phase)
    (hok : Unawaited s a) (hs : Step s a s') : Current s'.locks s'.phase := by
  have hnowait : ∀ {locks : Locks} {p : Phase}, p.wait = none → ∀ r queue,
      p.wait = some (r, queue) → ∀ state, locks.lookup r.target = some state →
        state.waitQueue = queue := by
    intro locks p hp r queue hw
    rw [hp] at hw
    cases hw
  cases hs with
  | invalid => exact h
  | unlock | releaseTarget => exact h.keep (releaseSection_keepsQueues _ _ _) (hnowait rfl)
  | convert =>
    refine h.keep (convertSection_keepsQueues _ _) (hnowait ?_)
    split <;> rfl
  | @attempt t r nonblocking hp =>
    rcases attemptSection_cases s.locks s.fresh r nonblocking with ⟨hnone, state, hsec⟩ | ⟨hk, hw⟩
    · -- nobody waits for the target of a new state
      rw [hsec]
      intro u r' queue hu st hl
      by_cases hut : u = t
      · subst hut
        simp [State.move, Attempt.phase, Phase.wait] at hu
      · have hu' : (s.phase u).wait = some (r', queue) := by
          simpa [State.move, hut, notified_wait] using hu
        have hne : r'.target ≠ r.target := by
          intro heq
          have := hok hnone u
          simp [Phase.waitsFor, hu', heq] at this
        rw [show (s.move t [] (s.locks.insert r.target state) (Attempt.granted.phase r)).locks =
          s.locks.insert r.target state from rfl, AList.lookup_insert_ne hne] at hl
        exact h u r' queue hu' st hl
    · refine h.keep hk fun r' queue hw' st hl => ?_
      generalize hsec : attemptSection s.locks s.fresh r nonblocking = sec at hw hw' hl
      obtain ⟨result, locks⟩ := sec
      cases result with
      | granted | failed => cases hw'
      | waits q =>
        cases hw'
        obtain ⟨st', hl', hq⟩ := hw _ rfl
        have hst : st' = st := Option.some.inj (hl'.symm.trans hl)
        exact hst ▸ hq
  | interrupt | resume | release | released => exact h.keep (.refl _) (hnowait rfl)
  | enrol hp _ | signal hp =>
    exact h.keep (.refl _) fun r queue hw => h _ r queue (by rw [hp]; exact hw)
  | releaseShard => exact h.keep (releaseShardSection_keepsQueues _ _ _) (hnowait rfl)

/-- **Waiters are on the queue that the release notifies**, in every run that creates lock states
only for targets no thread waits for. -/
theorem reachable_onCurrentQueue (s : State Thread)
    (h : Reachable Initial (Guarded Unawaited Step) s) : OnCurrentQueue s := by
  have hcurrent : Current s.locks s.phase := by
    refine h.invariant (fun s hi => ?_) fun s a s' hs hstep => step_current hs hstep.1 hstep.2
    intro t r queue ht
    rw [hi.2] at ht
    cases ht
  intro t r queue state ht hl _
  exact hcurrent t r queue (by rw [ht]; rfl) state hl

/-- A waiter enrolled behind the holder of the lock. -/
theorem enrolled_onCurrentQueue :
    ∃ s : State (Fin 2), Reachable Initial (Guarded Unawaited Step) s ∧
      s.phase 1 = .enrolled (exclusively 2) 0 ∧ OnCurrentQueue s := by
  have hstart : Reachable Initial (Guarded Unawaited Step) (⟨∅, fun _ => .idle, 0⟩ : State (Fin 2)) :=
    .start ⟨rfl, fun _ => rfl⟩
  have hlock := (hstart.guarded
    (@convert _ _ _ 0 (exclusively 1) LOCK_EX false rfl (by decide)) trivial).guarded
    (@attempt _ _ _ 0 (exclusively 1) false rfl) fun _ u => by fin_cases u <;> rfl
  have hclone := (hlock.guarded
    (@convert _ _ _ 1 (exclusively 2) LOCK_EX false rfl (by decide)) trivial).guarded
    (@attempt _ _ _ 1 (exclusively 2) false rfl) nofun
  have henrol := hclone.guarded (@enrol _ _ _ 1 (exclusively 2) 0 rfl (by decide)) trivial
  exact ⟨_, henrol, rfl, reachable_onCurrentQueue _ henrol⟩

end PulseOS.Lock.Flock
