import PulseOS.Lock.RecordLockBytes
import PulseOS.Lock.RecordLockTable

/-!
# The lock table refines the locks by bytes

Each section changes the locks of a target by one call of `RecordLockState`, with a range that
`validate_range` has let through, or not at all.  So whatever the interleaving, the locks of a
target are those of a sequence of calls.

* `reached_locks_byCalls` — **every run, at every target.**
-/

namespace PulseOS.Lock.Record

open Exec Transition AList

variable {locks locks' : Locks} {target other : LockTarget}

/-- A call with an ordered range, or nothing, leads from `old` to `new`. -/
def ByCall (old new : List RecordLock) : Prop :=
  new = old ∨ ∃ op : Op, op.Ordered ∧ Calls old op new

theorem locksOf_insert (state : RecordLockState) :
    locksOf (locks.insert target state) other =
      if other = target then state.entries else locksOf locks other := by
  by_cases h : other = target
  · subst h
    simp [locksOf]
  · simp [locksOf, lookup_insert_ne h, h]

theorem locksOf_settled (state : RecordLockState) :
    locksOf (settle locks target state) other =
      if other = target then state.entries else locksOf locks other := by
  by_cases h : other = target
  · rw [if_pos h, h, locksOf_settle]
  · rw [if_neg h, locksOf, lookup_settle_ne h, locksOf]

theorem locksOf_of_lookup {state : RecordLockState} (h : locks.lookup target = some state) :
    locksOf locks target = state.entries := by
  rw [locksOf, h]
  rfl

theorem entries_getD (fresh : WaitQueue) :
    ((locks.lookup target).getD ⟨[], fresh, 0⟩).entries = locksOf locks target := by
  unfold locksOf
  cases locks.lookup target <;> rfl

/-- A section that writes the locks of one target. -/
theorem byCall_of_ite {entries : List RecordLock} (h : ByCall (locksOf locks target) entries) :
    ByCall (locksOf locks other) (if other = target then entries else locksOf locks other) := by
  split
  · rename_i he
    rw [he]
    exact h
  · exact .inl rfl

theorem setLockSection_byCall {fresh : WaitQueue} {r : Request} {blocking : Bool}
    {result : SetLock} (h : setLockSection locks fresh r blocking = .ok (result, locks')) :
    ByCall (locksOf locks other) (locksOf locks' other) := by
  have hgetD : ((locks.lookup r.target).getD ⟨[], fresh, 0⟩).entries = locksOf locks r.target :=
    entries_getD fresh
  simp only [setLockSection, hgetD] at h
  split at h
  · obtain ⟨⟨res, entries⟩, hset, h⟩ := bind_eq_ok.mp h
    have hcall : ByCall (locksOf locks r.target) entries :=
      .inr ⟨.set r.owner r.start r.stop r.lockType, trivial, by simp [Calls, Op.apply, hset]⟩
    cases res <;> cases h <;> rw [locksOf_insert] <;> exact byCall_of_ite hcall
  · split at h <;> cases h <;> rw [locksOf_insert] <;> exact byCall_of_ite (.inl (by simp [hgetD]))

theorem unlockSection_byCall {owner : RecordLockOwner} {start stop : Int}
    {queues : List WaitQueue} (hv : validateRange start stop = .ok ())
    (h : unlockSection locks owner target start stop = .ok (queues, locks')) :
    ByCall (locksOf locks other) (locksOf locks' other) := by
  unfold unlockSection at h
  split at h
  · rename_i state hl
    obtain ⟨⟨entries, changed⟩, hclear, h⟩ := bind_eq_ok.mp h
    cases h
    rw [locksOf_settled]
    refine byCall_of_ite (.inr ⟨.clearOwnerRange owner start stop, ?_, ?_⟩)
    · exact (validateRange_ok.mp hv).2.le
    · simp [Calls, Op.apply, locksOf_of_lookup hl, hclear]
  · cases h
    exact .inl rfl

theorem releaseTargetSection_byCall (owner : RecordLockOwner) :
    ByCall (locksOf locks other) (locksOf (releaseTargetSection locks owner target).2 other) := by
  unfold releaseTargetSection
  split
  · rename_i state hl
    rw [locksOf_settled]
    exact byCall_of_ite (.inr ⟨.releaseOwner owner, trivial, by
      simp [Calls, Op.apply, locksOf_of_lookup hl]⟩)
  · exact .inl rfl

theorem releaseShardSection_byCall (owner : RecordLockOwner) (shard : Nat) :
    ByCall (locksOf locks target) (locksOf (releaseShardSection locks owner shard).2 target) := by
  have hlookup : (releaseShardSection locks owner shard).2.lookup target =
      (locks.lookup target).bind (releaseState owner shard target) :=
    Table.lookup_filterMap _ _ _
  cases hl : locks.lookup target with
  | none => simp [ByCall, locksOf, hlookup, hl]
  | some state =>
    rw [locksOf_of_lookup hl, locksOf, hlookup, hl, Option.bind_some, releaseState_entries]
    split
    · exact .inr ⟨.releaseOwner owner, trivial, rfl⟩
    · exact .inl rfl

variable {Thread : Type} [DecidableEq Thread] {s s' : State Thread}

/-- Sections that wait, sleep or notify leave the locks alone. -/
theorem step_byCall {t : Thread} (hs : Step s t s') (target : LockTarget) :
    ByCall (locksOf s.locks target) (locksOf s'.locks target) := by
  cases hs with
  | setLock _ _ hsec => exact setLockSection_byCall hsec
  | finishWait => exact .inl (locksOf_finishWait _ _ _)
  | sleep | interrupt | notify | notified | release | released => exact .inl rfl
  | unlock _ hv hsec => exact unlockSection_byCall hv hsec
  | releaseTarget => exact releaseTargetSection_byCall _
  | releaseShard => exact releaseShardSection_byCall _ _

/-- **The locks of every target are those of some sequence of calls** with ordered ranges, in every
state that the threads reach: one type for each owner and byte, and none beside a write lock. -/
theorem reached_locks_byCalls (h : Reached s) (target : LockTarget) :
    ReachedOrdered (locksOf s.locks target) ∧ OneTypePerByte (locksOf s.locks target) := by
  suffices hcalls : ReachedOrdered (locksOf s.locks target) from
    ⟨hcalls, hcalls.consistent.oneTypePerByte⟩
  refine h.invariant (I := fun s => ReachedOrdered (locksOf s.locks target)) ?_ ?_
  · rintro s ⟨hlocks, -⟩
    rw [hlocks]
    exact .start rfl
  · intro s t s' hs hstep
    rcases step_byCall hstep target with heq | ⟨op, hop, hcall⟩
    · rw [heq]
      exact hs
    · exact hs.next ⟨hop, hcall⟩

/-- Two owners read the same bytes after one of them has given up a part of its write lock. -/
theorem contended_locks_byCalls : ∃ s : State (Fin 3),
    locksOf s.locks (.fdObject 1) = [⟨.posix 1, 5, 25, .read⟩, ⟨.posix 1, 0, 5, .write⟩,
      ⟨.posix 2, 20, 30, .read⟩] ∧ OneTypePerByte (locksOf s.locks (.fdObject 1)) := by
  have hstart : Reached (⟨∅, fun _ => .idle, 0⟩ : State (Fin 3)) := .start ⟨rfl, fun _ => rfl⟩
  have hwrite := hstart.next (@Step.setLock _ _ _ 0 (firstTen 1) true (.granted 0)
    (insert (.fdObject 1) ⟨[⟨.posix 1, 0, 10, .write⟩], 0, 0⟩ ∅) rfl rfl rfl)
  have hread := hwrite.next (@Step.setLock _ _ _ 1 ⟨.posix 2, .fdObject 1, 20, 30, .read⟩ true
    (.granted 0) (insert (.fdObject 1)
      ⟨[⟨.posix 1, 0, 10, .write⟩, ⟨.posix 2, 20, 30, .read⟩], 0, 0⟩ ∅) rfl rfl rfl)
  have hboth := hread.next (@Step.setLock _ _ _ 2 ⟨.posix 1, .fdObject 1, 5, 25, .read⟩ true
    (.granted 0) (insert (.fdObject 1) ⟨[⟨.posix 1, 5, 25, .read⟩, ⟨.posix 1, 0, 5, .write⟩,
      ⟨.posix 2, 20, 30, .read⟩], 0, 0⟩ ∅) rfl rfl rfl)
  exact ⟨_, rfl, (reached_locks_byCalls hboth (.fdObject 1)).2⟩

end PulseOS.Lock.Record
