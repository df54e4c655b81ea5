import PulseOS.Ipc.SemTransaction
import PulseOS.Lib.Transition

/-!
# Waiting for a semaphore set

The threads that use one set.  A round of `sys_semtimedop` that cannot go on counts itself, clones
the wait queue and drops the lock of the set; only then does it enrol on the queue, and `wait` has
no condition to look at again.  Commits, `SETVAL`, `SETALL`, `IPC_RMID` and the undo of an exiting
process change the set and wake the threads enrolled at that moment.

* `NoLostWakeup` — no thread is asleep while its operations could go on or the set is removed.
* `asleep_satisfied` — a run that breaks it: the set changes between the unlock and the enrolment.
* `reachable_noLostWakeup` — it holds in every run in which nothing changes the set while a thread
  stands between its unlock and its enrolment.
-/

namespace PulseOS.Ipc.Wait

open Transition Function

structure Call where
  pid : Int32
  sops : List SemBuf

inductive Phase where
  | idle
  /-- at the head of the loop of `sys_semtimedop` -/
  | trying (call : Call)
  /-- counted, with a clone of the queue, the lock dropped -/
  | unlocked (call : Call)
  /-- enrolled on the queue -/
  | asleep (call : Call)
  /-- taken off the queue -/
  | woken (call : Call)

/-- `notify_all` takes every enrolled thread off the queue. -/
def Phase.notified : Phase → Phase
  | .asleep call => .woken call
  | p => p

structure State (Thread : Type) where
  set : SemSetInner
  phase : Thread → Phase

inductive Action (Thread : Type) where
  | start (t : Thread) (call : Call)
  | attempt (t : Thread)
  | enrol (t : Thread)
  /-- the timeout has passed or a signal arrived -/
  | interrupt (t : Thread)
  | resume (t : Thread)
  | semctl (pid semnum : Int32) (cmd : Command)
  | undo (pid : Int32) (entry : SemUndoEntry)

variable {Thread : Type} [DecidableEq Thread]

/-- The threads after a round that ended with `result`. -/
def afterAttempt (phase : Thread → Phase) (t : Thread) (call : Call) : Attempt → Thread → Phase
  | .committed => update (fun u => (phase u).notified) t .idle
  | .waits => update phase t (.unlocked call)
  | .returned _ => update phase t .idle
  | .panicked => update phase t .idle

variable (checks : Bool) (semid : Int32) (s : State Thread)

inductive Step : Action Thread → State Thread → Prop
  | start {t : Thread} {call : Call} : s.phase t = .idle → call.sops ≠ [] →
      Step (.start t call) { s with phase := update s.phase t (.trying call) }
  | attempt {t : Thread} {call : Call} {expired : Bool} {undos : List SemUndoEntry}
      {o : Outcome} :
      s.phase t = .trying call →
      semopSection checks semid call.pid expired call.sops s.set undos = o →
      o.result ≠ .panicked →
      Step (.attempt t) ⟨o.set, afterAttempt s.phase t call o.result⟩
  | enrol {t : Thread} {call : Call} : s.phase t = .unlocked call →
      Step (.enrol t) { s with phase := update s.phase t (.asleep call) }
  | interrupt {t : Thread} {call : Call} : s.phase t = .asleep call →
      Step (.interrupt t) { s with phase := update s.phase t (.woken call) }
  | resume {t : Thread} {call : Call} {signal timedOut : Bool} : s.phase t = .woken call →
      Step (.resume t) ⟨(wakeSection call.sops s.set signal timedOut).2, update s.phase t
            (if (wakeSection call.sops s.set signal timedOut).1 = none then .trying call
             else .idle)⟩
  | semctl {pid semnum : Int32} {cmd : Command} {o : CtlOutcome} :
      Ipc.semctl pid semnum s.set cmd = o →
      Step (.semctl pid semnum cmd)
        ⟨o.set, if o.notifies then fun u => (s.phase u).notified else s.phase⟩
  | undo {pid : Int32} {entry : SemUndoEntry} :
      Step (.undo pid entry) ⟨s.set.revert pid entry, fun u => (s.phase u).notified⟩

def Initial : Prop :=
  (∃ nsems pid, s.set = .new nsems pid) ∧ ∀ t, s.phase t = .idle

/-- The set lives and the operations cannot go on. -/
def Blocked (set : SemSetInner) (call : Call) : Prop :=
  set.removed = false ∧ checkOps checks set.values call.sops ≠ .pass

/-- A thread that is still on the queue is blocked. -/
def NoLostWakeup : Prop :=
  ∀ t call, s.phase t = .asleep call → Blocked checks s.set call

/-- No thread stands between its unlock and its enrolment. -/
def NoneUnlocked : Prop := ∀ t call, s.phase t ≠ .unlocked call

def changes : Command → Bool
  | .rmid => true
  | .setVal _ => true
  | .setAll _ => true
  | _ => false

/-- The set is changed only when no thread stands between its unlock and its enrolment. -/
def Quiet : Action Thread → Prop
  | .attempt t =>
    ∀ call, s.phase t = .trying call → s.set.removed = false →
      checkOps checks s.set.values call.sops = .pass → NoneUnlocked s
  | .semctl _ _ cmd => changes cmd = true → NoneUnlocked s
  | .undo _ _ => NoneUnlocked s
  | _ => True

/-! ## The invariant -/

/-- The invariant: threads on the queue or on their way to it are blocked. -/
def AllBlocked : Prop :=
  ∀ t call, s.phase t = .unlocked call ∨ s.phase t = .asleep call → Blocked checks s.set call

variable {checks : Bool} {s : State Thread} {call : Call} {p : Phase} {t : Thread} {semid : Int32}

theorem Blocked.of_marks {set set' : SemSetInner}
    (h : Blocked checks set call) (hmarks : set'.marks = set.marks)
    (hremoved : set'.removed = set.removed) : Blocked checks set' call := by
  have hvalues : ∀ set : SemSetInner, set.values = set.marks.map Prod.fst := by
    intro set
    rw [SemSetInner.marks, List.map_map]
    rfl
  refine ⟨hremoved.trans h.1, ?_⟩
  rw [hvalues, hmarks, ← hvalues]
  exact h.2

theorem notified_ne_asleep (p : Phase) (call : Call) : p.notified ≠ .asleep call := by
  cases p <;> simp [Phase.notified]

theorem notified_eq_unlocked (h : p.notified = .unlocked call) : p = .unlocked call := by
  cases p <;> simp_all [Phase.notified]

omit [DecidableEq Thread] in
/-- After a notification at a quiet moment there is no thread to be blocked. -/
theorem allBlocked_notified (checks : Bool) (hquiet : NoneUnlocked s) (set : SemSetInner) :
    AllBlocked checks ⟨set, fun u => (s.phase u).notified⟩ := by
  rintro t call (h | h)
  · exact absurd (notified_eq_unlocked h) (hquiet t call)
  · exact absurd h (notified_ne_asleep _ _)

theorem AllBlocked.move (h : AllBlocked checks s)
    {set : SemSetInner} (hmarks : set.marks = s.set.marks) (hremoved : set.removed = s.set.removed)
    (hp : ∀ call, p = .unlocked call ∨ p = .asleep call → Blocked checks s.set call) :
    AllBlocked checks ⟨set, update s.phase t p⟩ := by
  intro u call hu
  refine Blocked.of_marks ?_ hmarks hremoved
  dsimp only at hu
  by_cases htu : u = t
  · subst htu
    rw [update_self] at hu
    exact hp call hu
  · rw [update_of_ne htu] at hu
    exact h u call hu

/-- A command that does not notify leaves the set alone; one that notifies is a change. -/
theorem semctl_notifies (pid semnum : Int32) (set : SemSetInner) (cmd : Command) :
    ((Ipc.semctl pid semnum set cmd).notifies = false ∧ (Ipc.semctl pid semnum set cmd).set = set) ∨
      ((Ipc.semctl pid semnum set cmd).notifies = true ∧ changes cmd = true) := by
  have hget : ∀ field, (set.get semnum field).notifies = false ∧
      (set.get semnum field).set = set := by
    intro field
    unfold SemSetInner.get
    split <;> exact ⟨rfl, rfl⟩
  unfold Ipc.semctl
  split
  · exact .inl ⟨rfl, rfl⟩
  · cases cmd with
    | rmid => exact .inr ⟨rfl, rfl⟩
    | getVal => exact .inl (hget _)
    | getPid => exact .inl (hget _)
    | getNcnt => exact .inl (hget _)
    | getZcnt => exact .inl (hget _)
    | setVal arg =>
      dsimp only
      split
      · exact .inl ⟨rfl, rfl⟩
      · split
        · exact .inl ⟨rfl, rfl⟩
        · exact .inr ⟨rfl, rfl⟩
    | setAll array =>
      cases array with
      | none => exact .inl ⟨rfl, rfl⟩
      | some vals => exact .inr ⟨rfl, rfl⟩

theorem AllBlocked.attempt (h : AllBlocked checks s) {undos : List SemUndoEntry} {o : Outcome}
    (ht : s.phase t = .trying call) (hquiet : Quiet checks s (.attempt t))
    (hround : Round checks semid call.pid call.sops s.set undos o) :
    AllBlocked checks ⟨o.set, afterAttempt s.phase t call o.result⟩ := by
  cases hround with
  | commits hlive hpass =>
    have hnone := hquiet call ht hlive hpass
    intro u c hu
    dsimp only [afterAttempt] at hu
    by_cases htu : u = t
    · subst htu
      rw [update_self] at hu
      rcases hu with hu | hu <;> cases hu
    · rw [update_of_ne htu] at hu
      exact allBlocked_notified checks hnone _ u c hu
  | keeps hnot hresult hwaits hmarks hremoved _ =>
    have hleaves := h.move (t := t) (p := .idle) hmarks hremoved
      fun c hc => by rcases hc with hc | hc <;> cases hc
    cases hr : o.result with
    | committed => exact absurd hr hresult
    | returned e | panicked => exact hleaves
    | waits =>
      refine h.move hmarks hremoved fun c hc => ?_
      rcases hc with hc | hc <;> cases hc
      exact ⟨hwaits hr, hnot (hwaits hr)⟩

theorem AllBlocked.step {s s' : State Thread} {a : Action Thread}
    (h : AllBlocked checks s) (hquiet : Quiet checks s a) (hs : Step checks semid s a s') :
    AllBlocked checks s' := by
  cases hs with
  | @start t call _ _ =>
    exact h.move rfl rfl fun c hc => by rcases hc with hc | hc <;> cases hc
  | @attempt t call expired undos o ht ho _ =>
    subst ho
    exact h.attempt ht hquiet (semopSection_spec checks semid call.pid expired call.sops s.set undos)
  | @enrol t call ht =>
    refine h.move rfl rfl fun c hc => ?_
    rcases hc with hc | hc <;> cases hc
    exact h t call (.inl ht)
  | @interrupt t call _ =>
    exact h.move rfl rfl fun c hc => by rcases hc with hc | hc <;> cases hc
  | @resume t call signal timedOut _ =>
    refine h.move (wakeSection_keeps call.sops s.set signal timedOut) rfl fun c hc => ?_
    split at hc <;> rcases hc with hc | hc <;> cases hc
  | @semctl pid semnum cmd o ho =>
    subst ho
    rcases semctl_notifies pid semnum s.set cmd with ⟨hsilent, hset⟩ | ⟨hnotifies, hchanges⟩
    · rw [hsilent, hset]
      exact h
    · rw [hnotifies, if_pos rfl]
      exact allBlocked_notified checks (hquiet hchanges) _
  | undo => exact allBlocked_notified checks hquiet _

/-- **No wakeup is lost** in a run in which the set changes only while no thread stands between its
unlock and its enrolment. -/
theorem reachable_noLostWakeup (checks : Bool) (semid : Int32) (s : State Thread)
    (h : Reachable Initial (Guarded (Quiet checks) (Step checks semid)) s) :
    NoLostWakeup checks s := by
  have hall : AllBlocked checks s := h.invariant
    (fun s hi t call hp => by rcases hp with hp | hp <;> rw [hi.2 t] at hp <;> cases hp)
    (fun s a s' hinv hs => hinv.step hs.1 hs.2)
  exact fun t call ht => hall t call (.inr ht)

/-- Process 7 takes one from a semaphore. -/
def take : Call := ⟨7, [⟨0, -1, 0⟩]⟩

/-- A thread asleep on a semaphore at zero. -/
theorem take_noLostWakeup :
    ∃ s : State (Fin 1), Reachable Initial (Guarded (Quiet false) (Step false 1)) s ∧
      s.phase 0 = .asleep take ∧ NoLostWakeup false s := by
  have hstart : Reachable Initial (Guarded (Quiet false) (Step false 1))
      (⟨.new 1 7, fun _ => .idle⟩ : State (Fin 1)) := .start ⟨⟨1, 7, rfl⟩, fun _ => rfl⟩
  have hcall := hstart.guarded (@Step.start _ _ _ _ _ 0 take rfl (by decide)) trivial
  have hunlocked := hcall.guarded
    (@Step.attempt _ _ _ _ _ 0 take false [] _ rfl rfl (by decide +kernel))
    (fun call hc _ hpass => by cases hc; exact absurd hpass (by decide +kernel))
  have hasleep := hunlocked.guarded (@Step.enrol _ _ _ _ _ 0 take rfl) trivial
  exact ⟨_, hasleep, rfl, reachable_noLostWakeup _ _ _ hasleep⟩

/-- `SETVAL` between the unlock and the enrolment: the thread sleeps although it could go on. -/
theorem asleep_satisfied :
    ∃ s : State (Fin 1), Reachable Initial (Step false 1) s ∧ s.phase 0 = .asleep take ∧
      ¬ NoLostWakeup false s := by
  have hstart : Reachable Initial (Step false 1) (⟨.new 1 7, fun _ => .idle⟩ : State (Fin 1)) :=
    .start ⟨⟨1, 7, rfl⟩, fun _ => rfl⟩
  have hcall := hstart.next (@Step.start _ _ _ _ _ 0 take rfl (by decide))
  have hunlocked := hcall.next
    (@Step.attempt _ _ _ _ _ 0 take false [] _ rfl rfl (by decide +kernel))
  have hset := hunlocked.next (@Step.semctl _ _ _ _ _ 8 0 (.setVal 1) _ rfl)
  have hasleep := hset.next (@Step.enrol _ _ _ _ _ 0 take rfl)
  refine ⟨_, hasleep, rfl, fun h => ?_⟩
  exact (h 0 take rfl).2 (by decide +kernel)

end PulseOS.Ipc.Wait
