import PulseOS.Lib.Transition
import PulseOS.Sched.EevdfMoves

/-!
# Runs of the scheduler

Any sequence of operations, with the tasks handed out recorded beside them.

* `Host` — a task is not enqueued twice, and its priority and policy are not stored behind the back
  of the scheduler; `Careful` — what the operations rely on besides: the task that runs is outside
  the queues.
* `run_bookkeeping` — the books, in terms of the tasks alone.
-/

namespace PulseOS.Sched

open Transition EEVDFScheduler List

variable {τ : Type}

/-- The operations of the host; the last two are the setters of a task. -/
inductive Op (τ : Type) where
  | enqueue (t : τ) (reason : EnqueueReason) (now : UInt64)
  | enqueueNew (t : τ)
  | requeuePrevious (prev : τ) (preempt : Bool)
  | remove (t : τ)
  | detachNormalTask (predicate : Nat → τ → Bool)
  | pickNextAt (now : UInt64)
  | onTaskStart (t : τ) (now : UInt64)
  | onTaskStop (t : τ) (now : UInt64)
  | tickAt (current : τ) (now : UInt64)
  | candidatePreempts (current candidate : τ) (now : UInt64)
  | preemptionDeadline (current : τ) (now : UInt64)
  | hasEligiblePreemption (currentDeadline : UInt64)
  | updatePriorityAt (t : τ) (priority : Int) (now : UInt64)
  | setRtPolicyAt (t : τ) (policy : RtPolicy) (now : UInt64)
  | setPriority (t : τ) (priority : Int)
  | setRtPolicy (t : τ) (policy : RtPolicy)

def Op.entering : Op τ → Option τ
  | .enqueue t _ _ => some t
  | .enqueueNew t => some t
  | .requeuePrevious t _ => some t
  | _ => none

/-- An operation, and the task it handed out. -/
structure Event (τ : Type) where
  op : Op τ
  handed : Option τ

variable (s : EEVDFScheduler τ) (e : Event τ)

/-- Room for one more ordinary task. -/
def Room : Prop := s.normalTaskCount + 1 < TASK_LIMIT

instance : Decidable (Room s) := inferInstanceAs (Decidable (_ < _))

def Host : Prop :=
  match e.op with
  | .enqueue t _ _ => ¬ Queued s t
  | .enqueueNew t => ¬ Queued s t
  | .requeuePrevious t _ => ¬ Queued s t
  | .setPriority t _ => ¬ Queued s t
  | .setRtPolicy t _ => ¬ Queued s t
  | _ => True

def Careful : Prop :=
  match e.op with
  | .enqueue t reason _ => Enterable s t reason ∧ Room s
  | .enqueueNew t => Enterable s t .spawn ∧ Room s
  | .requeuePrevious _ _ => Room s
  | .updatePriorityAt _ _ _ => Room s
  | .onTaskStart t _ => ¬ Queued s t
  | .tickAt t _ => ¬ Queued s t
  | _ => True

def Contract : Prop := Host s e ∧ Careful s e

section
variable [DecidableEq τ]

/-- The state after an operation, and the task handed out. -/
def Op.apply (S : UInt64) (s : EEVDFScheduler τ) : Op τ → EEVDFScheduler τ × Option τ
  | .enqueue t reason now => (s.enqueue S t reason now, none)
  | .enqueueNew t => (s.enqueueNew S t, none)
  | .requeuePrevious prev preempt => (s.requeuePrevious S prev preempt, none)
  | .remove t => s.remove S t
  | .detachNormalTask predicate => s.detachNormalTask S predicate
  | .pickNextAt now => s.pickNextAt now
  | .onTaskStart t now => (s.onTaskStart S t now, none)
  | .onTaskStop t now => (s.onTaskStop S t now, none)
  | .tickAt current now => ((s.tickAt S current now).1, none)
  | .candidatePreempts current candidate now =>
    ((s.candidatePreempts current candidate now).1, none)
  | .preemptionDeadline _ _ => (s, none)
  | .hasEligiblePreemption currentDeadline => ((s.hasEligiblePreemption currentDeadline).1, none)
  | .updatePriorityAt t priority now => ((s.updatePriorityAt S t priority now).1, none)
  | .setRtPolicyAt t policy now => (s.setRtPolicyAt t policy now, none)
  | .setPriority t priority => (s.modifyTask t (EEVDFTask.setPriority priority), none)
  | .setRtPolicy t policy => (s.modifyTask t (EEVDFTask.setRtPolicy policy), none)

def Step (S : UInt64) (s : EEVDFScheduler τ) (e : Event τ) (s' : EEVDFScheduler τ) : Prop :=
  e.op.apply S s = (s', e.handed)

/-- An empty scheduler, and tasks none of which runs. -/
def Initial : Prop :=
  ∃ tasks : τ → EEVDFTask, (∀ t, (tasks t).running = false) ∧ s = new tasks

/-! ## One step -/

/-- What a step moves. -/
def Moves (s s' : EEVDFScheduler τ) (e : Event τ) : Prop :=
  match e.op.entering with
  | some t => ¬ Queued s t ∧ Enters s s' t ∧ e.handed = none
  | none => Handed s s' e.handed

variable {S : UInt64} {s s' : EEVDFScheduler τ} {e : Event τ}

section
omit [DecidableEq τ]

theorem Kept.room (hk : Kept s) (h : Room s) : s.linked.length + 1 < TASK_LIMIT := by
  rw [← hk.books.count]
  exact h

theorem Moves.kept (h : Moves s s' e) : Kept s' := by
  unfold Moves at h
  split at h
  · exact h.2.1.kept
  · cases hh : e.handed with
    | none =>
      rw [hh] at h
      exact Stays.kept h
    | some t =>
      rw [hh] at h
      exact Leaves.kept h

theorem not_queued_new (tasks : τ → EEVDFTask) (t : τ) : ¬ Queued (new tasks) t := by
  rintro (⟨i, ht⟩ | ht)
  · cases ht
  · cases ht

theorem kept_new (tasks : τ → EEVDFTask) : Kept (new tasks) := by
  refine ⟨?_, fun c hc => (by cases hc)⟩
  constructor
  · constructor
    · exact fun t ht => (by cases ht)
    · exact Pairwise.nil
    · exact Pairwise.nil
    · exact ⟨fun _ => rfl, fun _ => rfl⟩
    · exact fun b hb => (by cases hb)
  · exact fun i t ht => (by cases ht)
  · exact fun i => nodup_nil
  · exact fun i => (by simp [new])
  · exact fun t ht => (by cases ht)
  · exact nodup_nil
  · rfl
  · exact Nat.two_pow_pos 47
  · rfl
  · rfl
  · exact fun t ht => absurd ht (not_queued_new tasks t)
  · exact fun t ht => (by cases ht)

theorem Initial.not_queued (h : Initial s) (t : τ) : ¬ Queued s t := by
  obtain ⟨tasks, -, rfl⟩ := h
  exact not_queued_new tasks t

theorem Initial.kept (h : Initial s) : Kept s := by
  obtain ⟨tasks, -, rfl⟩ := h
  exact kept_new tasks

end

/-- **One lemma for all operations.** -/
theorem step_moves (hk : Kept s) (hok : Contract s e) (hstep : Step S s e s') : Moves s s' e := by
  obtain ⟨op, handed⟩ := e
  obtain ⟨hhost, hcareful⟩ := hok
  cases op with
  | enqueue t reason now =>
    cases hstep
    exact ⟨hhost, hk.enqueueAt hhost hcareful.1 (hk.room hcareful.2) S now, rfl⟩
  | enqueueNew t =>
    cases hstep
    exact ⟨hhost, hk.enqueueAt hhost hcareful.1 (hk.room hcareful.2) S s.clockNs, rfl⟩
  | requeuePrevious prev preempt =>
    cases hstep
    refine ⟨hhost, hk.enqueueAt hhost ?_ (hk.room hcareful) S s.clockNs, rfl⟩
    cases preempt with
    | false => exact .inr (.inr (.inl rfl))
    | true => exact .inr (.inl rfl)
  | remove t =>
    have hhanded := hk.remove S t
    rw [show s.remove S t = (s', handed) from hstep] at hhanded
    exact hhanded
  | detachNormalTask predicate =>
    have hhanded := hk.detachNormalTask S predicate
    rw [show s.detachNormalTask S predicate = (s', handed) from hstep] at hhanded
    exact hhanded
  | pickNextAt now =>
    have hhanded := hk.pickAt now
    rw [show s.pickAt now = (s', handed) from hstep] at hhanded
    exact hhanded
  | onTaskStart t now =>
    cases hstep
    exact (frame_onTaskStart hcareful S now).stays hk
  | onTaskStop t now =>
    cases hstep
    exact hk.onTaskStop S t now
  | tickAt current now =>
    cases hstep
    exact hk.tickAt hcareful S now
  | candidatePreempts current candidate now =>
    cases hstep
    exact hk.candidatePreempts current candidate now
  | preemptionDeadline current now =>
    cases hstep
    exact (Frame.refl s).stays hk
  | hasEligiblePreemption currentDeadline =>
    cases hstep
    exact hk.stays_query currentDeadline
  | updatePriorityAt t priority now =>
    cases hstep
    exact hk.setPriorityInner (hk.room hcareful) S t priority now
  | setRtPolicyAt t policy now =>
    cases hstep
    exact hk.setRtPolicyAt t policy now
  | setPriority t priority =>
    cases hstep
    refine (frame_modifyTask_outside hhost fun task => ?_).stays hk
    unfold EEVDFTask.setPriority
    split <;> rfl
  | setRtPolicy t policy =>
    cases hstep
    exact (frame_modifyTask_same (sameKey_setRtPolicy policy)).stays hk

/-! ## Whole runs -/

variable {h : List (Event τ)}

/-- **Books and cache after every run.** -/
theorem run_kept (hrun : Run Initial (Guarded Contract (Step S)) h s) : Kept s :=
  hrun.invariant (fun _ => Initial.kept) fun _ _ _ hk hstep =>
    (step_moves hk hstep.1 hstep.2).kept

/-- How often a task was taken in. -/
def entries (t : τ) (h : List (Event τ)) : Nat :=
  h.countP fun e => decide (e.op.entering = some t)

/-- How often a task was handed out. -/
def departures (t : τ) (h : List (Event τ)) : Nat :=
  h.countP fun e => decide (e.handed = some t)

/-- A task is queued exactly when it was taken in once more than it was handed out. -/
structure Balance (h : List (Event τ)) (s : EEVDFScheduler τ) (t : τ) : Prop where
  queued : Queued s t → entries t h = departures t h + 1
  outside : ¬ Queued s t → entries t h = departures t h

variable {t : τ}

theorem Balance.of_same {h h' : List (Event τ)} (hbal : Balance h s t)
    (hqueued : Queued s' t ↔ Queued s t) (hentries : entries t h' = entries t h)
    (hdepartures : departures t h' = departures t h) : Balance h' s' t := by
  constructor
  · intro hq
    rw [hentries, hdepartures]
    exact hbal.queued (hqueued.mp hq)
  · intro hq
    rw [hentries, hdepartures]
    exact hbal.outside fun h => hq (hqueued.mpr h)

theorem Balance.step (hbal : Balance h s t) (hm : Moves s s' e) : Balance (e :: h) s' t := by
  have hentries : entries t (e :: h) = entries t h + if e.op.entering = some t then 1 else 0 := by
    simp [entries, countP_cons]
  have hdepartures : departures t (e :: h) =
      departures t h + if e.handed = some t then 1 else 0 := by
    simp [departures, countP_cons]
  unfold Moves at hm
  cases hent : e.op.entering with
  | some u =>
    rw [hent] at hm hentries
    obtain ⟨hnot, henters, hnone⟩ := hm
    rw [hnone, if_neg (by simp)] at hdepartures
    by_cases hut : u = t
    · subst hut
      have hbefore := hbal.outside hnot
      rw [if_pos rfl] at hentries
      exact ⟨fun _ => by omega, fun hq => absurd ((henters.queued u).mpr (.inr rfl)) hq⟩
    · rw [if_neg (by simpa using hut)] at hentries
      refine hbal.of_same ?_ hentries hdepartures
      rw [henters.queued]
      exact or_iff_left (Ne.symm hut)
  | none =>
    rw [hent] at hm hentries
    rw [if_neg (by simp)] at hentries
    cases hhanded : e.handed with
    | none =>
      rw [hhanded] at hm hdepartures
      rw [if_neg (by simp)] at hdepartures
      exact hbal.of_same (Stays.queued hm t) hentries hdepartures
    | some u =>
      rw [hhanded] at hm hdepartures
      have hleaves : Leaves s s' u := hm
      by_cases hut : u = t
      · subst hut
        have hbefore := hbal.queued hleaves.wasQueued
        rw [if_pos rfl] at hdepartures
        exact ⟨fun hq => absurd rfl ((hleaves.queued u).mp hq).2, fun _ => by omega⟩
      · rw [if_neg (by simpa using hut)] at hdepartures
        refine hbal.of_same ?_ hentries hdepartures
        rw [hleaves.queued]
        exact and_iff_left (Ne.symm hut)

/-- **A task leaves once for each time it entered.** -/
theorem run_balance (hrun : Run Initial (Guarded Contract (Step S)) h s) (t : τ) :
    Balance h s t := by
  induction hrun with
  | init hi => exact ⟨fun hq => absurd hq (hi.not_queued t), fun _ => rfl⟩
  | step hrun hs ih => exact ih.step (step_moves (run_kept hrun) hs.1 hs.2)

/-! ## The books in terms of the tasks -/

/-- A real-time task is in the list of its own priority, an ordinary one in one tree. -/
def InOnePlace (s : EEVDFScheduler τ) (t : τ) : Prop :=
  if (s.tasks t).isRt then
    (s.rtQueues (s.tasks t).rtIndex).count t = 1 ∧
      (∀ i, i ≠ (s.tasks t).rtIndex → t ∉ s.rtQueues i) ∧ t ∉ s.linked
  else (∀ i, t ∉ s.rtQueues i) ∧ s.normalEligible.count t + s.normalIneligible.count t = 1

structure Bookkeeping (h : List (Event τ)) (s : EEVDFScheduler τ) : Prop where
  place : ∀ t, Queued s t → InOnePlace s t
  leaves : ∀ t, Balance h s t
  totalWeight : s.normalTotalWeight = s.weights s.linked
  weightedVruntime : s.normalWeightedVruntime = s.weightedVruntimes s.linked
  count : s.normalTaskCount = s.linked.length
  eligible : ∀ t ∈ s.normalEligible, (s.tasks t).vruntime ≤ s.virtualTime
  boundNone : s.normalIneligibleDeadlineLowerBound = none ↔ s.normalIneligible = []
  bound : ∀ b, s.normalIneligibleDeadlineLowerBound = some b →
    ∀ t ∈ s.normalIneligible, b ≤ (s.tasks t).deadline

theorem Books.inOnePlace (hb : Books s) (hq : Queued s t) : InOnePlace s t := by
  unfold InOnePlace
  split
  · rename_i hrt
    have hlinked : t ∉ s.linked := fun ht => by
      rw [hb.normal t ht] at hrt
      cases hrt
    obtain ⟨i, hi⟩ : ∃ i, t ∈ s.rtQueues i := hq.resolve_right hlinked
    refine ⟨?_, fun j hj ht => hj (hb.rt j t ht).2.symm, hlinked⟩
    rw [(hb.rt i t hi).2]
    exact count_eq_one_of_mem (hb.rtNodup i) hi
  · rename_i hrt
    have hlists : ∀ i, t ∉ s.rtQueues i := fun i ht => hrt (hb.rt i t ht).1
    refine ⟨hlists, ?_⟩
    have hlinked : t ∈ s.linked := hq.resolve_left fun ⟨i, hi⟩ => hlists i hi
    rw [← count_append]
    exact count_eq_one_of_mem hb.nodup hlinked

/-- **The books of every run.** -/
theorem run_bookkeeping {h : List (Event τ)}
    (hrun : Run Initial (Guarded Contract (Step S)) h s) : Bookkeeping h s := by
  have hb := (run_kept hrun).books
  exact ⟨fun _ => hb.inOnePlace, run_balance hrun, hb.totalWeight, hb.weightedVruntime, hb.count,
    hb.eligible, hb.boundNone, hb.bound⟩

theorem run_op {ok : EEVDFScheduler τ → Event τ → Prop}
    (hrun : Run Initial (Guarded ok (Step S)) h s) (op : Op τ) (hok : ok s ⟨op, (op.apply S s).2⟩) :
    Run Initial (Guarded ok (Step S)) (⟨op, (op.apply S s).2⟩ :: h) (op.apply S s).1 :=
  hrun.guarded rfl hok

theorem Balance.not_queued (hbal : Balance h s t) (heq : entries t h = departures t h) :
    ¬ Queued s t := fun hq => by
  have := hbal.queued hq
  omega

end

/-! ## Two tasks -/

/-- Nice `0` and nice `19`. -/
def pairTasks (t : Bool) : EEVDFTask :=
  if t then { EEVDFTask.new with priority := -81 } else EEVDFTask.new

/-- Both are spawned. -/
def pairQueued : EEVDFScheduler Bool :=
  ((new pairTasks).enqueue 1000 false .spawn 0).enqueueNew 1000 true

theorem pair_run : Run Initial (Guarded Contract (Step 1000))
    [⟨.enqueueNew true, none⟩, ⟨.enqueue false .spawn 0, none⟩] pairQueued := by
  have hinit : Initial (new pairTasks) := ⟨pairTasks, fun t => by cases t <;> rfl, rfl⟩
  have h₀ : Run Initial (Guarded Contract (Step 1000)) [] (new pairTasks) := .init hinit
  have h₁ := run_op h₀ (.enqueue false .spawn 0) ⟨hinit.not_queued false,
    .inr (.inr (.inr (.inl rfl))), by decide +kernel⟩
  exact run_op h₁ (.enqueueNew true) ⟨(run_balance h₁ true).not_queued (by decide +kernel),
    .inr (.inr (.inr (.inl (by decide +kernel)))), by decide +kernel⟩

theorem pair_bookkeeping : ∃ h, ∃ s : EEVDFScheduler Bool,
    Run Initial (Guarded Contract (Step 1000)) h s ∧ h.length = 5 ∧ s.normalTotalWeight = 15 ∧
      Bookkeeping h s := by
  have h₁ := run_op pair_run (.pickNextAt 5) ⟨trivial, trivial⟩
  have h₂ := run_op h₁ (.onTaskStart false 5)
    ⟨trivial, (run_balance h₁ false).not_queued (by decide +kernel)⟩
  have h₃ := run_op h₂ (.tickAt false 100)
    ⟨trivial, (run_balance h₂ false).not_queued (by decide +kernel)⟩
  exact ⟨_, _, h₃, rfl, by decide +kernel, run_bookkeeping h₃⟩

/-- The first task is started without being picked, and charged at a tick. -/
def pairStarted : EEVDFScheduler Bool :=
  ((pairQueued.onTaskStart 1000 false 0).tickAt 1000 false 10).1

theorem pair_started : ∃ h, Run Initial (Guarded Host (Step 1000)) h pairStarted := by
  have h₀ : Run Initial (Guarded Host (Step 1000)) _ pairQueued :=
    pair_run.weaken fun _ _ hok => hok.1
  have h₁ := run_op h₀ (.onTaskStart false 0) trivial
  exact ⟨_, run_op h₁ (.tickAt false 10) trivial⟩

/-- A queued task that runs is charged in its tree, and the sum does not follow. -/
theorem started_while_queued : ∃ h, Run Initial (Guarded Host (Step 1000)) h pairStarted ∧
    ¬ Bookkeeping h pairStarted := by
  obtain ⟨h, hrun⟩ := pair_started
  exact ⟨h, hrun, fun hbook => absurd hbook.weightedVruntime (by decide +kernel)⟩

end PulseOS.Sched
