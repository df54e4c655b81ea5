import PulseOS.Lib.WeightedMean
import PulseOS.Sched.EevdfSelect

/-!
# Rounds of ordinary tasks

Ordinary tasks that are spawned together in a fresh scheduler and then share one processor: a task
is picked, started, and enqueued again when it is preempted.

* `Move`, `exec_move` — **what a step does to the virtual times.**  Every bound on a run is a case
  split over it.
-/

namespace PulseOS.Sched

open Saturating Transition WeightedMean EEVDFScheduler List EEVDFTask

variable {τ : Type}

namespace EEVDFScheduler

variable (s : EEVDFScheduler τ)

def weightOf (t : τ) : Nat := (s.tasks t).weight

def vruntimeOf (t : τ) : Nat := (s.tasks t).vruntime.toNat

def sliceOf (S : UInt64) (s : EEVDFScheduler τ) (t : τ) : Nat := ((s.tasks t).virtualSlice S).toNat

/-- The mean virtual run time of some tasks, by their weights. -/
def meanOf (l : List τ) : Nat := mean s.weightOf s.vruntimeOf l

end EEVDFScheduler

/-! ## The processor -/

inductive Phase (τ : Type) where
  | idle
  | picked (t : τ)
  | running (t : τ)

/-- The task that is not queued. -/
def Phase.out : Phase τ → Option τ
  | .idle => none
  | .picked t => some t
  | .running t => some t

/-- The task the scheduler knows as the current one. -/
def Phase.current : Phase τ → Option τ
  | .running t => some t
  | _ => none

structure Processor (τ : Type) where
  sched : EEVDFScheduler τ
  phase : Phase τ

inductive Round where
  | pickNextAt (now : UInt64)
  | onTaskStart (now : UInt64)
  | preempt (now : UInt64)

section
variable [DecidableEq τ]

def spawnAll (S now : UInt64) : List τ → EEVDFScheduler τ → EEVDFScheduler τ
  | [], s => s
  | t :: l, s => spawnAll S now l (s.enqueue S t .spawn now)

namespace Processor

/-- A task runs for at least one nanosecond and at most for the base slice. -/
def exec (S : UInt64) (p : Processor τ) : Round → Option (Processor τ)
  | .pickNextAt now =>
    match p.phase with
    | .idle =>
      match p.sched.pickNextAt now with
      | (sched, some t) => some ⟨sched, .picked t⟩
      | (_, none) => none
    | _ => none
  | .onTaskStart now =>
    match p.phase with
    | .picked t => some ⟨p.sched.onTaskStart S t now, .running t⟩
    | _ => none
  | .preempt now =>
    match p.phase with
    | .running t =>
      let start := (p.sched.tasks t).execStart
      if start < now ∧ now.toNat ≤ start.toNat + S.toNat then
        some ⟨p.sched.enqueue S t .preempt now, .idle⟩
      else none
    | _ => none

abbrev Step (S : UInt64) : Processor τ → Round → Processor τ → Prop := Computed (exec S)

/-- The tasks `l` were spawned at one time in a fresh scheduler. -/
def Initial (S : UInt64) (l : List τ) (p : Processor τ) : Prop :=
  ∃ tasks now, (∀ t ∈ l, (tasks t).running = false ∧ (tasks t).isRt = false) ∧
    p = ⟨spawnAll S now l (new tasks), .idle⟩

end Processor

/-! ## Virtual time -/

/-- The fields that the virtual time depends on. -/
def SameLoad (s s' : EEVDFScheduler τ) : Prop :=
  ∀ u, (s'.tasks u).priority = (s.tasks u).priority ∧ (s'.tasks u).vruntime = (s.tasks u).vruntime

section
omit [DecidableEq τ]
variable {s s' s'' : EEVDFScheduler τ}

theorem SameLoad.of_tasks (h : s'.tasks = s.tasks) : SameLoad s s' := fun u => by
  rw [h]
  exact ⟨rfl, rfl⟩

theorem SameLoad.trans (h : SameLoad s s') (h' : SameLoad s' s'') : SameLoad s s'' :=
  fun u => ⟨(h' u).1.trans (h u).1, (h' u).2.trans (h u).2⟩

variable {t : τ}

theorem weightOf_of_priority (h : (s'.tasks t).priority = (s.tasks t).priority) :
    s'.weightOf t = s.weightOf t := by
  rw [weightOf, weightOf, weight, weight, h]

theorem sliceOf_of_priority (h : (s'.tasks t).priority = (s.tasks t).priority)
    (S : UInt64) : s'.sliceOf S t = s.sliceOf S t := by
  have hweight : (s'.tasks t).weight = (s.tasks t).weight := weightOf_of_priority h
  rw [sliceOf, sliceOf, virtualSlice, virtualSlice, h, hweight]

theorem SameLoad.weightOf (h : SameLoad s s') (t : τ) : s'.weightOf t = s.weightOf t :=
  weightOf_of_priority (h t).1

theorem SameLoad.vruntimeOf (h : SameLoad s s') (t : τ) : s'.vruntimeOf t = s.vruntimeOf t := by
  rw [EEVDFScheduler.vruntimeOf, EEVDFScheduler.vruntimeOf, (h t).2]

theorem SameLoad.meanOf (h : SameLoad s s') (l : List τ) : s'.meanOf l = s.meanOf l :=
  mean_congr (fun t _ => h.weightOf t) fun t _ => h.vruntimeOf t

theorem meanOf_perm {l l' : List τ} (h : l.Perm l') (s : EEVDFScheduler τ) :
    s.meanOf l = s.meanOf l' :=
  mean_perm h

/-- The virtual time follows the mean of the tasks that are queued or current. -/
theorem Sums.virtualTime (hs : Sums s) :
    s.updateVirtualTime.virtualTime.toNat = max s.virtualTime.toNat (s.meanOf s.fairTasks) :=
  virtualTime_eq_reference hs

theorem fairTasks_idle (h : s.current = none) : s.fairTasks = s.linked := by
  rw [fairTasks, h]
  exact append_nil _

theorem fairTasks_running (h : s.current = some t) (hrt : (s.tasks t).isRt = false) :
    s.fairTasks = s.linked ++ [t] := by
  rw [fairTasks, h]
  simp [Option.filter, hrt]

theorem linked_of_queues (h : s'.queues = s.queues) : s'.linked = s.linked :=
  congrArg₂ (· ++ ·) (congrArg Queues.normalEligible h) (congrArg Queues.normalIneligible h)

theorem linked_refreshed_perm (s : EEVDFScheduler τ) : s.refreshed.linked.Perm s.linked := by
  have hperm := (refreshed_spec s).perm
  rwa [linked_of_queues (frame_updateVirtualTime s).queues] at hperm

variable {task : EEVDFTask}

theorem accountRuntime_normal (hrun : task.running = true)
    (hrt : task.isRt = false) (now : UInt64) :
    task.accountRuntime now false = { task with
      execStart := now
      running := false
      vruntime := addU64 task.vruntime (calcDeltaFair (subU64 now task.execStart) task.weight) } := by
  have hrt' : ({ task with execStart := now, running := false } : EEVDFTask).isRt = false := hrt
  unfold accountRuntime
  simp only [hrun, hrt', Bool.not_true, Bool.false_eq_true, if_false]
  rfl

theorem virtualSlice_pos (S : UInt64) (task : EEVDFTask) : 0 < (task.virtualSlice S).toNat := by
  unfold virtualSlice normalVirtualSlice
  dsimp only
  split
  · split
    · decide
    · rename_i hne
      rw [← UInt64.toNat_inj] at hne
      exact Nat.pos_of_ne_zero hne
  · rw [UInt64.toNat_max]
    exact lt_of_lt_of_le (by decide) (le_max_right _ _)

theorem deadline_ne_zero (S vruntime : UInt64) (task : EEVDFTask) :
    addU64 vruntime (task.virtualSlice S) ≠ 0 := by
  have hpos := virtualSlice_pos S task
  rw [Ne, ← UInt64.toNat_inj, toNat_addU64, UInt64.toNat_zero]
  omega

theorem refreshDeadline_request (S : UInt64) (force : Bool)
    (h : task.deadline ≠ 0) : (task.refreshDeadline S force).deadline ≠ 0 := by
  unfold refreshDeadline
  split
  · exact deadline_ne_zero S _ _
  · exact h

theorem refreshDeadline_vruntime (S : UInt64) (force : Bool) (task : EEVDFTask) :
    (task.refreshDeadline S force).vruntime = task.vruntime := by
  unfold refreshDeadline
  split <;> rfl

end

variable {s : EEVDFScheduler τ} {t : τ} {S now : UInt64}

/-- What `insert_normal` leaves: the virtual time follows the mean of the other tasks first, then
that of all. -/
structure Inserted (s s' : EEVDFScheduler τ) (t : τ) : Prop where
  load : SameLoad s s'
  deadline : ∀ u, (s'.tasks u).deadline = (s.tasks u).deadline
  others : ∀ u, u ≠ t → s'.tasks u = s.tasks u
  current : s'.current = s.current
  time : s'.virtualTime.toNat =
    max (max s.virtualTime.toNat (s.meanOf s.linked)) (s.meanOf (t :: s.linked))

theorem Books.inserted (hb : Books s) (ht : Outside s t) (hcur : s.current = none)
    (hfew : s.linked.length + 1 < TASK_LIMIT) : Inserted s (s.insertNormal t) t := by
  have htime₁ := hb.sums.virtualTime
  rw [fairTasks_idle hcur, ← virtualTime_refreshed] at htime₁
  have hb₁ := hb.refreshed
  have ht₁ : Outside s.refreshed t := ht.of (queued_refreshed s t).mp (by rw [tasks_refreshed])
    (by rw [tasks_refreshed]) (current_refreshed s)
  have htasks₁ := tasks_refreshed s
  have hperm₁ := linked_refreshed_perm s
  have hcur₁ := (current_refreshed s).trans hcur
  unfold EEVDFScheduler.insertNormal
  dsimp only
  generalize s.refreshed = s₁ at htime₁ hb₁ ht₁ htasks₁ hperm₁ hcur₁ ⊢
  -- the queue number
  generalize hs₂ : ({ s₁ with sequence := nextSequence s₁.sequence }).modifyTask t
    (fun task => { task with queueId := nextSequence s₁.sequence }) = s₂
  have hself : s₂.tasks t = { s₁.tasks t with queueId := nextSequence s₁.sequence } := by
    rw [← hs₂, tasks_modifyTask]
  have hother : ∀ u, u ≠ t → s₂.tasks u = s₁.tasks u := fun u hu => by
    rw [← hs₂, tasks_modifyTask_of_ne _ hu]
  have hload : SameLoad s₁ s₂ := fun u => by
    by_cases hu : u = t
    · rw [hu, hself]
      exact ⟨rfl, rfl⟩
    · rw [hother u hu]
      exact ⟨rfl, rfl⟩
  have hframe : Frame s₁ s₂ := by
    have hseq : Frame s₁ { s₁ with sequence := nextSequence s₁.sequence } :=
      ⟨rfl, UInt64.le_refl _, fun _ _ => .refl _, id⟩
    rw [← hs₂]
    exact hseq.trans (frame_modifyTask (fun hq => absurd hq ht₁.notQueued) fun _ h => h)
  have hcur₂ : s₂.current = none := by
    rw [← hs₂]
    exact hcur₁
  have htime₂ : s₂.virtualTime = s₁.virtualTime := by
    rw [← hs₂]
    rfl
  have hlinked₂ := linked_of_queues hframe.queues
  have ht₂ : Outside s₂ t := ht₁.of (queued_of_queues hframe.queues t).mp (hload t).1
    (by rw [hself]) (hcur₂.trans hcur₁.symm)
  have hb₂ := (hb₁.frame hframe).linkNormal ht₂ (by rw [hlinked₂, hperm₁.length_eq]; exact hfew)
  -- the task is linked
  have hperm₃ := linkNormal_perm s₂ t
  have htasks₃ : (s₂.linkNormal t).tasks = s₂.tasks := by rw [linkNormal_others]
  have hcur₃ : (s₂.linkNormal t).current = none := by
    rw [linkNormal_others]
    exact hcur₂
  have htime₃ : (s₂.linkNormal t).virtualTime = s₂.virtualTime := by rw [linkNormal_others]
  generalize s₂.linkNormal t = s₃ at hb₂ hperm₃ htasks₃ hcur₃ htime₃ ⊢
  have hsame : SameLoad s s₃ := ((SameLoad.of_tasks htasks₁).trans hload).trans (.of_tasks htasks₃)
  have htasks : s₃.refreshed.tasks = s₂.tasks := (tasks_refreshed s₃).trans htasks₃
  have htime := hb₂.sums.virtualTime
  rw [fairTasks_idle hcur₃, ← virtualTime_refreshed, hsame.meanOf, htime₃, htime₂, htime₁,
    meanOf_perm (hperm₃.trans ((hlinked₂ ▸ hperm₁).cons t))] at htime
  refine ⟨hsame.trans (.of_tasks (tasks_refreshed s₃)), fun u => ?_, fun u hu => ?_, ?_, htime⟩
  · dsimp only
    rw [htasks, ← htasks₁]
    by_cases hu : u = t
    · rw [hu, hself]
    · rw [hother u hu]
  · dsimp only
    rw [htasks, hother u hu, htasks₁]
  · exact (current_refreshed s₃).trans (hcur₃.trans hcur.symm)

/-- What `enqueue_at` has done to the current task, when it is preempted, before it is inserted. -/
structure Preempted (S : UInt64) (s s' : EEVDFScheduler τ) (t : τ) (now : UInt64) : Prop where
  others : ∀ u, u ≠ t → s'.tasks u = s.tasks u
  priority : (s'.tasks t).priority = (s.tasks t).priority
  charged : (s'.tasks t).vruntime = addU64 (s.tasks t).vruntime
    (calcDeltaFair (subU64 now (s.tasks t).execStart) (s.tasks t).weight)
  request : (s.tasks t).deadline ≠ 0 → (s'.tasks t).deadline ≠ 0
  queues : s'.queues = s.queues
  current : s'.current = none
  time : s'.virtualTime.toNat = max s.virtualTime.toNat (s'.meanOf (t :: s.linked))

theorem stopTask_current (hcur : s.current = some t)
    (hrt : ((s.modifyTask t (accountRuntime now false)).tasks t).isRt = false) :
    s.stopTask S t now = { ((s.modifyTask t (accountRuntime now false)).updateVirtualTime
      |>.saveLag S t) with current := none } := by
  unfold stopTask
  simp only [hcur, decide_true, Bool.not_true, Bool.false_and, Bool.false_eq_true, if_false, hrt,
    if_true]

theorem Books.preempted (hb : Books s) (hcur : s.current = some t)
    (hrt : (s.tasks t).isRt = false) (S now : UInt64) :
    Preempted S s (s.prepareNormal S t .preempt now) t now := by
  have hnot := hb.not_queued (.inl hcur)
  have haccount := accountRuntime_normal (hb.current t hcur) hrt now
  -- charged, still current
  generalize hc : s.modifyTask t (accountRuntime now false) = c
  have hself : c.tasks t = (s.tasks t).accountRuntime now false := by rw [← hc, tasks_modifyTask]
  have hother : ∀ u, u ≠ t → c.tasks u = s.tasks u := fun u hu => by
    rw [← hc, tasks_modifyTask_of_ne s hu]
  have hprio : (c.tasks t).priority = (s.tasks t).priority := by rw [hself, haccount]
  have hrtc : (c.tasks t).isRt = false := by
    rw [isRt, hprio]
    exact hrt
  have hlinked : c.linked = s.linked := by
    rw [← hc]
    rfl
  have hcurc : c.current = some t := by
    rw [← hc]
    exact hcur
  have hoff : ∀ u ∈ s.linked, c.tasks u = s.tasks u := fun u hu => by
    refine hother u ?_
    rintro rfl
    exact hnot (.inr hu)
  have hsums : Sums c := by
    have hold := hb.sums
    refine ⟨by rw [hlinked]; exact hold.few, ?_, ?_⟩
    · rw [hlinked, show c.normalTotalWeight = s.normalTotalWeight by rw [← hc]; rfl,
        hold.totalWeight]
      exact total_congr fun u hu => by rw [hoff u hu]
    · rw [hlinked, show c.normalWeightedVruntime = s.normalWeightedVruntime by rw [← hc]; rfl,
        hold.weightedVruntime]
      exact weighted_congr (fun u hu => by rw [hoff u hu]) fun u hu => by rw [hoff u hu]
  have htime := hsums.virtualTime
  rw [fairTasks_running hcurc hrtc, hlinked, meanOf_perm (perm_append_singleton t _),
    show c.virtualTime = s.virtualTime by rw [← hc]; rfl] at htime
  -- stopped, with its request refreshed
  have hstop : s.prepareNormal S t .preempt now =
      ({ (c.updateVirtualTime.saveLag S t) with current := none } : EEVDFScheduler τ).modifyTask t
        (refreshDeadline S false) := by
    rw [← hc, ← stopTask_current hcur (by rw [hc]; exact hrtc)]
    unfold EEVDFScheduler.prepareNormal
    simp only [reduceCtorEq, or_self, false_and, if_false]
  generalize s.prepareNormal S t .preempt now = s' at hstop ⊢
  obtain ⟨vt, htask⟩ : ∃ vt, s'.tasks t = ((c.tasks t).saveLag S vt).refreshDeadline S false := by
    refine ⟨c.updateVirtualTime.virtualTime, ?_⟩
    rw [hstop, tasks_modifyTask]
    rw [EEVDFScheduler.saveLag, tasks_modifyTask, tasks_updateVirtualTime]
  have hkey := sameKey_saveLag S vt (c.tasks t)
  have hothers : ∀ u, u ≠ t → s'.tasks u = c.tasks u := fun u hu => by
    rw [hstop, tasks_modifyTask_of_ne _ hu]
    rw [EEVDFScheduler.saveLag, tasks_modifyTask_of_ne _ hu, tasks_updateVirtualTime]
  have hpriority : (s'.tasks t).priority = (c.tasks t).priority := by
    rw [htask, (refreshDeadline_running S false _).2, hkey.priority]
  have hvruntime : (s'.tasks t).vruntime = (c.tasks t).vruntime := by
    rw [htask, refreshDeadline_vruntime, hkey.vruntime]
  have hload : SameLoad c s' := fun u => by
    by_cases hu : u = t
    · rw [hu]
      exact ⟨hpriority, hvruntime⟩
    · rw [hothers u hu]
      exact ⟨rfl, rfl⟩
  constructor
  · exact fun u hu => (hothers u hu).trans (hother u hu)
  · exact hpriority.trans hprio
  · rw [hvruntime, hself, haccount]
  · intro hreq
    rw [htask]
    refine refreshDeadline_request S false ?_
    rw [hkey.deadline, hself, haccount]
    exact hreq
  · rw [hstop]
    refine (frame_updateVirtualTime c).queues.trans ?_
    rw [← hc]
    rfl
  · rw [hstop]
    rfl
  · rw [hload.meanOf, ← htime, hstop]
    rfl

/-! ## What a step does -/

/-- Every task is known to the scheduler, and queued unless it is out. -/
structure Valid (l : List τ) (p : Processor τ) : Prop where
  kept : Kept p.sched
  normal : ∀ t ∈ l, (p.sched.tasks t).isRt = false
  request : ∀ t ∈ l, (p.sched.tasks t).deadline ≠ 0
  queued : ∀ u, Queued p.sched u ↔ u ∈ l ∧ p.phase.out ≠ some u
  out : ∀ t, p.phase.out = some t → t ∈ l
  current : p.sched.current = p.phase.current

/-- The virtual run time a task has earned since it was started. -/
def EEVDFScheduler.chargeOf (s : EEVDFScheduler τ) (t : τ) (now : UInt64) : Nat :=
  (now.toNat - (s.tasks t).execStart.toNat) * NICE_0_WEIGHT / s.weightOf t

inductive Move (S : UInt64) (l : List τ) (p : Processor τ) : Round → Processor τ → Prop
  | pick {now : UInt64} {p' : Processor τ} {t : τ} :
      p.phase = .idle → p'.phase = .picked t → SameLoad p.sched p'.sched →
      p'.sched.virtualTime.toNat = max p.sched.virtualTime.toNat (p.sched.meanOf l) →
      p.sched.vruntimeOf t ≤ p'.sched.virtualTime.toNat → Move S l p (.pickNextAt now) p'
  | start {now : UInt64} {p' : Processor τ} {t : τ} :
      p.phase = .picked t → p'.phase = .running t → SameLoad p.sched p'.sched →
      p'.sched.virtualTime = p.sched.virtualTime → Move S l p (.onTaskStart now) p'
  | preempt {now : UInt64} {p' : Processor τ} {t : τ} : p.phase = .running t → p'.phase = .idle →
      (∀ u, (p'.sched.tasks u).priority = (p.sched.tasks u).priority) →
      (∀ u, u ≠ t → p'.sched.vruntimeOf u = p.sched.vruntimeOf u) →
      p'.sched.vruntimeOf t =
        min (p.sched.vruntimeOf t + p.sched.chargeOf t now) 0xFFFFFFFFFFFFFFFF →
      now.toNat ≤ (p.sched.tasks t).execStart.toNat + S.toNat →
      p'.sched.virtualTime.toNat = max (max p.sched.virtualTime.toNat (p'.sched.meanOf l))
        (p.sched.meanOf p.sched.linked) →
      Move S l p (.preempt now) p'

section
omit [DecidableEq τ]
variable {l : List τ} {p : Processor τ}

theorem Valid.mem_linked (hv : Valid l p) (u : τ) :
    u ∈ p.sched.linked ↔ u ∈ l ∧ p.phase.out ≠ some u := by
  rw [← hv.queued]
  refine ⟨.inr, fun hq => hq.resolve_left ?_⟩
  rintro ⟨i, hi⟩
  have hrt := (hv.kept.books.rt i u hi).1
  rw [hv.normal u ((hv.queued u).mp hq).1] at hrt
  cases hrt

theorem Valid.perm_idle (hv : Valid l p) (hl : l.Nodup) (h : p.phase = .idle) :
    p.sched.linked.Perm l := by
  rw [perm_ext_iff_of_nodup hv.kept.books.nodup hl]
  intro u
  rw [hv.mem_linked, h]
  exact and_iff_left (by simp [Phase.out])

theorem Valid.perm_out (hv : Valid l p) (hl : l.Nodup) {t : τ} (h : p.phase.out = some t) :
    (t :: p.sched.linked).Perm l := by
  have hmem := hv.mem_linked
  rw [h] at hmem
  have hnodup : (t :: p.sched.linked).Nodup :=
    nodup_cons.mpr ⟨fun ht => ((hmem t).mp ht).2 rfl, hv.kept.books.nodup⟩
  rw [perm_ext_iff_of_nodup hnodup hl]
  intro u
  rw [mem_cons, hmem]
  constructor
  · rintro (rfl | hu)
    · exact hv.out u h
    · exact hu.1
  · intro hu
    by_cases hut : u = t
    · exact .inl hut
    · exact .inr ⟨hu, by simpa using Ne.symm hut⟩

theorem pickNormal_same (s : EEVDFScheduler τ) :
    s.pickNormal.1.tasks = s.tasks ∧ s.pickNormal.1.current = s.current := by
  have htasks := tasks_refreshed s
  have hcurrent := current_refreshed s
  unfold pickNormal pickNormalFromEligible
  dsimp only
  generalize s.refreshed = r at htasks hcurrent ⊢
  cases r.normalEligible with
  | cons t rest => exact ⟨htasks, hcurrent⟩
  | nil =>
    dsimp only
    unfold pickNormalFromIneligible noteNormalIneligibleRemove
    cases r.normalIneligible with
    | nil => exact ⟨htasks, hcurrent⟩
    | cons t rest =>
      dsimp only
      split
      · exact ⟨htasks, hcurrent⟩
      · exact ⟨htasks, hcurrent⟩

theorem pickNextAt_same (s : EEVDFScheduler τ) (now : UInt64) :
    (s.pickNextAt now).1.tasks = s.tasks ∧ (s.pickNextAt now).1.current = s.current := by
  unfold pickNextAt pickAt
  dsimp only
  split
  · unfold pickRt clearRtBit
    dsimp only
    split
    · exact ⟨rfl, rfl⟩
    · exact ⟨rfl, rfl⟩
  · exact pickNormal_same (s.advanceClock now)

end

section
variable {l : List τ} {p p' : Processor τ}

theorem Valid.pick (hv : Valid l p) (hl : l.Nodup) (hp : p.phase = .idle)
    {sched : EEVDFScheduler τ} (h : p.sched.pickNextAt now = (sched, some t)) :
    Valid l ⟨sched, .picked t⟩ ∧ Move S l p (.pickNextAt now) ⟨sched, .picked t⟩ := by
  have hleaves : Leaves p.sched sched t := by
    have hhanded := hv.kept.pickAt now
    rw [show p.sched.pickAt now = (sched, some t) from h] at hhanded
    exact hhanded
  obtain ⟨htasks, hcurrent⟩ := pickNextAt_same p.sched now
  rw [h] at htasks hcurrent
  have href := hv.kept.referencePick now
  have hperm := hv.perm_idle hl hp
  have hidle : p.sched.current = none := by
    rw [hv.current, hp]
    rfl
  have hnormal : ∀ u, Queued p.sched u → (p.sched.tasks u).isRt = false :=
    fun u hu => hv.normal u ((hv.queued u).mp hu).1
  have htime : sched.virtualTime.toNat = max p.sched.virtualTime.toNat (p.sched.meanOf l) := by
    have href := href.time hnormal
    rw [h] at href
    rw [← meanOf_perm hperm, ← fairTasks_idle hidle]
    exact href
  have hmem : ∀ u, Queued p.sched u ↔ u ∈ l := fun u => by
    rw [hv.queued, hp]
    exact and_iff_left (by simp [Phase.out])
  have hreftime : p.sched.referenceTime = sched.virtualTime.toNat := by
    have href := href.time hnormal
    rw [h] at href
    exact href.symm
  refine ⟨⟨hleaves.kept, ?_, ?_, ?_, ?_, ?_⟩, .pick hp rfl (.of_tasks htasks) htime ?_⟩
  · dsimp only at htasks ⊢
    rw [htasks]
    exact hv.normal
  · dsimp only at htasks ⊢
    rw [htasks]
    exact hv.request
  · intro u
    rw [hleaves.queued, hmem]
    exact and_congr_right fun _ => by simp [Phase.out, eq_comm]
  · rintro u hu
    cases hu
    exact (hmem t).mp hleaves.wasQueued
  · dsimp only at hcurrent ⊢
    rw [hcurrent, hidle]
    rfl
  · -- some task is not ahead of the mean
    have hpos : 0 < total p.sched.weightOf l := by
      have ht := (hmem t).mp hleaves.wasQueued
      rw [total_perm (perm_cons_erase ht), total_cons]
      exact Nat.add_pos_left (weightForPriority_bounds _).1 _
    obtain ⟨u, hu, hle⟩ := exists_le_mean (v := p.sched.vruntimeOf) hpos
    have hleast := href.eligible t (by rw [h]) hnormal ⟨u, (hmem u).mpr hu, by
      rw [hreftime, htime]
      exact hle.trans (le_max_right _ _)⟩
    rw [hreftime] at hleast
    exact hleast.1.2

theorem onTaskStart_request (h : (s.tasks t).deadline ≠ 0) (S now : UInt64) :
    s.onTaskStart S t now = (s.advanceClock now).startRunning t now := by
  have hne : ((s.advanceClock now).tasks t).deadline ≠ 0 := h
  unfold onTaskStart
  simp only [beq_eq_false_iff_ne.mpr hne, Bool.and_false, Bool.false_eq_true, if_false]

theorem Valid.start (hv : Valid l p) (hp : p.phase = .picked t) :
    Valid l ⟨p.sched.onTaskStart S t now, .running t⟩ ∧
      Move S l p (.onTaskStart now) ⟨p.sched.onTaskStart S t now, .running t⟩ := by
  have hnot : ¬ Queued p.sched t := fun hq => ((hv.queued t).mp hq).2 (by rw [hp]; rfl)
  have hframe := frame_onTaskStart hnot S now
  have hstart := onTaskStart_request (hv.request t (hv.out t (by rw [hp]; rfl))) S now
  have hsame : ∀ u, SameKey (p.sched.tasks u)
      { (p.sched.onTaskStart S t now).tasks u with running := (p.sched.tasks u).running } := by
    intro u
    rw [hstart]
    unfold EEVDFScheduler.startRunning
    by_cases hu : u = t
    · rw [hu, tasks_modifyTask]
      exact ⟨rfl, rfl, rfl, rfl, rfl⟩
    · rw [tasks_modifyTask_of_ne _ hu]
      exact ⟨rfl, rfl, rfl, rfl, rfl⟩
  refine ⟨⟨hv.kept.frame hframe, fun u hu => ?_, fun u hu => ?_, fun u => ?_, fun u hu => ?_, ?_⟩,
    .start hp rfl (fun u => ⟨(hsame u).priority, (hsame u).vruntime⟩) ?_⟩
  · rw [← hv.normal u hu]
    exact (hsame u).isRt
  · have hdeadline := (hsame u).deadline
    rw [hdeadline]
    exact hv.request u hu
  · rw [queued_of_queues hframe.queues, hv.queued, hp]
    rfl
  · exact hv.out u (by rw [hp]; exact hu)
  · rw [hstart]
    rfl
  · rw [hstart]
    rfl

omit [DecidableEq τ] in
theorem toNat_charge (s : EEVDFScheduler τ) (t : τ) (now : UInt64) : (addU64 (s.tasks t).vruntime
      (calcDeltaFair (subU64 now (s.tasks t).execStart) (s.tasks t).weight)).toNat =
      min (s.vruntimeOf t + s.chargeOf t now) 0xFFFFFFFFFFFFFFFF := by
  have hpos : 1 ≤ (s.tasks t).weight := (weightForPriority_bounds _).1
  rw [toNat_addU64, calcDeltaFair, toNat_sat64, toNat_subU64, max_eq_left hpos]
  unfold chargeOf vruntimeOf weightOf
  omega

theorem Kept.enqueue_inserted (hk : Kept s) {reason : EnqueueReason} (hnot : ¬ Queued s t)
    (hrt : (s.tasks t).isRt = false) (hok : Enterable s t reason)
    (hroom : s.linked.length + 1 < TASK_LIMIT)
    (hidle : ((s.advanceClock now).prepareNormal S t reason now).current = none) :
    Inserted ((s.advanceClock now).prepareNormal S t reason now) (s.enqueue S t reason now) t := by
  have hclock := frame_advanceClock s now
  have hstop := (hk.frame hclock).books.prepareNormal (hclock.not_queued hnot) hrt hok S now
  have henqueue : s.enqueue S t reason now =
      ((s.advanceClock now).prepareNormal S t reason now).insertNormal t := by
    unfold EEVDFScheduler.enqueue EEVDFScheduler.enqueueAt
    dsimp only
    rw [if_neg (by rw [show ((s.advanceClock now).tasks t).isRt = false from hrt]; simp)]
  rw [henqueue]
  have hlinked := linked_of_queues hstop.frame.queues
  refine ((hk.frame hclock).books.frame hstop.frame).inserted
    ⟨hstop.frame.not_queued (hclock.not_queued hnot), ?_, hstop.running, hstop.current⟩ hidle ?_
  · rw [isRt, hstop.priority]
    exact hrt
  · rw [hlinked]
    exact hroom

theorem Valid.preempt (hv : Valid l p) (hl : l.Nodup) (hfew : l.length < TASK_LIMIT)
    (hp : p.phase = .running t) (hnow : now.toNat ≤ (p.sched.tasks t).execStart.toNat + S.toNat) :
    Valid l ⟨p.sched.enqueue S t .preempt now, .idle⟩ ∧
      Move S l p (.preempt now) ⟨p.sched.enqueue S t .preempt now, .idle⟩ := by
  have hout : p.phase.out = some t := by
    rw [hp]
    rfl
  have hcur : p.sched.current = some t := by
    rw [hv.current, hp]
    rfl
  have hrt := hv.normal t (hv.out t hout)
  have hnot := hv.kept.books.not_queued (.inl hcur)
  have hperm := hv.perm_out hl hout
  have hroom : p.sched.linked.length + 1 < TASK_LIMIT := by
    rw [← length_cons, hperm.length_eq]
    exact hfew
  have hok : Enterable p.sched t .preempt := .inr (.inl rfl)
  have henters : Enters p.sched (p.sched.enqueue S t .preempt now) t :=
    hv.kept.enqueueAt hnot hok hroom S now
  have hprep := ((frame_advanceClock p.sched now).stays hv.kept).kept.books.preempted hcur hrt S now
  have hins := hv.kept.enqueue_inserted hnot hrt hok hroom hprep.current
  generalize (p.sched.advanceClock now).prepareNormal S t .preempt now = q at hprep hins
  generalize p.sched.enqueue S t .preempt now = f at henters hins ⊢
  have hothers : ∀ u, u ≠ t → f.tasks u = p.sched.tasks u :=
    fun u hu => (hins.others u hu).trans (hprep.others u hu)
  have hpriority : ∀ u, (f.tasks u).priority = (p.sched.tasks u).priority := fun u => by
    by_cases hu : u = t
    · rw [(hins.load u).1, hu, hprep.priority]
      rfl
    · rw [hothers u hu]
  refine ⟨⟨henters.kept, fun u hu => ?_, fun u hu => ?_, fun u => ?_, (fun _ h => by cases h), ?_⟩,
    .preempt hp rfl hpriority (fun u hu => ?_) ?_ hnow ?_⟩
  · rw [← hv.normal u hu, isRt, isRt, hpriority]
  · by_cases hut : u = t
    · rw [hins.deadline, hut]
      exact hprep.request (hv.request t (hv.out t hout))
    · rw [hothers u hut]
      exact hv.request u hu
  · rw [henters.queued, hv.queued, hout]
    constructor
    · rintro (hu | rfl)
      · exact ⟨hu.1, fun h => by cases h⟩
      · exact ⟨hv.out u hout, fun h => by cases h⟩
    · rintro ⟨hu, -⟩
      by_cases hut : u = t
      · exact .inr hut
      · exact .inl ⟨hu, by simpa using Ne.symm hut⟩
  · exact hins.current.trans hprep.current
  · rw [vruntimeOf, vruntimeOf, hothers u hu]
  · rw [← toNat_charge, vruntimeOf, (hins.load t).2, hprep.charged]
    rfl
  · -- the mean of the others is not touched by the charge
    have hlinked : q.linked = p.sched.linked := linked_of_queues hprep.queues
    have hmean : q.meanOf p.sched.linked = p.sched.meanOf p.sched.linked := by
      have hsame : ∀ u ∈ p.sched.linked, q.tasks u = p.sched.tasks u := fun u hu => by
        refine hprep.others u ?_
        rintro rfl
        exact hnot (.inr hu)
      exact mean_congr (fun u hu => by rw [weightOf, weightOf, hsame u hu])
        fun u hu => by rw [vruntimeOf, vruntimeOf, hsame u hu]
    have htime := hins.time
    have hstop : q.virtualTime.toNat =
        max p.sched.virtualTime.toNat (q.meanOf (t :: p.sched.linked)) := hprep.time
    rw [hlinked, hmean, hstop, meanOf_perm hperm] at htime
    rw [htime, hins.load.meanOf]
    omega

/-- **One lemma for every step.** -/
theorem exec_move (hl : l.Nodup) (hfew : l.length < TASK_LIMIT) (hv : Valid l p) {a : Round}
    (h : Processor.exec S p a = some p') : Valid l p' ∧ Move S l p a p' := by
  unfold Processor.exec at h
  split at h
  · split at h
    · rename_i hp
      split at h
      · rename_i hpick
        cases h
        exact hv.pick hl hp hpick
      · cases h
    · cases h
  · split at h
    · rename_i hp
      cases h
      exact hv.start hp
    · cases h
  · split at h
    · rename_i hp
      dsimp only at h
      split at h
      · rename_i hnow
        cases h
        exact hv.preempt hl hfew hp hnow.2
      · cases h
    · cases h

/-! ## Spawning -/

/-- The tasks `done` were spawned, at virtual time `0`; the others are as they were. -/
structure Spawned (tasks : τ → EEVDFTask) (done : List τ) (s : EEVDFScheduler τ) : Prop where
  kept : Kept s
  current : s.current = none
  time : s.virtualTime = 0
  queued : ∀ u, Queued s u ↔ u ∈ done
  entered : ∀ u ∈ done, (s.tasks u).isRt = false ∧ (s.tasks u).vruntime = 0 ∧
    (s.tasks u).deadline ≠ 0
  waiting : ∀ u, u ∉ done → s.tasks u = tasks u

omit [DecidableEq τ] in
theorem place_spawn (S virtualTime : UInt64) (task : EEVDFTask) :
    task.place S virtualTime .spawn = { task with
      vruntime := virtualTime
      deadline := addU64 virtualTime (task.virtualSlice S) } := by
  have hlimit : 0 ≤ task.lagLimit S := by
    unfold lagLimit I64_MAX
    omega
  have happly : applyLag virtualTime (clamp (-task.lagLimit S) (task.lagLimit S) 0) =
      virtualTime := by
    rw [clamp_of_mem (by omega) hlimit]
    simp [applyLag]
  unfold place
  simp only [reduceCtorEq, or_self, false_and, if_false, happly]

variable {tasks : τ → EEVDFTask} {done : List τ}

theorem Spawned.spawn (hs : Spawned tasks done s)
    (hnot : t ∉ done) (ht : (tasks t).running = false ∧ (tasks t).isRt = false)
    (hfew : done.length + 1 < TASK_LIMIT) (S now : UInt64) :
    Spawned tasks (t :: done) (s.enqueue S t .spawn now) := by
  have htask := hs.waiting t hnot
  have hqueued : ¬ Queued s t := fun hq => hnot ((hs.queued t).mp hq)
  have hrt : (s.tasks t).isRt = false := by
    rw [htask]
    exact ht.2
  have hroom : s.linked.length + 1 < TASK_LIMIT := by
    have hsub : s.linked ⊆ done := fun u hu => (hs.queued u).mp (.inr hu)
    have hle := (hs.kept.books.nodup.subperm hsub).length_le
    omega
  have hok : Enterable s t .spawn := .inr (.inr (.inr (.inl (by rw [htask]; exact ht.1))))
  have henters : Enters s (s.enqueue S t .spawn now) t := hs.kept.enqueueAt hqueued hok hroom S now
  -- the mean of tasks at `0` is `0`
  have hzero : ∀ u ∈ s.linked, s.vruntimeOf u = 0 := fun u hu => by
    rw [vruntimeOf, (hs.entered u ((hs.queued u).mp (.inr hu))).2.1]
    rfl
  have htime : (s.advanceClock now).updateVirtualTime.virtualTime = 0 := by
    have hmean : s.meanOf s.linked = 0 := mean_zero hzero
    have hclock := (hs.kept.frame (frame_advanceClock s now)).books.sums.virtualTime
    rw [fairTasks_idle (show (s.advanceClock now).current = none from hs.current),
      show (s.advanceClock now).virtualTime = 0 from hs.time] at hclock
    rw [← UInt64.toNat_inj, hclock]
    exact max_eq_left hmean.le
  have hprep : (s.advanceClock now).prepareNormal S t .spawn now =
      (s.advanceClock now).updateVirtualTime.modifyTask t (place S 0 .spawn) := by
    unfold EEVDFScheduler.prepareNormal placeTask
    simp only [reduceCtorEq, or_self, false_and, if_false, htime]
  have hcurrent : ((s.advanceClock now).prepareNormal S t .spawn now).current = none := by
    rw [hprep]
    exact (current_updateVirtualTime _).trans hs.current
  have hins := hs.kept.enqueue_inserted hqueued hrt hok hroom hcurrent
  generalize (s.advanceClock now).prepareNormal S t .spawn now = q at hprep hins hcurrent
  have hself : q.tasks t = { s.tasks t with
      vruntime := 0
      deadline := addU64 0 ((s.tasks t).virtualSlice S) } := by
    rw [hprep, tasks_modifyTask, tasks_updateVirtualTime, place_spawn]
    rfl
  have hother : ∀ u, u ≠ t → q.tasks u = s.tasks u := fun u hu => by
    rw [hprep, tasks_modifyTask_of_ne _ hu, tasks_updateVirtualTime]
    rfl
  generalize s.enqueue S t .spawn now = f at henters hins ⊢
  have hlinked : q.linked = s.linked := by
    rw [hprep]
    exact linked_of_queues (frame_updateVirtualTime (s.advanceClock now)).queues
  refine ⟨henters.kept, hins.current.trans hcurrent, ?_, fun u => ?_, fun u hu => ?_, fun u hu => ?_⟩
  · have hq : ∀ u ∈ t :: s.linked, q.vruntimeOf u = 0 := fun u hu => by
      by_cases hut : u = t
      · rw [vruntimeOf, hut, hself]
        rfl
      · rw [vruntimeOf, hother u hut]
        exact hzero u ((mem_cons.mp hu).resolve_left hut)
    have hstart : q.virtualTime = 0 := by
      rw [hprep]
      exact htime
    rw [← UInt64.toNat_inj, hins.time, hlinked, hstart,
      show q.meanOf (t :: s.linked) = 0 from mean_zero hq,
      show q.meanOf s.linked = 0 from mean_zero fun u hu => hq u (mem_cons_of_mem _ hu)]
    rfl
  · rw [henters.queued, hs.queued, mem_cons]
    exact or_comm
  · by_cases hut : u = t
    · rw [isRt, (hins.load u).1, (hins.load u).2, hins.deadline, hut, hself]
      exact ⟨hrt, rfl, deadline_ne_zero S _ _⟩
    · rw [hins.others u hut, hother u hut]
      exact hs.entered u ((mem_cons.mp hu).resolve_left hut)
  · rw [mem_cons, not_or] at hu
    rw [hins.others u hu.1, hother u hu.1, hs.waiting u hu.2]

theorem Spawned.spawnAll (hs : Spawned tasks done s) (hl : l.Nodup) (hdisjoint : ∀ t ∈ l, t ∉ done)
    (ht : ∀ t ∈ l, (tasks t).running = false ∧ (tasks t).isRt = false)
    (hfew : done.length + l.length < TASK_LIMIT) (S now : UInt64) :
    Spawned tasks (l.reverse ++ done) (spawnAll S now l s) := by
  induction l generalizing s done with
  | nil => exact hs
  | cons t l ih =>
    rw [length_cons] at hfew
    rw [nodup_cons] at hl
    have hnext := hs.spawn (hdisjoint t mem_cons_self) (ht t mem_cons_self) (by omega) S now
    rw [reverse_cons, append_assoc, singleton_append]
    refine ih hnext hl.2 (fun u hu => ?_) (fun u hu => ht u (mem_cons_of_mem _ hu)) ?_
    · rw [mem_cons, not_or]
      refine ⟨?_, hdisjoint u (mem_cons_of_mem _ hu)⟩
      rintro rfl
      exact hl.1 hu
    · rw [length_cons]
      omega

/-- The tasks start level. -/
theorem Processor.Initial.level (hi : Processor.Initial S l p) (hl : l.Nodup)
    (hfew : l.length < TASK_LIMIT) :
    Valid l p ∧ p.phase = .idle ∧ p.sched.virtualTime = 0 ∧ ∀ t ∈ l, p.sched.vruntimeOf t = 0 := by
  obtain ⟨tasks, now, ht, rfl⟩ := hi
  have hnew : Spawned tasks [] (new tasks) :=
    ⟨kept_new tasks, rfl, rfl, fun u => iff_of_false (not_queued_new tasks u) not_mem_nil,
      nofun, fun _ _ => rfl⟩
  have hall := hnew.spawnAll hl (fun _ _ => not_mem_nil) ht (by simpa using hfew) S now
  rw [append_nil] at hall
  have hmem : ∀ t ∈ l, t ∈ l.reverse := fun t => mem_reverse.mpr
  refine ⟨⟨hall.kept, fun t ht => (hall.entered t (hmem t ht)).1,
    fun t ht => (hall.entered t (hmem t ht)).2.2, fun u => ?_, nofun, hall.current⟩, rfl, hall.time,
    fun t ht => ?_⟩
  · rw [hall.queued, mem_reverse]
    exact (and_iff_left nofun).symm
  · rw [vruntimeOf, (hall.entered t (hmem t ht)).2.1]
    rfl

/-- **The induction over runs.** -/
theorem round_invariant {I : Processor τ → Prop} {ok : Processor τ → Round → Prop} (hl : l.Nodup)
    (hfew : l.length < TASK_LIMIT)
    (hr : Reachable (Processor.Initial S l) (Guarded ok (Processor.Step S)) p)
    (hinit : ∀ p, p.phase = .idle → p.sched.virtualTime = 0 →
      (∀ t ∈ l, p.sched.vruntimeOf t = 0) → I p)
    (hstep : ∀ p a p', Valid l p → I p → ok p a → Move S l p a p' → I p') : Valid l p ∧ I p := by
  refine hr.invariant (I := fun p => Valid l p ∧ I p) (fun p hi => ?_) fun p a p' hp hs => ?_
  · obtain ⟨hv, hidle, htime, hzero⟩ := hi.level hl hfew
    exact ⟨hv, hinit p hidle htime hzero⟩
  · obtain ⟨hv, hmove⟩ := exec_move hl hfew hp.1 hs.2
    exact ⟨hv, hstep p a p' hp.1 hp.2 hs.1 hmove⟩

end

end

end PulseOS.Sched
