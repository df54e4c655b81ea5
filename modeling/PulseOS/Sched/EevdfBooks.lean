import PulseOS.Sched.Eevdf

/-!
# The books of the scheduler

What holds of the lists, the trees and the sums kept beside them.

* `Books` — every queued task is linked in one place, the sums are the sums over the linked tasks,
  the trees are sorted, the eligible one holds eligible tasks only, the bound is below every
  deadline of the other, and no queued task runs.
* `Frame` — steps that touch no queued task; `Books.frame` says that they keep the books.
* `Books.stopTask`, `Books.prepareNormal` — a task that stops or is about to enter.
* `Promoted`, `Books.promote` — the trees after the virtual time has moved on.
-/

namespace PulseOS.Sched

open Saturating Function Ordered List

variable {τ : Type}

namespace EEVDFScheduler

variable (s : EEVDFScheduler τ)

def linked : List τ := s.normalEligible ++ s.normalIneligible

def Queued (t : τ) : Prop := (∃ i, t ∈ s.rtQueues i) ∨ t ∈ s.linked

def weights (l : List τ) : Nat := (l.map fun t => (s.tasks t).weight).sum

def weightedVruntimes (l : List τ) : Nat :=
  (l.map fun t => (s.tasks t).vruntime.toNat * (s.tasks t).weight).sum

end EEVDFScheduler

open EEVDFScheduler

/-- Below this many linked tasks the `u128` sums cannot saturate. -/
def TASK_LIMIT : Nat := 2 ^ 47

variable (s : EEVDFScheduler τ)

structure Trees : Prop where
  eligible : ∀ t ∈ s.normalEligible, (s.tasks t).vruntime ≤ s.virtualTime
  eligibleSorted : Sorted s.eligibleKey s.normalEligible
  ineligibleSorted : Sorted s.ineligibleKey s.normalIneligible
  boundNone : s.normalIneligibleDeadlineLowerBound = none ↔ s.normalIneligible = []
  bound : ∀ b, s.normalIneligibleDeadlineLowerBound = some b →
    ∀ t ∈ s.normalIneligible, b ≤ (s.tasks t).deadline

structure Books : Prop extends Trees s where
  rt : ∀ i, ∀ t ∈ s.rtQueues i, (s.tasks t).isRt = true ∧ (s.tasks t).rtIndex = i
  rtNodup : ∀ i, (s.rtQueues i).Nodup
  bitmap : ∀ i, s.rtBitmap.getLsbD i = true ↔ s.rtQueues i ≠ []
  normal : ∀ t ∈ s.linked, (s.tasks t).isRt = false
  nodup : s.linked.Nodup
  count : s.normalTaskCount = s.linked.length
  few : s.linked.length < TASK_LIMIT
  totalWeight : s.normalTotalWeight = s.weights s.linked
  weightedVruntime : s.normalWeightedVruntime = s.weightedVruntimes s.linked
  idle : ∀ t, Queued s t → (s.tasks t).running = false
  current : ∀ t, s.current = some t → (s.tasks t).running = true

/-- What a cached answer says: a positive one is about an eligible task, after a negative one no
task that could preempt becomes eligible before the threshold. -/
def CacheOk : Prop :=
  ∀ c, s.normalPreemptionCache = some c → if c.hasEligiblePreemption then
      ∃ t ∈ s.normalEligible, (s.tasks t).deadline < c.preemptionCurrentDeadline
    else
      ∀ t ∈ s.linked, (s.tasks t).deadline < c.preemptionCurrentDeadline →
        ∃ threshold, c.preemptionVruntime = some threshold ∧ threshold ≤ (s.tasks t).vruntime

/-! ## Steps that touch no queued task -/

/-- The fields of a task that the books read. -/
structure SameKey (a b : EEVDFTask) : Prop where
  priority : b.priority = a.priority
  vruntime : b.vruntime = a.vruntime
  deadline : b.deadline = a.deadline
  queueId : b.queueId = a.queueId
  running : b.running = a.running

theorem SameKey.refl (a : EEVDFTask) : SameKey a a := ⟨rfl, rfl, rfl, rfl, rfl⟩

theorem SameKey.trans {a b c : EEVDFTask} (h : SameKey a b) (h' : SameKey b c) : SameKey a c :=
  ⟨h'.priority.trans h.priority, h'.vruntime.trans h.vruntime, h'.deadline.trans h.deadline,
    h'.queueId.trans h.queueId, h'.running.trans h.running⟩

variable {s s' : EEVDFScheduler τ} {virtualTime : UInt64} {a b : EEVDFTask}

section
variable (h : SameKey a b)
include h

theorem SameKey.isRt : b.isRt = a.isRt := by
  rw [EEVDFTask.isRt, EEVDFTask.isRt, h.priority]

theorem SameKey.rtIndex : b.rtIndex = a.rtIndex := by
  rw [EEVDFTask.rtIndex, EEVDFTask.rtIndex, h.priority]

theorem SameKey.weight : b.weight = a.weight := by
  rw [EEVDFTask.weight, EEVDFTask.weight, h.priority]

theorem SameKey.eligibleKey : b.eligibleKey = a.eligibleKey := by
  rw [EEVDFTask.eligibleKey, EEVDFTask.eligibleKey, h.deadline, h.queueId]

theorem SameKey.ineligibleKey : b.ineligibleKey = a.ineligibleKey := by
  rw [EEVDFTask.ineligibleKey, EEVDFTask.ineligibleKey, h.vruntime, h.deadline, h.queueId]

end

/-- The part of the scheduler that holds queued tasks. -/
structure Queues (τ : Type) where
  rtQueues : Nat → List τ
  rtBitmap : BitVec 128
  normalEligible : List τ
  normalIneligible : List τ
  bound : Option UInt64
  normalTaskCount : Nat
  normalTotalWeight : Nat
  normalWeightedVruntime : Nat
  cache : Option EligiblePreemptionCache

def EEVDFScheduler.queues (s : EEVDFScheduler τ) : Queues τ where
  rtQueues := s.rtQueues
  rtBitmap := s.rtBitmap
  normalEligible := s.normalEligible
  normalIneligible := s.normalIneligible
  bound := s.normalIneligibleDeadlineLowerBound
  normalTaskCount := s.normalTaskCount
  normalTotalWeight := s.normalTotalWeight
  normalWeightedVruntime := s.normalWeightedVruntime
  cache := s.normalPreemptionCache

structure Frame (s s' : EEVDFScheduler τ) : Prop where
  queues : s'.queues = s.queues
  time : s.virtualTime ≤ s'.virtualTime
  keys : ∀ t, Queued s t → SameKey (s.tasks t) (s'.tasks t)
  current : (∀ t, s.current = some t → (s.tasks t).running = true) →
    ∀ t, s'.current = some t → (s'.tasks t).running = true

theorem queued_of_queues (h : s'.queues = s.queues) (t : τ) : Queued s' t ↔ Queued s t := by
  have hrt : s'.rtQueues = s.rtQueues := congrArg Queues.rtQueues h
  have hel : s'.normalEligible = s.normalEligible := congrArg Queues.normalEligible h
  have hinel : s'.normalIneligible = s.normalIneligible := congrArg Queues.normalIneligible h
  rw [Queued, Queued, linked, linked, hrt, hel, hinel]

theorem Frame.refl (s : EEVDFScheduler τ) : Frame s s :=
  ⟨rfl, UInt64.le_refl _, fun _ _ => .refl _, id⟩

theorem Frame.trans {s s' s'' : EEVDFScheduler τ} (h : Frame s s') (h' : Frame s' s'') :
    Frame s s'' where
  queues := h'.queues.trans h.queues
  time := UInt64.le_trans h.time h'.time
  keys t ht := (h.keys t ht).trans (h'.keys t ((queued_of_queues h.queues t).mpr ht))
  current hc := h'.current (h.current hc)

theorem Books.frame (hb : Books s) (h : Frame s s') : Books s' := by
  have hrt : s'.rtQueues = s.rtQueues := congrArg Queues.rtQueues h.queues
  have hmap : s'.rtBitmap = s.rtBitmap := congrArg Queues.rtBitmap h.queues
  have hel : s'.normalEligible = s.normalEligible := congrArg Queues.normalEligible h.queues
  have hinel : s'.normalIneligible = s.normalIneligible := congrArg Queues.normalIneligible h.queues
  have hbound : s'.normalIneligibleDeadlineLowerBound = s.normalIneligibleDeadlineLowerBound :=
    congrArg Queues.bound h.queues
  have hcount : s'.normalTaskCount = s.normalTaskCount := congrArg Queues.normalTaskCount h.queues
  have htotal : s'.normalTotalWeight = s.normalTotalWeight :=
    congrArg Queues.normalTotalWeight h.queues
  have hweighted : s'.normalWeightedVruntime = s.normalWeightedVruntime :=
    congrArg Queues.normalWeightedVruntime h.queues
  have hlinked : s'.linked = s.linked := by rw [linked, linked, hel, hinel]
  have hkey : ∀ t ∈ s.linked, SameKey (s.tasks t) (s'.tasks t) := fun t ht => h.keys t (.inr ht)
  have heligible : ∀ t ∈ s.normalEligible, SameKey (s.tasks t) (s'.tasks t) :=
    fun t ht => hkey t (mem_append_left _ ht)
  have hineligible : ∀ t ∈ s.normalIneligible, SameKey (s.tasks t) (s'.tasks t) :=
    fun t ht => hkey t (mem_append_right _ ht)
  constructor
  · constructor
    · intro t ht
      rw [hel] at ht
      rw [(heligible t ht).vruntime]
      exact UInt64.le_trans (hb.eligible t ht) h.time
    · rw [hel]
      exact hb.eligibleSorted.congr fun t ht => (heligible t ht).eligibleKey
    · rw [hinel]
      exact hb.ineligibleSorted.congr fun t ht => (hineligible t ht).ineligibleKey
    · rw [hbound, hinel]
      exact hb.boundNone
    · intro b hbd t ht
      rw [hbound] at hbd
      rw [hinel] at ht
      rw [(hineligible t ht).deadline]
      exact hb.bound b hbd t ht
  · intro i t ht
    rw [hrt] at ht
    have hsame := h.keys t (.inl ⟨i, ht⟩)
    rw [hsame.isRt, hsame.rtIndex]
    exact hb.rt i t ht
  · rw [hrt]
    exact hb.rtNodup
  · rw [hrt, hmap]
    exact hb.bitmap
  · intro t ht
    rw [hlinked] at ht
    rw [(hkey t ht).isRt]
    exact hb.normal t ht
  · rw [hlinked]
    exact hb.nodup
  · rw [hlinked, hcount]
    exact hb.count
  · rw [hlinked]
    exact hb.few
  · rw [hlinked, htotal, hb.totalWeight, weights, weights]
    exact congrArg sum (map_congr_left fun t ht => (hkey t ht).weight.symm)
  · rw [hlinked, hweighted, hb.weightedVruntime, weightedVruntimes, weightedVruntimes]
    refine congrArg sum (map_congr_left fun t ht => ?_)
    rw [(hkey t ht).weight, (hkey t ht).vruntime]
  · intro t ht
    have ht' := (queued_of_queues h.queues t).mp ht
    rw [(h.keys t ht').running]
    exact hb.idle t ht'
  · exact h.current hb.current

theorem CacheOk.frame (hc : CacheOk s) (h : Frame s s') : CacheOk s' := by
  have hel : s'.normalEligible = s.normalEligible := congrArg Queues.normalEligible h.queues
  have hinel : s'.normalIneligible = s.normalIneligible := congrArg Queues.normalIneligible h.queues
  have hcache : s'.normalPreemptionCache = s.normalPreemptionCache := congrArg Queues.cache h.queues
  have hkey : ∀ t ∈ s.linked, SameKey (s.tasks t) (s'.tasks t) := fun t ht => h.keys t (.inr ht)
  intro c hsome
  rw [hcache] at hsome
  have hold := hc c hsome
  split at hold
  · rename_i hpos
    rw [if_pos hpos]
    obtain ⟨t, ht, hlt⟩ := hold
    refine ⟨t, by rwa [hel], ?_⟩
    rw [(hkey t (mem_append_left _ ht)).deadline]
    exact hlt
  · rename_i hneg
    rw [if_neg hneg]
    intro t ht
    rw [linked, hel, hinel] at ht
    rw [(hkey t ht).deadline, (hkey t ht).vruntime]
    exact hold t ht

variable {t : τ}

theorem Books.not_queued {s : EEVDFScheduler τ} (hb : Books s)
    (h : s.current = some t ∨ (s.tasks t).running = true) : ¬ Queued s t := by
  intro hq
  have hidle := hb.idle t hq
  rcases h with h | h
  · rw [hb.current t h] at hidle
    cases hidle
  · rw [h] at hidle
    cases hidle

section
variable (s : EEVDFScheduler τ)

theorem frame_advanceClock (now : UInt64) : Frame s (s.advanceClock now) :=
  ⟨rfl, UInt64.le_refl _, fun _ _ => .refl _, id⟩

theorem frame_updateVirtualTime : Frame s s.updateVirtualTime := by
  unfold updateVirtualTime
  dsimp only
  split
  · exact .refl s
  · refine ⟨rfl, ?_, fun _ _ => .refl _, id⟩
    rw [UInt64.le_iff_toNat_le, UInt64.toNat_max]
    exact le_max_left _ _

@[simp]
theorem tasks_updateVirtualTime : s.updateVirtualTime.tasks = s.tasks := by
  unfold updateVirtualTime
  dsimp only
  split <;> rfl

@[simp]
theorem current_updateVirtualTime : s.updateVirtualTime.current = s.current := by
  unfold updateVirtualTime
  dsimp only
  split <;> rfl

end

section
variable [DecidableEq τ]

@[simp]
theorem tasks_modifyTask (s : EEVDFScheduler τ) (t : τ) (f : EEVDFTask → EEVDFTask) :
    (s.modifyTask t f).tasks t = f (s.tasks t) :=
  update_self ..

theorem tasks_modifyTask_of_ne (s : EEVDFScheduler τ) {t u : τ} (h : u ≠ t)
    (f : EEVDFTask → EEVDFTask) : (s.modifyTask t f).tasks u = s.tasks u :=
  update_of_ne h ..

variable {s : EEVDFScheduler τ}

variable {f : EEVDFTask → EEVDFTask} {s s' : EEVDFScheduler τ} {t : τ}


theorem frame_modifyTask (ht : Queued s t → SameKey (s.tasks t) (f (s.tasks t)))
    (hrun : s.current = some t → (s.tasks t).running = true → (f (s.tasks t)).running = true) :
    Frame s (s.modifyTask t f) := by
  refine ⟨rfl, UInt64.le_refl _, fun u hu => ?_, fun hc u hu => ?_⟩
  · unfold modifyTask
    dsimp only
    by_cases h : u = t
    · subst h
      rw [update_self]
      exact ht hu
    · rw [update_of_ne h]
      exact .refl _
  · unfold modifyTask at hu ⊢
    dsimp only at hu ⊢
    by_cases h : u = t
    · subst h
      rw [update_self]
      exact hrun hu (hc u hu)
    · rw [update_of_ne h]
      exact hc u hu

/-- A change of fields that the books do not read. -/
theorem frame_modifyTask_same (hf : ∀ task, SameKey task (f task)) : Frame s (s.modifyTask t f) :=
  frame_modifyTask (fun _ => hf _) fun _ hrun => by rw [(hf _).running, hrun]

theorem sameKey_saveLag (S virtualTime : UInt64) (task : EEVDFTask) :
    SameKey task (task.saveLag S virtualTime) := by
  unfold EEVDFTask.saveLag
  split
  · exact .refl _
  · exact ⟨rfl, rfl, rfl, rfl, rfl⟩

theorem sameKey_resetRtSlice (task : EEVDFTask) : SameKey task task.resetRtSlice :=
  ⟨rfl, rfl, rfl, rfl, rfl⟩

theorem sameKey_setRtPolicy (policy : RtPolicy) (task : EEVDFTask) :
    SameKey task (task.setRtPolicy policy) := by
  unfold EEVDFTask.setRtPolicy
  split
  · exact ⟨rfl, rfl, rfl, rfl, rfl⟩
  · exact ⟨rfl, rfl, rfl, rfl, rfl⟩

theorem frame_saveLag (S : UInt64) (s : EEVDFScheduler τ) (t : τ) : Frame s (s.saveLag S t) :=
  frame_modifyTask_same (sameKey_saveLag S s.virtualTime)

theorem accountRuntime_running (now : UInt64) (keep : Bool) (task : EEVDFTask) :
    (task.accountRuntime now keep).running = (task.running && keep) ∧
      (task.accountRuntime now keep).priority = task.priority := by
  unfold EEVDFTask.accountRuntime
  cases hr : task.running with
  | false => simp [hr]
  | true =>
    dsimp only
    split
    · cases ‹(!true) = true›
    · split
      · split
        · exact ⟨rfl, rfl⟩
        · exact ⟨rfl, rfl⟩
      · exact ⟨rfl, rfl⟩

theorem Books.frame_account (hb : Books s) (ht : s.current = some t) (now : UInt64) :
    Frame s (s.modifyTask t (EEVDFTask.accountRuntime now true)) := by
  refine frame_modifyTask (fun hq => absurd hq (hb.not_queued (.inl ht))) fun _ hrun => ?_
  rw [(accountRuntime_running now true _).1, hrun]
  rfl

/-- What is left of a task that was stopped. -/
structure Stopped (s s' : EEVDFScheduler τ) (t : τ) : Prop where
  frame : Frame s s'
  running : (s'.tasks t).running = false
  current : s'.current ≠ some t
  priority : (s'.tasks t).priority = (s.tasks t).priority

theorem Books.stopTask (hb : Books s) (S : UInt64) (t : τ) (now : UInt64) :
    Stopped s (s.stopTask S t now) t := by
  unfold EEVDFScheduler.stopTask
  dsimp only
  split
  · rename_i hidle
    simp only [Bool.and_eq_true, Bool.not_eq_true', decide_eq_false_iff_not] at hidle
    exact ⟨.refl s, hidle.2, hidle.1, rfl⟩
  · rename_i hactive
    have hnot : ¬ Queued s t := by
      refine hb.not_queued ?_
      by_contra hno
      rw [not_or, Bool.not_eq_true] at hno
      exact hactive (by simp [hno.1, hno.2])
    -- charged, then with its lag saved
    generalize hs₁ : s.modifyTask t (EEVDFTask.accountRuntime now false) = s₁
    have hcharged : (s₁.tasks t).running = false ∧
        (s₁.tasks t).priority = (s.tasks t).priority := by
      obtain ⟨hrun, hprio⟩ := accountRuntime_running now false (s.tasks t)
      rw [← hs₁, tasks_modifyTask, hrun, hprio, Bool.and_false]
      exact ⟨rfl, rfl⟩
    have hother : ∀ u, u ≠ t → s₁.tasks u = s.tasks u := fun u hu => by
      rw [← hs₁, tasks_modifyTask_of_ne s hu]
    have hqueues : s₁.queues = s.queues := by
      rw [← hs₁]
      rfl
    have hcurrent : s₁.current = s.current := by
      rw [← hs₁]
      rfl
    have htime : s₁.virtualTime = s.virtualTime := by
      rw [← hs₁]
      rfl
    generalize hs₂ : (if (s₁.tasks t).isRt then s₁ else s₁.updateVirtualTime.saveLag S t) = s₂
    have hframe : Frame s₁ s₂ := by
      rw [← hs₂]
      split
      · exact .refl _
      · exact (frame_updateVirtualTime s₁).trans (frame_saveLag S _ t)
    have hcurrent₂ : s₂.current = s.current := by
      rw [← hs₂, ← hcurrent]
      split
      · rfl
      · exact current_updateVirtualTime s₁
    have hstopped : SameKey (s₁.tasks t) (s₂.tasks t) := by
      rw [← hs₂]
      split
      · exact .refl _
      · rw [EEVDFScheduler.saveLag, tasks_modifyTask, tasks_updateVirtualTime]
        exact sameKey_saveLag S _ _
    have hkeys : ∀ u, Queued s u → SameKey (s.tasks u) (s₂.tasks u) := by
      intro u hu
      have hne : u ≠ t := fun h => hnot (h ▸ hu)
      rw [← hother u hne]
      exact hframe.keys u ((queued_of_queues hqueues u).mpr hu)
    by_cases hcur : s.current = some t
    · rw [if_pos (by simpa using hcur)]
      exact ⟨⟨hframe.queues.trans hqueues, htime ▸ hframe.time, hkeys, nofun⟩,
        hstopped.running.trans hcharged.1, by simp, hstopped.priority.trans hcharged.2⟩
    · rw [if_neg (by simpa using hcur)]
      refine ⟨⟨hframe.queues.trans hqueues, htime ▸ hframe.time, hkeys, fun hc => ?_⟩,
        hstopped.running.trans hcharged.1, by rw [hcurrent₂]; exact hcur,
        hstopped.priority.trans hcharged.2⟩
      refine hframe.current fun u hu => ?_
      rw [hcurrent] at hu
      have hne : u ≠ t := by
        rintro rfl
        exact hcur hu
      rw [hother u hne]
      exact hc u hu

omit [DecidableEq τ] in
theorem Stopped.updateVirtualTime (h : Stopped s s' t) : Stopped s s'.updateVirtualTime t where
  frame := h.frame.trans (frame_updateVirtualTime s')
  running := by rw [tasks_updateVirtualTime, h.running]
  current := by
    rw [current_updateVirtualTime]
    exact h.current
  priority := by rw [tasks_updateVirtualTime, h.priority]

/-- A change of a stopped task that is not queued. -/
theorem Stopped.modifyTask (h : Stopped s s' t) (ht : ¬ Queued s t)
    (hf : ∀ task, (f task).running = task.running ∧ (f task).priority = task.priority) :
    Stopped s (s'.modifyTask t f) t where
  frame := h.frame.trans (frame_modifyTask
    (fun hq => absurd ((queued_of_queues h.frame.queues t).mp hq) ht)
    fun hc => absurd hc h.current)
  running := by rw [tasks_modifyTask, (hf _).1, h.running]
  current := h.current
  priority := by rw [tasks_modifyTask, (hf _).2, h.priority]

theorem place_running (S virtualTime : UInt64) (reason : EnqueueReason) (task : EEVDFTask) :
    (task.place S virtualTime reason).running = task.running ∧
      (task.place S virtualTime reason).priority = task.priority := by
  unfold EEVDFTask.place
  dsimp only
  split <;> exact ⟨rfl, rfl⟩

theorem refreshDeadline_running (S : UInt64) (force : Bool) (task : EEVDFTask) :
    (task.refreshDeadline S force).running = task.running ∧
      (task.refreshDeadline S force).priority = task.priority := by
  unfold EEVDFTask.refreshDeadline
  split <;> exact ⟨rfl, rfl⟩

theorem Stopped.placeTask (h : Stopped s s' t)
    (ht : ¬ Queued s t) (S : UInt64) (reason : EnqueueReason) :
    Stopped s (s'.placeTask S t reason) t :=
  h.updateVirtualTime.modifyTask ht (place_running S _ reason)

/-- A running task comes back by preemption or a yield, or as the current one. -/
def Enterable (s : EEVDFScheduler τ) (t : τ) (reason : EnqueueReason) : Prop :=
  (s.tasks t).isRt = true ∨ reason = .preempt ∨ reason = .yield ∨ (s.tasks t).running = false ∨
    (s.current = some t ∧ reason ≠ .spawn)

/-- The task that enters is stopped and nothing queued is touched. -/
theorem Books.prepareNormal (hb : Books s) {reason : EnqueueReason}
    (ht : ¬ Queued s t) (hrt : (s.tasks t).isRt = false) (hok : Enterable s t reason) (S : UInt64)
    (now : UInt64) : Stopped s (s.prepareNormal S t reason now) t := by
  have hstop := hb.stopTask S t now
  -- a task that is not current enters by the other reasons only when it does not run
  have hidle : reason ≠ .preempt → reason ≠ .yield → (s.current = some t → reason = .spawn) →
      Stopped s s t := by
    intro hpreempt hyield hcurrent
    have hrun : (s.tasks t).running = false := by
      rcases hok with h | h | h | h | ⟨h, hspawn⟩
      · rw [h] at hrt
        cases hrt
      · exact absurd h hpreempt
      · exact absurd h hyield
      · exact h
      · exact absurd (hcurrent h) hspawn
    refine ⟨.refl s, hrun, fun hc => ?_, rfl⟩
    rw [hb.current t hc] at hrun
    cases hrun
  unfold EEVDFScheduler.prepareNormal
  cases reason with
  | spawn =>
    exact (hidle nofun nofun fun _ => rfl).placeTask ht S _
  | wake =>
    refine Stopped.placeTask ?_ ht S _
    split
    · exact hstop
    · rename_i hcur
      exact hidle nofun nofun fun h => absurd ⟨.inl rfl, h⟩ hcur
  | migration =>
    refine Stopped.placeTask ?_ ht S _
    split
    · exact hstop
    · rename_i hcur
      exact hidle nofun nofun fun h => absurd ⟨.inr rfl, h⟩ hcur
  | preempt =>
    exact hstop.modifyTask ht (refreshDeadline_running S false)
  | yield =>
    simp only [reduceCtorEq, or_self, false_and, if_false]
    refine Stopped.modifyTask ?_ ht (refreshDeadline_running S true)
    split
    · exact hstop.updateVirtualTime.modifyTask ht fun _ => ⟨rfl, rfl⟩
    · exact hstop.updateVirtualTime

/-! ## Promotion -/

end

/-- A state that differs in the trees only. -/
def SameButTrees (s s₁ : EEVDFScheduler τ) : Prop :=
  s₁ = { s with
    normalEligible := s₁.normalEligible
    normalIneligible := s₁.normalIneligible
    normalIneligibleDeadlineLowerBound := s₁.normalIneligibleDeadlineLowerBound }

/-- What a promotion leaves: the front of the ineligible tree has moved, and the bound is dropped
with the last task. -/
structure Promoted (s s' : EEVDFScheduler τ) (virtualTime : UInt64) : Prop where
  ineligible : s'.normalIneligible = s.normalIneligible.dropWhile (s.isEligible virtualTime)
  eligible : s'.normalEligible =
    (transfer s.eligibleKey (s.isEligible virtualTime) s.normalIneligible s.normalEligible).2
  bound : ∀ b, s'.normalIneligibleDeadlineLowerBound = some b →
    s.normalIneligibleDeadlineLowerBound = some b
  boundNone : (s.normalIneligibleDeadlineLowerBound = none ↔ s.normalIneligible = []) →
    (s'.normalIneligibleDeadlineLowerBound = none ↔ s'.normalIneligible = [])
  others : SameButTrees s s'

theorem promote_spec (s : EEVDFScheduler τ) (virtualTime : UInt64) :
    Promoted s (s.promoteNormalEligible virtualTime) virtualTime := by
  have hfst := transfer_fst s.eligibleKey (s.isEligible virtualTime) s.normalIneligible
    s.normalEligible
  have hsuffix := List.dropWhile_suffix (l := s.normalIneligible) (s.isEligible virtualTime)
  unfold promoteNormalEligible noteNormalIneligibleRemove
  dsimp only
  rw [hfst]
  split
  · split
    · rename_i hempty
      exact ⟨rfl, rfl, fun b hb => (by cases hb),
        fun _ => ⟨fun _ => List.isEmpty_iff.mp hempty, fun _ => rfl⟩, rfl⟩
    · rename_i hne
      rw [List.isEmpty_iff] at hne
      refine ⟨rfl, rfl, fun b hb => hb, fun hiff => ⟨fun hnone => ?_, fun h => absurd h hne⟩, rfl⟩
      rw [hiff.mp hnone]
      rfl
  · rename_i hnot
    -- nothing moved
    have hsame : s.normalIneligible.dropWhile (s.isEligible virtualTime) = s.normalIneligible := by
      refine hsuffix.eq_of_length_le ?_
      simpa using hnot
    refine ⟨rfl, rfl, fun b hb => hb, fun hiff => ?_, rfl⟩
    rw [hsame]
    exact hiff

section

variable (h : Promoted s s' virtualTime)

include h

/-- The tasks that stay behind are ahead of the virtual time. -/
theorem Promoted.later (hs : Sorted s.ineligibleKey s.normalIneligible)
    (ht : t ∈ s'.normalIneligible) : virtualTime < (s.tasks t).vruntime := by
  rw [h.ineligible] at ht
  cases hrest : s.normalIneligible.dropWhile (s.isEligible virtualTime) with
  | nil =>
    rw [hrest] at ht
    cases ht
  | cons first rest =>
    have hsorted : Sorted s.ineligibleKey (first :: rest) := by
      rw [← hrest]
      exact hs.sublist (dropWhile_sublist _)
    have hfirst : s.isEligible virtualTime first = false := by
      have := head?_dropWhile_not (s.isEligible virtualTime) s.normalIneligible
      rw [hrest] at this
      simpa using this
    have hle := hsorted.head_le (hrest ▸ ht)
    rw [ineligibleKey, ineligibleKey, EEVDFTask.ineligibleKey, EEVDFTask.ineligibleKey,
      Prod.Lex.toLex_le_toLex] at hle
    simp only [isEligible, decide_eq_false_iff_not, UInt64.not_le] at hfirst
    rw [UInt64.lt_iff_toNat_lt] at hfirst ⊢
    omega

theorem Promoted.perm : s'.linked.Perm s.linked := by
  have happend := transfer_append s.eligibleKey (s.isEligible virtualTime)
    s.normalIneligible s.normalEligible
  rw [linked, linked, h.eligible, h.ineligible, ← transfer_fst s.eligibleKey _ _ s.normalEligible]
  exact happend

theorem Promoted.mem_eligible (ht : t ∈ s'.normalEligible) :
    (s.tasks t).vruntime ≤ virtualTime ∨ t ∈ s.normalEligible := by
  rw [h.eligible] at ht
  exact (mem_transfer ht).imp_left of_decide_eq_true

theorem Promoted.mem_ineligible (ht : t ∈ s'.normalIneligible) : t ∈ s.normalIneligible := by
  rw [h.ineligible] at ht
  exact (dropWhile_sublist _).subset ht

theorem Promoted.queued (t : τ) : Queued s' t ↔ Queued s t := by
  have hrt : s'.rtQueues = s.rtQueues := by rw [h.others]
  rw [Queued, Queued, hrt, h.perm.mem_iff]

end

theorem Books.promote (hb : Books s)
    (h : Promoted s s' virtualTime) (htime : virtualTime ≤ s.virtualTime) : Books s' := by
  have htasks : s'.tasks = s.tasks := by rw [h.others]
  have hrt : s'.rtQueues = s.rtQueues := by rw [h.others]
  have hkey : s'.eligibleKey = s.eligibleKey := by
    funext t
    rw [eligibleKey, eligibleKey, htasks]
  have hkey' : s'.ineligibleKey = s.ineligibleKey := by
    funext t
    rw [ineligibleKey, ineligibleKey, htasks]
  have hperm := h.perm
  constructor
  · constructor
    · intro t ht
      have hvt : s'.virtualTime = s.virtualTime := by rw [h.others]
      rw [hvt, htasks]
      rcases h.mem_eligible ht with hle | hold
      · exact UInt64.le_trans hle htime
      · exact hb.eligible t hold
    · rw [hkey, h.eligible]
      exact transfer_sorted _ _ hb.eligibleSorted
    · rw [hkey', h.ineligible]
      exact hb.ineligibleSorted.sublist (dropWhile_sublist _)
    · exact h.boundNone hb.boundNone
    · intro b hbound t ht
      rw [htasks]
      exact hb.bound b (h.bound b hbound) t (h.mem_ineligible ht)
  · rw [hrt, htasks]
    exact hb.rt
  · rw [hrt]
    exact hb.rtNodup
  · rw [hrt, h.others]
    exact hb.bitmap
  · intro t ht
    rw [htasks]
    exact hb.normal t (hperm.mem_iff.mp ht)
  · exact hperm.nodup_iff.mpr hb.nodup
  · rw [hperm.length_eq, ← hb.count, h.others]
  · rw [hperm.length_eq]
    exact hb.few
  · have hsum : s'.normalTotalWeight = s.normalTotalWeight := by rw [h.others]
    rw [hsum, hb.totalWeight, weights, weights, htasks]
    exact ((hperm.map _).sum_eq).symm
  · have hsum : s'.normalWeightedVruntime = s.normalWeightedVruntime := by rw [h.others]
    rw [hsum, hb.weightedVruntime, weightedVruntimes, weightedVruntimes, htasks]
    exact ((hperm.map _).sum_eq).symm
  · intro t ht
    rw [htasks]
    exact hb.idle t ((h.queued t).mp ht)
  · have hcur : s'.current = s.current := by rw [h.others]
    rw [hcur, htasks]
    exact hb.current

theorem CacheOk.promote (hc : CacheOk s) (h : Promoted s s' virtualTime) : CacheOk s' := by
  have htasks : s'.tasks = s.tasks := by rw [h.others]
  have hcache : s'.normalPreemptionCache = s.normalPreemptionCache := by rw [h.others]
  intro c hsome
  rw [hcache] at hsome
  have hold := hc c hsome
  rw [htasks]
  split at hold
  · rename_i hpos
    rw [if_pos hpos]
    obtain ⟨t, ht, hlt⟩ := hold
    refine ⟨t, ?_, hlt⟩
    rw [h.eligible, (transfer_perm _ _ _ _).mem_iff]
    exact mem_append_right _ ht
  · rename_i hneg
    rw [if_neg hneg]
    exact fun t ht => hold t (h.perm.mem_iff.mp ht)

end PulseOS.Sched
