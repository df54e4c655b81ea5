import PulseOS.Sched.EevdfPreempt

/-!
# Which tasks an operation moves

One lemma for each operation of the scheduler: books and cache are kept, and the operation takes in
the one task it names, hands one task out, or moves none.

* `Stays`, `Enters`, `Handed` — the three kinds, and how they compose.
* `Kept.tickAt`, `frame_onTaskStart`, `Kept.onTaskStop`, `Kept.candidatePreempts`,
  `Kept.setRtPolicyAt`, `Kept.setPriorityInner` — the operations that move no task.
-/

namespace PulseOS.Sched

open Saturating EEVDFScheduler List EEVDFTask EEVDFScheduler

variable {τ : Type}

/-! ## Which tasks an operation moves -/

variable (s s' : EEVDFScheduler τ)

/-- Nothing enters or leaves. -/
structure Stays : Prop where
  kept : Kept s'
  queued : ∀ u, Queued s' u ↔ Queued s u

structure Enters (t : τ) : Prop where
  kept : Kept s'
  queued : ∀ u, Queued s' u ↔ Queued s u ∨ u = t

open Enters

/-- The task handed to the host leaves. -/
def Handed : Option τ → Prop
  | some t => Leaves s s' t
  | none => Stays s s'

variable {s s' : EEVDFScheduler τ} {t : τ}

theorem Frame.stays (h : Frame s s') (hk : Kept s) : Stays s s' :=
  ⟨hk.frame h, queued_of_queues h.queues⟩

theorem Kept.stays_refreshed (hk : Kept s) : Stays s s.refreshed :=
  ⟨hk.refreshed, queued_refreshed s⟩

variable {s s' s'' : EEVDFScheduler τ}

theorem Stays.trans (h : Stays s s') (h' : Stays s' s'') : Stays s s'' :=
  ⟨h'.kept, fun u => (h'.queued u).trans (h.queued u)⟩

theorem Leaves.after (h : Stays s s') (h' : Leaves s' s'' t) : Leaves s s'' t where
  kept := h'.kept
  wasQueued := (h.queued t).mp h'.wasQueued
  queued u := (h'.queued u).trans (and_congr (h.queued u) Iff.rfl)

theorem Leaves.before (h : Leaves s s' t) (h' : Stays s' s'') : Leaves s s'' t where
  kept := h'.kept
  wasQueued := h.wasQueued
  queued u := (h'.queued u).trans (h.queued u)

theorem Handed.after (h : Stays s s') {left : Option τ} (h' : Handed s' s'' left) :
    Handed s s'' left := by
  cases left with
  | none => exact h.trans h'
  | some t => exact Leaves.after h h'

theorem Enters.after (h : Stays s s') (h' : Enters s' s'' t) : Enters s s'' t :=
  ⟨h'.kept, fun u => (h'.queued u).trans (or_congr (h.queued u) Iff.rfl)⟩

theorem Leaves.enters (h : Leaves s s' t) (h' : Enters s' s'' t) : Stays s s'' := by
  refine ⟨h'.kept, fun u => ?_⟩
  rw [h'.queued, h.queued]
  constructor
  · rintro (hu | rfl)
    · exact hu.1
    · exact h.wasQueued
  · intro hu
    by_cases hut : u = t
    · exact .inr hut
    · exact .inl ⟨hu, hut⟩

theorem length_linked_of_queues (h : s'.queues = s.queues) : s'.linked.length = s.linked.length :=
  congrArg (fun q : Queues τ => (q.normalEligible ++ q.normalIneligible).length) h

theorem clearRtBit_eq (s : EEVDFScheduler τ) (i : Nat) (queue : List τ) :
    (({ s with rtQueues := Function.update s.rtQueues i queue } : EEVDFScheduler τ).clearRtBit i) =
      s.withRt i queue (clearedBitmap s.rtBitmap i queue) := by
  unfold clearRtBit withRt clearedBitmap
  simp only [Function.update_self]
  split <;> rfl

theorem accepted_mem {predicate : Nat → τ → Bool} {n : Nat} {l : List τ}
    (h : accepted predicate n l = some t) : t ∈ l := by
  induction l generalizing n with
  | nil => cases h
  | cons u rest ih =>
    unfold accepted at h
    split at h
    · cases h
      exact mem_cons_self
    · exact mem_cons_of_mem _ (ih h)

/-- The list that `pick_at` looks at is the first one that is not empty. -/
theorem Books.trailingZeros (hb : Books s) (h : s.rtBitmap ≠ 0) :
    s.rtQueues (Bitmap.trailingZeros s.rtBitmap) ≠ [] ∧
      ∀ j < Bitmap.trailingZeros s.rtBitmap, s.rtQueues j = [] := by
  obtain ⟨hset, hlow⟩ := Bitmap.trailingZeros_spec h
  refine ⟨(hb.bitmap _).mp hset, fun j hj => ?_⟩
  by_contra hne
  have hbit := (hb.bitmap j).mpr hne
  rw [hlow j hj] at hbit
  cases hbit

theorem Frame.not_queued {s s' : EEVDFScheduler τ} (h : Frame s s') (ht : ¬ Queued s t) :
    ¬ Queued s' t :=
  fun hq => ht ((queued_of_queues h.queues t).mp hq)

section
variable [DecidableEq τ] {s : EEVDFScheduler τ}

/-! ## Entering -/

variable {t : τ}

section
variable (hnot : ¬ Queued s t)
include hnot

theorem frame_startRunning (now : UInt64) : Frame s (s.startRunning t now) := by
  refine ⟨rfl, UInt64.le_refl _, fun u hu => ?_, fun _ u hu => ?_⟩
  · have hne : u ≠ t := fun h => hnot (h ▸ hu)
    have hsame : (s.startRunning t now).tasks u = s.tasks u := tasks_modifyTask_of_ne s hne _
    rw [hsame]
    exact .refl _
  · cases hu
    exact congrArg running (tasks_modifyTask s t _)

theorem frame_modifyTask_outside {f : EEVDFTask → EEVDFTask}
    (hf : ∀ task, (f task).running = task.running) : Frame s (s.modifyTask t f) :=
  frame_modifyTask (fun hq => absurd hq hnot) fun _ hrun => (hf _).trans hrun

theorem frame_newRequest (S : UInt64) : Frame s (s.updateVirtualTime.modifyTask t fun task =>
      refreshDeadline S true { task with vruntime := s.updateVirtualTime.virtualTime }) :=
  (frame_updateVirtualTime s).trans (frame_modifyTask_outside
    ((frame_updateVirtualTime s).not_queued hnot) fun _ => (refreshDeadline_running S true _).1)

theorem frame_onTaskStart (S now : UInt64) : Frame s (s.onTaskStart S t now) := by
  have hclock := frame_advanceClock s now
  unfold onTaskStart
  dsimp only
  generalize hs₂ : (if (!((s.advanceClock now).tasks t).isRt &&
    ((s.advanceClock now).tasks t).deadline == 0) = true then _ else _) = s₂
  have hframe : Frame (s.advanceClock now) s₂ := by
    rw [← hs₂]
    split
    · exact frame_newRequest (hclock.not_queued hnot) S
    · exact .refl _
  have hboth := hclock.trans hframe
  exact hboth.trans (frame_startRunning (hboth.not_queued hnot) now)

end

section Kept

variable (hk : Kept s)

include hk

theorem Kept.enqueueRt (hnot : ¬ Queued s t)
    (hrt : (s.tasks t).isRt = true) (S : UInt64) (reason : EnqueueReason) (now : UInt64) :
    Enters s (s.enqueueRt S t reason now) t := by
  have hstop := hk.books.stopTask S t now
  unfold EEVDFScheduler.enqueueRt
  have hstays := hstop.frame.stays hk
  have hrt₁ : ((s.stopTask S t now).tasks t).isRt = true := by
    rw [isRt, hstop.priority]
    exact hrt
  have hnot₁ : ¬ Queued (s.stopTask S t now) t := fun h => hnot ((hstays.queued t).mp h)
  have hrun₁ := hstop.running
  generalize s.stopTask S t now = s₁ at hstays hrt₁ hnot₁ hrun₁ ⊢
  dsimp only
  split
  · obtain ⟨hkept, hqueued⟩ := hstays.kept.pushRt hrt₁ hnot₁ hrun₁ (.refl _)
    exact after hstays ⟨hkept, hqueued⟩
  · generalize hs₂ : (if (s₁.tasks t).isRoundRobin then s₁.modifyTask t resetRtSlice else s₁) = s₂
    have hframe : Frame s₁ s₂ := by
      rw [← hs₂]
      split
      · exact frame_modifyTask_same sameKey_resetRtSlice
      · exact .refl _
    have hsame : SameKey (s₁.tasks t) (s₂.tasks t) := by
      rw [← hs₂]
      split
      · rw [tasks_modifyTask]
        exact sameKey_resetRtSlice _
      · exact .refl _
    have hstays₂ := hframe.stays hstays.kept
    obtain ⟨hkept, hqueued⟩ := hstays₂.kept.pushRt (hsame.isRt.trans hrt₁)
      (fun h => hnot₁ ((hstays₂.queued t).mp h)) (hsame.running.trans hrun₁)
      (perm_append_singleton t _)
    rw [← hsame.rtIndex]
    exact after (hstays.trans hstays₂) ⟨hkept, hqueued⟩

/-- **Every way to enter.** -/
theorem Kept.enqueueAt {reason : EnqueueReason} (hnot : ¬ Queued s t)
    (hok : Enterable s t reason) (hfew : s.linked.length + 1 < TASK_LIMIT) (S : UInt64)
    (now : UInt64) : Enters s (s.enqueueAt S t reason now) t := by
  have hclock := (frame_advanceClock s now).stays hk
  have hnot₀ : ¬ Queued (s.advanceClock now) t := fun h => hnot ((hclock.queued t).mp h)
  unfold EEVDFScheduler.enqueueAt
  dsimp only
  split
  · rename_i hrt
    exact after hclock (hclock.kept.enqueueRt hnot₀ hrt S reason now)
  · rename_i hrt
    have hrt : ((s.advanceClock now).tasks t).isRt = false := by simpa using hrt
    have hstop := hclock.kept.books.prepareNormal hnot₀ hrt hok S now
    have hstays := hstop.frame.stays hclock.kept
    have hlen : ((s.advanceClock now).prepareNormal S t reason now).linked.length =
        s.linked.length := length_linked_of_queues hstop.frame.queues
    obtain ⟨hkept, hqueued⟩ := hstays.kept.books.insertNormal
      ⟨fun h => hnot₀ ((hstays.queued t).mp h), by
        rw [isRt, hstop.priority]
        exact hrt, hstop.running, hstop.current⟩ (by rw [hlen]; exact hfew)
    exact after (hclock.trans hstays) ⟨hkept, hqueued⟩

/-! ## Leaving -/

theorem Kept.removeNormalTask (t : τ) :
    Handed s (s.removeNormalTask t).1 (s.removeNormalTask t).2 := by
  unfold EEVDFScheduler.removeNormalTask
  split
  · rename_i ht
    exact hk.books.unlinkEligible ht
  · split
    · rename_i ht
      exact hk.books.unlinkIneligible ht
    · exact (Frame.refl s).stays hk

theorem Kept.removeRt (t : τ) (i : Nat) : Handed s (s.removeRt t i).1 (s.removeRt t i).2 := by
  unfold EEVDFScheduler.removeRt
  split
  · rename_i ht
    rw [clearRtBit_eq]
    exact hk.eraseRt (perm_cons_erase ht)
  · exact (Frame.refl s).stays hk

theorem Kept.removeQueued (t : τ) : Handed s (s.removeQueued t).1 (s.removeQueued t).2 := by
  unfold EEVDFScheduler.removeQueued
  split
  · exact hk.removeRt t _
  · exact hk.removeNormalTask t

theorem Kept.remove (S : UInt64) (t : τ) : Handed s (s.remove S t).1 (s.remove S t).2 := by
  unfold EEVDFScheduler.remove
  split
  · exact (Frame.refl s).stays hk
  · have hstays := ((frame_updateVirtualTime s).trans (frame_saveLag S _ t)).stays hk
    exact Handed.after hstays (hstays.kept.removeQueued t)

theorem Kept.detachNormalTask (S : UInt64) (predicate : Nat → τ → Bool) :
    Handed s (s.detachNormalTask S predicate).1 (s.detachNormalTask S predicate).2 := by
  have hstays := hk.stays_refreshed
  unfold EEVDFScheduler.detachNormalTask
  dsimp only
  generalize s.refreshed = s₁ at hstays ⊢
  split
  · rename_i t ht
    have hleaves := hstays.kept.books.unlinkEligible (accepted_mem ht)
    exact Leaves.after hstays (hleaves.before ((frame_saveLag S _ t).stays hleaves.kept))
  · split
    · rename_i t ht
      have hleaves := hstays.kept.books.unlinkIneligible (accepted_mem ht)
      exact Leaves.after hstays (hleaves.before ((frame_saveLag S _ t).stays hleaves.kept))
    · exact hstays

theorem Kept.pickNormal : Handed s s.pickNormal.1 s.pickNormal.2 := by
  have hstays := hk.stays_refreshed
  unfold EEVDFScheduler.pickNormal pickNormalFromEligible
  dsimp only
  generalize s.refreshed = s₁ at hstays ⊢
  cases hel : s₁.normalEligible with
  | cons t rest =>
    have hleaves := hstays.kept.books.unlinkEligible (t := t) (by rw [hel]; exact mem_cons_self)
    rw [hel, erase_cons_head] at hleaves
    exact Leaves.after hstays hleaves
  | nil =>
    dsimp only
    unfold pickNormalFromIneligible
    cases hinel : s₁.normalIneligible with
    | nil => exact hstays
    | cons t rest =>
      have hleaves := hstays.kept.books.unlinkIneligible (t := t)
        (by rw [hinel]; exact mem_cons_self)
      rw [hinel, erase_cons_head] at hleaves
      exact Leaves.after hstays hleaves

omit [DecidableEq τ] in
theorem Kept.pickRt (h : s.rtBitmap ≠ 0) : Handed s s.pickRt.1 s.pickRt.2 := by
  obtain ⟨hne, -⟩ := hk.books.trailingZeros h
  unfold EEVDFScheduler.pickRt
  dsimp only
  rw [clearRtBit_eq]
  cases hq : s.rtQueues (Bitmap.trailingZeros s.rtBitmap) with
  | nil => exact absurd hq hne
  | cons t rest => exact hk.eraseRt (by rw [hq]; exact .refl _)

theorem Kept.pickAt (now : UInt64) : Handed s (s.pickAt now).1 (s.pickAt now).2 := by
  have hclock := (frame_advanceClock s now).stays hk
  unfold EEVDFScheduler.pickAt
  dsimp only
  split
  · rename_i h
    exact Handed.after hclock (hclock.kept.pickRt h)
  · exact Handed.after hclock hclock.kept.pickNormal

theorem Kept.removeQueued_none (h : (s.removeQueued t).2 = none) : ¬ Queued s t := by
  unfold EEVDFScheduler.removeQueued at h
  rintro (⟨i, ht⟩ | ht)
  · obtain ⟨hrt, hi⟩ := hk.books.rt i t ht
    rw [if_pos hrt, hi, EEVDFScheduler.removeRt, if_pos ht] at h
    cases h
  · rw [if_neg (by simp [hk.books.normal t ht]), EEVDFScheduler.removeNormalTask] at h
    rcases mem_append.mp ht with ht | ht
    · rw [if_pos ht] at h
      cases h
    · split at h
      · cases h
      · cases h

/-! ## Running -/

theorem Kept.onTaskStop (S : UInt64) (t : τ) (now : UInt64) : Stays s (s.onTaskStop S t now) := by
  have hclock := (frame_advanceClock s now).stays hk
  exact hclock.trans ((hclock.kept.books.stopTask S t now).frame.stays hclock.kept)

omit [DecidableEq τ] in
theorem Kept.stays_query (d : UInt64) : Stays s (s.hasEligiblePreemption d).1 := by
  obtain ⟨hkept, hqueued, -⟩ := hk.hasEligiblePreemption d
  exact ⟨hkept, hqueued⟩

theorem Kept.tickRt (t : τ) : Stays s (s.tickRt t).1 := by
  unfold EEVDFScheduler.tickRt
  dsimp only
  split
  · exact (Frame.refl s).stays hk
  · dsimp only
    split
    · exact (frame_modifyTask_same sameKey_resetRtSlice).stays hk
    · exact (Frame.refl s).stays hk

theorem Kept.tickNormal (hnot : ¬ Queued s t) (S : UInt64) : Stays s (s.tickNormal S t).1 := by
  have hrefresh (force : Bool) : Frame s (s.modifyTask t (refreshDeadline S force)) :=
    frame_modifyTask_outside hnot fun _ => (refreshDeadline_running S force _).1
  unfold EEVDFScheduler.tickNormal
  split
  · exact (Frame.refl s).stays hk
  · split
    · exact (hrefresh false).stays hk
    · split
      · exact (hrefresh true).stays hk
      · exact hk.stays_query _

theorem Kept.frame_tick (hnot : ¬ Queued s t) (now : UInt64) :
    Frame s (if (s.advanceClock now).current = some t then
      (s.advanceClock now).modifyTask t (accountRuntime now true)
      else (s.advanceClock now).startRunning t now) := by
  have hclock := frame_advanceClock s now
  split
  · rename_i hcur
    exact hclock.trans ((hk.frame hclock).books.frame_account hcur now)
  · exact hclock.trans (frame_startRunning (hclock.not_queued hnot) now)

theorem Kept.tickAt (hnot : ¬ Queued s t) (S now : UInt64) : Stays s (s.tickAt S t now).1 := by
  have hframe := hk.frame_tick hnot now
  have hstays := hframe.stays hk
  unfold EEVDFScheduler.tickAt
  dsimp only
  split
  · exact (frame_advanceClock s now).stays hk
  · split
    · exact hstays.trans (hstays.kept.tickRt t)
    · exact hstays.trans (hstays.kept.tickNormal (hframe.not_queued hnot) S)

/-- What several operations do first: the clock, and the charge of the current task. -/
theorem Kept.frame_charge (t : τ) (now : UInt64) :
    Frame s (if (s.advanceClock now).current = some t then
      (s.advanceClock now).modifyTask t (accountRuntime now true) else s.advanceClock now) := by
  have hclock := frame_advanceClock s now
  split
  · rename_i hcur
    exact hclock.trans ((hk.frame hclock).books.frame_account hcur now)
  · exact hclock

theorem Kept.candidatePreempts (current candidate : τ) (now : UInt64) :
    Stays s (s.candidatePreempts current candidate now).1 := by
  have hcharge := hk.frame_charge current now
  unfold EEVDFScheduler.candidatePreempts
  dsimp only
  split
  · exact hcharge.stays hk
  · exact hcharge.stays hk
  · exact hcharge.stays hk
  · exact (hcharge.trans (frame_updateVirtualTime _)).stays hk

theorem Kept.setRtPolicyAt (t : τ) (policy : RtPolicy) (now : UInt64) :
    Stays s (s.setRtPolicyAt t policy now) :=
  ((hk.frame_charge t now).trans (frame_modifyTask_same (sameKey_setRtPolicy policy))).stays hk

end Kept

/-! ## A new priority -/

theorem frame_storePriority (hnot : ¬ Queued s t) (S : UInt64) (priority : Int) (isCurrent : Bool) :
    Frame s (s.storePriority S t priority isCurrent) := by
  have hstore : Frame s (s.modifyTask t fun task => { task with priority }) :=
    frame_modifyTask_outside hnot fun _ => rfl
  unfold storePriority
  dsimp only
  split
  · refine hstore.trans (frame_modifyTask_outside (hstore.not_queued hnot) fun task => ?_)
    split <;> rfl
  · split
    · exact hstore.trans (frame_newRequest (hstore.not_queued hnot) S)
    · exact hstore

theorem running_storePriority (S : UInt64) (s : EEVDFScheduler τ) (t : τ) (priority : Int)
    (isCurrent : Bool) :
    ((s.storePriority S t priority isCurrent).tasks t).running = (s.tasks t).running := by
  unfold storePriority
  dsimp only
  split
  · rw [tasks_modifyTask, tasks_modifyTask]
    split <;> rfl
  · split
    · rw [tasks_modifyTask, (refreshDeadline_running S true _).1, tasks_updateVirtualTime,
        tasks_modifyTask]
    · rw [tasks_modifyTask]

theorem removeQueued_others (s : EEVDFScheduler τ) (t : τ) : (s.removeQueued t).1.tasks = s.tasks ∧
      (s.removeQueued t).1.linked.length ≤ s.linked.length ∧
      ∀ u, (s.removeQueued t).2 = some u → u = t := by
  unfold removeQueued removeRt removeNormalTask
  have herase (l l' : List τ) : (l.erase t ++ l').length ≤ (l ++ l').length ∧
      (l ++ l'.erase t).length ≤ (l ++ l').length := by
    have hl := length_erase_le (a := t) (l := l)
    have hl' := length_erase_le (a := t) (l := l')
    simp only [length_append]
    omega
  split
  · split
    · rw [clearRtBit_eq]
      exact ⟨rfl, le_refl _, fun u hu => (Option.some.inj hu).symm⟩
    · exact ⟨rfl, le_refl _, fun u hu => (by cases hu)⟩
  · split
    · exact ⟨rfl, (herase _ _).1, fun u hu => (Option.some.inj hu).symm⟩
    · split
      · refine ⟨?_, ?_, fun u hu => (Option.some.inj hu).symm⟩
        · unfold noteNormalIneligibleRemove
          split <;> rfl
        · unfold noteNormalIneligibleRemove
          split <;> exact (herase _ _).2
      · exact ⟨rfl, le_refl _, fun u hu => (by cases hu)⟩

theorem Kept.setPriorityInner (hk : Kept s) (hfew : s.linked.length + 1 < TASK_LIMIT) (S : UInt64)
    (t : τ) (priority : Int) (now : UInt64) : Stays s (s.setPriorityInner S t priority now).1 := by
  have hclock := frame_advanceClock s now
  have hkclock := hk.frame hclock
  unfold EEVDFScheduler.setPriorityInner
  split
  · exact (Frame.refl s).stays hk
  · dsimp only
    split
    · rename_i hcur
      have hnot : ¬ Queued s t := hk.books.not_queued (.inl hcur)
      have hcharge := hclock.trans (hkclock.books.frame_account hcur now)
      generalize hs₂ : (if ((s.advanceClock now).tasks t).isRt = true then _ else _) = s₂
      have hframe : Frame s s₂ := by
        rw [← hs₂]
        split
        · exact hcharge
        · exact hcharge.trans (frame_updateVirtualTime _)
      exact (hframe.trans (frame_storePriority (hframe.not_queued hnot) S priority true)).stays hk
    · have hframe := hclock.trans ((frame_updateVirtualTime _).trans
        (frame_saveLag S (s.advanceClock now).updateVirtualTime t))
      have hstays := hframe.stays hk
      generalize ((s.advanceClock now).updateVirtualTime.saveLag S t) = s₁ at hframe hstays ⊢
      have hhanded := hstays.kept.removeQueued t
      have hnone := hstays.kept.removeQueued_none (t := t)
      obtain ⟨htasks, hlen, hsame⟩ := removeQueued_others s₁ t
      have hlen₁ := length_linked_of_queues hframe.queues
      generalize s₁.removeQueued t = removed at hhanded hnone htasks hlen hsame ⊢
      obtain ⟨s₂, left⟩ := removed
      dsimp only at hhanded hnone htasks hlen hsame ⊢
      cases left with
      | none =>
        have hnot : ¬ Queued s₂ t := fun h => hnone rfl ((hhanded.queued t).mp h)
        have hstore := frame_storePriority hnot S priority false
        exact (hstays.trans hhanded).trans (hstore.stays hhanded.kept)
      | some u =>
        obtain rfl := hsame u rfl
        have hleaves : Leaves s₁ s₂ u := hhanded
        have hnot : ¬ Queued s₂ u := fun h => ((hleaves.queued u).mp h).2 rfl
        have hstore := frame_storePriority hnot S priority false
        have hlen₂ := length_linked_of_queues hstore.queues
        have hidle : ((s₂.storePriority S u priority false).tasks u).running = false := by
          rw [running_storePriority, htasks]
          exact hstays.kept.books.idle u hleaves.wasQueued
        have hok : Enterable (s₂.storePriority S u priority false) u .migration :=
          .inr (.inr (.inr (.inl hidle)))
        have henters := (hleaves.kept.frame hstore).enqueueAt (hstore.not_queued hnot) hok
          (by omega) S now
        exact hstays.trans (hleaves.enters (after (hstore.stays hleaves.kept) henters))

end

end PulseOS.Sched
