import PulseOS.Sched.EevdfRound

/-!
# How far a task is ahead or behind

The lag of ordinary tasks that share one processor, in rounds of `Processor.exec`.

* `LagBounds` — no task is ahead of the virtual time by more than one request, and none is behind by
  more than the requests of the others.
* `ahead_of_run` — the first bound holds in every run: only an eligible task is picked, and it runs
  for one request at most.
* `BelowMean`, `lagBounds_of_run` — the second bound holds where the virtual time never passes the
  mean of all tasks.  `insert_normal` moves it to the mean of the others before it counts the
  task, and `KeepsMean` says that the task has come at least that far.
* `latecomer_far_behind` — a task that is preempted early falls behind without that.
-/

namespace PulseOS.Sched

open Saturating Transition WeightedMean EEVDFScheduler

variable {τ : Type}

/-- The lags of the tasks `l`: what is ahead counts in virtual time, what is behind by weight. -/
structure LagBounds [DecidableEq τ] (S : UInt64) (l : List τ) (s : EEVDFScheduler τ) : Prop where
  ahead : ∀ t ∈ l, s.vruntimeOf t ≤ s.virtualTime.toNat + s.sliceOf S t
  behind : ∀ t ∈ l, (s.weightOf t : Int) * ((s.virtualTime.toNat : Int) - s.vruntimeOf t) ≤
    ((l.erase t).map fun u => (s.weightOf u : Int) * s.sliceOf S u).sum

/-! ## Ahead -/

/-- The running time of one round is charged as one request at most. -/
theorem chargeOf_le (s : EEVDFScheduler τ) (t : τ) {S now : UInt64}
    (h : now.toNat ≤ (s.tasks t).execStart.toNat + S.toNat) :
    min (s.chargeOf t now) 0xFFFFFFFFFFFFFFFF ≤ s.sliceOf S t := by
  have hle : s.chargeOf t now ≤ S.toNat * NICE_0_WEIGHT / s.weightOf t :=
    Nat.div_le_div_right (Nat.mul_le_mul_right _ (by omega))
  refine (min_le_min_right _ hle).trans ?_
  unfold sliceOf EEVDFTask.virtualSlice normalVirtualSlice weightOf
  dsimp only
  split
  · split
    · rename_i hzero
      rw [← UInt64.toNat_inj, toNat_sat64] at hzero
      rw [hzero]
      exact Nat.zero_le _
    · rw [toNat_sat64]
  · rename_i hnormal
    rw [EEVDFTask.weight, weightForPriority, if_neg hnormal, UInt64.toNat_max,
      Nat.mul_div_cancel _ (by decide)]
    exact (min_le_left _ _).trans (le_max_left _ _)

/-- No task is ahead by more than a request, and the one that is out is not ahead. -/
structure Ahead (S : UInt64) (l : List τ) (p : Processor τ) : Prop where
  bound : ∀ t ∈ l, p.sched.vruntimeOf t ≤ p.sched.virtualTime.toNat + p.sched.sliceOf S t
  out : ∀ t, p.phase.out = some t → p.sched.vruntimeOf t ≤ p.sched.virtualTime.toNat

theorem Ahead.move {S : UInt64} {l : List τ} {p p' : Processor τ} {a : Round} (h : Ahead S l p)
    (hm : Move S l p a p') : Ahead S l p' := by
  cases hm with
  | pick hp hp' hload htime hle =>
    refine ⟨fun u hu => ?_, fun u hu => ?_⟩
    · have hold := h.bound u hu
      rw [hload.vruntimeOf, sliceOf_of_priority (hload u).1, htime]
      omega
    · rw [hp'] at hu
      cases hu
      rw [hload.vruntimeOf]
      exact hle
  | start hp hp' hload htime =>
    refine ⟨fun u hu => ?_, fun u hu => ?_⟩
    · rw [hload.vruntimeOf, sliceOf_of_priority (hload u).1, htime]
      exact h.bound u hu
    · rw [hload.vruntimeOf, htime]
      refine h.out u ?_
      rw [hp'] at hu
      rw [hp]
      exact hu
  | @preempt now _ t hp hp' hprio hother hcharge hnow htime =>
    refine ⟨fun u hu => ?_, fun u hu => by rw [hp'] at hu; cases hu⟩
    rw [sliceOf_of_priority (hprio u), htime]
    by_cases hut : u = t
    · -- eligible when it was picked, and charged for one request
      have hpicked := h.out t (by rw [hp]; rfl)
      have hslice := chargeOf_le p.sched t hnow
      rw [hut, hcharge]
      omega
    · have hold := h.bound u hu
      rw [hother u hut]
      omega

section
variable [DecidableEq τ] {S : UInt64} {l : List τ} {p : Processor τ}

/-- **No task is ahead by more than one request, in any run.** -/
theorem ahead_of_run {ok : Processor τ → Round → Prop} (hl : l.Nodup)
    (hfew : l.length < TASK_LIMIT)
    (hr : Reachable (Processor.Initial S l) (Guarded ok (Processor.Step S)) p) : Ahead S l p := by
  refine (round_invariant hl hfew hr (fun p hidle _ hzero => ⟨fun t ht => ?_, fun t ht => ?_⟩)
    fun _ _ _ _ h _ hm => h.move hm).2
  · rw [hzero t ht]
    exact Nat.zero_le _
  · rw [hidle] at ht
    cases ht

/-! ## Behind -/

/-- The virtual time does not pass the mean of the tasks. -/
def BelowMean (l : List τ) (s : EEVDFScheduler τ) : Prop :=
  s.virtualTime.toNat * total s.weightOf l ≤ weighted s.weightOf s.vruntimeOf l

/-- A task is preempted when it is not behind the mean of the queued ones any more. -/
def KeepsMean (p : Processor τ) : Round → Prop
  | .preempt now =>
    ∀ t, p.phase.current = some t →
      p.sched.meanOf p.sched.linked ≤ p.sched.vruntimeOf t + p.sched.chargeOf t now
  | _ => True

instance (p : Processor τ) (a : Round) : Decidable (KeepsMean p a) := by
  unfold KeepsMean
  split <;> infer_instance

omit [DecidableEq τ] in
theorem SameLoad.belowMean {s s' : EEVDFScheduler τ} (h : SameLoad s s') : BelowMean l s' ↔
      s'.virtualTime.toNat * total s.weightOf l ≤ weighted s.weightOf s.vruntimeOf l := by
  unfold BelowMean
  rw [total_congr fun t _ => h.weightOf t,
    weighted_congr (fun t _ => h.weightOf t) fun t _ => h.vruntimeOf t]

omit [DecidableEq τ] in
/-- A time is below the mean when each of those it is the latest of is. -/
theorem max_mul_le {a b c d : Nat} (ha : a * c ≤ d) (hb : b * c ≤ d) : max a b * c ≤ d := by
  rcases max_choice a b with h | h
  · rwa [h]
  · rwa [h]

omit [DecidableEq τ] in
theorem BelowMean.move {p' : Processor τ} {a : Round} (hl : l.Nodup) (hv : Valid l p)
    (h : BelowMean l p.sched) (hok : KeepsMean p a) (hm : Move S l p a p') :
    BelowMean l p'.sched := by
  cases hm with
  | pick _ _ hload htime _ =>
    rw [hload.belowMean, htime]
    exact max_mul_le h mean_mul_le
  | start _ _ hload htime =>
    rw [hload.belowMean, htime]
    exact h
  | @preempt now _ t hp _ hprio hother hcharge _ htime =>
    have hweight : ∀ u, p'.sched.weightOf u = p.sched.weightOf u :=
      fun u => weightOf_of_priority (hprio u)
    have hperm := hv.perm_out hl (t := t) (by rw [hp]; rfl)
    have hnot : ∀ u ∈ p.sched.linked, u ≠ t := fun u hu hut =>
      ((hv.mem_linked u).mp hu).2 (by rw [hut, hp]; rfl)
    have hgrow : ∀ u, p.sched.vruntimeOf u ≤ p'.sched.vruntimeOf u := fun u => by
      by_cases hut : u = t
      · have hlt := (p.sched.tasks t).vruntime.toNat_lt
        rw [hut, hcharge]
        unfold vruntimeOf
        omega
      · rw [hother u hut]
    unfold BelowMean
    rw [htime]
    refine max_mul_le (max_mul_le ?_ mean_mul_le) ?_
    · -- the tasks only move on
      have hsum : weighted p'.sched.weightOf p'.sched.vruntimeOf l =
          weighted p.sched.weightOf p'.sched.vruntimeOf l :=
        weighted_congr (fun u _ => hweight u) fun _ _ => rfl
      rw [total_congr fun u _ => hweight u, hsum]
      exact h.trans (weighted_le fun u _ => hgrow u)
    · -- the mean of the others, which the task has reached
      have hmean : p.sched.meanOf p.sched.linked = p'.sched.meanOf p.sched.linked :=
        (mean_congr (fun u _ => hweight u) fun u hu => hother u (hnot u hu)).symm
      rw [← total_perm hperm, ← weighted_perm hperm, hmean]
      refine mean_mul_le_cons ?_
      have hreached := hok t (by rw [hp]; rfl)
      have hmax : p.sched.meanOf p.sched.linked ≤ 0xFFFFFFFFFFFFFFFF := mean_le p.sched _
      rw [hcharge, ← meanOf, ← hmean]
      exact le_min hreached hmax

/-- **Where the virtual time keeps to the mean, every lag is bounded.** -/
theorem lagBounds_of_run (hl : l.Nodup) (hfew : l.length < TASK_LIMIT)
    (hr : Reachable (Processor.Initial S l) (Guarded KeepsMean (Processor.Step S)) p) :
    LagBounds S l p.sched := by
  have hahead := (ahead_of_run hl hfew hr).bound
  obtain ⟨-, hmean⟩ := round_invariant (I := fun p => BelowMean l p.sched) hl hfew hr
    (fun p _ htime _ => by
      unfold BelowMean
      rw [htime, UInt64.toNat_zero, Nat.zero_mul]
      exact Nat.zero_le _)
    fun _ _ _ hv h hok hm => h.move hl hv hok hm
  refine ⟨hahead, fun t ht => ?_⟩
  have hbehind := behind_le ht hmean hahead
  have hsum : ((l.erase t).map fun u => (p.sched.weightOf u : Int) * p.sched.sliceOf S u).sum =
      (weighted p.sched.weightOf (p.sched.sliceOf S) (l.erase t) : Nat) := by
    unfold weighted
    push_cast
    rw [List.map_map]
    exact congrArg List.sum (List.map_congr_left fun u _ => by
      dsimp only [Function.comp_apply]
      rw [Nat.cast_mul, mul_comm])
  rw [hsum, mul_sub]
  zify at hbehind
  linarith

end

/-! ## Two tasks of the same weight -/

/-- The base slice of the kernel. -/
def EEVDF_BASE_SLICE_NS : UInt64 := 4000000

/-- Two tasks of nice `0`, spawned together. -/
def twins : Processor Bool :=
  ⟨spawnAll EEVDF_BASE_SLICE_NS 0 [false, true] (EEVDFScheduler.new fun _ => .new), .idle⟩

theorem twins_initial : Processor.Initial EEVDF_BASE_SLICE_NS [false, true] twins :=
  ⟨fun _ => .new, 0, by decide, rfl⟩

/-- One round: a task is picked and started at one time and preempted at a later one. -/
def round (start stop : UInt64) : List Round :=
  [.pickNextAt start, .onTaskStart start, .preempt stop]

theorem twins_in_turn : ∃ p : Processor Bool,
    Reachable (Processor.Initial EEVDF_BASE_SLICE_NS [false, true])
      (Guarded KeepsMean (Processor.Step EEVDF_BASE_SLICE_NS)) p ∧
    p.sched.virtualTime = 4000000 ∧ LagBounds EEVDF_BASE_SLICE_NS [false, true] p.sched := by
  obtain ⟨p, hr, hp⟩ : ∃ p : Processor Bool,
      Reachable (Processor.Initial EEVDF_BASE_SLICE_NS [false, true])
        (Guarded KeepsMean (Processor.Step EEVDF_BASE_SLICE_NS)) p ∧
      decide (p.sched.virtualTime = 4000000) = true :=
    Reachable.guarded_execs twins_initial
      (round 0 4000000 ++ round 4000000 8000000) (by decide +kernel)
  exact ⟨p, hr, of_decide_eq_true hp, lagBounds_of_run (by decide) (by decide) hr⟩

/-- A task that is preempted after a nanosecond each time is left behind: the virtual time jumps to
the other task while it is in neither sum. -/
theorem latecomer_far_behind : ∃ p : Processor Bool,
    Reachable (Processor.Initial EEVDF_BASE_SLICE_NS [false, true])
      (Processor.Step EEVDF_BASE_SLICE_NS) p ∧
    ¬ LagBounds EEVDF_BASE_SLICE_NS [false, true] p.sched := by
  obtain ⟨p, hr, hp⟩ : ∃ p : Processor Bool,
      Reachable (Processor.Initial EEVDF_BASE_SLICE_NS [false, true])
        (Processor.Step EEVDF_BASE_SLICE_NS) p ∧
      decide (p.sched.virtualTime = 7999999 ∧ p.sched.vruntimeOf false = 3 ∧
        p.sched.weightOf false = 1024 ∧ p.sched.weightOf true = 1024 ∧
        p.sched.sliceOf EEVDF_BASE_SLICE_NS true = 4000000) = true :=
    Reachable.execs twins_initial
      (round 0 1 ++ round 1 4000000 ++ round 4000000 4000001 ++ round 4000001 8000001 ++
        round 8000001 8000002) (by decide +kernel)
  obtain ⟨htime, hvruntime, hweight, hweight', hslice⟩ := of_decide_eq_true hp
  refine ⟨p, hr, fun h => ?_⟩
  have hbehind := h.behind false (by simp)
  rw [htime, hvruntime, hweight] at hbehind
  simp [hweight', hslice] at hbehind

end PulseOS.Sched
