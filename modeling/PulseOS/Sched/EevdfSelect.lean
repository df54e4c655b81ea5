import PulseOS.Sched.EevdfRuns

/-!
# What the scheduler selects

The selection of `pick_next_at` and the answers about preemption, against references that look at
the queued tasks alone and know nothing of trees, bounds and caches.

* `referenceTime` — the virtual time that the weighted mean of the queued and the current ordinary
  tasks gives; `virtualTime_eq_reference` — the scheduler's sums give the same one.
* `ReferencePick` — the reference selection; `run_pick_reference` — the scheduler's one after every
  run.
* `uncached` — a scheduler without cache and bound; `run_preemption_exact` — after every run the
  answers are those of a scan over all queued tasks, and the decisions those without the cache.
-/

namespace PulseOS.Sched

open Saturating Transition EEVDFScheduler List

variable {τ : Type} {s : EEVDFScheduler τ}

/-! ## Virtual time -/

namespace EEVDFScheduler

variable (s)

/-- The ordinary tasks that share the processor: the queued ones and the current one. -/
def fairTasks : List τ :=
  s.linked ++ (s.current.filter fun t => !(s.tasks t).isRt).toList

/-- The old virtual time, or the floor of the weighted mean when that is later. -/
def referenceTime : Nat :=
  max s.virtualTime.toNat (s.weightedVruntimes s.fairTasks / s.weights s.fairTasks)

end EEVDFScheduler

variable (s)

theorem weights_append (l l' : List τ) : s.weights (l ++ l') = s.weights l + s.weights l' := by
  simp [weights]

theorem weightedVruntimes_append (l l' : List τ) :
    s.weightedVruntimes (l ++ l') = s.weightedVruntimes l + s.weightedVruntimes l' := by
  simp [weightedVruntimes]

theorem mean_le (l : List τ) : s.weightedVruntimes l / s.weights l ≤ 0xFFFFFFFFFFFFFFFF := by
  have hsum : s.weightedVruntimes l ≤ 0xFFFFFFFFFFFFFFFF * s.weights l := by
    unfold weightedVruntimes weights
    rw [← sum_map_mul_left]
    refine sum_le_sum fun t _ => Nat.mul_le_mul_right _ ?_
    have := (s.tasks t).vruntime.toNat_lt
    omega
  exact Nat.div_le_of_le_mul (by rwa [Nat.mul_comm])

variable {s}

theorem Sums.load_exact (hs : Sums s) :
    min (s.normalTotalWeight + s.currentLoad.1) U128_MAX = s.weights s.fairTasks ∧
      min (s.normalWeightedVruntime + s.currentLoad.2) U128_MAX =
        s.weightedVruntimes s.fairTasks := by
  unfold fairTasks currentLoad
  rw [weights_append, weightedVruntimes_append, ← hs.totalWeight, ← hs.weightedVruntime]
  -- no more than the sums with one more task
  obtain ⟨-, hw, hv⟩ := hs.exact EEVDFTask.new
  cases s.current with
  | none =>
    simp only [Option.filter_none, Option.toList_none, weights, weightedVruntimes, map_nil, sum_nil]
    omega
  | some t =>
    cases hrt : (s.tasks t).isRt with
    | true =>
      simp only [Option.filter, hrt, Bool.not_true, Bool.false_eq_true, if_false, if_true,
        Option.toList_none, weights, weightedVruntimes, map_nil, sum_nil]
      omega
    | false =>
      obtain ⟨hmin, hw, hv⟩ := hs.exact (s.tasks t)
      simp only [Option.filter, hrt, Bool.not_false, Bool.false_eq_true, if_true, if_false,
        Option.toList_some, weights, weightedVruntimes, map_cons, map_nil, sum_cons,
        sum_nil, hmin]
      omega

/-- **The scheduler's virtual time is the reference one.** -/
theorem virtualTime_eq_reference (hs : Sums s) :
    s.updateVirtualTime.virtualTime.toNat = s.referenceTime := by
  obtain ⟨hw, hv⟩ := hs.load_exact
  have hmean := mean_le s s.fairTasks
  unfold updateVirtualTime referenceTime
  dsimp only
  rw [hw, hv]
  split
  · rename_i hzero
    rw [hzero, Nat.div_zero, Nat.max_zero]
  · dsimp only
    rw [UInt64.toNat_max, toNat_sat64, min_eq_left hmean]

/-! ## Selection -/

/-- A task for which `p` holds and none has a smaller key. -/
def Least {α : Type} [LE α] (key : τ → α) (p : τ → Prop) (t : τ) : Prop :=
  p t ∧ ∀ u, p u → key t ≤ key u

/-- The reference selection, with the answer of `pick_next_at`. -/
structure ReferencePick (s : EEVDFScheduler τ) (now : UInt64) : Prop where
  none : (s.pickNextAt now).2 = none ↔ ∀ t, ¬ Queued s t
  realTime : ∀ t, (s.pickNextAt now).2 = some t → (∃ u, Queued s u ∧ (s.tasks u).isRt = true) →
    (s.rtQueues (s.tasks t).rtIndex).head? = some t ∧
      Least (fun u => -(s.tasks u).priority) (fun u => Queued s u ∧ (s.tasks u).isRt = true) t
  time : (∀ u, Queued s u → (s.tasks u).isRt = false) →
    (s.pickNextAt now).1.virtualTime.toNat = s.referenceTime
  eligible : ∀ t, (s.pickNextAt now).2 = some t → (∀ u, Queued s u → (s.tasks u).isRt = false) →
    (∃ u, Queued s u ∧ (s.tasks u).vruntime.toNat ≤ s.referenceTime) →
    Least s.eligibleKey (fun u => Queued s u ∧ (s.tasks u).vruntime.toNat ≤ s.referenceTime) t
  ahead : ∀ t, (s.pickNextAt now).2 = some t → (∀ u, Queued s u → (s.tasks u).isRt = false) →
    (∀ u, Queued s u → s.referenceTime < (s.tasks u).vruntime.toNat) →
    Least s.ineligibleKey (Queued s) t

theorem Books.queued_normal (hb : Books s) (h : s.rtBitmap = 0) (t : τ) :
    Queued s t ↔ t ∈ s.linked := by
  refine ⟨fun hq => hq.resolve_left ?_, .inr⟩
  rintro ⟨i, ht⟩
  have hbit := (hb.bitmap i).mpr (ne_nil_of_mem ht)
  rw [h] at hbit
  simp at hbit

theorem virtualTime_noteNormalIneligibleRemove (s : EEVDFScheduler τ) :
    s.noteNormalIneligibleRemove.virtualTime = s.virtualTime := by
  unfold noteNormalIneligibleRemove
  split <;> rfl

theorem Kept.pickNormal_spec (hk : Kept s) :
    s.pickNormal.1.virtualTime = s.updateVirtualTime.virtualTime ∧
    match s.pickNormal.2 with
    | none => s.linked = []
    | some t =>
      Least s.eligibleKey (fun u => u ∈ s.linked ∧
        (s.tasks u).vruntime ≤ s.updateVirtualTime.virtualTime) t ∨
      ((∀ u ∈ s.linked, s.updateVirtualTime.virtualTime < (s.tasks u).vruntime) ∧
        Least s.ineligibleKey (· ∈ s.linked) t) := by
  have hb := hk.refreshed.books
  have helSorted := hb.eligibleSorted
  have hinelSorted := hb.ineligibleSorted
  have htime := virtualTime_refreshed s
  have hlinked := mem_linked_refreshed s
  have heligible := hk.books.mem_eligible_refreshed
  have htasks := tasks_refreshed s
  have hkey : s.refreshed.eligibleKey = s.eligibleKey := by
    funext t
    rw [eligibleKey, eligibleKey, htasks]
  have hkey' : s.refreshed.ineligibleKey = s.ineligibleKey := by
    funext t
    rw [ineligibleKey, ineligibleKey, htasks]
  unfold EEVDFScheduler.pickNormal pickNormalFromEligible
  dsimp only
  rw [hkey] at helSorted
  rw [hkey'] at hinelSorted
  generalize s.refreshed = r at helSorted hinelSorted htime hlinked heligible ⊢
  cases hel : r.normalEligible with
  | cons t rest =>
    rw [hel] at helSorted heligible
    refine ⟨htime, .inl ⟨(heligible t).mp mem_cons_self, fun u hu => ?_⟩⟩
    exact helSorted.head_le ((heligible u).mpr hu)
  | nil =>
    have hall : ∀ u, u ∈ s.linked ↔ u ∈ r.normalIneligible := fun u => by
      rw [← hlinked, linked, hel, nil_append]
    dsimp only
    unfold pickNormalFromIneligible
    cases hinel : r.normalIneligible with
    | nil =>
      refine ⟨htime, eq_nil_iff_forall_not_mem.mpr fun u hu => ?_⟩
      rw [hall, hinel] at hu
      cases hu
    | cons t rest =>
      rw [hinel] at hinelSorted
      refine ⟨?_, .inr ⟨fun u hu => ?_, (hall t).mpr ?_, fun u hu => hinelSorted.head_le ?_⟩⟩
      · exact (virtualTime_noteNormalIneligibleRemove _).trans htime
      · by_contra hle
        have hmem := (heligible u).mpr ⟨hu, UInt64.not_lt.mp hle⟩
        rw [hel] at hmem
        cases hmem
      · rw [hinel]
        exact mem_cons_self
      · rw [← hinel]
        exact (hall u).mp hu

theorem Kept.pickRt_spec (hk : Kept s) (h : s.rtBitmap ≠ 0) :
    ∃ t, s.pickRt.2 = some t ∧ (s.rtQueues (s.tasks t).rtIndex).head? = some t ∧
      Least (fun u => -(s.tasks u).priority) (fun u => Queued s u ∧ (s.tasks u).isRt = true) t := by
  obtain ⟨hne, hfirst⟩ := hk.books.trailingZeros h
  unfold EEVDFScheduler.pickRt
  dsimp only
  cases hq : s.rtQueues (Bitmap.trailingZeros s.rtBitmap) with
  | nil => exact absurd hq hne
  | cons t rest =>
    have ht : t ∈ s.rtQueues (Bitmap.trailingZeros s.rtBitmap) := by
      rw [hq]
      exact mem_cons_self
    obtain ⟨hrt, hindex⟩ := hk.books.rt _ t ht
    refine ⟨t, rfl, by rw [hindex, hq]; rfl, ⟨.inl ⟨_, ht⟩, hrt⟩, ?_⟩
    rintro u ⟨hu, hurt⟩
    have hulist : u ∈ s.rtQueues (s.tasks u).rtIndex := by
      rcases hu with ⟨i, hi⟩ | hi
      · rw [(hk.books.rt i u hi).2]
        exact hi
      · rw [hk.books.normal u hi] at hurt
        cases hurt
    have hle : (s.tasks t).rtIndex ≤ (s.tasks u).rtIndex := by
      rw [hindex]
      by_contra hlt
      rw [hfirst _ (Nat.lt_of_not_le hlt)] at hulist
      cases hulist
    simp only [EEVDFTask.isRt, isRtPriority, decide_eq_true_eq] at hrt hurt
    unfold EEVDFTask.rtIndex at hle
    dsimp only
    omega

theorem Kept.referencePick (hk : Kept s) (now : UInt64) : ReferencePick s now := by
  have hclock := hk.frame (frame_advanceClock s now)
  have hbits : (s.advanceClock now).rtBitmap = s.rtBitmap := rfl
  by_cases hbit : s.rtBitmap = 0
  · have hpick : s.pickNextAt now = (s.advanceClock now).pickNormal :=
      if_neg (by rw [hbits]; exact not_not.mpr hbit)
    have hqueued := hk.books.queued_normal hbit
    have hnone (h : ∃ u, Queued s u ∧ (s.tasks u).isRt = true) : False := by
      obtain ⟨u, hu, hrt⟩ := h
      rw [hk.books.normal u ((hqueued u).mp hu)] at hrt
      cases hrt
    have htime : (s.advanceClock now).updateVirtualTime.virtualTime.toNat = s.referenceTime :=
      virtualTime_eq_reference hclock.books.sums
    obtain ⟨hvt, hspec⟩ := hclock.pickNormal_spec
    simp only [UInt64.le_iff_toNat_le, UInt64.lt_iff_toNat_lt, htime] at hspec
    rw [← hvt] at htime
    rw [← hpick] at htime hspec
    constructor
    · cases hres : (s.pickNextAt now).2 with
      | none =>
        rw [hres] at hspec
        refine ⟨fun _ t ht => ?_, fun _ => rfl⟩
        rw [hqueued, show s.linked = [] from hspec] at ht
        cases ht
      | some t =>
        rw [hres] at hspec
        refine ⟨fun h => (by cases h), fun h => absurd ((hqueued t).mpr ?_) (h t)⟩
        rcases hspec with hleast | ⟨-, hleast⟩
        · exact hleast.1.1
        · exact hleast.1
    · exact fun _ _ h => (hnone h).elim
    · exact fun _ => htime
    · intro t hres _ hsome
      obtain ⟨u, hu, hle⟩ := hsome
      rw [hres] at hspec
      rcases hspec with hleast | ⟨hall, -⟩
      · simp only [hqueued]
        exact hleast
      · exact absurd (hall u ((hqueued u).mp hu)) (Nat.not_lt.mpr hle)
    · intro t hres _ hall
      rw [hres] at hspec
      rcases hspec with hleast | ⟨-, hleast⟩
      · exact absurd hleast.1.2 (Nat.not_le.mpr (hall t ((hqueued t).mpr hleast.1.1)))
      · rw [show Queued s = (· ∈ s.linked) from funext fun u => propext (hqueued u)]
        exact hleast
  · have hpick : s.pickNextAt now = (s.advanceClock now).pickRt :=
      if_pos (by rw [hbits]; exact hbit)
    obtain ⟨t, hsome, hhead, hleast⟩ := hclock.pickRt_spec hbit
    have hrt : ∃ u, Queued s u ∧ (s.tasks u).isRt = true := ⟨t, hleast.1⟩
    have hno (h : ∀ u, Queued s u → (s.tasks u).isRt = false) : False := by
      have hfalse := h t hleast.1.1
      rw [show (s.tasks t).isRt = true from hleast.1.2] at hfalse
      cases hfalse
    constructor
    · rw [hpick, hsome]
      exact ⟨fun h => (by cases h), fun h => absurd hleast.1.1 (h t)⟩
    · intro u hu _
      rw [hpick, hsome] at hu
      cases hu
      exact ⟨hhead, hleast⟩
    · exact fun h => (hno h).elim
    · exact fun _ _ h => (hno h).elim
    · exact fun _ _ h => (hno h).elim

section
variable [DecidableEq τ] {S : UInt64}

/-- **After every run the scheduler selects what the reference selects.** -/
theorem run_pick_reference {h : List (Event τ)}
    (hrun : Run Initial (Guarded Contract (Step S)) h s) (now : UInt64) : ReferencePick s now :=
  (run_kept hrun).referencePick now

end

theorem pair_picked : ∃ h, Run Initial (Guarded Contract (Step 1000)) h pairQueued ∧
    (pairQueued.pickNextAt 5).2 = some false ∧ ReferencePick pairQueued 5 :=
  ⟨_, pair_run, by decide +kernel, run_pick_reference pair_run 5⟩

/-- A task that was started while it was queued keeps its place in the eligible tree, and is picked
though it is ahead of the virtual time and the other task is not. -/
theorem ahead_is_picked : ∃ h, Run Initial (Guarded Host (Step 1000)) h pairStarted ∧
    ¬ ReferencePick pairStarted 10 := by
  obtain ⟨h, hrun⟩ := pair_started
  refine ⟨h, hrun, fun href => ?_⟩
  have hnormal : ∀ u, (pairStarted.tasks u).isRt = false := by decide +kernel
  have hwaiting : Queued pairStarted true ∧
      (pairStarted.tasks true).vruntime.toNat ≤ pairStarted.referenceTime :=
    ⟨.inr (by decide +kernel), by decide +kernel⟩
  have hleast := href.eligible false (by decide +kernel) (fun u _ => hnormal u) ⟨true, hwaiting⟩
  exact absurd hleast.1.2 (by decide +kernel)

/-! ## Preemption -/

theorem Kept.query_eq_head (hk : Kept s) (d : UInt64) : (s.hasEligiblePreemption d).2 =
    s.refreshed.normalEligible.head?.any fun t => decide ((s.tasks t).deadline < d) := by
  obtain ⟨-, -, hanswer⟩ := hk.hasEligiblePreemption d
  have hhead := head_preempts_iff hk.refreshed.books d
  rw [tasks_refreshed] at hhead
  rw [Bool.eq_iff_iff, hanswer, hhead]
  simp only [hk.books.mem_eligible_refreshed, and_assoc]

variable (s)

/-- The scheduler without its cache and its deadline bound. -/
def EEVDFScheduler.uncached : EEVDFScheduler τ :=
  { s with normalPreemptionCache := none, normalIneligibleDeadlineLowerBound := none }

theorem updateVirtualTime_uncached :
    s.uncached.updateVirtualTime = s.updateVirtualTime.uncached := by
  unfold updateVirtualTime
  rw [apply_ite uncached]
  rfl

theorem normalEligible_refreshed_uncached :
    s.uncached.refreshed.normalEligible = s.refreshed.normalEligible := by
  rw [(refreshed_spec s).eligible, (refreshed_spec s.uncached).eligible, updateVirtualTime_uncached]
  rfl

theorem query_uncached (d : UInt64) : (s.uncached.hasEligiblePreemption d).2 =
      s.refreshed.normalEligible.head?.any fun t => decide ((s.tasks t).deadline < d) := by
  have hcache : s.uncached.refreshed.normalPreemptionCache = none := by
    rw [(refreshed_spec s.uncached).others, updateVirtualTime_uncached]
    rfl
  unfold hasEligiblePreemption
  dsimp only
  rw [hcache]
  simp only [Option.filter_none, scanPreemption, normalEligible_refreshed_uncached, tasks_refreshed]
  rfl

theorem virtualTime_query (d : UInt64) :
    (s.hasEligiblePreemption d).1.virtualTime = s.updateVirtualTime.virtualTime := by
  rw [← virtualTime_refreshed]
  unfold hasEligiblePreemption
  dsimp only
  split <;> rfl

variable {s}

section
variable [DecidableEq τ] {S : UInt64}

theorem Kept.tickNormal_uncached (hk : Kept s) (t : τ) :
    (s.uncached.tickNormal S t).2 = (s.tickNormal S t).2 := by
  have hquery : (s.uncached.hasEligiblePreemption (s.tasks t).deadline).2 =
      (s.hasEligiblePreemption (s.tasks t).deadline).2 := by
    rw [query_uncached, hk.query_eq_head]
  unfold EEVDFScheduler.tickNormal
  change (if s.rtBitmap ≠ 0 then _ else if s.normalTaskCount = 0 then _
    else if (s.tasks t).deadline ≤ (s.tasks t).vruntime then _ else _ :
      EEVDFScheduler τ × Bool).2 = _
  split
  · rfl
  · split
    · rfl
    · split
      · rfl
      · exact hquery

theorem tickRt_uncached (s : EEVDFScheduler τ) (t : τ) :
    (s.uncached.tickRt t).2 = (s.tickRt t).2 := by
  unfold EEVDFScheduler.tickRt
  dsimp only
  change (if s.rtBitmap ≠ 0 ∧ ((s.tasks t).priority < s.highestReady ∨ (s.highestReady =
    (s.tasks t).priority ∧ ((s.tasks t).isRoundRobin && (s.tasks t).rtRemaining == 0) = true))
      then _ else _ : EEVDFScheduler τ × Bool).2 = _
  split <;> rfl

theorem Kept.tickAt_uncached (hk : Kept s) {t : τ} (hnot : ¬ Queued s t) (now : UInt64) :
    (s.uncached.tickAt S t now).2 = (s.tickAt S t now).2 := by
  have hkept := hk.frame (hk.frame_tick hnot now)
  unfold EEVDFScheduler.tickAt
  dsimp only
  change (if (s.advanceClock now).current = some t ∧ ((s.advanceClock now).tasks t).isRt = true ∧
    (!((s.advanceClock now).tasks t).isRoundRobin) = true then _ else _ :
      EEVDFScheduler τ × Bool).2 = _
  split
  · rfl
  · have hcommute : (if (s.uncached.advanceClock now).current = some t then
        (s.uncached.advanceClock now).modifyTask t (EEVDFTask.accountRuntime now true)
        else (s.uncached.advanceClock now).startRunning t now) =
        (if (s.advanceClock now).current = some t then
        (s.advanceClock now).modifyTask t (EEVDFTask.accountRuntime now true)
        else (s.advanceClock now).startRunning t now).uncached := by
      rw [apply_ite uncached]
      rfl
    rw [hcommute]
    change (if ((s.advanceClock now).tasks t).isRt = true then _ else _ :
      EEVDFScheduler τ × Bool).2 = _
    split
    · exact tickRt_uncached _ t
    · exact hkept.tickNormal_uncached t

/-- A wake-up never looks at them. -/
theorem candidatePreempts_uncached (s : EEVDFScheduler τ) (current candidate : τ) (now : UInt64) :
    (s.uncached.candidatePreempts current candidate now).2 =
      (s.candidatePreempts current candidate now).2 := by
  have hcommute : (if (s.uncached.advanceClock now).current = some current then
      (s.uncached.advanceClock now).modifyTask current (EEVDFTask.accountRuntime now true)
      else s.uncached.advanceClock now) =
      (if (s.advanceClock now).current = some current then
      (s.advanceClock now).modifyTask current (EEVDFTask.accountRuntime now true)
      else s.advanceClock now).uncached := by
    rw [apply_ite uncached]
    rfl
  unfold EEVDFScheduler.candidatePreempts
  dsimp only
  rw [hcommute]
  generalize (if (s.advanceClock now).current = some current then _ else _ :
    EEVDFScheduler τ) = charged
  rw [updateVirtualTime_uncached, show charged.uncached.tasks = charged.tasks from rfl]
  cases (charged.tasks current).isRt <;> cases (charged.tasks candidate).isRt <;> rfl

/-- Answers and decisions, as they are without cache and bound. -/
structure PreemptionExact (S : UInt64) (s : EEVDFScheduler τ) : Prop where
  query : ∀ d, (s.hasEligiblePreemption d).2 = true ↔ ∃ t, Queued s t ∧ (s.tasks t).isRt = false ∧
      (s.tasks t).vruntime ≤ (s.hasEligiblePreemption d).1.virtualTime ∧ (s.tasks t).deadline < d
  tick : ∀ t now, ¬ Queued s t → (s.tickAt S t now).2 = (s.uncached.tickAt S t now).2
  wakeup : ∀ current candidate now, (s.candidatePreempts current candidate now).2 =
    (s.uncached.candidatePreempts current candidate now).2

theorem Kept.preemptionExact (hk : Kept s) : PreemptionExact S s := by
  refine ⟨fun d => ?_, fun t now hnot => (hk.tickAt_uncached hnot now).symm,
    fun current candidate now => (candidatePreempts_uncached s current candidate now).symm⟩
  rw [virtualTime_query, (hk.hasEligiblePreemption d).2.2]
  constructor
  · rintro ⟨t, ht, hle, hlt⟩
    exact ⟨t, .inr ht, hk.books.normal t ht, hle, hlt⟩
  · rintro ⟨t, ht, hnormal, hle, hlt⟩
    refine ⟨t, ht.resolve_left ?_, hle, hlt⟩
    rintro ⟨i, hi⟩
    rw [(hk.books.rt i t hi).1] at hnormal
    cases hnormal

/-- **After every run cache and bound change no answer.** -/
theorem run_preemption_exact {h : List (Event τ)}
    (hrun : Run Initial (Guarded Contract (Step S)) h s) : PreemptionExact S s :=
  (run_kept hrun).preemptionExact

end

theorem pair_preemption : ∃ h, Run Initial (Guarded Contract (Step 1000)) h pairQueued ∧
    (pairQueued.hasEligiblePreemption 1001).2 = true ∧ PreemptionExact 1000 pairQueued :=
  ⟨_, pair_run, by decide +kernel, run_preemption_exact pair_run⟩

/-- The task started while it was queued is no longer eligible, and yet the answer is about it. -/
theorem ahead_preempts : ∃ h, Run Initial (Guarded Host (Step 1000)) h pairStarted ∧
    ¬ PreemptionExact 1000 pairStarted := by
  obtain ⟨h, hrun⟩ := pair_started
  refine ⟨h, hrun, fun hexact => ?_⟩
  obtain ⟨t, -, -, hle, hlt⟩ := (hexact.query 2000).mp (by decide +kernel)
  revert t
  decide +kernel

end PulseOS.Sched
