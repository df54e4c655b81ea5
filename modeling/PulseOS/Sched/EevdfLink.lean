import PulseOS.Sched.EevdfBooks

/-!
# Tasks that enter and leave the queues

Linking and unlinking keep the books.

* `Books.insertNormal` — an ordinary task enters a tree; `Sums.exact` says that the `u128`
  sums do not saturate.
* `Books.unlinkEligible`, `Books.unlinkIneligible` — an ordinary task leaves its tree.
-/

namespace PulseOS.Sched

open Bitmap Saturating EEVDFScheduler Function List Ordered EEVDFTask

variable {τ : Type}

/-! ## Linking ordinary tasks -/

theorem weightForPriority_bounds (priority : Int) :
    0 < weightForPriority priority ∧ weightForPriority priority ≤ 88761 := by
  have htable : ∀ n < 40, 0 < NICE_TO_WEIGHT.getD n 0 ∧ NICE_TO_WEIGHT.getD n 0 ≤ 88761 := by decide
  unfold weightForPriority
  split
  · rename_i hnormal
    simp only [isNormalPriority, decide_eq_true_eq] at hnormal
    exact htable _ (by omega)
  · decide

variable (s : EEVDFScheduler τ)

theorem weights_le (l : List τ) : s.weights l ≤ l.length * 88761 := by
  have h := sum_le_card_nsmul (l.map fun t => (s.tasks t).weight) 88761 (by
    intro w hw
    obtain ⟨t, -, rfl⟩ := mem_map.mp hw
    exact (weightForPriority_bounds _).2)
  simpa [weights] using h

theorem weightedVruntime_le (task : EEVDFTask) :
    task.vruntime.toNat * task.weight ≤ 0xFFFFFFFFFFFFFFFF * 88761 := by
  have h := task.vruntime.toNat_lt
  exact Nat.mul_le_mul (by omega) (weightForPriority_bounds _).2

theorem weightedVruntimes_le (l : List τ) :
    s.weightedVruntimes l ≤ l.length * (0xFFFFFFFFFFFFFFFF * 88761) := by
  have h := sum_le_card_nsmul
    (l.map fun t => (s.tasks t).vruntime.toNat * (s.tasks t).weight) (0xFFFFFFFFFFFFFFFF * 88761)
    (by
      intro w hw
      obtain ⟨t, -, rfl⟩ := mem_map.mp hw
      exact weightedVruntime_le _)
  simpa [weightedVruntimes] using h

/-- The sums are those over the linked tasks, which are few. -/
structure Sums : Prop where
  few : s.linked.length < TASK_LIMIT
  totalWeight : s.normalTotalWeight = s.weights s.linked
  weightedVruntime : s.normalWeightedVruntime = s.weightedVruntimes s.linked

variable {s : EEVDFScheduler τ}

theorem Books.sums (hb : Books s) : Sums s := ⟨hb.few, hb.totalWeight, hb.weightedVruntime⟩

theorem Sums.exact (hs : Sums s) (task : EEVDFTask) :
    min (task.vruntime.toNat * task.weight) U128_MAX = task.vruntime.toNat * task.weight ∧
      s.normalTotalWeight + task.weight ≤ U128_MAX ∧
      s.normalWeightedVruntime + task.vruntime.toNat * task.weight ≤ U128_MAX := by
  have hw := weights_le s s.linked
  have hv := weightedVruntimes_le s s.linked
  have hweight := (weightForPriority_bounds task.priority).2
  have hproduct := weightedVruntime_le task
  have hfew := hs.few
  rw [← hs.totalWeight] at hw
  rw [← hs.weightedVruntime] at hv
  unfold TASK_LIMIT at hfew
  unfold weight at hproduct ⊢
  unfold U128_MAX
  omega

/-- A task about to be linked. -/
structure Outside (s : EEVDFScheduler τ) (t : τ) : Prop where
  notQueued : ¬ Queued s t
  normal : (s.tasks t).isRt = false
  running : (s.tasks t).running = false
  current : s.current ≠ some t

theorem Books.linkNormal_trees (hb : Books s) (t : τ) : Trees (s.linkNormal t) := by
  unfold linkNormal
  dsimp only
  split
  · rename_i hle
    refine ⟨fun u hu => ?_, hb.eligibleSorted.insert t, hb.ineligibleSorted, hb.boundNone, hb.bound⟩
    rcases mem_insert.mp hu with rfl | hu
    · exact hle
    · exact hb.eligible u hu
  · refine ⟨hb.eligible, hb.eligibleSorted, hb.ineligibleSorted.insert t, ?_,
      fun b hbound u hu => ?_⟩
    · have hmem : t ∈ insert s.ineligibleKey t s.normalIneligible :=
        mem_insert.mpr (.inl rfl)
      refine ⟨fun h => absurd h (by simp [insertNormalIneligible]), fun h => ?_⟩
      have hnil : insert s.ineligibleKey t s.normalIneligible = [] := h
      rw [hnil] at hmem
      cases hmem
    · have hb' : s.normalIneligibleDeadlineLowerBound.elim (s.tasks t).deadline
          (fun bound => min bound (s.tasks t).deadline) = b := Option.some.inj hbound
      have hu : u = t ∨ u ∈ s.normalIneligible := mem_insert.mp hu
      subst hb'
      cases hold : s.normalIneligibleDeadlineLowerBound with
      | none =>
        rcases hu with rfl | hu
        · exact UInt64.le_refl _
        · rw [hb.boundNone.mp hold] at hu
          cases hu
      | some bound =>
        rw [Option.elim_some, UInt64.le_iff_toNat_le, UInt64.toNat_min]
        rcases hu with rfl | hu
        · exact min_le_right _ _
        · exact (min_le_left _ _).trans (UInt64.le_iff_toNat_le.mp (hb.bound bound hold u hu))

variable (s)

theorem linkNormal_perm (t : τ) : (s.linkNormal t).linked.Perm (t :: s.linked) := by
  unfold linkNormal
  dsimp only
  split
  · exact (insert_perm _ t _).append_right _
  · exact ((insert_perm _ t _).append_left _).trans perm_middle

theorem linkNormal_others (t : τ) : s.linkNormal t = { s with
      normalEligible := (s.linkNormal t).normalEligible
      normalIneligible := (s.linkNormal t).normalIneligible
      normalIneligibleDeadlineLowerBound := (s.linkNormal t).normalIneligibleDeadlineLowerBound
      normalTaskCount := min (s.normalTaskCount + 1) USIZE_MAX
      normalTotalWeight := min (s.normalTotalWeight + (s.tasks t).weight) U128_MAX
      normalWeightedVruntime := min (s.normalWeightedVruntime +
        min ((s.tasks t).vruntime.toNat * (s.tasks t).weight) U128_MAX) U128_MAX } := by
  unfold linkNormal
  dsimp only
  split <;> rfl

theorem queued_linkNormal (t u : τ) : Queued (s.linkNormal t) u ↔ Queued s u ∨ u = t := by
  have hrt : (s.linkNormal t).rtQueues = s.rtQueues := by rw [linkNormal_others]
  rw [Queued, Queued, hrt, (linkNormal_perm s t).mem_iff, mem_cons]
  tauto

variable {s} {queue : List τ} {t : τ}

theorem Books.linkNormal (hb : Books s) (ht : Outside s t)
    (hfew : s.linked.length + 1 < TASK_LIMIT) : Books (s.linkNormal t) := by
  have htrees := hb.linkNormal_trees t
  have hperm := linkNormal_perm s t
  have hothers := linkNormal_others s t
  generalize s.linkNormal t = s' at htrees hperm hothers ⊢
  obtain ⟨hproduct, hweight, hweighted⟩ := hb.sums.exact (s.tasks t)
  have htasks : s'.tasks = s.tasks := by rw [hothers]
  have hrt : s'.rtQueues = s.rtQueues := by rw [hothers]
  refine ⟨htrees, ?_, ?_, ?_, fun u hu => ?_, ?_, ?_, ?_, ?_, ?_, fun u hu => ?_, ?_⟩
  · rw [hrt, htasks]
    exact hb.rt
  · rw [hrt]
    exact hb.rtNodup
  · rw [hrt, hothers]
    exact hb.bitmap
  · rw [htasks]
    rcases mem_cons.mp (hperm.mem_iff.mp hu) with rfl | hu
    · exact ht.normal
    · exact hb.normal u hu
  · refine hperm.nodup_iff.mpr (nodup_cons.mpr ⟨fun hmem => ?_, hb.nodup⟩)
    exact ht.notQueued (.inr hmem)
  · rw [hperm.length_eq, hothers, length_cons, hb.count]
    unfold TASK_LIMIT at hfew
    unfold USIZE_MAX
    dsimp only
    omega
  · rw [hperm.length_eq]
    exact hfew
  · rw [weights, (hperm.map _).sum_eq, map_cons, sum_cons, htasks, hothers]
    dsimp only
    rw [hb.totalWeight] at hweight ⊢
    rw [min_eq_left hweight, add_comm]
    rfl
  · rw [weightedVruntimes, (hperm.map _).sum_eq, map_cons, sum_cons, htasks, hothers]
    dsimp only
    rw [hproduct]
    rw [hb.weightedVruntime] at hweighted ⊢
    rw [min_eq_left hweighted, add_comm]
    rfl
  · rw [htasks]
    rw [Queued, hrt, hperm.mem_iff, mem_cons] at hu
    rcases hu with hu | rfl | hu
    · exact hb.idle u (.inl hu)
    · exact ht.running
    · exact hb.idle u (.inr hu)
  · have hcur : s'.current = s.current := by rw [hothers]
    rw [hcur, htasks]
    exact hb.current

theorem Books.setCache (hb : Books s) (cache : Option EligiblePreemptionCache) :
    Books { s with normalPreemptionCache := cache } :=
  ⟨⟨hb.eligible, hb.eligibleSorted, hb.ineligibleSorted, hb.boundNone, hb.bound⟩, hb.rt, hb.rtNodup,
    hb.bitmap, hb.normal, hb.nodup, hb.count, hb.few, hb.totalWeight, hb.weightedVruntime, hb.idle,
    hb.current⟩

variable (s : EEVDFScheduler τ)

theorem queued_setCache (cache : Option EligiblePreemptionCache) (t : τ) :
    Queued { s with normalPreemptionCache := cache } t ↔ Queued s t :=
  Iff.rfl

theorem cacheOk_none : CacheOk { s with normalPreemptionCache := none } :=
  nofun

/-- Books and cache: what holds between two calls. -/
structure Kept : Prop where
  books : Books s
  cache : CacheOk s

variable {s s' : EEVDFScheduler τ} {bitmap : BitVec 128}

theorem Kept.frame (hk : Kept s) (h : Frame s s') : Kept s' := ⟨hk.books.frame h, hk.cache.frame h⟩

theorem refreshed_spec (s : EEVDFScheduler τ) :
    Promoted s.updateVirtualTime s.refreshed s.updateVirtualTime.virtualTime :=
  promote_spec _ _

theorem Books.refreshed (hb : Books s) : Books s.refreshed :=
  (hb.frame (frame_updateVirtualTime s)).promote (refreshed_spec s) (UInt64.le_refl _)

theorem Kept.refreshed (hk : Kept s) : Kept s.refreshed :=
  ⟨hk.books.refreshed, (hk.cache.frame (frame_updateVirtualTime s)).promote (refreshed_spec s)⟩

variable (s)

theorem queued_refreshed (t : τ) : Queued s.refreshed t ↔ Queued s t :=
  ((refreshed_spec s).queued t).trans (queued_of_queues (frame_updateVirtualTime s).queues t)

theorem tasks_refreshed : s.refreshed.tasks = s.tasks := by
  rw [(refreshed_spec s).others]
  exact tasks_updateVirtualTime s

theorem current_refreshed : s.refreshed.current = s.current := by
  rw [(refreshed_spec s).others]
  exact current_updateVirtualTime s

theorem length_refreshed : s.refreshed.linked.length = s.linked.length := by
  have hqueues := (frame_updateVirtualTime s).queues
  have hel := congrArg Queues.normalEligible hqueues
  have hinel := congrArg Queues.normalIneligible hqueues
  rw [(refreshed_spec s).perm.length_eq, linked, linked]
  exact congrArg length (congrArg₂ (· ++ ·) hel hinel)

variable {s}

theorem Outside.of (h : Outside s t)
    (hq : Queued s' t → Queued s t) (hprio : (s'.tasks t).priority = (s.tasks t).priority)
    (hrun : (s'.tasks t).running = (s.tasks t).running) (hcur : s'.current = s.current) :
    Outside s' t where
  notQueued hq' := h.notQueued (hq hq')
  normal := by rw [isRt, hprio, ← h.normal, isRt]
  running := hrun.trans h.running
  current := by
    rw [hcur]
    exact h.current

section
variable [DecidableEq τ]

/-- **Inserting an ordinary task keeps the books.** -/
theorem Books.insertNormal {s : EEVDFScheduler τ} (hb : Books s) {t : τ} (ht : Outside s t)
    (hfew : s.linked.length + 1 < TASK_LIMIT) :
    Kept (s.insertNormal t) ∧ ∀ u, Queued (s.insertNormal t) u ↔ Queued s u ∨ u = t := by
  unfold EEVDFScheduler.insertNormal
  dsimp only
  have ht₁ : Outside s.refreshed t := ht.of (queued_refreshed s t).mp (by rw [tasks_refreshed])
    (by rw [tasks_refreshed]) (current_refreshed s)
  have hb₁ := hb.refreshed
  have hlen := length_refreshed s
  have hqueued := queued_refreshed s
  generalize s.refreshed = s₁ at ht₁ hb₁ hlen hqueued ⊢
  generalize hs₂ : ({ s₁ with sequence := nextSequence s₁.sequence }).modifyTask t
    (fun task => { task with queueId := nextSequence s₁.sequence }) = s₂
  have hframe : Frame s₁ s₂ := by
    have hseq : Frame s₁ { s₁ with sequence := nextSequence s₁.sequence } :=
      ⟨rfl, UInt64.le_refl _, fun _ _ => .refl _, id⟩
    rw [← hs₂]
    exact hseq.trans (frame_modifyTask (fun hq => absurd hq ht₁.notQueued) fun _ h => h)
  have ht₂ := ht₁.of (queued_of_queues hframe.queues t).mp (by rw [← hs₂, tasks_modifyTask])
    (by rw [← hs₂, tasks_modifyTask]) (by rw [← hs₂]; rfl)
  have hlen₂ : s₂.linked.length = s.linked.length := by
    rw [← hs₂]
    exact hlen
  have hb₂ := (hb₁.frame hframe).linkNormal ht₂ (by rw [hlen₂]; exact hfew)
  refine ⟨⟨hb₂.refreshed.setCache none, cacheOk_none _⟩, fun u => ?_⟩
  have hlink : Queued (s₂.linkNormal t).refreshed u ↔ Queued s₂ u ∨ u = t :=
    (queued_refreshed _ u).trans (queued_linkNormal s₂ t u)
  rw [queued_of_queues hframe.queues, hqueued] at hlink
  rw [queued_setCache]
  exact hlink

end

/-! ## Unlinking ordinary tasks -/

/-- The task `t` is the only one that left the queues. -/
structure Leaves (s s' : EEVDFScheduler τ) (t : τ) : Prop where
  kept : Kept s'
  wasQueued : Queued s t
  queued : ∀ u, Queued s' u ↔ Queued s u ∧ u ≠ t

theorem Books.unlink {s₁ : EEVDFScheduler τ} (hb : Books s) (htrees : Trees s₁)
    (hperm : s.linked.Perm (t :: s₁.linked)) (hsame : SameButTrees s s₁) :
    Leaves s (s₁.finishNormalRemove t) t := by
  have htasks : s₁.tasks = s.tasks := by rw [hsame]
  have hrt : s₁.rtQueues = s.rtQueues := by rw [hsame]
  have hmem : t ∈ s.linked := hperm.mem_iff.mpr mem_cons_self
  have hnodup := nodup_cons.mp (hperm.nodup_iff.mp hb.nodup)
  have hproduct := (hb.sums.exact (s.tasks t)).1
  have hqueued : ∀ u, Queued (s₁.finishNormalRemove t) u ↔ Queued s u ∧ u ≠ t := by
    intro u
    change (∃ i, u ∈ s₁.rtQueues i) ∨ u ∈ s₁.linked ↔ _
    rw [Queued, hrt, hperm.mem_iff, mem_cons]
    constructor
    · rintro (⟨i, hi⟩ | hu)
      · refine ⟨.inl ⟨i, hi⟩, fun h => ?_⟩
        subst h
        have hrt' := (hb.rt i u hi).1
        rw [hb.normal u hmem] at hrt'
        cases hrt'
      · exact ⟨.inr (.inr hu), fun h => hnodup.1 (h ▸ hu)⟩
    · rintro ⟨hi | rfl | hu, hne⟩
      · exact .inl hi
      · exact absurd rfl hne
      · exact .inr hu
  refine ⟨⟨?_, fun c h => by cases h⟩, .inr hmem, hqueued⟩
  refine ⟨⟨htrees.eligible, htrees.eligibleSorted, htrees.ineligibleSorted, htrees.boundNone,
    htrees.bound⟩, ?_, ?_, ?_, fun u hu => ?_, hnodup.2, ?_, ?_, ?_, ?_, fun u hu => ?_, ?_⟩
  · change ∀ i, ∀ u ∈ s₁.rtQueues i, (s₁.tasks u).isRt = true ∧ (s₁.tasks u).rtIndex = i
    rw [hrt, htasks]
    exact hb.rt
  · change ∀ i, (s₁.rtQueues i).Nodup
    rw [hrt]
    exact hb.rtNodup
  · change ∀ i, s₁.rtBitmap.getLsbD i = true ↔ s₁.rtQueues i ≠ []
    rw [hrt, hsame]
    exact hb.bitmap
  · change (s₁.tasks u).isRt = false
    rw [htasks]
    exact hb.normal u (hperm.mem_iff.mpr (mem_cons_of_mem _ hu))
  · have hcount : s₁.normalTaskCount = s₁.linked.length + 1 := by
      rw [← length_cons (a := t), ← hperm.length_eq, ← hb.count, hsame]
    exact Nat.sub_eq_of_eq_add hcount
  · have hlen := hperm.length_eq
    rw [length_cons] at hlen
    have hfew := hb.few
    change s₁.linked.length < TASK_LIMIT
    omega
  · have hsum : s.normalTotalWeight = (s.tasks t).weight + s.weights s₁.linked := by
      rw [hb.totalWeight, weights, (hperm.map _).sum_eq]
      rfl
    change s₁.normalTotalWeight - (s₁.tasks t).weight = s₁.weights s₁.linked
    rw [weights, htasks, hsame]
    change s.normalTotalWeight - (s.tasks t).weight = s.weights s₁.linked
    omega
  · have hsum : s.normalWeightedVruntime =
        (s.tasks t).vruntime.toNat * (s.tasks t).weight + s.weightedVruntimes s₁.linked := by
      rw [hb.weightedVruntime, weightedVruntimes, (hperm.map _).sum_eq]
      rfl
    change s₁.normalWeightedVruntime -
      min ((s₁.tasks t).vruntime.toNat * (s₁.tasks t).weight) U128_MAX =
        s₁.weightedVruntimes s₁.linked
    rw [weightedVruntimes, htasks, hproduct, hsame]
    change s.normalWeightedVruntime - _ = s.weightedVruntimes s₁.linked
    omega
  · change (s₁.tasks u).running = false
    rw [htasks]
    exact hb.idle u ((hqueued u).mp hu).1
  · change ∀ u, s₁.current = some u → (s₁.tasks u).running = true
    rw [htasks, hsame]
    exact hb.current

section
variable [DecidableEq τ] {s : EEVDFScheduler τ}

theorem Books.unlinkEligible (hb : Books s) {t : τ} (ht : t ∈ s.normalEligible) :
    Leaves s (({ s with normalEligible := s.normalEligible.erase t }).finishNormalRemove t) t := by
  have hsub : (s.normalEligible.erase t).Sublist s.normalEligible := erase_sublist
  refine hb.unlink ⟨fun u hu => hb.eligible u (hsub.subset hu), hb.eligibleSorted.sublist hsub,
    hb.ineligibleSorted, hb.boundNone, hb.bound⟩ ?_ rfl
  exact (perm_cons_erase ht).append_right s.normalIneligible

theorem Books.unlinkIneligible (hb : Books s) {t : τ} (ht : t ∈ s.normalIneligible) :
    Leaves s (({ s with normalIneligible := s.normalIneligible.erase t }).noteNormalIneligibleRemove
      |>.finishNormalRemove t) t := by
  have hsub : (s.normalIneligible.erase t).Sublist s.normalIneligible := erase_sublist
  have hperm : s.linked.Perm (t :: (s.normalEligible ++ s.normalIneligible.erase t)) :=
    ((perm_cons_erase ht).append_left _).trans perm_middle
  unfold noteNormalIneligibleRemove
  split
  · rename_i hempty
    rw [List.isEmpty_iff] at hempty
    refine hb.unlink ⟨hb.eligible, hb.eligibleSorted, hb.ineligibleSorted.sublist hsub,
      ⟨fun _ => hempty, fun _ => rfl⟩, nofun⟩ hperm rfl
  · rename_i hne
    rw [List.isEmpty_iff] at hne
    refine hb.unlink ⟨hb.eligible, hb.eligibleSorted, hb.ineligibleSorted.sublist hsub,
      ⟨fun h => ?_, fun h => absurd h hne⟩,
      fun b h u hu => hb.bound b h u (hsub.subset hu)⟩ hperm rfl
    rw [hb.boundNone.mp h] at ht
    cases ht

end

/-! ## Real-time lists -/

theorem rtIndex_lt {task : EEVDFTask} (h : task.isRt = true) : task.rtIndex < 99 := by
  simp only [isRt, isRtPriority, decide_eq_true_eq] at h
  unfold rtIndex
  omega

/-- The scheduler with another list at one index. -/
def EEVDFScheduler.withRt (s : EEVDFScheduler τ) (i : Nat) (queue : List τ) (bitmap : BitVec 128) :
    EEVDFScheduler τ :=
  { s with rtQueues := update s.rtQueues i queue, rtBitmap := bitmap }

theorem mem_withRt {i j : Nat} :
    t ∈ (s.withRt i queue bitmap).rtQueues j ↔ if j = i then t ∈ queue else t ∈ s.rtQueues j := by
  unfold withRt
  dsimp only
  split
  · rename_i h
    rw [h, update_self]
  · rename_i h
    rw [update_of_ne h]

theorem Kept.withRt (hk : Kept s) {i : Nat}
    (hqueue : ∀ t ∈ queue, (s.tasks t).isRt = true ∧ (s.tasks t).rtIndex = i ∧
      (s.tasks t).running = false) (hnodup : queue.Nodup)
    (hbitmap : ∀ j, bitmap.getLsbD j = true ↔ if j = i then queue ≠ [] else s.rtQueues j ≠ []) :
    Kept (s.withRt i queue bitmap) := by
  have hb := hk.books
  refine ⟨⟨⟨hb.eligible, hb.eligibleSorted, hb.ineligibleSorted, hb.boundNone, hb.bound⟩,
    fun j t ht => ?_, fun j => ?_, fun j => ?_, hb.normal, hb.nodup, hb.count, hb.few,
    hb.totalWeight, hb.weightedVruntime, fun t ht => ?_, hb.current⟩, hk.cache⟩
  · rw [mem_withRt] at ht
    split at ht
    · rename_i hj
      rw [hj]
      exact ⟨(hqueue t ht).1, (hqueue t ht).2.1⟩
    · exact hb.rt j t ht
  · change (update s.rtQueues i queue j).Nodup
    by_cases hj : j = i
    · rw [hj, update_self]
      exact hnodup
    · rw [update_of_ne hj]
      exact hb.rtNodup j
  · change bitmap.getLsbD j = true ↔ update s.rtQueues i queue j ≠ []
    rw [hbitmap]
    by_cases hj : j = i
    · rw [if_pos hj, hj, update_self]
    · rw [if_neg hj, update_of_ne hj]
  · rcases ht with ⟨j, hj⟩ | ht
    · rw [mem_withRt] at hj
      split at hj
      · exact (hqueue t hj).2.2
      · exact hb.idle t (.inl ⟨j, hj⟩)
    · exact hb.idle t (.inr ht)

/-- **A real-time task enters the list of its priority.** -/
theorem Kept.pushRt (hk : Kept s) (hrt : (s.tasks t).isRt = true)
    (hnot : ¬ Queued s t) (hrun : (s.tasks t).running = false)
    (hperm : queue.Perm (t :: s.rtQueues (s.tasks t).rtIndex)) :
    Kept (s.withRt (s.tasks t).rtIndex queue (s.rtBitmap ||| (1#128 <<< (s.tasks t).rtIndex))) ∧
      ∀ u, Queued (s.withRt (s.tasks t).rtIndex queue
        (s.rtBitmap ||| (1#128 <<< (s.tasks t).rtIndex))) u ↔ Queued s u ∨ u = t := by
  have hb := hk.books
  have hindex := rtIndex_lt hrt
  have hmem : ∀ u, u ∈ queue ↔ u = t ∨ u ∈ s.rtQueues (s.tasks t).rtIndex := fun u => by
    rw [hperm.mem_iff, mem_cons]
  constructor
  · refine hk.withRt (fun u hu => ?_) ?_ fun j => ?_
    · rcases (hmem u).mp hu with rfl | hu
      · exact ⟨hrt, rfl, hrun⟩
      · obtain ⟨hurt, huidx⟩ := hb.rt _ u hu
        exact ⟨hurt, huidx, hb.idle u (.inl ⟨_, hu⟩)⟩
    · refine hperm.nodup_iff.mpr (nodup_cons.mpr ⟨fun hu => ?_, hb.rtNodup _⟩)
      exact hnot (.inl ⟨_, hu⟩)
    · rw [getLsbD_set _ (by omega), Bool.or_eq_true, hb.bitmap, decide_eq_true_eq]
      split
      · rename_i hj
        have hne : queue ≠ [] := by
          rintro rfl
          exact absurd ((hmem t).mpr (.inl rfl)) not_mem_nil
        exact ⟨fun _ => hne, fun _ => .inr hj⟩
      · rename_i hj
        exact ⟨fun h => h.resolve_right hj, .inl⟩
  · intro u
    constructor
    · rintro (⟨j, hj⟩ | hu)
      · rw [mem_withRt] at hj
        split at hj
        · rcases (hmem u).mp hj with rfl | hu
          · exact .inr rfl
          · exact .inl (.inl ⟨_, hu⟩)
        · exact .inl (.inl ⟨j, hj⟩)
      · exact .inl (.inr hu)
    · rintro ((⟨j, hj⟩ | hu) | rfl)
      · refine .inl ⟨j, mem_withRt.mpr ?_⟩
        split
        · rename_i h
          exact (hmem u).mpr (.inr (h ▸ hj))
        · exact hj
      · exact .inr hu
      · exact .inl ⟨_, mem_withRt.mpr (by rw [if_pos rfl]; exact (hmem u).mpr (.inl rfl))⟩

/-- The bitmap after a list has lost a task. -/
def clearedBitmap (bitmap : BitVec 128) (i : Nat) (queue : List τ) : BitVec 128 :=
  if queue.isEmpty then bitmap &&& ~~~(1#128 <<< i) else bitmap

/-- **A real-time task leaves the list of its priority.** -/
theorem Kept.eraseRt (hk : Kept s) {i : Nat} (hperm : (s.rtQueues i).Perm (t :: queue)) :
    Leaves s (s.withRt i queue (clearedBitmap s.rtBitmap i queue)) t := by
  have hb := hk.books
  have hmem : ∀ u, u ∈ s.rtQueues i ↔ u = t ∨ u ∈ queue := fun u => by
    rw [hperm.mem_iff, mem_cons]
  have hnodup := nodup_cons.mp (hperm.nodup_iff.mp (hb.rtNodup i))
  have ht : t ∈ s.rtQueues i := (hmem t).mpr (.inl rfl)
  obtain ⟨hrt, hidx⟩ := hb.rt i t ht
  have hindex : i < 128 := by
    have := rtIndex_lt hrt
    omega
  refine ⟨hk.withRt (fun u hu => ?_) hnodup.2 fun j => ?_, .inl ⟨i, ht⟩, fun u => ?_⟩
  · have hu' := (hmem u).mpr (.inr hu)
    obtain ⟨hurt, huidx⟩ := hb.rt i u hu'
    exact ⟨hurt, huidx, hb.idle u (.inl ⟨i, hu'⟩)⟩
  · unfold clearedBitmap
    split
    · rename_i hempty
      rw [List.isEmpty_iff] at hempty
      rw [getLsbD_clear _ hindex, Bool.and_eq_true, decide_eq_true_eq, hb.bitmap]
      split
      · rename_i hj
        exact ⟨fun h => absurd hj h.2, fun h => absurd hempty h⟩
      · rename_i hj
        exact ⟨fun h => h.1, fun h => ⟨h, hj⟩⟩
    · rename_i hne
      rw [List.isEmpty_iff] at hne
      rw [hb.bitmap]
      split
      · rename_i hj
        subst hj
        exact ⟨fun _ => hne, fun _ => ne_nil_of_mem ht⟩
      · exact Iff.rfl
  · constructor
    · rintro (⟨j, hj⟩ | hu)
      · rw [mem_withRt] at hj
        split at hj
        · exact ⟨.inl ⟨i, (hmem u).mpr (.inr hj)⟩, fun h => hnodup.1 (h ▸ hj)⟩
        · rename_i hji
          refine ⟨.inl ⟨j, hj⟩, ?_⟩
          rintro rfl
          exact hji ((hb.rt j u hj).2.symm.trans hidx)
      · refine ⟨.inr hu, ?_⟩
        rintro rfl
        rw [hb.normal u hu] at hrt
        cases hrt
    · rintro ⟨⟨j, hj⟩ | hu, hne⟩
      · refine .inl ⟨j, mem_withRt.mpr ?_⟩
        split
        · rename_i hji
          subst hji
          exact ((hmem u).mp hj).resolve_left hne
        · exact hj
      · exact .inr hu

end PulseOS.Sched
