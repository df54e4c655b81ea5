import PulseOS.Sched.EevdfLink

/-!
# Preemption by queued tasks

`has_eligible_preemption` answers from its cache, from the front of the eligible tree, and looks at
the ineligible tree only when the deadline bound allows it.

* `Kept.hasEligiblePreemption` — the query keeps the books and answers as a full scan would.
-/

namespace PulseOS.Sched

open Saturating EEVDFScheduler List

variable {τ : Type}

theorem virtualTime_refreshed (s : EEVDFScheduler τ) :
    s.refreshed.virtualTime = s.updateVirtualTime.virtualTime := by
  rw [(refreshed_spec s).others]

theorem mem_linked_refreshed (s : EEVDFScheduler τ) (t : τ) :
    t ∈ s.refreshed.linked ↔ t ∈ s.linked := by
  have hqueues := (frame_updateVirtualTime s).queues
  have hel : s.updateVirtualTime.normalEligible = s.normalEligible :=
    congrArg Queues.normalEligible hqueues
  have hinel : s.updateVirtualTime.normalIneligible = s.normalIneligible :=
    congrArg Queues.normalIneligible hqueues
  rw [(refreshed_spec s).perm.mem_iff, linked, linked, hel, hinel]

variable {s : EEVDFScheduler τ}

theorem Books.mem_eligible_refreshed (hb : Books s) (t : τ) : t ∈ s.refreshed.normalEligible ↔
      t ∈ s.linked ∧ (s.tasks t).vruntime ≤ s.updateVirtualTime.virtualTime := by
  have hr := hb.refreshed
  have hspec := refreshed_spec s
  have hsorted := (hb.frame (frame_updateVirtualTime s)).ineligibleSorted
  constructor
  · intro ht
    have hle := hr.eligible t ht
    rw [tasks_refreshed, virtualTime_refreshed] at hle
    exact ⟨(mem_linked_refreshed s t).mp (mem_append_left _ ht), hle⟩
  · rintro ⟨ht, hle⟩
    rcases mem_append.mp ((mem_linked_refreshed s t).mpr ht) with ht | ht
    · exact ht
    · have hlt := hspec.later hsorted ht
      rw [tasks_updateVirtualTime] at hlt
      exact absurd hlt (UInt64.not_lt.mpr hle)

theorem eligible_head_le {t u : τ} {rest : List τ}
    (h : Ordered.Sorted s.eligibleKey (t :: rest)) (hu : u ∈ t :: rest) :
    (s.tasks t).deadline ≤ (s.tasks u).deadline := by
  have hle := h.head_le hu
  rw [eligibleKey, eligibleKey, EEVDFTask.eligibleKey, EEVDFTask.eligibleKey,
    Prod.Lex.toLex_le_toLex] at hle
  rw [UInt64.le_iff_toNat_le]
  omega

theorem ineligible_le {t u : τ} (h : s.ineligibleKey t ≤ s.ineligibleKey u) :
    (s.tasks t).vruntime ≤ (s.tasks u).vruntime := by
  rw [ineligibleKey, ineligibleKey, EEVDFTask.ineligibleKey, EEVDFTask.ineligibleKey,
    Prod.Lex.toLex_le_toLex] at h
  rw [UInt64.le_iff_toNat_le]
  omega

/-- The front of the eligible tree decides. -/
theorem head_preempts_iff (hb : Books s) (d : UInt64) :
    (s.normalEligible.head?.any fun t => decide ((s.tasks t).deadline < d)) = true ↔
      ∃ t ∈ s.normalEligible, (s.tasks t).deadline < d := by
  have hsorted := hb.eligibleSorted
  cases hel : s.normalEligible with
  | nil => simp
  | cons first rest =>
    rw [hel] at hsorted
    simp only [head?_cons, Option.any_some, decide_eq_true_eq]
    constructor
    · exact fun h => ⟨first, mem_cons_self, h⟩
    · rintro ⟨t, ht, hlt⟩
      exact UInt64.lt_of_le_of_lt (eligible_head_le hsorted ht) hlt

theorem find?_least {p : τ → Bool} {l : List τ}
    (h : Ordered.Sorted s.ineligibleKey l) {t : τ} (ht : t ∈ l) (hp : p t = true) :
    ∃ first, l.find? p = some first ∧ (s.tasks first).vruntime ≤ (s.tasks t).vruntime := by
  induction l with
  | nil => cases ht
  | cons u rest ih =>
    by_cases hu : p u = true
    · refine ⟨u, find?_cons_of_pos hu, ineligible_le (h.head_le ht)⟩
    · rw [find?_cons_of_neg hu]
      rcases mem_cons.mp ht with rfl | ht
      · exact absurd hp hu
      · exact ih (pairwise_cons.mp h).2 ht

theorem cacheOk_scan (hb : Books s) (d : UInt64) :
    CacheOk { s with normalPreemptionCache := some (s.scanPreemption d) } := by
  intro c hc
  cases hc
  have hhead := head_preempts_iff hb d
  cases hhas : s.normalEligible.head?.any fun t => decide ((s.tasks t).deadline < d) with
  | true =>
    rw [if_pos (by exact hhas)]
    exact hhead.mp hhas
  | false =>
    rw [if_neg (by simp [scanPreemption, hhas])]
    intro t ht hlt
    have hlt : (s.tasks t).deadline < d := hlt
    rcases mem_append.mp ht with ht | ht
    · exact absurd (hhead.mpr ⟨t, ht, hlt⟩) (by simp [hhas])
    · -- the bound lets the scan of the ineligible tree run
      have hmay : (s.normalIneligibleDeadlineLowerBound.elim (!s.normalIneligible.isEmpty)
          fun deadline => decide (deadline < d)) = true := by
        cases hbound : s.normalIneligibleDeadlineLowerBound with
        | none =>
          have hempty := hb.boundNone.mp hbound
          have ht : t ∈ s.normalIneligible := ht
          rw [hempty] at ht
          cases ht
        | some b =>
          exact decide_eq_true (UInt64.lt_of_le_of_lt (hb.bound b hbound t ht) hlt)
      obtain ⟨first, hfind, hle⟩ := find?_least (p := fun t => decide ((s.tasks t).deadline < d))
        hb.ineligibleSorted ht (decide_eq_true hlt)
      refine ⟨(s.tasks first).vruntime, ?_, hle⟩
      simp [scanPreemption, hhas, hmay, hfind]

theorem CacheOk.answer (hc : CacheOk s) (hb : Books s)
    {c : EligiblePreemptionCache} (hsome : s.normalPreemptionCache = some c)
    (hcovers : c.covers s.virtualTime = true) :
    c.hasEligiblePreemption = true ↔ ∃ t ∈ s.linked, (s.tasks t).vruntime ≤ s.virtualTime ∧
      (s.tasks t).deadline < c.preemptionCurrentDeadline := by
  have hcache := hc c hsome
  cases hhas : c.hasEligiblePreemption with
  | true =>
    rw [if_pos hhas] at hcache
    obtain ⟨t, ht, hlt⟩ := hcache
    exact ⟨fun _ => ⟨t, mem_append_left _ ht, hb.eligible t ht, hlt⟩, fun _ => rfl⟩
  | false =>
    rw [if_neg (by simp [hhas])] at hcache
    refine ⟨fun h => (by cases h), ?_⟩
    rintro ⟨t, ht, hle, hlt⟩
    obtain ⟨threshold, hthreshold, hbelow⟩ := hcache t ht hlt
    simp only [EligiblePreemptionCache.covers, hhas, hthreshold, Bool.false_or, Option.elim_some,
      decide_eq_true_eq] at hcovers
    exact absurd (UInt64.lt_of_lt_of_le hcovers (UInt64.le_trans hbelow hle)) (UInt64.lt_irrefl _)

theorem Kept.hasEligiblePreemption (hk : Kept s) (d : UInt64) : Kept (s.hasEligiblePreemption d).1 ∧
      (∀ u, Queued (s.hasEligiblePreemption d).1 u ↔ Queued s u) ∧
      ((s.hasEligiblePreemption d).2 = true ↔ ∃ t ∈ s.linked,
        (s.tasks t).vruntime ≤ s.updateVirtualTime.virtualTime ∧ (s.tasks t).deadline < d) := by
  have hr := hk.refreshed
  have hanswer : (∃ t ∈ s.refreshed.normalEligible, (s.refreshed.tasks t).deadline < d) ↔
      ∃ t ∈ s.linked, (s.tasks t).vruntime ≤ s.updateVirtualTime.virtualTime ∧
        (s.tasks t).deadline < d := by
    simp only [hk.books.mem_eligible_refreshed, tasks_refreshed, and_assoc]
  unfold EEVDFScheduler.hasEligiblePreemption
  dsimp only
  split
  · rename_i cache hfilter
    rw [Option.filter_eq_some_iff, Bool.and_eq_true, beq_iff_eq] at hfilter
    obtain ⟨hsome, hcovers, rfl⟩ := hfilter
    refine ⟨hr, queued_refreshed s, ?_⟩
    rw [hr.cache.answer hr.books hsome hcovers, tasks_refreshed, virtualTime_refreshed]
    simp only [mem_linked_refreshed]
  · refine ⟨⟨hr.books.setCache _, cacheOk_scan hr.books d⟩, queued_refreshed s, ?_⟩
    rw [← hanswer]
    exact head_preempts_iff hr.books d

end PulseOS.Sched
