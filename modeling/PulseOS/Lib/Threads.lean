import Mathlib.Tactic

/-!
# Counting threads

`count p phase` is the number of threads whose phase satisfies `p`; `count_enter`, `count_stay` and
`count_leave` say how it changes when one thread moves on.  They are cases of `card_filter_update`,
for the members of any finite set.  `total f phase` adds up a quantity over all threads.
-/

namespace PulseOS.Threads

open Function Finset

variable {Thread Phase : Type} [Fintype Thread]

def count (p : Phase → Bool) (phase : Thread → Phase) : Nat :=
  (univ.filter fun t => p (phase t) = true).card

variable {phase : Thread → Phase} {p : Phase → Bool}

theorem count_congr {phase phase' : Thread → Phase} (h : ∀ t, p (phase' t) = p (phase t)) :
    count p phase' = count p phase := by
  simp only [count, h]

theorem count_eq_zero (h : ∀ t, p (phase t) = false) : count p phase = 0 := by
  simp [count, h]

variable {t : Thread} {x : Phase}

theorem count_pos (h : p (phase t) = true) : 0 < count p phase := card_pos.mpr ⟨t, by simp [h]⟩

/-- The members of `s` that `p` counts, when the value at one of them changes. -/
theorem card_filter_update {ι : Type} [DecidableEq ι] {s : Finset ι} {e : ι} (he : e ∈ s)
    (p : Phase → Bool) (f : ι → Phase) (x : Phase) :
    (s.filter fun i => p (update f e x i) = true).card + (if p (f e) then 1 else 0) =
      (s.filter fun i => p (f i) = true).card + if p x then 1 else 0 := by
  have hsplit : ∀ g : ι → Phase, (s.filter fun i => p (g i) = true).card =
      ((s.erase e).filter fun i => p (g i) = true).card + if p (g e) then 1 else 0 := by
    intro g
    conv_lhs => rw [← insert_erase he, filter_insert]
    split
    · rw [card_insert_of_notMem (by simp)]
    · rfl
  have hothers : ((s.erase e).filter fun i => p (update f e x i) = true) =
      (s.erase e).filter fun i => p (f i) = true := by
    refine filter_congr fun i hi => ?_
    rw [update_of_ne (ne_of_mem_erase hi)]
  rw [hsplit f, hsplit (update f e x), hothers, update_self]
  omega

variable [DecidableEq Thread]

theorem count_update (p : Phase → Bool) (phase : Thread → Phase) (t : Thread) (x : Phase) :
    count p (update phase t x) + (if p (phase t) then 1 else 0) =
      count p phase + if p x then 1 else 0 :=
  card_filter_update (mem_univ t) p phase x

/-- A thread that enters a phase counted by `p`. -/
theorem count_enter (hold : p (phase t) = false) (hnew : p x = true) :
    count p (update phase t x) = count p phase + 1 := by
  have h := count_update p phase t x
  rw [hold, hnew] at h
  exact h

/-- A thread that stays inside or outside the phases counted by `p`. -/
theorem count_stay (h : p x = p (phase t)) : count p (update phase t x) = count p phase := by
  have hupdate := count_update p phase t x
  rw [h] at hupdate
  exact Nat.add_right_cancel hupdate

/-- A thread that leaves the phases counted by `p`. -/
theorem count_leave (hold : p (phase t) = true) (hnew : p x = false) :
    count p (update phase t x) + 1 = count p phase := by
  have h := count_update p phase t x
  rw [hold, hnew] at h
  exact h

/-- A quantity of the phases, over all threads. -/
def total (f : Phase → Nat) (phase : Thread → Phase) : Nat := ∑ t, f (phase t)

/-- The total when one thread moves on, without a subtraction. -/
theorem total_update (f : Phase → Nat) (h : phase t = x) (y : Phase) :
    total f (update phase t y) + f x = total f phase + f y := by
  unfold total
  rw [← add_sum_erase _ _ (mem_univ t),
    ← add_sum_erase _ (fun u => f (phase u)) (mem_univ t), update_self, h]
  have hothers : ∑ u ∈ univ.erase t, f (update phase t y u) = ∑ u ∈ univ.erase t, f (phase u) := by
    refine sum_congr rfl fun u hu => ?_
    rw [update_of_ne (ne_of_mem_erase hu)]
  rw [hothers]
  omega

end PulseOS.Threads
