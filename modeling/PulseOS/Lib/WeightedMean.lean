import Mathlib.Tactic

/-!
# Weighted means of natural numbers

Every element `t` of a list has a weight `w t` and a value `v t`.  Means are rounded down.

* `mean_mul_le`, `mean_mul_le_cons` — a mean lies below the sums it was taken from, and stays below
  them when an element joins that is not behind it.
* `behind_le` — where no value is ahead of a time below the mean by more than its allowance, none is
  behind it by more than the allowances of the others.
-/

namespace PulseOS.WeightedMean

open List

variable {τ : Type}

def total (w : τ → Nat) (l : List τ) : Nat := (l.map w).sum

def weighted (w v : τ → Nat) (l : List τ) : Nat := (l.map fun t => v t * w t).sum

/-- The weighted mean, rounded down. -/
def mean (w v : τ → Nat) (l : List τ) : Nat := weighted w v l / total w l

variable {w v r : τ → Nat} {l l' : List τ} {t : τ} {V : Nat}

@[simp]
theorem total_cons : total w (t :: l) = w t + total w l := sum_cons

@[simp]
theorem weighted_cons : weighted w v (t :: l) = v t * w t + weighted w v l := sum_cons

theorem total_perm (h : l.Perm l') : total w l = total w l' := (h.map w).sum_eq

theorem weighted_perm (h : l.Perm l') : weighted w v l = weighted w v l' := (h.map _).sum_eq

theorem mean_perm (h : l.Perm l') : mean w v l = mean w v l' := by
  rw [mean, mean, weighted_perm h, total_perm h]

variable {v' w' : τ → Nat}

theorem total_congr (h : ∀ t ∈ l, w t = w' t) : total w l = total w' l :=
  congrArg List.sum (map_congr_left h)

section
variable (hw : ∀ t ∈ l, w t = w' t) (hv : ∀ t ∈ l, v t = v' t)
include hw hv

theorem weighted_congr : weighted w v l = weighted w' v' l :=
  congrArg List.sum (map_congr_left fun t ht => by rw [hw t ht, hv t ht])

theorem mean_congr : mean w v l = mean w' v' l := by
  rw [mean, mean, weighted_congr hw hv, total_congr hw]

end

theorem mean_zero (h : ∀ t ∈ l, v t = 0) : mean w v l = 0 := by
  have hsum : weighted w v l = 0 := by
    refine sum_eq_zero fun x hx => ?_
    obtain ⟨t, ht, rfl⟩ := mem_map.mp hx
    rw [h t ht, Nat.zero_mul]
  rw [mean, hsum, Nat.zero_div]

/-- Larger values give a larger sum. -/
theorem weighted_le (h : ∀ t ∈ l, v t ≤ v' t) : weighted w v l ≤ weighted w v' l :=
  sum_le_sum fun t ht => Nat.mul_le_mul_right _ (h t ht)

theorem weighted_const (c : Nat) : weighted w (fun _ => c) l = c * total w l := sum_map_mul_left ..

theorem weighted_add : weighted w (fun t => v t + r t) l = weighted w v l + weighted w r l := by
  rw [weighted, weighted, weighted, ← sum_map_add]
  exact congrArg List.sum (map_congr_left fun t _ => Nat.add_mul ..)

/-- **Some value is at most the mean.** -/
theorem exists_le_mean (h : 0 < total w l) : ∃ t ∈ l, v t ≤ mean w v l := by
  by_contra hno
  push Not at hno
  have hsum : (mean w v l + 1) * total w l ≤ weighted w v l := by
    rw [← weighted_const]
    exact weighted_le hno
  have hlt := Nat.lt_mul_div_succ (weighted w v l) h
  rw [Nat.mul_comm] at hlt
  exact absurd hsum (Nat.not_le.mpr hlt)

theorem mean_mul_le : mean w v l * total w l ≤ weighted w v l := Nat.div_mul_le_self ..

theorem mean_mul_le_cons (h : mean w v l ≤ v t) :
    mean w v l * total w (t :: l) ≤ weighted w v (t :: l) := by
  rw [total_cons, weighted_cons, Nat.mul_add]
  exact Nat.add_le_add (Nat.mul_le_mul_right _ h) mean_mul_le

/-- **What one is behind, the others are ahead.** -/
theorem behind_le [DecidableEq τ] (ht : t ∈ l) (hmean : V * total w l ≤ weighted w v l)
    (hahead : ∀ u ∈ l, v u ≤ V + r u) : V * w t ≤ v t * w t + weighted w r (l.erase t) := by
  have hperm := perm_cons_erase ht
  rw [total_perm hperm, weighted_perm hperm, total_cons, weighted_cons, Nat.mul_add] at hmean
  have hothers : weighted w v (l.erase t) ≤ V * total w (l.erase t) + weighted w r (l.erase t) := by
    rw [← weighted_const, ← weighted_add]
    exact weighted_le fun u hu => hahead u (mem_of_mem_erase hu)
  omega

end PulseOS.WeightedMean
