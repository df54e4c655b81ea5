import Mathlib.Tactic

/-!
# Bitmaps

A fixed-width integer used as a set of small numbers: setting and clearing one bit, the number of
the lowest bit that is set, and the loop that visits the set bits from the lowest on.
-/

namespace PulseOS.Bitmap

open List BitVec

variable {w : Nat}

def trailingZeros (bits : BitVec w) : Nat :=
  ((range w).find? fun i => bits.getLsbD i).getD w

variable {i n : Nat} {bits : BitVec w}

theorem getLsbD_set (bits : BitVec w) (hi : i < w) (j : Nat) :
    (bits ||| (1#w <<< i)).getLsbD j = (bits.getLsbD j || decide (j = i)) := by
  rw [getLsbD_or, getLsbD_shiftLeft, getLsbD_one]
  by_cases hj : j = i
  · subst hj
    simp [hi]
    omega
  · simp [hj]
    omega

theorem getLsbD_clear (bits : BitVec w) (hi : i < w) (j : Nat) :
    (bits &&& ~~~(1#w <<< i)).getLsbD j = (bits.getLsbD j && decide (j ≠ i)) := by
  rw [getLsbD_and, getLsbD_not, getLsbD_shiftLeft, getLsbD_one]
  by_cases hj : j = i
  · subst hj
    simp [hi]
    omega
  · by_cases hlt : j < w
    · simp [hj, hlt]
      omega
    · simp [hlt, getLsbD_of_ge bits j (by omega)]

/-- `(1 << n) - 1`: the bits below `n`. -/
theorem getLsbD_below (hn : n < w) {j : Nat} (hj : j < w) :
    ((1#w <<< n) - 1#w).getLsbD j = decide (j < n) := by
  have hpow : 2 ^ n < 2 ^ w := Nat.pow_lt_pow_right (by decide) hn
  have hone : 1 < 2 ^ w := Nat.one_lt_two_pow (by omega)
  have hval : ((1#w <<< n) - 1#w).toNat = 2 ^ n - 1 := by
    have hpos : 0 < 2 ^ n := Nat.two_pow_pos n
    rw [toNat_sub_of_le]
    · simp [toNat_shiftLeft, Nat.shiftLeft_eq, Nat.mod_eq_of_lt hpow, Nat.mod_eq_of_lt hone]
    · rw [le_def]
      simp [toNat_shiftLeft, Nat.shiftLeft_eq, Nat.mod_eq_of_lt hpow, Nat.mod_eq_of_lt hone]
      omega
  rw [getLsbD, hval, Nat.testBit_two_pow_sub_one]

/-- The lowest bit that is set. -/
theorem trailingZeros_spec (h : bits ≠ 0) : bits.getLsbD (trailingZeros bits) = true ∧
      ∀ j < trailingZeros bits, bits.getLsbD j = false := by
  have hsome : (range w).find? (fun i => bits.getLsbD i) ≠ none := by
    intro hnone
    refine h (eq_of_getLsbD_eq fun i hi => ?_)
    have hclear := find?_eq_none.mp hnone i (mem_range.mpr hi)
    simpa using hclear
  obtain ⟨i, hi⟩ := Option.ne_none_iff_exists'.mp hsome
  obtain ⟨hset, -, hlow⟩ := find?_range_eq_some.mp hi
  rw [trailingZeros, hi, Option.getD_some]
  exact ⟨hset, fun j hj => by simpa using hlow j hj⟩

def countOnes (bits : BitVec w) : Nat := (range w).countP fun i => bits.getLsbD i

/-- The bits that `while bits != 0` visits when each round clears the lowest one. -/
def visit : Nat → BitVec w → List Nat
  | 0, _ => []
  | k + 1, bits =>
    if bits = 0 then []
    else trailingZeros bits :: visit k (bits &&& ~~~(1#w <<< trailingZeros bits))

def setBits (bits : BitVec w) : List Nat := visit w bits

theorem trailingZeros_lt (h : bits ≠ 0) : trailingZeros bits < w := by
  by_contra hge
  have hset := (trailingZeros_spec h).1
  rw [getLsbD_of_ge bits _ (by omega)] at hset
  cases hset

/-- The elements of a range from the least one on that `p` accepts. -/
theorem filter_range_least {p : Nat → Bool} (hi : i < n) (hp : p i = true)
    (hlow : ∀ j < i, p j = false) :
    (range n).filter p = i :: (range n).filter fun j => p j && decide (j ≠ i) := by
  obtain ⟨k, rfl⟩ : ∃ k, n = i + (k + 1) := ⟨n - i - 1, by omega⟩
  have hnone : ∀ q : Nat → Bool, (∀ j < i, q j = false) → (range i).filter q = [] := by
    intro q hq
    rw [filter_eq_nil_iff]
    intro j hj
    simp [hq j (mem_range.mp hj)]
  have htail : ∀ j ∈ (range k).map fun j => i + (j + 1), p j = (p j && decide (j ≠ i)) := by
    intro j hj
    obtain ⟨m, -, rfl⟩ := mem_map.mp hj
    simp
  rw [range_add, filter_append, filter_append, hnone p hlow,
    hnone _ (fun j hj => by simp [hlow j hj]), range_succ_eq_map]
  simp only [map_cons, map_map, nil_append, Nat.add_zero]
  rw [filter_cons_of_pos hp, filter_cons_of_neg (by simp)]
  exact congrArg (i :: ·) (filter_congr htail)

/-- **The loop visits the set bits in increasing order.** -/
theorem setBits_eq (bits : BitVec w) : setBits bits = (range w).filter bits.getLsbD := by
  suffices h : ∀ (k : Nat) (bits : BitVec w), countOnes bits ≤ k →
      visit k bits = (range w).filter bits.getLsbD by
    refine h w bits ?_
    exact countP_le_length.trans (by simp)
  intro k
  induction k with
  | zero =>
    intro bits hk
    have hnone : (range w).filter bits.getLsbD = [] := by
      rw [← length_eq_zero_iff, ← countP_eq_length_filter]
      exact Nat.le_zero.mp hk
    rw [hnone, visit]
  | succ k ih =>
    intro bits hk
    unfold visit
    split
    · rename_i h0
      subst h0
      simp
    · rename_i hne
      have hlt := trailingZeros_lt hne
      have hfilter := filter_range_least (p := bits.getLsbD) hlt (trailingZeros_spec hne).1
        (trailingZeros_spec hne).2
      have hclear : (fun j => bits.getLsbD j && decide (j ≠ trailingZeros bits)) =
          (bits &&& ~~~(1#w <<< trailingZeros bits)).getLsbD := by
        funext j
        rw [getLsbD_clear bits hlt]
      rw [hclear] at hfilter
      rw [ih _ ?_, hfilter]
      unfold countOnes at hk ⊢
      rw [countP_eq_length_filter] at hk ⊢
      change ((range w).filter bits.getLsbD).length ≤ k + 1 at hk
      rw [hfilter, length_cons] at hk
      exact Nat.le_of_succ_le_succ hk

theorem mem_setBits : i ∈ setBits bits ↔ bits.getLsbD i = true := by
  rw [setBits_eq, mem_filter, mem_range]
  refine ⟨fun h => h.2, fun h => ⟨?_, h⟩⟩
  by_contra hge
  rw [getLsbD_of_ge bits _ (by omega)] at h
  cases h

end PulseOS.Bitmap
