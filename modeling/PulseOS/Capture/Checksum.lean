import Mathlib.Data.Nat.Bitwise
import Mathlib.Dynamics.PeriodicPts.Lemmas
import Mathlib.Tactic.NormNum.Prime
import PulseOS.Capture.Framing

/-!
# The checksum against CRC-32

The mask of `compute_checksum` is set where the bit shifted out is clear, so the polynomial enters
in the other half of the rounds.  Each round then differs from one of the CRC-32 by the polynomial,
whatever the data.

* `crc32` — the reflected CRC-32 of IEEE 802.3.
* `drift n` — what `n` rounds have added to the register.
* `minimalPeriod_driftFixed` — the polynomial is primitive, so that the drift comes back to nothing
  only after `2 ^ 32 - 1` rounds.
* `computeChecksum_eq_crc32_iff` — the two agree exactly at the multiples of that length.
-/

namespace PulseOS.Capture

open Function

/-- One step of the division: the polynomial is subtracted where the bit shifted out is set. -/
def crcBit (crc : UInt32) : UInt32 := (crc >>> 1) ^^^ if crc &&& 1 = 1 then 0xEDB88320 else 0

def crcByte (crc : UInt32) (byte : UInt8) : UInt32 := crcBit^[8] (crc ^^^ byte.toUInt32)

def crc32 (data : Bytes) : UInt32 := ~~~ data.foldl crcByte 0xFFFFFFFF

def driftBit (d : UInt32) : UInt32 := crcBit d ^^^ 0xEDB88320

def drift (n : Nat) : UInt32 := driftBit^[n] 0

theorem lowBit_cases (c : UInt32) : c &&& 1 = 0 ∨ c &&& 1 = 1 := by
  have hnat : (c &&& 1).toNat = c.toNat % 2 := by
    rw [UInt32.toNat_and]
    exact Nat.and_one_is_mod _
  rcases Nat.mod_two_eq_zero_or_one c.toNat with h | h
  · exact .inl (UInt32.toNat_inj.mp (hnat.trans h))
  · exact .inr (UInt32.toNat_inj.mp (hnat.trans h))

/-- **The mask has the other polarity.** -/
theorem checksumBit_eq (c : UInt32) : checksumBit c = crcBit c ^^^ 0xEDB88320 := by
  unfold checksumBit crcBit
  rw [UInt32.xor_assoc]
  refine congrArg (c >>> 1 ^^^ ·) ?_
  rcases lowBit_cases c with h | h
  · rw [h]
    decide
  · rw [h]
    decide

/-- A step is linear in exclusive or. -/
theorem crcBit_xor (a b : UInt32) : crcBit (a ^^^ b) = crcBit a ^^^ crcBit b := by
  have hlow : (a ^^^ b) &&& 1 = (a &&& 1) ^^^ (b &&& 1) := by
    apply UInt32.toBitVec_inj.mp
    ext i
    simp [Bool.and_xor_distrib_right]
  have hword : ∀ x y : UInt32, (x = 0 ∨ x = 1) → (y = 0 ∨ y = 1) →
      (if x ^^^ y = 1 then 0xEDB88320 else 0 : UInt32) =
        (if x = 1 then 0xEDB88320 else 0) ^^^ if y = 1 then 0xEDB88320 else 0 := by
    rintro x y (rfl | rfl) (rfl | rfl) <;> decide
  unfold crcBit
  rw [UInt32.shiftRight_xor, hlow, hword _ _ (lowBit_cases a) (lowBit_cases b)]
  ac_rfl

theorem checksumBit_iterate (c d : UInt32) : ∀ n,
    checksumBit^[n] (c ^^^ d) = crcBit^[n] c ^^^ driftBit^[n] d
  | 0 => rfl
  | n + 1 => by
    rw [iterate_succ_apply', checksumBit_iterate c d n, checksumBit_eq, crcBit_xor,
      iterate_succ_apply', iterate_succ_apply', driftBit, UInt32.xor_assoc]

theorem foldl_checksumByte : ∀ (data : Bytes) (c : UInt32) (n : Nat),
    data.foldl checksumByte (c ^^^ drift n) = data.foldl crcByte c ^^^ drift (8 * data.length + n)
  | [], c, n => by simp
  | byte :: data, c, n => by
    have hbyte : checksumByte (c ^^^ drift n) byte = crcByte c byte ^^^ drift (8 + n) := by
      rw [checksumByte, crcByte, drift, drift, iterate_add_apply, ← checksumBit_iterate]
      congr 1
      ac_rfl
    rw [List.foldl_cons, hbyte, foldl_checksumByte data, List.foldl_cons, List.length_cons]
    congr 2
    omega

theorem computeChecksum_eq_crc32_iff_drift (data : Bytes) :
    computeChecksum data = crc32 data ↔ drift (8 * data.length) = 0 := by
  have hfold : data.foldl checksumByte 0xFFFFFFFF =
      data.foldl crcByte 0xFFFFFFFF ^^^ drift (8 * data.length) :=
    foldl_checksumByte data 0xFFFFFFFF 0
  rw [computeChecksum, crc32, UInt32.not_inj, hfold]
  constructor
  · intro h
    have hself := congrArg (data.foldl crcByte 0xFFFFFFFF ^^^ ·) h
    simpa [← UInt32.xor_assoc] using hself
  · intro h
    rw [h, UInt32.xor_zero]

/-! ## The period of the drift -/

/-- The remainder of `1`, in the reflected order of the bits. -/
def crcOne : UInt32 := 0x80000000

/-- The product of two remainders, of the first of which the upper `k` bits are read. -/
def crcMul : Nat → UInt32 → UInt32 → UInt32
  | 0, _, _ => 0
  | k + 1, v, w => (if v &&& crcOne = 0 then 0 else w) ^^^ crcMul k (v <<< 1) (crcBit w)

/-- `crcBit^[n] crcOne` by squaring, for `n < 2 ^ k`. -/
def crcPow : Nat → Nat → UInt32
  | 0, _ => crcOne
  | k + 1, n =>
    let root := crcPow k (n / 2)
    if n % 2 = 0 then crcMul 32 root root else crcBit (crcMul 32 root root)

/-- The word that a round of the drift leaves alone. -/
def driftFixed : UInt32 := 0xB6D0FDC0

theorem topBit_cases (v : UInt32) : v &&& crcOne = 0 ∨ v &&& crcOne = crcOne := by
  have hnat : (v &&& crcOne).toNat = (v.toNat.testBit 31).toNat * 2 ^ 31 := by
    rw [UInt32.toNat_and]
    exact Nat.and_two_pow _ 31
  cases h : v.toNat.testBit 31 <;> rw [h] at hnat
  · exact .inl (UInt32.toNat_inj.mp hnat)
  · exact .inr (UInt32.toNat_inj.mp hnat)

/-- A remainder is its leading bit and `x` times the rest. -/
theorem eq_topBit_xor (v : UInt32) : v = (v &&& crcOne) ^^^ crcBit (v <<< 1) := by
  have hlow : v <<< 1 &&& 1 = 0 := by
    apply UInt32.toBitVec_inj.mp
    ext i hi
    simp
    omega
  have hone : ∀ i (hi : i < 32), crcOne.toBitVec[i] = decide (i = 31) := by decide
  rw [crcBit, hlow, if_neg (by decide), UInt32.xor_zero]
  apply UInt32.toBitVec_inj.mp
  ext i hi
  by_cases h31 : i = 31
  · subst h31
    simp [hone]
  · have hnext : 1 + i < 32 := by omega
    simp [hone i hi, h31, hnext]

theorem crcBit_iterate_xor (n : Nat) (a b : UInt32) :
    crcBit^[n] (a ^^^ b) = crcBit^[n] a ^^^ crcBit^[n] b := by
  induction n generalizing a b with
  | zero => rfl
  | succ n ih => rw [iterate_succ_apply, crcBit_xor, ih, iterate_succ_apply, iterate_succ_apply]

theorem crcBit_iterate_zero (n : Nat) : crcBit^[n] 0 = 0 := iterate_fixed (by decide) n

/-- The steps are linear and commute, so that `n` of them multiply by what they make of `1`. -/
theorem crcBit_iterate_eq_mul (k : Nat) : ∀ (n : Nat) {v : UInt32}, 2 ^ 32 ∣ v.toNat * 2 ^ k →
    crcBit^[n] v = crcMul k v (crcBit^[n] crcOne) := by
  induction k with
  | zero =>
    intro n v hv
    have hzero : v = 0 := by
      apply UInt32.toNat_inj.mp
      exact Nat.eq_zero_of_dvd_of_lt (by simpa using hv) v.toNat_lt
    rw [hzero, crcBit_iterate_zero]
    rfl
  | succ k ih =>
    intro n v hv
    have hshift : 2 ^ 32 ∣ (v <<< 1).toNat * 2 ^ k := by
      have hnat : (v <<< 1).toNat = v.toNat * 2 % 2 ^ 32 := by
        rw [UInt32.toNat_shiftLeft, Nat.shiftLeft_eq]
        rfl
      rw [hnat, Nat.dvd_iff_mod_eq_zero, Nat.mod_mul_mod, ← Nat.dvd_iff_mod_eq_zero]
      rwa [pow_succ' 2 k, ← mul_assoc] at hv
    rw [crcMul, ← iterate_succ_apply' crcBit, ← ih (n + 1) hshift, iterate_succ_apply]
    conv_lhs => rw [eq_topBit_xor v, crcBit_iterate_xor]
    congr 1
    rcases topBit_cases v with h | h
    · rw [h, if_pos rfl, crcBit_iterate_zero]
    · rw [h, if_neg (by decide)]

theorem crcBit_iterate_mul (n : Nat) (v : UInt32) :
    crcBit^[n] v = crcMul 32 v (crcBit^[n] crcOne) :=
  crcBit_iterate_eq_mul 32 n (Nat.dvd_mul_left _ _)

theorem crcPow_eq (k : Nat) : ∀ {n : Nat}, n < 2 ^ k → crcPow k n = crcBit^[n] crcOne := by
  induction k with
  | zero =>
    intro n hn
    rw [Nat.lt_one_iff.mp hn]
    rfl
  | succ k ih =>
    intro n hn
    have hroot := ih (n := n / 2) (by omega)
    have hsquare : crcMul 32 (crcPow k (n / 2)) (crcPow k (n / 2)) =
        crcBit^[n / 2 + n / 2] crcOne := by
      rw [iterate_add_apply, crcBit_iterate_mul _ (crcBit^[n / 2] crcOne), hroot]
    simp only [crcPow, hsquare]
    split
    · congr 1
      omega
    · rw [← iterate_succ_apply' crcBit]
      congr 1
      omega

theorem drift_eq (n : Nat) : drift n = crcBit^[n] driftFixed ^^^ driftFixed := by
  induction n with
  | zero => rfl
  | succ n ih =>
    rw [drift, iterate_succ_apply', ← drift, ih, driftBit, crcBit_xor, iterate_succ_apply',
      UInt32.xor_assoc]
    rfl

theorem isPeriodicPt_driftFixed_iff (n : Nat) (hn : n < 2 ^ 32) :
    IsPeriodicPt crcBit n driftFixed ↔ crcMul 32 driftFixed (crcPow 32 n) = driftFixed := by
  rw [crcPow_eq 32 hn, ← crcBit_iterate_mul]
  rfl

theorem mem_of_prime_dvd {q : Nat} (hq : q.Prime) (h : q ∣ 2 ^ 32 - 1) :
    q ∈ [3, 5, 17, 257, 65537] := by
  have hprod : q ∣ 3 * (5 * (17 * (257 * 65537))) := h
  have heq : ∀ {p : Nat}, p.Prime → (q ∣ p ↔ q = p) := Nat.prime_dvd_prime_iff_eq hq
  simpa only [hq.dvd_mul, heq (by norm_num : Nat.Prime 3), heq (by norm_num : Nat.Prime 5),
    heq (by norm_num : Nat.Prime 17), heq (by norm_num : Nat.Prime 257),
    heq (by norm_num : Nat.Prime 65537), List.mem_cons, List.not_mem_nil, or_false] using hprod

theorem driftFixed_moved : ∀ q ∈ [3, 5, 17, 257, 65537],
    crcMul 32 driftFixed (crcPow 32 ((2 ^ 32 - 1) / q)) ≠ driftFixed := by
  decide +kernel

/-- The polynomial is primitive. -/
theorem minimalPeriod_driftFixed : minimalPeriod crcBit driftFixed = 2 ^ 32 - 1 := by
  have hfull : IsPeriodicPt crcBit (2 ^ 32 - 1) driftFixed :=
    (isPeriodicPt_driftFixed_iff _ (by decide)).mpr (by decide +kernel)
  obtain ⟨a, ha⟩ := hfull.minimalPeriod_dvd
  by_contra hne
  have hone : a ≠ 1 := by
    rintro rfl
    exact hne (by omega)
  -- otherwise a prime of the cofactor could be taken out of the period
  obtain ⟨q, hq, b, rfl⟩ := Nat.exists_prime_and_dvd hone
  have hfactor : q * (minimalPeriod crcBit driftFixed * b) = 2 ^ 32 - 1 := by
    rw [ha]
    ring
  have hquot : minimalPeriod crcBit driftFixed * b = (2 ^ 32 - 1) / q :=
    Nat.eq_div_of_mul_eq_right hq.ne_zero hfactor
  have hperiod := (isPeriodicPt_minimalPeriod crcBit driftFixed).mul_const b
  have hlt : (2 ^ 32 - 1) / q < 2 ^ 32 := Nat.lt_of_le_of_lt (Nat.div_le_self _ _) (by decide)
  rw [hquot, isPeriodicPt_driftFixed_iff _ hlt] at hperiod
  exact driftFixed_moved q (mem_of_prime_dvd hq ⟨_, hfactor.symm⟩) hperiod

/-- The rounds of a string add nothing exactly at the multiples of the period. -/
theorem drift_bytes_eq_zero_iff (len : Nat) : drift (8 * len) = 0 ↔ 2 ^ 32 - 1 ∣ len := by
  have hcoprime : Nat.Coprime (2 ^ 32 - 1) 8 := by decide
  rw [drift_eq, UInt32.xor_eq_zero_iff, ← hcoprime.dvd_mul_left, ← minimalPeriod_driftFixed]
  exact isPeriodicPt_iff_minimalPeriod_dvd

/-- **The checksum is the CRC-32 exactly for the multiples of `2 ^ 32 - 1` bytes.** -/
theorem computeChecksum_eq_crc32_iff (data : Bytes) :
    computeChecksum data = crc32 data ↔ 2 ^ 32 - 1 ∣ data.length :=
  (computeChecksum_eq_crc32_iff_drift data).trans (drift_bytes_eq_zero_iff data.length)

/-- A single zero byte. -/
theorem computeChecksum_zero_ne_crc32 : computeChecksum [0] ≠ crc32 [0] := by
  decide

end PulseOS.Capture
