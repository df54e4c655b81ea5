import Mathlib.Tactic

/-!
# Saturating arithmetic and casts

The methods `saturating_add` and `saturating_sub` of the fixed-width integers return the exact
result clamped to the range of the type.  The simp lemmas give the value of every operation as a
number, and of the `as` casts between `i16` and `u16`.  `u128` values are natural numbers, their
saturation is written where they are used.
-/

namespace PulseOS.Saturating

open Int16

/-- `x` brought into `[lo, hi]`. -/
def clamp (lo hi x : Int) : Int := max lo (min hi x)

theorem clamp_of_mem {lo hi x : Int} (hlo : lo ≤ x) (hhi : x ≤ hi) : clamp lo hi x = x := by
  unfold clamp
  omega

/-! ## `u16` and `i16` -/

/-- `u16::saturating_add`. -/
def addU16 (a b : UInt16) : UInt16 := UInt16.ofNat (min (a.toNat + b.toNat) 65535)

/-- `u16::saturating_sub`. -/
def subU16 (a b : UInt16) : UInt16 := UInt16.ofNat (a.toNat - b.toNat)

variable (a b : Int16)

/-- `i16::saturating_add`. -/
def addI16 : Int16 := ofInt (clamp (-32768) 32767 (a.toInt + b.toInt))

/-- `i16::saturating_sub`. -/
def subI16 : Int16 := ofInt (clamp (-32768) 32767 (a.toInt - b.toInt))

@[simp]
theorem toNat_addU16 (a b : UInt16) : (addU16 a b).toNat = min (a.toNat + b.toNat) 65535 := by
  have h : min (a.toNat + b.toNat) 65535 < 65536 := by omega
  rw [addU16, UInt16.toNat_ofNat', Nat.mod_eq_of_lt h]

theorem toInt_ofInt_clamp (x : Int) :
    (ofInt (clamp (-32768) 32767 x)).toInt = clamp (-32768) 32767 x := by
  have hsize : (size : Int) = 65536 := rfl
  rw [toInt_ofInt, Int.bmod_eq_of_le] <;> unfold clamp <;> omega

@[simp]
theorem toInt_addI16 : (addI16 a b).toInt = clamp (-32768) 32767 (a.toInt + b.toInt) :=
  toInt_ofInt_clamp _

@[simp]
theorem toInt_subI16 : (subI16 a b).toInt = clamp (-32768) 32767 (a.toInt - b.toInt) :=
  toInt_ofInt_clamp _

theorem toInt_bounds : -32768 ≤ a.toInt ∧ a.toInt ≤ 32767 := by
  have hlo := a.le_toInt
  have hhi := a.toInt_lt
  omega

theorem toNat_bound (a : UInt16) : a.toNat ≤ 65535 := by
  have h := a.toNat_lt
  omega

/-- `a as u16` of a signed value. -/
theorem toNat_toUInt16 : (a.toUInt16.toNat : Int) = a.toInt % 65536 := by
  have h : a.toInt = a.toUInt16.toBitVec.toInt := rfl
  have hsize : ((2 ^ 16 : Nat) : Int) = 65536 := rfl
  have hlt := toNat_bound a.toUInt16
  rw [h, BitVec.toInt_eq_toNat_bmod, UInt16.toNat_toBitVec, Int.bmod_def, hsize]
  omega

theorem toNat_toUInt16_of_nonneg {a : Int16} (h : 0 ≤ a.toInt) :
    (a.toUInt16.toNat : Int) = a.toInt := by
  have hb := toInt_bounds a
  rw [toNat_toUInt16]
  omega

/-- `(-a) as u16`, which is the magnitude of a negative value, `i16::MIN` included. -/
theorem toNat_neg_toUInt16 {a : Int16} (h : a.toInt < 0) :
    ((-a).toUInt16.toNat : Int) = -a.toInt := by
  have hb := toInt_bounds a
  have hsize : ((2 ^ 16 : Nat) : Int) = 65536 := rfl
  rw [toNat_toUInt16, toInt_neg, Int.bmod_def, hsize]
  omega

theorem toInt_neg {a : Int16} (h : -32768 < a.toInt) : (-a).toInt = -a.toInt := by
  have hb := toInt_bounds a
  have hsize : ((2 ^ 16 : Nat) : Int) = 65536 := rfl
  rw [Int16.toInt_neg, Int.bmod_def, hsize]
  omega

/-- `a as i16` of a value below `2^15`. -/
theorem toInt_toInt16 {a : UInt16} (h : a.toNat ≤ 32767) : a.toInt16.toInt = a.toNat := by
  have ha : a.toInt16.toInt = a.toBitVec.toInt := rfl
  have hsize : ((2 ^ 16 : Nat) : Int) = 65536 := rfl
  rw [ha, BitVec.toInt_eq_toNat_bmod, UInt16.toNat_toBitVec, Int.bmod_def, hsize]
  omega

/-! ## `u64` -/

/-- `n.min(u64::MAX) as u64`. -/
def sat64 (n : Nat) : UInt64 := UInt64.ofNat (min n 0xFFFFFFFFFFFFFFFF)

variable (a b : UInt64)

/-- `u64::saturating_add`. -/
def addU64 : UInt64 := sat64 (a.toNat + b.toNat)

/-- `u64::saturating_sub`. -/
def subU64 : UInt64 := UInt64.ofNat (a.toNat - b.toNat)

/-- `u64::saturating_mul`. -/
def mulU64 : UInt64 := sat64 (a.toNat * b.toNat)

@[simp]
theorem toNat_sat64 (n : Nat) : (sat64 n).toNat = min n 0xFFFFFFFFFFFFFFFF := by
  have h : min n 0xFFFFFFFFFFFFFFFF < 2 ^ 64 := by omega
  rw [sat64, UInt64.toNat_ofNat', Nat.mod_eq_of_lt h]

@[simp]
theorem toNat_addU64 : (addU64 a b).toNat = min (a.toNat + b.toNat) 0xFFFFFFFFFFFFFFFF :=
  toNat_sat64 _

@[simp]
theorem toNat_subU64 : (subU64 a b).toNat = a.toNat - b.toNat := by
  have h : a.toNat - b.toNat < 2 ^ 64 := (Nat.sub_le ..).trans_lt a.toNat_lt
  rw [subU64, UInt64.toNat_ofNat', Nat.mod_eq_of_lt h]

end PulseOS.Saturating
