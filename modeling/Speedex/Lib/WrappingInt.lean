import Mathlib

/-! Signed 64-bit arithmetic, which wraps, where the exact result fits. -/

namespace Lib

variable {a b : Int64}

theorem neg_pow_le_toInt (a : Int64) : -2 ^ 63 ≤ a.toInt := a.le_toInt

theorem toInt_lt_pow (a : Int64) : a.toInt < 2 ^ 63 := a.toInt_lt

theorem bmod_of_bounds {n : Int} (hle : -2 ^ 63 ≤ n) (hlt : n < 2 ^ 63) : n.bmod (2 ^ 64) = n :=
  Int.bmod_eq_of_le (by omega) (by omega)

theorem toInt_add_of_bounds (hle : -2 ^ 63 ≤ a.toInt + b.toInt) (hlt : a.toInt + b.toInt < 2 ^ 63) :
    (a + b).toInt = a.toInt + b.toInt := by
  rw [Int64.toInt_add, bmod_of_bounds hle hlt]

theorem toInt_sub_of_bounds (hle : -2 ^ 63 ≤ a.toInt - b.toInt) (hlt : a.toInt - b.toInt < 2 ^ 63) :
    (a - b).toInt = a.toInt - b.toInt := by
  rw [Int64.toInt_sub, bmod_of_bounds hle hlt]

/-- A nonnegative value is the same unsigned. -/
theorem toNat_toUInt64_of_nonneg (h : 0 ≤ a.toInt) : (a.toUInt64.toNat : Int) = a.toInt := by
  have hbits : a.toInt = a.toUInt64.toBitVec.toInt := rfl
  rw [hbits, BitVec.toInt_eq_toNat_cond] at h ⊢
  have hlt := a.toUInt64.toBitVec.isLt
  have hnat : a.toUInt64.toNat = a.toUInt64.toBitVec.toNat := rfl
  split at h <;> omega

/-- An unsigned value below `2^63` is the same signed. -/
theorem toInt_toInt64_of_lt {x : UInt64} (h : x.toNat < 2 ^ 63) : x.toInt64.toInt = x.toNat := by
  have hbits : x.toInt64.toInt = x.toBitVec.toInt := rfl
  have hnat : x.toBitVec.toNat = x.toNat := rfl
  rw [hbits, BitVec.toInt_eq_toNat_cond, hnat]
  split <;> omega

end Lib
