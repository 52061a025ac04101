import Mathlib

/-! Sets of numbers below 64 as the bits of a machine word. -/

namespace Lib

/-- Bit `i` of a word. -/
def bit (w : UInt64) (i : Nat) : Bool := w.toNat.testBit i

theorem lt_of_bit {w : UInt64} {i : Nat} (h : bit w i = true) : i < 64 := by
  by_contra hi
  have hlt : w.toNat < 2 ^ i := lt_of_lt_of_le w.toNat_lt (Nat.pow_le_pow_right (by decide) (by omega))
  rw [bit, Nat.testBit_lt_two_pow hlt] at h
  cases h

@[simp] theorem bit_zero (i : Nat) : bit 0 i = false := by simp [bit]

theorem toNat_mask {o : UInt64} (ho : o.toNat < 64) : ((1 : UInt64) <<< o).toNat = 2 ^ o.toNat := by
  have hlt : 2 ^ o.toNat < 2 ^ 64 := Nat.pow_lt_pow_right (by decide) ho
  rw [UInt64.toNat_shiftLeft, Nat.mod_eq_of_lt ho, Nat.shiftLeft_eq, UInt64.toNat_one, Nat.one_mul,
    Nat.mod_eq_of_lt hlt]

/-- Setting one bit. -/
theorem bit_or_mask {w o : UInt64} (ho : o.toNat < 64) (i : Nat) :
    bit (w ||| 1 <<< o) i = (bit w i || decide (o.toNat = i)) := by
  rw [bit, UInt64.toNat_or, toNat_mask ho, Nat.testBit_or, Nat.testBit_two_pow]
  rfl

/-- Testing one bit. -/
theorem and_mask_ne_zero {w o : UInt64} (ho : o.toNat < 64) :
    w &&& 1 <<< o ≠ 0 ↔ bit w o.toNat = true := by
  rw [ne_eq, ← UInt64.toNat_inj, UInt64.toNat_and, toNat_mask ho, Nat.and_two_pow, bit]
  cases w.toNat.testBit o.toNat <;> simp

/-- Clearing one bit. -/
theorem bit_and_not_mask {w o : UInt64} (ho : o.toNat < 64) (i : Nat) :
    bit (w &&& ~~~(1 <<< o)) i = (bit w i && !decide (o.toNat = i)) := by
  have hnot : (~~~((1 : UInt64) <<< o)).toNat = 2 ^ 64 - 1 - 2 ^ o.toNat := by
    rw [UInt64.toNat_not, toNat_mask ho]
    rfl
  by_cases hi : i < 64
  · rw [bit, UInt64.toNat_and, Nat.testBit_and, hnot]
    have : 2 ^ 64 - 1 - 2 ^ o.toNat = 2 ^ 64 - (2 ^ o.toNat + 1) := by omega
    rw [this, Nat.testBit_two_pow_sub_succ (Nat.pow_lt_pow_right (by decide) ho), Nat.testBit_two_pow]
    simp [hi, bit]
  · have hw : ∀ v : UInt64, bit v i = false := fun v => by
      by_contra hv
      exact hi (lt_of_bit (by simpa using hv))
    simp [hw]

theorem eq_zero_of_bits {w : UInt64} (h : ∀ i, bit w i = false) : w = 0 := by
  rw [← UInt64.toNat_inj]
  exact Nat.eq_of_testBit_eq fun i => by simpa [bit] using h i

theorem toNat_log2 (w : UInt64) : w.log2.toNat = w.toNat.log2 := rfl

/-- The highest bit of a word. -/
theorem bit_log2 {w : UInt64} (h : w ≠ 0) : bit w w.log2.toNat = true := by
  rw [bit, toNat_log2]
  exact Nat.testBit_log2 fun h0 => h (UInt64.toNat_inj.mp h0)

theorem le_log2_of_bit {w : UInt64} {i : Nat} (h : bit w i = true) : i ≤ w.log2.toNat := by
  rw [toNat_log2]
  by_contra hi
  have hlt : w.toNat < 2 ^ i :=
    lt_of_lt_of_le Nat.lt_log2_self (Nat.pow_le_pow_right (by decide) (by omega))
  rw [bit, Nat.testBit_lt_two_pow hlt] at h
  cases h

/-! ### Operations on words, bit by bit -/

section Bitwise

variable {v w : UInt64} {i : Nat}

theorem ext_bits (h : ∀ i, bit v i = bit w i) : v = w :=
  UInt64.toNat_inj.mp (Nat.eq_of_testBit_eq h)

theorem bit_or (v w : UInt64) (i : Nat) : bit (v ||| w) i = (bit v i || bit w i) := by
  rw [bit, UInt64.toNat_or, Nat.testBit_or]
  rfl

theorem bit_mask {o : UInt64} (ho : o.toNat < 64) (i : Nat) :
    bit (1 <<< o) i = decide (o.toNat = i) := by
  rw [bit, toNat_mask ho, Nat.testBit_two_pow]

theorem bit_and (v w : UInt64) (i : Nat) : bit (v &&& w) i = (bit v i && bit w i) := by
  rw [bit, UInt64.toNat_and, Nat.testBit_and]
  rfl

theorem bit_xor (v w : UInt64) (i : Nat) : bit (v ^^^ w) i = (bit v i ^^ bit w i) := by
  rw [bit, UInt64.toNat_xor, Nat.testBit_xor]
  rfl

theorem bit_not (w : UInt64) (hi : i < 64) : bit (~~~w) i = !bit w i := by
  have hnot : (~~~w).toNat = 2 ^ 64 - (w.toNat + 1) := by
    rw [UInt64.toNat_not, UInt64.size]
    omega
  rw [bit, hnot, Nat.testBit_two_pow_sub_succ w.toNat_lt]
  simp [hi, bit]

/-- A shift to the left by `s` bits. -/
theorem bit_shiftLeft {s : UInt64} (w : UInt64) (hs : s.toNat < 64) (i : Nat) :
    bit (w <<< s) i = (decide (i < 64) && decide (s.toNat ≤ i) && bit w (i - s.toNat)) := by
  rw [bit, UInt64.toNat_shiftLeft, Nat.mod_eq_of_lt hs, Nat.testBit_mod_two_pow,
    Nat.testBit_shiftLeft, Bool.and_assoc]
  rfl

theorem bit_shiftRight {s : UInt64} (w : UInt64) (hs : s.toNat < 64) (i : Nat) :
    bit (w >>> s) i = bit w (s.toNat + i) := by
  rw [bit, UInt64.toNat_shiftRight, Nat.mod_eq_of_lt hs, Nat.testBit_shiftRight]
  rfl

/-- A sum of words without common bits has no carries. -/
theorem add_eq_or (h : ∀ i, bit v i = true → bit w i = false) : v + w = v ||| w := by
  have hand : v.toBitVec &&& w.toBitVec = 0#64 := by
    have hzero : v &&& w = 0 := by
      apply eq_zero_of_bits
      intro i
      rw [bit_and]
      cases hv : bit v i with
      | false => rfl
      | true => rw [h i hv, Bool.and_false]
    rw [← UInt64.toBitVec_and, hzero]
    rfl
  apply UInt64.toBitVec_inj.mp
  rw [UInt64.toBitVec_add, UInt64.toBitVec_or, BitVec.add_eq_or_of_and_eq_zero _ _ hand]

end Bitwise

end Lib
