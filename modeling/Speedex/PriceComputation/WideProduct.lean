import Speedex.PriceComputation.Tatonnement

/-! The wide product of the price search, `safe_multiply_and_drop_lowbits` (`utils/price.h`): its
parts as numbers, and how close the clamped sum of the shifted parts is to the product. -/

namespace Speedex.Price

/-! ### The parts of the product -/

section Parts

variable (first second : BitVec 128) (k : Nat)

def lowHalf (v : BitVec 128) : BitVec 128 := (v.setWidth 64).setWidth 128

def highHalf (v : BitVec 128) : BitVec 128 := v >>> 64

def mixedSum : BitVec 128 :=
  (lowHalf first * highHalf second) >>> (k - 64) + (highHalf first * lowHalf second) >>> (k - 64)

/-- What `out` holds before the product of the high halves is added. -/
def lowSum : BitVec 128 :=
  (if k < 128 then (lowHalf first * lowHalf second) >>> k else 0) + mixedSum first second k

/-- The most that fits of the product of the high halves, `max_highbits`. -/
def maxHighbits : BitVec 128 :=
  (1 : BitVec 128) <<< (if 128 - k ≤ 48 then 48 - (128 - k) else 0) - 1

/-- What the product of the high halves adds. -/
def highPart : BitVec 128 :=
  if k ≤ 128 then
    (if highHalf first * highHalf second > maxHighbits k then maxHighbits k
      else highHalf first * highHalf second) <<< (128 - k)
  else (highHalf first * highHalf second) >>> (k - 128)

theorem safeMultiplyAndDropLowbits_eq (hlow : 64 ≤ k) (hhigh : k < 192) :
    safeMultiplyAndDropLowbits first second k =
      .ok (if (lowSum first second k + highPart first second k).toNat > maxPrice.toNat then maxPrice
        else .ofNat (lowSum first second k + highPart first second k).toNat) := by
  rw [safeMultiplyAndDropLowbits, if_neg (by omega)]
  dsimp only
  rw [if_neg (by omega)]
  unfold highPart
  by_cases hk : k ≤ 128
  · rw [if_pos hk, if_pos hk]
    rfl
  · rw [if_neg hk, if_neg hk]
    rfl

/-- From 192 on, which the function still accepts, the mixed products are shifted by at least their
width. -/
theorem safeMultiplyAndDropLowbits_shift (hlow : 192 ≤ k) (hhigh : k ≤ 196) :
    safeMultiplyAndDropLowbits first second k = .error .shiftOutOfRange := by
  rw [safeMultiplyAndDropLowbits, if_neg (by omega)]
  dsimp only
  rw [if_pos (by omega)]

end Parts

/-! ### The parts as numbers -/

theorem toNat_lowHalf (v : BitVec 128) : (lowHalf v).toNat = v.toNat % 2 ^ 64 := by
  rw [lowHalf, BitVec.toNat_setWidth, BitVec.toNat_setWidth]
  omega

theorem toNat_highHalf (v : BitVec 128) : (highHalf v).toNat = v.toNat / 2 ^ 64 := by
  rw [highHalf, BitVec.toNat_ushiftRight, Nat.shiftRight_eq_div_pow]

theorem highHalf_lt (v : BitVec 128) : v.toNat / 2 ^ 64 < 2 ^ 64 := by
  have := v.isLt
  omega

/-- A product of two halves. -/
theorem toNat_mul_halves {x y : BitVec 128} (hx : x.toNat < 2 ^ 64) (hy : y.toNat < 2 ^ 64) :
    (x * y).toNat = x.toNat * y.toNat := by
  rw [BitVec.toNat_mul]
  refine Nat.mod_eq_of_lt ((Nat.mul_lt_mul'' hx hy).trans_eq ?_)
  decide

theorem toNat_maxHighbits {k : Nat} (hlow : 80 ≤ k) (hhigh : k ≤ 128) :
    (maxHighbits k).toNat = 2 ^ (48 - (128 - k)) - 1 := by
  have hpow : 2 ^ (48 - (128 - k)) < 2 ^ 128 := Nat.pow_lt_pow_right (by decide) (by omega)
  have hpos := Nat.two_pow_pos (48 - (128 - k))
  have hone : ((1 : BitVec 128) <<< (48 - (128 - k))).toNat = 2 ^ (48 - (128 - k)) := by
    rw [BitVec.toNat_shiftLeft, Nat.shiftLeft_eq]
    show 1 * _ % 2 ^ 128 = _
    rw [Nat.one_mul, Nat.mod_eq_of_lt hpow]
  rw [maxHighbits, if_pos (by omega), BitVec.toNat_sub, hone]
  show (2 ^ 128 - 1 + _) % 2 ^ 128 = _
  omega

/-! ### The products of the halves -/

section Products

variable (first second : BitVec 128)

def lowLow : Nat := first.toNat % 2 ^ 64 * (second.toNat % 2 ^ 64)

def lowHigh : Nat := first.toNat % 2 ^ 64 * (second.toNat / 2 ^ 64)

def highLow : Nat := first.toNat / 2 ^ 64 * (second.toNat % 2 ^ 64)

def highHigh : Nat := first.toNat / 2 ^ 64 * (second.toNat / 2 ^ 64)

theorem toNat_lowLow : (lowHalf first * lowHalf second).toNat = lowLow first second := by
  rw [toNat_mul_halves, toNat_lowHalf, toNat_lowHalf, lowLow] <;> rw [toNat_lowHalf] <;>
    exact Nat.mod_lt _ (Nat.two_pow_pos 64)

theorem toNat_lowHigh : (lowHalf first * highHalf second).toNat = lowHigh first second := by
  rw [toNat_mul_halves, toNat_lowHalf, toNat_highHalf, lowHigh]
  · rw [toNat_lowHalf]
    exact Nat.mod_lt _ (Nat.two_pow_pos 64)
  · rw [toNat_highHalf]
    exact highHalf_lt second

theorem toNat_highLow : (highHalf first * lowHalf second).toNat = highLow first second := by
  rw [toNat_mul_halves, toNat_highHalf, toNat_lowHalf, highLow]
  · rw [toNat_highHalf]
    exact highHalf_lt first
  · rw [toNat_lowHalf]
    exact Nat.mod_lt _ (Nat.two_pow_pos 64)

theorem toNat_highHigh : (highHalf first * highHalf second).toNat = highHigh first second := by
  rw [toNat_mul_halves, toNat_highHalf, toNat_highHalf, highHigh] <;> rw [toNat_highHalf] <;>
    exact highHalf_lt _

theorem mul_eq_products : first.toNat * second.toNat = lowLow first second +
    2 ^ 64 * lowHigh first second + 2 ^ 64 * highLow first second +
      2 ^ 128 * highHigh first second := by
  conv_lhs => rw [← Nat.mod_add_div first.toNat (2 ^ 64), ← Nat.mod_add_div second.toNat (2 ^ 64)]
  unfold lowLow lowHigh highLow highHigh
  ring

/-- A value of 128 bits, shifted. -/
theorem shifted_lt {n : Nat} (hn : n < 2 ^ 128) {j k : Nat} (hk : j ≤ k) (hj : j ≤ 128) :
    n / 2 ^ k < 2 ^ (128 - j) := by
  refine (Nat.div_le_div_left (Nat.pow_le_pow_right (by decide) hk) (Nat.two_pow_pos j)).trans_lt ?_
  rwa [Nat.div_lt_iff_lt_mul (Nat.two_pow_pos j), Nat.pow_sub_mul_pow 2 hj]

end Products

/-! ### The sum of the shifted products -/

theorem add_div_le (x y d : Nat) : (x + y) / d ≤ x / d + y / d + 1 := by
  rcases Nat.eq_zero_or_pos d with rfl | hd
  · simp
  · rw [Nat.add_div hd]
    split <;> omega

/-- The floors of three summands lose at most two. -/
theorem add_three_div (x y z d : Nat) :
    x / d + y / d + z / d ≤ (x + y + z) / d ∧ (x + y + z) / d ≤ x / d + y / d + z / d + 2 := by
  have hxy := add_div_le x y d
  have hxyz := add_div_le (x + y) z d
  have hxy' : x / d + y / d ≤ (x + y) / d := Nat.div_add_div_le_add_div
  have hxyz' : (x + y) / d + z / d ≤ (x + y + z) / d := Nat.div_add_div_le_add_div
  omega

/-- The product of the high halves, shifted to its place. -/
def shiftedHigh (k hh : Nat) : Nat := if k ≤ 128 then hh * 2 ^ (128 - k) else hh / 2 ^ (k - 128)

/-- The shifted products add up to at most two less than the shifted sum. -/
theorem shifted_sum {ll lh hl hh k : Nat} (hll : ll < 2 ^ 128) (hk : 64 ≤ k) :
    ll / 2 ^ k + (lh / 2 ^ (k - 64) + hl / 2 ^ (k - 64)) + shiftedHigh k hh ≤
        (ll + 2 ^ 64 * lh + 2 ^ 64 * hl + 2 ^ 128 * hh) / 2 ^ k ∧
      (ll + 2 ^ 64 * lh + 2 ^ 64 * hl + 2 ^ 128 * hh) / 2 ^ k ≤
        ll / 2 ^ k + (lh / 2 ^ (k - 64) + hl / 2 ^ (k - 64)) + shiftedHigh k hh + 2 := by
  have hmixed : ∀ x, 2 ^ 64 * x / 2 ^ k = x / 2 ^ (k - 64) := fun x => by
    rw [← pow_mul_pow_sub 2 hk, Nat.mul_div_mul_left _ _ (Nat.two_pow_pos 64)]
  unfold shiftedHigh
  split_ifs with h128
  · have hpow : 2 ^ 128 * hh = 2 ^ k * (hh * 2 ^ (128 - k)) := by
      rw [← pow_mul_pow_sub 2 h128]
      ring
    have hthree := add_three_div ll (2 ^ 64 * lh) (2 ^ 64 * hl) (2 ^ k)
    rw [hmixed, hmixed] at hthree
    rw [hpow, Nat.add_mul_div_left _ _ (Nat.two_pow_pos k)]
    omega
  · -- here the lowest product leaves nothing, and adds no loss to that of the highest
    have hpow : 2 ^ k = 2 ^ 128 * 2 ^ (k - 128) := (pow_mul_pow_sub 2 (by omega)).symm
    have hhigh : (ll + 2 ^ 128 * hh) / 2 ^ k = hh / 2 ^ (k - 128) := by
      rw [hpow, ← Nat.div_div_eq_div_mul, Nat.add_mul_div_left _ _ (Nat.two_pow_pos 128),
        Nat.div_eq_of_lt hll, Nat.zero_add]
    have hlow : ll / 2 ^ k = 0 :=
      Nat.div_eq_of_lt (hll.trans_le (Nat.pow_le_pow_right (by decide) (by omega)))
    have hthree := add_three_div (ll + 2 ^ 128 * hh) (2 ^ 64 * lh) (2 ^ 64 * hl) (2 ^ k)
    rw [hmixed, hmixed, hhigh] at hthree
    have hcomm : ll + 2 ^ 64 * lh + 2 ^ 64 * hl + 2 ^ 128 * hh =
        ll + 2 ^ 128 * hh + 2 ^ 64 * lh + 2 ^ 64 * hl := by ring
    rw [hcomm, hlow]
    omega

/-! ### No step wraps -/

/-- Every intermediate value of `safe_multiply_and_drop_lowbits` is the exact number. -/
structure WideProductExact (first second : BitVec 128) (k : Nat) : Prop where
  lowLow : (lowHalf first * lowHalf second).toNat = lowLow first second
  lowHigh : (lowHalf first * highHalf second).toNat = lowHigh first second
  highLow : (highHalf first * lowHalf second).toNat = highLow first second
  highHigh : (highHalf first * highHalf second).toNat = highHigh first second
  mixedSum : (mixedSum first second k).toNat =
    Price.lowHigh first second / 2 ^ (k - 64) + Price.highLow first second / 2 ^ (k - 64)
  maxHighbits : k ≤ 128 → (maxHighbits k).toNat = 2 ^ (48 - (128 - k)) - 1
  lowSum : (lowSum first second k).toNat = Price.lowLow first second / 2 ^ k +
    (Price.lowHigh first second / 2 ^ (k - 64) + Price.highLow first second / 2 ^ (k - 64))
  highPart : (highPart first second k).toNat = shiftedHigh k
    (if k ≤ 128 then min (Price.highHigh first second) (2 ^ (48 - (128 - k)) - 1)
      else Price.highHigh first second)
  sum : (Price.lowSum first second k + Price.highPart first second k).toNat =
    (Price.lowSum first second k).toNat + (Price.highPart first second k).toNat

section Exact

variable {first second : BitVec 128} {k : Nat}

theorem toNat_mixedSum (hlow : 81 ≤ k) :
    (mixedSum first second k).toNat =
      lowHigh first second / 2 ^ (k - 64) + highLow first second / 2 ^ (k - 64) ∧
    (mixedSum first second k).toNat < 2 ^ 112 := by
  have hmix := shifted_lt (toNat_lowHigh first second ▸ (lowHalf first * highHalf second).isLt)
    (show 17 ≤ k - 64 by omega) (by decide)
  have hmix' := shifted_lt (toNat_highLow first second ▸ (highHalf first * lowHalf second).isLt)
    (show 17 ≤ k - 64 by omega) (by decide)
  rw [mixedSum, BitVec.toNat_add, BitVec.toNat_ushiftRight, BitVec.toNat_ushiftRight,
    Nat.shiftRight_eq_div_pow, Nat.shiftRight_eq_div_pow, toNat_lowHigh, toNat_highLow]
  generalize lowHigh first second / 2 ^ (k - 64) = m at *
  generalize highLow first second / 2 ^ (k - 64) = m' at *
  omega

theorem toNat_lowSum (hlow : 81 ≤ k) :
    (lowSum first second k).toNat = lowLow first second / 2 ^ k +
      (lowHigh first second / 2 ^ (k - 64) + highLow first second / 2 ^ (k - 64)) ∧
    (lowSum first second k).toNat < 2 ^ 113 := by
  obtain ⟨hmixed, hmixedLt⟩ := @toNat_mixedSum first second k hlow
  have hlows := shifted_lt (toNat_lowLow first second ▸ (lowHalf first * lowHalf second).isLt) hlow
    (by decide)
  have hfirst : (if k < 128 then (lowHalf first * lowHalf second) >>> k else 0).toNat =
      lowLow first second / 2 ^ k := by
    split_ifs with hk
    · rw [BitVec.toNat_ushiftRight, Nat.shiftRight_eq_div_pow, toNat_lowLow]
    · have hsmall := (lowHalf first * lowHalf second).isLt
      rw [toNat_lowLow] at hsmall
      exact (Nat.div_eq_of_lt (hsmall.trans_le
        (Nat.pow_le_pow_right (by decide) (by omega)))).symm
  rw [lowSum, BitVec.toNat_add, hfirst, ← hmixed]
  generalize lowLow first second / 2 ^ k = l at *
  omega

/-- The product of the high halves, clamped. -/
theorem toNat_capped (hlow : 80 ≤ k) (hk : k ≤ 128) :
    (if highHalf first * highHalf second > maxHighbits k then maxHighbits k
      else highHalf first * highHalf second).toNat =
        min (highHigh first second) (2 ^ (48 - (128 - k)) - 1) := by
  rw [← toNat_highHigh, ← toNat_maxHighbits hlow hk]
  split_ifs with hcap
  · exact (min_eq_right (BitVec.lt_def.mp hcap).le).symm
  · exact (min_eq_left (not_lt.mp fun hlt => hcap (BitVec.lt_def.mpr hlt))).symm

theorem toNat_highPart (hlow : 81 ≤ k) :
    (highPart first second k).toNat = shiftedHigh k
      (if k ≤ 128 then min (highHigh first second) (2 ^ (48 - (128 - k)) - 1)
        else highHigh first second) ∧
    (highPart first second k).toNat < 2 ^ 127 := by
  unfold highPart shiftedHigh
  by_cases hk : k ≤ 128
  · simp only [hk, if_true]
    have hpow : 2 ^ (48 - (128 - k)) * 2 ^ (128 - k) = 2 ^ 48 :=
      Nat.pow_sub_mul_pow 2 (by omega)
    have hfits : min (highHigh first second) (2 ^ (48 - (128 - k)) - 1) * 2 ^ (128 - k) < 2 ^ 48 := by
      rw [← hpow]
      refine Nat.mul_lt_mul_of_pos_right ?_ (Nat.two_pow_pos _)
      have := Nat.two_pow_pos (48 - (128 - k))
      omega
    rw [BitVec.toNat_shiftLeft, Nat.shiftLeft_eq, toNat_capped (by omega) hk,
      Nat.mod_eq_of_lt (hfits.trans (by decide))]
    exact ⟨rfl, hfits.trans (by decide)⟩
  · simp only [hk, if_false]
    rw [BitVec.toNat_ushiftRight, Nat.shiftRight_eq_div_pow, toNat_highHigh]
    exact ⟨rfl, shifted_lt (j := 1) (toNat_highHigh first second ▸
      (highHalf first * highHalf second).isLt) (by omega) (by decide)⟩

theorem wideProductExact (hlow : 81 ≤ k) : WideProductExact first second k where
  lowLow := toNat_lowLow first second
  lowHigh := toNat_lowHigh first second
  highLow := toNat_highLow first second
  highHigh := toNat_highHigh first second
  mixedSum := (toNat_mixedSum hlow).1
  maxHighbits hk := toNat_maxHighbits (by omega) hk
  lowSum := (toNat_lowSum hlow).1
  highPart := (toNat_highPart hlow).1
  sum := by
    have hlows := (@toNat_lowSum first second k hlow).2
    have hhigh := (@toNat_highPart first second k hlow).2
    rw [BitVec.toNat_add]
    omega

end Exact

/-! ### The result -/

/-- The result of `safe_multiply_and_drop_lowbits` against the product: it is at most two below a
product that is a price, and stays near the largest price when the product is larger. -/
structure WideProductAccurate (first second : BitVec 128) (k : Nat) : Prop where
  exact : WideProductExact first second k
  result : ∃ price, safeMultiplyAndDropLowbits first second k = .ok price ∧ price ≤ maxPrice ∧
    (first.toNat * second.toNat / 2 ^ k ≤ maxPrice.toNat →
      price.toNat ≤ first.toNat * second.toNat / 2 ^ k ∧
        first.toNat * second.toNat / 2 ^ k ≤ price.toNat + 2) ∧
    (maxPrice.toNat < first.toNat * second.toNat / 2 ^ k →
      maxPrice.toNat + 1 - max 2 (2 ^ (128 - k)) ≤ price.toNat ∧ 2 ^ 47 ≤ price.toNat)

/-- The clamp of the highest product is seen only when the whole product is too large, and leaves a
large sum. -/
theorem shiftedHigh_capped {k hh : Nat} (hlow : 80 ≤ k) (hk : k ≤ 128)
    (hcap : 2 ^ (48 - (128 - k)) - 1 < hh) :
    2 ^ 48 ≤ shiftedHigh k hh ∧ shiftedHigh k (2 ^ (48 - (128 - k)) - 1) + 2 ^ (128 - k) = 2 ^ 48 := by
  have hpow : 2 ^ (48 - (128 - k)) * 2 ^ (128 - k) = 2 ^ 48 := Nat.pow_sub_mul_pow 2 (by omega)
  have hpos := Nat.two_pow_pos (48 - (128 - k))
  simp only [shiftedHigh, hk, if_true]
  constructor
  · rw [← hpow]
    exact Nat.mul_le_mul_right _ (by omega)
  · rw [← hpow, ← Nat.succ_mul, Nat.succ_eq_add_one, Nat.sub_add_cancel hpos]

theorem toNat_clamped (n : Nat) : (if n > maxPrice.toNat then maxPrice else .ofNat n : Price).toNat =
    min n (2 ^ 48 - 1) := by
  rw [toNat_maxPrice]
  split_ifs with h
  · rw [toNat_maxPrice, min_eq_right h.le]
  · rw [UInt64.toNat_ofNat', min_eq_left (not_lt.mp h)]
    omega

/-- The function answers for every shift up to 191, and exactly these; its own check lets shifts up
to 196 pass. -/
theorem safeMultiplyAndDropLowbits_accurate_iff (first second : BitVec 128) {k : Nat}
    (hlow : 81 ≤ k) (hhigh : k ≤ 196) : WideProductAccurate first second k ↔ k ≤ 191 := by
  constructor
  · intro h
    obtain ⟨price, hprice, -⟩ := h.result
    by_contra hk
    rw [safeMultiplyAndDropLowbits_shift first second k (by omega) hhigh] at hprice
    cases hprice
  · intro hk
    have hexact := @wideProductExact first second k hlow
    refine ⟨hexact, _, safeMultiplyAndDropLowbits_eq first second k (by omega) (by omega), ?_⟩
    have hll : lowLow first second < 2 ^ 128 :=
      toNat_lowLow first second ▸ (lowHalf first * lowHalf second).isLt
    obtain ⟨hle, hge⟩ := @shifted_sum (lowLow first second) (lowHigh first second)
      (highLow first second) (highHigh first second) k hll (by omega)
    rw [← mul_eq_products, ← hexact.lowSum] at hle hge
    rw [UInt64.le_iff_toNat_le, toNat_clamped, hexact.sum, hexact.highPart, toNat_maxPrice]
    generalize first.toNat * second.toNat / 2 ^ k = e at *
    generalize (Price.lowSum first second k).toNat = low at *
    have hroom : 2 ^ (128 - k) ≤ 2 ^ 47 := Nat.pow_le_pow_right (by decide) (by omega)
    by_cases hcap : k ≤ 128 ∧ 2 ^ (48 - (128 - k)) - 1 < highHigh first second
    · obtain ⟨hlarge, hclamp⟩ := shiftedHigh_capped (by omega) hcap.1 hcap.2
      rw [if_pos hcap.1, min_eq_right hcap.2.le]
      omega
    · have hsame : (if k ≤ 128 then min (highHigh first second) (2 ^ (48 - (128 - k)) - 1)
          else highHigh first second) = highHigh first second := by
        split_ifs with h128
        · exact min_eq_left (not_lt.mp fun hlt => hcap ⟨h128, hlt⟩)
        · rfl
      rw [hsame]
      omega

theorem safeMultiplyAndDropLowbits_accurate_81 : WideProductAccurate 5 (2 ^ 100) 81 ↔ 81 ≤ 191 :=
  safeMultiplyAndDropLowbits_accurate_iff 5 (2 ^ 100) (by decide) (by decide)

/-- With a shift of 192 no product has an answer. -/
theorem safeMultiplyAndDropLowbits_inaccurate_192 : ¬ WideProductAccurate 1 1 192 := by
  intro h
  obtain ⟨price, hprice, -⟩ := h.result
  rw [safeMultiplyAndDropLowbits_shift 1 1 192 (by decide) (by decide)] at hprice
  cases hprice

end Speedex.Price
