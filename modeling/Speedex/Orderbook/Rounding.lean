import Speedex.Orderbook.Clearing
import Speedex.Lib.Superadditive

/-! The roundings of a trade as functions of natural numbers: the exchange at a price, the tax, and
what a trader is credited. -/

namespace Speedex

open Lib

/-- An amount at the rate `a / b`, rounded down. -/
def exchanged (a b value : Nat) : Nat := value * a / b

/-- A fixed-point amount less the tax `2 ^ -t`, rounded up, in whole units. -/
def taxed (t value : Nat) : Nat := (value - (value ⌈/⌉ 2 ^ t)) / 2 ^ 10

theorem superadditive_exchanged (a b : Nat) : Superadditive (exchanged a b) :=
  (superadditive_div b).comp (superadditive_mul a)

theorem superadditive_taxed (t : Nat) : Superadditive (taxed t) :=
  (superadditive_div (2 ^ 10)).comp (superadditive_sub_ceilDiv (Nat.two_pow_pos t))

theorem exchanged_eq {a b : Nat} (hb : 0 < b) (value : Nat) :
    exchanged a b value = value / b * a + value % b * a / b := by
  have hsplit : value * a = value % b * a + b * (value / b * a) := by
    conv_lhs => rw [← Nat.mod_add_div value b]
    ring
  rw [exchanged, hsplit, Nat.add_mul_div_left _ _ hb, Nat.add_comm]

theorem toNat_widenPrice (p : Price) : (p.toBitVec.setWidth 128).toNat = p.toNat := by
  rw [BitVec.toNat_setWidth]
  exact Nat.mod_eq_of_lt (lt_of_lt_of_le p.toNat_lt (by decide))

/-- A product of two prices has 128 bits, so that only the quotient can wrap. -/
theorem toNat_wideMultiply {value r : BitVec 128} {a b : Price}
    (h : Price.wideMultiplyValByAOverB value a b = .ok r) :
    b ≠ 0 ∧ r.toNat = exchanged a.toNat b.toNat value.toNat % 2 ^ 128 := by
  rw [Price.wideMultiplyValByAOverB] at h
  split at h
  · cases h
  rename_i hb
  cases h
  refine ⟨hb, ?_⟩
  have hpos : 0 < b.toNat := Nat.pos_of_ne_zero fun h0 => hb (UInt64.toNat_inj.mp h0)
  have hrem : value.toNat % b.toNat * a.toNat < 2 ^ 128 := by
    calc value.toNat % b.toNat * a.toNat < 2 ^ 64 * 2 ^ 64 :=
          Nat.mul_lt_mul'' ((Nat.mod_lt _ hpos).trans b.toNat_lt) a.toNat_lt
      _ = 2 ^ 128 := by decide
  simp only [BitVec.toNat_add, BitVec.toNat_mul, BitVec.toNat_udiv, BitVec.toNat_umod,
    toNat_widenPrice]
  rw [Nat.mod_eq_of_lt hrem, exchanged_eq hpos]
  omega

theorem toNat_lowbitsMask {t : Nat} (ht : t < 128) :
    (FractionalAsset.getLowbitsMask t).toNat = 2 ^ t - 1 := by
  have hlt : 2 ^ t < 2 ^ 128 := Nat.pow_lt_pow_right (by decide) ht
  have hpos : 0 < 2 ^ t := Nat.two_pow_pos t
  have hshift : ((1 : BitVec 128) <<< t).toNat = 2 ^ t := by
    rw [BitVec.toNat_shiftLeft, Nat.shiftLeft_eq]
    show 1 * 2 ^ t % 2 ^ 128 = 2 ^ t
    rw [Nat.one_mul, Nat.mod_eq_of_lt hlt]
  rw [FractionalAsset.getLowbitsMask, BitVec.toNat_sub, hshift]
  show (2 ^ 128 - 1 + 2 ^ t) % 2 ^ 128 = 2 ^ t - 1
  omega

theorem lowbits_ne_zero {value : BitVec 128} {t : Nat} (ht : t < 128) :
    value &&& FractionalAsset.getLowbitsMask t ≠ 0 ↔ value.toNat % 2 ^ t ≠ 0 := by
  rw [ne_eq, ← BitVec.toNat_inj, BitVec.toNat_and, toNat_lowbitsMask ht,
    Nat.and_two_pow_sub_one_eq_mod]
  rfl

theorem ceilDiv_eq {d : Nat} (hd : 0 < d) (x : Nat) :
    x ⌈/⌉ d = x / d + if x % d ≠ 0 then 1 else 0 := by
  rw [Nat.ceilDiv_eq_add_pred_div]
  have hmod := Nat.mod_add_div x d
  have hlt := Nat.mod_lt x hd
  by_cases h : x % d = 0
  · rw [if_neg (not_not.mpr h), show x + d - 1 = (d - 1) + d * (x / d) by omega,
      Nat.add_mul_div_left _ _ hd, Nat.div_eq_of_lt (by omega)]
    omega
  · rw [if_pos h, show x + d - 1 = (x % d - 1) + d * (x / d + 1) by rw [Nat.mul_add]; omega,
      Nat.add_mul_div_left _ _ hd, Nat.div_eq_of_lt (by omega)]
    omega

theorem ceilDiv_le_self {d : Nat} (hd : 0 < d) (x : Nat) : x ⌈/⌉ d ≤ x :=
  (ceilDiv_le_iff_le_mul hd).mpr (Nat.le_mul_of_pos_left x hd)

theorem shiftCount_lt (t : UInt8) : shiftCount t < 128 := Nat.mod_lt _ (by decide)

theorem shiftCount_of_lt {t : UInt8} (ht : t.toNat < 128) : shiftCount t = t.toNat :=
  Nat.mod_eq_of_lt ht

theorem toNat_taxAndRound {a : FractionalAsset} {t : UInt8} {r : BitVec 128}
    (h : a.taxAndRound t = .ok r) : r.toNat = taxed (shiftCount t) a.value.toNat := by
  have ht := shiftCount_lt t
  have hpos := Nat.two_pow_pos (shiftCount t)
  have hceil := ceilDiv_eq hpos a.value.toNat
  have hle := ceilDiv_le_self hpos a.value.toNat
  have hlt := a.value.isLt
  have htax : (if a.value &&& FractionalAsset.getLowbitsMask (shiftCount t) ≠ 0 then
      a.value >>> shiftCount t + 1 else a.value >>> shiftCount t).toNat =
        a.value.toNat ⌈/⌉ 2 ^ shiftCount t := by
    by_cases hlow : a.value &&& FractionalAsset.getLowbitsMask (shiftCount t) ≠ 0
    · rw [if_pos ((lowbits_ne_zero ht).mp hlow)] at hceil
      rw [if_pos hlow, BitVec.toNat_add, BitVec.toNat_ushiftRight, Nat.shiftRight_eq_div_pow]
      show (a.value.toNat / 2 ^ shiftCount t + 1) % 2 ^ 128 = _
      omega
    · rw [if_neg (mt (lowbits_ne_zero ht).mpr hlow)] at hceil
      rw [if_neg hlow, BitVec.toNat_ushiftRight, Nat.shiftRight_eq_div_pow]
      omega
  cases h
  rw [BitVec.toNat_ushiftRight, BitVec.toNat_sub, htax, Nat.shiftRight_eq_div_pow, taxed]
  congr 1
  omega

theorem wideMultiply_eq (value : BitVec 128) (a : Price) {b : Price} (hb : b ≠ 0) :
    Price.wideMultiplyValByAOverB value a b =
      .ok (.ofNat 128 (value.toNat * a.toNat / b.toNat)) := by
  obtain ⟨r, hr⟩ : ∃ r, Price.wideMultiplyValByAOverB value a b = .ok r :=
    ⟨_, by rw [Price.wideMultiplyValByAOverB, if_neg hb]⟩
  rw [hr]
  refine congrArg Except.ok (BitVec.eq_of_toNat_eq ?_)
  rw [(toNat_wideMultiply hr).2, BitVec.toNat_ofNat, exchanged]

theorem wideMultiply_returns {a b : Price} {value : BitVec 128} (hb : b ≠ 0)
    (hfits : exchanged a.toNat b.toNat value.toNat < 2 ^ 128) :
    ∃ r, Price.wideMultiplyValByAOverB value a b = .ok r ∧
      r.toNat = exchanged a.toNat b.toNat value.toNat := by
  refine ⟨_, wideMultiply_eq value a hb, ?_⟩
  rw [BitVec.toNat_ofNat]
  exact Nat.mod_eq_of_lt hfits

theorem taxAndRound_returns (a : FractionalAsset) (t : UInt8) :
    ∃ r, a.taxAndRound t = .ok r ∧ r.toNat = taxed (shiftCount t) a.value.toNat :=
  ⟨_, rfl, toNat_taxAndRound rfl⟩

/-- A lower rate taxes more. -/
theorem taxed_mono_rate {s t : Nat} (h : s ≤ t) (value : Nat) : taxed s value ≤ taxed t value := by
  refine Nat.div_le_div_right (Nat.sub_le_sub_left ?_ value)
  rw [ceilDiv_le_iff_le_mul (Nat.two_pow_pos t)]
  calc value ≤ 2 ^ s * (value ⌈/⌉ 2 ^ s) := (ceilDiv_le_iff_le_mul (Nat.two_pow_pos s)).mp le_rfl
    _ ≤ 2 ^ t * (value ⌈/⌉ 2 ^ s) := Nat.mul_le_mul_right _ (Nat.pow_le_pow_right (by decide) h)

/-! ### A trade -/

/-- What `clear_offer_full` and `clear_offer_partial` compute: a fixed-point amount exchanged at the
rate `sellPrice / buyPrice`, less the tax, in whole units. -/
def boughtAmount (value : BitVec 128) (sellPrice buyPrice : Price) (taxRate : UInt8) :
    Result (BitVec 128) := do
  let raw ← Price.wideMultiplyValByAOverB value sellPrice buyPrice
  (FractionalAsset.fromRaw raw).taxAndRound taxRate

theorem partialBuyAmount_eq (remaining : FractionalAsset) (sellPrice buyPrice : Price)
    (taxRate : UInt8) : partialBuyAmount remaining sellPrice buyPrice taxRate =
      (boughtAmount remaining.value sellPrice buyPrice taxRate).map narrowToInt64 := by
  rw [partialBuyAmount, boughtAmount]
  cases Price.wideMultiplyValByAOverB remaining.value sellPrice buyPrice with
  | error e => rfl
  | ok raw =>
    simp only [ok_bind]
    cases (FractionalAsset.fromRaw raw).taxAndRound taxRate <;> rfl

/-- What is bought for `value`. -/
def bought (a b t value : Nat) : Nat := taxed t (exchanged a b value)

theorem superadditive_bought (a b t : Nat) : Superadditive (bought a b t) :=
  (superadditive_taxed t).comp (superadditive_exchanged a b)

section Exact

variable {a b : Price} {value : BitVec 128} {taxRate : UInt8}

/-- What is bought, if the exchange does not wrap. -/
theorem toNat_boughtAmount {r : BitVec 128} (h : boughtAmount value a b taxRate = .ok r)
    (hfits : exchanged a.toNat b.toNat value.toNat < 2 ^ 128) :
    r.toNat = bought a.toNat b.toNat (shiftCount taxRate) value.toNat := by
  obtain ⟨raw, hraw, h⟩ := bind_eq_ok.mp h
  have hexact := (toNat_wideMultiply hraw).2
  rw [Nat.mod_eq_of_lt hfits] at hexact
  rw [toNat_taxAndRound h, bought, ← hexact]
  rfl

/-- What a trade credits is what is bought, narrowed. -/
theorem partialBuyAmount_eq_ok {amount : FractionalAsset} {buyAmount : Int64}
    (h : partialBuyAmount amount a b taxRate = .ok buyAmount)
    (hfits : exchanged a.toNat b.toNat amount.value.toNat < 2 ^ 128) :
    ∃ r, r.toNat = bought a.toNat b.toNat (shiftCount taxRate) amount.value.toNat ∧
      buyAmount = narrowToInt64 r := by
  rw [partialBuyAmount_eq] at h
  obtain ⟨r, hr, rfl⟩ := map_eq_ok.mp h
  exact ⟨r, toNat_boughtAmount hr hfits, rfl⟩

theorem boughtAmount_returns (hb : b ≠ 0) (ht : taxRate.toNat < 128)
    (hfits : exchanged a.toNat b.toNat value.toNat < 2 ^ 128) :
    ∃ r, boughtAmount value a b taxRate = .ok r ∧
      r.toNat = bought a.toNat b.toNat taxRate.toNat value.toNat := by
  obtain ⟨raw, hraw, -⟩ := wideMultiply_returns hb hfits
  obtain ⟨r, hr, -⟩ := taxAndRound_returns (.fromRaw raw) taxRate
  have hbought : boughtAmount value a b taxRate = .ok r := bind_eq_ok.mpr ⟨raw, hraw, hr⟩
  refine ⟨r, hbought, ?_⟩
  rw [toNat_boughtAmount hbought hfits, shiftCount_of_lt ht]

end Exact


theorem toNat_sum {l : List (BitVec 128)} (h : (l.map BitVec.toNat).sum < 2 ^ 128) :
    l.sum.toNat = (l.map BitVec.toNat).sum := by
  induction l with
  | nil => rfl
  | cons v l ih =>
    rw [List.map_cons, List.sum_cons] at h ⊢
    rw [List.sum_cons, BitVec.toNat_add, ih (by omega), Nat.mod_eq_of_lt h]

/-- Neither the split of a trade nor a higher tax gives a trader more. -/
theorem boughtAmount_superadditive {a b : Price} (hb : b ≠ 0) :
    (∀ v : BitVec 128, exchanged a.toNat b.toNat v.toNat < 2 ^ 128 →
      ∃ r, Price.wideMultiplyValByAOverB v a b = .ok r ∧ r.toNat = v.toNat * a.toNat / b.toNat) ∧
    (∀ (t : UInt8) (v : BitVec 128), t.toNat < 128 →
      ∃ r, (FractionalAsset.fromRaw v).taxAndRound t = .ok r ∧
        r.toNat = (v.toNat - (v.toNat ⌈/⌉ 2 ^ t.toNat)) / 2 ^ 10) ∧
    ∀ t : UInt8, t.toNat < 128 →
      (∀ v w : BitVec 128, v.toNat + w.toNat < 2 ^ 128 →
        exchanged a.toNat b.toNat (v.toNat + w.toNat) < 2 ^ 128 →
        ∃ x y z, boughtAmount v a b t = .ok x ∧ boughtAmount w a b t = .ok y ∧
          boughtAmount (v + w) a b t = .ok z ∧ x.toNat + y.toNat ≤ z.toNat) ∧
      (∀ v w : BitVec 128, v ≤ w → exchanged a.toNat b.toNat w.toNat < 2 ^ 128 →
        ∃ x y, boughtAmount v a b t = .ok x ∧ boughtAmount w a b t = .ok y ∧ x ≤ y) ∧
      (∀ (u : UInt8) (v : BitVec 128), t ≤ u → u.toNat < 128 →
        exchanged a.toNat b.toNat v.toNat < 2 ^ 128 →
        ∃ x y, boughtAmount v a b t = .ok x ∧ boughtAmount v a b u = .ok y ∧ x ≤ y) ∧
      ∀ l : List (BitVec 128), (l.map BitVec.toNat).sum < 2 ^ 128 →
        exchanged a.toNat b.toNat (l.map BitVec.toNat).sum < 2 ^ 128 →
        ∃ xs z, l.mapM (boughtAmount · a b t) = .ok xs ∧ boughtAmount l.sum a b t = .ok z ∧
          (xs.map BitVec.toNat).sum ≤ z.toNat := by
  have hmono := (superadditive_exchanged a.toNat b.toNat).monotone
  refine ⟨fun v hfits => wideMultiply_returns hb hfits, fun t v ht => ?_,
    fun t ht => ⟨?_, ?_, ?_, ?_⟩⟩
  · obtain ⟨r, hr, htaxed⟩ := taxAndRound_returns (.fromRaw v) t
    rw [shiftCount_of_lt ht] at htaxed
    exact ⟨r, hr, htaxed⟩
  · intro v w hsum hfits
    have hadd : (v + w).toNat = v.toNat + w.toNat := by
      rw [BitVec.toNat_add, Nat.mod_eq_of_lt hsum]
    obtain ⟨x, hx, hxe⟩ := @boughtAmount_returns a b v t hb ht
      ((hmono (Nat.le_add_right _ _)).trans_lt hfits)
    obtain ⟨y, hy, hye⟩ := @boughtAmount_returns a b w t hb ht
      ((hmono (Nat.le_add_left _ _)).trans_lt hfits)
    obtain ⟨z, hz, hze⟩ := @boughtAmount_returns a b (v + w) t hb ht (hadd ▸ hfits)
    refine ⟨x, y, z, hx, hy, hz, ?_⟩
    rw [hxe, hye, hze, hadd]
    exact superadditive_bought _ _ _ _ _
  · intro v w hvw hfits
    obtain ⟨x, hx, hxe⟩ := @boughtAmount_returns a b v t hb ht
      ((hmono (BitVec.le_def.mp hvw)).trans_lt hfits)
    obtain ⟨y, hy, hye⟩ := @boughtAmount_returns a b w t hb ht hfits
    refine ⟨x, y, hx, hy, ?_⟩
    rw [BitVec.le_def, hxe, hye]
    exact (superadditive_bought _ _ _).monotone (BitVec.le_def.mp hvw)
  · intro u v htu hu hfits
    obtain ⟨x, hx, hxe⟩ := @boughtAmount_returns a b v t hb ht hfits
    obtain ⟨y, hy, hye⟩ := @boughtAmount_returns a b v u hb hu hfits
    refine ⟨x, y, hx, hy, ?_⟩
    rw [BitVec.le_def, hxe, hye]
    exact taxed_mono_rate (UInt8.le_iff_toNat_le.mp htu) _
  · intro l hsum hfits
    have hmem : ∀ v ∈ l, v.toNat ≤ (l.map BitVec.toNat).sum := fun v hv =>
      List.single_le_sum (fun _ _ => Nat.zero_le _) _ (List.mem_map_of_mem hv)
    have hparts : ∀ v ∈ l, ∃ x, boughtAmount v a b t = .ok x ∧
        x.toNat = bought a.toNat b.toNat t.toNat v.toNat := fun v hv =>
      boughtAmount_returns hb ht ((hmono (hmem v hv)).trans_lt hfits)
    obtain ⟨xs, hxs, hmap⟩ := mapM_returns hparts
    obtain ⟨z, hz, hze⟩ := @boughtAmount_returns a b l.sum t hb ht (toNat_sum hsum ▸ hfits)
    refine ⟨xs, z, hxs, hz, ?_⟩
    have hsplit := (superadditive_bought a.toNat b.toNat t.toNat).sum_le (l.map BitVec.toNat)
    rw [hmap, hze, toNat_sum hsum]
    simpa [Function.comp_def] using hsplit

/-- Two parts of a trade at the rate `3 / 2` and a tax of an eighth. -/
theorem boughtAmount_superadditive_threeHalves :
    ∃ x y z, boughtAmount 3000 3 2 3 = .ok x ∧ boughtAmount 5001 3 2 3 = .ok y ∧
      boughtAmount (3000 + 5001) 3 2 3 = .ok z ∧ x.toNat + y.toNat ≤ z.toNat :=
  ((boughtAmount_superadditive (a := 3) (b := 2) (by decide)).2.2 3 (by decide)).1 3000 5001
    (by decide) (by decide)

end Speedex
