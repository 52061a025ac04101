import Speedex.Orderbook.Supply

/-! The demand queries of `orderbook/orderbook.cc`: what an orderbook adds to the demand for the
asset that it buys and to the supply of the asset that it sells.  Offers up to the lower execution
price count in full, offers between the two prices in proportion. -/

namespace Speedex

open Lib

namespace Orderbook

/-! ### The queries -/

/-- A 64-bit operand of a 128-bit operation. -/
def widen (x : UInt64) : BitVec 128 := x.toBitVec.setWidth 128

/-- `workspace[asset] += volume`. -/
def addAt (workspace : List (BitVec 128)) (asset : Nat) (volume : BitVec 128) :
    Result (List (BitVec 128)) := do
  let old ← vectorAt workspace asset
  return workspace.set asset (old + volume)

section FromMetadata

variable (metadataPartial metadataFull : EndowAccumulator)

def fullExecEndow : UInt64 := metadataFull.endow.toUInt64

def partialExecEndow : UInt64 := metadataPartial.endow.toUInt64 - fullExecEndow metadataFull

def partialExecEndowTimesPrice : BitVec 128 :=
  metadataPartial.endowTimesPrice - metadataFull.endowTimesPrice

/-- The check that both copies of the computation make first. -/
def checkMetadata : Result Unit :=
  if metadataPartial.endowTimesPrice.slt metadataFull.endowTimesPrice then
    .error (.runtimeError
      "This should absolutely never happen, and means indexed_metadata or binary search is broken (or maybe an overflow)")
  else .ok ()

end FromMetadata

/-- The two halves of the value, each times the price. -/
def upperTimesPrice (endowTimesLimitPrice : BitVec 128) (price : UInt64) : BitVec 128 :=
  endowTimesLimitPrice >>> 64 * widen price

def lowerTimesPrice (endowTimesLimitPrice : BitVec 128) (price : UInt64) : BitVec 128 :=
  (endowTimesLimitPrice &&& widen 0xFFFFFFFFFFFFFFFF) * widen price

/-- `wide_multiply_safe`. -/
def wideMultiplySafe (endowTimesLimitPrice : BitVec 128) (price : UInt64) : BitVec 128 :=
  upperTimesPrice endowTimesLimitPrice price <<< (64 - Price.radix) +
    lowerTimesPrice endowTimesLimitPrice price >>> Price.radix

/-- `total_trade_volume`, in units of amount times price. -/
def tradeVolume (sellPrice buyPrice : Price) (smoothMult : UInt8)
    (metadataPartial metadataFull : EndowAccumulator) : Result (BitVec 128) := do
  checkMetadata metadataPartial metadataFull
  let fullExecTradeVolume := widen (fullExecEndow metadataFull) * widen sellPrice
  let partialExecTradeVolume ←
    (if smoothMult > 0 then
      let part1 := widen sellPrice * widen (partialExecEndow metadataPartial metadataFull)
      let part2 := wideMultiplySafe (partialExecEndowTimesPrice metadataPartial metadataFull) buyPrice
      if part1 < part2 then .error (.runtimeError "arithmetic error")
      else if 128 ≤ smoothMult.toNat then .error .shiftOutOfRange
      else .ok ((part1 - part2) <<< smoothMult.toNat)
    else .ok 0)
  return fullExecTradeVolume + partialExecTradeVolume

def calculateDemandsAndSuppliesTimesPricesFromMetadata (ob : Orderbook) (prices : List Price)
    (demandsWorkspace suppliesWorkspace : List (BitVec 128)) (smoothMult : UInt8)
    (metadataPartial metadataFull : EndowAccumulator) :
    Result (List (BitVec 128) × List (BitVec 128)) := do
  let sellPrice ← vectorAt prices ob.category.sellAsset.toNat
  let buyPrice ← vectorAt prices ob.category.buyAsset.toNat
  let volume ← tradeVolume sellPrice buyPrice smoothMult metadataPartial metadataFull
  let demands ← addAt demandsWorkspace ob.category.buyAsset.toNat volume
  let supplies ← addAt suppliesWorkspace ob.category.sellAsset.toNat volume
  return (demands, supplies)

def calculateDemandsAndSuppliesTimesPrices (ob : Orderbook) (prices : List Price)
    (demandsWorkspace suppliesWorkspace : List (BitVec 128)) (smoothMult : UInt8) :
    Result (List (BitVec 128) × List (BitVec 128)) := do
  let sellPrice ← vectorAt prices ob.category.sellAsset.toNat
  let buyPrice ← vectorAt prices ob.category.buyAsset.toNat
  let (fullExecP, partialExecP) ← getExecutionPrices sellPrice buyPrice smoothMult
  let metadataPartial ← ob.getMetadata partialExecP
  let metadataFull ← (if smoothMult ≠ 0 then ob.getMetadata fullExecP else .ok metadataPartial)
  ob.calculateDemandsAndSuppliesTimesPricesFromMetadata prices demandsWorkspace suppliesWorkspace
    smoothMult metadataPartial metadataFull

/-- The smoothing terms of `calculate_demands_and_supplies_from_metadata`: `partial_buy_volume` and
`partial_sell_volume`.  The shift of `partial_exec_endow` is one of 64 bits, made before the result is
widened. -/
def partialVolumes (sellPrice buyPrice : Price) (smoothMult : UInt8)
    (metadataPartial metadataFull : EndowAccumulator) : Result (BitVec 128 × BitVec 128) :=
  if 64 ≤ smoothMult.toNat then .error .shiftOutOfRange
  else do
    let endowOverEpsilon := widen
      (partialExecEndow metadataPartial metadataFull <<< smoothMult.toUInt64)
    let endowTimesPriceOverEpsilon :=
      partialExecEndowTimesPrice metadataPartial metadataFull <<< smoothMult.toNat
    let sellWideMultiplyResult ←
      Price.wideMultiplyValByAOverB endowTimesPriceOverEpsilon buyPrice sellPrice
    if endowOverEpsilon <<< Price.radix < sellWideMultiplyResult then
      .error (.runtimeError "this should not happen unless something has begun to overflow")
    else do
      let buyWideMultiplyResult ←
        Price.wideMultiplyValByAOverB (endowOverEpsilon <<< Price.radix) sellPrice buyPrice
      if buyWideMultiplyResult < endowTimesPriceOverEpsilon then
        .error (.runtimeError "this should not happen unless something has begun to overflow")
      else
        return (buyWideMultiplyResult - endowTimesPriceOverEpsilon,
          endowOverEpsilon <<< Price.radix - sellWideMultiplyResult)

def calculateDemandsAndSuppliesFromMetadata (ob : Orderbook) (prices : List Price)
    (demandsWorkspace suppliesWorkspace : List (BitVec 128)) (smoothMult : UInt8)
    (metadataPartial metadataFull : EndowAccumulator) :
    Result (List (BitVec 128) × List (BitVec 128)) := do
  let sellPrice ← vectorAt prices ob.category.sellAsset.toNat
  let buyPrice ← vectorAt prices ob.category.buyAsset.toNat
  checkMetadata metadataPartial metadataFull
  let (partialBuyVolume, partialSellVolume) ←
    (if smoothMult ≠ 0 then partialVolumes sellPrice buyPrice smoothMult metadataPartial metadataFull
    else .ok (0, 0))
  let fullSellVolume := partialSellVolume + widen (fullExecEndow metadataFull) <<< Price.radix
  let fullBuyVolume ← (partialBuyVolume + ·) <$> Price.wideMultiplyValByAOverB
    (widen (fullExecEndow metadataFull) <<< Price.radix) sellPrice buyPrice
  let demands ← addAt demandsWorkspace ob.category.buyAsset.toNat fullBuyVolume
  let supplies ← addAt suppliesWorkspace ob.category.sellAsset.toNat fullSellVolume
  return (demands, supplies)

/-- The second copy of the computation, on the metadata that it looks up itself. -/
def calculateDemandsAndSupplies (ob : Orderbook) (prices : List Price)
    (demandsWorkspace suppliesWorkspace : List (BitVec 128)) (smoothMult : UInt8) :
    Result (List (BitVec 128) × List (BitVec 128)) := do
  let sellPrice ← vectorAt prices ob.category.sellAsset.toNat
  let buyPrice ← vectorAt prices ob.category.buyAsset.toNat
  let (fullExecP, partialExecP) ← getExecutionPrices sellPrice buyPrice smoothMult
  let metadataPartial ← ob.getMetadata partialExecP
  let metadataFull ← (if smoothMult ≠ 0 then ob.getMetadata fullExecP else .ok metadataPartial)
  checkMetadata metadataPartial metadataFull
  let (partialBuyVolume, partialSellVolume) ←
    (if smoothMult ≠ 0 then
      if 64 ≤ smoothMult.toNat then .error .shiftOutOfRange
      else do
        let endowOverEpsilon := widen
          (partialExecEndow metadataPartial metadataFull <<< smoothMult.toUInt64)
        let endowTimesPriceOverEpsilon :=
          partialExecEndowTimesPrice metadataPartial metadataFull <<< smoothMult.toNat
        let sellWideMultiplyResult ←
          Price.wideMultiplyValByAOverB endowTimesPriceOverEpsilon buyPrice sellPrice
        if endowOverEpsilon <<< Price.radix < sellWideMultiplyResult then
          .error (.runtimeError "this should not happen unless something has begun to overflow")
        else do
          let buyWideMultiplyResult ←
            Price.wideMultiplyValByAOverB (endowOverEpsilon <<< Price.radix) sellPrice buyPrice
          if buyWideMultiplyResult < endowTimesPriceOverEpsilon then
            .error (.runtimeError "this should not happen unless something has begun to overflow")
          else
            return (buyWideMultiplyResult - endowTimesPriceOverEpsilon,
              endowOverEpsilon <<< Price.radix - sellWideMultiplyResult)
    else .ok (0, 0))
  let fullSellVolume := partialSellVolume + widen (fullExecEndow metadataFull) <<< Price.radix
  let fullBuyVolume ← (partialBuyVolume + ·) <$> Price.wideMultiplyValByAOverB
    (widen (fullExecEndow metadataFull) <<< Price.radix) sellPrice buyPrice
  let demands ← addAt demandsWorkspace ob.category.buyAsset.toNat fullBuyVolume
  let supplies ← addAt suppliesWorkspace ob.category.sellAsset.toNat fullSellVolume
  return (demands, supplies)

/-! ### The two execution prices -/

/-- The offers that count in proportion. -/
def offersBetween (t : OrderbookTrie) (lower upper : Price) : List Offer :=
  t.accumulateValues.filter fun offer => lower < offer.minPrice ∧ offer.minPrice ≤ upper

def amountBetween (t : OrderbookTrie) (lower upper : Price) : Nat :=
  ((offersBetween t lower upper).map fun offer => offer.amount.toNat).sum

def volumeBetween (t : OrderbookTrie) (lower upper : Price) : Nat :=
  ((offersBetween t lower upper).map fun offer => offer.amount.toNat * offer.minPrice.toNat).sum

open OrderbookTrie

section Between

variable (t : OrderbookTrie)

/-- The offers up to the upper price are those up to the lower one and those between. -/
theorem sum_between {lower upper : Price} (h : lower ≤ upper) (g : Offer → Nat) :
    ((t.offersUpTo upper).map g).sum =
      ((t.offersUpTo lower).map g).sum + ((offersBetween t lower upper).map g).sum := by
  rw [offersUpTo, offersUpTo, offersBetween]
  induction t.accumulateValues with
  | nil => rfl
  | cons offer l ih =>
    simp only [List.filter_cons, decide_eq_true_eq]
    rw [UInt64.le_iff_toNat_le] at h
    simp only [UInt64.le_iff_toNat_le, UInt64.lt_iff_toNat_lt] at ih ⊢
    by_cases hlower : offer.minPrice.toNat ≤ lower.toNat
    · rw [if_pos (hlower.trans h), if_pos hlower, if_neg (by omega), List.map_cons, List.map_cons,
        List.sum_cons, List.sum_cons, ih]
      omega
    · by_cases hupper : offer.minPrice.toNat ≤ upper.toNat
      · rw [if_pos hupper, if_neg hlower, if_pos ⟨not_le.mp hlower, hupper⟩, List.map_cons,
          List.map_cons, List.sum_cons, List.sum_cons, ih]
        omega
      · rw [if_neg hupper, if_neg hlower, if_neg fun h => hupper h.2, ih]

/-- The limit prices of the offers between are between the two prices. -/
theorem volumeBetween_bounds (lower upper : Price) :
    amountBetween t lower upper * (lower.toNat + 1) ≤ volumeBetween t lower upper ∧
      volumeBetween t lower upper ≤ amountBetween t lower upper * upper.toNat := by
  have hprices : ∀ offer ∈ offersBetween t lower upper,
      lower.toNat + 1 ≤ offer.minPrice.toNat ∧ offer.minPrice.toNat ≤ upper.toNat := by
    intro offer hoffer
    have hmem := (List.mem_filter.mp hoffer).2
    rw [decide_eq_true_eq, UInt64.lt_iff_toNat_lt, UInt64.le_iff_toNat_le] at hmem
    exact hmem
  rw [amountBetween, volumeBetween, ← List.sum_map_mul_right, ← List.sum_map_mul_right]
  exact ⟨List.sum_le_sum fun offer hoffer => Nat.mul_le_mul_left _ (hprices offer hoffer).1,
    List.sum_le_sum fun offer hoffer => Nat.mul_le_mul_left _ (hprices offer hoffer).2⟩

theorem amountBetween_self (p : Price) : amountBetween t p p = 0 := by
  have hsum := sum_between t (le_refl p) fun offer => offer.amount.toNat
  rw [amountBetween]
  omega

theorem amountUpTo_le_total (p : Price) : t.amountUpTo p ≤ t.totalEndow := by
  rw [totalEndow_eq]
  exact List.Sublist.sum_le_sum (List.Sublist.map _ List.filter_sublist) fun _ _ => Nat.zero_le _

end Between

/-! ### The totals at the two prices -/

/-- What `get_metadata` returns while the amounts fit. -/
def totals (t : OrderbookTrie) (p : Price) : EndowAccumulator :=
  ⟨.ofNat (t.amountUpTo p), .ofNat 128 (t.volumeUpTo p)⟩

section Totals

variable {t : OrderbookTrie} {lower upper : Price}

theorem volumeUpTo_lt (hlisted : t.Listed) (htotal : t.totalEndow ≤ 2 ^ 63 - 1) (p : Price) :
    t.volumeUpTo p < 2 ^ 111 := by
  have hvolume := volumeUpTo_le hlisted p
  have hamount := amountUpTo_le_total t p
  omega

theorem toNat_fullExecEndow (htotal : t.totalEndow ≤ 2 ^ 63 - 1) (p : Price) :
    (fullExecEndow (totals t p)).toNat = t.amountUpTo p := by
  have hamount := amountUpTo_le_total t p
  show (BitVec.ofNat 64 (t.amountUpTo p)).toNat = _
  rw [BitVec.toNat_ofNat]
  omega

theorem toNat_partialExecEndow (htotal : t.totalEndow ≤ 2 ^ 63 - 1) (hle : lower ≤ upper) :
    (partialExecEndow (totals t upper) (totals t lower)).toNat = amountBetween t lower upper := by
  have hsum : t.amountUpTo upper = t.amountUpTo lower + amountBetween t lower upper :=
    sum_between t hle fun offer => offer.amount.toNat
  have hupper : (totals t upper).endow.toUInt64.toNat = t.amountUpTo upper :=
    toNat_fullExecEndow htotal upper
  have hlower := toNat_fullExecEndow htotal lower
  have hwhole : fullExecEndow (totals t lower) ≤ (totals t upper).endow.toUInt64 :=
    UInt64.le_iff_toNat_le.mpr (by omega)
  rw [partialExecEndow, UInt64.toNat_sub_of_le _ _ hwhole]
  omega

theorem toNat_partialExecEndowTimesPrice (hlisted : t.Listed) (htotal : t.totalEndow ≤ 2 ^ 63 - 1)
    (hle : lower ≤ upper) :
    (partialExecEndowTimesPrice (totals t upper) (totals t lower)).toNat =
      volumeBetween t lower upper := by
  have hsum : t.volumeUpTo upper = t.volumeUpTo lower + volumeBetween t lower upper :=
    sum_between t hle fun offer => offer.amount.toNat * offer.minPrice.toNat
  have hlower := volumeUpTo_lt hlisted htotal lower
  have hupper := volumeUpTo_lt hlisted htotal upper
  show (BitVec.ofNat 128 (t.volumeUpTo upper) - BitVec.ofNat 128 (t.volumeUpTo lower)).toNat = _
  rw [BitVec.toNat_sub, BitVec.toNat_ofNat, BitVec.toNat_ofNat]
  omega

theorem checkMetadata_totals (hlisted : t.Listed) (htotal : t.totalEndow ≤ 2 ^ 63 - 1)
    (hle : lower ≤ upper) : checkMetadata (totals t upper) (totals t lower) = .ok () := by
  have hsum : t.volumeUpTo upper = t.volumeUpTo lower + volumeBetween t lower upper :=
    sum_between t hle fun offer => offer.amount.toNat * offer.minPrice.toNat
  have htoInt : ∀ p, (totals t p).endowTimesPrice.toInt = t.volumeUpTo p := by
    intro p
    have hlt := volumeUpTo_lt hlisted htotal p
    show (BitVec.ofNat 128 (t.volumeUpTo p)).toInt = _
    rw [BitVec.toInt_eq_toNat_of_lt] <;> rw [BitVec.toNat_ofNat] <;> omega
  rw [checkMetadata, if_neg]
  rw [BitVec.slt_iff_toInt_lt, htoInt, htoInt]
  omega

/-- The two lookups that both queries start with. -/
theorem getMetadata_totals (ob : Orderbook) (hlisted : ob.committedOffers.Listed)
    (htotal : ob.committedOffers.totalEndow ≤ 2 ^ 63 - 1) (p : Price) :
    ob.generateMetadataIndex.getMetadata p = .ok (totals ob.committedOffers p) := by
  have hamount := amountUpTo_le_total ob.committedOffers p
  exact getMetadata_upTo ob.generateMetadataIndex hlisted rfl
    (lt_of_le_of_lt (hamount.trans htotal) (by decide))

theorem fullLookup_eq {ob : Orderbook} (hlisted : ob.committedOffers.Listed)
    (htotal : ob.committedOffers.totalEndow ≤ 2 ^ 63 - 1) {smoothMult : UInt8}
    (hequal : smoothMult = 0 → lower = upper) :
    (if smoothMult ≠ 0 then ob.generateMetadataIndex.getMetadata lower
      else .ok (totals ob.committedOffers upper)) = .ok (totals ob.committedOffers lower) := by
  split
  · exact getMetadata_totals ob hlisted htotal lower
  · rename_i hzero
    rw [hequal (not_not.mp hzero)]

end Totals

theorem addAt_eq {workspace : List (BitVec 128)} {asset : Nat} (h : asset < workspace.length)
    (volume : BitVec 128) :
    addAt workspace asset volume = .ok (workspace.set asset (workspace[asset] + volume)) := by
  rw [addAt, vectorAt_eq_ok.mpr (List.getElem?_eq_getElem h)]
  rfl

/-! ### The volume times price -/

/-- The rounding of the lower price: it is close enough to the rate that what is sold in proportion
is at most the offers themselves. -/
theorem lower_price_spec {sell buy lower upper s : Nat} (hbuy : 0 < buy)
    (hupper : upper = sell * 2 ^ 24 / buy) (hlower : lower = upper - upper / 2 ^ s) :
    (2 ^ s - 1) * (sell * 2 ^ 24) ≤ 2 ^ s * ((lower + 1) * buy) := by
  have hrate : sell * 2 ^ 24 < (upper + 1) * buy := by
    rw [hupper, Nat.mul_comm _ buy]
    exact Nat.lt_mul_div_succ _ hbuy
  have hsplit : upper + 1 = lower + 1 + upper / 2 ^ s := by
    have hle := Nat.div_le_self upper (2 ^ s)
    omega
  have hsum : 2 ^ s * (sell * 2 ^ 24) ≤ 2 ^ s * ((lower + 1) * buy) + sell * 2 ^ 24 := by
    calc 2 ^ s * (sell * 2 ^ 24) ≤ 2 ^ s * ((upper + 1) * buy) := Nat.mul_le_mul_left _ hrate.le
      _ = 2 ^ s * ((lower + 1) * buy) + upper / 2 ^ s * 2 ^ s * buy := by
        rw [hsplit]
        ring
      _ ≤ 2 ^ s * ((lower + 1) * buy) + upper * buy :=
        Nat.add_le_add_left (Nat.mul_le_mul_right _ (Nat.div_mul_le_self _ _)) _
      _ ≤ 2 ^ s * ((lower + 1) * buy) + sell * 2 ^ 24 := by
        rw [hupper]
        exact Nat.add_le_add_left (Nat.div_mul_le_self _ _) _
  rw [Nat.sub_one_mul]
  omega

/-- So the offers between add less than themselves, up to the rounding of one product. -/
theorem smoothed_lt {sell buy lower upper s P Q : Nat} (hbuy : 0 < buy)
    (hupper : upper = sell * 2 ^ 24 / buy) (hlower : lower = upper - upper / 2 ^ s)
    (hQ : P * (lower + 1) ≤ Q) :
    (sell * P - Q * buy / 2 ^ 24) * 2 ^ s < P * sell + 2 ^ s := by
  have hpow : 0 < 2 ^ s := Nat.two_pow_pos s
  have hspec := lower_price_spec hbuy hupper hlower
  have hfloor : Q * buy < 2 ^ 24 * (Q * buy / 2 ^ 24 + 1) := Nat.lt_mul_div_succ _ (by decide)
  have hlow : P * ((2 ^ s - 1) * sell) * 2 ^ 24 < 2 ^ s * (Q * buy / 2 ^ 24 + 1) * 2 ^ 24 := by
    calc P * ((2 ^ s - 1) * sell) * 2 ^ 24 = P * ((2 ^ s - 1) * (sell * 2 ^ 24)) := by ring
      _ ≤ P * (2 ^ s * ((lower + 1) * buy)) := Nat.mul_le_mul_left _ hspec
      _ = 2 ^ s * (P * (lower + 1) * buy) := by ring
      _ ≤ 2 ^ s * (Q * buy) := Nat.mul_le_mul_left _ (Nat.mul_le_mul_right _ hQ)
      _ < 2 ^ s * (2 ^ 24 * (Q * buy / 2 ^ 24 + 1)) := Nat.mul_lt_mul_of_pos_left hfloor hpow
      _ = 2 ^ s * (Q * buy / 2 ^ 24 + 1) * 2 ^ 24 := by ring
  have hlow' := Nat.lt_of_mul_lt_mul_right hlow
  rw [Nat.sub_one_mul, Nat.mul_sub] at hlow'
  rw [Nat.sub_mul]
  have hPs : P * (2 ^ s * sell) = sell * P * 2 ^ s := by ring
  have hfs : 2 ^ s * (Q * buy / 2 ^ 24 + 1) = Q * buy / 2 ^ 24 * 2 ^ s + 2 ^ s := by ring
  omega

/-- The value in two halves, as in `wide_multiply_safe`. -/
theorem halves_eq (Q buy : Nat) :
    Q / 2 ^ 64 * buy * 2 ^ 40 + Q % 2 ^ 64 * buy / 2 ^ 24 = Q * buy / 2 ^ 24 := by
  have hsplit : Q * buy = Q % 2 ^ 64 * buy + 2 ^ 24 * (Q / 2 ^ 64 * buy * 2 ^ 40) := by
    conv_lhs => rw [← Nat.mod_add_div Q (2 ^ 64)]
    ring
  rw [hsplit, Nat.add_mul_div_left _ _ (by decide), Nat.add_comm]

theorem toNat_widen (x : UInt64) : (widen x).toNat = x.toNat := toNat_widenPrice x

/-- A product of two 64-bit values has 128 bits. -/
theorem toNat_widen_mul (x y : UInt64) : (widen x * widen y).toNat = x.toNat * y.toNat := by
  have hx := x.toNat_lt
  have hy := y.toNat_lt
  have hlt : x.toNat * y.toNat < 2 ^ 64 * 2 ^ 64 := Nat.mul_lt_mul'' hx hy
  rw [BitVec.toNat_mul, toNat_widen, toNat_widen, Nat.mod_eq_of_lt (by omega)]

/-- Every intermediate value of the computation of `V` is the exact one: `F` and `P` are the amounts
that count in full and in proportion, and `Q` is the amount times price of the latter. -/
structure ExactVolume (sellPrice buyPrice : Price) (smoothMult : UInt8) (F P Q : Nat)
    (metadataPartial metadataFull : EndowAccumulator) (V : BitVec 128) : Prop where
  fullEndow : (fullExecEndow metadataFull).toNat = F
  partialEndow : (partialExecEndow metadataPartial metadataFull).toNat = P
  partialTimesPrice : (partialExecEndowTimesPrice metadataPartial metadataFull).toNat = Q
  fullVolume : (widen (fullExecEndow metadataFull) * widen sellPrice).toNat = F * sellPrice.toNat
  part1 : (widen sellPrice * widen (partialExecEndow metadataPartial metadataFull)).toNat =
    sellPrice.toNat * P
  upperHalf : (upperTimesPrice (partialExecEndowTimesPrice metadataPartial metadataFull)
    buyPrice).toNat = Q / 2 ^ 64 * buyPrice.toNat
  shiftedHalf : (upperTimesPrice (partialExecEndowTimesPrice metadataPartial metadataFull)
    buyPrice <<< (64 - Price.radix)).toNat = Q / 2 ^ 64 * buyPrice.toNat * 2 ^ 40
  lowerHalf : (lowerTimesPrice (partialExecEndowTimesPrice metadataPartial metadataFull)
    buyPrice).toNat = Q % 2 ^ 64 * buyPrice.toNat
  part2 : (wideMultiplySafe (partialExecEndowTimesPrice metadataPartial metadataFull)
    buyPrice).toNat = Q * buyPrice.toNat / 2 ^ 24
  part2_le : Q * buyPrice.toNat / 2 ^ 24 ≤ sellPrice.toNat * P
  partialVolume : ((widen sellPrice * widen (partialExecEndow metadataPartial metadataFull) -
    wideMultiplySafe (partialExecEndowTimesPrice metadataPartial metadataFull) buyPrice) <<<
      smoothMult.toNat).toNat =
    (sellPrice.toNat * P - Q * buyPrice.toNat / 2 ^ 24) * 2 ^ smoothMult.toNat
  total : V.toNat = F * sellPrice.toNat +
    (sellPrice.toNat * P - Q * buyPrice.toNat / 2 ^ 24) * 2 ^ smoothMult.toNat

/-- Both halves of `wide_multiply_safe` are exact, for a value below `2^111`. -/
theorem wideMultiplySafe_halves (x : BitVec 128) (price : Price) (hx : x.toNat < 2 ^ 111)
    (hprice : price.toNat < 2 ^ 48) (hfits : x.toNat * price.toNat / 2 ^ 24 < 2 ^ 128) :
    (upperTimesPrice x price).toNat = x.toNat / 2 ^ 64 * price.toNat ∧
    (upperTimesPrice x price <<< (64 - Price.radix)).toNat =
      x.toNat / 2 ^ 64 * price.toNat * 2 ^ 40 ∧
    (lowerTimesPrice x price).toNat = x.toNat % 2 ^ 64 * price.toNat ∧
    (wideMultiplySafe x price).toNat = x.toNat * price.toNat / 2 ^ 24 := by
  have hhalves := halves_eq x.toNat price.toNat
  have hupper : (upperTimesPrice x price).toNat = x.toNat / 2 ^ 64 * price.toNat := by
    have hlt : x.toNat / 2 ^ 64 * price.toNat < 2 ^ 47 * 2 ^ 48 :=
      Nat.mul_lt_mul'' (by omega) hprice
    rw [upperTimesPrice, BitVec.toNat_mul, BitVec.toNat_ushiftRight, Nat.shiftRight_eq_div_pow,
      toNat_widen, Nat.mod_eq_of_lt (by omega)]
  have hshifted : (upperTimesPrice x price <<< (64 - Price.radix)).toNat =
      x.toNat / 2 ^ 64 * price.toNat * 2 ^ 40 := by
    rw [BitVec.toNat_shiftLeft, Nat.shiftLeft_eq, hupper]
    show _ * 2 ^ 40 % 2 ^ 128 = _
    omega
  have hlower : (lowerTimesPrice x price).toNat = x.toNat % 2 ^ 64 * price.toNat := by
    have hlt : x.toNat % 2 ^ 64 * price.toNat < 2 ^ 64 * 2 ^ 48 :=
      Nat.mul_lt_mul'' (Nat.mod_lt _ (by decide)) hprice
    have hmask : (x &&& widen 0xFFFFFFFFFFFFFFFF).toNat = x.toNat % 2 ^ 64 := by
      rw [BitVec.toNat_and]
      exact Nat.and_two_pow_sub_one_eq_mod x.toNat 64
    rw [lowerTimesPrice, BitVec.toNat_mul, hmask, toNat_widen, Nat.mod_eq_of_lt (by omega)]
  refine ⟨hupper, hshifted, hlower, ?_⟩
  rw [wideMultiplySafe, BitVec.toNat_add, hshifted, BitVec.toNat_ushiftRight, hlower,
    Nat.shiftRight_eq_div_pow]
  show (_ + x.toNat % 2 ^ 64 * price.toNat / 2 ^ 24) % 2 ^ 128 = _
  rw [hhalves, Nat.mod_eq_of_lt hfits]

/-- The offers between sell for at most what they are worth at the rate. -/
theorem volumeBetween_le_rate {sell buy upper P Q : Nat} (hrate : upper * buy ≤ sell * 2 ^ 24)
    (hQ : Q ≤ P * upper) : Q * buy ≤ P * (sell * 2 ^ 24) :=
  calc Q * buy ≤ P * upper * buy := Nat.mul_le_mul_right _ hQ
    _ = P * (upper * buy) := Nat.mul_assoc _ _ _
    _ ≤ P * (sell * 2 ^ 24) := Nat.mul_le_mul_left _ hrate

section Volume

variable {t : OrderbookTrie} {sellPrice buyPrice lower upper : Price} {smoothMult : UInt8}

/-- At a rate below `2^40`, `tradeVolume` returns and no intermediate value wraps. -/
theorem tradeVolume_exact (hlisted : t.Listed) (htotal : t.totalEndow ≤ 2 ^ 63 - 1)
    (hsell : sellPrice.toNat < 2 ^ 48) (hbuy : 0 < buyPrice.toNat) (hbuy' : buyPrice.toNat < 2 ^ 48)
    (hsmooth : smoothMult.toNat ≤ 15)
    (hupper : upper.toNat = sellPrice.toNat * 2 ^ 24 / buyPrice.toNat)
    (hlower : lower.toNat =
      upper.toNat - if smoothMult = 0 then 0 else upper.toNat / 2 ^ smoothMult.toNat) :
    ∃ V, tradeVolume sellPrice buyPrice smoothMult (totals t upper) (totals t lower) = .ok V ∧
      ExactVolume sellPrice buyPrice smoothMult (t.amountUpTo lower) (amountBetween t lower upper)
        (volumeBetween t lower upper) (totals t upper) (totals t lower) V ∧
      (sellPrice.toNat * amountBetween t lower upper -
        volumeBetween t lower upper * buyPrice.toNat / 2 ^ 24) * 2 ^ smoothMult.toNat <
          amountBetween t lower upper * sellPrice.toNat + 2 ^ smoothMult.toNat := by
  have hle : lower ≤ upper := UInt64.le_iff_toNat_le.mpr (by omega)
  have hsum : t.amountUpTo upper = t.amountUpTo lower + amountBetween t lower upper :=
    sum_between t hle fun offer => offer.amount.toNat
  have hmax := amountUpTo_le_total t upper
  obtain ⟨hQlower, hQupper⟩ := volumeBetween_bounds t lower upper
  have hfull := toNat_fullExecEndow htotal lower
  have hpartial := toNat_partialExecEndow htotal hle
  have htimes := toNat_partialExecEndowTimesPrice hlisted htotal hle
  generalize hF : t.amountUpTo lower = F at *
  generalize hP : amountBetween t lower upper = P at *
  generalize hQ : volumeBetween t lower upper = Q at *
  have hvalue : Q * buyPrice.toNat ≤ P * (sellPrice.toNat * 2 ^ 24) :=
    volumeBetween_le_rate (hupper ▸ Nat.div_mul_le_self _ _) hQupper
  have hQlt : Q < 2 ^ 111 := by
    have hvolume : t.volumeUpTo upper = t.volumeUpTo lower + volumeBetween t lower upper :=
      sum_between t hle fun offer => offer.amount.toNat * offer.minPrice.toNat
    have hlt := volumeUpTo_lt hlisted htotal upper
    omega
  have hpart2_le : Q * buyPrice.toNat / 2 ^ 24 ≤ sellPrice.toNat * P := by
    refine Nat.div_le_of_le_mul (hvalue.trans (le_of_eq ?_))
    ring
  have hPsell : sellPrice.toNat * P ≤ 2 ^ 48 * (2 ^ 63 - 1) :=
    Nat.mul_le_mul hsell.le (by omega)
  have hFPsell : (F + P) * sellPrice.toNat ≤ (2 ^ 63 - 1) * 2 ^ 48 :=
    Nat.mul_le_mul (by omega) hsell.le
  have hpow : 2 ^ smoothMult.toNat ≤ 2 ^ 15 := Nat.pow_le_pow_right (by decide) hsmooth
  have hsmoothed : (sellPrice.toNat * P - Q * buyPrice.toNat / 2 ^ 24) * 2 ^ smoothMult.toNat <
      P * sellPrice.toNat + 2 ^ smoothMult.toNat := by
    by_cases hzero : smoothMult = 0
    · -- the two prices are equal, and nothing is between them
      subst hzero
      have hcomm := Nat.mul_comm P sellPrice.toNat
      show (sellPrice.toNat * P - Q * buyPrice.toNat / 2 ^ 24) * 1 < P * sellPrice.toNat + 1
      omega
    · rw [if_neg hzero] at hlower
      exact smoothed_lt hbuy hupper hlower hQlower
  obtain ⟨hupperHalf, hshiftedHalf, hlowerHalf, hpart2⟩ := wideMultiplySafe_halves
    (partialExecEndowTimesPrice (totals t upper) (totals t lower)) buyPrice
    (by rw [htimes]; exact hQlt) hbuy' (by rw [htimes]; omega)
  have hfullVolume := toNat_widen_mul (fullExecEndow (totals t lower)) sellPrice
  have hpart1 := toNat_widen_mul sellPrice (partialExecEndow (totals t upper) (totals t lower))
  rw [htimes] at hupperHalf hshiftedHalf hlowerHalf hpart2
  rw [hfull] at hfullVolume
  rw [ hpartial] at hpart1
  have hdiff : (widen sellPrice * widen (partialExecEndow (totals t upper) (totals t lower)) -
      wideMultiplySafe (partialExecEndowTimesPrice (totals t upper) (totals t lower)) buyPrice).toNat =
      sellPrice.toNat * P - Q * buyPrice.toNat / 2 ^ 24 := by
    rw [BitVec.toNat_sub_of_le (BitVec.le_def.mpr (by omega)), hpart1, hpart2]
  have hshifted : ((widen sellPrice * widen (partialExecEndow (totals t upper) (totals t lower)) -
      wideMultiplySafe (partialExecEndowTimesPrice (totals t upper) (totals t lower)) buyPrice) <<<
        smoothMult.toNat).toNat =
      (sellPrice.toNat * P - Q * buyPrice.toNat / 2 ^ 24) * 2 ^ smoothMult.toNat := by
    have hcomm := Nat.mul_comm P sellPrice.toNat
    rw [BitVec.toNat_shiftLeft, Nat.shiftLeft_eq, hdiff, Nat.mod_eq_of_lt (by omega)]
  have hzeroP : smoothMult = 0 → P = 0 := by
    intro hzero
    rw [if_pos hzero] at hlower
    rw [← hP, UInt64.toNat_inj.mp (hlower.trans (Nat.sub_zero _))]
    exact amountBetween_self t upper
  -- the branch on `smooth_mult`
  have hreturns : ∃ V, tradeVolume sellPrice buyPrice smoothMult (totals t upper) (totals t lower) =
      .ok V ∧ V.toNat = F * sellPrice.toNat +
        (sellPrice.toNat * P - Q * buyPrice.toNat / 2 ^ 24) * 2 ^ smoothMult.toNat := by
    rw [tradeVolume, checkMetadata_totals hlisted htotal hle, ok_bind]
    dsimp only
    by_cases hzero : smoothMult = 0
    · rw [if_neg (by rw [hzero]; decide), ok_bind]
      refine ⟨_, rfl, ?_⟩
      rw [BitVec.toNat_add, hfullVolume, hzeroP hzero, Nat.mul_zero, Nat.zero_sub, Nat.zero_mul]
      show (F * sellPrice.toNat + 0) % 2 ^ 128 = _
      rw [Nat.add_mul] at hFPsell
      omega
    · have hpos : smoothMult > 0 := by
        rw [gt_iff_lt, UInt8.lt_iff_toNat_lt]
        exact Nat.pos_of_ne_zero fun h => hzero (UInt8.toNat_inj.mp h)
      rw [if_pos hpos, if_neg, if_neg (by omega), ok_bind]
      · refine ⟨_, rfl, ?_⟩
        rw [BitVec.toNat_add, hfullVolume, hshifted]
        rw [Nat.add_mul] at hFPsell
        omega
      · rw [BitVec.not_lt, BitVec.le_def]
        omega
  obtain ⟨V, hV, htotalVolume⟩ := hreturns
  exact ⟨V, hV, ⟨hfull, hpartial, htimes, hfullVolume, hpart1, hupperHalf, hshiftedHalf, hlowerHalf,
    hpart2, hpart2_le, hshifted, htotalVolume⟩, hsmoothed⟩

end Volume

theorem price_bounds {prices : List Price} (hprices : ∀ p ∈ prices, p.isValidPrice = true) {i : Nat}
    (hi : i < prices.length) : 0 < prices[i].toNat ∧ prices[i].toNat < 2 ^ 48 :=
  Price.isValidPrice_iff.mp (hprices _ (List.getElem_mem hi))

theorem ne_zero_of_pos {p : Price} (h : 0 < p.toNat) : p ≠ 0 := by
  rintro rfl
  exact absurd h (by decide)

/-- The volume that a book adds is between the offers that count in full and all that can execute. -/
theorem smoothedDemand_bounds (ob : Orderbook) (hlisted : ob.committedOffers.Listed)
    (htotal : ob.committedOffers.totalEndow ≤ 2 ^ 63 - 1) (prices : List Price)
    (demands supplies : List (BitVec 128)) (smoothMult : UInt8)
    (hprices : ∀ p ∈ prices, p.isValidPrice = true)
    (hsellAsset : ob.category.sellAsset.toNat < prices.length)
    (hbuyAsset : ob.category.buyAsset.toNat < prices.length)
    (hdemands : demands.length = prices.length) (hsupplies : supplies.length = prices.length)
    (hrate : prices[ob.category.sellAsset.toNat].toNat <
      2 ^ 40 * prices[ob.category.buyAsset.toNat].toNat) (hsmooth : smoothMult.toNat ≤ 15) :
    let sellPrice := prices[ob.category.sellAsset.toNat]
    let buyPrice := prices[ob.category.buyAsset.toNat]
    ∃ lower upper metadataPartial metadataFull V,
      getExecutionPrices sellPrice buyPrice smoothMult = .ok (lower, upper) ∧
      ob.generateMetadataIndex.getMetadata upper = .ok metadataPartial ∧
      ob.generateMetadataIndex.getMetadata lower = .ok metadataFull ∧
      ob.generateMetadataIndex.calculateDemandsAndSuppliesTimesPrices prices demands supplies
        smoothMult = .ok
          (demands.set ob.category.buyAsset.toNat (demands[ob.category.buyAsset.toNat] + V),
            supplies.set ob.category.sellAsset.toNat (supplies[ob.category.sellAsset.toNat] + V)) ∧
      ExactVolume sellPrice buyPrice smoothMult (ob.committedOffers.amountUpTo lower)
        (amountBetween ob.committedOffers lower upper)
        (volumeBetween ob.committedOffers lower upper) metadataPartial metadataFull V ∧
      ob.committedOffers.amountUpTo lower * sellPrice.toNat ≤ V.toNat ∧
      V.toNat < (ob.committedOffers.amountUpTo lower + amountBetween ob.committedOffers lower upper) *
        sellPrice.toNat + 2 ^ smoothMult.toNat ∧
      (smoothMult = 0 → ∃ lowerBound upperBound : UInt64,
        ob.generateMetadataIndex.getSupplyBounds prices smoothMult = .ok (lowerBound, upperBound) ∧
        V.toNat = upperBound.toNat * sellPrice.toNat) := by
  intro sellPrice buyPrice
  obtain ⟨-, hsellLt⟩ : 0 < sellPrice.toNat ∧ sellPrice.toNat < 2 ^ 48 :=
    price_bounds hprices hsellAsset
  obtain ⟨hbuyPos, hbuyLt⟩ : 0 < buyPrice.toNat ∧ buyPrice.toNat < 2 ^ 48 :=
    price_bounds hprices hbuyAsset
  have hbuy := ne_zero_of_pos hbuyPos
  have hsellAt := vectorAt_eq_ok.mpr (List.getElem?_eq_getElem hsellAsset)
  have hbuyAt := vectorAt_eq_ok.mpr (List.getElem?_eq_getElem hbuyAsset)
  obtain ⟨lower, upper, hexec, hupper, hlower⟩ :=
    getExecutionPrices_spec sellPrice hbuy (lt_of_le_of_lt hsmooth (by decide))
  rw [Nat.mod_eq_of_lt ((rate_lt_iff hbuy).mpr hrate)] at hupper
  have hequal : smoothMult = 0 → lower = upper := by
    intro hzero
    rw [if_pos hzero] at hlower
    exact UInt64.toNat_inj.mp (hlower.trans (Nat.sub_zero _))
  have hget := getMetadata_totals ob hlisted htotal
  obtain ⟨V, hV, hexact, hsmoothed⟩ := tradeVolume_exact hlisted htotal
    hsellLt hbuyPos hbuyLt hsmooth hupper hlower
  have hadded := hexact.total
  refine ⟨lower, upper, totals ob.committedOffers upper, totals ob.committedOffers lower, V, hexec,
    hget upper, hget lower, ?_, hexact, ?_, ?_, fun hzero => ?_⟩
  · refine bind_eq_ok.mpr ⟨sellPrice, hsellAt, bind_eq_ok.mpr ⟨buyPrice, hbuyAt, ?_⟩⟩
    rw [hexec, ok_bind]
    dsimp only
    rw [hget, ok_bind, fullLookup_eq hlisted htotal hequal, ok_bind]
    refine bind_eq_ok.mpr ⟨sellPrice, hsellAt, bind_eq_ok.mpr ⟨buyPrice, hbuyAt, ?_⟩⟩
    rw [hV, ok_bind]
    exact bind_eq_ok.mpr ⟨_, addAt_eq (by rw [hdemands]; exact hbuyAsset) V,
      bind_eq_ok.mpr ⟨_, addAt_eq (by rw [hsupplies]; exact hsellAsset) V, rfl⟩⟩
  · omega
  · rw [Nat.add_mul]
    omega
  · obtain ⟨lowerBound, upperBound, hbounds, -, hupperBound⟩ :=
      getSupplyBounds_upTo hlisted hsellAt hbuyAt hexec
    have hamount := amountUpTo_le_total ob.committedOffers upper
    refine ⟨lowerBound, upperBound, hbounds, ?_⟩
    rw [hupperBound, Nat.mod_eq_of_lt (by omega), hadded, hequal hzero, amountBetween_self,
      Nat.mul_zero, Nat.zero_sub, Nat.zero_mul, Nat.add_zero]

/-- At rate one half and a smoothing of `2^-10`, one offer counts in full and one in proportion. -/
theorem smoothedDemand_listing :
    ∃ V : BitVec 128, calculateDemandsAndSuppliesTimesPrices
        (listing [(100, 500), (200, 8388608)]).generateMetadataIndex [1, 2] [0, 0] [0, 0] 10 =
          .ok ([0, V], [V, 0]) ∧
      100 ≤ V.toNat ∧ V.toNat < 300 + 2 ^ 10 := by
  obtain ⟨lower, upper, metadataPartial, metadataFull, V, hexec, -, -, hcalculate, -, hle, hlt, -⟩ :=
    smoothedDemand_bounds (listing [(100, 500), (200, 8388608)]) (listed_of_entries (by decide +kernel))
      (by decide +kernel) [1, 2] [0, 0] [0, 0] 10 (by simp [Price.isValidPrice_iff]) (by decide +kernel)
      (by decide +kernel) rfl rfl (by decide +kernel) (by decide)
  have hprices : getExecutionPrices 1 2 10 = .ok (8380416, 8388608) := by decide +kernel
  cases hprices.symm.trans hexec
  have hfull : (listing [(100, 500), (200, 8388608)]).committedOffers.amountUpTo 8380416 = 100 := by
    decide +kernel
  have hpart : amountBetween (listing [(100, 500), (200, 8388608)]).committedOffers 8380416 8388608 =
      200 := by decide +kernel
  rw [hfull] at hle hlt
  rw [hpart] at hlt
  have hzero : (0 : BitVec 128) + V = V := BitVec.zero_add V
  refine ⟨V, hcalculate.trans ?_, hle, hlt⟩
  show Except.ok ([0, 0 + V], [0 + V, 0]) = _
  rw [hzero]

end Orderbook

end Speedex
