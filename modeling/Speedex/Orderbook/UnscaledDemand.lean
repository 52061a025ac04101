import Speedex.Orderbook.Demand

/-! The demand queries in units of the assets themselves: when the two copies of the computation
return the exact volumes. -/

namespace Speedex

open Lib

namespace Orderbook

open OrderbookTrie

/-! ### The exact volumes -/

section Exact

variable (sell buy F P Q s : Nat)

/-- What a book adds to the supply: `F` units count in full, `P` in proportion, and `Q` is the
amount times limit price of the latter. -/
def exactSupply : Nat :=
  F * 2 ^ 24 + if s = 0 then 0 else P * 2 ^ (24 + s) - 2 ^ s * Q * buy / sell

/-- What it adds to the demand. -/
def exactDemand : Nat :=
  F * 2 ^ 24 * sell / buy + if s = 0 then 0 else P * 2 ^ (24 + s) * sell / buy - 2 ^ s * Q

end Exact

/-! ### The smoothing terms -/

section Partial

variable {sellPrice buyPrice : Price} {smoothMult : UInt8}
  {metadataPartial metadataFull : EndowAccumulator} {P Q : Nat}

/-- The 64-bit shift keeps the amount modulo `2^64`; everything else but the last product is exact. -/
theorem partialVolumes_eq (hsmooth : smoothMult.toNat ≤ 15) (hsell : 0 < sellPrice.toNat)
    (hbuy : 0 < buyPrice.toNat) (hP : (partialExecEndow metadataPartial metadataFull).toNat = P)
    (hPlt : P < 2 ^ 63)
    (hQ : (partialExecEndowTimesPrice metadataPartial metadataFull).toNat = Q) (hQlt : Q < 2 ^ 111)
    (hvalue : Q * buyPrice.toNat ≤ P * (sellPrice.toNat * 2 ^ 24)) :
    partialVolumes sellPrice buyPrice smoothMult metadataPartial metadataFull =
      (let endow := P * 2 ^ smoothMult.toNat % 2 ^ 64
      let sold := 2 ^ smoothMult.toNat * Q * buyPrice.toNat / sellPrice.toNat
      let bought := endow * 2 ^ 24 * sellPrice.toNat / buyPrice.toNat % 2 ^ 128
      if endow * 2 ^ 24 < sold then
        .error (.runtimeError "this should not happen unless something has begun to overflow")
      else if bought < 2 ^ smoothMult.toNat * Q then
        .error (.runtimeError "this should not happen unless something has begun to overflow")
      else .ok (.ofNat 128 (bought - 2 ^ smoothMult.toNat * Q), .ofNat 128 (endow * 2 ^ 24 - sold))) := by
  have hpow : 2 ^ smoothMult.toNat ≤ 2 ^ 15 := Nat.pow_le_pow_right (by decide) hsmooth
  have hendow : (widen (partialExecEndow metadataPartial metadataFull <<<
      smoothMult.toUInt64)).toNat = P * 2 ^ smoothMult.toNat % 2 ^ 64 := by
    rw [toNat_widen, UInt64.toNat_shiftLeft, UInt8.toNat_toUInt64, hP, Nat.shiftLeft_eq,
      Nat.mod_eq_of_lt (show smoothMult.toNat < 64 by omega)]
  have hshifted : (widen (partialExecEndow metadataPartial metadataFull <<<
      smoothMult.toUInt64) <<< Price.radix).toNat = P * 2 ^ smoothMult.toNat % 2 ^ 64 * 2 ^ 24 := by
    rw [BitVec.toNat_shiftLeft, Nat.shiftLeft_eq, hendow]
    show _ * 2 ^ 24 % 2 ^ 128 = _
    omega
  have htimes : (partialExecEndowTimesPrice metadataPartial metadataFull <<<
      smoothMult.toNat).toNat = 2 ^ smoothMult.toNat * Q := by
    have hlt : 2 ^ smoothMult.toNat * Q < 2 ^ 15 * 2 ^ 111 := by
      calc 2 ^ smoothMult.toNat * Q ≤ 2 ^ 15 * Q := Nat.mul_le_mul_right _ hpow
        _ < 2 ^ 15 * 2 ^ 111 := Nat.mul_lt_mul_of_pos_left hQlt (by decide)
    rw [BitVec.toNat_shiftLeft, Nat.shiftLeft_eq, hQ, Nat.mul_comm, Nat.mod_eq_of_lt (by omega)]
  have hsold : 2 ^ smoothMult.toNat * Q * buyPrice.toNat / sellPrice.toNat < 2 ^ 128 := by
    have hle : 2 ^ smoothMult.toNat * Q * buyPrice.toNat / sellPrice.toNat ≤
        2 ^ smoothMult.toNat * P * 2 ^ 24 := by
      refine Nat.div_le_of_le_mul ?_
      calc 2 ^ smoothMult.toNat * Q * buyPrice.toNat
          = 2 ^ smoothMult.toNat * (Q * buyPrice.toNat) := Nat.mul_assoc _ _ _
        _ ≤ 2 ^ smoothMult.toNat * (P * (sellPrice.toNat * 2 ^ 24)) := Nat.mul_le_mul_left _ hvalue
        _ = sellPrice.toNat * (2 ^ smoothMult.toNat * P * 2 ^ 24) := by ring
    have hlt : 2 ^ smoothMult.toNat * P ≤ 2 ^ 15 * 2 ^ 63 := Nat.mul_le_mul hpow hPlt.le
    omega
  rw [partialVolumes, if_neg (by omega)]
  dsimp only
  rw [wideMultiply_eq _ _ (ne_zero_of_pos hsell), ok_bind, htimes]
  have hsold' := BitVec.toNat_ofNat (2 ^ smoothMult.toNat * Q * buyPrice.toNat / sellPrice.toNat) 128
  rw [Nat.mod_eq_of_lt hsold] at hsold'
  by_cases hsell_lt : P * 2 ^ smoothMult.toNat % 2 ^ 64 * 2 ^ 24 <
      2 ^ smoothMult.toNat * Q * buyPrice.toNat / sellPrice.toNat
  · rw [if_pos hsell_lt, if_pos]
    rwa [BitVec.lt_def, hshifted, hsold']
  · rw [if_neg hsell_lt, if_neg (by rwa [BitVec.lt_def, hshifted, hsold']),
      wideMultiply_eq _ _ (ne_zero_of_pos hbuy), ok_bind, hshifted]
    have hbought := BitVec.toNat_ofNat
      (P * 2 ^ smoothMult.toNat % 2 ^ 64 * 2 ^ 24 * sellPrice.toNat / buyPrice.toNat) 128
    by_cases hbuy_lt : P * 2 ^ smoothMult.toNat % 2 ^ 64 * 2 ^ 24 * sellPrice.toNat /
        buyPrice.toNat % 2 ^ 128 < 2 ^ smoothMult.toNat * Q
    · rw [if_pos hbuy_lt, if_pos]
      rwa [BitVec.lt_def, htimes, hbought]
    · rw [if_neg hbuy_lt, if_neg (by rwa [BitVec.lt_def, htimes, hbought])]
      refine congrArg Except.ok (Prod.ext (BitVec.eq_of_toNat_eq ?_) (BitVec.eq_of_toNat_eq ?_))
      · dsimp only
        rw [BitVec.toNat_sub_of_le (BitVec.le_def.mpr (by omega)), htimes, hbought, BitVec.toNat_ofNat]
        omega
      · dsimp only
        rw [BitVec.toNat_sub_of_le (BitVec.le_def.mpr (by omega)), hshifted, hsold',
          BitVec.toNat_ofNat]
        omega

/-- The smoothing terms are exact if and only if neither the shift nor the product wraps. -/
theorem partialVolumes_exact_iff {F : Nat} (hzero : smoothMult ≠ 0) (hsmooth : smoothMult.toNat ≤ 15)
    (hsell : 0 < sellPrice.toNat) (hbuy : 0 < buyPrice.toNat)
    (hP : (partialExecEndow metadataPartial metadataFull).toNat = P) (hPlt : P < 2 ^ 63)
    (hQ : (partialExecEndowTimesPrice metadataPartial metadataFull).toNat = Q) (hQlt : Q < 2 ^ 111)
    (hvalue : Q * buyPrice.toNat ≤ P * (sellPrice.toNat * 2 ^ 24))
    (hdemand : exactDemand sellPrice.toNat buyPrice.toNat F P Q smoothMult.toNat < 2 ^ 128) :
    (∃ v, partialVolumes sellPrice buyPrice smoothMult metadataPartial metadataFull = .ok v ∧
      v.1 + .ofNat 128 (F * 2 ^ 24 * sellPrice.toNat / buyPrice.toNat) =
        .ofNat 128 (exactDemand sellPrice.toNat buyPrice.toNat F P Q smoothMult.toNat) ∧
      v.2 + .ofNat 128 (F * 2 ^ 24) =
        .ofNat 128 (exactSupply sellPrice.toNat buyPrice.toNat F P Q smoothMult.toNat)) ↔
    P * 2 ^ smoothMult.toNat < 2 ^ 64 ∧
      P * 2 ^ (24 + smoothMult.toNat) * sellPrice.toNat / buyPrice.toNat < 2 ^ 128 := by
  have hnat : smoothMult.toNat ≠ 0 := fun h => hzero (UInt8.toNat_inj.mp h)
  rw [exactSupply, if_neg hnat]
  rw [exactDemand, if_neg hnat] at hdemand ⊢
  have hpow : 2 ^ smoothMult.toNat ≤ 2 ^ 15 := Nat.pow_le_pow_right (by decide) hsmooth
  have hscaled : 2 ^ smoothMult.toNat * Q * buyPrice.toNat ≤
      P * 2 ^ smoothMult.toNat * 2 ^ 24 * sellPrice.toNat := by
    calc 2 ^ smoothMult.toNat * Q * buyPrice.toNat
        = 2 ^ smoothMult.toNat * (Q * buyPrice.toNat) := Nat.mul_assoc _ _ _
      _ ≤ 2 ^ smoothMult.toNat * (P * (sellPrice.toNat * 2 ^ 24)) := Nat.mul_le_mul_left _ hvalue
      _ = P * 2 ^ smoothMult.toNat * 2 ^ 24 * sellPrice.toNat := by ring
  have hsold : 2 ^ smoothMult.toNat * Q * buyPrice.toNat / sellPrice.toNat ≤
      P * 2 ^ smoothMult.toNat * 2 ^ 24 := Nat.div_le_of_le_mul (hscaled.trans_eq (Nat.mul_comm _ _))
  have hbought : 2 ^ smoothMult.toNat * Q ≤
      P * 2 ^ smoothMult.toNat * 2 ^ 24 * sellPrice.toNat / buyPrice.toNat :=
    (Nat.le_div_iff_mul_le hbuy).mpr hscaled
  have hscale : P * 2 ^ (24 + smoothMult.toNat) = P * 2 ^ smoothMult.toNat * 2 ^ 24 := by
    rw [Nat.pow_add]
    ring
  have hPs : P * 2 ^ smoothMult.toNat ≤ 2 ^ 63 * 2 ^ 15 := Nat.mul_le_mul hPlt.le hpow
  rw [hscale] at hdemand ⊢
  rw [partialVolumes_eq hsmooth hsell hbuy hP hPlt hQ hQlt hvalue]
  dsimp only
  constructor
  · rintro ⟨v, hv, hdemand', hsupply'⟩
    split at hv
    · cases hv
    split at hv
    · cases hv
    rename_i hsell_le hbuy_le
    cases hv
    -- the supply is off by what the shift drops, which is less than `2^128`
    have heq : P * 2 ^ smoothMult.toNat % 2 ^ 64 = P * 2 ^ smoothMult.toNat := by
      have hnat := congrArg BitVec.toNat hsupply'
      rw [← BitVec.ofNat_add, BitVec.toNat_ofNat, BitVec.toNat_ofNat] at hnat
      omega
    rw [heq] at hbuy_le
    refine ⟨by omega, ?_⟩
    by_contra hge
    have hQs : 2 ^ smoothMult.toNat * Q ≤ 2 ^ 15 * 2 ^ 111 := Nat.mul_le_mul hpow hQlt.le
    have hpart := lt_of_le_of_lt (Nat.le_add_left _ _) hdemand
    omega
  · rintro ⟨hshift, hproduct⟩
    rw [Nat.mod_eq_of_lt hshift, if_neg (by omega), Nat.mod_eq_of_lt hproduct, if_neg (by omega)]
    refine ⟨_, rfl, ?_, ?_⟩
    · rw [← BitVec.ofNat_add, Nat.add_comm]
    · rw [← BitVec.ofNat_add, Nat.add_comm]

end Partial

/-! ### The two copies -/

section Copies

variable (ob : Orderbook) {prices : List Price} (demands supplies : List (BitVec 128))
  (smoothMult : UInt8) {sellPrice buyPrice lower upper : Price}

/-- The two copies of the computation agree. -/
theorem calculateDemandsAndSupplies_eq {metadataPartial metadataFull : EndowAccumulator}
    (hsell : vectorAt prices ob.category.sellAsset.toNat = .ok sellPrice)
    (hbuy : vectorAt prices ob.category.buyAsset.toNat = .ok buyPrice)
    (hexec : getExecutionPrices sellPrice buyPrice smoothMult = .ok (lower, upper))
    (hpart : ob.getMetadata upper = .ok metadataPartial)
    (hfull : (if smoothMult ≠ 0 then ob.getMetadata lower else .ok metadataPartial) =
      .ok metadataFull) :
    ob.calculateDemandsAndSupplies prices demands supplies smoothMult =
      ob.calculateDemandsAndSuppliesFromMetadata prices demands supplies smoothMult metadataPartial
        metadataFull := by
  rw [calculateDemandsAndSupplies, calculateDemandsAndSuppliesFromMetadata, hsell, hbuy, ok_bind,
    ok_bind, ok_bind, ok_bind, hexec, ok_bind]
  dsimp only
  rw [hpart, ok_bind, hfull, ok_bind]
  rfl

/-- The workspaces after a query that adds `demand` and `supply`. -/
def addVolumes (demand supply : BitVec 128) : List (BitVec 128) × List (BitVec 128) :=
  (demands.modify ob.category.buyAsset.toNat (· + demand),
    supplies.modify ob.category.sellAsset.toNat (· + supply))

theorem addAt_modify {workspace : List (BitVec 128)} {asset : Nat} (h : asset < workspace.length)
    (volume : BitVec 128) : addAt workspace asset volume = .ok (workspace.modify asset (· + volume)) := by
  rw [addAt_eq h]
  refine congrArg Except.ok (List.ext_getElem? fun i => ?_)
  rw [List.getElem?_set, List.getElem?_modify]
  by_cases hi : asset = i
  · subst hi
    simp [h]
  · simp [hi]

variable {demands supplies}

/-- What is added can be read off the workspaces. -/
theorem addVolumes_inj {demand demand' supply supply' : BitVec 128}
    (hdemands : ob.category.buyAsset.toNat < demands.length)
    (hsupplies : ob.category.sellAsset.toNat < supplies.length)
    (h : addVolumes ob demands supplies demand supply = addVolumes ob demands supplies demand' supply') :
    demand = demand' ∧ supply = supply' := by
  have hread : ∀ {workspace : List (BitVec 128)} {asset : Nat} {v v' : BitVec 128},
      asset < workspace.length →
      workspace.modify asset (· + v) = workspace.modify asset (· + v') → v = v' := by
    intro workspace asset v v' hlt heq
    have hget := congrArg (·[asset]?) heq
    simp only [List.getElem?_modify_eq, List.getElem?_eq_getElem hlt, Option.map_eq_map, Option.map_some,
      Option.some.injEq] at hget
    exact (BitVec.add_right_inj _).mp hget
  exact ⟨hread hdemands (Prod.mk.inj h).1, hread hsupplies (Prod.mk.inj h).2⟩

theorem fromMetadata_eq (hlisted : ob.committedOffers.Listed)
    (htotal : ob.committedOffers.totalEndow ≤ 2 ^ 63 - 1)
    (hsell : vectorAt prices ob.category.sellAsset.toNat = .ok sellPrice)
    (hbuy : vectorAt prices ob.category.buyAsset.toNat = .ok buyPrice) (hbuyPos : 0 < buyPrice.toNat)
    (hdemands : ob.category.buyAsset.toNat < demands.length)
    (hsupplies : ob.category.sellAsset.toNat < supplies.length) (hle : lower ≤ upper) :
    ob.calculateDemandsAndSuppliesFromMetadata prices demands supplies smoothMult
        (totals ob.committedOffers upper) (totals ob.committedOffers lower) = (do
      let volumes ← (if smoothMult ≠ 0 then partialVolumes sellPrice buyPrice smoothMult
        (totals ob.committedOffers upper) (totals ob.committedOffers lower) else .ok (0, 0))
      .ok (addVolumes ob demands supplies
        (volumes.1 + .ofNat 128 (ob.committedOffers.amountUpTo lower * 2 ^ 24 * sellPrice.toNat /
          buyPrice.toNat))
        (volumes.2 + .ofNat 128 (ob.committedOffers.amountUpTo lower * 2 ^ 24)))) := by
  have hshifted : widen (fullExecEndow (totals ob.committedOffers lower)) <<< Price.radix =
      .ofNat 128 (ob.committedOffers.amountUpTo lower * 2 ^ 24) := by
    refine BitVec.eq_of_toNat_eq ?_
    rw [BitVec.toNat_shiftLeft, Nat.shiftLeft_eq, toNat_widen, toNat_fullExecEndow htotal lower,
      BitVec.toNat_ofNat]
    rfl
  have hlt : ob.committedOffers.amountUpTo lower * 2 ^ 24 < 2 ^ 128 := by
    have hamount := amountUpTo_le_total ob.committedOffers lower
    omega
  rw [calculateDemandsAndSuppliesFromMetadata, hsell, hbuy, ok_bind, ok_bind,
    checkMetadata_totals hlisted htotal hle, ok_bind, hshifted,
    wideMultiply_eq _ _ (ne_zero_of_pos hbuyPos), BitVec.toNat_ofNat, Nat.mod_eq_of_lt hlt]
  refine bind_congr fun volumes => ?_
  show (addAt demands _ _ >>= _) = _
  rw [addAt_modify hdemands, ok_bind, addAt_modify hsupplies]
  rfl

end Copies

/-- The condition under which neither the 64-bit shift nor the widened product wraps. -/
def SmoothingFits (sell buy P s : Nat) : Prop :=
  s = 0 ∨ (P * 2 ^ s < 2 ^ 64 ∧ P * 2 ^ (24 + s) * sell / buy < 2 ^ 128)

/-- Where the exact volumes fit 128 bits, the query returns them if and only if neither the 64-bit
shift nor the widened product wraps. -/
theorem unscaledDemand_exact_iff (ob : Orderbook) (hlisted : ob.committedOffers.Listed)
    (htotal : ob.committedOffers.totalEndow ≤ 2 ^ 63 - 1) (prices : List Price)
    (demands supplies : List (BitVec 128)) (smoothMult : UInt8)
    (hprices : ∀ p ∈ prices, p.isValidPrice = true)
    (hsellAsset : ob.category.sellAsset.toNat < prices.length)
    (hbuyAsset : ob.category.buyAsset.toNat < prices.length)
    (hdemands : demands.length = prices.length) (hsupplies : supplies.length = prices.length)
    (hsmooth : smoothMult.toNat ≤ 15) :
    let sell := prices[ob.category.sellAsset.toNat]
    let buy := prices[ob.category.buyAsset.toNat]
    ∃ lower upper metadataPartial metadataFull,
      getExecutionPrices sell buy smoothMult = .ok (lower, upper) ∧
      ob.generateMetadataIndex.getMetadata upper = .ok metadataPartial ∧
      ob.generateMetadataIndex.getMetadata lower = .ok metadataFull ∧
      let F := ob.committedOffers.amountUpTo lower
      let P := amountBetween ob.committedOffers lower upper
      let Q := volumeBetween ob.committedOffers lower upper
      let supply := exactSupply sell.toNat buy.toNat F P Q smoothMult.toNat
      let demand := exactDemand sell.toNat buy.toNat F P Q smoothMult.toNat
      supply < 2 ^ 128 → demand < 2 ^ 128 →
        ((ob.generateMetadataIndex.calculateDemandsAndSupplies prices demands supplies smoothMult =
            .ok (addVolumes ob demands supplies (.ofNat 128 demand) (.ofNat 128 supply)) ∧
          ob.generateMetadataIndex.calculateDemandsAndSupplies prices demands supplies smoothMult =
            ob.generateMetadataIndex.calculateDemandsAndSuppliesFromMetadata prices demands supplies
              smoothMult metadataPartial metadataFull) ↔
        SmoothingFits sell.toNat buy.toNat P smoothMult.toNat) := by
  intro sell buy
  obtain ⟨hsellPos, -⟩ : 0 < sell.toNat ∧ sell.toNat < 2 ^ 48 := price_bounds hprices hsellAsset
  obtain ⟨hbuyPos, -⟩ : 0 < buy.toNat ∧ buy.toNat < 2 ^ 48 := price_bounds hprices hbuyAsset
  have hsellAt := vectorAt_eq_ok.mpr (List.getElem?_eq_getElem hsellAsset)
  have hbuyAt := vectorAt_eq_ok.mpr (List.getElem?_eq_getElem hbuyAsset)
  obtain ⟨lower, upper, hexec, hupper, hlower⟩ :=
    getExecutionPrices_spec sell (ne_zero_of_pos hbuyPos) (lt_of_le_of_lt hsmooth (by decide))
  have hle : lower ≤ upper := UInt64.le_iff_toNat_le.mpr (by omega)
  have hequal : smoothMult = 0 → lower = upper := by
    intro hzero
    rw [if_pos hzero] at hlower
    exact UInt64.toNat_inj.mp (hlower.trans (Nat.sub_zero _))
  have hget := getMetadata_totals ob hlisted htotal
  refine ⟨lower, upper, totals ob.committedOffers upper, totals ob.committedOffers lower, hexec,
    hget upper, hget lower, ?_⟩
  intro F P Q supply demand _ hdemand
  have hagree := calculateDemandsAndSupplies_eq ob.generateMetadataIndex demands supplies smoothMult
    hsellAt hbuyAt hexec (hget upper) (fullLookup_eq hlisted htotal hequal)
  have hdemandAt : ob.category.buyAsset.toNat < demands.length := by
    rw [hdemands]
    exact hbuyAsset
  have hsupplyAt : ob.category.sellAsset.toNat < supplies.length := by
    rw [hsupplies]
    exact hsellAsset
  have heq := fromMetadata_eq ob.generateMetadataIndex smoothMult hlisted
    htotal hsellAt hbuyAt hbuyPos hdemandAt hsupplyAt hle
  have hPQ := volumeBetween_bounds ob.committedOffers lower upper
  have hvalue : Q * buy.toNat ≤ P * (sell.toNat * 2 ^ 24) :=
    volumeBetween_le_rate (upperBoundPrice_le hexec) hPQ.2
  have hPlt : P < 2 ^ 63 := by
    have hsum : ob.committedOffers.amountUpTo upper = ob.committedOffers.amountUpTo lower + P :=
      sum_between ob.committedOffers hle fun offer => offer.amount.toNat
    have hmax := amountUpTo_le_total ob.committedOffers upper
    omega
  have hQlt : Q < 2 ^ 111 := by
    have hsum : ob.committedOffers.volumeUpTo upper = ob.committedOffers.volumeUpTo lower + Q :=
      sum_between ob.committedOffers hle fun offer => offer.amount.toNat * offer.minPrice.toNat
    have hmax := volumeUpTo_lt hlisted htotal upper
    omega
  have hreturns : ob.generateMetadataIndex.calculateDemandsAndSupplies prices demands supplies
      smoothMult = .ok (addVolumes ob demands supplies (.ofNat 128 demand) (.ofNat 128 supply)) ↔
      SmoothingFits sell.toNat buy.toNat P smoothMult.toNat := by
    rw [hagree]
    refine (Eq.congr_left heq).trans ?_
    by_cases hzero : smoothMult = 0
    · subst hzero
      refine ⟨fun _ => .inl rfl, fun _ => ?_⟩
      rw [if_neg (not_not.mpr rfl), ok_bind]
      have hdemand₀ : demand = F * 2 ^ 24 * sell.toNat / buy.toNat := Nat.add_zero _
      have hsupply₀ : supply = F * 2 ^ 24 := Nat.add_zero _
      rw [hdemand₀, hsupply₀]
      refine congrArg Except.ok (congrArg₂ (addVolumes ob demands supplies) ?_ ?_)
      · exact BitVec.zero_add _
      · exact BitVec.zero_add _
    · have hexact := partialVolumes_exact_iff hzero hsmooth hsellPos hbuyPos
        (toNat_partialExecEndow htotal hle) hPlt
        (toNat_partialExecEndowTimesPrice hlisted htotal hle) hQlt hvalue hdemand
      have hnat : smoothMult.toNat ≠ 0 := fun h => hzero (UInt8.toNat_inj.mp h)
      rw [if_pos hzero, bind_eq_ok, SmoothingFits, or_iff_right hnat, ← hexact]
      refine exists_congr fun v => and_congr_right fun _ => ?_
      rw [Except.ok.injEq]
      exact ⟨addVolumes_inj ob hdemandAt hsupplyAt, fun h => congrArg₂
        (addVolumes ob demands supplies) h.1 h.2⟩
  exact ⟨fun h => hreturns.mp h.1, fun h => ⟨hreturns.mpr h, hagree⟩⟩

/-- At rate one half and a smoothing of `2^-10`, one offer counts in full and one in proportion. -/
theorem unscaledDemand_listing :
    calculateDemandsAndSupplies (listing [(100, 500), (200, 8388608)]).generateMetadataIndex [1, 2]
      [0, 0] [0, 0] 10 = .ok (addVolumes (listing [(100, 500), (200, 8388608)]) [0, 0] [0, 0]
        (.ofNat 128 (exactDemand 1 2 100 200 (200 * 8388608) 10))
        (.ofNat 128 (exactSupply 1 2 100 200 (200 * 8388608) 10))) := by
  obtain ⟨lower, upper, _, _, hexec, -, -, hiff⟩ :=
    unscaledDemand_exact_iff (listing [(100, 500), (200, 8388608)])
      (listed_of_entries (by decide +kernel)) (by decide +kernel) [1, 2] [0, 0] [0, 0] 10
      (by simp [Price.isValidPrice_iff]) (by decide +kernel) (by decide +kernel) rfl rfl (by decide)
  have hprices : getExecutionPrices 1 2 10 = .ok (8380416, 8388608) := by decide +kernel
  cases hprices.symm.trans hexec
  have hfull : (listing [(100, 500), (200, 8388608)]).committedOffers.amountUpTo 8380416 = 100 := by
    decide +kernel
  have hpart : amountBetween (listing [(100, 500), (200, 8388608)]).committedOffers 8380416 8388608 =
      200 := by decide +kernel
  have hvolume : volumeBetween (listing [(100, 500), (200, 8388608)]).committedOffers 8380416 8388608 =
      200 * 8388608 := by decide +kernel
  rw [hfull, hpart, hvolume] at hiff
  exact ((hiff (by decide +kernel) (by decide +kernel)).mpr
    (.inr ⟨by decide +kernel, by decide +kernel⟩)).1

/-- Two offers of `2^48` units at rate one: with a smoothing of `2^-15` the shift drops both, and the
query throws where the exact volumes are zero. -/
theorem unscaledDemand_throws :
    (listing [(281474976710656, 16777216), (281474976710656, 16777216)]).committedOffers.Listed ∧
    getExecutionPrices 1 1 15 = .ok (16776704, 16777216) ∧
    amountBetween (listing [(281474976710656, 16777216),
      (281474976710656, 16777216)]).committedOffers 16776704 16777216 = 2 ^ 49 ∧
    volumeBetween (listing [(281474976710656, 16777216),
      (281474976710656, 16777216)]).committedOffers 16776704 16777216 = 2 ^ 49 * 2 ^ 24 ∧
    exactSupply 1 1 0 (2 ^ 49) (2 ^ 49 * 2 ^ 24) 15 = 0 ∧
    exactDemand 1 1 0 (2 ^ 49) (2 ^ 49 * 2 ^ 24) 15 = 0 ∧
    calculateDemandsAndSupplies (listing [(281474976710656, 16777216),
        (281474976710656, 16777216)]).generateMetadataIndex [1, 1] [0, 0] [0, 0] 15 =
      .error (.runtimeError "this should not happen unless something has begun to overflow") :=
  ⟨listed_of_entries (by decide +kernel), by decide +kernel, by decide +kernel, by decide +kernel,
    by decide, by decide, by decide +kernel⟩

end Orderbook

end Speedex
