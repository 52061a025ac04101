import Speedex.Orderbook.Checker

/-! The price search (`price_computation/tatonnement_oracle.cc`): one query of Tatonnement, round by
round.  Demands and supplies, the relativizers, the comparison of objectives and the answers of the
LP solver are inputs of each round. -/

namespace Speedex

open Lib

/-! ### Prices -/

namespace Price

/-- A value between 1 and the largest price. -/
def imposePriceBounds (val : BitVec 128) : Price :=
  if val.toNat > maxPrice.toNat then maxPrice
  else if val = 0 then 1
  else .ofNat val.toNat

/-- The product of two 128-bit values without its low bits, and at most the largest price.  Each
factor is split into halves of 64 bits.  Some carries are lost. -/
def safeMultiplyAndDropLowbits (first second : BitVec 128) (lowbitsToDrop : Nat) : Result Price :=
  if lowbitsToDrop < 64 ∨ lowbitsToDrop > 196 then .error (.runtimeError "unimplemented")
  else
    let low (v : BitVec 128) : BitVec 128 := (v.setWidth 64).setWidth 128
    let lowLow := low first * low second
    let lowHigh := low first * (second >>> 64)
    let highLow := (first >>> 64) * low second
    let highHigh := (first >>> 64) * (second >>> 64)
    let lowhighOffset := lowbitsToDrop - 64
    if 128 ≤ lowhighOffset then .error .shiftOutOfRange
    else
      let out := if lowbitsToDrop < 128 then lowLow >>> lowbitsToDrop else 0
      let out := out + (lowHigh >>> lowhighOffset + highLow >>> lowhighOffset)
      let out := if lowbitsToDrop ≤ 128 then
          let usedLowbits := 128 - lowbitsToDrop
          let usedHighbits := if usedLowbits ≤ 48 then 48 - usedLowbits else 0
          let maxHighbits : BitVec 128 := (1 : BitVec 128) <<< usedHighbits - 1
          let highHigh := if highHigh > maxHighbits then maxHighbits else highHigh
          out + highHigh <<< usedLowbits
        else out + highHigh >>> (lowbitsToDrop - 128)
      .ok (if out.toNat > maxPrice.toNat then maxPrice else .ofNat out.toNat)

end Price

/-! ### Tatonnement -/

/-- The parameters of a query.  `step_up` and `step_down` are computed from `step_adjust_radix`
with doubles. -/
structure TatonnementControlParameters where
  stepRadix : UInt8
  minStep : UInt64
  stepAdjustRadix : UInt8
  stepUp : UInt16
  stepDown : UInt16
  taxRate : UInt8

/-- `increment_step`. -/
def incrementStep (step : UInt64) (stepUp : UInt16) (stepAdjustRadix : UInt8) : Result UInt64 :=
  if 64 ≤ stepAdjustRadix.toNat then .error .shiftOutOfRange
  else
    let increment := (step * stepUp.toUInt64) >>> stepAdjustRadix.toUInt64
    .ok (if increment < step then step else increment)

/-- `decrement_step`. -/
def decrementStep (step : UInt64) (stepDown : UInt16) (stepAdjustRadix : UInt8) : Result UInt64 :=
  if 64 ≤ stepAdjustRadix.toNat then .error .shiftOutOfRange
  else .ok ((step * stepDown.toUInt64) >>> stepAdjustRadix.toUInt64)

/-- `get_trial_price`. -/
def getTrialPrice (demand supply : BitVec 128) (oldPrice : Price) (step : UInt64)
    (volumeRelativizer : UInt16) (params : TatonnementControlParameters) : Result Price := do
  let pTimesStep := widenUInt64 step * widenUInt64 oldPrice
  let relativizer : BitVec 128 := volumeRelativizer.toBitVec.setWidth 128
  let lowbits := params.stepRadix.toNat + Price.radix
  if demand > supply then
    let delta ← Price.safeMultiplyAndDropLowbits pTimesStep (relativizer * (demand - supply)) lowbits
    return Price.imposePriceBounds (widenUInt64 (oldPrice + delta))
  else
    let delta ← Price.safeMultiplyAndDropLowbits pTimesStep (relativizer * (supply - demand)) lowbits
    return (if delta ≥ oldPrice then 1 else oldPrice - delta)

/-- The state of a query between rounds: `prices_workspace`, `trial_prices`, `supplies_search`,
`demands_search`, and the counters. -/
structure TatonnementQuery where
  prices : List Price
  trialPrices : List Price
  step : UInt64
  supplies : List (BitVec 128)
  demands : List (BitVec 128)
  relativizers : List UInt16
  roundNumber : Nat
  clearing : Bool
  forceStepRounds : Nat

/-- What a round gets: the answer of the LP solver, the relativizers that `set_relativizers`
computes with floats, the supplies and demands at the trial prices, whether the objective, which is
a double, is better, and whether another thread has finished. -/
structure RoundInput where
  feasible : Bool
  relativizers : List UInt16
  supplies : List (BitVec 128)
  demands : List (BitVec 128)
  better : Bool
  otherFinisher : Bool

/-- `check_clearing`. -/
def checkClearing (demands supplies : List (BitVec 128)) (taxRate : UInt8) (numAssets : Nat) :
    Result Bool :=
  (List.range numAssets).allM fun i => do
    let demand ← vectorAt demands i
    let supply ← vectorAt supplies i
    return !decide (demand - demand >>> shiftCount taxRate > supply)

/-- The largest price of `normalize_prices`.  Its least price is not used. -/
def largestPrice : List Price → Result Price
  | [] => .error .indexOutOfRange
  | price :: prices => .ok (prices.foldl (fun pMax p => if pMax < p then p else pMax) price)

/-- `normalize_prices`: the prices, and the number of bits by which they were shifted to the left. -/
def normalizePrices (prices : List Price) : Result (List Price × Int) := do
  let pMax ← largestPrice prices
  -- `__builtin_clzll(p_max) - (64 - PRICE_BIT_LEN)`
  let spaceToTop : Int := (63 - pMax.toNat.log2 : Int) - 16
  if spaceToTop > 10 then
    let shift := (spaceToTop / 2).toNat
    return (prices.map (fun price => price <<< UInt64.ofNat shift), shift)
  else if spaceToTop < 3 then return (prices.map (fun price => price >>> (2 : UInt64)), -2)
  else return (prices, 0)

namespace TatonnementQuery

/-- The state before the first round. -/
def start (params : TatonnementControlParameters) (prices : List Price)
    (supplies demands : List (BitVec 128)) (volumeRelativizers : List UInt16) : TatonnementQuery where
  prices := prices
  trialPrices := []
  step := params.minStep
  supplies := supplies
  demands := demands
  relativizers := volumeRelativizers
  roundNumber := 0
  clearing := false
  forceStepRounds := 0

/-- The check at the top of the loop, with the LP solver every 1000 rounds. -/
def isDone (s : TatonnementQuery) (input : RoundInput) : Bool :=
  s.clearing || (s.roundNumber % 1000 = 999 && input.feasible)

/-- `set_trial_prices`. -/
def setTrialPrices (params : TatonnementControlParameters) (s : TatonnementQuery) :
    Result (List Price) :=
  (List.range s.prices.length).mapM fun i => do
    let demand ← vectorAt s.demands i
    let supply ← vectorAt s.supplies i
    let oldPrice ← vectorAt s.prices i
    let relativizer ← vectorAt s.relativizers i
    getTrialPrice demand supply oldPrice s.step relativizer params

/-- A round up to its demand query, which gets the trial prices. -/
def propose (params : TatonnementControlParameters) (s : TatonnementQuery) (input : RoundInput) :
    Result TatonnementQuery := do
  let roundNumber := s.roundNumber + 1
  let s := { s with
    roundNumber := roundNumber
    relativizers := if roundNumber % 10 = 9 then input.relativizers else s.relativizers }
  let trialPrices ← s.setTrialPrices params
  return { s with
    trialPrices := trialPrices
    forceStepRounds := if trialPrices = s.prices then 10 else s.forceStepRounds }

/-- The rest of a round up to `normalize_prices`: the step is accepted or rejected. -/
def acceptOrReject (params : TatonnementControlParameters) (s : TatonnementQuery)
    (input : RoundInput) : Result TatonnementQuery := do
  let clearing ← checkClearing input.demands input.supplies params.taxRate s.prices.length
  if input.better || s.step < params.minStep || clearing || 0 < s.forceStepRounds then
    let step ← incrementStep s.step params.stepUp params.stepAdjustRadix
    return { s with
      prices := s.trialPrices
      supplies := input.supplies
      demands := input.demands
      clearing := clearing
      forceStepRounds := s.forceStepRounds - 1
      step := step }
  else
    let step ← decrementStep s.step params.stepDown params.stepAdjustRadix
    return { s with clearing := clearing, step := step }

/-- The shift of the step after `normalize_prices`.  `step <<= adjust` is a shift by a negative
number. -/
def adjustStep (step minStep : UInt64) (adjust : Int) : Result UInt64 :=
  if adjust = 0 then .ok step
  else do
    let step ← (if adjust > 0 then
        if adjust < 64 then .ok (step >>> .ofNat adjust.toNat) else .error .shiftOutOfRange
      else .error .shiftOutOfRange : Result UInt64)
    return (if step < minStep then minStep else step)

/-- `normalize_prices`, with the shift of the step. -/
def renormalize (params : TatonnementControlParameters) (s : TatonnementQuery) :
    Result TatonnementQuery := do
  let (prices, adjust) ← normalizePrices s.prices
  let step ← adjustStep s.step params.minStep adjust
  return { s with prices := prices, step := step }

/-- A round, or none if the query returns. -/
def round (params : TatonnementControlParameters) (s : TatonnementQuery) (input : RoundInput) :
    Result (Option TatonnementQuery) :=
  if s.isDone input then .ok none
  else do
    let s₁ ← s.propose params input
    if s₁.roundNumber % 10000 = 9999 && input.otherFinisher then return none
    else
      let s₂ ← s₁.acceptOrReject params input
      let s₃ ← (if s₂.roundNumber % 1000 = 0 then s₂.renormalize params else .ok s₂)
      return some s₃

end TatonnementQuery

/-! ### Trial prices -/

theorem Price.toNat_maxPrice : Price.maxPrice.toNat = 2 ^ 48 - 1 := by decide

theorem Price.imposePriceBounds_valid (val : BitVec 128) :
    (Price.imposePriceBounds val).isValidPrice = true := by
  rw [Price.isValidPrice_iff, Price.imposePriceBounds, Price.toNat_maxPrice]
  split
  · rw [Price.toNat_maxPrice]
    omega
  · rename_i hle
    split
    · decide
    · rename_i hzero
      have hpos : val.toNat ≠ 0 := fun h => hzero (BitVec.toNat_inj.mp h)
      rw [UInt64.toNat_ofNat', Nat.mod_eq_of_lt (by omega)]
      omega

theorem Price.le_imposePriceBounds {price : Price} (h : price.toNat < 2 ^ 48) {val : BitVec 128}
    (hval : price.toNat ≤ val.toNat) : price.toNat ≤ (Price.imposePriceBounds val).toNat := by
  rw [Price.imposePriceBounds, Price.toNat_maxPrice]
  split
  · rw [Price.toNat_maxPrice]
    omega
  · rename_i hle
    split
    · rename_i hzero
      rw [hzero] at hval
      exact hval.trans (Nat.zero_le _)
    · rwa [UInt64.toNat_ofNat', Nat.mod_eq_of_lt (by omega)]

theorem Price.safeMultiplyAndDropLowbits_le {first second : BitVec 128} {lowbitsToDrop : Nat}
    {price : Price} (h : Price.safeMultiplyAndDropLowbits first second lowbitsToDrop = .ok price) :
    price.toNat < 2 ^ 48 := by
  unfold Price.safeMultiplyAndDropLowbits at h
  split at h
  · cases h
  dsimp only at h
  split at h
  · cases h
  have h := Except.ok.inj h
  rw [Price.toNat_maxPrice] at h
  generalize (if lowbitsToDrop ≤ 128 then _ else _ : BitVec 128) = out at h
  rw [← h]
  split
  · rw [Price.toNat_maxPrice]
    omega
  · rw [UInt64.toNat_ofNat', Nat.mod_eq_of_lt (by omega)]
    omega

/-- A trial price is a price, and moves with the excess demand. -/
theorem getTrialPrice_spec {demand supply : BitVec 128} {oldPrice trial : Price} {step : UInt64}
    {volumeRelativizer : UInt16} {params : TatonnementControlParameters}
    (hold : oldPrice.isValidPrice = true)
    (h : getTrialPrice demand supply oldPrice step volumeRelativizer params = .ok trial) :
    trial.isValidPrice = true ∧ (demand > supply → oldPrice ≤ trial) ∧
      (¬ demand > supply → trial ≤ oldPrice) := by
  obtain ⟨hpos, hlt⟩ := Price.isValidPrice_iff.mp hold
  unfold getTrialPrice at h
  split at h
  · rename_i hexcess
    obtain ⟨delta, hdelta, h⟩ := bind_eq_ok.mp h
    cases h
    have hdelta := Price.safeMultiplyAndDropLowbits_le hdelta
    refine ⟨Price.imposePriceBounds_valid _, fun _ => ?_, fun hnot => absurd hexcess hnot⟩
    rw [UInt64.le_iff_toNat_le]
    apply Price.le_imposePriceBounds hlt
    have hsum : (oldPrice + delta).toNat = oldPrice.toNat + delta.toNat := by
      rw [UInt64.toNat_add]
      exact Nat.mod_eq_of_lt (by omega)
    have hwide : (widenUInt64 (oldPrice + delta)).toNat = (oldPrice + delta).toNat := by
      rw [widenUInt64, BitVec.toNat_setWidth]
      exact Nat.mod_eq_of_lt (lt_of_lt_of_le (oldPrice + delta).toNat_lt (by decide))
    omega
  · rename_i hexcess
    obtain ⟨delta, -, h⟩ := bind_eq_ok.mp h
    have h := Except.ok.inj h
    rw [← h, Price.isValidPrice_iff]
    refine ⟨?_, fun hdemand => absurd hdemand hexcess, fun _ => ?_⟩
    · split
      · decide
      · rename_i hlow
        rw [ge_iff_le, UInt64.le_iff_toNat_le] at hlow
        rw [UInt64.toNat_sub_of_le _ _ (UInt64.le_iff_toNat_le.mpr (by omega))]
        omega
    · rw [UInt64.le_iff_toNat_le]
      split
      · exact hpos
      · rename_i hlow
        rw [ge_iff_le, UInt64.le_iff_toNat_le] at hlow
        rw [UInt64.toNat_sub_of_le _ _ (UInt64.le_iff_toNat_le.mpr (by omega))]
        omega

/-! ### Normalization -/

theorem largestPrice_spec {prices : List Price} {pMax : Price} (h : largestPrice prices = .ok pMax) :
    pMax ∈ prices ∧ ∀ p ∈ prices, p.toNat ≤ pMax.toNat := by
  cases prices with
  | nil => cases h
  | cons price prices =>
    have h := Except.ok.inj h
    have hfold : ∀ (l : List Price) (m : Price),
        let r := l.foldl (fun pMax p => if pMax < p then p else pMax) m
        (r = m ∨ r ∈ l) ∧ m.toNat ≤ r.toNat ∧ ∀ p ∈ l, p.toNat ≤ r.toNat := by
      intro l
      induction l with
      | nil => exact fun m => ⟨.inl rfl, le_rfl, fun p hp => absurd hp List.not_mem_nil⟩
      | cons p l ih =>
        intro m
        obtain ⟨hmem, hle, hall⟩ := ih (if m < p then p else m)
        have hmax : m.toNat ≤ (if m < p then p else m).toNat ∧
            p.toNat ≤ (if m < p then p else m).toNat := by
          simp only [UInt64.lt_iff_toNat_lt]
          split <;> omega
        refine ⟨?_, hmax.1.trans hle, fun q hq => ?_⟩
        · rcases hmem with hmem | hmem
          · rw [List.foldl_cons, hmem]
            split
            · exact .inr List.mem_cons_self
            · exact .inl rfl
          · exact .inr (List.mem_cons_of_mem p hmem)
        · rcases List.mem_cons.mp hq with rfl | hq
          · exact hmax.2.trans hle
          · exact hall q hq
    obtain ⟨hmem, hle, hall⟩ := hfold prices price
    rw [h] at hmem hle hall
    refine ⟨?_, fun p hp => ?_⟩
    · rcases hmem with rfl | hmem
      · exact List.mem_cons_self
      · exact List.mem_cons_of_mem price hmem
    · rcases List.mem_cons.mp hp with rfl | hp
      · exact hle
      · exact hall p hp

theorem largestPrice_returns {prices : List Price} (h : prices ≠ []) :
    ∃ pMax, largestPrice prices = .ok pMax := by
  cases prices with
  | nil => exact absurd rfl h
  | cons price prices => exact ⟨_, rfl⟩

theorem toNat_shiftLeft_price {price : Price} {a : Nat} (ha : a < 64)
    (h : price.toNat * 2 ^ a < 2 ^ 48) :
    (price <<< UInt64.ofNat a).toNat = price.toNat * 2 ^ a := by
  have hnat : (UInt64.ofNat a).toNat = a := by
    rw [UInt64.toNat_ofNat']
    exact Nat.mod_eq_of_lt (by omega)
  rw [UInt64.toNat_shiftLeft, hnat, Nat.mod_eq_of_lt ha, Nat.shiftLeft_eq]
  exact Nat.mod_eq_of_lt (by omega)

/-- Prices below `2^45` are multiplied by a power of two, which is 1 exactly if one of them is at
least `2^37`. -/
theorem normalizePrices_spec {prices : List Price} (hne : prices ≠ [])
    (hvalid : ∀ p ∈ prices, p.isValidPrice = true) (hlow : ∀ p ∈ prices, p.toNat < 2 ^ 45) :
    ∃ (a : Nat) (prices' : List Price), normalizePrices prices = .ok (prices', a) ∧ a < 64 ∧
      prices'.map UInt64.toNat = prices.map (fun p => p.toNat * 2 ^ a) ∧
      (∀ p ∈ prices', p.isValidPrice = true) ∧ (a = 0 ↔ ∃ p ∈ prices, 2 ^ 37 ≤ p.toNat) := by
  obtain ⟨pMax, hpMax⟩ := largestPrice_returns hne
  obtain ⟨hmem, hall⟩ := largestPrice_spec hpMax
  have hpos := (Price.isValidPrice_iff.mp (hvalid pMax hmem)).1
  have hlog : pMax.toNat.log2 < 45 := (Nat.log2_lt (by omega)).mpr (hlow pMax hmem)
  have hlt : pMax.toNat < 2 ^ (pMax.toNat.log2 + 1) := Nat.lt_log2_self
  have hge : 2 ^ pMax.toNat.log2 ≤ pMax.toNat := Nat.log2_self_le (by omega)
  simp only [normalizePrices, hpMax, ok_bind]
  by_cases hshift : pMax.toNat.log2 < 37
  · -- the largest price has 48 - 1 - log2 bits of space, of which it takes half
    have hspace : ((63 - pMax.toNat.log2 : Int) - 16) > 10 := by omega
    rw [if_pos hspace]
    generalize ha : (((63 - pMax.toNat.log2 : Int) - 16) / 2).toNat = a
    have hbits : pMax.toNat.log2 + 1 + a ≤ 48 := by omega
    have hfits : ∀ p ∈ prices, p.toNat * 2 ^ a < 2 ^ 48 := by
      intro p hp
      calc p.toNat * 2 ^ a < 2 ^ (pMax.toNat.log2 + 1) * 2 ^ a :=
            Nat.mul_lt_mul_of_pos_right ((hall p hp).trans_lt hlt) (Nat.two_pow_pos a)
        _ = 2 ^ (pMax.toNat.log2 + 1 + a) := (Nat.pow_add ..).symm
        _ ≤ 2 ^ 48 := Nat.pow_le_pow_right (by decide) hbits
    refine ⟨a, _, rfl, by omega, ?_, fun p hp => ?_, ?_⟩
    · rw [List.map_map]
      exact List.map_congr_left fun p hp => toNat_shiftLeft_price (by omega) (hfits p hp)
    · obtain ⟨q, hq, rfl⟩ := List.mem_map.mp hp
      rw [Price.isValidPrice_iff, toNat_shiftLeft_price (by omega) (hfits q hq)]
      exact ⟨Nat.mul_pos (Price.isValidPrice_iff.mp (hvalid q hq)).1 (Nat.two_pow_pos a), hfits q hq⟩
    · have hlarge : ¬ ∃ p ∈ prices, 2 ^ 37 ≤ p.toNat := by
        rintro ⟨p, hp, hlarge⟩
        have hle : 2 ^ (pMax.toNat.log2 + 1) ≤ 2 ^ 37 := Nat.pow_le_pow_right (by decide) (by omega)
        have hpm := hall p hp
        omega
      exact ⟨fun h0 => by omega, fun h => absurd h hlarge⟩
  · have hspace : ¬ ((63 - pMax.toNat.log2 : Int) - 16) > 10 := by omega
    have hspace' : ¬ ((63 - pMax.toNat.log2 : Int) - 16) < 3 := by omega
    rw [if_neg hspace, if_neg hspace']
    refine ⟨0, prices, rfl, by decide, by simp, hvalid, fun _ => ⟨pMax, hmem, ?_⟩, fun _ => rfl⟩
    exact (Nat.pow_le_pow_right (by decide) (not_lt.mp hshift)).trans hge

namespace TatonnementQuery

variable {params : TatonnementControlParameters}

/-- A step that is shifted to the right, and not below its minimum. -/
theorem adjustStep_spec (step minStep : UInt64) {a : Nat} (ha : a < 64)
    (hstep : a = 0 → minStep ≤ step) :
    ∃ step', adjustStep step minStep a = .ok step' ∧
      step'.toNat = max minStep.toNat (step.toNat / 2 ^ a) := by
  rcases Nat.eq_zero_or_pos a with rfl | hpos
  · have hle := UInt64.le_iff_toNat_le.mp (hstep rfl)
    refine ⟨step, if_pos rfl, ?_⟩
    omega
  · have hnat : (UInt64.ofNat a).toNat = a := by
      rw [UInt64.toNat_ofNat']
      exact Nat.mod_eq_of_lt (by omega)
    have hshift : (step >>> UInt64.ofNat a).toNat = step.toNat / 2 ^ a := by
      rw [UInt64.toNat_shiftRight, hnat, Nat.mod_eq_of_lt ha, Nat.shiftRight_eq_div_pow]
    refine ⟨if step >>> UInt64.ofNat a < minStep then minStep else step >>> UInt64.ofNat a, ?_, ?_⟩
    · rw [adjustStep, if_neg (by omega), if_pos (by omega), if_pos (by omega)]
      rfl
    · simp only [UInt64.lt_iff_toNat_lt, hshift]
      split
      · omega
      · rw [hshift]
        omega

/-- When a call of `normalize_prices` scales the prices and the step: no price reaches `2^45`, and
the step is not below its minimum if there is nothing to scale. -/
def Scalable (params : TatonnementControlParameters) (s : TatonnementQuery) : Prop :=
  (∀ p ∈ s.prices, p.toNat < 2 ^ 45) ∧
    ((∃ p ∈ s.prices, 2 ^ 37 ≤ p.toNat) → params.minStep ≤ s.step)

/-- All prices are multiplied by the same power of two and stay prices, and the step is divided by
it, down to its minimum. -/
def Scales (params : TatonnementControlParameters) (s s' : TatonnementQuery) : Prop :=
  ∃ a : Nat, s'.prices.map UInt64.toNat = s.prices.map (fun p => p.toNat * 2 ^ a) ∧
    (∀ p ∈ s'.prices, p.isValidPrice = true) ∧
    s'.step.toNat = max params.minStep.toNat (s.step.toNat / 2 ^ a)

theorem renormalize_spec {s : TatonnementQuery} (hne : s.prices ≠ [])
    (hvalid : ∀ p ∈ s.prices, p.isValidPrice = true) (hs : s.Scalable params) :
    ∃ s', s.renormalize params = .ok s' ∧ s.Scales params s' := by
  obtain ⟨a, prices', hprices, ha, hscaled, hvalid', hzero⟩ := normalizePrices_spec hne hvalid hs.1
  obtain ⟨step', hstep', hnat⟩ := adjustStep_spec s.step params.minStep ha
    fun h0 => hs.2 (hzero.mp h0)
  refine ⟨{ s with prices := prices', step := step' }, ?_, a, hscaled, hvalid', hnat⟩
  exact bind_eq_ok.mpr ⟨_, hprices, bind_eq_ok.mpr ⟨step', hstep', rfl⟩⟩

/-! ### Runs -/

/-- Every price of a query is tried from a price that it moves with the excess demand. -/
def TriesPrices (s s₁ : TatonnementQuery) : Prop :=
  s₁.trialPrices.length = s.prices.length ∧
    ∀ (i : Nat) (oldPrice trial : Price) (demand supply : BitVec 128),
      s.prices[i]? = some oldPrice → s₁.trialPrices[i]? = some trial → s.demands[i]? = some demand →
      s.supplies[i]? = some supply →
      trial.isValidPrice = true ∧ (demand > supply → oldPrice ≤ trial) ∧
        (¬ demand > supply → trial ≤ oldPrice)

theorem propose_spec {s s₁ : TatonnementQuery} {input : RoundInput}
    (hvalid : ∀ p ∈ s.prices, p.isValidPrice = true) (h : s.propose params input = .ok s₁) :
    s₁.prices = s.prices ∧ s₁.demands = s.demands ∧ s₁.supplies = s.supplies ∧
      (∀ p ∈ s₁.trialPrices, p.isValidPrice = true) ∧ s.TriesPrices s₁ := by
  obtain ⟨trialPrices, htrial, h⟩ := bind_eq_ok.mp h
  cases h
  have hlength : trialPrices.length = s.prices.length := by
    simpa using length_of_mapM htrial
  -- the round of index `i` of `set_trial_prices`
  have hat : ∀ i < s.prices.length, ∃ oldPrice trial demand supply,
      s.prices[i]? = some oldPrice ∧ trialPrices[i]? = some trial ∧ s.demands[i]? = some demand ∧
      s.supplies[i]? = some supply ∧ trial.isValidPrice = true ∧
      (demand > supply → oldPrice ≤ trial) ∧ (¬ demand > supply → trial ≤ oldPrice) := by
    intro i hi
    obtain ⟨trial, hget, hround⟩ := getElem?_of_mapM htrial (List.getElem?_range hi)
    obtain ⟨demand, hdemand, hround⟩ := bind_eq_ok.mp hround
    obtain ⟨supply, hsupply, hround⟩ := bind_eq_ok.mp hround
    obtain ⟨oldPrice, hold, hround⟩ := bind_eq_ok.mp hround
    obtain ⟨relativizer, -, hround⟩ := bind_eq_ok.mp hround
    have hold := vectorAt_eq_ok.mp hold
    exact ⟨oldPrice, trial, demand, supply, hold, hget, vectorAt_eq_ok.mp hdemand,
      vectorAt_eq_ok.mp hsupply, getTrialPrice_spec (hvalid oldPrice (List.mem_of_getElem? hold)) hround⟩
  refine ⟨rfl, rfl, rfl, fun p hp => ?_, hlength, fun i oldPrice trial demand supply h₁ h₂ h₃ h₄ => ?_⟩
  · obtain ⟨i, hi⟩ := List.mem_iff_getElem?.mp hp
    have hlt : i < trialPrices.length := (List.getElem?_eq_some_iff.mp hi).1
    obtain ⟨_, trial, _, _, _, htrial, _, _, hvalid, -⟩ := hat i (hlength ▸ hlt)
    cases hi.symm.trans htrial
    exact hvalid
  · have hlt : i < s.prices.length := (List.getElem?_eq_some_iff.mp h₁).1
    obtain ⟨oldPrice', trial', demand', supply', h₁', h₂', h₃', h₄', hspec⟩ := hat i hlt
    cases h₁.symm.trans h₁'
    cases h₂.symm.trans h₂'
    cases h₃.symm.trans h₃'
    cases h₄.symm.trans h₄'
    exact hspec

theorem propose_roundNumber {s s₁ : TatonnementQuery} {input : RoundInput}
    (h : s.propose params input = .ok s₁) : s₁.roundNumber = s.roundNumber + 1 := by
  obtain ⟨trialPrices, -, h⟩ := bind_eq_ok.mp h
  cases h
  rfl

theorem acceptOrReject_roundNumber {s s₂ : TatonnementQuery} {input : RoundInput}
    (h : s.acceptOrReject params input = .ok s₂) : s₂.roundNumber = s.roundNumber := by
  obtain ⟨clearing, -, h⟩ := bind_eq_ok.mp h
  split at h
  · obtain ⟨step, -, h⟩ := bind_eq_ok.mp h
    cases h
    rfl
  · obtain ⟨step, -, h⟩ := bind_eq_ok.mp h
    cases h
    rfl

theorem acceptOrReject_prices {s s₂ : TatonnementQuery} {input : RoundInput}
    (h : s.acceptOrReject params input = .ok s₂) :
    s₂.prices = s.trialPrices ∨ s₂.prices = s.prices := by
  obtain ⟨clearing, -, h⟩ := bind_eq_ok.mp h
  split at h
  · obtain ⟨step, -, h⟩ := bind_eq_ok.mp h
    cases h
    exact .inl rfl
  · obtain ⟨step, -, h⟩ := bind_eq_ok.mp h
    cases h
    exact .inr rfl

/-- The state of a query is at the call of `normalize_prices` in a round from `s`. -/
def NormalizesAt (params : TatonnementControlParameters) (s : TatonnementQuery) (input : RoundInput)
    (s₂ : TatonnementQuery) : Prop :=
  s.isDone input = false ∧ ∃ s₁, s.propose params input = .ok s₁ ∧
    s₁.acceptOrReject params input = .ok s₂ ∧ s₂.roundNumber % 1000 = 0

/-- The states between rounds, from some prices, in a run whose calls of `normalize_prices` all
satisfy `C`. -/
inductive Run (params : TatonnementControlParameters) (C : TatonnementQuery → Prop)
    (prices : List Price) : TatonnementQuery → Prop where
  | start (supplies demands : List (BitVec 128)) (volumeRelativizers : List UInt16) :
    Run params C prices (start params prices supplies demands volumeRelativizers)
  | round {s s' : TatonnementQuery} (input : RoundInput) (hrun : Run params C prices s)
    (hcalls : ∀ s₂, s.NormalizesAt params input s₂ → C s₂)
    (h : s.round params input = .ok (some s')) : Run params C prices s'

theorem round_cases {s s' : TatonnementQuery} {input : RoundInput}
    (h : s.round params input = .ok (some s')) :
    s.isDone input = false ∧ ∃ s₁ s₂, s.propose params input = .ok s₁ ∧
      s₁.acceptOrReject params input = .ok s₂ ∧
      ((s₂.roundNumber % 1000 = 0 ∧ s₂.renormalize params = .ok s') ∨
        (s₂.roundNumber % 1000 ≠ 0 ∧ s' = s₂)) := by
  unfold round at h
  split at h
  · cases h
  rename_i hdone
  obtain ⟨s₁, hs₁, h⟩ := bind_eq_ok.mp h
  split at h
  · cases h
  obtain ⟨s₂, hs₂, h⟩ := bind_eq_ok.mp h
  refine ⟨by simpa using hdone, s₁, s₂, hs₁, hs₂, ?_⟩
  obtain ⟨s₃, hs₃, h⟩ := bind_eq_ok.mp h
  cases h
  split at hs₃
  · rename_i hround
    exact .inl ⟨hround, hs₃⟩
  · rename_i hround
    cases hs₃
    exact .inr ⟨hround, rfl⟩

/-- A round that does not come to `normalize_prices`. -/
theorem Run.next {C : TatonnementQuery → Prop} {prices : List Price} {s s₁ s₂ : TatonnementQuery}
    {input : RoundInput} (hrun : Run params C prices s) (hdone : s.isDone input = false)
    (hother : input.otherFinisher = false) (h₁ : s.propose params input = .ok s₁)
    (h₂ : s₁.acceptOrReject params input = .ok s₂) (hround : s₂.roundNumber % 1000 ≠ 0) :
    Run params C prices s₂ := by
  refine .round input hrun ?_ ?_
  · rintro s₂' ⟨-, s₁', h₁', h₂', hat⟩
    cases h₁.symm.trans h₁'
    cases h₂.symm.trans h₂'
    exact absurd hat hround
  · rw [TatonnementQuery.round, if_neg (by simp [hdone])]
    refine bind_eq_ok.mpr ⟨s₁, h₁, ?_⟩
    rw [if_neg (by simp [hother])]
    exact bind_eq_ok.mpr ⟨s₂, h₂, bind_eq_ok.mpr ⟨s₂, if_neg hround, rfl⟩⟩

/-- The prices of a query are prices, as many as at the start. -/
structure Priced (prices : List Price) (s : TatonnementQuery) : Prop where
  valid : ∀ p ∈ s.prices, p.isValidPrice = true
  length : s.prices.length = prices.length

theorem Priced.ne_nil {prices : List Price} {s : TatonnementQuery} (hs : s.Priced prices)
    (hne : prices ≠ []) : s.prices ≠ [] := by
  intro hnil
  have hlength := hs.length
  rw [hnil] at hlength
  exact hne (List.length_eq_zero_iff.mp hlength.symm)

theorem Priced.acceptOrReject {prices : List Price} {s s₁ s₂ : TatonnementQuery} {input : RoundInput}
    (hs : s.Priced prices) (h₁ : s.propose params input = .ok s₁)
    (h₂ : s₁.acceptOrReject params input = .ok s₂) : s₂.Priced prices := by
  obtain ⟨hprices, -, -, hvalid, hlength, -⟩ := propose_spec hs.valid h₁
  rcases acceptOrReject_prices h₂ with h | h
  · exact ⟨h ▸ hvalid, by rw [h, hlength, hs.length]⟩
  · exact ⟨by rw [h, hprices]; exact hs.valid, by rw [h, hprices, hs.length]⟩

theorem Priced.of_run {prices : List Price} {s : TatonnementQuery} (hne : prices ≠ [])
    (hprices : ∀ p ∈ prices, p.isValidPrice = true) (hrun : Run params (Scalable params) prices s) :
    s.Priced prices := by
  induction hrun with
  | start supplies demands volumeRelativizers => exact ⟨hprices, rfl⟩
  | round input hrun hcalls h ih =>
    obtain ⟨hdone, s₁, s₂, h₁, h₂, hround⟩ := round_cases h
    have hs₂ := ih.acceptOrReject h₁ h₂
    rcases hround with ⟨hround, h₃⟩ | ⟨-, rfl⟩
    · obtain ⟨s', hs', a, hscaled, hvalid, -⟩ :=
        renormalize_spec (hs₂.ne_nil hne) hs₂.valid (hcalls s₂ ⟨hdone, s₁, h₁, h₂, hround⟩)
      cases hs'.symm.trans h₃
      refine ⟨hvalid, ?_⟩
      have hlength := congrArg List.length hscaled
      rw [List.length_map, List.length_map] at hlength
      exact hlength.trans hs₂.length
    · exact hs₂

/-- In every run whose calls of `normalize_prices` get prices below `2^45`, and no step below its
minimum that is left as it is: the demand queries get prices, each trial price moves with the
excess demand, and every call of `normalize_prices` scales the prices and the step. -/
theorem tatonnement_of_run (params : TatonnementControlParameters) (prices : List Price)
    (hne : prices ≠ []) (hprices : ∀ p ∈ prices, p.isValidPrice = true) (s : TatonnementQuery)
    (hrun : Run params (Scalable params) prices s) (input : RoundInput) :
    (∀ s₁, s.propose params input = .ok s₁ →
      (∀ p ∈ s₁.trialPrices, p.isValidPrice = true) ∧ s.TriesPrices s₁) ∧
    ∀ s₂, s.NormalizesAt params input s₂ → s₂.Scalable params →
      ∃ s₃, s₂.renormalize params = .ok s₃ ∧ s₂.Scales params s₃ := by
  have hs := Priced.of_run hne hprices hrun
  refine ⟨fun s₁ h₁ => ?_, fun s₂ hat hscalable => ?_⟩
  · obtain ⟨-, -, -, hvalid, htries⟩ := propose_spec hs.valid h₁
    exact ⟨hvalid, htries⟩
  · obtain ⟨-, s₁, h₁, h₂, -⟩ := hat
    have hs₂ := hs.acceptOrReject h₁ h₂
    exact renormalize_spec (hs₂.ne_nil hne) hs₂.valid hscalable

/-- The parameters that a query has by default. -/
def defaultParams : TatonnementControlParameters := ⟨55, 128, 5, 44, 25, 10⟩

/-- A demand for asset 0 that no supply meets, and nothing of asset 1. -/
def excessDemand : RoundInput := ⟨false, [1, 1], [0, 0], [1, 0], true, false⟩

/-- A demand for asset 0 that moves its price for as long as the relativizers are not zero. -/
def strongDemand : RoundInput := ⟨false, [0, 0], [0, 0], [2 ^ 60, 0], true, false⟩

/-- The state after some rounds with this input, if the query does not return. -/
def afterRounds (params : TatonnementControlParameters) (input : RoundInput) (s : TatonnementQuery) :
    Nat → Result (Option TatonnementQuery)
  | 0 => .ok (some s)
  | n + 1 => do
    match ← afterRounds params input s n with
    | none => return none
    | some s => s.round params input

/-- The first rounds of a query. -/
theorem run_afterRounds {C : TatonnementQuery → Prop} {prices : List Price} {s s' : TatonnementQuery}
    {input : RoundInput} {n : Nat} (hrun : Run params C prices s)
    (hother : input.otherFinisher = false) (hn : s.roundNumber + n < 1000)
    (h : afterRounds params input s n = .ok (some s')) :
    Run params C prices s' ∧ s'.roundNumber = s.roundNumber + n := by
  induction n generalizing s' with
  | zero =>
    cases h
    exact ⟨hrun, rfl⟩
  | succ n ih =>
    obtain ⟨_ | s₀, h₀, h⟩ := bind_eq_ok.mp h
    · cases h
    obtain ⟨hrun₀, hnumber₀⟩ := ih (by omega) h₀
    obtain ⟨hdone, s₁, s₂, h₁, h₂, hcases⟩ := round_cases h
    have hnumber : s₂.roundNumber = s.roundNumber + (n + 1) := by
      rw [acceptOrReject_roundNumber h₂, propose_roundNumber h₁, hnumber₀, Nat.add_assoc]
    rcases hcases with ⟨hround, -⟩ | ⟨hround, rfl⟩
    · omega
    · exact ⟨hrun₀.next hdone hother h₁ h₂ hround, hnumber⟩

/-- The trial prices of a query for two assets. -/
theorem propose_pair {s : TatonnementQuery} {input : RoundInput} {p q p' q' : Price}
    {demand supply demand' supply' : BitVec 128} {relativizer relativizer' : UInt16}
    (hprices : s.prices = [p, q]) (hdemands : s.demands = [demand, demand'])
    (hsupplies : s.supplies = [supply, supply'])
    (hrelativizers : (if (s.roundNumber + 1) % 10 = 9 then input.relativizers else s.relativizers) =
      [relativizer, relativizer'])
    (hp : getTrialPrice demand supply p s.step relativizer params = .ok p')
    (hq : getTrialPrice demand' supply' q s.step relativizer' params = .ok q') :
    s.propose params input = .ok { s with
      roundNumber := s.roundNumber + 1
      relativizers := [relativizer, relativizer']
      trialPrices := [p', q']
      forceStepRounds := if [p', q'] = s.prices then 10 else s.forceStepRounds } := by
  have htrial : ({ s with
      roundNumber := s.roundNumber + 1
      relativizers := [relativizer, relativizer'] } : TatonnementQuery).setTrialPrices params =
        .ok [p', q'] := by
    simp only [setTrialPrices, hprices, hdemands, hsupplies]
    rw [show List.range [p, q].length = [0, 1] from rfl, mapM_cons]
    refine ⟨p', [q'], ?_, mapM_cons.mpr ⟨q', [], ?_, rfl, rfl⟩, rfl⟩
    · exact bind_eq_ok.mpr ⟨demand, rfl, bind_eq_ok.mpr ⟨supply, rfl, bind_eq_ok.mpr ⟨p, rfl,
        bind_eq_ok.mpr ⟨relativizer, rfl, hp⟩⟩⟩⟩
    · exact bind_eq_ok.mpr ⟨demand', rfl, bind_eq_ok.mpr ⟨supply', rfl, bind_eq_ok.mpr ⟨q, rfl,
        bind_eq_ok.mpr ⟨relativizer', rfl, hq⟩⟩⟩⟩
  rw [propose]
  dsimp only
  rw [hrelativizers, htrial]
  rfl

/-- A price whose relativizer is zero is tried as it is. -/
theorem getTrialPrice_idle (demand supply : BitVec 128) {price : Price} (step : UInt64)
    (h : price.isValidPrice = true) :
    getTrialPrice demand supply price step 0 defaultParams = .ok price := by
  obtain ⟨hpos, hlt⟩ := Price.isValidPrice_iff.mp h
  have hmultiply : ∀ first excess, Price.safeMultiplyAndDropLowbits first
      ((0 : UInt16).toBitVec.setWidth 128 * excess) 79 = .ok 0 := by
    intro first excess
    rw [show (0 : UInt16).toBitVec.setWidth 128 = 0#128 from rfl, BitVec.zero_mul]
    simp [Price.safeMultiplyAndDropLowbits]
  have hbounds : Price.imposePriceBounds (widenUInt64 (price + 0)) = price := by
    have hwide : (widenUInt64 price).toNat = price.toNat := by
      rw [widenUInt64, BitVec.toNat_setWidth]
      exact Nat.mod_eq_of_lt (lt_of_lt_of_le price.toNat_lt (by decide))
    have hzero : widenUInt64 price ≠ 0 := by
      intro hzero
      rw [hzero] at hwide
      exact absurd hwide (by simp; omega)
    rw [UInt64.add_zero, Price.imposePriceBounds, Price.toNat_maxPrice, if_neg (by omega),
      if_neg hzero, hwide]
    exact UInt64.ofNat_toNat
  unfold getTrialPrice
  split
  · exact bind_eq_ok.mpr ⟨0, hmultiply _ _, congrArg Except.ok hbounds⟩
  · refine bind_eq_ok.mpr ⟨0, hmultiply _ _, congrArg Except.ok ?_⟩
    rw [if_neg (by rw [ge_iff_le, UInt64.le_iff_toNat_le]; simp; omega), UInt64.sub_zero]

/-- Round `k` of a query for two assets whose relativizers are zero, or are zero from the next round
on. -/
structure Idle (p q : Price) (k : Nat) (s : TatonnementQuery) : Prop where
  prices : s.prices = [p, q]
  demands : s.demands = [2 ^ 60, 0]
  supplies : s.supplies = [0, 0]
  relativizers : k % 10 = 8 ∨ s.relativizers = [0, 0]
  roundNumber : s.roundNumber = k
  clearing : s.clearing = false

theorem Idle.next {p q : Price} {k : Nat} {s : TatonnementQuery} (hs : s.Idle p q k)
    (hp : p.isValidPrice = true) (hq : q.isValidPrice = true) :
    ∃ s₁ s₂, s.propose defaultParams strongDemand = .ok s₁ ∧
      s₁.acceptOrReject defaultParams strongDemand = .ok s₂ ∧ s₂.Idle p q (k + 1) := by
  have hrelativizers : (if (s.roundNumber + 1) % 10 = 9 then strongDemand.relativizers
      else s.relativizers) = [0, 0] := by
    rw [hs.roundNumber]
    split
    · rfl
    · exact hs.relativizers.resolve_left (by omega)
  have hpropose := propose_pair hs.prices hs.demands hs.supplies hrelativizers
    (getTrialPrice_idle (2 ^ 60) 0 s.step hp) (getTrialPrice_idle 0 0 s.step hq)
  obtain ⟨step, hstep⟩ : ∃ step, incrementStep s.step 44 5 = .ok step := ⟨_, rfl⟩
  refine ⟨_, _, hpropose, bind_eq_ok.mpr ⟨false, ?_, bind_eq_ok.mpr ⟨step, hstep, rfl⟩⟩, ?_⟩
  · rw [hs.prices, List.length_cons, List.length_singleton]
    decide +kernel
  · exact ⟨rfl, rfl, rfl, .inr rfl, congrArg (· + 1) hs.roundNumber, rfl⟩

theorem Idle.run {C : TatonnementQuery → Prop} {prices : List Price} {p q : Price} {k : Nat}
    {s : TatonnementQuery} (hrun : Run defaultParams C prices s) (hs : s.Idle p q k)
    (hp : p.isValidPrice = true) (hq : q.isValidPrice = true) (n : Nat) (hn : k + n < 1000) :
    ∃ s', Run defaultParams C prices s' ∧ s'.Idle p q (k + n) := by
  induction n with
  | zero => exact ⟨s, hrun, hs⟩
  | succ n ih =>
    obtain ⟨s', hrun', hs'⟩ := ih (by omega)
    obtain ⟨s₁, s₂, h₁, h₂, hs₂⟩ := hs'.next hp hq
    have hround : s₂.roundNumber % 1000 ≠ 0 := by
      rw [hs₂.roundNumber]
      omega
    have hnotDone : s'.isDone strongDemand = false := by
      simp [isDone, hs'.clearing, strongDemand]
    exact ⟨s₂, hrun'.next hnotDone rfl h₁ h₂ hround, hs₂⟩

/-- Eight rounds raise the price of asset 0. -/
theorem idle_eightRounds {C : TatonnementQuery → Prop} :
    ∃ s, Run defaultParams C [2 ^ 24, 2 ^ 24] s ∧ s.Idle 16905870 (2 ^ 24) 8 := by
  obtain ⟨o, ho, hcheck⟩ := returns_iff.mp
    (by decide +kernel : returns (afterRounds defaultParams strongDemand
      (start defaultParams [2 ^ 24, 2 ^ 24] [0, 0] [2 ^ 60, 0] [1, 1]) 8) (fun o => o.any fun s =>
        s.prices = [16905870, 2 ^ 24] ∧ s.demands = [2 ^ 60, 0] ∧ s.supplies = [0, 0] ∧
          s.clearing = false) = true)
  obtain ⟨s, rfl, hs⟩ := (Option.any_eq_true _ _).mp hcheck
  obtain ⟨hprices, hdemands, hsupplies, hclearing⟩ := of_decide_eq_true hs
  obtain ⟨hrun, hnumber⟩ :=
    run_afterRounds (.start [0, 0] [2 ^ 60, 0] [1, 1]) rfl (by decide) ho
  exact ⟨s, hrun, hprices, hdemands, hsupplies, .inl rfl, hnumber, hclearing⟩

/-- After eight rounds the relativizers are zero, and the call of `normalize_prices` in round 1000
multiplies both prices by `2^11`. -/
theorem tatonnement_normalizes :
    ∃ s s₂ s₃, Run defaultParams (Scalable defaultParams) [2 ^ 24, 2 ^ 24] s ∧
      s.NormalizesAt defaultParams strongDemand s₂ ∧ s₂.prices = [16905870, 2 ^ 24] ∧
      s₂.Scalable defaultParams ∧ s₂.renormalize defaultParams = .ok s₃ ∧
      s₂.Scales defaultParams s₃ ∧ s₃.prices = [16905870 * 2 ^ 11, 2 ^ 35] := by
  have hp : Price.isValidPrice 16905870 = true := by decide +kernel
  have hq : Price.isValidPrice (2 ^ 24) = true := by decide +kernel
  have hvalid : ∀ p ∈ ([2 ^ 24, 2 ^ 24] : List Price), p.isValidPrice = true :=
    List.forall_mem_cons.mpr ⟨hq, List.forall_mem_singleton.mpr hq⟩
  obtain ⟨s₀, hrun₀, hidle₀⟩ := idle_eightRounds
  obtain ⟨s, hrun, hs⟩ := Idle.run hrun₀ hidle₀ hp hq 991 (by decide)
  obtain ⟨s₁, s₂, h₁, h₂, hs₂⟩ := hs.next hp hq
  have hat : s.NormalizesAt defaultParams strongDemand s₂ := by
    refine ⟨?_, s₁, h₁, h₂, ?_⟩
    · simp [isDone, hs.clearing, strongDemand]
    · rw [hs₂.roundNumber]
  have hscalable : s₂.Scalable defaultParams := by
    have hbelow : ∀ p ∈ s₂.prices, p.toNat < 2 ^ 37 := by
      rw [hs₂.prices, List.forall_mem_cons, List.forall_mem_singleton]
      decide +kernel
    refine ⟨fun p hp => (hbelow p hp).trans (by decide), ?_⟩
    rintro ⟨p, hp, hlarge⟩
    exact absurd hlarge (hbelow p hp).not_ge
  obtain ⟨-, hnormalizes⟩ :=
    tatonnement_of_run defaultParams _ (List.cons_ne_nil _ _) hvalid s hrun strongDemand
  obtain ⟨s₃, hs₃, hscales⟩ := hnormalizes s₂ hat hscalable
  refine ⟨s, s₂, s₃, hrun, hat, hs₂.prices, hscalable, hs₃, hscales, ?_⟩
  obtain ⟨⟨prices, adjust⟩, hprices, h⟩ := bind_eq_ok.mp hs₃
  obtain ⟨step, -, h⟩ := bind_eq_ok.mp h
  have hscaled : normalizePrices [16905870, 2 ^ 24] = .ok ([16905870 * 2 ^ 11, 2 ^ 35], 11) := by
    decide +kernel
  rw [hs₂.prices, hscaled] at hprices
  rw [← Except.ok.inj h]
  exact (congrArg Prod.fst (Except.ok.inj hprices)).symm

/-- Round `k` of a query in which only asset 0 has an excess demand, from prices of at least `2^45`
and 1. -/
structure Rising (k : Nat) (s : TatonnementQuery) : Prop where
  prices : ∃ p : Price, s.prices = [p, 1] ∧ 2 ^ 45 ≤ p.toNat ∧ p.isValidPrice = true
  demands : s.demands = [1, 0]
  supplies : s.supplies = [0, 0]
  relativizers : s.relativizers = [1, 1]
  roundNumber : s.roundNumber = k
  clearing : s.clearing = false

theorem getTrialPrice_returns (demand supply : BitVec 128) (oldPrice : Price) (step : UInt64)
    (volumeRelativizer : UInt16) :
    ∃ trial, getTrialPrice demand supply oldPrice step volumeRelativizer defaultParams = .ok trial := by
  have hmultiply : ∀ first second, ∃ delta,
      Price.safeMultiplyAndDropLowbits first second 79 = .ok delta := fun _ _ => ⟨_, rfl⟩
  unfold getTrialPrice
  split
  · obtain ⟨delta, hdelta⟩ := hmultiply (widenUInt64 step * widenUInt64 oldPrice)
      (volumeRelativizer.toBitVec.setWidth 128 * (demand - supply))
    exact ⟨_, bind_eq_ok.mpr ⟨delta, hdelta, rfl⟩⟩
  · obtain ⟨delta, hdelta⟩ := hmultiply (widenUInt64 step * widenUInt64 oldPrice)
      (volumeRelativizer.toBitVec.setWidth 128 * (supply - demand))
    exact ⟨_, bind_eq_ok.mpr ⟨delta, hdelta, rfl⟩⟩

theorem Rising.next {k : Nat} {s : TatonnementQuery} (hs : s.Rising k) :
    ∃ s₁ s₂, s.propose defaultParams excessDemand = .ok s₁ ∧
      s₁.acceptOrReject defaultParams excessDemand = .ok s₂ ∧ s₂.Rising (k + 1) := by
  obtain ⟨p, hprices, hlarge, hvalid⟩ := hs.prices
  obtain ⟨p', hp'⟩ := getTrialPrice_returns 1 0 p s.step 1
  obtain ⟨q', hq'⟩ := getTrialPrice_returns 0 0 1 s.step 1
  obtain ⟨hvalid', hrises, -⟩ := getTrialPrice_spec hvalid hp'
  obtain ⟨hvalidq, -, hfalls⟩ := getTrialPrice_spec (by rw [Price.isValidPrice_iff]; decide) hq'
  have hq : q' = 1 := by
    have hle := UInt64.le_iff_toNat_le.mp (hfalls (by decide))
    have hpos := (Price.isValidPrice_iff.mp hvalidq).1
    rw [← UInt64.toNat_inj]
    simp only [UInt64.toNat_one] at hle ⊢
    omega
  rw [hq] at hq'
  have hle := UInt64.le_iff_toNat_le.mp (hrises (by decide))
  have hrelativizers : (if (s.roundNumber + 1) % 10 = 9 then excessDemand.relativizers
      else s.relativizers) = [1, 1] := by
    rw [hs.relativizers]
    exact ite_self _
  have hpropose := propose_pair hprices hs.demands hs.supplies hrelativizers hp' hq'
  obtain ⟨step, hstep⟩ : ∃ step, incrementStep s.step 44 5 = .ok step := ⟨_, rfl⟩
  refine ⟨_, _, hpropose, bind_eq_ok.mpr ⟨false, ?_, bind_eq_ok.mpr ⟨step, hstep, rfl⟩⟩, ?_⟩
  · rw [hprices]
    rfl
  · exact ⟨⟨p', rfl, hlarge.trans hle, hvalid'⟩, rfl, rfl, rfl, congrArg (· + 1) hs.roundNumber, rfl⟩

theorem Rising.run {C : TatonnementQuery → Prop} (k : Nat) (hk : k < 1000) :
    ∃ s, Run defaultParams C [2 ^ 45, 1] s ∧ s.Rising k := by
  induction k with
  | zero =>
    refine ⟨_, .start [0, 0] [1, 0] [1, 1], ⟨2 ^ 45, rfl, by decide, ?_⟩, rfl, rfl, rfl, rfl, rfl⟩
    rw [Price.isValidPrice_iff]
    decide
  | succ k ih =>
    obtain ⟨s, hrun, hs⟩ := ih (by omega)
    obtain ⟨s₁, s₂, h₁, h₂, hs₂⟩ := hs.next
    have hround : s₂.roundNumber % 1000 ≠ 0 := by
      rw [hs₂.roundNumber]
      omega
    have hnotDone : s.isDone excessDemand = false := by
      simp [isDone, hs.clearing, excessDemand]
    exact ⟨s₂, hrun.next hnotDone rfl h₁ h₂ hround, hs₂⟩

/-- After 1000 rounds the largest price is at least `2^45`: `normalize_prices` shifts the price 1
to 0, and the step by a negative number. -/
theorem tatonnement_unscaled :
    ∃ s s₂, Run defaultParams (Scalable defaultParams) [2 ^ 45, 1] s ∧
      s.NormalizesAt defaultParams excessDemand s₂ ∧ (∀ p ∈ s₂.prices, p.isValidPrice = true) ∧
      (∃ prices', normalizePrices s₂.prices = .ok (prices', -2) ∧ 0 ∈ prices') ∧
      s₂.renormalize defaultParams = .error .shiftOutOfRange ∧
      ¬ ∃ s₃, s₂.renormalize defaultParams = .ok s₃ ∧ s₂.Scales defaultParams s₃ := by
  obtain ⟨s, hrun, hs⟩ := Rising.run 999 (by decide)
  obtain ⟨s₁, s₂, h₁, h₂, hs₂⟩ := hs.next
  obtain ⟨p, hprices, hlarge, hvalid⟩ := hs₂.prices
  have hnormal : normalizePrices s₂.prices = .ok ([p >>> 2, 0], -2) := by
    have hmax : largestPrice [p, 1] = .ok p := by
      have hnot : ¬ p < 1 := by
        rw [UInt64.lt_iff_toNat_lt]
        simp only [UInt64.toNat_one]
        omega
      simp [largestPrice, hnot]
    have hlog : 45 ≤ p.toNat.log2 := (Nat.le_log2 (by omega)).mpr hlarge
    rw [hprices, normalizePrices, hmax, ok_bind, if_neg (by omega), if_pos (by omega)]
    rfl
  have hfails : s₂.renormalize defaultParams = .error .shiftOutOfRange := by
    rw [renormalize, hnormal]
    rfl
  refine ⟨s, s₂, hrun, ⟨?_, s₁, h₁, h₂, ?_⟩, ?_, ⟨_, hnormal, by simp⟩, hfails, ?_⟩
  · simp [isDone, hs.clearing, excessDemand]
  · rw [hs₂.roundNumber]
  · rw [hprices]
    intro q hq
    rcases List.mem_cons.mp hq with rfl | hq
    · exact hvalid
    · cases List.mem_singleton.mp hq
      rw [Price.isValidPrice_iff]
      decide
  · rintro ⟨s₃, hs₃, -⟩
    exact absurd (hfails.symm.trans hs₃) (by simp)

end TatonnementQuery

end Speedex
