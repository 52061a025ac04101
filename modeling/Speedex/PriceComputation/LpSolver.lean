import Speedex.Orderbook.Conservation
import Speedex.Orderbook.Indices
import Speedex.Vm.Validation

/-! What the LP solver makes of the flows that it finds (`price_computation/lp_solver.cc`): the
supplies and demands of the assets, each with the flows' fractions, and the tax rate.  The checks
of the clearing round every flow up. -/

namespace Speedex

open Lib

namespace LpSolver

/-- The loop of `solve` over orderbooks: the supply and the demand that the flow of orderbook `i`
adds. -/
def addFlow (flows : List FractionalAsset) (prices : List Price)
    (totals : List FractionalAsset × List FractionalAsset) (i : Nat) :
    Result (List FractionalAsset × List FractionalAsset) := do
  let category := categoryFromIdx i prices.length
  let flow ← vectorAt flows i
  let sellPrice ← vectorAt prices category.sellAsset.toNat
  let buyPrice ← vectorAt prices category.buyAsset.toNat
  let demandedFlow ← Price.wideMultiplyValByAOverB flow.value sellPrice buyPrice
  return (totals.1.modify category.sellAsset.toNat (· + flow),
    totals.2.modify category.buyAsset.toNat (· + .fromRaw demandedFlow))

/-- The supplies and demands of `solve`. -/
def flowTotals (flows : List FractionalAsset) (prices : List Price) :
    Result (List FractionalAsset × List FractionalAsset) :=
  let zeros := List.replicate prices.length (default : FractionalAsset)
  (List.range flows.length).foldlM (addFlow flows prices) (zeros, zeros)

/-- The two comparisons of `max_tax_param`, on integers. -/
def comparedTaxRate (supply demand : FractionalAsset) (targetTax : UInt8) : Result (Option UInt8) := do
  let taxed ← demand.taxAndRound targetTax
  if supply.ceil ≥ taxed then return some targetTax
  else
    let taxed ← demand.taxAndRound (targetTax - 1)
    return (if supply.ceil ≥ taxed then some (targetTax - 1) else none)

/-- `max_tax_param`.  `logTaxRate` is `floor(-eps)`, which is computed with doubles. -/
def maxTaxParam (logTaxRate : FractionalAsset → FractionalAsset → UInt8)
    (supply demand : FractionalAsset) (targetTax : UInt8) : Result UInt8 := do
  match ← comparedTaxRate supply demand targetTax with
  | some taxRate => .ok taxRate
  | none =>
    let taxRate := logTaxRate supply demand
    if (taxRate.toNat : Int) < targetTax.toNat - 1 then
      .error (.runtimeError "tax rate increased too much due to LP rounding error")
    else .ok taxRate

/-- The result of `solve` for the flows of the LP, after they are rounded. -/
def clearingParams (logTaxRate : FractionalAsset → FractionalAsset → UInt8)
    (flows : List FractionalAsset) (prices : List Price) (targetTax : UInt8) :
    Result ClearingParams := do
  let totals ← flowTotals flows prices
  let outputTaxRate ← (List.range prices.length).foldlM (fun outputTaxRate i => do
    let newTaxRate ← maxTaxParam logTaxRate (totals.1.getD i default) (totals.2.getD i default)
      targetTax
    return min newTaxRate outputTaxRate) targetTax
  return ⟨outputTaxRate, flows⟩

/-! ### The two loops -/

section Totals

variable {flows : List FractionalAsset} {prices : List Price}

/-- The raw supply of asset `a` from orderbook `i`. -/
def flowOf (flows : List FractionalAsset) (prices : List Price) (a i : Nat) : Nat :=
  if (categoryFromIdx i prices.length).sellAsset.toNat = a then rawSupply flows i else 0

/-- An index of an orderbook has a flow, two prices, and a demand. -/
theorem exists_demanded (hflows : flows.length = getNumOrderbooksByAssetCount prices.length)
    (hprices : ∀ p ∈ prices, p.isValidPrice = true) {i : Nat} (hi : i < flows.length) :
    ∃ flow sellPrice buyPrice raw, vectorAt flows i = .ok flow ∧
      vectorAt prices (categoryFromIdx i prices.length).sellAsset.toNat = .ok sellPrice ∧
      vectorAt prices (categoryFromIdx i prices.length).buyAsset.toNat = .ok buyPrice ∧
      Price.wideMultiplyValByAOverB flow.value sellPrice buyPrice = .ok raw := by
  obtain ⟨hsell, hbuy⟩ := categoryFromIdx_lt (hflows ▸ hi)
  have hnonzero : prices[(categoryFromIdx i prices.length).buyAsset.toNat] ≠ 0 := by
    intro hzero
    have hvalid := (Price.isValidPrice_iff.mp (hprices _ (List.getElem_mem hbuy))).1
    rw [hzero] at hvalid
    exact absurd hvalid (by decide)
  have hraw : ∃ raw, Price.wideMultiplyValByAOverB flows[i].value
      prices[(categoryFromIdx i prices.length).sellAsset.toNat]
      prices[(categoryFromIdx i prices.length).buyAsset.toNat] = .ok raw := ⟨_, if_neg hnonzero⟩
  obtain ⟨raw, hraw⟩ := hraw
  exact ⟨flows[i], _, _, raw, vectorAt_eq_ok.mpr (List.getElem?_eq_getElem hi),
    vectorAt_eq_ok.mpr (List.getElem?_eq_getElem hsell),
    vectorAt_eq_ok.mpr (List.getElem?_eq_getElem hbuy), hraw⟩

/-- The loops of the solver and of the checks return, with the same demands. -/
theorem totals_return (hflows : flows.length = getNumOrderbooksByAssetCount prices.length)
    (hprices : ∀ p ∈ prices, p.isValidPrice = true) {books : List Nat}
    (hbooks : ∀ i ∈ books, i < flows.length) (supplies rounded demands : List FractionalAsset) :
    ∃ supplies' rounded' demands',
      books.foldlM (addFlow flows prices) (supplies, demands) = .ok (supplies', demands') ∧
      books.foldlM (addSupplyAndDemand flows prices) (rounded, demands) = .ok (rounded', demands') ∧
      ∀ a < supplies.length, (supplies'.getD a default).value.toNat =
        ((supplies.getD a default).value.toNat + (books.map (flowOf flows prices a)).sum) % 2 ^ 128 := by
  induction books generalizing supplies rounded demands with
  | nil =>
    refine ⟨supplies, rounded, demands, rfl, rfl, fun a _ => ?_⟩
    rw [List.map_nil, List.sum_nil, Nat.add_zero]
    exact (Nat.mod_eq_of_lt (supplies.getD a default).value.isLt).symm
  | cons i books ih =>
    obtain ⟨flow, sellPrice, buyPrice, raw, hflow, hsell, hbuy, hraw⟩ :=
      exists_demanded hflows hprices (hbooks i List.mem_cons_self)
    obtain ⟨supplies', rounded', demands', hsolver, hcheck, htotal⟩ :=
      ih (fun j hj => hbooks j (List.mem_cons_of_mem i hj))
        (supplies.modify (categoryFromIdx i prices.length).sellAsset.toNat (· + flow))
        (rounded.modify (categoryFromIdx i prices.length).sellAsset.toNat
          (· + .fromIntegral flow.ceil))
        (demands.modify (categoryFromIdx i prices.length).buyAsset.toNat (· + .fromRaw raw))
    refine ⟨supplies', rounded', demands', foldlM_cons.mpr ⟨_, ?_, hsolver⟩,
      foldlM_cons.mpr ⟨_, ?_, hcheck⟩, fun a ha => ?_⟩
    · simp [addFlow, hflow, hsell, hbuy, hraw, pure, Except.pure]
    · simp [addSupplyAndDemand, hflow, hsell, hbuy, hraw, pure, Except.pure]
    · have hraw : rawSupply flows i = flow.value.toNat := by
        rw [rawSupply, getD_of_vectorAt hflow]
      rw [htotal a (by simpa using ha), toNat_getD_modify ha, List.map_cons, List.sum_cons, flowOf, hraw]
      split <;> omega

end Totals

/-! ### The rounding -/

/-- Flows that are rounded up one by one cover the flows together. -/
theorem ceilDiv_sum_le (l : List Nat) {d : Nat} (hd : 0 < d) :
    l.sum ⌈/⌉ d ≤ (l.map (· ⌈/⌉ d)).sum := by
  rw [ceilDiv_le_iff_le_mul hd]
  induction l with
  | nil => exact Nat.zero_le _
  | cons x l ih =>
    rw [List.sum_cons, List.map_cons, List.sum_cons, Nat.mul_add]
    exact Nat.add_le_add ((ceilDiv_le_iff_le_mul hd).mp le_rfl) ih

/-- With the exponent 0 everything is taxed away. -/
theorem taxed_exponent_zero (value : Nat) : taxed 0 value = 0 := by
  rw [taxed, Nat.pow_zero, ceilDiv_one, Nat.sub_self, Nat.zero_div]

/-- A rate that a comparison of `max_tax_param` gives.  At a target whose exponent is 0 the first
comparison holds. -/
structure Compares (targetTax taxRate : UInt8) : Prop where
  near : taxRate.toNat = targetTax.toNat ∨ taxRate.toNat + 1 = targetTax.toNat
  wrapped : shiftCount targetTax = 0 → taxRate.toNat = targetTax.toNat

/-- A lower rate taxes no less. -/
theorem Compares.taxed_le {targetTax s t : UInt8} (hs : Compares targetTax s)
    (ht : Compares targetTax t) (h : s.toNat ≤ t.toNat) (value : Nat) :
    taxed (shiftCount s) value ≤ taxed (shiftCount t) value := by
  refine taxed_mono_rate ?_ value
  have hs' := hs.near
  have ht' := ht.near
  have hs'' := hs.wrapped
  have ht'' := ht.wrapped
  simp only [shiftCount] at hs'' ht'' ⊢
  omega

/-- A rate from a comparison is the target or one less, and the supply covers the demand at it. -/
theorem comparedTaxRate_spec {supply demand : FractionalAsset} {targetTax taxRate : UInt8}
    (htarget : 1 ≤ targetTax.toNat)
    (h : comparedTaxRate supply demand targetTax = .ok (some taxRate)) :
    Compares targetTax taxRate ∧
      taxed (shiftCount taxRate) demand.value.toNat ≤ supply.value.toNat ⌈/⌉ 2 ^ 10 := by
  obtain ⟨r, hr, h⟩ := bind_eq_ok.mp h
  split at h
  · rename_i hle
    cases h
    rw [ge_iff_le, BitVec.le_def, toNat_ceil, toNat_taxAndRound hr] at hle
    exact ⟨⟨.inl rfl, fun _ => rfl⟩, hle⟩
  · rename_i hlt
    obtain ⟨r', hr', h⟩ := bind_eq_ok.mp h
    have h := Except.ok.inj h
    split at h
    · rename_i hle
      cases h
      rw [ge_iff_le, BitVec.le_def, toNat_ceil, toNat_taxAndRound hr'] at hle
      have hone : (1 : UInt8) ≤ targetTax := UInt8.le_iff_toNat_le.mpr (by simpa using htarget)
      have hpred : (targetTax - 1).toNat = targetTax.toNat - 1 := UInt8.toNat_sub_of_le _ _ hone
      refine ⟨⟨.inr (by omega), fun hwrapped => absurd ?_ hlt⟩, hle⟩
      rw [ge_iff_le, BitVec.le_def, toNat_taxAndRound hr, hwrapped, taxed_exponent_zero]
      exact Nat.zero_le _
    · cases h

theorem toNat_min (s t : UInt8) : (min s t).toNat = min s.toNat t.toNat := by
  show (if s ≤ t then s else t).toNat = _
  simp only [UInt8.le_iff_toNat_le]
  split <;> omega

theorem Compares.min {targetTax s t : UInt8} (hs : Compares targetTax s) (ht : Compares targetTax t) :
    Compares targetTax (min s t) := by
  show Compares targetTax (if s ≤ t then s else t)
  split
  · exact hs
  · exact ht

/-- The minimum of the rates. -/
theorem outputTaxRate_spec (logTaxRate : FractionalAsset → FractionalAsset → UInt8)
    {totals : List FractionalAsset × List FractionalAsset} {targetTax : UInt8}
    (htarget : 1 ≤ targetTax.toNat) {assets : List Nat}
    (hcompared : ∀ i ∈ assets, ∃ rate, comparedTaxRate (totals.1.getD i default)
      (totals.2.getD i default) targetTax = .ok (some rate))
    {start : UInt8} (hstart : Compares targetTax start) :
    ∃ output, assets.foldlM (fun outputTaxRate i => do
        let newTaxRate ← maxTaxParam logTaxRate (totals.1.getD i default) (totals.2.getD i default)
          targetTax
        return min newTaxRate outputTaxRate) start = .ok output ∧
      output.toNat ≤ start.toNat ∧ Compares targetTax output ∧
      ∀ i ∈ assets, taxed (shiftCount output) (totals.2.getD i default).value.toNat ≤
        (totals.1.getD i default).value.toNat ⌈/⌉ 2 ^ 10 := by
  induction assets generalizing start with
  | nil => exact ⟨start, rfl, le_rfl, hstart, fun i hi => absurd hi List.not_mem_nil⟩
  | cons i assets ih =>
    obtain ⟨rate, hrate⟩ := hcompared i List.mem_cons_self
    obtain ⟨hcompares, hcovers⟩ := comparedTaxRate_spec htarget hrate
    obtain ⟨output, houtput, hle, houtput', hrest⟩ :=
      ih (fun j hj => hcompared j (List.mem_cons_of_mem i hj)) (hcompares.min hstart)
    rw [toNat_min] at hle
    have hrateLe : output.toNat ≤ rate.toNat := hle.trans (min_le_left _ _)
    refine ⟨output, foldlM_cons.mpr ⟨min rate start, ?_, houtput⟩, hle.trans (min_le_right _ _),
      houtput', fun j hj => ?_⟩
    · rw [maxTaxParam, hrate]
      rfl
    · rcases List.mem_cons.mp hj with rfl | hj
      · exact (houtput'.taxed_le hcompares hrateLe _).trans hcovers
      · exact hrest j hj

/-- The clearing of the flows, with the sums below the width of the code's. -/
theorem suppliesClear_of_flows {flows : List FractionalAsset} {prices : List Price}
    {supplies rounded demands : List FractionalAsset} {taxRate : UInt8}
    (hcheck : (List.range flows.length).foldlM (addSupplyAndDemand flows prices)
      (List.replicate prices.length default, List.replicate prices.length default) =
        .ok (rounded, demands))
    (hflow : ∀ a < prices.length, (supplies.getD a default).value.toNat =
      ((List.range flows.length).map (flowOf flows prices a)).sum % 2 ^ 128)
    (hsupply : ∀ a < prices.length,
      totalSupply flows prices a (List.range flows.length) * 2 ^ 10 < 2 ^ 128)
    (hcovers : ∀ a < prices.length, taxed (shiftCount taxRate) (demands.getD a default).value.toNat ≤
      (supplies.getD a default).value.toNat ⌈/⌉ 2 ^ 10) :
    suppliesClear flows prices taxRate = .ok true := by
  refine bind_eq_ok.mpr ⟨_, hcheck, allM_eq_ok_true.mpr fun a ha => ?_⟩
  have ha := List.mem_range.mp ha
  obtain ⟨hrounded, -⟩ := addSupplyAndDemand_totals hcheck (a := a) (by simpa using ha)
    (by simpa using ha)
  have hzero : (List.replicate prices.length (default : FractionalAsset)).getD a default = default := by
    simp [ha]
  rw [hzero, show (default : FractionalAsset).value.toNat = 0 from rfl, Nat.zero_add,
    Nat.mod_eq_of_lt (hsupply a ha)] at hrounded
  have hle := hcovers a ha
  obtain ⟨r, hr, hnat⟩ := taxAndRound_returns (demands.getD a default) taxRate
  have hsum : (supplies.getD a default).value.toNat ⌈/⌉ 2 ^ 10 ≤
      totalSupply flows prices a (List.range flows.length) := by
    have hceil := ceilDiv_sum_le ((List.range flows.length).map (flowOf flows prices a))
      (show 0 < 2 ^ 10 by decide)
    have heach : ((List.range flows.length).map (flowOf flows prices a)).map (· ⌈/⌉ 2 ^ 10) =
        (List.range flows.length).map (supplyOf flows prices a) := by
      rw [List.map_map]
      refine List.map_congr_left fun i _ => ?_
      simp only [Function.comp_apply, flowOf, supplyOf]
      split
      · rfl
      · exact zero_ceilDiv _
    rw [heach] at hceil
    rw [hflow a ha]
    refine le_trans ?_ hceil
    rw [ceilDiv_le_iff_le_mul (by decide)]
    exact (Nat.mod_le _ _).trans ((ceilDiv_le_iff_le_mul (by decide)).mp le_rfl)
  refine bind_eq_ok.mpr ⟨r, hr, ?_⟩
  have hbound := hsupply a ha
  have hunits : r.toNat * 2 ^ 10 ≤ totalSupply flows prices a (List.range flows.length) * 2 ^ 10 :=
    Nat.mul_le_mul_right _ (hnat.trans_le (hle.trans hsum))
  simp only [pure, Except.pure, Except.ok.injEq, Bool.not_eq_true', decide_eq_false_iff_not,
    BitVec.not_lt, BitVec.le_def, toNat_fromIntegral, hrounded]
  exact (Nat.mod_le _ _).trans hunits

/-- If one of the two comparisons gives the rate of every asset, then the clearing of the flows
passes the check of the node that proposes it, and a header with it passes the validator's, as it
passes the check of its fee rate. -/
theorem clearingParams_clear (logTaxRate : FractionalAsset → FractionalAsset → UInt8)
    (flows : List FractionalAsset) (prices : List Price) (targetTax : UInt8)
    (htarget : 1 ≤ targetTax.toNat) (hprices : ∀ p ∈ prices, p.isValidPrice = true)
    (hflows : flows.length = getNumOrderbooksByAssetCount prices.length)
    (hsupply : ∀ a < prices.length,
      totalSupply flows prices a (List.range flows.length) * 2 ^ 10 < 2 ^ 128)
    (hcompared : ∀ totals, flowTotals flows prices = .ok totals → ∀ i < prices.length,
      ∃ rate, comparedTaxRate (totals.1.getD i default) (totals.2.getD i default) targetTax =
        .ok (some rate)) :
    ∃ params, clearingParams logTaxRate flows prices targetTax = .ok params ∧
      params.orderbookParams = flows ∧ params.checkClearing prices = .ok true ∧
      targetTax.toNat ≤ params.taxRate.toNat + 1 ∧
      ∀ (m : ManagementStructures) (next : HashedBlock), m.taxRate = targetTax →
        next.block.feeRate = params.taxRate.toUInt32 → next.block.prices = prices →
        next.block.internalHashes.clearingDetails.map SingleOrderbookStateCommitment.supplyActivated =
          flows →
        (ManagementStructures.commitmentChecker next).checkClearing = .ok true ∧
          ¬ next.block.feeRate + 1 < m.taxRate.toUInt32 := by
  obtain ⟨supplies, rounded, demands, hsolver, hcheck, hflow⟩ := totals_return hflows hprices
    (fun i hi => List.mem_range.mp hi) (List.replicate prices.length default)
    (List.replicate prices.length default) (List.replicate prices.length default)
  have hsums : ∀ a < prices.length, (supplies.getD a default).value.toNat =
      ((List.range flows.length).map (flowOf flows prices a)).sum % 2 ^ 128 := by
    intro a ha
    have hzero : (List.replicate prices.length (default : FractionalAsset)).getD a default = default := by
      simp [ha]
    have hsum := hflow a (by simpa using ha)
    rwa [hzero, show (default : FractionalAsset).value.toNat = 0 from rfl, Nat.zero_add] at hsum
  obtain ⟨output, houtput, -, hcompares, hcovers⟩ := outputTaxRate_spec logTaxRate htarget
    (fun i hi => hcompared (supplies, demands) hsolver i (List.mem_range.mp hi))
    ⟨.inl rfl, fun _ => rfl⟩
  have hnear : targetTax.toNat ≤ output.toNat + 1 := by
    have := hcompares.near
    omega
  have hclear : suppliesClear flows prices output = .ok true :=
    suppliesClear_of_flows hcheck hsums hsupply fun a ha => hcovers a (List.mem_range.mpr ha)
  refine ⟨⟨output, flows⟩, bind_eq_ok.mpr ⟨_, hsolver, bind_eq_ok.mpr ⟨output, houtput, rfl⟩⟩, rfl,
    hclear, hnear, fun m next htax hfee hnext hdetails => ⟨?_, ?_⟩⟩
  · rw [OrderbookStateCommitmentChecker.checkClearing, ManagementStructures.commitmentChecker, hdetails,
      hnext, hfee]
    show suppliesClear flows prices output.toUInt32.toUInt8 = .ok true
    rwa [UInt8.toUInt8_toUInt32]
  · rw [hfee, htax, UInt32.lt_iff_toNat_lt, UInt32.toNat_add]
    have hlt := output.toNat_lt
    simp only [UInt8.toNat_toUInt32]
    show ¬ (output.toNat + 1) % 2 ^ 32 < targetTax.toNat
    omega

open OrderbookManager (twoBooksParams unitPrices)

/-- Two orderbooks that trade with each other, one of them a fraction of a unit. -/
theorem clearingParams_clear_twoBooks :
    ∃ params, clearingParams (fun _ _ => 0) twoBooksParams.orderbookParams unitPrices 10 = .ok params ∧
      params.taxRate = 10 ∧ params.checkClearing unitPrices = .ok true ∧
      10 ≤ params.taxRate.toNat + 1 := by
  have hrates : returns (flowTotals twoBooksParams.orderbookParams unitPrices) (fun totals =>
      (List.range 2).all fun i => returns (comparedTaxRate (totals.1.getD i default)
        (totals.2.getD i default) 10) Option.isSome) = true := by decide +kernel
  have hrate : returns (clearingParams (fun _ _ => 0) twoBooksParams.orderbookParams unitPrices 10)
      (fun params => params.taxRate = 10) = true := by decide +kernel
  obtain ⟨totals, htotals, hall⟩ := returns_iff.mp hrates
  obtain ⟨params, hparams, hten⟩ := returns_iff.mp hrate
  obtain ⟨params', hparams', -, hclear, hnear, -⟩ := clearingParams_clear (fun _ _ => 0)
    twoBooksParams.orderbookParams unitPrices 10 (by decide)
    (fun p hp => by
      have hp : p = 2 ^ 24 := by simpa [unitPrices] using hp
      rw [hp, Price.isValidPrice_iff]
      decide)
    rfl (by decide +kernel)
    fun totals' htotals' i hi => by
      cases htotals.symm.trans htotals'
      obtain ⟨rate, hcompared, hsome⟩ := returns_iff.mp
        (List.all_eq_true.mp hall i (List.mem_range.mpr hi))
      obtain ⟨rate, rfl⟩ := Option.isSome_iff_exists.mp hsome
      exact ⟨rate, hcompared⟩
  cases hparams.symm.trans hparams'
  exact ⟨params, hparams, of_decide_eq_true hten, hclear, hnear⟩

end LpSolver

end Speedex
