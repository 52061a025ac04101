import Speedex.Arithmetic
import Speedex.Lib.Except

/-! Orderbook indices (`orderbook/utils.h`), and the checks of a block header's clearing data
(`orderbook/commitment_checker.cc`, `orderbook/offer_clearing_params.cc`). -/

namespace Speedex

/-- An element of a vector. -/
def vectorAt {α : Type} (l : List α) (i : Nat) : Result α :=
  match l[i]? with
  | none => .error .indexOutOfRange
  | some a => .ok a

theorem vectorAt_eq_ok {α : Type} {l : List α} {i : Nat} {a : α} :
    vectorAt l i = .ok a ↔ l[i]? = some a := by
  unfold vectorAt
  split
  · rename_i h
    simp [h]
  · rename_i b h
    simp [h]

/-! ### Categories -/

/-- `category_to_idx`: an offer category as an orderbook index. -/
def categoryToIdx (id : OfferCategory) (assetCount : Nat) : Result Nat :=
  if id.sellAsset.toNat ≥ assetCount ∨ id.buyAsset.toNat ≥ assetCount then
    .error (.runtimeError "invalid asset number")
  else match id.type with
    | .invalid _ => .error (.runtimeError "invalid offer type")
    | .SELL => .ok (id.sellAsset.toNat * (assetCount - 1) +
        (id.buyAsset.toNat - if id.buyAsset > id.sellAsset then 1 else 0))

/-- `category_from_idx`. -/
def categoryFromIdx (idx assetCount : Nat) : OfferCategory :=
  let unitsPerOrderType := assetCount * (assetCount - 1)
  let remainder := idx % unitsPerOrderType
  let sellAsset := remainder / (assetCount - 1)
  let buyAsset := remainder % (assetCount - 1)
  { sellAsset := .ofNat sellAsset
    buyAsset := .ofNat (if buyAsset ≥ sellAsset then buyAsset + 1 else buyAsset)
    type := if idx / unitsPerOrderType = 0 then .SELL else .invalid (-1) }

/-- `validate_category_`. -/
def validateCategory (id : OfferCategory) (assetCount : Nat) : Bool :=
  id.sellAsset ≠ id.buyAsset && id.sellAsset.toNat < assetCount &&
    id.buyAsset.toNat < assetCount && id.type = .SELL

/-- `get_num_orderbooks_by_asset_count`. -/
def getNumOrderbooksByAssetCount (assetCount : Nat) : Nat := assetCount * (assetCount - 1)

/-! ### Clearing -/

/-- The loop over orderbooks of both `check_clearing`s: the supply and the demand that orderbook
`i` adds. -/
def addSupplyAndDemand (supplyActivated : List FractionalAsset) (prices : List Price)
    (totals : List FractionalAsset × List FractionalAsset) (i : Nat) :
    Result (List FractionalAsset × List FractionalAsset) := do
  let category := categoryFromIdx i prices.length
  let supply ← vectorAt supplyActivated i
  let sellPrice ← vectorAt prices category.sellAsset.toNat
  let buyPrice ← vectorAt prices category.buyAsset.toNat
  let demandedRaw ← Price.wideMultiplyValByAOverB supply.value sellPrice buyPrice
  return (totals.1.modify category.sellAsset.toNat (· + .fromIntegral supply.ceil),
    totals.2.modify category.buyAsset.toNat (· + .fromRaw demandedRaw))

/-- The supply of an asset covers the taxed demand for it. -/
def supplyCoversDemand (taxRate : UInt8) (totals : List FractionalAsset × List FractionalAsset)
    (i : Nat) : Result Bool := do
  let taxed ← (totals.2.getD i default).taxAndRound taxRate
  return !decide ((totals.1.getD i default).value < (FractionalAsset.fromIntegral taxed).value)

/-- Check that activated supplies clear at these prices. -/
def suppliesClear (supplyActivated : List FractionalAsset) (prices : List Price)
    (taxRate : UInt8) : Result Bool := do
  let zeros := List.replicate prices.length (default : FractionalAsset)
  let totals ← (List.range supplyActivated.length).foldlM
    (addSupplyAndDemand supplyActivated prices) (zeros, zeros)
  (List.range prices.length).allM (supplyCoversDemand taxRate totals)

structure ClearingParams where
  taxRate : UInt8
  /-- `supply_activated` of each orderbook -/
  orderbookParams : List FractionalAsset

/-- `ClearingParams::check_clearing`. -/
def ClearingParams.checkClearing (params : ClearingParams) (prices : List Price) : Result Bool :=
  suppliesClear params.orderbookParams prices params.taxRate

/-! ### The header's commitment -/

namespace SingleOrderbookStateCommitment

/-- `fractionalSupplyActivated()` of the checker. -/
def supplyActivated (c : SingleOrderbookStateCommitment) : FractionalAsset :=
  .fromRaw c.fractionalSupplyActivated

/-- `partialExecOfferActivationAmount()` of the checker. -/
def partialExecAmount (c : SingleOrderbookStateCommitment) : FractionalAsset :=
  .fromRaw c.partialExecOfferActivationAmount

/-- `check_threshold_key`: the flag says whether the key is empty. -/
def checkThresholdKey (c : SingleOrderbookStateCommitment) : Bool :=
  if c.partialExecThresholdKey ≠ .zero then c.thresholdKeyIsNull = 0 else c.thresholdKeyIsNull = 1

end SingleOrderbookStateCommitment

/-- `ValidationStatistics`: the activated supply of each orderbook. -/
abbrev ValidationStatistics := List FractionalAsset

namespace ValidationStatistics

/-- The supply of orderbook `i`; a slot that is not there yet is zero. -/
def get (stats : ValidationStatistics) (i : Nat) : FractionalAsset := stats.getD i default

def makeMinimumSize (stats : ValidationStatistics) (size : Nat) : ValidationStatistics :=
  if stats.length ≤ size then stats ++ List.replicate (size + 1 - stats.length) default else stats

/-- Add to the supply of orderbook `i`. -/
def addAt (stats : ValidationStatistics) (i : Nat) (supply : FractionalAsset) :
    ValidationStatistics :=
  (stats.makeMinimumSize i).modify i (· + supply)

/-- `operator+=`. -/
def add (stats other : ValidationStatistics) : ValidationStatistics :=
  (List.range (max stats.length other.length)).map fun i => stats.get i + other.get i

end ValidationStatistics

structure OrderbookStateCommitmentChecker where
  commitments : OrderbookStateCommitment
  prices : List Price
  taxRate : UInt8

namespace OrderbookStateCommitmentChecker

/-- `check_clearing`. -/
def checkClearing (c : OrderbookStateCommitmentChecker) : Result Bool :=
  suppliesClear (c.commitments.map SingleOrderbookStateCommitment.supplyActivated) c.prices
    c.taxRate

/-- `check_stats`: what was cleared and what is executed partially adds up to the supply that the
header activates. -/
def checkStats (c : OrderbookStateCommitmentChecker) (fullyClearedStats : ValidationStatistics) :
    Bool :=
  (List.range c.commitments.length).all fun i =>
    let commitment := c.commitments.getD i default
    fullyClearedStats.get i + commitment.partialExecAmount = commitment.supplyActivated &&
      commitment.checkThresholdKey

end OrderbookStateCommitmentChecker

end Speedex
