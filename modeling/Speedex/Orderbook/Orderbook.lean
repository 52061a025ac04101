import Speedex.Orderbook.Clearing
import Speedex.Orderbook.Thunk

/-! One orderbook (`orderbook/orderbook.cc`): all offers that trade one asset for another.  Block
production commits new offers and clears a batch; validation commits and clears tentatively, and
then finalizes or rolls back. -/

namespace Speedex

open Lib

/-- `EndowAccumulator`: total endow, and endow times price. -/
structure EndowAccumulator where
  endow : Int64
  endowTimesPrice : BitVec 128
deriving DecidableEq

/-- `IndexedMetadata`: the offers up to a price. -/
structure IndexedMetadata where
  key : Price
  metadata : EndowAccumulator
deriving DecidableEq

structure Orderbook where
  category : OfferCategory
  /-- offers committed to the orderbook -/
  committedOffers : OrderbookTrie
  uncommittedOffers : OrderbookTrie
  lmdb : OrderbookLMDB
  indexedMetadata : List IndexedMetadata
deriving DecidableEq

namespace Orderbook

def addOffers (ob : Orderbook) (offers : OrderbookTrie) : Orderbook :=
  { ob with uncommittedOffers := ob.uncommittedOffers.mergeIn offers }

def markForDeletion (ob : Orderbook) (key : OfferKey) : Option Offer × Orderbook :=
  let (offer, t) := ob.committedOffers.markForDeletion key
  (offer, { ob with committedOffers := t })

def unmarkForDeletion (ob : Orderbook) (key : OfferKey) : Option Offer × Orderbook :=
  let (offer, t) := ob.committedOffers.unmarkForDeletion key
  (offer, { ob with committedOffers := t })

/-- `tentative_commit_for_validation`: merge the new offers in and remove the cancelled ones,
with a thunk that records both. -/
def tentativeCommitForValidation (ob : Orderbook) (currentBlockNumber : UInt64)
    (indeterminate : Bool) : Result Orderbook := do
  let (deletedKeys, kept) := ob.committedOffers.performMarkedDeletions
  let lmdb ← ob.lmdb.addNewThunk currentBlockNumber indeterminate fun thunk => { thunk with
    uncommittedOffersVec := ob.uncommittedOffers.accumulateValues
    deletedKeys := deletedKeys }
  return { ob with
    committedOffers := kept.mergeIn ob.uncommittedOffers
    uncommittedOffers := ∅
    lmdb := lmdb }

/-- The loop of `undo_thunk` over the block's new offers: mark each for deletion. -/
def markAll (t : OrderbookTrie) (offers : List Offer) : OrderbookTrie :=
  offers.foldl (fun t offer => (t.markForDeletion offer.key).2) t

/-- `undo_thunk`. -/
def undoThunk (committedOffers : OrderbookTrie) (thunk : OrderbookLMDBCommitmentThunk) :
    OrderbookTrie :=
  let t := thunk.deletedKeys.foldl (fun t kv => t.insertOffer kv.1 kv.2) committedOffers
  let t := t.mergeIn thunk.clearedOffers
  let t := (markAll t thunk.uncommittedOffersVec).performMarkedDeletions.2
  if thunk.existsPartialExec then
    t.insertOffer thunk.partialExecKey thunk.preexecutePartialExecOffer
  else t

def finalizeValidation (ob : Orderbook) : Result Orderbook :=
  if ob.uncommittedOffers ≠ ∅ then
    .error (.runtimeError
      "shouldn't have uncommitted_offers nonempty when calling finalize")
  else .ok { ob with committedOffers := ob.committedOffers.clearRollback }

/-- `rollback_validation`: undo the tentative commit and the tentative clearing. -/
def rollbackValidation (ob : Orderbook) : Result Orderbook := do
  let t := ob.committedOffers.doRollback
  let thunk ← ob.lmdb.getTopThunk
  let t := undoThunk t { thunk with uncommittedOffersVec := [] }
  let lmdb ← ob.lmdb.popTopThunk
  return { ob with committedOffers := t, uncommittedOffers := ∅, lmdb := lmdb }

/-- `EndowAccumulator` of the offers of one price. -/
def endowAtPrice (t : OrderbookTrie) (price : Nat) : EndowAccumulator :=
  let endow := OrderbookTrie.rootEndow (t.filter fun k _ => decide (readPriceBigEndian k = price))
  ⟨endow, .ofInt 128 (endow.toInt * price)⟩

/-- `metadata_traversal`: after an entry for price zero, one entry per price of the offers, with
the totals up to it. -/
def metadataTraversal (t : OrderbookTrie) : List IndexedMetadata :=
  let prices := (t.keys.map readPriceBigEndian).dedup
  let index := prices.foldl (fun (acc, out) price =>
      let here := endowAtPrice t price
      let acc : EndowAccumulator :=
        ⟨acc.endow + here.endow, acc.endowTimesPrice + here.endowTimesPrice⟩
      (acc, out ++ [⟨.ofNat price, acc⟩])) ((⟨0, 0⟩, []) : EndowAccumulator × List IndexedMetadata)
  ⟨0, ⟨0, 0⟩⟩ :: index.2

/-- `generate_metadata_index`. -/
def generateMetadataIndex (ob : Orderbook) : Orderbook :=
  { ob with indexedMetadata := metadataTraversal ob.committedOffers }

/-- `commit_for_production`. -/
def commitForProduction (ob : Orderbook) (currentBlockNumber : UInt64) (indeterminate : Bool) :
    Result Orderbook := do
  let ob ← ob.tentativeCommitForValidation currentBlockNumber indeterminate
  return ob.generateMetadataIndex

/-- The branch of `tentative_clear_offers_for_validation` without a partially executed offer: the
whole book clears. -/
def clearEverything (ob : Orderbook) (s : ClearingState) (activatedSupply : FractionalAsset)
    (localClearingLog : SingleOrderbookStateCommitment) (sellPrice buyPrice : Price)
    (taxRate : UInt8) : Result (Bool × Orderbook × ClearingState × FractionalAsset) :=
  if localClearingLog.partialExecThresholdKey ≠ .zero then .ok (false, ob, s, activatedSupply)
  else if localClearingLog.partialExecAmount ≠ .fromIntegral 0 then
    .ok (false, ob, s, activatedSupply)
  else do
    let activatedSupply :=
      activatedSupply + .fromIntegral (widenInt64 ob.committedOffers.rootEndow)
    let s ← applyClearing sellPrice buyPrice taxRate s ob.committedOffers.accumulateValues
    let lmdb ← ob.lmdb.modifyTopThunk fun thunk =>
      { thunk.setNoPartialExec with clearedOffers := ob.committedOffers }
    return (true, { ob with committedOffers := ∅, lmdb := lmdb }, s, activatedSupply)

/-- The branch of `tentative_clear_offers_for_validation` with a partially executed offer, which
has been taken out of the book. -/
def clearBelowPartial (ob : Orderbook) (s : ClearingState) (activatedSupply : FractionalAsset)
    (localClearingLog : SingleOrderbookStateCommitment)
    (clearingCommitmentLog : OrderbookStateCommitmentChecker) (endowBelow : Int64)
    (offer : Offer) (sellPrice buyPrice : Price) :
    Result (Bool × Orderbook × ClearingState × FractionalAsset) := do
  let key := localClearingLog.partialExecThresholdKey
  let s := { s with log := s.log.logSelfModification offer.owner offer.offerId }
  let restored := { ob with committedOffers := ob.committedOffers.insertOffer key offer }
  match s.db.lookupUser offer.owner with
  | none => return (false, restored, s, activatedSupply)
  | some idx =>
    let offerSellPrice ← vectorAt clearingCommitmentLog.prices offer.category.sellAsset.toNat
    let offerBuyPrice ← vectorAt clearingCommitmentLog.prices offer.category.buyAsset.toNat
    let (sellAmount, buyAmount, db) ← clearOfferPartial (s.db.transferAvailable idx) offer
      offerSellPrice offerBuyPrice clearingCommitmentLog.taxRate localClearingLog.partialExecAmount
    let s := { s with
      db := db
      executed := s.executed ++ [⟨offer, sellAmount.toUInt64, buyAmount⟩] }
    if sellAmount.toUInt64 > offer.amount then return (false, restored, s, activatedSupply)
    else
      let (cleared, rest) := ob.committedOffers.endowSplit endowBelow.toInt
      let lmdb ← ob.lmdb.modifyTopThunk fun thunk =>
        { thunk.setPartialExec key sellAmount offer with clearedOffers := cleared }
      let s ← applyClearing sellPrice buyPrice clearingCommitmentLog.taxRate s
        cleared.accumulateValues
      let offer := { offer with amount := offer.amount - sellAmount.toUInt64 }
      let rest := if offer.amount ≠ 0 then rest.insertOffer key offer else rest
      return (true, { ob with committedOffers := rest, lmdb := lmdb }, s, activatedSupply)

/-- `tentative_clear_offers_for_validation`.  `activatedSupply` is the orderbook's slot of the
validation statistics. -/
def tentativeClearOffersForValidation (ob : Orderbook) (s : ClearingState)
    (activatedSupply : FractionalAsset) (localClearingLog : SingleOrderbookStateCommitment)
    (clearingCommitmentLog : OrderbookStateCommitmentChecker) :
    Result (Bool × Orderbook × ClearingState × FractionalAsset) := do
  let key := localClearingLog.partialExecThresholdKey
  let endowBelow := ob.committedOffers.endowLtKey key
  let activatedSupply := activatedSupply + .fromIntegral (widenInt64 endowBelow)
  let sellPrice ← vectorAt clearingCommitmentLog.prices ob.category.sellAsset.toNat
  let buyPrice ← vectorAt clearingCommitmentLog.prices ob.category.buyAsset.toNat
  let (partialExecOffer, kept) := ob.committedOffers.performDeletion key
  let ob := { ob with committedOffers := kept }
  match partialExecOffer with
  | none =>
    ob.clearEverything s activatedSupply localClearingLog sellPrice buyPrice
      clearingCommitmentLog.taxRate
  | some offer =>
    ob.clearBelowPartial s activatedSupply localClearingLog clearingCommitmentLog endowBelow offer
      sellPrice buyPrice

/-- The end of `process_clear_offers`: execute the lowest remaining offer partially. -/
def processPartialExec (ob : Orderbook) (s : ClearingState) (key : OfferKey)
    (remainingToClear : FractionalAsset) (sellPrice buyPrice : Price) (taxRate : UInt8) :
    Result (Orderbook × ClearingState) :=
  let (tryDelete, kept) := ob.committedOffers.performDeletion key
  match tryDelete with
  | none => .error (.runtimeError "couldn't find partial exec offer!!!")
  | some offer =>
    let log := s.log.logSelfModification offer.owner offer.offerId
    match s.db.lookupUser offer.owner with
    | none => .error (.runtimeError "(partialexec) Offer in manager from nonexistent account")
    | some idx => do
      let (sellAmount, buyAmount, db) ← clearOfferPartial (s.db.transferAvailable idx) offer
        sellPrice buyPrice taxRate remainingToClear
      if offer.amount < sellAmount.toUInt64 then
        throw (.runtimeError "should not have been partially clearing this offer")
      else
        let lmdb ← ob.lmdb.modifyTopThunk fun thunk => thunk.setPartialExec key sellAmount offer
        let s := {
          db := db
          log := log
          executed := s.executed ++ [⟨offer, sellAmount.toUInt64, buyAmount⟩] }
        let offer := { offer with amount := offer.amount - sellAmount.toUInt64 }
        let kept := if offer.amount > 0 then kept.insertOffer key offer else kept
        return ({ ob with committedOffers := kept, lmdb := lmdb }, s)

/-- `process_clear_offers`.  Returns the commitment that production emits for the orderbook, up to
the root hash. -/
def processClearOffers (ob : Orderbook) (s : ClearingState) (supplyActivated : FractionalAsset)
    (prices : List Price) (taxRate : UInt8) :
    Result (Orderbook × ClearingState × SingleOrderbookStateCommitment) := do
  let clearAmount := supplyActivated.floor
  if clearAmount > 2 ^ 63 - 1 then
    throw (.runtimeError "trying to clear more than there should exist")
  else
    let (fullyCleared, rest) := ob.committedOffers.endowSplit clearAmount.toNat
    let sellPrice ← vectorAt prices ob.category.sellAsset.toNat
    let buyPrice ← vectorAt prices ob.category.buyAsset.toNat
    let s ← applyClearing sellPrice buyPrice taxRate s fullyCleared.accumulateValues
    let remainingToClear :=
      supplyActivated - .fromIntegral (widenInt64 fullyCleared.rootEndow)
    let lmdb ← ob.lmdb.modifyTopThunk fun thunk => { thunk with clearedOffers := fullyCleared }
    let ob := { ob with committedOffers := rest, lmdb := lmdb }
    match rest.getLowestKey with
    | none =>
      if remainingToClear ≠ .fromIntegral 0 then
        throw (.runtimeError
          "null partial_exec_key (lowest offer key) but remaining to clear is nonzero")
      else
        let lmdb ← ob.lmdb.modifyTopThunk OrderbookLMDBCommitmentThunk.setNoPartialExec
        return ({ ob with lmdb := lmdb }, s,
          ⟨0, supplyActivated.value, .zero, 1, remainingToClear.value⟩)
    | some key =>
      let (ob, s) ← ob.processPartialExec s key remainingToClear sellPrice buyPrice taxRate
      return (ob, s, ⟨0, supplyActivated.value, key, 0, remainingToClear.value⟩)

/-- `rollback_thunks`: undo the thunks numbered above `current_block_number`, oldest first. -/
def rollbackThunks (ob : Orderbook) (currentBlockNumber : UInt64) : Result Orderbook :=
  if currentBlockNumber < ob.lmdb.persistedRoundNumber then
    .error (.runtimeError "can't rollback persisted objects")
  else
    let undone := ob.lmdb.thunks.filter (·.currentBlockNumber > currentBlockNumber)
    .ok { ob with
      committedOffers := undone.foldl undoThunk ob.committedOffers
      lmdb := { ob.lmdb with
        thunks := ob.lmdb.thunks.filter (·.currentBlockNumber ≤ currentBlockNumber) } }

end Orderbook

end Speedex
