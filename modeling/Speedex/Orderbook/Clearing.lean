import Speedex.Modlog
import Speedex.Orderbook.Checker

/-! The clearing of offers (`orderbook/offer_clearing_logic.h`, and `CompleteClearingFunc` of
`orderbook/orderbook.cc`). -/

namespace Speedex

open Lib

/-- What a full clear credits in the bought asset. -/
def fullBuyAmount (offer : Offer) (sellPrice buyPrice : Price) (taxRate : UInt8) :
    Result Int64 := do
  let amount := FractionalAsset.fromIntegral (widenUInt64 offer.amount)
  let raw ← Price.wideMultiplyValByAOverB amount.value sellPrice buyPrice
  let buyAmount ← (FractionalAsset.fromRaw raw).taxAndRound taxRate
  return narrowToInt64 buyAmount

/-- `clear_offer_full`, for any database that can credit the owner.  Returns the credit. -/
def clearOfferFull {D : Type} (transferAvailable : AssetID → Int64 → D) (offer : Offer)
    (sellPrice buyPrice : Price) (taxRate : UInt8) : Result (Int64 × D) := do
  let buyAmount ← fullBuyAmount offer sellPrice buyPrice taxRate
  return (buyAmount, transferAvailable offer.category.buyAsset buyAmount)

/-- What a partial clear credits in the bought asset. -/
def partialBuyAmount (remainingToClear : FractionalAsset) (sellPrice buyPrice : Price)
    (taxRate : UInt8) : Result Int64 := do
  let raw ← Price.wideMultiplyValByAOverB remainingToClear.value sellPrice buyPrice
  let buyAmount ← (FractionalAsset.fromRaw raw).taxAndRound taxRate
  return narrowToInt64 buyAmount

/-- `clear_offer_partial`.  Returns the amount to deduct from the offer and the credit. -/
def clearOfferPartial {D : Type} (transferAvailable : AssetID → Int64 → D) (offer : Offer)
    (sellPrice buyPrice : Price) (taxRate : UInt8) (remainingToClear : FractionalAsset) :
    Result (Int64 × Int64 × D) := do
  let outBuyAmount ← partialBuyAmount remainingToClear sellPrice buyPrice taxRate
  let outSellAmount := narrowToInt64 remainingToClear.ceil
  return (outSellAmount, outBuyAmount, transferAvailable offer.category.buyAsset outBuyAmount)

/-- An execution: the offer as it was, what is taken from it and what its owner is credited. -/
structure Execution where
  offer : Offer
  sellAmount : UInt64
  buyAmount : Int64
deriving DecidableEq

/-- What clearing changes outside the orderbook: the accounts and the log.  `executed` lists the
executions, which the source does not record. -/
structure ClearingState where
  db : MemoryDatabase
  log : ModificationTrie
  executed : List Execution

/-- `CompleteClearingFunc`: clear one offer fully. -/
def completeClearing (sellPrice buyPrice : Price) (taxRate : UInt8) (s : ClearingState)
    (offer : Offer) : Result ClearingState :=
  if Price.aOverBLtC sellPrice buyPrice offer.minPrice then
    .error (.runtimeError "Trying to clear an offer with bad price")
  else if offer.amount = 0 then .error (.runtimeError "offer amount was 0!")
  else match s.db.lookupUser offer.owner with
    | none => .error (.runtimeError "Offer in manager from nonexistent account")
    | some idx => do
      let (buyAmount, db) ←
        clearOfferFull (s.db.transferAvailable idx) offer sellPrice buyPrice taxRate
      return {
        db := db
        log := s.log.logSelfModification offer.owner offer.offerId
        executed := s.executed ++ [⟨offer, offer.amount, buyAmount⟩] }

/-- `apply` of `CompleteClearingFunc` to the offers of a trie. -/
def applyClearing (sellPrice buyPrice : Price) (taxRate : UInt8) (s : ClearingState)
    (offers : List Offer) : Result ClearingState :=
  offers.foldlM (completeClearing sellPrice buyPrice taxRate) s

/-- What clearing one offer does, when it returns. -/
theorem completeClearing_eq_ok {sellPrice buyPrice : Price} {taxRate : UInt8}
    {s s' : ClearingState} {offer : Offer} :
    completeClearing sellPrice buyPrice taxRate s offer = .ok s' ↔
      Price.aOverBLtC sellPrice buyPrice offer.minPrice = false ∧ offer.amount ≠ 0 ∧
      ∃ idx buyAmount, s.db.lookupUser offer.owner = some idx ∧
        fullBuyAmount offer sellPrice buyPrice taxRate = .ok buyAmount ∧
        s' = { db := s.db.transferAvailable idx offer.category.buyAsset buyAmount
               log := s.log.logSelfModification offer.owner offer.offerId
               executed := s.executed ++ [⟨offer, offer.amount, buyAmount⟩] } := by
  rw [completeClearing]
  by_cases hprice : Price.aOverBLtC sellPrice buyPrice offer.minPrice = true
  · simp [hprice]
  rw [if_neg hprice]
  by_cases hamount : offer.amount = 0
  · simp [hamount]
  rw [if_neg hamount]
  cases huser : s.db.lookupUser offer.owner with
  | none => simp
  | some idx =>
    cases hbuy : fullBuyAmount offer sellPrice buyPrice taxRate with
    | error e => simp [clearOfferFull, hbuy]
    | ok b =>
      simp only [clearOfferFull, hbuy, ok_bind, pure, Except.pure, Except.ok.injEq]
      constructor
      · rintro rfl
        exact ⟨by simpa using hprice, hamount, idx, b, rfl, rfl, rfl⟩
      · rintro ⟨-, -, idx', b', hidx, hb, rfl⟩
        cases hidx
        cases hb
        rfl

theorem partialBuyAmount_returns (amount : FractionalAsset) {sellPrice buyPrice : Price}
    (taxRate : UInt8) (hbuy : buyPrice ≠ 0) :
    ∃ b, partialBuyAmount amount sellPrice buyPrice taxRate = .ok b := by
  rw [partialBuyAmount, Price.wideMultiplyValByAOverB, if_neg hbuy]
  exact ⟨_, rfl⟩

theorem fullBuyAmount_returns (offer : Offer) {sellPrice buyPrice : Price} (taxRate : UInt8)
    (hbuy : buyPrice ≠ 0) : ∃ b, fullBuyAmount offer sellPrice buyPrice taxRate = .ok b :=
  partialBuyAmount_returns (.fromIntegral (widenUInt64 offer.amount)) taxRate hbuy

end Speedex
