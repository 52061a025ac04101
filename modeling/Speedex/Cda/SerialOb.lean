import Speedex.Database.View
import Speedex.Orderbook.Trie

/-! One side of the serial double auction (`cda/serial_ob.cc`): a trie of resting offers, and the
loop that sells to them in the order of their limit prices.  The products of the source have 128
bits and stay below `2^128`. -/

namespace Speedex

open Lib

/-- `SerialOrderbook`. -/
structure SerialOrderbook where
  ob : OrderbookTrie
deriving DecidableEq

namespace SerialOrderbook

def new : SerialOrderbook := ⟨∅⟩

def addOffer (b : SerialOrderbook) (offer : Offer) : SerialOrderbook :=
  ⟨b.ob.insertOffer offer.key offer⟩

/-- The variables of `try_execute`, and the database under its view. -/
structure Execution where
  ob : OrderbookTrie
  db : MemoryDatabase
  view : BufferedMemoryDatabaseView
  remainingSell : UInt64
  boughtAmount : UInt64
  finalOffer : Offer

namespace Execution

/-- The body of the loop for an offer within the price limit. -/
def trade (s : Execution) (key : OfferKey) (offer : Offer) : Result Execution :=
  let maxSellConsumed := offer.minPrice.toNat * offer.amount.toNat
  let remainingSellConsumed := s.remainingSell.toNat <<< Price.radix
  let realizedSellConsumed := min maxSellConsumed remainingSellConsumed
  let amountOfferConsumed : UInt64 := .ofNat (realizedSellConsumed / offer.minPrice.toNat)
  let amountRemainingSellConsumed := Price.roundUpPriceTimesAmount realizedSellConsumed
  if offer.minPrice = 0 then .error .divisionByZero
  else if amountRemainingSellConsumed > s.remainingSell then
    .error (.runtimeError "sell amount mismatch")
  else
    let remainingSell := s.remainingSell - amountRemainingSellConsumed
    let boughtAmount := s.boughtAmount + amountOfferConsumed
    match s.view.lookupUser s.db offer.owner with
    | none => .error (.runtimeError "wtf")
    | some user =>
      let (_, db, view) := s.view.transferAvailable s.db user offer.category.buyAsset
        amountRemainingSellConsumed.toInt64
      let s := { s with db, view, remainingSell, boughtAmount }
      if amountOfferConsumed = offer.amount then
        .ok { s with ob := (s.ob.markForDeletion key).2 }
      else if amountOfferConsumed > offer.amount then
        .error (.runtimeError "invalid offer consume")
      else if remainingSell ≠ 0 then .error (.runtimeError "invalid partial exec")
      else .ok { s with finalOffer := { offer with amount := offer.amount - amountOfferConsumed } }

/-- The loop over the offers of the trie.  The marks that it makes on the way do not change the
offers ahead. -/
def loop (maxPrice : Price) (s : Execution) : List (OfferKey × OfferLeaf) → Result Execution
  | [] => .ok s
  | (key, leaf) :: rest =>
    if s.remainingSell = 0 then .ok s
    else if leaf.offer.minPrice ≤ maxPrice then do
      let s ← s.trade key leaf.offer
      loop maxPrice s rest
    else .ok s

/-- The trie after the loop: what is left of the last offer goes back under its key, and the other
offers that traded are removed. -/
def finish (s : Execution) : OrderbookTrie :=
  let ob := if s.finalOffer.amount ≠ 0 then s.ob.insertOffer s.finalOffer.key s.finalOffer
    else s.ob
  ob.performMarkedDeletions.2

end Execution

/-- What `try_execute` changes and returns. -/
structure Executed where
  book : SerialOrderbook
  db : MemoryDatabase
  view : BufferedMemoryDatabaseView
  sold : UInt64
  bought : UInt64

def tryExecute (b : SerialOrderbook) (maxPrice : Price) (sellAmount : UInt64) (db : MemoryDatabase)
    (view : BufferedMemoryDatabaseView) : Result Executed := do
  let s ← Execution.loop maxPrice ⟨b.ob, db, view, sellAmount, 0, default⟩ b.ob.entries
  return ⟨⟨s.finish⟩, s.db, s.view, sellAmount - s.remainingSell, s.boughtAmount⟩

end SerialOrderbook

end Speedex
