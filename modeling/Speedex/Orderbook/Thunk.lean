import Speedex.Orderbook.Trie
import Speedex.Lib.Except

/-! The thunks of an orderbook (`orderbook/thunk.h`): what a block changed, kept until it is
persisted, and the list of them that `OrderbookLMDB` holds next to the offers on disk. -/

namespace Speedex

open Lib

structure OrderbookLMDBCommitmentThunk where
  /-- key of the offer that partially executes, if it exists, and all ones otherwise -/
  partialExecKey : OfferKey
  partialExecAmount : Int64
  preexecutePartialExecOffer : Offer
  uncommittedOffersVec : List Offer
  /-- used only for the rollback -/
  clearedOffers : OrderbookTrie
  deletedKeys : List (OfferKey × Offer)
  existsPartialExec : Bool
  currentBlockNumber : UInt64
deriving DecidableEq

namespace OrderbookLMDBCommitmentThunk

/-- The constructor leaves `exists_partial_exec` as the memory has it. -/
def new (currentBlockNumber : UInt64) (indeterminate : Bool) : OrderbookLMDBCommitmentThunk where
  partialExecKey := .zero
  partialExecAmount := -1
  preexecutePartialExecOffer := default
  uncommittedOffersVec := []
  clearedOffers := ∅
  deletedKeys := []
  existsPartialExec := indeterminate
  currentBlockNumber := currentBlockNumber

def setNoPartialExec (thunk : OrderbookLMDBCommitmentThunk) : OrderbookLMDBCommitmentThunk :=
  { thunk with existsPartialExec := false, partialExecKey := .max }

def setPartialExec (thunk : OrderbookLMDBCommitmentThunk) (buf : OfferKey) (amount : Int64)
    (offer : Offer) : OrderbookLMDBCommitmentThunk :=
  { thunk with
    partialExecKey := buf
    partialExecAmount := amount
    preexecutePartialExecOffer := offer
    existsPartialExec := true }

end OrderbookLMDBCommitmentThunk

/-- `OrderbookLMDB`: the thunks in memory, and the offers and the round number on disk. -/
structure OrderbookLMDB where
  thunks : List OrderbookLMDBCommitmentThunk
  data : SortedMap OfferKey Offer
  persistedRoundNumber : UInt64
deriving DecidableEq

namespace OrderbookLMDB

/-- `add_new_thunk_nolock`, with the thunk filled in by `fill`. -/
def addNewThunk (lmdb : OrderbookLMDB) (currentBlockNumber : UInt64) (indeterminate : Bool)
    (fill : OrderbookLMDBCommitmentThunk → OrderbookLMDBCommitmentThunk) : Result OrderbookLMDB :=
  if lmdb.thunks.getLast?.any fun thunk => thunk.currentBlockNumber + 1 > currentBlockNumber then
    .error (.runtimeError "thunks in the wrong order!")
  else .ok { lmdb with
    thunks := lmdb.thunks ++ [fill (.new currentBlockNumber indeterminate)] }

/-- `get_top_thunk_nolock`. -/
def getTopThunk (lmdb : OrderbookLMDB) : Result OrderbookLMDBCommitmentThunk :=
  match lmdb.thunks.getLast? with
  | none => .error (.runtimeError "can't get top thunk when thunks.size() == 0")
  | some thunk => .ok thunk

/-- A change to the thunk that `get_top_thunk_nolock` refers to. -/
def modifyTopThunk (lmdb : OrderbookLMDB)
    (f : OrderbookLMDBCommitmentThunk → OrderbookLMDBCommitmentThunk) : Result OrderbookLMDB := do
  let thunk ← lmdb.getTopThunk
  return { lmdb with thunks := lmdb.thunks.dropLast ++ [f thunk] }

/-- `pop_top_thunk_nolock`. -/
def popTopThunk (lmdb : OrderbookLMDB) : Result OrderbookLMDB :=
  if lmdb.thunks = [] then .error (.runtimeError "can't pop_back from empty thunks list")
  else .ok { lmdb with thunks := lmdb.thunks.dropLast }

/-- A list of thunks with a last one. -/
theorem modifyTopThunk_append (lmdb : OrderbookLMDB) (ts : List OrderbookLMDBCommitmentThunk)
    (t : OrderbookLMDBCommitmentThunk)
    (f : OrderbookLMDBCommitmentThunk → OrderbookLMDBCommitmentThunk)
    (h : lmdb.thunks = ts ++ [t]) :
    lmdb.modifyTopThunk f = .ok { lmdb with thunks := ts ++ [f t] } := by
  simp [modifyTopThunk, getTopThunk, h]

end OrderbookLMDB

end Speedex
