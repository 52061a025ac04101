import Speedex.Orderbook.Orderbook

/-! The orderbooks of all pairs of assets (`orderbook/orderbook_manager.cc`). -/

namespace Speedex

open Lib

structure OrderbookManager where
  orderbooks : List Orderbook
  numAssets : Nat
deriving DecidableEq

namespace OrderbookManager

/-- The constructor: an empty orderbook for each pair of assets. -/
def new (numAssets : Nat) : OrderbookManager where
  orderbooks := (List.range (getNumOrderbooksByAssetCount numAssets)).map fun i =>
    ⟨categoryFromIdx i numAssets, ∅, ∅, ⟨[], ∅, 0⟩, []⟩
  numAssets := numAssets

def getNumOrderbooks (m : OrderbookManager) : Nat := getNumOrderbooksByAssetCount m.numAssets

/-- `look_up_idx`. -/
def lookUpIdx (m : OrderbookManager) (id : OfferCategory) : Result Nat :=
  categoryToIdx id m.numAssets

/-- `f` at one orderbook. -/
def modifyBook (m : OrderbookManager) (idx : Nat) (f : Orderbook → Orderbook) : OrderbookManager :=
  { m with orderbooks := m.orderbooks.modify idx f }

def addOffers (m : OrderbookManager) (idx : Nat) (trie : OrderbookTrie) : Result OrderbookManager := do
  let _ ← vectorAt m.orderbooks idx
  return m.modifyBook idx (·.addOffers trie)

def markForDeletion (m : OrderbookManager) (idx : Nat) (key : OfferKey) :
    Result (Option Offer × OrderbookManager) := do
  let ob ← vectorAt m.orderbooks idx
  return ((ob.markForDeletion key).1, m.modifyBook idx fun ob => (ob.markForDeletion key).2)

def unmarkForDeletion (m : OrderbookManager) (idx : Nat) (key : OfferKey) :
    Result OrderbookManager := do
  let _ ← vectorAt m.orderbooks idx
  return m.modifyBook idx fun ob => (ob.unmarkForDeletion key).2

/-- The loop of `clear_offers_for_production` over the orderbooks from number `i` on.  Each works on
its own offers, and their credits can be given in any order. -/
def clearBooksForProduction (params : ClearingParams) (prices : List Price) :
    Nat → List Orderbook → ClearingState →
      Result (List Orderbook × ClearingState × OrderbookStateCommitment)
  | _, [], s => .ok ([], s, [])
  | i, ob :: obs, s => do
    let supplyActivated ← vectorAt params.orderbookParams i
    let (ob, s, commitment) ← ob.processClearOffers s supplyActivated prices params.taxRate
    let (obs, s, clearingDetails) ← clearBooksForProduction params prices (i + 1) obs s
    return (ob :: obs, s, commitment :: clearingDetails)

/-- `clear_offers_for_production`. -/
def clearOffersForProduction (m : OrderbookManager) (s : ClearingState) (params : ClearingParams)
    (prices : List Price) : Result (OrderbookManager × ClearingState × OrderbookStateCommitment) :=
  do
  let (orderbooks, s, clearingDetails) ← clearBooksForProduction params prices 0 m.orderbooks s
  return ({ m with orderbooks := orderbooks }, s, clearingDetails)

/-- `generic_map`.  The flags are what the memory of each orderbook's thunk happens to hold. -/
def genericMap (m : OrderbookManager) (f : Nat → Orderbook → Result Orderbook) :
    Result OrderbookManager := do
  let orderbooks ← m.orderbooks.zipIdx.mapM fun a => f a.2 a.1
  return { m with orderbooks := orderbooks }

theorem getElem?_of_genericMap {m m' : OrderbookManager} {f : Nat → Orderbook → Result Orderbook}
    (h : m.genericMap f = .ok m') {i : Nat} {ob : Orderbook} (hob : m.orderbooks[i]? = some ob) :
    ∃ ob', m'.orderbooks[i]? = some ob' ∧ f i ob = .ok ob' := by
  obtain ⟨orderbooks, hmap, h⟩ := bind_eq_ok.mp h
  cases h
  exact getElem?_of_mapM hmap (a := (ob, i)) (by simp [hob])

theorem length_of_genericMap {m m' : OrderbookManager} {f : Nat → Orderbook → Result Orderbook}
    (h : m.genericMap f = .ok m') : m'.orderbooks.length = m.orderbooks.length := by
  obtain ⟨orderbooks, hmap, h⟩ := bind_eq_ok.mp h
  cases h
  simpa using length_of_mapM hmap

theorem genericMap_returns {m : OrderbookManager} {f : Nat → Orderbook → Result Orderbook}
    (h : ∀ ob ∈ m.orderbooks, ∀ i, ∃ ob', f i ob = .ok ob') : ∃ m', m.genericMap f = .ok m' := by
  apply bind_returns (exists_mapM fun a ha => ?_) fun orderbooks _ => ⟨_, rfl⟩
  exact h a.1 (List.mem_of_getElem? (List.mem_zipIdx_iff_getElem?.mp ha)) a.2

/-- `commit_for_validation`. -/
def commitForValidation (m : OrderbookManager) (currentBlockNumber : UInt64)
    (indeterminate : Nat → Bool) : Result OrderbookManager :=
  m.genericMap fun i ob => ob.tentativeCommitForValidation currentBlockNumber (indeterminate i)

/-- `finalize_validation`. -/
def finalizeValidation (m : OrderbookManager) : Result OrderbookManager :=
  m.genericMap fun _ ob => ob.finalizeValidation

/-- `rollback_validation`. -/
def rollbackValidation (m : OrderbookManager) : Result OrderbookManager :=
  m.genericMap fun _ ob => ob.rollbackValidation

end OrderbookManager

/-! ### Clearing in validation -/

/-- What `TentativeClearOffersForValidationData` changes. -/
structure TentativeClearing where
  orderbooks : List Orderbook
  state : ClearingState
  stats : ValidationStatistics

namespace TentativeClearing

/-- One orderbook. -/
def clearBook (checker : OrderbookStateCommitmentChecker) (c : TentativeClearing) (i : Nat) :
    Result (Bool × TentativeClearing) := do
  let ob ← vectorAt c.orderbooks i
  let commitment ← vectorAt checker.commitments i
  let (res, ob, state, activatedSupply) ←
    ob.tentativeClearOffersForValidation c.state (c.stats.get i) commitment checker
  return (res, ⟨c.orderbooks.set i ob, state, c.stats.set i activatedSupply⟩)

/-- A range of orderbooks, up to the first that fails. -/
def clearRange (checker : OrderbookStateCommitmentChecker) :
    List Nat → TentativeClearing → Result (Bool × TentativeClearing)
  | [], c => .ok (true, c)
  | i :: range, c => do
    let (res, c) ← c.clearBook checker i
    if !res then return (false, c)
    else clearRange checker range c

/-- All ranges, whether they fail or not. -/
def clearRanges (checker : OrderbookStateCommitmentChecker) (c : TentativeClearing)
    (ranges : List (List Nat)) : Result (Bool × TentativeClearing) :=
  ranges.foldlM (fun acc range => do
    let (res, c) ← clearRange checker range acc.2
    return (acc.1 && res, c)) (true, c)

end TentativeClearing

/-- `tentative_clear_offers_for_validation`.  The ranges are how the orderbooks are split among the
workers. -/
def OrderbookManager.tentativeClearOffersForValidation (m : OrderbookManager) (state : ClearingState)
    (stats : ValidationStatistics) (checker : OrderbookStateCommitmentChecker)
    (ranges : List (List Nat)) : Result (Bool × TentativeClearing) :=
  TentativeClearing.clearRanges checker ⟨m.orderbooks, state, stats.makeMinimumSize m.orderbooks.length⟩
    ranges

end Speedex
