import Speedex.Orderbook.Orderbook

/-! What the steps of an orderbook can do: one case for each way that a tentative commit, a
tentative clearing and a production clearing return. -/

namespace Speedex

open Lib

namespace OrderbookLMDB

theorem addNewThunk_eq_ok {lmdb lmdb' : OrderbookLMDB} {n : UInt64} {b : Bool}
    {fill : OrderbookLMDBCommitmentThunk → OrderbookLMDBCommitmentThunk}
    (h : lmdb.addNewThunk n b fill = .ok lmdb') :
    lmdb' = { lmdb with thunks := lmdb.thunks ++ [fill (.new n b)] } := by
  rw [addNewThunk] at h
  split at h
  · cases h
  · exact (Except.ok.inj h).symm

end OrderbookLMDB

namespace Orderbook

/-- The offers of the book once its cancelled offers are removed and its new ones merged in. -/
def merged (ob : Orderbook) : OrderbookTrie :=
  ob.committedOffers.performMarkedDeletions.2.mergeIn ob.uncommittedOffers

/-- The thunk that a tentative commit adds. -/
def commitThunk (ob : Orderbook) (currentBlockNumber : UInt64) (indeterminate : Bool) :
    OrderbookLMDBCommitmentThunk :=
  { OrderbookLMDBCommitmentThunk.new currentBlockNumber indeterminate with
    uncommittedOffersVec := ob.uncommittedOffers.accumulateValues
    deletedKeys := ob.committedOffers.performMarkedDeletions.1 }

theorem tentativeCommitForValidation_eq_ok {ob ob' : Orderbook} {n : UInt64} {b : Bool}
    (h : ob.tentativeCommitForValidation n b = .ok ob') :
    ob' = { ob with
      committedOffers := ob.merged
      uncommittedOffers := ∅
      lmdb := { ob.lmdb with thunks := ob.lmdb.thunks ++ [ob.commitThunk n b] } } := by
  obtain ⟨lmdb, hlmdb, h⟩ := bind_eq_ok.mp h
  rw [OrderbookLMDB.addNewThunk_eq_ok hlmdb] at h
  exact (Except.ok.inj h).symm

/-- Blocks are committed in the order of their numbers. -/
theorem tentativeCommitForValidation_returns {ob : Orderbook} {n : UInt64} (b : Bool)
    (h : ∀ thunk ∈ ob.lmdb.thunks, thunk.currentBlockNumber < n) :
    ∃ ob', ob.tentativeCommitForValidation n b = .ok ob' := by
  refine bind_returns ?_ fun lmdb _ => ⟨_, rfl⟩
  refine ⟨_, if_neg ?_⟩
  rw [Option.any_eq_true]
  rintro ⟨thunk, hlast, hlate⟩
  have hbefore := UInt64.lt_iff_toNat_lt.mp (h thunk (List.mem_of_getLast? hlast))
  have hafter := UInt64.lt_iff_toNat_lt.mp (of_decide_eq_true hlate)
  have hbound := n.toNat_lt
  rw [UInt64.toNat_add, UInt64.toNat_one] at hafter
  omega

variable {ob ob' : Orderbook} {s s' : ClearingState} {supply supply' : FractionalAsset}
  {c : SingleOrderbookStateCommitment} {checker : OrderbookStateCommitmentChecker} {r : Bool}

/-- The supply counted before the partially executed offer is looked for. -/
def supplyBelow (t : OrderbookTrie) (supply : FractionalAsset) (key : OfferKey) :
    FractionalAsset :=
  supply + .fromIntegral (widenInt64 (t.endowLtKey key))

/-- What is taken from the partially executed offer. -/
def partialSellAmount (c : SingleOrderbookStateCommitment) : Int64 :=
  narrowToInt64 c.partialExecAmount.ceil

/-- The offers that clear fully when the one at the threshold key executes partially, and those
that stay. -/
def splitBelow (t : OrderbookTrie) (key : OfferKey) : OrderbookTrie × OrderbookTrie :=
  OrderbookTrie.endowSplit (t.erase key) (t.endowLtKey key).toInt

/-- An offer with an amount taken from it. -/
def reduced (offer : Offer) (sellAmount : UInt64) : Offer :=
  { offer with amount := offer.amount - sellAmount }

/-- The book with the offer under `key` taken out and inserted again. -/
def putBack (ob : Orderbook) (key : OfferKey) (offer : Offer) : Orderbook :=
  { ob with committedOffers :=
      OrderbookTrie.insertOffer (ob.committedOffers.erase key) key offer }

/-- The ways `tentative_clear_offers_for_validation` returns: what it answers, and the orderbook,
the accounts and log, and the statistics that it leaves. -/
inductive TentativeClear (ob : Orderbook) (s : ClearingState) (supply : FractionalAsset)
    (c : SingleOrderbookStateCommitment) (checker : OrderbookStateCommitmentChecker) :
    Bool → Orderbook → ClearingState → FractionalAsset → Prop where
  /-- no offer under the threshold key, and the header says that there is one -/
  | badHeader (hfind : ob.committedOffers.find? c.partialExecThresholdKey = none)
      (hbad : c.partialExecThresholdKey ≠ .zero ∨ c.partialExecAmount ≠ .fromIntegral 0) :
      TentativeClear ob s supply c checker false ob s
        (supplyBelow ob.committedOffers supply c.partialExecThresholdKey)
  /-- no partially executed offer: the whole book clears -/
  | everything {s' : ClearingState} {lmdb : OrderbookLMDB} {sellPrice buyPrice : Price}
      (hfind : ob.committedOffers.find? c.partialExecThresholdKey = none)
      (hkey : c.partialExecThresholdKey = .zero) (hamount : c.partialExecAmount = .fromIntegral 0)
      (hsell : vectorAt checker.prices ob.category.sellAsset.toNat = .ok sellPrice)
      (hbuy : vectorAt checker.prices ob.category.buyAsset.toNat = .ok buyPrice)
      (hclear : applyClearing sellPrice buyPrice checker.taxRate s
        ob.committedOffers.accumulateValues = .ok s')
      (hlmdb : ob.lmdb.modifyTopThunk (fun thunk =>
        { thunk.setNoPartialExec with clearedOffers := ob.committedOffers }) = .ok lmdb) :
      TentativeClear ob s supply c checker true
        { ob with committedOffers := ∅, lmdb := lmdb } s'
        (supplyBelow ob.committedOffers supply c.partialExecThresholdKey +
          .fromIntegral (widenInt64 ob.committedOffers.rootEndow))
  /-- the owner of the partially executed offer has no account -/
  | noOwner {leaf : OfferLeaf}
      (hfind : ob.committedOffers.find? c.partialExecThresholdKey = some leaf)
      (huser : s.db.lookupUser leaf.offer.owner = none) :
      TentativeClear ob s supply c checker false
        (ob.putBack c.partialExecThresholdKey leaf.offer)
        { s with log := s.log.logSelfModification leaf.offer.owner leaf.offer.offerId }
        (supplyBelow ob.committedOffers supply c.partialExecThresholdKey)
  /-- the partially executed offer has less than what is to be taken from it -/
  | tooMuch {leaf : OfferLeaf} {idx : Nat} {buyAmount : Int64} {offerSellPrice offerBuyPrice : Price}
      (hfind : ob.committedOffers.find? c.partialExecThresholdKey = some leaf)
      (huser : s.db.lookupUser leaf.offer.owner = some idx)
      (hsell : vectorAt checker.prices leaf.offer.category.sellAsset.toNat = .ok offerSellPrice)
      (hbuy : vectorAt checker.prices leaf.offer.category.buyAsset.toNat = .ok offerBuyPrice)
      (hcredit : partialBuyAmount c.partialExecAmount offerSellPrice offerBuyPrice checker.taxRate =
        .ok buyAmount)
      (hover : (partialSellAmount c).toUInt64 > leaf.offer.amount) :
      TentativeClear ob s supply c checker false
        (ob.putBack c.partialExecThresholdKey leaf.offer)
        { db := s.db.transferAvailable idx leaf.offer.category.buyAsset buyAmount
          log := s.log.logSelfModification leaf.offer.owner leaf.offer.offerId
          executed := s.executed ++
            [⟨leaf.offer, (partialSellAmount c).toUInt64, buyAmount⟩] }
        (supplyBelow ob.committedOffers supply c.partialExecThresholdKey)
  /-- the offer under the threshold key executes partially and what is below it clears -/
  | belowPartial {leaf : OfferLeaf} {idx : Nat} {buyAmount : Int64} {s' : ClearingState}
      {lmdb : OrderbookLMDB} {sellPrice buyPrice offerSellPrice offerBuyPrice : Price}
      (hfind : ob.committedOffers.find? c.partialExecThresholdKey = some leaf)
      (huser : s.db.lookupUser leaf.offer.owner = some idx)
      (hsell : vectorAt checker.prices ob.category.sellAsset.toNat = .ok sellPrice)
      (hbuy : vectorAt checker.prices ob.category.buyAsset.toNat = .ok buyPrice)
      (hoffsell : vectorAt checker.prices leaf.offer.category.sellAsset.toNat = .ok offerSellPrice)
      (hoffbuy : vectorAt checker.prices leaf.offer.category.buyAsset.toNat = .ok offerBuyPrice)
      (hcredit : partialBuyAmount c.partialExecAmount offerSellPrice offerBuyPrice checker.taxRate =
        .ok buyAmount)
      (hamount : (partialSellAmount c).toUInt64 ≤ leaf.offer.amount)
      (hlmdb : ob.lmdb.modifyTopThunk (fun thunk =>
        { thunk.setPartialExec c.partialExecThresholdKey (partialSellAmount c) leaf.offer with
          clearedOffers := (splitBelow ob.committedOffers c.partialExecThresholdKey).1 }) = .ok lmdb)
      (hclear : applyClearing sellPrice buyPrice checker.taxRate
        { db := s.db.transferAvailable idx leaf.offer.category.buyAsset buyAmount
          log := s.log.logSelfModification leaf.offer.owner leaf.offer.offerId
          executed := s.executed ++ [⟨leaf.offer, (partialSellAmount c).toUInt64, buyAmount⟩] }
        (splitBelow ob.committedOffers c.partialExecThresholdKey).1.accumulateValues = .ok s') :
      TentativeClear ob s supply c checker true
        { ob with
          committedOffers :=
            if (reduced leaf.offer (partialSellAmount c).toUInt64).amount ≠ 0 then
              (splitBelow ob.committedOffers c.partialExecThresholdKey).2.insertOffer c.partialExecThresholdKey
                (reduced leaf.offer (partialSellAmount c).toUInt64)
            else (splitBelow ob.committedOffers c.partialExecThresholdKey).2
          lmdb := lmdb }
        s' (supplyBelow ob.committedOffers supply c.partialExecThresholdKey)

theorem erase_of_find?_none {K V : Type} [LinearOrder K] {m : SortedMap K V} {k : K}
    (h : m.find? k = none) : m.erase k = m := by
  refine SortedMap.ext_find fun k' => ?_
  rw [SortedMap.find?_erase]
  split
  · rename_i hk
    rw [← hk, h]
  · rfl

theorem clearEverything_cases {sellPrice buyPrice : Price}
    (hfind : ob.committedOffers.find? c.partialExecThresholdKey = none)
    (hsell : vectorAt checker.prices ob.category.sellAsset.toNat = .ok sellPrice)
    (hbuy : vectorAt checker.prices ob.category.buyAsset.toNat = .ok buyPrice)
    (h : ob.clearEverything s (supplyBelow ob.committedOffers supply c.partialExecThresholdKey) c sellPrice buyPrice
      checker.taxRate = .ok (r, ob', s', supply')) :
    TentativeClear ob s supply c checker r ob' s' supply' := by
  rw [clearEverything] at h
  split at h
  · rename_i hkey
    cases h
    exact .badHeader hfind (.inl hkey)
  rename_i hkey
  split at h
  · rename_i hamount
    cases h
    exact .badHeader hfind (.inr hamount)
  rename_i hamount
  obtain ⟨s₁, hclear, h⟩ := bind_eq_ok.mp h
  obtain ⟨lmdb, hlmdb, h⟩ := bind_eq_ok.mp h
  cases h
  exact .everything hfind (not_not.mp hkey) (not_not.mp hamount) hsell hbuy hclear hlmdb

/-- Every return of `tentative_clear_offers_for_validation` is one of the five cases. -/
theorem tentativeClear_cases
    (h : ob.tentativeClearOffersForValidation s supply c checker = .ok (r, ob', s', supply')) :
    TentativeClear ob s supply c checker r ob' s' supply' := by
  obtain ⟨sellPrice, hsell, h⟩ := bind_eq_ok.mp h
  obtain ⟨buyPrice, hbuy, h⟩ := bind_eq_ok.mp h
  simp only [OrderbookTrie.performDeletion] at h
  cases hfind : ob.committedOffers.find? c.partialExecThresholdKey with
  | none =>
    rw [hfind, erase_of_find?_none hfind] at h
    exact clearEverything_cases hfind hsell hbuy h
  | some leaf =>
    rw [hfind] at h
    simp only [Option.map_some, clearBelowPartial] at h
    split at h
    · rename_i huser
      cases h
      exact .noOwner hfind huser
    · rename_i idx huser
      obtain ⟨offerSellPrice, hoffsell, h⟩ := bind_eq_ok.mp h
      obtain ⟨offerBuyPrice, hoffbuy, h⟩ := bind_eq_ok.mp h
      obtain ⟨⟨sellAmount, buyAmount, db⟩, hpartial, h⟩ := bind_eq_ok.mp h
      obtain ⟨buyAmount', hcredit, hpartial⟩ := bind_eq_ok.mp hpartial
      cases hpartial
      simp only at h
      split at h
      · rename_i hover
        cases h
        exact .tooMuch hfind huser hoffsell hoffbuy hcredit hover
      · rename_i hamount
        obtain ⟨lmdb, hlmdb, h⟩ := bind_eq_ok.mp h
        obtain ⟨s₁, hclear, h⟩ := bind_eq_ok.mp h
        cases h
        exact .belowPartial hfind huser hsell hbuy hoffsell hoffbuy hcredit
          (not_lt.mp hamount) hlmdb hclear

/-! ### Production -/

/-- The offers that production clears fully, and those that stay. -/
def splitAmount (t : OrderbookTrie) (supplyActivated : FractionalAsset) :
    OrderbookTrie × OrderbookTrie :=
  t.endowSplit supplyActivated.floor.toNat

/-- What production has left to clear from the lowest remaining offer. -/
def remainingToClear (t : OrderbookTrie) (supplyActivated : FractionalAsset) : FractionalAsset :=
  supplyActivated - .fromIntegral (widenInt64 (splitAmount t supplyActivated).1.rootEndow)

/-- The ways `process_clear_offers` returns: the orderbook, the accounts and log, and the
commitment. -/
inductive ProcessClear (ob : Orderbook) (s : ClearingState) (supply : FractionalAsset)
    (prices : List Price) (taxRate : UInt8) :
    Orderbook → ClearingState → SingleOrderbookStateCommitment → Prop where
  /-- the whole book clears -/
  | everything {s' : ClearingState} {lmdb : OrderbookLMDB} {sellPrice buyPrice : Price}
      (hfloor : supply.floor ≤ 2 ^ 63 - 1)
      (hsell : vectorAt prices ob.category.sellAsset.toNat = .ok sellPrice)
      (hbuy : vectorAt prices ob.category.buyAsset.toNat = .ok buyPrice)
      (hclear : applyClearing sellPrice buyPrice taxRate s
        (splitAmount ob.committedOffers supply).1.accumulateValues = .ok s')
      (hlowest : (splitAmount ob.committedOffers supply).2.getLowestKey = none)
      (hremaining : remainingToClear ob.committedOffers supply = .fromIntegral 0)
      (hlmdb : ob.lmdb.modifyTopThunk (fun thunk =>
        { thunk.setNoPartialExec with
          clearedOffers := (splitAmount ob.committedOffers supply).1 }) = .ok lmdb) :
      ProcessClear ob s supply prices taxRate
        { ob with committedOffers := (splitAmount ob.committedOffers supply).2, lmdb := lmdb } s'
        ⟨0, supply.value, .zero, 1, (remainingToClear ob.committedOffers supply).value⟩
  /-- the lowest remaining offer executes partially -/
  | belowPartial {s' : ClearingState} {lmdb : OrderbookLMDB} {sellPrice buyPrice : Price}
      {key : OfferKey} {leaf : OfferLeaf} {idx : Nat} {buyAmount sellAmount : Int64}
      (hfloor : supply.floor ≤ 2 ^ 63 - 1)
      (hsell : vectorAt prices ob.category.sellAsset.toNat = .ok sellPrice)
      (hbuy : vectorAt prices ob.category.buyAsset.toNat = .ok buyPrice)
      (hclear : applyClearing sellPrice buyPrice taxRate s
        (splitAmount ob.committedOffers supply).1.accumulateValues = .ok s')
      (hlowest : (splitAmount ob.committedOffers supply).2.getLowestKey = some key)
      (hfind : (splitAmount ob.committedOffers supply).2.find? key = some leaf)
      (huser : s'.db.lookupUser leaf.offer.owner = some idx)
      (hcredit : partialBuyAmount (remainingToClear ob.committedOffers supply) sellPrice buyPrice
        taxRate = .ok buyAmount)
      (hsellAmount : sellAmount = narrowToInt64 (remainingToClear ob.committedOffers supply).ceil)
      (hamount : sellAmount.toUInt64 ≤ leaf.offer.amount)
      (hlmdb : ob.lmdb.modifyTopThunk (fun thunk =>
        { thunk.setPartialExec key sellAmount leaf.offer with
          clearedOffers := (splitAmount ob.committedOffers supply).1 }) = .ok lmdb) :
      ProcessClear ob s supply prices taxRate
        { ob with
          committedOffers :=
            if (reduced leaf.offer sellAmount.toUInt64).amount > 0 then
              OrderbookTrie.insertOffer ((splitAmount ob.committedOffers supply).2.erase key) key
                (reduced leaf.offer sellAmount.toUInt64)
            else (splitAmount ob.committedOffers supply).2.erase key
          lmdb := lmdb }
        { db := s'.db.transferAvailable idx leaf.offer.category.buyAsset buyAmount
          log := s'.log.logSelfModification leaf.offer.owner leaf.offer.offerId
          executed := s'.executed ++ [⟨leaf.offer, sellAmount.toUInt64, buyAmount⟩] }
        ⟨0, supply.value, key, 0, (remainingToClear ob.committedOffers supply).value⟩

theorem modifyTopThunk_comp {lmdb lmdb₁ lmdb₂ : OrderbookLMDB}
    {f g : OrderbookLMDBCommitmentThunk → OrderbookLMDBCommitmentThunk}
    (hf : lmdb.modifyTopThunk f = .ok lmdb₁) (hg : lmdb₁.modifyTopThunk g = .ok lmdb₂) :
    lmdb.modifyTopThunk (fun thunk => g (f thunk)) = .ok lmdb₂ := by
  obtain ⟨thunk, htop, hf⟩ := bind_eq_ok.mp hf
  cases hf
  rw [OrderbookLMDB.modifyTopThunk_append _ lmdb.thunks.dropLast (f thunk) _ rfl] at hg
  cases hg
  rw [OrderbookLMDB.modifyTopThunk, htop]
  rfl

/-- Every return of `process_clear_offers` is one of the two cases. -/
theorem processClear_cases {prices : List Price} {taxRate : UInt8}
    (h : ob.processClearOffers s supply prices taxRate = .ok (ob', s', c)) :
    ProcessClear ob s supply prices taxRate ob' s' c := by
  rw [processClearOffers] at h
  split at h
  · cases h
  rename_i hfloor
  have hfloor : supply.floor ≤ 2 ^ 63 - 1 := BitVec.not_lt.mp hfloor
  obtain ⟨sellPrice, hsell, h⟩ := bind_eq_ok.mp h
  obtain ⟨buyPrice, hbuy, h⟩ := bind_eq_ok.mp h
  obtain ⟨s₁, hclear, h⟩ := bind_eq_ok.mp h
  obtain ⟨lmdb₁, hlmdb₁, h⟩ := bind_eq_ok.mp h
  split at h
  · rename_i hlowest
    split at h
    · cases h
    rename_i hremaining
    obtain ⟨lmdb, hlmdb, h⟩ := bind_eq_ok.mp h
    cases h
    exact .everything hfloor hsell hbuy hclear hlowest (not_not.mp hremaining)
      (modifyTopThunk_comp hlmdb₁ hlmdb)
  · rename_i key hlowest
    obtain ⟨⟨ob₂, s₂⟩, hpartial, h⟩ := bind_eq_ok.mp h
    cases h
    rw [processPartialExec] at hpartial
    simp only [OrderbookTrie.performDeletion] at hpartial
    split at hpartial
    · cases hpartial
    rename_i offer hoffer
    obtain ⟨leaf, hfind, rfl⟩ := Option.map_eq_some_iff.mp hoffer
    split at hpartial
    · cases hpartial
    rename_i idx huser
    obtain ⟨⟨sellAmount, buyAmount, db⟩, hclearPartial, hpartial⟩ := bind_eq_ok.mp hpartial
    obtain ⟨buyAmount', hcredit, hclearPartial⟩ := bind_eq_ok.mp hclearPartial
    cases hclearPartial
    simp only at hpartial
    split at hpartial
    · cases hpartial
    rename_i hamount
    obtain ⟨lmdb, hlmdb, hpartial⟩ := bind_eq_ok.mp hpartial
    cases hpartial
    exact .belowPartial hfloor hsell hbuy hclear hlowest hfind huser hcredit rfl
      (not_lt.mp hamount) (modifyTopThunk_comp hlmdb₁ hlmdb)

end Orderbook

end Speedex
