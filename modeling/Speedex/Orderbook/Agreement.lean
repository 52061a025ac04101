import Speedex.Orderbook.FullClears
import Speedex.Orderbook.BlockRounds

/-! Production and validation clear the same offers.  Production merges the new offers in and clears
the cheapest ones.  Validation learns from the header where that stops: it clears new offers below
the threshold as they come, and the old ones afterwards. -/

namespace Speedex

open Lib

/-- The tests of `ValidatingSerialManager::add_offer`: a new offer under this key clears at once. -/
def SingleOrderbookStateCommitment.clearsAtOnce (c : SingleOrderbookStateCommitment)
    (key : OfferKey) : Bool :=
  c.thresholdKeyIsNull = 1 || decide (key < c.partialExecThresholdKey)

/-- The amounts of offers together. -/
def amountOf (offers : List Offer) : Nat := (offers.map fun o => o.amount.toNat).sum

namespace Orderbook

open OrderbookTrie

variable {ob ob' obv : Orderbook} {s s' sv : ClearingState} {supply : FractionalAsset}
  {prices : List Price} {taxRate : UInt8} {c : SingleOrderbookStateCommitment}
  {new : OfferKey → Bool}

/-- The new offers that validation clears at once. -/
def ahead (c : SingleOrderbookStateCommitment) (new : OfferKey → Bool) (t : OrderbookTrie) :
    List Offer :=
  SortedMap.values (t.offers.filter fun k _ => new k && c.clearsAtOnce k)

/-- The old offers that validation clears afterwards. -/
def later (c : SingleOrderbookStateCommitment) (new : OfferKey → Bool) (t : OrderbookTrie) :
    SortedMap OfferKey Offer :=
  t.offers.filter fun k _ => !new k && c.clearsAtOnce k

/-- An orderbook of validation against that of production: the same offers, except that the new
ones that clear at once are gone. -/
structure Anticipates (c : SingleOrderbookStateCommitment) (new : OfferKey → Bool)
    (ob obv : Orderbook) : Prop where
  category : obv.category = ob.category
  offers : obv.committedOffers.offers =
    ob.committedOffers.offers.filter fun k _ => !(new k && c.clearsAtOnce k)
  thunks : obv.lmdb.thunks ≠ []

/-! ### The cut -/

theorem filter_true (t : OrderbookTrie) : (SortedMap.filter t fun _ _ => true) = t := by
  refine SortedMap.ext_find fun k => ?_
  rw [SortedMap.find?_filter]
  cases t.find? k <;> rfl

/-- The threshold of the header is where production has cut its book. -/
theorem ProcessClear.split_eq (h : ProcessClear ob s supply prices taxRate ob' s' c) :
    (splitAmount ob.committedOffers supply).1 =
        ob.committedOffers.filter (fun k _ => c.clearsAtOnce k) ∧
      (splitAmount ob.committedOffers supply).2 =
        ob.committedOffers.filter fun k _ => !c.clearsAtOnce k := by
  cases h with
  | everything _ _ _ _ hlowest =>
    have hempty : (splitAmount ob.committedOffers supply).2 = ∅ := by
      rw [← SortedMap.min?_eq_none]
      simpa [getLowestKey] using hlowest
    have hall : (splitAmount ob.committedOffers supply).1 = ob.committedOffers :=
      SortedMap.splitWithin_of_empty hempty
    refine ⟨hall.trans (filter_true _).symm, hempty.trans ?_⟩
    refine SortedMap.ext_find fun k => ?_
    rw [SortedMap.find?_empty, SortedMap.find?_filter]
    cases ob.committedOffers.find? k <;> rfl
  | belowPartial _ _ _ _ hlowest =>
    obtain ⟨⟨k, leaf⟩, hmin, rfl⟩ := Option.map_eq_some_iff.mp hlowest
    have hb := SortedMap.boundary_of_min? hmin
    simp only [splitAmount, endowSplit, SortedMap.splitWithin, hb]
    exact ⟨rfl, rfl⟩

/-- What production clears in full is what validation clears at once and afterwards. -/
theorem cleared_perm (t : OrderbookTrie) :
    (ahead c new t ++ (later c new t).values).Perm
      (accumulateValues (t.filter fun k _ => c.clearsAtOnce k)) := by
  have hentries : ∀ l : List (OfferKey × Offer),
      ((l.filter fun a => new a.1 && c.clearsAtOnce a.1) ++
        l.filter fun a => !new a.1 && c.clearsAtOnce a.1).Perm
          (l.filter fun a => c.clearsAtOnce a.1) := by
    intro l
    have hsplit := List.filter_append_perm (fun a : OfferKey × Offer => new a.1)
      (l.filter fun a => c.clearsAtOnce a.1)
    simpa only [List.filter_filter] using hsplit
  rw [accumulateValues, offers_filter_key]
  have hperm := (hentries t.offers.entries).map Prod.snd
  rwa [List.map_append] at hperm

theorem amountOf_perm {l l' : List Offer} (h : l.Perm l') : amountOf l = amountOf l' :=
  (h.map fun o : Offer => o.amount.toNat).sum_eq

theorem amountOf_append (l l' : List Offer) : amountOf (l ++ l') = amountOf l + amountOf l' := by
  simp [amountOf]

variable (c new) in
/-- The offers that clear have the amount that production activates, but for the partial
execution. -/
theorem amountOf_cleared (t : OrderbookTrie) :
    amountOf (ahead c new t) + amountOf (later c new t).values =
      OrderbookTrie.totalEndow (t.filter fun k _ => c.clearsAtOnce k) := by
  rw [← amountOf_append, amountOf_perm (cleared_perm t), totalEndow_eq]
  rfl

/-! ### The orderbook of validation -/

theorem Anticipates.find? (h : Anticipates c new ob obv) (k : OfferKey) :
    obv.committedOffers.offers.find? k =
      if new k && c.clearsAtOnce k then none else ob.committedOffers.offers.find? k := by
  rw [h.offers, SortedMap.find?_filter]
  cases ob.committedOffers.offers.find? k <;> cases (new k && c.clearsAtOnce k) <;> rfl

theorem Anticipates.leaf (h : Anticipates c new ob obv) {k : OfferKey} {leaf : OfferLeaf}
    (hfind : obv.committedOffers.find? k = some leaf) :
    ∃ leaf', ob.committedOffers.find? k = some leaf' ∧ leaf'.offer = leaf.offer := by
  have hoffer := h.find? k
  rw [find?_offers, find?_offers, hfind, Option.map_some] at hoffer
  split at hoffer
  · cases hoffer
  · exact Option.map_eq_some_iff.mp hoffer.symm

theorem Anticipates.totalEndow_le (h : Anticipates c new ob obv) :
    obv.committedOffers.totalEndow ≤ ob.committedOffers.totalEndow := by
  have hle := SortedMap.sum_filter_le ob.committedOffers.offers (fun o => o.amount.toNat)
    fun k _ => !(new k && c.clearsAtOnce k)
  rw [← h.offers] at hle
  rwa [totalEndow_eq, totalEndow_eq]

/-- Every offer has a price, so none stands under the key of all zeros. -/
theorem find?_zero {t : OrderbookTrie} {db : MemoryDatabase} (h : t.Clearable db) :
    t.find? .zero = none := by
  cases hfind : t.find? .zero with
  | none => rfl
  | some leaf =>
    have hprice := h.readPrice hfind
    have hvalid := Price.isValidPrice_iff.mp (h.priced _ _ hfind)
    rw [readPriceBigEndian_eq, OfferKey.toNat_zero] at hprice
    omega

/-- Below the threshold, validation has the old offers that production cleared. -/
theorem Anticipates.below (h : Anticipates c new ob obv) (hnull : c.thresholdKeyIsNull ≠ 1) :
    (obv.committedOffers.below c.partialExecThresholdKey).offers =
      later c new ob.committedOffers := by
  rw [OrderbookTrie.below, offers_filter_key, h.offers]
  refine SortedMap.ext_find fun k => ?_
  simp only [later, SortedMap.find?_filter, SingleOrderbookStateCommitment.clearsAtOnce,
    decide_eq_false hnull, Bool.false_or]
  cases ob.committedOffers.offers.find? k with
  | none => rfl
  | some o => cases new k <;> cases decide (k < c.partialExecThresholdKey) <;> rfl

/-! ### Validation returns -/

section Returns

variable {checker : OrderbookStateCommitmentChecker} {s₁ : ClearingState}
  {sellPrice buyPrice : Price}

theorem modifyTopThunk_returns {lmdb : OrderbookLMDB} (h : lmdb.thunks ≠ [])
    (f : OrderbookLMDBCommitmentThunk → OrderbookLMDBCommitmentThunk) :
    ∃ lmdb', lmdb.modifyTopThunk f = .ok lmdb' :=
  ⟨_, OrderbookLMDB.modifyTopThunk_append lmdb _ _ f (List.dropLast_append_getLast h).symm⟩

/-- A book without an offer at the threshold clears as a whole. -/
theorem tentativeClear_everything (act : FractionalAsset)
    (hfind : ob.committedOffers.find? c.partialExecThresholdKey = none)
    (hkey : c.partialExecThresholdKey = .zero) (hamount : c.partialExecAmount = .fromIntegral 0)
    (hsell : vectorAt checker.prices ob.category.sellAsset.toNat = .ok sellPrice)
    (hbuy : vectorAt checker.prices ob.category.buyAsset.toNat = .ok buyPrice)
    (hclear : applyClearing sellPrice buyPrice checker.taxRate s
      ob.committedOffers.accumulateValues = .ok s₁)
    (hthunks : ob.lmdb.thunks ≠ []) :
    ∃ lmdb, ob.tentativeClearOffersForValidation s act c checker =
      .ok (true, { ob with committedOffers := ∅, lmdb := lmdb }, s₁,
        supplyBelow ob.committedOffers act c.partialExecThresholdKey +
          .fromIntegral (widenInt64 ob.committedOffers.rootEndow)) := by
  obtain ⟨lmdb, hlmdb⟩ := modifyTopThunk_returns hthunks fun thunk =>
    { thunk.setNoPartialExec with clearedOffers := ob.committedOffers }
  refine ⟨lmdb, ?_⟩
  have herase : ob.committedOffers.erase OfferKey.zero = ob.committedOffers :=
    erase_of_find?_none (hkey ▸ hfind)
  rw [hkey] at hfind
  simp only [tentativeClearOffersForValidation, hsell, hbuy, ok_bind, performDeletion, hfind, hkey,
    herase, Option.map_none, clearEverything, hamount, ne_eq, not_true, if_false, hclear, hlmdb]
  rfl

/-- A book with an offer at the threshold that has enough clears below it. -/
theorem tentativeClear_belowPartial (act : FractionalAsset) {leaf : OfferLeaf} {idx : Nat}
    {buyAmount : Int64}
    (hfind : ob.committedOffers.find? c.partialExecThresholdKey = some leaf)
    (huser : s.db.lookupUser leaf.offer.owner = some idx)
    (hcategory : leaf.offer.category = ob.category)
    (hsell : vectorAt checker.prices ob.category.sellAsset.toNat = .ok sellPrice)
    (hbuy : vectorAt checker.prices ob.category.buyAsset.toNat = .ok buyPrice)
    (hcredit : partialBuyAmount c.partialExecAmount sellPrice buyPrice checker.taxRate =
      .ok buyAmount)
    (hamount : (partialSellAmount c).toUInt64 ≤ leaf.offer.amount)
    (hclear : applyClearing sellPrice buyPrice checker.taxRate
      { db := s.db.transferAvailable idx leaf.offer.category.buyAsset buyAmount
        log := s.log.logSelfModification leaf.offer.owner leaf.offer.offerId
        executed := s.executed ++ [⟨leaf.offer, (partialSellAmount c).toUInt64, buyAmount⟩] }
      (splitBelow ob.committedOffers c.partialExecThresholdKey).1.accumulateValues = .ok s₁)
    (hthunks : ob.lmdb.thunks ≠ []) :
    ∃ lmdb, ob.tentativeClearOffersForValidation s act c checker =
      .ok (true,
        { ob with
          committedOffers :=
            if (reduced leaf.offer (partialSellAmount c).toUInt64).amount ≠ 0 then
              (splitBelow ob.committedOffers c.partialExecThresholdKey).2.insertOffer
                c.partialExecThresholdKey (reduced leaf.offer (partialSellAmount c).toUInt64)
            else (splitBelow ob.committedOffers c.partialExecThresholdKey).2
          lmdb := lmdb },
        s₁, supplyBelow ob.committedOffers act c.partialExecThresholdKey) := by
  obtain ⟨lmdb, hlmdb⟩ := modifyTopThunk_returns hthunks fun thunk =>
    { thunk.setPartialExec c.partialExecThresholdKey (partialSellAmount c) leaf.offer with
      clearedOffers := (splitBelow ob.committedOffers c.partialExecThresholdKey).1 }
  refine ⟨lmdb, ?_⟩
  have hfound : (ob.committedOffers.performDeletion c.partialExecThresholdKey).1 =
      some leaf.offer := congrArg (Option.map OfferLeaf.offer) hfind
  have hpartial : clearOfferPartial (s.db.transferAvailable idx) leaf.offer sellPrice buyPrice
      checker.taxRate c.partialExecAmount = .ok (partialSellAmount c, buyAmount,
        s.db.transferAvailable idx leaf.offer.category.buyAsset buyAmount) :=
    bind_eq_ok.mpr ⟨buyAmount, hcredit, rfl⟩
  refine bind_eq_ok.mpr ⟨sellPrice, hsell, bind_eq_ok.mpr ⟨buyPrice, hbuy, ?_⟩⟩
  dsimp only
  rw [hfound]
  dsimp only
  unfold clearBelowPartial
  dsimp only
  rw [huser]
  dsimp only
  rw [← hcategory] at hsell hbuy
  refine bind_eq_ok.mpr ⟨sellPrice, hsell, bind_eq_ok.mpr ⟨buyPrice, hbuy, ?_⟩⟩
  refine bind_eq_ok.mpr ⟨_, hpartial, ?_⟩
  dsimp only
  rw [if_neg (not_lt.mpr hamount)]
  refine bind_eq_ok.mpr ⟨lmdb, hlmdb, bind_eq_ok.mpr ⟨s₁, hclear, ?_⟩⟩
  rfl

end Returns

/-! ### One orderbook -/

section OneBook

variable {checker : OrderbookStateCommitmentChecker} {sellPrice buyPrice : Price}
  {act : FractionalAsset}

/-- Executions that follow one state and lead to another. -/
structure Executes (s s' : ClearingState) (es : List Execution) : Prop where
  executed : s'.executed = s.executed ++ es
  db : s'.db = es.foldl Execution.credit s.db

theorem Executes.ids {es : List Execution} (h : Executes s s' es) :
    s'.db.userIdToIdxMap = s.db.userIdToIdxMap := by
  rw [h.db, MemoryDatabase.credits_ids]

theorem Executes.trans {s₂ : ClearingState} {es es' : List Execution} (h : Executes s s' es)
    (h' : Executes s' s₂ es') : Executes s s₂ (es ++ es') := by
  refine ⟨?_, ?_⟩
  · rw [h'.executed, h.executed, List.append_assoc]
  · rw [h'.db, h.db, List.foldl_append]

theorem executes_clearing {offers : List Offer}
    (h : applyClearing sellPrice buyPrice taxRate s offers = .ok s') :
    Executes s s' (offers.map (·.fullExecution sellPrice buyPrice taxRate)) := by
  obtain ⟨-, hexecuted, hdb, -⟩ := applyClearing_spec h
  exact ⟨hexecuted, hdb⟩

/-- The partial execution of an offer. -/
theorem executes_lastSale {idx : Nat} {e : Execution}
    (huser : s.db.lookupUser e.offer.owner = some idx) (log : ModificationTrie) :
    Executes s { db := s.db.transferAvailable idx e.offer.category.buyAsset e.buyAmount
                 log := log
                 executed := s.executed ++ [e] } [e] := by
  refine ⟨rfl, ?_⟩
  simp only [List.foldl_cons, List.foldl_nil, Execution.credit, huser]

/-- Given that its new offers have cleared ahead, validation clears an orderbook as production
did. -/
def Validates (checker : OrderbookStateCommitmentChecker) (c : SingleOrderbookStateCommitment)
    (obv : Orderbook) (sv : ClearingState) (act : FractionalAsset) (aheadEs es : List Execution)
    (offers : SortedMap OfferKey Offer) : Prop :=
  ∃ (obv' : Orderbook) (sv' : ClearingState) (act' : FractionalAsset) (es' : List Execution),
    obv.tentativeClearOffersForValidation sv act c checker = .ok (true, obv', sv', act') ∧
      obv'.committedOffers.offers = offers ∧ Executes sv sv' es' ∧ (aheadEs ++ es').Perm es ∧
      act' + c.partialExecAmount = c.supplyActivated

/-- The supply of the offers of a trie is added exactly. -/
theorem toNat_add_endow {t : OrderbookTrie} {x : FractionalAsset} {a : Nat}
    (hx : x.value.toNat = a * 2 ^ 10) (hle : a + t.totalEndow < 2 ^ 63) :
    (x + .fromIntegral (widenInt64 t.rootEndow)).value.toNat = (a + t.totalEndow) * 2 ^ 10 := by
  show (x.value + _).toNat = _
  rw [BitVec.toNat_add, hx, toNat_endow (by omega)]
  omega

/-- What has cleared and what remains is the supply. -/
theorem add_remaining {x z total : FractionalAsset} {a : Nat} (hx : x.value.toNat = a * 2 ^ 10)
    (hz : z.value.toNat = total.value.toNat - a * 2 ^ 10) (hle : a * 2 ^ 10 ≤ total.value.toNat) :
    x + z = total := by
  have hlt := total.value.isLt
  have hvalue : x.value + z.value = total.value := by
    refine BitVec.eq_of_toNat_eq ?_
    rw [BitVec.toNat_add, hx, hz]
    omega
  exact congrArg FractionalAsset.mk hvalue

theorem totalEndow_below_zero (t : OrderbookTrie) :
    OrderbookTrie.totalEndow (t.below .zero) = 0 := by
  have hempty : t.below .zero = ∅ := by
    refine SortedMap.ext_find fun k => ?_
    rw [OrderbookTrie.below, SortedMap.find?_filter_key, if_neg, SortedMap.find?_empty]
    exact not_lt.mpr (OfferKey.zero_le k)
  rw [hempty]
  rfl

/-- The offers that validation clears afterwards can be cleared. -/
theorem clears_later {t cleared : OrderbookTrie} {s₁ : ClearingState}
    (hclear : applyClearing sellPrice buyPrice taxRate s cleared.accumulateValues = .ok s₁)
    (hcleared : cleared = t.filter fun k _ => c.clearsAtOnce k)
    (hids : sv.db.userIdToIdxMap = s.db.userIdToIdxMap) :
    ∀ o ∈ (later c new t).values, o.Clears sv.db sellPrice buyPrice taxRate := by
  intro o ho
  refine ((applyClearing_spec hclear).1 o ?_).congr hids
  rw [hcleared]
  exact (cleared_perm t).mem_iff.mp (List.mem_append_right _ ho)

/-- The executions of the offers that clear in full, ahead and afterwards. -/
theorem fullExecutions_perm {t cleared : OrderbookTrie}
    (hcleared : cleared = t.filter fun k _ => c.clearsAtOnce k) :
    ((ahead c new t).map (·.fullExecution sellPrice buyPrice taxRate) ++
      (later c new t).values.map (·.fullExecution sellPrice buyPrice taxRate)).Perm
        (cleared.accumulateValues.map (·.fullExecution sellPrice buyPrice taxRate)) := by
  rw [← List.map_append, hcleared]
  exact (cleared_perm t).map _

theorem validates_everything {s₁ : ClearingState}
    (hfloor : supply.floor ≤ 2 ^ 63 - 1) (hclearable : ob.committedOffers.Clearable s.db)
    (hclear : applyClearing sellPrice buyPrice checker.taxRate s
      (splitAmount ob.committedOffers supply).1.accumulateValues = .ok s₁)
    (hremaining : remainingToClear ob.committedOffers supply = .fromIntegral 0)
    (hsell : vectorAt checker.prices ob.category.sellAsset.toNat = .ok sellPrice)
    (hbuy : vectorAt checker.prices ob.category.buyAsset.toNat = .ok buyPrice)
    (hc : c = ⟨0, supply.value, .zero, 1, (remainingToClear ob.committedOffers supply).value⟩)
    (hsplit : (splitAmount ob.committedOffers supply).1 =
      ob.committedOffers.filter (fun k _ => c.clearsAtOnce k))
    (hant : Anticipates c new ob obv) (hids : sv.db.userIdToIdxMap = s.db.userIdToIdxMap)
    (hact : act.value.toNat = amountOf (ahead c new ob.committedOffers) * 2 ^ 10) :
    Validates checker c obv sv act ((ahead c new ob.committedOffers).map
        (·.fullExecution sellPrice buyPrice checker.taxRate))
      ((splitAmount ob.committedOffers supply).1.accumulateValues.map
        (·.fullExecution sellPrice buyPrice checker.taxRate)) ∅ := by
  have hkey : c.partialExecThresholdKey = .zero := by rw [hc]
  have hall : ∀ k, c.clearsAtOnce k = true := by
    intro k
    rw [SingleOrderbookStateCommitment.clearsAtOnce, hc]
    rfl
  have hfind : obv.committedOffers.find? c.partialExecThresholdKey = none := by
    rw [hkey]
    cases hleaf : obv.committedOffers.find? .zero with
    | none => rfl
    | some leaf =>
      obtain ⟨leaf', hleaf', -⟩ := hant.leaf hleaf
      rw [find?_zero hclearable] at hleaf'
      cases hleaf'
  have hoffers : obv.committedOffers.offers = later c new ob.committedOffers := by
    rw [hant.offers, later]
    congr 1
    funext k o
    rw [hall k, Bool.and_true, Bool.and_true]
  obtain ⟨s₂, hs₂⟩ := applyClearing_of_clears (s := sv) (clears_later hclear hsplit hids)
  have hvalues : obv.committedOffers.accumulateValues = (later c new ob.committedOffers).values := by
    rw [accumulateValues, hoffers]
  obtain ⟨lmdb', hreturns⟩ := tentativeClear_everything (s := sv) (c := c) act hfind hkey
    (by rw [hc]; exact hremaining) (hant.category ▸ hsell) (hant.category ▸ hbuy)
    (hvalues ▸ hs₂) hant.thunks
  refine ⟨_, s₂, _, _, hreturns, rfl, executes_clearing hs₂, fullExecutions_perm hsplit, ?_⟩
  have hamounts := amountOf_cleared c new ob.committedOffers
  rw [← hsplit] at hamounts
  have hcleared := totalEndow_cleared_le ob.committedOffers supply
  have hmax : supply.floor.toNat ≤ 2 ^ 63 - 1 := by simpa [BitVec.le_def] using hfloor
  have hrest : obv.committedOffers.totalEndow = amountOf (later c new ob.committedOffers).values := by
    rw [totalEndow_eq, hvalues]
    rfl
  have hzero := totalEndow_below_zero obv.committedOffers
  refine add_remaining (a := (splitAmount ob.committedOffers supply).1.totalEndow) ?_ ?_ ?_
  · rw [← hamounts, ← hrest]
    refine toNat_add_endow ?_ (by omega)
    rw [hkey, supplyBelow, OrderbookTrie.endowLtKey, toNat_add_endow hact (by omega), hzero,
      Nat.add_zero]
  · rw [hc]
    exact toNat_remainingToClear hfloor
  · rw [hc]
    rw [toNat_floor] at hcleared
    show _ ≤ supply.value.toNat
    omega

/-- Where validation cuts its orderbook. -/
theorem Anticipates.split (hant : Anticipates c new ob obv)
    (hclearable : ob.committedOffers.Clearable s.db) (hnull : c.thresholdKeyIsNull = 0) :
    (splitBelow obv.committedOffers c.partialExecThresholdKey).1.offers =
        later c new ob.committedOffers ∧
      ∀ k, c.partialExecThresholdKey ≠ k →
        (splitBelow obv.committedOffers c.partialExecThresholdKey).2.offers.find? k =
          if c.clearsAtOnce k then none else ob.committedOffers.offers.find? k := by
  have hclears : ∀ k, c.clearsAtOnce k = decide (k < c.partialExecThresholdKey) := by
    intro k
    rw [SingleOrderbookStateCommitment.clearsAtOnce, hnull]
    rfl
  have hpos : ∀ k leaf, obv.committedOffers.find? k = some leaf → leaf.offer.amount ≠ 0 := by
    intro k leaf hleaf hzero
    obtain ⟨leaf', hleaf', hoffer⟩ := hant.leaf hleaf
    have hpositive := hclearable.positive k leaf' hleaf'
    rw [hoffer, hzero] at hpositive
    exact absurd hpositive (by decide)
  have hcut := find?_splitBelow_of_lt c.partialExecThresholdKey hpos
    (hant.totalEndow_le.trans_lt hclearable.total)
  have hnotnull : c.thresholdKeyIsNull ≠ 1 := by
    rw [hnull]
    decide
  refine ⟨?_, fun k hk => ?_⟩
  · rw [← hant.below hnotnull]
    refine SortedMap.ext_find fun k => ?_
    rw [find?_offers, find?_offers, OrderbookTrie.below, SortedMap.find?_filter_key]
    by_cases hk : c.partialExecThresholdKey = k
    · rw [← hk, (find?_splitBelow_self _ _).1, if_neg (lt_irrefl _)]
    · rw [(hcut k hk).1]
  · have hfind := hant.find? k
    rw [find?_offers, (hcut k hk).2]
    simp only [hclears, Bool.and_eq_true, decide_eq_true_eq] at hfind ⊢
    split
    · rfl
    · rename_i hlt
      rw [← find?_offers, hfind, if_neg (fun h => hlt h.2)]

/-- What is left of the partially executed offer goes back into the same offers. -/
theorem offers_left {t u : OrderbookTrie} {key : OfferKey} (hnone : t.find? key = none)
    (hsame : ∀ k, key ≠ k → t.offers.find? k = u.offers.find? k) (o : Offer) :
    OrderbookTrie.offers (if o.amount ≠ 0 then t.insertOffer key o else t) =
      OrderbookTrie.offers (if o.amount > 0 then OrderbookTrie.insertOffer (u.erase key) key o
        else u.erase key) := by
  refine SortedMap.ext_find fun k => ?_
  by_cases hzero : o.amount = 0
  · rw [if_neg (not_not.mpr hzero), if_neg (by simp [hzero]), offers_erase, SortedMap.find?_erase]
    split
    · rename_i hk
      rw [← hk, find?_offers, hnone]
      rfl
    · rename_i hk
      exact hsame k hk
  · rw [if_pos hzero, if_pos (UInt64.pos_iff_ne_zero.mpr hzero), offers_insertOffer,
      offers_insertOffer, offers_erase, SortedMap.find?_insert, SortedMap.find?_insert,
      SortedMap.find?_erase]
    split
    · rfl
    · rename_i hk
      exact hsame k hk

theorem validates_belowPartial {s₁ : ClearingState} {key : OfferKey} {leaf : OfferLeaf} {idx : Nat}
    {buyAmount sellAmount : Int64} (hfloor : supply.floor ≤ 2 ^ 63 - 1)
    (hclearable : ob.committedOffers.Clearable s.db)
    (hcategory : ∀ k leaf, ob.committedOffers.find? k = some leaf → leaf.offer.category = ob.category)
    (hclear : applyClearing sellPrice buyPrice checker.taxRate s
      (splitAmount ob.committedOffers supply).1.accumulateValues = .ok s₁)
    (hfind : (splitAmount ob.committedOffers supply).2.find? key = some leaf)
    (huser : s₁.db.lookupUser leaf.offer.owner = some idx)
    (hcredit : partialBuyAmount (remainingToClear ob.committedOffers supply) sellPrice buyPrice
      checker.taxRate = .ok buyAmount)
    (hsellAmount : sellAmount = narrowToInt64 (remainingToClear ob.committedOffers supply).ceil)
    (hamount : sellAmount.toUInt64 ≤ leaf.offer.amount)
    (hsell : vectorAt checker.prices ob.category.sellAsset.toNat = .ok sellPrice)
    (hbuy : vectorAt checker.prices ob.category.buyAsset.toNat = .ok buyPrice)
    (hc : c = ⟨0, supply.value, key, 0, (remainingToClear ob.committedOffers supply).value⟩)
    (hsplit : (splitAmount ob.committedOffers supply).1 =
        ob.committedOffers.filter (fun k _ => c.clearsAtOnce k) ∧
      (splitAmount ob.committedOffers supply).2 =
        ob.committedOffers.filter fun k _ => !c.clearsAtOnce k)
    (hant : Anticipates c new ob obv) (hids : sv.db.userIdToIdxMap = s.db.userIdToIdxMap)
    (hact : act.value.toNat = amountOf (ahead c new ob.committedOffers) * 2 ^ 10) :
    Validates checker c obv sv act ((ahead c new ob.committedOffers).map
        (·.fullExecution sellPrice buyPrice checker.taxRate))
      ((splitAmount ob.committedOffers supply).1.accumulateValues.map
        (·.fullExecution sellPrice buyPrice checker.taxRate) ++
          [⟨leaf.offer, sellAmount.toUInt64, buyAmount⟩])
      (OrderbookTrie.offers (if (reduced leaf.offer sellAmount.toUInt64).amount > 0 then
        OrderbookTrie.insertOffer ((splitAmount ob.committedOffers supply).2.erase key) key
          (reduced leaf.offer sellAmount.toUInt64)
        else (splitAmount ob.committedOffers supply).2.erase key)) := by
  have hkey : c.partialExecThresholdKey = key := by rw [hc]
  have hnull : c.thresholdKeyIsNull = 0 := by rw [hc]
  have hsold : partialSellAmount c = sellAmount := by
    rw [hsellAmount, partialSellAmount, hc]
    rfl
  have hself : c.clearsAtOnce key = false := by
    rw [SingleOrderbookStateCommitment.clearsAtOnce, hnull, hkey, decide_eq_false (lt_irrefl key)]
    rfl
  -- the offer at the threshold is where production has it
  have hleaf := find?_of_rest hfind
  obtain ⟨leafv, hleafv, hoffer⟩ : ∃ leafv, obv.committedOffers.find? key = some leafv ∧
      leafv.offer = leaf.offer := by
    have hat := hant.find? key
    rw [hself, Bool.and_false, if_neg Bool.false_ne_true, find?_offers, find?_offers, hleaf] at hat
    exact Option.map_eq_some_iff.mp hat
  have huserv : sv.db.lookupUser leafv.offer.owner = some idx := by
    rw [hoffer, MemoryDatabase.lookupUser, hids, ← (applyClearing_spec hclear).2.2.2]
    exact huser
  obtain ⟨hfull, hrest⟩ := hant.split hclearable hnull
  have hvalues : (splitBelow obv.committedOffers c.partialExecThresholdKey).1.accumulateValues =
      (later c new ob.committedOffers).values := by
    rw [accumulateValues, hfull]
  -- validation clears the partial offer first
  obtain ⟨s₂, hs₂⟩ := applyClearing_of_clears
    (s := { db := sv.db.transferAvailable idx leafv.offer.category.buyAsset buyAmount
            log := sv.log.logSelfModification leafv.offer.owner leafv.offer.offerId
            executed := sv.executed ++ [⟨leafv.offer, sellAmount.toUInt64, buyAmount⟩] })
    (clears_later hclear hsplit.1 hids)
  obtain ⟨lmdb', hreturns⟩ := tentativeClear_belowPartial (s := sv) (c := c) act (hkey ▸ hleafv)
    huserv (by rw [hoffer, hcategory key leaf hleaf, hant.category]) (hant.category ▸ hsell)
    (hant.category ▸ hbuy) (by rw [hc]; exact hcredit) (by rw [hsold, hoffer]; exact hamount)
    (by rw [hvalues, hsold]; exact hs₂) hant.thunks
  have hpartial := executes_lastSale (s := sv)
    (e := ⟨leafv.offer, sellAmount.toUInt64, buyAmount⟩) huserv
    (sv.log.logSelfModification leafv.offer.owner leafv.offer.offerId)
  have hexecutes := hpartial.trans (executes_clearing hs₂)
  have hamounts := amountOf_cleared c new ob.committedOffers
  refine ⟨_, s₂, _, _, hreturns, ?_, hexecutes, ?_, ?_⟩
  · rw [hsold, hoffer, hkey]
    refine offers_left (find?_splitBelow_self _ _).2 (fun k hk => ?_) _
    rw [← hkey] at hk ⊢
    rw [hrest k hk, hsplit.2, offers_filter_key, SortedMap.find?_filter]
    cases ob.committedOffers.offers.find? k <;> cases c.clearsAtOnce k <;> rfl
  · rw [← hoffer]
    refine List.perm_middle.trans ((List.Perm.cons _ ?_).trans (List.perm_append_singleton ..).symm)
    exact fullExecutions_perm hsplit.1
  · rw [← hsplit.1] at hamounts
    have hcleared := totalEndow_cleared_le ob.committedOffers supply
    have hmax : supply.floor.toNat ≤ 2 ^ 63 - 1 := by simpa [BitVec.le_def] using hfloor
    have hbelow : OrderbookTrie.totalEndow (obv.committedOffers.below c.partialExecThresholdKey) =
        amountOf (later c new ob.committedOffers).values := by
      rw [totalEndow_eq, accumulateValues, hant.below (by rw [hnull]; decide)]
      rfl
    refine add_remaining (a := (splitAmount ob.committedOffers supply).1.totalEndow) ?_ ?_ ?_
    · rw [← hamounts, ← hbelow]
      exact toNat_add_endow hact (by omega)
    · rw [hc]
      exact toNat_remainingToClear hfloor
    · rw [hc]
      rw [toNat_floor] at hcleared
      show _ ≤ supply.value.toNat
      omega

/-- The new offers that validation clears at once can be cleared, since production cleared them. -/
theorem ProcessClear.clears_ahead
    (h : ProcessClear ob s supply checker.prices checker.taxRate ob' s' c)
    (hsell : vectorAt checker.prices ob.category.sellAsset.toNat = .ok sellPrice)
    (hbuy : vectorAt checker.prices ob.category.buyAsset.toNat = .ok buyPrice) {o : Offer}
    (ho : o ∈ ahead c new ob.committedOffers) :
    o.Clears s.db sellPrice buyPrice checker.taxRate := by
  have hcleared : o ∈ (splitAmount ob.committedOffers supply).1.accumulateValues := by
    rw [h.split_eq.1]
    exact (cleared_perm ob.committedOffers).mem_iff.mp (List.mem_append_left _ ho)
  cases h with
  | everything _ hsell' hbuy' hclear | belowPartial _ hsell' hbuy' hclear =>
    cases hsell.symm.trans hsell'
    cases hbuy.symm.trans hbuy'
    exact (applyClearing_spec hclear).1 o hcleared

variable (new) in
/-- Validation clears an orderbook as production did. -/
theorem ProcessClear.validates
    (h : ProcessClear ob s supply checker.prices checker.taxRate ob' s' c)
    (hclearable : ob.committedOffers.Clearable s.db)
    (hcategory : ∀ k leaf, ob.committedOffers.find? k = some leaf → leaf.offer.category = ob.category)
    (hsell : vectorAt checker.prices ob.category.sellAsset.toNat = .ok sellPrice)
    (hbuy : vectorAt checker.prices ob.category.buyAsset.toNat = .ok buyPrice) :
    ∃ es, Executes s s' es ∧ c.checkThresholdKey = true ∧ c.supplyActivated = supply ∧
      ∀ obv sv act, Anticipates c new ob obv → sv.db.userIdToIdxMap = s.db.userIdToIdxMap →
        act.value.toNat = amountOf (ahead c new ob.committedOffers) * 2 ^ 10 →
        Validates checker c obv sv act ((ahead c new ob.committedOffers).map
          (·.fullExecution sellPrice buyPrice checker.taxRate)) es ob'.committedOffers.offers := by
  have hsplit := h.split_eq
  cases h with
  | everything hfloor hsell' hbuy' hclear hlowest hremaining hlmdb =>
    cases hsell.symm.trans hsell'
    cases hbuy.symm.trans hbuy'
    have hempty : (splitAmount ob.committedOffers supply).2 = ∅ := by
      rw [← SortedMap.min?_eq_none]
      simpa [getLowestKey] using hlowest
    refine ⟨_, executes_clearing hclear, rfl, rfl, fun obv sv act hant hids hact => ?_⟩
    have hvalidates := validates_everything hfloor hclearable hclear hremaining hsell hbuy rfl hsplit.1
      hant hids hact
    dsimp only
    rw [hempty]
    exact hvalidates
  | belowPartial hfloor hsell' hbuy' hclear hlowest hfind huser hcredit hsellAmount hamount hlmdb =>
    cases hsell.symm.trans hsell'
    cases hbuy.symm.trans hbuy'
    refine ⟨_, (executes_clearing hclear).trans (executes_lastSale (e := ⟨_, _, _⟩) huser _), ?_, rfl,
      fun obv sv act hant hids hact => ?_⟩
    · rw [SingleOrderbookStateCommitment.checkThresholdKey, if_pos]
      · rfl
      · rintro rfl
        have hnone := find?_zero hclearable
        rw [find?_of_rest hfind] at hnone
        cases hnone
    · exact validates_belowPartial hfloor hclearable hcategory hclear hfind huser hcredit hsellAmount
        hamount hsell hbuy rfl hsplit hant hids hact

end OneBook

end Orderbook

end Speedex
