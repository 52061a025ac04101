import Speedex.Orderbook.Agreement
import Speedex.Vm.Replay

/-! Production and validation of the clearing of a block (`speedex_block_creation_logic` and
`_speedex_block_validation_logic` of `speedex/speedex_operation.cc`): validation accepts what
production has cleared, and ends with the same offers and the same balances. -/

namespace Speedex

open Lib

/-! ### Validation, one orderbook after the other -/

namespace TentativeClearing

variable {checker : OrderbookStateCommitmentChecker} {ids : SortedMap AccountID Nat}
  {target : Nat → SortedMap OfferKey Offer} {aheadEs es : Nat → List Execution}
  {c c' c'' : TentativeClearing} {i : Nat} {range : List Nat}

/-- Orderbook `i` can be cleared to its target, with the executions that are still missing. -/
structure ReadyAt (checker : OrderbookStateCommitmentChecker) (ids : SortedMap AccountID Nat)
    (target : Nat → SortedMap OfferKey Offer) (aheadEs es : Nat → List Execution)
    (c : TentativeClearing) (i : Nat) : Prop where
  slot : i < c.stats.length
  validates : ∃ obv commitment, c.orderbooks[i]? = some obv ∧
    checker.commitments[i]? = some commitment ∧ ∀ sv : ClearingState,
      sv.db.userIdToIdxMap = ids →
        obv.Validates checker commitment sv (c.stats.get i) (aheadEs i) (es i) (target i)

/-- Orderbook `i` has its target, and its supply is what the header says. -/
structure ClearedAt (checker : OrderbookStateCommitmentChecker)
    (target : Nat → SortedMap OfferKey Offer) (c : TentativeClearing) (i : Nat) : Prop where
  offers : ∃ obv : Orderbook, c.orderbooks[i]? = some obv ∧ obv.committedOffers.offers = target i
  supply : ∀ commitment, checker.commitments[i]? = some commitment →
    c.stats.get i + commitment.partialExecAmount = commitment.supplyActivated

/-- Orderbook `i` and its statistics are as they were. -/
structure SameAt (c c' : TentativeClearing) (i : Nat) : Prop where
  orderbook : c'.orderbooks[i]? = c.orderbooks[i]?
  stats : c'.stats.get i = c.stats.get i
  length : c'.stats.length = c.stats.length

theorem SameAt.trans (h : SameAt c c' i) (h' : SameAt c' c'' i) : SameAt c c'' i :=
  ⟨h'.orderbook.trans h.orderbook, h'.stats.trans h.stats, h'.length.trans h.length⟩

theorem SameAt.ready (h : SameAt c c' i) (hready : ReadyAt checker ids target aheadEs es c i) :
    ReadyAt checker ids target aheadEs es c' i := by
  obtain ⟨obv, commitment, hobv, hcommitment, hvalidates⟩ := hready.validates
  refine ⟨h.length ▸ hready.slot, obv, commitment, h.orderbook.trans hobv, hcommitment, ?_⟩
  rw [h.stats]
  exact hvalidates

theorem SameAt.cleared (h : SameAt c c' i) (hcleared : ClearedAt checker target c i) :
    ClearedAt checker target c' i := by
  obtain ⟨obv, hobv, htarget⟩ := hcleared.offers
  refine ⟨⟨obv, h.orderbook.trans hobv, htarget⟩, ?_⟩
  rw [h.stats]
  exact hcleared.supply

/-- Clearing some orderbooks has brought all of them to their targets. -/
structure Clears (checker : OrderbookStateCommitmentChecker)
    (target : Nat → SortedMap OfferKey Offer) (aheadEs es : Nat → List Execution)
    (range : List Nat) (c c' : TentativeClearing) : Prop where
  executes : ∃ es', Orderbook.Executes c.state c'.state es' ∧
    (range.flatMap aheadEs ++ es').Perm (range.flatMap es)
  cleared : ∀ i ∈ range, ClearedAt checker target c' i
  same : ∀ i, i ∉ range → SameAt c c' i

theorem Clears.refl : Clears checker target aheadEs es [] c c :=
  ⟨⟨[], ⟨(List.append_nil _).symm, rfl⟩, .refl _⟩, nofun, fun _ _ => ⟨rfl, rfl, rfl⟩⟩

theorem Clears.append {range' : List Nat} (h : Clears checker target aheadEs es range c c')
    (h' : Clears checker target aheadEs es range' c' c'') (hdisjoint : range.Disjoint range') :
    Clears checker target aheadEs es (range ++ range') c c'' := by
  obtain ⟨es₁, hexecutes, hperm⟩ := h.executes
  obtain ⟨es₂, hexecutes', hperm'⟩ := h'.executes
  refine ⟨⟨es₁ ++ es₂, hexecutes.trans hexecutes', ?_⟩, fun i hi => ?_, fun i hi => ?_⟩
  · rw [List.flatMap_append, List.flatMap_append, List.append_assoc]
    refine List.Perm.trans ?_ (hperm.append hperm')
    rw [List.append_assoc]
    refine List.Perm.append_left _ ?_
    rw [← List.append_assoc, ← List.append_assoc]
    exact List.Perm.append_right _ List.perm_append_comm
  · rcases List.mem_append.mp hi with hi | hi
    · exact (h'.same i (hdisjoint hi)).cleared (h.cleared i hi)
    · exact h'.cleared i hi
  · rw [List.mem_append, not_or] at hi
    exact (h.same i hi.1).trans (h'.same i hi.2)

theorem get_set {stats : ValidationStatistics} {x : FractionalAsset} {j : Nat}
    (h : i < stats.length) :
    ValidationStatistics.get (stats.set i x) j = if i = j then x else stats.get j := by
  unfold ValidationStatistics.get
  rw [List.getD_eq_getElem?_getD, List.getElem?_set, List.getD_eq_getElem?_getD]
  split <;> rfl

theorem clearBook_clears (hready : ReadyAt checker ids target aheadEs es c i)
    (hids : c.state.db.userIdToIdxMap = ids) :
    ∃ c', c.clearBook checker i = .ok (true, c') ∧ Clears checker target aheadEs es [i] c c' := by
  obtain ⟨obv, commitment, hobv, hcommitment, hvalidates⟩ := hready.validates
  obtain ⟨obv', sv', act', es', hclear, htarget, hexecutes, hperm, hsupply⟩ := hvalidates c.state hids
  have hslot := (List.getElem?_eq_some_iff.mp hobv).1
  refine ⟨⟨c.orderbooks.set i obv', sv', c.stats.set i act'⟩, ?_, ⟨es', hexecutes, ?_⟩, fun j hj => ?_,
    fun j hj => ?_⟩
  · refine bind_eq_ok.mpr ⟨obv, vectorAt_eq_ok.mpr hobv, bind_eq_ok.mpr ⟨commitment,
      vectorAt_eq_ok.mpr hcommitment, bind_eq_ok.mpr ⟨_, hclear, rfl⟩⟩⟩
  · simpa using hperm
  · obtain rfl := List.mem_singleton.mp hj
    refine ⟨⟨obv', by simp [hslot], htarget⟩, fun commitment' hcommitment' => ?_⟩
    cases hcommitment.symm.trans hcommitment'
    rw [get_set hready.slot, if_pos rfl]
    exact hsupply
  · have hne : i ≠ j := fun hij => hj (List.mem_singleton.mpr hij.symm)
    refine ⟨List.getElem?_set_ne hne, ?_, List.length_set⟩
    rw [get_set hready.slot, if_neg hne]

theorem Clears.sameIds (h : Clears checker target aheadEs es range c c') :
    c'.state.db.userIdToIdxMap = c.state.db.userIdToIdxMap := by
  obtain ⟨es', hexecutes, -⟩ := h.executes
  exact hexecutes.ids

/-- A range of orderbooks that are ready clears. -/
theorem clearRange_clears (hnodup : range.Nodup)
    (hready : ∀ i ∈ range, ReadyAt checker ids target aheadEs es c i)
    (hids : c.state.db.userIdToIdxMap = ids) :
    ∃ c', clearRange checker range c = .ok (true, c') ∧
      Clears checker target aheadEs es range c c' := by
  induction range generalizing c with
  | nil => exact ⟨c, rfl, .refl⟩
  | cons i range ih =>
    obtain ⟨hi, hnodup⟩ := List.nodup_cons.mp hnodup
    obtain ⟨c₁, hbook, hfirst⟩ := clearBook_clears (hready i List.mem_cons_self) hids
    have hnext : ∀ j ∈ range, ReadyAt checker ids target aheadEs es c₁ j := by
      intro j hj
      have hne : j ∉ [i] := fun hji => hi (List.mem_singleton.mp hji ▸ hj)
      exact (hfirst.same j hne).ready (hready j (List.mem_cons_of_mem i hj))
    obtain ⟨c', hrange, hrest⟩ := ih hnodup hnext (hfirst.sameIds.trans hids)
    refine ⟨c', bind_eq_ok.mpr ⟨_, hbook, hrange⟩, hfirst.append hrest ?_⟩
    exact List.singleton_disjoint.mpr hi

/-- All ranges clear. -/
theorem clearRanges_clears {ranges : List (List Nat)} (hnodup : ranges.flatten.Nodup)
    (hready : ∀ i ∈ ranges.flatten, ReadyAt checker ids target aheadEs es c i)
    (hids : c.state.db.userIdToIdxMap = ids) :
    ∃ c', clearRanges checker c ranges = .ok (true, c') ∧
      Clears checker target aheadEs es ranges.flatten c c' := by
  unfold clearRanges
  induction ranges generalizing c with
  | nil => exact ⟨c, rfl, .refl⟩
  | cons range ranges ih =>
    rw [List.flatten_cons] at hnodup hready ⊢
    obtain ⟨hrange, hranges, hdisjoint⟩ := List.nodup_append'.mp hnodup
    obtain ⟨c₁, hfirst, hclears⟩ := clearRange_clears hrange
      (fun i hi => hready i (List.mem_append_left _ hi)) hids
    have hnext : ∀ j ∈ ranges.flatten, ReadyAt checker ids target aheadEs es c₁ j := by
      intro j hj
      have hnot : j ∉ range := fun hjr => hdisjoint hjr hj
      exact (hclears.same j hnot).ready (hready j (List.mem_append_right _ hj))
    obtain ⟨c', hfold, hrest⟩ := ih hranges hnext (hclears.sameIds.trans hids)
    refine ⟨c', foldlM_cons.mpr ⟨(true, c₁), ?_, hfold⟩, hclears.append hrest hdisjoint⟩
    exact bind_eq_ok.mpr ⟨_, hfirst, rfl⟩

end TentativeClearing

/-! ### Production, one orderbook after the other -/

namespace OrderbookManager

open Orderbook (Anticipates ahead Executes Validates)

/-- `commit_for_production`. -/
def commitForProduction (m : OrderbookManager) (currentBlockNumber : UInt64)
    (indeterminate : Nat → Bool) : Result OrderbookManager :=
  m.genericMap fun i ob => ob.commitForProduction currentBlockNumber (indeterminate i)

/-- Production leaves every offer in the orderbook of its category. -/
theorem production_inPlace {m m₁ m₂ : OrderbookManager} {currentBlockNumber : UInt64}
    {indeterminate : Nat → Bool} {s s' : ClearingState} {params : ClearingParams} {prices : List Price}
    {details : OrderbookStateCommitment} (hm : m.InPlace)
    (hcommit : m.commitForProduction currentBlockNumber indeterminate = .ok m₁)
    (hclear : m₁.clearOffersForProduction s params prices = .ok (m₂, s', details)) : m₂.InPlace := by
  have hcommitted := hm.genericMap (fun _ _ _ => Orderbook.commitForProduction_stays) hcommit
  exact hcommitted.clearOffersForProduction hclear

/-- The executions of the new offers that validation clears at once. -/
def aheadExecutions (checker : OrderbookStateCommitmentChecker) (c : SingleOrderbookStateCommitment)
    (new : OfferKey → Bool) (ob : Orderbook) : List Execution :=
  (ahead c new ob.committedOffers).map
    (·.fullExecution (checker.prices.getD ob.category.sellAsset.toNat 0)
      (checker.prices.getD ob.category.buyAsset.toNat 0) checker.taxRate)

/-- Production has cleared an orderbook, and validation can follow. -/
structure Produced (checker : OrderbookStateCommitmentChecker) (ids : SortedMap AccountID Nat)
    (ob ob' : Orderbook) (c : SingleOrderbookStateCommitment) (es : List Execution) : Prop where
  threshold : c.checkThresholdKey = true
  credits : ∃ sellPrice buyPrice,
    vectorAt checker.prices ob.category.sellAsset.toNat = .ok sellPrice ∧
      vectorAt checker.prices ob.category.buyAsset.toNat = .ok buyPrice ∧
      ∀ new, ∀ o ∈ ahead c new ob.committedOffers,
        ∃ buyAmount, fullBuyAmount o sellPrice buyPrice checker.taxRate = .ok buyAmount
  validates : ∀ (new : OfferKey → Bool) (obv : Orderbook) (sv : ClearingState) (act : FractionalAsset),
    Anticipates c new ob obv → sv.db.userIdToIdxMap = ids →
      act.value.toNat = amountOf (ahead c new ob.committedOffers) * 2 ^ 10 →
        Validates checker c obv sv act (aheadExecutions checker c new ob) es ob'.committedOffers.offers

/-- The offers of an orderbook can be cleared and are of its category. -/
structure Tradable (ob : Orderbook) (db : MemoryDatabase) : Prop where
  clearable : ob.committedOffers.Clearable db
  category : ∀ k leaf, ob.committedOffers.find? k = some leaf → leaf.offer.category = ob.category

variable {checker : OrderbookStateCommitmentChecker} {params : ClearingParams}
  {s s' : ClearingState} {ob ob' : Orderbook} {c : SingleOrderbookStateCommitment}

theorem Tradable.congr {db db' : MemoryDatabase} (h : Tradable ob db)
    (hids : db'.userIdToIdxMap = db.userIdToIdxMap) : Tradable ob db' := by
  refine ⟨⟨h.clearable.keyed, h.clearable.priced, h.clearable.positive, fun key leaf hfind => ?_,
    h.clearable.total⟩, h.category⟩
  rw [MemoryDatabase.lookupUser, hids]
  exact h.clearable.owned key leaf hfind

theorem processClear_produced {supply : FractionalAsset}
    (h : ob.ProcessClear s supply checker.prices checker.taxRate ob' s' c)
    (htradable : Tradable ob s.db) :
    ∃ es, Executes s s' es ∧ c.supplyActivated = supply ∧
      Produced checker s.db.userIdToIdxMap ob ob' c es := by
  obtain ⟨sellPrice, buyPrice, hsell, hbuy⟩ := h.exists_prices
  obtain ⟨es, hexecutes, hthreshold, hsupply, -⟩ :=
    h.validates (fun _ => false) htradable.clearable htradable.category hsell hbuy
  have hcredits : ∀ new, ∀ o ∈ ahead c new ob.committedOffers,
      ∃ buyAmount, fullBuyAmount o sellPrice buyPrice checker.taxRate = .ok buyAmount :=
    fun new o ho => (h.clears_ahead hsell hbuy ho).credit
  refine ⟨es, hexecutes, hsupply, hthreshold, ⟨sellPrice, buyPrice, hsell, hbuy, hcredits⟩,
    fun new obv sv act hant hids hact => ?_⟩
  obtain ⟨es', hexecutes', -, -, hvalidates⟩ :=
    h.validates new htradable.clearable htradable.category hsell hbuy
  have hsame : es' = es := List.append_cancel_left (hexecutes'.executed.symm.trans hexecutes.executed)
  rw [aheadExecutions, getD_of_vectorAt hsell, getD_of_vectorAt hbuy, ← hsame]
  exact hvalidates obv sv act hant hids hact

/-- What production has done with orderbook `j`. -/
def ProducedAt (checker : OrderbookStateCommitmentChecker) (ids : SortedMap AccountID Nat)
    (obs obs' : List Orderbook) (details : OrderbookStateCommitment) (ess : List (List Execution))
    (j : Nat) : Prop :=
  ∀ ob, obs[j]? = some ob → ∃ ob' c es, obs'[j]? = some ob' ∧ details[j]? = some c ∧
    ess[j]? = some es ∧ Produced checker ids ob ob' c es

theorem clearBooks_produced {i : Nat} {obs obs' : List Orderbook} {details : OrderbookStateCommitment}
    (h : clearBooksForProduction params checker.prices i obs s = .ok (obs', s', details))
    (htax : params.taxRate = checker.taxRate) (htradable : ∀ ob ∈ obs, Tradable ob s.db) :
    ∃ ess : List (List Execution), Executes s s' ess.flatten ∧ ess.length = obs.length ∧
      obs'.length = obs.length ∧
      details.map SingleOrderbookStateCommitment.supplyActivated =
        (params.orderbookParams.drop i).take obs.length ∧
      ∀ j, ProducedAt checker s.db.userIdToIdxMap obs obs' details ess j := by
  induction obs generalizing i s obs' details with
  | nil =>
    cases h
    refine ⟨[], ⟨(List.append_nil _).symm, rfl⟩, rfl, rfl, by simp, fun j ob hob => ?_⟩
    cases hob
  | cons ob obs ih =>
    obtain ⟨supply, hsupply, h⟩ := bind_eq_ok.mp h
    obtain ⟨⟨ob₁, s₁, c⟩, hclear, h⟩ := bind_eq_ok.mp h
    obtain ⟨⟨obs₁, s₂, details₁⟩, hrest, h⟩ := bind_eq_ok.mp h
    cases h
    rw [htax] at hclear
    obtain ⟨es, hexecutes, hactivated, hproduced⟩ :=
      processClear_produced (Orderbook.processClear_cases hclear) (htradable ob List.mem_cons_self)
    obtain ⟨ess, hexecutes', hess, hobs, hdetails, hall⟩ := ih hrest fun ob' hob' =>
      (htradable ob' (List.mem_cons_of_mem ob hob')).congr hexecutes.ids
    refine ⟨es :: ess, hexecutes.trans hexecutes', by simp [hess], by simp [hobs], ?_, fun j => ?_⟩
    · have hlt := (List.getElem?_eq_some_iff.mp (vectorAt_eq_ok.mp hsupply)).1
      have hget := (List.getElem?_eq_some_iff.mp (vectorAt_eq_ok.mp hsupply)).2
      rw [List.map_cons, hdetails, hactivated, List.drop_eq_getElem_cons hlt, hget,
        List.length_cons, List.take_succ_cons]
    · intro ob' hob'
      cases j with
      | zero =>
        cases hob'
        exact ⟨ob₁, c, es, rfl, rfl, rfl, hproduced⟩
      | succ j =>
        rw [hexecutes.ids] at hall
        exact hall j ob' hob'

/-! ### What validation has received -/

/-- An orderbook of validation before the commit, against that of production: the new offers that
clear at once are missing.  New offers have new keys. -/
structure Receives (c : SingleOrderbookStateCommitment) (ob obv : Orderbook) : Prop where
  category : obv.category = ob.category
  committed : obv.committedOffers.clearRollback = ob.committedOffers.clearRollback
  uncommitted : obv.uncommittedOffers.offers =
    ob.uncommittedOffers.offers.filter fun k _ => !c.clearsAtOnce k
  fresh : ∀ k leaf, ob.uncommittedOffers.find? k = some leaf → ob.committedOffers.find? k = none

/-- The new offers that clear at once. -/
def atOnce (c : SingleOrderbookStateCommitment) (ob : Orderbook) : List Offer :=
  SortedMap.values (ob.uncommittedOffers.offers.filter fun k _ => c.clearsAtOnce k)

/-- The offers of an orderbook after the commit: the new ones, and the others that are not
cancelled. -/
theorem find?_merged_offers (ob : Orderbook) (k : OfferKey) :
    ob.merged.offers.find? k = (ob.uncommittedOffers.offers.find? k).or
      (((ob.committedOffers.clearRollback.find? k).filter fun leaf => !leaf.deleted).map
        OfferLeaf.offer) := by
  rw [OrderbookTrie.find?_offers, Orderbook.merged, OrderbookTrie.mergeIn, SortedMap.find?_union,
    OrderbookTrie.find?_offers, OrderbookTrie.find?_clearRollback]
  dsimp only [OrderbookTrie.performMarkedDeletions]
  rw [SortedMap.find?_filter]
  cases ob.uncommittedOffers.find? k with
  | some leaf => rfl
  | none =>
    cases ob.committedOffers.find? k with
    | none => rfl
    | some leaf => cases hdeleted : leaf.deleted <;> simp [Option.filter_some, hdeleted]

theorem Receives.anticipates {obv obv₁ : Orderbook} {n : UInt64} {b : Bool} (h : Receives c ob obv)
    (hcategory : ob'.category = ob.category) (hmerged : ob'.committedOffers = ob.merged)
    (hobv : obv.tentativeCommitForValidation n b = .ok obv₁) :
    Anticipates c ob.uncommittedOffers.contains ob' obv₁ := by
  rw [Orderbook.tentativeCommitForValidation_eq_ok hobv]
  refine ⟨h.category.trans hcategory.symm, ?_, by simp⟩
  refine SortedMap.ext_find fun k => ?_
  have hnew : (obv.uncommittedOffers.offers.find? k) =
      (ob.uncommittedOffers.offers.find? k).filter fun _ => !c.clearsAtOnce k := by
    rw [h.uncommitted, SortedMap.find?_filter]
  rw [SortedMap.find?_filter, hmerged]
  dsimp only
  rw [find?_merged_offers, find?_merged_offers, hnew, h.committed, OrderbookTrie.find?_offers,
    OrderbookTrie.find?_clearRollback]
  simp only [SortedMap.contains]
  cases hleaf : ob.uncommittedOffers.find? k with
  | none =>
    simp only [Option.map_none, Option.isSome_none, Bool.false_and, Bool.not_false, Option.filter_none,
      Option.none_or]
    cases Option.map OfferLeaf.offer _ <;> rfl
  | some leaf =>
    rw [h.fresh k leaf hleaf]
    cases c.clearsAtOnce k <;> rfl

theorem ahead_merged (c : SingleOrderbookStateCommitment) (ob : Orderbook) :
    ahead c ob.uncommittedOffers.contains ob.merged = atOnce c ob := by
  rw [ahead, atOnce]
  congr 1
  refine SortedMap.ext_find fun k => ?_
  rw [SortedMap.find?_filter, SortedMap.find?_filter, find?_merged_offers, OrderbookTrie.find?_offers]
  simp only [SortedMap.contains]
  cases hleaf : ob.uncommittedOffers.find? k with
  | none => simp
  | some leaf => rfl

/-- The executions of the new offers of orderbook `i` that clear at once. -/
def executedAtOnce (m : OrderbookManager) (checker : OrderbookStateCommitmentChecker) (i : Nat) :
    List Execution :=
  match m.orderbooks[i]?, checker.commitments[i]? with
  | some ob, some c => (atOnce c ob).map
    (·.fullExecution (checker.prices.getD ob.category.sellAsset.toNat 0)
      (checker.prices.getD ob.category.buyAsset.toNat 0) checker.taxRate)
  | _, _ => []

/-- Validation has processed the transactions of the block as production did, and has also cleared
the new offers that clear at once, in some order. -/
structure Follows (m mv : OrderbookManager) (checker : OrderbookStateCommitmentChecker)
    (s sv : ClearingState) (stats : ValidationStatistics) : Prop where
  length : mv.orderbooks.length = m.orderbooks.length
  receives : ∀ (i : Nat) (ob obv : Orderbook) (c : SingleOrderbookStateCommitment),
    m.orderbooks[i]? = some ob → mv.orderbooks[i]? = some obv → checker.commitments[i]? = some c →
      Receives c ob obv
  balances : ∃ es : List Execution,
    es.Perm ((List.range m.orderbooks.length).flatMap (m.executedAtOnce checker)) ∧
      MemoryDatabase.SameBalances (es.foldl Execution.credit s.db) sv.db
  supplies : ∀ (i : Nat) (ob : Orderbook) (c : SingleOrderbookStateCommitment),
    m.orderbooks[i]? = some ob → checker.commitments[i]? = some c →
      (stats.get i).value.toNat = amountOf (atOnce c ob) * 2 ^ 10

/-- A commitment before the orderbook is hashed. -/
def withoutRootHash (c : SingleOrderbookStateCommitment) : SingleOrderbookStateCommitment :=
  { c with rootHash := 0 }

/-- The header has the commitments of production, and root hashes. -/
structure Announces (checker : OrderbookStateCommitmentChecker) (params : ClearingParams)
    (details : OrderbookStateCommitment) : Prop where
  taxRate : params.taxRate = checker.taxRate
  commitments : checker.commitments.map withoutRootHash = details.map withoutRootHash

theorem Announces.commitment {details : OrderbookStateCommitment} {i : Nat}
    (h : Announces checker params details) (hc : details[i]? = some c) :
    ∃ r, checker.commitments[i]? = some { c with rootHash := r } := by
  have hat := congrArg (·[i]?) h.commitments
  simp only [List.getElem?_map, hc, Option.map_some, Option.map_eq_some_iff] at hat
  obtain ⟨c', hc', heq⟩ := hat
  refine ⟨c'.rootHash, hc'.trans ?_⟩
  cases c
  cases c'
  simpa [withoutRootHash] using heq

theorem Announces.supplies {details : OrderbookStateCommitment} (h : Announces checker params details) :
    checker.commitments.map SingleOrderbookStateCommitment.supplyActivated =
      details.map SingleOrderbookStateCommitment.supplyActivated := by
  have hmap := congrArg (List.map SingleOrderbookStateCommitment.supplyActivated) h.commitments
  rw [List.map_map, List.map_map] at hmap
  exact hmap

theorem Announces.length {details : OrderbookStateCommitment} (h : Announces checker params details) :
    checker.commitments.length = details.length := by
  simpa using congrArg List.length h.commitments

theorem get_makeMinimumSize (stats : ValidationStatistics) (n i : Nat) :
    (stats.makeMinimumSize n).get i = stats.get i := by
  unfold ValidationStatistics.get ValidationStatistics.makeMinimumSize
  split
  · rw [List.getD_eq_getElem?_getD, List.getElem?_append, List.getD_eq_getElem?_getD]
    split
    · rfl
    · rename_i hlt
      rw [List.getElem?_eq_none (not_lt.mp hlt), List.getElem?_replicate]
      split <;> rfl
  · rfl

theorem lt_length_makeMinimumSize (stats : ValidationStatistics) (n : Nat) :
    n < (stats.makeMinimumSize n).length := by
  unfold ValidationStatistics.makeMinimumSize
  split
  · rw [List.length_append, List.length_replicate]
    omega
  · rename_i hlt
    exact not_le.mp hlt

/-- Every orderbook of validation can follow production. -/
theorem Follows.ready {m m₁ mv mv₁ : OrderbookManager} {currentBlockNumber : UInt64}
    {indeterminate indeterminate' : Nat → Bool} {sv : ClearingState} {details : OrderbookStateCommitment}
    {stats : ValidationStatistics} {obs : List Orderbook} {ess : List (List Execution)} {i : Nat}
    (h : Follows m mv checker s sv stats)
    (hcommit : m.commitForProduction currentBlockNumber indeterminate = .ok m₁)
    (hcommit' : mv.commitForValidation currentBlockNumber indeterminate' = .ok mv₁)
    (hannounces : Announces checker params details)
    (hproduced : ProducedAt checker s.db.userIdToIdxMap m₁.orderbooks obs details ess i)
    (hi : i < mv₁.orderbooks.length) :
    TentativeClearing.ReadyAt checker s.db.userIdToIdxMap
      (fun i => ((obs[i]?).map fun ob => ob.committedOffers.offers).getD ∅)
      (m.executedAtOnce checker) (fun i => ess.getD i [])
      ⟨mv₁.orderbooks, sv, stats.makeMinimumSize mv₁.orderbooks.length⟩ i := by
  rw [length_of_genericMap hcommit'] at hi
  obtain ⟨obv, hobv⟩ : ∃ obv, mv.orderbooks[i]? = some obv := ⟨_, List.getElem?_eq_getElem hi⟩
  obtain ⟨ob, hob⟩ : ∃ ob, m.orderbooks[i]? = some ob :=
    ⟨_, List.getElem?_eq_getElem (h.length ▸ hi)⟩
  obtain ⟨obv₁, hobv₁, hcommitv⟩ := getElem?_of_genericMap hcommit' hobv
  obtain ⟨ob₁, hob₁, hcommitp⟩ := getElem?_of_genericMap hcommit hob
  obtain ⟨ob', c, es, hob', hc, hes, hproduced⟩ := hproduced ob₁ hob₁
  obtain ⟨r, hr⟩ := hannounces.commitment hc
  have hob₁ := Orderbook.commitForProduction_eq_ok hcommitp
  have hcategory : ob₁.category = ob.category := by rw [hob₁]
  have hmerged : ob₁.committedOffers = ob.merged := by rw [hob₁]
  have hant := (h.receives i ob obv _ hob hobv hr).anticipates hcategory hmerged hcommitv
  have hact : ((stats.makeMinimumSize mv₁.orderbooks.length).get i).value.toNat =
      amountOf (ahead c ob.uncommittedOffers.contains ob₁.committedOffers) * 2 ^ 10 := by
    have hsupplies := h.supplies i ob _ hob hr
    rw [get_makeMinimumSize, hmerged, ahead_merged]
    exact hsupplies
  have hahead : m.executedAtOnce checker i =
      aheadExecutions checker c ob.uncommittedOffers.contains ob₁ := by
    rw [executedAtOnce, aheadExecutions, hob, hr, hcategory, hmerged, ahead_merged]
    rfl
  refine ⟨(List.getElem?_eq_some_iff.mp hobv₁).1.trans (lt_length_makeMinimumSize ..), obv₁, _, hobv₁,
    hr, fun sv' hids => ?_⟩
  have hvalidates := hproduced.validates ob.uncommittedOffers.contains obv₁ sv' _
    ⟨hant.category, hant.offers, hant.thunks⟩ hids hact
  simp only [hob', hahead, Option.map_some, Option.getD_some, List.getD_eq_getElem?_getD, hes]
  exact hvalidates

theorem flatMap_range_getD {α : Type} (l : List (List α)) :
    (List.range l.length).flatMap (fun i => l.getD i []) = l.flatten := by
  have hmap : (List.range l.length).map (fun i => l.getD i []) = l := by
    refine List.ext_getElem (by simp) fun i hi hi' => ?_
    simp [hi']
  rw [List.flatMap_def, hmap]

/-- Validation accepts the clearing of a block that production has made, and ends with the same
offers and the same balances. -/
theorem production_validates (m m₁ m₂ mv mv₁ : OrderbookManager) (currentBlockNumber : UInt64)
    (indeterminate indeterminate' : Nat → Bool) (s s' sv : ClearingState) (params : ClearingParams)
    (details : OrderbookStateCommitment) (checker : OrderbookStateCommitmentChecker)
    (stats : ValidationStatistics) (ranges : List (List Nat))
    (hcommit : m.commitForProduction currentBlockNumber indeterminate = .ok m₁)
    (htradable : ∀ ob ∈ m₁.orderbooks, Tradable ob s.db)
    (hparams : params.orderbookParams.length = m₁.orderbooks.length)
    (hcheck : params.checkClearing checker.prices = .ok true)
    (hclear : m₁.clearOffersForProduction s params checker.prices = .ok (m₂, s', details))
    (hannounces : Announces checker params details) (hfollows : Follows m mv checker s sv stats)
    (hcommit' : mv.commitForValidation currentBlockNumber indeterminate' = .ok mv₁)
    (hsplit : Splits ranges mv₁) :
    checker.checkClearing = .ok true ∧
      ∃ c, mv₁.tentativeClearOffersForValidation sv stats checker ranges = .ok (true, c) ∧
        checker.checkStats c.stats = true ∧ MemoryDatabase.SameBalances s'.db c.state.db ∧
        ∀ (i : Nat) (ob : Orderbook), m₂.orderbooks[i]? = some ob → ∃ obv : Orderbook,
          c.orderbooks[i]? = some obv ∧ obv.committedOffers.offers = ob.committedOffers.offers := by
  obtain ⟨⟨obs, s₁, details₁⟩, hbooks, h⟩ := bind_eq_ok.mp hclear
  cases h
  obtain ⟨ess, hexecutes, hess, hobs, hdetails, hproduced⟩ :=
    clearBooks_produced hbooks hannounces.taxRate htradable
  have hlength := length_of_genericMap hcommit
  have hlength' := length_of_genericMap hcommit'
  have hn : mv₁.orderbooks.length = m₁.orderbooks.length := by
    rw [hlength', hlength, hfollows.length]
  have hsupplies : checker.commitments.map SingleOrderbookStateCommitment.supplyActivated =
      params.orderbookParams := by
    rw [hannounces.supplies, hdetails, List.drop_zero, ← hparams, List.take_length]
  refine ⟨?_, ?_⟩
  · rw [OrderbookStateCommitmentChecker.checkClearing, hsupplies, ← hannounces.taxRate]
    exact hcheck
  obtain ⟨esv, hesv, hbalances⟩ := hfollows.balances
  have hids : sv.db.userIdToIdxMap = s.db.userIdToIdxMap := by
    rw [hbalances.ids, MemoryDatabase.credits_ids]
  obtain ⟨c, hreturns, hclears⟩ := TentativeClearing.clearRanges_clears
    (hsplit.symm.nodup List.nodup_range) (fun i hi => hfollows.ready hcommit hcommit' hannounces
      (hproduced i) (List.mem_range.mp (hsplit.mem_iff.mp hi))) hids
  obtain ⟨es', hexecutes', hperm⟩ := hclears.executes
  have hcleared : ∀ i, i < m₁.orderbooks.length → TentativeClearing.ClearedAt checker
      (fun i => ((obs[i]?).map fun ob => ob.committedOffers.offers).getD ∅) c i := fun i hi =>
    hclears.cleared i (hsplit.mem_iff.mpr (List.mem_range.mpr (hn ▸ hi)))
  refine ⟨c, hreturns, ?_, ?_, fun i ob hob => ?_⟩
  · refine List.all_eq_true.mpr fun i hi => ?_
    have hi : i < m₁.orderbooks.length := by
      have hmap := congrArg List.length hsupplies
      rw [List.length_map, hparams] at hmap
      exact hmap ▸ List.mem_range.mp hi
    obtain ⟨ob', c', es, hob', hc', hes, hproduced⟩ :=
      hproduced i _ (List.getElem?_eq_getElem hi)
    obtain ⟨r, hr⟩ := hannounces.commitment hc'
    have hsupply := (hcleared i hi).supply _ hr
    dsimp only
    rw [List.getD_eq_getElem?_getD, hr, Option.getD_some, Bool.and_eq_true, decide_eq_true_eq]
    exact ⟨hsupply, hproduced.threshold⟩
  · -- what validation has executed ahead and afterwards is what production has executed
    have hahead : ((List.range m.orderbooks.length).flatMap (m.executedAtOnce checker)).Perm
        (ranges.flatten.flatMap (m.executedAtOnce checker)) := by
      refine List.Perm.flatMap_right _ ?_
      rw [← hlength, ← hn]
      exact hsplit.symm
    have hall : (ranges.flatten.flatMap fun i => ess.getD i []).Perm ess.flatten := by
      refine (List.Perm.flatMap_right _ hsplit).trans ?_
      rw [hn, ← hess, flatMap_range_getD]
    have hsame := (hbalances.credits (List.Perm.refl es'))
    rw [← List.foldl_append, ← hexecutes'.db] at hsame
    have hexecuted := ((hesv.trans hahead).append_right es').trans (hperm.trans hall)
    rw [hexecutes.db]
    exact (MemoryDatabase.SameBalances.refl.credits hexecuted.symm).trans hsame
  · have hi : i < m₁.orderbooks.length := hobs ▸ (List.getElem?_eq_some_iff.mp hob).1
    obtain ⟨obv, hobv, htarget⟩ := (hcleared i hi).offers
    have hob : obs[i]? = some ob := hob
    refine ⟨obv, hobv, ?_⟩
    rw [htarget, hob]
    rfl

end OrderbookManager

end Speedex
