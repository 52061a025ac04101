import Speedex.BlockProcessing.Rejected
import Speedex.Vm.ProducedBlock

/-! The new offers of a block, in production and in validation
(`ProcessingSerialManager::add_offer` and `ValidatingSerialManager::add_offer` of
`orderbook/orderbook_manager_view.h`).  Validation may work on them in another order. -/

namespace Speedex

open Lib

/-- A call to `add_offer`. -/
structure NewOffer where
  idx : Nat
  offer : Offer
  metadata : OperationMetadata

/-- The calls to `add_offer` in a block. -/
def addAll {M V : Type} [SerialManager M] [DatabaseView V] (l : List NewOffer)
    (s : HandlerState M V) : Result (HandlerState M V) :=
  l.foldlM (fun s a => SerialManager.addOffer a.idx a.offer a.metadata s) s

/-- The offers for orderbook `i`, under their keys. -/
def keyed (i : Nat) (l : List NewOffer) : List (OfferKey × Offer) :=
  (l.filter fun a => a.idx = i).map fun a => (a.offer.key, a.offer)

/-- The offers that a serial manager has for orderbook `i`. -/
def offersFor (newOffers : List OrderbookTrie) (i : Nat) : SortedMap OfferKey Offer :=
  OrderbookTrie.offers (newOffers.getD i ∅)

theorem keyed_cons (i : Nat) (a : NewOffer) (l : List NewOffer) :
    keyed i (a :: l) = if a.idx = i then (a.offer.key, a.offer) :: keyed i l else keyed i l := by
  unfold keyed
  rw [List.filter_cons]
  by_cases h : a.idx = i <;> simp [h]

/-- An offer goes into the trie of its orderbook. -/
theorem offersFor_modify {newOffers : List OrderbookTrie} {idx i : Nat}
    {f : OrderbookTrie → OrderbookTrie} {k : OfferKey} {o : Offer}
    (hf : ∀ t, OrderbookTrie.offers (f t) = t.offers.insert k o) :
    offersFor ((ensureSufficientNewOffersSz newOffers idx).modify idx f) i =
      if idx = i then (offersFor newOffers i).insert k o else offersFor newOffers i := by
  unfold offersFor
  rw [ProcessingSerialManager.getD_modify _ _ (by simp), ProcessingSerialManager.getD_ensure]
  split
  · exact hf _
  · rfl

/-! ### Production -/

section Production

variable {V : Type} [DatabaseView V] {s s' : HandlerState ProcessingSerialManager V} {l : List NewOffer}

/-- Production keeps all new offers. -/
theorem addAll_production (h : addAll l s = .ok s') :
    s'.db = s.db ∧ s'.books = s.books ∧
      ∀ i, offersFor s'.manager.newOffers i = (offersFor s.manager.newOffers i).insertAll (keyed i l) := by
  induction l generalizing s with
  | nil =>
    cases h
    exact ⟨rfl, rfl, fun i => rfl⟩
  | cons a l ih =>
    obtain ⟨s₁, hstep, h⟩ := foldlM_cons.mp h
    cases hstep
    obtain ⟨hdb, hbooks, hoffers⟩ := ih h
    refine ⟨hdb, hbooks, fun i => ?_⟩
    have hfirst := @offersFor_modify s.manager.newOffers a.idx i
      (·.insertOffer a.offer.key a.offer) a.offer.key a.offer
      fun t => OrderbookTrie.offers_insertOffer t _ _
    rw [hoffers i, keyed_cons]
    refine (congrArg (SortedMap.insertAll · (keyed i l)) hfirst).trans ?_
    split <;> rfl

end Production

/-! ### Validation -/

section Validation

variable {checker : OrderbookStateCommitmentChecker}
  {s s' : HandlerState ValidatingSerialManager UnbufferedMemoryDatabaseView} {l : List NewOffer}

/-- The header says that a new offer clears at once. -/
def NewOffer.clearsAtOnce (checker : OrderbookStateCommitmentChecker) (a : NewOffer) : Bool :=
  (checker.commitments[a.idx]?).any fun c => c.clearsAtOnce a.offer.key

/-- The execution of an offer that clears at once. -/
def NewOffer.execution (checker : OrderbookStateCommitmentChecker) (a : NewOffer) : Execution :=
  a.offer.fullExecution (checker.prices.getD a.offer.category.sellAsset.toNat 0)
    (checker.prices.getD a.offer.category.buyAsset.toNat 0) checker.taxRate

/-- The supply of offers, as the statistics have it. -/
def supplyOfOffers (offers : List Offer) : FractionalAsset :=
  .fromIntegral (.ofNat 128 (amountOf offers))

/-- The metadata of the operation are those of the owner of the offer. -/
def NewOffer.Owned (db : MemoryDatabase) (a : NewOffer) : Prop :=
  db.lookupUser a.offer.owner = some a.metadata.sourceAccountIdx

theorem supplyOfOffers_append (offers offers' : List Offer) :
    supplyOfOffers offers + supplyOfOffers offers' = supplyOfOffers (offers ++ offers') := by
  refine congrArg FractionalAsset.mk ?_
  rw [Orderbook.amountOf_append, BitVec.ofNat_add]
  exact (BitVec.shiftLeft_add_distrib ..).symm

theorem supplyOfOffers_singleton (o : Offer) :
    supplyOfOffers [o] = .fromIntegral (widenUInt64 o.amount) := by
  have hamount : BitVec.ofNat 128 (amountOf [o]) = widenUInt64 o.amount :=
    BitVec.eq_of_toNat_eq (by simp [widenUInt64, amountOf])
  rw [supplyOfOffers, hamount]

theorem add_zero_supply (x : FractionalAsset) : x + supplyOfOffers [] = x :=
  congrArg FractionalAsset.mk (BitVec.add_zero x.value)

theorem offers_insertRollback (t : OrderbookTrie) (k : OfferKey) (o : Offer) :
    (t.insertRollback k o).offers = t.offers.insert k o := by
  refine SortedMap.ext_find fun k' => ?_
  rw [OrderbookTrie.find?_offers, OrderbookTrie.insertRollback, SortedMap.find?_insert,
    SortedMap.find?_insert, OrderbookTrie.find?_offers]
  split <;> rfl

/-- What calls to `add_offer` do: the offers that clear at once are executed and counted, and the
others are kept. -/
structure Added (checker : OrderbookStateCommitmentChecker) (l : List NewOffer)
    (s s' : HandlerState ValidatingSerialManager UnbufferedMemoryDatabaseView) : Prop where
  commitment : s'.manager.clearingCommitment = s.manager.clearingCommitment
  books : s'.books = s.books
  offers : ∀ i, offersFor s'.manager.newOffers i =
    (offersFor s.manager.newOffers i).insertAll (keyed i (l.filter fun a => !a.clearsAtOnce checker))
  supplies : ∀ i, s'.manager.activatedSupplies.get i = s.manager.activatedSupplies.get i +
    supplyOfOffers ((keyed i (l.filter (·.clearsAtOnce checker))).map (·.2))
  executed : s'.manager.executed =
    s.manager.executed ++ (l.filter (·.clearsAtOnce checker)).map (·.execution checker)
  db : s'.db =
    ((l.filter (·.clearsAtOnce checker)).map (·.execution checker)).foldl Execution.credit s.db

theorem Added.refl : Added checker [] s s :=
  ⟨rfl, rfl, fun _ => rfl, fun _ => (add_zero_supply _).symm, (List.append_nil _).symm, rfl⟩

theorem keyed_append (i : Nat) (l l' : List NewOffer) : keyed i (l ++ l') = keyed i l ++ keyed i l' := by
  simp [keyed]

theorem Added.trans {s'' : HandlerState ValidatingSerialManager UnbufferedMemoryDatabaseView}
    {l' : List NewOffer} (h : Added checker l s s') (h' : Added checker l' s' s'') :
    Added checker (l ++ l') s s'' := by
  refine ⟨h'.commitment.trans h.commitment, h'.books.trans h.books, fun i => ?_, fun i => ?_, ?_, ?_⟩
  · rw [h'.offers, h.offers, List.filter_append, keyed_append, SortedMap.insertAll_append]
  · rw [h'.supplies, h.supplies, List.filter_append, keyed_append, List.map_append,
      ← supplyOfOffers_append]
    exact congrArg FractionalAsset.mk (BitVec.add_assoc ..)
  · rw [h'.executed, h.executed, List.filter_append, List.map_append, List.append_assoc]
  · rw [h'.db, h.db, List.filter_append, List.map_append, List.foldl_append]

theorem get_addAt (stats : ValidationStatistics) (idx i : Nat) (x : FractionalAsset) :
    (stats.addAt idx x).get i = if idx = i then stats.get i + x else stats.get i := by
  have hlt := OrderbookManager.lt_length_makeMinimumSize stats idx
  have hget := OrderbookManager.get_makeMinimumSize stats idx
  unfold ValidationStatistics.get at hget ⊢
  unfold ValidationStatistics.addAt
  rw [List.getD_eq_getElem?_getD, List.getElem?_modify, ← hget i]
  by_cases h : idx = i
  · subst h
    rw [if_pos rfl, List.getD_eq_getElem?_getD, List.getElem?_eq_getElem hlt]
    simp
  · simp [h]

theorem offersFor_ensure (newOffers : List OrderbookTrie) (idx i : Nat) :
    offersFor (ensureSufficientNewOffersSz newOffers idx) i = offersFor newOffers i := by
  unfold offersFor
  rw [ProcessingSerialManager.getD_ensure]

theorem clearNewOffer_added {a : NewOffer} (hchecker : s.manager.clearingCommitment = checker)
    (howned : a.Owned s.db) (hclears : a.clearsAtOnce checker = true)
    (h : ValidatingSerialManager.clearNewOffer a.idx a.offer a.metadata s = .ok s') :
    Added checker [a] s s' := by
  obtain ⟨sellPrice, hsell, h⟩ := bind_eq_ok.mp h
  obtain ⟨buyPrice, hbuy, h⟩ := bind_eq_ok.mp h
  obtain ⟨⟨buyAmount, credited⟩, hclear, h⟩ := bind_eq_ok.mp h
  obtain ⟨_, hamount, hclear⟩ := bind_eq_ok.mp hclear
  cases hclear
  cases h
  rw [hchecker] at hsell hbuy hamount
  have hone : [a].filter (·.clearsAtOnce checker) = [a] := by simp [hclears]
  have hnone : ([a].filter fun a => !a.clearsAtOnce checker) = [] := by simp [hclears]
  have hexecution : a.execution checker = ⟨a.offer, a.offer.amount, buyAmount⟩ := by
    rw [NewOffer.execution, getD_of_vectorAt hsell, getD_of_vectorAt hbuy]
    exact Offer.fullExecution_eq hamount
  refine ⟨rfl, rfl, fun i => ?_, fun i => ?_, ?_, ?_⟩
  · rw [hnone]
    rfl
  · rw [hone, keyed_cons]
    refine (get_addAt ..).trans ?_
    split
    · exact congrArg _ (supplyOfOffers_singleton a.offer).symm
    · exact (add_zero_supply _).symm
  · rw [hone, List.map_singleton, hexecution]
  · rw [hone, List.map_singleton, hexecution, List.foldl_cons, List.foldl_nil, Execution.credit]
    dsimp only
    rw [show s.db.lookupUser a.offer.owner = some a.metadata.sourceAccountIdx from howned]
    rfl

/-- The manager with tries and statistics up to an orderbook. -/
def prepared (s : HandlerState ValidatingSerialManager UnbufferedMemoryDatabaseView) (idx : Nat) :
    HandlerState ValidatingSerialManager UnbufferedMemoryDatabaseView :=
  { s with manager := { s.manager with
    activatedSupplies := s.manager.activatedSupplies.makeMinimumSize idx
    newOffers := ensureSufficientNewOffersSz s.manager.newOffers idx } }

theorem Added.of_prepared {idx : Nat} {l : List NewOffer} (h : Added checker l (prepared s idx) s') :
    Added checker l s s' := by
  refine ⟨h.commitment, h.books, fun i => ?_, fun i => ?_, h.executed, h.db⟩
  · rw [h.offers]
    exact congrArg (SortedMap.insertAll · _) (offersFor_ensure ..)
  · rw [h.supplies]
    exact congrArg (· + _) (OrderbookManager.get_makeMinimumSize ..)

/-- Accounts do not change owners. -/
theorem Added.owned {a : NewOffer} (h : Added checker l s s') (howned : a.Owned s.db) :
    a.Owned s'.db := by
  rw [NewOffer.Owned, MemoryDatabase.lookupUser, h.db, MemoryDatabase.credits_ids]
  exact howned

theorem addOffer_added {a : NewOffer} (hchecker : s.manager.clearingCommitment = checker)
    (howned : a.Owned s.db)
    (h : ValidatingSerialManager.addOffer a.idx a.offer a.metadata s = .ok s') :
    Added checker [a] s s' := by
  obtain ⟨c, hc, h⟩ := bind_eq_ok.mp h
  have hat : checker.commitments[a.idx]? = some c := by
    rw [← hchecker]
    exact vectorAt_eq_ok.mp hc
  have hclears : a.clearsAtOnce checker = c.clearsAtOnce a.offer.key := by
    rw [NewOffer.clearsAtOnce, hat]
    rfl
  have hfull := @clearNewOffer_added checker (prepared s a.idx) s' a hchecker howned
  split at h
  · rename_i hnull
    refine (hfull ?_ h).of_prepared
    rw [hclears, SingleOrderbookStateCommitment.clearsAtOnce, hnull]
    rfl
  rename_i hnull
  split at h
  · rename_i hkey
    have hkept : a.clearsAtOnce checker = false := by
      rw [hclears, SingleOrderbookStateCommitment.clearsAtOnce, decide_eq_false hnull,
        decide_eq_false (not_lt.mpr hkey)]
      rfl
    cases h
    refine ⟨rfl, rfl, fun i => ?_, fun i => ?_, ?_, ?_⟩
    · refine (offersFor_modify (f := (·.insertRollback a.offer.key a.offer)) fun t =>
        offers_insertRollback t _ _).trans ?_
      rw [List.filter_cons_of_pos (by simp [hkept]), keyed_cons]
      split <;> rfl
    · rw [List.filter_cons_of_neg (by simp [hkept])]
      refine (OrderbookManager.get_makeMinimumSize ..).trans (add_zero_supply _).symm
    · rw [List.filter_cons_of_neg (by simp [hkept])]
      exact (List.append_nil _).symm
    · rw [List.filter_cons_of_neg (by simp [hkept])]
      rfl
  · rename_i hkey
    refine (hfull ?_ h).of_prepared
    rw [hclears, SingleOrderbookStateCommitment.clearsAtOnce, decide_eq_true (not_le.mp hkey)]
    exact Bool.or_true _

/-- What `add_offer` needs from the header for a new offer. -/
structure NewOffer.Accepted (checker : OrderbookStateCommitmentChecker) (a : NewOffer) : Prop where
  commitment : ∃ c, checker.commitments[a.idx]? = some c
  credit : a.clearsAtOnce checker = true → ∃ sellPrice buyPrice buyAmount,
    vectorAt checker.prices a.offer.category.sellAsset.toNat = .ok sellPrice ∧
      vectorAt checker.prices a.offer.category.buyAsset.toNat = .ok buyPrice ∧
      fullBuyAmount a.offer sellPrice buyPrice checker.taxRate = .ok buyAmount

theorem clearNewOffer_returns {a : NewOffer} (hchecker : s.manager.clearingCommitment = checker)
    (haccepted : a.Accepted checker) (hclears : a.clearsAtOnce checker = true) :
    ∃ s', ValidatingSerialManager.clearNewOffer a.idx a.offer a.metadata s = .ok s' := by
  obtain ⟨sellPrice, buyPrice, buyAmount, hsell, hbuy, hamount⟩ := haccepted.credit hclears
  rw [← hchecker] at hsell hbuy hamount
  apply bind_returns ⟨sellPrice, hsell⟩
  intro sellPrice' hsell'
  cases hsell.symm.trans hsell'
  apply bind_returns ⟨buyPrice, hbuy⟩
  intro buyPrice' hbuy'
  cases hbuy.symm.trans hbuy'
  apply bind_returns (bind_returns ⟨buyAmount, hamount⟩ fun _ _ => ⟨_, rfl⟩)
  intro credited _
  exact ⟨_, rfl⟩

theorem addOffer_returns {a : NewOffer} (hchecker : s.manager.clearingCommitment = checker)
    (haccepted : a.Accepted checker) :
    ∃ s', ValidatingSerialManager.addOffer a.idx a.offer a.metadata s = .ok s' := by
  obtain ⟨c, hc⟩ := haccepted.commitment
  have hreturns := @clearNewOffer_returns checker (prepared s a.idx) a hchecker haccepted
  rw [NewOffer.clearsAtOnce, hc] at hreturns
  apply bind_returns ⟨c, vectorAt_eq_ok.mpr (hchecker ▸ hc)⟩
  intro c' hc'
  cases (vectorAt_eq_ok.mpr hc).symm.trans (hchecker ▸ hc')
  split
  · rename_i hnull
    apply hreturns
    rw [Option.any_some, SingleOrderbookStateCommitment.clearsAtOnce, hnull]
    rfl
  split
  · exact ⟨_, rfl⟩
  · rename_i hkey
    apply hreturns
    rw [Option.any_some, SingleOrderbookStateCommitment.clearsAtOnce, decide_eq_true (not_le.mp hkey)]
    exact Bool.or_true _

/-- Validation adds new offers for which the header has what it needs. -/
theorem addAll_returns (hchecker : s.manager.clearingCommitment = checker)
    (haccepted : ∀ a ∈ l, a.Accepted checker) (howned : ∀ a ∈ l, a.Owned s.db) :
    ∃ s', addAll l s = .ok s' := by
  induction l generalizing s with
  | nil => exact ⟨s, rfl⟩
  | cons a l ih =>
    obtain ⟨s₁, hstep⟩ := addOffer_returns hchecker (haccepted a List.mem_cons_self)
    have hadded := addOffer_added hchecker (howned a List.mem_cons_self) hstep
    obtain ⟨s', h⟩ := ih (hadded.commitment.trans hchecker)
      (fun a' ha' => haccepted a' (List.mem_cons_of_mem a ha'))
      (fun a' ha' => hadded.owned (howned a' (List.mem_cons_of_mem a ha')))
    exact ⟨s', foldlM_cons.mpr ⟨s₁, hstep, h⟩⟩

/-- Validation keeps the new offers that do not clear at once. -/
theorem addAll_validation (hchecker : s.manager.clearingCommitment = checker)
    (howned : ∀ a ∈ l, a.Owned s.db) (h : addAll l s = .ok s') : Added checker l s s' := by
  induction l generalizing s with
  | nil =>
    cases h
    exact .refl
  | cons a l ih =>
    obtain ⟨s₁, hstep, h⟩ := foldlM_cons.mp h
    have hadded := addOffer_added hchecker (howned a List.mem_cons_self) hstep
    apply hadded.trans (ih (hadded.commitment.trans hchecker) _ h)
    exact fun a' ha' => hadded.owned (howned a' (List.mem_cons_of_mem a ha'))

end Validation

/-! ### Both -/

/-- Items by their numbers. -/
theorem flatMap_filter_perm {α : Type} (f : α → Nat) (l : List α) (n : Nat) :
    ((List.range n).flatMap fun i => l.filter fun a => f a = i).Perm
      (l.filter fun a => decide (f a < n)) := by
  induction n with
  | zero => simp
  | succ n ih =>
    rw [List.range_succ, List.flatMap_append, List.flatMap_singleton]
    have hsplit := List.filter_append_perm (fun a => decide (f a < n))
      (l.filter fun a => decide (f a < n + 1))
    rw [List.filter_filter, List.filter_filter] at hsplit
    refine (ih.append_right _).trans (List.Perm.trans (List.Perm.of_eq ?_) hsplit)
    congr 1
    · refine List.filter_congr fun a _ => ?_
      by_cases h : f a < n <;> simp [h]
      omega
    · refine List.filter_congr fun a _ => ?_
      by_cases h : f a = n <;> simp [h]
      omega

section Entries

variable {K V : Type} [LinearOrder K] {l l' : List (K × V)}

theorem entries_insertAll (h : (l.map (·.1)).Nodup) : (SortedMap.insertAll ∅ l).entries.Perm l := by
  refine (List.perm_ext_iff_of_nodup (SortedMap.nodup_entries _) (List.Nodup.of_map _ h)).mpr
    fun a => ?_
  rw [SortedMap.mem_entries, SortedMap.find?_insertAll, SortedMap.lookup_reverse h,
    SortedMap.find?_empty, Option.or_none, SortedMap.lookup_eq_some h]

/-- Inserting some of the entries, in any order, is inserting all of them and filtering. -/
theorem insertAll_filter (h : (l.map (·.1)).Nodup) (hperm : l'.Perm l) (p : K → Bool) :
    SortedMap.insertAll ∅ (l'.filter fun a => p a.1) =
      (SortedMap.insertAll ∅ l).filter fun k _ => p k := by
  have h' : (l'.map (·.1)).Nodup := (hperm.map _).nodup_iff.mpr h
  have hfiltered : ((l'.filter fun a => p a.1).map (·.1)).Nodup := h'.sublist (List.filter_sublist.map _)
  have hentries : (SortedMap.insertAll ∅ (l'.filter fun a => p a.1)).entries.Perm
      ((SortedMap.insertAll ∅ l).filter fun k _ => p k).entries :=
    (entries_insertAll hfiltered).trans
      ((hperm.filter _).trans ((entries_insertAll h).symm.filter _))
  refine SortedMap.ext_find fun k => Option.ext fun v => ?_
  rw [← SortedMap.mem_entries, ← SortedMap.mem_entries]
  exact hentries.mem_iff

theorem values_insertAll_filter (h : (l.map (·.1)).Nodup) (p : K → Bool) :
    ((SortedMap.insertAll ∅ l).filter fun k _ => p k).values.Perm
      ((l.filter fun a => p a.1).map (·.2)) :=
  ((entries_insertAll h).filter _).map _

end Entries

section Follows

variable {checker : OrderbookStateCommitmentChecker} {l l' : List NewOffer} {i : Nat}
  {c : SingleOrderbookStateCommitment}

theorem keyed_clears (hc : checker.commitments[i]? = some c) (p : Bool → Bool) :
    keyed i (l.filter fun a => p (a.clearsAtOnce checker)) =
      (keyed i l).filter fun a => p (c.clearsAtOnce a.1) := by
  unfold keyed
  rw [List.filter_map, List.filter_filter, List.filter_filter]
  congr 1
  refine List.filter_congr fun a _ => ?_
  by_cases h : a.idx = i
  · simp [NewOffer.clearsAtOnce, h, hc]
  · simp [h]

/-- Each orderbook with its new offers. -/
def OrderbookManager.withNewOffers (m : OrderbookManager) (newOffers : List OrderbookTrie) :
    OrderbookManager :=
  { m with orderbooks := m.orderbooks.mapIdx fun i ob => ob.addOffers (newOffers.getD i ∅) }

/-- The same orderbooks before a block in production and in validation, without new offers. -/
structure SameBooks (m mv : OrderbookManager) : Prop where
  length : mv.orderbooks.length = m.orderbooks.length
  same : ∀ (i : Nat) (ob obv : Orderbook), m.orderbooks[i]? = some ob → mv.orderbooks[i]? = some obv →
    obv.category = ob.category ∧
      obv.committedOffers.clearRollback = ob.committedOffers.clearRollback ∧
      ob.uncommittedOffers = ∅ ∧ obv.uncommittedOffers = ∅

/-- New offers as operations make them: under a key of their own, for the orderbook of their
category, with the account of their owner. -/
structure WellMade (m : OrderbookManager) (db : MemoryDatabase) (l : List NewOffer) : Prop where
  nodup : ∀ i, ((keyed i l).map (·.1)).Nodup
  fresh : ∀ a ∈ l, ∃ ob, m.orderbooks[a.idx]? = some ob ∧ a.offer.category = ob.category ∧
    ob.committedOffers.find? a.offer.key = none
  owned : ∀ a ∈ l, a.Owned db
  total : amountOf (l.map (·.offer)) < 2 ^ 63

theorem addOffers_offers {ob : Orderbook} {t : OrderbookTrie} (h : ob.uncommittedOffers = ∅) :
    (ob.addOffers t).uncommittedOffers.offers = t.offers := by
  show OrderbookTrie.offers (OrderbookTrie.mergeIn ob.uncommittedOffers t) = _
  rw [h, OrderbookTrie.offers_mergeIn]
  refine SortedMap.ext_find fun k => ?_
  rw [SortedMap.find?_union, OrderbookTrie.offers_empty, SortedMap.find?_empty, Option.or_none]

theorem getElem?_withNewOffers {m : OrderbookManager} {newOffers : List OrderbookTrie} {ob : Orderbook}
    (h : (m.withNewOffers newOffers).orderbooks[i]? = some ob) :
    ∃ ob₀, m.orderbooks[i]? = some ob₀ ∧ ob = ob₀.addOffers (newOffers.getD i ∅) := by
  rw [OrderbookManager.withNewOffers, List.getElem?_mapIdx] at h
  obtain ⟨ob₀, hob₀, rfl⟩ := Option.map_eq_some_iff.mp h
  exact ⟨ob₀, hob₀, rfl⟩

section

variable {m mv : OrderbookManager} {db dbv : MemoryDatabase} {viewp : BufferedMemoryDatabaseView}
  {viewv : UnbufferedMemoryDatabaseView} {logp logv : ModificationTrie}
  {sp : HandlerState ProcessingSerialManager BufferedMemoryDatabaseView}
  {sv : HandlerState ValidatingSerialManager UnbufferedMemoryDatabaseView}

/-- The new offers that clear at once, by orderbook. -/
theorem atOnce_withNewOffers (hm : SameBooks m mv) (hlength : mv.orderbooks.length = m.orderbooks.length)
    (hnodup : ∀ i, ((keyed i l).map (·.1)).Nodup)
    (hoffers : ∀ i, offersFor sp.manager.newOffers i = SortedMap.insertAll ∅ (keyed i l))
    {ob : Orderbook} (hob : (m.withNewOffers sp.manager.newOffers).orderbooks[i]? = some ob)
    (hc : checker.commitments[i]? = some c) :
    (OrderbookManager.atOnce c ob).Perm
      ((l.filter fun a => a.clearsAtOnce checker && decide (a.idx = i)).map (·.offer)) := by
  obtain ⟨ob₀, hob₀, rfl⟩ := getElem?_withNewOffers hob
  obtain ⟨obv₀, hobv₀⟩ : ∃ obv, mv.orderbooks[i]? = some obv :=
    ⟨_, List.getElem?_eq_getElem (hlength ▸ (List.getElem?_eq_some_iff.mp hob₀).1)⟩
  obtain ⟨-, -, hempty, -⟩ := hm.same i ob₀ obv₀ hob₀ hobv₀
  rw [OrderbookManager.atOnce, addOffers_offers hempty]
  refine (List.Perm.of_eq (congrArg (fun t => SortedMap.values (SortedMap.filter t _))
    (hoffers i))).trans ((values_insertAll_filter (hnodup i) fun k => c.clearsAtOnce k).trans
      (List.Perm.of_eq ?_))
  rw [← keyed_clears hc fun b => b, keyed, List.map_map, List.filter_filter]
  simp only [Bool.and_comm]
  rfl

/-- The header of production has what validation needs for the new offers. -/
theorem accepted_of_produced {m₁ : OrderbookManager} {params : ClearingParams}
    {details : OrderbookStateCommitment} {currentBlockNumber : UInt64} {indeterminate : Nat → Bool}
    {obs : List Orderbook} {ess : List (List Execution)} (hm : SameBooks m mv)
    (hmade : WellMade m dbv l)
    (hoffers : ∀ i, offersFor sp.manager.newOffers i = SortedMap.insertAll ∅ (keyed i l))
    (hcommit : (m.withNewOffers sp.manager.newOffers).commitForProduction currentBlockNumber
      indeterminate = .ok m₁)
    (hannounces : OrderbookManager.Announces checker params details)
    (hproduced : ∀ j, OrderbookManager.ProducedAt checker sp.db.userIdToIdxMap m₁.orderbooks obs
      details ess j) : ∀ a ∈ l, a.Accepted checker := by
  intro a ha
  obtain ⟨ob₀, hob₀, hcategory, -⟩ := hmade.fresh a ha
  have hob : (m.withNewOffers sp.manager.newOffers).orderbooks[a.idx]? =
      some (ob₀.addOffers (sp.manager.newOffers.getD a.idx ∅)) := by
    rw [OrderbookManager.withNewOffers, List.getElem?_mapIdx, hob₀]
    rfl
  obtain ⟨ob₁, hob₁, hcommitp⟩ := OrderbookManager.getElem?_of_genericMap hcommit hob
  obtain ⟨ob', c, es, -, hc, -, hbook⟩ := hproduced a.idx ob₁ hob₁
  obtain ⟨r, hr⟩ := hannounces.commitment hc
  refine ⟨⟨_, hr⟩, fun hclears => ?_⟩
  obtain ⟨sellPrice, buyPrice, hsell, hbuy, hcredits⟩ := hbook.credits
  have hsame : ob₁.category = a.offer.category := by
    rw [Orderbook.commitForProduction_eq_ok hcommitp]
    exact hcategory.symm
  have hatOnce : a.offer ∈
      OrderbookManager.atOnce c (ob₀.addOffers (sp.manager.newOffers.getD a.idx ∅)) := by
    apply (atOnce_withNewOffers hm hm.length hmade.nodup hoffers hob hr).mem_iff.mpr
    exact List.mem_map.mpr ⟨a, List.mem_filter.mpr ⟨ha, by simp [hclears]⟩, rfl⟩
  rw [← OrderbookManager.ahead_merged] at hatOnce
  have hmerged : ob₁.committedOffers =
      (ob₀.addOffers (sp.manager.newOffers.getD a.idx ∅)).merged := by
    rw [Orderbook.commitForProduction_eq_ok hcommitp]
  obtain ⟨buyAmount, hamount⟩ := hcredits _ a.offer (hmerged ▸ hatOnce)
  rw [hsame] at hsell hbuy
  exact ⟨sellPrice, buyPrice, buyAmount, hsell, hbuy, hamount⟩

theorem executedAtOnce_perm (hmade : WellMade m dbv l)
    (hcommitments : checker.commitments.length = m.orderbooks.length)
    (hatOnce : ∀ i ob c, (m.withNewOffers sp.manager.newOffers).orderbooks[i]? = some ob →
      checker.commitments[i]? = some c → (OrderbookManager.atOnce c ob).Perm
        ((l.filter fun a => a.clearsAtOnce checker && decide (a.idx = i)).map (·.offer)))
    (hi : i < (m.withNewOffers sp.manager.newOffers).orderbooks.length) :
    ((m.withNewOffers sp.manager.newOffers).executedAtOnce checker i).Perm
      (((l.filter (·.clearsAtOnce checker)).filter fun a => a.idx = i).map (·.execution checker)) := by
  have hlt : i < m.orderbooks.length := by simpa [OrderbookManager.withNewOffers] using hi
  have hob := List.getElem?_eq_getElem hi
  have hc := List.getElem?_eq_getElem (hcommitments ▸ hlt)
  obtain ⟨ob₀, hob₀, heq⟩ := getElem?_withNewOffers hob
  rw [OrderbookManager.executedAtOnce, hob, hc]
  refine ((hatOnce i _ _ hob hc).map _).trans (List.Perm.of_eq ?_)
  rw [List.map_map, List.filter_filter]
  simp only [Bool.and_comm]
  refine List.map_congr_left fun a ha => ?_
  obtain ⟨ha, hidx⟩ := List.mem_filter.mp ha
  obtain ⟨ob, hat, hcategory, -⟩ := hmade.fresh a ha
  rw [Bool.and_eq_true, decide_eq_true_eq] at hidx
  rw [hidx.1, hob₀] at hat
  cases hat
  have hsame : a.offer.category =
      (m.withNewOffers sp.manager.newOffers).orderbooks[i].category := by
    rw [heq]
    exact hcategory
  rw [Function.comp_apply, NewOffer.execution, hsame]

/-- Production adds the new offers of a block, and validation adds them in another order: validation
follows production. -/
theorem follows_of_addAll (hm : SameBooks m mv) (hdb : MemoryDatabase.SameBalances db dbv)
    (hcommitments : checker.commitments.length = m.orderbooks.length) (hmade : WellMade m dbv l)
    (hperm : l'.Perm l) (hp : addAll l ⟨db, m, ⟨[]⟩, viewp, logp⟩ = .ok sp)
    (hv : addAll l' ⟨dbv, mv, .new checker, viewv, logv⟩ = .ok sv) :
    (m.withNewOffers sp.manager.newOffers).Follows (mv.withNewOffers sv.manager.newOffers) checker
      ⟨sp.db, sp.log, []⟩ ⟨sv.db, sv.log, sv.manager.executed⟩ sv.manager.activatedSupplies := by
  obtain ⟨hspdb, -, hoffers⟩ := addAll_production hp
  have hadded : Added checker l' ⟨dbv, mv, .new checker, viewv, logv⟩ sv := by
    apply addAll_validation rfl _ hv
    intro a ha
    exact hmade.owned a (hperm.mem_iff.mp ha)
  have hatOnce : ∀ i ob c, (m.withNewOffers sp.manager.newOffers).orderbooks[i]? = some ob →
      checker.commitments[i]? = some c → (OrderbookManager.atOnce c ob).Perm
        ((l.filter fun a => a.clearsAtOnce checker && decide (a.idx = i)).map (·.offer)) :=
    fun i ob c hob hc => atOnce_withNewOffers hm hm.length hmade.nodup hoffers hob hc
  refine ⟨?_, fun i ob obv c hob hobv hc => ?_, ?_, fun i ob c hob hc => ?_⟩
  · simp [OrderbookManager.withNewOffers, hm.length]
  · obtain ⟨ob₀, hob₀, rfl⟩ := getElem?_withNewOffers hob
    obtain ⟨obv₀, hobv₀, rfl⟩ := getElem?_withNewOffers hobv
    obtain ⟨hcategory, hcommitted, hempty, hemptyv⟩ := hm.same i ob₀ obv₀ hob₀ hobv₀
    refine ⟨hcategory, hcommitted, ?_, fun k leaf hleaf => ?_⟩
    · rw [addOffers_offers hempty, addOffers_offers hemptyv]
      refine (hadded.offers i).trans ?_
      rw [keyed_clears hc fun b => !b]
      refine (insertAll_filter (hmade.nodup i) ((hperm.filter _).map _) fun k =>
        !c.clearsAtOnce k).trans ?_
      exact congrArg (SortedMap.filter · _) (hoffers i).symm
    · have hfind := OrderbookTrie.find?_offers
        (ob₀.addOffers (sp.manager.newOffers.getD i ∅)).uncommittedOffers k
      rw [hleaf, addOffers_offers hempty] at hfind
      have hat := (congrArg (SortedMap.find? · k) (hoffers i)).symm.trans hfind
      rw [Option.map_some, ← SortedMap.mem_entries] at hat
      have hmem := (entries_insertAll (hmade.nodup i)).mem_iff.mp hat
      obtain ⟨a, ha, heq⟩ := List.mem_map.mp hmem
      obtain ⟨ha, hidx⟩ := List.mem_filter.mp ha
      obtain ⟨ob, hob, -, hnone⟩ := hmade.fresh a ha
      rw [← (Prod.mk.inj heq).1]
      rw [of_decide_eq_true hidx, hob₀] at hob
      cases hob
      exact hnone
  · refine ⟨sv.manager.executed, ?_, ?_⟩
    · have hexecuted : sv.manager.executed =
          (l'.filter (·.clearsAtOnce checker)).map (·.execution checker) := hadded.executed
      rw [hexecuted]
      refine ((hperm.filter _).map _).trans (List.Perm.trans ?_ (List.Perm.flatMap_left _
        fun i hi => executedAtOnce_perm hmade hcommitments hatOnce (List.mem_range.mp hi)).symm)
      rw [← List.map_flatMap]
      refine List.Perm.map _ (List.Perm.trans ?_ (flatMap_filter_perm NewOffer.idx _ _).symm)
      refine List.Perm.of_eq (List.filter_eq_self.mpr fun a ha => ?_).symm
      obtain ⟨ob, hob, -⟩ := hmade.fresh a (List.mem_filter.mp ha).1
      have hlt := (List.getElem?_eq_some_iff.mp hob).1
      simpa [OrderbookManager.withNewOffers] using hlt
    · have hsv : sv.db = sv.manager.executed.foldl Execution.credit dbv := by
        rw [hadded.db, hadded.executed]
        rfl
      show MemoryDatabase.SameBalances (sv.manager.executed.foldl Execution.credit sp.db) sv.db
      rw [hsv, hspdb]
      exact hdb.credits (List.Perm.refl _)
  · have hsupply : sv.manager.activatedSupplies.get i =
        supplyOfOffers ((keyed i (l'.filter (·.clearsAtOnce checker))).map (·.2)) :=
      (hadded.supplies i).trans (congrArg FractionalAsset.mk (BitVec.zero_add _))
    have hsame : (OrderbookManager.atOnce c ob).Perm
        ((keyed i (l'.filter (·.clearsAtOnce checker))).map (·.2)) := by
      refine (hatOnce i ob c hob hc).trans ?_
      rw [keyed, List.map_map, List.filter_filter]
      simp only [Bool.and_comm]
      exact (hperm.symm.filter _).map _
    have hle : amountOf (OrderbookManager.atOnce c ob) ≤ amountOf (l.map (·.offer)) := by
      rw [Orderbook.amountOf_perm (hatOnce i ob c hob hc)]
      exact ((List.filter_sublist.map _).map _).sum_le_sum fun _ _ => Nat.zero_le _
    have htotal := hmade.total
    rw [hsupply, supplyOfOffers, ← Orderbook.amountOf_perm hsame, toNat_fromIntegral,
      BitVec.toNat_ofNat]
    omega

/-- The blocks that are committed come before block `n`. -/
def OrderbookManager.Before (m : OrderbookManager) (n : UInt64) : Prop :=
  ∀ ob ∈ m.orderbooks, ∀ thunk ∈ ob.lmdb.thunks, thunk.currentBlockNumber < n

theorem commitForValidation_returns {currentBlockNumber : UInt64} (h : mv.Before currentBlockNumber)
    (newOffers : List OrderbookTrie) (indeterminate : Nat → Bool) :
    ∃ mv₁, (mv.withNewOffers newOffers).commitForValidation currentBlockNumber indeterminate =
      .ok mv₁ := by
  apply OrderbookManager.genericMap_returns
  intro ob hob i
  obtain ⟨j, hj⟩ := List.mem_iff_getElem?.mp hob
  obtain ⟨ob₀, hob₀, rfl⟩ := getElem?_withNewOffers hj
  apply Orderbook.tentativeCommitForValidation_returns
  exact h ob₀ (List.mem_of_getElem? hob₀)

/-- A block whose new offers production adds, commits and clears is accepted by validation: it adds
the new offers in any order, commits, and clears with the commitments of the header. -/
theorem produced_block_validates (m mv m₁ m₂ : OrderbookManager) (db dbv : MemoryDatabase)
    (viewp : BufferedMemoryDatabaseView) (viewv : UnbufferedMemoryDatabaseView)
    (logp logv : ModificationTrie)
    (sp : HandlerState ProcessingSerialManager BufferedMemoryDatabaseView) (l l' : List NewOffer)
    (s' : ClearingState) (params : ClearingParams) (details : OrderbookStateCommitment)
    (checker : OrderbookStateCommitmentChecker) (currentBlockNumber : UInt64)
    (indeterminate indeterminate' : Nat → Bool) (ranges : List (List Nat))
    (hm : SameBooks m mv) (hdb : MemoryDatabase.SameBalances db dbv) (hmade : WellMade m dbv l)
    (hperm : l'.Perm l) (hp : addAll l ⟨db, m, ⟨[]⟩, viewp, logp⟩ = .ok sp)
    (hcommit : (m.withNewOffers sp.manager.newOffers).commitForProduction currentBlockNumber
      indeterminate = .ok m₁)
    (htradable : ∀ ob ∈ m₁.orderbooks, OrderbookManager.Tradable ob sp.db)
    (hparams : params.orderbookParams.length = m₁.orderbooks.length)
    (hcheck : params.checkClearing checker.prices = .ok true)
    (hclear : m₁.clearOffersForProduction ⟨sp.db, sp.log, []⟩ params checker.prices =
      .ok (m₂, s', details))
    (hannounces : OrderbookManager.Announces checker params details)
    (hbefore : mv.Before currentBlockNumber) (hsplit : Splits ranges mv) :
    checker.checkClearing = .ok true ∧
      ∃ (sv : HandlerState ValidatingSerialManager UnbufferedMemoryDatabaseView)
        (mv₁ : OrderbookManager) (c : TentativeClearing),
        addAll l' ⟨dbv, mv, .new checker, viewv, logv⟩ = .ok sv ∧
        (mv.withNewOffers sv.manager.newOffers).commitForValidation currentBlockNumber
          indeterminate' = .ok mv₁ ∧
        mv₁.tentativeClearOffersForValidation ⟨sv.db, sv.log, sv.manager.executed⟩
          sv.manager.activatedSupplies checker ranges = .ok (true, c) ∧
        checker.checkStats c.stats = true ∧ MemoryDatabase.SameBalances s'.db c.state.db ∧
        ∀ (i : Nat) (ob : Orderbook), m₂.orderbooks[i]? = some ob → ∃ obv : Orderbook,
          c.orderbooks[i]? = some obv ∧ obv.committedOffers.offers = ob.committedOffers.offers := by
  have hcleared := hclear
  obtain ⟨⟨obs, s₁, details₁⟩, hbooks, h⟩ := bind_eq_ok.mp hcleared
  cases h
  obtain ⟨ess, -, -, -, hdetails, hproduced⟩ :=
    OrderbookManager.clearBooks_produced hbooks hannounces.taxRate htradable
  have hlength : checker.commitments.length = m.orderbooks.length := by
    have hdetails := congrArg List.length hdetails
    rw [List.length_map, List.drop_zero, ← hparams, List.take_length, hparams,
      OrderbookManager.length_of_genericMap hcommit] at hdetails
    rw [hannounces.length, hdetails]
    simp [OrderbookManager.withNewOffers]
  have haccepted : ∀ a ∈ l, a.Accepted checker :=
    accepted_of_produced hm hmade (addAll_production hp).2.2 hcommit hannounces hproduced
  obtain ⟨sv, hv⟩ := addAll_returns (s := ⟨dbv, mv, .new checker, viewv, logv⟩) rfl
    (fun a ha => haccepted a (hperm.mem_iff.mp ha)) fun a ha =>
      hmade.owned a (hperm.mem_iff.mp ha)
  obtain ⟨mv₁, hcommit'⟩ := commitForValidation_returns hbefore sv.manager.newOffers indeterminate'
  have hsplit' : Splits ranges mv₁ := by
    rw [Splits, OrderbookManager.length_of_genericMap hcommit', OrderbookManager.withNewOffers,
      List.length_mapIdx]
    exact hsplit
  obtain ⟨hclearing, c, hvalidates⟩ := OrderbookManager.production_validates _ m₁ _ _ mv₁
    currentBlockNumber indeterminate indeterminate' _ s' _ params details checker _ ranges hcommit
    htradable hparams hcheck hclear hannounces
    (follows_of_addAll hm hdb hlength hmade hperm hp hv) hcommit' hsplit'
  exact ⟨hclearing, sv, mv₁, c, hv, hcommit', hvalidates⟩

/-! ### Two offers -/

open OrderbookManager (twoBooksParams unitPrices)

/-- Two new offers of account 7, of 100 units each, that sell to each other. -/
def twoNewOffers : List NewOffer :=
  [⟨0, ⟨⟨0, 1, .SELL⟩, 256, 7, 100, 2 ^ 24⟩, ⟨⟨7, 256⟩, 0, 256⟩⟩,
    ⟨1, ⟨⟨1, 0, .SELL⟩, 512, 7, 100, 2 ^ 24⟩, ⟨⟨7, 512⟩, 0, 512⟩⟩]

/-- The header: the first offer clears, and the second but for a fraction of a unit. -/
def twoOffersChecker : OrderbookStateCommitmentChecker where
  commitments := [⟨5, 100 * 2 ^ 10, .zero, 1, 0⟩,
    ⟨6, 99 * 2 ^ 10 + 1, generateOrderbookTrieKey (2 ^ 24) 7 512, 0, 99 * 2 ^ 10 + 1⟩]
  prices := unitPrices
  taxRate := 10

def twoOffersProduction : Result (HandlerState ProcessingSerialManager BufferedMemoryDatabaseView ×
    OrderbookManager × OrderbookManager × ClearingState × OrderbookStateCommitment) := do
  let sp ← addAll twoNewOffers ⟨.ofAccount 7, .new 2, ⟨[]⟩, BufferedMemoryDatabaseView.empty, ∅⟩
  let m₁ ← ((OrderbookManager.new 2).withNewOffers sp.manager.newOffers).commitForProduction 1
    fun _ => false
  let (m₂, s', details) ← m₁.clearOffersForProduction ⟨sp.db, sp.log, []⟩ twoBooksParams unitPrices
  return (sp, m₁, m₂, s', details)

/-- The offers of an orderbook can be cleared, as a check. -/
def tradableCheck (db : MemoryDatabase) (ob : Orderbook) : Bool :=
  decide (ob.committedOffers.totalEndow < 2 ^ 63) && ob.committedOffers.entries.all fun a =>
    a.1 = a.2.offer.key && a.2.offer.minPrice.isValidPrice && decide (0 < a.2.offer.amount.toNat) &&
      (db.lookupUser a.2.offer.owner).isSome && a.2.offer.category = ob.category

theorem tradable_of_check {db : MemoryDatabase} {ob : Orderbook} (h : tradableCheck db ob = true) :
    OrderbookManager.Tradable ob db := by
  simp only [tradableCheck, Bool.and_eq_true, List.all_eq_true, decide_eq_true_eq] at h
  obtain ⟨htotal, hall⟩ := h
  have hentry : ∀ key leaf, ob.committedOffers.find? key = some leaf → _ :=
    fun key leaf hfind => hall (key, leaf) (SortedMap.mem_entries.mpr hfind)
  exact ⟨⟨fun key leaf h => (hentry key leaf h).1.1.1.1, fun key leaf h => (hentry key leaf h).1.1.1.2,
    fun key leaf h => (hentry key leaf h).1.1.2, fun key leaf h => (hentry key leaf h).1.2, htotal⟩,
    fun key leaf h => (hentry key leaf h).2⟩

theorem produced_block_validates_two :
    ∃ sp m₁ m₂ s' details, twoOffersProduction = .ok (sp, m₁, m₂, s', details) ∧
      twoOffersChecker.checkClearing = .ok true ∧
      ∃ (sv : HandlerState ValidatingSerialManager UnbufferedMemoryDatabaseView)
        (mv₁ : OrderbookManager) (c : TentativeClearing),
        addAll twoNewOffers.reverse ⟨.ofAccount 7, .new 2, .new twoOffersChecker,
          UnbufferedMemoryDatabaseView.empty, ∅⟩ = .ok sv ∧
        ((OrderbookManager.new 2).withNewOffers sv.manager.newOffers).commitForValidation 1
          (fun _ => true) = .ok mv₁ ∧
        mv₁.tentativeClearOffersForValidation ⟨sv.db, sv.log, sv.manager.executed⟩
          sv.manager.activatedSupplies twoOffersChecker [[1], [0]] = .ok (true, c) ∧
        twoOffersChecker.checkStats c.stats = true ∧ MemoryDatabase.SameBalances s'.db c.state.db ∧
        ∀ (i : Nat) (ob : Orderbook), m₂.orderbooks[i]? = some ob → ∃ obv : Orderbook,
          c.orderbooks[i]? = some obv ∧ obv.committedOffers.offers = ob.committedOffers.offers := by
  obtain ⟨⟨sp, m₁, m₂, s', details⟩, hproduction, hvalues⟩ := returns_iff.mp (show returns
    twoOffersProduction (fun r => decide (twoBooksParams.orderbookParams.length = r.2.1.orderbooks.length) &&
      r.2.1.orderbooks.all (tradableCheck r.1.db) &&
      decide (twoOffersChecker.commitments.map OrderbookManager.withoutRootHash =
        r.2.2.2.2.map OrderbookManager.withoutRootHash)) = true by decide +kernel)
  simp only [Bool.and_eq_true, List.all_eq_true, decide_eq_true_eq] at hvalues
  obtain ⟨⟨hparams, htradable⟩, hcommitments⟩ := hvalues
  refine ⟨sp, m₁, m₂, s', details, hproduction, ?_⟩
  obtain ⟨sp₁, hp, h⟩ := bind_eq_ok.mp hproduction
  obtain ⟨m₃, hcommit, h⟩ := bind_eq_ok.mp h
  obtain ⟨⟨m₄, s₁, details₁⟩, hclear, h⟩ := bind_eq_ok.mp h
  cases h
  refine produced_block_validates (.new 2) (.new 2) m₁ m₂ (.ofAccount 7) (.ofAccount 7)
    BufferedMemoryDatabaseView.empty UnbufferedMemoryDatabaseView.empty ∅ ∅ sp twoNewOffers
    twoNewOffers.reverse s' twoBooksParams details twoOffersChecker 1 (fun _ => false) (fun _ => true)
    [[1], [0]] ⟨rfl, ?_⟩ .refl ⟨?_, ?_, ?_, ?_⟩ (List.reverse_perm _) hp hcommit
    (fun ob hob => tradable_of_check (htradable ob hob)) hparams ?_ hclear ⟨rfl, hcommitments⟩ ?_ ?_
  · intro i ob obv hob hobv
    cases hob.symm.trans hobv
    have hempty : ∀ ob ∈ (OrderbookManager.new 2).orderbooks, ob.uncommittedOffers = ∅ := by decide
    have hnone := hempty ob (List.mem_of_getElem? hob)
    exact ⟨rfl, rfl, hnone, hnone⟩
  · intro i
    have hall : (twoNewOffers.map fun a => a.offer.key).Nodup := by decide +kernel
    refine hall.sublist ?_
    rw [keyed, List.map_map]
    exact List.filter_sublist.map _
  · intro a ha
    have hcheck : ∀ a ∈ twoNewOffers, ((OrderbookManager.new 2).orderbooks[a.idx]?).any (fun ob =>
        decide (a.offer.category = ob.category) &&
          (ob.committedOffers.find? a.offer.key).isNone) = true := by decide +kernel
    obtain ⟨ob, hob, hvalues⟩ := (Option.any_eq_true ..).mp (hcheck a ha)
    rw [Bool.and_eq_true, decide_eq_true_eq, Option.isNone_iff_eq_none] at hvalues
    exact ⟨ob, hob, hvalues⟩
  · have howned : ∀ a ∈ twoNewOffers,
        (MemoryDatabase.ofAccount 7).lookupUser a.offer.owner = some a.metadata.sourceAccountIdx := by decide +kernel
    exact howned
  · decide +kernel
  · decide +kernel
  · have hempty : ∀ ob ∈ (OrderbookManager.new 2).orderbooks, ob.lmdb.thunks = [] := by decide
    intro ob hob thunk hthunk
    rw [hempty ob hob] at hthunk
    cases hthunk
  · unfold Splits
    decide

end

end Follows

end Speedex
