import Speedex.Orderbook.Conservation
import Speedex.Orderbook.Executions
import Speedex.Orderbook.Indices

/-! Every offer with something to sell stands in the orderbook of its category, so that an orderbook
clears its offers at the prices of their assets. -/

namespace Speedex

open Lib

/-- The offer is of the category, if it has something to sell.  A rollback can insert a
default-constructed offer, which sells nothing. -/
def Offer.Fits (o : Offer) (id : OfferCategory) : Prop := o.amount ≠ 0 → o.category = id

namespace OrderbookTrie

variable {t u : OrderbookTrie} {id : OfferCategory} {k : OfferKey}

def OfCategory (t : OrderbookTrie) (id : OfferCategory) : Prop :=
  ∀ k leaf, t.find? k = some leaf → leaf.offer.Fits id

theorem ofCategory_empty (id : OfferCategory) : OfCategory ∅ id := by
  intro k leaf hleaf
  cases hleaf

theorem OfCategory.filter (h : t.OfCategory id) (p : OfferKey → OfferLeaf → Bool) :
    OfCategory (t.filter p) id := by
  intro k leaf hleaf
  rw [SortedMap.find?_filter, Option.filter_eq_some_iff] at hleaf
  exact h k leaf hleaf.1

theorem OfCategory.performMarkedDeletions (h : t.OfCategory id) :
    t.performMarkedDeletions.2.OfCategory id :=
  h.filter _

theorem OfCategory.doRollback (h : t.OfCategory id) : t.doRollback.OfCategory id := h.filter _

theorem OfCategory.erase (h : t.OfCategory id) (k : OfferKey) : OfCategory (t.erase k) id := by
  intro k' leaf hleaf
  rw [SortedMap.find?_erase] at hleaf
  split at hleaf
  · cases hleaf
  · exact h k' leaf hleaf

theorem OfCategory.insert {leaf : OfferLeaf} (h : t.OfCategory id) (hleaf : leaf.offer.Fits id)
    (k : OfferKey) : OfCategory (SortedMap.insert t k leaf) id := by
  intro k' leaf' hleaf'
  rw [SortedMap.find?_insert] at hleaf'
  split at hleaf'
  · cases hleaf'
    exact hleaf
  · exact h k' leaf' hleaf'

theorem OfCategory.insertOffer {offer : Offer} (h : t.OfCategory id) (hoffer : offer.Fits id)
    (k : OfferKey) : (t.insertOffer k offer).OfCategory id :=
  h.insert hoffer k

theorem OfCategory.mergeIn (h : t.OfCategory id) (hu : u.OfCategory id) :
    (t.mergeIn u).OfCategory id := by
  intro k leaf hleaf
  rw [OrderbookTrie.mergeIn, SortedMap.find?_union] at hleaf
  rcases Option.or_eq_some_iff.mp hleaf with hleaf | ⟨-, hleaf⟩
  · exact hu k leaf hleaf
  · exact h k leaf hleaf

theorem OfCategory.clearRollback (h : t.OfCategory id) : t.clearRollback.OfCategory id := by
  intro k leaf hleaf
  rw [OrderbookTrie.clearRollback, SortedMap.find?_map] at hleaf
  obtain ⟨leaf', hleaf', rfl⟩ := Option.map_eq_some_iff.mp hleaf
  exact h k leaf' hleaf'

/-- Marks do not matter. -/
theorem OfCategory.modify (h : t.OfCategory id) (k : OfferKey) {f : OfferLeaf → OfferLeaf}
    (hf : ∀ leaf, (f leaf).offer = leaf.offer) : OfCategory (SortedMap.modify t k f) id := by
  intro k' leaf hleaf
  rw [SortedMap.find?_modify] at hleaf
  split at hleaf
  · obtain ⟨leaf', hleaf', rfl⟩ := Option.map_eq_some_iff.mp hleaf
    rw [hf]
    exact h k' leaf' hleaf'
  · exact h k' leaf hleaf

theorem OfCategory.markForDeletion (h : t.OfCategory id) (k : OfferKey) :
    (t.markForDeletion k).2.OfCategory id := by
  unfold OrderbookTrie.markForDeletion
  split
  · exact h
  · split
    · exact h
    · exact h.modify k fun _ => rfl

theorem OfCategory.entries (h : t.OfCategory id) {a : OfferKey × Offer} (ha : a ∈ t.offers.entries) :
    a.2.Fits id := by
  have hfind := SortedMap.mem_entries.mp ha
  rw [find?_offers] at hfind
  obtain ⟨leaf, hleaf, heq⟩ := Option.map_eq_some_iff.mp hfind
  exact heq ▸ h a.1 leaf hleaf

theorem OfCategory.values (h : t.OfCategory id) {o : Offer} (ho : o ∈ t.accumulateValues) :
    o.Fits id := by
  obtain ⟨k, leaf, hleaf, rfl⟩ := Orderbook.mem_accumulateValues ho
  exact h k leaf hleaf

theorem OfCategory.endowSplit (h : t.OfCategory id) (endow : Int) :
    (t.endowSplit endow).1.OfCategory id ∧ (t.endowSplit endow).2.OfCategory id :=
  ⟨h.filter _, h.filter _⟩

end OrderbookTrie

/-- What a rollback puts back is of the category. -/
structure OrderbookLMDBCommitmentThunk.OfCategory (thunk : OrderbookLMDBCommitmentThunk)
    (id : OfferCategory) : Prop where
  deleted : ∀ a ∈ thunk.deletedKeys, a.2.Fits id
  cleared : thunk.clearedOffers.OfCategory id
  partialExec : thunk.preexecutePartialExecOffer.Fits id

/-! ### One orderbook -/

namespace Orderbook

/-- The offers of the orderbook, and those that its thunks keep, are of its category. -/
structure InPlace (ob : Orderbook) : Prop where
  committed : ob.committedOffers.OfCategory ob.category
  uncommitted : ob.uncommittedOffers.OfCategory ob.category
  thunks : ∀ thunk ∈ ob.lmdb.thunks, thunk.OfCategory ob.category

/-- The orderbook is that of the same assets, and offers that were in place are. -/
structure StaysInPlace (ob ob' : Orderbook) : Prop where
  category : ob'.category = ob.category
  offers : ob.InPlace → ob'.InPlace

variable {ob ob₁ ob₂ ob' : Orderbook} {n : UInt64} {b : Bool}

theorem StaysInPlace.trans (h : StaysInPlace ob ob₁) (h' : StaysInPlace ob₁ ob₂) :
    StaysInPlace ob ob₂ :=
  ⟨h'.category.trans h.category, fun hob => h'.offers (h.offers hob)⟩

theorem markForDeletion_stays (ob : Orderbook) (key : OfferKey) :
    StaysInPlace ob (ob.markForDeletion key).2 :=
  ⟨rfl, fun h => ⟨h.committed.markForDeletion key, h.uncommitted, h.thunks⟩⟩

theorem addOffers_stays {trie : OrderbookTrie} (htrie : trie.OfCategory ob.category) :
    StaysInPlace ob (ob.addOffers trie) :=
  ⟨rfl, fun h => ⟨h.committed, h.uncommitted.mergeIn htrie, h.thunks⟩⟩

theorem tentativeCommit_stays (h : ob.tentativeCommitForValidation n b = .ok ob') :
    StaysInPlace ob ob' := by
  rw [tentativeCommitForValidation_eq_ok h]
  refine ⟨rfl, fun hob => ⟨hob.committed.performMarkedDeletions.mergeIn hob.uncommitted,
    OrderbookTrie.ofCategory_empty _, fun thunk hthunk => ?_⟩⟩
  rcases List.mem_append.mp hthunk with hthunk | hthunk
  · exact hob.thunks thunk hthunk
  · cases List.mem_singleton.mp hthunk
    have hdeleted := hob.committed.filter fun _ leaf => leaf.deleted
    exact ⟨fun a ha => hdeleted.entries ha, OrderbookTrie.ofCategory_empty _,
      fun hamount => absurd rfl hamount⟩

theorem commitForProduction_stays (h : ob.commitForProduction n b = .ok ob') :
    StaysInPlace ob ob' := by
  obtain ⟨ob₁, hcommit, h⟩ := bind_eq_ok.mp h
  cases h
  apply (tentativeCommit_stays hcommit).trans
  exact ⟨rfl, fun hob => ⟨hob.committed, hob.uncommitted, hob.thunks⟩⟩

theorem undoThunk_ofCategory {t : OrderbookTrie} {id : OfferCategory}
    {thunk : OrderbookLMDBCommitmentThunk} (h : t.OfCategory id) (hthunk : thunk.OfCategory id) :
    (undoThunk t thunk).OfCategory id := by
  have hinserted : (thunk.deletedKeys.foldl (fun t kv => t.insertOffer kv.1 kv.2) t).OfCategory id := by
    have hdeleted := hthunk.deleted
    generalize thunk.deletedKeys = l at hdeleted
    induction l generalizing t with
    | nil => exact h
    | cons a l ih =>
      exact ih (h.insertOffer (hdeleted a List.mem_cons_self) a.1) fun a' ha' =>
        hdeleted a' (List.mem_cons_of_mem a ha')
  have hmarked (u : OrderbookTrie) (hu : u.OfCategory id) :
      (markAll u thunk.uncommittedOffersVec).OfCategory id := by
    unfold markAll
    generalize thunk.uncommittedOffersVec = l
    induction l generalizing u with
    | nil => exact hu
    | cons o l ih => exact ih _ (hu.markForDeletion o.key)
  have hundone := (hmarked _ (hinserted.mergeIn hthunk.cleared)).performMarkedDeletions
  unfold undoThunk
  dsimp only
  split
  · exact hundone.insertOffer hthunk.partialExec _
  · exact hundone

theorem mem_of_getTopThunk {lmdb : OrderbookLMDB} {thunk : OrderbookLMDBCommitmentThunk}
    (h : lmdb.getTopThunk = .ok thunk) : thunk ∈ lmdb.thunks := by
  unfold OrderbookLMDB.getTopThunk at h
  split at h
  · cases h
  · rename_i last hlast
    cases h
    exact List.mem_of_getLast? hlast

theorem rollbackValidation_stays (h : ob.rollbackValidation = .ok ob') : StaysInPlace ob ob' := by
  obtain ⟨thunk, htop, h⟩ := bind_eq_ok.mp h
  obtain ⟨lmdb, hpop, h⟩ := bind_eq_ok.mp h
  cases h
  refine ⟨rfl, fun hob => ⟨undoThunk_ofCategory hob.committed.doRollback ?_,
    OrderbookTrie.ofCategory_empty _, fun thunk' hthunk' => ?_⟩⟩
  · have hthunk := hob.thunks thunk (mem_of_getTopThunk htop)
    exact ⟨hthunk.deleted, hthunk.cleared, hthunk.partialExec⟩
  · unfold OrderbookLMDB.popTopThunk at hpop
    split at hpop
    · cases hpop
    · cases hpop
      exact hob.thunks thunk' (List.mem_of_mem_dropLast hthunk')

theorem finalizeValidation_stays (h : ob.finalizeValidation = .ok ob') : StaysInPlace ob ob' := by
  unfold finalizeValidation at h
  split at h
  · cases h
  · cases h
    exact ⟨rfl, fun hob => ⟨hob.committed.clearRollback, hob.uncommitted, hob.thunks⟩⟩

theorem modifyTopThunk_ofCategory {lmdb lmdb' : OrderbookLMDB} {id : OfferCategory}
    {f : OrderbookLMDBCommitmentThunk → OrderbookLMDBCommitmentThunk}
    (h : lmdb.modifyTopThunk f = .ok lmdb') (hthunks : ∀ thunk ∈ lmdb.thunks, thunk.OfCategory id)
    (hf : ∀ thunk : OrderbookLMDBCommitmentThunk, thunk.OfCategory id → (f thunk).OfCategory id) :
    ∀ thunk ∈ lmdb'.thunks, thunk.OfCategory id := by
  obtain ⟨top, htop, h⟩ := bind_eq_ok.mp h
  cases h
  intro thunk hthunk
  rcases List.mem_append.mp hthunk with hthunk | hthunk
  · exact hthunks thunk (List.mem_of_mem_dropLast hthunk)
  · cases List.mem_singleton.mp hthunk
    exact hf top (hthunks top (mem_of_getTopThunk htop))

/-- What is left of an offer fits where the offer did. -/
theorem fits_reduced {offer : Offer} {id : OfferCategory} {amount : UInt64} (h : offer.Fits id)
    (hamount : amount ≤ offer.amount) : (reduced offer amount).Fits id := by
  intro hleft
  apply h
  intro hzero
  apply hleft
  have hle := UInt64.le_iff_toNat_le.mp hamount
  rw [hzero] at hle
  have hnone : amount = 0 := UInt64.toNat_inj.mp (Nat.le_zero.mp hle)
  show offer.amount - amount = 0
  rw [hzero, hnone]
  rfl

section Clearing

variable {s s' : ClearingState} {supply supply' : FractionalAsset}
  {c : SingleOrderbookStateCommitment} {checker : OrderbookStateCommitmentChecker} {r : Bool}

theorem TentativeClear.stays (h : TentativeClear ob s supply c checker r ob' s' supply') :
    StaysInPlace ob ob' := by
  cases h with
  | badHeader => exact ⟨rfl, id⟩
  | everything _ _ _ _ _ _ hlmdb =>
    refine ⟨rfl, fun hob => ⟨OrderbookTrie.ofCategory_empty _, hob.uncommitted,
      modifyTopThunk_ofCategory hlmdb hob.thunks fun thunk hthunk => ?_⟩⟩
    exact ⟨hthunk.deleted, hob.committed, hthunk.partialExec⟩
  | noOwner hfind | tooMuch hfind =>
    exact ⟨rfl, fun hob => ⟨(hob.committed.erase _).insertOffer (hob.committed _ _ hfind) _,
      hob.uncommitted, hob.thunks⟩⟩
  | belowPartial hfind _ _ _ _ _ _ hamount hlmdb =>
    refine ⟨rfl, fun hob => ?_⟩
    have hoffer := hob.committed _ _ hfind
    have hsplit := (hob.committed.erase c.partialExecThresholdKey).endowSplit
      (ob.committedOffers.endowLtKey c.partialExecThresholdKey).toInt
    refine ⟨?_, hob.uncommitted, modifyTopThunk_ofCategory hlmdb hob.thunks fun thunk hthunk => ?_⟩
    · dsimp only
      split
      · exact hsplit.2.insertOffer (fits_reduced hoffer hamount) _
      · exact hsplit.2
    · exact ⟨hthunk.deleted, hsplit.1, hoffer⟩

theorem ProcessClear.stays {prices : List Price} {taxRate : UInt8}
    (h : ProcessClear ob s supply prices taxRate ob' s' c) : StaysInPlace ob ob' := by
  cases h with
  | everything _ _ _ _ _ _ hlmdb =>
    refine ⟨rfl, fun hob => ?_⟩
    have hsplit := hob.committed.endowSplit supply.floor.toNat
    refine ⟨hsplit.2, hob.uncommitted, modifyTopThunk_ofCategory hlmdb hob.thunks fun thunk hthunk => ?_⟩
    exact ⟨hthunk.deleted, hsplit.1, hthunk.partialExec⟩
  | belowPartial _ _ _ _ _ hfind _ _ _ hamount hlmdb =>
    refine ⟨rfl, fun hob => ?_⟩
    have hsplit := hob.committed.endowSplit supply.floor.toNat
    have hoffer := hsplit.2 _ _ hfind
    refine ⟨?_, hob.uncommitted, modifyTopThunk_ofCategory hlmdb hob.thunks fun thunk hthunk => ?_⟩
    · dsimp only
      split
      · exact (hsplit.2.erase _).insertOffer (fits_reduced hoffer hamount) _
      · exact hsplit.2.erase _
    · exact ⟨hthunk.deleted, hsplit.1, hoffer⟩

end Clearing

end Orderbook

/-! ### All orderbooks -/

namespace OrderbookManager

/-- Each orderbook is that of its pair of assets, and its offers are in place. -/
structure InPlace (m : OrderbookManager) : Prop where
  category : ∀ i ob, m.orderbooks[i]? = some ob → ob.category = categoryFromIdx i m.numAssets
  offers : ∀ ob ∈ m.orderbooks, ob.InPlace

variable {m m' : OrderbookManager}

theorem inPlace_new (numAssets : Nat) : (new numAssets).InPlace where
  category i ob hob := by
    simp only [new, List.getElem?_map, Option.map_eq_some_iff] at hob
    obtain ⟨j, hj, rfl⟩ := hob
    obtain ⟨hlt, rfl⟩ := List.getElem?_eq_some_iff.mp hj
    rw [List.getElem_range]
    rfl
  offers ob hob := by
    obtain ⟨i, -, rfl⟩ := List.mem_map.mp hob
    exact ⟨OrderbookTrie.ofCategory_empty _, OrderbookTrie.ofCategory_empty _, nofun⟩

theorem InPlace.of_stays (h : m.InPlace) (hassets : m'.numAssets = m.numAssets)
    (hstays : ∀ (i : Nat) (ob' : Orderbook), m'.orderbooks[i]? = some ob' →
      ∃ ob : Orderbook, m.orderbooks[i]? = some ob ∧ ob.StaysInPlace ob') : m'.InPlace where
  category i ob' hob' := by
    obtain ⟨ob, hob, hstay⟩ := hstays i ob' hob'
    rw [hstay.category, h.category i ob hob, hassets]
  offers ob' hob' := by
    obtain ⟨i, hi⟩ := List.mem_iff_getElem?.mp hob'
    obtain ⟨ob, hob, hstay⟩ := hstays i ob' hi
    exact hstay.offers (h.offers ob (List.mem_of_getElem? hob))

theorem InPlace.modifyBook (h : m.InPlace) {idx : Nat} {f : Orderbook → Orderbook}
    (hf : ∀ ob, m.orderbooks[idx]? = some ob → ob.StaysInPlace (f ob)) :
    (m.modifyBook idx f).InPlace := by
  refine h.of_stays rfl fun i ob' hob' => ?_
  simp only [OrderbookManager.modifyBook, List.getElem?_modify, Option.map_eq_map,
    Option.map_eq_some_iff] at hob'
  obtain ⟨ob, hob, rfl⟩ := hob'
  refine ⟨ob, hob, ?_⟩
  split
  · rename_i hidx
    exact hf ob (hidx ▸ hob)
  · exact ⟨rfl, id⟩

theorem InPlace.genericMap (h : m.InPlace) {f : Nat → Orderbook → Result Orderbook}
    (hf : ∀ i ob ob', f i ob = .ok ob' → ob.StaysInPlace ob') (hmap : m.genericMap f = .ok m') :
    m'.InPlace := by
  have hassets : m'.numAssets = m.numAssets := by
    obtain ⟨orderbooks, -, hmap⟩ := bind_eq_ok.mp hmap
    cases hmap
    rfl
  apply h.of_stays hassets
  intro i ob' hob'
  have hlt := (List.getElem?_eq_some_iff.mp hob').1
  rw [length_of_genericMap hmap] at hlt
  obtain ⟨ob'', hob'', hstep⟩ := getElem?_of_genericMap hmap (List.getElem?_eq_getElem hlt)
  cases hob'.symm.trans hob''
  exact ⟨_, List.getElem?_eq_getElem hlt, hf i _ _ hstep⟩

theorem clearBooks_stays {params : ClearingParams} {prices : List Price} {i : Nat}
    {obs obs' : List Orderbook} {s s' : ClearingState} {details : OrderbookStateCommitment}
    (h : clearBooksForProduction params prices i obs s = .ok (obs', s', details)) :
    ∀ (j : Nat) (ob' : Orderbook), obs'[j]? = some ob' →
      ∃ ob : Orderbook, obs[j]? = some ob ∧ ob.StaysInPlace ob' := by
  induction obs generalizing i s obs' details with
  | nil =>
    cases h
    intro j ob' hob'
    cases hob'
  | cons ob obs ih =>
    obtain ⟨supply, -, h⟩ := bind_eq_ok.mp h
    obtain ⟨⟨ob₁, s₁, c⟩, hclear, h⟩ := bind_eq_ok.mp h
    obtain ⟨⟨obs₁, s₂, details₁⟩, hrest, h⟩ := bind_eq_ok.mp h
    cases h
    intro j ob' hob'
    cases j with
    | zero =>
      cases hob'
      exact ⟨ob, rfl, (Orderbook.processClear_cases hclear).stays⟩
    | succ j => exact ih hrest j ob' hob'

theorem InPlace.clearOffersForProduction (h : m.InPlace) {params : ClearingParams}
    {prices : List Price} {s s' : ClearingState} {details : OrderbookStateCommitment}
    (hclear : m.clearOffersForProduction s params prices = .ok (m', s', details)) : m'.InPlace := by
  obtain ⟨⟨obs, s₁, details₁⟩, hbooks, hclear⟩ := bind_eq_ok.mp hclear
  cases hclear
  exact h.of_stays rfl (clearBooks_stays hbooks)

end OrderbookManager

/-! ### Executions -/

/-- An execution of the amount `v` at the header's prices for the assets of the offer: the owner is
credited what `tax_and_round` leaves. -/
structure ExecutedAt (checker : OrderbookStateCommitmentChecker) (e : Execution)
    (v : FractionalAsset) (sellPrice buyPrice : Price) : Prop where
  sell : vectorAt checker.prices e.offer.category.sellAsset.toNat = .ok sellPrice
  buy : vectorAt checker.prices e.offer.category.buyAsset.toNat = .ok buyPrice
  amount : v = .fromIntegral (widenUInt64 e.offer.amount) ∧ e.sellAmount = e.offer.amount ∨
    e.sellAmount = (narrowToInt64 v.ceil).toUInt64
  credit : partialBuyAmount v sellPrice buyPrice checker.taxRate = .ok e.buyAmount

/-- The execution is one of the header. -/
def Executed (checker : OrderbookStateCommitmentChecker) (e : Execution) : Prop :=
  ∃ v sellPrice buyPrice, ExecutedAt checker e v sellPrice buyPrice

section Executed

variable {checker : OrderbookStateCommitmentChecker} {s s' : ClearingState}
  {sellPrice buyPrice : Price}

theorem executed_of_fullBuyAmount {offer : Offer} {buyAmount : Int64}
    (hsell : vectorAt checker.prices offer.category.sellAsset.toNat = .ok sellPrice)
    (hbuy : vectorAt checker.prices offer.category.buyAsset.toNat = .ok buyPrice)
    (h : fullBuyAmount offer sellPrice buyPrice checker.taxRate = .ok buyAmount) :
    Executed checker ⟨offer, offer.amount, buyAmount⟩ :=
  ⟨.fromIntegral (widenUInt64 offer.amount), sellPrice, buyPrice, hsell, hbuy, .inl ⟨rfl, rfl⟩, h⟩

theorem executed_of_partialBuyAmount {offer : Offer} {v : FractionalAsset} {buyAmount : Int64}
    (hsell : vectorAt checker.prices offer.category.sellAsset.toNat = .ok sellPrice)
    (hbuy : vectorAt checker.prices offer.category.buyAsset.toNat = .ok buyPrice)
    (h : partialBuyAmount v sellPrice buyPrice checker.taxRate = .ok buyAmount) :
    Executed checker ⟨offer, (narrowToInt64 v.ceil).toUInt64, buyAmount⟩ :=
  ⟨v, sellPrice, buyPrice, hsell, hbuy, .inr rfl, h⟩

theorem executed_append {l : List Execution} {e : Execution} (hl : ∀ e ∈ l, Executed checker e)
    (he : Executed checker e) : ∀ e' ∈ l ++ [e], Executed checker e' := by
  intro e' he'
  rcases List.mem_append.mp he' with he' | he'
  · exact hl e' he'
  · rw [List.mem_singleton.mp he']
    exact he

/-- Offers that are in place are executed at the prices of their assets. -/
theorem applyClearing_executed_header {id : OfferCategory} {offers : List Offer}
    (hsell : vectorAt checker.prices id.sellAsset.toNat = .ok sellPrice)
    (hbuy : vectorAt checker.prices id.buyAsset.toNat = .ok buyPrice)
    (hoffers : ∀ o ∈ offers, o.Fits id)
    (h : applyClearing sellPrice buyPrice checker.taxRate s offers = .ok s')
    (hs : ∀ e ∈ s.executed, Executed checker e) : ∀ e ∈ s'.executed, Executed checker e := by
  refine foldlM_invariant (P := fun s : ClearingState => ∀ e ∈ s.executed, Executed checker e)
    (fun b offer b' hmem hb hstep => ?_) hs h
  obtain ⟨-, hamount, idx, buyAmount, -, hcredit, rfl⟩ := completeClearing_eq_ok.mp hstep
  have hcategory := hoffers offer hmem hamount
  have hexecuted : Executed checker ⟨offer, offer.amount, buyAmount⟩ :=
    executed_of_fullBuyAmount (hcategory ▸ hsell) (hcategory ▸ hbuy) hcredit
  exact executed_append hb hexecuted

theorem Orderbook.TentativeClear.executed {ob ob' : Orderbook} {supply supply' : FractionalAsset}
    {c : SingleOrderbookStateCommitment} {r : Bool}
    (h : TentativeClear ob s supply c checker r ob' s' supply') (hob : ob.InPlace)
    (hs : ∀ e ∈ s.executed, Executed checker e) : ∀ e ∈ s'.executed, Executed checker e := by
  cases h with
  | badHeader | noOwner => exact hs
  | everything _ _ _ hsell hbuy hclear =>
    exact applyClearing_executed_header hsell hbuy (fun o ho => hob.committed.values ho) hclear hs
  | tooMuch _ _ hsell hbuy hcredit =>
    exact executed_append hs (executed_of_partialBuyAmount hsell hbuy hcredit)
  | belowPartial _ _ hsell hbuy hoffsell hoffbuy hcredit _ _ hclear =>
    have hcleared := ((hob.committed.erase c.partialExecThresholdKey).endowSplit
      (ob.committedOffers.endowLtKey c.partialExecThresholdKey).toInt).1
    apply applyClearing_executed_header hsell hbuy (fun o ho => hcleared.values ho) hclear
    exact executed_append hs (executed_of_partialBuyAmount hoffsell hoffbuy hcredit)

/-- The offers are in place, and the executions are of the header. -/
def TentativeClearing.Records (checker : OrderbookStateCommitmentChecker) (numAssets : Nat)
    (c : TentativeClearing) : Prop :=
  OrderbookManager.InPlace ⟨c.orderbooks, numAssets⟩ ∧ ∀ e ∈ c.state.executed, Executed checker e

theorem TentativeClearing.clearBook_records {c c' : TentativeClearing} {i numAssets : Nat} {res : Bool}
    (h : c.clearBook checker i = .ok (res, c')) (hc : c.Records checker numAssets) :
    c'.Records checker numAssets := by
  obtain ⟨ob, hob, h⟩ := bind_eq_ok.mp h
  obtain ⟨commitment, -, h⟩ := bind_eq_ok.mp h
  obtain ⟨⟨res', ob', state, supply⟩, hclear, h⟩ := bind_eq_ok.mp h
  cases h
  have hob := vectorAt_eq_ok.mp hob
  have hcases := Orderbook.tentativeClear_cases hclear
  refine ⟨?_, hcases.executed (hc.1.offers ob (List.mem_of_getElem? hob)) hc.2⟩
  refine hc.1.of_stays rfl fun j ob₁ hob₁ => ?_
  simp only [List.getElem?_set] at hob₁
  split at hob₁
  · rename_i hij
    split at hob₁
    · cases hob₁
      exact ⟨ob, hij ▸ hob, hcases.stays⟩
    · cases hob₁
  · exact ⟨ob₁, hob₁, rfl, id⟩

end Executed

end Speedex
