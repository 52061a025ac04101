import Speedex.Orderbook.SupplyBounds

/-! Production clearing executes a prefix of the offers, in the order of their keys. -/

namespace Speedex

open Lib

/-- The limit price of the offer is at most the exchange rate. -/
def Offer.Accepts (offer : Offer) (sellPrice buyPrice : Price) : Prop :=
  offer.minPrice.toNat * buyPrice.toNat ≤ sellPrice.toNat * 2 ^ 24

theorem Offer.accepts_iff {offer : Offer} {sellPrice buyPrice : Price} :
    offer.Accepts sellPrice buyPrice ↔
      Price.aOverBLtC sellPrice buyPrice offer.minPrice = false := by
  rw [Accepts, Price.aOverBLtC, decide_eq_false_iff_not, Nat.not_lt, Nat.shiftLeft_eq,
    Nat.mul_comm buyPrice.toNat]
  rfl

namespace OrderbookTrie

/-- The amount of the offer under a key, zero if there is none. -/
def amountAt (t : OrderbookTrie) (key : OfferKey) : Nat := ((t.find? key).map OfferLeaf.endow).getD 0

/-- Offers that can be cleared: each stands under its key, has a valid limit price and a positive
amount, and an owner with an account, and all of them together do not exceed `INT64_MAX`. -/
structure Clearable (t : OrderbookTrie) (db : MemoryDatabase) : Prop where
  keyed : ∀ key leaf, t.find? key = some leaf → key = leaf.offer.key
  priced : ∀ key leaf, t.find? key = some leaf → leaf.offer.minPrice.isValidPrice = true
  positive : ∀ key leaf, t.find? key = some leaf → 0 < leaf.offer.amount.toNat
  owned : ∀ key leaf, t.find? key = some leaf → (db.lookupUser leaf.offer.owner).isSome
  total : t.totalEndow < 2 ^ 63

theorem Clearable.readPrice {t : OrderbookTrie} {db : MemoryDatabase} (h : t.Clearable db)
    {key : OfferKey} {leaf : OfferLeaf} (hfind : t.find? key = some leaf) :
    readPriceBigEndian key = leaf.offer.minPrice.toNat := by
  have hvalid := Price.isValidPrice_iff.mp (h.priced key leaf hfind)
  have howner := leaf.offer.owner.toNat_lt
  have hid := leaf.offer.offerId.toNat_lt
  rw [h.keyed key leaf hfind, readPriceBigEndian_eq, key_toNat]
  omega

end OrderbookTrie

/-- What executions take from the offer under a key. -/
def deducted (executed : List Execution) (key : OfferKey) : Nat :=
  ((executed.filter fun e => e.offer.key = key).map fun e => e.sellAmount.toNat).sum

/-- The executions are those of the lowest offers, in full, and of the next one, up to its amount;
the supply is what they take, rounded up. -/
structure ClearsPrefix (t t' : OrderbookTrie) (executed : List Execution) (supply : FractionalAsset)
    (sellPrice buyPrice : Price) (c : SingleOrderbookStateCommitment) : Prop where
  prefixed : ∃ (full rest : List (OfferKey × Offer)) (es : List Execution),
    t.offers.entries = full ++ rest ∧
    (es.map fun e => (e.offer, e.sellAmount)) = (full.map fun a => (a.2, a.2.amount)) ∧
    (executed = es ∧ rest = [] ∨ ∃ a rest' e, rest = a :: rest' ∧ executed = es ++ [e] ∧
      e.offer = a.2 ∧ e.sellAmount ≤ a.2.amount) ∧
    c.fractionalSupplyActivated.toNat = (full.map fun a => a.2.amount.toNat).sum * 2 ^ 10 +
      c.partialExecOfferActivationAmount.toNat
  accepts : ∀ e ∈ executed, 0 < e.sellAmount → e.offer.Accepts sellPrice buyPrice
  remaining : ∀ key, deducted executed key + t'.amountAt key = t.amountAt key
  kept : ∀ key offer', t'.offers.find? key = some offer' →
    ∃ offer, t.offers.find? key = some offer ∧ offer' = { offer with amount := offer'.amount }
  total : (executed.map fun e => e.sellAmount.toNat).sum = supply.ceil.toNat
  supply : c.fractionalSupplyActivated = supply.value

/-! ### Clearing in full -/

/-- Offers that accept the rate are cleared in full, one after the other. -/
theorem applyClearing_returns {sellPrice buyPrice : Price} {taxRate : UInt8} {offers : List Offer}
    {s : ClearingState} (hbuy : buyPrice ≠ 0)
    (haccepts : ∀ o ∈ offers, o.Accepts sellPrice buyPrice)
    (hpositive : ∀ o ∈ offers, 0 < o.amount.toNat)
    (howned : ∀ o ∈ offers, (s.db.lookupUser o.owner).isSome) :
    ∃ s', applyClearing sellPrice buyPrice taxRate s offers = .ok s' ∧
      s'.db.userIdToIdxMap = s.db.userIdToIdxMap := by
  induction offers generalizing s with
  | nil => exact ⟨s, rfl, rfl⟩
  | cons o offers ih =>
    obtain ⟨idx, huser⟩ := Option.isSome_iff_exists.mp (howned o List.mem_cons_self)
    obtain ⟨b, hb⟩ := fullBuyAmount_returns o taxRate hbuy
    have hamount : o.amount ≠ 0 := by
      have hpos := hpositive o List.mem_cons_self
      rintro hzero
      rw [hzero] at hpos
      exact absurd hpos (by decide)
    obtain ⟨s', hs', hids⟩ := ih (fun o' ho' => haccepts o' (List.mem_cons_of_mem o ho'))
      (fun o' ho' => hpositive o' (List.mem_cons_of_mem o ho'))
      (s := { db := s.db.transferAvailable idx o.category.buyAsset b
              log := s.log.logSelfModification o.owner o.offerId
              executed := s.executed ++ [⟨o, o.amount, b⟩] })
      (fun o' ho' => howned o' (List.mem_cons_of_mem o ho'))
    refine ⟨s', foldlM_cons.mpr ⟨_, completeClearing_eq_ok.mpr ⟨?_, hamount, idx, b, huser, hb, rfl⟩,
      hs'⟩, hids⟩
    exact Offer.accepts_iff.mp (haccepts o List.mem_cons_self)

/-- The executions of offers that are cleared in full. -/
theorem applyClearing_full {sellPrice buyPrice : Price} {taxRate : UInt8} {s s' : ClearingState}
    {offers : List Offer} (h : applyClearing sellPrice buyPrice taxRate s offers = .ok s') :
    ∃ es : List Execution, s'.executed = s.executed ++ es ∧
      (es.map fun e => (e.offer, e.sellAmount)) = offers.map fun o => (o, o.amount) := by
  induction offers generalizing s with
  | nil =>
    cases h
    exact ⟨[], by simp, rfl⟩
  | cons o offers ih =>
    obtain ⟨s₁, hstep, h⟩ := foldlM_cons.mp h
    obtain ⟨-, -, idx, b, -, -, rfl⟩ := completeClearing_eq_ok.mp hstep
    obtain ⟨es, hes, hmap⟩ := ih h
    refine ⟨⟨o, o.amount, b⟩ :: es, ?_, by simp [hmap]⟩
    rw [hes, List.append_assoc]
    rfl

/-! ### The cut -/

namespace Orderbook

open OrderbookTrie

section Cut

variable {t : OrderbookTrie} {db : MemoryDatabase} {supply : FractionalAsset} {upper : UInt64}
  {p sellPrice buyPrice : Price} {key : OfferKey} {leaf : OfferLeaf}

theorem find?_of_cleared (h : (splitAmount t supply).1.find? key = some leaf) :
    t.find? key = some leaf := by
  simp only [splitAmount, endowSplit, SortedMap.splitWithin, SortedMap.find?_filter] at h
  exact (Option.filter_eq_some_iff.mp h).1

theorem find?_of_rest (h : (splitAmount t supply).2.find? key = some leaf) :
    t.find? key = some leaf := by
  simp only [splitAmount, endowSplit, SortedMap.splitWithin, SortedMap.find?_filter] at h
  exact (Option.filter_eq_some_iff.mp h).1

theorem lt_of_readPrice_lt {k k' : OfferKey} (h : readPriceBigEndian k < readPriceBigEndian k') :
    k < k' := by
  by_contra hle
  have hmono := readPriceBigEndian_mono (not_lt.mp hle)
  omega

/-- An offer that is cleared in full has a price that the bound on the supply counts. -/
theorem price_le_of_cleared (hclearable : t.Clearable db)
    (hsupply : supply.value.toNat ≤ endowUpTo t p.toNat * 2 ^ 10)
    (h : (splitAmount t supply).1.find? key = some leaf) : readPriceBigEndian key ≤ p.toNat := by
  by_contra hlt
  have hfind := find?_of_cleared h
  have hpos := hclearable.positive key leaf hfind
  have hcleared := totalEndow_cleared_le t supply
  rw [toNat_floor] at hcleared
  -- then the offers up to `p` are below it, and are cleared as well
  have hmore : endowUpTo t p.toNat + leaf.endow ≤ (splitAmount t supply).1.totalEndow := by
    simp only [splitAmount, endowSplit, SortedMap.splitWithin, SortedMap.find?_filter] at h ⊢
    have hbefore := (Option.filter_eq_some_iff.mp h).2
    refine SortedMap.sum_filter_add_le (fun k _ hk => ?_) hfind (decide_eq_false hlt) hbefore
    rw [decide_eq_true_eq] at hk
    have hkk := lt_of_readPrice_lt (hk.trans_lt (not_le.mp hlt))
    cases hb : SortedMap.boundary OfferLeaf.endow (supply.floor.toNat : Int) t.entries with
    | none => rfl
    | some b =>
      rw [hb] at hbefore
      simp only [SortedMap.before, decide_eq_true_eq] at hbefore ⊢
      exact hkk.trans hbefore
  have hendow : 0 < leaf.endow := hpos
  omega

/-- When something remains to be cleared, the lowest remaining offer has such a price too. -/
theorem price_le_of_lowest (hsupply : supply.value.toNat ≤ endowUpTo t p.toNat * 2 ^ 10)
    (hlowest : (splitAmount t supply).2.getLowestKey = some key)
    (hremaining : (splitAmount t supply).1.totalEndow * 2 ^ 10 < supply.value.toNat) :
    readPriceBigEndian key ≤ p.toNat := by
  by_contra hlt
  obtain ⟨⟨k, leaf'⟩, hmin, rfl⟩ := Option.map_eq_some_iff.mp hlowest
  have hb := SortedMap.boundary_of_min? hmin
  have hmore : endowUpTo t p.toNat ≤ (splitAmount t supply).1.totalEndow := by
    simp only [splitAmount, endowSplit, SortedMap.splitWithin]
    rw [hb]
    refine SortedMap.sum_filter_mono fun k' _ hk' => ?_
    rw [decide_eq_true_eq] at hk'
    simp only [SortedMap.before, decide_eq_true_eq]
    exact lt_of_readPrice_lt (hk'.trans_lt (not_le.mp hlt))
  omega

/-- When nothing remains of the book, nothing remains to be cleared. -/
theorem totalEndow_of_empty (hsupply : supply.value.toNat ≤ endowUpTo t p.toNat * 2 ^ 10)
    (hlowest : (splitAmount t supply).2.getLowestKey = none) :
    supply.value.toNat = (splitAmount t supply).1.totalEndow * 2 ^ 10 := by
  have hempty : (splitAmount t supply).2 = ∅ := by
    rw [← SortedMap.min?_eq_none]
    simpa [getLowestKey] using hlowest
  have hall : (splitAmount t supply).1 = t := SortedMap.splitWithin_of_empty hempty
  have hcleared := totalEndow_cleared_le t supply
  have hle : endowUpTo t p.toNat ≤ t.totalEndow := SortedMap.sum_filter_le ..
  rw [toNat_floor] at hcleared
  rw [hall] at hcleared ⊢
  omega

end Cut

theorem processPartialExec_returns {ob : Orderbook} {s : ClearingState} {key : OfferKey}
    {leaf : OfferLeaf} {remaining : FractionalAsset} {sellPrice buyPrice : Price} {taxRate : UInt8}
    {idx : Nat} (hthunks : ob.lmdb.thunks ≠ []) (hfind : ob.committedOffers.find? key = some leaf)
    (huser : s.db.lookupUser leaf.offer.owner = some idx) (hbuy : buyPrice ≠ 0)
    (hamount : (narrowToInt64 remaining.ceil).toUInt64 ≤ leaf.offer.amount) :
    ∃ r, ob.processPartialExec s key remaining sellPrice buyPrice taxRate = .ok r := by
  obtain ⟨b, hb⟩ : ∃ b, partialBuyAmount remaining sellPrice buyPrice taxRate = .ok b :=
    partialBuyAmount_returns remaining taxRate hbuy
  obtain ⟨ts, thunk, hts⟩ : ∃ ts thunk, ob.lmdb.thunks = ts ++ [thunk] :=
    ⟨_, _, (List.dropLast_append_getLast hthunks).symm⟩
  rw [processPartialExec]
  simp only [performDeletion, hfind, Option.map_some, huser, clearOfferPartial, hb, ok_bind, pure,
    Except.pure, if_neg (not_lt.mpr hamount)]
  rw [OrderbookLMDB.modifyTopThunk_append _ ts thunk _ hts]
  exact ⟨_, rfl⟩

/-- In a book with an up-to-date index, `process_clear_offers` returns for every supply up to the
bound. -/
theorem processClearOffers_returns {ob : Orderbook} {s : ClearingState} {supply : FractionalAsset}
    {prices : List Price} {taxRate : UInt8} {p sellPrice buyPrice : Price}
    (hthunks : ob.lmdb.thunks ≠ []) (hclearable : ob.committedOffers.Clearable s.db)
    (hsell : vectorAt prices ob.category.sellAsset.toNat = .ok sellPrice)
    (hbuy : vectorAt prices ob.category.buyAsset.toNat = .ok buyPrice) (hbuyPrice : buyPrice ≠ 0)
    (hp : p.toNat * buyPrice.toNat ≤ sellPrice.toNat * 2 ^ 24)
    (hsupply : supply.value.toNat ≤ endowUpTo ob.committedOffers p.toNat * 2 ^ 10) :
    ∃ r, ob.processClearOffers s supply prices taxRate = .ok r := by
  have htotal := hclearable.total
  have hle : endowUpTo ob.committedOffers p.toNat ≤ ob.committedOffers.totalEndow :=
    SortedMap.sum_filter_le ..
  have hfloor : supply.floor ≤ 2 ^ 63 - 1 := by
    have hnat : supply.floor.toNat ≤ 2 ^ 63 - 1 := by
      rw [toNat_floor]
      omega
    simpa [BitVec.le_def] using hnat
  have hoffers : ∀ o ∈ (splitAmount ob.committedOffers supply).1.accumulateValues, ∃ key leaf,
      (splitAmount ob.committedOffers supply).1.find? key = some leaf ∧
        ob.committedOffers.find? key = some leaf ∧ leaf.offer = o := by
    intro o ho
    obtain ⟨key, leaf, hfind, rfl⟩ := mem_accumulateValues ho
    exact ⟨key, leaf, hfind, find?_of_cleared hfind, rfl⟩
  obtain ⟨s₁, hclear, hids⟩ : ∃ s₁, applyClearing sellPrice buyPrice taxRate s
      (splitAmount ob.committedOffers supply).1.accumulateValues = .ok s₁ ∧
        s₁.db.userIdToIdxMap = s.db.userIdToIdxMap := by
    refine applyClearing_returns hbuyPrice (fun o ho => ?_) (fun o ho => ?_) (fun o ho => ?_)
    · obtain ⟨key, leaf, hcleared, hfind, rfl⟩ := hoffers o ho
      have hprice := price_le_of_cleared hclearable hsupply hcleared
      rw [hclearable.readPrice hfind] at hprice
      exact (Nat.mul_le_mul_right _ hprice).trans hp
    · obtain ⟨key, leaf, -, hfind, rfl⟩ := hoffers o ho
      exact hclearable.positive key leaf hfind
    · obtain ⟨key, leaf, -, hfind, rfl⟩ := hoffers o ho
      exact hclearable.owned key leaf hfind
  obtain ⟨ts, thunk, hts⟩ : ∃ ts thunk, ob.lmdb.thunks = ts ++ [thunk] :=
    ⟨_, _, (List.dropLast_append_getLast hthunks).symm⟩
  rw [processClearOffers]
  dsimp only
  rw [if_neg (BitVec.not_lt.mpr hfloor), hsell, ok_bind, hbuy, ok_bind]
  change ∃ r, (applyClearing sellPrice buyPrice taxRate s
    (splitAmount ob.committedOffers supply).1.accumulateValues >>= _) = .ok r
  rw [hclear, ok_bind, OrderbookLMDB.modifyTopThunk_append _ ts thunk _ hts, ok_bind]
  have hremaining := toNat_remainingToClear (t := ob.committedOffers) hfloor
  split
  · rename_i hlowest
    have hall := totalEndow_of_empty hsupply hlowest
    have hzero : remainingToClear ob.committedOffers supply = .fromIntegral 0 := by
      have hvalue : (remainingToClear ob.committedOffers supply).value = 0 := by
        apply BitVec.eq_of_toNat_eq
        rw [hremaining, hall, Nat.sub_self]
        rfl
      exact congrArg FractionalAsset.mk hvalue
    split
    · rename_i hne
      exact absurd hzero hne
    · rw [OrderbookLMDB.modifyTopThunk_append _ ts _ _ rfl]
      exact ⟨_, rfl⟩
  · rename_i key hlowest
    obtain ⟨⟨k, leaf⟩, hmin, rfl⟩ := Option.map_eq_some_iff.mp hlowest
    have hfind : (splitAmount ob.committedOffers supply).2.find? k = some leaf :=
      SortedMap.find?_of_min? hmin
    have hfits := floor_lt_of_lowest hlowest hfind
    obtain ⟨idx, huser⟩ := Option.isSome_iff_exists.mp
      (hclearable.owned k leaf (find?_of_rest hfind))
    have huser₁ : s₁.db.lookupUser leaf.offer.owner = some idx := by
      rw [MemoryDatabase.lookupUser, hids]
      exact huser
    refine bind_returns (processPartialExec_returns (by simp) hfind huser₁ hbuyPrice ?_)
      fun _ _ => ⟨_, rfl⟩
    -- the offer would not have fit, so what remains, rounded up, is at most its amount
    change (narrowToInt64 (remainingToClear ob.committedOffers supply).ceil).toUInt64 ≤ _
    rw [UInt64.le_iff_toNat_le, toNat_narrowToInt64, toNat_ceil, hremaining,
      Nat.ceilDiv_eq_add_pred_div]
    rw [toNat_floor] at hfits
    omega

/-! ### What was executed -/

section Executed

variable {t : OrderbookTrie} {db : MemoryDatabase} {supply : FractionalAsset} {es : List Execution}

theorem deducted_append (es es' : List Execution) (key : OfferKey) :
    deducted (es ++ es') key = deducted es key + deducted es' key := by
  simp [deducted]

theorem deducted_singleton (e : Execution) (key : OfferKey) :
    deducted [e] key = if e.offer.key = key then e.sellAmount.toNat else 0 := by
  by_cases h : e.offer.key = key <;> simp [deducted, h]

/-- Clearing a trie in full takes its offers' amounts. -/
theorem deducted_full (hkeyed : ∀ key leaf, t.find? key = some leaf → key = leaf.offer.key)
    (hes : (es.map fun e => (e.offer, e.sellAmount)) = t.accumulateValues.map fun o => (o, o.amount))
    (key : OfferKey) : deducted es key = t.amountAt key := by
  have hpairs : deducted es key = (((es.map fun e => (e.offer, e.sellAmount)).filter
      fun a => a.1.key = key).map fun a => a.2.toNat).sum := by
    rw [List.filter_map, List.map_map]
    rfl
  rw [hpairs, hes, accumulateValues_eq, amountAt, ← SortedMap.sum_filter_key, SortedMap.sum_eq_entries]
  have hentries : ∀ a ∈ t.entries, a.2.offer.key = a.1 := fun a ha =>
    (hkeyed a.1 a.2 (SortedMap.mem_entries.mp ha)).symm
  simp only [SortedMap.values, SortedMap.filter, List.map_map, List.filter_map]
  refine congrArg (fun l : List (OfferKey × OfferLeaf) => (l.map fun a => a.2.endow).sum) ?_
  refine List.filter_congr fun a ha => ?_
  simp only [Function.comp_apply, hentries a ha, decide_eq_decide]

theorem sellAmounts_full
    (hes : (es.map fun e => (e.offer, e.sellAmount)) = t.accumulateValues.map fun o => (o, o.amount)) :
    (es.map fun e => e.sellAmount.toNat).sum = t.totalEndow := by
  have hpairs : (es.map fun e => e.sellAmount.toNat) =
      (es.map fun e => (e.offer, e.sellAmount)).map fun a => a.2.toNat := by simp
  rw [hpairs, hes, totalEndow_eq, List.map_map]
  rfl

theorem amountAt_split (t : OrderbookTrie) (supply : FractionalAsset) (key : OfferKey) :
    (splitAmount t supply).1.amountAt key + (splitAmount t supply).2.amountAt key = t.amountAt key := by
  simp only [amountAt, splitAmount, endowSplit, SortedMap.splitWithin, SortedMap.find?_filter]
  cases hfind : t.find? key with
  | none => rfl
  | some leaf =>
    cases hb : SortedMap.before
      (SortedMap.boundary OfferLeaf.endow (supply.floor.toNat : Int) t.entries) key <;>
      simp [Option.filter_some]

theorem entries_offers_split (t : OrderbookTrie) (supply : FractionalAsset) :
    t.offers.entries =
      (splitAmount t supply).1.offers.entries ++ (splitAmount t supply).2.offers.entries := by
  have hsplit := SortedMap.entries_splitWithin t OfferLeaf.endow supply.floor.toNat
  have hmap := congrArg (List.map fun a : OfferKey × OfferLeaf => (a.1, a.2.offer)) hsplit
  rwa [List.map_append] at hmap

/-- What is taken from an offer and what is left of it is what it was. -/
theorem amountAt_put_back {key : OfferKey} {leaf : OfferLeaf} {sold : UInt64}
    (hfind : t.find? key = some leaf) (hkey : key = leaf.offer.key) (hsold : sold ≤ leaf.offer.amount)
    (key' : OfferKey) :
    (if leaf.offer.key = key' then sold.toNat else 0) +
      OrderbookTrie.amountAt (if (reduced leaf.offer sold).amount > 0 then
        OrderbookTrie.insertOffer (t.erase key) key (reduced leaf.offer sold)
        else t.erase key) key' = t.amountAt key' := by
  have hreduced := toNat_reduced hsold
  have hle := UInt64.le_iff_toNat_le.mp hsold
  rw [← hkey]
  by_cases heq : key = key'
  · subst heq
    rw [if_pos rfl, amountAt, amountAt, hfind]
    split
    · rw [insertOffer, SortedMap.find?_insert_self]
      show sold.toNat + (reduced leaf.offer sold).amount.toNat = leaf.offer.amount.toNat
      omega
    · rename_i hzero
      rw [gt_iff_lt, UInt64.lt_iff_toNat_lt, hreduced, UInt64.toNat_zero] at hzero
      rw [SortedMap.find?_erase_self]
      show sold.toNat + 0 = leaf.offer.amount.toNat
      omega
  · rw [if_neg heq, Nat.zero_add, amountAt, amountAt]
    split
    · rw [insertOffer, SortedMap.find?_insert_ne heq, SortedMap.find?_erase_ne heq]
    · rw [SortedMap.find?_erase_ne heq]

/-- The offers that are left are as they were, up to their amounts. -/
theorem find?_put_back {key key' : OfferKey} {leaf : OfferLeaf} {sold : UInt64} {offer' : Offer}
    (hfind : (splitAmount t supply).2.find? key = some leaf)
    (h : SortedMap.find? (OrderbookTrie.offers (if (reduced leaf.offer sold).amount > 0 then
      OrderbookTrie.insertOffer ((splitAmount t supply).2.erase key) key (reduced leaf.offer sold)
      else (splitAmount t supply).2.erase key)) key' = some offer') :
    ∃ offer, t.offers.find? key' = some offer ∧ offer' = { offer with amount := offer'.amount } := by
  rw [find?_offers] at h
  obtain ⟨leaf', hleaf', rfl⟩ := Option.map_eq_some_iff.mp h
  by_cases heq : key = key'
  · subst heq
    split at hleaf'
    · rw [insertOffer, SortedMap.find?_insert_self] at hleaf'
      cases hleaf'
      exact ⟨leaf.offer, by rw [find?_offers, find?_of_rest hfind]; rfl, rfl⟩
    · rw [SortedMap.find?_erase_self] at hleaf'
      cases hleaf'
  · have hrest : (splitAmount t supply).2.find? key' = some leaf' := by
      split at hleaf'
      · rwa [insertOffer, SortedMap.find?_insert_ne heq, SortedMap.find?_erase_ne heq] at hleaf'
      · rwa [SortedMap.find?_erase_ne heq] at hleaf'
    exact ⟨leaf'.offer, by rw [find?_offers, find?_of_rest hrest]; rfl, rfl⟩

theorem accumulateValues_entries (t : OrderbookTrie) :
    t.accumulateValues = t.offers.entries.map (·.2) := rfl

end Executed

/-- A return of `process_clear_offers` has executed a prefix of the offers. -/
theorem ProcessClear.clearsPrefix {ob ob' : Orderbook} {s s' : ClearingState}
    {supply : FractionalAsset} {prices : List Price} {taxRate : UInt8} {p sellPrice buyPrice : Price}
    {c : SingleOrderbookStateCommitment} (h : ProcessClear ob s supply prices taxRate ob' s' c)
    (hclearable : ob.committedOffers.Clearable s.db)
    (hsell : vectorAt prices ob.category.sellAsset.toNat = .ok sellPrice)
    (hbuy : vectorAt prices ob.category.buyAsset.toNat = .ok buyPrice)
    (hp : p.toNat * buyPrice.toNat ≤ sellPrice.toNat * 2 ^ 24)
    (hsupply : supply.value.toNat ≤ endowUpTo ob.committedOffers p.toNat * 2 ^ 10) :
    ∃ es, s'.executed = s.executed ++ es ∧
      ClearsPrefix ob.committedOffers ob'.committedOffers es supply sellPrice buyPrice c := by
  have haccepts : ∀ key leaf, ob.committedOffers.find? key = some leaf →
      readPriceBigEndian key ≤ p.toNat → leaf.offer.Accepts sellPrice buyPrice := by
    intro key leaf hfind hprice
    rw [hclearable.readPrice hfind] at hprice
    exact (Nat.mul_le_mul_right _ hprice).trans hp
  have hkeyed : ∀ key leaf, (splitAmount ob.committedOffers supply).1.find? key = some leaf →
      key = leaf.offer.key := fun key leaf hfind => hclearable.keyed key leaf (find?_of_cleared hfind)
  have hfull : ∀ es : List Execution, (es.map fun e => (e.offer, e.sellAmount)) =
      (splitAmount ob.committedOffers supply).1.accumulateValues.map (fun o => (o, o.amount)) →
      ∀ e ∈ es, e.offer.Accepts sellPrice buyPrice := by
    intro es hes e he
    have hmem : (e.offer, e.sellAmount) ∈ es.map fun e => (e.offer, e.sellAmount) :=
      List.mem_map_of_mem he
    rw [hes] at hmem
    obtain ⟨o, ho, heq⟩ := List.mem_map.mp hmem
    obtain ⟨key, leaf, hfind, rfl⟩ := mem_accumulateValues ho
    rw [← (Prod.mk.inj heq).1]
    exact haccepts key leaf (find?_of_cleared hfind) (price_le_of_cleared hclearable hsupply hfind)
  have hendow : ((splitAmount ob.committedOffers supply).1.offers.entries.map
      fun a => a.2.amount.toNat).sum = (splitAmount ob.committedOffers supply).1.totalEndow := by
    rw [totalEndow_eq, accumulateValues_entries, List.map_map]
    rfl
  have hcleared := totalEndow_cleared_le ob.committedOffers supply
  rw [toNat_floor] at hcleared
  cases h with
  | everything hfloor hsell' hbuy' hclear hlowest hremaining hlmdb =>
    cases hsell.symm.trans hsell'
    cases hbuy.symm.trans hbuy'
    obtain ⟨es, hes, hmap⟩ := applyClearing_full hclear
    have hall := totalEndow_of_empty hsupply hlowest
    have hempty : (splitAmount ob.committedOffers supply).2 = ∅ := by
      rw [← SortedMap.min?_eq_none]
      simpa [getLowestKey] using hlowest
    refine ⟨es, hes, ⟨?_, fun e he _ => hfull es hmap e he, fun key => ?_, ?_, ?_, rfl⟩⟩
    · refine ⟨_, _, es, entries_offers_split ob.committedOffers supply, ?_, .inl ⟨rfl, ?_⟩, ?_⟩
      · rw [hmap, accumulateValues_entries, List.map_map]
        rfl
      · rw [hempty]
        rfl
      · show supply.value.toNat = _ + (remainingToClear ob.committedOffers supply).value.toNat
        rw [hendow, toNat_remainingToClear hfloor, hall, Nat.sub_self, Nat.add_zero]
    · rw [deducted_full hkeyed hmap]
      exact amountAt_split ob.committedOffers supply key
    · intro key offer' hfind
      rw [hempty, find?_offers, SortedMap.find?_empty] at hfind
      simp at hfind
    · rw [sellAmounts_full hmap, toNat_ceil, hall, Nat.ceilDiv_eq_add_pred_div]
      omega
  | @belowPartial s₁ _ _ _ key leaf idx buyAmount sellAmount hfloor hsell' hbuy' hclear hlowest hfind
      huser hcredit hsellAmount hamount hlmdb =>
    cases hsell.symm.trans hsell'
    cases hbuy.symm.trans hbuy'
    obtain ⟨es, hes, hmap⟩ := applyClearing_full hclear
    have hremaining := toNat_remainingToClear (t := ob.committedOffers) hfloor
    have hfits := floor_lt_of_lowest hlowest hfind
    rw [toNat_floor] at hfits
    have hamount' := UInt64.le_iff_toNat_le.mp hamount
    have hlt := leaf.offer.amount.toNat_lt
    have hsold : sellAmount.toUInt64.toNat = (supply.value.toNat -
        (splitAmount ob.committedOffers supply).1.totalEndow * 2 ^ 10) ⌈/⌉ 2 ^ 10 := by
      rw [hsellAmount, toNat_narrowToInt64, toNat_ceil, hremaining, Nat.ceilDiv_eq_add_pred_div]
      omega
    have hfind₀ := find?_of_rest hfind
    have hreduced := toNat_reduced hamount
    have hkey := hclearable.keyed key leaf hfind₀
    refine ⟨es ++ [⟨leaf.offer, sellAmount.toUInt64, buyAmount⟩], ?_,
      ⟨?_, fun e he hpos => ?_, fun key' => ?_, fun key' offer' hfind' => ?_, ?_, rfl⟩⟩
    · rw [hes, List.append_assoc]
    · obtain ⟨⟨key', leaf'⟩, hmin, rfl⟩ := Option.map_eq_some_iff.mp hlowest
      have hleaf : leaf' = leaf :=
        Option.some.inj ((SortedMap.find?_of_min? hmin).symm.trans hfind)
      subst hleaf
      obtain ⟨rest, hrest⟩ : ∃ rest, (splitAmount ob.committedOffers supply).2.entries =
          (key', leaf') :: rest := List.head?_eq_some_iff.mp hmin
      refine ⟨_, _, es, entries_offers_split ob.committedOffers supply, ?_,
        .inr ⟨(key', leaf'.offer), rest.map fun a => (a.1, a.2.offer), _, ?_, rfl, rfl, hamount⟩, ?_⟩
      · rw [hmap, accumulateValues_entries, List.map_map]
        rfl
      · have hoffers := congrArg (List.map fun a : OfferKey × OfferLeaf => (a.1, a.2.offer)) hrest
        rwa [List.map_cons] at hoffers
      · show supply.value.toNat = _ + (remainingToClear ob.committedOffers supply).value.toNat
        rw [hendow, hremaining]
        omega
    · rcases List.mem_append.mp he with he | he
      · exact hfull es hmap e he
      · -- something is taken from the offer, so something remained to be cleared
        cases List.mem_singleton.mp he
        have hsome : (splitAmount ob.committedOffers supply).1.totalEndow * 2 ^ 10 <
            supply.value.toNat := by
          rw [UInt64.lt_iff_toNat_lt, hsold, Nat.ceilDiv_eq_add_pred_div] at hpos
          simp only [UInt64.toNat_zero] at hpos
          omega
        exact haccepts key leaf hfind₀ (price_le_of_lowest hsupply hlowest hsome)
    · rw [deducted_append, deducted_singleton, deducted_full hkeyed hmap,
        ← amountAt_split ob.committedOffers supply key', Nat.add_assoc]
      congr 1
      exact amountAt_put_back hfind hkey hamount key'
    · exact find?_put_back hfind hfind'
    · rw [List.map_append, List.sum_append, sellAmounts_full hmap, List.map_singleton,
        List.sum_singleton, toNat_ceil]
      dsimp only
      rw [hsold, Nat.ceilDiv_eq_add_pred_div, Nat.ceilDiv_eq_add_pred_div]
      omega

/-- After `commit_for_production`, clearing any supply up to the bound executes a prefix of the
offers. -/
theorem processClearOffers_clearsPrefix (ob₀ ob : Orderbook) (currentBlockNumber : UInt64)
    (indeterminate : Bool) (s : ClearingState) (supply : FractionalAsset) (prices : List Price)
    (taxRate smoothMult : UInt8) (lower upper : UInt64)
    (hcommit : ob₀.commitForProduction currentBlockNumber indeterminate = .ok ob)
    (hclearable : ob.committedOffers.Clearable s.db)
    (hprices : ∀ p ∈ prices, p.isValidPrice = true)
    (hsellAsset : ob.category.sellAsset.toNat < prices.length)
    (hbuyAsset : ob.category.buyAsset.toNat < prices.length)
    (hbounds : ob.getSupplyBounds prices smoothMult = .ok (lower, upper))
    (hsupply : supply.value.toNat ≤ upper.toNat * 2 ^ 10) :
    ∃ ob' s' c es, ob.processClearOffers s supply prices taxRate = .ok (ob', s', c) ∧
      s'.executed = s.executed ++ es ∧
      ClearsPrefix ob.committedOffers ob'.committedOffers es supply
        prices[ob.category.sellAsset.toNat] prices[ob.category.buyAsset.toNat] c := by
  obtain ⟨ob₁, hob₁, hcommit⟩ := bind_eq_ok.mp hcommit
  cases hcommit
  obtain ⟨lmdb, hlmdb, hob₁⟩ := bind_eq_ok.mp hob₁
  cases hob₁
  have hthunks : lmdb.thunks ≠ [] := by
    rw [OrderbookLMDB.addNewThunk_eq_ok hlmdb]
    simp
  generalize hob : generateMetadataIndex _ = ob at *
  have hindex : ob.indexedMetadata = metadataTraversal ob.committedOffers := by
    rw [← hob]
    rfl
  have hlmdb' : ob.lmdb.thunks ≠ [] := by
    rw [← hob]
    exact hthunks
  have hsell : vectorAt prices ob.category.sellAsset.toNat =
      .ok prices[ob.category.sellAsset.toNat] :=
    vectorAt_eq_ok.mpr (List.getElem?_eq_getElem hsellAsset)
  have hbuy : vectorAt prices ob.category.buyAsset.toNat = .ok prices[ob.category.buyAsset.toNat] :=
    vectorAt_eq_ok.mpr (List.getElem?_eq_getElem hbuyAsset)
  have hbuyPrice : prices[ob.category.buyAsset.toNat] ≠ 0 := by
    have hvalid := Price.isValidPrice_iff.mp (hprices _ (List.getElem_mem hbuyAsset))
    intro hzero
    rw [hzero] at hvalid
    exact absurd hvalid.1 (by decide)
  obtain ⟨p, hupper, hp⟩ := getSupplyBounds_spec hindex hclearable.total hsell hbuy hbounds
  rw [hupper] at hsupply
  obtain ⟨⟨ob', s', c⟩, hclear⟩ :=
    processClearOffers_returns hlmdb' hclearable hsell hbuy hbuyPrice hp hsupply
  obtain ⟨es, hes, hcleared⟩ :=
    (processClear_cases hclear).clearsPrefix hclearable hsell hbuy hp hsupply
  exact ⟨ob', s', c, es, hclear, hes, hcleared⟩

/-- An orderbook with new offers of account 7 that sell asset 0 for asset 1. -/
def offering (amounts : List UInt64) : Orderbook where
  category := ⟨0, 1, .SELL⟩
  committedOffers := ∅
  uncommittedOffers := amounts.zipIdx.foldl (fun t a =>
    let offer : Offer := ⟨⟨0, 1, .SELL⟩, .ofNat a.2, 7, a.1, 2 ^ 24⟩
    t.insertOffer offer.key offer) ∅
  lmdb := ⟨[], ∅, 0⟩
  indexedMetadata := []

/-- Two offers of 10 and 20 units, of which twelve and a half units are cleared. -/
theorem processClearOffers_clearsPrefix_offering :
    ∃ ob ob' s' c es, (offering [10, 20]).commitForProduction 1 false = .ok ob ∧
      ob.processClearOffers ⟨.ofAccount 7, ∅, []⟩ ⟨12 * 2 ^ 10 + 512⟩ [1, 1] 10 = .ok (ob', s', c) ∧
      s'.executed = es ∧ ClearsPrefix ob.committedOffers ob'.committedOffers es ⟨12 * 2 ^ 10 + 512⟩
        1 1 c := by
  obtain ⟨ob, hcommit, hvalues⟩ := returns_iff.mp (show returns
    ((offering [10, 20]).commitForProduction 1 false) (fun ob =>
      returns (ob.getSupplyBounds [1, 1] 0) (fun bounds => bounds.2 = 30) &&
      ob.category = ⟨0, 1, .SELL⟩ && decide (ob.committedOffers.totalEndow < 2 ^ 63) &&
      ob.committedOffers.entries.all fun a => a.1 = a.2.offer.key && a.2.offer.minPrice.isValidPrice &&
        a.2.offer.amount.toNat > 0 && ((MemoryDatabase.ofAccount 7).lookupUser a.2.offer.owner).isSome) = true
      by decide +kernel)
  simp only [Bool.and_eq_true, decide_eq_true_eq, List.all_eq_true] at hvalues
  obtain ⟨⟨⟨hbounds, hcategory⟩, htotal⟩, hentries⟩ := hvalues
  obtain ⟨⟨lower, upper⟩, hbounds, hupper⟩ := returns_iff.mp hbounds
  rw [decide_eq_true_eq] at hupper
  have hentry : ∀ key leaf, ob.committedOffers.find? key = some leaf → _ :=
    fun key leaf hfind => hentries (key, leaf) (SortedMap.mem_entries.mpr hfind)
  have hclearable : ob.committedOffers.Clearable (.ofAccount 7) :=
    ⟨fun key leaf hfind => (hentry key leaf hfind).1.1.1, fun key leaf hfind =>
      (hentry key leaf hfind).1.1.2, fun key leaf hfind => (hentry key leaf hfind).1.2,
      fun key leaf hfind => (hentry key leaf hfind).2, htotal⟩
  have hsell : ob.category.sellAsset.toNat < 2 := by
    rw [hcategory]
    decide
  have hbuy : ob.category.buyAsset.toNat < 2 := by
    rw [hcategory]
    decide
  obtain ⟨ob', s', c, es, hclear, hes, hcleared⟩ := processClearOffers_clearsPrefix _ ob 1 false
    ⟨.ofAccount 7, ∅, []⟩ ⟨12 * 2 ^ 10 + 512⟩ [1, 1] 10 0 lower upper hcommit hclearable
    (by simp [Price.isValidPrice_iff])
    hsell hbuy hbounds (by
      dsimp only at hupper
      rw [hupper]
      decide +kernel)
  refine ⟨ob, ob', s', c, es, hcommit, hclear, hes, ?_⟩
  have hprices : ([1, 1] : List Price)[ob.category.sellAsset.toNat] = 1 ∧
      ([1, 1] : List Price)[ob.category.buyAsset.toNat] = 1 := by
    simp only [hcategory]
    exact ⟨rfl, rfl⟩
  rwa [hprices.1, hprices.2] at hcleared

/-- Two offers of `2^62` units: the bound on the supply is `2^63`, and clearing it throws. -/
theorem processClearOffers_throws :
    ∃ ob lower upper, (offering [2 ^ 62, 2 ^ 62]).commitForProduction 1 false = .ok ob ∧
      ob.getSupplyBounds [1, 1] 0 = .ok (lower, upper) ∧ upper.toNat = 2 ^ 63 ∧
      (∀ key leaf, ob.committedOffers.find? key = some leaf → 0 < leaf.offer.amount.toNat) ∧
      ob.processClearOffers ⟨.ofAccount 7, ∅, []⟩ (.fromIntegral (2 ^ 63)) [1, 1] 10 =
        .error (.runtimeError "trying to clear more than there should exist") := by
  obtain ⟨ob, hcommit, hvalues⟩ := returns_iff.mp (show returns
    ((offering [2 ^ 62, 2 ^ 62]).commitForProduction 1 false) (fun ob =>
      returns (ob.getSupplyBounds [1, 1] 0) (fun bounds => bounds.2.toNat = 2 ^ 63) &&
      (ob.committedOffers.entries.all fun a => a.2.offer.amount.toNat > 0) &&
      throws (ob.processClearOffers ⟨.ofAccount 7, ∅, []⟩ (.fromIntegral (2 ^ 63)) [1, 1] 10)
        (.runtimeError "trying to clear more than there should exist")) = true by decide +kernel)
  simp only [Bool.and_eq_true, List.all_eq_true] at hvalues
  obtain ⟨⟨hbounds, hentries⟩, hthrows⟩ := hvalues
  obtain ⟨⟨lower, upper⟩, hbounds, hupper⟩ := returns_iff.mp hbounds
  rw [decide_eq_true_eq] at hupper
  refine ⟨ob, lower, upper, hcommit, hbounds, hupper, fun key leaf hfind => ?_, throws_iff.mp hthrows⟩
  exact of_decide_eq_true (hentries (key, leaf) (SortedMap.mem_entries.mpr hfind))

end Orderbook

end Speedex
