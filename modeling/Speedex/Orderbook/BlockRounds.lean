import Speedex.Orderbook.Rounds

/-! A block acts on an orderbook in a round: production always, and validation when the amounts on
offer add up to less than `2^63`. -/

namespace Speedex

open Lib

namespace Orderbook

open OrderbookTrie

variable {ob ob₁ ob₂ : Orderbook} {n : UInt64} {b : Bool}

/-- The round of a block whose new offers and cancellations are in `ob`. -/
def roundOf (ob : Orderbook) (n : UInt64) (clearing : Clearing) : Round where
  number := n
  created := ob.uncommittedOffers.offers
  cancelled := SortedMap.keys (ob.committedOffers.filter fun _ leaf => leaf.deleted)
  clearing := clearing

theorem mem_cancelled {c : Clearing} {k : OfferKey} :
    k ∈ (ob.roundOf n c).cancelled ↔
      ∃ leaf, ob.committedOffers.find? k = some leaf ∧ leaf.deleted = true := by
  rw [roundOf, SortedMap.mem_keys, SortedMap.contains, SortedMap.find?_filter,
    Option.isSome_iff_exists]
  simp only [Option.filter_eq_some_iff]

theorem roundOf_merged (ob : Orderbook) (n : UInt64) (c : Clearing) :
    (ob.roundOf n c).merged ob.committedOffers.offers = ob.merged.offers := by
  refine SortedMap.ext_find fun k => ?_
  rw [Round.find?_merged, Round.mergedAt, find?_offers, find?_offers, Orderbook.find?_merged]
  simp only [mem_cancelled]
  change ((ob.uncommittedOffers.offers).find? k).or _ = _
  rw [find?_offers]
  cases hu : ob.uncommittedOffers.find? k with
  | some leaf => rfl
  | none =>
    cases hc : ob.committedOffers.find? k with
    | none => simp
    | some leaf => cases hd : leaf.deleted <;> simp [hd, Option.filter_some]

theorem roundOf_deleted (ob : Orderbook) (n : UInt64) (c : Clearing) :
    ob.committedOffers.performMarkedDeletions.1 =
      (ob.committedOffers.offers.filter fun k _ =>
        decide (k ∈ (ob.roundOf n c).cancelled)).entries := by
  rw [performMarkedDeletions]
  refine congrArg SortedMap.entries (SortedMap.ext_find fun k => ?_)
  rw [find?_offers, SortedMap.find?_filter, SortedMap.find?_filter, find?_offers]
  simp only [mem_cancelled]
  cases hc : ob.committedOffers.find? k with
  | none => rfl
  | some leaf => cases hd : leaf.deleted <;> simp [hd, Option.filter_some]

/-- The book and the thunk that a block leaves are those of a round. -/
structure ActsAs (ob ob' : Orderbook) (r : Round) : Prop where
  book : ob'.committedOffers.offers = r.after ob.committedOffers.offers
  thunk : ∃ thunk, ob'.lmdb.thunks = ob.lmdb.thunks ++ [thunk] ∧
    r.Recorded ob.committedOffers.offers thunk
  cancelled : ∀ k ∈ r.cancelled, ∃ offer, ob.committedOffers.offers.find? k = some offer
  partialExec : ∀ key amount, r.clearing = .upTo key amount →
    ∃ offer, (r.merged ob.committedOffers.offers).find? key = some offer ∧ amount ≤ offer.amount
  unmarked : ob'.committedOffers.Unmarked
  persisted : ob'.lmdb.persistedRoundNumber = ob.lmdb.persistedRoundNumber

theorem cancelled_mem (ob : Orderbook) (n : UInt64) (c : Clearing) :
    ∀ k ∈ (ob.roundOf n c).cancelled, ∃ offer, ob.committedOffers.offers.find? k = some offer := by
  intro k hk
  obtain ⟨leaf, hleaf, -⟩ := mem_cancelled.mp hk
  exact ⟨leaf.offer, by rw [find?_offers, hleaf]; rfl⟩

/-- A block that clears the whole book. -/
theorem actsAs_everything {t : OrderbookTrie} {ob' : Orderbook}
    (hun : ob.merged.Unmarked) (hcleared : t = ob.merged)
    (hbook : ob'.committedOffers.offers = ∅)
    (hthunk : ob'.lmdb.thunks = ob.lmdb.thunks ++
      [{ (ob.commitThunk n b).setNoPartialExec with clearedOffers := t }])
    (hpersisted : ob'.lmdb.persistedRoundNumber = ob.lmdb.persistedRoundNumber) :
    ActsAs ob ob' (ob.roundOf n .everything) where
  book := hbook
  thunk := by
    refine ⟨_, hthunk, ?_⟩
    subst hcleared
    exact {
      number := rfl
      created := rfl
      deleted := roundOf_deleted ob n .everything
      cleared := (roundOf_merged ob n .everything).symm
      unmarked := hun
      threshold := rfl
      exists_iff := ⟨nofun, fun h => absurd rfl h⟩
      partialExec := nofun }
  cancelled := cancelled_mem ob n .everything
  partialExec := nofun
  unmarked := by
    intro k leaf hk
    have hnone := congrArg (fun m => m.find? k) hbook
    simp [hk] at hnone
  persisted := hpersisted

/-- A block that clears what is below `key` and executes the offer there partially. -/
theorem actsAs_upTo {cleared rest : OrderbookTrie} {ob' : Orderbook} {key : OfferKey}
    {leaf : OfferLeaf} {amount : Int64} (hun : ob.merged.Unmarked)
    (hleaf : ob.merged.find? key = some leaf) (hamount : amount.toUInt64 ≤ leaf.offer.amount)
    (hcleared : ∀ k, cleared.find? k = if k < key then ob.merged.find? k else none)
    (hrest : ∀ k, key ≠ k → rest.find? k = if k < key then none else ob.merged.find? k)
    (hrestKey : rest.offers.find? key = Round.leftover leaf.offer amount.toUInt64)
    (hbook : ob'.committedOffers.offers = rest.offers)
    (hunmarked : ob'.committedOffers.Unmarked)
    (hthunk : ob'.lmdb.thunks = ob.lmdb.thunks ++
      [{ (ob.commitThunk n b).setPartialExec key amount leaf.offer with
        clearedOffers := cleared }])
    (hpersisted : ob'.lmdb.persistedRoundNumber = ob.lmdb.persistedRoundNumber) :
    ActsAs ob ob' (ob.roundOf n (.upTo key amount.toUInt64)) := by
  have hmerged := roundOf_merged ob n (.upTo key amount.toUInt64)
  have hkey : ((ob.roundOf n (.upTo key amount.toUInt64)).merged
      ob.committedOffers.offers).find? key = some leaf.offer := by
    rw [hmerged, find?_offers, hleaf]
    rfl
  refine {
    book := ?_
    thunk := ⟨_, hthunk, ?_⟩
    cancelled := cancelled_mem ob n _
    partialExec := ?_
    unmarked := hunmarked
    persisted := hpersisted }
  · refine SortedMap.ext_find fun k => ?_
    rw [hbook, Round.find?_after, Round.afterAt, ← Round.find?_merged, hmerged]
    change _ = Round.clearedAt (.upTo key amount.toUInt64) k _
    rw [Round.clearedAt, find?_offers]
    by_cases hk : key = k
    · subst hk
      rw [if_neg (lt_irrefl _), if_pos rfl, ← find?_offers, hrestKey, find?_offers, hleaf]
      rfl
    · rw [hrest k hk, if_neg (Ne.symm hk), find?_offers]
      by_cases hlt : k < key
      · rw [if_pos hlt, if_pos hlt]
        rfl
      · rw [if_neg hlt, if_neg hlt]
  · exact {
      number := rfl
      created := rfl
      deleted := roundOf_deleted ob n _
      cleared := by
        refine SortedMap.ext_find fun k => ?_
        rw [Round.find?_cleared_upTo rfl, ← Round.find?_merged, hmerged, find?_offers, find?_offers]
        change (cleared.find? k).map _ = _
        rw [hcleared]
        split <;> rfl
      unmarked := by
        intro k leaf' hk
        change cleared.find? k = some leaf' at hk
        rw [hcleared] at hk
        split at hk
        · exact hun k leaf' hk
        · cases hk
      threshold := rfl
      exists_iff := ⟨fun _ => by simp [roundOf], fun _ => rfl⟩
      partialExec := by
        intro key' amount' h
        cases h
        exact ⟨rfl, hkey⟩ }
  · intro key' amount' h
    cases h
    exact ⟨leaf.offer, hkey, hamount⟩

/-- The new offers of a block are not marked for deletion. -/
theorem unmarked_merged (h : ob.uncommittedOffers.Unmarked) : ob.merged.Unmarked :=
  (unmarked_performMarkedDeletions _).mergeIn h

theorem commitForProduction_eq_ok (h : ob.commitForProduction n b = .ok ob₁) :
    ob₁ = { ob with
      committedOffers := ob.merged
      uncommittedOffers := ∅
      lmdb := { ob.lmdb with thunks := ob.lmdb.thunks ++ [ob.commitThunk n b] }
      indexedMetadata := metadataTraversal ob.merged } := by
  obtain ⟨ob₀, hcommit, h⟩ := bind_eq_ok.mp h
  rw [tentativeCommitForValidation_eq_ok hcommit] at h
  exact (Except.ok.inj h).symm

/-- What production clears fully is what is below the lowest remaining key. -/
theorem find?_splitAmount {t : OrderbookTrie} {supply : FractionalAsset} {key : OfferKey}
    (h : (splitAmount t supply).2.getLowestKey = some key) (k : OfferKey) :
    (splitAmount t supply).1.find? k = (if k < key then t.find? k else none) ∧
      (splitAmount t supply).2.find? k = if k < key then none else t.find? k := by
  obtain ⟨⟨_, v⟩, hmin, rfl⟩ := Option.map_eq_some_iff.mp h
  have hb := SortedMap.boundary_of_min? hmin
  simp only [splitAmount, endowSplit, SortedMap.splitWithin, hb, SortedMap.before]
  refine ⟨SortedMap.find?_filter_key .., ?_⟩
  rw [SortedMap.find?_filter]
  split
  · rename_i hk
    cases t.find? k <;> simp [hk, Option.filter_some]
  · rename_i hk
    cases t.find? k <;> simp [not_lt.mp hk, Option.filter_some]

/-- Production acts on a book as a round: it clears every offer below the one that executes
partially. -/
theorem production_actsAs {s s' : ClearingState} {supply : FractionalAsset} {prices : List Price}
    {taxRate : UInt8} {c : SingleOrderbookStateCommitment}
    (hnew : ob.uncommittedOffers.Unmarked) (hcommit : ob.commitForProduction n b = .ok ob₁)
    (hclear : ob₁.processClearOffers s supply prices taxRate = .ok (ob₂, s', c)) :
    ∃ clearing, ActsAs ob ob₂ (ob.roundOf n clearing) := by
  have hun := unmarked_merged hnew
  cases commitForProduction_eq_ok hcommit
  cases processClear_cases hclear with
  | everything hfloor hsell hbuy hclear hlowest hremaining hlmdb =>
    have hrest : (splitAmount ob.merged supply).2 = ∅ := by
      rw [← SortedMap.min?_eq_none]
      exact Option.map_eq_none_iff.mp hlowest
    rw [OrderbookLMDB.modifyTopThunk_append _ ob.lmdb.thunks (ob.commitThunk n b) _ rfl] at hlmdb
    cases hlmdb
    exact ⟨.everything, actsAs_everything hun (SortedMap.splitWithin_of_empty hrest)
      (congrArg offers hrest) rfl rfl⟩
  | @belowPartial _ _ _ _ key leaf _ _ sellAmount hfloor hsell hbuy hclear hlowest hfind huser
      hcredit hsellAmount hamount hlmdb =>
    have hsplit := find?_splitAmount hlowest
    rw [OrderbookLMDB.modifyTopThunk_append _ ob.lmdb.thunks (ob.commitThunk n b) _ rfl] at hlmdb
    cases hlmdb
    have hleaf : ob.merged.find? key = some leaf := by
      rw [(hsplit key).2, if_neg (lt_irrefl _)] at hfind
      exact hfind
    have hrest : (splitAmount ob.merged supply).2.Unmarked := hun.filter _
    have hkept : Unmarked ((splitAmount ob.merged supply).2.erase key) := hrest.filter _
    refine ⟨.upTo key sellAmount.toUInt64, actsAs_upTo hun hleaf hamount (fun k => (hsplit k).1)
      (fun k hk => ?_) ?_ rfl ?_ rfl rfl⟩
    · refine Eq.trans ?_ (hsplit k).2
      split
      · rw [insertOffer, SortedMap.find?_insert_ne hk, SortedMap.find?_erase_ne hk]
      · exact SortedMap.find?_erase_ne hk _
    · rw [Round.leftover]
      by_cases hzero : (reduced leaf.offer sellAmount.toUInt64).amount = 0
      · rw [if_pos hzero, if_neg (by simp [hzero]), offers_erase]
        exact SortedMap.find?_erase_self ..
      · rw [if_neg hzero, if_pos (UInt64.pos_iff_ne_zero.mpr hzero), offers_insertOffer]
        exact SortedMap.find?_insert_self ..
    · change Unmarked (if _ then _ else _)
      split
      · exact hkept.insertOffer _ _
      · exact hkept

/-- The amount below the threshold key is read exactly, so that what clears is what lies below
it. -/
theorem find?_splitBelow_of_lt {t : OrderbookTrie} (key : OfferKey)
    (hpos : ∀ k leaf, t.find? k = some leaf → leaf.offer.amount ≠ 0)
    (htotal : t.totalEndow < 2 ^ 63) (k : OfferKey) (hk : key ≠ k) :
    (splitBelow t key).1.find? k = (if k < key then t.find? k else none) ∧
      (splitBelow t key).2.find? k = if k < key then none else t.find? k := by
  have hbelow : t.below key = SortedMap.filter (t.erase key) fun k _ => decide (k < key) := by
    refine SortedMap.ext_find fun k => ?_
    rw [below, SortedMap.find?_filter_key, SortedMap.find?_filter_key]
    split
    · rename_i hlt
      rw [SortedMap.find?_erase_ne (ne_of_gt hlt)]
    · rfl
  have hendow : (t.endowLtKey key).toInt =
      ((SortedMap.filter (t.erase key) fun k _ => decide (k < key)).sum OfferLeaf.endow : Nat) := by
    have hle : (t.below key).totalEndow ≤ t.totalEndow := SortedMap.sum_filter_le ..
    have hlt := hle.trans_lt htotal
    rw [endowLtKey, rootEndow, ← hbelow, Int64.toInt_ofNat_of_lt hlt]
    rfl
  have hpos' : ∀ k leaf, (t.erase key).find? k = some leaf → 0 < leaf.endow := by
    intro k leaf hleaf
    rw [SortedMap.find?_erase] at hleaf
    split at hleaf
    · cases hleaf
    · exact UInt64.pos_iff_ne_zero.mpr (hpos k leaf hleaf)
  have hcut : ∀ leaf, t.find? k = some leaf → (SortedMap.before (SortedMap.boundary
      OfferLeaf.endow (t.endowLtKey key).toInt (t.erase key).entries) k = true ↔ k < key) := by
    intro leaf hleaf
    rw [hendow]
    exact SortedMap.before_boundary_iff hpos' ((SortedMap.find?_erase_ne hk t).trans hleaf)
  simp only [splitBelow, endowSplit, SortedMap.splitWithin, SortedMap.find?_filter,
    SortedMap.find?_erase_ne hk]
  cases hleaf : t.find? k with
  | none => simp
  | some leaf =>
    have hcut := hcut leaf hleaf
    by_cases hlt : k < key
    · simp [Option.filter_some, hcut.mpr hlt, hlt]
    · have hfalse := Bool.eq_false_iff.mpr (fun h => hlt (hcut.mp h))
      simp [Option.filter_some, hfalse, hlt]

/-- The offer that executes partially is in neither part. -/
theorem find?_splitBelow_self (t : OrderbookTrie) (key : OfferKey) :
    (splitBelow t key).1.find? key = none ∧ (splitBelow t key).2.find? key = none := by
  obtain ⟨p, hp⟩ := find?_splitBelow t key
  rw [(hp key).1, (hp key).2, SortedMap.find?_erase_self]
  exact ⟨rfl, rfl⟩

/-- Validation acts on a book as a round when the amounts on offer add up to less than `2^63`. -/
theorem validation_actsAs {s s' : ClearingState} {supply supply' : FractionalAsset}
    {c : SingleOrderbookStateCommitment} {checker : OrderbookStateCommitmentChecker}
    {ob₃ : Orderbook} (hnew : ob.uncommittedOffers.Unmarked)
    (hpos : ∀ k leaf, ob.merged.find? k = some leaf → leaf.offer.amount ≠ 0)
    (htotal : ob.merged.totalEndow < 2 ^ 63)
    (hcommit : ob.tentativeCommitForValidation n b = .ok ob₁)
    (hclear : ob₁.tentativeClearOffersForValidation s supply c checker =
      .ok (true, ob₂, s', supply'))
    (hfinal : ob₂.finalizeValidation = .ok ob₃) :
    ∃ clearing, ActsAs ob ob₃ (ob.roundOf n clearing) := by
  have hun := unmarked_merged hnew
  cases tentativeCommitForValidation_eq_ok hcommit
  rw [finalizeValidation] at hfinal
  split at hfinal
  · cases hfinal
  cases tentativeClear_cases hclear with
  | everything hfind hkey hamount hsell hbuy hclear hlmdb =>
    rw [OrderbookLMDB.modifyTopThunk_append _ ob.lmdb.thunks (ob.commitThunk n b) _ rfl] at hlmdb
    cases hlmdb
    cases hfinal
    exact ⟨.everything, actsAs_everything hun rfl rfl rfl rfl⟩
  | @belowPartial leaf _ _ _ _ _ _ _ _ hfind huser hsell hbuy hoffsell hoffbuy hcredit hamount
      hlmdb hclear =>
    rw [OrderbookLMDB.modifyTopThunk_append _ ob.lmdb.thunks (ob.commitThunk n b) _ rfl] at hlmdb
    cases hlmdb
    cases hfinal
    have hsplit := find?_splitBelow_of_lt c.partialExecThresholdKey hpos htotal
    refine ⟨.upTo c.partialExecThresholdKey (partialSellAmount c).toUInt64,
      actsAs_upTo hun hfind hamount (fun k => ?_) (fun k hk => ?_) ?_
        (offers_clearRollback _) ?_ rfl rfl⟩
    · by_cases hk : c.partialExecThresholdKey = k
      · subst hk
        rw [if_neg (lt_irrefl _)]
        exact (find?_splitBelow_self _ _).1
      · exact (hsplit k hk).1
    · refine Eq.trans ?_ (hsplit k hk).2
      split
      · exact SortedMap.find?_insert_ne hk ..
      · rfl
    · rw [Round.leftover]
      by_cases hzero : (reduced leaf.offer (partialSellAmount c).toUInt64).amount = 0
      · rw [if_pos hzero, if_neg (not_not.mpr hzero), find?_offers]
        exact congrArg _ (find?_splitBelow_self _ _).2
      · rw [if_neg hzero, if_pos hzero, offers_insertOffer]
        exact SortedMap.find?_insert_self ..
    · refine Unmarked.clearRollback ?_
      have hkept := (Unmarked.splitBelow hun c.partialExecThresholdKey).2
      split
      · exact hkept.insertOffer _ _
      · exact hkept

end Orderbook

end Speedex
