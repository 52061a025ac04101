import Speedex.Orderbook.Executions

/-! The replay of a block on orderbooks that were loaded from disk (`orderbook/orderbook_manager.cc`,
as `speedex_replay_trusted_round_success` of `speedex/reload_from_hotstuff.cc` uses it): only the
orderbooks that lag behind the block take part. -/

namespace Speedex

open Lib

/-- The orderbook on disk does not yet have the block. -/
def Orderbook.Lags (ob : Orderbook) (currentBlockNumber : UInt64) : Prop :=
  ob.lmdb.persistedRoundNumber < currentBlockNumber

instance decidableLags (ob : Orderbook) (n : UInt64) : Decidable (ob.Lags n) :=
  inferInstanceAs (Decidable (_ < _))

namespace OrderbookManager

/-- `generic_map_loading`. -/
def genericMapLoading (m : OrderbookManager) (currentBlockNumber : UInt64)
    (f : Nat → Orderbook → Result Orderbook) : Result OrderbookManager :=
  m.genericMap fun i ob => if ob.Lags currentBlockNumber then f i ob else .ok ob

/-- `commit_for_loading`. -/
def commitForLoading (m : OrderbookManager) (currentBlockNumber : UInt64)
    (indeterminate : Nat → Bool) : Result OrderbookManager :=
  m.genericMapLoading currentBlockNumber fun i ob =>
    ob.tentativeCommitForValidation currentBlockNumber (indeterminate i)

/-- `finalize_for_loading`. -/
def finalizeForLoading (m : OrderbookManager) (currentBlockNumber : UInt64) :
    Result OrderbookManager :=
  m.genericMapLoading currentBlockNumber fun _ ob => ob.finalizeValidation

end OrderbookManager

namespace TentativeClearing

/-- A range of orderbooks: the first that lags behind and returns true ends it, and sets
`exists_failure`. -/
def loadRange (checker : OrderbookStateCommitmentChecker) (currentBlockNumber : UInt64) :
    List Nat → TentativeClearing → Result (Bool × TentativeClearing)
  | [], c => .ok (false, c)
  | i :: range, c => do
    let ob ← vectorAt c.orderbooks i
    if ob.Lags currentBlockNumber then
      let (res, c) ← c.clearBook checker i
      if res then return (true, c)
      else loadRange checker currentBlockNumber range c
    else loadRange checker currentBlockNumber range c

def loadRanges (checker : OrderbookStateCommitmentChecker) (currentBlockNumber : UInt64)
    (c : TentativeClearing) (ranges : List (List Nat)) : Result (Bool × TentativeClearing) :=
  ranges.foldlM (fun acc range => do
    let (existsFailure, c) ← loadRange checker currentBlockNumber range acc.2
    return (acc.1 || existsFailure, c)) (false, c)

end TentativeClearing

namespace OrderbookManager

/-- `clear_offers_for_data_loading`. -/
def clearOffersForDataLoading (m : OrderbookManager) (state : ClearingState)
    (stats : ValidationStatistics) (checker : OrderbookStateCommitmentChecker)
    (ranges : List (List Nat)) (currentBlockNumber : UInt64) :
    Result (OrderbookManager × ClearingState) := do
  let (existsFailure, c) ← TentativeClearing.loadRanges checker currentBlockNumber
    ⟨m.orderbooks, state, stats.makeMinimumSize m.orderbooks.length⟩ ranges
  if existsFailure then throw (.runtimeError "failed to load block!")
  else return ({ m with orderbooks := c.orderbooks }, c.state)

/-- The replay of a block on the orderbooks, once its transactions are replayed. -/
def replayBlock (m : OrderbookManager) (state : ClearingState) (stats : ValidationStatistics)
    (checker : OrderbookStateCommitmentChecker) (ranges : List (List Nat))
    (indeterminate : Nat → Bool) (currentBlockNumber : UInt64) :
    Result (OrderbookManager × ClearingState) := do
  let m ← m.commitForLoading currentBlockNumber indeterminate
  let (m, state) ← m.clearOffersForDataLoading state stats checker ranges currentBlockNumber
  let m ← m.finalizeForLoading currentBlockNumber
  return (m, state)

end OrderbookManager

/-! ### One orderbook, in validation and in replay -/

section SameBook

variable {ob ob' ob₁ ob₁' : Orderbook} {n : UInt64} {checker : OrderbookStateCommitmentChecker}
  {commitment : SingleOrderbookStateCommitment} {s s' s₁ s₁' : ClearingState}
  {supply supply' : FractionalAsset}

/-- The same offers for the same pair of assets, whatever is to be rolled back. -/
structure SameOffers (ob ob' : Orderbook) : Prop where
  category : ob'.category = ob.category
  committed : ob'.committedOffers.clearRollback = ob.committedOffers.clearRollback
  uncommitted : ob'.uncommittedOffers.clearRollback = ob.uncommittedOffers.clearRollback

theorem OrderbookTrie.find?_clearRollback (t : OrderbookTrie) (k : OfferKey) :
    t.clearRollback.find? k = (t.find? k).map fun leaf => { leaf with rollback := false } :=
  SortedMap.find?_map ..

theorem OrderbookTrie.performDeletion_congr {t t' : OrderbookTrie}
    (h : t'.offers = t.offers) (k : OfferKey) :
    (t'.performDeletion k).1 = (t.performDeletion k).1 := by
  have hk := congrArg (·.find? k) h
  simpa [performDeletion] using hk

/-- Committing the same offers leads to the same offers. -/
theorem SameOffers.commit {b b' : Bool} (h : SameOffers ob ob')
    (hcommit : ob.tentativeCommitForValidation n b = .ok ob₁)
    (hcommit' : ob'.tentativeCommitForValidation n b' = .ok ob₁') :
    ob₁'.committedOffers.offers = ob₁.committedOffers.offers := by
  obtain ⟨lmdb, -, hcommit⟩ := bind_eq_ok.mp hcommit
  obtain ⟨lmdb', -, hcommit'⟩ := bind_eq_ok.mp hcommit'
  cases hcommit
  cases hcommit'
  refine SortedMap.ext_find fun k => ?_
  have hc := congrArg (·.find? k) h.committed
  have hu := congrArg (·.find? k) h.uncommitted
  simp only [OrderbookTrie.find?_clearRollback] at hc hu
  simp only [OrderbookTrie.find?_offers, OrderbookTrie.mergeIn, SortedMap.find?_union,
    SortedMap.find?_filter]
  -- an offer is found among the new ones, or among those that are not marked
  generalize ob.committedOffers.find? k = c at hc ⊢
  generalize ob'.committedOffers.find? k = c' at hc ⊢
  generalize ob.uncommittedOffers.find? k = u at hu ⊢
  generalize ob'.uncommittedOffers.find? k = u' at hu ⊢
  cases u with
  | some leaf =>
    obtain ⟨leaf', rfl, hleaf⟩ := Option.map_eq_some_iff.mp hu
    have hoffer := congrArg OfferLeaf.offer hleaf
    simpa using hoffer
  | none =>
    obtain rfl := Option.map_eq_none_iff.mp hu
    cases c with
    | none =>
      obtain rfl := Option.map_eq_none_iff.mp hc
      rfl
    | some leaf =>
      obtain ⟨leaf', rfl, hleaf⟩ := Option.map_eq_some_iff.mp hc
      have hoffer := congrArg OfferLeaf.offer hleaf
      have hdeleted := congrArg OfferLeaf.deleted hleaf
      simp only at hoffer hdeleted
      simp [Option.filter_some, hoffer, hdeleted, apply_ite]

/-- Clearing that returned true in validation does not return false in replay. -/
theorem tentativeClear_ne_false {ob₂ ob₂' : Orderbook} {supply₁ supply₁' : FractionalAsset}
    (hoffers : ob'.committedOffers.offers = ob.committedOffers.offers)
    (haccounts : ∀ id, (s.db.lookupUser id).isSome → (s'.db.lookupUser id).isSome)
    (h : ob.tentativeClearOffersForValidation s supply commitment checker =
      .ok (true, ob₂, s₁, supply₁)) :
    ob'.tentativeClearOffersForValidation s' supply' commitment checker ≠
      .ok (false, ob₂', s₁', supply₁') := by
  intro h'
  obtain ⟨sellPrice, hsell, h⟩ := bind_eq_ok.mp h
  obtain ⟨buyPrice, hbuy, h⟩ := bind_eq_ok.mp h
  obtain ⟨sellPrice', hsell', h'⟩ := bind_eq_ok.mp h'
  obtain ⟨buyPrice', hbuy', h'⟩ := bind_eq_ok.mp h'
  have hfound := OrderbookTrie.performDeletion_congr hoffers commitment.partialExecThresholdKey
  dsimp only at h h'
  rw [hfound] at h'
  cases hoffer : (ob.committedOffers.performDeletion commitment.partialExecThresholdKey).1 with
  | none =>
    simp only [hoffer] at h h'
    unfold Orderbook.clearEverything at h h'
    split at h
    · cases h
    rename_i hkey
    rw [if_neg hkey] at h'
    split at h
    · cases h
    rename_i hamount
    rw [if_neg hamount] at h'
    obtain ⟨t, -, h'⟩ := bind_eq_ok.mp h'
    obtain ⟨lmdb, -, h'⟩ := bind_eq_ok.mp h'
    cases h'
  | some offer =>
    simp only [hoffer] at h h'
    unfold Orderbook.clearBelowPartial at h h'
    dsimp only at h h'
    split at h
    · cases h
    rename_i idx hidx
    obtain ⟨idx', hidx'⟩ := Option.isSome_iff_exists.mp (haccounts offer.owner (by
      rw [hidx]
      rfl))
    rw [hidx'] at h'
    dsimp only at h'
    obtain ⟨p, hp, h⟩ := bind_eq_ok.mp h
    obtain ⟨q, hq, h⟩ := bind_eq_ok.mp h
    obtain ⟨p', hp', h'⟩ := bind_eq_ok.mp h'
    obtain ⟨q', hq', h'⟩ := bind_eq_ok.mp h'
    obtain ⟨⟨sellAmount, buyAmount, db⟩, hpartial, h⟩ := bind_eq_ok.mp h
    obtain ⟨⟨sellAmount', buyAmount', db'⟩, hpartial', h'⟩ := bind_eq_ok.mp h'
    obtain ⟨credit, -, hpartial⟩ := bind_eq_ok.mp hpartial
    obtain ⟨credit', -, hpartial'⟩ := bind_eq_ok.mp hpartial'
    cases hpartial
    cases hpartial'
    dsimp only at h h'
    split at h
    · cases h
    rename_i hamount
    rw [if_neg hamount] at h'
    obtain ⟨lmdb, -, h'⟩ := bind_eq_ok.mp h'
    obtain ⟨t, -, h'⟩ := bind_eq_ok.mp h'
    cases h'

end SameBook

namespace TentativeClearing

variable {checker : OrderbookStateCommitmentChecker} {n : UInt64} {c c' : TentativeClearing}
  {res : Bool}

/-! ### The orderbooks one after the other -/

/-- Clearing has left an orderbook and the ids of the accounts alone. -/
structure Untouched (c c' : TentativeClearing) (i : Nat) : Prop where
  orderbook : c'.orderbooks[i]? = c.orderbooks[i]?
  ids : c'.state.db.userIdToIdxMap = c.state.db.userIdToIdxMap

theorem Untouched.trans {c'' : TentativeClearing} {i : Nat} (h : Untouched c c' i)
    (h' : Untouched c' c'' i) : Untouched c c'' i :=
  ⟨h'.orderbook.trans h.orderbook, h'.ids.trans h.ids⟩

theorem clearBook_untouched {i j : Nat} (h : c.clearBook checker i = .ok (res, c')) (hij : i ≠ j) :
    Untouched c c' j := by
  have hids := clearBook_invariant
    (P := fun s => s.db.userIdToIdxMap = c.state.db.userIdToIdxMap) (fun _ _ hs => hs)
    (fun _ _ _ _ hs => hs) h rfl
  obtain ⟨ob, -, h⟩ := bind_eq_ok.mp h
  obtain ⟨commitment, -, h⟩ := bind_eq_ok.mp h
  obtain ⟨⟨res', ob', state, supply⟩, -, h⟩ := bind_eq_ok.mp h
  cases h
  exact ⟨List.getElem?_set_ne hij, hids⟩

/-- In a validation that clears everything, every orderbook returned true as it was. -/
theorem clearRange_true {range : List Nat} (hnodup : range.Nodup)
    (h : clearRange checker range c = .ok (true, c')) :
    (∀ i ∈ range, ∃ c₁ c₂, Untouched c c₁ i ∧ c₁.clearBook checker i = .ok (true, c₂)) ∧
      ∀ j, j ∉ range → Untouched c c' j := by
  induction range generalizing c with
  | nil =>
    cases h
    exact ⟨nofun, fun j _ => ⟨rfl, rfl⟩⟩
  | cons i range ih =>
    obtain ⟨⟨res, c₁⟩, hbook, h⟩ := bind_eq_ok.mp h
    obtain ⟨hi, hnodup⟩ := List.nodup_cons.mp hnodup
    cases res with
    | false => cases h
    | true =>
      obtain ⟨hall, hrest⟩ := ih hnodup h
      refine ⟨fun j hj => ?_, fun j hj => ?_⟩
      · rcases List.mem_cons.mp hj with rfl | hj
        · exact ⟨c, c₁, ⟨rfl, rfl⟩, hbook⟩
        · obtain ⟨c₂, c₃, huntouched, hclear⟩ := hall j hj
          have hne : i ≠ j := fun hij => hi (hij ▸ hj)
          exact ⟨c₂, c₃, (clearBook_untouched hbook hne).trans huntouched, hclear⟩
      · rw [List.mem_cons, not_or] at hj
        exact (clearBook_untouched hbook (Ne.symm hj.1)).trans (hrest j hj.2)

theorem clearRanges_true {ranges : List (List Nat)} {flag : Bool} (hnodup : ranges.flatten.Nodup)
    (h : ranges.foldlM (fun acc range => do
      let (res, c) ← clearRange checker range acc.2
      return (acc.1 && res, c)) (flag, c) = .ok (true, c')) :
    flag = true ∧ ∀ i ∈ ranges.flatten,
      ∃ c₁ c₂, Untouched c c₁ i ∧ c₁.clearBook checker i = .ok (true, c₂) := by
  induction ranges generalizing flag c with
  | nil =>
    cases h
    exact ⟨rfl, nofun⟩
  | cons range ranges ih =>
    obtain ⟨acc, hacc, h⟩ := foldlM_cons.mp h
    obtain ⟨⟨res, c₁⟩, hrange, hacc⟩ := bind_eq_ok.mp hacc
    cases hacc
    rw [List.flatten_cons, List.nodup_append] at hnodup
    obtain ⟨hboth, hall⟩ := ih hnodup.2.1 h
    obtain ⟨hflag, rfl⟩ := Bool.and_eq_true_iff.mp hboth
    obtain ⟨hfirst, hframe⟩ := clearRange_true hnodup.1 hrange
    refine ⟨hflag, fun i hi => ?_⟩
    rcases List.mem_append.mp (List.flatten_cons ▸ hi) with hi | hi
    · exact hfirst i hi
    · obtain ⟨c₂, c₃, huntouched, hclear⟩ := hall i hi
      have hnot : i ∉ range := fun hir => hnodup.2.2 i hir i hi rfl
      exact ⟨c₂, c₃, (hframe i hnot).trans huntouched, hclear⟩

/-- An orderbook that returned true in validation does not return false in replay. -/
theorem clearBook_ne_false {i : Nat} {c₁ c₁' : TentativeClearing} {ob ob' : Orderbook}
    (hob : c.orderbooks[i]? = some ob) (hob' : c'.orderbooks[i]? = some ob')
    (hoffers : ob'.committedOffers.offers = ob.committedOffers.offers)
    (haccounts : ∀ id, (c.state.db.lookupUser id).isSome → (c'.state.db.lookupUser id).isSome)
    (h : c.clearBook checker i = .ok (true, c₁)) : c'.clearBook checker i ≠ .ok (false, c₁') := by
  intro h'
  obtain ⟨_, hat, h⟩ := bind_eq_ok.mp h
  obtain ⟨_, hat', h'⟩ := bind_eq_ok.mp h'
  rw [vectorAt_eq_ok.mp hat] at hob
  rw [vectorAt_eq_ok.mp hat'] at hob'
  cases hob
  cases hob'
  obtain ⟨commitment, hcommitment, h⟩ := bind_eq_ok.mp h
  obtain ⟨commitment', hcommitment', h'⟩ := bind_eq_ok.mp h'
  obtain rfl := Except.ok.inj (hcommitment.symm.trans hcommitment')
  obtain ⟨⟨res, ob₁, state, supply⟩, hclear, h⟩ := bind_eq_ok.mp h
  obtain ⟨⟨res', ob₁', state', supply'⟩, hclear', h'⟩ := bind_eq_ok.mp h'
  cases h
  cases h'
  exact tentativeClear_ne_false hoffers haccounts hclear hclear'

/-- The orderbook at `i` lags behind. -/
def LagsAt (n : UInt64) (c : TentativeClearing) (i : Nat) : Prop :=
  ∃ ob, c.orderbooks[i]? = some ob ∧ ob.Lags n

/-- Clearing does not return false at `i` as long as the orderbook is untouched. -/
def NeverRejects (checker : OrderbookStateCommitmentChecker) (c : TentativeClearing) (i : Nat) :
    Prop :=
  ∀ c₁ c₂, Untouched c c₁ i → c₁.clearBook checker i ≠ .ok (false, c₂)

theorem Untouched.lagsAt {i : Nat} (h : Untouched c c' i) (hlags : LagsAt n c i) : LagsAt n c' i := by
  obtain ⟨ob, hob, hlags⟩ := hlags
  exact ⟨ob, h.orderbook.trans hob, hlags⟩

theorem Untouched.neverRejects {i : Nat} (h : Untouched c c' i) (hnever : NeverRejects checker c i) :
    NeverRejects checker c' i :=
  fun c₁ c₂ huntouched => hnever c₁ c₂ (h.trans huntouched)

/-- A range with an orderbook that lags behind sets the flag. -/
theorem loadRange_flag {range : List Nat}
    (hnever : ∀ i ∈ range, LagsAt n c i → NeverRejects checker c i)
    (h : loadRange checker n range c = .ok (res, c')) :
    ((∃ i ∈ range, LagsAt n c i) → res = true) ∧ ∀ j, j ∉ range → Untouched c c' j := by
  induction range with
  | nil =>
    cases h
    exact ⟨nofun, fun j _ => ⟨rfl, rfl⟩⟩
  | cons i range ih =>
    obtain ⟨ob, hob, h⟩ := bind_eq_ok.mp h
    have hob := vectorAt_eq_ok.mp hob
    split at h
    · rename_i hlags
      obtain ⟨⟨flag, c₁⟩, hbook, h⟩ := bind_eq_ok.mp h
      cases flag with
      | false =>
        exact absurd hbook (hnever i List.mem_cons_self ⟨ob, hob, hlags⟩ c c₁ ⟨rfl, rfl⟩)
      | true =>
        cases h
        refine ⟨fun _ => rfl, fun j hj => clearBook_untouched hbook ?_⟩
        exact fun hij => hj (hij ▸ List.mem_cons_self)
    · rename_i hlags
      obtain ⟨hflag, hframe⟩ := ih (fun j hj => hnever j (List.mem_cons_of_mem i hj)) h
      refine ⟨fun hex => hflag ?_, fun j hj => hframe j fun hjr => hj (List.mem_cons_of_mem i hjr)⟩
      obtain ⟨j, hj, hlagsAt⟩ := hex
      rcases List.mem_cons.mp hj with rfl | hj
      · obtain ⟨ob', hob', hlags'⟩ := hlagsAt
        rw [hob] at hob'
        cases hob'
        exact absurd hlags' hlags
      · exact ⟨j, hj, hlagsAt⟩

/-- Ranges with an orderbook that lags behind set the flag. -/
theorem loadRanges_flag {ranges : List (List Nat)} {flag : Bool} (hnodup : ranges.flatten.Nodup)
    (hnever : ∀ i ∈ ranges.flatten, LagsAt n c i → NeverRejects checker c i)
    (h : ranges.foldlM (fun acc range => do
      let (existsFailure, c) ← loadRange checker n range acc.2
      return (acc.1 || existsFailure, c)) (flag, c) = .ok (res, c'))
    (hlags : flag = true ∨ ∃ i ∈ ranges.flatten, LagsAt n c i) : res = true := by
  induction ranges generalizing flag c with
  | nil =>
    cases h
    exact hlags.elim id nofun
  | cons range ranges ih =>
    obtain ⟨acc, hacc, h⟩ := foldlM_cons.mp h
    obtain ⟨⟨existsFailure, c₁⟩, hrange, hacc⟩ := bind_eq_ok.mp hacc
    cases hacc
    rw [List.flatten_cons, List.nodup_append] at hnodup
    simp only [List.flatten_cons, List.mem_append] at hnever hlags
    obtain ⟨hflag, hframe⟩ := loadRange_flag (fun i hi => hnever i (.inl hi)) hrange
    have hnot : ∀ i ∈ ranges.flatten, i ∉ range := fun i hi hir => hnodup.2.2 i hir i hi rfl
    refine ih hnodup.2.1 (fun i hi hlagsAt => ?_) h ?_
    · have huntouched := hframe i (hnot i hi)
      obtain ⟨ob, hob, hob'⟩ := hlagsAt
      exact huntouched.neverRejects
        (hnever i (.inr hi) ⟨ob, huntouched.orderbook.symm.trans hob, hob'⟩)
    · rcases hlags with rfl | ⟨i, hi | hi, hlagsAt⟩
      · exact .inl rfl
      · exact .inl (by simp [hflag ⟨i, hi, hlagsAt⟩])
      · exact .inr ⟨i, hi, (hframe i (hnot i hi)).lagsAt hlagsAt⟩

/-- Ranges in which no orderbook lags behind do nothing. -/
theorem loadRange_none {range : List Nat} (hrange : ∀ i ∈ range, i < c.orderbooks.length)
    (hnone : ∀ ob ∈ c.orderbooks, ¬ ob.Lags n) : loadRange checker n range c = .ok (false, c) := by
  induction range with
  | nil => rfl
  | cons i range ih =>
    have hi := hrange i List.mem_cons_self
    have hget : c.orderbooks[i]? = some c.orderbooks[i] := List.getElem?_eq_getElem hi
    rw [loadRange, vectorAt_eq_ok.mpr hget, ok_bind, if_neg (hnone _ (List.getElem_mem hi))]
    exact ih fun j hj => hrange j (List.mem_cons_of_mem i hj)

theorem loadRanges_none {ranges : List (List Nat)}
    (hranges : ∀ i ∈ ranges.flatten, i < c.orderbooks.length)
    (hnone : ∀ ob ∈ c.orderbooks, ¬ ob.Lags n) :
    loadRanges checker n c ranges = .ok (false, c) := by
  unfold loadRanges
  induction ranges with
  | nil => rfl
  | cons range ranges ih =>
    simp only [List.flatten_cons, List.mem_append] at hranges
    rw [List.foldlM_cons, loadRange_none (fun i hi => hranges i (.inl hi)) hnone]
    exact ih fun i hi => hranges i (.inr hi)

end TentativeClearing

end Speedex
