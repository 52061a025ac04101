import Speedex.Orderbook.Steps
import Speedex.Orderbook.Undo

/-! The rollback of a failed validation (`rollback_validation`): when it restores the book. -/

namespace Speedex

open Lib

namespace Orderbook

open OrderbookTrie

/-- A run of `tentative_clear_offers_for_validation`. -/
structure ClearingAttempt where
  state : ClearingState
  supply : FractionalAsset
  commitment : SingleOrderbookStateCommitment
  checker : OrderbookStateCommitmentChecker

/-- Commit tentatively, clear tentatively (`none` if that is never run), and roll back. -/
def commitThenRollback (ob : Orderbook) (currentBlockNumber : UInt64) (indeterminate : Bool) :
    Option ClearingAttempt → Result Orderbook
  | none => do
    let ob ← ob.tentativeCommitForValidation currentBlockNumber indeterminate
    ob.rollbackValidation
  | some a => do
    let ob ← ob.tentativeCommitForValidation currentBlockNumber indeterminate
    let (_, ob, _, _) ←
      ob.tentativeClearOffersForValidation a.state a.supply a.commitment a.checker
    ob.rollbackValidation

/-- A book before a tentative commit.  The new offers are marked, and their keys are unused, since
offer ids are never reused. -/
structure BeforeCommit (ob : Orderbook) : Prop where
  committed : ∀ k leaf, ob.committedOffers.find? k = some leaf →
    leaf.rollback = false ∧ leaf.offer.amount ≠ 0
  uncommitted : ∀ k leaf, ob.uncommittedOffers.find? k = some leaf →
    leaf.rollback = true ∧ leaf.deleted = false
  fresh : ∀ k leaf, ob.uncommittedOffers.find? k = some leaf → ob.committedOffers.find? k = none

/-- No new offer has this key. -/
def NotNew (ob : Orderbook) (key : OfferKey) : Prop := ob.uncommittedOffers.find? key = none

/-- When rollback is exact.  The flag that a fresh thunk leaves uninitialised must be false unless
the clearing sets it, and no new offer may be cleared or partially executed, or be taken out of
the book and put back without its mark. -/
def RollbackExact (ob : Orderbook) (indeterminate : Bool) : Option ClearingAttempt → Prop
  | none => indeterminate = false
  | some a =>
    let key := a.commitment.partialExecThresholdKey
    let cleared := (splitBelow ob.merged key).1
    match ob.merged.find? key with
    | none =>
      if key ≠ .zero ∨ a.commitment.partialExecAmount ≠ .fromIntegral 0 then indeterminate = false
      else ∀ k, ob.NotNew k
    | some leaf =>
      if a.state.db.lookupUser leaf.offer.owner = none ∨
          leaf.offer.amount < (partialSellAmount a.commitment).toUInt64 then
        indeterminate = false ∧ ob.NotNew key
      else ob.NotNew key ∧ ∀ k leaf, cleared.find? k = some leaf → ob.NotNew k

/-! ### The book after the commit, key by key -/

variable {ob : Orderbook}

theorem find?_merged (ob : Orderbook) (k : OfferKey) :
    ob.merged.find? k = (ob.uncommittedOffers.find? k).or
      ((ob.committedOffers.find? k).filter fun leaf => !leaf.deleted) := by
  rw [merged, mergeIn, SortedMap.find?_union, performMarkedDeletions, SortedMap.find?_filter]

/-- The cancelled offers are recorded as they were. -/
theorem lookup_deletedKeys (t : OrderbookTrie) (k : OfferKey) :
    SortedMap.lookup k t.performMarkedDeletions.1.reverse =
      ((t.find? k).filter OfferLeaf.deleted).map OfferLeaf.offer := by
  rw [performMarkedDeletions, SortedMap.lookup_reverse (SortedMap.nodup_keys _)]
  change (offers _).find? k = _
  rw [find?_offers, SortedMap.find?_filter]

theorem BeforeCommit.unmarked_merged (h : BeforeCommit ob) : ob.merged.Unmarked :=
  (unmarked_performMarkedDeletions _).mergeIn fun k leaf hk => (h.uncommitted k leaf hk).2

theorem Unmarked.doRollback {t : OrderbookTrie} (h : t.Unmarked) : t.doRollback.Unmarked :=
  h.filter _

theorem find?_doRollback (t : OrderbookTrie) (k : OfferKey) :
    t.doRollback.find? k = (t.find? k).filter fun leaf => !leaf.rollback :=
  SortedMap.find?_filter ..

/-- Away from new offers, the cancelled offers and those that stay make up the old book. -/
theorem deleted_or_merged (h : BeforeCommit ob) {k : OfferKey} (hk : ob.NotNew k) :
    (SortedMap.lookup k ob.committedOffers.performMarkedDeletions.1.reverse).or
      (((ob.merged.find? k).filter fun leaf => !leaf.rollback).map OfferLeaf.offer) =
        ob.committedOffers.offers.find? k := by
  rw [lookup_deletedKeys, find?_merged, show ob.uncommittedOffers.find? k = none from hk,
    Option.none_or, find?_offers]
  cases hc : ob.committedOffers.find? k with
  | none => rfl
  | some leaf =>
    have hr := (h.committed k leaf hc).1
    cases hd : leaf.deleted <;> simp [Option.filter_some, hd, hr]

theorem merged_or_deleted {k : OfferKey} (hk : ob.NotNew k) :
    (ob.merged.offers.find? k).or
      (SortedMap.lookup k ob.committedOffers.performMarkedDeletions.1.reverse) =
        ob.committedOffers.offers.find? k := by
  rw [lookup_deletedKeys, find?_offers, find?_merged,
    show ob.uncommittedOffers.find? k = none from hk, Option.none_or, find?_offers]
  cases hc : ob.committedOffers.find? k with
  | none => rfl
  | some leaf => cases hd : leaf.deleted <;> simp [Option.filter_some, hd]

theorem BeforeCommit.offers_of_new (h : BeforeCommit ob) {k : OfferKey} {leaf : OfferLeaf}
    (hk : ob.uncommittedOffers.find? k = some leaf) :
    ob.committedOffers.offers.find? k = none ∧ ob.merged.find? k = some leaf ∧
      SortedMap.lookup k ob.committedOffers.performMarkedDeletions.1.reverse = none := by
  have hfresh := h.fresh k leaf hk
  refine ⟨?_, ?_, ?_⟩
  · rw [find?_offers, hfresh]
    rfl
  · rw [find?_merged, hk]
    rfl
  · rw [lookup_deletedKeys, hfresh]
    rfl

/-- No offer of the book is default-constructed. -/
theorem BeforeCommit.ne_default (h : BeforeCommit ob) (k : OfferKey) :
    ob.committedOffers.offers.find? k ≠ some default := by
  intro hk
  rw [find?_offers, Option.map_eq_some_iff] at hk
  obtain ⟨leaf, hleaf, hdef⟩ := hk
  exact (h.committed k leaf hleaf).2 (hdef ▸ rfl)

/-! ### The rollback -/

theorem rollbackValidation_eq_ok {ob' : Orderbook} {ts : List OrderbookLMDBCommitmentThunk}
    {thunk : OrderbookLMDBCommitmentThunk} (hthunks : ob.lmdb.thunks = ts ++ [thunk])
    (h : ob.rollbackValidation = .ok ob') :
    ob' = { ob with
      committedOffers :=
        undoThunk ob.committedOffers.doRollback { thunk with uncommittedOffersVec := [] }
      uncommittedOffers := ∅
      lmdb := { ob.lmdb with thunks := ts } } := by
  simp only [rollbackValidation, OrderbookLMDB.getTopThunk, hthunks, List.getLast?_append,
    List.getLast?_singleton, Option.some_or, ok_bind, OrderbookLMDB.popTopThunk] at h
  rw [if_neg (by simp)] at h
  simpa using (Except.ok.inj h).symm

/-- The offers that `rollback_validation` leaves, from the tentative book and the top thunk. -/
def rolledBack (t : OrderbookTrie) (thunk : OrderbookLMDBCommitmentThunk) :
    SortedMap OfferKey Offer :=
  (undoThunk t.doRollback { thunk with uncommittedOffersVec := [] }).offers

theorem find?_rolledBack {t : OrderbookTrie} {thunk : OrderbookLMDBCommitmentThunk}
    (ht : t.Unmarked) (hc : thunk.clearedOffers.Unmarked) (k : OfferKey) :
    (rolledBack t thunk).find? k =
      if thunk.existsPartialExec = true ∧ thunk.partialExecKey = k then
        some thunk.preexecutePartialExecOffer
      else (thunk.clearedOffers.offers.find? k).or
        ((SortedMap.lookup k thunk.deletedKeys.reverse).or
          (((t.find? k).filter fun leaf => !leaf.rollback).map OfferLeaf.offer)) := by
  refine (find?_undoThunk (Unmarked.doRollback ht) ?_ k).trans ?_
  · exact hc
  · simp [find?_doRollback]

/-- Without a clearing, and with the flag false, every key is as it was before the commit. -/
theorem find?_rolledBack_merged (h : BeforeCommit ob) (n : UInt64) (k : OfferKey) :
    (rolledBack ob.merged (ob.commitThunk n false)).find? k =
      ob.committedOffers.offers.find? k := by
  rw [find?_rolledBack h.unmarked_merged unmarked_empty]
  cases hk : ob.uncommittedOffers.find? k with
  | none => simpa [commitThunk, OrderbookLMDBCommitmentThunk.new] using deleted_or_merged h hk
  | some leaf =>
    obtain ⟨hold, hmerged, hdel⟩ := h.offers_of_new hk
    have hmark := (h.uncommitted k leaf hk).1
    simp [commitThunk, OrderbookLMDBCommitmentThunk.new, hold, hmerged, hdel, Option.filter_some,
      hmark]

/-- The uninitialised flag, when it reads as true, puts a default-constructed offer in the book. -/
theorem rolledBack_ne_of_flag (h : BeforeCommit ob) {t : OrderbookTrie} (ht : t.Unmarked)
    (n : UInt64) : rolledBack t (ob.commitThunk n true) ≠ ob.committedOffers.offers := by
  intro heq
  refine h.ne_default .zero ?_
  rw [← heq, find?_rolledBack ht unmarked_empty]
  rfl

theorem rolledBack_merged_iff (h : BeforeCommit ob) (n : UInt64) (b : Bool) :
    rolledBack ob.merged (ob.commitThunk n b) = ob.committedOffers.offers ↔ b = false := by
  cases b with
  | true => exact ⟨fun heq => absurd heq (rolledBack_ne_of_flag h h.unmarked_merged n), nofun⟩
  | false => exact ⟨fun _ => rfl, fun _ => SortedMap.ext_find (find?_rolledBack_merged h n)⟩

/-- A book that cleared as a whole comes back with its new offers. -/
theorem rolledBack_everything_iff (h : BeforeCommit ob) (n : UInt64) (b : Bool) :
    rolledBack ∅ { (ob.commitThunk n b).setNoPartialExec with clearedOffers := ob.merged } =
      ob.committedOffers.offers ↔ ∀ k, ob.NotNew k := by
  have hfind : ∀ k, (rolledBack ∅
      { (ob.commitThunk n b).setNoPartialExec with clearedOffers := ob.merged }).find? k =
      (ob.merged.offers.find? k).or
        (SortedMap.lookup k ob.committedOffers.performMarkedDeletions.1.reverse) := by
    intro k
    rw [find?_rolledBack unmarked_empty h.unmarked_merged]
    simp [OrderbookLMDBCommitmentThunk.setNoPartialExec, commitThunk]
  constructor
  · intro heq k
    by_contra hk
    obtain ⟨leaf, hleaf⟩ := Option.ne_none_iff_exists'.mp hk
    obtain ⟨hold, hmerged, -⟩ := h.offers_of_new hleaf
    have := hfind k
    rw [heq, hold, find?_offers, hmerged] at this
    cases this
  · intro hnew
    exact SortedMap.ext_find fun k => (hfind k).trans (merged_or_deleted (hnew k))

/-- An offer that was taken out and put back is no longer marked, and stays if it is new. -/
theorem rolledBack_putBack_iff (h : BeforeCommit ob) (n : UInt64) (b : Bool) {key : OfferKey}
    {leaf : OfferLeaf} (hleaf : ob.merged.find? key = some leaf) :
    rolledBack (insertOffer (ob.merged.erase key) key leaf.offer) (ob.commitThunk n b) =
      ob.committedOffers.offers ↔ b = false ∧ ob.NotNew key := by
  have ht : (insertOffer (ob.merged.erase key) key leaf.offer).Unmarked :=
    (h.unmarked_merged.filter _).insertOffer _ _
  cases b with
  | true => exact ⟨fun heq => absurd heq (rolledBack_ne_of_flag h ht n), fun h => by cases h.1⟩
  | false =>
    have hkey : (rolledBack (insertOffer (ob.merged.erase key) key leaf.offer)
        (ob.commitThunk n false)).find? key =
        (SortedMap.lookup key ob.committedOffers.performMarkedDeletions.1.reverse).or
          (some leaf.offer) := by
      rw [find?_rolledBack ht unmarked_empty, insertOffer, SortedMap.find?_insert_self]
      rfl
    have hother : ∀ k, key ≠ k → (rolledBack (insertOffer (ob.merged.erase key) key leaf.offer)
        (ob.commitThunk n false)).find? k = ob.committedOffers.offers.find? k := by
      intro k hk
      rw [← find?_rolledBack_merged h n k, find?_rolledBack ht unmarked_empty,
        find?_rolledBack h.unmarked_merged unmarked_empty, insertOffer,
        SortedMap.find?_insert_ne hk, SortedMap.find?_erase_ne hk]
    constructor
    · intro heq
      refine ⟨rfl, ?_⟩
      by_contra hk
      obtain ⟨leaf', hleaf'⟩ := Option.ne_none_iff_exists'.mp hk
      obtain ⟨hold, -, hdel⟩ := h.offers_of_new hleaf'
      rw [heq, hold, hdel] at hkey
      cases hkey
    · rintro ⟨-, hnew⟩
      refine SortedMap.ext_find fun k => ?_
      by_cases hk : key = k
      · subst hk
        have hold := deleted_or_merged h hnew
        rw [hkey, ← hold, hleaf]
        cases hd : ob.committedOffers.find? key with
        | none =>
          rw [find?_merged, hd, show ob.uncommittedOffers.find? key = none from hnew] at hleaf
          cases hleaf
        | some old =>
          rw [find?_merged, hd, show ob.uncommittedOffers.find? key = none from hnew,
            Option.none_or, Option.filter_eq_some_iff] at hleaf
          obtain ⟨heq, -⟩ := hleaf
          cases heq
          rw [Option.filter_some, (h.committed key leaf hd).1]
          rfl
      · exact hother k hk

/-- The offers that clear are those before a boundary, and none of them is at the key. -/
theorem find?_splitBelow (t : OrderbookTrie) (key : OfferKey) :
    ∃ p : OfferKey → Bool, ∀ k,
      (splitBelow t key).1.find? k = ((t.erase key).find? k).filter (fun _ => p k) ∧
      (splitBelow t key).2.find? k = ((t.erase key).find? k).filter (fun _ => !p k) :=
  ⟨_, fun _ => ⟨SortedMap.find?_filter .., SortedMap.find?_filter ..⟩⟩

theorem Unmarked.splitBelow {t : OrderbookTrie} (h : t.Unmarked) (key : OfferKey) :
    (splitBelow t key).1.Unmarked ∧ (splitBelow t key).2.Unmarked :=
  ⟨(h.filter _).filter _, (h.filter _).filter _⟩

/-- Cleared new offers, and a partially executed new offer, come back. -/
theorem rolledBack_belowPartial_iff (h : BeforeCommit ob) (n : UInt64) (b : Bool) {key : OfferKey}
    {leaf : OfferLeaf} {amount : Int64} {t : OrderbookTrie}
    (hleaf : ob.merged.find? key = some leaf) (ht : t.Unmarked)
    (hrest : ∀ k, key ≠ k →
      t.find? k = (splitBelow ob.merged key).2.find? k) :
    rolledBack t { (ob.commitThunk n b).setPartialExec key amount leaf.offer with
        clearedOffers := (splitBelow ob.merged key).1 } =
      ob.committedOffers.offers ↔
    ob.NotNew key ∧ ∀ k leaf,
      (splitBelow ob.merged key).1.find? k = some leaf →
        ob.NotNew k := by
  obtain ⟨p, hp⟩ := find?_splitBelow ob.merged key
  generalize hsplit : splitBelow ob.merged key = split at hrest hp ⊢
  have hcleared : split.1.Unmarked := hsplit ▸ (Unmarked.splitBelow h.unmarked_merged key).1
  have hfind : ∀ k, (rolledBack t { (ob.commitThunk n b).setPartialExec key amount leaf.offer with
      clearedOffers := split.1 }).find? k = if key = k then some leaf.offer
        else (split.1.offers.find? k).or
          ((SortedMap.lookup k ob.committedOffers.performMarkedDeletions.1.reverse).or
            (((t.find? k).filter fun leaf => !leaf.rollback).map OfferLeaf.offer)) := by
    intro k
    rw [find?_rolledBack ht hcleared]
    simp [OrderbookLMDBCommitmentThunk.setPartialExec, commitThunk]
  constructor
  · intro heq
    -- a new offer that comes back is not in the old book
    have hback : ∀ k leaf', ob.uncommittedOffers.find? k = some leaf' →
        ¬ (key = k ∨ ∃ leaf, split.1.find? k = some leaf) := by
      intro k leaf' hk hor
      have hk' := hfind k
      rw [heq, (h.offers_of_new hk).1] at hk'
      by_cases hkey : key = k
      · rw [if_pos hkey] at hk'
        cases hk'
      · obtain ⟨leaf₁, hleaf₁⟩ := hor.resolve_left hkey
        rw [if_neg hkey, find?_offers, hleaf₁] at hk'
        cases hk'
    refine ⟨?_, fun k leaf₁ hk => ?_⟩
    · by_contra hnew
      obtain ⟨leaf', hleaf'⟩ := Option.ne_none_iff_exists'.mp hnew
      exact hback key leaf' hleaf' (.inl rfl)
    · by_contra hnew
      obtain ⟨leaf', hleaf'⟩ := Option.ne_none_iff_exists'.mp hnew
      exact hback k leaf' hleaf' (.inr ⟨leaf₁, hk⟩)
  · rintro ⟨hkey, hnew⟩
    refine SortedMap.ext_find fun k => ?_
    rw [hfind]
    by_cases hk : key = k
    · subst hk
      have hold := merged_or_deleted hkey
      rw [if_pos rfl, ← hold, find?_offers, hleaf]
      rfl
    · have hsplit := hp k
      rw [SortedMap.find?_erase_ne hk] at hsplit
      rw [if_neg hk, hrest k hk, hsplit.2, find?_offers, hsplit.1]
      cases hpk : p k with
      | true =>
        -- `k` cleared: it comes back from the thunk
        have hall : (ob.merged.find? k).filter (fun _ => true) = ob.merged.find? k := by
          cases ob.merged.find? k <;> rfl
        have hnk : ob.NotNew k := by
          cases hm : ob.merged.find? k with
          | none =>
            rw [find?_merged, Option.or_eq_none_iff] at hm
            exact hm.1
          | some leaf₁ =>
            refine hnew k leaf₁ ?_
            rw [hsplit.1, hm, hpk]
            rfl
        rw [← merged_or_deleted hnk, find?_offers, hall]
        simp
      | false =>
        -- `k` stayed in the book
        have hnone : (ob.merged.find? k).filter (fun _ => false) = none := by simp
        rw [hnone]
        have hkeep := find?_rolledBack_merged h n k
        rw [find?_rolledBack h.unmarked_merged unmarked_empty] at hkeep
        simpa [commitThunk, OrderbookLMDBCommitmentThunk.new] using hkeep

/-- Rollback restores the book exactly under the condition. -/
theorem commitThenRollback_exact_iff (ob ob' : Orderbook) (n : UInt64) (indeterminate : Bool)
    (attempt : Option ClearingAttempt) (h : BeforeCommit ob)
    (hok : ob.commitThenRollback n indeterminate attempt = .ok ob') :
    ob'.committedOffers.offers = ob.committedOffers.offers ↔
      ob.RollbackExact indeterminate attempt := by
  cases attempt with
  | none =>
    obtain ⟨ob₁, hcommit, hroll⟩ := bind_eq_ok.mp hok
    cases tentativeCommitForValidation_eq_ok hcommit
    cases rollbackValidation_eq_ok rfl hroll
    exact rolledBack_merged_iff h n indeterminate
  | some a =>
    obtain ⟨ob₁, hcommit, hrest⟩ := bind_eq_ok.mp hok
    obtain ⟨⟨r, ob₂, s, supply⟩, hclear, hroll⟩ := bind_eq_ok.mp hrest
    cases tentativeCommitForValidation_eq_ok hcommit
    have hcases := tentativeClear_cases hclear
    simp only at hroll
    rw [RollbackExact]
    cases hcases with
    | badHeader hfind hbad =>
      cases rollbackValidation_eq_ok rfl hroll
      simp only at hfind
      simp only [hfind, if_pos hbad]
      exact rolledBack_merged_iff h n indeterminate
    | everything hfind hkey hamount hsell hbuy hclear hlmdb =>
      rw [OrderbookLMDB.modifyTopThunk_append _ ob.lmdb.thunks (ob.commitThunk n indeterminate) _ rfl]
        at hlmdb
      cases hlmdb
      cases rollbackValidation_eq_ok rfl hroll
      simp only at hfind
      simp only [hfind, if_neg (not_or.mpr ⟨not_not.mpr hkey, not_not.mpr hamount⟩)]
      exact rolledBack_everything_iff h n indeterminate
    | noOwner hfind huser =>
      cases rollbackValidation_eq_ok rfl hroll
      simp only at hfind
      simp only [hfind, if_pos (Or.inl huser)]
      exact rolledBack_putBack_iff h n indeterminate hfind
    | tooMuch hfind huser hsell hbuy hcredit hover =>
      cases rollbackValidation_eq_ok rfl hroll
      simp only at hfind
      simp only [hfind, if_pos (Or.inr hover)]
      exact rolledBack_putBack_iff h n indeterminate hfind
    | belowPartial hfind huser hsell hbuy hoffsell hoffbuy hcredit hamount hlmdb hclear =>
      rw [OrderbookLMDB.modifyTopThunk_append _ ob.lmdb.thunks (ob.commitThunk n indeterminate) _ rfl]
        at hlmdb
      cases hlmdb
      cases rollbackValidation_eq_ok rfl hroll
      simp only at hfind
      have hnot := not_or.mpr
        ⟨Option.ne_none_iff_exists'.mpr ⟨_, huser⟩, not_lt.mpr hamount⟩
      simp only [hfind, if_neg hnot]
      refine rolledBack_belowPartial_iff h n indeterminate hfind ?_ fun k hk => ?_
      · have hrest := (Unmarked.splitBelow h.unmarked_merged
          a.commitment.partialExecThresholdKey).2
        split
        · exact hrest.insertOffer _ _
        · exact hrest
      · split
        · exact SortedMap.find?_insert_ne hk ..
        · rfl

/-- An empty book, and one new offer, which the header names as the one to execute partially. -/
def newOfferBook (offer : Offer) : Orderbook where
  category := offer.category
  committedOffers := ∅
  uncommittedOffers := OrderbookTrie.insertRollback ∅ offer.key offer
  lmdb := ⟨[], ∅, 0⟩
  indexedMetadata := []

def sellOffer (owner : AccountID) (offerId amount minPrice : UInt64) : Offer :=
  ⟨⟨0, 1, .SELL⟩, offerId, owner, amount, minPrice⟩

/-- A header that executes all of an offer of 100 units partially. -/
def partialAttempt (key : OfferKey) (amount : BitVec 128) : ClearingAttempt where
  state := ⟨.ofAccount 7, ∅, []⟩
  supply := default
  commitment := ⟨0, amount, key, 0, amount⟩
  checker := ⟨[⟨0, amount, key, 0, amount⟩], [1, 1], 10⟩

theorem beforeCommit_newOfferBook (offer : Offer) : BeforeCommit (newOfferBook offer) where
  committed _ _ h := by cases h
  uncommitted k leaf h := by
    rw [newOfferBook, OrderbookTrie.insertRollback, SortedMap.find?_insert] at h
    split at h
    · cases h
      exact ⟨rfl, rfl⟩
    · cases h
  fresh _ _ _ := rfl

/-- A new offer that executes partially stays in the book after the rollback: the undo inserts it
again after the marked leaves are gone. -/
theorem commitThenRollback_keeps_new_offer :
    BeforeCommit (newOfferBook (sellOffer 7 256 100 1)) ∧
    ∃ ob', (newOfferBook (sellOffer 7 256 100 1)).commitThenRollback 1 false
        (some (partialAttempt (sellOffer 7 256 100 1).key 51200)) = .ok ob' ∧
      ob'.committedOffers.offers.entries =
        [((sellOffer 7 256 100 1).key, sellOffer 7 256 100 1)] ∧
      ob'.committedOffers.offers ≠ (newOfferBook (sellOffer 7 256 100 1)).committedOffers.offers := by
  refine ⟨beforeCommit_newOfferBook _, ?_⟩
  obtain ⟨ob', hok, hob'⟩ := returns_iff.mp (show returns
    ((newOfferBook (sellOffer 7 256 100 1)).commitThenRollback 1 false
      (some (partialAttempt (sellOffer 7 256 100 1).key 51200)))
    (fun ob' => ob'.committedOffers.offers.entries =
      [((sellOffer 7 256 100 1).key, sellOffer 7 256 100 1)]) = true by decide +kernel)
  have hentries := of_decide_eq_true hob'
  refine ⟨ob', hok, hentries, fun heq => ?_⟩
  rw [heq] at hentries
  cases hentries

/-- The same new offer is rolled back when the header names another key. -/
theorem commitThenRollback_exact_newOfferBook :
    ∃ ob', (newOfferBook (sellOffer 7 256 100 1)).commitThenRollback 1 false
        (some (partialAttempt .max 51200)) = .ok ob' ∧
      ob'.committedOffers.offers = (newOfferBook (sellOffer 7 256 100 1)).committedOffers.offers := by
  obtain ⟨ob', hok, -⟩ := returns_iff.mp (show returns
    ((newOfferBook (sellOffer 7 256 100 1)).commitThenRollback 1 false
      (some (partialAttempt .max 51200))) (fun _ => true) = true by decide +kernel)
  have hexact : (newOfferBook (sellOffer 7 256 100 1)).RollbackExact false
      (some (partialAttempt .max 51200)) := by
    have hfind : (newOfferBook (sellOffer 7 256 100 1)).merged.find? .max = none := by
      decide +kernel
    have hkey : OfferKey.max ≠ OfferKey.zero := by decide
    simp [RollbackExact, partialAttempt, hfind, hkey]
  exact ⟨ob', hok, (commitThenRollback_exact_iff _ _ _ _ _ (beforeCommit_newOfferBook _) hok).mpr
    hexact⟩

end Orderbook

end Speedex
