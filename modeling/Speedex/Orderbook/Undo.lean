import Speedex.Orderbook.Orderbook

/-! What undoing a thunk does to the offers of a book, key by key. -/

namespace Speedex

open Lib

namespace OrderbookTrie

/-- No leaf is marked for deletion. -/
def Unmarked (t : OrderbookTrie) : Prop := ∀ k leaf, t.find? k = some leaf → leaf.deleted = false

instance (t : OrderbookTrie) : Decidable t.Unmarked :=
  inferInstanceAs (Decidable (∀ k leaf, t.find? k = some leaf → leaf.deleted = false))

theorem unmarked_empty : Unmarked ∅ := fun _ _ h => by cases h

theorem Unmarked.filter {t : OrderbookTrie} (h : t.Unmarked) (p : OfferKey → OfferLeaf → Bool) :
    Unmarked (SortedMap.filter t p) := by
  intro k leaf hk
  rw [SortedMap.find?_filter] at hk
  exact h k leaf (Option.eq_some_of_filter_eq_some hk)

theorem Unmarked.insertOffer {t : OrderbookTrie} (h : t.Unmarked) (k : OfferKey) (o : Offer) :
    (t.insertOffer k o).Unmarked := by
  intro k' leaf hk
  rw [OrderbookTrie.insertOffer, SortedMap.find?_insert] at hk
  split at hk
  · cases hk
    rfl
  · exact h k' leaf hk

theorem Unmarked.mergeIn {t u : OrderbookTrie} (ht : t.Unmarked) (hu : u.Unmarked) :
    (t.mergeIn u).Unmarked := by
  intro k leaf hk
  rw [OrderbookTrie.mergeIn, SortedMap.find?_union, Option.or_eq_some_iff] at hk
  rcases hk with hk | ⟨-, hk⟩
  · exact hu k leaf hk
  · exact ht k leaf hk

theorem Unmarked.clearRollback {t : OrderbookTrie} (h : t.Unmarked) : t.clearRollback.Unmarked := by
  intro k leaf hk
  rw [OrderbookTrie.clearRollback, SortedMap.find?_map, Option.map_eq_some_iff] at hk
  obtain ⟨leaf', hleaf', rfl⟩ := hk
  exact h k leaf' hleaf'

theorem unmarked_performMarkedDeletions (t : OrderbookTrie) :
    t.performMarkedDeletions.2.Unmarked := by
  intro k leaf hk
  rw [performMarkedDeletions, SortedMap.find?_filter, Option.filter_eq_some_iff] at hk
  simpa using hk.2

/-- Marking changes the mark of one leaf at most. -/
theorem find?_markForDeletion (t : OrderbookTrie) (k k' : OfferKey) :
    (t.markForDeletion k).2.find? k' =
      (t.find? k').map fun leaf => if k = k' then { leaf with deleted := true } else leaf := by
  rw [markForDeletion]
  by_cases hk : k = k'
  · subst hk
    cases h : t.find? k with
    | none => simp [h]
    | some leaf =>
      cases hd : leaf.deleted with
      | false => simp [SortedMap.find?_modify, h, hd]
      | true =>
        have hleaf : leaf = { leaf with deleted := true } := by rw [← hd]
        simp [h, hd, ← hleaf]
  · cases h : t.find? k with
    | none => simp [hk]
    | some leaf => cases hd : leaf.deleted <;> simp [SortedMap.find?_modify, hk, hd]

end OrderbookTrie

namespace Orderbook

open OrderbookTrie

theorem find?_markAll (t : OrderbookTrie) (offers : List Offer) (k : OfferKey) :
    (markAll t offers).find? k = (t.find? k).map fun leaf =>
      if k ∈ offers.map Offer.key then { leaf with deleted := true } else leaf := by
  induction offers generalizing t with
  | nil => simp [markAll]
  | cons offer offers ih =>
    refine (ih (t.markForDeletion offer.key).2).trans ?_
    rw [find?_markForDeletion, Option.map_map]
    congr 1
    funext leaf
    by_cases hk : offer.key = k
    · by_cases hl : k ∈ offers.map Offer.key <;> simp [hk]
    · by_cases hl : k ∈ offers.map Offer.key <;> simp [hk, hl, Ne.symm hk]

/-- The loop over the new offers, and the deletions that follow, remove their keys. -/
theorem find?_removeAll {t : OrderbookTrie} (ht : t.Unmarked) (offers : List Offer)
    (k : OfferKey) :
    (markAll t offers).performMarkedDeletions.2.find? k =
      if k ∈ offers.map Offer.key then none else t.find? k := by
  rw [performMarkedDeletions, SortedMap.find?_filter, find?_markAll]
  cases h : t.find? k with
  | none => simp
  | some leaf =>
    have hd := ht k leaf h
    by_cases hl : k ∈ offers.map Offer.key <;> simp [hl, hd, Option.filter_some]

/-- The loop over the deleted keys inserts their offers, without marks. -/
theorem offers_insertDeleted (t : OrderbookTrie) (l : List (OfferKey × Offer)) :
    (l.foldl (fun t kv => t.insertOffer kv.1 kv.2) t).offers = t.offers.insertAll l := by
  induction l generalizing t with
  | nil => rfl
  | cons a l ih => rw [List.foldl_cons, ih, offers_insertOffer, SortedMap.insertAll_cons]

theorem Unmarked_insertDeleted {t : OrderbookTrie} (ht : t.Unmarked)
    (l : List (OfferKey × Offer)) :
    (l.foldl (fun t kv => t.insertOffer kv.1 kv.2) t).Unmarked := by
  induction l generalizing t with
  | nil => exact ht
  | cons a l ih => exact ih (ht.insertOffer a.1 a.2)

/-- An undone book, key by key: the partially executed offer is back as it was; the block's new
offers are gone; cleared and cancelled offers are back; the rest is as it was. -/
theorem find?_undoThunk {t : OrderbookTrie} {thunk : OrderbookLMDBCommitmentThunk}
    (ht : t.Unmarked) (hc : thunk.clearedOffers.Unmarked) (k : OfferKey) :
    (undoThunk t thunk).offers.find? k =
      if thunk.existsPartialExec = true ∧ thunk.partialExecKey = k then
        some thunk.preexecutePartialExecOffer
      else if k ∈ thunk.uncommittedOffersVec.map Offer.key then none
      else (thunk.clearedOffers.offers.find? k).or
        ((SortedMap.lookup k thunk.deletedKeys.reverse).or (t.offers.find? k)) := by
  have hmerged := (Unmarked_insertDeleted ht thunk.deletedKeys).mergeIn hc
  have hrest : (markAll ((thunk.deletedKeys.foldl (fun t kv => t.insertOffer kv.1 kv.2)
      t).mergeIn thunk.clearedOffers) thunk.uncommittedOffersVec).performMarkedDeletions.2.offers.find?
        k =
      if k ∈ thunk.uncommittedOffersVec.map Offer.key then none
      else (thunk.clearedOffers.offers.find? k).or
        ((SortedMap.lookup k thunk.deletedKeys.reverse).or (t.offers.find? k)) := by
    rw [find?_offers, find?_removeAll hmerged]
    split
    · rfl
    · rw [← find?_offers, offers_mergeIn, SortedMap.find?_union, offers_insertDeleted,
        SortedMap.find?_insertAll]
  rw [undoThunk]
  by_cases hp : thunk.existsPartialExec = true
  · rw [if_pos hp, offers_insertOffer, SortedMap.find?_insert]
    by_cases hk : thunk.partialExecKey = k
    · rw [if_pos hk, if_pos ⟨hp, hk⟩]
    · rw [if_neg hk, if_neg fun h => hk h.2, hrest]
  · rw [if_neg hp, if_neg fun h => hp h.1, hrest]

theorem unmarked_undoThunk (t : OrderbookTrie) (thunk : OrderbookLMDBCommitmentThunk) :
    (undoThunk t thunk).Unmarked := by
  rw [undoThunk]
  split
  · exact (unmarked_performMarkedDeletions _).insertOffer _ _
  · exact unmarked_performMarkedDeletions _

end Orderbook

end Speedex
