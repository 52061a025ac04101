import Speedex.Arithmetic

/-! The tries of offers (`orderbook/typedefs.h`).  The Merkle trie library is taken as a finite
map from keys to leaves.  A leaf can be marked for deletion, and carries a mark when it was
inserted to be rolled back. -/

namespace Speedex

open Lib

/-- A leaf: the offer, with `DeletableMixin` and `RollbackMixin`. -/
structure OfferLeaf where
  offer : Offer
  deleted : Bool
  rollback : Bool
deriving DecidableEq

/-- `OrderbookMetadata` of one offer. -/
def OfferLeaf.endow (leaf : OfferLeaf) : Nat := leaf.offer.amount.toNat

abbrev OrderbookTrie := SortedMap OfferKey OfferLeaf

namespace OrderbookTrie

/-- The offers of a trie, without their marks. -/
def offers (t : OrderbookTrie) : SortedMap OfferKey Offer := t.map fun _ leaf => leaf.offer

/-- A plain `insert`, which leaves no mark. -/
def insertOffer (t : OrderbookTrie) (key : OfferKey) (offer : Offer) : OrderbookTrie :=
  t.insert key ⟨offer, false, false⟩

/-- `insert<RollbackInsertFn>`. -/
def insertRollback (t : OrderbookTrie) (key : OfferKey) (offer : Offer) : OrderbookTrie :=
  t.insert key ⟨offer, false, true⟩

/-- `mark_for_deletion`: the offer, unless there is none or it is already marked. -/
def markForDeletion (t : OrderbookTrie) (key : OfferKey) : Option Offer × OrderbookTrie :=
  match t.find? key with
  | none => (none, t)
  | some leaf =>
    if leaf.deleted then (none, t)
    else (some leaf.offer, t.modify key fun leaf => { leaf with deleted := true })

/-- `unmark_for_deletion`. -/
def unmarkForDeletion (t : OrderbookTrie) (key : OfferKey) : Option Offer × OrderbookTrie :=
  match t.find? key with
  | none => (none, t)
  | some leaf =>
    if leaf.deleted then
      (some leaf.offer, t.modify key fun leaf => { leaf with deleted := false })
    else (none, t)

/-- `perform_deletion`: remove one key, marked or not. -/
def performDeletion (t : OrderbookTrie) (key : OfferKey) : Option Offer × OrderbookTrie :=
  ((t.find? key).map OfferLeaf.offer, t.erase key)

/-- `perform_marked_deletions`, with the keys and offers that it removes. -/
def performMarkedDeletions (t : OrderbookTrie) : List (OfferKey × Offer) × OrderbookTrie :=
  ((offers (t.filter fun _ leaf => leaf.deleted)).entries, t.filter fun _ leaf => !leaf.deleted)

/-- `merge_in`: the leaves of `u` replace those of `t`. -/
def mergeIn (t u : OrderbookTrie) : OrderbookTrie := t.union u

/-- `do_rollback`: remove the leaves that were inserted to be rolled back. -/
def doRollback (t : OrderbookTrie) : OrderbookTrie := t.filter fun _ leaf => !leaf.rollback

/-- `clear_rollback`. -/
def clearRollback (t : OrderbookTrie) : OrderbookTrie :=
  t.map fun _ leaf => { leaf with rollback := false }

/-- The total amount on offer. -/
def totalEndow (t : OrderbookTrie) : Nat := t.sum OfferLeaf.endow

/-- `get_root_metadata().endow`, an `int64_t`. -/
def rootEndow (t : OrderbookTrie) : Int64 := .ofNat t.totalEndow

/-- The leaves with a key below `key`. -/
def below (t : OrderbookTrie) (key : OfferKey) : OrderbookTrie := t.filter fun k _ => decide (k < key)

/-- `endow_lt_key`, an `int64_t`. -/
def endowLtKey (t : OrderbookTrie) (key : OfferKey) : Int64 := (t.below key).rootEndow

/-- `endow_split`: split off the longest prefix, in the order of the keys, whose amounts add up to
at most `endow`. -/
def endowSplit (t : OrderbookTrie) (endow : Int) : OrderbookTrie × OrderbookTrie :=
  t.splitWithin OfferLeaf.endow endow

/-- `get_lowest_key`. -/
def getLowestKey (t : OrderbookTrie) : Option OfferKey := t.min?.map (·.1)

/-- `accumulate_values<std::vector<Offer>>`. -/
def accumulateValues (t : OrderbookTrie) : List Offer := t.offers.values

/-! ### Contents -/

@[simp] theorem find?_offers (t : OrderbookTrie) (k : OfferKey) :
    t.offers.find? k = (t.find? k).map OfferLeaf.offer :=
  SortedMap.find?_map ..

theorem offers_insertOffer (t : OrderbookTrie) (k : OfferKey) (o : Offer) :
    (t.insertOffer k o).offers = t.offers.insert k o := by
  refine SortedMap.ext_find fun k' => ?_
  rw [find?_offers, insertOffer, SortedMap.find?_insert, SortedMap.find?_insert, find?_offers]
  split <;> rfl

theorem offers_mergeIn (t u : OrderbookTrie) :
    (t.mergeIn u).offers = t.offers.union u.offers := by
  refine SortedMap.ext_find fun k => ?_
  rw [find?_offers, mergeIn, SortedMap.find?_union, SortedMap.find?_union, find?_offers,
    find?_offers]
  cases u.find? k <;> rfl

theorem offers_erase (t : OrderbookTrie) (k : OfferKey) :
    offers (t.erase k) = t.offers.erase k := by
  refine SortedMap.ext_find fun k' => ?_
  rw [find?_offers, SortedMap.find?_erase, SortedMap.find?_erase, find?_offers]
  split <;> rfl

/-- A filter on keys commutes with forgetting the marks. -/
theorem offers_filter_key (t : OrderbookTrie) (p : OfferKey → Bool) :
    offers (t.filter fun k _ => p k) = t.offers.filter fun k _ => p k := by
  refine SortedMap.ext_find fun k => ?_
  rw [find?_offers, SortedMap.find?_filter, SortedMap.find?_filter, find?_offers]
  cases t.find? k with
  | none => rfl
  | some leaf => cases p k <;> simp [Option.filter_some]

@[simp] theorem offers_clearRollback (t : OrderbookTrie) : t.clearRollback.offers = t.offers := by
  refine SortedMap.ext_find fun k => ?_
  rw [find?_offers, clearRollback, SortedMap.find?_map, find?_offers, Option.map_map]
  rfl

@[simp] theorem offers_empty : offers ∅ = ∅ := rfl

end OrderbookTrie

end Speedex
