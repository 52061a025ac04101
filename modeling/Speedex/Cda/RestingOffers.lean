import Speedex.Cda.TryExecute
import Speedex.Database.Committed

/-! The offers that rest in a book of the serial auction, and what `try_execute` does to them and to
their owners. -/

namespace Speedex

open Lib

/-- The account is in the database. -/
def MemoryDatabase.HasAccount (db : MemoryDatabase) (account : AccountID) : Prop :=
  ∃ i, db.lookupUser account = some i ∧ i < db.database.length

theorem MemoryDatabase.HasAccount.sameCommitted {db db' : MemoryDatabase} {account : AccountID}
    (h : db.HasAccount account) (hsame : db.SameCommitted db') : db'.HasAccount account := by
  obtain ⟨i, hlookup, hi⟩ := h
  refine ⟨i, ?_, ?_⟩
  · rw [hsame.lookupUser, hlookup]
  · rw [hsame.length]
    exact hi

theorem Offer.key_inj {offer offer' : Offer} (h : offer.key = offer'.key) :
    offer.owner = offer'.owner ∧ offer.offerId = offer'.offerId := by
  have hnat := congrArg OfferKey.toNat h
  have ho := offer.owner.toNat_lt
  have ho' := offer'.owner.toNat_lt
  have hi := offer.offerId.toNat_lt
  have hi' := offer'.offerId.toNat_lt
  rw [key_toNat, key_toNat] at hnat
  rw [← UInt64.toNat_inj, ← UInt64.toNat_inj]
  omega

/-- Keys are in the order of the limit prices. -/
theorem Offer.minPrice_le_of_key_lt {offer offer' : Offer}
    (hprice : offer.minPrice.isValidPrice = true) (hprice' : offer'.minPrice.isValidPrice = true)
    (h : offer.key < offer'.key) : offer.minPrice ≤ offer'.minPrice := by
  rw [Price.isValidPrice_iff] at hprice hprice'
  have ho := offer.owner.toNat_lt
  have ho' := offer'.owner.toNat_lt
  have hi := offer.offerId.toNat_lt
  have hi' := offer'.offerId.toNat_lt
  rw [OfferKey.lt_iff, key_toNat, key_toNat, Nat.mod_eq_of_lt hprice.2,
    Nat.mod_eq_of_lt hprice'.2] at h
  rw [UInt64.le_iff_toNat_le]
  omega

namespace SerialOrderbook

/-- The leaf of an earlier offer, of which something may be gone. -/
structure Rests (db : MemoryDatabase) (earlier : List Offer) (category : OfferCategory)
    (key : OfferKey) (leaf : OfferLeaf) : Prop where
  key : key = leaf.offer.key
  unmarked : leaf.deleted = false
  category : leaf.offer.category = category
  price : leaf.offer.minPrice.isValidPrice = true
  owner : db.HasAccount leaf.offer.owner
  earlier : ∃ offer ∈ earlier, offer.owner = leaf.offer.owner ∧ offer.offerId = leaf.offer.offerId

/-- Every leaf is of an earlier offer in a category. -/
def Holds (b : SerialOrderbook) (db : MemoryDatabase) (earlier : List Offer)
    (category : OfferCategory) : Prop :=
  ∀ key leaf, b.ob.find? key = some leaf → Rests db earlier category key leaf

/-- The resting offers, in the order of their keys. -/
def offers (b : SerialOrderbook) : List Offer := b.ob.entries.map (·.2.offer)

/-- How much of an asset the resting offers hold. -/
def resting (b : SerialOrderbook) (asset : AssetID) : Nat :=
  b.ob.sum fun leaf => if leaf.offer.category.sellAsset = asset then leaf.endow else 0

variable {b : SerialOrderbook} {db db' : MemoryDatabase} {earlier : List Offer}
  {category : OfferCategory}

theorem Rests.sameCommitted {key : OfferKey} {leaf : OfferLeaf}
    (h : Rests db earlier category key leaf) (hsame : db.SameCommitted db') (offer : Offer) :
    Rests db' (offer :: earlier) category key leaf := by
  obtain ⟨o, ho, hids⟩ := h.earlier
  exact ⟨h.key, h.unmarked, h.category, h.price, h.owner.sameCommitted hsame,
    o, List.mem_cons_of_mem _ ho, hids⟩

theorem Holds.sameCommitted (h : b.Holds db earlier category) (hsame : db.SameCommitted db')
    (offer : Offer) : b.Holds db' (offer :: earlier) category :=
  fun key leaf hfind => (h key leaf hfind).sameCommitted hsame offer

theorem mem_offers {offer : Offer} :
    offer ∈ b.offers ↔ ∃ key leaf, b.ob.find? key = some leaf ∧ leaf.offer = offer := by
  simp only [offers, List.mem_map, Prod.exists, SortedMap.mem_entries]

theorem Holds.mem (h : b.Holds db earlier category) {offer : Offer} (hmem : offer ∈ b.offers) :
    ∃ leaf, b.ob.find? offer.key = some leaf ∧ leaf.offer = offer ∧
      Rests db earlier category offer.key leaf := by
  obtain ⟨key, leaf, hfind, rfl⟩ := mem_offers.mp hmem
  have hrests := h key leaf hfind
  have hkey := hrests.key
  subst hkey
  exact ⟨leaf, hfind, rfl, hrests⟩

theorem resting_of_holds (h : b.Holds db earlier category) (asset : AssetID) :
    b.resting asset = if category.sellAsset = asset then b.ob.totalEndow else 0 := by
  have hsum : ∀ (f g : OfferLeaf → Nat), (∀ key leaf, b.ob.find? key = some leaf → f leaf = g leaf) →
      b.ob.sum f = b.ob.sum g := by
    intro f g hfg
    rw [SortedMap.sum_eq_entries, SortedMap.sum_eq_entries]
    apply congrArg
    apply List.map_congr_left
    intro e he
    exact hfg e.1 e.2 (SortedMap.mem_entries.mp he)
  split_ifs with hasset
  · apply hsum
    intro key leaf hfind
    rw [(h key leaf hfind).category, if_pos hasset]
  · have hzero := hsum (fun leaf => if leaf.offer.category.sellAsset = asset then leaf.endow else 0)
      (fun _ => 0) fun key leaf hfind => by rw [(h key leaf hfind).category, if_neg hasset]
    rw [resting, hzero, SortedMap.sum_eq_entries]
    simp

/-! ### The trades with a book -/

section Trades

variable {maxPrice remaining : Nat} {trades : List Trade}

theorem Holds.pairwise_price (h : b.Holds db earlier category) :
    b.offers.Pairwise (·.minPrice ≤ ·.minPrice) := by
  rw [offers, List.pairwise_map]
  apply List.Pairwise.imp_of_mem _ b.ob.sorted
  intro e e' he he' hlt
  have hrests := h e.1 e.2 (SortedMap.mem_entries.mp he)
  have hrests' := h e'.1 e'.2 (SortedMap.mem_entries.mp he')
  rw [hrests.key, hrests'.key] at hlt
  exact Offer.minPrice_le_of_key_lt hrests.price hrests'.price hlt

theorem Holds.nodup_keys (h : b.Holds db earlier category) : (b.offers.map Offer.key).Nodup := by
  have hkeys : b.offers.map Offer.key = b.ob.keys := by
    rw [offers, List.map_map]
    apply List.map_congr_left
    intro e he
    exact (h e.1 e.2 (SortedMap.mem_entries.mp he)).key.symm
  rw [hkeys]
  exact b.ob.nodup_keys

/-- Trades with offers of the book, at most one with each. -/
structure TradesIn (b : SerialOrderbook) (trades : List Trade) : Prop where
  mem : ∀ t ∈ trades, t.offer ∈ b.offers
  distinct : (trades.map (·.offer.key)).Nodup
  fair : ∀ t ∈ trades, t.Fair

theorem Holds.tradesIn (h : b.Holds db earlier category) (maxPrice remaining : Nat) :
    b.TradesIn (tradesWith maxPrice b.offers remaining) := by
  refine ⟨fun t ht => (mem_tradesWith ht).1, ?_, fun t ht => ?_⟩
  · have hkeys : (tradesWith maxPrice b.offers remaining).map (·.offer.key) =
        ((tradesWith maxPrice b.offers remaining).map Trade.offer).map Offer.key := by
      rw [List.map_map]
      rfl
    rw [hkeys]
    exact h.nodup_keys.sublist (offers_tradesWith.map Offer.key).sublist
  · obtain ⟨hmem, left, heq⟩ := mem_tradesWith ht
    obtain ⟨leaf, -, hoffer, hrests⟩ := h.mem hmem
    have hprice := hrests.price
    rw [hoffer, Price.isValidPrice_iff] at hprice
    rw [heq]
    exact tradeWith_fair hprice.1

/-- The book after trades. -/
def settled (b : SerialOrderbook) (trades : List Trade) : SerialOrderbook :=
  ⟨trades.foldl settle b.ob⟩

theorem Holds.settled (h : b.Holds db earlier category) (ht : b.TradesIn trades) :
    (b.settled trades).Holds db earlier category := by
  intro key leaf hfind
  rcases find?_settled hfind with ⟨hfind, -⟩ | ⟨t, hmem, rfl, -, rfl⟩
  · exact h key leaf hfind
  · obtain ⟨leaf, -, hoffer, hrests⟩ := h.mem (ht.mem t hmem)
    rw [← hoffer] at hrests ⊢
    exact ⟨rfl, rfl, hrests.category, hrests.price, hrests.owner, hrests.earlier⟩

theorem Holds.totalEndow_settled (h : b.Holds db earlier category) (ht : b.TradesIn trades) :
    (b.settled trades).ob.totalEndow + totalGiven trades = b.ob.totalEndow := by
  apply SerialOrderbook.totalEndow_settled _ ht.distinct ht.fair
  intro t hmem
  obtain ⟨leaf, hfind, hoffer, -⟩ := h.mem (ht.mem t hmem)
  rw [OrderbookTrie.find?_offers, hfind, ← hoffer]
  rfl

/-- An offer that rests after trades rested before, at the same price. -/
theorem TradesIn.exists_before (ht : b.TradesIn trades) {offer : Offer}
    (hmem : offer ∈ (b.settled trades).offers) :
    ∃ before ∈ b.offers, before.minPrice = offer.minPrice := by
  obtain ⟨key, leaf, hfind, rfl⟩ := mem_offers.mp hmem
  rcases find?_settled hfind with ⟨hfind, -⟩ | ⟨t, htrade, -, -, rfl⟩
  · exact ⟨leaf.offer, mem_offers.mpr ⟨key, leaf, hfind, rfl⟩, rfl⟩
  · exact ⟨t.offer, ht.mem t htrade, rfl⟩

/-- If something is left to sell, the offers that still rest ask for more than the limit. -/
theorem Holds.price_of_left (h : b.Holds db earlier category)
    (hleft : totalPaid (tradesWith maxPrice b.offers remaining) < remaining) {offer : Offer}
    (hmem : offer ∈ (b.settled (tradesWith maxPrice b.offers remaining)).offers) :
    maxPrice < offer.minPrice.toNat := by
  apply Nat.lt_of_not_le
  intro hle
  have hin := h.tradesIn maxPrice remaining
  have hvalid : ∀ offer ∈ b.offers, 0 < offer.minPrice.toNat := by
    intro offer hoffer
    obtain ⟨leaf, -, rfl, hrests⟩ := h.mem hoffer
    exact (Price.isValidPrice_iff.mp hrests.price).1
  obtain ⟨key, leaf, hfind, rfl⟩ := mem_offers.mp hmem
  rcases find?_settled hfind with ⟨hfind, hnone⟩ | ⟨t, htrade, -, hpartial, rfl⟩
  · obtain ⟨t, htrade, hoffer, -⟩ := exists_trade h.pairwise_price hvalid hleft
      (mem_offers.mpr ⟨key, leaf, hfind, rfl⟩) hle
    apply hnone t htrade
    rw [hoffer, (h key leaf hfind).key]
  · obtain ⟨t', htrade', hoffer, hall⟩ := exists_trade h.pairwise_price hvalid hleft
      (hin.mem t htrade) hle
    -- one offer trades once
    have hsame : t' = t := List.inj_on_of_nodup_map hin.distinct htrade' htrade (by rw [hoffer])
    rw [hsame] at hall
    exact hpartial hall

end Trades

/-! ### Execution -/

/-- `try_execute` made the trades: it credits their owners, and sells and buys what they come to. -/
structure Sells (b : SerialOrderbook) (db : MemoryDatabase) (view : BufferedMemoryDatabaseView)
    (trades : List Trade) (r : Executed) : Prop where
  book : r.book = b.settled trades
  frame : r.db = db
  creation : r.view.toAccountCreationView = view.toAccountCreationView
  sold : r.sold.toNat = totalPaid trades
  bought : r.bought = .ofNat (totalGiven trades)
  buffered : ∀ i asset, (r.view.buffered i asset).toInt =
    (view.buffered i asset).toInt + credits db trades i asset

theorem Holds.performMarkedDeletions (h : b.Holds db earlier category) :
    b.ob.performMarkedDeletions.2 = b.ob := by
  refine SortedMap.ext_find fun key => ?_
  rw [OrderbookTrie.performMarkedDeletions, SortedMap.find?_filter]
  cases hfind : b.ob.find? key with
  | none => rfl
  | some leaf => simp [(h key leaf hfind).unmarked]

theorem Holds.tryExecute (h : b.Holds db earlier category) (maxPrice : Price) {sellAmount : UInt64}
    {view : BufferedMemoryDatabaseView} (hsell : sellAmount.toNat < 2 ^ 63)
    (hview : ∀ i asset, view.buffered i asset = 0) :
    ∃ r, b.tryExecute maxPrice sellAmount db view = .ok r ∧
      b.Sells db view (tradesWith maxPrice.toNat b.offers sellAmount.toNat) r := by
  have hroom : Execution.Room ⟨b.ob, db, view, sellAmount, 0, default⟩ := by
    intro i asset
    simp only [hview, Int64.toInt_zero]
    omega
  obtain ⟨s, hloop, hfills⟩ :=
    @Execution.loop_spec _ maxPrice b.ob.entries hroom rfl fun e he => by
      have hrests := h e.1 e.2 (SortedMap.mem_entries.mp he)
      obtain ⟨i, hlookup, -⟩ := hrests.owner
      exact ⟨hrests.key, (Price.isValidPrice_iff.mp hrests.price).1, i, hlookup⟩
  have hremaining := hfills.remaining
  have hbought := hfills.bought
  have hbook := hfills.book
  have hfinish : Execution.finish ⟨b.ob, db, view, sellAmount, 0, default⟩ = b.ob :=
    h.performMarkedDeletions
  dsimp only at hremaining hbought
  rw [hfinish] at hbook
  rw [zero_add] at hbought
  refine ⟨_, bind_eq_ok.mpr ⟨s, hloop, rfl⟩, congrArg SerialOrderbook.mk hbook, hfills.db,
    hfills.creation, ?_, hbought, hfills.buffered⟩
  have hle : s.remainingSell ≤ sellAmount := UInt64.le_iff_toNat_le.mpr (by omega)
  have hsold : (sellAmount - s.remainingSell).toNat = _ := UInt64.toNat_sub_of_le _ _ hle
  change (sellAmount - s.remainingSell).toNat = _
  rw [hsold]
  exact Nat.sub_eq_of_eq_add' hremaining.symm

end SerialOrderbook

end Speedex
