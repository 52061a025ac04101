import Speedex.Database.Credits
import Speedex.Orderbook.Undo
import Speedex.Cda.Trades

/-! `try_execute` makes the trades of `tradesWith`: it does not throw, credits each owner what the
trade pays, and leaves the trie without what the trades took. -/

namespace Speedex

open Lib

namespace OrderbookTrie

theorem performMarkedDeletions_insertOffer (t : OrderbookTrie) (key : OfferKey) (offer : Offer) :
    (t.insertOffer key offer).performMarkedDeletions.2 =
      t.performMarkedDeletions.2.insertOffer key offer := by
  refine SortedMap.ext_find fun k => ?_
  simp only [performMarkedDeletions, insertOffer, SortedMap.find?_filter, SortedMap.find?_insert]
  split <;> rfl

theorem performMarkedDeletions_markForDeletion (t : OrderbookTrie) (key : OfferKey) :
    (t.markForDeletion key).2.performMarkedDeletions.2 =
      SortedMap.erase t.performMarkedDeletions.2 key := by
  refine SortedMap.ext_find fun k => ?_
  simp only [performMarkedDeletions, SortedMap.find?_filter, SortedMap.find?_erase,
    find?_markForDeletion]
  by_cases hk : key = k
  · cases t.find? k <;> simp [hk]
  · simp [hk]

end OrderbookTrie

theorem Price.toNat_roundUpPriceTimesAmount {n : Nat} (h : n ⌈/⌉ 2 ^ 24 < 2 ^ 64) :
    (Price.roundUpPriceTimesAmount n).toNat = n ⌈/⌉ 2 ^ 24 := by
  have hradix : 2 ^ Price.radix = 2 ^ 24 := rfl
  rw [Nat.ceilDiv_eq_add_pred_div] at h ⊢
  unfold Price.roundUpPriceTimesAmount
  rw [Nat.shiftRight_eq_div_pow, hradix]
  split <;> rw [UInt64.toNat_ofNat'] <;> omega

namespace SerialOrderbook

/-- What the trades pay to account `i` in an asset. -/
def credits (db : MemoryDatabase) (trades : List Trade) (i : Nat) (asset : AssetID) : Nat :=
  (trades.map fun t => if db.lookupUser t.offer.owner = some i ∧ t.offer.category.buyAsset = asset
    then t.paid else 0).sum

/-- The trie after a trade. -/
def settle (ob : OrderbookTrie) (t : Trade) : OrderbookTrie :=
  if t.given = t.offer.amount.toNat then ob.erase t.offer.key
  else ob.insertOffer t.offer.key { t.offer with amount := t.offer.amount - .ofNat t.given }

theorem credits_le (db : MemoryDatabase) (trades : List Trade) (i : Nat) (asset : AssetID) :
    credits db trades i asset ≤ totalPaid trades := by
  refine List.sum_le_sum fun t _ => ?_
  split_ifs
  · exact le_rfl
  · exact Nat.zero_le _

namespace Execution

/-- The buffers are nonnegative and have room for what is left to sell. -/
def Room (s : Execution) : Prop :=
  ∀ i asset, 0 ≤ (s.view.buffered i asset).toInt ∧
    (s.view.buffered i asset).toInt + s.remainingSell.toNat < 2 ^ 63

/-- What the trades lead to. -/
structure Fills (s : Execution) (trades : List Trade) (s' : Execution) : Prop where
  db : s'.db = s.db
  creation : s'.view.toAccountCreationView = s.view.toAccountCreationView
  remaining : s'.remainingSell.toNat + totalPaid trades = s.remainingSell.toNat
  bought : s'.boughtAmount = s.boughtAmount + .ofNat (totalGiven trades)
  book : s'.finish = trades.foldl settle s.finish
  buffered : ∀ i asset, (s'.view.buffered i asset).toInt =
    (s.view.buffered i asset).toInt + credits s.db trades i asset

variable {s s' s'' : Execution} {trades trades' : List Trade}

theorem Fills.refl (s : Execution) : s.Fills [] s :=
  ⟨rfl, rfl, rfl, by simp [totalGiven], rfl, fun _ _ => by simp [credits]⟩

theorem Fills.trans (h : s.Fills trades s') (h' : s'.Fills trades' s'') :
    s.Fills (trades ++ trades') s'' where
  db := h'.db.trans h.db
  creation := h'.creation.trans h.creation
  remaining := by
    have := h.remaining
    have := h'.remaining
    simp only [totalPaid, List.map_append, List.sum_append] at *
    omega
  bought := by
    rw [h'.bought, h.bought]
    simp [totalGiven, UInt64.add_assoc]
  book := by rw [h'.book, h.book, List.foldl_append]
  buffered i asset := by
    rw [h'.buffered, h.buffered, h.db]
    simp only [credits, List.map_append, List.sum_append, Nat.cast_add]
    omega

theorem Room.fills (hroom : s.Room) (h : s.Fills trades s') : s'.Room := by
  intro i asset
  have hcredits := credits_le s.db trades i asset
  have hremaining := h.remaining
  rw [h.buffered]
  have := hroom i asset
  omega

/-- The code's amount for the offer. -/
theorem toNat_given {offer : Offer} {remaining : Nat} (hprice : 0 < offer.minPrice.toNat) :
    (UInt64.ofNat (min (offer.minPrice.toNat * offer.amount.toNat) (remaining <<< Price.radix) /
      offer.minPrice.toNat)).toNat = (tradeWith offer remaining).given := by
  have hle := (@tradeWith_fair offer remaining hprice).amount
  have hlt := lt_of_le_of_lt hle offer.amount.toNat_lt
  rw [Nat.shiftLeft_eq]
  exact UInt64.toNat_ofNat_of_lt' hlt

/-- The code's amount for its owner. -/
theorem toNat_paid {offer : Offer} {remaining : Nat} (h : remaining < 2 ^ 64) :
    (Price.roundUpPriceTimesAmount (min (offer.minPrice.toNat * offer.amount.toNat)
      (remaining <<< Price.radix))).toNat = (tradeWith offer remaining).paid := by
  have hle := @paid_le offer remaining
  have hshift : remaining <<< Price.radix = remaining * 2 ^ 24 := Nat.shiftLeft_eq ..
  rw [hshift, Price.toNat_roundUpPriceTimesAmount (lt_of_le_of_lt hle h)]
  rfl

/-- A trade with an offer of the trie. -/
theorem trade_spec {key : OfferKey} {leaf : OfferLeaf} {i : Nat} (hroom : s.Room)
    (hfinal : s.finalOffer.amount = 0) (hkey : key = leaf.offer.key)
    (hprice : 0 < leaf.offer.minPrice.toNat) (howner : s.db.lookupUser leaf.offer.owner = some i) :
    ∃ s', s.trade key leaf.offer = .ok s' ∧
      s.Fills [tradeWith leaf.offer s.remainingSell.toNat] s' ∧
      (s'.remainingSell ≠ 0 → s'.finalOffer.amount = 0) := by
  obtain ⟨hnonneg, hfits⟩ := hroom i leaf.offer.category.buyAsset
  have hfair := @tradeWith_fair leaf.offer s.remainingSell.toNat hprice
  have hle := @paid_le leaf.offer s.remainingSell.toNat
  have hpartial := @paid_eq_of_lt leaf.offer s.remainingSell.toNat hprice
  have hgiven := @toNat_given leaf.offer s.remainingSell.toNat hprice
  have hpaid := @toNat_paid leaf.offer s.remainingSell.toNat s.remainingSell.toNat_lt
  have htrade : (tradeWith leaf.offer s.remainingSell.toNat).offer = leaf.offer := rfl
  unfold trade
  simp only
  generalize tradeWith leaf.offer s.remainingSell.toNat = t at *
  generalize UInt64.ofNat (min (leaf.offer.minPrice.toNat * leaf.offer.amount.toNat)
    (s.remainingSell.toNat <<< Price.radix) / leaf.offer.minPrice.toNat) = given at *
  generalize Price.roundUpPriceTimesAmount (min (leaf.offer.minPrice.toNat *
    leaf.offer.amount.toNat) (s.remainingSell.toNat <<< Price.radix)) = paid at *
  have hzero : ¬ leaf.offer.minPrice = 0 := by
    rw [← UInt64.toNat_inj, UInt64.toNat_zero]
    omega
  have hmatch : ¬ paid > s.remainingSell := by
    rw [gt_iff_lt, UInt64.lt_iff_toNat_lt]
    omega
  have hremaining : (s.remainingSell - paid).toNat = s.remainingSell.toNat - t.paid := by
    rw [UInt64.toNat_sub_of_le _ _ (UInt64.le_iff_toNat_le.mpr (by omega)), hpaid]
  have hcredit : paid.toInt64.toInt = t.paid := by
    rw [toInt_toInt64_of_lt (by omega), hpaid]
  have hsum : (s.view.buffered i leaf.offer.category.buyAsset + paid.toInt64).toInt =
      (s.view.buffered i leaf.offer.category.buyAsset).toInt + t.paid := by
    rw [toInt_add_of_bounds] <;> omega
  have hroomy : ¬ s.view.buffered i leaf.offer.category.buyAsset + paid.toInt64 < 0 := by
    rw [Int64.lt_iff_toInt_lt, hsum, Int64.toInt_zero]
    omega
  obtain ⟨v', hv', hcreation, hbuffered⟩ :=
    @BufferedMemoryDatabaseView.transferAvailable_credits s.view s.db i _ _ hroomy
  have hlookup : s.view.lookupUser s.db leaf.offer.owner = some (.main i) := by
    rw [AccountCreationView.lookupUser, howner]
  rw [if_neg hzero, if_neg hmatch, hlookup]
  simp only [hv']
  -- what holds of the new view and numbers, whatever happens to the trie
  have hfills (ob : OrderbookTrie) (final : Offer)
      (hbook : finish ⟨ob, s.db, v', s.remainingSell - paid, s.boughtAmount + given, final⟩ =
        settle s.finish t) :
      s.Fills [t] ⟨ob, s.db, v', s.remainingSell - paid, s.boughtAmount + given, final⟩ := by
    refine ⟨rfl, hcreation, ?_, ?_, hbook, fun j asset => ?_⟩
    · simp only [totalPaid, List.map_cons, List.map_nil, List.sum_singleton]
      omega
    · simp only [totalGiven, List.map_cons, List.map_nil, List.sum_singleton]
      rw [← hgiven, UInt64.ofNat_toNat]
    · simp only [credits, List.map_cons, List.map_nil, List.sum_singleton, htrade, howner,
        Option.some.injEq, hbuffered]
      split_ifs with hthere
      · obtain ⟨rfl, rfl⟩ := hthere
        exact hsum
      · simp
  have hfinish : s.finish = s.ob.performMarkedDeletions.2 := by simp [finish, hfinal]
  by_cases hfull : t.given = leaf.offer.amount.toNat
  · rw [if_pos (UInt64.toNat_inj.mp (hgiven.trans hfull))]
    refine ⟨_, rfl, hfills _ _ ?_, fun _ => hfinal⟩
    rw [settle, htrade, if_pos hfull, hfinish, ← hkey]
    simp only [finish, hfinal, ne_eq, not_true_eq_false, if_false]
    exact OrderbookTrie.performMarkedDeletions_markForDeletion s.ob key
  · have hkept := hfair.amount
    rw [htrade] at hkept
    have hspent := hpartial (by omega)
    have hnone : s.remainingSell - paid = 0 := by
      rw [← UInt64.toNat_inj, hremaining, UInt64.toNat_zero]
      omega
    have hrest : (leaf.offer.amount - given).toNat = leaf.offer.amount.toNat - t.given := by
      rw [UInt64.toNat_sub_of_le _ _ (UInt64.le_iff_toNat_le.mpr (by omega)), hgiven]
    have hsome : leaf.offer.amount - given ≠ 0 := by
      rw [ne_eq, ← UInt64.toNat_inj, hrest, UInt64.toNat_zero]
      omega
    have hnot : ¬ given > leaf.offer.amount := by
      rw [gt_iff_lt, UInt64.lt_iff_toNat_lt]
      omega
    rw [if_neg (fun heq => hfull (by rw [← hgiven, heq])), if_neg hnot, if_neg (not_not.mpr hnone)]
    refine ⟨_, rfl, hfills _ _ ?_, fun hne => absurd hnone hne⟩
    have hofNat : UInt64.ofNat t.given = given := by rw [← hgiven, UInt64.ofNat_toNat]
    rw [settle, htrade, if_neg hfull, hfinish, hofNat]
    simp only [finish, if_pos hsome]
    exact OrderbookTrie.performMarkedDeletions_insertOffer ..

/-- The loop makes the trades of `tradesWith`. -/
theorem loop_spec {maxPrice : Price} {entries : List (OfferKey × OfferLeaf)} (hroom : s.Room)
    (hfinal : s.finalOffer.amount = 0) (hentries : ∀ e ∈ entries, e.1 = e.2.offer.key ∧
      0 < e.2.offer.minPrice.toNat ∧ ∃ i, s.db.lookupUser e.2.offer.owner = some i) :
    ∃ s', loop maxPrice s entries = .ok s' ∧ s.Fills (tradesWith maxPrice.toNat
      (entries.map (·.2.offer)) s.remainingSell.toNat) s' := by
  induction entries generalizing s with
  | nil => exact ⟨s, rfl, .refl s⟩
  | cons e rest ih =>
    obtain ⟨key, leaf⟩ := e
    rw [loop, List.map_cons, tradesWith]
    by_cases hzero : s.remainingSell = 0
    · rw [if_pos hzero, if_pos (.inl (by rw [hzero]; rfl))]
      exact ⟨s, rfl, .refl s⟩
    by_cases hprice : leaf.offer.minPrice ≤ maxPrice
    · obtain ⟨hkey, hpos, i, howner⟩ := hentries _ List.mem_cons_self
      obtain ⟨s₁, htrade, hfills, hfinal₁⟩ := trade_spec hroom hfinal hkey hpos howner
      have hsome : s.remainingSell.toNat ≠ 0 := fun h => hzero (UInt64.toNat_inj.mp h)
      have hwithin : ¬ maxPrice.toNat < leaf.offer.minPrice.toNat :=
        Nat.not_lt.mpr (UInt64.le_iff_toNat_le.mp hprice)
      rw [if_neg hzero, if_pos hprice, htrade, if_neg (by tauto)]
      have hleft : s₁.remainingSell.toNat =
          s.remainingSell.toNat - (tradeWith leaf.offer s.remainingSell.toNat).paid := by
        have hremaining := hfills.remaining
        simp only [totalPaid, List.map_cons, List.map_nil, List.sum_singleton] at hremaining
        omega
      by_cases hdone : s₁.remainingSell = 0
      · -- the offer may have kept something, and the loop stops
        refine ⟨s₁, ?_, ?_⟩
        · cases rest with
          | nil => rfl
          | cons e rest => exact if_pos hdone
        · have hnone : s.remainingSell.toNat -
              (tradeWith leaf.offer s.remainingSell.toNat).paid = 0 := by
            rw [← hleft, hdone]
            rfl
          simp only [hnone, tradesWith_zero]
          exact hfills
      · obtain ⟨s', hloop, hrest⟩ := ih (hroom.fills hfills) (hfinal₁ hdone) fun e he => by
          rw [hfills.db]
          exact hentries e (List.mem_cons_of_mem _ he)
        refine ⟨s', hloop, ?_⟩
        rw [hleft] at hrest
        exact hfills.trans hrest
    · have hbeyond : maxPrice.toNat < leaf.offer.minPrice.toNat := by
        rw [UInt64.le_iff_toNat_le] at hprice
        omega
      rw [if_neg hzero, if_neg hprice, if_pos (.inr hbeyond)]
      exact ⟨s, rfl, .refl s⟩

end Execution

/-! ### The trie after the trades -/

section Books

variable {ob : OrderbookTrie} {trades : List Trade}

theorem find?_settle_ne {t : Trade} {key : OfferKey} (h : t.offer.key ≠ key) :
    (settle ob t).find? key = ob.find? key := by
  rw [settle]
  split
  · exact SortedMap.find?_erase_ne h ob
  · exact SortedMap.find?_insert_ne h ob _

/-- A leaf after the trades is one that did not trade, or what a trade left of one. -/
theorem find?_settled {key : OfferKey} {leaf : OfferLeaf}
    (h : (trades.foldl settle ob).find? key = some leaf) :
    (ob.find? key = some leaf ∧ ∀ t ∈ trades, t.offer.key ≠ key) ∨
      ∃ t ∈ trades, t.offer.key = key ∧ t.given ≠ t.offer.amount.toNat ∧
        leaf = ⟨{ t.offer with amount := t.offer.amount - .ofNat t.given }, false, false⟩ := by
  induction trades generalizing ob with
  | nil => exact .inl ⟨h, nofun⟩
  | cons t trades ih =>
    rcases ih h with ⟨hfind, hlater⟩ | ⟨t', ht', hleft⟩
    · by_cases hkey : t.offer.key = key
      · rw [settle] at hfind
        split at hfind
        · rw [hkey, SortedMap.find?_erase_self] at hfind
          cases hfind
        · rename_i hpartial
          rw [OrderbookTrie.insertOffer, hkey, SortedMap.find?_insert_self] at hfind
          cases hfind
          exact .inr ⟨t, List.mem_cons_self, hkey, hpartial, rfl⟩
      · rw [find?_settle_ne hkey] at hfind
        refine .inl ⟨hfind, fun t' ht' => ?_⟩
        rcases List.mem_cons.mp ht' with rfl | ht'
        · exact hkey
        · exact hlater t' ht'
    · exact .inr ⟨t', List.mem_cons_of_mem _ ht', hleft⟩

theorem totalEndow_insertOffer (ob : OrderbookTrie) (key : OfferKey) (offer : Offer) :
    (ob.insertOffer key offer).totalEndow =
      offer.amount.toNat + OrderbookTrie.totalEndow (ob.erase key) := by
  have hinsert : ob.insertOffer key offer = (SortedMap.erase ob key).insert key ⟨offer, false, false⟩ := by
    refine SortedMap.ext_find fun k => ?_
    rw [OrderbookTrie.insertOffer, SortedMap.find?_insert, SortedMap.find?_insert,
      SortedMap.find?_erase]
    split <;> rfl
  rw [OrderbookTrie.totalEndow, hinsert, SortedMap.sum_insert_erase]
  rfl

theorem totalEndow_settle {t : Trade} (hfind : ob.offers.find? t.offer.key = some t.offer)
    (hfair : t.Fair) : (settle ob t).totalEndow + t.given = ob.totalEndow := by
  rw [OrderbookTrie.find?_offers, Option.map_eq_some_iff] at hfind
  obtain ⟨leaf, hfind, hoffer⟩ := hfind
  have hle := hfair.amount
  have herase : ob.totalEndow = t.offer.amount.toNat +
      OrderbookTrie.totalEndow (ob.erase t.offer.key) := by
    rw [OrderbookTrie.totalEndow, SortedMap.sum_erase hfind, OfferLeaf.endow, hoffer]
    rfl
  rw [settle]
  split
  · omega
  · have hgiven : (UInt64.ofNat t.given).toNat = t.given :=
      UInt64.toNat_ofNat_of_lt' (lt_of_le_of_lt hle t.offer.amount.toNat_lt)
    have hrest : (t.offer.amount - .ofNat t.given).toNat = t.offer.amount.toNat - t.given := by
      rw [UInt64.toNat_sub_of_le _ _ (UInt64.le_iff_toNat_le.mpr (by omega)), hgiven]
    rw [totalEndow_insertOffer, hrest]
    omega

/-- The trades take from the trie what they give. -/
theorem totalEndow_settled (hfind : ∀ t ∈ trades, ob.offers.find? t.offer.key = some t.offer)
    (hdistinct : (trades.map (·.offer.key)).Nodup) (hfair : ∀ t ∈ trades, t.Fair) :
    OrderbookTrie.totalEndow (trades.foldl settle ob) + totalGiven trades = ob.totalEndow := by
  induction trades generalizing ob with
  | nil => rfl
  | cons t trades ih =>
    rw [List.map_cons, List.nodup_cons] at hdistinct
    have hfirst := totalEndow_settle (hfind t List.mem_cons_self) (hfair t List.mem_cons_self)
    have hrest := @ih (settle ob t) (fun t' ht' => by
      have hne : t.offer.key ≠ t'.offer.key := fun heq =>
        hdistinct.1 (heq ▸ List.mem_map_of_mem ht')
      rw [OrderbookTrie.find?_offers, find?_settle_ne hne, ← OrderbookTrie.find?_offers]
      exact hfind t' (List.mem_cons_of_mem _ ht')) hdistinct.2
      fun t' ht' => hfair t' (List.mem_cons_of_mem _ ht')
    simp only [List.foldl_cons, totalGiven, List.map_cons, List.sum_cons] at hrest ⊢
    omega

end Books

end SerialOrderbook

end Speedex
