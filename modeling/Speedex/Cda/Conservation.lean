import Speedex.Cda.SerialObExperiment

/-! Runs of the serial auction: each offer keeps the totals of both assets and the books
uncrossed. -/

namespace Speedex

open Lib

namespace SerialOrderbook

variable {b : SerialOrderbook} {db : MemoryDatabase} {earlier : List Offer}
  {category : OfferCategory} {offer : Offer}

/-- An offer with a new id has a new key. -/
theorem Holds.find?_fresh (h : b.Holds db earlier category)
    (hfresh : ∀ o ∈ earlier, o.owner = offer.owner → o.offerId ≠ offer.offerId) :
    b.ob.find? offer.key = none := by
  cases hfind : b.ob.find? offer.key with
  | none => rfl
  | some leaf =>
    have hrests := h offer.key leaf hfind
    obtain ⟨howner, hid⟩ := Offer.key_inj hrests.key
    obtain ⟨o, ho, howner', hid'⟩ := hrests.earlier
    exact absurd (hid'.trans hid.symm) (hfresh o ho (howner'.trans howner.symm))

theorem totalEndow_addOffer (hfind : b.ob.find? offer.key = none) :
    (b.addOffer offer).ob.totalEndow = b.ob.totalEndow + offer.amount.toNat := by
  have herase : b.ob.erase offer.key = b.ob := by
    refine SortedMap.ext_find fun key => ?_
    rw [SortedMap.find?_erase]
    split_ifs with hkey
    · rw [← hkey, hfind]
    · rfl
  rw [addOffer, totalEndow_insertOffer, herase, add_comm]

/-- A book with an offer more. -/
theorem Holds.addOffer (h : b.Holds db (offer :: earlier) offer.category)
    (hprice : offer.minPrice.isValidPrice = true) (howner : db.HasAccount offer.owner)
    (amount : UInt64) :
    (b.addOffer { offer with amount }).Holds db (offer :: earlier) offer.category := by
  intro key leaf hfind
  rw [SerialOrderbook.addOffer, OrderbookTrie.insertOffer, SortedMap.find?_insert] at hfind
  split_ifs at hfind with hkey
  · cases hfind
    exact ⟨hkey.symm, rfl, rfl, hprice, howner, offer, List.mem_cons_self, rfl, rfl⟩
  · exact h key leaf hfind

theorem mem_addOffer {amount : UInt64} {a : Offer}
    (h : a ∈ (b.addOffer { offer with amount }).offers) :
    a ∈ b.offers ∨ a.minPrice = offer.minPrice := by
  obtain ⟨key, leaf, hfind, rfl⟩ := mem_offers.mp h
  rw [SerialOrderbook.addOffer, OrderbookTrie.insertOffer, SortedMap.find?_insert] at hfind
  split_ifs at hfind
  · cases hfind
    exact .inr rfl
  · exact .inl (mem_offers.mpr ⟨key, leaf, hfind, rfl⟩)

theorem sum_credits {n : Nat} {asset : AssetID} {trades : List Trade}
    (h : ∀ t ∈ trades, t.offer.category.buyAsset = asset ∧
      ∃ i, db.lookupUser t.offer.owner = some i ∧ i < n) :
    ∑ i ∈ Finset.range n, credits db trades i asset = totalPaid trades := by
  induction trades with
  | nil => simp [credits, totalPaid]
  | cons t trades ih =>
    obtain ⟨hasset, i, hlookup, hi⟩ := h t List.mem_cons_self
    have hrest := ih fun t' ht' => h t' (List.mem_cons_of_mem _ ht')
    simp only [credits, List.map_cons, List.sum_cons, Finset.sum_add_distrib, totalPaid] at hrest ⊢
    rw [hrest]
    simp only [hasset, hlookup, and_true, Option.some.injEq]
    rw [Finset.sum_ite_eq, if_pos (Finset.mem_range.mpr hi)]

end SerialOrderbook

namespace SerialOrderbookExperiment

open SerialOrderbook

/-- The balances of an asset and what rests of it. -/
def total (e : SerialOrderbookExperiment) (asset : AssetID) : Int :=
  e.db.balances asset + (e.aToB.resting asset + e.bToA.resting asset : Nat)

/-- What accounts and resting offers hold of an asset. -/
def supply (e : SerialOrderbookExperiment) (asset : AssetID) : Nat :=
  e.db.holdings asset + (e.aToB.resting asset + e.bToA.resting asset)

/-- No two resting offers of opposite categories could trade. -/
def Uncrossed (e : SerialOrderbookExperiment) : Prop :=
  ∀ a ∈ e.bToA.offers, ∀ b ∈ e.aToB.offers, 2 ^ 48 < a.minPrice.toNat * b.minPrice.toNat

/-- Each book holds earlier offers of its category. -/
def Filed (e : SerialOrderbookExperiment) (earlier : List Offer) : Prop :=
  ∀ category, Traded category → (e.own category).Holds e.db earlier category

/-- What holds between two calls. -/
structure Sound (e : SerialOrderbookExperiment) (earlier : List Offer) : Prop where
  filed : e.Filed earlier
  uncrossed : e.Uncrossed
  supply : ∀ asset, asset = 0 ∨ asset = 1 → e.supply asset < 2 ^ 63

variable {e e' : SerialOrderbookExperiment} {earlier : List Offer} {offer : Offer} {user : Nat}
  {category : OfferCategory} {db : MemoryDatabase}

theorem resting_sides (htraded : Traded category) (asset : AssetID) :
    e.aToB.resting asset + e.bToA.resting asset =
      (e.opposite category).resting asset + (e.own category).resting asset := by
  rcases htraded with rfl | rfl
  · rfl
  · exact add_comm ..

theorem uncrossed_iff (htraded : Traded category) : e.Uncrossed ↔
    ∀ a ∈ (e.own category).offers, ∀ b ∈ (e.opposite category).offers,
      2 ^ 48 < a.minPrice.toNat * b.minPrice.toNat := by
  rcases htraded with rfl | rfl
  · rfl
  · refine ⟨fun h a ha b hb => ?_, fun h a ha b hb => ?_⟩
    · rw [Nat.mul_comm]
      exact h b hb a ha
    · rw [Nat.mul_comm]
      exact h b hb a ha

theorem Traded.asset_iff (htraded : Traded category) (asset : AssetID) :
    (asset = 0 ∨ asset = 1) ↔ (asset = category.sellAsset ∨ asset = category.buyAsset) := by
  rcases htraded with rfl | rfl
  · rfl
  · exact or_comm

theorem Filed.opposite (h : e.Filed earlier) (htraded : Traded category) :
    (e.opposite category).Holds e.db earlier (reverse category) := by
  rw [← htraded.own_reverse]
  exact h _ htraded.reverse

theorem sound_new (hsupply : ∀ asset, asset = 0 ∨ asset = 1 → db.holdings asset < 2 ^ 63) :
    (new db).Sound [] := by
  refine ⟨fun category htraded key leaf hfind => ?_, fun a ha => ?_, fun asset hasset => ?_⟩
  · rcases htraded with rfl | rfl
    · cases hfind
    · cases hfind
  · cases ha
  · exact hsupply asset hasset

theorem Filed.resting_sell (h : e.Filed earlier) (htraded : Traded category) :
    e.aToB.resting category.sellAsset + e.bToA.resting category.sellAsset =
      (e.own category).ob.totalEndow := by
  rw [resting_sides htraded, resting_of_holds (h.opposite htraded), resting_of_holds (h _ htraded),
    reverse, if_neg htraded.sell_ne_buy.symm, if_pos rfl, zero_add]

theorem Filed.resting_buy (h : e.Filed earlier) (htraded : Traded category) :
    e.aToB.resting category.buyAsset + e.bToA.resting category.buyAsset =
      (e.opposite category).ob.totalEndow := by
  rw [resting_sides htraded, resting_of_holds (h.opposite htraded), resting_of_holds (h _ htraded),
    if_neg htraded.sell_ne_buy, reverse, if_pos rfl, add_zero]

/-! ### A placed offer -/

theorem totalEndow_withRest {own : SerialOrderbook} {trades : List Trade}
    (hfind : own.ob.find? offer.key = none) (hle : totalPaid trades ≤ offer.amount.toNat) :
    (withRest own offer trades).ob.totalEndow + totalPaid trades =
      own.ob.totalEndow + offer.amount.toNat := by
  rw [withRest]
  split_ifs with hrest
  · have hpaid : (UInt64.ofNat (totalPaid trades)).toNat = totalPaid trades :=
      UInt64.toNat_ofNat_of_lt' (lt_of_le_of_lt hle offer.amount.toNat_lt)
    have hkept : (offer.amount - .ofNat (totalPaid trades)).toNat =
        offer.amount.toNat - totalPaid trades := by
      rw [UInt64.toNat_sub_of_le _ _ (UInt64.le_iff_toNat_le.mpr (by omega)), hpaid]
    have hadd := @totalEndow_addOffer own
      { offer with amount := offer.amount - .ofNat (totalPaid trades) } hfind
    rw [hadd, hkept]
    omega
  · omega

theorem Admitted.sum_sell (hadmitted : e.Admitted offer user) (hfiled : e.Filed earlier) :
    ∑ i ∈ Finset.range e.db.database.length, received e.db user offer.category.buyAsset
      (e.tradesOf offer) i offer.category.sellAsset = totalPaid (e.tradesOf offer) := by
  have hopposite := hfiled.opposite hadmitted.traded
  simp only [received_sell hadmitted.traded]
  apply sum_credits
  intro t ht
  obtain ⟨leaf, -, hoffer, hrests⟩ := hopposite.mem ((hopposite.tradesIn _ _).mem t ht)
  rw [← hoffer, hrests.category]
  exact ⟨rfl, hrests.owner⟩

theorem Admitted.sum_buy (hadmitted : e.Admitted offer user) (hfiled : e.Filed earlier) :
    ∑ i ∈ Finset.range e.db.database.length, received e.db user offer.category.buyAsset
      (e.tradesOf offer) i offer.category.buyAsset = totalGiven (e.tradesOf offer) := by
  simp only [received_buy hadmitted.traded (hfiled.opposite hadmitted.traded)]
  rw [Finset.sum_ite_eq, if_pos (Finset.mem_range.mpr hadmitted.inside)]

section Placed

variable (h : e.Placed user offer e') (hadmitted : e.Admitted offer user)

include h hadmitted

theorem Placed.filed (hfiled : e.Filed earlier) : e'.Filed (offer :: earlier) := by
  have htraded := hadmitted.traded
  have howner : e.db.HasAccount offer.owner := ⟨user, hadmitted.lookup, hadmitted.inside⟩
  have hown : (e'.own offer.category).Holds e'.db (offer :: earlier) offer.category := by
    have hbefore := (hfiled _ htraded).sameCommitted h.ids offer
    rw [h.own, withRest]
    split_ifs
    · exact hbefore.addOffer hadmitted.price (howner.sameCommitted h.ids) _
    · exact hbefore
  have hopposite : (e'.opposite offer.category).Holds e'.db (offer :: earlier)
      (reverse offer.category) := by
    have hbefore := hfiled.opposite htraded
    rw [h.opposite]
    exact (hbefore.settled (hbefore.tradesIn _ _)).sameCommitted h.ids offer
  intro category hcategory
  have hor : category = offer.category ∨ category = reverse offer.category := by
    unfold Traded at htraded hcategory
    rcases htraded with hc | hc <;> rcases hcategory with rfl | rfl <;> simp [hc, reverse, aToBCat,
      bToACat]
  rcases hor with rfl | rfl
  · exact hown
  · rw [htraded.own_reverse]
    exact hopposite

variable (hfiled : e.Filed earlier)

include hfiled

/-- The books after the offer, as amounts. -/
theorem Placed.endows
    (hfresh : ∀ o ∈ earlier, o.owner = offer.owner → o.offerId ≠ offer.offerId) :
    (e'.own offer.category).ob.totalEndow + totalPaid (e.tradesOf offer) =
        (e.own offer.category).ob.totalEndow + offer.amount.toNat ∧
      (e'.opposite offer.category).ob.totalEndow + totalGiven (e.tradesOf offer) =
        (e.opposite offer.category).ob.totalEndow := by
  have hopposite := hfiled.opposite hadmitted.traded
  rw [h.own, h.opposite]
  refine ⟨?_, hopposite.totalEndow_settled (hopposite.tradesIn _ _)⟩
  exact totalEndow_withRest ((hfiled _ hadmitted.traded).find?_fresh hfresh) totalPaid_le

/-- What the offer moves between accounts and books stays in total. -/
theorem Placed.total
    (hfresh : ∀ o ∈ earlier, o.owner = offer.owner → o.offerId ≠ offer.offerId)
    {asset : AssetID} (hasset : asset = 0 ∨ asset = 1) :
    e'.total asset = e.total asset ∧ e'.supply asset ≤ e.supply asset := by
  have htraded := hadmitted.traded
  have hfiled' := h.filed hadmitted hfiled
  have hendows := h.endows hadmitted hfiled hfresh
  have hside := (htraded.asset_iff asset).mp hasset
  have hbalances := (h.moves asset hside).balances
  have hholdings := (h.moves asset hside).holdings
  rw [sum_escrowed hadmitted.inside] at hbalances hholdings
  unfold SerialOrderbookExperiment.total SerialOrderbookExperiment.supply
  rcases hside with rfl | rfl
  · rw [hadmitted.sum_sell hfiled, if_pos rfl] at hbalances hholdings
    rw [hfiled.resting_sell htraded, hfiled'.resting_sell htraded]
    omega
  · rw [hadmitted.sum_buy hfiled, if_neg htraded.sell_ne_buy] at hbalances hholdings
    rw [hfiled.resting_buy htraded, hfiled'.resting_buy htraded]
    omega

/-- What is left of an offer asks for more than those of the other book that are left. -/
theorem Placed.uncrossed (huncrossed : e.Uncrossed) : e'.Uncrossed := by
  have htraded := hadmitted.traded
  have hopposite := hfiled.opposite htraded
  rw [uncrossed_iff htraded] at huncrossed ⊢
  rw [h.own, h.opposite]
  intro a ha b hb
  have hbefore : a ∈ (e.own offer.category).offers →
      2 ^ 48 < a.minPrice.toNat * b.minPrice.toNat := by
    intro ha
    obtain ⟨b', hb', hprice⟩ := (hopposite.tradesIn _ _).exists_before hb
    rw [← hprice]
    exact huncrossed a ha b' hb'
  rw [withRest] at ha
  split_ifs at ha with hleft
  · rcases mem_addOffer ha with ha | hprice
    · exact hbefore ha
    · have hlimit := hopposite.price_of_left hleft hb
      have hvalid := (Price.isValidPrice_iff.mp hadmitted.price).1
      rw [hprice, Nat.mul_comm]
      exact (Nat.div_lt_iff_lt_mul hvalid).mp hlimit
  · exact hbefore ha

end Placed

/-! ### Runs -/

/-- An offer that the experiment can be given after earlier ones. -/
structure Accepts (e : SerialOrderbookExperiment) (earlier : List Offer) (offer : Offer) : Prop where
  admitted : ∃ user, e.Admitted offer user
  fresh : ∀ o ∈ earlier, o.owner = offer.owner → o.offerId ≠ offer.offerId

/-- Calls of `exec_one_offer` from empty books, with the amounts of the offers within `int64_t`. -/
inductive Run (db : MemoryDatabase) : List Offer → SerialOrderbookExperiment → Prop where
  | start : Run db [] (new db)
  | exec {earlier : List Offer} {offer : Offer} {e e' : SerialOrderbookExperiment}
      (run : Run db earlier e) (accepts : e.Accepts earlier offer)
      (fits : offer.amount.toNat < 2 ^ 63) (call : e.execOneOffer offer = .ok e') :
      Run db (offer :: earlier) e'

/-- A run is `exec_offers` on its offers. -/
theorem Run.execOffers (h : Run db earlier e) : (new db).execOffers earlier.reverse = .ok e := by
  induction h with
  | start => rfl
  | exec _ _ _ call ih =>
    rw [SerialOrderbookExperiment.execOffers] at ih ⊢
    rw [List.reverse_cons, List.foldlM_append, ih]
    exact foldlM_cons.mpr ⟨_, call, rfl⟩

theorem Declined.total (h : e.Declined user offer e') (asset : AssetID) :
    e'.total asset = e.total asset ∧ e'.supply asset = e.supply asset := by
  unfold SerialOrderbookExperiment.total SerialOrderbookExperiment.supply MemoryDatabase.balances
    MemoryDatabase.holdings
  simp only [h.ids.length, h.balance, h.aToB, h.bToA, and_self]

theorem Declined.filed (h : e.Declined user offer e') (hfiled : e.Filed earlier) :
    e'.Filed (offer :: earlier) := by
  intro category hcategory
  have hown : e'.own category = e.own category := by
    unfold own
    rw [h.aToB, h.bToA]
  rw [hown]
  exact (hfiled category hcategory).sameCommitted h.ids offer

theorem Declined.uncrossed (h : e.Declined user offer e') (huncrossed : e.Uncrossed) : e'.Uncrossed := by
  intro a ha b hb
  rw [h.bToA] at ha
  rw [h.aToB] at hb
  exact huncrossed a ha b hb

/-- One call between sound states. -/
theorem Sound.exec (h : e.Sound earlier) (haccepts : e.Accepts earlier offer)
    (hfits : offer.amount.toNat < 2 ^ 63) :
    ∃ e', e.execOneOffer offer = .ok e' ∧ e'.Sound (offer :: earlier) ∧
      (∀ asset, asset = 0 ∨ asset = 1 → e'.total asset = e.total asset) ∧
      ∃ user, e.db.lookupUser offer.owner = some user ∧
        (e.Declined user offer e' ∨ e.Placed user offer e') := by
  obtain ⟨⟨user, hadmitted⟩, hfresh⟩ := haccepts
  have htraded := hadmitted.traded
  have hsell := h.supply _ ((htraded.asset_iff _).mpr (.inl rfl))
  have hbuy := h.supply _ ((htraded.asset_iff _).mpr (.inr rfl))
  unfold SerialOrderbookExperiment.supply at hsell hbuy
  rw [h.filed.resting_buy htraded] at hbuy
  obtain ⟨e', he', hdeclined | hplaced⟩ := execOneOffer_spec hadmitted hfits
    (h.filed.opposite htraded) (by omega) hbuy
  · refine ⟨e', he', ⟨hdeclined.filed h.filed, hdeclined.uncrossed h.uncrossed, ?_⟩,
      fun asset _ => (hdeclined.total asset).1, user, hadmitted.lookup, .inl hdeclined⟩
    intro asset hasset
    rw [(hdeclined.total asset).2]
    exact h.supply asset hasset
  · have htotal := fun asset (hasset : asset = 0 ∨ asset = 1) =>
      hplaced.total hadmitted h.filed hfresh hasset
    refine ⟨e', he', ⟨hplaced.filed hadmitted h.filed,
      hplaced.uncrossed hadmitted h.filed h.uncrossed, ?_⟩,
      fun asset hasset => (htotal asset hasset).1, user, hadmitted.lookup, .inr hplaced⟩
    intro asset hasset
    exact lt_of_le_of_lt (htotal asset hasset).2 (h.supply asset hasset)

theorem total_new (db : MemoryDatabase) (asset : AssetID) : (new db).total asset = db.balances asset :=
  add_zero _

theorem Run.sound (hsupply : ∀ asset, asset = 0 ∨ asset = 1 → db.holdings asset < 2 ^ 63)
    (h : Run db earlier e) : e.Sound earlier ∧
      ∀ asset, asset = 0 ∨ asset = 1 → e.total asset = db.balances asset := by
  induction h with
  | start => exact ⟨sound_new hsupply, fun asset _ => total_new db asset⟩
  | exec _ accepts fits call ih =>
    obtain ⟨hsound, htotal⟩ := ih
    obtain ⟨e', he', hsound', htotal', -⟩ := hsound.exec accepts fits
    cases call.symm.trans he'
    exact ⟨hsound', fun asset hasset => (htotal' asset hasset).trans (htotal asset hasset)⟩

/-- After any run, a call does not throw, keeps the totals of both assets and leaves the books
uncrossed.  It moves what its trades pay and give, each at the limit price of the resting offer or
more. -/
theorem execOneOffer_conserves
    (hsupply : ∀ asset, asset = 0 ∨ asset = 1 → db.holdings asset < 2 ^ 63)
    (hrun : Run db earlier e) (haccepts : e.Accepts earlier offer)
    (hfits : offer.amount.toNat < 2 ^ 63) :
    ∃ e', e.execOneOffer offer = .ok e' ∧
      (∀ asset, asset = 0 ∨ asset = 1 → e'.total asset = db.balances asset) ∧ e'.Uncrossed ∧
      ∃ user, e.db.lookupUser offer.owner = some user ∧ (e.Declined user offer e' ∨
        (e.Placed user offer e' ∧ (e.opposite offer.category).TradesIn (e.tradesOf offer))) := by
  obtain ⟨hsound, htotal⟩ := hrun.sound hsupply
  obtain ⟨e', he', hsound', htotal', user, hlookup, hmoved⟩ := hsound.exec haccepts hfits
  refine ⟨e', he', fun asset hasset => (htotal' asset hasset).trans (htotal asset hasset),
    hsound'.uncrossed, user, hlookup, ?_⟩
  obtain ⟨⟨user', hadmitted⟩, -⟩ := haccepts
  rcases hmoved with hdeclined | hplaced
  · exact .inl hdeclined
  · exact .inr ⟨hplaced, (hsound.filed.opposite hadmitted.traded).tradesIn _ _⟩

/-- Accounts 7 and 9, with 100 units of asset 0 and of asset 1. -/
def pairDb : MemoryDatabase where
  database := [⟨[.ofAmount 100], [], .ofId 0, 7, 0⟩,
    ⟨[.ofAmount 0, .ofAmount 100], [], .ofId 0, 9, 0⟩]
  userIdToIdxMap := SortedMap.insert (SortedMap.insert ∅ 7 0) 9 1
  uncommittedDb := []
  reservedAccountIds := ∅
  commitmentTrie := ∅
  accountCreationThunks := []
  minPersistedRoundNumber := 0

/-- Account 9 sells 10 units of asset 1. -/
def restingOffer : Offer := ⟨bToACat, 256, 9, 10, 2 ^ 24⟩

/-- The experiment in which `restingOffer` rests. -/
def pairResting : SerialOrderbookExperiment :=
  ((new pairDb).execOneOffer restingOffer).toOption.getD (new pairDb)

theorem pairDb_holdings (asset : AssetID) (hasset : asset = 0 ∨ asset = 1) :
    pairDb.holdings asset < 2 ^ 63 := by
  rcases hasset with rfl | rfl
  · decide
  · decide

/-- Account 7 sells 4 units of asset 0 against it. -/
theorem execOneOffer_conserves_pair :
    ∃ e', pairResting.execOneOffer ⟨aToBCat, 256, 7, 4, 2 ^ 24⟩ = .ok e' ∧
      (∀ asset, asset = 0 ∨ asset = 1 → e'.total asset = pairDb.balances asset) ∧ e'.Uncrossed := by
  have hresting : (new pairDb).Accepts [] restingOffer :=
    ⟨⟨1, .inr rfl, by decide, by decide, rfl, by decide, _, _, rfl⟩, by simp⟩
  have hrun : Run pairDb [restingOffer] pairResting :=
    .exec .start hresting (by decide) rfl
  have haccepts : pairResting.Accepts [restingOffer] ⟨aToBCat, 256, 7, 4, 2 ^ 24⟩ :=
    ⟨⟨0, .inl rfl, by decide, by decide, rfl, by decide, _, _, rfl⟩, by decide⟩
  obtain ⟨e', he', htotal, huncrossed, -⟩ :=
    execOneOffer_conserves pairDb_holdings hrun haccepts (by decide)
  exact ⟨e', he', htotal, huncrossed⟩

/-- An amount of `2 ^ 64 - 1` is -1 to the escrow, which gives the account a unit; the offer then
rests with its whole amount. -/
theorem execOneOffer_mints :
    (∀ asset, asset = 0 ∨ asset = 1 → pairDb.holdings asset < 2 ^ 63) ∧
      (new pairDb).Accepts [] ⟨aToBCat, 256, 7, 0xFFFFFFFFFFFFFFFF, 2 ^ 24⟩ ∧
      ∃ e', (new pairDb).execOneOffer ⟨aToBCat, 256, 7, 0xFFFFFFFFFFFFFFFF, 2 ^ 24⟩ = .ok e' ∧
        (new pairDb).total 0 = 100 ∧ e'.total 0 = 100 + 2 ^ 64 := by
  refine ⟨pairDb_holdings, ⟨⟨0, .inl rfl, by decide, by decide, rfl, by decide, _, _, rfl⟩, by simp⟩,
    ((new pairDb).execOneOffer ⟨aToBCat, 256, 7, 0xFFFFFFFFFFFFFFFF, 2 ^ 24⟩).toOption.getD (new pairDb), rfl,
    ?_, ?_⟩
  · decide
  · decide

end SerialOrderbookExperiment

end Speedex
