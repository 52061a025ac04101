import Speedex.Orderbook.PriceOrder

/-! What the supply queries of `orderbook/orderbook.cc` mean: sums over the offers up to a price. -/

namespace Speedex

open Lib

namespace OrderbookTrie

/-- Offers under their keys, with valid limit prices. -/
structure Listed (t : OrderbookTrie) : Prop where
  keyed : ∀ key leaf, t.find? key = some leaf → key = leaf.offer.key
  priced : ∀ key leaf, t.find? key = some leaf → leaf.offer.minPrice.isValidPrice = true

theorem Listed.readPrice {t : OrderbookTrie} (h : t.Listed) {key : OfferKey} {leaf : OfferLeaf}
    (hfind : t.find? key = some leaf) : readPriceBigEndian key = leaf.offer.minPrice.toNat := by
  have hvalid := Price.isValidPrice_iff.mp (h.priced key leaf hfind)
  have howner := leaf.offer.owner.toNat_lt
  have hid := leaf.offer.offerId.toNat_lt
  rw [h.keyed key leaf hfind, readPriceBigEndian_eq, key_toNat]
  omega

/-- The offers with a limit price of at most `p`. -/
def offersUpTo (t : OrderbookTrie) (p : Price) : List Offer :=
  t.accumulateValues.filter fun offer => offer.minPrice ≤ p

/-- Their total amount. -/
def amountUpTo (t : OrderbookTrie) (p : Price) : Nat :=
  ((t.offersUpTo p).map fun offer => offer.amount.toNat).sum

/-- Their total of amount times limit price. -/
def volumeUpTo (t : OrderbookTrie) (p : Price) : Nat :=
  ((t.offersUpTo p).map fun offer => offer.amount.toNat * offer.minPrice.toNat).sum

/-- A sum over the keys up to `p` is one over the offers up to `p`. -/
theorem Listed.sum_upTo {t : OrderbookTrie} (h : t.Listed) (p : Price) (g : Offer → Nat) :
    SortedMap.sum (t.filter fun k _ => decide (readPriceBigEndian k ≤ p.toNat)) (fun leaf => g leaf.offer) =
      ((t.offersUpTo p).map g).sum := by
  have hfilter : (t.filter fun k _ => decide (readPriceBigEndian k ≤ p.toNat)) =
      t.filter fun _ leaf => decide (leaf.offer.minPrice ≤ p) := by
    refine SortedMap.filter_congr fun k leaf hk => ?_
    simp only [h.readPrice hk, UInt64.le_iff_toNat_le]
  rw [hfilter, offersUpTo, Orderbook.accumulateValues_eq, List.filter_map, List.map_map, SortedMap.sum_eq_entries,
    SortedMap.values, List.filter_map, List.map_map]
  rfl

theorem Listed.endowUpTo_eq {t : OrderbookTrie} (h : t.Listed) (p : Price) :
    Orderbook.endowUpTo t p.toNat = t.amountUpTo p :=
  h.sum_upTo p fun offer => offer.amount.toNat

/-- At one price, the total of amount times price is the total amount times the price. -/
theorem Listed.sum_at {t : OrderbookTrie} (h : t.Listed) (q : Nat) :
    SortedMap.sum (t.filter fun k _ => decide (readPriceBigEndian k = q))
      (fun leaf => leaf.offer.amount.toNat * leaf.offer.minPrice.toNat) =
      OrderbookTrie.totalEndow (t.filter fun k _ => decide (readPriceBigEndian k = q)) * q := by
  rw [totalEndow, SortedMap.sum_eq_entries, SortedMap.sum_eq_entries, ← List.sum_map_mul_right]
  refine congrArg List.sum (List.map_congr_left fun a ha => ?_)
  have hfind := SortedMap.mem_entries.mp ha
  rw [SortedMap.find?_filter, Option.filter_eq_some_iff, decide_eq_true_eq] at hfind
  rw [← h.readPrice hfind.1, hfind.2]
  rfl

end OrderbookTrie

namespace Orderbook

open OrderbookTrie

/-! ### The totals of the index -/

/-- While the totals of the single prices fit, so do the totals times price. -/
theorem totalAt_endowTimesPrice (t : OrderbookTrie) (acc : EndowAccumulator) {l : List Nat}
    (hfits : ∀ q ∈ l, OrderbookTrie.totalEndow
      (t.filter fun k _ => decide (readPriceBigEndian k = q)) < 2 ^ 63) :
    (totalAt t acc l).endowTimesPrice = acc.endowTimesPrice + .ofNat 128 (l.map fun q =>
      OrderbookTrie.totalEndow (t.filter fun k _ => decide (readPriceBigEndian k = q)) * q).sum := by
  induction l generalizing acc with
  | nil => simp [totalAt]
  | cons q l ih =>
    refine (ih _ fun q' hq' => hfits q' (List.mem_cons_of_mem q hq')).trans ?_
    have hq := hfits q List.mem_cons_self
    have hhere : (endowAtPrice t q).endowTimesPrice = .ofNat 128 (OrderbookTrie.totalEndow
        (t.filter fun k _ => decide (readPriceBigEndian k = q)) * q) := by
      show BitVec.ofInt 128 ((Int64.ofNat _).toInt * (q : Int)) = _
      rw [Int64.toInt_ofNat_of_lt hq, ← Int.natCast_mul, BitVec.ofInt_natCast]
    rw [List.map_cons, List.sum_cons, BitVec.ofNat_add, ← BitVec.add_assoc, ← hhere]

/-- The limit prices are below `2^48`. -/
theorem volumeUpTo_le {t : OrderbookTrie} (h : t.Listed) (p : Price) :
    t.volumeUpTo p ≤ t.amountUpTo p * 2 ^ 48 := by
  rw [amountUpTo, volumeUpTo, ← List.sum_map_mul_right]
  refine List.sum_le_sum fun offer hoffer => Nat.mul_le_mul_left _ ?_
  obtain ⟨key, leaf, hfind, rfl⟩ := mem_accumulateValues (List.mem_of_mem_filter hoffer)
  have hvalid := Price.isValidPrice_iff.mp (h.priced key leaf hfind)
  omega

/-- While the amounts up to `p` fit, `get_metadata` returns both totals. -/
theorem getMetadata_upTo (ob : Orderbook) (hlisted : ob.committedOffers.Listed)
    (hindex : ob.indexedMetadata = metadataTraversal ob.committedOffers) {p : Price}
    (hfits : ob.committedOffers.amountUpTo p < 2 ^ 63) :
    ob.getMetadata p = .ok ⟨.ofNat (ob.committedOffers.amountUpTo p),
      .ofNat 128 (ob.committedOffers.volumeUpTo p)⟩ := by
  obtain ⟨j, hlast, hget⟩ := getMetadata_eq ob hindex p
  have hendow := getMetadata_endow hindex hget
  rw [hlisted.endowUpTo_eq] at hendow
  have hclass : ∀ q ∈ (pricesOf ob.committedOffers).take j, OrderbookTrie.totalEndow
      (ob.committedOffers.filter fun k _ => decide (readPriceBigEndian k = q)) < 2 ^ 63 := by
    intro q hq
    refine lt_of_le_of_lt ?_ hfits
    rw [← hlisted.endowUpTo_eq, endowUpTo, totalEndow, totalEndow]
    refine SortedMap.sum_filter_mono fun k _ hk => ?_
    rw [decide_eq_true_eq] at hk ⊢
    rw [hk]
    exact (mem_take_of_last hlast (List.mem_of_mem_take hq)).mp hq
  have hvolume := totalAt_endowTimesPrice ob.committedOffers ⟨0, 0⟩ hclass
  rw [List.map_congr_left fun q _ => (hlisted.sum_at q).symm, sum_of_last hlast,
    hlisted.sum_upTo p fun offer => offer.amount.toNat * offer.minPrice.toNat] at hvolume
  rw [hget, ← hendow]
  refine congrArg (fun v => Except.ok (EndowAccumulator.mk _ v)) ?_
  exact hvolume.trans (BitVec.zero_add _)

/-- `get_metadata` always returns, and it returns the sums exactly when the amounts up to the price
are within an `int64_t`. -/
theorem getMetadata_exact_iff (ob : Orderbook) (hlisted : ob.committedOffers.Listed) (p : Price) :
    ∃ m, ob.generateMetadataIndex.getMetadata p = .ok m ∧
      (m.endow.toInt = ob.committedOffers.amountUpTo p ∧
        m.endowTimesPrice.toInt = ob.committedOffers.volumeUpTo p ↔
          ob.committedOffers.amountUpTo p ≤ 2 ^ 63 - 1) := by
  obtain ⟨j, -, hget⟩ := getMetadata_eq ob.generateMetadataIndex rfl p
  refine ⟨_, hget, fun hexact => ?_, fun hle => ?_⟩
  · have hlt := Int64.toInt_lt (totalAt ob.generateMetadataIndex.committedOffers ⟨0, 0⟩
      ((pricesOf ob.generateMetadataIndex.committedOffers).take j)).endow
    rw [hexact.1] at hlt
    omega
  · have hfits : ob.committedOffers.amountUpTo p < 2 ^ 63 := by omega
    rw [getMetadata_upTo ob.generateMetadataIndex hlisted rfl hfits] at hget
    have hvolume := volumeUpTo_le hlisted p
    rw [← Except.ok.inj hget]
    refine ⟨Int64.toInt_ofNat_of_lt hfits, ?_⟩
    show (BitVec.ofNat 128 (ob.committedOffers.volumeUpTo p)).toInt = _
    rw [BitVec.toInt_eq_toNat_of_lt, BitVec.toNat_ofNat, Nat.mod_eq_of_lt]
    · omega
    · rw [BitVec.toNat_ofNat, Nat.mod_eq_of_lt] <;> omega

/-- A book of offers of account 7 with the given amounts and limit prices. -/
def listing (offers : List (UInt64 × Price)) : Orderbook where
  category := ⟨0, 1, .SELL⟩
  committedOffers := offers.zipIdx.foldl (fun t a =>
    let offer : Offer := ⟨⟨0, 1, .SELL⟩, .ofNat a.2, 7, a.1.1, a.1.2⟩
    t.insertOffer offer.key offer) ∅
  uncommittedOffers := ∅
  lmdb := ⟨[], ∅, 0⟩
  indexedMetadata := []

/-- The offers of a book, checked one by one. -/
theorem listed_of_entries {t : OrderbookTrie} (h : (t.entries.all fun a =>
    a.1 = a.2.offer.key && a.2.offer.minPrice.isValidPrice) = true) : t.Listed := by
  simp only [List.all_eq_true, Bool.and_eq_true, decide_eq_true_eq] at h
  exact ⟨fun key leaf hfind => (h (key, leaf) (SortedMap.mem_entries.mpr hfind)).1,
    fun key leaf hfind => (h (key, leaf) (SortedMap.mem_entries.mpr hfind)).2⟩

/-- At price 500, one of two offers counts. -/
theorem getMetadata_exact_listing :
    ∃ m, (listing [(100, 500), (200, 5000)]).generateMetadataIndex.getMetadata 500 = .ok m ∧
      m.endow.toInt = 100 ∧ m.endowTimesPrice.toInt = 50000 := by
  obtain ⟨m, hget, hexact⟩ := getMetadata_exact_iff (listing [(100, 500), (200, 5000)])
    (listed_of_entries (by decide +kernel)) 500
  have hamount : (listing [(100, 500), (200, 5000)]).committedOffers.amountUpTo 500 = 100 := by
    decide +kernel
  have hvolume : (listing [(100, 500), (200, 5000)]).committedOffers.volumeUpTo 500 = 50000 := by
    decide +kernel
  rw [hamount, hvolume] at hexact
  exact ⟨m, hget, hexact.mpr (by decide)⟩

/-- Two offers of `2^62` units: the total comes out negative. -/
theorem getMetadata_wraps :
    (listing [(2 ^ 62, 500), (2 ^ 62, 500)]).committedOffers.Listed ∧
      (listing [(2 ^ 62, 500), (2 ^ 62, 500)]).committedOffers.amountUpTo 500 = 2 ^ 63 ∧
      ∃ m, (listing [(2 ^ 62, 500), (2 ^ 62, 500)]).generateMetadataIndex.getMetadata 500 = .ok m ∧
        m.endow.toInt = -2 ^ 63 ∧ m.endowTimesPrice.toInt = -2 ^ 63 * 500 := by
  refine ⟨listed_of_entries (by decide +kernel), by decide +kernel, ?_⟩
  obtain ⟨m, hget, hm⟩ := returns_iff.mp (show returns
    ((listing [(2 ^ 62, 500), (2 ^ 62, 500)]).generateMetadataIndex.getMetadata 500)
      (fun m => m.endow.toInt = -2 ^ 63 && m.endowTimesPrice.toInt = -2 ^ 63 * 500) = true
      by decide +kernel)
  simp only [Bool.and_eq_true, decide_eq_true_eq] at hm
  exact ⟨m, hget, hm⟩

/-! ### The execution prices -/

/-- The upper price separates the limit prices that accept the exchange rate from the others. -/
structure ExactPrices (sellPrice buyPrice lower upper : Price) : Prop where
  accepted : ∀ minPrice : Price, minPrice.isValidPrice = true →
    (minPrice ≤ upper ↔ minPrice.toNat * buyPrice.toNat ≤ sellPrice.toNat * 2 ^ 24)
  cleared : ∀ minPrice : Price, minPrice.isValidPrice = true →
    (minPrice ≤ upper ↔ Price.aOverBLtC sellPrice buyPrice minPrice = false)
  lower_le : lower ≤ upper

/-- The amount of the offers that `CompleteClearingFunc` accepts. -/
def acceptedAmount (t : OrderbookTrie) (sellPrice buyPrice : Price) : Nat :=
  ((t.accumulateValues.filter fun offer => !Price.aOverBLtC sellPrice buyPrice offer.minPrice).map
    fun offer => offer.amount.toNat).sum

/-- The upper bound on the supply counts the offers that are accepted. -/
structure ExactSupply (t : OrderbookTrie) (sellPrice buyPrice : Price) (lower upper : UInt64) :
    Prop where
  upper_eq : upper.toNat = acceptedAmount t sellPrice buyPrice
  lower_le : lower ≤ upper

section Prices

variable {sellPrice buyPrice lower upper : Price} {smoothMult : UInt8}

/-- The exchange rate fits 64 bits, or what is left of it is not less than any valid price. -/
def RateFits (sellPrice buyPrice : Price) : Prop :=
  sellPrice.toNat < 2 ^ 40 * buyPrice.toNat ∨
    2 ^ 48 - 1 ≤ sellPrice.toNat * 2 ^ 24 / buyPrice.toNat % 2 ^ 64

theorem rate_lt_iff (hbuy : buyPrice ≠ 0) :
    sellPrice.toNat * 2 ^ 24 / buyPrice.toNat < 2 ^ 64 ↔ sellPrice.toNat < 2 ^ 40 * buyPrice.toNat := by
  have hpos : 0 < buyPrice.toNat := Nat.pos_of_ne_zero fun h => hbuy (UInt64.toNat_inj.mp h)
  rw [Nat.div_lt_iff_lt_mul hpos]
  omega

/-- The upper price is exact if and only if the rate fits. -/
theorem exactPrices_iff (hbuy : buyPrice ≠ 0)
    (hupper : upper.toNat = sellPrice.toNat * 2 ^ 24 / buyPrice.toNat % 2 ^ 64)
    (hlower : lower.toNat ≤ upper.toNat) :
    ExactPrices sellPrice buyPrice lower upper ↔ RateFits sellPrice buyPrice := by
  have hpos : 0 < buyPrice.toNat := Nat.pos_of_ne_zero fun h => hbuy (UInt64.toNat_inj.mp h)
  have hrate : ∀ minPrice : Nat, minPrice * buyPrice.toNat ≤ sellPrice.toNat * 2 ^ 24 ↔
      minPrice ≤ sellPrice.toNat * 2 ^ 24 / buyPrice.toNat :=
    fun minPrice => (Nat.le_div_iff_mul_le hpos).symm
  rw [RateFits, ← rate_lt_iff hbuy]
  constructor
  · intro h
    by_contra hfits
    rw [not_or, not_lt, not_le] at hfits
    -- the price above the upper one is accepted and not counted
    have hlt : upper.toNat + 1 < 2 ^ 48 := by omega
    have hnext : (upper + 1).toNat = upper.toNat + 1 := by
      rw [UInt64.toNat_add, UInt64.toNat_one, Nat.mod_eq_of_lt (by omega)]
    have hiff := h.accepted (upper + 1) (Price.isValidPrice_iff.mpr (by rw [hnext]; omega))
    rw [hrate, hnext, UInt64.le_iff_toNat_le, hnext] at hiff
    omega
  · intro h
    have hle : ∀ minPrice : Price, minPrice.isValidPrice = true →
        (minPrice ≤ upper ↔ minPrice.toNat * buyPrice.toNat ≤ sellPrice.toNat * 2 ^ 24) := by
      intro minPrice hvalid
      have hprice := Price.isValidPrice_iff.mp hvalid
      rw [hrate, UInt64.le_iff_toNat_le, hupper]
      generalize sellPrice.toNat * 2 ^ 24 / buyPrice.toNat = rate at h
      omega
    refine ⟨hle, fun minPrice hvalid => ?_, UInt64.le_iff_toNat_le.mpr hlower⟩
    rw [hle minPrice hvalid, Price.aOverBLtC, decide_eq_false_iff_not, Nat.not_lt, Nat.shiftLeft_eq,
      Nat.mul_comm buyPrice.toNat]
    rfl

end Prices

/-- With an exact upper price, the offers up to it are those that are accepted. -/
theorem ExactPrices.amountUpTo_eq {t : OrderbookTrie} {sellPrice buyPrice lower upper : Price}
    (h : ExactPrices sellPrice buyPrice lower upper) (hlisted : t.Listed) :
    t.amountUpTo upper = acceptedAmount t sellPrice buyPrice := by
  rw [amountUpTo, offersUpTo, acceptedAmount]
  refine congrArg (fun l : List Offer => (l.map fun offer => offer.amount.toNat).sum) ?_
  refine List.filter_congr fun offer hoffer => ?_
  obtain ⟨key, leaf, hfind, rfl⟩ := mem_accumulateValues hoffer
  have hiff := h.cleared leaf.offer.minPrice (hlisted.priced key leaf hfind)
  by_cases hle : leaf.offer.minPrice ≤ upper
  · rw [decide_eq_true hle, hiff.mp hle]
    rfl
  · rw [decide_eq_false hle, Bool.eq_true_of_not_eq_false (mt hiff.mpr hle)]
    rfl

theorem amountUpTo_mono (t : OrderbookTrie) {p p' : Price} (h : p ≤ p') :
    t.amountUpTo p ≤ t.amountUpTo p' := by
  refine List.Sublist.sum_le_sum (List.Sublist.map _ ?_) fun _ _ => Nat.zero_le _
  refine List.monotone_filter_right _ fun offer hoffer => ?_
  rw [decide_eq_true_eq] at hoffer ⊢
  exact hoffer.trans h

/-- The bounds are the amounts up to the two execution prices, in 64 bits. -/
theorem getSupplyBounds_upTo {ob : Orderbook} {prices : List Price} {smoothMult : UInt8}
    {sellPrice buyPrice lowerPrice upperPrice : Price} (hlisted : ob.committedOffers.Listed)
    (hsell : vectorAt prices ob.category.sellAsset.toNat = .ok sellPrice)
    (hbuy : vectorAt prices ob.category.buyAsset.toNat = .ok buyPrice)
    (hprices : getExecutionPrices sellPrice buyPrice smoothMult = .ok (lowerPrice, upperPrice)) :
    ∃ lower upper : UInt64,
      ob.generateMetadataIndex.getSupplyBounds prices smoothMult = .ok (lower, upper) ∧
      lower.toNat = ob.committedOffers.amountUpTo lowerPrice % 2 ^ 64 ∧
      upper.toNat = ob.committedOffers.amountUpTo upperPrice % 2 ^ 64 := by
  have hendow : ∀ p, ∃ m, ob.generateMetadataIndex.getMetadata p = .ok m ∧
      m.endow.toUInt64.toNat = ob.committedOffers.amountUpTo p % 2 ^ 64 := by
    intro p
    obtain ⟨j, -, hget⟩ := getMetadata_eq ob.generateMetadataIndex rfl p
    refine ⟨_, hget, ?_⟩
    rw [getMetadata_endow rfl hget]
    show (BitVec.ofNat 64 (endowUpTo ob.committedOffers p.toNat)).toNat = _
    rw [BitVec.toNat_ofNat, hlisted.endowUpTo_eq]
  obtain ⟨lowerMetadata, hlower, hlower'⟩ := hendow lowerPrice
  obtain ⟨upperMetadata, hupper, hupper'⟩ := hendow upperPrice
  refine ⟨_, _, ?_, hlower', hupper'⟩
  refine bind_eq_ok.mpr ⟨sellPrice, hsell, bind_eq_ok.mpr ⟨buyPrice, hbuy, ?_⟩⟩
  rw [hprices, ok_bind]
  dsimp only
  rw [hupper, hlower]
  rfl

/-- At valid prices, the execution prices and the supply bounds are exact if and only if the rate
fits and the accepted amounts are within 64 bits. -/
theorem supplyBounds_exact_iff (ob : Orderbook) (hlisted : ob.committedOffers.Listed)
    (prices : List Price) (smoothMult : UInt8) (hprices : ∀ p ∈ prices, p.isValidPrice = true)
    (hsellAsset : ob.category.sellAsset.toNat < prices.length)
    (hbuyAsset : ob.category.buyAsset.toNat < prices.length) (hsmooth : smoothMult.toNat ≤ 63) :
    let sellPrice := prices[ob.category.sellAsset.toNat]
    let buyPrice := prices[ob.category.buyAsset.toNat]
    (∃ lowerPrice upperPrice lower upper,
      getExecutionPrices sellPrice buyPrice smoothMult = .ok (lowerPrice, upperPrice) ∧
      ob.generateMetadataIndex.getSupplyBounds prices smoothMult = .ok (lower, upper) ∧
      ExactPrices sellPrice buyPrice lowerPrice upperPrice ∧
      ExactSupply ob.committedOffers sellPrice buyPrice lower upper) ↔
    RateFits sellPrice buyPrice ∧
      acceptedAmount ob.committedOffers sellPrice buyPrice < 2 ^ 64 := by
  intro sellPrice buyPrice
  have hbuy : buyPrice ≠ 0 := by
    have hvalid := Price.isValidPrice_iff.mp (hprices _ (List.getElem_mem hbuyAsset))
    intro hzero
    rw [show prices[ob.category.buyAsset.toNat] = 0 from hzero] at hvalid
    exact absurd hvalid.1 (by decide)
  obtain ⟨lowerPrice, upperPrice, hexec, hupperPrice, hlowerPrice⟩ :=
    getExecutionPrices_spec sellPrice hbuy (Nat.lt_succ_of_le hsmooth)
  obtain ⟨lower, upper, hbounds, hlower, hupper⟩ := getSupplyBounds_upTo hlisted
    (vectorAt_eq_ok.mpr (List.getElem?_eq_getElem hsellAsset))
    (vectorAt_eq_ok.mpr (List.getElem?_eq_getElem hbuyAsset)) hexec
  have hiff := exactPrices_iff hbuy hupperPrice (hlowerPrice.trans_le (Nat.sub_le _ _))
  constructor
  · rintro ⟨lowerPrice', upperPrice', lower', upper', hexec', hbounds', hexact, hsupply⟩
    cases hexec.symm.trans hexec'
    cases hbounds.symm.trans hbounds'
    refine ⟨hiff.mp hexact, ?_⟩
    rw [← hsupply.upper_eq]
    exact upper.toNat_lt
  · rintro ⟨hrate, hfits⟩
    have hexact := hiff.mpr hrate
    refine ⟨lowerPrice, upperPrice, lower, upper, hexec, hbounds, hexact, ?_, ?_⟩
    · rw [hupper, hexact.amountUpTo_eq hlisted, Nat.mod_eq_of_lt hfits]
    · have hmono := amountUpTo_mono ob.committedOffers hexact.lower_le
      rw [← hexact.amountUpTo_eq hlisted] at hfits
      rw [UInt64.le_iff_toNat_le, hlower, hupper, Nat.mod_eq_of_lt hfits,
        Nat.mod_eq_of_lt (lt_of_le_of_lt hmono hfits)]
      exact hmono

/-- At rate one half, the offers with a limit price of at most one half are accepted. -/
theorem supplyBounds_exact_listing :
    ∃ lowerPrice upperPrice lower upper,
      getExecutionPrices 1 2 10 = .ok (lowerPrice, upperPrice) ∧
      (listing [(100, 500), (200, 8388608), (300, 8388609)]).generateMetadataIndex.getSupplyBounds
        [1, 2] 10 = .ok (lower, upper) ∧
      ExactPrices 1 2 lowerPrice upperPrice ∧ ExactSupply (listing [(100, 500), (200, 8388608),
        (300, 8388609)]).committedOffers 1 2 lower upper := by
  exact (supplyBounds_exact_iff (listing [(100, 500), (200, 8388608), (300, 8388609)])
    (listed_of_entries (by decide +kernel)) [1, 2] 10 (by simp [Price.isValidPrice_iff])
    (by decide +kernel) (by decide +kernel) (by decide)).mpr
      ⟨.inl (by decide), by decide +kernel⟩

/-- At rate `2^40` the upper price is zero, and the bound leaves out every offer. -/
theorem supplyBounds_leave_out :
    getExecutionPrices 1099511627776 1 10 = .ok (0, 0) ∧
      Price.aOverBLtC 1099511627776 1 500 = false ∧
      (listing [(100, 500)]).committedOffers.Listed ∧
      (listing [(100, 500)]).generateMetadataIndex.getSupplyBounds [1099511627776, 1] 10 =
        .ok (0, 0) ∧
      acceptedAmount (listing [(100, 500)]).committedOffers 1099511627776 1 = 100 :=
  ⟨by decide +kernel, by decide +kernel, listed_of_entries (by decide +kernel), by decide +kernel,
    by decide +kernel⟩

end Orderbook

end Speedex
