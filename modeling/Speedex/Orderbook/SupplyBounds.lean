import Speedex.Orderbook.Conservation

/-! The supply that an orderbook can sell at given prices (`get_metadata`, `get_execution_prices` and
`get_supply_bounds` of `orderbook/orderbook.cc`): the total of the offers up to a price, looked up in
the metadata index. -/

namespace Speedex

open Lib

namespace Orderbook

/-- The loop of `get_metadata`. -/
def searchMetadata (index : List IndexedMetadata) (p : Price) :
    Nat → Nat → Nat → Result EndowAccumulator
  | 0, _, _ => .error .nontermination
  | fuel + 1, start, stop =>
    if stop = start then do
      let entry ← vectorAt index (stop - 1)
      return entry.metadata
    else do
      let mp := (stop + start) / 2
      let entry ← vectorAt index mp
      if p ≥ entry.key then searchMetadata index p fuel (mp + 1) stop
      else searchMetadata index p fuel start mp

def getMetadata (ob : Orderbook) (p : Price) : Result EndowAccumulator :=
  let stop := ob.indexedMetadata.length - 1
  if stop = 0 then .ok ⟨0, 0⟩
  else do
    let entry ← vectorAt ob.indexedMetadata stop
    if p ≥ entry.key then return entry.metadata
    else searchMetadata ob.indexedMetadata p ob.indexedMetadata.length 1 stop

/-- `get_execution_prices`: the lower and the upper bound. -/
def getExecutionPrices (sellPrice buyPrice : Price) (smoothMult : UInt8) : Result (Price × Price) :=
  if buyPrice = 0 then .error .divisionByZero
  else if 64 ≤ smoothMult.toNat then .error .shiftOutOfRange
  else
    let ratio := sellPrice.toBitVec.setWidth 128 <<< 64 / buyPrice.toBitVec.setWidth 128
    let upperBoundPrice : Price := .ofBitVec ((ratio >>> (64 - Price.radix)).setWidth 64)
    let lowerBoundPrice :=
      if smoothMult ≠ 0 then upperBoundPrice - upperBoundPrice >>> smoothMult.toUInt64
      else upperBoundPrice
    .ok (lowerBoundPrice, upperBoundPrice)

/-- `get_supply_bounds`: the lower and the upper bound. -/
def getSupplyBounds (ob : Orderbook) (prices : List Price) (smoothMult : UInt8) :
    Result (UInt64 × UInt64) := do
  let sellPrice ← vectorAt prices ob.category.sellAsset.toNat
  let buyPrice ← vectorAt prices ob.category.buyAsset.toNat
  let (lowerBoundPrice, upperBoundPrice) ← getExecutionPrices sellPrice buyPrice smoothMult
  let upper ← ob.getMetadata upperBoundPrice
  let lower ← ob.getMetadata lowerBoundPrice
  return (lower.endow.toUInt64, upper.endow.toUInt64)

/-! ### The search -/

/-- Entry `j` is the last one up to `p`. -/
structure LastUpTo (index : List IndexedMetadata) (p : Price) (j : Nat) : Prop where
  lt : j < index.length
  le : ∀ entry, 0 < j → index[j]? = some entry → entry.key ≤ p
  next : ∀ entry, index[j + 1]? = some entry → p < entry.key

theorem searchMetadata_spec {index : List IndexedMetadata} {p : Price} {fuel start stop : Nat}
    (hstart : 1 ≤ start) (hle : start ≤ stop) (hstop : stop < index.length)
    (hbefore : ∀ entry, 1 < start → index[start - 1]? = some entry → entry.key ≤ p)
    (hafter : ∀ entry, index[stop]? = some entry → p < entry.key) (hfuel : stop - start < fuel) :
    ∃ j entry, index[j]? = some entry ∧ LastUpTo index p j ∧
      searchMetadata index p fuel start stop = .ok entry.metadata := by
  induction fuel generalizing start stop with
  | zero => omega
  | succ fuel ih =>
    rw [searchMetadata]
    by_cases heq : stop = start
    · subst heq
      have hget : index[stop - 1]? = some index[stop - 1] := List.getElem?_eq_getElem (by omega)
      refine ⟨stop - 1, _, hget, ⟨by omega, fun entry hpos => hbefore entry (by omega), ?_⟩, ?_⟩
      · rw [Nat.sub_add_cancel hstart]
        exact hafter
      · rw [if_pos rfl, vectorAt_eq_ok.mpr hget]
        rfl
    · have hmp : (stop + start) / 2 < index.length := by omega
      have hget : index[(stop + start) / 2]? = some index[(stop + start) / 2] :=
        List.getElem?_eq_getElem hmp
      rw [if_neg heq]
      dsimp only
      rw [vectorAt_eq_ok.mpr hget, ok_bind]
      split
      · rename_i hp
        refine ih (by omega) (by omega) hstop (fun entry _ hentry => ?_) hafter (by omega)
        rw [Nat.add_sub_cancel, hget] at hentry
        cases hentry
        exact hp
      · rename_i hp
        refine ih hstart (by omega) hmp hbefore (fun entry hentry => ?_) (by omega)
        rw [hget] at hentry
        cases hentry
        exact not_le.mp hp

/-- `get_metadata` returns the totals of the last entry up to the price. -/
theorem getMetadata_spec (ob : Orderbook) (p : Price) (hindex : 1 < ob.indexedMetadata.length) :
    ∃ j entry, ob.indexedMetadata[j]? = some entry ∧ LastUpTo ob.indexedMetadata p j ∧
      ob.getMetadata p = .ok entry.metadata := by
  obtain ⟨last, hget⟩ : ∃ last, ob.indexedMetadata[ob.indexedMetadata.length - 1]? = some last :=
    ⟨_, List.getElem?_eq_getElem (by omega)⟩
  rw [getMetadata, if_neg (by omega), vectorAt_eq_ok.mpr hget, ok_bind]
  split
  · rename_i hp
    refine ⟨_, last, hget, ⟨by omega, fun entry' _ hentry' => ?_, fun entry' hentry' => ?_⟩, rfl⟩
    · rw [hget] at hentry'
      cases hentry'
      exact hp
    · rw [Nat.sub_add_cancel (by omega), List.getElem?_eq_none le_rfl] at hentry'
      cases hentry'
  · rename_i hp
    refine searchMetadata_spec (le_refl 1) (by omega) (by omega) (fun _ hlt => absurd hlt (by omega))
      (fun entry' hentry' => ?_) (by omega)
    rw [hget] at hentry'
    cases hentry'
    exact not_le.mp hp

/-! ### The index -/

/-- The total of the offers with a price of at most `p`. -/
def endowUpTo (t : OrderbookTrie) (p : Nat) : Nat :=
  OrderbookTrie.totalEndow (t.filter fun k _ => decide (readPriceBigEndian k ≤ p))

/-- The prices of a trie, in order. -/
def pricesOf (t : OrderbookTrie) : List Nat := (t.keys.map readPriceBigEndian).dedup

theorem readPriceBigEndian_mono {k k' : OfferKey} (h : k ≤ k') :
    readPriceBigEndian k ≤ readPriceBigEndian k' := by
  rw [readPriceBigEndian_eq, readPriceBigEndian_eq]
  exact Nat.div_le_div_right (OfferKey.le_iff.mp h)

theorem pricesOf_sorted (t : OrderbookTrie) : (pricesOf t).Pairwise (· < ·) := by
  have hkeys : (t.keys.map readPriceBigEndian).Pairwise (· ≤ ·) := by
    rw [SortedMap.keys, List.map_map, List.pairwise_map]
    exact t.sorted.imp fun h => readPriceBigEndian_mono h.le
  have hle := hkeys.sublist (List.dedup_sublist _)
  exact (hle.and (List.nodup_dedup _)).imp fun h => lt_of_le_of_ne h.1 h.2

/-- The totals of `acc` and of the prices of a list. -/
def totalAt (t : OrderbookTrie) (acc : EndowAccumulator) (l : List Nat) : EndowAccumulator :=
  l.foldl (fun acc price =>
    let here := endowAtPrice t price
    ⟨acc.endow + here.endow, acc.endowTimesPrice + here.endowTimesPrice⟩) acc

/-- One step of `metadata_traversal`. -/
def traversalStep (t : OrderbookTrie) (acc : EndowAccumulator × List IndexedMetadata) (price : Nat) :
    EndowAccumulator × List IndexedMetadata :=
  let here := endowAtPrice t price
  let total : EndowAccumulator :=
    ⟨acc.1.endow + here.endow, acc.1.endowTimesPrice + here.endowTimesPrice⟩
  (total, acc.2 ++ [⟨.ofNat price, total⟩])

theorem metadataTraversal_eq (t : OrderbookTrie) :
    metadataTraversal t = ⟨0, ⟨0, 0⟩⟩ :: ((pricesOf t).foldl (traversalStep t) (⟨0, 0⟩, [])).2 := rfl

theorem traversal_entries (t : OrderbookTrie) (l : List Nat)
    (acc : EndowAccumulator × List IndexedMetadata) :
    (l.foldl (traversalStep t) acc).2.length = acc.2.length + l.length ∧
    (∀ i, i < acc.2.length → (l.foldl (traversalStep t) acc).2[i]? = acc.2[i]?) ∧
    ∀ i (hi : i < l.length), (l.foldl (traversalStep t) acc).2[acc.2.length + i]? =
      some ⟨.ofNat l[i], totalAt t acc.1 (l.take (i + 1))⟩ := by
  induction l generalizing acc with
  | nil => exact ⟨rfl, fun _ _ => rfl, fun i hi => absurd hi (Nat.not_lt_zero i)⟩
  | cons q l ih =>
    obtain ⟨hlength, hframe, hentries⟩ := ih (traversalStep t acc q)
    have hacc : (traversalStep t acc q).2.length = acc.2.length + 1 := by simp [traversalStep]
    rw [List.foldl_cons]
    refine ⟨?_, fun i hi => ?_, fun i hi => ?_⟩
    · rw [hlength, hacc, List.length_cons]
      omega
    · rw [hframe i (by omega), traversalStep, List.getElem?_append_left hi]
    · cases i with
      | zero =>
        rw [hframe _ (by omega)]
        simp [traversalStep, totalAt]
      | succ i =>
        rw [show acc.2.length + (i + 1) = (traversalStep t acc q).2.length + i by omega,
          hentries i (Nat.lt_of_succ_lt_succ hi)]
        rfl

/-- Entry `j` of the index stands for the first `j` prices. -/
theorem index_entry (t : OrderbookTrie) {j : Nat} (hj : j ≤ (pricesOf t).length) :
    ∃ entry, (metadataTraversal t)[j]? = some entry ∧
      entry.metadata = totalAt t ⟨0, 0⟩ ((pricesOf t).take j) ∧
      ∀ q, 0 < j → (pricesOf t)[j - 1]? = some q → entry.key = .ofNat q := by
  rw [metadataTraversal_eq]
  cases j with
  | zero => exact ⟨_, rfl, rfl, fun _ hpos => absurd hpos (Nat.lt_irrefl 0)⟩
  | succ i =>
    obtain ⟨-, -, hentries⟩ := traversal_entries t (pricesOf t) (⟨0, 0⟩, [])
    refine ⟨_, by simpa using hentries i hj, rfl, fun q _ hq => ?_⟩
    rw [Nat.add_sub_cancel, List.getElem?_eq_getElem hj] at hq
    cases hq
    rfl

theorem length_metadataTraversal (t : OrderbookTrie) :
    (metadataTraversal t).length = (pricesOf t).length + 1 := by
  rw [metadataTraversal_eq, List.length_cons,
    (traversal_entries t (pricesOf t) (⟨0, 0⟩, [])).1]
  simp

theorem price_lt {t : OrderbookTrie} {q : Nat} (h : q ∈ pricesOf t) : q < 2 ^ 48 := by
  rw [pricesOf, List.mem_dedup, List.mem_map] at h
  obtain ⟨k, -, rfl⟩ := h
  have hlt := k.toNat_lt
  rw [readPriceBigEndian_eq]
  omega

theorem key_of_entry {t : OrderbookTrie} {i : Nat} (hi : i < (pricesOf t).length)
    {entry : IndexedMetadata} (hentry : (metadataTraversal t)[i + 1]? = some entry) :
    entry.key.toNat = (pricesOf t)[i] := by
  obtain ⟨entry', hentry', -, hkey⟩ := index_entry t (j := i + 1) hi
  obtain rfl := Option.some.inj (hentry'.symm.trans hentry)
  have hlt := price_lt (List.getElem_mem hi)
  rw [hkey _ (Nat.succ_pos i) (List.getElem?_eq_getElem hi)]
  exact UInt64.toNat_ofNat_of_lt' (hlt.trans (by decide))

/-- The last entry up to `p` stands for the prices up to `p`. -/
theorem mem_take_of_last {t : OrderbookTrie} {p : Price} {j : Nat}
    (h : LastUpTo (metadataTraversal t) p j) {q : Nat} (hq : q ∈ pricesOf t) :
    q ∈ (pricesOf t).take j ↔ q ≤ p.toNat := by
  have hlength := h.lt
  rw [length_metadataTraversal] at hlength
  have hmono : ∀ (i k : Nat) (hk : k < (pricesOf t).length) (hik : i ≤ k),
      (pricesOf t)[i] ≤ (pricesOf t)[k] := by
    intro i k hk hik
    rcases Nat.eq_or_lt_of_le hik with rfl | hlt
    · exact le_rfl
    · exact (List.pairwise_iff_getElem.mp (pricesOf_sorted t) i k _ hk hlt).le
  obtain ⟨i, hi, rfl⟩ := List.mem_iff_getElem.mp hq
  constructor
  · intro hmem
    obtain ⟨k, hk, hget⟩ := List.mem_take_iff_getElem.mp hmem
    obtain ⟨entry, hentry⟩ : ∃ entry, (metadataTraversal t)[j - 1 + 1]? = some entry :=
      ⟨_, List.getElem?_eq_getElem (by rw [length_metadataTraversal]; omega)⟩
    have hle := h.le entry (by omega) (by rwa [Nat.sub_add_cancel (by omega)] at hentry)
    rw [UInt64.le_iff_toNat_le, key_of_entry (by omega) hentry] at hle
    rw [← hget]
    exact (hmono k (j - 1) (by omega) (by omega)).trans hle
  · intro hle
    by_contra hmem
    have hji : j ≤ i := by
      by_contra hij
      exact hmem (List.mem_take_iff_getElem.mpr ⟨i, by omega, rfl⟩)
    obtain ⟨entry, hentry⟩ : ∃ entry, (metadataTraversal t)[j + 1]? = some entry :=
      ⟨_, List.getElem?_eq_getElem (by rw [length_metadataTraversal]; omega)⟩
    have hlt := h.next entry hentry
    rw [UInt64.lt_iff_toNat_lt, key_of_entry (by omega) hentry] at hlt
    have := hmono j i hi hji
    omega

/-- A sum over the classes of the prices of the last entry is a sum over the offers up to `p`. -/
theorem sum_of_last {t : OrderbookTrie} {p : Price} {j : Nat}
    (h : LastUpTo (metadataTraversal t) p j) (f : OfferLeaf → Nat) :
    (((pricesOf t).take j).map fun q =>
      SortedMap.sum (t.filter fun k _ => decide (readPriceBigEndian k = q)) f).sum =
      SortedMap.sum (t.filter fun k _ => decide (readPriceBigEndian k ≤ p.toNat)) f := by
  have hclasses := SortedMap.sum_filter_classes t f readPriceBigEndian
    ((pricesOf_sorted t).imp (fun h => h.ne) |>.sublist (List.take_sublist j _))
  refine hclasses.trans (congrArg (SortedMap.sum · f) ?_)
  refine SortedMap.filter_congr fun k leaf hk => ?_
  have hmem : readPriceBigEndian k ∈ pricesOf t := by
    rw [pricesOf, List.mem_dedup]
    refine List.mem_map_of_mem ?_
    rw [SortedMap.mem_keys, SortedMap.contains, hk]
    rfl
  simp [mem_take_of_last h hmem]

/-- In a book with an up-to-date index, `get_metadata` returns the totals of the prices up to `p`. -/
theorem getMetadata_eq (ob : Orderbook)
    (hindex : ob.indexedMetadata = metadataTraversal ob.committedOffers) (p : Price) :
    ∃ j, LastUpTo (metadataTraversal ob.committedOffers) p j ∧
      ob.getMetadata p = .ok (totalAt ob.committedOffers ⟨0, 0⟩ ((pricesOf ob.committedOffers).take j)) := by
  by_cases hempty : pricesOf ob.committedOffers = []
  · have hone : ob.indexedMetadata.length - 1 = 0 := by
      rw [hindex, length_metadataTraversal, hempty]
      rfl
    refine ⟨0, ⟨?_, fun _ hpos => absurd hpos (Nat.lt_irrefl 0), fun entry hentry => ?_⟩, ?_⟩
    · rw [length_metadataTraversal]
      omega
    · rw [List.getElem?_eq_none (by rw [length_metadataTraversal, hempty]; rfl)] at hentry
      cases hentry
    · rw [getMetadata, hone, if_pos rfl]
      rfl
  · have hpos := List.length_pos_iff.mpr hempty
    obtain ⟨j, entry, hentry, hlast, hget⟩ := getMetadata_spec ob p (by
      rw [hindex, length_metadataTraversal]
      omega)
    rw [hindex] at hentry hlast
    have hlt := hlast.lt
    rw [length_metadataTraversal] at hlt
    obtain ⟨entry', hentry', htotal, -⟩ := index_entry ob.committedOffers (j := j) (by omega)
    obtain rfl := Option.some.inj (hentry'.symm.trans hentry)
    exact ⟨j, hlast, by rw [hget, htotal]⟩

theorem totalAt_endow (t : OrderbookTrie) (acc : EndowAccumulator) (l : List Nat) :
    (totalAt t acc l).endow = acc.endow + .ofNat (l.map fun q => OrderbookTrie.totalEndow
      (t.filter fun k _ => decide (readPriceBigEndian k = q))).sum := by
  induction l generalizing acc with
  | nil => simp [totalAt]
  | cons q l ih =>
    refine (ih _).trans ?_
    simp [endowAtPrice, OrderbookTrie.rootEndow, Int64.ofNat_add, Int64.add_assoc]

/-- In a book with an up-to-date index, `get_metadata` returns the total up to the price. -/
theorem getMetadata_endow {ob : Orderbook} {p : Price} {m : EndowAccumulator}
    (hindex : ob.indexedMetadata = metadataTraversal ob.committedOffers)
    (h : ob.getMetadata p = .ok m) : m.endow = .ofNat (endowUpTo ob.committedOffers p.toNat) := by
  obtain ⟨j, hlast, hget⟩ := getMetadata_eq ob hindex p
  rw [h] at hget
  cases hget
  rw [totalAt_endow, endowUpTo, OrderbookTrie.totalEndow, ← sum_of_last hlast]
  exact Int64.zero_add _

/-- The upper bound price is the exchange rate, rounded down and cut to 64 bits; the lower one is
less by a fraction of it. -/
theorem getExecutionPrices_spec (sellPrice : Price) {buyPrice : Price} {smoothMult : UInt8}
    (hbuy : buyPrice ≠ 0) (hsmooth : smoothMult.toNat < 64) :
    ∃ lower upper : Price, getExecutionPrices sellPrice buyPrice smoothMult = .ok (lower, upper) ∧
      upper.toNat = sellPrice.toNat * 2 ^ 24 / buyPrice.toNat % 2 ^ 64 ∧
      lower.toNat = upper.toNat - if smoothMult = 0 then 0 else upper.toNat / 2 ^ smoothMult.toNat := by
  have hsell := sellPrice.toNat_lt
  have hratio : (sellPrice.toBitVec.setWidth 128 <<< 64 / buyPrice.toBitVec.setWidth 128).toNat =
      sellPrice.toNat * 2 ^ 64 / buyPrice.toNat := by
    rw [BitVec.toNat_udiv, BitVec.toNat_shiftLeft, toNat_widenPrice, toNat_widenPrice,
      Nat.shiftLeft_eq, Nat.mod_eq_of_lt (by omega)]
  have hdiv : sellPrice.toNat * 2 ^ 64 / buyPrice.toNat / 2 ^ 40 =
      sellPrice.toNat * 2 ^ 24 / buyPrice.toNat := by
    rw [Nat.div_div_eq_div_mul, show sellPrice.toNat * 2 ^ 64 = sellPrice.toNat * 2 ^ 24 * 2 ^ 40 by
      omega, Nat.mul_div_mul_right _ _ (by decide)]
  have hupper : (UInt64.ofBitVec (((sellPrice.toBitVec.setWidth 128 <<< 64 /
      buyPrice.toBitVec.setWidth 128) >>> (64 - Price.radix)).setWidth 64)).toNat =
      sellPrice.toNat * 2 ^ 24 / buyPrice.toNat % 2 ^ 64 := by
    rw [UInt64.toNat_ofBitVec, BitVec.toNat_setWidth, BitVec.toNat_ushiftRight, hratio,
      Nat.shiftRight_eq_div_pow, ← hdiv]
    rfl
  rw [getExecutionPrices, if_neg hbuy, if_neg (not_le.mpr hsmooth)]
  refine ⟨_, _, rfl, hupper, ?_⟩
  by_cases hzero : smoothMult = 0
  · rw [if_neg (not_not.mpr hzero), if_pos hzero, Nat.sub_zero]
  · rw [if_pos hzero, if_neg hzero, UInt64.toNat_sub_of_le, UInt64.toNat_shiftRight,
      UInt8.toNat_toUInt64, Nat.mod_eq_of_lt hsmooth, Nat.shiftRight_eq_div_pow]
    rw [UInt64.le_iff_toNat_le, UInt64.toNat_shiftRight, Nat.shiftRight_eq_div_pow]
    exact Nat.div_le_self _ _

/-- The upper bound price is at most the exchange rate. -/
theorem upperBoundPrice_le {sellPrice buyPrice lower upper : Price} {smoothMult : UInt8}
    (h : getExecutionPrices sellPrice buyPrice smoothMult = .ok (lower, upper)) :
    upper.toNat * buyPrice.toNat ≤ sellPrice.toNat * 2 ^ 24 := by
  have hbuy : buyPrice ≠ 0 := by
    rintro rfl
    rw [getExecutionPrices, if_pos rfl] at h
    cases h
  have hsmooth : smoothMult.toNat < 64 := by
    by_contra hle
    rw [getExecutionPrices, if_neg hbuy, if_pos (not_lt.mp hle)] at h
    cases h
  obtain ⟨lower', upper', hprices, hupper, -⟩ := getExecutionPrices_spec sellPrice hbuy hsmooth
  rw [h] at hprices
  cases hprices
  calc upper.toNat * buyPrice.toNat
      ≤ sellPrice.toNat * 2 ^ 24 / buyPrice.toNat * buyPrice.toNat :=
        Nat.mul_le_mul_right _ (hupper.trans_le (Nat.mod_le _ _))
    _ ≤ sellPrice.toNat * 2 ^ 24 := Nat.div_mul_le_self _ _

/-- Every offer that the upper bound of the supply counts accepts the exchange rate. -/
theorem getSupplyBounds_spec {ob : Orderbook} {prices : List Price} {smoothMult : UInt8}
    {lower upper : UInt64} {sellPrice buyPrice : Price}
    (hindex : ob.indexedMetadata = metadataTraversal ob.committedOffers)
    (htotal : ob.committedOffers.totalEndow < 2 ^ 63)
    (hsell : vectorAt prices ob.category.sellAsset.toNat = .ok sellPrice)
    (hbuy : vectorAt prices ob.category.buyAsset.toNat = .ok buyPrice)
    (h : ob.getSupplyBounds prices smoothMult = .ok (lower, upper)) :
    ∃ p : Price, upper.toNat = endowUpTo ob.committedOffers p.toNat ∧
      p.toNat * buyPrice.toNat ≤ sellPrice.toNat * 2 ^ 24 := by
  obtain ⟨sellPrice', hsell', h⟩ := bind_eq_ok.mp h
  obtain rfl := Except.ok.inj (hsell.symm.trans hsell')
  obtain ⟨buyPrice', hbuy', h⟩ := bind_eq_ok.mp h
  obtain rfl := Except.ok.inj (hbuy.symm.trans hbuy')
  obtain ⟨⟨lowerPrice, upperPrice⟩, hprices, h⟩ := bind_eq_ok.mp h
  obtain ⟨upperMetadata, hupper, h⟩ := bind_eq_ok.mp h
  obtain ⟨lowerMetadata, -, h⟩ := bind_eq_ok.mp h
  cases h
  refine ⟨upperPrice, ?_, upperBoundPrice_le hprices⟩
  have hle : endowUpTo ob.committedOffers upperPrice.toNat ≤ ob.committedOffers.totalEndow :=
    SortedMap.sum_filter_le ..
  rw [getMetadata_endow hindex hupper]
  show (BitVec.ofNat 64 _).toNat = _
  rw [BitVec.toNat_ofNat]
  omega

end Orderbook

end Speedex
