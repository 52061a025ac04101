import Speedex.Orderbook.Supply

/-! The largest smoothing at which a book sells no more than an amount (`max_feasible_smooth_mult`
of `orderbook/orderbook.cc`): the first price at which the totals of the index are above the
amount, and the largest shift that brings the lower execution price down to it. -/

namespace Speedex

open Lib

namespace Orderbook

open OrderbookTrie

/-- `divide_prices`. -/
def dividePrices (sellPrice buyPrice : Price) : Result Price :=
  if buyPrice = 0 then .error .divisionByZero
  else
    let ratio := sellPrice.toBitVec.setWidth 128 <<< 64 / buyPrice.toBitVec.setWidth 128
    .ok (.ofBitVec ((ratio >>> (64 - Price.radix)).setWidth 64))

/-- The search of `max_feasible_smooth_mult`, without a price where the function returns
`UINT8_MAX`. -/
def searchActivated (index : List IndexedMetadata) (amount : Int64) :
    Nat → Nat → Nat → Result (Option Price)
  | 0, _, _ => .error .nontermination
  | fuel + 1, start, stop =>
    if stop = start then do
      let entry ← vectorAt index stop
      if entry.metadata.endow > amount then return some entry.key
      else if stop + 1 = index.length then return none
      else do
        let next ← vectorAt index (stop + 1)
        return some next.key
    else do
      let mp := (stop + start) / 2
      let entry ← vectorAt index mp
      if amount ≥ entry.metadata.endow then searchActivated index amount fuel (mp + 1) stop
      else searchActivated index amount fuel start mp

/-- The loop over the shifts. -/
def searchShift (exactExchangeRate rawDifference : Price) : Nat → Nat → Result UInt8
  | 0, _ => .error .nontermination
  | fuel + 1, out =>
    if 64 ≤ out then .error .shiftOutOfRange
    else if rawDifference ≤ exactExchangeRate >>> UInt64.ofNat out then
      searchShift exactExchangeRate rawDifference fuel (out + 1)
    else .ok (.ofNat out)

/-- What follows the search. -/
def smoothMultAt (exactExchangeRate : Price) : Option Price → Result UInt8
  | none => .ok 255
  | some maxActivatedPrice =>
    if exactExchangeRate ≤ maxActivatedPrice then .ok 255
    else do
      let out ← searchShift exactExchangeRate (exactExchangeRate - maxActivatedPrice) 65 0
      return if 0 < out then out - 1 else 0

def maxFeasibleSmoothMult (ob : Orderbook) (amount : Int64) (prices : List Price) :
    Result UInt8 := do
  let stop := ob.indexedMetadata.length - 1
  let sellPrice ← vectorAt prices ob.category.sellAsset.toNat
  let buyPrice ← vectorAt prices ob.category.buyAsset.toNat
  let exactExchangeRate ← dividePrices sellPrice buyPrice
  if stop = 0 then return 255
  else do
    let last ← vectorAt ob.indexedMetadata stop
    if amount > last.metadata.endow then return 255
    else do
      let maxActivatedPrice ←
        searchActivated ob.indexedMetadata amount ob.indexedMetadata.length 1 stop
      smoothMultAt exactExchangeRate maxActivatedPrice

/-! ### The search -/

/-- The key of the first entry whose total is above the amount, past the empty entry. -/
def FirstAbove (index : List IndexedMetadata) (amount : Int64) : Option Price → Prop
  | none => ∀ i entry, 1 ≤ i → index[i]? = some entry → entry.metadata.endow ≤ amount
  | some key => ∃ j entry, 1 ≤ j ∧ index[j]? = some entry ∧ entry.key = key ∧
      amount < entry.metadata.endow ∧
      ∀ i entry', 1 ≤ i → i < j → index[i]? = some entry' → entry'.metadata.endow ≤ amount

/-- The totals do not decrease. -/
def TotalsMonotone (index : List IndexedMetadata) : Prop :=
  ∀ i k entry entry', 1 ≤ i → i ≤ k → index[i]? = some entry → index[k]? = some entry' →
    entry.metadata.endow ≤ entry'.metadata.endow

theorem searchActivated_spec {index : List IndexedMetadata} {amount : Int64}
    (hmono : TotalsMonotone index) {fuel start stop : Nat} (hstart : 1 ≤ start)
    (hle : start ≤ stop) (hstop : stop < index.length)
    (hbefore : ∀ i entry, 1 ≤ i → i < start → index[i]? = some entry →
      entry.metadata.endow ≤ amount)
    (hafter : ∀ entry, stop + 1 < index.length → index[stop]? = some entry →
      amount < entry.metadata.endow)
    (hfuel : stop - start < fuel) :
    ∃ r, searchActivated index amount fuel start stop = .ok r ∧ FirstAbove index amount r := by
  induction fuel generalizing start stop with
  | zero => omega
  | succ fuel ih =>
    rw [searchActivated]
    by_cases heq : stop = start
    · subst heq
      have hget : index[stop]? = some index[stop] := List.getElem?_eq_getElem hstop
      rw [if_pos rfl, vectorAt_eq_ok.mpr hget, ok_bind]
      by_cases habove : index[stop].metadata.endow > amount
      · rw [if_pos habove]
        exact ⟨_, rfl, stop, _, hstart, hget, rfl, habove, hbefore⟩
      · rw [if_neg habove]
        have hlast : stop + 1 = index.length := by
          by_contra hne
          exact habove (hafter _ (by omega) hget)
        rw [if_pos hlast]
        refine ⟨none, rfl, fun i entry hi hentry => ?_⟩
        have hlt := (List.getElem?_eq_some_iff.mp hentry).1
        exact Int64.le_trans (hmono i stop _ _ hi (by omega) hentry hget) (Int64.not_lt.mp habove)
    · have hmp : (stop + start) / 2 < index.length := by omega
      have hget : index[(stop + start) / 2]? = some index[(stop + start) / 2] :=
        List.getElem?_eq_getElem hmp
      rw [if_neg heq]
      dsimp only
      rw [vectorAt_eq_ok.mpr hget, ok_bind]
      split
      · rename_i hge
        apply ih (by omega) (by omega) hstop _ hafter (by omega)
        intro i entry hi hlt hentry
        exact Int64.le_trans (hmono i _ _ _ hi (by omega) hentry hget) hge
      · rename_i hge
        apply ih hstart (by omega) hmp hbefore _ (by omega)
        intro entry _ hentry
        rw [hget] at hentry
        cases hentry
        exact Int64.not_le.mp hge

/-! ### The shift -/

theorem toNat_shift (rate : Price) {out : Nat} (hout : out < 64) :
    (rate >>> UInt64.ofNat out).toNat = rate.toNat / 2 ^ out := by
  rw [UInt64.toNat_shiftRight, UInt64.toNat_ofNat_of_lt' (hout.trans (by decide)),
    Nat.mod_eq_of_lt hout, Nat.shiftRight_eq_div_pow]

theorem searchShift_spec {rate difference : Price} {fuel out bound : Nat} (hbound : bound < 64)
    (hstop : rate.toNat / 2 ^ bound < difference.toNat) (hout : out ≤ bound)
    (hbefore : ∀ i < out, difference.toNat ≤ rate.toNat / 2 ^ i) (hfuel : bound - out < fuel) :
    ∃ n ≤ bound, searchShift rate difference fuel out = .ok (.ofNat n) ∧
      rate.toNat / 2 ^ n < difference.toNat ∧ ∀ i < n, difference.toNat ≤ rate.toNat / 2 ^ i := by
  induction fuel generalizing out with
  | zero => omega
  | succ fuel ih =>
    have hlt : out < 64 := by omega
    have hshift : difference ≤ rate >>> UInt64.ofNat out ↔
        difference.toNat ≤ rate.toNat / 2 ^ out := by
      rw [UInt64.le_iff_toNat_le, toNat_shift rate hlt]
    rw [searchShift, if_neg (by omega)]
    split
    · rename_i hle
      rw [hshift] at hle
      have hne : out ≠ bound := by
        rintro rfl
        omega
      apply ih (by omega) _ (by omega)
      intro i hi
      rcases Nat.lt_succ_iff_lt_or_eq.mp hi with hi | rfl
      · exact hbefore i hi
      · exact hle
    · rename_i hle
      rw [hshift] at hle
      exact ⟨out, hout, rfl, by omega, hbefore⟩

/-- Below the rate, the result is the largest shift of it that reaches down to the price. -/
theorem smoothMultAt_some {rate key : Price} (hkey : key.toNat < 2 ^ 48) (hlt : key < rate) :
    ∃ s < 49, smoothMultAt rate (some key) = .ok (.ofNat s) ∧
      rate.toNat - key.toNat ≤ rate.toNat / 2 ^ s ∧
      rate.toNat / 2 ^ (s + 1) < rate.toNat - key.toNat := by
  rw [UInt64.lt_iff_toNat_lt] at hlt
  have hdiff : (rate - key).toNat = rate.toNat - key.toNat :=
    UInt64.toNat_sub_of_le _ _ (UInt64.le_iff_toNat_le.mpr hlt.le)
  -- Past 2^49 the price is less than half the rate.
  have hstop : rate.toNat / 2 ^ 49 < (rate - key).toNat := by
    rw [hdiff]
    omega
  obtain ⟨n, hn, hsearch, habove, hbefore⟩ := @searchShift_spec rate (rate - key) 65 0 49
    (by decide) hstop (Nat.zero_le _) (fun i hi => absurd hi (Nat.not_lt_zero i)) (by decide)
  rw [hdiff] at habove hbefore
  obtain ⟨s, rfl⟩ : ∃ s, n = s + 1 := by
    refine Nat.exists_eq_succ_of_ne_zero fun hzero => ?_
    subst hzero
    rw [pow_zero, Nat.div_one] at habove
    omega
  refine ⟨s, by omega, ?_, hbefore s (Nat.lt_succ_self s), habove⟩
  have hpos : 0 < UInt8.ofNat (s + 1) := by
    rw [UInt8.lt_iff_toNat_lt, UInt8.toNat_ofNat_of_lt' (by simp [UInt8.size]; omega)]
    exact Nat.succ_pos s
  have hnot : ¬ rate ≤ key := by
    rw [UInt64.le_iff_toNat_le]
    omega
  rw [smoothMultAt, if_neg hnot, hsearch, ok_bind, if_pos hpos, UInt8.ofNat_add]
  exact congrArg Except.ok (UInt8.add_sub_cancel _ _)

/-! ### The totals of a book -/

/-- The total amount of the offers with a limit price below `p`. -/
def amountBelow (t : OrderbookTrie) (p : Nat) : Nat :=
  ((t.accumulateValues.filter fun offer => offer.minPrice.toNat < p).map
    fun offer => offer.amount.toNat).sum

theorem amount_filter_mono (l : List Offer) {f g : Offer → Bool}
    (h : ∀ offer, f offer = true → g offer = true) :
    ((l.filter f).map fun offer => offer.amount.toNat).sum ≤
      ((l.filter g).map fun offer => offer.amount.toNat).sum :=
  List.Sublist.sum_le_sum (List.Sublist.map _ (List.monotone_filter_right _ h))
    fun _ _ => Nat.zero_le _

theorem amountBelow_le_amountUpTo (t : OrderbookTrie) {p : Nat} {q : Price}
    (h : p ≤ q.toNat + 1) : amountBelow t p ≤ t.amountUpTo q := by
  apply amount_filter_mono
  intro offer hoffer
  rw [decide_eq_true_eq] at hoffer ⊢
  rw [UInt64.le_iff_toNat_le]
  omega

theorem amountUpTo_le_amountBelow (t : OrderbookTrie) {p : Price} {q : Nat} (h : p.toNat < q) :
    t.amountUpTo p ≤ amountBelow t q := by
  apply amount_filter_mono
  intro offer hoffer
  rw [decide_eq_true_eq, UInt64.le_iff_toNat_le] at hoffer
  rw [decide_eq_true_eq]
  omega

theorem amountBelow_mono (t : OrderbookTrie) {p q : Nat} (h : p ≤ q) :
    amountBelow t p ≤ amountBelow t q := by
  apply amount_filter_mono
  intro offer hoffer
  rw [decide_eq_true_eq] at hoffer ⊢
  omega

section Book

variable {t : OrderbookTrie} {p : Price} {i j : Nat} {entry entry' : IndexedMetadata}

/-- The total of the last entry up to `p`. -/
theorem toInt_endow_of_last (hlisted : t.Listed) (hfits : t.totalEndow ≤ 2 ^ 63 - 1)
    (hlast : LastUpTo (metadataTraversal t) p j) (hentry : (metadataTraversal t)[j]? = some entry) :
    entry.metadata.endow.toInt = t.amountUpTo p := by
  have hlt := hlast.lt
  rw [length_metadataTraversal] at hlt
  have hle : endowUpTo t p.toNat ≤ t.totalEndow := SortedMap.sum_filter_le ..
  obtain ⟨entry', hentry', htotal, -⟩ := index_entry t (j := j) (by omega)
  obtain rfl := Option.some.inj (hentry'.symm.trans hentry)
  rw [← hlisted.endowUpTo_eq, htotal, totalAt_endow, Int64.zero_add]
  refine Eq.trans (congrArg (fun n => (Int64.ofNat n).toInt) (sum_of_last hlast _)) ?_
  exact Int64.toInt_ofNat_of_lt (lt_of_le_of_lt hle (by omega))

theorem key_lt_key (hi : 1 ≤ i) (hij : i < j) (hentry : (metadataTraversal t)[i]? = some entry)
    (hentry' : (metadataTraversal t)[j]? = some entry') : entry.key < entry'.key := by
  obtain ⟨i, rfl⟩ := Nat.exists_eq_add_of_le' hi
  obtain ⟨j, rfl⟩ := Nat.exists_eq_add_of_le' (hi.trans hij.le)
  have hj := (List.getElem?_eq_some_iff.mp hentry').1
  rw [length_metadataTraversal] at hj
  rw [UInt64.lt_iff_toNat_lt, key_of_entry (by omega) hentry, key_of_entry (by omega) hentry']
  exact List.pairwise_iff_getElem.mp (pricesOf_sorted t) i j _ _ (by omega)

theorem lastUpTo_key (hj : 1 ≤ j) (hentry : (metadataTraversal t)[j]? = some entry) :
    LastUpTo (metadataTraversal t) entry.key j where
  lt := (List.getElem?_eq_some_iff.mp hentry).1
  le entry' _ hentry' := by
    obtain rfl := Option.some.inj (hentry'.symm.trans hentry)
    exact UInt64.le_refl _
  next entry' hentry' := key_lt_key hj (Nat.lt_succ_self j) hentry hentry'

theorem key_pos (hlisted : t.Listed) (hj : 1 ≤ j)
    (hentry : (metadataTraversal t)[j]? = some entry) :
    0 < entry.key.toNat ∧ entry.key.toNat < 2 ^ 48 := by
  obtain ⟨j, rfl⟩ := Nat.exists_eq_add_of_le' hj
  have hlt := (List.getElem?_eq_some_iff.mp hentry).1
  rw [length_metadataTraversal] at hlt
  have hmem := List.getElem_mem (show j < (pricesOf t).length by omega)
  rw [key_of_entry (by omega) hentry]
  refine ⟨?_, price_lt hmem⟩
  obtain ⟨k, hk, hprice⟩ := List.mem_map.mp (List.mem_dedup.mp hmem)
  rw [SortedMap.mem_keys, SortedMap.contains, Option.isSome_iff_exists] at hk
  obtain ⟨leaf, hfind⟩ := hk
  have hvalid := Price.isValidPrice_iff.mp (hlisted.priced k leaf hfind)
  rw [hlisted.readPrice hfind] at hprice
  exact hprice ▸ hvalid.1

/-- The entry before an entry is the last one below its key. -/
theorem lastUpTo_pred (hlisted : t.Listed) (hj : 1 ≤ j)
    (hentry : (metadataTraversal t)[j]? = some entry) :
    LastUpTo (metadataTraversal t) (entry.key - 1) (j - 1) := by
  have hpos := (key_pos hlisted hj hentry).1
  have hpred : (entry.key - 1).toNat = entry.key.toNat - 1 :=
    UInt64.toNat_sub_of_le _ _ (UInt64.le_iff_toNat_le.mpr hpos)
  have hlt := (List.getElem?_eq_some_iff.mp hentry).1
  refine ⟨by omega, fun entry' hpos' hentry' => ?_, fun entry' hentry' => ?_⟩
  · have hkey := key_lt_key hpos' (by omega) hentry' hentry
    rw [UInt64.lt_iff_toNat_lt] at hkey
    rw [UInt64.le_iff_toNat_le, hpred]
    omega
  · rw [Nat.sub_add_cancel hj] at hentry'
    obtain rfl := Option.some.inj (hentry'.symm.trans hentry)
    rw [UInt64.lt_iff_toNat_lt, hpred]
    omega

theorem totalsMonotone (hlisted : t.Listed) (hfits : t.totalEndow ≤ 2 ^ 63 - 1) :
    TotalsMonotone (metadataTraversal t) := by
  intro i k entry entry' hi hik hentry hentry'
  have htotal := toInt_endow_of_last hlisted hfits (lastUpTo_key hi hentry) hentry
  have htotal' := toInt_endow_of_last hlisted hfits (lastUpTo_key (hi.trans hik) hentry') hentry'
  rw [Int64.le_iff_toInt_le, htotal, htotal', Int.ofNat_le]
  rcases Nat.eq_or_lt_of_le hik with rfl | hlt
  · obtain rfl := Option.some.inj (hentry'.symm.trans hentry)
    exact le_rfl
  · exact amountUpTo_mono t (UInt64.le_of_lt (key_lt_key hi hlt hentry hentry'))

/-- An entry that no total past the empty entry comes after bounds its total by the amount. -/
theorem amountUpTo_le_of_last (hlisted : t.Listed) (hfits : t.totalEndow ≤ 2 ^ 63 - 1)
    {amount : Int64} (hamount : 0 ≤ amount) (hlast : LastUpTo (metadataTraversal t) p j)
    (hle : ∀ entry, 1 ≤ j → (metadataTraversal t)[j]? = some entry →
      entry.metadata.endow ≤ amount) :
    (t.amountUpTo p : Int) ≤ amount.toInt := by
  have hlt := hlast.lt
  have hget : (metadataTraversal t)[j]? = some (metadataTraversal t)[j] :=
    List.getElem?_eq_getElem hlt
  rw [← toInt_endow_of_last hlisted hfits hlast hget, ← Int64.le_iff_toInt_le]
  rcases Nat.eq_zero_or_pos j with rfl | hpos
  · exact hamount
  · exact hle _ hpos hget

theorem firstAbove_none (hlisted : t.Listed) (hfits : t.totalEndow ≤ 2 ^ 63 - 1) {amount : Int64}
    (hamount : 0 ≤ amount) (h : FirstAbove (metadataTraversal t) amount none) (q : Nat)
    (hq : q ≤ 2 ^ 64) : (amountBelow t q : Int) ≤ amount.toInt := by
  have hlength := length_metadataTraversal t
  have hlast : LastUpTo (metadataTraversal t) (-1) ((metadataTraversal t).length - 1) := by
    refine ⟨by omega, fun entry _ _ => ?_, fun entry hentry => ?_⟩
    · have hlt := entry.key.toNat_lt
      rw [UInt64.le_iff_toNat_le, show (-1 : UInt64).toNat = 2 ^ 64 - 1 from rfl]
      omega
    · rw [List.getElem?_eq_none (by omega)] at hentry
      cases hentry
  have htotal := amountUpTo_le_of_last hlisted hfits hamount hlast fun entry hpos => h _ entry hpos
  have hbelow := @amountBelow_le_amountUpTo t q (-1) hq
  omega

theorem firstAbove_some (hlisted : t.Listed) (hfits : t.totalEndow ≤ 2 ^ 63 - 1) {amount : Int64}
    (hamount : 0 ≤ amount) {key : Price} (h : FirstAbove (metadataTraversal t) amount (some key)) :
    (amountBelow t key.toNat : Int) ≤ amount.toInt ∧ amount.toInt < t.amountUpTo key ∧
      key.toNat < 2 ^ 48 := by
  obtain ⟨j, entry, hj, hentry, rfl, habove, hbefore⟩ := h
  obtain ⟨hpos, hlt⟩ := key_pos hlisted hj hentry
  have hpred : (entry.key - 1).toNat = entry.key.toNat - 1 :=
    UInt64.toNat_sub_of_le _ _ (UInt64.le_iff_toNat_le.mpr hpos)
  have htotal := amountUpTo_le_of_last hlisted hfits hamount (lastUpTo_pred hlisted hj hentry)
    fun entry' hpos' hentry' => hbefore _ entry' hpos' (by omega) hentry'
  have hbelow := @amountBelow_le_amountUpTo t entry.key.toNat (entry.key - 1) (by omega)
  rw [Int64.lt_iff_toInt_lt, toInt_endow_of_last hlisted hfits (lastUpTo_key hj hentry) hentry]
    at habove
  exact ⟨by omega, habove, hlt⟩

end Book

/-! ### The largest smoothing -/

/-- What the result means for offers that are sold for `amount` units. -/
structure LargestFeasible (t : OrderbookTrie) (sellPrice buyPrice : Price) (amount : Int64)
    (s : UInt8) : Prop where
  unbounded : s = 255 ↔
    (amountBelow t (sellPrice.toNat * 2 ^ 24 / buyPrice.toNat) : Int) ≤ amount.toInt
  feasible : s ≠ 255 → ∃ lower upper : Price,
    getExecutionPrices sellPrice buyPrice s = .ok (lower, upper) ∧
      (s ≠ 0 → (amountBelow t lower.toNat : Int) ≤ amount.toInt)
  largest : s ≠ 255 → ∃ lower upper : Price,
    getExecutionPrices sellPrice buyPrice (s + 1) = .ok (lower, upper) ∧
      amount.toInt < amountBelow t lower.toNat

section Result

variable {t : OrderbookTrie} {sellPrice buyPrice rate : Price} {amount : Int64}

theorem dividePrices_spec (sellPrice : Price) (hbuy : buyPrice ≠ 0) :
    ∃ rate : Price, dividePrices sellPrice buyPrice = .ok rate ∧
      rate.toNat = sellPrice.toNat * 2 ^ 24 / buyPrice.toNat % 2 ^ 64 := by
  obtain ⟨lower, upper, hprices, hupper, -⟩ :=
    @getExecutionPrices_spec sellPrice buyPrice 0 hbuy (by decide)
  refine ⟨upper, ?_, hupper⟩
  rw [getExecutionPrices, if_neg hbuy, if_neg (by decide)] at hprices
  rw [dividePrices, if_neg hbuy]
  cases hprices
  rfl

/-- The first price above the amount decides the result. -/
theorem smoothMultAt_spec (hlisted : t.Listed) (hfits : t.totalEndow ≤ 2 ^ 63 - 1)
    (hamount : 0 ≤ amount) (hbuy : buyPrice ≠ 0)
    (hrate : rate.toNat = sellPrice.toNat * 2 ^ 24 / buyPrice.toNat)
    {r : Option Price} (h : FirstAbove (metadataTraversal t) amount r) :
    ∃ s, smoothMultAt rate r = .ok s ∧ LargestFeasible t sellPrice buyPrice amount s := by
  have hlt := rate.toNat_lt
  have hunbounded : ∀ s : UInt8, s = 255 → (amountBelow t rate.toNat : Int) ≤ amount.toInt →
      LargestFeasible t sellPrice buyPrice amount s := fun s hs hle =>
    ⟨hrate ▸ iff_of_true hs hle, fun hne => absurd hs hne, fun hne => absurd hs hne⟩
  cases r with
  | none =>
    exact ⟨255, rfl, hunbounded 255 rfl (firstAbove_none hlisted hfits hamount h _ hlt.le)⟩
  | some key =>
    obtain ⟨hbelow, habove, hkey⟩ := firstAbove_some hlisted hfits hamount h
    by_cases hle : rate ≤ key
    · refine ⟨255, by rw [smoothMultAt, if_pos hle], hunbounded 255 rfl ?_⟩
      have := amountBelow_mono t (UInt64.le_iff_toNat_le.mp hle)
      omega
    · obtain ⟨s, hs, hresult, hshift, hnext⟩ := smoothMultAt_some hkey (UInt64.not_le.mp hle)
      rw [UInt64.le_iff_toNat_le] at hle
      have hs8 : (UInt8.ofNat s).toNat = s := UInt8.toNat_ofNat_of_lt' (hs.trans (by decide))
      have hne : UInt8.ofNat s ≠ 255 := by
        intro heq
        rw [heq] at hs8
        have : (255 : UInt8).toNat = 255 := rfl
        omega
      have hsucc : (UInt8.ofNat s + 1).toNat = s + 1 := by
        rw [UInt8.toNat_add, hs8, UInt8.toNat_one, Nat.mod_eq_of_lt (by omega)]
      obtain ⟨lower, upper, hprices, hupper, hlower⟩ :=
        @getExecutionPrices_spec sellPrice buyPrice (UInt8.ofNat s) hbuy (by omega)
      obtain ⟨lower', upper', hprices', hupper', hlower'⟩ :=
        @getExecutionPrices_spec sellPrice buyPrice (UInt8.ofNat s + 1) hbuy (by omega)
      rw [← hrate, Nat.mod_eq_of_lt hlt] at hupper hupper'
      have hsne : UInt8.ofNat s + 1 ≠ 0 := by
        intro heq
        rw [heq] at hsucc
        exact absurd hsucc (Nat.succ_ne_zero s).symm
      rw [if_neg hsne, hsucc, hupper'] at hlower'
      refine ⟨.ofNat s, hresult, ⟨?_, fun _ => ⟨lower, upper, hprices, fun hzero => ?_⟩,
        fun _ => ⟨lower', upper', hprices', ?_⟩⟩⟩
      · rw [← hrate]
        have := amountUpTo_le_amountBelow t (not_le.mp hle)
        exact iff_of_false hne (by omega)
      · rw [if_neg hzero, hs8, hupper] at hlower
        have := amountBelow_mono t (show lower.toNat ≤ key.toNat by omega)
        omega
      · have := amountUpTo_le_amountBelow t (show key.toNat < lower'.toNat by omega)
        omega

end Result

/-- `max_feasible_smooth_mult` goes by the first price whose total is above the amount. -/
theorem maxFeasibleSmoothMult_eq (ob : Orderbook) (hlisted : ob.committedOffers.Listed)
    (hfits : ob.committedOffers.totalEndow ≤ 2 ^ 63 - 1) {prices : List Price}
    {sellPrice buyPrice rate : Price} {amount : Int64}
    (hsell : vectorAt prices ob.category.sellAsset.toNat = .ok sellPrice)
    (hbuy : vectorAt prices ob.category.buyAsset.toNat = .ok buyPrice)
    (hrate : dividePrices sellPrice buyPrice = .ok rate) :
    ∃ r, FirstAbove (metadataTraversal ob.committedOffers) amount r ∧
      ob.generateMetadataIndex.maxFeasibleSmoothMult amount prices = smoothMultAt rate r := by
  have hlength := length_metadataTraversal ob.committedOffers
  have hindex : ob.generateMetadataIndex.indexedMetadata = metadataTraversal ob.committedOffers :=
    rfl
  have hcategory : ob.generateMetadataIndex.category = ob.category := rfl
  rw [maxFeasibleSmoothMult, hcategory, hindex, hsell, ok_bind, hbuy, ok_bind, hrate, ok_bind]
  have hmono := totalsMonotone hlisted hfits
  split
  · refine ⟨none, fun i entry hi hentry => ?_, rfl⟩
    rw [List.getElem?_eq_none (by omega)] at hentry
    cases hentry
  · rename_i hne
    obtain ⟨last, hlast⟩ : ∃ last, (metadataTraversal ob.committedOffers)[
        (metadataTraversal ob.committedOffers).length - 1]? = some last :=
      ⟨_, List.getElem?_eq_getElem (by omega)⟩
    rw [vectorAt_eq_ok.mpr hlast, ok_bind]
    split
    · rename_i habove
      refine ⟨none, fun i entry hi hentry => ?_, rfl⟩
      have hlt := (List.getElem?_eq_some_iff.mp hentry).1
      exact Int64.le_trans (hmono i _ _ _ hi (by omega) hentry hlast) (Int64.le_of_lt habove)
    · obtain ⟨r, hsearch, hr⟩ := @searchActivated_spec _ amount hmono
        (metadataTraversal ob.committedOffers).length 1
        ((metadataTraversal ob.committedOffers).length - 1) (le_refl 1) (by omega) (by omega)
        (fun i _ hi hlt => by omega) (fun _ hlt => by omega) (by omega)
      refine ⟨r, hr, ?_⟩
      rw [hsearch]
      rfl

/-- While the amounts of a book are within an `int64_t`, the result is the largest smoothing at
which the book sells no more than an amount. -/
theorem maxFeasibleSmoothMult_largest (ob : Orderbook) (hlisted : ob.committedOffers.Listed)
    (hfits : ob.committedOffers.totalEndow ≤ 2 ^ 63 - 1) (prices : List Price)
    (hprices : ∀ p ∈ prices, p.isValidPrice = true)
    (hsellAsset : ob.category.sellAsset.toNat < prices.length)
    (hbuyAsset : ob.category.buyAsset.toNat < prices.length)
    (hrate : prices[ob.category.sellAsset.toNat].toNat <
      2 ^ 40 * prices[ob.category.buyAsset.toNat].toNat)
    (amount : Int64) (hamount : 0 ≤ amount) :
    ∃ s, ob.generateMetadataIndex.maxFeasibleSmoothMult amount prices = .ok s ∧
      LargestFeasible ob.committedOffers prices[ob.category.sellAsset.toNat]
        prices[ob.category.buyAsset.toNat] amount s := by
  have hbuy : prices[ob.category.buyAsset.toNat] ≠ 0 := by
    intro hzero
    have hvalid := Price.isValidPrice_iff.mp (hprices _ (List.getElem_mem hbuyAsset))
    rw [hzero] at hvalid
    exact absurd hvalid.1 (by decide)
  obtain ⟨rate, hdivide, hrate'⟩ := dividePrices_spec prices[ob.category.sellAsset.toNat] hbuy
  rw [Nat.mod_eq_of_lt ((rate_lt_iff hbuy).mpr hrate)] at hrate'
  obtain ⟨r, hfirst, hresult⟩ := @maxFeasibleSmoothMult_eq ob hlisted hfits prices _ _ rate amount
    (vectorAt_eq_ok.mpr (List.getElem?_eq_getElem hsellAsset))
    (vectorAt_eq_ok.mpr (List.getElem?_eq_getElem hbuyAsset)) hdivide
  rw [hresult]
  exact smoothMultAt_spec hlisted hfits hamount hbuy hrate' hfirst

/-- At rate one, 100 of 300 units are sold below the price one half. -/
theorem maxFeasibleSmoothMult_largest_listing :
    ∃ s, (listing [(100, 500), (200, 8388608)]).generateMetadataIndex.maxFeasibleSmoothMult 100
        [1, 1] = .ok s ∧
      LargestFeasible (listing [(100, 500), (200, 8388608)]).committedOffers 1 1 100 s :=
  maxFeasibleSmoothMult_largest (listing [(100, 500), (200, 8388608)])
    (listed_of_entries (by decide +kernel)) (by decide +kernel) [1, 1]
    (by simp [Price.isValidPrice_iff]) (by decide +kernel) (by decide +kernel) (by decide) 100
    (by decide)

/-- Two offers of `2^62` units are above every amount of an `int64_t`, and the result is 255. -/
theorem maxFeasibleSmoothMult_wraps : ¬ ∀ (ob : Orderbook) (prices : List Price)
    (hsellAsset : ob.category.sellAsset.toNat < prices.length)
    (hbuyAsset : ob.category.buyAsset.toNat < prices.length) (amount : Int64),
    ob.committedOffers.Listed → (∀ p ∈ prices, p.isValidPrice = true) →
    prices[ob.category.sellAsset.toNat].toNat < 2 ^ 40 * prices[ob.category.buyAsset.toNat].toNat →
    0 ≤ amount →
    ∃ s, ob.generateMetadataIndex.maxFeasibleSmoothMult amount prices = .ok s ∧
      LargestFeasible ob.committedOffers prices[ob.category.sellAsset.toNat]
        prices[ob.category.buyAsset.toNat] amount s := by
  intro hall
  obtain ⟨s, hresult, hlargest⟩ := hall (listing [(2 ^ 62, 500), (2 ^ 62, 500)]) [1, 1]
    (by decide +kernel) (by decide +kernel) (2 ^ 63 - 1) (listed_of_entries (by decide +kernel))
    (by simp [Price.isValidPrice_iff]) (by decide +kernel) (by decide +kernel)
  have hcode : (listing [(2 ^ 62, 500), (2 ^ 62, 500)]).generateMetadataIndex.maxFeasibleSmoothMult
      (2 ^ 63 - 1) [1, 1] = .ok 255 := by decide +kernel
  cases hresult.symm.trans hcode
  exact absurd (hlargest.unbounded.mp rfl) (by decide +kernel)

end Orderbook

end Speedex
