import Speedex.Orderbook.Manager
import Speedex.Orderbook.Rounding
import Speedex.Orderbook.Steps

/-! Production clearing conserves assets.  The clearing check compares totals, each rounded once,
while money moves offer by offer; as every rounding of a credit is down, the credits together stay
within the totals. -/

namespace Speedex

open Lib

/-! ### The totals of the clearing check -/

section Totals

variable (supplyActivated : List FractionalAsset) (prices : List Price)

/-- The raw supply that orderbook `i` activates. -/
def rawSupply (i : Nat) : Nat := (supplyActivated.getD i default).value.toNat

/-- The whole units of asset `a` that orderbook `i` sells. -/
def supplyOf (a i : Nat) : Nat :=
  if (categoryFromIdx i prices.length).sellAsset.toNat = a then rawSupply supplyActivated i ⌈/⌉ 2 ^ 10
  else 0

/-- The raw demand for asset `a` of orderbook `i`. -/
def demandOf (a i : Nat) : Nat :=
  let category := categoryFromIdx i prices.length
  if category.buyAsset.toNat = a then
    exchanged (prices.getD category.sellAsset.toNat 0).toNat
      (prices.getD category.buyAsset.toNat 0).toNat (rawSupply supplyActivated i)
  else 0

def totalSupply (a : Nat) (books : List Nat) : Nat :=
  (books.map (supplyOf supplyActivated prices a)).sum

def totalDemand (a : Nat) (books : List Nat) : Nat :=
  (books.map (demandOf supplyActivated prices a)).sum

end Totals

theorem toNat_ceil (x : FractionalAsset) : x.ceil.toNat = x.value.toNat ⌈/⌉ 2 ^ 10 := by
  have hlt := x.value.isLt
  rw [ceilDiv_eq (by decide), FractionalAsset.ceil, FractionalAsset.floor, BitVec.toNat_add,
    BitVec.toNat_ushiftRight, Nat.shiftRight_eq_div_pow]
  have hlowbits : x.value &&& FractionalAsset.getLowbitsMask FractionalAsset.radix ≠ 0 ↔
      x.value.toNat % 2 ^ 10 ≠ 0 := lowbits_ne_zero (by decide)
  by_cases hlow : x.value &&& FractionalAsset.getLowbitsMask FractionalAsset.radix ≠ 0
  · rw [if_pos hlow, if_pos (hlowbits.mp hlow)]
    show (x.value.toNat / 2 ^ 10 + 1) % 2 ^ 128 = _
    omega
  · rw [if_neg hlow, if_neg (mt hlowbits.mpr hlow)]
    show (x.value.toNat / 2 ^ 10 + 0) % 2 ^ 128 = _
    omega

theorem toNat_fromIntegral (x : BitVec 128) :
    (FractionalAsset.fromIntegral x).value.toNat = x.toNat * 2 ^ 10 % 2 ^ 128 := by
  rw [FractionalAsset.fromIntegral, BitVec.toNat_shiftLeft, Nat.shiftLeft_eq]
  rfl

theorem getD_of_vectorAt {α : Type} {l : List α} {i : Nat} {a d : α} (h : vectorAt l i = .ok a) :
    l.getD i d = a := by
  rw [vectorAt_eq_ok] at h
  simp [h]

theorem toNat_getD_modify {l : List FractionalAsset} {i a : Nat} {x : FractionalAsset}
    (ha : a < l.length) :
    ((l.modify i (· + x)).getD a default).value.toNat =
      ((l.getD a default).value.toNat + if i = a then x.value.toNat else 0) % 2 ^ 128 := by
  have hlt := (l.getD a default).value.isLt
  simp only [List.getD_eq_getElem?_getD, List.getElem?_modify] at hlt ⊢
  by_cases h : i = a
  · subst h
    simp only [List.getElem?_eq_getElem ha, if_true, Option.getD_some]
    exact BitVec.toNat_add ..
  · rw [if_neg h, Nat.add_zero, Nat.mod_eq_of_lt hlt]
    simp [h]

theorem taxed_mul_le (t value : Nat) : taxed t value * 2 ^ 10 ≤ value := by
  exact (Nat.div_mul_le_self _ _).trans (Nat.sub_le _ _)

variable {supplyActivated : List FractionalAsset} {prices : List Price}

/-- The loop over the orderbooks computes the totals, up to the width of the sums. -/
theorem addSupplyAndDemand_totals {books : List Nat}
    {totals totals' : List FractionalAsset × List FractionalAsset}
    (h : books.foldlM (addSupplyAndDemand supplyActivated prices) totals = .ok totals') {a : Nat}
    (h₁ : a < totals.1.length) (h₂ : a < totals.2.length) :
    (totals'.1.getD a default).value.toNat = ((totals.1.getD a default).value.toNat +
        totalSupply supplyActivated prices a books * 2 ^ 10) % 2 ^ 128 ∧
      (totals'.2.getD a default).value.toNat = ((totals.2.getD a default).value.toNat +
        totalDemand supplyActivated prices a books) % 2 ^ 128 := by
  induction books generalizing totals with
  | nil =>
    cases h
    have hs := (totals'.1.getD a default).value.isLt
    have hd := (totals'.2.getD a default).value.isLt
    simp only [totalSupply, totalDemand, List.map_nil, List.sum_nil, Nat.zero_mul, Nat.add_zero]
    exact ⟨(Nat.mod_eq_of_lt hs).symm, (Nat.mod_eq_of_lt hd).symm⟩
  | cons i books ih =>
    obtain ⟨mid, hstep, h⟩ := foldlM_cons.mp h
    obtain ⟨supply, hsupply, hstep⟩ := bind_eq_ok.mp hstep
    obtain ⟨sellPrice, hsell, hstep⟩ := bind_eq_ok.mp hstep
    obtain ⟨buyPrice, hbuy, hstep⟩ := bind_eq_ok.mp hstep
    obtain ⟨raw, hraw, hstep⟩ := bind_eq_ok.mp hstep
    cases hstep
    obtain ⟨ih₁, ih₂⟩ := ih h (by simpa using h₁) (by simpa using h₂)
    have hraw := (toNat_wideMultiply hraw).2
    have hs : rawSupply supplyActivated i = supply.value.toNat := by
      rw [rawSupply, getD_of_vectorAt hsupply]
    have hceil := toNat_ceil supply
    constructor
    · rw [ih₁, toNat_getD_modify h₁, toNat_fromIntegral, hceil]
      simp only [totalSupply, List.map_cons, List.sum_cons, supplyOf, hs]
      split <;> omega
    · rw [ih₂, toNat_getD_modify h₂]
      show ((_ + if _ then raw.toNat else 0) % _ + _) % _ = _
      simp only [totalDemand, List.map_cons, List.sum_cons, demandOf, hs, getD_of_vectorAt hsell,
        getD_of_vectorAt hbuy, hraw]
      split <;> simp only [Nat.add_mod_mod, Nat.mod_add_mod, Nat.add_assoc, Nat.zero_add]

/-- What an accepted clearing says of the exact totals, when none of them wraps. -/
theorem suppliesClear_totals {taxRate : UInt8}
    (h : suppliesClear supplyActivated prices taxRate = .ok true) {a : Nat} (ha : a < prices.length)
    (hsupply : totalSupply supplyActivated prices a (List.range supplyActivated.length) * 2 ^ 10 <
      2 ^ 128)
    (hdemand : totalDemand supplyActivated prices a (List.range supplyActivated.length) < 2 ^ 128) :
    taxed (shiftCount taxRate) (totalDemand supplyActivated prices a (List.range supplyActivated.length)) ≤
      totalSupply supplyActivated prices a (List.range supplyActivated.length) := by
  obtain ⟨totals, htotals, h⟩ := bind_eq_ok.mp h
  obtain ⟨hs, hd⟩ := addSupplyAndDemand_totals htotals (a := a) (by simpa using ha)
    (by simpa using ha)
  have hzero : (List.replicate prices.length (default : FractionalAsset)).getD a default = default := by
    simp [ha]
  rw [hzero, show (default : FractionalAsset).value.toNat = 0 from rfl, Nat.zero_add] at hs hd
  rw [Nat.mod_eq_of_lt hsupply] at hs
  rw [Nat.mod_eq_of_lt hdemand] at hd
  have hcovers := allM_eq_ok_true.mp h a (List.mem_range.mpr ha)
  obtain ⟨r, hr, hcovers⟩ := bind_eq_ok.mp hcovers
  have hr := toNat_taxAndRound hr
  simp only [pure, Except.pure, Except.ok.injEq, Bool.not_eq_true', decide_eq_false_iff_not,
    BitVec.not_lt, BitVec.le_def, toNat_fromIntegral, hs, hr, hd] at hcovers
  have hle : taxed (shiftCount taxRate) (totalDemand supplyActivated prices a
      (List.range supplyActivated.length)) * 2 ^ 10 < 2 ^ 128 :=
    (taxed_mul_le _ _).trans_lt hdemand
  rw [Nat.mod_eq_of_lt hle] at hcovers
  exact Nat.le_of_mul_le_mul_right hcovers (by decide)

/-! ### Executions -/

/-- The credit that an execution gives. -/
def Execution.credit (db : MemoryDatabase) (e : Execution) : MemoryDatabase :=
  match db.lookupUser e.offer.owner with
  | none => db
  | some idx => db.transferAvailable idx e.offer.category.buyAsset e.buyAmount

/-- The sum of what executions credit in asset `a`. -/
def credited (a : Nat) (executed : List Execution) : Int :=
  (executed.map fun e => if e.offer.category.buyAsset.toNat = a then e.buyAmount.toInt else 0).sum

theorem credited_append (a : Nat) (l₁ l₂ : List Execution) :
    credited a (l₁ ++ l₂) = credited a l₁ + credited a l₂ := by
  simp [credited]

theorem narrowToInt64_le (x : BitVec 128) : (narrowToInt64 x).toInt ≤ x.toNat := by
  have hle : ((x.setWidth 64).toNat : Int) ≤ x.toNat := by
    rw [BitVec.toNat_setWidth]
    exact_mod_cast Nat.mod_le _ _
  refine le_trans ?_ hle
  rw [narrowToInt64, Int64.toInt_ofBitVec, BitVec.toInt_eq_toNat_cond]
  split <;> omega

theorem partialBuyAmount_le {amount : FractionalAsset} {sellPrice buyPrice : Price} {taxRate : UInt8}
    {b : Int64} (h : partialBuyAmount amount sellPrice buyPrice taxRate = .ok b)
    (hfit : exchanged sellPrice.toNat buyPrice.toNat amount.value.toNat < 2 ^ 128) :
    b.toInt ≤ taxed (shiftCount taxRate) (exchanged sellPrice.toNat buyPrice.toNat amount.value.toNat) := by
  obtain ⟨rounded, hrounded, rfl⟩ := partialBuyAmount_eq_ok h hfit
  exact (narrowToInt64_le rounded).trans_eq (congrArg _ hrounded)

theorem toNat_fromIntegral_amount (amount : UInt64) :
    (FractionalAsset.fromIntegral (widenUInt64 amount)).value.toNat = amount.toNat * 2 ^ 10 := by
  have hlt := amount.toNat_lt
  rw [toNat_fromIntegral, widenUInt64, toNat_widenPrice]
  omega

/-- The credits of fully cleared offers, with what they are at most. -/
theorem applyClearing_executed {sellPrice buyPrice : Price} {taxRate : UInt8} {s s' : ClearingState}
    {offers : List Offer} (h : applyClearing sellPrice buyPrice taxRate s offers = .ok s')
    (hfit : ∀ o ∈ offers,
      exchanged sellPrice.toNat buyPrice.toNat (o.amount.toNat * 2 ^ 10) < 2 ^ 128) :
    ∃ es, s'.executed = s.executed ++ es ∧ s'.db = es.foldl Execution.credit s.db ∧
      (∀ e ∈ es, e.offer ∈ offers) ∧
      (es.map fun e => e.buyAmount.toInt).sum ≤ ((offers.map fun o => taxed (shiftCount taxRate)
        (exchanged sellPrice.toNat buyPrice.toNat (o.amount.toNat * 2 ^ 10))).sum : Nat) := by
  induction offers generalizing s with
  | nil =>
    cases h
    exact ⟨[], by simp⟩
  | cons o offers ih =>
    obtain ⟨s₁, hstep, h⟩ := foldlM_cons.mp h
    obtain ⟨-, -, idx, b, huser, hbuy, rfl⟩ := completeClearing_eq_ok.mp hstep
    obtain ⟨es, hes, hdb, hmem, hsum⟩ := ih h fun o' ho' => hfit o' (List.mem_cons_of_mem _ ho')
    have hb := partialBuyAmount_le
      (show partialBuyAmount (.fromIntegral (widenUInt64 o.amount)) _ _ _ = _ from hbuy) (by
        rw [toNat_fromIntegral_amount]
        exact hfit o List.mem_cons_self)
    rw [toNat_fromIntegral_amount] at hb
    refine ⟨⟨o, o.amount, b⟩ :: es, ?_, ?_, ?_, ?_⟩
    · rw [hes, List.append_assoc]
      rfl
    · rw [hdb, List.foldl_cons]
      congr 1
      simp [Execution.credit, huser]
    · intro e he
      rcases List.mem_cons.mp he with rfl | he
      · exact List.mem_cons_self
      · exact List.mem_cons_of_mem _ (hmem e he)
    · simp only [List.map_cons, List.sum_cons]
      omega

/-! ### One orderbook -/

namespace Orderbook

open OrderbookTrie

theorem totalEndow_split (t : OrderbookTrie) (supply : FractionalAsset) :
    (splitAmount t supply).1.totalEndow + (splitAmount t supply).2.totalEndow = t.totalEndow :=
  SortedMap.sum_filter_add ..

/-- What is split off is within the supply. -/
theorem totalEndow_cleared_le (t : OrderbookTrie) (supply : FractionalAsset) :
    (splitAmount t supply).1.totalEndow ≤ supply.floor.toNat :=
  SortedMap.sum_splitWithin_le ..

/-- The lowest remaining offer would not fit in the supply. -/
theorem floor_lt_of_lowest {t : OrderbookTrie} {supply : FractionalAsset} {key : OfferKey}
    {leaf : OfferLeaf} (hlowest : (splitAmount t supply).2.getLowestKey = some key)
    (hfind : (splitAmount t supply).2.find? key = some leaf) :
    supply.floor.toNat < (splitAmount t supply).1.totalEndow + leaf.offer.amount.toNat := by
  obtain ⟨⟨k, leaf'⟩, hmin, rfl⟩ := Option.map_eq_some_iff.mp hlowest
  have hleaf := SortedMap.find?_of_min? hmin
  cases hleaf.symm.trans hfind
  exact_mod_cast SortedMap.lt_sum_splitWithin_of_min? hmin

theorem toNat_floor (x : FractionalAsset) : x.floor.toNat = x.value.toNat / 2 ^ 10 := by
  rw [FractionalAsset.floor, BitVec.toNat_ushiftRight, Nat.shiftRight_eq_div_pow]
  rfl

theorem toNat_endow {t : OrderbookTrie} (h : t.totalEndow < 2 ^ 63) :
    (FractionalAsset.fromIntegral (widenInt64 t.rootEndow)).value.toNat = t.totalEndow * 2 ^ 10 := by
  have hvec : (t.rootEndow.toBitVec).toNat = t.totalEndow := by
    show (BitVec.ofNat 64 t.totalEndow).toNat = _
    rw [BitVec.toNat_ofNat]
    omega
  have hmsb : t.rootEndow.toBitVec.msb = false := by
    rw [BitVec.msb_eq_decide, hvec]
    exact decide_eq_false (by omega)
  rw [toNat_fromIntegral, widenInt64, BitVec.signExtend_eq_setWidth_of_msb_false hmsb,
    BitVec.toNat_setWidth, hvec]
  omega

/-- What remains to clear is the rest of the supply. -/
theorem toNat_remainingToClear {t : OrderbookTrie} {supply : FractionalAsset}
    (hfloor : supply.floor ≤ 2 ^ 63 - 1) :
    (remainingToClear t supply).value.toNat =
      supply.value.toNat - (splitAmount t supply).1.totalEndow * 2 ^ 10 := by
  have hle := totalEndow_cleared_le t supply
  have hmax : supply.floor.toNat ≤ 2 ^ 63 - 1 := by simpa [BitVec.le_def] using hfloor
  have hendow := toNat_endow (t := (splitAmount t supply).1) (by omega)
  have hlt := supply.value.isLt
  rw [toNat_floor] at hle
  show (supply.value - _).toNat = _
  rw [BitVec.toNat_sub, hendow]
  omega

theorem accumulateValues_eq (t : OrderbookTrie) :
    t.accumulateValues = t.values.map OfferLeaf.offer := by
  simp [accumulateValues, offers, SortedMap.values, SortedMap.map, Function.comp_def]

theorem totalEndow_eq (t : OrderbookTrie) :
    t.totalEndow = (t.accumulateValues.map fun o => o.amount.toNat).sum := by
  rw [accumulateValues_eq, List.map_map]
  rfl

theorem mem_accumulateValues {t : OrderbookTrie} {o : Offer} (h : o ∈ t.accumulateValues) :
    ∃ key leaf, t.find? key = some leaf ∧ leaf.offer = o := by
  rw [accumulateValues_eq, List.mem_map] at h
  obtain ⟨leaf, hleaf, rfl⟩ := h
  obtain ⟨⟨key, leaf'⟩, hmem, rfl⟩ := List.mem_map.mp hleaf
  exact ⟨key, leaf', SortedMap.mem_entries.mp hmem, rfl⟩

/-- The credits of the offers that clear fully. -/
theorem applyClearing_cleared {t : OrderbookTrie} {s s' : ClearingState} {sellPrice buyPrice : Price}
    {taxRate : UInt8} {supply : Nat}
    (h : applyClearing sellPrice buyPrice taxRate s t.accumulateValues = .ok s')
    (hsupply : t.totalEndow * 2 ^ 10 ≤ supply)
    (hfit : exchanged sellPrice.toNat buyPrice.toNat supply < 2 ^ 128) :
    ∃ es, s'.executed = s.executed ++ es ∧ s'.db = es.foldl Execution.credit s.db ∧
      (∀ e ∈ es, e.offer ∈ t.accumulateValues) ∧
      (es.map fun e => e.buyAmount.toInt).sum ≤ taxed (shiftCount taxRate)
        (exchanged sellPrice.toNat buyPrice.toNat (t.totalEndow * 2 ^ 10)) := by
  have hmono := (superadditive_exchanged sellPrice.toNat buyPrice.toNat).monotone
  obtain ⟨es, hes, hdb, hmem, hsum⟩ := applyClearing_executed h fun o ho => by
    have hle : o.amount.toNat ≤ t.totalEndow := by
      rw [totalEndow_eq]
      exact List.single_le_sum (by simp) _ (List.mem_map_of_mem ho)
    have hamount := (Nat.mul_le_mul_right (2 ^ 10) hle).trans hsupply
    exact lt_of_le_of_lt (hmono hamount) hfit
  refine ⟨es, hes, hdb, hmem, hsum.trans ?_⟩
  have hsuper := ((superadditive_taxed (shiftCount taxRate)).comp
    (superadditive_exchanged sellPrice.toNat buyPrice.toNat)).sum_le
      (t.accumulateValues.map fun o => o.amount.toNat * 2 ^ 10)
  rw [List.map_map, List.sum_map_mul_right, ← totalEndow_eq] at hsuper
  exact_mod_cast hsuper

theorem toNat_narrowToInt64 (x : BitVec 128) :
    (narrowToInt64 x).toUInt64.toNat = x.toNat % 2 ^ 64 := by
  show (x.setWidth 64).toNat = _
  rw [BitVec.toNat_setWidth]

theorem toNat_reduced {offer : Offer} {sellAmount : UInt64} (h : sellAmount ≤ offer.amount) :
    (reduced offer sellAmount).amount.toNat = offer.amount.toNat - sellAmount.toNat :=
  UInt64.toNat_sub_of_le _ _ h

/-- Inserting what is left of an offer adds just that to the book. -/
theorem totalEndow_put_back (t : OrderbookTrie) (key : OfferKey) (offer : Offer) :
    OrderbookTrie.totalEndow (if offer.amount > 0 then
      OrderbookTrie.insertOffer (t.erase key) key offer else t.erase key) =
      offer.amount.toNat + OrderbookTrie.totalEndow (t.erase key) := by
  by_cases h : offer.amount > 0
  · rw [if_pos h]
    exact SortedMap.sum_insert_erase t key _ OfferLeaf.endow
  · have hzero : offer.amount.toNat = 0 := by
      rw [gt_iff_lt, UInt64.lt_iff_toNat_lt] at h
      exact Nat.eq_zero_of_not_pos h
    rw [if_neg h, hzero, Nat.zero_add]

theorem ProcessClear.exists_prices {ob ob' : Orderbook} {s s' : ClearingState} {supply : FractionalAsset}
    {prices : List Price} {taxRate : UInt8} {c : SingleOrderbookStateCommitment}
    (h : ProcessClear ob s supply prices taxRate ob' s' c) :
    ∃ sellPrice buyPrice, vectorAt prices ob.category.sellAsset.toNat = .ok sellPrice ∧
      vectorAt prices ob.category.buyAsset.toNat = .ok buyPrice := by
  cases h with
  | everything _ hsell hbuy => exact ⟨_, _, hsell, hbuy⟩
  | belowPartial _ hsell hbuy => exact ⟨_, _, hsell, hbuy⟩

/-- What `process_clear_offers` executes: the credits stay within the taxed exchange of the whole
supply, and the supply, rounded up, is taken from the book. -/
theorem processClear_executed {ob ob' : Orderbook} {s s' : ClearingState} {supply : FractionalAsset}
    {prices : List Price} {taxRate : UInt8} {c : SingleOrderbookStateCommitment}
    {sellPrice buyPrice : Price} (h : ProcessClear ob s supply prices taxRate ob' s' c)
    (hsell : vectorAt prices ob.category.sellAsset.toNat = .ok sellPrice)
    (hbuy : vectorAt prices ob.category.buyAsset.toNat = .ok buyPrice)
    (hfit : exchanged sellPrice.toNat buyPrice.toNat supply.value.toNat < 2 ^ 128) :
    ob'.category = ob.category ∧
    ob'.committedOffers.totalEndow + supply.value.toNat ⌈/⌉ 2 ^ 10 = ob.committedOffers.totalEndow ∧
    ∃ es, s'.executed = s.executed ++ es ∧ s'.db = es.foldl Execution.credit s.db ∧
      (∀ e ∈ es, ∃ key leaf, ob.committedOffers.find? key = some leaf ∧ leaf.offer = e.offer) ∧
      (es.map fun e => e.buyAmount.toInt).sum ≤ taxed (shiftCount taxRate)
        (exchanged sellPrice.toNat buyPrice.toNat supply.value.toNat) := by
  have hle := totalEndow_cleared_le ob.committedOffers supply
  have hsplit := totalEndow_split ob.committedOffers supply
  rw [toNat_floor] at hle
  have hwithin : (splitAmount ob.committedOffers supply).1.totalEndow * 2 ^ 10 ≤ supply.value.toNat := by
    omega
  have hof : ∀ key leaf, (splitAmount ob.committedOffers supply).1.find? key = some leaf →
      ob.committedOffers.find? key = some leaf := by
    intro key leaf hfind
    simp only [splitAmount, endowSplit, SortedMap.splitWithin, SortedMap.find?_filter] at hfind
    exact (Option.filter_eq_some_iff.mp hfind).1
  cases h with
  | everything hfloor hsell' hbuy' hclear hlowest hremaining hlmdb =>
    cases hsell.symm.trans hsell'
    cases hbuy.symm.trans hbuy'
    have hrem := toNat_remainingToClear (t := ob.committedOffers) hfloor
    rw [hremaining, toNat_fromIntegral] at hrem
    have hempty : (splitAmount ob.committedOffers supply).2 = ∅ := by
      rw [← SortedMap.min?_eq_none]
      simpa [getLowestKey] using hlowest
    obtain ⟨es, hes, hdb, hmem, hsum⟩ := applyClearing_cleared hclear hwithin hfit
    have hall : supply.value.toNat = (splitAmount ob.committedOffers supply).1.totalEndow * 2 ^ 10 := by
      simp at hrem
      omega
    refine ⟨rfl, ?_, es, hes, hdb, ?_, hall ▸ hsum⟩
    · show (splitAmount ob.committedOffers supply).2.totalEndow + _ = _
      rw [hall, ceilDiv_eq (by decide)]
      simp
      omega
    · intro e he
      obtain ⟨key, leaf, hfind, hoffer⟩ := mem_accumulateValues (hmem e he)
      exact ⟨key, leaf, hof key leaf hfind, hoffer⟩
  | belowPartial hfloor hsell' hbuy' hclear hlowest hfind huser hcredit hsellAmount hamount hlmdb =>
    rename_i leaf idx buyAmount sellAmount
    cases hsell.symm.trans hsell'
    cases hbuy.symm.trans hbuy'
    have hrem := toNat_remainingToClear (t := ob.committedOffers) hfloor
    have hfloorlt := floor_lt_of_lowest hlowest hfind
    rw [toNat_floor] at hfloorlt
    obtain ⟨es, hes, hdb, hmem, hsum⟩ := applyClearing_cleared hclear hwithin hfit
    -- the partial execution takes what remains of the supply, rounded up
    have hpartial : sellAmount.toUInt64.toNat = supply.value.toNat ⌈/⌉ 2 ^ 10 -
        (splitAmount ob.committedOffers supply).1.totalEndow := by
      have hlt := leaf.offer.amount.toNat_lt
      rw [hsellAmount, toNat_narrowToInt64, toNat_ceil, hrem, Nat.ceilDiv_eq_add_pred_div,
        Nat.ceilDiv_eq_add_pred_div]
      omega
    have hceil : (splitAmount ob.committedOffers supply).1.totalEndow ≤
        supply.value.toNat ⌈/⌉ 2 ^ 10 := by
      rw [Nat.ceilDiv_eq_add_pred_div]
      omega
    have hrest : (splitAmount ob.committedOffers supply).2.totalEndow = leaf.offer.amount.toNat +
        OrderbookTrie.totalEndow ((splitAmount ob.committedOffers supply).2.erase _) :=
      SortedMap.sum_erase hfind OfferLeaf.endow
    refine ⟨rfl, ?_, es ++ [⟨leaf.offer, sellAmount.toUInt64, buyAmount⟩], ?_, ?_, ?_, ?_⟩
    · have hreduced := toNat_reduced hamount
      show OrderbookTrie.totalEndow (if _ then _ else _) + _ = _
      rw [totalEndow_put_back, hreduced]
      rw [UInt64.le_iff_toNat_le] at hamount
      omega
    · rw [hes, List.append_assoc]
    · rw [List.foldl_append, ← hdb]
      simp [Execution.credit, huser]
    · intro e he
      rcases List.mem_append.mp he with he | he
      · obtain ⟨key, leaf, hfind, hoffer⟩ := mem_accumulateValues (hmem e he)
        exact ⟨key, leaf, hof key leaf hfind, hoffer⟩
      · cases List.mem_singleton.mp he
        simp only [splitAmount, endowSplit, SortedMap.splitWithin, SortedMap.find?_filter] at hfind
        exact ⟨_, leaf, (Option.filter_eq_some_iff.mp hfind).1, rfl⟩
    · have hbuyAmount := partialBuyAmount_le hcredit (by
        rw [hrem]
        exact lt_of_le_of_lt ((superadditive_exchanged _ _).monotone (Nat.sub_le _ _)) hfit)
      rw [hrem] at hbuyAmount
      have hsuper := (superadditive_taxed (shiftCount taxRate)).comp
        (superadditive_exchanged sellPrice.toNat buyPrice.toNat)
        ((splitAmount ob.committedOffers supply).1.totalEndow * 2 ^ 10)
        (supply.value.toNat - (splitAmount ob.committedOffers supply).1.totalEndow * 2 ^ 10)
      rw [Nat.add_sub_cancel' hwithin] at hsuper
      rw [List.map_append, List.sum_append, List.map_singleton, List.sum_singleton]
      exact (add_le_add hsum hbuyAmount).trans (by exact_mod_cast hsuper)

end Orderbook

/-! ### All orderbooks -/

/-- The amounts on offer for asset `a`. -/
def amountSelling (a : Nat) (books : List Orderbook) : Nat :=
  (books.map fun ob =>
    if ob.category.sellAsset.toNat = a then ob.committedOffers.totalEndow else 0).sum

/-- Every offer stands in the orderbook of its category, and the orderbooks in the order of
`category_to_idx`. -/
structure OrderbookManager.Categorized (m : OrderbookManager) : Prop where
  category : ∀ i ob, m.orderbooks[i]? = some ob → ob.category = categoryFromIdx i m.numAssets
  offers : ∀ ob ∈ m.orderbooks, ∀ key leaf, ob.committedOffers.find? key = some leaf →
    leaf.offer.category = ob.category

namespace OrderbookManager

theorem credited_of_category {a : Nat} {category : OfferCategory} {es : List Execution}
    (h : ∀ e ∈ es, e.offer.category = category) :
    credited a es =
      if category.buyAsset.toNat = a then (es.map fun e => e.buyAmount.toInt).sum else 0 := by
  rw [credited, List.map_congr_left (g := fun e =>
    if category.buyAsset.toNat = a then e.buyAmount.toInt else 0) fun e he => by rw [h e he]]
  split <;> simp

theorem taxed_zero (t : Nat) : taxed t 0 = 0 := by simp [taxed]

/-- The loop over the orderbooks from number `i` on: credits within the taxed demand of each, and
the supply of each, rounded up, taken from it. -/
theorem clearBooks_executed {params : ClearingParams} {prices : List Price} {i : Nat}
    {obs obs' : List Orderbook} {s s' : ClearingState} {details : OrderbookStateCommitment}
    (h : clearBooksForProduction params prices i obs s = .ok (obs', s', details))
    (hcategory : ∀ j ob, obs[j]? = some ob → ob.category = categoryFromIdx (i + j) prices.length)
    (hoffers : ∀ ob ∈ obs, ∀ key leaf, ob.committedOffers.find? key = some leaf →
      leaf.offer.category = ob.category)
    (hfit : ∀ a, totalDemand params.orderbookParams prices a (List.range' i obs.length) < 2 ^ 128) :
    ∃ es, s'.executed = s.executed ++ es ∧ s'.db = es.foldl Execution.credit s.db ∧
      ∀ a, credited a es ≤ (((List.range' i obs.length).map fun j =>
          taxed (shiftCount params.taxRate) (demandOf params.orderbookParams prices a j)).sum : Nat) ∧
        amountSelling a obs' + totalSupply params.orderbookParams prices a
          (List.range' i obs.length) = amountSelling a obs := by
  induction obs generalizing i s obs' details with
  | nil =>
    cases h
    exact ⟨[], by simp [credited, totalSupply]⟩
  | cons ob obs ih =>
    obtain ⟨supply, hsupply, h⟩ := bind_eq_ok.mp h
    obtain ⟨⟨ob₁, s₁, c⟩, hclear, h⟩ := bind_eq_ok.mp h
    obtain ⟨⟨obs₁, s₂, details₁⟩, hrest, h⟩ := bind_eq_ok.mp h
    cases h
    have hclear := Orderbook.processClear_cases hclear
    obtain ⟨sellPrice, buyPrice, hsell, hbuy⟩ := hclear.exists_prices
    have hcat : ob.category = categoryFromIdx i prices.length := hcategory 0 ob rfl
    have hraw : rawSupply params.orderbookParams i = supply.value.toNat := by
      rw [rawSupply, getD_of_vectorAt hsupply]
    have hdemand : ∀ a, demandOf params.orderbookParams prices a i =
        if ob.category.buyAsset.toNat = a then
          exchanged sellPrice.toNat buyPrice.toNat supply.value.toNat else 0 := by
      intro a
      rw [demandOf, ← hcat, getD_of_vectorAt hsell, getD_of_vectorAt hbuy, hraw]
    simp only [totalDemand, List.length_cons, List.range'_succ, List.map_cons, List.sum_cons] at hfit
    have hfits : exchanged sellPrice.toNat buyPrice.toNat supply.value.toNat < 2 ^ 128 := by
      have hone := hfit ob.category.buyAsset.toNat
      rw [hdemand, if_pos rfl] at hone
      exact lt_of_le_of_lt (Nat.le_add_right _ _) hone
    obtain ⟨hcat₁, htaken, es₁, hes₁, hdb₁, hmem₁, hsum₁⟩ :=
      Orderbook.processClear_executed hclear hsell hbuy hfits
    obtain ⟨es₂, hes₂, hdb₂, hall⟩ := ih hrest
      (fun j ob' hj => by
        rw [show i + 1 + j = i + (j + 1) by omega]
        exact hcategory (j + 1) ob' (by simpa using hj))
      (fun ob' hob' => hoffers ob' (List.mem_cons_of_mem _ hob'))
      (fun a => lt_of_le_of_lt (Nat.le_add_left _ _) (hfit a))
    refine ⟨es₁ ++ es₂, ?_, ?_, fun a => ⟨?_, ?_⟩⟩
    · rw [hes₂, hes₁, List.append_assoc]
    · rw [hdb₂, hdb₁, List.foldl_append]
    · have hcredit : credited a es₁ ≤ taxed (shiftCount params.taxRate)
          (demandOf params.orderbookParams prices a i) := by
        have hsame : ∀ e ∈ es₁, e.offer.category = ob.category := fun e he => by
          obtain ⟨key, leaf, hfind, hoffer⟩ := hmem₁ e he
          rw [← hoffer]
          exact hoffers ob List.mem_cons_self key leaf hfind
        rw [credited_of_category hsame, hdemand]
        split
        · exact hsum₁
        · rw [taxed_zero]
          rfl
      rw [credited_append, List.length_cons, List.range'_succ, List.map_cons, List.sum_cons,
        Nat.cast_add]
      exact add_le_add hcredit (hall a).1
    · have hrec := (hall a).2
      simp only [amountSelling, totalSupply, List.length_cons, List.range'_succ, List.map_cons,
        List.sum_cons, supplyOf, hraw, ← hcat, hcat₁] at hrec ⊢
      split <;> omega

/-- No total of the clearing check reaches 128 bits. -/
structure NoWrap (params : ClearingParams) (prices : List Price) : Prop where
  supply : ∀ a, totalSupply params.orderbookParams prices a
    (List.range params.orderbookParams.length) * 2 ^ 10 < 2 ^ 128
  demand : ∀ a, totalDemand params.orderbookParams prices a
    (List.range params.orderbookParams.length) < 2 ^ 128

/-- Production clearing conserves every asset: it credits at most what it takes from the offers that
sell the asset. -/
theorem clearOffersForProduction_conserves (m m' : OrderbookManager) (params : ClearingParams)
    (prices : List Price) (s s' : ClearingState) (details : OrderbookStateCommitment)
    (hm : m.Categorized) (hprices : prices.length = m.numAssets)
    (hparams : params.orderbookParams.length = m.orderbooks.length)
    (hcheck : params.checkClearing prices = .ok true) (hwrap : NoWrap params prices)
    (hclear : m.clearOffersForProduction s params prices = .ok (m', s', details)) :
    ∃ es, s'.executed = s.executed ++ es ∧ s'.db = es.foldl Execution.credit s.db ∧
      ∀ a < m.numAssets, credited a es + amountSelling a m'.orderbooks ≤
        amountSelling a m.orderbooks := by
  obtain ⟨⟨obs, s₁, details₁⟩, hbooks, h⟩ := bind_eq_ok.mp hclear
  cases h
  have hdemand := hwrap.demand
  rw [hparams, List.range_eq_range'] at hdemand
  obtain ⟨es, hes, hdb, hall⟩ := clearBooks_executed hbooks
    (fun j ob hj => by rw [Nat.zero_add, hprices]; exact hm.category j ob hj) hm.offers hdemand
  refine ⟨es, hes, hdb, fun a ha => ?_⟩
  obtain ⟨hcredit, htaken⟩ := hall a
  have hclears := suppliesClear_totals hcheck (hprices ▸ ha) (hwrap.supply a) (hwrap.demand a)
  rw [hparams, List.range_eq_range'] at hclears
  have hsuper := (superadditive_taxed (shiftCount params.taxRate)).sum_le
    ((List.range' 0 m.orderbooks.length).map (demandOf params.orderbookParams prices a))
  rw [List.map_map] at hsuper
  calc credited a es + amountSelling a obs
      ≤ (totalSupply params.orderbookParams prices a (List.range' 0 m.orderbooks.length) : Nat) +
        amountSelling a obs := by
        refine add_le_add (hcredit.trans ?_) le_rfl
        exact_mod_cast hsuper.trans hclears
    _ = amountSelling a m.orderbooks := by
        rw [← htaken, Nat.cast_add]
        exact Int.add_comm ..

/-- An orderbook with one offer, ready to be cleared in block 1. -/
def oneOffer (offer : Offer) : Orderbook where
  category := offer.category
  committedOffers := OrderbookTrie.insertOffer ∅ offer.key offer
  uncommittedOffers := ∅
  lmdb := ⟨[.new 1 false], ∅, 0⟩
  indexedMetadata := []

/-- Two offers of 100 units that sell to each other. -/
def twoBooks : OrderbookManager where
  orderbooks := [oneOffer ⟨⟨0, 1, .SELL⟩, 256, 7, 100, 2 ^ 24⟩,
    oneOffer ⟨⟨1, 0, .SELL⟩, 512, 7, 100, 2 ^ 24⟩]
  numAssets := 2

/-- Both offers trade, one of them up to a fraction of a unit. -/
def twoBooksParams : ClearingParams := ⟨10, [⟨100 * 2 ^ 10⟩, ⟨99 * 2 ^ 10 + 1⟩]⟩

def unitPrices : List Price := [2 ^ 24, 2 ^ 24]

theorem supplyOf_le (supplyActivated : List FractionalAsset) (prices : List Price) (a i : Nat) :
    supplyOf supplyActivated prices a i ≤ rawSupply supplyActivated i ⌈/⌉ 2 ^ 10 := by
  unfold supplyOf
  split
  · exact le_rfl
  · exact Nat.zero_le _

theorem demandOf_le (supplyActivated : List FractionalAsset) (prices : List Price) (a i : Nat) :
    demandOf supplyActivated prices a i ≤
      exchanged (prices.getD (categoryFromIdx i prices.length).sellAsset.toNat 0).toNat
        (prices.getD (categoryFromIdx i prices.length).buyAsset.toNat 0).toNat
        (rawSupply supplyActivated i) := by
  simp only [demandOf]
  split
  · exact le_rfl
  · exact Nat.zero_le _

theorem clearOffersForProduction_conserves_twoBooks :
    ∃ m' s' details,
      twoBooks.clearOffersForProduction ⟨.ofAccount 7, ∅, []⟩ twoBooksParams unitPrices =
        .ok (m', s', details) ∧
      ∃ es, s'.executed = es ∧ s'.db = es.foldl Execution.credit (.ofAccount 7) ∧
        ∀ a < 2, credited a es + amountSelling a m'.orderbooks ≤
          amountSelling a twoBooks.orderbooks := by
  obtain ⟨⟨m', s', details⟩, hclear, -⟩ := returns_iff.mp (show returns
    (twoBooks.clearOffersForProduction ⟨.ofAccount 7, ∅, []⟩ twoBooksParams unitPrices)
    (fun _ => true) = true by decide +kernel)
  refine ⟨m', s', details, hclear, ?_⟩
  refine clearOffersForProduction_conserves _ _ _ _ _ _ _ ⟨?_, ?_⟩ rfl rfl (by decide +kernel) ⟨?_, ?_⟩
    hclear
  · intro i ob hob
    match i, hob with
    | 0, hob => cases hob; decide
    | 1, hob => cases hob; decide
    | i + 2, hob => cases hob
  · intro ob hob key leaf hfind
    have hone : ∀ offer : Offer, ob = oneOffer offer → leaf.offer.category = ob.category := by
      rintro offer rfl
      simp only [oneOffer, OrderbookTrie.insertOffer, SortedMap.find?_insert, SortedMap.find?_empty]
        at hfind ⊢
      split at hfind
      · cases hfind
        rfl
      · cases hfind
    rcases List.mem_cons.mp hob with rfl | hob
    · exact hone _ rfl
    · exact hone _ (List.mem_singleton.mp hob)
  · intro a
    have h0 := (supplyOf_le twoBooksParams.orderbookParams unitPrices a 0).trans
      (show _ ≤ 100 by decide)
    have h1 := (supplyOf_le twoBooksParams.orderbookParams unitPrices a 1).trans
      (show _ ≤ 100 by decide)
    show (supplyOf twoBooksParams.orderbookParams unitPrices a 0 +
      (supplyOf twoBooksParams.orderbookParams unitPrices a 1 + 0)) * 2 ^ 10 < 2 ^ 128
    omega
  · intro a
    have h0 := (demandOf_le twoBooksParams.orderbookParams unitPrices a 0).trans
      (show _ ≤ 2 ^ 20 by decide)
    have h1 := (demandOf_le twoBooksParams.orderbookParams unitPrices a 1).trans
      (show _ ≤ 2 ^ 20 by decide)
    show demandOf twoBooksParams.orderbookParams unitPrices a 0 +
      (demandOf twoBooksParams.orderbookParams unitPrices a 1 + 0) < 2 ^ 128
    omega

end OrderbookManager

end Speedex
