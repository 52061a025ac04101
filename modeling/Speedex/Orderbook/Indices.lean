import Speedex.Orderbook.Checker

/-! The orderbook index of a category.  A row of indices for each asset that is sold, with a
position for each of the other assets: `category_to_idx` leaves out the diagonal, and
`category_from_idx` puts it back. -/

namespace Speedex

variable {id : OfferCategory} {idx n : Nat}

/-- The position of a pair of assets, among the pairs of different ones. -/
theorem pairIndex_lt {sell buy n : Nat} (hsell : sell < n) (hbuy : buy < n) :
    sell * (n - 1) + (buy - if sell < buy then 1 else 0) < n * (n - 1) ↔
      ¬ (sell = buy ∧ sell + 1 = n) := by
  obtain ⟨k, rfl⟩ : ∃ k, n = k + 1 := ⟨n - 1, by omega⟩
  rw [Nat.add_sub_cancel, Nat.add_mul, Nat.one_mul]
  split_ifs with hlt
  · have hmul : sell * k ≤ (k - 1) * k := Nat.mul_le_mul_right k (by omega)
    have hprev : (k - 1) * k + k = k * k := by
      rw [← Nat.succ_mul, Nat.succ_eq_add_one, Nat.sub_add_cancel (by omega)]
    omega
  · have hmul : sell * k ≤ k * k := Nat.mul_le_mul_right k (by omega)
    rcases Nat.lt_or_ge sell k with hlast | hlast
    · have hmul' : (sell + 1) * k ≤ k * k := Nat.mul_le_mul_right k hlast
      rw [Nat.add_mul, Nat.one_mul] at hmul'
      omega
    · obtain rfl : sell = k := by omega
      omega

theorem validateCategory_iff : validateCategory id n = true ↔
    id.sellAsset.toNat ≠ id.buyAsset.toNat ∧ id.sellAsset.toNat < n ∧ id.buyAsset.toNat < n ∧
      id.type = .SELL := by
  simp only [validateCategory, Bool.and_eq_true, decide_eq_true_eq, and_assoc, ne_eq,
    UInt32.toNat_inj]

theorem categoryToIdx_eq (hsell : id.sellAsset.toNat < n) (hbuy : id.buyAsset.toNat < n)
    (htype : id.type = .SELL) :
    categoryToIdx id n = .ok (id.sellAsset.toNat * (n - 1) + (id.buyAsset.toNat -
      if id.sellAsset.toNat < id.buyAsset.toNat then 1 else 0)) := by
  rw [categoryToIdx, if_neg (by omega), htype]
  simp only [gt_iff_lt, UInt32.lt_iff_toNat_lt]

theorem two_le_of_valid (h : validateCategory id n = true) : 2 ≤ n := by
  obtain ⟨hne, hsell, hbuy, -⟩ := validateCategory_iff.mp h
  omega

theorem two_le_of_index (h : idx < getNumOrderbooksByAssetCount n) : 2 ≤ n := by
  by_contra hlt
  have hzero : getNumOrderbooksByAssetCount n = 0 := by
    interval_cases n <;> rfl
  omega

/-- A position in a row, with the diagonal left out and put back. -/
theorem offset_roundtrip {sell buy : Nat} (hne : sell ≠ buy) :
    (if (buy - if sell < buy then 1 else 0) ≥ sell then
      (buy - if sell < buy then 1 else 0) + 1 else buy - if sell < buy then 1 else 0) = buy := by
  rcases Nat.lt_or_ge sell buy with hlt | hge
  · rw [if_pos hlt, if_pos (by omega)]
    omega
  · rw [if_neg (by omega), if_neg (by omega)]
    omega

/-- `category_from_idx` inverts `category_to_idx`. -/
theorem categoryToIdx_of_valid (h : validateCategory id n = true) :
    ∃ idx, categoryToIdx id n = .ok idx ∧ idx < getNumOrderbooksByAssetCount n ∧
      categoryFromIdx idx n = id := by
  have hn := two_le_of_valid h
  obtain ⟨hne, hsell, hbuy, htype⟩ := validateCategory_iff.mp h
  refine ⟨_, categoryToIdx_eq hsell hbuy htype, (pairIndex_lt hsell hbuy).mpr (fun h => hne h.1), ?_⟩
  have hwithin := (pairIndex_lt hsell hbuy).mpr (fun h => hne h.1)
  have hoffset : (id.buyAsset.toNat - if id.sellAsset.toNat < id.buyAsset.toNat then 1 else 0) <
      n - 1 := by
    split_ifs <;> omega
  have hdiv : (id.sellAsset.toNat * (n - 1) + (id.buyAsset.toNat -
      if id.sellAsset.toNat < id.buyAsset.toNat then 1 else 0)) / (n - 1) = id.sellAsset.toNat := by
    rw [Nat.mul_comm, Nat.mul_add_div (by omega), Nat.div_eq_of_lt hoffset, Nat.add_zero]
  have hmod : (id.sellAsset.toNat * (n - 1) + (id.buyAsset.toNat -
      if id.sellAsset.toNat < id.buyAsset.toNat then 1 else 0)) % (n - 1) = id.buyAsset.toNat -
        if id.sellAsset.toNat < id.buyAsset.toNat then 1 else 0 := by
    rw [Nat.mul_comm, Nat.mul_add_mod, Nat.mod_eq_of_lt hoffset]
  simp only [categoryFromIdx, Nat.mod_eq_of_lt hwithin, Nat.div_eq_of_lt hwithin, hdiv, hmod,
    offset_roundtrip hne, UInt32.ofNat_toNat, if_pos, ← htype]

theorem categoryFromIdx_lt (h : idx < getNumOrderbooksByAssetCount n) :
    (categoryFromIdx idx n).sellAsset.toNat < n ∧ (categoryFromIdx idx n).buyAsset.toNat < n := by
  have hn := two_le_of_index h
  have hmod : idx % (n * (n - 1)) = idx := Nat.mod_eq_of_lt h
  have hsell : idx / (n - 1) < n := Nat.div_lt_of_lt_mul (by rwa [Nat.mul_comm])
  have hbuy : idx % (n - 1) < n - 1 := Nat.mod_lt idx (by omega)
  simp only [categoryFromIdx, hmod, UInt32.toNat_ofNat']
  refine ⟨(Nat.mod_le _ _).trans_lt hsell, (Nat.mod_le _ _).trans_lt ?_⟩
  split <;> omega

/-- The assets of the category of an index. -/
theorem categoryFromIdx_assets (h : idx < getNumOrderbooksByAssetCount n) (hn : n ≤ 2 ^ 32) :
    (categoryFromIdx idx n).sellAsset.toNat = idx / (n - 1) ∧
      (categoryFromIdx idx n).buyAsset.toNat =
        (if idx % (n - 1) ≥ idx / (n - 1) then idx % (n - 1) + 1 else idx % (n - 1)) ∧
      idx / (n - 1) < n ∧ idx % (n - 1) < n - 1 := by
  have hn2 := two_le_of_index h
  have hmod : idx % (n * (n - 1)) = idx := Nat.mod_eq_of_lt h
  have hsell : idx / (n - 1) < n := Nat.div_lt_of_lt_mul (by rwa [Nat.mul_comm])
  have hbuy : idx % (n - 1) < n - 1 := Nat.mod_lt idx (by omega)
  refine ⟨?_, ?_, hsell, hbuy⟩
  · simp only [categoryFromIdx, hmod]
    rw [UInt32.toNat_ofNat', Nat.mod_eq_of_lt (by omega)]
  · simp only [categoryFromIdx, hmod]
    rw [UInt32.toNat_ofNat', Nat.mod_eq_of_lt (by split <;> omega)]

/-- The category of an index is valid, and `category_to_idx` gives the index back. -/
theorem categoryFromIdx_valid (h : idx < getNumOrderbooksByAssetCount n) (hn : n ≤ 2 ^ 32) :
    validateCategory (categoryFromIdx idx n) n = true ∧
      categoryToIdx (categoryFromIdx idx n) n = .ok idx := by
  obtain ⟨hsell, hbuy, hsellLt, hbuyLt⟩ := categoryFromIdx_assets h hn
  have htype : (categoryFromIdx idx n).type = .SELL := if_pos (Nat.div_eq_of_lt h)
  have hvalid : validateCategory (categoryFromIdx idx n) n = true := by
    rw [validateCategory_iff, hsell, hbuy]
    refine ⟨?_, hsellLt, ?_, htype⟩ <;> split <;> omega
  refine ⟨hvalid, ?_⟩
  obtain ⟨-, hsell', hbuy', -⟩ := validateCategory_iff.mp hvalid
  rw [categoryToIdx_eq hsell' hbuy' htype, hsell, hbuy]
  have hoffset : ((if idx % (n - 1) ≥ idx / (n - 1) then idx % (n - 1) + 1 else idx % (n - 1)) -
      if idx / (n - 1) < (if idx % (n - 1) ≥ idx / (n - 1) then idx % (n - 1) + 1
        else idx % (n - 1)) then 1 else 0) = idx % (n - 1) := by
    rcases Nat.lt_or_ge (idx % (n - 1)) (idx / (n - 1)) with hlt | hge
    · rw [if_neg (by omega), if_neg (by omega)]
      omega
    · rw [if_pos hge, if_pos (by omega)]
      omega
  rw [hoffset, Nat.mul_comm, Nat.div_add_mod]

/-- Two categories with one index are the same. -/
theorem categoryToIdx_inj {id' : OfferCategory} (h : validateCategory id n = true)
    (h' : validateCategory id' n = true) (hidx : categoryToIdx id n = categoryToIdx id' n) :
    id = id' := by
  obtain ⟨idx, hto, -, hfrom⟩ := categoryToIdx_of_valid h
  obtain ⟨idx', hto', -, hfrom'⟩ := categoryToIdx_of_valid h'
  obtain rfl : idx = idx' := Except.ok.inj (hto.symm.trans (hidx.trans hto'))
  exact hfrom.symm.trans hfrom'

end Speedex
