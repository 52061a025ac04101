import Speedex.Orderbook.Indices
import Speedex.Orderbook.Manager

/-! The orderbooks when assets are added (`increase_num_traded_assets` of
`orderbook/orderbook_manager.cc`), with the index arithmetic in `int` and `unsigned int`.  Each
index of the larger array names a category, and the category its place in the smaller one. -/

namespace Speedex

open Lib

/-! ### Index arithmetic -/

/-- `map_type_to_int`. -/
def mapTypeToInt : OfferType → Result Int32
  | .SELL => .ok 0
  | .invalid _ => .error (.runtimeError "invalid offer type")

/-- `map_int_to_type`. -/
def mapIntToType (type : Int32) : OfferType := if type = 0 then .SELL else .invalid (-1)

/-- `a / b` and `a % b` of `int`s. -/
def intDivMod (a b : Int32) : Result (Int32 × Int32) :=
  if b = 0 then .error .divisionByZero else .ok (a / b, a % b)

/-- `category_to_idx`, in `unsigned int` up to the index. -/
def categoryToIdxInt (id : OfferCategory) (assetCount : UInt32) : Result Int32 := do
  if id.sellAsset ≥ assetCount ∨ id.buyAsset ≥ assetCount then
    .error (.runtimeError "invalid asset number")
  else
    let unitsPerOrderType := (assetCount * (assetCount - 1)).toInt32
    let idxInOrderType := (id.sellAsset * (assetCount - 1) +
      (id.buyAsset - if id.buyAsset > id.sellAsset then 1 else 0)).toInt32
    let type ← mapTypeToInt id.type
    return unitsPerOrderType * type + idxInOrderType

/-- `category_from_idx`, in `int` up to the assets. -/
def categoryFromIdxInt (idx assetCount : Int32) : Result OfferCategory := do
  let unitsPerOrderType := assetCount * (assetCount - 1)
  let (type, remainder) ← intDivMod idx unitsPerOrderType
  let (sellAsset, buyAsset) ← intDivMod remainder (assetCount - 1)
  let sellAsset := sellAsset.toUInt32
  let buyAsset := buyAsset.toUInt32
  return {
    sellAsset := sellAsset
    buyAsset := if buyAsset ≥ sellAsset then buyAsset + 1 else buyAsset
    type := mapIntToType type }

section Index

variable {id : OfferCategory} {idx n : Nat}

/-- The pairs of `n` assets are within `int`. -/
def PairsWithinInt (n : Nat) : Prop := getNumOrderbooksByAssetCount n < 2 ^ 31

theorem PairsWithinInt.lt (h : PairsWithinInt n) : n < 2 ^ 16 := by
  by_contra hge
  have hmul : 2 ^ 16 * (2 ^ 16 - 1) ≤ n * (n - 1) := Nat.mul_le_mul (by omega) (by omega)
  simp only [PairsWithinInt, getNumOrderbooksByAssetCount] at h
  omega

theorem PairsWithinInt.mono {m : Nat} (h : PairsWithinInt m) (hle : n ≤ m) : PairsWithinInt n := by
  have hmul : n * (n - 1) ≤ m * (m - 1) := Nat.mul_le_mul hle (by omega)
  simp only [PairsWithinInt, getNumOrderbooksByAssetCount] at h ⊢
  omega

/-- Division is exact on `int`s that are not negative. -/
theorem intDivMod_ofNat {a b : Nat} (ha : a < 2 ^ 31) (hb : b < 2 ^ 31) (hpos : 0 < b) :
    intDivMod (.ofNat a) (.ofNat b) = .ok (.ofNat (a / b), .ofNat (a % b)) := by
  have hne : Int32.ofNat b ≠ 0 := by
    intro h
    have hzero := (Int32.toInt_ofNat_of_lt hb).symm.trans (congrArg Int32.toInt h)
    rw [Int32.toInt_zero] at hzero
    omega
  rw [intDivMod, if_neg hne, Int32.ofNat_div ha hb, Int32.ofNat_mod ha hb]

/-- `category_to_idx` is exact. -/
theorem categoryToIdxInt_eq (h : validateCategory id n = true) (hn : n < 2 ^ 32) :
    categoryToIdxInt id (.ofNat n) = Int32.ofNat <$> categoryToIdx id n := by
  have htwo := two_le_of_valid h
  obtain ⟨-, hsell, hbuy, htype⟩ := validateCategory_iff.mp h
  have hcount : (UInt32.ofNat n).toNat = n := UInt32.toNat_ofNat_of_lt' hn
  have hbounds : ¬ (id.sellAsset ≥ .ofNat n ∨ id.buyAsset ≥ .ofNat n) := by
    simp only [ge_iff_le, UInt32.le_iff_toNat_le, hcount]
    omega
  have hskip : (id.buyAsset - if id.buyAsset > id.sellAsset then 1 else 0) =
      .ofNat (id.buyAsset.toNat - if id.sellAsset.toNat < id.buyAsset.toNat then 1 else 0) := by
    simp only [gt_iff_lt, UInt32.lt_iff_toNat_lt]
    split_ifs with hlt
    · have hpos : 1 ≤ id.buyAsset.toNat := by omega
      rw [UInt32.ofNat_sub hpos, UInt32.ofNat_toNat]
      rfl
    · rw [UInt32.sub_zero, Nat.sub_zero, UInt32.ofNat_toNat]
  have hrow : UInt32.ofNat n - 1 = .ofNat (n - 1) := (@UInt32.ofNat_sub n 1 (by omega)).symm
  have hidx : id.sellAsset * UInt32.ofNat (n - 1) + UInt32.ofNat (id.buyAsset.toNat -
      if id.sellAsset.toNat < id.buyAsset.toNat then 1 else 0) =
      .ofNat (id.sellAsset.toNat * (n - 1) + (id.buyAsset.toNat -
        if id.sellAsset.toNat < id.buyAsset.toNat then 1 else 0)) := by
    rw [UInt32.ofNat_add, UInt32.ofNat_mul, UInt32.ofNat_toNat]
  rw [categoryToIdx_eq hsell hbuy htype, categoryToIdxInt, if_neg hbounds, htype, hskip, hrow, hidx]
  simp only [mapTypeToInt, ok_bind, Int32.mul_zero, Int32.zero_add, UInt32.toInt32_ofNat']
  rfl

/-- `category_from_idx` is exact. -/
theorem categoryFromIdxInt_eq (hidx : idx < getNumOrderbooksByAssetCount n)
    (hn : PairsWithinInt n) :
    categoryFromIdxInt (.ofNat idx) (.ofNat n) = .ok (categoryFromIdx idx n) := by
  have hlt := hn.lt
  have htwo := two_le_of_index hidx
  have hpos : 0 < n * (n - 1) := Nat.mul_pos (by omega) (by omega)
  have hn' : n * (n - 1) < 2 ^ 31 := hn
  have hidx' : idx < n * (n - 1) := hidx
  have hrow : Int32.ofNat n - 1 = .ofNat (n - 1) := (Int32.ofNat_sub n 1 (by omega)).symm
  have hdiv : idx / (n - 1) < 2 ^ 16 :=
    (Nat.div_lt_of_lt_mul (by rwa [Nat.mul_comm])).trans hlt
  have hmod : idx % (n - 1) < n - 1 := Nat.mod_lt idx (by omega)
  rw [categoryFromIdxInt]
  simp only [hrow, ← Int32.ofNat_mul]
  rw [intDivMod_ofNat (by omega) hn' hpos, Nat.div_eq_of_lt hidx', Nat.mod_eq_of_lt hidx']
  simp only [ok_bind]
  rw [intDivMod_ofNat (by omega) (by omega) (by omega)]
  simp only [ok_bind, Int32.toUInt32_ofNat', categoryFromIdx, Nat.div_eq_of_lt hidx',
    Nat.mod_eq_of_lt hidx', if_pos]
  simp only [ge_iff_le, UInt32.le_iff_toNat_le]
  rw [UInt32.toNat_ofNat_of_lt' (by rw [UInt32.size]; omega),
    UInt32.toNat_ofNat_of_lt' (by rw [UInt32.size]; omega)]
  split_ifs with hle
  · rw [UInt32.ofNat_add]
    rfl
  · rfl

end Index

/-! ### Growth -/

/-- The constructor: no offers, and the round number that the shared database reports. -/
def Orderbook.new (category : OfferCategory) (persistedRoundNumber : UInt64) : Orderbook :=
  ⟨category, ∅, ∅, ⟨[], ∅, persistedRoundNumber⟩, []⟩

/-- The loop of `increase_num_traded_assets`. -/
structure Growth where
  orderbooks : List Orderbook
  newOrderbooks : List Orderbook
  /-- the indices that were moved from, in order -/
  moved : List Nat

namespace OrderbookManager

/-- One index of the larger array.  A book that is moved from stays behind as a husk. -/
def growStep (husk : Orderbook → Orderbook) (persistedRoundNumber : UInt64) (numAssets : Nat)
    (newAssetCount : UInt16) (g : Growth) (i : Nat) : Result Growth := do
  let category ← categoryFromIdxInt (.ofNat i) (.ofNat newAssetCount.toNat)
  if category.buyAsset.toNat < numAssets ∧ category.sellAsset.toNat < numAssets then
    let oldIdx ← categoryToIdxInt category (.ofNat numAssets)
    let position := oldIdx.toInt64.toUInt64.toNat
    let book ← vectorAt g.orderbooks position
    return ⟨g.orderbooks.set position (husk book), g.newOrderbooks ++ [book], g.moved ++ [position]⟩
  else
    return { g with newOrderbooks := g.newOrderbooks ++ [.new category persistedRoundNumber] }

/-- `increase_num_traded_assets`, with the indices that it moves books from.  The `reserve` takes
the `int` as a size. -/
def increaseNumTradedAssets (m : OrderbookManager) (husk : Orderbook → Orderbook)
    (persistedRoundNumber : UInt64) (newAssetCount : UInt16) :
    Result (OrderbookManager × List Nat) := do
  if newAssetCount.toNat < m.numAssets then
    .error (.runtimeError "Cannot decrease number of assets")
  else
    let newOrderbooksCount := (newAssetCount.toUInt32 * (newAssetCount.toUInt32 - 1)).toInt32
    if newOrderbooksCount < 0 then .error (.runtimeError "vector::reserve")
    else
      let g ← (List.range newOrderbooksCount.toNatClampNeg).foldlM
        (growStep husk persistedRoundNumber m.numAssets newAssetCount) ⟨m.orderbooks, [], []⟩
      return (⟨g.newOrderbooks, newAssetCount.toNat⟩, g.moved)

/-- The index among the orderbooks of `n` assets of the category with index `i` among those of
`k`, if both its assets are below `n`. -/
def oldIndex (n k i : Nat) : Option Nat :=
  let category := categoryFromIdx i k
  if category.buyAsset.toNat < n ∧ category.sellAsset.toNat < n then
    (categoryToIdx category n).toOption
  else none

section Growth

variable {m : OrderbookManager} {husk : Orderbook → Orderbook} {persistedRoundNumber : UInt64}
  {newAssetCount : UInt16} {n k i idx : Nat}

theorem validateCategory_mono {id : OfferCategory} (h : validateCategory id n = true)
    (hle : n ≤ k) : validateCategory id k = true := by
  obtain ⟨hne, hsell, hbuy, htype⟩ := validateCategory_iff.mp h
  exact validateCategory_iff.mpr ⟨hne, hsell.trans_le hle, hbuy.trans_le hle, htype⟩

theorem oldIndex_eq_some (hi : i < getNumOrderbooksByAssetCount k) (hk : k ≤ 2 ^ 32) :
    oldIndex n k i = some idx ↔ validateCategory (categoryFromIdx i k) n = true ∧
      categoryToIdx (categoryFromIdx i k) n = .ok idx := by
  obtain ⟨hne, -, -, htype⟩ := validateCategory_iff.mp (categoryFromIdx_valid hi hk).1
  rw [oldIndex]
  constructor
  · intro h
    split_ifs at h with hbelow
    have hvalid := validateCategory_iff.mpr ⟨hne, hbelow.2, hbelow.1, htype⟩
    obtain ⟨idx', hidx', -⟩ := categoryToIdx_of_valid hvalid
    rw [hidx'] at h
    cases h
    exact ⟨hvalid, hidx'⟩
  · rintro ⟨hvalid, hidx⟩
    obtain ⟨-, hsell, hbuy, -⟩ := validateCategory_iff.mp hvalid
    rw [if_pos ⟨hbuy, hsell⟩, hidx]
    rfl

theorem oldIndex_eq_none (hi : i < getNumOrderbooksByAssetCount k) (hk : k ≤ 2 ^ 32) :
    oldIndex n k i = none ↔ ¬ ((categoryFromIdx i k).buyAsset.toNat < n ∧
      (categoryFromIdx i k).sellAsset.toNat < n) := by
  rw [← not_iff_not, not_not, ← ne_eq, Option.ne_none_iff_exists']
  obtain ⟨hne, -, -, htype⟩ := validateCategory_iff.mp (categoryFromIdx_valid hi hk).1
  constructor
  · rintro ⟨idx, hidx⟩
    obtain ⟨-, hsell, hbuy, -⟩ := validateCategory_iff.mp ((oldIndex_eq_some hi hk).mp hidx).1
    exact ⟨hbuy, hsell⟩
  · intro hbelow
    have hvalid := validateCategory_iff.mpr ⟨hne, hbelow.2, hbelow.1, htype⟩
    obtain ⟨idx, hidx, -⟩ := categoryToIdx_of_valid hvalid
    exact ⟨idx, (oldIndex_eq_some hi hk).mpr ⟨hvalid, hidx⟩⟩

theorem oldIndex_inj {i' : Nat} (hi : i < getNumOrderbooksByAssetCount k)
    (hi' : i' < getNumOrderbooksByAssetCount k) (hk : k ≤ 2 ^ 32)
    (h : oldIndex n k i = some idx) (h' : oldIndex n k i' = some idx) : i = i' := by
  obtain ⟨hvalid, hidx⟩ := (oldIndex_eq_some hi hk).mp h
  obtain ⟨hvalid', hidx'⟩ := (oldIndex_eq_some hi' hk).mp h'
  have hcategory := categoryToIdx_inj hvalid hvalid' (hidx.trans hidx'.symm)
  have hto := (categoryFromIdx_valid hi hk).2
  rw [hcategory, (categoryFromIdx_valid hi' hk).2] at hto
  exact (Except.ok.inj hto).symm

/-- Every old index is the old index of one new index. -/
theorem exists_oldIndex (hidx : idx < getNumOrderbooksByAssetCount n) (hle : n ≤ k)
    (hk : k ≤ 2 ^ 32) : ∃ i < getNumOrderbooksByAssetCount k, oldIndex n k i = some idx := by
  obtain ⟨hvalid, hto⟩ := categoryFromIdx_valid hidx (hle.trans hk)
  obtain ⟨i, -, hi, hfrom⟩ := categoryToIdx_of_valid (validateCategory_mono hvalid hle)
  exact ⟨i, hi, (oldIndex_eq_some hi hk).mpr (by rw [hfrom]; exact ⟨hvalid, hto⟩)⟩

/-- The old indices, in the order of the new ones, are all of them. -/
theorem perm_oldIndices (hle : n ≤ k) (hk : k ≤ 2 ^ 32) :
    ((List.range (getNumOrderbooksByAssetCount k)).filterMap (oldIndex n k)).Perm
      (List.range (getNumOrderbooksByAssetCount n)) := by
  apply (List.perm_ext_iff_of_nodup ?_ List.nodup_range).mpr
  · intro idx
    rw [List.mem_filterMap, List.mem_range]
    constructor
    · rintro ⟨i, hi, hold⟩
      obtain ⟨hvalid, hidx⟩ := (oldIndex_eq_some (List.mem_range.mp hi) hk).mp hold
      obtain ⟨idx', hidx', hlt, -⟩ := categoryToIdx_of_valid hvalid
      cases hidx.symm.trans hidx'
      exact hlt
    · intro hidx
      obtain ⟨i, hi, hold⟩ := exists_oldIndex hidx hle hk
      exact ⟨i, List.mem_range.mpr hi, hold⟩
  · rw [List.nodup_iff_pairwise_ne, List.pairwise_filterMap]
    apply List.Pairwise.imp_of_mem ?_ (List.nodup_iff_pairwise_ne.mp List.nodup_range)
    intro i i' hi hi' hne idx hold idx' hold' heq
    apply hne
    exact oldIndex_inj (List.mem_range.mp hi) (List.mem_range.mp hi') hk hold (heq ▸ hold')

/-- The book that growth puts at index `i`. -/
def grownBook (m : OrderbookManager) (persistedRoundNumber : UInt64) (k i : Nat) : Orderbook :=
  ((oldIndex m.numAssets k i).bind (m.orderbooks[·]?)).getD
    (.new (categoryFromIdx i k) persistedRoundNumber)

/-- The first `i` indices are done: what was not moved yet is as it was. -/
structure GrownTo (m : OrderbookManager) (persistedRoundNumber : UInt64) (k i : Nat)
    (g : Growth) : Prop where
  newOrderbooks : g.newOrderbooks = (List.range i).map (m.grownBook persistedRoundNumber k)
  moved : g.moved = (List.range i).filterMap (oldIndex m.numAssets k)
  left : ∀ idx, idx ∉ g.moved → g.orderbooks[idx]? = m.orderbooks[idx]?

/-- Each book is at its place when its turn comes. -/
theorem growStep_grownTo {g : Growth}
    (hlength : m.orderbooks.length = getNumOrderbooksByAssetCount m.numAssets)
    (hle : m.numAssets ≤ newAssetCount.toNat) (hk : PairsWithinInt newAssetCount.toNat)
    (hi : i < getNumOrderbooksByAssetCount newAssetCount.toNat)
    (hg : m.GrownTo persistedRoundNumber newAssetCount.toNat i g) :
    ∃ g', growStep husk persistedRoundNumber m.numAssets newAssetCount g i = .ok g' ∧
      m.GrownTo persistedRoundNumber newAssetCount.toNat (i + 1) g' := by
  have hk32 : newAssetCount.toNat ≤ 2 ^ 32 := by
    have hlt := hk.lt
    omega
  have hn := (hk.mono hle).lt
  rw [growStep, categoryFromIdxInt_eq hi hk, ok_bind]
  cases hold : oldIndex m.numAssets newAssetCount.toNat i with
  | none =>
    rw [if_neg ((oldIndex_eq_none hi hk32).mp hold)]
    refine ⟨_, rfl, ?_, ?_, hg.left⟩
    · rw [hg.newOrderbooks, List.range_succ, List.map_append, List.map_singleton]
      rw [grownBook, hold]
      rfl
    · rw [hg.moved, List.range_succ, List.filterMap_append, List.filterMap_cons_none hold,
        List.filterMap_nil, List.append_nil]
  | some idx =>
    obtain ⟨hvalid, hidx⟩ := (oldIndex_eq_some hi hk32).mp hold
    obtain ⟨idx', hidx', hlt, -⟩ := categoryToIdx_of_valid hvalid
    cases hidx.symm.trans hidx'
    obtain ⟨-, hsell, hbuy, -⟩ := validateCategory_iff.mp hvalid
    have hfresh : idx ∉ g.moved := by
      rw [hg.moved, List.mem_filterMap]
      rintro ⟨i', hi', hold'⟩
      have hlt' := List.mem_range.mp hi'
      have heq := oldIndex_inj (hlt'.trans hi) hi hk32 hold' hold
      omega
    have hwithin : idx < 2 ^ 31 := hlt.trans (hk.mono hle)
    have hposition : (Int32.ofNat idx).toInt64.toUInt64.toNat = idx := by
      rw [Int32.toInt64_ofNat' (by rw [Int32.toInt_maxValue]; omega), Int64.toUInt64_ofNat',
        UInt64.toNat_ofNat_of_lt' (by rw [UInt64.size]; omega)]
    obtain ⟨book, hbook⟩ : ∃ book, m.orderbooks[idx]? = some book :=
      ⟨_, List.getElem?_eq_getElem (hlength ▸ hlt)⟩
    have hat : vectorAt g.orderbooks idx = .ok book :=
      vectorAt_eq_ok.mpr ((hg.left idx hfresh).trans hbook)
    rw [if_pos ⟨hbuy, hsell⟩, categoryToIdxInt_eq hvalid (by omega), hidx]
    simp only [Except.map_ok, ok_bind, hposition, hat]
    refine ⟨_, rfl, ?_, ?_, fun idx' hidx' => ?_⟩
    · rw [hg.newOrderbooks, List.range_succ, List.map_append, List.map_singleton]
      rw [grownBook, hold, Option.bind_some, hbook]
      rfl
    · rw [hg.moved, List.range_succ, List.filterMap_append, List.filterMap_cons_some hold]
      rfl
    · rw [List.mem_append, List.mem_singleton, not_or] at hidx'
      rw [List.getElem?_set_ne (Ne.symm hidx'.2)]
      exact hg.left idx' hidx'.1

theorem newOrderbooksCount_eq : (newAssetCount.toUInt32 * (newAssetCount.toUInt32 - 1)).toInt32 =
    .ofNat (getNumOrderbooksByAssetCount newAssetCount.toNat) := by
  have hcount : newAssetCount.toUInt32 = .ofNat newAssetCount.toNat :=
    UInt32.toNat_inj.mp (by simp)
  rw [hcount, getNumOrderbooksByAssetCount]
  rcases Nat.eq_zero_or_pos newAssetCount.toNat with hzero | hpos
  · rw [hzero]
    rfl
  · rw [show UInt32.ofNat newAssetCount.toNat - 1 = .ofNat (newAssetCount.toNat - 1) from
      (@UInt32.ofNat_sub newAssetCount.toNat 1 (by omega)).symm, ← UInt32.ofNat_mul,
      UInt32.toInt32_ofNat']

/-- The result of growth, book by book. -/
theorem increaseNumTradedAssets_eq
    (hlength : m.orderbooks.length = getNumOrderbooksByAssetCount m.numAssets)
    (hle : m.numAssets ≤ newAssetCount.toNat) (hk : PairsWithinInt newAssetCount.toNat) :
    m.increaseNumTradedAssets husk persistedRoundNumber newAssetCount =
      .ok (⟨(List.range (getNumOrderbooksByAssetCount newAssetCount.toNat)).map
          (m.grownBook persistedRoundNumber newAssetCount.toNat), newAssetCount.toNat⟩,
        (List.range (getNumOrderbooksByAssetCount newAssetCount.toNat)).filterMap
          (oldIndex m.numAssets newAssetCount.toNat)) := by
  obtain ⟨g, hloop, hg⟩ := @foldlM_range _ _ (growStep husk persistedRoundNumber m.numAssets
    newAssetCount) (m.GrownTo persistedRoundNumber newAssetCount.toNat) _ ⟨m.orderbooks, [], []⟩
    (fun i g hi hg => growStep_grownTo hlength hle hk hi hg) ⟨rfl, rfl, fun _ _ => rfl⟩
  have hcount : ¬ Int32.ofNat (getNumOrderbooksByAssetCount newAssetCount.toNat) < 0 := by
    rw [Int32.lt_iff_toInt_lt, Int32.toInt_ofNat_of_lt hk, Int32.toInt_zero]
    omega
  rw [increaseNumTradedAssets, if_neg (by omega)]
  simp only [newOrderbooksCount_eq]
  rw [if_neg hcount, Int32.toNatClampNeg_ofNat_of_lt hk, hloop, ok_bind, hg.newOrderbooks, hg.moved]
  rfl

/-- An `int` cannot count the books: nothing is moved. -/
theorem increaseNumTradedAssets_throws (hle : m.numAssets ≤ newAssetCount.toNat)
    (hk : ¬ PairsWithinInt newAssetCount.toNat) :
    m.increaseNumTradedAssets husk persistedRoundNumber newAssetCount =
      .error (.runtimeError "vector::reserve") := by
  have hlt := newAssetCount.toNat_lt
  have hmul : newAssetCount.toNat * (newAssetCount.toNat - 1) ≤ (2 ^ 16 - 1) * (2 ^ 16 - 1) :=
    Nat.mul_le_mul (by omega) (by omega)
  have hcount : Int32.ofNat (getNumOrderbooksByAssetCount newAssetCount.toNat) < 0 := by
    simp only [PairsWithinInt, getNumOrderbooksByAssetCount] at hk ⊢
    rw [Int32.lt_iff_toInt_lt, Int32.toInt_ofNat', Int32.toInt_zero, Int.bmod_def, Int32.size]
    omega
  rw [increaseNumTradedAssets, if_neg (by omega)]
  simp only [newOrderbooksCount_eq]
  rw [if_pos hcount]

/-- One orderbook for each category, at the index of the category. -/
structure Indexed (m : OrderbookManager) : Prop where
  length : m.orderbooks.length = getNumOrderbooksByAssetCount m.numAssets
  category : ∀ i ob, m.orderbooks[i]? = some ob → ob.category = categoryFromIdx i m.numAssets

theorem getElem?_range_eq_some {i' : Nat} (h : (List.range n)[i]? = some i') : i < n ∧ i = i' := by
  obtain ⟨hi, heq⟩ := List.getElem?_eq_some_iff.mp h
  rw [List.getElem_range] at heq
  rw [List.length_range] at hi
  exact ⟨hi, heq⟩

theorem indexed_new (numAssets : Nat) : (new numAssets).Indexed := by
  refine ⟨by simp [new], fun i ob hob => ?_⟩
  simp only [new, List.getElem?_map] at hob
  obtain ⟨i', hi', rfl⟩ := Option.map_eq_some_iff.mp hob
  obtain ⟨-, rfl⟩ := getElem?_range_eq_some hi'
  rfl

/-- The book of a category, by its category. -/
theorem Indexed.book {id : OfferCategory} (h : m.Indexed)
    (hid : validateCategory id m.numAssets = true) :
    ∃ idx ob, categoryToIdx id m.numAssets = .ok idx ∧ m.orderbooks[idx]? = some ob ∧
      ob.category = id := by
  obtain ⟨idx, hidx, hlt, hfrom⟩ := categoryToIdx_of_valid hid
  obtain ⟨ob, hob⟩ : ∃ ob, m.orderbooks[idx]? = some ob :=
    ⟨_, List.getElem?_eq_getElem (h.length ▸ hlt)⟩
  exact ⟨idx, ob, hidx, hob, (h.category idx ob hob).trans hfrom⟩

theorem grownBook_of_below {id : OfferCategory} (hid : validateCategory id m.numAssets = true)
    {ob : Orderbook} (hidx : categoryToIdx id m.numAssets = .ok idx)
    (hob : m.orderbooks[idx]? = some ob) (hi : i < getNumOrderbooksByAssetCount k)
    (hk : k ≤ 2 ^ 32) (hfrom : categoryFromIdx i k = id) :
    m.grownBook persistedRoundNumber k i = ob := by
  have hold : oldIndex m.numAssets k i = some idx :=
    (oldIndex_eq_some hi hk).mpr (by rw [hfrom]; exact ⟨hid, hidx⟩)
  rw [grownBook, hold, Option.bind_some, hob, Option.getD_some]

theorem grownBook_of_new {id : OfferCategory}
    (hid : ¬ (id.buyAsset.toNat < m.numAssets ∧ id.sellAsset.toNat < m.numAssets))
    (hi : i < getNumOrderbooksByAssetCount k) (hk : k ≤ 2 ^ 32)
    (hfrom : categoryFromIdx i k = id) :
    m.grownBook persistedRoundNumber k i = .new id persistedRoundNumber := by
  have hold : oldIndex m.numAssets k i = none :=
    (oldIndex_eq_none hi hk).mpr (by rw [hfrom]; exact hid)
  rw [grownBook, hold, Option.bind_none, Option.getD_none, hfrom]

/-- What growth by the constructor or by `increase_num_traded_assets` gives is indexed. -/
theorem Indexed.increase (h : m.Indexed) (hle : m.numAssets ≤ newAssetCount.toNat)
    (hk : PairsWithinInt newAssetCount.toNat) {m' : OrderbookManager} {moved : List Nat}
    (hgrown : m.increaseNumTradedAssets husk persistedRoundNumber newAssetCount =
      .ok (m', moved)) : m'.Indexed := by
  have hk32 : newAssetCount.toNat ≤ 2 ^ 32 := by
    have hlt := hk.lt
    omega
  rw [increaseNumTradedAssets_eq h.length hle hk] at hgrown
  cases hgrown
  refine ⟨by simp, fun i ob hob => ?_⟩
  rw [List.getElem?_map] at hob
  obtain ⟨i', hi', rfl⟩ := Option.map_eq_some_iff.mp hob
  obtain ⟨hi, hii'⟩ := getElem?_range_eq_some hi'
  subst hii'
  obtain ⟨hvalid, -⟩ := categoryFromIdx_valid hi hk32
  by_cases hbelow : (categoryFromIdx i newAssetCount.toNat).buyAsset.toNat < m.numAssets ∧
      (categoryFromIdx i newAssetCount.toNat).sellAsset.toNat < m.numAssets
  · obtain ⟨hne, -, -, htype⟩ := validateCategory_iff.mp hvalid
    have hid := validateCategory_iff.mpr ⟨hne, hbelow.2, hbelow.1, htype⟩
    obtain ⟨idx, ob, hidx, hob, hcategory⟩ := h.book hid
    rw [grownBook_of_below hid hidx hob hi hk32 rfl]
    exact hcategory
  · rw [grownBook_of_new hbelow hi hk32 rfl]
    rfl

end Growth

/-- Categories and indices are in bijection.  Growth moves every book once, to the index of its
category, and fills the other indices with empty books; it throws if the books of the new asset
count are too many for an `int`. -/
theorem orderbook_indices :
    (∀ n : Nat, 2 ≤ n → PairsWithinInt n →
      (∀ id, validateCategory id n = true → ∃ idx < n * (n - 1),
        categoryToIdxInt id (.ofNat n) = .ok (.ofNat idx) ∧
          categoryFromIdxInt (.ofNat idx) (.ofNat n) = .ok id) ∧
      (∀ idx < n * (n - 1), ∃ id, categoryFromIdxInt (.ofNat idx) (.ofNat n) = .ok id ∧
        validateCategory id n = true ∧ categoryToIdxInt id (.ofNat n) = .ok (.ofNat idx))) ∧
    (∀ (m : OrderbookManager) (husk : Orderbook → Orderbook) (persistedRoundNumber : UInt64)
      (newAssetCount : UInt16), 2 ≤ m.numAssets → PairsWithinInt m.numAssets → m.Indexed →
      m.numAssets ≤ newAssetCount.toNat →
      (PairsWithinInt newAssetCount.toNat → ∃ m' moved,
        m.increaseNumTradedAssets husk persistedRoundNumber newAssetCount = .ok (m', moved) ∧
          m'.numAssets = newAssetCount.toNat ∧ m'.Indexed ∧
          m'.orderbooks.length = newAssetCount.toNat * (newAssetCount.toNat - 1) ∧
          moved.Perm (List.range m.orderbooks.length) ∧
          ∀ c, validateCategory c newAssetCount.toNat = true → ∃ idx,
            categoryToIdxInt c (.ofNat newAssetCount.toNat) = .ok (.ofNat idx) ∧
            (c.sellAsset.toNat < m.numAssets → c.buyAsset.toNat < m.numAssets → ∃ old ob,
              categoryToIdxInt c (.ofNat m.numAssets) = .ok (.ofNat old) ∧
                m.orderbooks[old]? = some ob ∧ ob.category = c ∧
                m'.orderbooks[idx]? = some ob) ∧
            (¬ (c.sellAsset.toNat < m.numAssets ∧ c.buyAsset.toNat < m.numAssets) →
              m'.orderbooks[idx]? = some (.new c persistedRoundNumber))) ∧
      (¬ PairsWithinInt newAssetCount.toNat →
        m.increaseNumTradedAssets husk persistedRoundNumber newAssetCount =
          .error (.runtimeError "vector::reserve"))) := by
  refine ⟨fun n _ hn => ⟨fun id hid => ?_, fun idx hidx => ?_⟩,
    fun m husk persistedRoundNumber newAssetCount _ _ hm hle =>
      ⟨fun hk => ?_, increaseNumTradedAssets_throws hle⟩⟩
  · have hlt := hn.lt
    obtain ⟨idx, hidx, hwithin, hfrom⟩ := categoryToIdx_of_valid hid
    refine ⟨idx, hwithin, ?_, ?_⟩
    · rw [categoryToIdxInt_eq hid (by omega), hidx]
      rfl
    · rw [categoryFromIdxInt_eq hwithin hn, hfrom]
  · have hlt := hn.lt
    obtain ⟨hvalid, hto⟩ := categoryFromIdx_valid hidx (by omega)
    refine ⟨_, categoryFromIdxInt_eq hidx hn, hvalid, ?_⟩
    rw [categoryToIdxInt_eq hvalid (by omega), hto]
    rfl
  · have hlt := hk.lt
    have hn := (hk.mono hle).lt
    have hgrown := @increaseNumTradedAssets_eq m husk persistedRoundNumber newAssetCount
      hm.length hle hk
    refine ⟨_, _, hgrown, rfl, hm.increase hle hk hgrown, ?_, ?_, fun c hc => ?_⟩
    · rw [List.length_map, List.length_range]
      rfl
    · rw [hm.length]
      exact perm_oldIndices hle (by omega)
    · obtain ⟨idx, hidx, hwithin, hfrom⟩ := categoryToIdx_of_valid hc
      have hbook : ((List.range (getNumOrderbooksByAssetCount newAssetCount.toNat)).map
          (m.grownBook persistedRoundNumber newAssetCount.toNat))[idx]? =
          some (m.grownBook persistedRoundNumber newAssetCount.toNat idx) := by
        rw [List.getElem?_map, List.getElem?_range hwithin]
        rfl
      refine ⟨idx, ?_, fun hsell hbuy => ?_, fun hnew => ?_⟩
      · rw [categoryToIdxInt_eq hc (by omega), hidx]
        rfl
      · obtain ⟨hne, -, -, htype⟩ := validateCategory_iff.mp hc
        have hid := validateCategory_iff.mpr ⟨hne, hsell, hbuy, htype⟩
        obtain ⟨old, ob, hold, hob, hcategory⟩ := hm.book hid
        refine ⟨old, ob, ?_, hob, hcategory, ?_⟩
        · rw [categoryToIdxInt_eq hid (by omega), hold]
          rfl
        · rw [hbook, grownBook_of_below hid hold hob hwithin (by omega) hfrom]
      · rw [hbook, grownBook_of_new (fun h => hnew h.symm) hwithin (by omega) hfrom]

/-- From two assets to three: the book of assets 0 and 1 moves from index 0 to index 0, that of
assets 1 and 0 from index 1 to index 2. -/
theorem orderbook_indices_three : ∃ m' moved,
    (new 2).increaseNumTradedAssets id 0 3 = .ok (m', moved) ∧ moved.Perm [0, 1] ∧
      m'.orderbooks.length = 6 := by
  obtain ⟨m', moved, hgrown, -, -, hlength, hmoved, -⟩ := (orderbook_indices.2 (new 2) id 0 3
    (by decide) (by simp only [PairsWithinInt]; decide) (indexed_new 2) (by decide)).1
      (by simp only [PairsWithinInt]; decide)
  exact ⟨m', moved, hgrown, hmoved, hlength⟩

/-- The books of 46342 assets are too many for an `int`. -/
theorem orderbook_indices_46342 : PairsWithinInt 2 ∧ (new 2).Indexed ∧ (new 2).numAssets = 2 ∧
    2 ≤ (46342 : UInt16).toNat ∧ ¬ ∃ m' moved,
      (new 2).increaseNumTradedAssets id 0 46342 = .ok (m', moved) := by
  refine ⟨by simp only [PairsWithinInt]; decide, indexed_new 2, rfl, by decide, ?_⟩
  rintro ⟨m', moved, hgrown⟩
  have hthrows := @increaseNumTradedAssets_throws (new 2) id 0 46342 (by decide)
    (by simp only [PairsWithinInt]; decide)
  cases hthrows.symm.trans hgrown

end OrderbookManager

end Speedex
