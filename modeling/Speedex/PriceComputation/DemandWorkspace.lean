import Speedex.Lib.ParallelFold
import Speedex.Orderbook.Demand

/-! The supply and demand workspaces of a Tatonnement query (`price_computation/demand_oracle.h`).
A query of an orderbook only adds to them, so the orderbooks can be queried in shares. -/

namespace Speedex

open Lib

/-- The arrays `supplies` and `demands`, with one entry for each asset. -/
@[ext] structure DemandWorkspace (numAssets : Nat) where
  demands : List (BitVec 128)
  supplies : List (BitVec 128)
  demands_length : demands.length = numAssets
  supplies_length : supplies.length = numAssets
deriving DecidableEq

/-- What a query of the demand oracle is about. -/
structure DemandQuery where
  prices : List Price
  workUnits : List Orderbook
  smoothMult : UInt8

/-! ### Adding workspaces -/

/-- `demands_out[i] += demands[i]` for every asset. -/
def addEntries (v w : List (BitVec 128)) : List (BitVec 128) := List.zipWith (· + ·) v w

theorem addEntries_comm (v w : List (BitVec 128)) : addEntries v w = addEntries w v :=
  List.zipWith_comm_of_comm fun x y => BitVec.add_comm x y

theorem addEntries_assoc (u v w : List (BitVec 128)) :
    addEntries (addEntries u v) w = addEntries u (addEntries v w) := by
  induction u generalizing v w with
  | nil => simp [addEntries]
  | cons x u ih =>
    cases v with
    | nil => simp [addEntries]
    | cons y v =>
      cases w with
      | nil => simp [addEntries]
      | cons z w =>
        have htail := ih v w
        simp only [addEntries] at htail
        simp [addEntries, htail, BitVec.add_assoc]

theorem addEntries_zero {w : List (BitVec 128)} {n : Nat} (h : w.length = n) :
    addEntries w (List.replicate n 0) = w := by
  induction w generalizing n with
  | nil => rfl
  | cons x w ih =>
    subst h
    rw [List.length_cons, List.replicate_succ]
    exact congrArg₂ List.cons (BitVec.add_zero x) (ih rfl)

/-- An entry is raised before or after a workspace is added. -/
theorem addAt_addEntries {workspace workspace' v : List (BitVec 128)} {asset : Nat}
    {volume : BitVec 128} (hv : v.length = workspace.length)
    (h : Orderbook.addAt workspace asset volume = .ok workspace') :
    Orderbook.addAt (addEntries workspace v) asset volume = .ok (addEntries workspace' v) := by
  obtain ⟨old, hold, h⟩ := bind_eq_ok.mp h
  cases h
  have hold' := vectorAt_eq_ok.mp hold
  obtain ⟨hlt, -⟩ := List.getElem?_eq_some_iff.mp hold'
  have hsum : (addEntries workspace v)[asset]? = some (old + v[asset]) := by
    rw [addEntries, List.getElem?_zipWith, hold', List.getElem?_eq_getElem (hv ▸ hlt)]
  refine bind_eq_ok.mpr ⟨old + v[asset], vectorAt_eq_ok.mpr hsum, congrArg Except.ok ?_⟩
  apply List.ext_getElem?
  intro i
  by_cases hi : i = asset
  · subst hi
    simp [addEntries, hlt, hv, add_right_comm]
  · simp [addEntries, List.getElem?_zipWith, List.getElem?_set_ne (Ne.symm hi)]

theorem addAt_returns {workspace workspace' v : List (BitVec 128)} {asset : Nat}
    {volume : BitVec 128} (hv : v.length = workspace.length)
    (h : Orderbook.addAt workspace asset volume = .ok workspace') :
    ∃ v', Orderbook.addAt v asset volume = .ok v' := by
  obtain ⟨old, hold, -⟩ := bind_eq_ok.mp h
  obtain ⟨hlt, -⟩ := List.getElem?_eq_some_iff.mp (vectorAt_eq_ok.mp hold)
  have hentry := List.getElem?_eq_getElem (hv ▸ hlt : asset < v.length)
  exact ⟨_, bind_eq_ok.mpr ⟨_, vectorAt_eq_ok.mpr hentry, rfl⟩⟩

theorem length_addAt {workspace workspace' : List (BitVec 128)} {asset : Nat} {volume : BitVec 128}
    (h : Orderbook.addAt workspace asset volume = .ok workspace') :
    workspace'.length = workspace.length := by
  obtain ⟨old, -, h⟩ := bind_eq_ok.mp h
  cases h
  exact List.length_set

namespace DemandWorkspace

variable {numAssets : Nat}

instance : Zero (DemandWorkspace numAssets) where
  zero := ⟨.replicate numAssets 0, .replicate numAssets 0, List.length_replicate,
    List.length_replicate⟩

instance : Add (DemandWorkspace numAssets) where
  add v w := ⟨addEntries v.demands w.demands, addEntries v.supplies w.supplies,
    by simp [addEntries, v.demands_length, w.demands_length],
    by simp [addEntries, v.supplies_length, w.supplies_length]⟩

instance : AddCommMonoid (DemandWorkspace numAssets) where
  add_assoc u v w := by
    ext1
    · exact addEntries_assoc ..
    · exact addEntries_assoc ..
  zero_add w := by
    ext1
    · exact (addEntries_comm ..).trans (addEntries_zero w.demands_length)
    · exact (addEntries_comm ..).trans (addEntries_zero w.supplies_length)
  add_zero w := by
    ext1
    · exact addEntries_zero w.demands_length
    · exact addEntries_zero w.supplies_length
  add_comm v w := by
    ext1
    · exact addEntries_comm ..
    · exact addEntries_comm ..
  nsmul := nsmulRec

end DemandWorkspace

/-! ### Querying an orderbook -/

namespace Orderbook

/-- The volume that `calculate_demands_and_supplies_times_prices` adds to both workspaces. -/
def volumeTimesPrices (ob : Orderbook) (prices : List Price) (smoothMult : UInt8) :
    Result (BitVec 128) := do
  let sellPrice ← vectorAt prices ob.category.sellAsset.toNat
  let buyPrice ← vectorAt prices ob.category.buyAsset.toNat
  let (fullExecP, partialExecP) ← getExecutionPrices sellPrice buyPrice smoothMult
  let metadataPartial ← ob.getMetadata partialExecP
  let metadataFull ← (if smoothMult ≠ 0 then ob.getMetadata fullExecP else .ok metadataPartial)
  tradeVolume sellPrice buyPrice smoothMult metadataPartial metadataFull

/-- The volume does not depend on the workspaces. -/
theorem calculateDemandsAndSuppliesTimesPrices_iff {ob : Orderbook} {prices : List Price}
    {demands supplies demands' supplies' : List (BitVec 128)} {smoothMult : UInt8} :
    ob.calculateDemandsAndSuppliesTimesPrices prices demands supplies smoothMult =
        .ok (demands', supplies') ↔
      ∃ volume, ob.volumeTimesPrices prices smoothMult = .ok volume ∧
        addAt demands ob.category.buyAsset.toNat volume = .ok demands' ∧
        addAt supplies ob.category.sellAsset.toNat volume = .ok supplies' := by
  unfold calculateDemandsAndSuppliesTimesPrices volumeTimesPrices
  constructor
  · intro h
    obtain ⟨sellPrice, hsell, h⟩ := bind_eq_ok.mp h
    obtain ⟨buyPrice, hbuy, h⟩ := bind_eq_ok.mp h
    obtain ⟨⟨fullExecP, partialExecP⟩, hexec, h⟩ := bind_eq_ok.mp h
    obtain ⟨metadataPartial, hpartial, h⟩ := bind_eq_ok.mp h
    obtain ⟨metadataFull, hfull, h⟩ := bind_eq_ok.mp h
    obtain ⟨sellPrice', hsell', h⟩ := bind_eq_ok.mp h
    obtain ⟨buyPrice', hbuy', h⟩ := bind_eq_ok.mp h
    cases hsell.symm.trans hsell'
    cases hbuy.symm.trans hbuy'
    obtain ⟨volume, hvolume, h⟩ := bind_eq_ok.mp h
    obtain ⟨demands₁, hdemands, h⟩ := bind_eq_ok.mp h
    obtain ⟨supplies₁, hsupplies, h⟩ := bind_eq_ok.mp h
    cases h
    refine ⟨volume, ?_, hdemands, hsupplies⟩
    apply bind_eq_ok.mpr ⟨sellPrice, hsell, _⟩
    apply bind_eq_ok.mpr ⟨buyPrice, hbuy, _⟩
    apply bind_eq_ok.mpr ⟨_, hexec, _⟩
    apply bind_eq_ok.mpr ⟨metadataPartial, hpartial, _⟩
    exact bind_eq_ok.mpr ⟨metadataFull, hfull, hvolume⟩
  · rintro ⟨volume, h, hdemands, hsupplies⟩
    obtain ⟨sellPrice, hsell, h⟩ := bind_eq_ok.mp h
    obtain ⟨buyPrice, hbuy, h⟩ := bind_eq_ok.mp h
    obtain ⟨⟨fullExecP, partialExecP⟩, hexec, h⟩ := bind_eq_ok.mp h
    obtain ⟨metadataPartial, hpartial, h⟩ := bind_eq_ok.mp h
    obtain ⟨metadataFull, hfull, h⟩ := bind_eq_ok.mp h
    apply bind_eq_ok.mpr ⟨sellPrice, hsell, _⟩
    apply bind_eq_ok.mpr ⟨buyPrice, hbuy, _⟩
    apply bind_eq_ok.mpr ⟨_, hexec, _⟩
    apply bind_eq_ok.mpr ⟨metadataPartial, hpartial, _⟩
    apply bind_eq_ok.mpr ⟨metadataFull, hfull, _⟩
    simp [calculateDemandsAndSuppliesTimesPricesFromMetadata, hsell, hbuy, h, hdemands, hsupplies,
      pure, Except.pure]

end Orderbook

namespace DemandQuery

variable {numAssets : Nat}

/-- `(work_units[i].*demand_func)(active_prices, demands, supplies, smooth_mult)`. -/
def demandFunc (q : DemandQuery) (w : DemandWorkspace numAssets) (i : Nat) :
    Result (DemandWorkspace numAssets) := do
  let ob ← vectorAt q.workUnits i
  match h : ob.calculateDemandsAndSuppliesTimesPrices q.prices w.demands w.supplies q.smoothMult with
  | .error e => .error e
  | .ok (demands, supplies) =>
    have hadds := Orderbook.calculateDemandsAndSuppliesTimesPrices_iff.mp h
    return ⟨demands, supplies,
      by obtain ⟨_, -, h, -⟩ := hadds; exact (length_addAt h).trans w.demands_length,
      by obtain ⟨_, -, -, h⟩ := hadds; exact (length_addAt h).trans w.supplies_length⟩

theorem demandFunc_eq_ok {q : DemandQuery} {w w' : DemandWorkspace numAssets} {i : Nat} :
    q.demandFunc w i = .ok w' ↔ ∃ ob volume, vectorAt q.workUnits i = .ok ob ∧
      ob.volumeTimesPrices q.prices q.smoothMult = .ok volume ∧
      Orderbook.addAt w.demands ob.category.buyAsset.toNat volume = .ok w'.demands ∧
      Orderbook.addAt w.supplies ob.category.sellAsset.toNat volume = .ok w'.supplies := by
  unfold demandFunc
  constructor
  · intro h
    obtain ⟨ob, hob, h⟩ := bind_eq_ok.mp h
    split at h
    · cases h
    · rename_i demands supplies hquery
      cases h
      obtain ⟨volume, hadds⟩ := Orderbook.calculateDemandsAndSuppliesTimesPrices_iff.mp hquery
      exact ⟨ob, volume, hob, hadds⟩
  · rintro ⟨ob, volume, hob, hadds⟩
    refine bind_eq_ok.mpr ⟨ob, hob, ?_⟩
    have hquery := Orderbook.calculateDemandsAndSuppliesTimesPrices_iff.mpr ⟨volume, hadds⟩
    split
    · rename_i heq
      cases heq.symm.trans hquery
    · rename_i heq
      cases heq.symm.trans hquery
      rfl

/-- A query of an orderbook adds the same to every workspace. -/
theorem demandFunc_shifts (q : DemandQuery) : Shifts (@demandFunc numAssets q) := by
  intro w i w' u h
  obtain ⟨ob, volume, hob, hvolume, hdemands, hsupplies⟩ := demandFunc_eq_ok.mp h
  apply demandFunc_eq_ok.mpr
  refine ⟨ob, volume, hob, hvolume, ?_, ?_⟩
  · apply addAt_addEntries _ hdemands
    rw [u.demands_length, w.demands_length]
  · apply addAt_addEntries _ hsupplies
    rw [u.supplies_length, w.supplies_length]

/-- Whether a query returns does not depend on the workspace. -/
theorem demandFunc_returns {q : DemandQuery} {w w' : DemandWorkspace numAssets} {i : Nat}
    (h : q.demandFunc w i = .ok w') (v : DemandWorkspace numAssets) :
    ∃ v', q.demandFunc v i = .ok v' := by
  obtain ⟨ob, volume, hob, hvolume, hdemands, hsupplies⟩ := demandFunc_eq_ok.mp h
  obtain ⟨demands, hdemands'⟩ :=
    addAt_returns (v.demands_length.trans w.demands_length.symm) hdemands
  obtain ⟨supplies, hsupplies'⟩ :=
    addAt_returns (v.supplies_length.trans w.supplies_length.symm) hsupplies
  refine ⟨⟨demands, supplies, (length_addAt hdemands').trans v.demands_length,
    (length_addAt hsupplies').trans v.supplies_length⟩, ?_⟩
  exact demandFunc_eq_ok.mpr ⟨ob, volume, hob, hvolume, hdemands', hsupplies'⟩

end DemandQuery

end Speedex
