import Speedex.Database.MemoryDatabase

/-! Transfers as changes of balances.  Whatever is done to an account's assets makes room for an
asset and changes what is available of it, so that a sequence of transfers comes to one growth and
one change for each asset. -/

namespace Speedex

instance addCommGroupInt64 : AddCommGroup Int64 where
  add_assoc := Int64.add_assoc
  zero_add := Int64.zero_add
  add_zero := Int64.add_zero
  nsmul := nsmulRec
  zsmul := zsmulRec
  neg_add_cancel := Int64.add_left_neg
  add_comm := Int64.add_comm
  sub_eq_add_neg := Int64.sub_eq_add_neg

namespace RevertableAsset

@[simp] theorem transferAvailable_zero (a : RevertableAsset) : a.transferAvailable 0 = a := by
  simp [transferAvailable]

@[simp] theorem transferAvailable_transferAvailable (a : RevertableAsset) (x y : Int64) :
    (a.transferAvailable x).transferAvailable y = a.transferAvailable (x + y) := by
  simp [transferAvailable, add_assoc]

/-- Take `-x` of an asset: all of it, if there is enough, or nothing. -/
structure Takes (a : RevertableAsset) (x : Int64) (taken : Bool × RevertableAsset) : Prop where
  of_true : taken.1 = true → taken.2 = a.transferAvailable x ∧
    (a.available + x).toInt = a.available.toInt + x.toInt ∧ 0 ≤ a.available.toInt + x.toInt
  of_false : taken.1 = false → taken.2 = a

theorem takes_conditionalTransferAvailable (a : RevertableAsset) {x : Int64} (hx : x < 0) :
    a.Takes x (a.conditionalTransferAvailable x) := by
  have hpos : ¬ x > 0 := by
    rw [gt_iff_lt, Int64.lt_iff_toInt_lt]
    rw [Int64.lt_iff_toInt_lt] at hx
    omega
  rw [conditionalTransferAvailable, if_neg hpos]
  by_cases hover : addOverflows a.available x = true
  · rw [if_pos hover]
    exact ⟨nofun, fun _ => rfl⟩
  · rw [if_neg hover]
    have hsum : (a.available + x).toInt = a.available.toInt + x.toInt := by
      simpa [addOverflows] using hover
    by_cases hneg : a.available + x < 0
    · rw [if_pos hneg]
      exact ⟨nofun, fun _ => rfl⟩
    · rw [if_neg hneg]
      refine ⟨fun _ => ⟨rfl, hsum, ?_⟩, nofun⟩
      rw [Int64.lt_iff_toInt_lt, hsum] at hneg
      simpa using hneg

theorem takes_conditionalEscrow (a : RevertableAsset) {x : Int64} (hx : x < 0) :
    a.Takes x (a.conditionalEscrow (-x)) := by
  rw [conditionalEscrow]
  by_cases hmin : -x = Int64.minValue
  · rw [if_pos hmin]
    exact ⟨nofun, fun _ => rfl⟩
  · have hpos : -x > 0 := by
      have hlow := x.le_toInt
      have hne : x.toInt ≠ -2 ^ 63 := by
        intro heq
        apply hmin
        rw [← Int64.toInt_inj, Int64.toInt_neg, heq, Int64.toInt_minValue]
        decide
      rw [Int64.lt_iff_toInt_lt] at hx
      rw [gt_iff_lt, Int64.lt_iff_toInt_lt, Int64.toInt_neg, Int.bmod_eq_of_le] <;>
        simp at hx ⊢ <;> omega
    rw [if_neg hmin, if_pos hpos, neg_neg]
    exact takes_conditionalTransferAvailable a hx

/-- There is nothing to take from an asset that is not there. -/
theorem Takes.ne_zero {x : Int64} (hx : x < 0) {taken : Bool × RevertableAsset}
    (h : zero.Takes x taken) : taken.1 = false := by
  by_contra htrue
  have hle := (h.of_true (by simpa using htrue)).2.2
  rw [Int64.lt_iff_toInt_lt] at hx
  simp [zero] at hle hx
  omega

end RevertableAsset

namespace UserAccount

variable {u : UserAccount} {asset : AssetID} {n m : Nat} {δ ε : Nat → Int64}

/-- The account with at least `n` asset slots. -/
def growTo (u : UserAccount) (n : Nat) : UserAccount :=
  { u with uncommittedAssets := u.uncommittedAssets ++
      List.replicate (n - u.slots) RevertableAsset.zero }

/-- The account with `δ n` added to what is available of asset `n`. -/
def shift (u : UserAccount) (δ : Nat → Int64) : UserAccount :=
  { u with
    ownedAssets := u.ownedAssets.mapIdx fun i a => a.transferAvailable (δ i)
    uncommittedAssets := u.uncommittedAssets.mapIdx fun i a =>
      a.transferAvailable (δ (u.ownedAssets.length + i)) }

/-- The asset in slot `n`. -/
def assetAt (u : UserAccount) (n : Nat) : RevertableAsset :=
  if n < u.ownedAssets.length then u.ownedAssets.getD n .zero
  else u.uncommittedAssets.getD (n - u.ownedAssets.length) .zero

def setAsset (u : UserAccount) (n : Nat) (a : RevertableAsset) : UserAccount :=
  if n < u.ownedAssets.length then { u with ownedAssets := u.ownedAssets.set n a }
  else { u with uncommittedAssets := u.uncommittedAssets.set (n - u.ownedAssets.length) a }

/-- What is available of asset `n`. -/
def balance (u : UserAccount) (n : Nat) : Int64 := (u.assetAt n).available

/-! ### Growth -/

@[simp] theorem slots_growTo : (u.growTo n).slots = max u.slots n := by
  simp only [slots, growTo, List.length_append, List.length_replicate]
  omega

theorem growTo_of_le (h : n ≤ u.slots) : u.growTo n = u := by
  unfold growTo
  rw [Nat.sub_eq_zero_of_le h]
  simp

@[simp] theorem growTo_growTo : (u.growTo n).growTo m = u.growTo (max n m) := by
  have hslots := slots_growTo (u := u) (n := n)
  unfold growTo at hslots ⊢
  simp only [hslots, List.append_assoc, List.replicate_append_replicate]
  congr 3
  omega

@[simp] theorem seqTracker_growTo : (u.growTo n).seqTracker = u.seqTracker := rfl

@[simp] theorem owner_growTo : (u.growTo n).owner = u.owner := rfl

theorem assetAt_of_slots_le (h : u.slots ≤ n) : u.assetAt n = .zero := by
  unfold assetAt
  simp only [slots] at h
  rw [if_neg (by omega)]
  exact List.getD_eq_default _ _ (by omega)

@[simp] theorem assetAt_growTo : (u.growTo n).assetAt m = u.assetAt m := by
  unfold assetAt growTo
  by_cases howned : m < u.ownedAssets.length
  · simp [howned]
  · simp only [howned, if_false]
    by_cases hthere : m - u.ownedAssets.length < u.uncommittedAssets.length
    · rw [List.getD_append _ _ _ _ hthere]
    · rw [List.getD_append_right _ _ _ _ (by omega), List.getD_eq_default u.uncommittedAssets _
        (by omega), List.getD_eq_getElem?_getD, List.getElem?_replicate]
      split <;> rfl

@[simp] theorem balance_growTo : (u.growTo n).balance m = u.balance m := by
  simp [balance]

/-! ### Shifts -/

@[simp] theorem slots_shift : (u.shift δ).slots = u.slots := by simp [slots, shift]

@[simp] theorem seqTracker_shift : (u.shift δ).seqTracker = u.seqTracker := rfl

@[simp] theorem owner_shift : (u.shift δ).owner = u.owner := rfl

@[simp] theorem shift_zero : u.shift 0 = u := by
  simp [shift, List.mapIdx_eq_zipIdx_map]

@[simp] theorem shift_shift : (u.shift δ).shift ε = u.shift (δ + ε) := by
  simp [shift, List.mapIdx_mapIdx, Function.comp_def]

theorem growTo_shift (h : ∀ i, u.slots ≤ i → δ i = 0) :
    (u.growTo n).shift δ = (u.shift δ).growTo n := by
  have hzero : ∀ i, (RevertableAsset.zero).transferAvailable (δ (u.slots + i)) = .zero := by
    intro i
    rw [h _ (by omega)]
    rfl
  unfold shift growTo
  simp only [slots, List.length_mapIdx, List.mapIdx_append, UserAccount.mk.injEq, true_and, and_true,
    List.append_cancel_left_eq]
  refine List.ext_getElem? fun i => ?_
  simp only [List.getElem?_mapIdx, List.getElem?_replicate]
  split
  · simpa [slots, Nat.add_assoc, Nat.add_comm i] using hzero i
  · rfl

theorem assetAt_shift (h : n < u.slots) :
    (u.shift δ).assetAt n = (u.assetAt n).transferAvailable (δ n) := by
  unfold assetAt shift
  simp only [slots, List.length_mapIdx, List.getD_eq_getElem?_getD, List.getElem?_mapIdx] at h ⊢
  by_cases howned : n < u.ownedAssets.length
  · simp [howned]
  · have hlt : n - u.ownedAssets.length < u.uncommittedAssets.length := by omega
    have hn : u.ownedAssets.length + (n - u.ownedAssets.length) = n := by omega
    simp [howned, hlt, hn]

theorem balance_shift (h : n < u.slots) : (u.shift δ).balance n = u.balance n + δ n := by
  rw [balance, assetAt_shift h]
  rfl

theorem setAsset_transferAvailable (h : n < u.slots) (x : Int64) :
    u.setAsset n ((u.assetAt n).transferAvailable x) = u.shift (Pi.single n x) := by
  have hother : ∀ (i : Nat) (a : RevertableAsset), i ≠ n →
      a.transferAvailable (Pi.single (M := fun _ => Int64) n x i) = a := by
    intro i a hi
    rw [Pi.single_eq_of_ne hi, RevertableAsset.transferAvailable_zero]
  unfold setAsset assetAt shift
  simp only [slots] at h
  by_cases howned : n < u.ownedAssets.length
  · simp only [howned, if_true, UserAccount.mk.injEq, and_true]
    constructor
    · refine List.ext_getElem? fun i => ?_
      rw [List.getElem?_set, List.getElem?_mapIdx, List.getD_eq_getElem?_getD]
      by_cases hi : n = i
      · subst hi
        simp [howned]
      · cases u.ownedAssets[i]? with
        | none => simp [hi]
        | some a => simp [hi]
    · refine List.ext_getElem? fun i => ?_
      rw [List.getElem?_mapIdx]
      cases u.uncommittedAssets[i]? with
      | none => rfl
      | some a => simp [hother (u.ownedAssets.length + i) a (by omega)]
  · have hlt : n - u.ownedAssets.length < u.uncommittedAssets.length := by omega
    simp only [howned, if_false, UserAccount.mk.injEq, and_true]
    constructor
    · refine List.ext_getElem? fun i => ?_
      rw [List.getElem?_mapIdx]
      cases hi : u.ownedAssets[i]? with
      | none => rfl
      | some a =>
        have hlen := (List.getElem?_eq_some_iff.mp hi).1
        simp [hother i a (by omega)]
    · refine List.ext_getElem? fun i => ?_
      rw [List.getElem?_set, List.getElem?_mapIdx, List.getD_eq_getElem?_getD]
      by_cases hi : n - u.ownedAssets.length = i
      · subst hi
        have hn : u.ownedAssets.length + (n - u.ownedAssets.length) = n := by omega
        simp [hlt, hn]
      · cases u.uncommittedAssets[i]? with
        | none => simp [hi]
        | some a => simp [hi, hother (u.ownedAssets.length + i) a (by omega)]

theorem setAsset_assetAt (h : n < u.slots) : u.setAsset n (u.assetAt n) = u := by
  have hset := setAsset_transferAvailable h 0
  rwa [RevertableAsset.transferAvailable_zero, Pi.single_zero, shift_zero] at hset

/-! ### Operations on an asset -/

/-- An operation on an asset makes room for it first. -/
theorem operateOnAsset_eq {ρ : Type} (func : RevertableAsset → ρ × RevertableAsset) :
    u.operateOnAsset asset func =
      ((func (u.assetAt asset.toNat)).1,
        (u.growTo (asset.toNat + 1)).setAsset asset.toNat (func (u.assetAt asset.toNat)).2) := by
  rw [← assetAt_growTo (n := asset.toNat + 1)]
  unfold operateOnAsset setAsset assetAt growTo
  by_cases howned : asset.toNat < u.ownedAssets.length
  · have hgrow : asset.toNat + 1 - u.slots = 0 := by simp only [slots]; omega
    simp [howned, hgrow, Nat.not_le.mpr howned]
  · have hgrow : asset.toNat + 1 - u.slots =
        asset.toNat - u.ownedAssets.length + 1 - u.uncommittedAssets.length := by
      simp only [slots]
      omega
    simp [howned, hgrow, Nat.not_lt.mp howned]

theorem transferAvailable_eq (x : Int64) :
    u.transferAvailable asset x =
      (u.growTo (asset.toNat + 1)).shift (Pi.single asset.toNat x) := by
  rw [transferAvailable, operateOnAsset_eq]
  simp only
  rw [← setAsset_transferAvailable (by simp), assetAt_growTo]

theorem escrow_eq (x : Int64) :
    u.escrow asset x = (u.growTo (asset.toNat + 1)).shift (Pi.single asset.toNat (-x)) := by
  rw [escrow, operateOnAsset_eq]
  simp only
  rw [← setAsset_transferAvailable (by simp), assetAt_growTo]
  simp [RevertableAsset.escrow, RevertableAsset.transferAvailable, sub_eq_add_neg]

/-- Take `-x` of asset `n`: all of it, if there is enough, or nothing.  Either way there is a slot
for the asset afterwards. -/
structure Takes (u : UserAccount) (n : Nat) (x : Int64) (taken : Bool × UserAccount) : Prop where
  of_true : taken.1 = true → n < u.slots ∧ taken.2 = u.shift (Pi.single n x) ∧
    (u.balance n + x).toInt = (u.balance n).toInt + x.toInt ∧ 0 ≤ (u.balance n).toInt + x.toInt
  of_false : taken.1 = false → taken.2 = u.growTo (n + 1)

theorem takes_operateOnAsset {x : Int64} (hx : x < 0)
    {func : RevertableAsset → Bool × RevertableAsset} (h : ∀ a, RevertableAsset.Takes a x (func a)) :
    u.Takes asset.toNat x (u.operateOnAsset asset func) := by
  have hasset := h (u.assetAt asset.toNat)
  rw [operateOnAsset_eq]
  refine ⟨fun htrue => ?_, fun hfalse => ?_⟩
  · have hslots : asset.toNat < u.slots := by
      by_contra hle
      rw [assetAt_of_slots_le (Nat.le_of_not_lt hle)] at hasset htrue
      simp [hasset.ne_zero hx] at htrue
    obtain ⟨heq, hsum⟩ := hasset.of_true htrue
    refine ⟨hslots, ?_, hsum⟩
    simp only [heq]
    rw [growTo_of_le (by omega), setAsset_transferAvailable hslots]
  · simp only [hasset.of_false hfalse]
    rw [← assetAt_growTo (n := asset.toNat + 1), setAsset_assetAt (by simp)]

theorem takes_conditionalTransferAvailable {x : Int64} (hx : x < 0) :
    u.Takes asset.toNat x (u.conditionalTransferAvailable asset x) :=
  takes_operateOnAsset hx fun a => a.takes_conditionalTransferAvailable hx

theorem takes_conditionalEscrow {x : Int64} (hx : x < 0) :
    u.Takes asset.toNat x (u.conditionalEscrow asset (-x)) :=
  takes_operateOnAsset hx fun a => a.takes_conditionalEscrow hx

end UserAccount

end Speedex
