import Speedex.Lib.WrappingInt
import Speedex.Database.Unwind

/-! What calls on a buffered view come to for the balances: a credit waits in the buffer, a debit is
taken at once, and the commit adds the buffers to the balances. -/

namespace Speedex

open Lib

namespace UserAccount

variable {u : UserAccount}

theorem balance_shift_single {m : Nat} (h : m < u.slots) (x : Int64) (n : Nat) :
    (u.shift (Pi.single m x)).balance n = u.balance n + (Pi.single m x : Nat → Int64) n := by
  by_cases hn : n < u.slots
  · exact balance_shift hn
  · have hout : n ≥ (u.shift (Pi.single m x)).slots := by
      rw [slots_shift]
      omega
    rw [balance, assetAt_of_slots_le hout, balance, assetAt_of_slots_le (by omega),
      Pi.single_eq_of_ne (by omega), add_zero]

theorem balance_transferAvailable (asset : AssetID) (x : Int64) (n : Nat) :
    (u.transferAvailable asset x).balance n =
      u.balance n + (Pi.single asset.toNat x : Nat → Int64) n := by
  rw [transferAvailable_eq, balance_shift_single (by simp), balance_growTo]

end UserAccount

namespace MemoryDatabase

variable {db : MemoryDatabase} {i j n : Nat} {asset : AssetID} {x : Int64}

/-- What is available to account `i` of asset `n`. -/
def balanceAt (db : MemoryDatabase) (i n : Nat) : Int64 :=
  ((db.database[i]?).map (·.balance n)).getD 0

theorem balanceAt_modifyAccount {f : UserAccount → UserAccount}
    (hf : ∀ u, db.database[i]? = some u → (f u).balance n = u.balance n) :
    (db.modifyAccount i f).balanceAt j n = db.balanceAt j n := by
  unfold balanceAt
  rw [getElem?_modifyAccount]
  split
  · rename_i hij
    subst hij
    cases hu : db.database[i]? with
    | none => rfl
    | some u => simp [hf u hu]
  · rfl

/-- A change to what account `i` has of each asset. -/
theorem balanceAt_modifyAccount_add {f : UserAccount → UserAccount} {δ : Nat → Int64}
    (hj : i = j → j < db.database.length)
    (hf : ∀ u, db.database[i]? = some u → (f u).balance n = u.balance n + δ n) :
    (db.modifyAccount i f).balanceAt j n =
      db.balanceAt j n + (Pi.single i δ : Nat → Nat → Int64) j n := by
  unfold balanceAt
  rw [getElem?_modifyAccount]
  split
  · rename_i hij
    subst hij
    obtain ⟨u, hu⟩ : ∃ u, db.database[i]? = some u := ⟨_, List.getElem?_eq_getElem (hj rfl)⟩
    simp [hu, hf u hu]
  · rename_i hij
    rw [Pi.single_eq_of_ne (Ne.symm hij)]
    simp

theorem balanceAt_growAt (m : Nat) : (db.growAt i m).balanceAt j n = db.balanceAt j n :=
  balanceAt_modifyAccount fun _ _ => UserAccount.balance_growTo

theorem length_transferAvailable :
    (db.transferAvailable i asset x).database.length = db.database.length := by
  simp [transferAvailable, modifyAccount]

theorem balanceAt_transferAvailable (hj : j < db.database.length) :
    (db.transferAvailable i asset x).balanceAt j n =
      db.balanceAt j n + (Pi.single i (Pi.single asset.toNat x) : Nat → Nat → Int64) j n :=
  balanceAt_modifyAccount_add (fun _ => hj) fun u _ => u.balance_transferAvailable asset x n

/-- A debit that succeeds leaves a balance of at least zero. -/
theorem balanceAt_conditionalEscrow (hx : x < 0) (h : (db.conditionalEscrow i asset (-x)).1 = true) :
    (∀ j n, (db.conditionalEscrow i asset (-x)).2.balanceAt j n =
      db.balanceAt j n + (Pi.single i (Pi.single asset.toNat x) : Nat → Nat → Int64) j n) ∧
    (db.balanceAt i asset.toNat + x).toInt = (db.balanceAt i asset.toNat).toInt + x.toInt ∧
    0 ≤ (db.balanceAt i asset.toNat).toInt + x.toInt := by
  simp only [conditionalEscrow] at h
  cases hu : db.database[i]? with
  | none => simp [hu] at h
  | some u =>
    simp only [hu, Option.map_some, Option.getD_some] at h
    obtain ⟨hslots, heq, hsum, hle⟩ :=
      (@UserAccount.takes_conditionalEscrow u asset x hx).of_true h
    have hbalance : db.balanceAt i asset.toNat = u.balance asset.toNat := by simp [balanceAt, hu]
    refine ⟨fun j n => ?_, by rw [hbalance]; exact hsum, by rw [hbalance]; exact hle⟩
    refine balanceAt_modifyAccount_add (fun hij => ?_) fun u' hu' => ?_
    · exact hij ▸ (List.getElem?_eq_some_iff.mp hu).1
    · cases hu.symm.trans hu'
      rw [heq]
      exact UserAccount.balance_shift_single hslots x n

theorem balanceAt_reserveSequenceNumber {db' : MemoryDatabase} {number : UInt64}
    {status : TransactionProcessingStatus}
    (h : db.reserveSequenceNumber i number = .ok (status, db')) :
    db'.balanceAt j n = db.balanceAt j n := by
  unfold reserveSequenceNumber at h
  split at h
  · cases h
  · cases h
    exact balanceAt_modifyAccount fun _ _ => rfl

theorem balanceAt_releaseSequenceNumber {db' : MemoryDatabase} {number : UInt64}
    (h : db.releaseSequenceNumber i number = .ok db') : db'.balanceAt j n = db.balanceAt j n := by
  unfold releaseSequenceNumber at h
  split at h
  · cases h
  · rename_i u hu
    obtain ⟨u', hu', h⟩ := bind_eq_ok.mp h
    cases h
    refine balanceAt_modifyAccount fun v hv => ?_
    cases hu.symm.trans hv
    obtain ⟨t, -, hu'⟩ := bind_eq_ok.mp hu'
    cases hu'
    rfl

end MemoryDatabase

namespace UserAccountView

variable {v : UserAccountView} {db : MemoryDatabase}

theorem buffered_setBuffer (asset a : AssetID) (x : Int64) :
    (v.setBuffer asset x).buffered a = if asset = a then x else v.buffered a := by
  unfold buffered setBuffer
  rw [SortedMap.find?_insert]
  split <;> rfl

theorem length_commit (main : Nat) :
    (v.commit db main).database.length = db.database.length := by
  unfold commit
  generalize v.availableBuffer.entries = l
  induction l generalizing db with
  | nil => rfl
  | cons a l ih =>
    rw [List.foldl_cons, ih, MemoryDatabase.length_transferAvailable]

/-- The loops of `commit` and `unwind`: transfers of `f` of each amount. -/
theorem balanceAt_transfers (f : Int64 → Int64) (l : List (AssetID × Int64)) {main j : Nat}
    (hj : j < db.database.length) (n : Nat) :
    (l.foldl (fun db a => db.transferAvailable main a.1 (f a.2)) db).balanceAt j n =
      db.balanceAt j n + (Pi.single main (SortedMap.spreadList (fun a : AssetID => a.toNat) f l) :
        Nat → Nat → Int64) j n := by
  induction l generalizing db with
  | nil => simp
  | cons a l ih =>
    rw [List.foldl_cons, ih (by rwa [MemoryDatabase.length_transferAvailable]),
      MemoryDatabase.balanceAt_transferAvailable hj, SortedMap.spreadList_cons, Pi.single_add,
      Pi.add_apply, Pi.add_apply, ← add_assoc]

/-- Committing the view of one account adds its buffers to the balances. -/
theorem balanceAt_commit {main j : Nat} (hj : j < db.database.length) (n : Nat) :
    (v.commit db main).balanceAt j n = db.balanceAt j n +
      (Pi.single main (v.availableBuffer.spread (·.toNat) id) : Nat → Nat → Int64) j n :=
  balanceAt_transfers id _ hj n

theorem spread_buffer (asset : AssetID) :
    v.availableBuffer.spread (·.toNat) id asset.toNat = v.buffered asset := by
  have happly := SortedMap.spread_apply (ι := fun a : AssetID => a.toNat) (f := (id : Int64 → Int64))
    (fun _ _ => UInt32.toNat_inj.mp) v.availableBuffer asset
  rw [happly, Option.map_id]
  rfl

end UserAccountView

namespace BufferedMemoryDatabaseView

variable {v : BufferedMemoryDatabaseView} {db : MemoryDatabase} {i : Nat}

theorem buffered_insert (view : UserAccountView) (j : Nat) (a : AssetID) :
    buffered { v with accounts := v.accounts.insert i view } j a =
      if i = j then view.buffered a else v.buffered j a := by
  unfold buffered getExistingAccount
  rw [SortedMap.find?_insert]
  split <;> rfl

theorem buffered_of_empty (hv : v.accounts = ∅) (j : Nat) (a : AssetID) : v.buffered j a = 0 := by
  rw [buffered, getExistingAccount, hv]
  rfl

/-- A credit that leaves the buffer at zero or more succeeds and waits there. -/
theorem transferAvailable_credits {asset : AssetID} {amount : Int64}
    (h : ¬ v.buffered i asset + amount < 0) :
    ∃ v', v.transferAvailable db (.main i) asset amount = (.SUCCESS, db, v') ∧
      v'.toAccountCreationView = v.toAccountCreationView ∧
      ∀ j a, v'.buffered j a =
        v.buffered j a + if i = j ∧ asset = a then amount else 0 := by
  let view := (v.getExistingAccount i).setBuffer asset (v.buffered i asset + amount)
  refine ⟨{ v with accounts := v.accounts.insert i view }, ?_, rfl, fun j a => ?_⟩
  · have hsettle : ¬ (v.getExistingAccount i).buffered asset + amount < 0 := h
    simp only [transferAvailable, onAccount, UserAccountView.transferAvailable,
      UserAccountView.settle, if_neg hsettle]
    rfl
  · rw [buffered_insert, UserAccountView.buffered_setBuffer]
    by_cases hij : i = j
    · subst hij
      by_cases ha : asset = a
      · subst ha
        simp
      · simp [ha, buffered]
    · simp [hij]

/-- The first debit of a view is taken from the account. -/
theorem escrow_takes (hv : v.accounts = ∅) {asset : AssetID} {amount : Int64}
    (hamount : 0 < amount) :
    (v.escrow db (.main i) asset amount).2.2.toAccountCreationView = v.toAccountCreationView ∧
    ((v.escrow db (.main i) asset amount).1 = .SUCCESS →
      (db.conditionalEscrow i asset amount).1 = true ∧
      (v.escrow db (.main i) asset amount).2.1 = (db.conditionalEscrow i asset amount).2 ∧
      ∀ j a, (v.escrow db (.main i) asset amount).2.2.buffered j a = 0) := by
  have hexisting : v.getExistingAccount i = .empty := by
    rw [getExistingAccount, hv]
    rfl
  have hnonneg : ¬ amount < 0 := by
    rw [Int64.lt_iff_toInt_lt] at hamount ⊢
    omega
  have hneg : (0 : Int64) - amount < 0 := by
    have hlow := amount.toInt_lt
    rw [Int64.lt_iff_toInt_lt] at hamount ⊢
    rw [toInt_sub_of_bounds] <;> simp at hamount ⊢ <;> omega
  have hempty : ∀ a, UserAccountView.empty.buffered a = 0 := fun _ => rfl
  have hback : -(0 - amount) = amount := by rw [zero_sub, neg_neg]
  simp only [escrow, onAccount, hexisting, UserAccountView.conditionalEscrow, if_neg hnonneg, hempty,
    UserAccountView.settle, if_pos hneg, hback]
  cases htake : (db.conditionalEscrow i asset amount).1 with
  | false => simp
  | true =>
    refine ⟨trivial, fun _ => ⟨rfl, rfl, fun j a => ?_⟩⟩
    simp only [if_true]
    rw [buffered_insert, UserAccountView.buffered_setBuffer]
    split_ifs
    · rfl
    · rfl
    · exact buffered_of_empty hv j a

/-- Committing a view adds its buffers to the balances. -/
theorem balanceAt_commit (hi : i < db.database.length) (asset : AssetID) :
    (v.commit db).balanceAt i asset.toNat = db.balanceAt i asset.toNat + v.buffered i asset := by
  have hcreation : ∀ (l : List (AccountID × UserAccount)) (d : MemoryDatabase),
      (l.foldl (fun d a => d.commitAccountCreation a.2) d).database = d.database := by
    intro l
    induction l with
    | nil => exact fun _ => rfl
    | cons a l ih => exact fun d => ih _
  have hlist : ∀ (l : List (Nat × UserAccountView)) (d : MemoryDatabase), i < d.database.length →
      (l.foldl (fun d a => a.2.commit d a.1) d).balanceAt i asset.toNat =
        d.balanceAt i asset.toNat + SortedMap.spreadList id
          (fun view : UserAccountView => view.availableBuffer.spread (·.toNat) id) l i asset.toNat := by
    intro l
    induction l with
    | nil => simp
    | cons a l ih =>
      intro d hd
      rw [List.foldl_cons, ih _ (by rwa [UserAccountView.length_commit]),
        UserAccountView.balanceAt_commit hd, SortedMap.spreadList_cons, Pi.add_apply, Pi.add_apply,
        ← add_assoc]
      rfl
  have hspread := SortedMap.spread_apply (ι := id)
    (f := fun view : UserAccountView => view.availableBuffer.spread (·.toNat) id)
    Function.injective_id v.accounts i
  rw [commit, AccountCreationView.commit, MemoryDatabase.balanceAt, hcreation]
  refine (hlist _ db hi).trans (congrArg (db.balanceAt i asset.toNat + ·) ?_)
  refine (congrFun hspread asset.toNat).trans ?_
  rw [buffered, getExistingAccount]
  cases v.accounts.find? i with
  | none => rfl
  | some view => exact view.spread_buffer asset

end BufferedMemoryDatabaseView

end Speedex
