import Speedex.Lib.Spread
import Speedex.Database.Transfers
import Speedex.Database.View

/-! Unwinding a buffered view (`BufferedMemoryDatabaseView::unwind`) returns what the view took,
and nothing else: the database is as before the transaction, but for asset slots that a debit made
room for. -/

namespace Speedex

open Lib

namespace MemoryDatabase

variable {db : MemoryDatabase} {i j : Nat}

/-- The database with `δ i n` added to what account `i` has of asset `n`. -/
def shiftAll (db : MemoryDatabase) (δ : Nat → Nat → Int64) : MemoryDatabase :=
  { db with database := db.database.mapIdx fun i u => u.shift (δ i) }

@[simp] theorem shiftAll_zero : db.shiftAll 0 = db := by
  simp [shiftAll, List.mapIdx_eq_zipIdx_map]

@[simp] theorem shiftAll_shiftAll (δ ε : Nat → Nat → Int64) :
    (db.shiftAll δ).shiftAll ε = db.shiftAll (δ + ε) := by
  simp [shiftAll, List.mapIdx_mapIdx, Function.comp_def]

theorem modifyAccount_congr {f g : UserAccount → UserAccount}
    (h : ∀ u, db.database[i]? = some u → f u = g u) :
    db.modifyAccount i f = db.modifyAccount i g := by
  unfold modifyAccount
  congr 1
  refine List.ext_getElem? fun k => ?_
  simp only [List.getElem?_modify]
  by_cases hk : i = k
  · subst hk
    cases hu : db.database[i]? with
    | none => simp
    | some u => simp [h u hu]
  · simp [hk]

@[simp] theorem modifyAccount_id : db.modifyAccount i (fun u => u) = db := by
  change db.modifyAccount i id = db
  simp [modifyAccount]

theorem modifyAccount_modifyAccount (f g : UserAccount → UserAccount) :
    (db.modifyAccount i f).modifyAccount i g = db.modifyAccount i fun u => g (f u) := by
  unfold modifyAccount
  simp only
  congr 1
  refine List.ext_getElem? fun k => ?_
  simp only [List.getElem?_modify]
  by_cases hk : i = k <;> simp [hk, Function.comp_def]

theorem getElem?_modifyAccount (f : UserAccount → UserAccount) (k : Nat) :
    (db.modifyAccount i f).database[k]? =
      if i = k then db.database[k]?.map f else db.database[k]? := by
  simp only [modifyAccount, List.getElem?_modify]
  by_cases hk : i = k <;> simp [hk]

theorem modifyAccount_shift (δ : Nat → Int64) :
    db.modifyAccount i (·.shift δ) = db.shiftAll (Pi.single i δ) := by
  unfold modifyAccount shiftAll
  congr 1
  refine List.ext_getElem? fun k => ?_
  simp only [List.getElem?_modify, List.getElem?_mapIdx]
  by_cases hk : i = k
  · subst hk
    simp
  · simp [hk]

/-- The database with at least `n` asset slots in account `i`. -/
def growAt (db : MemoryDatabase) (i n : Nat) : MemoryDatabase := db.modifyAccount i (·.growTo n)

@[simp] theorem growAt_zero : db.growAt i 0 = db := by
  unfold growAt
  rw [modifyAccount_congr fun u _ => UserAccount.growTo_of_le (Nat.zero_le _), modifyAccount_id]

theorem growAt_of_lt {asset : AssetID} (h : ∀ u, db.database[i]? = some u → asset.toNat < u.slots) :
    db.growAt i (asset.toNat + 1) = db := by
  unfold growAt
  rw [modifyAccount_congr fun u hu => UserAccount.growTo_of_le (h u hu), modifyAccount_id]

/-- The account has no slot for the asset. -/
def Unslotted (db : MemoryDatabase) (i : Nat) (asset : AssetID) : Prop :=
  ∃ u, db.database[i]? = some u ∧ u.slots ≤ asset.toNat

/-- Take `-x` of an asset from account `i`: all of it, if there is enough, or nothing. -/
structure Takes (db : MemoryDatabase) (i : Nat) (asset : AssetID) (x : Int64)
    (taken : Bool × MemoryDatabase) : Prop where
  of_true : taken.1 = true → (∃ u, db.database[i]? = some u ∧ asset.toNat < u.slots) ∧
    taken.2 = db.shiftAll (Pi.single i (Pi.single asset.toNat x))
  of_false : taken.1 = false → taken.2 = db.growAt i (asset.toNat + 1)

theorem takes_modifyAccount {asset : AssetID} {x : Int64} {f : UserAccount → Bool × UserAccount}
    (h : ∀ u, UserAccount.Takes u asset.toNat x (f u)) :
    db.Takes i asset x ((db.database[i]?.map fun u => (f u).1).getD false,
      db.modifyAccount i fun u => (f u).2) := by
  cases hu : db.database[i]? with
  | none =>
    refine ⟨by simp, fun _ => ?_⟩
    unfold growAt
    exact modifyAccount_congr fun u hu' => by simp [hu] at hu'
  | some u =>
    refine ⟨fun htrue => ?_, fun hfalse => ?_⟩
    · obtain ⟨hslots, heq, -⟩ := (h u).of_true htrue
      refine ⟨⟨u, hu, hslots⟩, ?_⟩
      rw [← modifyAccount_shift]
      refine modifyAccount_congr fun u' hu' => ?_
      rw [hu] at hu'
      cases hu'
      exact heq
    · unfold growAt
      refine modifyAccount_congr fun u' hu' => ?_
      rw [hu] at hu'
      cases hu'
      exact (h u).of_false hfalse

theorem takes_conditionalTransferAvailable {asset : AssetID} {x : Int64} (hx : x < 0) :
    db.Takes i asset x (db.conditionalTransferAvailable i asset x) :=
  takes_modifyAccount fun _ => UserAccount.takes_conditionalTransferAvailable hx

theorem takes_conditionalEscrow {asset : AssetID} {x : Int64} (hx : x < 0) :
    db.Takes i asset x (db.conditionalEscrow i asset (-x)) :=
  takes_modifyAccount fun _ => UserAccount.takes_conditionalEscrow hx

end MemoryDatabase

/-! ### One account -/

namespace UserAccountView

variable {v : UserAccountView} {db : MemoryDatabase}

/-- What the view took of each asset, as a negative amount. -/
def taken (v : UserAccountView) : Nat → Int64 := v.availableSideEffects.spread (·.toNat) id

@[simp] theorem taken_empty : empty.taken = 0 := rfl

@[simp] theorem taken_setBuffer (asset : AssetID) (x : Int64) :
    (v.setBuffer asset x).taken = v.taken := rfl

@[simp] theorem taken_addSideEffect (asset : AssetID) (x : Int64) :
    (v.addSideEffect asset x).taken = v.taken + Pi.single asset.toNat x := by
  simp [taken, addSideEffect, SortedMap.spread_insert, sideEffect]

/-- There is a slot for every asset that the view took something of. -/
def Slotted (v : UserAccountView) (u : UserAccount) : Prop :=
  ∀ asset x, v.availableSideEffects.find? asset = some x → asset.toNat < u.slots

theorem slotted_empty (u : UserAccount) : empty.Slotted u := by
  intro asset x hx
  cases hx

theorem Slotted.taken_eq_zero {u : UserAccount} (h : v.Slotted u) {n : Nat} (hn : u.slots ≤ n) :
    v.taken n = 0 := by
  have hlist : ∀ l : List (AssetID × Int64), (∀ a ∈ l, a.1.toNat < u.slots) →
      SortedMap.spreadList (fun asset : AssetID => asset.toNat) id l n = 0 := by
    intro l hl
    induction l with
    | nil => rfl
    | cons a l ih =>
      have ha := hl a List.mem_cons_self
      rw [SortedMap.spreadList_cons, Pi.add_apply, ih fun b hb => hl b (List.mem_cons_of_mem _ hb),
        Pi.single_eq_of_ne (by omega), add_zero]
  exact hlist _ fun a ha => h a.1 a.2 (SortedMap.mem_entries.mp ha)

theorem unwind_list (l : List (AssetID × Int64)) (u : UserAccount)
    (h : ∀ a ∈ l, a.1.toNat < u.slots) :
    l.foldl (fun u a => u.transferAvailable a.1 (-a.2)) u =
      u.shift (-SortedMap.spreadList (fun asset : AssetID => asset.toNat) id l) := by
  induction l generalizing u with
  | nil => simp
  | cons a l ih =>
    have ha := h a List.mem_cons_self
    rw [List.foldl_cons, UserAccount.transferAvailable_eq, UserAccount.growTo_of_le (by omega), ih]
    · rw [UserAccount.shift_shift, SortedMap.spreadList_cons, neg_add, Pi.single_neg]
      rfl
    · intro b hb
      rw [UserAccount.slots_shift]
      exact h b (List.mem_cons_of_mem _ hb)

theorem unwind_eq (main : Nat) (h : ∀ u, db.database[main]? = some u → v.Slotted u) :
    v.unwind db main = db.shiftAll (Pi.single main (-v.taken)) := by
  have hfold : ∀ (l : List (AssetID × Int64)) (db : MemoryDatabase),
      l.foldl (fun db a => db.transferAvailable main a.1 (-a.2)) db =
        db.modifyAccount main fun u => l.foldl (fun u a => u.transferAvailable a.1 (-a.2)) u := by
    intro l
    induction l with
    | nil => simp
    | cons a l ih =>
      intro db
      rw [List.foldl_cons, ih, MemoryDatabase.transferAvailable,
        MemoryDatabase.modifyAccount_modifyAccount]
      rfl
  rw [unwind, hfold, ← MemoryDatabase.modifyAccount_shift]
  refine MemoryDatabase.modifyAccount_congr fun u hu => ?_
  rw [unwind_list _ _ fun a ha => h u hu a.1 a.2 (SortedMap.mem_entries.mp ha)]
  rfl

end UserAccountView

/-! ### The whole view -/

namespace BufferedMemoryDatabaseView

variable {v : BufferedMemoryDatabaseView} {db db₀ : MemoryDatabase} {i n : Nat}

/-- What the view took of each account and asset, as a negative amount. -/
def taken (v : BufferedMemoryDatabaseView) : Nat → Nat → Int64 :=
  v.accounts.spread id UserAccountView.taken

def Slotted (v : BufferedMemoryDatabaseView) (db : MemoryDatabase) : Prop :=
  ∀ i view, v.accounts.find? i = some view → ∀ u, db.database[i]? = some u → view.Slotted u

theorem taken_insert (view : UserAccountView) :
    SortedMap.spread id UserAccountView.taken (v.accounts.insert i view) =
      v.taken + Pi.single i (view.taken - (v.getExistingAccount i).taken) := by
  rw [SortedMap.spread_insert, getExistingAccount, taken]
  cases v.accounts.find? i <;> rfl

theorem taken_apply : v.taken i = (v.getExistingAccount i).taken := by
  have happly := SortedMap.spread_apply (ι := id) (f := UserAccountView.taken)
    Function.injective_id v.accounts i
  rw [BufferedMemoryDatabaseView.getExistingAccount, taken]
  refine happly.trans ?_
  cases v.accounts.find? i <;> rfl

theorem Slotted.getExistingAccount (h : v.Slotted db) {u : UserAccount}
    (hu : db.database[i]? = some u) : (v.getExistingAccount i).Slotted u := by
  unfold BufferedMemoryDatabaseView.getExistingAccount
  cases hview : v.accounts.find? i with
  | none => exact UserAccountView.slotted_empty u
  | some view => exact h i view hview u hu

theorem unwindAccounts_list (l : List (Nat × UserAccountView)) (db : MemoryDatabase)
    (h : ∀ a ∈ l, ∀ u, db.database[a.1]? = some u → a.2.Slotted u) :
    l.foldl (fun db a => a.2.unwind db a.1) db =
      db.shiftAll (-SortedMap.spreadList id UserAccountView.taken l) := by
  induction l generalizing db with
  | nil => simp
  | cons a l ih =>
    rw [List.foldl_cons, UserAccountView.unwind_eq _ (h a List.mem_cons_self), ih]
    · rw [MemoryDatabase.shiftAll_shiftAll, SortedMap.spreadList_cons, neg_add, Pi.single_neg]
      rfl
    · intro b hb u hu
      simp only [MemoryDatabase.shiftAll, List.getElem?_mapIdx, Option.map_eq_some_iff] at hu
      obtain ⟨u', hu', rfl⟩ := hu
      intro asset x hx
      rw [UserAccount.slots_shift]
      exact h b (List.mem_cons_of_mem _ hb) u' hu' asset x hx

theorem releaseAll_list (l : List (AccountID × UserAccount)) (db : MemoryDatabase) :
    l.foldl (fun db a => db.releaseAccountCreation a.1) db =
      { db with reservedAccountIds := db.reservedAccountIds \ (l.map (·.1)).toFinset } := by
  induction l generalizing db with
  | nil => simp
  | cons a l ih =>
    rw [List.foldl_cons, ih]
    simp only [MemoryDatabase.releaseAccountCreation, List.map_cons, List.toFinset_cons,
      MemoryDatabase.mk.injEq, true_and, and_true]
    ext x
    simp only [Finset.mem_sdiff, Finset.mem_erase, Finset.mem_insert]
    tauto

/-- The database is `db₀` but for what the view took and the accounts that it reserved. -/
structure Buffers (v : BufferedMemoryDatabaseView) (db₀ db : MemoryDatabase) : Prop where
  eq : db = { db₀.shiftAll v.taken with
    reservedAccountIds := db₀.reservedAccountIds ∪ (v.newAccounts.map (·.1)).toFinset }
  slotted : v.Slotted db₀
  disjoint : Disjoint db₀.reservedAccountIds (v.newAccounts.map (·.1)).toFinset

/-- A view that has touched no account yet. -/
theorem buffers_begin {creation : AccountCreationView} (hnew : creation.newAccounts = [])
    (db : MemoryDatabase) : Buffers ⟨creation, ∅⟩ db db := by
  refine ⟨?_, ?_, ?_⟩
  · change db = { db.shiftAll 0 with
      reservedAccountIds := db.reservedAccountIds ∪ (creation.newAccounts.map (·.1)).toFinset }
    rw [hnew, MemoryDatabase.shiftAll_zero]
    exact (congrArg (fun ids => { db with reservedAccountIds := ids })
      (Finset.union_empty db.reservedAccountIds)).symm
  · intro i view hview
    cases hview
  · rw [hnew]
    exact Finset.disjoint_empty_right _

theorem Buffers.getElem? (h : Buffers v db₀ db) (k : Nat) :
    db.database[k]? = db₀.database[k]?.map (·.shift (v.taken k)) := by
  rw [h.eq]
  simp [MemoryDatabase.shiftAll]

/-- Unwinding the view gives the database back, and releases the sequence numbers. -/
theorem Buffers.unwind (h : Buffers v db₀ db) :
    v.unwind db =
      v.reservations.foldlM (fun db res => db.releaseSequenceNumber res.account res.seqno) db₀ := by
  have hslotted : ∀ a ∈ v.accounts.entries, ∀ u, db.database[a.1]? = some u → a.2.Slotted u := by
    intro a ha u hu asset x hx
    rw [h.getElem?, Option.map_eq_some_iff] at hu
    obtain ⟨u', hu', rfl⟩ := hu
    rw [UserAccount.slots_shift]
    exact h.slotted a.1 a.2 (SortedMap.mem_entries.mp ha) u' hu' asset x hx
  have hback : v.taken + -SortedMap.spreadList id UserAccountView.taken v.accounts.entries = 0 :=
    add_neg_cancel v.taken
  rw [BufferedMemoryDatabaseView.unwind, AccountCreationView.unwind, unwindAccounts_list _ _ hslotted,
    releaseAll_list]
  congr 1
  have hdatabase : ((db₀.shiftAll v.taken).shiftAll
      (-SortedMap.spreadList id UserAccountView.taken v.accounts.entries)).database =
        db₀.database := by
    rw [MemoryDatabase.shiftAll_shiftAll, hback, MemoryDatabase.shiftAll_zero]
  rw [h.eq]
  simp only [MemoryDatabase.shiftAll] at hdatabase ⊢
  rw [hdatabase, Finset.union_sdiff_cancel_right h.disjoint]

/-- The invariant is about an account's balances only, so that slots can be added on both sides. -/
theorem Buffers.growAt (h : Buffers v db₀ db) (i n : Nat) :
    Buffers v (db₀.growAt i n) (db.growAt i n) := by
  refine ⟨?_, ?_, h.disjoint⟩
  · rw [h.eq]
    simp only [MemoryDatabase.growAt, MemoryDatabase.modifyAccount, MemoryDatabase.shiftAll,
      MemoryDatabase.mk.injEq, and_true]
    refine List.ext_getElem? fun k => ?_
    simp only [List.getElem?_modify, List.getElem?_mapIdx]
    by_cases hk : i = k
    · subst hk
      cases hu : db₀.database[i]? with
      | none => simp
      | some u =>
        have hzero : ∀ m, u.slots ≤ m → v.taken i m = 0 := by
          intro m hm
          rw [taken_apply, (h.slotted.getExistingAccount hu).taken_eq_zero hm]
        simp [UserAccount.growTo_shift hzero]
    · simp [hk]
  · intro k view hview u hu asset x hx
    rw [MemoryDatabase.growAt, MemoryDatabase.getElem?_modifyAccount] at hu
    split at hu
    · obtain ⟨u', hu', rfl⟩ := Option.map_eq_some_iff.mp hu
      have := h.slotted k view hview u' hu' asset x hx
      rw [UserAccount.slots_growTo]
      omega
    · exact h.slotted k view hview u hu asset x hx

/-! ### Calls -/

/-- The call settles a buffer that is negative, for an asset that the account has no slot for. -/
def Uncovered (db : MemoryDatabase) (i : Nat) (asset : AssetID) (newBuffer : Int64) : Prop :=
  newBuffer < 0 ∧ db.Unslotted i asset

theorem Buffers.uncovered_iff (h : Buffers v db₀ db) {asset : AssetID} {newBuffer : Int64} :
    Uncovered db i asset newBuffer ↔ Uncovered db₀ i asset newBuffer := by
  unfold Uncovered MemoryDatabase.Unslotted
  rw [h.getElem?]
  cases db₀.database[i]? <;> simp

/-- What a call on an account of the database leads to: it succeeds, or it fails and makes room for
the asset. -/
def Leads (v : BufferedMemoryDatabaseView) (db₀ : MemoryDatabase) (i : Nat) (asset : AssetID)
    (newBuffer : Int64)
    (r : TransactionProcessingStatus × MemoryDatabase × BufferedMemoryDatabaseView) : Prop :=
  r.2.2.toAccountCreationView = v.toAccountCreationView ∧
  ((r.1 = .SUCCESS ∧ ¬ Uncovered db₀ i asset newBuffer ∧ Buffers r.2.2 db₀ r.2.1) ∨
    (r.1 ≠ .SUCCESS ∧ newBuffer < 0 ∧ Buffers r.2.2 (db₀.growAt i (asset.toNat + 1)) r.2.1))

/-- A view of one account that took `x` of `asset` more. -/
theorem Buffers.insert (h : Buffers v db₀ db) (view : UserAccountView) {x : Nat → Int64}
    (htaken : view.taken = (v.getExistingAccount i).taken + x)
    (hslotted : ∀ u, db₀.database[i]? = some u → view.Slotted u) :
    Buffers { v with accounts := v.accounts.insert i view } db₀ (db.shiftAll (Pi.single i x)) := by
  have htaken' : taken { v with accounts := v.accounts.insert i view } =
      v.taken + Pi.single i x := by
    change SortedMap.spread id UserAccountView.taken (v.accounts.insert i view) = _
    rw [taken_insert, htaken, add_sub_cancel_left]
  refine ⟨?_, fun k view' hview' => ?_, h.disjoint⟩
  · have hdatabase : (db.shiftAll (Pi.single i x)).database =
        (db₀.shiftAll (v.taken + Pi.single i x)).database := by
      rw [← MemoryDatabase.shiftAll_shiftAll, h.eq]
      rfl
    rw [htaken']
    rw [h.eq] at hdatabase ⊢
    simp only [MemoryDatabase.shiftAll] at hdatabase ⊢
    rw [hdatabase]
  · by_cases hk : i = k
    · subst hk
      rw [SortedMap.find?_insert_self] at hview'
      cases hview'
      exact hslotted
    · rw [SortedMap.find?_insert_ne hk] at hview'
      exact h.slotted k view' hview'

theorem Buffers.settle (h : Buffers v db₀ db) (asset : AssetID) (newBuffer : Int64)
    {take : Bool × MemoryDatabase} (ht : newBuffer < 0 → db.Takes i asset newBuffer take) :
    Leads v db₀ i asset newBuffer
      (v.onAccount i fun view => view.settle db asset newBuffer take) := by
  have hexisting := fun u (hu : db₀.database[i]? = some u) => h.slotted.getExistingAccount hu
  unfold onAccount UserAccountView.settle
  by_cases hneg : newBuffer < 0
  · cases htake : take.1 with
    | true =>
      obtain ⟨⟨u, hu, hslots⟩, heq⟩ := (ht hneg).of_true htake
      simp only [hneg, if_true, heq]
      refine ⟨rfl, .inl ⟨rfl, ?_, ?_⟩⟩
      · rw [← h.uncovered_iff]
        rintro ⟨-, u', hu', hle⟩
        rw [hu] at hu'
        cases hu'
        omega
      · refine h.insert _ (by simp) fun u₀ hu₀ => ?_
        intro a x hx
        simp only [UserAccountView.setBuffer, UserAccountView.addSideEffect] at hx
        rw [h.getElem?, hu₀, Option.map_some, Option.some.injEq] at hu
        subst hu
        rw [UserAccount.slots_shift] at hslots
        by_cases ha : asset = a
        · subst ha
          exact hslots
        · rw [SortedMap.find?_insert_ne ha] at hx
          exact hexisting u₀ hu₀ a x hx
    | false =>
      simp only [hneg, if_true, (ht hneg).of_false htake, Bool.false_eq_true, if_false]
      refine ⟨rfl, .inr ⟨by simp, hneg, ?_⟩⟩
      have hbuffers := (h.growAt i (asset.toNat + 1)).insert (i := i) (x := 0)
        ((v.getExistingAccount i).setBuffer asset ((v.getExistingAccount i).buffered asset))
        (by simp) ?_
      · simpa using hbuffers
      · intro u hu a x hx
        exact (h.growAt i (asset.toNat + 1)).slotted.getExistingAccount hu a x hx
  · simp only [hneg, if_false]
    refine ⟨rfl, .inl ⟨rfl, fun hunc => hneg hunc.1, ?_⟩⟩
    have hbuffers := h.insert (i := i) (x := 0)
      ((v.getExistingAccount i).setBuffer asset newBuffer) (by simp)
      fun u hu a x hx => hexisting u hu a x hx
    simpa using hbuffers

/-- The buffer of account `i` for an asset. -/
def buffered (v : BufferedMemoryDatabaseView) (i : Nat) (asset : AssetID) : Int64 :=
  (v.getExistingAccount i).buffered asset

theorem onAccount_congr
    (op op' : UserAccountView → TransactionProcessingStatus × MemoryDatabase × UserAccountView)
    (h : op (v.getExistingAccount i) = op' (v.getExistingAccount i)) :
    v.onAccount i op = v.onAccount i op' := by
  simp only [onAccount, h]

theorem Buffers.transferAvailable (h : Buffers v db₀ db) (asset : AssetID) (amount : Int64) :
    Leads v db₀ i asset (v.buffered i asset + amount)
      (v.transferAvailable db (.main i) asset amount) := by
  have hsettle := h.settle (i := i) asset (v.buffered i asset + amount)
    MemoryDatabase.takes_conditionalTransferAvailable
  rw [onAccount_congr _ (·.transferAvailable db i asset amount) rfl] at hsettle
  exact hsettle

theorem Buffers.escrow (h : Buffers v db₀ db) (asset : AssetID) {amount : Int64}
    (hamount : ¬ amount < 0) :
    Leads v db₀ i asset (v.buffered i asset - amount)
      (v.escrow db (.main i) asset amount) := by
  have hsettle := h.settle (i := i) asset (v.buffered i asset - amount)
    MemoryDatabase.takes_conditionalEscrow
  rw [onAccount_congr _ (·.conditionalEscrow db i asset amount)] at hsettle
  · exact hsettle
  · simp only [UserAccountView.conditionalEscrow, if_neg hamount]
    rfl

/-- Freeing escrowed money only fills the buffer. -/
theorem Buffers.free (h : Buffers v db₀ db) (asset : AssetID) {amount : Int64}
    (hamount : amount < 0) :
    ∃ v', v.escrow db (.main i) asset amount = (.SUCCESS, db, v') ∧
      v'.toAccountCreationView = v.toAccountCreationView ∧ Buffers v' db₀ db := by
  have hbuffers := h.insert (i := i) (x := 0)
    ((v.getExistingAccount i).setBuffer asset ((v.getExistingAccount i).buffered asset - amount))
    (by simp) fun u hu a x hx => h.slotted.getExistingAccount hu a x hx
  simp only [Pi.single_zero, MemoryDatabase.shiftAll_zero] at hbuffers
  refine ⟨_, ?_, ?_, hbuffers⟩
  · simp [BufferedMemoryDatabaseView.escrow, onAccount, UserAccountView.conditionalEscrow, hamount]
  · rfl

theorem map_fst_modifyNewAccount (c : AccountCreationView) (account : AccountID)
    (f : UserAccount → UserAccount) :
    (c.modifyNewAccount account f).newAccounts.map (·.1) = c.newAccounts.map (·.1) := by
  simp only [AccountCreationView.modifyNewAccount, List.map_map]
  refine List.map_congr_left fun a _ => ?_
  simp only [Function.comp_apply]
  split <;> rfl

/-- A call on an account that the view created leaves the database alone. -/
theorem Buffers.onNewAccount (h : Buffers v db₀ db) (account : AccountID)
    (f : UserAccount → Bool × UserAccount) :
    (v.onNewAccount db account f).2.1 = db ∧
      (v.onNewAccount db account f).2.2.reservations = v.reservations ∧
      Buffers (v.onNewAccount db account f).2.2 db₀ db := by
  have hids := map_fst_modifyNewAccount v.toAccountCreationView account fun u => (f u).2
  refine ⟨rfl, rfl, ?_, h.slotted, ?_⟩
  · refine h.eq.trans ?_
    simp only [BufferedMemoryDatabaseView.onNewAccount, AccountCreationView.conditionalNewAccount,
      hids]
    rfl
  · simp only [BufferedMemoryDatabaseView.onNewAccount, AccountCreationView.conditionalNewAccount,
      hids]
    exact h.disjoint

theorem Buffers.createNewAccount (h : Buffers v db₀ db) (account : AccountID) (pk : PublicKey)
    {status : TransactionProcessingStatus} {db' : MemoryDatabase} {c : AccountCreationView}
    (hcreate : v.createNewAccount db account pk = (status, db', c)) :
    status = (db.reserveAccountCreation account).1 ∧ c.reservations = v.reservations ∧
      Buffers { v with toAccountCreationView := c } db₀ db' := by
  unfold AccountCreationView.createNewAccount MemoryDatabase.reserveAccountCreation at hcreate
  unfold MemoryDatabase.reserveAccountCreation
  by_cases hexists : db.userIdToIdxMap.contains account = true
  · simp only [hexists, if_true] at hcreate ⊢
    cases hcreate
    exact ⟨rfl, rfl, h⟩
  · by_cases hreserved : account ∈ db.reservedAccountIds
    · simp only [hexists, hreserved, if_true] at hcreate ⊢
      cases hcreate
      exact ⟨rfl, rfl, h⟩
    · simp only [hexists, hreserved, if_false] at hcreate ⊢
      cases hcreate
      refine ⟨rfl, rfl, ?_, h.slotted, ?_⟩
      · have heq := h.eq
        rw [heq]
        simp only [List.map_cons, List.toFinset_cons, Finset.union_insert]
        rfl
      · rw [h.eq, Finset.mem_union, not_or] at hreserved
        simp only [List.map_cons, List.toFinset_cons, Finset.disjoint_insert_right]
        exact ⟨hreserved.1, h.disjoint⟩

end BufferedMemoryDatabaseView

end Speedex
