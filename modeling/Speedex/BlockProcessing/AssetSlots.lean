import Speedex.BlockProcessing.Effects
import Speedex.Database.AccountRuns
import Speedex.Database.StoreRuns

/-! How many asset slots an account gets, over runs of transactions, commits and rollbacks.  The
commitments of an account are hashed by loops with 8-bit counters, so they return as long as no
account has 256 slots. -/

namespace Speedex

open Lib

/-! ### The slots of accounts and views -/

namespace UserAccount

theorem slots_commit (u : UserAccount) : u.commit.slots = u.slots := by
  simp [commit, slots]

theorem slots_rollback_le (u : UserAccount) : u.rollback.slots ≤ u.slots := by
  simp [rollback, slots]

theorem slots_operate_le {u : UserAccount} {n : Nat} (h : u.slots ≤ n) (asset : AssetID)
    (hasset : asset.toNat < n) {ρ : Type} (func : RevertableAsset → ρ × RevertableAsset) :
    (u.operateOnAsset asset func).2.slots ≤ n := by
  rw [slots_operateOnAsset]
  omega

end UserAccount

namespace MemoryDatabase

variable {db db' : MemoryDatabase} {n : Nat}

/-- Every account has at most `n` asset slots. -/
structure SlotsWithin (db : MemoryDatabase) (n : Nat) : Prop where
  accounts : ∀ u ∈ db.database, u.slots ≤ n
  created : ∀ u ∈ db.uncommittedDb, u.slots ≤ n

theorem SlotsWithin.modifyAccount (h : db.SlotsWithin n) {f : UserAccount → UserAccount}
    (hf : ∀ u : UserAccount, u.slots ≤ n → (f u).slots ≤ n) (idx : Nat) :
    (db.modifyAccount idx f).SlotsWithin n := by
  refine ⟨fun u hu => ?_, h.created⟩
  obtain ⟨i, hi⟩ := List.mem_iff_getElem?.mp hu
  rw [MemoryDatabase.modifyAccount, List.getElem?_modify] at hi
  obtain ⟨v, hv, rfl⟩ := Option.map_eq_some_iff.mp hi
  have hslots := h.accounts v (List.mem_of_getElem? hv)
  split
  · exact hf v hslots
  · exact hslots

/-- What transactions do to a database, in assets below `n`. -/
theorem SlotsWithin.transferAvailable (h : db.SlotsWithin n) {asset : AssetID}
    (hasset : asset.toNat < n) (idx : Nat) (amount : Int64) :
    (db.transferAvailable idx asset amount).SlotsWithin n :=
  h.modifyAccount (fun _ hu => UserAccount.slots_operate_le hu asset hasset _) idx

theorem SlotsWithin.escrow (h : db.SlotsWithin n) {asset : AssetID} (hasset : asset.toNat < n)
    (idx : Nat) (amount : Int64) : (db.escrow idx asset amount).SlotsWithin n :=
  h.modifyAccount (fun _ hu => UserAccount.slots_operate_le hu asset hasset _) idx

theorem SlotsWithin.conditionalTransferAvailable (h : db.SlotsWithin n) {asset : AssetID}
    (hasset : asset.toNat < n) (idx : Nat) (amount : Int64) :
    (db.conditionalTransferAvailable idx asset amount).2.SlotsWithin n :=
  h.modifyAccount (fun _ hu => UserAccount.slots_operate_le hu asset hasset _) idx

theorem SlotsWithin.conditionalEscrow (h : db.SlotsWithin n) {asset : AssetID}
    (hasset : asset.toNat < n) (idx : Nat) (amount : Int64) :
    (db.conditionalEscrow idx asset amount).2.SlotsWithin n :=
  h.modifyAccount (fun _ hu => UserAccount.slots_operate_le hu asset hasset _) idx

theorem SlotsWithin.reserveSequenceNumber (h : db.SlotsWithin n) {idx : Nat} {seqno : UInt64}
    {status : TransactionProcessingStatus}
    (hreserve : db.reserveSequenceNumber idx seqno = .ok (status, db')) : db'.SlotsWithin n := by
  unfold MemoryDatabase.reserveSequenceNumber at hreserve
  split at hreserve
  · cases hreserve
  · cases hreserve
    refine h.modifyAccount ?_ idx
    exact fun _ hu => hu

theorem SlotsWithin.releaseSequenceNumber (h : db.SlotsWithin n) {idx : Nat} {seqno : UInt64}
    (hrelease : db.releaseSequenceNumber idx seqno = .ok db') : db'.SlotsWithin n := by
  unfold MemoryDatabase.releaseSequenceNumber at hrelease
  split at hrelease
  · cases hrelease
  · rename_i u hu
    obtain ⟨u', hu', hrelease⟩ := bind_eq_ok.mp hrelease
    cases hrelease
    obtain ⟨t, -, hu'⟩ := bind_eq_ok.mp hu'
    cases hu'
    refine h.modifyAccount ?_ idx
    exact fun _ _ => h.accounts u (List.mem_of_getElem? hu)

theorem SlotsWithin.reserveAccountCreation (h : db.SlotsWithin n) (account : AccountID) :
    (db.reserveAccountCreation account).2.SlotsWithin n := by
  unfold MemoryDatabase.reserveAccountCreation
  split_ifs <;> exact ⟨h.accounts, h.created⟩

/-! Commits and rollbacks. -/

theorem SlotsWithin.commitValues (h : db.SlotsWithin n) {log : ModificationTrie}
    (hcommit : db.commitValues log = .ok db') : db'.SlotsWithin n := by
  refine foldlM_invariant (P := fun db => db.SlotsWithin n) (fun d owner d' _ hd hstep => ?_) h hcommit
  split at hstep
  · cases hstep
    exact hd.modifyAccount (fun u hu => u.slots_commit.trans_le hu) _
  · cases hstep

theorem SlotsWithin.rollbackValues (h : db.SlotsWithin n) : db.rollbackValues.SlotsWithin n := by
  refine ⟨fun u hu => ?_, h.created⟩
  obtain ⟨v, hv, rfl⟩ := List.mem_map.mp hu
  exact v.slots_rollback_le.trans (h.accounts v hv)

theorem SlotsWithin.commitNewAccount (h : db.SlotsWithin n) {u : UserAccount} (hu : u.slots ≤ n)
    (hcommit : db.commitNewAccount u = .ok db') : db'.SlotsWithin n := by
  obtain ⟨c, -, hcommit⟩ := bind_eq_ok.mp hcommit
  cases hcommit
  refine ⟨fun v hv => ?_, h.created⟩
  rcases List.mem_append.mp hv with hv | hv
  · exact h.accounts v hv
  · cases List.mem_singleton.mp hv
    exact u.slots_commit.trans_le hu

theorem SlotsWithin.commitNewAccounts (h : db.SlotsWithin n) {number : UInt64}
    (hcommit : db.commitNewAccounts number = .ok db') : db'.SlotsWithin n := by
  unfold MemoryDatabase.commitNewAccounts at hcommit
  split at hcommit
  · cases hcommit
  obtain ⟨db₁, hfold, hcommit⟩ := bind_eq_ok.mp hcommit
  cases hcommit
  have hdb₁ : db₁.SlotsWithin n := foldlM_invariant (P := fun db => db.SlotsWithin n)
    (fun d u d' hu hd hstep => hd.commitNewAccount (h.created u hu) hstep) h hfold
  exact ⟨hdb₁.accounts, fun u hu => absurd hu List.not_mem_nil⟩

theorem SlotsWithin.rollbackNewAccounts (h : db.SlotsWithin n) (number : UInt64) :
    (db.rollbackNewAccounts number).SlotsWithin n := by
  have hdropped : ∀ (thunks : List AccountCreationThunk) (d : MemoryDatabase),
      (∀ u ∈ d.database, u.slots ≤ n) →
      ∀ u ∈ (thunks.foldl (fun db thunk => db.dropAccounts thunk.numAccountsCreated) d).database,
        u.slots ≤ n := by
    intro thunks
    induction thunks with
    | nil => exact fun d hd => hd
    | cons thunk thunks ih => exact fun d hd => ih _ fun u hu => hd u (List.mem_of_mem_take hu)
  exact ⟨hdropped _ db h.accounts, fun u hu => absurd hu List.not_mem_nil⟩

end MemoryDatabase

/-! ### The views -/

/-- The accounts that a view created have at most `n` slots. -/
def AccountCreationView.SlotsWithin (v : AccountCreationView) (n : Nat) : Prop :=
  ∀ a ∈ v.newAccounts, a.2.slots ≤ n

/-- The credits and debits of a view are in assets below `n`. -/
structure UserAccountView.AssetsBelow (v : UserAccountView) (n : Nat) : Prop where
  buffer : ∀ a ∈ v.availableBuffer.entries, a.1.toNat < n
  sideEffects : ∀ a ∈ v.availableSideEffects.entries, a.1.toNat < n

structure BufferedMemoryDatabaseView.SlotsWithin (v : BufferedMemoryDatabaseView) (n : Nat) : Prop where
  creation : v.toAccountCreationView.SlotsWithin n
  accounts : ∀ a ∈ v.accounts.entries, a.2.AssetsBelow n

section Views

variable {n : Nat} {db db' : MemoryDatabase}

theorem AccountCreationView.SlotsWithin.modifyNewAccount {v : AccountCreationView}
    (h : v.SlotsWithin n) (account : AccountID) {f : UserAccount → UserAccount}
    (hf : ∀ u : UserAccount, u.slots ≤ n → (f u).slots ≤ n) :
    (v.modifyNewAccount account f).SlotsWithin n := by
  intro a ha
  obtain ⟨b, hb, rfl⟩ := List.mem_map.mp ha
  split
  · exact hf b.2 (h b hb)
  · exact h b hb

theorem AccountCreationView.SlotsWithin.createNewAccount {v : AccountCreationView}
    (h : v.SlotsWithin n) (db : MemoryDatabase) (account : AccountID) (pk : PublicKey) :
    (v.createNewAccount db account pk).2.2.SlotsWithin n := by
  simp only [AccountCreationView.createNewAccount]
  split
  · exact h
  · intro a ha
    rcases List.mem_cons.mp ha with rfl | ha
    · exact Nat.zero_le n
    · exact h a ha

theorem AccountCreationView.createNewAccount_slots (v : AccountCreationView) (h : db.SlotsWithin n)
    (account : AccountID) (pk : PublicKey) : (v.createNewAccount db account pk).2.1.SlotsWithin n := by
  simp only [AccountCreationView.createNewAccount]
  split <;> exact h.reserveAccountCreation account

theorem AccountCreationView.SlotsWithin.commit {v : AccountCreationView} (h : v.SlotsWithin n)
    (hdb : db.SlotsWithin n) : (v.commit db).SlotsWithin n := by
  unfold AccountCreationView.commit
  unfold AccountCreationView.SlotsWithin at h
  generalize v.newAccounts = l at h
  induction l generalizing db with
  | nil => exact hdb
  | cons a l ih =>
    refine ih ⟨hdb.accounts, fun u hu => ?_⟩ fun b hb => h b (List.mem_cons_of_mem a hb)
    rcases List.mem_append.mp hu with hu | hu
    · exact hdb.created u hu
    · cases List.mem_singleton.mp hu
      exact h a List.mem_cons_self

theorem AccountCreationView.unwind_slots {v : AccountCreationView} (hdb : db.SlotsWithin n)
    (h : v.unwind db = .ok db') : db'.SlotsWithin n := by
  have hreleased : (v.newAccounts.foldl (fun db a => db.releaseAccountCreation a.1) db).SlotsWithin n := by
    clear h
    induction v.newAccounts generalizing db with
    | nil => exact hdb
    | cons a l ih => exact ih ⟨hdb.accounts, hdb.created⟩
  exact foldlM_invariant (P := fun db => db.SlotsWithin n)
    (fun _ _ _ _ hd hstep => hd.releaseSequenceNumber hstep) hreleased h

/-! A view of one account. -/

theorem UserAccountView.AssetsBelow.setBuffer {v : UserAccountView} (h : v.AssetsBelow n)
    {asset : AssetID} (hasset : asset.toNat < n) (amount : Int64) :
    (v.setBuffer asset amount).AssetsBelow n := by
  refine ⟨fun a ha => ?_, h.sideEffects⟩
  rcases SortedMap.mem_insert_entries ha with rfl | ha
  · exact hasset
  · exact h.buffer a ha

theorem UserAccountView.AssetsBelow.addSideEffect {v : UserAccountView} (h : v.AssetsBelow n)
    {asset : AssetID} (hasset : asset.toNat < n) (amount : Int64) :
    (v.addSideEffect asset amount).AssetsBelow n := by
  refine ⟨h.buffer, fun a ha => ?_⟩
  rcases SortedMap.mem_insert_entries ha with rfl | ha
  · exact hasset
  · exact h.sideEffects a ha

theorem UserAccountView.AssetsBelow.settle {v : UserAccountView} (h : v.AssetsBelow n)
    (hdb : db.SlotsWithin n) {asset : AssetID} (hasset : asset.toNat < n) (newBuffer : Int64)
    {take : Bool × MemoryDatabase} (htake : take.2.SlotsWithin n) :
    (v.settle db asset newBuffer take).2.1.SlotsWithin n ∧
      (v.settle db asset newBuffer take).2.2.AssetsBelow n := by
  unfold UserAccountView.settle
  split_ifs
  · exact ⟨htake, (h.addSideEffect hasset _).setBuffer hasset _⟩
  · exact ⟨htake, h.setBuffer hasset _⟩
  · exact ⟨hdb, h.setBuffer hasset _⟩

theorem MemoryDatabase.SlotsWithin.foldl_transferAvailable {l : List (AssetID × Int64)}
    (hl : ∀ a ∈ l, a.1.toNat < n) (hdb : db.SlotsWithin n) (idx : Nat) (f : Int64 → Int64) :
    (l.foldl (fun db a => db.transferAvailable idx a.1 (f a.2)) db).SlotsWithin n := by
  induction l generalizing db with
  | nil => exact hdb
  | cons a l ih =>
    exact ih (fun b hb => hl b (List.mem_cons_of_mem a hb))
      (hdb.transferAvailable (hl a List.mem_cons_self) idx (f a.2))

/-! The two views. -/

theorem BufferedMemoryDatabaseView.SlotsWithin.getExistingAccount {v : BufferedMemoryDatabaseView}
    (h : v.SlotsWithin n) (idx : Nat) : (v.getExistingAccount idx).AssetsBelow n := by
  unfold BufferedMemoryDatabaseView.getExistingAccount
  cases hfind : v.accounts.find? idx with
  | none => exact ⟨fun a ha => absurd ha List.not_mem_nil, fun a ha => absurd ha List.not_mem_nil⟩
  | some w => exact h.accounts (idx, w) (SortedMap.mem_entries.mpr hfind)

theorem BufferedMemoryDatabaseView.SlotsWithin.onAccount {v : BufferedMemoryDatabaseView}
    (h : v.SlotsWithin n) {idx : Nat}
    {op : UserAccountView → TransactionProcessingStatus × MemoryDatabase × UserAccountView}
    (hop : (op (v.getExistingAccount idx)).2.1.SlotsWithin n ∧
      (op (v.getExistingAccount idx)).2.2.AssetsBelow n) :
    (v.onAccount idx op).2.1.SlotsWithin n ∧ (v.onAccount idx op).2.2.SlotsWithin n := by
  refine ⟨hop.1, h.creation, fun a ha => ?_⟩
  rcases SortedMap.mem_insert_entries ha with rfl | ha
  · exact hop.2
  · exact h.accounts a ha

/-- Block production keeps accounts within `n` slots while its assets are below `n`. -/
theorem keptByTransactions_buffered (hn : 0 < n) :
    KeptByTransactions (fun asset => asset.toNat < n)
      (fun db (v : BufferedMemoryDatabaseView) => db.SlotsWithin n ∧ v.SlotsWithin n)
      (fun db => db.SlotsWithin n) .empty where
  native := hn
  transferAvailable v db account asset amount hasset h := by
    cases account with
    | fresh id =>
      refine ⟨h.1, h.2.creation.modifyNewAccount id ?_, h.2.accounts⟩
      exact fun u hu => UserAccount.slots_operate_le hu asset hasset _
    | main idx =>
      refine h.2.onAccount ((h.2.getExistingAccount idx).settle h.1 hasset _ ?_)
      exact h.1.conditionalTransferAvailable hasset idx _
  escrow v db account asset amount hasset h := by
    cases account with
    | fresh id =>
      refine ⟨h.1, h.2.creation.modifyNewAccount id ?_, h.2.accounts⟩
      exact fun u hu => UserAccount.slots_operate_le hu asset hasset _
    | main idx =>
      refine h.2.onAccount ?_
      unfold UserAccountView.conditionalEscrow
      split
      · exact ⟨h.1, (h.2.getExistingAccount idx).setBuffer hasset _⟩
      · exact (h.2.getExistingAccount idx).settle h.1 hasset _ (h.1.conditionalEscrow hasset idx _)
  createNewAccount v db account pk h :=
    ⟨AccountCreationView.createNewAccount_slots _ h.1 account pk,
      h.2.creation.createNewAccount db account pk, h.2.accounts⟩
  start h := ⟨h, fun a ha => absurd ha List.not_mem_nil, fun a ha => absurd ha List.not_mem_nil⟩
  reserve hreserve h := by
    obtain ⟨⟨status, db₁⟩, hdb₁, hreserve⟩ := bind_eq_ok.mp hreserve
    dsimp only at hreserve
    split at hreserve <;> cases hreserve <;>
      exact ⟨h.1.reserveSequenceNumber hdb₁, h.2.creation, h.2.accounts⟩

theorem BufferedMemoryDatabaseView.SlotsWithin.commit {v : BufferedMemoryDatabaseView}
    (h : v.SlotsWithin n) (hdb : db.SlotsWithin n) : (v.commit db).SlotsWithin n := by
  unfold BufferedMemoryDatabaseView.commit
  refine h.creation.commit ?_
  have haccounts := h.accounts
  generalize v.accounts.entries = l at haccounts
  induction l generalizing db with
  | nil => exact hdb
  | cons a l ih =>
    refine ih ?_ fun b hb => haccounts b (List.mem_cons_of_mem a hb)
    exact hdb.foldl_transferAvailable (haccounts a List.mem_cons_self).buffer a.1 id

theorem BufferedMemoryDatabaseView.SlotsWithin.unwind {v : BufferedMemoryDatabaseView}
    (h : v.SlotsWithin n) (hdb : db.SlotsWithin n) (hunwind : v.unwind db = .ok db') :
    db'.SlotsWithin n := by
  refine AccountCreationView.unwind_slots ?_ hunwind
  clear hunwind
  have haccounts := h.accounts
  generalize v.accounts.entries = l at haccounts
  induction l generalizing db with
  | nil => exact hdb
  | cons a l ih =>
    refine ih ?_ fun b hb => haccounts b (List.mem_cons_of_mem a hb)
    exact hdb.foldl_transferAvailable (haccounts a List.mem_cons_self).sideEffects a.1 Neg.neg

/-- So does block validation. -/
theorem keptByTransactions_unbuffered (hn : 0 < n) :
    KeptByTransactions (fun asset => asset.toNat < n)
      (fun db (v : UnbufferedMemoryDatabaseView) =>
        db.SlotsWithin n ∧ v.toAccountCreationView.SlotsWithin n)
      (fun db => db.SlotsWithin n) .empty where
  native := hn
  transferAvailable v db account asset amount hasset h := by
    cases account with
    | fresh id =>
      refine ⟨h.1, h.2.modifyNewAccount id ?_⟩
      exact fun u hu => UserAccount.slots_operate_le hu asset hasset _
    | main idx => exact ⟨h.1.transferAvailable hasset idx amount, h.2⟩
  escrow v db account asset amount hasset h := by
    cases account with
    | fresh id =>
      refine ⟨h.1, h.2.modifyNewAccount id ?_⟩
      exact fun u hu => UserAccount.slots_operate_le hu asset hasset _
    | main idx => exact ⟨h.1.escrow hasset idx amount, h.2⟩
  createNewAccount v db account pk h :=
    ⟨AccountCreationView.createNewAccount_slots _ h.1 account pk,
      h.2.createNewAccount db account pk⟩
  start h := ⟨h, fun a ha => absurd ha List.not_mem_nil⟩
  reserve hreserve h := by
    obtain ⟨⟨status, db₁⟩, hdb₁, hreserve⟩ := bind_eq_ok.mp hreserve
    dsimp only at hreserve
    split at hreserve <;> cases hreserve <;> exact ⟨h.1.reserveSequenceNumber hdb₁, h.2⟩

end Views

/-! ### Runs -/

/-- A call that changes the accounts, with the state of the orderbooks that it meets. -/
inductive DatabaseCall where
  | processTransaction (config : SignatureConfig) (books : OrderbookManager)
    (manager : ProcessingSerialManager) (log : ModificationTrie) (tx : SignedTransaction)
  | validateTransaction (config : SignatureConfig) (books : OrderbookManager)
    (manager : ValidatingSerialManager) (log : ModificationTrie) (tx : SignedTransaction)
  | commitNewAccounts (currentBlockNumber : UInt64)
  | rollbackNewAccounts (currentBlockNumber : UInt64)
  | commitValues (log : ModificationTrie)
  | rollbackValues

namespace DatabaseCall

def exec (db : MemoryDatabase) : DatabaseCall → Result MemoryDatabase
  | .processTransaction config books manager log tx => do
    let (_, s) ← ProcessorState.processTransaction config ⟨db, books, manager, log⟩ tx
    return s.db
  | .validateTransaction config books manager log tx => do
    let (_, s) ← ValidatorState.validateTransaction config ⟨db, books, manager, log⟩ tx
    return s.db
  | .commitNewAccounts currentBlockNumber => db.commitNewAccounts currentBlockNumber
  | .rollbackNewAccounts currentBlockNumber => .ok (db.rollbackNewAccounts currentBlockNumber)
  | .commitValues log => db.commitValues log
  | .rollbackValues => .ok db.rollbackValues

/-- Transactions name assets below 255 only, where the code does not check them, and the
orderbooks have no others. -/
def NamesAssetsBelow255 : DatabaseCall → Prop
  | .processTransaction _ books _ _ tx | .validateTransaction _ books _ _ tx =>
    books.numAssets ≤ 255 ∧ ∀ op ∈ tx.transaction.operations, op.AssetIn fun asset => asset.toNat < 255
  | .commitNewAccounts _ | .rollbackNewAccounts _ | .commitValues _ | .rollbackValues => True

theorem exec_slots {db db' : MemoryDatabase} {call : DatabaseCall} (hcall : call.NamesAssetsBelow255)
    (h : call.exec db = .ok db') (hdb : db.SlotsWithin 255) : db'.SlotsWithin 255 := by
  cases call with
  | processTransaction config books manager log tx =>
    obtain ⟨⟨status, s⟩, hs, h⟩ := bind_eq_ok.mp h
    cases h
    exact ProcessorState.processTransaction_keeps (keptByTransactions_buffered (by omega))
      (fun v db hv => hv.2.commit hv.1) (fun v db db' hv hunwind => hv.2.unwind hv.1 hunwind)
      (fun asset hasset => hasset.trans_le hcall.1) hcall.2 hs hdb
  | validateTransaction config books manager log tx =>
    obtain ⟨⟨valid, s⟩, hs, h⟩ := bind_eq_ok.mp h
    cases h
    exact ValidatorState.validateTransaction_keeps (keptByTransactions_unbuffered (by omega))
      (fun v db hv => hv.2.commit hv.1) (fun v db hv => hv.1)
      (fun asset hasset => hasset.trans_le hcall.1) hcall.2 hs hdb
  | commitNewAccounts currentBlockNumber => exact hdb.commitNewAccounts h
  | rollbackNewAccounts currentBlockNumber =>
    cases h
    exact hdb.rollbackNewAccounts currentBlockNumber
  | commitValues log => exact hdb.commitValues h
  | rollbackValues =>
    cases h
    exact hdb.rollbackValues

end DatabaseCall

/-- Genesis hashes every account, so that it does not return if there are 256 assets. -/
theorem MemoryDatabase.installInitialAccountsAndCommit_slots {numAssets : Nat} {defaultAmount : Int64}
    {accounts : List (AccountID × PublicKey)} {db : MemoryDatabase}
    (h : installInitialAccountsAndCommit numAssets defaultAmount accounts = .ok db) :
    db.SlotsWithin 255 := by
  refine foldlM_invariant (P := fun db => db.SlotsWithin 255) (fun d u d' _ hd hstep => ?_)
    ⟨fun u hu => absurd hu List.not_mem_nil, fun u hu => absurd hu List.not_mem_nil⟩ h
  refine hd.commitNewAccount ?_ hstep
  obtain ⟨c, hc, -⟩ := bind_eq_ok.mp hstep
  unfold UserAccount.produceCommitment at hc
  split at hc
  · cases hc
  · rename_i hlen
    have hslots := u.slots_commit
    have hnil : u.commit.uncommittedAssets = [] := rfl
    rw [UserAccount.slots, hnil] at hslots
    simp only [List.length_nil] at hslots
    omega

/-- Both commitments of an account return, list asset `i` at position `i` within the bound of the
format, and `UserAccount(produce_commitment())` has the committed state of the account. -/
structure UserAccount.Hashes (u : UserAccount) : Prop where
  committed : ∃ c, u.produceCommitment = .ok c ∧ c.assets.length ≤ 256 ∧
    c.assets = u.ownedAssets.mapIdx (fun i a => ⟨.ofNat i, a.committedAvailable.toUInt64⟩) ∧
    (∀ i (hi : i < c.assets.length), c.assets[i].asset.toNat = i) ∧
    ∃ v, ofCommitment c = .ok v ∧ v.committedPart = u.committedPart ∧
      v.slots = u.ownedAssets.length
  tentative : ∃ c, u.tentativeCommitment = .ok c ∧ c.assets.length ≤ 256 ∧
    c.assets = (u.ownedAssets ++ u.uncommittedAssets).mapIdx
      (fun i a => ⟨.ofNat i, a.available.toUInt64⟩) ∧
    ∀ i (hi : i < c.assets.length), c.assets[i].asset.toNat = i

theorem UserAccount.hashes {u : UserAccount} (h : u.slots ≤ 255) : u.Hashes := by
  have hlen : u.ownedAssets.length + u.uncommittedAssets.length ≤ 255 := h
  have hnat : ∀ i, i < 256 → (UInt32.ofNat i).toNat = i := by
    intro i hi
    rw [UInt32.toNat_ofNat']
    exact Nat.mod_eq_of_lt (by omega)
  constructor
  · refine ⟨_, produceCommitment_eq h, ?_, rfl, fun i hi => ?_, _,
      ofCommitment_eq (produceCommitment_eq h), ?_, ?_⟩
    · rw [List.length_mapIdx]
      omega
    · rw [List.length_mapIdx] at hi
      rw [List.getElem_mapIdx]
      exact hnat i (by omega)
    · simp [committedPart, RevertableAsset.ofAmount, Function.comp_def]
      rfl
    · simp [slots]
  · refine ⟨_, tentativeCommitment_eq h, ?_, rfl, fun i hi => ?_⟩
    · rw [List.length_mapIdx, List.length_append]
      omega
    · rw [List.length_mapIdx, List.length_append] at hi
      rw [List.getElem_mapIdx]
      exact hnat i (by omega)

/-- Every account is hashed, in every database that a run reaches whose transactions name assets
below 255 only. -/
theorem accounts_hash_of_run (numAssets : Nat) (defaultAmount : Int64)
    (accounts : List (AccountID × PublicKey)) (db₀ db : MemoryDatabase) (calls : List DatabaseCall)
    (hgenesis : MemoryDatabase.installInitialAccountsAndCommit numAssets defaultAmount accounts =
      .ok db₀)
    (hcalls : ∀ call ∈ calls, call.NamesAssetsBelow255)
    (hrun : calls.foldlM DatabaseCall.exec db₀ = .ok db) :
    (∀ u ∈ db.database, u.Hashes) ∧ ∀ u ∈ db.uncommittedDb, u.Hashes := by
  have hslots : db.SlotsWithin 255 := foldlM_invariant (P := fun db => db.SlotsWithin 255)
    (fun d call d' hcall hd hstep => DatabaseCall.exec_slots (hcalls call hcall) hstep hd)
    (MemoryDatabase.installInitialAccountsAndCommit_slots hgenesis) hrun
  exact ⟨fun u hu => UserAccount.hashes (hslots.accounts u hu),
    fun u hu => UserAccount.hashes (hslots.created u hu)⟩

/-- A transaction of account 7 that prints 5 units of an asset. -/
def printing (asset : AssetID) : DatabaseCall :=
  .processTransaction ⟨false, fun _ _ _ => true⟩ (.new 1) ⟨[]⟩ ∅
    ⟨⟨⟨7, 256⟩, [.MONEY_PRINTER ⟨asset, 5⟩], Nat.le_of_ble_eq_true rfl, 15⟩, 0⟩

/-- Genesis with account 7, the transaction, and the commit of its block. -/
def printed (asset : AssetID) : Result (MemoryDatabase × MemoryDatabase × MemoryDatabase) := do
  let db₀ ← MemoryDatabase.installInitialAccountsAndCommit 1 100 [(7, 0)]
  let db₁ ← [printing asset].foldlM DatabaseCall.exec db₀
  let db₂ ← [.commitValues ((∅ : ModificationTrie).insert 7 default)].foldlM DatabaseCall.exec db₁
  return (db₀, db₁, db₂)

theorem accounts_hash_printed :
    ∃ db₀ db₁ db₂, printed 254 = .ok (db₀, db₁, db₂) ∧
      db₂.database.map (fun u => u.ownedAssets.length) = [255] ∧ ∀ u ∈ db₂.database, u.Hashes := by
  obtain ⟨⟨db₀, db₁, db₂⟩, h, hvalues⟩ := returns_iff.mp (show returns (printed 254) (fun r =>
    r.2.2.database.map (fun u => u.ownedAssets.length) = [255]) = true by decide +kernel)
  refine ⟨db₀, db₁, db₂, h, of_decide_eq_true hvalues, ?_⟩
  obtain ⟨db₀', hgenesis, h⟩ := bind_eq_ok.mp h
  obtain ⟨db₁', hprocess, h⟩ := bind_eq_ok.mp h
  obtain ⟨db₂', hcommit, h⟩ := bind_eq_ok.mp h
  cases h
  refine (accounts_hash_of_run 1 100 [(7, 0)] db₀ db₂
    ([printing 254] ++ [.commitValues ((∅ : ModificationTrie).insert 7 default)]) hgenesis ?_ ?_).1
  · intro call hcall
    rcases List.mem_append.mp hcall with hcall | hcall
    · cases List.mem_singleton.mp hcall
      refine ⟨by decide, fun op hop => ?_⟩
      cases List.mem_singleton.mp hop
      show (254 : UInt32).toNat < 255
      decide
    · cases List.mem_singleton.mp hcall
      trivial
  · rw [List.foldlM_append]
    exact bind_eq_ok.mpr ⟨db₁, hprocess, hcommit⟩

/-- One unit of asset 300 is enough for the account not to be hashed any more, before and after
the commit. -/
theorem accounts_unhashed_printed :
    ∃ db₀ db₁ db₂ u₁ u₂, printed 300 = .ok (db₀, db₁, db₂) ∧
      db₁.database = [u₁] ∧ u₁.tentativeCommitment = .error .nontermination ∧
      db₂.database = [u₂] ∧ u₂.produceCommitment = .error .nontermination ∧
      u₂.tentativeCommitment = .error .nontermination ∧ ¬ u₁.Hashes ∧ ¬ u₂.Hashes := by
  obtain ⟨⟨db₀, db₁, db₂⟩, h, hvalues⟩ := returns_iff.mp (show returns (printed 300) (fun r =>
    (r.2.1.database.map fun u => (u.ownedAssets.length, u.uncommittedAssets.length)) = [(1, 300)] ∧
      (r.2.2.database.map fun u => (u.ownedAssets.length, u.uncommittedAssets.length)) = [(301, 0)])
    = true by decide +kernel)
  obtain ⟨hvalues₁, hvalues₂⟩ := of_decide_eq_true hvalues
  obtain ⟨u₁, hu₁, hlen₁⟩ := List.map_eq_singleton_iff.mp hvalues₁
  obtain ⟨u₂, hu₂, hlen₂⟩ := List.map_eq_singleton_iff.mp hvalues₂
  obtain ⟨-, hlen₁⟩ := Prod.mk.inj hlen₁
  obtain ⟨hlen₂, -⟩ := Prod.mk.inj hlen₂
  have hloops₁ : u₁.tentativeCommitment = .error .nontermination :=
    if_pos (.inr (by omega))
  have hloops₂ : u₂.produceCommitment = .error .nontermination := if_pos (by omega)
  refine ⟨db₀, db₁, db₂, u₁, u₂, h, hu₁, hloops₁, hu₂, hloops₂, if_pos (.inl (by omega)), ?_, ?_⟩
  · rintro ⟨-, c, hc, -⟩
    exact absurd (hloops₁.symm.trans hc) (by simp)
  · rintro ⟨⟨c, hc, -⟩, -⟩
    exact absurd (hloops₂.symm.trans hc) (by simp)

end Speedex
