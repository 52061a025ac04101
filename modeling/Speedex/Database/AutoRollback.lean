import Speedex.Database.MemoryDatabase

/-! The guard that undoes a failed validation's changes to the account database
(`speedex/autorollback_validation_structures.cc`). -/

namespace Speedex

open Lib

/-- `DatabaseAutoRollback`.  The log to roll back with is set together with its flag. -/
structure DatabaseAutoRollback where
  db : MemoryDatabase
  currentBlockNumber : UInt64
  doRollbackForValidation : Bool
  doRollbackProduceStateCommitment : Bool
  rollbackLog : ModificationTrie

namespace DatabaseAutoRollback

/-- The constructor. -/
def new (db : MemoryDatabase) (currentBlockNumber : UInt64) : DatabaseAutoRollback :=
  ⟨db, currentBlockNumber, false, false, ∅⟩

/-- Commit new account creation, and record that this should be undone later. -/
def tentativeCommitForValidation (a : DatabaseAutoRollback) : Result DatabaseAutoRollback := do
  let db ← a.db.commitNewAccounts a.currentBlockNumber
  return { a with db := db, doRollbackForValidation := true }

/-- Modify the commitment trie, and record that this should be undone later. -/
def tentativeProduceStateCommitment (a : DatabaseAutoRollback) (dirtyAccounts : ModificationTrie) :
    Result DatabaseAutoRollback := do
  let db ← a.db.tentativeProduceStateCommitment dirtyAccounts
  return { a with
    db := db
    doRollbackProduceStateCommitment := true
    rollbackLog := dirtyAccounts }

/-- Finalize state changes, which makes the destructor a no-op. -/
def finalizeCommit (a : DatabaseAutoRollback) : Result DatabaseAutoRollback :=
  if !a.doRollbackForValidation || !a.doRollbackProduceStateCommitment then
    .error (.runtimeError "committing from invalid state")
  else do
    let db ← a.db.commitValues a.rollbackLog
    return { a with
      db := db
      doRollbackForValidation := false
      doRollbackProduceStateCommitment := false }

/-- The destructor. -/
def destroy (a : DatabaseAutoRollback) : Result MemoryDatabase :=
  let db := if a.doRollbackForValidation then
    (a.db.rollbackNewAccounts a.currentBlockNumber).rollbackValues else a.db
  if a.doRollbackProduceStateCommitment then
    db.setTrieCommitmentToUserAccountCommits a.rollbackLog
  else .ok db

/-- What validation does to the database once the block's accounts are committed: credits to the
owners of cleared offers, and the tentative state commitment. -/
inductive Step where
  | transferAvailable (idx : Nat) (asset : AssetID) (change : Int64)
  | tentativeProduceStateCommitment (log : ModificationTrie)

def step (a : DatabaseAutoRollback) : Step → Result DatabaseAutoRollback
  | .transferAvailable idx asset change =>
    .ok { a with db := a.db.transferAvailable idx asset change }
  | .tentativeProduceStateCommitment log => a.tentativeProduceStateCommitment log

/-- Validation from `commit_new_accounts` to the failure, and the destructor. -/
def failAfter (db : MemoryDatabase) (currentBlockNumber : UInt64) (steps : List Step) :
    Result MemoryDatabase := do
  let a ← (new db currentBlockNumber).tentativeCommitForValidation
  let a ← steps.foldlM step a
  a.destroy

end DatabaseAutoRollback

/-- Two databases hold the same accounts: in the vector, the id map, the trie and the list of
creation thunks. -/
structure SameAccounts (db db' : MemoryDatabase) : Prop where
  database : db'.database.map UserAccount.owner = db.database.map UserAccount.owner
  userIdToIdxMap : db'.userIdToIdxMap = db.userIdToIdxMap
  commitmentTrie : db'.commitmentTrie.keys = db.commitmentTrie.keys
  accountCreationThunks : db'.accountCreationThunks = db.accountCreationThunks

namespace MemoryDatabase

variable {db db' : MemoryDatabase}

theorem commitNewAccount_thunks {account : UserAccount}
    (h : db.commitNewAccount account = .ok db') :
    db'.accountCreationThunks = db.accountCreationThunks := by
  obtain ⟨c, -, h⟩ := bind_eq_ok.mp h
  cases h
  rfl

/-- Every committed block leaves one more thunk. -/
theorem commitNewAccounts_thunks {n : UInt64} (h : db.commitNewAccounts n = .ok db') :
    db'.accountCreationThunks = db.accountCreationThunks ++ [⟨n, db.uncommittedDb.length⟩] := by
  rw [commitNewAccounts] at h
  split at h
  · cases h
  obtain ⟨db₁, hfold, h⟩ := bind_eq_ok.mp h
  have h₁ : db₁.accountCreationThunks = db.accountCreationThunks :=
    foldlM_invariant (P := fun d => d.accountCreationThunks = db.accountCreationThunks)
      (fun _ _ _ _ hd hstep => (commitNewAccount_thunks hstep).trans hd) rfl hfold
  cases h
  rw [← h₁]
  rfl

theorem modifyCommitments_thunks {log : ModificationTrie}
    {commitment : UserAccount → Result AccountCommitment}
    (h : db.modifyCommitments log commitment = .ok db') :
    db'.accountCreationThunks = db.accountCreationThunks := by
  refine foldlM_invariant (P := fun d => d.accountCreationThunks = db.accountCreationThunks)
    (fun d owner d' _ hd hstep => ?_) rfl h
  split at hstep
  · cases hstep
  · obtain ⟨c, -, hstep⟩ := bind_eq_ok.mp hstep
    cases hstep
    exact hd

/-- Rolling back to block `n` keeps the thunks numbered up to `n`, that of block `n` included. -/
theorem rollbackNewAccounts_thunks (db : MemoryDatabase) (n : UInt64) :
    (db.rollbackNewAccounts n).accountCreationThunks =
      db.accountCreationThunks.filter (·.currentBlockNumber ≤ n) := rfl

end MemoryDatabase

namespace DatabaseAutoRollback

variable {a a' : DatabaseAutoRollback}

/-- What a step of validation leaves alone: the creation thunks, and the decision to roll back
the block's accounts. -/
structure Frame (a a' : DatabaseAutoRollback) : Prop where
  thunks : a'.db.accountCreationThunks = a.db.accountCreationThunks
  blockNumber : a'.currentBlockNumber = a.currentBlockNumber
  rollback : a'.doRollbackForValidation = a.doRollbackForValidation

theorem step_frame {s : Step} (h : a.step s = .ok a') : Frame a a' := by
  cases s with
  | transferAvailable idx asset change =>
    cases h
    exact ⟨rfl, rfl, rfl⟩
  | tentativeProduceStateCommitment log =>
    obtain ⟨db, hdb, h⟩ := bind_eq_ok.mp h
    cases h
    exact ⟨MemoryDatabase.modifyCommitments_thunks hdb, rfl, rfl⟩

theorem steps_frame {steps : List Step} (h : steps.foldlM step a = .ok a') : Frame a a' := by
  refine foldlM_invariant (P := Frame a) (fun b s b' _ hb hs => ?_) ⟨rfl, rfl, rfl⟩ h
  have hs := step_frame hs
  exact ⟨hs.thunks.trans hb.thunks, hs.blockNumber.trans hb.blockNumber,
    hs.rollback.trans hb.rollback⟩

theorem destroy_thunks {db : MemoryDatabase} (ha : a.doRollbackForValidation = true)
    (h : a.destroy = .ok db) :
    db.accountCreationThunks =
      a.db.accountCreationThunks.filter (·.currentBlockNumber ≤ a.currentBlockNumber) := by
  rw [destroy, if_pos ha] at h
  split at h
  · exact MemoryDatabase.modifyCommitments_thunks h
  · cases h
    rfl

/-- The thunk list after a failed validation: the thunk of block `n` is still there. -/
theorem failAfter_thunks {db db' : MemoryDatabase} {n : UInt64} {steps : List Step}
    (h : failAfter db n steps = .ok db') :
    db'.accountCreationThunks =
      db.accountCreationThunks.filter (·.currentBlockNumber ≤ n) ++
        [⟨n, db.uncommittedDb.length⟩] := by
  obtain ⟨a, hcommit, hrest⟩ := bind_eq_ok.mp h
  obtain ⟨a', hsteps, hdestroy⟩ := bind_eq_ok.mp hrest
  obtain ⟨db₁, hdb₁, ha⟩ := bind_eq_ok.mp hcommit
  cases ha
  have hframe := steps_frame hsteps
  rw [destroy_thunks hframe.rollback hdestroy, hframe.thunks, hframe.blockNumber,
    MemoryDatabase.commitNewAccounts_thunks hdb₁, List.filter_append]
  congr 1
  exact List.filter_eq_self.mpr fun thunk ht => by simp_all [new]

/-- A validation that fails after `commit_new_accounts` never restores the accounts: the rollback
undoes only the thunks of later blocks. -/
theorem not_sameAccounts_of_failAfter (db db' : MemoryDatabase) (n : UInt64) (steps : List Step)
    (h : failAfter db n steps = .ok db') : ¬ SameAccounts db db' := by
  intro hsame
  have heq := (failAfter_thunks h).symm.trans hsame.accountCreationThunks
  -- every thunk of the old list survives the filter, so the new list is longer
  have hall : ∀ thunk ∈ db.accountCreationThunks, thunk.currentBlockNumber ≤ n := by
    intro thunk hmem
    rw [← heq, List.mem_append, List.mem_singleton] at hmem
    rcases hmem with hmem | rfl
    · simpa using (List.mem_filter.mp hmem).2
    · exact UInt64.le_refl _
  rw [List.filter_eq_self.mpr (by simpa using hall)] at heq
  have hlen := congrArg List.length heq
  simp at hlen

/-- A database with no account, and one account to be created in block 1. -/
def freshAccountDb : MemoryDatabase where
  database := []
  userIdToIdxMap := ∅
  uncommittedDb := [.new 7 0]
  reservedAccountIds := {7}
  commitmentTrie := ∅
  accountCreationThunks := []
  minPersistedRoundNumber := 0

/-- The account that the failed block 1 created is still there, in all four structures. -/
theorem failAfter_freshAccountDb :
    ∃ db', failAfter freshAccountDb 1 [] = .ok db' ∧ ¬ SameAccounts freshAccountDb db' ∧
      db'.database.map UserAccount.owner = [7] ∧ db'.userIdToIdxMap.keys = [7] ∧
      db'.commitmentTrie.keys = [7] ∧ db'.accountCreationThunks = [⟨1, 1⟩] := by
  obtain ⟨db', hok, hdb'⟩ := returns_iff.mp (show returns (failAfter freshAccountDb 1 [])
    (fun db' => db'.database.map UserAccount.owner = [7] ∧ db'.userIdToIdxMap.keys = [7] ∧
      db'.commitmentTrie.keys = [7] ∧ db'.accountCreationThunks = [⟨1, 1⟩]) = true by decide)
  have hdb' := of_decide_eq_true hdb'
  refine ⟨db', hok, fun h => ?_, hdb'⟩
  exact absurd (hdb'.1.symm.trans h.database) (by decide)

theorem not_sameAccounts_freshAccountDb :
    ∃ db', failAfter freshAccountDb 1 [.transferAvailable 0 0 5] = .ok db' ∧
      ¬ SameAccounts freshAccountDb db' := by
  obtain ⟨db', hok, -⟩ := returns_iff.mp
    (show returns (failAfter freshAccountDb 1 [.transferAvailable 0 0 5]) (fun _ => true) = true
      by decide)
  exact ⟨db', hok, not_sameAccounts_of_failAfter _ _ _ _ hok⟩

end DatabaseAutoRollback

end Speedex
