import Speedex.Database.AutoRollback

/-! The persistence of accounts (`memory_database/thunk.cc`, `memory_database/account_lmdb.cc`, and
the end of `memory_database/memory_database.cc`): blocks leave thunks, which are written to the
account LMDB later, and a rewind loads accounts back from there. -/

namespace Speedex

open Lib

/-- `UserAccount(commitment)`: assets that the commitment leaves out are zero. -/
def UserAccount.ofCommitment (commitment : AccountCommitment) : Result UserAccount := do
  let ownedAssets ← commitment.assets.foldlM (fun owned a =>
    if a.asset.toNat < owned.length then
      .error (.runtimeError "assets in commitment should be sorted")
    else .ok (owned ++ List.replicate (a.asset.toNat - owned.length) (.ofAmount 0) ++
      [RevertableAsset.ofAmount a.amountAvailable.toInt64])) []
  return ⟨ownedAssets, [], .ofId commitment.lastCommittedId, commitment.owner, commitment.pk⟩

structure DBPersistenceThunk where
  kvs : List (AccountID × AccountCommitment)
  currentBlockNumber : UInt64
deriving DecidableEq

/-- The database with its thunks, and what is on disk.  The shards of the LMDB hold different
accounts, and are written together. -/
structure AccountStore where
  db : MemoryDatabase
  persistenceThunks : List DBPersistenceThunk
  accountLmdb : SortedMap AccountID AccountCommitment
  maxPersistedRoundNumber : UInt64
deriving DecidableEq

namespace AccountStore

/-- `KVAssignment`: the entry of a thunk for one account. -/
def kvAssignment (db : MemoryDatabase) (account : AccountID) :
    Result (AccountID × AccountCommitment) :=
  match (db.lookupUser account).bind (db.database[·]?) with
  | none => .error (.runtimeError "can't commit invalid account")
  | some u => do
    let commitment ← u.produceCommitment
    return (account, commitment)

/-- `add_persistence_thunk`. -/
def addPersistenceThunk (s : AccountStore) (currentBlockNumber : UInt64) (log : ModificationTrie) :
    Result AccountStore := do
  let kvs ← log.keys.mapM (kvAssignment s.db)
  return { s with persistenceThunks := s.persistenceThunks ++ [⟨kvs, currentBlockNumber⟩] }

/-- `exec_one_thunk`, with the accounts on disk and the number of the last block written. -/
def execOneThunk (acc : SortedMap AccountID AccountCommitment × UInt64) (thunk : DBPersistenceThunk) :
    Result (SortedMap AccountID AccountCommitment × UInt64) :=
  if thunk.currentBlockNumber < acc.2 + 1 ∧ acc.2 ≠ 0 then
    .error (.runtimeError "can't persist blocks in wrong order!!!")
  else .ok (thunk.kvs.foldl (fun m kv => m.insert kv.1 kv.2) acc.1, thunk.currentBlockNumber)

/-- The first lock of `commit_persistence_thunks`: gather the thunks to commit. -/
def gatherThunks (s : AccountStore) (maxRoundNumber : UInt64) :
    List DBPersistenceThunk × AccountStore :=
  (s.persistenceThunks.filter (·.currentBlockNumber ≤ maxRoundNumber),
    { s with persistenceThunks := s.persistenceThunks.filter (maxRoundNumber < ·.currentBlockNumber) })

/-- `persist_thunks`. -/
def persistThunks (s : AccountStore) (thunks : List DBPersistenceThunk) (maxRoundNumber : UInt64) :
    Result AccountStore := do
  let (lmdb, currentBlockNumber) ←
    thunks.foldlM execOneThunk (s.accountLmdb, s.db.minPersistedRoundNumber)
  if currentBlockNumber > maxRoundNumber then
    throw (.runtimeError "invalid persist max_round_number")
  else return { s with
    db := { s.db with minPersistedRoundNumber := max s.db.minPersistedRoundNumber maxRoundNumber }
    accountLmdb := lmdb
    maxPersistedRoundNumber := max s.maxPersistedRoundNumber maxRoundNumber }

/-- The second lock of `commit_persistence_thunks`: clear the account creation thunks. -/
def clearCreationThunks (s : AccountStore) (maxRoundNumber : UInt64) : AccountStore :=
  { s with db := { s.db with accountCreationThunks :=
      s.db.accountCreationThunks.filter (maxRoundNumber < ·.currentBlockNumber) } }

/-- `commit_persistence_thunks`. -/
def commitPersistenceThunks (s : AccountStore) (maxRoundNumber : UInt64) : Result AccountStore := do
  let (thunks, s) := s.gatherThunks maxRoundNumber
  let s ← s.persistThunks thunks maxRoundNumber
  return s.clearCreationThunks maxRoundNumber

/-- One iteration of the loop of `clear_persistence_thunks_and_reload`: an account on disk replaces
the one in memory. -/
def reloadAccount (lmdb : SortedMap AccountID AccountCommitment) (db : MemoryDatabase)
    (kv : AccountID × AccountCommitment) : Result MemoryDatabase :=
  match lmdb.find? kv.1 with
  | none => .ok db
  | some commitment =>
    match db.lookupUser kv.1 with
    | none => .error (.runtimeError "invalid lookup to user_id_to_idx_map!")
    | some idx => do
      let u ← UserAccount.ofCommitment commitment
      return db.modifyAccount idx fun _ => u

/-- `clear_persistence_thunks_and_reload`. -/
def clearPersistenceThunksAndReload (s : AccountStore) (expectedPersistedRoundNumber : UInt64) :
    Result AccountStore :=
  if s.db.minPersistedRoundNumber ≠ s.maxPersistedRoundNumber then
    .error (.runtimeError "shorn read")
  else if expectedPersistedRoundNumber ≠ s.db.minPersistedRoundNumber then
    .error (.runtimeError "mismatch between expected round in db and actual persisted round in db")
  else do
    let undone := s.persistenceThunks.filter (expectedPersistedRoundNumber < ·.currentBlockNumber)
    let db ← (undone.reverse.flatMap DBPersistenceThunk.kvs).foldlM (reloadAccount s.accountLmdb)
      (s.db.rollbackNewAccounts expectedPersistedRoundNumber)
    return { s with db := db, persistenceThunks := [] }

end AccountStore

end Speedex
