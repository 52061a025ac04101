import Speedex.Database.Account
import Speedex.Lib.Except

/-! The account database (`memory_database/memory_database.cc`).  Accounts sit in a vector, and a
`UserAccount*` into it is the position of the account.  The id map, the Merkle trie of commitments
and the list of account-creation thunks follow the vector block by block. -/

namespace Speedex

open Lib

/-- How many accounts a block created. -/
structure AccountCreationThunk where
  currentBlockNumber : UInt64
  numAccountsCreated : Nat
deriving DecidableEq

/-- The keys and values of `AccountModificationLog`'s trie: for each modified account, the
transactions it sent and the operations that modified it. -/
structure AccountModificationTxList where
  newTransactionsSelf : List SignedTransaction
  identifiersSelf : List UInt64
  identifiersOthers : List TxIdentifier
deriving DecidableEq

instance : Inhabited AccountModificationTxList := ⟨⟨[], [], []⟩⟩

abbrev ModificationTrie := SortedMap AccountID AccountModificationTxList

structure MemoryDatabase where
  database : List UserAccount
  userIdToIdxMap : SortedMap AccountID Nat
  /-- accounts created in this block and not yet committed -/
  uncommittedDb : List UserAccount
  reservedAccountIds : Finset AccountID
  commitmentTrie : SortedMap AccountID AccountCommitment
  accountCreationThunks : List AccountCreationThunk
  /-- the least round number that a shard of the account LMDB has persisted -/
  minPersistedRoundNumber : UInt64
deriving DecidableEq

namespace MemoryDatabase

def nativeAsset : AssetID := 0

/-- A database of one account without assets. -/
def ofAccount (account : AccountID) : MemoryDatabase where
  database := [.new account 0]
  userIdToIdxMap := SortedMap.insert ∅ account 0
  uncommittedDb := []
  reservedAccountIds := ∅
  commitmentTrie := ∅
  accountCreationThunks := []
  minPersistedRoundNumber := 0

/-- `lookup_user`: the position of the account with this id. -/
def lookupUser (db : MemoryDatabase) (account : AccountID) : Option Nat :=
  db.userIdToIdxMap.find? account

/-- `f` at the account that a pointer refers to. -/
def modifyAccount (db : MemoryDatabase) (idx : Nat) (f : UserAccount → UserAccount) :
    MemoryDatabase :=
  { db with database := db.database.modify idx f }

def transferAvailable (db : MemoryDatabase) (idx : Nat) (asset : AssetID) (change : Int64) :
    MemoryDatabase :=
  db.modifyAccount idx fun u => u.transferAvailable asset change

def escrow (db : MemoryDatabase) (idx : Nat) (asset : AssetID) (change : Int64) : MemoryDatabase :=
  db.modifyAccount idx fun u => u.escrow asset change

/-- A pointer obtained from `lookup_user` refers to an account; `false` for any other. -/
def conditionalTransferAvailable (db : MemoryDatabase) (idx : Nat) (asset : AssetID)
    (change : Int64) : Bool × MemoryDatabase :=
  ((db.database[idx]?.map fun u => (u.conditionalTransferAvailable asset change).1).getD false,
    db.modifyAccount idx fun u => (u.conditionalTransferAvailable asset change).2)

def conditionalEscrow (db : MemoryDatabase) (idx : Nat) (asset : AssetID) (change : Int64) :
    Bool × MemoryDatabase :=
  ((db.database[idx]?.map fun u => (u.conditionalEscrow asset change).1).getD false,
    db.modifyAccount idx fun u => (u.conditionalEscrow asset change).2)

def reserveSequenceNumber (db : MemoryDatabase) (idx : Nat) (sequenceNumber : UInt64) :
    Result (TransactionProcessingStatus × MemoryDatabase) :=
  match db.database[idx]? with
  | none => .error .indexOutOfRange
  | some u => .ok ((u.reserveSequenceNumber sequenceNumber).1,
      db.modifyAccount idx fun u => (u.reserveSequenceNumber sequenceNumber).2)

def releaseSequenceNumber (db : MemoryDatabase) (idx : Nat) (sequenceNumber : UInt64) :
    Result MemoryDatabase :=
  match db.database[idx]? with
  | none => .error .indexOutOfRange
  | some u => do
    let u' ← u.releaseSequenceNumber sequenceNumber
    return db.modifyAccount idx fun _ => u'

def clearInternalDataStructures (db : MemoryDatabase) : MemoryDatabase :=
  { db with uncommittedDb := [], reservedAccountIds := ∅ }

/-- `commit_values(log)`: commit every account that the log names. -/
def commitValues (db : MemoryDatabase) (dirtyAccounts : ModificationTrie) :
    Result MemoryDatabase :=
  dirtyAccounts.keys.foldlM (fun db owner =>
    match db.lookupUser owner with
    | some idx => .ok (db.modifyAccount idx UserAccount.commit)
    | none => .error (.runtimeError "couldn't lookup new acct")) db

/-- `rollback_values`: roll back every account. -/
def rollbackValues (db : MemoryDatabase) : MemoryDatabase :=
  { db with database := db.database.map UserAccount.rollback }

/-- One iteration of the loop of `commit_new_accounts`: append a new account and enter it in the
trie and in the id map. -/
def commitNewAccount (db : MemoryDatabase) (account : UserAccount) : Result MemoryDatabase := do
  let account := account.commit
  let commitment ← account.produceCommitment
  return { db with
    database := db.database ++ [account]
    commitmentTrie := db.commitmentTrie.insert account.owner commitment
    userIdToIdxMap := db.userIdToIdxMap.insert account.owner db.database.length }

/-- The sequentiality check of `commit_new_accounts`: the thunk to add must follow the last one,
or the persisted round if there is none, except at genesis. -/
def creationThunkInOrder (db : MemoryDatabase) (currentBlockNumber : UInt64) : Bool :=
  (match db.accountCreationThunks.getLast? with
    | none => db.minPersistedRoundNumber + 1 = currentBlockNumber
    | some thunk => thunk.currentBlockNumber + 1 = currentBlockNumber) ||
  (currentBlockNumber = 0 && db.minPersistedRoundNumber = 0)

/-- `commit_new_accounts`. -/
def commitNewAccounts (db : MemoryDatabase) (currentBlockNumber : UInt64) :
    Result MemoryDatabase :=
  if !db.creationThunkInOrder currentBlockNumber then
    .error (.runtimeError "account creation thunks block number error")
  else do
    let db' ← db.uncommittedDb.foldlM commitNewAccount db
    return clearInternalDataStructures { db' with
      accountCreationThunks := db'.accountCreationThunks ++
        [⟨currentBlockNumber, db.uncommittedDb.length⟩] }

/-- The removal of the newest `n` accounts, from the id map, the trie and the vector. -/
def dropAccounts (db : MemoryDatabase) (n : Nat) : MemoryDatabase :=
  let owners := (db.database.drop (db.database.length - n)).map UserAccount.owner
  { db with
    userIdToIdxMap := db.userIdToIdxMap.eraseAll owners
    commitmentTrie := db.commitmentTrie.eraseAll owners
    database := db.database.take (db.database.length - n) }

/-- `rollback_new_accounts`: undo the creation thunks numbered above `current_block_number`,
from the front of the list. -/
def rollbackNewAccounts (db : MemoryDatabase) (currentBlockNumber : UInt64) : MemoryDatabase :=
  let undone := db.accountCreationThunks.filter (·.currentBlockNumber > currentBlockNumber)
  let db' := undone.foldl (fun db thunk => db.dropAccounts thunk.numAccountsCreated) db
  clearInternalDataStructures { db' with
    accountCreationThunks :=
      db.accountCreationThunks.filter (·.currentBlockNumber ≤ currentBlockNumber) }

/-- `check_valid_state`: no account of the log, and no account created in this block, has a
negative balance.  An account of the log that is not found was created in this block. -/
def checkValidState (db : MemoryDatabase) (dirtyAccounts : ModificationTrie) : Bool :=
  (dirtyAccounts.keys.all fun owner =>
    match (db.lookupUser owner).bind (db.database[·]?) with
    | none => true
    | some u => u.inValidState) &&
  db.uncommittedDb.all UserAccount.inValidState

def reserveAccountCreation (db : MemoryDatabase) (account : AccountID) :
    TransactionProcessingStatus × MemoryDatabase :=
  if db.userIdToIdxMap.contains account then (.NEW_ACCOUNT_ALREADY_EXISTS, db)
  else if account ∈ db.reservedAccountIds then (.NEW_ACCOUNT_TEMP_RESERVED, db)
  else (.SUCCESS, { db with reservedAccountIds := insert account db.reservedAccountIds })

def releaseAccountCreation (db : MemoryDatabase) (account : AccountID) : MemoryDatabase :=
  { db with reservedAccountIds := db.reservedAccountIds.erase account }

def commitAccountCreation (db : MemoryDatabase) (accountData : UserAccount) : MemoryDatabase :=
  { db with uncommittedDb := db.uncommittedDb ++ [accountData] }

/-- The loop over the log that `ParallelApplyLambda` runs: set the trie's value at every logged
account to `commitment` of that account. -/
def modifyCommitments (db : MemoryDatabase) (log : ModificationTrie)
    (commitment : UserAccount → Result AccountCommitment) : Result MemoryDatabase :=
  log.keys.foldlM (fun db owner =>
    match (db.lookupUser owner).bind (db.database[·]?) with
    | none => .error (.runtimeError "unordered_map::at")
    | some u => do
      let c ← commitment u
      return { db with commitmentTrie := db.commitmentTrie.modify owner fun _ => c }) db

/-- `tentative_produce_state_commitment`, up to the hash of the trie. -/
def tentativeProduceStateCommitment (db : MemoryDatabase) (log : ModificationTrie) :
    Result MemoryDatabase :=
  db.modifyCommitments log UserAccount.tentativeCommitment

/-- `set_trie_commitment_to_user_account_commits`, which is `rollback_produce_state_commitment`. -/
def setTrieCommitmentToUserAccountCommits (db : MemoryDatabase) (log : ModificationTrie) :
    Result MemoryDatabase :=
  db.modifyCommitments log UserAccount.produceCommitment

end MemoryDatabase

end Speedex
