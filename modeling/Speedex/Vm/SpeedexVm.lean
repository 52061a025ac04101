import Speedex.Vm.Validation
import Speedex.Database.StoreRuns

/-! The node (`speedex/vm/speedex_vm.cc`): it executes the blocks that consensus decides on and
proposes its own, while a background thread writes committed blocks to disk
(`speedex/speedex_persistence.cc`). -/

namespace Speedex

open Lib

/-! ### The map of block headers -/

structure BlockHeaderHashValue where
  hash : Hash
  validationSuccess : Bool

/-- `BlockHeaderHashMap` (`header_hash/block_header_hash_map.cc`). -/
structure BlockHeaderHashMap where
  blockMap : SortedMap UInt64 BlockHeaderHashValue
  lastCommittedBlockNumber : UInt64

/-- The hash functions, with that of the map of block headers. -/
structure VmHashes extends Hashes where
  blockMap : SortedMap UInt64 BlockHeaderHashValue → Hash

/-- `insert`. -/
def BlockHeaderHashMap.insert (hashes : VmHashes) (map : BlockHeaderHashMap) (block : Block)
    (res : Bool) : Result BlockHeaderHashMap :=
  if block.blockNumber = 0 then .error (.runtimeError "should never insert genesis hash!")
  else if block.blockNumber ≠ map.lastCommittedBlockNumber + 1 then
    .error (.runtimeError "inserting wrong block number")
  else .ok ⟨map.blockMap.insert block.blockNumber ⟨hashes.header block, res⟩, block.blockNumber⟩

/-! ### The state of the node -/

/-- Where `commit_persistence_thunks` stands: between calls, with the thunks gathered, or with
the thunks written and the account creation thunks still to clear. -/
inductive Persister where
  | idle
  | gathered (maxRoundNumber : UInt64) (thunks : List DBPersistenceThunk)
  | written (maxRoundNumber : UInt64)
deriving DecidableEq

structure SpeedexVm where
  structures : ManagementStructures
  blockHeaderHashMap : BlockHeaderHashMap
  persistenceThunks : List DBPersistenceThunk
  accountLmdb : SortedMap AccountID AccountCommitment
  maxPersistedRoundNumber : UInt64
  proposalBaseBlock : HashedBlock
  lastCommittedBlock : HashedBlock
  persister : Persister

namespace SpeedexVm

/-- The accounts, in memory and on disk. -/
def store (vm : SpeedexVm) : AccountStore :=
  ⟨vm.structures.db, vm.persistenceThunks, vm.accountLmdb, vm.maxPersistedRoundNumber⟩

def withDb (vm : SpeedexVm) (db : MemoryDatabase) : SpeedexVm :=
  { vm with structures := { vm.structures with db := db } }

def withStore (vm : SpeedexVm) (s : AccountStore) : SpeedexVm :=
  { vm.withDb s.db with
    persistenceThunks := s.persistenceThunks
    accountLmdb := s.accountLmdb
    maxPersistedRoundNumber := s.maxPersistedRoundNumber }

/-- The number of the block that was executed last. -/
def height (vm : SpeedexVm) : UInt64 := vm.lastCommittedBlock.block.blockNumber

/-- `init_clean`. -/
def initClean (hashes : VmHashes) (numAssets : Nat) (defaultAmount : Int64)
    (accounts : List (AccountID × PublicKey)) (taxRate : UInt8) (config : SignatureConfig) :
    Result SpeedexVm := do
  let s ← AccountStore.genesis numAssets defaultAmount accounts
  return {
    structures := ⟨s.db, .new numAssets, .empty, hashes.blockMap ∅, taxRate, config⟩
    blockHeaderHashMap := ⟨∅, 0⟩
    persistenceThunks := s.persistenceThunks
    accountLmdb := s.accountLmdb
    maxPersistedRoundNumber := s.maxPersistedRoundNumber
    proposalBaseBlock := genesisBlock
    lastCommittedBlock := genesisBlock
    persister := .idle }

/-! ### Executing a block -/

/-- `ensure_sequential_block_numbers`. -/
def ensureSequentialBlockNumbers (prevBlock expectedNextBlock : HashedBlock) : Block :=
  { expectedNextBlock.block with blockNumber := prevBlock.block.blockNumber + 1 }

/-- `persist_critical_round_data`, where nothing is written to files. -/
def persistCriticalRoundData (vm : SpeedexVm) (header : HashedBlock) : Result SpeedexVm := do
  let s ← vm.store.addPersistenceThunk header.block.blockNumber
    vm.structures.accountModificationLog.modificationLog
  let vm := vm.withStore s
  return { vm with structures := vm.structures.clearLog }

/-- The end of `exec_block`, with the outcome of the validation. -/
def concludeBlock (hashes : VmHashes) (vm : SpeedexVm) (newHeader : HashedBlock)
    (outcome : ValidationOutcome) : Result SpeedexVm := do
  let corrected := ensureSequentialBlockNumbers vm.lastCommittedBlock newHeader
  let map ← vm.blockHeaderHashMap.insert hashes corrected outcome.verdict
  let lastCommittedBlock : HashedBlock := ⟨corrected, hashes.header corrected⟩
  let vm := { vm with
    structures := { outcome.structures with blockMapHash := hashes.blockMap map.blockMap }
    blockHeaderHashMap := map
    lastCommittedBlock := lastCommittedBlock
    proposalBaseBlock :=
      if vm.proposalBaseBlock.block.blockNumber < lastCommittedBlock.block.blockNumber then
        lastCommittedBlock
      else vm.proposalBaseBlock }
  if !outcome.verdict then return vm
  else vm.persistCriticalRoundData newHeader

/-- `exec_block`. -/
def execBlock (hashes : VmHashes) (vm : SpeedexVm) (newHeader : HashedBlock) (choices : Choices) :
    Result SpeedexVm :=
  if vm.height + 1 ≠ newHeader.block.blockNumber then .ok vm
  else do
    let outcome ← vm.structures.blockValidationLogic hashes.toHashes vm.lastCommittedBlock newHeader
      choices
    vm.concludeBlock hashes newHeader outcome

/-! ### The background thread -/

/-- A step of `commit_persistence_thunks`, for a block that has been executed. -/
inductive PersistStep : SpeedexVm → SpeedexVm → Prop where
  | gather {vm : SpeedexVm} {maxRoundNumber : UInt64} (hidle : vm.persister = .idle)
    (hcommitted : maxRoundNumber ≤ vm.height) :
    PersistStep vm { vm.withStore (vm.store.gatherThunks maxRoundNumber).2 with
      persister := .gathered maxRoundNumber (vm.store.gatherThunks maxRoundNumber).1 }
  | write {vm : SpeedexVm} {maxRoundNumber : UInt64} {thunks : List DBPersistenceThunk}
    {s : AccountStore} (hgathered : vm.persister = .gathered maxRoundNumber thunks)
    (hwrite : vm.store.persistThunks thunks maxRoundNumber = .ok s) :
    PersistStep vm { vm.withStore s with persister := .written maxRoundNumber }
  | clear {vm : SpeedexVm} {maxRoundNumber : UInt64} (hwritten : vm.persister = .written maxRoundNumber) :
    PersistStep vm { vm.withStore (vm.store.clearCreationThunks maxRoundNumber) with
      persister := .idle }

/-- Any number of steps. -/
abbrev Persists : SpeedexVm → SpeedexVm → Prop := Relation.ReflTransGen PersistStep

/-- The three steps of `commit_persistence_thunks` in a row. -/
def commitPersistenceThunks (vm : SpeedexVm) (maxRoundNumber : UInt64) : Result SpeedexVm := do
  let s ← vm.store.commitPersistenceThunks maxRoundNumber
  return vm.withStore s

theorem persists_commitPersistenceThunks {vm vm' : SpeedexVm} {n : UInt64}
    (hidle : vm.persister = .idle) (hcommitted : n ≤ vm.height)
    (h : vm.commitPersistenceThunks n = .ok vm') : Persists vm vm' := by
  obtain ⟨s, hs, h⟩ := bind_eq_ok.mp h
  obtain ⟨s₁, hwrite, hs⟩ := bind_eq_ok.mp hs
  cases hs
  cases h
  refine .head (.gather hidle hcommitted) (.head (.write rfl hwrite) (.single ?_))
  have hclear : PersistStep { vm.withStore s₁ with persister := .written n }
      { vm.withStore (s₁.clearCreationThunks n) with persister := .idle } := .clear rfl
  rw [← hidle] at hclear
  exact hclear

end SpeedexVm

end Speedex
