import Speedex.BlockProcessing.Validator
import Speedex.Database.AutoRollback

/-! The validation of a block (`_speedex_block_validation_logic` of `speedex/speedex_operation.cc`,
with the guards of `speedex/autorollback_validation_structures.cc`). -/

namespace Speedex

open Lib

/-- The hash functions: of the account trie, of an orderbook, of the modification log and of a
header. -/
structure Hashes where
  accounts : SortedMap AccountID AccountCommitment → Hash
  orderbook : OrderbookTrie → Hash
  modificationLog : ModificationTrie → Hash
  header : Block → Hash

/-- The header before block 1, which is default-constructed. -/
def genesisBlock : HashedBlock := ⟨⟨0, 0, [], 0, ⟨0, [], 0, 0⟩⟩, 0⟩

/-- `SpeedexManagementStructures`.  Of the map of header hashes, validation only reads the hash. -/
structure ManagementStructures where
  db : MemoryDatabase
  orderbookManager : OrderbookManager
  accountModificationLog : AccountModificationLog
  blockMapHash : Hash
  /-- `approx_params.tax_rate` -/
  taxRate : UInt8
  config : SignatureConfig

/-- What validation leaves open: the order in which the transactions are worked on and by which
validator, the split of the orderbooks among workers, and the memory of new thunks. -/
structure Choices where
  schedule : List (Nat × SignedTransaction)
  ranges : List (List Nat)
  indeterminate : Nat → Bool

/-- The verdict, the structures after the guards are gone, and the executions. -/
structure ValidationOutcome where
  verdict : Bool
  structures : ManagementStructures
  executed : List Execution

namespace ManagementStructures

/-- A rejection. -/
def rejected (m : ManagementStructures) (executed : List Execution) : ValidationOutcome :=
  ⟨false, m, executed⟩

/-- `~AccountModificationLogAutoRollback`. -/
def clearLog (m : ManagementStructures) : ManagementStructures :=
  { m with accountModificationLog := m.accountModificationLog.detachedClear }

/-- The checks before the guards are set up. -/
def headerValid (m : ManagementStructures) (prevBlock expectedNextBlock : HashedBlock) : Bool :=
  prevBlock.block.blockNumber + 1 = expectedNextBlock.block.blockNumber &&
  expectedNextBlock.block.prices.length = m.orderbookManager.numAssets &&
  expectedNextBlock.block.internalHashes.clearingDetails.length =
    m.orderbookManager.getNumOrderbooks &&
  !decide (expectedNextBlock.block.feeRate + 1 < m.taxRate.toUInt32) &&
  expectedNextBlock.block.prevBlockHash = prevBlock.hash

/-- The checker of a header.  The fee rate becomes a `uint8_t`. -/
def commitmentChecker (expectedNextBlock : HashedBlock) : OrderbookStateCommitmentChecker where
  commitments := expectedNextBlock.block.internalHashes.clearingDetails
  prices := expectedNextBlock.block.prices
  taxRate := expectedNextBlock.block.feeRate.toUInt8

/-- The header that the validator computes. -/
def comparisonNextBlock (hashes : Hashes) (m : ManagementStructures)
    (prevBlock expectedNextBlock : HashedBlock) (db : MemoryDatabase) (orderbooks : List Orderbook)
    (log : ModificationTrie) : Block where
  prevBlockHash := prevBlock.hash
  blockNumber := prevBlock.block.blockNumber + 1
  prices := expectedNextBlock.block.prices
  feeRate := expectedNextBlock.block.feeRate
  internalHashes := {
    dbHash := hashes.accounts db.commitmentTrie
    clearingDetails := expectedNextBlock.block.internalHashes.clearingDetails.zipWith
      (fun c ob => { c with rootHash := hashes.orderbook ob.committedOffers }) orderbooks
    modificationLogHash := hashes.modificationLog log
    blockMapHash := m.blockMapHash }

/-- The rest of the validation, once the transactions are valid. -/
def validateClearing (hashes : Hashes) (m : ManagementStructures)
    (prevBlock expectedNextBlock : HashedBlock) (choices : Choices) (t : BlockValidation) :
    Result ValidationOutcome := do
  let checker := commitmentChecker expectedNextBlock
  let currentBlockNumber := prevBlock.block.blockNumber + 1
  let dbRollback ← (DatabaseAutoRollback.new t.db currentBlockNumber).tentativeCommitForValidation
  let books ← t.books.commitForValidation currentBlockNumber choices.indeterminate
  let (clearingsValid, c) ← books.tentativeClearOffersForValidation
    ⟨dbRollback.db, t.log.cache, t.executed⟩ t.mainStats checker choices.ranges
  let books := { books with orderbooks := c.orderbooks }
  let dbRollback := { dbRollback with db := c.state.db }
  let log := { t.log with cache := c.state.log }.mergeInLogBatch
  if !clearingsValid || !checker.checkStats c.stats then
    let books ← books.rollbackValidation
    let db ← dbRollback.destroy
    return rejected { m with
      db := db
      orderbookManager := books
      accountModificationLog := log.detachedClear } c.state.executed
  else
    let dbRollback ← dbRollback.tentativeProduceStateCommitment log.modificationLog
    let comparison := comparisonNextBlock hashes m prevBlock expectedNextBlock dbRollback.db
      books.orderbooks log.modificationLog
    if hashes.header comparison ≠ expectedNextBlock.hash then
      throw (.runtimeError "crash immediately on desync")
    else
      let dbRollback ← dbRollback.finalizeCommit
      let books ← books.finalizeValidation
      let db ← dbRollback.destroy
      return {
        verdict := true
        structures := { m with
          db := db
          orderbookManager := books
          accountModificationLog := log }
        executed := c.state.executed }

/-- `_speedex_block_validation_logic`. -/
def blockValidationLogic (hashes : Hashes) (m : ManagementStructures)
    (prevBlock expectedNextBlock : HashedBlock) (choices : Choices) : Result ValidationOutcome :=
  if !m.headerValid prevBlock expectedNextBlock then .ok (m.rejected [])
  else do
    let checker := commitmentChecker expectedNextBlock
    let clearingParamRes ← checker.checkClearing
    if !clearingParamRes then return m.clearLog.rejected []
    else
      let validationStats : ValidationStatistics :=
        ValidationStatistics.makeMinimumSize [] m.orderbookManager.getNumOrderbooks
      let (res, t) ← validateTransactionBlock m.config checker m.db m.orderbookManager
        m.accountModificationLog validationStats choices.schedule
      if !res then return { m with
          db := t.db
          orderbookManager := t.books
          accountModificationLog := t.log }.clearLog.rejected t.executed
      else m.validateClearing hashes prevBlock expectedNextBlock choices t

end ManagementStructures

end Speedex
