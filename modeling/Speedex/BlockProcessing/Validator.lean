import Speedex.BlockProcessing.Processor

/-! Transactions in block validation (`SerialTransactionValidator` of
`block_processing/serial_transaction_processor.cc`, and `block_processing/block_validator.cc`).  A
transaction that fails is not unwound: it fails the block. -/

namespace Speedex

open Lib

/-- What `validate_transaction` works on. -/
structure ValidatorState where
  db : MemoryDatabase
  books : OrderbookManager
  manager : ValidatingSerialManager
  log : ModificationTrie

namespace ValidatorState

/-- The state that the operations of a transaction work on. -/
abbrev Running := HandlerState ValidatingSerialManager UnbufferedMemoryDatabaseView

/-- The view goes away without being committed or unwound. -/
def abandoned (s : Running) : ValidatorState := ⟨s.db, s.books, s.manager, s.log⟩

/-- `validate_transaction`. -/
def validateTransaction (config : SignatureConfig) (s : ValidatorState)
    (signedTx : SignedTransaction) : Result (Bool × ValidatorState) :=
  let tx := signedTx.transaction
  let feeReq := feeRequired tx.operations.length
  if !checkTxFormatParameters tx then .ok (false, s)
  else match s.db.lookupUser tx.metadata.sourceAccount with
    | none => .ok (false, s)
    | some sourceIdx =>
      if feeReq > tx.maxFee.toNat then .ok (false, s)
      else do
        let source ← vectorAt s.db.database sourceIdx
        if config.checkSigs && !config.sigCheck tx signedTx.signature source.pk then
          return (false, s)
        else
          let (status, db, creation) ← (AccountCreationView.empty).reserveSequenceNumber s.db
            sourceIdx tx.metadata.sequenceNumber
          let run : Running := ⟨db, s.books, s.manager, ⟨creation⟩, s.log⟩
          if status ≠ .SUCCESS then return (false, abandoned run)
          else
            let (status, run) := run.transferAvailable (.main sourceIdx) MemoryDatabase.nativeAsset
              (-.ofNat feeReq)
            if status ≠ .SUCCESS then return (false, abandoned run)
            else
              let (status, _, run) ← processOperations tx.metadata sourceIdx 0 tx.operations run
              if status ≠ .SUCCESS then return (false, abandoned run)
              else return (true, {
                db := run.view.commit run.db
                books := run.books
                manager := run.manager
                log := logModifiedAccounts signedTx run.log })

end ValidatorState

/-! ### A block of transactions -/

namespace ValidatingSerialManager

/-- The constructor. -/
def new (clearingCommitment : OrderbookStateCommitmentChecker) : ValidatingSerialManager :=
  ⟨[], clearingCommitment, [], []⟩

/-- `partial_finish`: merge the new offers of one orderbook into it. -/
def partialFinish (m : ValidatingSerialManager) (books : OrderbookManager) (idx : Nat) :
    Result OrderbookManager :=
  match m.newOffers[idx]? with
  | none => .ok books
  | some trie => books.addOffers idx trie

end ValidatingSerialManager

/-- A body of `ParallelValidate` with its serial validator. -/
structure SerialValidator where
  manager : ValidatingSerialManager
  valid : Bool

/-- What the bodies share, and the bodies by number. -/
structure ParallelValidate where
  db : MemoryDatabase
  books : OrderbookManager
  log : ModificationTrie
  validators : SortedMap Nat SerialValidator

namespace ParallelValidate

/-- The validator with this number, which is new if it has not worked yet. -/
def validator (s : ParallelValidate) (checker : OrderbookStateCommitmentChecker) (i : Nat) :
    SerialValidator :=
  (s.validators.find? i).getD ⟨.new checker, true⟩

/-- What validator `i` works on. -/
def worker (s : ParallelValidate) (checker : OrderbookStateCommitmentChecker) (i : Nat) :
    ValidatorState :=
  ⟨s.db, s.books, (s.validator checker i).manager, s.log⟩

/-- One iteration of the loop of `operator()`: a transaction goes to a validator, which stops at
its first failure. -/
def validateNext (config : SignatureConfig) (checker : OrderbookStateCommitmentChecker)
    (s : ParallelValidate) (next : Nat × SignedTransaction) : Result ParallelValidate :=
  let v := s.validator checker next.1
  if !v.valid then .ok s
  else do
    let (valid, t) ←
      ValidatorState.validateTransaction config ⟨s.db, s.books, v.manager, s.log⟩ next.2
    return ⟨t.db, t.books, t.log, s.validators.insert next.1 ⟨t.manager, valid⟩⟩

/-- Whether every body is still valid. -/
def valid (s : ParallelValidate) : Bool := s.validators.values.all SerialValidator.valid

/-- The loop of `partial_finish` over the orderbooks and the validators. -/
def finish (s : ParallelValidate) : Result OrderbookManager :=
  (List.range s.books.getNumOrderbooks).foldlM (fun books idx =>
    s.validators.values.foldlM (fun books v => v.manager.partialFinish books idx) books) s.books

/-- The loop of `partial_finish_conclude`. -/
def conclude (s : ParallelValidate) (mainStats : ValidationStatistics) : ValidationStatistics :=
  s.validators.values.foldl (fun stats v => stats.add v.manager.activatedSupplies) mainStats

/-- The executions of all validators. -/
def executed (s : ParallelValidate) : List Execution :=
  s.validators.values.flatMap fun v => v.manager.executed

end ParallelValidate

/-- What `validate_transaction_block` leaves behind. -/
structure BlockValidation where
  db : MemoryDatabase
  books : OrderbookManager
  log : AccountModificationLog
  mainStats : ValidationStatistics
  executed : List Execution

/-- `validate_transaction_block`.  The schedule is the order in which the transactions are worked
on, each with the number of its validator. -/
def validateTransactionBlock (config : SignatureConfig) (checker : OrderbookStateCommitmentChecker)
    (db : MemoryDatabase) (books : OrderbookManager) (log : AccountModificationLog)
    (mainStats : ValidationStatistics) (schedule : List (Nat × SignedTransaction)) :
    Result (Bool × BlockValidation) :=
  if log.modificationLog.size ≠ 0 then .error (.runtimeError "forgot to clear mod log")
  else do
    let s ← schedule.foldlM (ParallelValidate.validateNext config checker) ⟨db, books, log.cache, ∅⟩
    let log := { log with cache := s.log }
    if !s.valid then return (false, ⟨s.db, s.books, log, mainStats, s.executed⟩)
    else
      let books ← s.finish
      let log := log.mergeInLogBatch
      return (s.db.checkValidState log.modificationLog,
        ⟨s.db, books, log, s.conclude mainStats, s.executed⟩)

end Speedex
