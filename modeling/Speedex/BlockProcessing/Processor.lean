import Speedex.BlockProcessing.Handler

/-! Transactions in block production (`SerialTransactionProcessor` of
`block_processing/serial_transaction_processor.cc`): a transaction that fails is unwound. -/

namespace Speedex

open Lib

/-- Signature checks: whether they are on, and `sig_check`. -/
structure SignatureConfig where
  checkSigs : Bool
  sigCheck : Transaction → Signature → PublicKey → Bool

/-- What `process_transaction` works on. -/
structure ProcessorState where
  db : MemoryDatabase
  books : OrderbookManager
  manager : ProcessingSerialManager
  log : ModificationTrie
deriving DecidableEq

namespace ProcessorState

/-- The state that the operations of a transaction work on. -/
abbrev Running := HandlerState ProcessingSerialManager BufferedMemoryDatabaseView

/-- `unwind_operation`, for an operation that succeeded. -/
def unwindOperation (metadata : TransactionMetadata) (i : Nat) (op : Operation) (s : Running) :
    Result Running :=
  match op with
  | .CREATE_SELL_OFFER op => do
    let marketIdx ← s.books.lookUpIdx op.category
    let manager ← s.manager.unwindAddOffer marketIdx (makeOffer op (.at metadata 0 i))
    return { s with manager := manager }
  | .CANCEL_SELL_OFFER op => do
    let marketIdx ← s.books.lookUpIdx op.category
    s.undeleteOffer marketIdx op.minPrice metadata.sourceAccount op.offerId
  -- the database view unwinds everything else
  | .CREATE_ACCOUNT _ | .PAYMENT _ | .MONEY_PRINTER _ => .ok s

/-- The loop of `unwind_transaction` over the first `n` operations, from the last of them to the
first. -/
def unwindOperations (metadata : TransactionMetadata) (ops : List Operation) :
    Nat → Running → Result Running
  | 0, s => .ok s
  | n + 1, s => do
    let op ← vectorAt ops n
    let s ← unwindOperation metadata n op s
    unwindOperations metadata ops n s

/-- `unwind_transaction`. -/
def unwindTransaction (tx : Transaction) (n : Nat) (s : Running) : Result Running :=
  match s.db.lookupUser tx.metadata.sourceAccount with
  | none => .error (.runtimeError "can't unwind tx from nonexistnet acct")
  | some _ => unwindOperations tx.metadata tx.operations n s

def start (s : ProcessorState) : Running := ⟨s.db, s.books, s.manager, .empty, s.log⟩

/-- Unwind the view of the database. -/
def unwound (s : Running) : Result ProcessorState := do
  let db ← s.view.unwind s.db
  return ⟨db, s.books, s.manager, s.log⟩

/-- `process_transaction`. -/
def processTransaction (config : SignatureConfig) (s : ProcessorState) (signedTx : SignedTransaction) :
    Result (TransactionProcessingStatus × ProcessorState) :=
  let tx := signedTx.transaction
  let feeReq := feeRequired tx.operations.length
  if !checkTxFormatParameters tx then .ok (.INVALID_TX_FORMAT, s)
  else if feeReq > tx.maxFee.toNat then .ok (.FEE_BID_TOO_LOW, s)
  else match s.db.lookupUser tx.metadata.sourceAccount with
    | none => .ok (.SOURCE_ACCOUNT_NEXIST, s)
    | some sourceIdx => do
      let source ← vectorAt s.db.database sourceIdx
      if config.checkSigs && !config.sigCheck tx signedTx.signature source.pk then
        return (.BAD_SIGNATURE, s)
      else
        let (status, db, creation) ← (AccountCreationView.empty).reserveSequenceNumber s.db sourceIdx
          tx.metadata.sequenceNumber
        let run : Running := { s.start with db := db, view := { s.start.view with
          toAccountCreationView := creation } }
        if status ≠ .SUCCESS then return (status, ← unwound run)
        else
          let (status, run) := run.transferAvailable (.main sourceIdx) MemoryDatabase.nativeAsset
            (-.ofNat feeReq)
          if status ≠ .SUCCESS then return (status, ← unwound run)
          else
            let (status, i, run) ← processOperations tx.metadata sourceIdx 0 tx.operations run
            if status ≠ .SUCCESS then
              let run ← unwindTransaction tx i run
              return (status, ← unwound run)
            else return (.SUCCESS, {
              db := run.view.commit run.db
              books := run.books
              manager := run.manager
              log := logModifiedAccounts signedTx run.log })

end ProcessorState

end Speedex
