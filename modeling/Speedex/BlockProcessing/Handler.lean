import Speedex.Database.View
import Speedex.Orderbook.Manager

/-! The operations of a transaction (`block_processing/serial_transaction_processor.cc`,
`orderbook/orderbook_manager_view.h`).  One handler serves production and validation: it works on a
view of the database and on a serial manager, which buffers new offers in production, and in
validation clears at once those that the header says execute fully. -/

namespace Speedex

open Lib

/-- `OperationMetadata`, without the view. -/
structure OperationMetadata where
  txMetadata : TransactionMetadata
  sourceAccountIdx : Nat
  operationId : UInt64

/-- What an operation works on. -/
structure HandlerState (M V : Type) where
  db : MemoryDatabase
  books : OrderbookManager
  manager : M
  view : V
  log : ModificationTrie

/-- What operations need of a serial manager. -/
class SerialManager (M : Type) where
  newOffers : M → List OrderbookTrie
  setNewOffers : M → List OrderbookTrie → M
  addOffer {V : Type} [DatabaseView V] : Nat → Offer → OperationMetadata → HandlerState M V →
    Result (HandlerState M V)
  unwindAddOffer : M → Nat → Offer → Result M
  undeleteOffer : M → OrderbookManager → Nat → OfferKey → Result OrderbookManager

/-- `ensure_suffient_new_offers_sz`. -/
def ensureSufficientNewOffersSz (newOffers : List OrderbookTrie) (idx : Nat) : List OrderbookTrie :=
  newOffers ++ List.replicate (idx + 1 - newOffers.length) ∅

/-! ### The serial manager of production -/

structure ProcessingSerialManager where
  newOffers : List OrderbookTrie
deriving DecidableEq

namespace ProcessingSerialManager

def addOffer {V : Type} (idx : Nat) (offer : Offer) (s : HandlerState ProcessingSerialManager V) :
    HandlerState ProcessingSerialManager V :=
  { s with manager := ⟨(ensureSufficientNewOffersSz s.manager.newOffers idx).modify idx
      (·.insertOffer offer.key offer)⟩ }

/-- `unwind_add_offer`; `at` throws if there is no trie for the orderbook. -/
def unwindAddOffer (m : ProcessingSerialManager) (idx : Nat) (offer : Offer) :
    Result ProcessingSerialManager := do
  let _ ← vectorAt m.newOffers idx
  return ⟨m.newOffers.modify idx fun t => (t.performDeletion offer.key).2⟩

instance : SerialManager ProcessingSerialManager where
  newOffers m := m.newOffers
  setNewOffers _ newOffers := ⟨newOffers⟩
  addOffer idx offer _ s := .ok (addOffer idx offer s)
  unwindAddOffer := unwindAddOffer
  undeleteOffer _ books idx key := books.unmarkForDeletion idx key

end ProcessingSerialManager

/-! ### The serial manager of validation -/

/-- `ValidatingSerialManager`.  `executed` lists the executions, which the source does not
record. -/
structure ValidatingSerialManager where
  newOffers : List OrderbookTrie
  clearingCommitment : OrderbookStateCommitmentChecker
  activatedSupplies : ValidationStatistics
  executed : List Execution

namespace ValidatingSerialManager

variable {V : Type} [DatabaseView V]

/-- Clear a new offer at once. -/
def clearNewOffer (idx : Nat) (offer : Offer) (metadata : OperationMetadata)
    (s : HandlerState ValidatingSerialManager V) : Result (HandlerState ValidatingSerialManager V) :=
  do
  let checker := s.manager.clearingCommitment
  let sellPrice ← vectorAt checker.prices offer.category.sellAsset.toNat
  let buyPrice ← vectorAt checker.prices offer.category.buyAsset.toNat
  let (buyAmount, _, db, view) ← clearOfferFull
    (DatabaseView.transferAvailable s.view s.db (.main metadata.sourceAccountIdx)) offer sellPrice
    buyPrice checker.taxRate
  return { s with
    db := db
    view := view
    log := s.log.logSelfModification metadata.txMetadata.sourceAccount metadata.operationId
    manager := { s.manager with
      activatedSupplies := s.manager.activatedSupplies.addAt idx
        (.fromIntegral (widenUInt64 offer.amount))
      executed := s.manager.executed ++ [⟨offer, offer.amount, buyAmount⟩] } }

def addOffer (idx : Nat) (offer : Offer) (metadata : OperationMetadata)
    (s : HandlerState ValidatingSerialManager V) : Result (HandlerState ValidatingSerialManager V) :=
  do
  let s := { s with manager := { s.manager with
    activatedSupplies := s.manager.activatedSupplies.makeMinimumSize idx
    newOffers := ensureSufficientNewOffersSz s.manager.newOffers idx } }
  let commitment ← vectorAt s.manager.clearingCommitment.commitments idx
  if commitment.thresholdKeyIsNull = 1 then clearNewOffer idx offer metadata s
  else if commitment.partialExecThresholdKey ≤ offer.key then
    -- it might still execute partially
    return { s with manager := { s.manager with
      newOffers := s.manager.newOffers.modify idx (·.insertRollback offer.key offer) } }
  else clearNewOffer idx offer metadata s

instance : SerialManager ValidatingSerialManager where
  newOffers m := m.newOffers
  setNewOffers m newOffers := { m with newOffers := newOffers }
  addOffer := addOffer
  unwindAddOffer m _ _ := .ok m
  undeleteOffer _ books _ _ := .ok books

end ValidatingSerialManager

/-! ### Operations -/

/-- `is_valid_amount`. -/
def isValidAmount (amount : Int64) : Bool := amount > 0 && amount ≤ 2 ^ 48

namespace HandlerState

variable {M V : Type} [SerialManager M] [DatabaseView V]

def transferAvailable (s : HandlerState M V) (account : AccountPtr) (asset : AssetID)
    (amount : Int64) : TransactionProcessingStatus × HandlerState M V :=
  let (status, db, view) := DatabaseView.transferAvailable s.view s.db account asset amount
  (status, { s with db := db, view := view })

def escrow (s : HandlerState M V) (account : AccountPtr) (asset : AssetID) (amount : Int64) :
    TransactionProcessingStatus × HandlerState M V :=
  let (status, db, view) := DatabaseView.escrow s.view s.db account asset amount
  (status, { s with db := db, view := view })

def createNewAccount (s : HandlerState M V) (account : AccountID) (pk : PublicKey) :
    TransactionProcessingStatus × HandlerState M V :=
  let (status, db, creation) := (DatabaseView.creation s.view).createNewAccount s.db account pk
  (status, { s with db := db, view := DatabaseView.setCreation s.view creation })

def lookupUser (s : HandlerState M V) (account : AccountID) : Option AccountPtr :=
  (DatabaseView.creation s.view).lookupUser s.db account

/-- `delete_offer`: mark an offer of the main orderbook. -/
def deleteOffer (s : HandlerState M V) (idx : Nat) (minPrice : Price) (owner : AccountID)
    (offerId : UInt64) : Result (Option Offer × HandlerState M V) := do
  let newOffers := ensureSufficientNewOffersSz (SerialManager.newOffers s.manager) idx
  let s := { s with manager := SerialManager.setNewOffers s.manager newOffers }
  let (offer, books) ← s.books.markForDeletion idx (generateOrderbookTrieKey minPrice owner offerId)
  return (offer, { s with books := books })

/-- `undelete_offer`. -/
def undeleteOffer (s : HandlerState M V) (idx : Nat) (minPrice : Price) (owner : AccountID)
    (offerId : UInt64) : Result (HandlerState M V) := do
  let books ← SerialManager.undeleteOffer s.manager s.books idx
    (generateOrderbookTrieKey minPrice owner offerId)
  return { s with books := books }

end HandlerState

section Operations

variable {M V : Type} [SerialManager M] [DatabaseView V]

def processCreateAccount (metadata : OperationMetadata) (op : CreateAccountOp)
    (s : HandlerState M V) : TransactionProcessingStatus × HandlerState M V :=
  if op.startingBalance < createAccountMinStartingBalance then (.STARTING_BALANCE_TOO_LOW, s)
  else
    let (status, s) := s.createNewAccount op.newAccountId op.newAccountPublicKey
    if status ≠ .SUCCESS then (status, s)
    else
      let (status, s) := s.transferAvailable (.main metadata.sourceAccountIdx)
        MemoryDatabase.nativeAsset (-op.startingBalance)
      if status ≠ .SUCCESS then (status, s)
      else if !isValidAmount op.startingBalance then (.INVALID_AMOUNT, s)
      else s.transferAvailable (.fresh op.newAccountId) MemoryDatabase.nativeAsset op.startingBalance

/-- `make_offer`. -/
def makeOffer (op : CreateSellOfferOp) (metadata : OperationMetadata) : Offer where
  category := op.category
  offerId := metadata.operationId
  owner := metadata.txMetadata.sourceAccount
  amount := op.amount.toUInt64
  minPrice := op.minPrice

def processCreateSellOffer (metadata : OperationMetadata) (op : CreateSellOfferOp)
    (s : HandlerState M V) : Result (TransactionProcessingStatus × HandlerState M V) :=
  if !validateCategory op.category s.books.numAssets then .ok (.INVALID_OFFER_CATEGORY, s)
  else if !Price.isValidPrice op.minPrice then .ok (.INVALID_PRICE, s)
  else if !isValidAmount op.amount then .ok (.INVALID_AMOUNT, s)
  else do
    let marketIdx ← s.books.lookUpIdx op.category
    let toAdd := makeOffer op metadata
    let s ← SerialManager.addOffer marketIdx toAdd metadata s
    let (status, s) := s.escrow (.main metadata.sourceAccountIdx) op.category.sellAsset op.amount
    if status ≠ .SUCCESS then
      let manager ← SerialManager.unwindAddOffer s.manager marketIdx toAdd
      return (status, { s with manager := manager })
    else return (.SUCCESS, s)

def processCancelSellOffer (metadata : OperationMetadata) (op : CancelSellOfferOp)
    (s : HandlerState M V) : Result (TransactionProcessingStatus × HandlerState M V) := do
  let marketIdx ← s.books.lookUpIdx op.category
  let (foundOffer, s) ←
    s.deleteOffer marketIdx op.minPrice metadata.txMetadata.sourceAccount op.offerId
  match foundOffer with
  | none => return (.CANCEL_OFFER_TARGET_NEXIST, s)
  | some offer =>
    let (status, s) := s.escrow (.main metadata.sourceAccountIdx) op.category.sellAsset
      (-offer.amount).toInt64
    if status ≠ .SUCCESS then
      let s ← s.undeleteOffer marketIdx op.minPrice metadata.txMetadata.sourceAccount op.offerId
      return (status, s)
    else return (status, s)

def processPayment (metadata : OperationMetadata) (op : PaymentOp) (s : HandlerState M V) :
    TransactionProcessingStatus × HandlerState M V :=
  if !isValidAmount op.amount then (.INVALID_AMOUNT, s)
  else match s.lookupUser op.receiver with
    | none => (.RECIPIENT_ACCOUNT_NEXIST, s)
    | some target =>
      let (status, s) := s.transferAvailable (.main metadata.sourceAccountIdx) op.asset (-op.amount)
      if status ≠ .SUCCESS then (status, s)
      else s.transferAvailable target op.asset op.amount

def processMoneyPrinter (metadata : OperationMetadata) (op : MoneyPrinterOp)
    (s : HandlerState M V) : TransactionProcessingStatus × HandlerState M V :=
  if op.amount < 0 then (.INVALID_PRINT_MONEY_AMOUNT, s)
  else s.transferAvailable (.main metadata.sourceAccountIdx) op.asset op.amount

/-- `process_operation`, for every kind of operation. -/
def processOperation (metadata : OperationMetadata) (op : Operation) (s : HandlerState M V) :
    Result (TransactionProcessingStatus × HandlerState M V) :=
  match op with
  | .CREATE_ACCOUNT op => .ok (processCreateAccount metadata op s)
  | .CREATE_SELL_OFFER op => processCreateSellOffer metadata op s
  | .CANCEL_SELL_OFFER op => processCancelSellOffer metadata op s
  | .PAYMENT op => .ok (processPayment metadata op s)
  | .MONEY_PRINTER op => .ok (processMoneyPrinter metadata op s)

/-- The metadata of operation `i`. -/
def OperationMetadata.at (metadata : TransactionMetadata) (sourceAccountIdx i : Nat) :
    OperationMetadata :=
  ⟨metadata, sourceAccountIdx, metadata.sequenceNumber + .ofNat i⟩

/-- The loop over the operations of a transaction, from operation `i` on, up to the first that
fails: its status, and how many operations before it succeeded. -/
def processOperations (metadata : TransactionMetadata) (sourceAccountIdx : Nat) :
    Nat → List Operation → HandlerState M V →
      Result (TransactionProcessingStatus × Nat × HandlerState M V)
  | i, [], s => .ok (.SUCCESS, i, s)
  | i, op :: ops, s => do
    let (status, s) ← processOperation (.at metadata sourceAccountIdx i) op s
    if status ≠ .SUCCESS then return (status, i, s)
    else processOperations metadata sourceAccountIdx (i + 1) ops s

end Operations

/-- `check_tx_format_parameters`. -/
def checkTxFormatParameters (tx : Transaction) : Bool :=
  tx.metadata.sequenceNumber &&& reservedSequenceNumLowbits = 0

/-- `fee_required`. -/
def feeRequired (txOpCount : Nat) : Nat := baseFeePerTx + feePerOp * txOpCount

/-- The accounts that operation `i` of a transaction modifies, other than its source. -/
def logOperation (metadata : TransactionMetadata) (log : ModificationTrie) (i : Nat)
    (op : Operation) : ModificationTrie :=
  let opSeqNumber := metadata.sequenceNumber + .ofNat i
  match op with
  | .CREATE_ACCOUNT op =>
    log.logOtherModification metadata.sourceAccount opSeqNumber op.newAccountId
  | .PAYMENT op => log.logOtherModification metadata.sourceAccount opSeqNumber op.receiver
  | .CREATE_SELL_OFFER _ | .CANCEL_SELL_OFFER _ | .MONEY_PRINTER _ => log

/-- `log_modified_accounts`. -/
def logModifiedAccounts (tx : SignedTransaction) (log : ModificationTrie) : ModificationTrie :=
  tx.transaction.operations.zipIdx.foldl
    (fun log op => logOperation tx.transaction.metadata log op.2 op.1) (log.logNewSelfTransaction tx)

end Speedex
