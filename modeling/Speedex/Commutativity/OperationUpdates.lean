import Speedex.Commutativity.Updates

/-! Operations and transactions as updates.  Which updates a transaction stands for depends on the
block's accounts, on the contents of its orderbooks and on the header, but not on what other
transactions of the block have done. -/

namespace Speedex

open Lib

/-! ### What the updates of a transaction depend on -/

/-- What no transaction of a block changes. -/
structure BlockContext where
  ids : SortedMap AccountID Nat
  publicKeys : List PublicKey
  numAssets : Nat
  /-- the committed offers of the orderbooks, without their marks -/
  offers : List (SortedMap OfferKey Offer)
  checker : OrderbookStateCommitmentChecker

namespace BlockContext

def lookupUser (ctx : BlockContext) (v : AccountCreationView) (account : AccountID) :
    Option AccountPtr :=
  match ctx.ids.find? account with
  | some idx => some (.main idx)
  | none => if (v.newAccounts.map (·.1)).contains account then some (.fresh account) else none

end BlockContext

/-- The updates that an operation stands for, and the accounts that the transaction has created. -/
abbrev Footprint := List Update × AccountCreationView

namespace AccountCreationView

/-- A credit to an account of the database is an update.  One to an account that the transaction
created stays in the view. -/
def credit (v : AccountCreationView) (target : AccountPtr) (asset : AssetID) (amount : Int64) :
    Footprint :=
  match target with
  | .main idx => ([.transfer idx asset amount], v)
  | .fresh id => ([], v.modifyNewAccount id (·.transferAvailable asset amount))

/-- The view with a new account. -/
def addAccount (v : AccountCreationView) (account : AccountID) (pk : PublicKey) :
    AccountCreationView :=
  { v with newAccounts := (account, .new account pk) :: v.newAccounts }

end AccountCreationView

section Operations

variable (ctx : BlockContext) (metadata : OperationMetadata) (v : AccountCreationView)

def createAccountUpdates (op : CreateAccountOp) : Option Footprint :=
  if op.startingBalance < createAccountMinStartingBalance then none
  else if ctx.ids.contains op.newAccountId then none
  else if !isValidAmount op.startingBalance then none
  else
    let (credits, v) := (v.addAccount op.newAccountId op.newAccountPublicKey).credit
      (.fresh op.newAccountId) MemoryDatabase.nativeAsset op.startingBalance
    some ([.reserveId op.newAccountId,
      .transfer metadata.sourceAccountIdx MemoryDatabase.nativeAsset (-op.startingBalance)] ++
        credits, v)

/-- The statistics have room for an orderbook. -/
def Produced.touch (idx : Nat) : Produced := ⟨0, 0, idx + 1, 0⟩

/-- A new offer that stays on the books. -/
def Produced.kept (idx : Nat) (offer : Offer) : Produced :=
  ⟨Pi.single idx {(offer.key, ⟨offer, false, true⟩)}, 0, 0, 0⟩

/-- A new offer that is cleared at once. -/
def Produced.cleared (idx : Nat) (offer : Offer) (buyAmount : Int64) : Produced :=
  ⟨0, Pi.single idx (.fromIntegral (widenUInt64 offer.amount)), 0, {⟨offer, offer.amount, buyAmount⟩}⟩

/-- What a serial validator does with a new offer. -/
def newOfferUpdates (idx : Nat) (offer : Offer) : Option (List Update) := do
  let commitment ← ctx.checker.commitments[idx]?
  if commitment.thresholdKeyIsNull ≠ 1 ∧ commitment.partialExecThresholdKey ≤ offer.key then
    return [.produce (.touch idx), .produce (.kept idx offer)]
  else
    let sellPrice ← ctx.checker.prices[offer.category.sellAsset.toNat]?
    let buyPrice ← ctx.checker.prices[offer.category.buyAsset.toNat]?
    let buyAmount ← (fullBuyAmount offer sellPrice buyPrice ctx.checker.taxRate).toOption
    return [.produce (.touch idx),
      .transfer metadata.sourceAccountIdx offer.category.buyAsset buyAmount,
      .log metadata.txMetadata.sourceAccount (0, {metadata.operationId}, 0),
      .produce (.cleared idx offer buyAmount)]

def createSellOfferUpdates (op : CreateSellOfferOp) : Option Footprint :=
  if !validateCategory op.category ctx.numAssets then none
  else if !Price.isValidPrice op.minPrice then none
  else if !isValidAmount op.amount then none
  else do
    let idx ← (categoryToIdx op.category ctx.numAssets).toOption
    let updates ← newOfferUpdates ctx metadata idx (makeOffer op metadata)
    return (updates ++ [.transfer metadata.sourceAccountIdx op.category.sellAsset (-op.amount)], v)

def cancelSellOfferUpdates (op : CancelSellOfferOp) : Option Footprint := do
  let idx ← (categoryToIdx op.category ctx.numAssets).toOption
  let key := generateOrderbookTrieKey op.minPrice metadata.txMetadata.sourceAccount op.offerId
  let offers ← ctx.offers[idx]?
  let offer ← offers.find? key
  return ([.mark idx key,
    .transfer metadata.sourceAccountIdx op.category.sellAsset (-(-offer.amount).toInt64)], v)

def paymentUpdates (op : PaymentOp) : Option Footprint :=
  if !isValidAmount op.amount then none
  else do
    let target ← ctx.lookupUser v op.receiver
    let (credits, v) := v.credit target op.asset op.amount
    return (.transfer metadata.sourceAccountIdx op.asset (-op.amount) :: credits, v)

def moneyPrinterUpdates (op : MoneyPrinterOp) : Option Footprint :=
  if op.amount < 0 then none
  else some ([.transfer metadata.sourceAccountIdx op.asset op.amount], v)

/-- The updates of an operation; none if it is invalid whatever the other transactions do. -/
def operationUpdates : Operation → Option Footprint
  | .CREATE_ACCOUNT op => createAccountUpdates ctx metadata v op
  | .CREATE_SELL_OFFER op => createSellOfferUpdates ctx metadata v op
  | .CANCEL_SELL_OFFER op => cancelSellOfferUpdates ctx metadata v op
  | .PAYMENT op => paymentUpdates ctx metadata v op
  | .MONEY_PRINTER op => moneyPrinterUpdates metadata v op

end Operations

def operationsUpdates (ctx : BlockContext) (metadata : TransactionMetadata) (sourceIdx : Nat) :
    Nat → List Operation → AccountCreationView → Option Footprint
  | _, [], v => some ([], v)
  | i, op :: ops, v => do
    let (updates, v) ← operationUpdates ctx (.at metadata sourceIdx i) v op
    let (later, v) ← operationsUpdates ctx metadata sourceIdx (i + 1) ops v
    return (updates ++ later, v)

/-- What operation `i` writes to the log of another account. -/
def operationLogUpdates (metadata : TransactionMetadata) (op : Operation × Nat) : List Update :=
  let id : TxIdentifier := ⟨metadata.sourceAccount, metadata.sequenceNumber + .ofNat op.2⟩
  match op.1 with
  | .CREATE_ACCOUNT create => [.log create.newAccountId (0, 0, {id})]
  | .PAYMENT payment => [.log payment.receiver (0, 0, {id})]
  | .CREATE_SELL_OFFER _ | .CANCEL_SELL_OFFER _ | .MONEY_PRINTER _ => []

def logUpdates (tx : SignedTransaction) : List Update :=
  .log tx.transaction.metadata.sourceAccount ({tx}, 0, 0) ::
    tx.transaction.operations.zipIdx.flatMap (operationLogUpdates tx.transaction.metadata)

/-- The updates of a transaction; none if it is invalid whatever the other transactions do. -/
def transactionUpdates (config : SignatureConfig) (ctx : BlockContext)
    (signedTx : SignedTransaction) : Option (List Update) :=
  let tx := signedTx.transaction
  let feeReq := feeRequired tx.operations.length
  if !checkTxFormatParameters tx then none
  else do
    let sourceIdx ← ctx.ids.find? tx.metadata.sourceAccount
    if feeReq > tx.maxFee.toNat then none
    else
      let pk ← ctx.publicKeys[sourceIdx]?
      if config.checkSigs && !config.sigCheck tx signedTx.signature pk then none
      else
        let seqno := tx.metadata.sequenceNumber
        let (updates, v) ←
          operationsUpdates ctx tx.metadata sourceIdx 0 tx.operations ⟨[], [⟨sourceIdx, seqno⟩]⟩
        return [.reserve sourceIdx seqno,
          .transfer sourceIdx MemoryDatabase.nativeAsset (-.ofNat feeReq)] ++ updates ++
            v.newAccounts.map (fun a => .create a.2) ++ logUpdates signedTx

end Speedex
