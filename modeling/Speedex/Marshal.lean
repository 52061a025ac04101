import Speedex.Lib.Xdr
import Speedex.Types

/-! The XDR encodings of transactions (`xdr/types.x`, `xdr/transaction.x`,
`xdr/database_commitments.x`). -/

namespace Speedex

open Lib Lib.Xdr

def OfferType.xdr : OfferType → List Byte
  | SELL => int32 0
  | invalid code => int32 code

def OfferCategory.xdr (c : OfferCategory) : List Byte :=
  uint32 c.sellAsset ++ uint32 c.buyAsset ++ c.type.xdr

def CreateAccountOp.xdr (op : CreateAccountOp) : List Byte :=
  int64 op.startingBalance ++ uint64 op.newAccountId ++ fixed 32 op.newAccountPublicKey

def CreateSellOfferOp.xdr (op : CreateSellOfferOp) : List Byte :=
  op.category.xdr ++ int64 op.amount ++ uint64 op.minPrice

def CancelSellOfferOp.xdr (op : CancelSellOfferOp) : List Byte :=
  op.category.xdr ++ uint64 op.offerId ++ uint64 op.minPrice

def PaymentOp.xdr (op : PaymentOp) : List Byte :=
  uint64 op.receiver ++ uint32 op.asset ++ int64 op.amount

def MoneyPrinterOp.xdr (op : MoneyPrinterOp) : List Byte := uint32 op.asset ++ int64 op.amount

/-- The `OperationType` stands in front of the body. -/
def Operation.xdr : Operation → List Byte
  | CREATE_ACCOUNT op => int32 0 ++ op.xdr
  | CREATE_SELL_OFFER op => int32 1 ++ op.xdr
  | CANCEL_SELL_OFFER op => int32 2 ++ op.xdr
  | PAYMENT op => int32 3 ++ op.xdr
  | MONEY_PRINTER op => int32 4 ++ op.xdr

def TransactionMetadata.xdr (m : TransactionMetadata) : List Byte :=
  uint64 m.sourceAccount ++ uint64 m.sequenceNumber

def Transaction.xdr (tx : Transaction) : List Byte :=
  tx.metadata.xdr ++ vector Operation.xdr tx.operations ++ uint32 tx.maxFee

def SignedTransaction.xdr (tx : SignedTransaction) : List Byte :=
  tx.transaction.xdr ++ fixed 64 tx.signature

def TxIdentifier.xdr (id : TxIdentifier) : List Byte := uint64 id.owner ++ uint64 id.sequenceNumber

theorem TxIdentifier.length_xdr (id : TxIdentifier) : id.xdr.length = 16 := by
  simp [TxIdentifier.xdr]

end Speedex
