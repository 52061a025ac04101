import Speedex.Lib.BigEndian
import Speedex.Lib.SortedMap

/-! The data that SPEEDEX exchanges (`xdr/types.x`, `xdr/transaction.x`, `xdr/block.x`,
`xdr/database_commitments.x`): offers and their keys, transactions, block headers and account
commitments. -/

namespace Speedex

open Lib

instance linearOrderUInt64 : LinearOrder UInt64 where
  le_refl := UInt64.le_refl
  le_trans _ _ _ := UInt64.le_trans
  lt_iff_le_not_ge a b := by rw [UInt64.not_le]; exact ⟨fun h => ⟨UInt64.le_of_lt h, h⟩, And.right⟩
  le_antisymm _ _ := UInt64.le_antisymm
  le_total := UInt64.le_total
  toDecidableLE := fun _ _ => inferInstance
  toDecidableLT := fun _ _ => inferInstance
  toDecidableEq := inferInstance

instance linearOrderUInt32 : LinearOrder UInt32 where
  le_refl := UInt32.le_refl
  le_trans _ _ _ := UInt32.le_trans
  lt_iff_le_not_ge a b := by rw [UInt32.not_le]; exact ⟨fun h => ⟨UInt32.le_of_lt h, h⟩, And.right⟩
  le_antisymm _ _ := UInt32.le_antisymm
  le_total := UInt32.le_total
  toDecidableLE := fun _ _ => inferInstance
  toDecidableLT := fun _ _ => inferInstance
  toDecidableEq := inferInstance

abbrev AccountID := UInt64
abbrev AssetID := UInt32

/-- A price is read as `price / 2^24`. -/
abbrev Price := UInt64

abbrev Hash := BitVec 256
abbrev PublicKey := BitVec 256
abbrev Signature := BitVec 512

/-- How a function of the source can end other than by returning. -/
inductive Fault where
  /-- a C++ exception, with its message -/
  | runtimeError (message : String)
  /-- an integer division by zero -/
  | divisionByZero
  /-- a shift by at least the width of the shifted value -/
  | shiftOutOfRange
  /-- an access beyond the end of a vector -/
  | indexOutOfRange
  /-- a loop that does not end -/
  | nontermination
deriving DecidableEq, Repr

abbrev Result (α : Type) := Except Fault α

/-! ### Offers -/

/-- The C++ enum has one enumerator, but a decoded value can carry any code. -/
inductive OfferType where
  | SELL
  | invalid (code : Int32)
deriving DecidableEq, Repr

structure OfferCategory where
  sellAsset : AssetID
  buyAsset : AssetID
  type : OfferType
deriving DecidableEq, Repr

structure Offer where
  category : OfferCategory
  /-- the operation number (sequence number + lowbits idx) that created this offer -/
  offerId : UInt64
  owner : AccountID
  amount : UInt64
  minPrice : Price
deriving DecidableEq, Repr

/-- A default-constructed offer. -/
instance : Inhabited Offer := ⟨⟨⟨0, 0, .SELL⟩, 0, 0, 0, 0⟩⟩

/-- An `OfferKeyType` or `OrderbookTriePrefix`: 22 bytes. -/
structure OfferKey where
  bytes : List Byte
  length_eq : bytes.length = 22
deriving DecidableEq

namespace OfferKey

theorem bytes_injective : Function.Injective bytes := by
  rintro ⟨a, _⟩ ⟨b, _⟩ h
  cases h
  rfl

/-- Keys are compared byte by byte, as by `memcmp`. -/
instance : LinearOrder OfferKey := LinearOrder.lift' bytes bytes_injective

/-- The number that the key writes. -/
def toNat (k : OfferKey) : Nat := ofBytesBE k.bytes

theorem lt_iff {a b : OfferKey} : a < b ↔ a.toNat < b.toNat :=
  lt_iff_ofBytesBE_lt (a.length_eq.trans b.length_eq.symm)

theorem le_iff {a b : OfferKey} : a ≤ b ↔ a.toNat ≤ b.toNat := by
  rw [← not_lt, lt_iff, Nat.not_lt]

/-- The key of all zeros: a prefix when it is default-constructed or cleared. -/
def zero : OfferKey := ⟨List.replicate 22 Byte.zero, List.length_replicate⟩

/-- The key of all ones (`set_max`). -/
def max : OfferKey := ⟨List.replicate 22 Byte.ones, List.length_replicate⟩

instance : Inhabited OfferKey := ⟨zero⟩

theorem toNat_lt (k : OfferKey) : k.toNat < 256 ^ 22 := k.length_eq ▸ ofBytesBE_lt k.bytes

theorem toNat_max : max.toNat = 256 ^ 22 - 1 := by decide

theorem toNat_zero : zero.toNat = 0 := by decide

theorem le_max (k : OfferKey) : k ≤ max := by
  have := k.toNat_lt
  rw [le_iff, toNat_max]
  omega

theorem zero_le (k : OfferKey) : zero ≤ k := by
  rw [le_iff, toNat_zero]
  exact Nat.zero_le _

end OfferKey

/-- `generate_orderbook_trie_key` from a price, an owner and an id. -/
def generateOrderbookTrieKey (minPrice : Price) (owner : AccountID) (offerId : UInt64) :
    OfferKey :=
  ⟨bytesBE 6 minPrice.toNat ++ bytesBE 8 owner.toNat ++ bytesBE 8 offerId.toNat, by simp⟩

/-- `generate_orderbook_trie_key` of an offer. -/
def Offer.key (offer : Offer) : OfferKey :=
  generateOrderbookTrieKey offer.minPrice offer.owner offer.offerId

/-! ### Transactions -/

inductive TransactionProcessingStatus where
  | SUCCESS
  | SOURCE_ACCOUNT_NEXIST
  | INVALID_OPERATION_TYPE
  | SEQ_NUM_TOO_LOW
  | SEQ_NUM_TOO_HIGH
  | SEQ_NUM_TEMP_IN_USE
  | STARTING_BALANCE_TOO_LOW
  | NEW_ACCOUNT_ALREADY_EXISTS
  | NEW_ACCOUNT_TEMP_RESERVED
  | INSUFFICIENT_BALANCE
  | INVALID_TX_FORMAT
  | INVALID_OFFER_CATEGORY
  | INVALID_PRICE
  | CANCEL_OFFER_TARGET_NEXIST
  | RECIPIENT_ACCOUNT_NEXIST
  | INVALID_PRINT_MONEY_AMOUNT
  | INVALID_AMOUNT
  | BAD_SIGNATURE
  | FEE_BID_TOO_LOW
deriving DecidableEq, Repr

structure CreateAccountOp where
  startingBalance : Int64
  newAccountId : AccountID
  newAccountPublicKey : PublicKey
deriving DecidableEq

structure CreateSellOfferOp where
  category : OfferCategory
  amount : Int64
  minPrice : Price
deriving DecidableEq

structure CancelSellOfferOp where
  category : OfferCategory
  offerId : UInt64
  minPrice : Price
deriving DecidableEq

structure PaymentOp where
  receiver : AccountID
  asset : AssetID
  amount : Int64
deriving DecidableEq

structure MoneyPrinterOp where
  asset : AssetID
  amount : Int64
deriving DecidableEq

/-- The body of an operation.  Decoding rejects any other discriminant. -/
inductive Operation where
  | CREATE_ACCOUNT (op : CreateAccountOp)
  | CREATE_SELL_OFFER (op : CreateSellOfferOp)
  | CANCEL_SELL_OFFER (op : CancelSellOfferOp)
  | PAYMENT (op : PaymentOp)
  | MONEY_PRINTER (op : MoneyPrinterOp)
deriving DecidableEq

def maxOpsPerTx : Nat := 256
def reservedSequenceNumLowbits : UInt64 := 255
def baseFeePerTx : Nat := 10
def feePerOp : Nat := 5
def createAccountMinStartingBalance : Int64 := 100

structure TransactionMetadata where
  sourceAccount : AccountID
  sequenceNumber : UInt64
deriving DecidableEq

structure Transaction where
  metadata : TransactionMetadata
  operations : List Operation
  operations_le : operations.length ≤ maxOpsPerTx
  maxFee : UInt32
deriving DecidableEq

structure SignedTransaction where
  transaction : Transaction
  signature : Signature
deriving DecidableEq

namespace SignedTransaction

def source (tx : SignedTransaction) : AccountID := tx.transaction.metadata.sourceAccount

def sequenceNumber (tx : SignedTransaction) : UInt64 := tx.transaction.metadata.sequenceNumber

end SignedTransaction

/-! ### Blocks and commitments -/

/-- The two supplies are 16 opaque bytes, read as big-endian 128-bit fixed-point values. -/
structure SingleOrderbookStateCommitment where
  rootHash : Hash
  fractionalSupplyActivated : BitVec 128
  partialExecThresholdKey : OfferKey
  thresholdKeyIsNull : Int32
  partialExecOfferActivationAmount : BitVec 128
deriving DecidableEq

instance : Inhabited SingleOrderbookStateCommitment := ⟨⟨0, 0, .zero, 0, 0⟩⟩

abbrev OrderbookStateCommitment := List SingleOrderbookStateCommitment

structure InternalHashes where
  dbHash : Hash
  clearingDetails : OrderbookStateCommitment
  modificationLogHash : Hash
  blockMapHash : Hash
deriving DecidableEq

structure Block where
  prevBlockHash : Hash
  blockNumber : UInt64
  prices : List Price
  feeRate : UInt32
  internalHashes : InternalHashes
deriving DecidableEq

structure HashedBlock where
  block : Block
  hash : Hash
deriving DecidableEq

structure AssetCommitment where
  asset : AssetID
  amountAvailable : UInt64
deriving DecidableEq

structure AccountCommitment where
  owner : AccountID
  assets : List AssetCommitment
  lastCommittedId : UInt64
  pk : PublicKey
deriving DecidableEq

structure TxIdentifier where
  owner : AccountID
  sequenceNumber : UInt64
deriving DecidableEq

end Speedex
