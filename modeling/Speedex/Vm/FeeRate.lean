import Speedex.Vm.InPlace
import Speedex.Orderbook.Rounding

/-! The tax that a validated block charges.  The header's fee rate is checked with 32 bits and
applied with 8, of which a shift takes 7. -/

namespace Speedex

open Lib

namespace ManagementStructures

variable {hashes : Hashes} {m : ManagementStructures} {prevBlock nextBlock : HashedBlock}
  {choices : Choices} {outcome : ValidationOutcome}

end ManagementStructures

/-! ### The bound -/

/-- An offer of 1000 units of an asset for another, by account 7. -/
def offerOf (sellAsset buyAsset : AssetID) (offerId : UInt64) : Offer :=
  ⟨⟨sellAsset, buyAsset, .SELL⟩, offerId, 7, 1000, 1⟩

/-- The orderbook of one offer. -/
def bookOf (offer : Offer) : Orderbook :=
  ⟨offer.category, OrderbookTrie.insertOffer ∅ offer.key offer, ∅, ⟨[], ∅, 0⟩, []⟩

/-- An account with two opposite offers, under a tax of at most `2^-9`. -/
def twoOfferStructures : ManagementStructures where
  db := ⟨[⟨[⟨0, 0⟩, ⟨0, 0⟩], [], ⟨0, 0⟩, 7, 0⟩], (∅ : SortedMap AccountID Nat).insert 7 0, [], ∅,
    (∅ : SortedMap AccountID AccountCommitment).insert 7 ⟨7, [⟨0, 0⟩, ⟨1, 0⟩], 0, 0⟩, [], 0⟩
  orderbookManager := ⟨[bookOf (offerOf 0 1 256), bookOf (offerOf 1 0 257)], 2⟩
  accountModificationLog := .empty
  blockMapHash := 0
  taxRate := 10
  config := ⟨false, fun _ _ _ => true⟩

/-- Block 1, which executes both offers, with this fee rate. -/
def twoOfferBlock (feeRate : UInt32) : HashedBlock where
  block := ⟨0, 1, [1, 1], feeRate,
    ⟨0, [⟨0, 1000 * 2 ^ 10, .zero, 1, 0⟩, ⟨0, 1000 * 2 ^ 10, .zero, 1, 0⟩], 0, 0⟩⟩
  hash := 0

open SpeedexVm (nullHashes noTransactions)

end Speedex
