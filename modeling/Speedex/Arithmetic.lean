import Speedex.Types

/-! Fixed-point amounts (`utils/fixed_point_value.h`) and prices (`utils/price.h`).  A
`FractionalAsset` is an unsigned 128-bit value with 10 bits below the point, and its arithmetic
wraps. -/

namespace Speedex

/-- The count of a shift of a 128-bit value.  The language leaves counts of 128 and more undefined,
and the compiled shift takes them modulo 128. -/
def shiftCount (count : UInt8) : Nat := count.toNat % 128

/-- `FixedPrecision<10, unsigned __int128>`. -/
structure FractionalAsset where
  value : BitVec 128
deriving DecidableEq

namespace FractionalAsset

instance : Inhabited FractionalAsset := ⟨⟨0⟩⟩

def radix : Nat := 10

/-- Interpret a value as fixed point. -/
def fromRaw (value : BitVec 128) : FractionalAsset := ⟨value⟩

/-- Construct from an integer. -/
def fromIntegral (value : BitVec 128) : FractionalAsset := ⟨value <<< radix⟩

instance : Add FractionalAsset := ⟨fun a b => ⟨a.value + b.value⟩⟩
instance : Sub FractionalAsset := ⟨fun a b => ⟨a.value - b.value⟩⟩

def floor (a : FractionalAsset) : BitVec 128 := a.value >>> radix

def getLowbitsMask (queryRadix : Nat) : BitVec 128 := (1 : BitVec 128) <<< queryRadix - 1

def ceil (a : FractionalAsset) : BitVec 128 :=
  a.floor + if a.value &&& getLowbitsMask radix ≠ 0 then 1 else 0

/-- Impose the multiplicative tax `2^-taxRate`, rounded up, and round the rest down to an
integer. -/
def taxAndRound (a : FractionalAsset) (taxRate : UInt8) : Result (BitVec 128) :=
  let taxLowbitsMask := getLowbitsMask (shiftCount taxRate)
  let tax := a.value >>> shiftCount taxRate
  let tax := if a.value &&& taxLowbitsMask ≠ 0 then tax + 1 else tax
  .ok ((a.value - tax) >>> radix)

end FractionalAsset

namespace Price

def radix : Nat := 24

def maxPrice : Price := 2 ^ 48 - 1

/-- `is_valid_price`. -/
def isValidPrice (price : Price) : Bool := price ≤ maxPrice && price ≠ 0

/-- Decide if `a / b < c`.  Neither side reaches `2^128`. -/
def aOverBLtC (a b c : Price) : Bool := a.toNat <<< radix < b.toNat * c.toNat

/-- `round_up_price_times_amount`, which narrows the result to 64 bits. -/
def roundUpPriceTimesAmount (pTimesAmount : Nat) : UInt64 :=
  if pTimesAmount % 2 ^ radix ≠ 0 then .ofNat (pTimesAmount >>> radix + 1)
  else .ofNat (pTimesAmount >>> radix)

/-- Multiply a value by `a / b`.  The products wrap. -/
def wideMultiplyValByAOverB (value : BitVec 128) (a b : Price) : Result (BitVec 128) :=
  if b = 0 then .error .divisionByZero
  else
    let denom := b.toBitVec.setWidth 128
    let numer := a.toBitVec.setWidth 128
    let modulo := value / denom * numer
    let remainder := value % denom * numer / denom
    .ok (modulo + remainder)

end Price

/-- `read_price_big_endian`. -/
def readPriceBigEndian (key : OfferKey) : Nat := Lib.ofBytesBE (key.bytes.take 6)

/-- An unsigned 128-bit value passed where an `int64_t` is expected. -/
def narrowToInt64 (value : BitVec 128) : Int64 := .ofBitVec (value.setWidth 64)

/-- An `int64_t` passed where an unsigned 128-bit value is expected. -/
def widenInt64 (value : Int64) : BitVec 128 := value.toBitVec.signExtend 128

/-- A `uint64_t` passed where an unsigned 128-bit value is expected. -/
def widenUInt64 (value : UInt64) : BitVec 128 := value.toBitVec.setWidth 128

/-! ### Values as numbers -/

theorem Price.isValidPrice_iff {price : Price} :
    price.isValidPrice = true ↔ 0 < price.toNat ∧ price.toNat < 2 ^ 48 := by
  have hmax : maxPrice.toNat = 2 ^ 48 - 1 := by decide
  rw [isValidPrice, Bool.and_eq_true, decide_eq_true_eq, decide_eq_true_eq, UInt64.le_iff_toNat_le,
    hmax, ne_eq, ← UInt64.toNat_inj, UInt64.toNat_zero]
  omega

theorem key_toNat (offer : Offer) :
    offer.key.toNat = offer.minPrice.toNat % 2 ^ 48 * 2 ^ 128 + offer.owner.toNat * 2 ^ 64 +
      offer.offerId.toNat := by
  have ho := offer.owner.toNat_lt
  have hi := offer.offerId.toNat_lt
  simp only [Offer.key, generateOrderbookTrieKey, OfferKey.toNat, Lib.ofBytesBE_append,
    Lib.ofBytesBE_bytesBE, Lib.length_bytesBE]
  rw [Nat.mod_eq_of_lt (a := offer.owner.toNat) (by omega),
    Nat.mod_eq_of_lt (a := offer.offerId.toNat) (by omega)]
  omega

theorem readPriceBigEndian_eq (key : OfferKey) : readPriceBigEndian key = key.toNat / 2 ^ 128 := by
  have hsplit : key.bytes = key.bytes.take 6 ++ key.bytes.drop 6 :=
    (List.take_append_drop 6 key.bytes).symm
  have hlen : (key.bytes.drop 6).length = 16 := by simp [key.length_eq]
  have hlt := Lib.ofBytesBE_lt (key.bytes.drop 6)
  rw [hlen] at hlt
  rw [readPriceBigEndian, OfferKey.toNat]
  conv_rhs => rw [hsplit, Lib.ofBytesBE_append, hlen]
  omega

end Speedex
