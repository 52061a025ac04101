import Speedex.Lib.BigEndian

/-! The XDR encoding: big-endian words, padded to a multiple of four bytes, and lists with their
length in front. -/

namespace Lib.Xdr

variable {α : Type}

def uint32 (n : UInt32) : List Byte := bytesBE 4 n.toNat

def uint64 (n : UInt64) : List Byte := bytesBE 8 n.toNat

def int32 (n : Int32) : List Byte := uint32 n.toUInt32

def int64 (n : Int64) : List Byte := uint64 n.toUInt64

/-- `w` bytes, without padding where `w` is a multiple of four. -/
def fixed (w : Nat) {n : Nat} (bits : BitVec n) : List Byte := bytesBE w bits.toNat

/-- `size32`. -/
def size32 (n : Nat) : UInt32 := .ofNat n

/-- A variable-length array. -/
def vector (encode : α → List Byte) (values : List α) : List Byte :=
  uint32 (size32 values.length) ++ values.flatMap encode

@[simp] theorem length_uint32 (n : UInt32) : (uint32 n).length = 4 := length_bytesBE 4 _

@[simp] theorem length_uint64 (n : UInt64) : (uint64 n).length = 8 := length_bytesBE 8 _

@[simp] theorem length_int32 (n : Int32) : (int32 n).length = 4 := length_uint32 _

@[simp] theorem length_int64 (n : Int64) : (int64 n).length = 8 := length_uint64 _

@[simp] theorem length_fixed (w : Nat) {n : Nat} (bits : BitVec n) : (fixed w bits).length = w :=
  length_bytesBE w _

theorem length_flatMap (encode : α → List Byte) (values : List α) :
    (values.flatMap encode).length = (values.map fun v => (encode v).length).sum := by
  rw [List.length_flatMap]

/-- An array of elements of one length. -/
theorem length_flatMap_const {encode : α → List Byte} {w : Nat} (h : ∀ v, (encode v).length = w)
    (values : List α) : (values.flatMap encode).length = w * values.length := by
  rw [length_flatMap, List.map_congr_left fun v _ => h v, List.map_const', List.sum_replicate,
    smul_eq_mul, Nat.mul_comm]

theorem length_vector (encode : α → List Byte) (values : List α) :
    (vector encode values).length = 4 + (values.map fun v => (encode v).length).sum := by
  rw [vector, List.length_append, length_uint32, length_flatMap]

/-- An encoder of elements with its decoder, which leaves what follows the element. -/
structure Codec (α : Type) where
  encode : α → List Byte
  decode : List Byte → Option (α × List Byte)
  four_dvd_length : ∀ v, 4 ∣ (encode v).length
  decode_encode : ∀ v rest, decode (encode v ++ rest) = some (v, rest)

namespace Codec

variable (codec : Codec α)

/-- The next `n` elements. -/
def decodeElements : Nat → List Byte → Option (List α × List Byte)
  | 0, bytes => some ([], bytes)
  | n + 1, bytes =>
    (codec.decode bytes).bind fun a => (decodeElements n a.2).map fun b => (a.1 :: b.1, b.2)

/-- A variable-length array, which has to take up all bytes. -/
def decodeVector (bytes : List Byte) : Option (List α) :=
  if bytes.length < 4 then none
  else (codec.decodeElements (ofBytesBE (bytes.take 4)) (bytes.drop 4)).bind fun b =>
    if b.2 = [] then some b.1 else none

theorem decodeElements_flatMap (values : List α) (rest : List Byte) :
    codec.decodeElements values.length (values.flatMap codec.encode ++ rest) = some (values, rest) := by
  induction values with
  | nil => rfl
  | cons v values ih =>
    rw [List.length_cons, decodeElements, List.flatMap_cons, List.append_assoc, codec.decode_encode,
      Option.bind_some, ih]
    rfl

/-- Arrays of the lengths that the format has room for are read back. -/
theorem decodeVector_vector {values : List α} (h : values.length < 2 ^ 32) :
    codec.decodeVector (vector codec.encode values) = some values := by
  have hcount : ofBytesBE (uint32 (size32 values.length)) = values.length := by
    rw [uint32, ofBytesBE_bytesBE, size32, UInt32.toNat_ofNat']
    omega
  have htake : (vector codec.encode values).take 4 = uint32 (size32 values.length) :=
    List.take_left' (length_uint32 _)
  have hdrop : (vector codec.encode values).drop 4 = values.flatMap codec.encode :=
    List.drop_left' (length_uint32 _)
  have helements := codec.decodeElements_flatMap values []
  rw [List.append_nil] at helements
  rw [decodeVector, if_neg (by rw [length_vector]; omega), htake, hdrop, hcount, helements]
  rfl

/-- The words themselves. -/
def words : Codec UInt64 where
  encode := uint64
  decode bytes :=
    if bytes.length < 8 then none else some (.ofNat (ofBytesBE (bytes.take 8)), bytes.drop 8)
  four_dvd_length v := by
    rw [length_uint64]
    decide
  decode_encode v rest := by
    have hword : UInt64.ofNat (ofBytesBE (uint64 v)) = v := by
      rw [uint64, ofBytesBE_bytesBE, Nat.mod_eq_of_lt (v.toNat_lt.trans_eq (by decide))]
      exact UInt64.ofNat_toNat
    rw [if_neg (by simp), List.take_left' (length_uint64 v), List.drop_left' (length_uint64 v), hword]

end Codec

end Lib.Xdr
