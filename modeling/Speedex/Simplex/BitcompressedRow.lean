import Speedex.Lib.SortedMap
import Speedex.Lib.WordBits
import Speedex.Simplex.Tableau

/-! Rows with the entries -1, 0 and 1, in two bits each (`simplex/bitcompressed_row.cc`): 01 is 1,
10 is -1 and 00 is 0.  Thirty-two entries are added with one addition; it has no carries, as no
entry leaves its range. -/

namespace Speedex

open Lib

/-! ### Words -/

def smearConstant : UInt64 := 0x5555555555555555

/-- `normalize`: an entry with both bits becomes 0. -/
def normalize (base : UInt64) : UInt64 :=
  let adjust := ((base &&& (smearConstant <<< 1)) >>> 1) ^^^ (base &&& smearConstant)
  let adjust := adjust ||| (adjust <<< 1)
  base &&& adjust

def addBitwise (base value : UInt64) : UInt64 := normalize (base + value)

/-- Entry number `i` of a word is `t`. -/
structure WordEntry (w : UInt64) (i : Nat) (t : Int) : Prop where
  pos : bit w (2 * i) = decide (t = 1)
  neg : bit w (2 * i + 1) = decide (t = -1)
  range : -1 ≤ t ∧ t ≤ 1

section Words

variable {v w : UInt64} {i : Nat} {s t : Int}

theorem bit_smearConstant {k : Nat} (hk : k < 64) : bit smearConstant k = decide (k % 2 = 0) := by
  have h : ∀ k : Fin 64, bit smearConstant k.val = decide (k.val % 2 = 0) := by decide
  exact h ⟨k, hk⟩

theorem bit_smearConstant_shift {k : Nat} (hk : k < 64) :
    bit (smearConstant <<< 1) k = decide (k % 2 = 1) := by
  have h : ∀ k : Fin 64, bit (smearConstant <<< 1) k.val = decide (k.val % 2 = 1) := by decide
  exact h ⟨k, hk⟩

/-- The bits that `normalize` keeps, before they are spread to both bits of an entry. -/
theorem bit_adjust (w : UInt64) {k : Nat} (hk : k < 64) :
    bit (((w &&& (smearConstant <<< 1)) >>> 1) ^^^ (w &&& smearConstant)) k =
      (decide (k % 2 = 0) && (bit w (k + 1) ^^ bit w k)) := by
  rw [bit_xor, bit_shiftRight _ (by decide), bit_and, bit_and, bit_smearConstant hk, UInt64.toNat_one,
    Nat.add_comm 1 k]
  rcases Nat.lt_or_ge (k + 1) 64 with hlt | hge
  · rw [bit_smearConstant_shift hlt]
    rcases Nat.mod_two_eq_zero_or_one k with hmod | hmod
    · simp [hmod, show (k + 1) % 2 = 1 by omega]
    · simp [hmod, show (k + 1) % 2 = 0 by omega]
  · obtain rfl : k = 63 := by omega
    have hnone : ∀ u : UInt64, bit u 64 = false := by
      intro u
      by_contra h
      exact absurd (lt_of_bit (by simpa using h)) (by decide)
    simp [hnone]

theorem bit_normalize_pos (w : UInt64) (hi : i < 32) :
    bit (normalize w) (2 * i) = (bit w (2 * i) && !bit w (2 * i + 1)) := by
  rw [normalize, bit_and, bit_or, bit_shiftLeft _ (by decide), bit_adjust w (by omega),
    bit_adjust w (by omega), UInt64.toNat_one, decide_eq_true (show 2 * i % 2 = 0 by omega)]
  have hprev : 1 ≤ 2 * i → (2 * i - 1) % 2 ≠ 0 := by omega
  cases bit w (2 * i) <;> cases bit w (2 * i + 1) <;> simp
  omega

theorem bit_normalize_neg (w : UInt64) (hi : i < 32) :
    bit (normalize w) (2 * i + 1) = (bit w (2 * i + 1) && !bit w (2 * i)) := by
  rw [normalize, bit_and, bit_or, bit_shiftLeft _ (by decide), bit_adjust w (by omega),
    bit_adjust w (by omega), UInt64.toNat_one, Nat.add_sub_cancel,
    decide_eq_true (show 2 * i % 2 = 0 by omega),
    decide_eq_false (show ¬ (2 * i + 1) % 2 = 0 by omega), decide_eq_true (show 1 ≤ 2 * i + 1 by omega),
    decide_eq_true (show 2 * i + 1 < 64 by omega)]
  cases bit w (2 * i) <;> cases bit w (2 * i + 1) <;> rfl

theorem WordEntry.of_zero (i : Nat) : WordEntry 0 i 0 := ⟨bit_zero _, bit_zero _, by omega⟩

/-- An entry has one encoding. -/
theorem WordEntry.unique (h : WordEntry w i s) (h' : WordEntry w i t) : s = t := by
  have hpos := h.pos.symm.trans h'.pos
  have hneg := h.neg.symm.trans h'.neg
  have hrange := h.range
  have hrange' := h'.range
  rw [decide_eq_decide] at hpos hneg
  omega

/-- The sum of two entries, where it is an entry again. -/
theorem WordEntry.normalize_or (h : WordEntry v i s) (h' : WordEntry w i t) (hi : i < 32)
    (hsum : -1 ≤ s + t ∧ s + t ≤ 1) : WordEntry (normalize (v ||| w)) i (s + t) := by
  have hrange := h.range
  have hrange' := h'.range
  refine ⟨?_, ?_, hsum⟩
  · rw [bit_normalize_pos _ hi, bit_or, bit_or, h.pos, h.neg, h'.pos, h'.neg, Bool.eq_iff_iff]
    simp only [Bool.and_eq_true, Bool.or_eq_true, Bool.not_eq_true', Bool.or_eq_false_iff,
      decide_eq_true_eq, decide_eq_false_iff_not]
    omega
  · rw [bit_normalize_neg _ hi, bit_or, bit_or, h.pos, h.neg, h'.pos, h'.neg, Bool.eq_iff_iff]
    simp only [Bool.and_eq_true, Bool.or_eq_true, Bool.not_eq_true', Bool.or_eq_false_iff,
      decide_eq_true_eq, decide_eq_false_iff_not]
    omega

theorem WordEntry.normalize_not (h : WordEntry w i t) (hi : i < 32) : WordEntry (normalize (~~~w)) i (-t) := by
  have hrange := h.range
  refine ⟨?_, ?_, by omega⟩
  · rw [bit_normalize_pos _ hi, bit_not _ (by omega), bit_not _ (by omega), h.pos, h.neg,
      Bool.eq_iff_iff]
    simp only [Bool.and_eq_true, Bool.not_not, Bool.not_eq_true', decide_eq_true_eq,
      decide_eq_false_iff_not]
    omega
  · rw [bit_normalize_neg _ hi, bit_not _ (by omega), bit_not _ (by omega), h.pos, h.neg,
      Bool.eq_iff_iff]
    simp only [Bool.and_eq_true, Bool.not_not, Bool.not_eq_true', decide_eq_true_eq,
      decide_eq_false_iff_not]
    omega

/-- The entries of a word. -/
def WordEntries (w : UInt64) (f : Nat → Int) : Prop := ∀ i < 32, WordEntry w i (f i)

variable {f g : Nat → Int}

theorem WordEntries.of_zero : WordEntries 0 fun _ => 0 := fun i _ => .of_zero i

/-- Thirty-two sums at once: where both words have the same bit set, an entry would leave its
range. -/
theorem WordEntries.addBitwise (h : WordEntries v f) (h' : WordEntries w g)
    (hsum : ∀ i < 32, -1 ≤ f i + g i ∧ f i + g i ≤ 1) :
    WordEntries (addBitwise v w) fun i => f i + g i := by
  have hdisjoint : ∀ k, bit v k = true → bit w k = false := by
    intro k hv
    have hk := lt_of_bit hv
    have hi : k / 2 < 32 := by omega
    have hs := hsum (k / 2) hi
    rw [← Bool.not_eq_true]
    intro hw
    rcases Nat.mod_two_eq_zero_or_one k with hmod | hmod
    · rw [show k = 2 * (k / 2) by omega] at hv hw
      rw [(h _ hi).pos, decide_eq_true_eq] at hv
      rw [(h' _ hi).pos, decide_eq_true_eq] at hw
      omega
    · rw [show k = 2 * (k / 2) + 1 by omega] at hv hw
      rw [(h _ hi).neg, decide_eq_true_eq] at hv
      rw [(h' _ hi).neg, decide_eq_true_eq] at hw
      omega
  intro i hi
  rw [Speedex.addBitwise, add_eq_or hdisjoint]
  exact (h i hi).normalize_or (h' i hi) hi (hsum i hi)

theorem WordEntries.negate (h : WordEntries w f) : WordEntries (normalize (~~~w)) fun i => -f i :=
  fun i hi => (h i hi).normalize_not hi

/-- The value of the two bits of entry `offset`. -/
def readBits (word : UInt64) (offset : UInt16) : UInt64 :=
  (((3 : UInt64) <<< (2 * offset).toUInt64) &&& word) >>> (2 * offset).toUInt64

/-- The last line of `operator[]`. -/
def decodeBits (idxVal : UInt64) : Int8 := if idxVal = 0 then 0 else if idxVal = 1 then 1 else -1

/-- `one_bit` of `set_pos`. -/
def oneBit (offset : UInt16) : UInt64 := 1 <<< (2 * offset).toUInt64

/-- `neg_bit` of `set_neg`. -/
def negBit (offset : UInt16) : UInt64 := 1 <<< (2 * offset + 1).toUInt64

variable {offset : UInt16}

theorem toNat_shift (ho : offset.toNat < 32) : (2 * offset).toUInt64.toNat = 2 * offset.toNat := by
  rw [UInt16.toNat_toUInt64, UInt16.toNat_mul, show (2 : UInt16).toNat = 2 from rfl,
    Nat.mod_eq_of_lt (by omega)]

theorem toNat_shift_succ (ho : offset.toNat < 32) :
    (2 * offset + 1).toUInt64.toNat = 2 * offset.toNat + 1 := by
  rw [UInt16.toNat_toUInt64, UInt16.toNat_add, UInt16.toNat_mul, show (2 : UInt16).toNat = 2 from rfl,
    show (1 : UInt16).toNat = 1 from rfl, Nat.mod_eq_of_lt (a := 2 * _) (by omega),
    Nat.mod_eq_of_lt (by omega)]

theorem bit_readBits (ho : offset.toNat < 32) (k : Nat) :
    bit (readBits w offset) k = (decide (k < 2) && bit w (2 * offset.toNat + k)) := by
  have hshift := toNat_shift ho
  have hthree : ∀ k, bit 3 k = decide (k < 2) := by
    intro k
    rcases Nat.lt_or_ge k 64 with hlt | hge
    · have h : ∀ k : Fin 64, bit 3 k.val = decide (k.val < 2) := by decide
      exact h ⟨k, hlt⟩
    · rw [decide_eq_false (by omega)]
      by_contra h
      have hlt := lt_of_bit (by simpa using h)
      omega
  rw [readBits, bit_shiftRight _ (by omega), bit_and, bit_shiftLeft _ (by omega), hthree, hshift,
    Nat.add_sub_cancel_left, decide_eq_true (show 2 * offset.toNat ≤ 2 * offset.toNat + k by omega)]
  rcases Nat.lt_or_ge (2 * offset.toNat + k) 64 with hlt | hge
  · rw [decide_eq_true hlt, Bool.true_and, Bool.true_and]
  · have hnone : bit w (2 * offset.toNat + k) = false := by
      by_contra h
      have hlt := lt_of_bit (by simpa using h)
      omega
    rw [hnone, Bool.and_false, Bool.and_false]

/-- `operator[]` reads the entry. -/
theorem WordEntry.decode (h : WordEntry w offset.toNat t) (ho : offset.toNat < 32) :
    (decodeBits (readBits w offset)).toInt = t := by
  have hzero : readBits w offset = 0 ↔ t = 0 := by
    have hrange := h.range
    constructor
    · intro heq
      have hpos := @bit_readBits w _ ho 0
      have hneg := @bit_readBits w _ ho 1
      rw [heq, bit_zero, Nat.add_zero, h.pos, decide_eq_true (by omega), Bool.true_and] at hpos
      rw [heq, bit_zero, h.neg, decide_eq_true (by omega), Bool.true_and] at hneg
      have hpos' := of_decide_eq_false hpos.symm
      have hneg' := of_decide_eq_false hneg.symm
      omega
    · intro heq
      apply eq_zero_of_bits
      intro k
      rw [bit_readBits ho]
      obtain rfl | rfl | hk : k = 0 ∨ k = 1 ∨ 2 ≤ k := by omega
      · rw [Nat.add_zero, h.pos, heq]
        rfl
      · rw [h.neg, heq]
        rfl
      · rw [decide_eq_false (by omega), Bool.false_and]
  have hone : readBits w offset = 1 ↔ t = 1 := by
    have hbit : ∀ k, bit 1 k = decide (k = 0) := by
      intro k
      rw [show (1 : UInt64) = 1 <<< (0 : UInt64) from rfl, bit_mask (by decide), decide_eq_decide]
      exact eq_comm
    constructor
    · intro heq
      have hpos := @bit_readBits w _ ho 0
      rw [heq, hbit, Nat.add_zero, h.pos] at hpos
      exact of_decide_eq_true hpos.symm
    · intro heq
      apply ext_bits
      intro k
      rw [bit_readBits ho, hbit]
      obtain rfl | rfl | hk : k = 0 ∨ k = 1 ∨ 2 ≤ k := by omega
      · rw [Nat.add_zero, h.pos, heq]
        rfl
      · rw [h.neg, heq]
        rfl
      · rw [decide_eq_false (by omega), Bool.false_and, decide_eq_false (by omega)]
  have hrange := h.range
  rw [decodeBits]
  split_ifs with h0 h1
  · exact (hzero.mp h0).symm
  · exact (hone.mp h1).symm
  · rw [hzero] at h0
    rw [hone] at h1
    rw [show (-1 : Int8).toInt = -1 from rfl]
    omega

theorem bit_oneBit (ho : offset.toNat < 32) (k : Nat) :
    bit (oneBit offset) k = decide (2 * offset.toNat = k) := by
  have hshift := toNat_shift ho
  rw [oneBit, bit_mask (by omega), hshift]

theorem bit_negBit (ho : offset.toNat < 32) (k : Nat) :
    bit (negBit offset) k = decide (2 * offset.toNat + 1 = k) := by
  have hshift := toNat_shift_succ ho
  rw [negBit, bit_mask (by omega), hshift]

/-- An entry that is 0 is set with a mask of its bits. -/
theorem WordEntries.set {mask : UInt64} {n : Nat} (h : WordEntries w f) (hzero : f n = 0)
    (hpos : ∀ i, bit mask (2 * i) = decide (n = i ∧ t = 1))
    (hneg : ∀ i, bit mask (2 * i + 1) = decide (n = i ∧ t = -1)) (ht : -1 ≤ t ∧ t ≤ 1) :
    WordEntries (w ||| mask) (Function.update f n t) := by
  intro i hi
  have hfield := h i hi
  rcases eq_or_ne i n with rfl | hne
  · rw [hzero] at hfield
    rw [Function.update_self]
    refine ⟨?_, ?_, ht⟩
    · rw [bit_or, hfield.pos, hpos]
      simp
    · rw [bit_or, hfield.neg, hneg]
      simp
  · rw [Function.update_of_ne hne]
    refine ⟨?_, ?_, hfield.range⟩
    · rw [bit_or, hpos, decide_eq_false (fun h => hne h.1.symm), Bool.or_false, hfield.pos]
    · rw [bit_or, hneg, decide_eq_false (fun h => hne h.1.symm), Bool.or_false, hfield.neg]

/-- `set_pos` on an entry that is 0. -/
theorem WordEntries.setPos (h : WordEntries w f) (ho : offset.toNat < 32) (hzero : f offset.toNat = 0) :
    WordEntries (w ||| oneBit offset) (Function.update f offset.toNat 1) := by
  refine h.set hzero (fun i => ?_) (fun i => ?_) (by omega)
  · rw [bit_oneBit ho, decide_eq_decide]
    omega
  · rw [bit_oneBit ho, decide_eq_decide]
    omega

/-- `set_neg` on an entry that is 0. -/
theorem WordEntries.setNeg (h : WordEntries w f) (ho : offset.toNat < 32) (hzero : f offset.toNat = 0) :
    WordEntries (w ||| negBit offset) (Function.update f offset.toNat (-1)) := by
  refine h.set hzero (fun i => ?_) (fun i => ?_) (by omega)
  · rw [bit_negBit ho, decide_eq_decide]
    omega
  · rw [bit_negBit ho, decide_eq_decide]
    omega

end Words

/-! ### Rows -/

/-- `num_words` words in a vector, and an `__int128`. -/
structure BitcompressedRow where
  matrixEntries : List UInt64
  rowValue : BitVec 128
deriving DecidableEq

namespace BitcompressedRow

/-- `num_words`, in 16 bits. -/
def numWords (numCols : UInt64) : UInt16 :=
  (if numCols % 32 = 0 then numCols / 32 else 1 + numCols / 32).toUInt16

def new (numCols : UInt64) : BitcompressedRow := ⟨List.replicate (numWords numCols).toNat 0, 0⟩

/-- The loop of `operator+=`. -/
def addWords : List UInt64 → List UInt64 → Result (List UInt64)
  | [], _ => .ok []
  | _ :: _, [] => .error .indexOutOfRange
  | base :: data, value :: otherData => do
    let rest ← addWords data otherData
    return addBitwise base value :: rest

/-- `operator+=`. -/
def add (row other : BitcompressedRow) : Result BitcompressedRow := do
  let matrixEntries ← addWords row.matrixEntries other.matrixEntries
  return ⟨matrixEntries, row.rowValue + other.rowValue⟩

def negate (row : BitcompressedRow) : BitcompressedRow :=
  ⟨row.matrixEntries.map fun word => normalize (~~~word), row.rowValue * -1⟩

/-- `matrix_entries[word_idx] |= mask`. -/
def orWord (row : BitcompressedRow) (wordIdx : UInt16) (mask : UInt64) : Result BitcompressedRow :=
  match row.matrixEntries[wordIdx.toNat]? with
  | none => .error .indexOutOfRange
  | some word =>
    .ok { row with matrixEntries := row.matrixEntries.set wordIdx.toNat (word ||| mask) }

def setPos (row : BitcompressedRow) (idx : UInt16) : Result BitcompressedRow :=
  row.orWord (idx / 32) (oneBit (idx % 32))

def setNeg (row : BitcompressedRow) (idx : UInt16) : Result BitcompressedRow :=
  row.orWord (idx / 32) (negBit (idx % 32))

def setValue (row : BitcompressedRow) (value : BitVec 128) : BitcompressedRow :=
  { row with rowValue := value }

/-- `operator[]`. -/
def get (row : BitcompressedRow) (idx : UInt64) : Result Int8 :=
  match row.matrixEntries[(idx / 32).toUInt16.toNat]? with
  | none => .error .indexOutOfRange
  | some word => .ok (decodeBits (readBits word (idx % 32).toUInt16))

end BitcompressedRow

/-- The words with a nonzero entry, and some others. -/
structure SparseRow where
  entries : SortedMap UInt16 UInt64
  rowValue : BitVec 128

namespace SparseRow

def new : SparseRow := ⟨∅, 0⟩

/-- `entries[word_idx]`: a word that is not there is 0. -/
def word (entries : SortedMap UInt16 UInt64) (wordIdx : UInt16) : UInt64 :=
  (entries.find? wordIdx).getD 0

/-- The loop of `operator+=`. -/
def addWords (entries : SortedMap UInt16 UInt64) (otherEntries : List (UInt16 × UInt64)) :
    SortedMap UInt16 UInt64 :=
  otherEntries.foldl (fun entries kv =>
    entries.insert kv.1 (addBitwise (word entries kv.1) kv.2)) entries

/-- `operator+=`. -/
def add (row other : SparseRow) : SparseRow :=
  ⟨addWords row.entries other.entries.entries, row.rowValue + other.rowValue⟩

def negate (row : SparseRow) : SparseRow :=
  ⟨row.entries.map fun _ word => normalize (~~~word), row.rowValue * -1⟩

/-- `entries[word_idx] |= mask`. -/
def orWord (row : SparseRow) (wordIdx : UInt16) (mask : UInt64) : SparseRow :=
  { row with entries := row.entries.insert wordIdx (word row.entries wordIdx ||| mask) }

def setPos (row : SparseRow) (idx : UInt16) : SparseRow := row.orWord (idx / 32) (oneBit (idx % 32))

def setNeg (row : SparseRow) (idx : UInt16) : SparseRow := row.orWord (idx / 32) (negBit (idx % 32))

def setValue (row : SparseRow) (value : BitVec 128) : SparseRow := { row with rowValue := value }

/-- `operator[]`. -/
def get (row : SparseRow) (idx : UInt64) : Int8 :=
  match row.entries.find? (idx / 32).toUInt16 with
  | none => 0
  | some word => decodeBits (readBits word (idx % 32).toUInt16)

end SparseRow

/-! ### What a row holds -/

/-- How a row is built.  The right side of `add` is a row that was built before. -/
inductive RowBuild where
  | new
  | setPos (row : RowBuild) (idx : UInt16)
  | setNeg (row : RowBuild) (idx : UInt16)
  | setValue (row : RowBuild) (value : BitVec 128)
  | negate (row : RowBuild)
  | add (row other : RowBuild)

namespace RowBuild

/-- The entries. -/
def entries : RowBuild → Nat → Int
  | new => fun _ => 0
  | setPos row idx => Function.update row.entries idx.toNat 1
  | setNeg row idx => Function.update row.entries idx.toNat (-1)
  | setValue row _ => row.entries
  | negate row => fun j => -row.entries j
  | add row other => fun j => row.entries j + other.entries j

/-- The value. -/
def value : RowBuild → Int
  | new => 0
  | setPos row _ => row.value
  | setNeg row _ => row.value
  | setValue _ value => value.toInt
  | negate row => -row.value
  | add row other => row.value + other.value

/-- Columns are set within the row and while their entry is 0, and sums stay in range. -/
def InRange (numCols : UInt64) : RowBuild → Prop
  | new => True
  | setPos row idx => row.InRange numCols ∧ idx.toNat < numCols.toNat ∧ row.entries idx.toNat = 0
  | setNeg row idx => row.InRange numCols ∧ idx.toNat < numCols.toNat ∧ row.entries idx.toNat = 0
  | setValue row _ => row.InRange numCols
  | negate row => row.InRange numCols
  | add row other => row.InRange numCols ∧ other.InRange numCols ∧
      ∀ j, -1 ≤ row.entries j + other.entries j ∧ row.entries j + other.entries j ≤ 1

/-- The operations on a `BitcompressedRow`. -/
def build (numCols : UInt64) : RowBuild → Result BitcompressedRow
  | new => .ok (.new numCols)
  | setPos row idx => do (← row.build numCols).setPos idx
  | setNeg row idx => do (← row.build numCols).setNeg idx
  | setValue row value => do return (← row.build numCols).setValue value
  | negate row => do return (← row.build numCols).negate
  | add row other => do (← row.build numCols).add (← other.build numCols)

/-- The operations on a `SparseRow`. -/
def buildSparse : RowBuild → SparseRow
  | new => .new
  | setPos row idx => row.buildSparse.setPos idx
  | setNeg row idx => row.buildSparse.setNeg idx
  | setValue row value => row.buildSparse.setValue value
  | negate row => row.buildSparse.negate
  | add row other => row.buildSparse.add other.buildSparse

end RowBuild

/-! ### The operations -/

/-- The first `n` words of a row hold the entries `f`, thirty-two each. -/
def WordsHold (n : Nat) (word : Nat → UInt64) (f : Nat → Int) : Prop :=
  ∀ k < n, WordEntries (word k) fun i => f (32 * k + i)

section Operations

variable {n : Nat} {word other : Nat → UInt64} {f g : Nat → Int} {idx : UInt16}

theorem WordsHold.congr (h : WordsHold n word f) (hother : ∀ k < n, other k = word k) :
    WordsHold n other f := fun k hk => by
  rw [hother k hk]
  exact h k hk

theorem toNat_idx (idx : UInt16) :
    (idx / 32).toNat = idx.toNat / 32 ∧ (idx % 32).toNat = idx.toNat % 32 :=
  ⟨UInt16.toNat_div .., UInt16.toNat_mod ..⟩

/-- A column is in one word: the other words and the other entries of its word stay. -/
theorem WordsHold.update (h : WordsHold n word f) {t : Int} {w : UInt64} (j : Nat)
    (hw : WordEntries w (Function.update (fun i => f (32 * (j / 32) + i)) (j % 32) t)) :
    WordsHold n (Function.update word (j / 32) w) (Function.update f j t) := by
  intro k hk i hi
  beta_reduce
  rcases eq_or_ne k (j / 32) with rfl | hne
  · rw [Function.update_self]
    have hentry := hw i hi
    rcases eq_or_ne i (j % 32) with rfl | hi'
    · rw [Function.update_self] at hentry
      rw [Nat.div_add_mod, Function.update_self]
      exact hentry
    · rw [Function.update_of_ne hi'] at hentry
      rw [Function.update_of_ne (by omega)]
      exact hentry
  · rw [Function.update_of_ne hne, Function.update_of_ne (by omega)]
    exact h k hk i hi

theorem WordsHold.setPos (h : WordsHold n word f) (hn : (idx / 32).toNat < n)
    (hzero : f idx.toNat = 0) :
    WordsHold n (Function.update word (idx / 32).toNat
      (word (idx / 32).toNat ||| oneBit (idx % 32))) (Function.update f idx.toNat 1) := by
  obtain ⟨hdiv, hmod⟩ := toNat_idx idx
  rw [hdiv] at hn ⊢
  refine h.update idx.toNat ?_
  rw [← hmod]
  refine (h (idx.toNat / 32) hn).setPos (by omega) ?_
  rw [hmod, Nat.div_add_mod]
  exact hzero

theorem WordsHold.setNeg (h : WordsHold n word f) (hn : (idx / 32).toNat < n)
    (hzero : f idx.toNat = 0) :
    WordsHold n (Function.update word (idx / 32).toNat
      (word (idx / 32).toNat ||| negBit (idx % 32))) (Function.update f idx.toNat (-1)) := by
  obtain ⟨hdiv, hmod⟩ := toNat_idx idx
  rw [hdiv] at hn ⊢
  refine h.update idx.toNat ?_
  rw [← hmod]
  refine (h (idx.toNat / 32) hn).setNeg (by omega) ?_
  rw [hmod, Nat.div_add_mod]
  exact hzero

theorem WordsHold.add (h : WordsHold n word f) (h' : WordsHold n other g)
    (hsum : ∀ j, -1 ≤ f j + g j ∧ f j + g j ≤ 1) :
    WordsHold n (fun k => addBitwise (word k) (other k)) fun j => f j + g j :=
  fun k hk => (h k hk).addBitwise (h' k hk) fun i _ => hsum (32 * k + i)

theorem WordsHold.negate (h : WordsHold n word f) :
    WordsHold n (fun k => normalize (~~~word k)) fun j => -f j := fun k hk => (h k hk).negate

/-- `operator[]` of a column with a 16-bit word index. -/
theorem WordsHold.get (h : WordsHold n word f) {j : UInt64} (hj : j.toNat / 32 < n)
    (hn : n ≤ 2 ^ 16) : (j / 32).toUInt16.toNat = j.toNat / 32 ∧
      (decodeBits (readBits (word (j.toNat / 32)) (j % 32).toUInt16)).toInt = f j.toNat := by
  have hdiv : (j / 32).toUInt16.toNat = j.toNat / 32 := by
    rw [UInt64.toNat_toUInt16, UInt64.toNat_div, show (32 : UInt64).toNat = 32 from rfl,
      Nat.mod_eq_of_lt (by omega)]
  have hmod : (j % 32).toUInt16.toNat = j.toNat % 32 := by
    rw [UInt64.toNat_toUInt16, UInt64.toNat_mod, show (32 : UInt64).toNat = 32 from rfl,
      Nat.mod_eq_of_lt (by omega)]
  have hentry := h (j.toNat / 32) hj (j % 32).toUInt16.toNat (by omega)
  refine ⟨hdiv, (hentry.decode (by omega)).trans ?_⟩
  beta_reduce
  rw [hmod, Nat.div_add_mod]

end Operations

/-! ### Both kinds of rows -/

theorem ofInt_mul_neg_one (t : Int) : BitVec.ofInt 128 t * -1 = BitVec.ofInt 128 (-t) := by
  rw [BitVec.mul_neg, BitVec.ofInt_neg]
  exact congrArg Neg.neg (BitVec.mul_one _)

namespace BitcompressedRow

variable {numCols : UInt64} {row other : BitcompressedRow} {f g : Nat → Int} {s t : Int}
  {idx : UInt16}

/-- The row has the entries `f` and the value `t`. -/
structure Holds (numCols : UInt64) (row : BitcompressedRow) (f : Nat → Int) (t : Int) : Prop where
  length : row.matrixEntries.length = (numWords numCols).toNat
  words : WordsHold (numWords numCols).toNat (row.matrixEntries.getD · 0) f
  value : row.rowValue = BitVec.ofInt 128 t

theorem numWords_eq (h : numCols.toNat ≤ 32 * 65535) :
    (numWords numCols).toNat = (numCols.toNat + 31) / 32 := by
  have hmod : (numCols % 32 = 0) ↔ numCols.toNat % 32 = 0 := by
    rw [← UInt64.toNat_inj, UInt64.toNat_mod]
    rfl
  rw [numWords, UInt64.toNat_toUInt16]
  split_ifs with hzero
  · rw [hmod] at hzero
    rw [UInt64.toNat_div, show (32 : UInt64).toNat = 32 from rfl]
    omega
  · rw [hmod] at hzero
    rw [UInt64.toNat_add, UInt64.toNat_div, show (32 : UInt64).toNat = 32 from rfl, UInt64.toNat_one]
    omega

theorem holds_new (numCols : UInt64) : (new numCols).Holds numCols (fun _ => 0) 0 := by
  refine ⟨List.length_replicate, fun k _ => ?_, rfl⟩
  have hzero : (new numCols).matrixEntries.getD k 0 = 0 := by
    rw [List.getD_eq_getElem?_getD, new, List.getElem?_replicate]
    split
    · rfl
    · rfl
  beta_reduce
  rw [hzero]
  exact .of_zero

theorem getD_set {data : List UInt64} {k : Nat} (hk : k < data.length) (w : UInt64) (k' : Nat) :
    (data.set k w).getD k' 0 = Function.update (data.getD · 0) k w k' := by
  rcases eq_or_ne k' k with rfl | hne
  · rw [Function.update_self, List.getD_eq_getElem?_getD, List.getElem?_set_self hk,
      Option.getD_some]
  · rw [Function.update_of_ne hne, List.getD_eq_getElem?_getD, List.getElem?_set_ne hne.symm,
      List.getD_eq_getElem?_getD]

theorem orWord_eq {k : UInt16} (hk : k.toNat < row.matrixEntries.length) (mask : UInt64) :
    row.orWord k mask = .ok { row with
      matrixEntries := row.matrixEntries.set k.toNat (row.matrixEntries.getD k.toNat 0 ||| mask) } := by
  have hword : row.matrixEntries[k.toNat]? = some (row.matrixEntries.getD k.toNat 0) := by
    rw [List.getD_eq_getElem?_getD, List.getElem?_eq_getElem hk, Option.getD_some]
  rw [orWord, hword]

theorem Holds.setPos (h : row.Holds numCols f t) (hidx : (idx / 32).toNat < (numWords numCols).toNat)
    (hzero : f idx.toNat = 0) :
    ∃ row', row.setPos idx = .ok row' ∧
      row'.Holds numCols (Function.update f idx.toNat 1) t := by
  have hk : (idx / 32).toNat < row.matrixEntries.length := by rwa [h.length]
  refine ⟨_, orWord_eq hk _, List.length_set.trans h.length, ?_, h.value⟩
  exact (h.words.setPos hidx hzero).congr fun k _ => getD_set hk _ k

theorem Holds.setNeg (h : row.Holds numCols f t) (hidx : (idx / 32).toNat < (numWords numCols).toNat)
    (hzero : f idx.toNat = 0) :
    ∃ row', row.setNeg idx = .ok row' ∧
      row'.Holds numCols (Function.update f idx.toNat (-1)) t := by
  have hk : (idx / 32).toNat < row.matrixEntries.length := by rwa [h.length]
  refine ⟨_, orWord_eq hk _, List.length_set.trans h.length, ?_, h.value⟩
  exact (h.words.setNeg hidx hzero).congr fun k _ => getD_set hk _ k

theorem Holds.negate (h : row.Holds numCols f t) :
    row.negate.Holds numCols (fun j => -f j) (-t) := by
  refine ⟨List.length_map _ |>.trans h.length, ?_, ?_⟩
  · refine h.words.negate.congr fun k hk => ?_
    rw [← h.length] at hk
    rw [BitcompressedRow.negate, List.getD_eq_getElem?_getD, List.getD_eq_getElem?_getD,
      List.getElem?_map, List.getElem?_eq_getElem hk]
    rfl
  · rw [BitcompressedRow.negate, h.value, ofInt_mul_neg_one]

theorem Holds.get (h : row.Holds numCols f t) {j : UInt64}
    (hj : j.toNat / 32 < (numWords numCols).toNat) :
    ∃ entry, row.get j = .ok entry ∧ entry.toInt = f j.toNat := by
  have hlt := (numWords numCols).toNat_lt
  obtain ⟨hdiv, hget⟩ := h.words.get hj (by omega)
  have hword : row.matrixEntries[j.toNat / 32]? = some (row.matrixEntries.getD (j.toNat / 32) 0) := by
    rw [List.getD_eq_getElem?_getD, List.getElem?_eq_getElem (by rwa [h.length]), Option.getD_some]
  exact ⟨_, by rw [BitcompressedRow.get, hdiv, hword], hget⟩

/-- The words are added one by one. -/
theorem addWords_eq {data otherData : List UInt64} (h : data.length ≤ otherData.length) :
    ∃ sums, addWords data otherData = .ok sums ∧ sums.length = data.length ∧
      ∀ k < data.length, sums.getD k 0 = addBitwise (data.getD k 0) (otherData.getD k 0) := by
  induction data generalizing otherData with
  | nil => exact ⟨[], rfl, rfl, fun k hk => absurd hk (Nat.not_lt_zero k)⟩
  | cons base data ih =>
    cases otherData with
    | nil => exact absurd h (Nat.not_succ_le_zero _)
    | cons value otherData =>
      obtain ⟨sums, hsums, hlength, hget⟩ := ih (Nat.le_of_succ_le_succ h)
      refine ⟨addBitwise base value :: sums, ?_, by simp [hlength], fun k hk => ?_⟩
      · rw [addWords, hsums]
        rfl
      · cases k with
        | zero => rfl
        | succ k => exact hget k (Nat.lt_of_succ_lt_succ hk)

theorem Holds.add (h : row.Holds numCols f s) (h' : other.Holds numCols g t)
    (hsum : ∀ j, -1 ≤ f j + g j ∧ f j + g j ≤ 1) :
    ∃ row', row.add other = .ok row' ∧ row'.Holds numCols (fun j => f j + g j) (s + t) := by
  obtain ⟨sums, hsums, hlength, hget⟩ :=
    @addWords_eq row.matrixEntries other.matrixEntries (by rw [h.length, h'.length])
  refine ⟨_, by rw [BitcompressedRow.add, hsums]; rfl, hlength.trans h.length, ?_, ?_⟩
  · refine (h.words.add h'.words hsum).congr fun k hk => hget k ?_
    rwa [h.length]
  · rw [h.value, h'.value, BitVec.ofInt_add]

end BitcompressedRow

namespace SparseRow

variable {row other : SparseRow} {f g : Nat → Int} {s t : Int} {idx : UInt16}

/-- The row has the entries `f` and the value `t`. -/
structure Holds (row : SparseRow) (f : Nat → Int) (t : Int) : Prop where
  words : WordsHold (2 ^ 16) (fun k => word row.entries (.ofNat k)) f
  value : row.rowValue = BitVec.ofInt 128 t

theorem holds_new : new.Holds (fun _ => 0) 0 := ⟨fun _ _ => .of_zero, rfl⟩

theorem word_insert {entries : SortedMap UInt16 UInt64} {wordIdx : UInt16} (w : UInt64) {k : Nat}
    (hk : k < 2 ^ 16) : word (entries.insert wordIdx w) (.ofNat k) =
      Function.update (fun k => word entries (.ofNat k)) wordIdx.toNat w k := by
  have hofNat : (UInt16.ofNat k).toNat = k := UInt16.toNat_ofNat_of_lt' hk
  rw [word, SortedMap.find?_insert]
  split_ifs with heq
  · rw [show k = wordIdx.toNat by rw [← hofNat]; exact congrArg UInt16.toNat heq.symm,
      Function.update_self, Option.getD_some]
  · rw [Function.update_of_ne, word]
    rintro rfl
    exact heq (UInt16.ofNat_toNat).symm

theorem setWord_holds {f' : Nat → Int} (h : row.Holds f t) {mask : UInt64}
    (hwords : WordsHold (2 ^ 16) (Function.update (fun k => word row.entries (.ofNat k))
      (idx / 32).toNat (word row.entries (.ofNat (idx / 32).toNat) ||| mask)) f') :
    (row.orWord (idx / 32) mask).Holds f' t := by
  rw [UInt16.ofNat_toNat] at hwords
  exact ⟨hwords.congr fun k hk => word_insert _ hk, h.value⟩

theorem Holds.setPos (h : row.Holds f t) (hzero : f idx.toNat = 0) :
    (row.setPos idx).Holds (Function.update f idx.toNat 1) t :=
  setWord_holds h (h.words.setPos (idx / 32).toNat_lt hzero)

theorem Holds.setNeg (h : row.Holds f t) (hzero : f idx.toNat = 0) :
    (row.setNeg idx).Holds (Function.update f idx.toNat (-1)) t :=
  setWord_holds h (h.words.setNeg (idx / 32).toNat_lt hzero)

theorem Holds.negate (h : row.Holds f t) : row.negate.Holds (fun j => -f j) (-t) := by
  refine ⟨fun k hk => ?_, ?_⟩
  · beta_reduce
    have hword := h.words.negate k hk
    rw [SparseRow.negate, word, SortedMap.find?_map]
    simp only [word] at hword
    cases hfind : row.entries.find? (.ofNat k) with
    | none =>
      rw [hfind] at hword
      have hzero : normalize (~~~(none : Option UInt64).getD 0) = 0 := by decide
      rw [hzero] at hword
      exact hword
    | some w =>
      rw [hfind] at hword
      exact hword
  · rw [SparseRow.negate, h.value, ofInt_mul_neg_one]

/-- The loop of `operator+=` adds each word of the other row, once. -/
theorem find?_addWords (entries : SortedMap UInt16 UInt64) {otherEntries : List (UInt16 × UInt64)}
    (hnodup : (otherEntries.map (·.1)).Nodup) (k : UInt16) :
    (addWords entries otherEntries).find? k =
      match SortedMap.lookup k otherEntries with
      | none => entries.find? k
      | some data => some (addBitwise (word entries k) data) := by
  induction otherEntries generalizing entries with
  | nil => rfl
  | cons kv rest ih =>
    rw [List.map_cons, List.nodup_cons] at hnodup
    rw [addWords, List.foldl_cons, ← addWords, ih _ hnodup.2, SortedMap.lookup]
    split_ifs with heq
    · have hnone : SortedMap.lookup k rest = none := by
        rw [Option.eq_none_iff_forall_ne_some]
        intro data hdata
        exact hnodup.1 (List.mem_map.mpr ⟨_, SortedMap.mem_of_lookup hdata, heq.symm⟩)
      rw [hnone, heq]
      exact SortedMap.find?_insert_self ..
    · have hfind : (entries.insert kv.1 (addBitwise (word entries kv.1) kv.2)).find? k =
          entries.find? k := SortedMap.find?_insert_ne heq ..
      have hword : word (entries.insert kv.1 (addBitwise (word entries kv.1) kv.2)) k =
          word entries k := by rw [word, hfind, ← word]
      rw [hfind, hword]

theorem Holds.add (h : row.Holds f s) (h' : other.Holds g t)
    (hsum : ∀ j, -1 ≤ f j + g j ∧ f j + g j ≤ 1) :
    (row.add other).Holds (fun j => f j + g j) (s + t) := by
  refine ⟨fun k hk => ?_, ?_⟩
  · beta_reduce
    have hword := h.words.add h'.words hsum k hk
    have hother := h'.words k hk
    rw [SparseRow.add, word, find?_addWords _ other.entries.nodup_keys]
    change WordEntries (Option.getD (match other.entries.find? (.ofNat k) with
      | none => row.entries.find? (.ofNat k)
      | some data => some (addBitwise (word row.entries (.ofNat k)) data)) 0) _
    simp only [word] at hother hword
    cases hfind : other.entries.find? (.ofNat k) with
    | none =>
      -- the other row has no entries here, so the word that stays holds the sums
      rw [hfind] at hother
      intro i hi
      have hzero := (WordEntry.of_zero i).unique (hother i hi)
      have hentry := h.words k hk i hi
      beta_reduce at hzero hentry ⊢
      rw [← hzero, add_zero]
      exact hentry
    | some data =>
      rw [hfind] at hword
      exact hword
  · rw [SparseRow.add, h.value, h'.value, BitVec.ofInt_add]

/-- `operator[]` of a word that is not there is that of 0. -/
theorem get_eq (row : SparseRow) (j : UInt64) : row.get j =
    decodeBits (readBits (word row.entries (j / 32).toUInt16) (j % 32).toUInt16) := by
  rw [get, word]
  cases row.entries.find? (j / 32).toUInt16 with
  | none =>
    rw [Option.getD_none, readBits, UInt64.and_zero, UInt64.zero_shiftRight]
    rfl
  | some w => rfl

theorem Holds.get (h : row.Holds f t) {j : UInt64} (hj : j.toNat / 32 < 2 ^ 16) :
    (row.get j).toInt = f j.toNat := by
  obtain ⟨hdiv, hget⟩ := h.words.get hj le_rfl
  rw [get_eq, ← @UInt16.ofNat_toNat (j / 32).toUInt16, hdiv]
  exact hget

end SparseRow

/-! ### Rows that are built -/

namespace RowBuild

variable {numCols : UInt64} {e : RowBuild}

/-- The padding of the last word is 0. -/
theorem entries_padding (h : e.InRange numCols) {j : Nat} (hj : numCols.toNat ≤ j) :
    e.entries j = 0 := by
  induction e with
  | new => rfl
  | setPos row idx ih =>
    have hlt := h.2.1
    exact (Function.update_of_ne (by omega) ..).trans (ih h.1)
  | setNeg row idx ih =>
    have hlt := h.2.1
    exact (Function.update_of_ne (by omega) ..).trans (ih h.1)
  | setValue row value ih => exact ih h
  | negate row ih =>
    rw [entries]
    beta_reduce
    rw [ih h, neg_zero]
  | add row other ih ih' =>
    rw [entries]
    beta_reduce
    rw [ih h.1, ih' h.2.1, add_zero]

theorem build_holds (hcols : numCols.toNat ≤ 32 * 65535) (h : e.InRange numCols) :
    ∃ row, e.build numCols = .ok row ∧ row.Holds numCols e.entries e.value := by
  have hwords := BitcompressedRow.numWords_eq hcols
  induction e with
  | new => exact ⟨_, rfl, BitcompressedRow.holds_new numCols⟩
  | setPos row idx ih =>
    obtain ⟨r, hr, hholds⟩ := ih h.1
    have hlt := h.2.1
    have hdiv := (toNat_idx idx).1
    obtain ⟨r', hr', hholds'⟩ := hholds.setPos (by omega) h.2.2
    exact ⟨r', bind_eq_ok.mpr ⟨r, hr, hr'⟩, hholds'⟩
  | setNeg row idx ih =>
    obtain ⟨r, hr, hholds⟩ := ih h.1
    have hlt := h.2.1
    have hdiv := (toNat_idx idx).1
    obtain ⟨r', hr', hholds'⟩ := hholds.setNeg (by omega) h.2.2
    exact ⟨r', bind_eq_ok.mpr ⟨r, hr, hr'⟩, hholds'⟩
  | setValue row value ih =>
    obtain ⟨r, hr, hholds⟩ := ih h
    refine ⟨_, bind_eq_ok.mpr ⟨r, hr, rfl⟩, hholds.length, hholds.words, ?_⟩
    exact BitVec.ofInt_toInt.symm
  | negate row ih =>
    obtain ⟨r, hr, hholds⟩ := ih h
    exact ⟨_, bind_eq_ok.mpr ⟨r, hr, rfl⟩, hholds.negate⟩
  | add row other ih ih' =>
    obtain ⟨r, hr, hholds⟩ := ih h.1
    obtain ⟨o, ho, hholds'⟩ := ih' h.2.1
    obtain ⟨r', hr', hsum⟩ := hholds.add hholds' h.2.2
    exact ⟨r', bind_eq_ok.mpr ⟨r, hr, bind_eq_ok.mpr ⟨o, ho, hr'⟩⟩, hsum⟩

theorem buildSparse_holds (h : e.InRange numCols) : e.buildSparse.Holds e.entries e.value := by
  induction e with
  | new => exact SparseRow.holds_new
  | setPos row idx ih => exact (ih h.1).setPos h.2.2
  | setNeg row idx ih => exact (ih h.1).setNeg h.2.2
  | setValue row value ih => exact ⟨(ih h).words, BitVec.ofInt_toInt.symm⟩
  | negate row ih => exact (ih h).negate
  | add row other ih ih' => exact (ih h.1).add (ih' h.2.1) h.2.2

/-- The two kinds of rows are rows of integers: every entry and the value are what the operations
give entry by entry, the padding is 0, and an entry is read without leaving the row. -/
theorem rows_hold_entries (hcols : numCols.toNat ≤ 32 * 65535) (h : e.InRange numCols) :
    ∃ row, e.build numCols = .ok row ∧
      (∀ j : UInt64, j.toNat / 32 < (BitcompressedRow.numWords numCols).toNat → ∃ entry : Int8,
        row.get j = .ok entry ∧ e.buildSparse.get j = entry ∧ entry.toInt = e.entries j.toNat) ∧
      (∀ j, numCols.toNat ≤ j → e.entries j = 0) ∧
      row.rowValue = BitVec.ofInt 128 e.value ∧ e.buildSparse.rowValue = BitVec.ofInt 128 e.value ∧
      (-2 ^ 127 ≤ e.value → e.value < 2 ^ 127 → row.rowValue.toInt = e.value) := by
  obtain ⟨row, hrow, hholds⟩ := build_holds hcols h
  have hsparse := buildSparse_holds h
  refine ⟨row, hrow, fun j hj => ?_, fun j hj => entries_padding h hj, hholds.value,
    hsparse.value, fun hlo hhi => ?_⟩
  · have hlt := (BitcompressedRow.numWords numCols).toNat_lt
    obtain ⟨entry, hget, hentry⟩ := hholds.get hj
    refine ⟨entry, hget, ?_, hentry⟩
    rw [← Int8.toInt_inj, hentry]
    exact hsparse.get (by omega)
  · rw [hholds.value, BitVec.toInt_ofInt, Int.bmod_eq_of_le]
    · omega
    · omega

/-- Entries 1 and -1 of one column add up to 0, next to an entry -1. -/
theorem rows_hold_entries_three : ∃ row,
    (add (setNeg (setPos new 1) 2) (setNeg new 1)).build 3 = .ok row ∧
      row.get 1 = .ok 0 ∧ row.get 2 = .ok (-1) := by
  have hsum : ∀ j, -1 ≤ (setNeg (setPos new 1) 2).entries j + (setNeg new 1).entries j ∧
      (setNeg (setPos new 1) 2).entries j + (setNeg new 1).entries j ≤ 1 := by
    intro j
    simp only [entries, Function.update_apply]
    rw [show (1 : UInt16).toNat = 1 from rfl, show (2 : UInt16).toNat = 2 from rfl]
    split_ifs <;> omega
  obtain ⟨row, hrow, hget, -⟩ := @rows_hold_entries 3
    (add (setNeg (setPos new 1) 2) (setNeg new 1)) (by decide)
    ⟨⟨⟨trivial, by decide, rfl⟩, by decide, rfl⟩, ⟨trivial, by decide, rfl⟩, hsum⟩
  obtain ⟨entry, hone, -, hentry⟩ := hget 1 (by decide)
  obtain ⟨entry', htwo, -, hentry'⟩ := hget 2 (by decide)
  obtain rfl : entry = 0 := Int8.toInt_inj.mp hentry
  obtain rfl : entry' = -1 := Int8.toInt_inj.mp hentry'
  exact ⟨row, hrow, hone, htwo⟩

/-- A column that an addition has made -1 is set to 1, for the first time.  It still reads -1, and
with nothing added it reads 0 in one kind of row and -1 in the other.  A row of `2^21` columns has
no words. -/
theorem rows_lose_entries :
    ((setPos (add new (setNeg new 0)) 0).build 1 >>= (·.get 0)) = .ok (-1) ∧
      ((add (setPos (add new (setNeg new 0)) 0) new).build 1 >>= (·.get 0)) = .ok 0 ∧
      (add (setPos (add new (setNeg new 0)) 0) new).buildSparse.get 0 = -1 ∧
      (setPos new 0).build (2 ^ 21) = .error .indexOutOfRange :=
  ⟨rfl, rfl, by decide, rfl⟩

end RowBuild

end Speedex
