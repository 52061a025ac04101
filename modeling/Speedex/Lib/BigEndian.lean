import Mathlib

/-! Big-endian byte strings.  Byte strings of one length are ordered by the first byte in which
they differ, as `memcmp` orders them, which is the order of the numbers that they write. -/

namespace Lib

abbrev Byte := Fin 256

def Byte.zero : Byte := 0

def Byte.ones : Byte := 255

/-- The low byte of a number. -/
def Byte.ofNat (n : Nat) : Byte := Fin.ofNat 256 n

/-- The low `w` bytes of `n`, most significant first. -/
def bytesBE : Nat → Nat → List Byte
  | 0, _ => []
  | w + 1, n => Fin.ofNat 256 (n / 256 ^ w) :: bytesBE w n

/-- The number that a byte string writes. -/
def ofBytesBE (bytes : List Byte) : Nat := bytes.foldl (fun p b => p * 256 + b.val) 0

@[simp] theorem length_bytesBE (w n : Nat) : (bytesBE w n).length = w := by
  induction w with
  | zero => rfl
  | succ w ih => rw [bytesBE, List.length_cons, ih]

theorem bytesBE_eq_map (w n : Nat) :
    bytesBE w n = (List.range w).map fun i => Fin.ofNat 256 (n / 256 ^ (w - i - 1)) := by
  induction w with
  | zero => rfl
  | succ w ih =>
    rw [bytesBE, ih, List.range_succ_eq_map, List.map_cons, List.map_map]
    refine congrArg₂ _ (by simp) (List.map_congr_left fun i _ => ?_)
    simp only [Function.comp_apply]
    congr 3
    omega

theorem foldl_bytes (bytes : List Byte) (p : Nat) :
    bytes.foldl (fun p b => p * 256 + b.val) p = p * 256 ^ bytes.length + ofBytesBE bytes := by
  induction bytes generalizing p with
  | nil => simp [ofBytesBE]
  | cons b l ih =>
    rw [ofBytesBE, List.foldl_cons, List.foldl_cons, ih, ih (0 * 256 + b.val), List.length_cons]
    ring

theorem ofBytesBE_cons (b : Byte) (l : List Byte) :
    ofBytesBE (b :: l) = b.val * 256 ^ l.length + ofBytesBE l := by
  rw [ofBytesBE, List.foldl_cons, foldl_bytes, Nat.zero_mul, Nat.zero_add]

theorem ofBytesBE_append (l l' : List Byte) :
    ofBytesBE (l ++ l') = ofBytesBE l * 256 ^ l'.length + ofBytesBE l' := by
  rw [ofBytesBE, List.foldl_append, foldl_bytes]
  rfl

theorem ofBytesBE_lt (l : List Byte) : ofBytesBE l < 256 ^ l.length := by
  induction l with
  | nil => simp [ofBytesBE]
  | cons b l ih =>
    have hb : (b.val + 1) * 256 ^ l.length ≤ 256 * 256 ^ l.length :=
      Nat.mul_le_mul_right _ b.isLt
    rw [ofBytesBE_cons, List.length_cons, pow_succ]
    calc b.val * 256 ^ l.length + ofBytesBE l < (b.val + 1) * 256 ^ l.length := by
          rw [Nat.add_mul, Nat.one_mul]; omega
      _ ≤ 256 * 256 ^ l.length := hb
      _ = 256 ^ l.length * 256 := Nat.mul_comm _ _

theorem ofBytesBE_bytesBE (w n : Nat) : ofBytesBE (bytesBE w n) = n % 256 ^ w := by
  induction w with
  | zero => simp [bytesBE, ofBytesBE, Nat.mod_one]
  | succ w ih =>
    rw [bytesBE, ofBytesBE_cons, ih, length_bytesBE, Fin.val_ofNat, pow_succ, Nat.mod_mul,
      Nat.mul_comm, Nat.add_comm]

/-- Byte strings of one length are ordered as the numbers that they write. -/
theorem lt_iff_ofBytesBE_lt {a b : List Byte} (h : a.length = b.length) :
    a < b ↔ ofBytesBE a < ofBytesBE b := by
  induction a generalizing b with
  | nil =>
    obtain rfl : b = [] := List.length_eq_zero_iff.mp h.symm
    simp [ofBytesBE]
  | cons x a ih =>
    cases b with
    | nil => cases h
    | cons y b =>
      have hlen : a.length = b.length := Nat.succ.inj h
      have ha := ofBytesBE_lt a
      have hb := ofBytesBE_lt b
      rw [hlen] at ha
      rw [List.cons_lt_cons_iff, ofBytesBE_cons, ofBytesBE_cons, hlen, ih hlen, Fin.lt_def,
        Fin.ext_iff]
      constructor
      · rintro (hlt | ⟨heq, hlt⟩)
        · have := Nat.mul_le_mul_right (256 ^ b.length) (Nat.succ_le_of_lt hlt)
          rw [Nat.succ_mul] at this
          omega
        · rw [heq]
          omega
      · intro hlt
        rcases Nat.lt_trichotomy x.val y.val with hxy | hxy | hxy
        · exact .inl hxy
        · rw [hxy] at hlt
          exact .inr ⟨hxy, by omega⟩
        · have := Nat.mul_le_mul_right (256 ^ b.length) (Nat.succ_le_of_lt hxy)
          rw [Nat.succ_mul] at this
          omega

end Lib
