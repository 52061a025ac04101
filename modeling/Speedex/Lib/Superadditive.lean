import Mathlib

/-! Functions that give a sum at least what they give its parts, such as roundings down. -/

namespace Lib

section Ordered

variable {M N P : Type*} [AddCommMonoid M] [AddCommMonoid N] [PartialOrder N] [AddCommMonoid P]
  [PartialOrder P]

/-- The parts, taken one by one, give no more than the whole. -/
def Superadditive (f : M → N) : Prop := ∀ x y, f x + f y ≤ f (x + y)

theorem Superadditive.monotone [PartialOrder M] [CanonicallyOrderedAdd M]
    [CanonicallyOrderedAdd N] {f : M → N} (hf : Superadditive f) : Monotone f := by
  intro x y hxy
  obtain ⟨z, rfl⟩ := exists_add_of_le hxy
  exact le_self_add.trans (hf x z)

theorem Superadditive.comp [CanonicallyOrderedAdd N] [CanonicallyOrderedAdd P] {f : N → P}
    {g : M → N} (hf : Superadditive f) (hg : Superadditive g) : Superadditive fun x => f (g x) := by
  intro x y
  exact (hf _ _).trans (hf.monotone (hg x y))

theorem Superadditive.sum_le [CanonicallyOrderedAdd N] [IsOrderedAddMonoid N] {f : M → N}
    (hf : Superadditive f) (l : List M) : (l.map f).sum ≤ f l.sum := by
  induction l with
  | nil => exact zero_le
  | cons x l ih =>
    rw [List.map_cons, List.sum_cons, List.sum_cons]
    exact (add_le_add_right ih (f x)).trans (hf x l.sum)

end Ordered

theorem superadditive_mul (a : Nat) : Superadditive fun x : Nat => x * a :=
  fun x y => (Nat.add_mul x y a).ge

theorem superadditive_div (d : Nat) : Superadditive fun x : Nat => x / d :=
  fun _ _ => Nat.div_add_div_le_add_div

/-- What is left after a share of `1 / d`, rounded up, is taken off. -/
theorem superadditive_sub_ceilDiv {d : Nat} (hd : 0 < d) :
    Superadditive fun x : Nat => x - (x ⌈/⌉ d) := by
  intro x y
  have hle : ∀ z : Nat, z ⌈/⌉ d ≤ z := fun z =>
    (ceilDiv_le_iff_le_mul hd).mpr (Nat.le_mul_of_pos_left z hd)
  have hsub : (x + y) ⌈/⌉ d ≤ x ⌈/⌉ d + y ⌈/⌉ d := by
    rw [ceilDiv_le_iff_le_mul hd, Nat.mul_add]
    exact Nat.add_le_add ((ceilDiv_le_iff_le_mul hd).mp le_rfl)
      ((ceilDiv_le_iff_le_mul hd).mp le_rfl)
  have hx := hle x
  have hy := hle y
  show x - x ⌈/⌉ d + (y - y ⌈/⌉ d) ≤ x + y - (x + y) ⌈/⌉ d
  omega

end Lib
