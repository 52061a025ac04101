import Speedex.Lib.Except

/-! A fold of fallible updates that only add to an accumulator, taken in shares: one share goes on
from the accumulator, each other share starts from zero, and what they come to is added. -/

namespace Lib

variable {ι ε R : Type} {update : R → ι → Except ε R} {r r' : R} {l l' : List ι}

/-- A fold over two lists, one after the other. -/
theorem foldlM_append {r₁ : R} (hl : l.foldlM update r = .ok r₁) (hl' : l'.foldlM update r₁ = .ok r') :
    (l ++ l').foldlM update r = .ok r' := by
  rw [List.foldlM_append]
  exact bind_eq_ok.mpr ⟨r₁, hl, hl'⟩

section Shares

variable [AddCommMonoid R]

/-- The update adds the same to every accumulator. -/
def Shifts (update : R → ι → Except ε R) : Prop :=
  ∀ r i r' u, update r i = .ok r' → update (r + u) i = .ok (r' + u)

theorem Shifts.foldlM (h : Shifts update) (hl : l.foldlM update r = .ok r') (u : R) :
    l.foldlM update (r + u) = .ok (r' + u) := by
  induction l generalizing r with
  | nil =>
    cases hl
    rfl
  | cons i l ih =>
    obtain ⟨r₁, hfirst, hrest⟩ := foldlM_cons.mp hl
    exact foldlM_cons.mpr ⟨r₁ + u, h r i r₁ u hfirst, ih hrest⟩

/-- A share that is folded from zero and added, instead of being folded from where the first share
ended. -/
theorem Shifts.add_share (h : Shifts update) (hl : l.foldlM update r = .ok r')
    {s : R} (hl' : l'.foldlM update 0 = .ok s) : (l ++ l').foldlM update r = .ok (r' + s) := by
  refine foldlM_append hl ?_
  have hshifted := h.foldlM hl' r'
  rwa [zero_add, add_comm s] at hshifted

end Shares

/-! ### Cutting a range into shares -/

/-- Where share `j` starts when `n` items are cut into `k` shares. -/
def cut (n k j : Nat) : Nat := n * j / k

/-- The items of share `j`. -/
def share (n k j : Nat) : List Nat := List.range' (cut n k j) (cut n k (j + 1) - cut n k j)

theorem cut_zero (n k : Nat) : cut n k 0 = 0 := by simp [cut]

theorem cut_self (n : Nat) {k : Nat} (h : 0 < k) : cut n k k = n := Nat.mul_div_cancel n h

theorem cut_le_succ (n k j : Nat) : cut n k j ≤ cut n k (j + 1) :=
  Nat.div_le_div_right (Nat.mul_le_mul_left n (Nat.le_succ j))

/-- The first `j` shares are the items before the next cut. -/
theorem flatMap_share (n k j : Nat) :
    (List.range j).flatMap (share n k) = List.range (cut n k j) := by
  induction j with
  | zero => simp [cut_zero]
  | succ j ih =>
    have hle := cut_le_succ n k j
    rw [List.range_succ, List.flatMap_append, ih, List.flatMap_singleton, share,
      List.range_eq_range', List.range_eq_range']
    have happend := @List.range'_append_1 0 (cut n k j) (cut n k (j + 1) - cut n k j)
    rw [Nat.zero_add] at happend
    rw [happend]
    congr 1
    omega

end Lib
