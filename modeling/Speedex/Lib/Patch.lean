import Mathlib

/-! Writing a list over another one at a position, as `memcpy` and `write` do. -/

namespace Lib

variable {α : Type}

/-- `new` over what `l` has from position `i` on.  At the end the list grows. -/
def patch (l : List α) (i : Nat) (new : List α) : List α :=
  l.take i ++ new ++ l.drop (i + new.length)

@[simp] theorem patch_nil (l : List α) (i : Nat) : patch l i [] = l := by
  simp [patch]

theorem patch_append (before rest new : List α) :
    patch (before ++ rest) before.length new = before ++ (new ++ rest.drop new.length) := by
  simp [patch, List.drop_append]

theorem patch_zero (l new : List α) : patch l 0 new = new ++ l.drop new.length := patch_append [] l new

theorem exists_append_of_le {l : List α} {i : Nat} (h : i ≤ l.length) :
    ∃ before rest, l = before ++ rest ∧ i = before.length :=
  ⟨l.take i, l.drop i, (List.take_append_drop i l).symm, by simp [h]⟩

theorem length_patch {l new : List α} {i : Nat} (h : i + new.length ≤ l.length) :
    (patch l i new).length = l.length := by
  simp only [patch, List.length_append, List.length_take, List.length_drop]
  omega

theorem le_length_patch {l : List α} {i : Nat} (h : i ≤ l.length) (new : List α) :
    i + new.length ≤ (patch l i new).length := by
  simp only [patch, List.length_append, List.length_take, List.length_drop]
  omega

/-- What stands before the end of what was written. -/
theorem take_patch {l : List α} {i : Nat} (h : i ≤ l.length) (new : List α) :
    (patch l i new).take (i + new.length) = l.take i ++ new := by
  obtain ⟨before, rest, rfl, rfl⟩ := exists_append_of_le h
  rw [patch_append, List.take_left, ← List.append_assoc, ← List.length_append, List.take_left]

/-- Two writes, one behind the other. -/
theorem patch_patch {l : List α} {i : Nat} (h : i ≤ l.length) (a b : List α) :
    patch (patch l i a) (i + a.length) b = patch l i (a ++ b) := by
  obtain ⟨before, rest, rfl, rfl⟩ := exists_append_of_le h
  rw [patch_append, ← List.append_assoc, ← List.length_append, patch_append, patch_append,
    List.drop_drop, List.length_append]
  simp only [List.append_assoc]

/-- The first part of a list, written over itself with a change, changes the list. -/
theorem patch_take_self {l new : List α} {n : Nat} (hnew : new.length ≤ n) (hn : n ≤ l.length) :
    patch l 0 (patch (l.take n) 0 new) = patch l 0 new := by
  obtain ⟨before, rest, rfl, rfl⟩ := exists_append_of_le hn
  rw [List.take_left, patch_zero, patch_zero, patch_zero, List.length_append, List.length_drop,
    Nat.add_sub_cancel' hnew, List.drop_left, List.drop_append_of_le_length hnew, List.append_assoc]

end Lib
