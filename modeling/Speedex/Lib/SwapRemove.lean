import Mathlib

/-! Removal from a vector by moving its last element into the gap.  The elements change their order
and nothing else: a loop that removes what satisfies a predicate leaves the other elements. -/

namespace Lib

variable {α β : Type}

/-- The last element takes the place of the one at `i`. -/
def swapRemove (l : List α) (i : Nat) : List α :=
  match l.getLast? with
  | none => []
  | some b => (l.set i b).dropLast

theorem swapRemove_last (done : List α) (a : α) : swapRemove (done ++ [a]) done.length = done := by
  simp [swapRemove]

theorem swapRemove_inner (done mid : List α) (a b : α) :
    swapRemove (done ++ a :: (mid ++ [b])) done.length = done ++ b :: mid := by
  have hlist : done ++ a :: (mid ++ [b]) = done ++ a :: mid ++ [b] := by simp
  rw [swapRemove, hlist, List.getLast?_concat]
  simp only [List.append_assoc, List.cons_append, List.set_append]
  simp only [lt_irrefl, ↓reduceIte, Nat.sub_self, List.set_cons_zero]
  rw [← List.cons_append, ← List.append_assoc, List.dropLast_concat]

/-- What is behind the gap, after it is filled. -/
theorem exists_swapRemove (done rest : List α) (a : α) : ∃ rest',
    swapRemove (done ++ a :: rest) done.length = done ++ rest' ∧ rest'.Perm rest := by
  rcases List.eq_nil_or_concat rest with rfl | ⟨mid, b, rfl⟩
  · exact ⟨[], by rw [swapRemove_last, List.append_nil], .refl _⟩
  · rw [List.concat_eq_append]
    exact ⟨b :: mid, swapRemove_inner done mid a b, (List.perm_append_singleton b mid).symm⟩

theorem map_swapRemove (f : α → β) (l : List α) (i : Nat) :
    (swapRemove l i).map f = swapRemove (l.map f) i := by
  unfold swapRemove
  rw [List.getLast?_map]
  cases l.getLast? with
  | none => rfl
  | some b => simp [List.map_dropLast, List.map_set]

/-- The loop that removes what satisfies `p`, from position `i` on, and counts it.  The position
does not move when an element is removed, as another one is then there. -/
def removeLoop (p : α → Bool) : Nat → List α → Nat → Nat → List α × Nat
  | 0, l, _, removed => (l, removed)
  | fuel + 1, l, i, removed =>
    if h : i < l.length then
      if p l[i] then removeLoop p fuel (swapRemove l i) i (removed + 1)
      else removeLoop p fuel l (i + 1) removed
    else (l, removed)

/-- With a round for each element, the loop removes exactly what satisfies `p`. -/
theorem removeLoop_spec (p : α → Bool) {fuel : Nat} (done rest : List α) (removed : Nat)
    (hfuel : rest.length ≤ fuel) : ∃ kept,
    removeLoop p fuel (done ++ rest) done.length removed = (done ++ kept, removed + rest.countP p) ∧
      kept.Perm (rest.filter fun a => !p a) := by
  induction fuel generalizing done rest removed with
  | zero =>
    obtain rfl := List.length_eq_zero_iff.mp (Nat.le_zero.mp hfuel)
    exact ⟨[], rfl, .refl _⟩
  | succ fuel ih =>
    cases rest with
    | nil => exact ⟨[], by rw [removeLoop, dif_neg (by simp)]; rfl, .refl _⟩
    | cons a rest =>
      rw [removeLoop, dif_pos (by simp)]
      rw [List.length_cons] at hfuel
      by_cases hp : p a
      · obtain ⟨rest', hswap, hperm⟩ := exists_swapRemove done rest a
        obtain ⟨kept, hloop, hkept⟩ := ih done rest' (removed + 1)
          (by rw [hperm.length_eq]; omega)
        refine ⟨kept, ?_, ?_⟩
        · rw [if_pos (by simpa using hp), hswap, hloop, hperm.countP_eq,
            List.countP_cons_of_pos hp, Nat.add_assoc, Nat.add_comm 1]
        · rw [List.filter_cons_of_neg (by simpa using hp)]
          exact hkept.trans (hperm.filter _)
      · obtain ⟨kept, hloop, hkept⟩ := ih (done ++ [a]) rest removed (by omega)
        rw [List.append_assoc, List.singleton_append, List.length_append, List.length_singleton] at hloop
        refine ⟨a :: kept, ?_, ?_⟩
        · rw [if_neg (by simpa using hp), hloop, List.countP_cons_of_neg hp, List.append_assoc]
          rfl
        · rw [List.filter_cons_of_pos (by simpa using hp)]
          exact hkept.cons a

/-- The loop over the whole vector. -/
theorem exists_removeLoop (p : α → Bool) (l : List α) : ∃ kept,
    removeLoop p l.length l 0 0 = (kept, l.countP p) ∧ kept.Perm (l.filter fun a => !p a) := by
  obtain ⟨kept, hloop, hkept⟩ := removeLoop_spec p [] l 0 le_rfl
  rw [Nat.zero_add] at hloop
  exact ⟨kept, hloop, hkept⟩

end Lib
