import Mathlib

/-! Sorted lists.  The equal elements of a sorted list stand together, at the positions that follow
the smaller ones.  Lists that are sorted strictly by a key are determined by their elements, and can
be merged; a function is updated along one key by key. -/

namespace Lib

variable {α β : Type}

section Runs

variable [LinearOrder α]

/-- In a sorted list, `x` stands at the positions that follow the elements below it. -/
theorem getElem?_eq_some_iff_of_sorted {l : List α} (hsorted : l.Pairwise (· ≤ ·)) (i : Nat) (x : α) :
    l[i]? = some x ↔ l.countP (· < x) ≤ i ∧ i < l.countP (· < x) + l.count x := by
  induction l generalizing i with
  | nil => simp
  | cons a l ih =>
    obtain ⟨hle, hsorted⟩ := List.pairwise_cons.mp hsorted
    have hsmaller (h : x ≤ a) : l.countP (· < x) = 0 := by
      refine List.countP_eq_zero.mpr fun b hb hlt => ?_
      exact absurd (of_decide_eq_true hlt) (h.trans (hle b hb)).not_gt
    rw [List.countP_cons, List.count_cons]
    rcases lt_trichotomy a x with hlt | heq | hgt
    · rw [if_pos (decide_eq_true hlt), if_neg (by simpa using hlt.ne)]
      cases i with
      | zero => simpa using hlt.ne
      | succ i =>
        rw [List.getElem?_cons_succ, ih hsorted]
        omega
    · subst heq
      rw [if_neg (by simp), if_pos (by simp), hsmaller le_rfl]
      cases i with
      | zero => simp
      | succ i =>
        rw [List.getElem?_cons_succ, ih hsorted, hsmaller le_rfl]
        omega
    · have hcount : l.count x = 0 := by
        refine List.count_eq_zero.mpr fun hmem => ?_
        exact absurd (hle x hmem) hgt.not_ge
      rw [if_neg (by simpa using hgt.le), if_neg (by simpa using hgt.ne'), hsmaller hgt.le, hcount]
      cases i with
      | zero => simpa using hgt.ne'
      | succ i =>
        rw [List.getElem?_cons_succ, ih hsorted, hsmaller hgt.le, hcount]
        omega

end Runs

/-- Lists that are sorted strictly by a key, and have the same elements, are equal. -/
theorem eq_of_sorted_by [LinearOrder β] {key : α → β} {l l' : List α} (hperm : l.Perm l')
    (h : l.Pairwise fun a b => key a < key b) (h' : l'.Pairwise fun a b => key a < key b) : l = l' :=
  hperm.eq_of_pairwise (fun _ _ _ _ hab hba => absurd hab hba.asymm) h h'

/-- A list is sorted strictly by a key once it is sorted by it and no key occurs twice. -/
theorem sorted_by_of_nodup [LinearOrder β] {key : α → β} {l : List α}
    (hsorted : l.Pairwise fun a b => key a ≤ key b) (hnodup : (l.map key).Nodup) :
    l.Pairwise fun a b => key a < key b := by
  rw [List.Nodup, List.pairwise_map] at hnodup
  exact (hsorted.and hnodup).imp fun h => lt_of_le_of_ne h.1 h.2

/-- A merge of two lists that are sorted strictly by a key is so too, when the comparison follows
the key. -/
theorem pairwise_merge_by [LinearOrder β] {key : α → β} {le : α → α → Bool} {xs ys : List α}
    (hxs : xs.Pairwise fun a b => key a < key b) (hys : ys.Pairwise fun a b => key a < key b)
    (hle : ∀ x ∈ xs, ∀ y ∈ ys, le x y = true → key x < key y)
    (hgt : ∀ x ∈ xs, ∀ y ∈ ys, le x y = false → key y < key x) :
    (xs.merge ys le).Pairwise fun a b => key a < key b := by
  induction xs generalizing ys with
  | nil => simpa using hys
  | cons x xs ih =>
    obtain ⟨hx, hxs'⟩ := List.pairwise_cons.mp hxs
    induction ys with
    | nil => simpa using hxs
    | cons y ys ih' =>
      obtain ⟨hy, hys'⟩ := List.pairwise_cons.mp hys
      have hxmem : x ∈ x :: xs := List.mem_cons_self
      have hymem : y ∈ y :: ys := List.mem_cons_self
      by_cases h : le x y = true
      · have hxy := hle x hxmem y hymem h
        rw [List.cons_merge_cons_pos le xs ys h]
        refine List.pairwise_cons.mpr ⟨fun z hz => ?_, ih hxs' hys
          (fun a ha b hb => hle a (List.mem_cons_of_mem x ha) b hb)
          (fun a ha b hb => hgt a (List.mem_cons_of_mem x ha) b hb)⟩
        rcases List.mem_merge.mp hz with hz | hz
        · exact hx z hz
        · rcases List.mem_cons.mp hz with rfl | hz
          · exact hxy
          · exact hxy.trans (hy z hz)
      · have hyx := hgt x hxmem y hymem (Bool.eq_false_iff.mpr h)
        rw [List.cons_merge_cons_neg le xs ys h]
        refine List.pairwise_cons.mpr ⟨fun z hz => ?_, ih' hys'
          (fun a ha b hb => hle a ha b (List.mem_cons_of_mem y hb))
          (fun a ha b hb => hgt a ha b (List.mem_cons_of_mem y hb))⟩
        rcases List.mem_merge.mp hz with hz | hz
        · rcases List.mem_cons.mp hz with rfl | hz
          · exact hyx
          · exact hyx.trans (hx z hz)
        · exact hy z hz

/-! ### Updates of a function along a list -/

section Updates

variable {γ : Type} [DecidableEq β] {key : α → β} {change : α → γ → γ} {l : List α}

/-- The value at the key of each element is changed in turn. -/
def updateAll (key : α → β) (change : α → γ → γ) (l : List α) (f : β → γ) : β → γ :=
  l.foldl (fun f a => Function.update f (key a) (change a (f (key a)))) f

theorem updateAll_of_notMem {f : β → γ} {b : β} (h : b ∉ l.map key) :
    updateAll key change l f b = f b := by
  induction l generalizing f with
  | nil => rfl
  | cons a l ih =>
    rw [List.map_cons, List.mem_cons, not_or] at h
    exact (ih h.2).trans (Function.update_of_ne h.1 _ _)

/-- Where no key occurs twice, each value is changed once. -/
theorem updateAll_of_mem {f : β → γ} {a : α} (hnodup : (l.map key).Nodup) (h : a ∈ l) :
    updateAll key change l f (key a) = change a (f (key a)) := by
  induction l generalizing f with
  | nil => cases h
  | cons a' l ih =>
    obtain ⟨hnot, hrest⟩ := List.nodup_cons.mp hnodup
    rcases List.mem_cons.mp h with rfl | h
    · exact (updateAll_of_notMem hnot).trans (Function.update_self _ _ _)
    · have hne : key a ≠ key a' := fun heq => hnot (heq ▸ List.mem_map_of_mem h)
      exact (ih hrest h).trans (congrArg (change a) (Function.update_of_ne hne _ _))

end Updates

end Lib
