import Speedex.Simplex.Tableau

/-! A pivot of the sparse tableau is a Gauss-Jordan pivot of the matrix that its rows and columns
hold. -/

namespace Speedex

open Lib

/-- Two strictly increasing lists without a common element. -/
structure SortedSides (pos neg : List UInt16) : Prop where
  pos_sorted : pos.Pairwise (· < ·)
  neg_sorted : neg.Pairwise (· < ·)
  disjoint : ∀ x ∈ pos, x ∉ neg

/-- Two lists of positions as a vector of signs. -/
abbrev signs (pos neg : List UInt16) : SignedCursor UInt16 := ⟨.start pos, .start neg⟩

theorem wellFormed_iff {p : SignedCursor UInt16} :
    p.WellFormed ↔ SortedSides p.pos.list p.neg.list := by
  constructor
  · exact fun h => ⟨h.sorted false, h.sorted true, h.disjoint false⟩
  · refine fun h => ⟨fun b => ?_, fun b x hx hx' => ?_⟩
    · cases b with
      | false => exact h.pos_sorted
      | true => exact h.neg_sorted
    · cases b with
      | false => exact h.disjoint x hx hx'
      | true => exact h.disjoint x hx' hx

theorem SortedSides.wellFormed {pos neg : List UInt16} (h : SortedSides pos neg) :
    (signs pos neg).WellFormed :=
  wellFormed_iff.mpr h

theorem SignedTURow.get_toInt {row : SignedTURow} (h : SortedSides row.pos row.neg)
    (negated : Bool) (c : UInt16) :
    (row.get negated c).toInt = (signs row.pos row.neg).entry negated c := by
  rw [SignedTURow.get]
  simp only [List.contains_iff_mem]
  have hside : ∀ b, ((signs row.pos row.neg).side b).list = if b then row.neg else row.pos := by
    intro b
    cases b <;> rfl
  rw [SignedCursor.entry, hside, hside]
  by_cases hpos : c ∈ row.pos
  · have hneg := h.disjoint c hpos
    cases negated <;> simp [hpos, hneg]
  · by_cases hneg : c ∈ row.neg <;> cases negated <;> simp [hpos, hneg]

theorem SignedTUColumn.get_toInt {col : SignedTUColumn} (h : SortedSides col.pos col.neg)
    (negations : UInt16 → Bool) (i : UInt16) :
    (col.get negations i).toInt = (signs col.pos col.neg).entry (negations i) i :=
  @SignedTURow.get_toInt ⟨col.pos, col.neg, 0⟩ h (negations i) i

namespace SparseTableau

/-- `get`, from the row. -/
def rowEntry (t : SparseTableau) (i c : UInt16) : Int := ((t.rows i).get (t.negations i) c).toInt

/-- The same from the column. -/
def colEntry (t : SparseTableau) (i c : UInt16) : Int := ((t.cols c).get t.negations i).toInt

def getValue (t : SparseTableau) (i : UInt16) : BitVec 128 := (t.rows i).getValue (t.negations i)

/-- The lists are sorted and disjoint, and rows and columns hold the same matrix. -/
structure WellFormed (t : SparseTableau) : Prop where
  rows : ∀ i, SortedSides (t.rows i).pos (t.rows i).neg
  cols : ∀ c, SortedSides (t.cols c).pos (t.cols c).neg
  same : ∀ i c, t.rowEntry i c = t.colEntry i c

/-- The Gauss-Jordan pivot of a matrix at an entry 1. -/
def densePivot (a : UInt16 → UInt16 → Int) (pivotRow pivotCol i c : UInt16) : Int :=
  if i = pivotRow then a i c else a i c - a i pivotCol * a pivotRow c

/-- The right-hand sides. -/
def densePivotValue (a : UInt16 → UInt16 → Int) (value : UInt16 → BitVec 128)
    (pivotRow pivotCol i : UInt16) : BitVec 128 :=
  if i = pivotRow then value i else value i - BitVec.ofInt 128 (a i pivotCol) * value pivotRow

/-! ### The orders -/

theorem mem_pivotColumnOrder {col : SignedTUColumn} {a : UInt16 × Bool} :
    a ∈ pivotColumnOrder col ↔ a.1 ∈ ((signs col.pos col.neg).side a.2).list := by
  obtain ⟨i, b⟩ := a
  rw [pivotColumnOrder, List.mem_merge, List.mem_map, List.mem_map]
  cases b with
  | false => simp [SignedCursor.side, Cursor.start, Cursor.list]
  | true => simp [SignedCursor.side, Cursor.start, Cursor.list]

theorem pivotColumnOrder_sorted {col : SignedTUColumn} (h : SortedSides col.pos col.neg) :
    (pivotColumnOrder col).Pairwise fun a b => a.1 < b.1 := by
  apply pairwise_merge_by
  · exact List.pairwise_map.mpr h.pos_sorted
  · exact List.pairwise_map.mpr h.neg_sorted
  · intro x _ y _ hle
    simpa using hle
  · intro x hx y hy hle
    obtain ⟨i, hi, rfl⟩ := List.mem_map.mp hx
    obtain ⟨j, hj, rfl⟩ := List.mem_map.mp hy
    have hne : i ≠ j := fun heq => h.disjoint i hi (heq ▸ hj)
    exact lt_of_le_of_ne (not_lt.mp (of_decide_eq_false hle)) hne.symm

section Advance

variable {row : SignedTURow} {negated : Bool}

theorem mem_advanceOrder {a : UInt16 × Int8} : a ∈ advanceOrder row negated ↔
    (a.1 ∈ row.pos ∧ a.2 = if negated then -1 else 1) ∨
      (a.1 ∈ row.neg ∧ a.2 = if negated then 1 else -1) := by
  obtain ⟨c, k⟩ := a
  simp only [advanceOrder, List.mem_map, List.mem_merge, Prod.exists, Prod.mk.injEq]
  cases negated with
  | false => aesop
  | true => aesop

theorem advanceOrder_sorted (h : SortedSides row.pos row.neg) :
    (advanceOrder row negated).Pairwise fun a b => a.1 < b.1 := by
  apply List.pairwise_map.mpr
  apply pairwise_merge_by
  · exact List.pairwise_map.mpr h.pos_sorted
  · exact List.pairwise_map.mpr h.neg_sorted
  · intro x hx y hy hle
    obtain ⟨i, hi, rfl⟩ := List.mem_map.mp hx
    obtain ⟨j, hj, rfl⟩ := List.mem_map.mp hy
    have hne : i ≠ j := fun heq => h.disjoint i hi (heq ▸ hj)
    have hnot : ¬ j < i := by simpa using hle
    exact lt_of_le_of_ne (not_lt.mp hnot) hne
  · intro x _ y _ hle
    simpa using hle

/-- The coefficients are the entries of the row that are not zero. -/
theorem advanceOrder_coeff (h : SortedSides row.pos row.neg) {a : UInt16 × Int8}
    (ha : a ∈ advanceOrder row negated) :
    (a.2 = 1 ∨ a.2 = -1) ∧ a.2.toInt = (row.get negated a.1).toInt := by
  simp only [SignedTURow.get, List.contains_iff_mem]
  rcases mem_advanceOrder.mp ha with ⟨hpos, hk⟩ | ⟨hneg, hk⟩
  · rw [if_pos hpos, hk]
    cases negated <;> simp
  · have hpos : a.1 ∉ row.pos := fun hpos => h.disjoint _ hpos hneg
    rw [if_neg hpos, if_pos hneg, hk]
    cases negated <;> simp

theorem get_eq_zero {c : UInt16} (hc : c ∉ (advanceOrder row negated).map (·.1)) :
    (row.get negated c).toInt = 0 := by
  have hnot : ∀ k, (c, k) ∉ advanceOrder row negated := fun k hk =>
    hc (List.mem_map_of_mem (f := (·.1)) hk)
  have hpos : c ∉ row.pos := fun hpos => hnot _ (mem_advanceOrder.mpr (.inl ⟨hpos, rfl⟩))
  have hneg : c ∉ row.neg := fun hneg => hnot _ (mem_advanceOrder.mpr (.inr ⟨hneg, rfl⟩))
  simp [SignedTURow.get, hpos, hneg]

end Advance

/-! ### The rows with an entry in the pivot column -/

theorem negate_negate (n : UInt16 → Bool) (i : UInt16) : negate (negate n i) i = n := by
  simp [negate]

theorem negate_comm (n : UInt16 → Bool) (i j : UInt16) :
    negate (negate n i) j = negate (negate n j) i := by
  by_cases h : i = j
  · rw [h]
  · simp only [negate, Function.update_of_ne h, Function.update_of_ne (Ne.symm h)]
    rw [Function.update_comm h]

theorem foldl_negate_negate (l : List UInt16) (n : UInt16 → Bool) (i : UInt16) :
    l.foldl negate (negate n i) = negate (l.foldl negate n) i := by
  induction l generalizing n with
  | nil => rfl
  | cons j l ih => rw [List.foldl_cons, List.foldl_cons, negate_comm, ih]

section Touch

variable {rows : UInt16 → SignedTURow} {pivotRow : UInt16}

/-- A row that is touched gets the flag that makes its entry in the pivot column -1. -/
theorem touch_of_ne {negated : Bool} {s : Touched} {i : UInt16} (hi : i ≠ pivotRow) :
    (touch rows pivotRow negated s i).negations = Function.update s.negations i (!negated) ∧
      (touch rows pivotRow negated s i).rowIters =
        s.rowIters ++ [.beginInsert (rows i) (!negated) i] ∧
      (touch rows pivotRow negated s i).touchedRows = s.touchedRows ++ [i] ∧
      (touch rows pivotRow negated s i).negatedRows.foldl negate
          (touch rows pivotRow negated s i).negations = s.negatedRows.foldl negate s.negations := by
  rw [touch, if_neg hi]
  by_cases hflag : s.negations i = negated
  · simp only [hflag, if_true]
    refine ⟨by rw [negate, hflag], by simp [negate, hflag], trivial, ?_⟩
    rw [List.foldl_append, foldl_negate_negate]
    exact negate_negate _ i
  · have hnot : s.negations i = !negated := Bool.eq_not.mpr hflag
    simp only [hflag, if_false]
    exact ⟨by rw [← hnot, Function.update_eq_self], by rw [hnot], trivial, trivial⟩

/-- The loop over the pivot column. -/
def touchAll (rows : UInt16 → SignedTURow) (pivotRow : UInt16) (order : List (UInt16 × Bool))
    (s : Touched) : Touched :=
  order.foldl (fun s a =>
    if a.2 then addNegIt rows pivotRow s a.1 else addPosIt rows pivotRow s a.1) s

theorem touchAll_cons (a : UInt16 × Bool) (order : List (UInt16 × Bool)) (s : Touched) :
    touchAll rows pivotRow (a :: order) s =
      touchAll rows pivotRow order (touch rows pivotRow a.2 s a.1) := by
  rw [touchAll, List.foldl_cons]
  cases h : a.2 <;> rfl

/-- What the loop over the pivot column leaves. -/
structure TouchedAll (rows : UInt16 → SignedTURow) (others : List (UInt16 × Bool))
    (s s' : Touched) : Prop where
  rowIters : s'.rowIters = s.rowIters ++ others.map fun a => .beginInsert (rows a.1) (!a.2) a.1
  touchedRows : s'.touchedRows = s.touchedRows ++ others.map (·.1)
  restored : s'.negatedRows.foldl negate s'.negations = s.negatedRows.foldl negate s.negations
  flag : ∀ a ∈ others, s'.negations a.1 = !a.2
  same : ∀ i, i ∉ others.map (·.1) → s'.negations i = s.negations i

theorem touchAll_spec {order : List (UInt16 × Bool)}
    (hsorted : order.Pairwise fun a b => a.1 < b.1) (s : Touched) :
    TouchedAll rows (order.filter fun a => a.1 ≠ pivotRow) s (touchAll rows pivotRow order s) := by
  induction order generalizing s with
  | nil => exact ⟨by simp [touchAll], by simp [touchAll], rfl, by simp, fun _ _ => rfl⟩
  | cons a order ih =>
    obtain ⟨hlt, hsorted'⟩ := List.pairwise_cons.mp hsorted
    rw [touchAll_cons]
    have hrest := ih hsorted' (touch rows pivotRow a.2 s a.1)
    by_cases ha : a.1 = pivotRow
    · rw [List.filter_cons_of_neg (by simpa using ha)]
      rw [touch, if_pos ha] at hrest ⊢
      exact hrest
    · rw [List.filter_cons_of_pos (by simpa using ha)]
      obtain ⟨hnegations, hiters, htouched, hrestored⟩ :=
        @touch_of_ne rows pivotRow a.2 s a.1 ha
      have hnot : a.1 ∉ (order.filter fun a => a.1 ≠ pivotRow).map (·.1) := by
        intro hmem
        obtain ⟨b, hb, heq⟩ := List.mem_map.mp hmem
        exact (hlt b (List.mem_of_mem_filter hb)).ne heq.symm
      refine ⟨?_, ?_, hrest.restored.trans hrestored, ?_, ?_⟩
      · rw [hrest.rowIters, hiters, List.append_assoc]
        rfl
      · rw [hrest.touchedRows, htouched, List.append_assoc]
        rfl
      · intro b hb
        rcases List.mem_cons.mp hb with rfl | hb
        · rw [hrest.same _ hnot, hnegations, Function.update_self]
        · exact hrest.flag b hb
      · intro i hi
        rw [List.map_cons, List.mem_cons, not_or] at hi
        rw [hrest.same i hi.2, hnegations, Function.update_of_ne hi.1]

end Touch

/-! ### Signs under two flags -/

section Flags

variable {p q : SignedCursor UInt16} {b b' : Bool} {amount : Int}

theorem entry_of_entry (hp : p.WellFormed) (hq : q.WellFormed) {x y : UInt16}
    (h : p.entry b x = q.entry b y) : p.entry b' x = q.entry b' y := by
  by_cases hb : b' = b
  · rw [hb, h]
  · rw [Bool.eq_not.mpr hb, SignedCursor.entry_not hp, SignedCursor.entry_not hq, h]

/-- Where the entry in the pivot column is -1 under the flag `b'`, the pivot row is added under that
flag, and subtracted as often as that entry says under any flag. -/
theorem entry_sub_of_touched (hp : p.WellFormed) (hq : q.WellFormed) {pivotCol x y : UInt16}
    (hpivot : p.entry b' pivotCol = -1) (h : q.entry b' y = p.entry b' x + amount) :
    q.entry b y = p.entry b x - p.entry b pivotCol * amount := by
  by_cases hb : b = b'
  · rw [hb, h, hpivot]
    ring
  · rw [Bool.eq_not.mpr hb, SignedCursor.entry_not hp, SignedCursor.entry_not hp,
      SignedCursor.entry_not hq, h, hpivot]
    ring

theorem range_of_touched (hp : p.WellFormed) {pivotCol x : UInt16}
    (hpivot : p.entry b' pivotCol = -1)
    (h : -1 ≤ p.entry b x - p.entry b pivotCol * amount ∧
      p.entry b x - p.entry b pivotCol * amount ≤ 1) :
    -1 ≤ p.entry b' x + amount ∧ p.entry b' x + amount ≤ 1 := by
  by_cases hb : b = b'
  · rw [hb, hpivot] at h
    omega
  · rw [Bool.eq_not.mpr hb, SignedCursor.entry_not hp, SignedCursor.entry_not hp, hpivot] at h
    omega

theorem value_sub_of_touched (hp : p.WellFormed) {pivotCol : UInt16}
    (hpivot : p.entry b' pivotCol = -1) (row : SignedTURow) (value : BitVec 128) :
    (row.setValue b' (row.getValue b' + value)).getValue b =
      row.getValue b - BitVec.ofInt 128 (p.entry b pivotCol) * value := by
  by_cases hb : b = b'
  · have hminus : BitVec.ofInt 128 (-1) * value = -value :=
      (BitVec.neg_mul 1#128 value).trans (congrArg Neg.neg (BitVec.one_mul value))
    rw [hb, hpivot, hminus]
    cases b' <;> simp [SignedTURow.setValue, SignedTURow.getValue]
  · have hone : BitVec.ofInt 128 1 * value = value := BitVec.one_mul value
    rw [Bool.eq_not.mpr hb, SignedCursor.entry_not hp, hpivot, neg_neg, hone]
    cases b' <;> simp [SignedTURow.setValue, SignedTURow.getValue, BitVec.sub_eq_add_neg,
      BitVec.add_comm (-value)]

end Flags

/-! ### The result -/

/-- The tableau after the loops over the pivot column and over the pivot row. -/
def pivotResult (t : SparseTableau) (pivotRow pivotCol : UInt16) (s : Touched)
    (r : List RowIterator × (UInt16 → SignedTUColumn)) : SparseTableau where
  negations := s.negatedRows.foldl negate s.negations
  rows := updateAll id (fun rowIdx row => row.setValue (s.negations rowIdx)
    (row.getValue (s.negations rowIdx) + (t.rows pivotRow).getValue (s.negations pivotRow)))
    s.touchedRows (updateAll RowIterator.rowIdx
      (fun it row => { row with pos := it.its.pos.list, neg := it.its.neg.list }) r.1 t.rows)
  cols := Function.update r.2 pivotCol (setSinglePos s.negations pivotRow)

theorem doPivot_eq (t : SparseTableau) (pivotRow pivotCol : UInt16) {s : Touched}
    {r : List RowIterator × (UInt16 → SignedTUColumn)}
    (hs : touchAll t.rows pivotRow (pivotColumnOrder (t.cols pivotCol))
      ⟨t.negations, [], [], []⟩ = s)
    (hr : (advanceOrder (t.rows pivotRow) (s.negations pivotRow)).foldlM
      (modifyColumn s.negations) (s.rowIters, t.cols) = .ok r) :
    t.doPivot pivotRow pivotCol = .ok (pivotResult t pivotRow pivotCol s r) := by
  subst hs
  exact bind_eq_ok.mpr ⟨r, hr, rfl⟩

section Result

variable {t : SparseTableau} {pivotRow pivotCol : UInt16} {s : Touched}
  {r : List RowIterator × (UInt16 → SignedTUColumn)}

theorem pivotResult_touched (hidx : r.1.map RowIterator.rowIdx = s.touchedRows)
    (hnodup : s.touchedRows.Nodup) {it : RowIterator} (hit : it ∈ r.1) :
    (pivotResult t pivotRow pivotCol s r).rows it.rowIdx =
      ({ t.rows it.rowIdx with pos := it.its.pos.list, neg := it.its.neg.list }).setValue
        (s.negations it.rowIdx) ((t.rows it.rowIdx).getValue (s.negations it.rowIdx) +
          (t.rows pivotRow).getValue (s.negations pivotRow)) := by
  have hmem : it.rowIdx ∈ s.touchedRows := hidx ▸ List.mem_map_of_mem hit
  have hlists := @updateAll_of_mem _ _ _ _ RowIterator.rowIdx
    (fun it row => { row with pos := it.its.pos.list, neg := it.its.neg.list }) r.1 t.rows it
    (hidx ▸ hnodup) hit
  rw [pivotResult]
  dsimp only
  refine (@updateAll_of_mem _ _ _ _ id _ _ _ _ (by rwa [List.map_id]) hmem).trans ?_
  rw [id, hlists]
  rfl

theorem pivotResult_other (hidx : r.1.map RowIterator.rowIdx = s.touchedRows) {i : UInt16}
    (hi : i ∉ s.touchedRows) : (pivotResult t pivotRow pivotCol s r).rows i = t.rows i := by
  rw [pivotResult]
  dsimp only
  rw [updateAll_of_notMem (by rwa [List.map_id]), updateAll_of_notMem (by rwa [hidx])]

end Result

section Pivot

variable {t : SparseTableau} {pivotRow pivotCol : UInt16}

abbrev rowSigns (t : SparseTableau) (i : UInt16) : SignedCursor UInt16 :=
  signs (t.rows i).pos (t.rows i).neg

abbrev colSigns (t : SparseTableau) (c : UInt16) : SignedCursor UInt16 :=
  signs (t.cols c).pos (t.cols c).neg

theorem WellFormed.rowSigns (h : t.WellFormed) (i : UInt16) : (t.rowSigns i).WellFormed :=
  (h.rows i).wellFormed

theorem WellFormed.colSigns (h : t.WellFormed) (c : UInt16) : (t.colSigns c).WellFormed :=
  (h.cols c).wellFormed

theorem WellFormed.rowEntry_eq (h : t.WellFormed) (i c : UInt16) :
    t.rowEntry i c = (t.rowSigns i).entry (t.negations i) c :=
  SignedTURow.get_toInt (h.rows i) _ c

/-- Rows and columns agree under every flag. -/
theorem WellFormed.entry_eq (h : t.WellFormed) (b : Bool) (i c : UInt16) :
    (t.rowSigns i).entry b c = (t.colSigns c).entry b i := by
  apply @entry_of_entry _ _ (t.negations i) b (h.rowSigns i) (h.colSigns c)
  rw [← h.rowEntry_eq, h.same]
  exact SignedTUColumn.get_toInt (h.cols c) t.negations i

/-- With the flag that it gets, a row in the pivot column has the entry -1 there. -/
theorem touched_entry (h : t.WellFormed) {a : UInt16 × Bool}
    (ha : a ∈ pivotColumnOrder (t.cols pivotCol)) :
    (t.rowSigns a.1).entry (!a.2) pivotCol = -1 := by
  have hmem := mem_pivotColumnOrder.mp ha
  have hnot := (h.colSigns pivotCol).disjoint a.2 a.1 hmem
  rw [h.entry_eq, SignedCursor.entry, if_neg hnot, Bool.not_not, if_pos hmem]

theorem untouched_entry (h : t.WellFormed) {i : UInt16}
    (hi : i ∉ (pivotColumnOrder (t.cols pivotCol)).map (·.1)) : t.rowEntry i pivotCol = 0 := by
  have hnot : ∀ b, i ∉ ((t.colSigns pivotCol).side b).list := fun b hb =>
    hi (List.mem_map.mpr ⟨(i, b), mem_pivotColumnOrder.mpr hb, rfl⟩)
  rw [h.rowEntry_eq, h.entry_eq, SignedCursor.entry, if_neg (hnot _), if_neg (hnot _)]

/-- The state between the loops over the pivot column and over the pivot row. -/
structure ReadyToPivot (t : SparseTableau) (pivotRow pivotCol : UInt16) (s : Touched) : Prop where
  nodup : s.touchedRows.Nodup
  restored : s.negatedRows.foldl negate s.negations = t.negations
  pivotFlag : s.negations pivotRow = t.negations pivotRow
  touched : ∀ i ∈ s.touchedRows, i ≠ pivotRow ∧
    (t.rowSigns i).entry (s.negations i) pivotCol = -1
  untouched : ∀ i, i ∉ s.touchedRows → s.negations i = t.negations i ∧
    (i ≠ pivotRow → t.rowEntry i pivotCol = 0)
  holds : Holds s.negations (fun i c => (t.rowSigns i).entry (s.negations i) c)
    (s.rowIters, t.cols)
  rowIdx : s.rowIters.map RowIterator.rowIdx = s.touchedRows
  start : ∀ it ∈ s.rowIters, ∀ c, it.its.Ready c

theorem touchAll_ready (h : t.WellFormed) : ReadyToPivot t pivotRow pivotCol
    (touchAll t.rows pivotRow (pivotColumnOrder (t.cols pivotCol)) ⟨t.negations, [], [], []⟩) := by
  have hsorted := pivotColumnOrder_sorted (h.cols pivotCol)
  have hall := @touchAll_spec t.rows pivotRow _ hsorted ⟨t.negations, [], [], []⟩
  generalize touchAll t.rows pivotRow (pivotColumnOrder (t.cols pivotCol))
    ⟨t.negations, [], [], []⟩ = s at hall
  have hothers := hsorted.filter fun a => a.1 ≠ pivotRow
  generalize hdef : (pivotColumnOrder (t.cols pivotCol)).filter (fun a => a.1 ≠ pivotRow) = others
    at hall hothers
  have hmem : ∀ a ∈ others, a ∈ pivotColumnOrder (t.cols pivotCol) ∧ a.1 ≠ pivotRow := by
    intro a ha
    rw [← hdef, List.mem_filter] at ha
    exact ⟨ha.1, of_decide_eq_true ha.2⟩
  have htouched : s.touchedRows = others.map (·.1) := hall.touchedRows
  have hiters : s.rowIters = others.map fun a => .beginInsert (t.rows a.1) (!a.2) a.1 :=
    hall.rowIters
  refine ⟨?_, hall.restored, ?_, ?_, ?_, ⟨?_, ?_, ?_, ?_, ?_, ?_⟩, ?_, ?_⟩
  · rw [htouched]
    exact (List.pairwise_map.mpr hothers).imp ne_of_lt
  · refine hall.same _ fun hi => ?_
    obtain ⟨a, ha, heq⟩ := List.mem_map.mp hi
    exact (hmem a ha).2 heq
  · intro i hi
    rw [htouched] at hi
    obtain ⟨a, ha, rfl⟩ := List.mem_map.mp hi
    refine ⟨(hmem a ha).2, ?_⟩
    rw [hall.flag a ha]
    exact touched_entry h (hmem a ha).1
  · intro i hi
    rw [htouched] at hi
    refine ⟨hall.same i hi, fun hne => untouched_entry h fun hkey => hi ?_⟩
    obtain ⟨a, ha, rfl⟩ := List.mem_map.mp hkey
    refine List.mem_map_of_mem ?_
    rw [← hdef]
    exact List.mem_filter.mpr ⟨ha, decide_eq_true hne⟩
  · rw [hiters]
    exact List.pairwise_map.mpr hothers
  · intro it hit
    rw [hiters] at hit
    obtain ⟨a, ha, rfl⟩ := List.mem_map.mp hit
    exact (hall.flag a ha).symm
  · intro it hit
    rw [hiters] at hit
    obtain ⟨a, ha, rfl⟩ := List.mem_map.mp hit
    exact h.rowSigns a.1
  · intro it hit c
    rw [hiters] at hit
    obtain ⟨a, ha, rfl⟩ := List.mem_map.mp hit
    change (t.rowSigns a.1).entry (!a.2) c = (t.rowSigns a.1).entry (s.negations a.1) c
    rw [hall.flag a ha]
  · exact h.colSigns
  · exact fun i c => (h.entry_eq _ i c).symm
  · rw [hiters, htouched, List.map_map]
    rfl
  · intro it hit c b
    rw [hiters] at hit
    obtain ⟨a, ha, rfl⟩ := List.mem_map.mp hit
    cases b <;> exact Cursor.start_ready _ c

/-- The tableau `t'` holds the pivoted matrix, in rows and columns, with the flags of `t`. -/
structure IsPivot (t t' : SparseTableau) (pivotRow pivotCol : UInt16) : Prop where
  rowEntries : ∀ i c, t'.rowEntry i c = densePivot t.rowEntry pivotRow pivotCol i c
  colEntries : ∀ i c, t'.colEntry i c = densePivot t.rowEntry pivotRow pivotCol i c
  values : ∀ i, t'.getValue i = densePivotValue t.rowEntry t.getValue pivotRow pivotCol i
  rows : ∀ i, SortedSides (t'.rows i).pos (t'.rows i).neg
  cols : ∀ c, SortedSides (t'.cols c).pos (t'.cols c).neg
  negations : t'.negations = t.negations

theorem entry_lists (p : SignedCursor UInt16) (b : Bool) (x : UInt16) :
    (signs p.pos.list p.neg.list).entry b x = p.entry b x := by
  cases b <;> rfl

/-- The matrix that the cursors leave, under the flags of the loops. -/
theorem addColumns_order (h : t.WellFormed) {s : Touched} (hs : ReadyToPivot t pivotRow pivotCol s)
    (i c : UInt16) :
    addColumns s.touchedRows (fun i c => (t.rowSigns i).entry (s.negations i) c)
      ((advanceOrder (t.rows pivotRow) (s.negations pivotRow)).map (·.1))
      (t.rowEntry pivotRow) i c =
      if i ∈ s.touchedRows then
        (t.rowSigns i).entry (s.negations i) c + t.rowEntry pivotRow c
      else t.rowEntry i c := by
  rw [addColumns]
  by_cases hi : i ∈ s.touchedRows
  · rw [if_pos hi]
    split
    · rfl
    · rename_i hc
      have hzero : t.rowEntry pivotRow c = 0 := by
        rw [rowEntry, ← hs.pivotFlag]
        exact get_eq_zero fun hmem => hc ⟨hi, hmem⟩
      rw [hzero, add_zero]
  · rw [if_neg hi, if_neg fun hic => hi hic.1, (hs.untouched i hi).1, ← h.rowEntry_eq]

/-- The rows that are not touched stay as they are in the dense pivot. -/
theorem densePivot_untouched {s : Touched} (hs : ReadyToPivot t pivotRow pivotCol s)
    {i : UInt16} (hi : i ∉ s.touchedRows) (c : UInt16) :
    densePivot t.rowEntry pivotRow pivotCol i c = t.rowEntry i c := by
  rw [densePivot]
  split
  · rfl
  · rename_i hne
    rw [(hs.untouched i hi).2 hne, zero_mul, sub_zero]

theorem densePivot_touched (h : t.WellFormed) {s : Touched}
    (hs : ReadyToPivot t pivotRow pivotCol s) {i : UInt16} (hi : i ∈ s.touchedRows) (c : UInt16) :
    densePivot t.rowEntry pivotRow pivotCol i c = (t.rowSigns i).entry (t.negations i) c -
      (t.rowSigns i).entry (t.negations i) pivotCol * t.rowEntry pivotRow c := by
  rw [densePivot, if_neg (hs.touched i hi).1, h.rowEntry_eq i c, h.rowEntry_eq i pivotCol]

/-- What the loop over the pivot row leaves is the dense pivot, under the flags of `t`. -/
theorem entry_of_holds (h : t.WellFormed) {s : Touched} (hs : ReadyToPivot t pivotRow pivotCol s)
    {p : SignedCursor UInt16} (hp : p.WellFormed) {i c x : UInt16}
    (hentry : p.entry (s.negations i) x = addColumns s.touchedRows
      (fun i c => (t.rowSigns i).entry (s.negations i) c)
      ((advanceOrder (t.rows pivotRow) (s.negations pivotRow)).map (·.1))
      (t.rowEntry pivotRow) i c) :
    p.entry (t.negations i) x = densePivot t.rowEntry pivotRow pivotCol i c := by
  rw [addColumns_order h hs] at hentry
  by_cases hi : i ∈ s.touchedRows
  · rw [if_pos hi] at hentry
    rw [densePivot_touched h hs hi]
    exact entry_sub_of_touched (h.rowSigns i) hp (hs.touched i hi).2 hentry
  · rw [if_neg hi, (hs.untouched i hi).1] at hentry
    rw [densePivot_untouched hs hi, hentry]

theorem setSinglePos_spec (negations : UInt16 → Bool) (i : UInt16) :
    SortedSides (setSinglePos negations i).pos (setSinglePos negations i).neg ∧
      ∀ j, ((setSinglePos negations i).get negations j).toInt = if j = i then 1 else 0 := by
  rw [setSinglePos]
  cases hflag : negations i with
  | false =>
    refine ⟨⟨List.pairwise_singleton _ i, List.Pairwise.nil, by simp⟩, fun j => ?_⟩
    by_cases hj : j = i
    · subst hj
      simp [SignedTUColumn.get, hflag]
    · simp [SignedTUColumn.get, hj]
  | true =>
    refine ⟨⟨List.Pairwise.nil, List.pairwise_singleton _ i, by simp⟩, fun j => ?_⟩
    by_cases hj : j = i
    · subst hj
      simp [SignedTUColumn.get, hflag]
    · simp [SignedTUColumn.get, hj]

section After

variable {s : Touched} {r : List RowIterator × (UInt16 → SignedTUColumn)}

theorem pivotResult_row (h : t.WellFormed) (hs : ReadyToPivot t pivotRow pivotCol s)
    (hidx : r.1.map RowIterator.rowIdx = s.touchedRows)
    (hholds : Holds s.negations (addColumns s.touchedRows
      (fun i c => (t.rowSigns i).entry (s.negations i) c)
      ((advanceOrder (t.rows pivotRow) (s.negations pivotRow)).map (·.1))
      (t.rowEntry pivotRow)) r) (i : UInt16) :
    SortedSides ((pivotResult t pivotRow pivotCol s r).rows i).pos
      ((pivotResult t pivotRow pivotCol s r).rows i).neg ∧
      (pivotResult t pivotRow pivotCol s r).getValue i =
        densePivotValue t.rowEntry t.getValue pivotRow pivotCol i ∧
      ∀ c, (pivotResult t pivotRow pivotCol s r).rowEntry i c =
        densePivot t.rowEntry pivotRow pivotCol i c := by
  have hflags : (pivotResult t pivotRow pivotCol s r).negations = t.negations := hs.restored
  by_cases hi : i ∈ s.touchedRows
  · obtain ⟨it, hit, rfl⟩ := List.mem_map.mp (hidx ▸ hi)
    have hrow := @pivotResult_touched t pivotRow pivotCol s r hidx hs.nodup it hit
    have hsides := wellFormed_iff.mp (hholds.rows it hit)
    refine ⟨by rw [hrow]; exact hsides, ?_, fun c => ?_⟩
    · rw [getValue, hrow, hflags, densePivotValue, if_neg (hs.touched _ hi).1, h.rowEntry_eq,
        getValue, getValue, ← hs.pivotFlag]
      exact value_sub_of_touched (h.rowSigns _) (hs.touched _ hi).2 (t.rows it.rowIdx) _
    · rw [rowEntry, hrow, hflags]
      have hentry := hholds.rowEntries it hit c
      rw [rowEntryAt, hholds.negated it hit] at hentry
      rw [← entry_of_holds h hs (hholds.rows it hit) hentry, ← entry_lists]
      exact @SignedTURow.get_toInt ⟨it.its.pos.list, it.its.neg.list, 0⟩ hsides _ c
  · have hrow := @pivotResult_other t pivotRow pivotCol s r hidx i hi
    refine ⟨by rw [hrow]; exact h.rows i, ?_, fun c => ?_⟩
    · rw [getValue, hrow, hflags, densePivotValue]
      split
      · rfl
      · rename_i hne
        rw [(hs.untouched i hi).2 hne, show BitVec.ofInt 128 0 = 0#128 from rfl,
          BitVec.zero_mul, BitVec.sub_zero]
        rfl
    · rw [rowEntry, hrow, hflags, densePivot_untouched hs hi]
      rfl

theorem pivotResult_col (h : t.WellFormed) (hs : ReadyToPivot t pivotRow pivotCol s)
    (hpivot : t.rowEntry pivotRow pivotCol = 1)
    (hholds : Holds s.negations (addColumns s.touchedRows
      (fun i c => (t.rowSigns i).entry (s.negations i) c)
      ((advanceOrder (t.rows pivotRow) (s.negations pivotRow)).map (·.1))
      (t.rowEntry pivotRow)) r) (c : UInt16) :
    SortedSides ((pivotResult t pivotRow pivotCol s r).cols c).pos
      ((pivotResult t pivotRow pivotCol s r).cols c).neg ∧
      ∀ i, (pivotResult t pivotRow pivotCol s r).colEntry i c =
        densePivot t.rowEntry pivotRow pivotCol i c := by
  have hflags : (pivotResult t pivotRow pivotCol s r).negations = t.negations := hs.restored
  by_cases hc : c = pivotCol
  · subst hc
    have hcol : (pivotResult t pivotRow c s r).cols c = setSinglePos s.negations pivotRow :=
      Function.update_self _ _ _
    have hsingle : setSinglePos s.negations pivotRow = setSinglePos t.negations pivotRow := by
      rw [setSinglePos, setSinglePos, hs.pivotFlag]
    obtain ⟨hsides, hentries⟩ := setSinglePos_spec t.negations pivotRow
    refine ⟨by rw [hcol, hsingle]; exact hsides, fun i => ?_⟩
    rw [colEntry, hcol, hsingle, hflags, hentries, densePivot]
    split
    · rename_i heq
      rw [heq, hpivot]
    · rw [hpivot, mul_one, sub_self]
  · have hcol : (pivotResult t pivotRow pivotCol s r).cols c = r.2 c :=
      Function.update_of_ne hc _ _
    have hsides := wellFormed_iff.mp (hholds.cols c)
    refine ⟨by rw [hcol]; exact hsides, fun i => ?_⟩
    rw [colEntry, hcol, hflags, SignedTUColumn.get_toInt hsides]
    exact entry_of_holds h hs (hholds.cols c) (hholds.colEntries i c)

end After

/-- A sparse pivot is a Gauss-Jordan pivot, where the pivoted matrix has entries 1, 0 and -1. -/
theorem doPivot_isPivot (t : SparseTableau) (h : t.WellFormed) (pivotRow pivotCol : UInt16)
    (hpivot : t.rowEntry pivotRow pivotCol = 1)
    (hrange : ∀ i c, -1 ≤ densePivot t.rowEntry pivotRow pivotCol i c ∧
      densePivot t.rowEntry pivotRow pivotCol i c ≤ 1) :
    ∃ t', t.doPivot pivotRow pivotCol = .ok t' ∧ IsPivot t t' pivotRow pivotCol := by
  have hs := @touchAll_ready t pivotRow pivotCol h
  generalize htouch : touchAll t.rows pivotRow (pivotColumnOrder (t.cols pivotCol))
    ⟨t.negations, [], [], []⟩ = s at hs
  have hcoeff := @advanceOrder_coeff (t.rows pivotRow) (s.negations pivotRow) (h.rows pivotRow)
  obtain ⟨r, hrun, hidx, hholds⟩ := @modifyColumns_spec _ _ _
    (advanceOrder (t.rows pivotRow) (s.negations pivotRow)) (t.rowEntry pivotRow) hs.holds
    (advanceOrder_sorted (h.rows pivotRow)) (fun a ha => (hcoeff ha).1)
    (fun a ha => by rw [(hcoeff ha).2, rowEntry, hs.pivotFlag])
    (fun it hit a _ => hs.start it hit a.1)
    (fun i hi c _ => by
      rw [hs.rowIdx] at hi
      have hi' := hrange i c
      rw [densePivot_touched h hs hi] at hi'
      exact range_of_touched (h.rowSigns i) (hs.touched i hi).2 hi')
  dsimp only at hidx hholds
  rw [hs.rowIdx] at hidx hholds
  refine ⟨_, doPivot_eq t pivotRow pivotCol htouch hrun, ?_⟩
  have hrows := @pivotResult_row t pivotRow pivotCol s r h hs hidx hholds
  have hcols := @pivotResult_col t pivotRow pivotCol s r h hs hpivot hholds
  exact ⟨fun i => (hrows i).2.2, fun i c => (hcols c).2 i, fun i => (hrows i).2.1,
    fun i => (hrows i).1, fun c => (hcols c).1, hs.restored⟩

end Pivot

/-- The rows (1, 1) and (1, 0), the second one negated. -/
def twoRows : SparseTableau where
  negations i := i == 1
  rows i := if i = 0 then ⟨[0, 1], [], 5⟩ else if i = 1 then ⟨[], [0], -7⟩ else ⟨[], [], 0⟩
  cols c := if c = 0 then ⟨[0], [1]⟩ else if c = 1 then ⟨[0], []⟩ else ⟨[], []⟩

theorem twoRows_entry (i c : UInt16) : twoRows.rowEntry i c =
    if c = 0 then (if i = 0 ∨ i = 1 then 1 else 0) else if c = 1 ∧ i = 0 then 1 else 0 := by
  by_cases hi : i = 0
  · subst hi
    by_cases hc : c = 0
    · subst hc
      rfl
    · by_cases hc' : c = 1
      · subst hc'
        rfl
      · simp [rowEntry, twoRows, SignedTURow.get, hc, hc']
  · by_cases hi' : i = 1
    · subst hi'
      by_cases hc : c = 0
      · subst hc
        rfl
      · simp [rowEntry, twoRows, SignedTURow.get, hc]
    · simp [rowEntry, twoRows, SignedTURow.get, hi, hi']

theorem twoRows_wellFormed : twoRows.WellFormed where
  rows i := by
    simp only [twoRows]
    split
    · exact ⟨by simp, by simp, by simp⟩
    · split <;> exact ⟨by simp, by simp, by simp⟩
  cols c := by
    simp only [twoRows]
    split
    · exact ⟨by simp, by simp, by simp⟩
    · split <;> exact ⟨by simp, by simp, by simp⟩
  same i c := by
    rw [twoRows_entry]
    by_cases hc : c = 0
    · subst hc
      by_cases hi : i = 0
      · subst hi
        rfl
      · by_cases hi' : i = 1
        · subst hi'
          rfl
        · simp [colEntry, twoRows, SignedTUColumn.get, hi, hi']
    · by_cases hc' : c = 1
      · subst hc'
        by_cases hi : i = 0
        · subst hi
          rfl
        · simp [colEntry, twoRows, SignedTUColumn.get, hi]
      · simp [colEntry, twoRows, SignedTUColumn.get, hc, hc']

theorem doPivot_isPivot_twoRows :
    ∃ t', twoRows.doPivot 0 0 = .ok t' ∧ IsPivot twoRows t' 0 0 := by
  refine doPivot_isPivot twoRows twoRows_wellFormed 0 0 (twoRows_entry 0 0) fun i c => ?_
  rw [densePivot, twoRows_entry, twoRows_entry, twoRows_entry]
  split_ifs <;> omega

end SparseTableau

end Speedex
