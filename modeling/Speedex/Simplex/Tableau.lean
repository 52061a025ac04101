import Speedex.Types
import Speedex.Lib.Except
import Speedex.Lib.Cursor
import Speedex.Lib.SortedList
import Speedex.Simplex.ObjectiveRow

/-! The pivot of the sparse tableau (`simplex/sparse.h` and `simplex/sparse.cc`).  Rows and columns
hold the same matrix of signs in two ways, as lists of positions, and a flag for each row turns its
signs around in both.  The rows with an entry in the pivot column are negated for the pivot until
that entry is -1, and the pivot row is added to them through cursors. -/

namespace Speedex

open Lib

instance linearOrderUInt16 : LinearOrder UInt16 where
  le_refl := UInt16.le_refl
  le_trans _ _ _ := UInt16.le_trans
  lt_iff_le_not_ge a b := by rw [UInt16.not_le]; exact ⟨fun h => ⟨UInt16.le_of_lt h, h⟩, And.right⟩
  le_antisymm _ _ := UInt16.le_antisymm
  le_total := UInt16.le_total
  toDecidableLE := fun _ _ => inferInstance
  toDecidableLT := fun _ _ => inferInstance
  toDecidableEq := inferInstance

/-- `SignedTUColumn`: the rows with entry 1 and those with entry -1, where the row is not
negated. -/
structure SignedTUColumn where
  pos : List UInt16
  neg : List UInt16

/-- `operator[]`. -/
def SignedTUColumn.get (col : SignedTUColumn) (negations : UInt16 → Bool) (row : UInt16) : Int8 :=
  if col.pos.contains row then (if negations row then -1 else 1)
  else if col.neg.contains row then (if negations row then 1 else -1)
  else 0

/-- `set_single_pos`. -/
def setSinglePos (negations : UInt16 → Bool) (rowIdx : UInt16) : SignedTUColumn :=
  if negations rowIdx then ⟨[], [rowIdx]⟩ else ⟨[rowIdx], []⟩

/-- `set_value`. -/
def SignedTURow.setValue (row : SignedTURow) (negated : Bool) (newValue : BitVec 128) :
    SignedTURow :=
  { row with value := if negated then -newValue else newValue }

/-- The vectors of the tableau; rows and columns past their ends are empty. -/
structure SparseTableau where
  negations : UInt16 → Bool
  rows : UInt16 → SignedTURow
  cols : UInt16 → SignedTUColumn

/-! ### The iterators -/

/-- `SignedTURow::iterator`.  The lists under the cursors are those of the row. -/
structure RowIterator where
  its : SignedCursor UInt16
  negated : Bool
  rowIdx : UInt16

namespace RowIterator

/-- `begin_insert`. -/
def beginInsert (row : SignedTURow) (negated : Bool) (rowIdx : UInt16) : RowIterator :=
  ⟨⟨.start row.pos, .start row.neg⟩, negated, rowIdx⟩

def insertPos (it : RowIterator) (idx : UInt16) : RowIterator :=
  { it with its := it.its.insertTo it.negated idx }

def insertNeg (it : RowIterator) (idx : UInt16) : RowIterator :=
  { it with its := it.its.insertTo (!it.negated) idx }

def tryErasePos (it : RowIterator) (idx : UInt16) : Bool × RowIterator :=
  let r := it.its.tryEraseFrom it.negated idx
  (r.1, { it with its := r.2 })

def tryEraseNeg (it : RowIterator) (idx : UInt16) : Bool × RowIterator :=
  let r := it.its.tryEraseFrom (!it.negated) idx
  (r.1, { it with its := r.2 })

end RowIterator

/-- `SignedTUColumn::iterator`. -/
abbrev ColIterator := SignedCursor UInt16

namespace ColIterator

def insertPos (negations : UInt16 → Bool) (it : ColIterator) (row : UInt16) : ColIterator :=
  it.insertTo (negations row) row

def insertNeg (negations : UInt16 → Bool) (it : ColIterator) (row : UInt16) : ColIterator :=
  it.insertTo (!negations row) row

def removePos (negations : UInt16 → Bool) (it : ColIterator) (row : UInt16) : Result ColIterator :=
  let r := it.tryEraseFrom (negations row) row
  if r.1 then .ok r.2 else .error (.runtimeError "desync")

def removeNeg (negations : UInt16 → Bool) (it : ColIterator) (row : UInt16) : Result ColIterator :=
  let r := it.tryEraseFrom (!negations row) row
  if r.1 then .ok r.2 else .error (.runtimeError "desync")

end ColIterator

namespace RowIterator

def guardedInsertPos (negations : UInt16 → Bool) (it : RowIterator) (idx : UInt16)
    (modCol : ColIterator) : Result (RowIterator × ColIterator) :=
  let r := it.tryEraseNeg idx
  if !r.1 then .ok (r.2.insertPos idx, ColIterator.insertPos negations modCol it.rowIdx)
  else do
    let modCol ← ColIterator.removeNeg negations modCol it.rowIdx
    return (r.2, modCol)

def guardedInsertNeg (negations : UInt16 → Bool) (it : RowIterator) (idx : UInt16)
    (modCol : ColIterator) : Result (RowIterator × ColIterator) :=
  let r := it.tryErasePos idx
  if !r.1 then .ok (r.2.insertNeg idx, ColIterator.insertNeg negations modCol it.rowIdx)
  else do
    let modCol ← ColIterator.removePos negations modCol it.rowIdx
    return (r.2, modCol)

end RowIterator

/-! ### The pivot -/

namespace SparseTableau

/-- The order in which `do_pivot` goes through the pivot column, each row with the list it is in. -/
def pivotColumnOrder (col : SignedTUColumn) : List (UInt16 × Bool) :=
  (col.pos.map (·, false)).merge (col.neg.map (·, true)) fun p n => decide (p.1 < n.1)

/-- The columns that `advance` returns, one after the other, with their coefficients. -/
def advanceOrder (row : SignedTURow) (negated : Bool) : List (UInt16 × Int8) :=
  ((row.pos.map fun idx => (idx, (1 : Int8))).merge (row.neg.map fun idx => (idx, (-1 : Int8)))
    fun p n => !decide (n.1 < p.1)).map fun a => (a.1, if negated then a.2 * -1 else a.2)

/-- `negate`, of a row. -/
def negate (negations : UInt16 → Bool) (rowIdx : UInt16) : UInt16 → Bool :=
  Function.update negations rowIdx (!negations rowIdx)

/-- The locals of `do_pivot` while it goes through the pivot column. -/
structure Touched where
  negations : UInt16 → Bool
  rowIters : List RowIterator
  negatedRows : List UInt16
  touchedRows : List UInt16

/-- A row is touched, and negated if it has the flag `negated`. -/
def touch (rows : UInt16 → SignedTURow) (pivotRow : UInt16) (negated : Bool) (s : Touched)
    (rowIdx : UInt16) : Touched :=
  if rowIdx = pivotRow then s
  else
    let s := if s.negations rowIdx = negated then
        { s with
          negations := negate s.negations rowIdx
          negatedRows := s.negatedRows ++ [rowIdx] }
      else s
    { s with
      touchedRows := s.touchedRows ++ [rowIdx]
      rowIters := s.rowIters ++ [.beginInsert (rows rowIdx) (s.negations rowIdx) rowIdx] }

/-- `add_pos_it`. -/
def addPosIt (rows : UInt16 → SignedTURow) (pivotRow : UInt16) : Touched → UInt16 → Touched :=
  touch rows pivotRow false

/-- `add_neg_it`. -/
def addNegIt (rows : UInt16 → SignedTURow) (pivotRow : UInt16) : Touched → UInt16 → Touched :=
  touch rows pivotRow true

/-- The loop over `row_iters`, for one column of the pivot row. -/
def insertRows (negations : UInt16 → Bool) (nextColIdx : UInt16) (coeff : Int8) :
    List RowIterator → ColIterator → Result (List RowIterator × ColIterator)
  | [], modCol => .ok ([], modCol)
  | it :: its, modCol => do
    let r ← (if 0 < coeff then it.guardedInsertPos negations nextColIdx modCol
      else it.guardedInsertNeg negations nextColIdx modCol)
    let rest ← insertRows negations nextColIdx coeff its r.2
    return (r.1 :: rest.1, rest.2)

/-- One round of the loop of `do_pivot`. -/
def modifyColumn (negations : UInt16 → Bool)
    (s : List RowIterator × (UInt16 → SignedTUColumn)) (a : UInt16 × Int8) :
    Result (List RowIterator × (UInt16 → SignedTUColumn)) := do
  let modCol := s.2 a.1
  let r ← insertRows negations a.1 a.2 s.1 ⟨.start modCol.pos, .start modCol.neg⟩
  return (r.1, Function.update s.2 a.1 ⟨r.2.pos.list, r.2.neg.list⟩)

def doPivot (t : SparseTableau) (pivotRow pivotCol : UInt16) : Result SparseTableau := do
  let row := t.rows pivotRow
  let s := (pivotColumnOrder (t.cols pivotCol)).foldl (fun s a =>
    if a.2 then addNegIt t.rows pivotRow s a.1 else addPosIt t.rows pivotRow s a.1)
    ⟨t.negations, [], [], []⟩
  let r ← (advanceOrder row (s.negations pivotRow)).foldlM (modifyColumn s.negations)
    (s.rowIters, t.cols)
  -- The rows are as the cursors have left them.
  let rows := updateAll RowIterator.rowIdx
    (fun it row => { row with pos := it.its.pos.list, neg := it.its.neg.list }) r.1 t.rows
  let cols := Function.update r.2 pivotCol (setSinglePos s.negations pivotRow)
  let value := row.getValue (s.negations pivotRow)
  let rows := updateAll id (fun rowIdx row => row.setValue (s.negations rowIdx)
    (row.getValue (s.negations rowIdx) + value)) s.touchedRows rows
  return ⟨s.negatedRows.foldl negate s.negations, rows, cols⟩

/-! ### One column of the pivot row -/

/-- The sign in whose units the coefficient is one. -/
def unitOf (coeff : Int8) (negated : Bool) : Bool := if 0 < coeff then negated else !negated

/-- What `guarded_insert_pos` and `guarded_insert_neg` do to the row. -/
def added (it : RowIterator) (idx : UInt16) (coeff : Int8) : RowIterator :=
  { it with its := (it.its.add (unitOf coeff it.negated) idx).2 }

/-- `guarded_insert_pos`, or `guarded_insert_neg`. -/
def guardedInsert (negations : UInt16 → Bool) (idx : UInt16) (coeff : Int8) (it : RowIterator)
    (modCol : ColIterator) : Result (RowIterator × ColIterator) :=
  if 0 < coeff then it.guardedInsertPos negations idx modCol
  else it.guardedInsertNeg negations idx modCol

section Insert

variable {negations : UInt16 → Bool} {idx : UInt16} {coeff : Int8} {it : RowIterator}
  {modCol : ColIterator}

theorem guardedInsertPos_eq (hneg : it.negated = negations it.rowIdx)
    (hknown : (modCol.addKnown (it.its.add it.negated idx).1 it.negated it.rowIdx).1 = true) :
    it.guardedInsertPos negations idx modCol =
      .ok ({ it with its := (it.its.add it.negated idx).2 },
        (modCol.addKnown (it.its.add it.negated idx).1 it.negated it.rowIdx).2) := by
  unfold RowIterator.guardedInsertPos
  cases herased : (it.its.tryEraseFrom (!it.negated) idx).1 with
  | false =>
    simp [RowIterator.tryEraseNeg, herased, RowIterator.insertPos, SignedCursor.add,
      SignedCursor.addKnown, ColIterator.insertPos, ← hneg]
  | true =>
    simp only [SignedCursor.add, herased, if_true, SignedCursor.addKnown] at hknown ⊢
    simp [RowIterator.tryEraseNeg, herased, ColIterator.removeNeg, ← hneg, hknown]

theorem guardedInsertNeg_eq (hneg : it.negated = negations it.rowIdx)
    (hknown : (modCol.addKnown (it.its.add (!it.negated) idx).1 (!it.negated) it.rowIdx).1 =
      true) :
    it.guardedInsertNeg negations idx modCol =
      .ok ({ it with its := (it.its.add (!it.negated) idx).2 },
        (modCol.addKnown (it.its.add (!it.negated) idx).1 (!it.negated) it.rowIdx).2) := by
  unfold RowIterator.guardedInsertNeg
  cases herased : (it.its.tryEraseFrom it.negated idx).1 with
  | false =>
    simp [RowIterator.tryErasePos, herased, RowIterator.insertNeg, SignedCursor.add,
      SignedCursor.addKnown, ColIterator.insertNeg, ← hneg]
  | true =>
    simp only [SignedCursor.add, herased, if_true, SignedCursor.addKnown, Bool.not_not] at hknown ⊢
    simp [RowIterator.tryErasePos, herased, ColIterator.removePos, ← hneg, hknown]

/-- The entry of the iterator's row at `c`. -/
def rowEntryAt (it : RowIterator) (c : UInt16) : Int := it.its.entry it.negated c

theorem toInt_of_coeff (hcoeff : coeff = 1 ∨ coeff = -1) :
    (0 < coeff ∧ coeff.toInt = 1) ∨ (¬ 0 < coeff ∧ coeff.toInt = -1) := by
  rcases hcoeff with rfl | rfl
  · exact .inl ⟨by decide, rfl⟩
  · exact .inr ⟨by decide, rfl⟩

/-- A vector of signs whose entry at `x` stays one, in units of the coefficient. -/
theorem entry_unitOf {p p' : SignedCursor UInt16} (hwf : p.WellFormed) (hwf' : p'.WellFormed)
    (hcoeff : coeff = 1 ∨ coeff = -1) {negated : Bool} {x : UInt16}
    (h : ∀ y, p'.entry (unitOf coeff negated) y =
      if y = x then p.entry (unitOf coeff negated) x + 1 else p.entry (unitOf coeff negated) y)
    (y : UInt16) :
    p'.entry negated y = if y = x then p.entry negated x + coeff.toInt else p.entry negated y := by
  have hy := h y
  rcases toInt_of_coeff hcoeff with ⟨hpos, hvalue⟩ | ⟨hpos, hvalue⟩
  · rw [unitOf, if_pos hpos] at hy
    rw [hy, hvalue]
  · rw [unitOf, if_neg hpos, SignedCursor.entry_not hwf', SignedCursor.entry_not hwf,
      SignedCursor.entry_not hwf] at hy
    rw [hvalue]
    split at hy
    · rename_i heq
      rw [if_pos heq]
      omega
    · rename_i hne
      rw [if_neg hne]
      omega

/-- In units of the coefficient, an entry that stays in range is not one. -/
theorem entry_unitOf_ne {p : SignedCursor UInt16} (hwf : p.WellFormed)
    (hcoeff : coeff = 1 ∨ coeff = -1) {negated : Bool} {x : UInt16}
    (hrange : -1 ≤ p.entry negated x + coeff.toInt ∧ p.entry negated x + coeff.toInt ≤ 1) :
    p.entry (unitOf coeff negated) x ≠ 1 := by
  rcases toInt_of_coeff hcoeff with ⟨hpos, hvalue⟩ | ⟨hpos, hvalue⟩
  · rw [unitOf, if_pos hpos]
    omega
  · rw [unitOf, if_neg hpos, SignedCursor.entry_not hwf]
    omega

/-- What `guarded_insert_pos` and `guarded_insert_neg` do to a row and a column that agree. -/
theorem guardedInsert_spec (hcoeff : coeff = 1 ∨ coeff = -1)
    (hneg : it.negated = negations it.rowIdx) (hrow : it.its.WellFormed) (hidx : it.its.Ready idx)
    (hcol : modCol.WellFormed) (hready : modCol.Ready it.rowIdx)
    (hsame : rowEntryAt it idx = modCol.entry it.negated it.rowIdx)
    (hrange : -1 ≤ rowEntryAt it idx + coeff.toInt ∧ rowEntryAt it idx + coeff.toInt ≤ 1) :
    ∃ modCol', guardedInsert negations idx coeff it modCol = .ok (added it idx coeff, modCol') ∧
      modCol'.WellFormed ∧ (∀ i, it.rowIdx < i → modCol'.Ready i) ∧
      modCol'.entry it.negated it.rowIdx = modCol.entry it.negated it.rowIdx + coeff.toInt ∧
      ∀ b i, i ≠ it.rowIdx → modCol'.entry b i = modCol.entry b i := by
  have hne := entry_unitOf_ne hrow hcoeff hrange
  obtain ⟨herased, -⟩ := SignedCursor.add_adds hrow hidx hne
  have hunits : it.its.entry (unitOf coeff it.negated) idx =
      modCol.entry (unitOf coeff it.negated) it.rowIdx := by
    rcases toInt_of_coeff hcoeff with ⟨hpos, -⟩ | ⟨hpos, -⟩
    · rw [unitOf, if_pos hpos]
      exact hsame
    · rw [unitOf, if_neg hpos, SignedCursor.entry_not hrow, SignedCursor.entry_not hcol]
      exact congrArg Neg.neg hsame
  obtain ⟨hknown, hadds⟩ := SignedCursor.addKnown_adds hcol hready (hunits ▸ hne) (hunits ▸ herased)
  have hentry := entry_unitOf hcol hadds.wellFormed hcoeff hadds.entry_eq
  refine ⟨_, ?_, hadds.wellFormed, hadds.ready, (hentry _).trans (if_pos rfl), ?_⟩
  · rw [guardedInsert, added]
    split
    · rename_i hpos
      rw [unitOf, if_pos hpos] at hknown ⊢
      exact guardedInsertPos_eq hneg hknown
    · rename_i hpos
      rw [unitOf, if_neg hpos] at hknown ⊢
      exact guardedInsertNeg_eq hneg hknown
  · refine SignedCursor.forall_side it.negated (fun i hi => ?_) (fun i hi => ?_)
    · exact (hentry i).trans (if_neg hi)
    · rw [SignedCursor.entry_not hadds.wellFormed, SignedCursor.entry_not hcol, hentry i, if_neg hi]

theorem added_spec (hcoeff : coeff = 1 ∨ coeff = -1) (hrow : it.its.WellFormed)
    (hidx : it.its.Ready idx)
    (hrange : -1 ≤ rowEntryAt it idx + coeff.toInt ∧ rowEntryAt it idx + coeff.toInt ≤ 1) :
    (added it idx coeff).its.WellFormed ∧ (∀ c, idx < c → (added it idx coeff).its.Ready c) ∧
      ∀ c, rowEntryAt (added it idx coeff) c =
        if c = idx then rowEntryAt it c + coeff.toInt else rowEntryAt it c := by
  have hne := entry_unitOf_ne hrow hcoeff hrange
  obtain ⟨-, hadds⟩ := SignedCursor.add_adds hrow hidx hne
  refine ⟨hadds.wellFormed, hadds.ready, fun c => ?_⟩
  rw [rowEntryAt]
  rw [show (added it idx coeff).negated = it.negated from rfl,
    show (added it idx coeff).its = (it.its.add (unitOf coeff it.negated) idx).2 from rfl,
    entry_unitOf hrow hadds.wellFormed hcoeff hadds.entry_eq]
  split
  · rename_i heq
    rw [heq]
    rfl
  · rfl

/-- What the loop over `row_iters` does, when each row agrees with the column. -/
theorem insertRows_spec (hcoeff : coeff = 1 ∨ coeff = -1) {its : List RowIterator}
    (hsorted : its.Pairwise fun a b => a.rowIdx < b.rowIdx)
    (hneg : ∀ it ∈ its, it.negated = negations it.rowIdx)
    (hrows : ∀ it ∈ its, it.its.WellFormed) (hidx : ∀ it ∈ its, it.its.Ready idx)
    (hcol : modCol.WellFormed) (hready : ∀ it ∈ its, modCol.Ready it.rowIdx)
    (hsame : ∀ it ∈ its, rowEntryAt it idx = modCol.entry it.negated it.rowIdx)
    (hrange : ∀ it ∈ its, -1 ≤ rowEntryAt it idx + coeff.toInt ∧
      rowEntryAt it idx + coeff.toInt ≤ 1) :
    ∃ modCol', insertRows negations idx coeff its modCol =
        .ok (its.map fun it => added it idx coeff, modCol') ∧ modCol'.WellFormed ∧
      ∀ i, modCol'.entry (negations i) i = if i ∈ its.map RowIterator.rowIdx
        then modCol.entry (negations i) i + coeff.toInt else modCol.entry (negations i) i := by
  induction its generalizing modCol with
  | nil => exact ⟨modCol, rfl, hcol, fun i => by simp⟩
  | cons it its ih =>
    obtain ⟨hlt, hsorted'⟩ := List.pairwise_cons.mp hsorted
    have hit : it ∈ it :: its := List.mem_cons_self
    have hmem : ∀ it' ∈ its, it' ∈ it :: its := fun it' h => List.mem_cons_of_mem it h
    obtain ⟨modCol', hinsert, hcol', hready', hthere, helse⟩ := guardedInsert_spec hcoeff
      (hneg it hit) (hrows it hit) (hidx it hit) hcol (hready it hit) (hsame it hit) (hrange it hit)
    obtain ⟨modCol'', hrest, hcol'', hentry⟩ := ih hsorted' (fun it' h => hneg it' (hmem it' h))
      (fun it' h => hrows it' (hmem it' h)) (fun it' h => hidx it' (hmem it' h)) hcol'
      (fun it' h => hready' _ (hlt it' h))
      (fun it' h => by rw [hsame it' (hmem it' h), helse _ _ (hlt it' h).ne'])
      (fun it' h => hrange it' (hmem it' h))
    refine ⟨modCol'', bind_eq_ok.mpr ⟨_, hinsert, bind_eq_ok.mpr ⟨_, hrest, rfl⟩⟩, hcol'',
      fun i => ?_⟩
    rw [hentry i, List.map_cons]
    by_cases hi : i = it.rowIdx
    · have hnot : i ∉ its.map RowIterator.rowIdx := by
        rintro h
        obtain ⟨it', hit', heq⟩ := List.mem_map.mp h
        exact (hlt it' hit').ne (hi.symm.trans heq.symm)
      rw [if_neg hnot, hi, if_pos List.mem_cons_self, ← hneg it hit]
      exact hthere
    · rw [helse _ _ hi]
      simp [hi]

end Insert

/-! ### All columns of the pivot row -/

/-- The iterators and the columns hold the matrix `m`. -/
structure Holds (negations : UInt16 → Bool) (m : UInt16 → UInt16 → Int)
    (s : List RowIterator × (UInt16 → SignedTUColumn)) : Prop where
  sorted : s.1.Pairwise fun a b => a.rowIdx < b.rowIdx
  negated : ∀ it ∈ s.1, it.negated = negations it.rowIdx
  rows : ∀ it ∈ s.1, it.its.WellFormed
  rowEntries : ∀ it ∈ s.1, ∀ c, rowEntryAt it c = m it.rowIdx c
  cols : ∀ c, (⟨.start (s.2 c).pos, .start (s.2 c).neg⟩ : ColIterator).WellFormed
  colEntries : ∀ i c,
    (⟨.start (s.2 c).pos, .start (s.2 c).neg⟩ : ColIterator).entry (negations i) i = m i c

/-- The matrix with an amount added in one column of some rows. -/
def addColumn (touched : List UInt16) (m : UInt16 → UInt16 → Int) (idx : UInt16) (amount : Int)
    (i c : UInt16) : Int :=
  if i ∈ touched ∧ c = idx then m i c + amount else m i c

theorem modifyColumn_spec {negations : UInt16 → Bool} {m : UInt16 → UInt16 → Int}
    {s : List RowIterator × (UInt16 → SignedTUColumn)} {a : UInt16 × Int8}
    (h : Holds negations m s) (hcoeff : a.2 = 1 ∨ a.2 = -1) (hidx : ∀ it ∈ s.1, it.its.Ready a.1)
    (hrange : ∀ i ∈ s.1.map RowIterator.rowIdx,
      -1 ≤ m i a.1 + a.2.toInt ∧ m i a.1 + a.2.toInt ≤ 1) :
    ∃ s', modifyColumn negations s a = .ok s' ∧
      s'.1.map RowIterator.rowIdx = s.1.map RowIterator.rowIdx ∧
      Holds negations (addColumn (s.1.map RowIterator.rowIdx) m a.1 a.2.toInt) s' ∧
      ∀ it ∈ s'.1, ∀ c, a.1 < c → it.its.Ready c := by
  have hrange' : ∀ it ∈ s.1, -1 ≤ rowEntryAt it a.1 + a.2.toInt ∧
      rowEntryAt it a.1 + a.2.toInt ≤ 1 := by
    intro it hit
    rw [h.rowEntries it hit]
    exact hrange _ (List.mem_map_of_mem hit)
  have hready : ∀ i, (⟨.start (s.2 a.1).pos, .start (s.2 a.1).neg⟩ : ColIterator).Ready i :=
    fun i b => by cases b <;> exact Cursor.start_ready _ i
  obtain ⟨modCol', hinsert, hcol', hentry⟩ := insertRows_spec hcoeff h.sorted h.negated h.rows
    hidx (h.cols a.1) (fun it _ => hready _)
    (fun it hit => by rw [h.rowEntries it hit, h.negated it hit, h.colEntries]) hrange'
  refine ⟨_, bind_eq_ok.mpr ⟨_, hinsert, rfl⟩, ?_, ⟨?_, ?_, ?_, ?_, ?_, ?_⟩, ?_⟩
  · rw [List.map_map]
    rfl
  · exact List.pairwise_map.mpr h.sorted
  · intro it' hit'
    obtain ⟨it, hit, rfl⟩ := List.mem_map.mp hit'
    exact h.negated it hit
  · intro it' hit'
    obtain ⟨it, hit, rfl⟩ := List.mem_map.mp hit'
    exact (added_spec hcoeff (h.rows it hit) (hidx it hit) (hrange' it hit)).1
  · intro it' hit' c
    obtain ⟨it, hit, rfl⟩ := List.mem_map.mp hit'
    have hadded := (added_spec hcoeff (h.rows it hit) (hidx it hit) (hrange' it hit)).2.2 c
    rw [hadded, addColumn, h.rowEntries it hit]
    have htouched : it.rowIdx ∈ s.1.map RowIterator.rowIdx := List.mem_map_of_mem hit
    simp only [show (added it a.1 a.2).rowIdx = it.rowIdx from rfl, htouched, true_and]
  · intro c
    by_cases hc : c = a.1
    · subst hc
      dsimp only
      rw [Function.update_self]
      exact ⟨fun b => by have := hcol'.sorted b; cases b <;> exact this,
        fun b => by have := hcol'.disjoint b; cases b <;> exact this⟩
    · dsimp only
      rw [Function.update_of_ne hc]
      exact h.cols c
  · intro i c
    rw [addColumn]
    by_cases hc : c = a.1
    · subst hc
      dsimp only
      rw [Function.update_self]
      have hlists : (⟨.start modCol'.pos.list, .start modCol'.neg.list⟩ : ColIterator).entry
          (negations i) i = modCol'.entry (negations i) i := by
        cases negations i <;> rfl
      rw [hlists, hentry i, h.colEntries]
      simp only [and_true]
    · dsimp only
      rw [Function.update_of_ne hc, h.colEntries, if_neg fun h => hc h.2]
  · intro it' hit'
    obtain ⟨it, hit, rfl⟩ := List.mem_map.mp hit'
    exact (added_spec hcoeff (h.rows it hit) (hidx it hit) (hrange' it hit)).2.1

/-- The matrix with amounts added in some columns of some rows. -/
def addColumns (touched : List UInt16) (m : UInt16 → UInt16 → Int) (cols : List UInt16)
    (amount : UInt16 → Int) (i c : UInt16) : Int :=
  if i ∈ touched ∧ c ∈ cols then m i c + amount c else m i c

theorem modifyColumns_spec {negations : UInt16 → Bool} {m : UInt16 → UInt16 → Int}
    {s : List RowIterator × (UInt16 → SignedTUColumn)} {order : List (UInt16 × Int8)}
    {amount : UInt16 → Int} (h : Holds negations m s)
    (hsorted : order.Pairwise fun a b => a.1 < b.1) (hcoeff : ∀ a ∈ order, a.2 = 1 ∨ a.2 = -1)
    (hamount : ∀ a ∈ order, a.2.toInt = amount a.1)
    (hidx : ∀ it ∈ s.1, ∀ a ∈ order, it.its.Ready a.1)
    (hrange : ∀ i ∈ s.1.map RowIterator.rowIdx, ∀ c ∈ order.map (·.1),
      -1 ≤ m i c + amount c ∧ m i c + amount c ≤ 1) :
    ∃ s', order.foldlM (modifyColumn negations) s = .ok s' ∧
      s'.1.map RowIterator.rowIdx = s.1.map RowIterator.rowIdx ∧
      Holds negations (addColumns (s.1.map RowIterator.rowIdx) m (order.map (·.1)) amount) s' := by
  induction order generalizing m s with
  | nil =>
    refine ⟨s, rfl, rfl, ?_⟩
    have hsame : addColumns (s.1.map RowIterator.rowIdx) m [] amount = m := by
      funext i c
      simp [addColumns]
    rwa [List.map_nil, hsame]
  | cons a order ih =>
    obtain ⟨hlt, hsorted'⟩ := List.pairwise_cons.mp hsorted
    have ha : a ∈ a :: order := List.mem_cons_self
    have hmem : ∀ b ∈ order, b ∈ a :: order := fun b hb => List.mem_cons_of_mem a hb
    have hnot : a.1 ∉ order.map (·.1) := by
      intro hmem'
      obtain ⟨b, hb, heq⟩ := List.mem_map.mp hmem'
      exact (hlt b hb).ne heq.symm
    obtain ⟨s', hmodify, hrows, hholds, hready⟩ := modifyColumn_spec h (hcoeff a ha)
      (fun it hit => hidx it hit a ha) (fun i hi => by
        rw [hamount a ha]
        exact hrange i hi a.1 (List.mem_map_of_mem ha))
    obtain ⟨s'', hrest, hrows', hholds'⟩ := ih hholds hsorted' (fun b hb => hcoeff b (hmem b hb))
      (fun b hb => hamount b (hmem b hb)) (fun it hit b hb => hready it hit b.1 (hlt b hb))
      (fun i hi c hc => by
        rw [hrows] at hi
        have hne : c ≠ a.1 := fun heq => hnot (heq ▸ hc)
        simp only [addColumn, hne, and_false, if_false]
        exact hrange i hi c (List.mem_cons_of_mem _ hc))
    refine ⟨s'', ?_, hrows'.trans hrows, ?_⟩
    · exact foldlM_cons.mpr ⟨s', hmodify, hrest⟩
    · have hsame : addColumns (s'.1.map RowIterator.rowIdx)
          (addColumn (s.1.map RowIterator.rowIdx) m a.1 a.2.toInt) (order.map (·.1)) amount =
          addColumns (s.1.map RowIterator.rowIdx) m ((a :: order).map (·.1)) amount := by
        funext i c
        rw [hrows, addColumns, addColumns, addColumn, hamount a ha, List.map_cons]
        by_cases hc : c = a.1
        · subst hc
          simp [hnot]
        · simp [hc]
      rwa [hsame] at hholds'

end SparseTableau

end Speedex
