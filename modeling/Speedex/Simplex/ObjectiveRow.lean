import Mathlib

/-! The objective row of the sparse simplex solver (`simplex/objective_row.h`, and the choice of a
column in `simplex/simplex.cc`).  The columns with a positive entry are found through hints, which
are pushed when an entry becomes positive and popped when a column is chosen. -/

namespace Speedex

/-- `SignedTURow`: the columns with entry 1 and those with entry -1, and the value.  All signs are
the other way round where the row is negated. -/
structure SignedTURow where
  pos : List UInt16
  neg : List UInt16
  value : BitVec 128

namespace SignedTURow

/-- `get_value`. -/
def getValue (row : SignedTURow) (negated : Bool) : BitVec 128 :=
  if negated then -row.value else row.value

/-- `operator[]`. -/
def get (row : SignedTURow) (negated : Bool) (col : UInt16) : Int8 :=
  if row.pos.contains col then (if negated then -1 else 1)
  else if row.neg.contains col then (if negated then 1 else -1)
  else 0

/-- Every column has one entry. -/
def WellFormed (row : SignedTURow) : Prop := (row.pos ++ row.neg).Nodup

instance (row : SignedTURow) : Decidable row.WellFormed :=
  inferInstanceAs (Decidable (row.pos ++ row.neg).Nodup)

end SignedTURow

/-- The hints have the one that is next in front. -/
structure ObjectiveRow where
  matrixEntries : UInt16 → Int8
  nzHints : List UInt16
  rowValue : BitVec 128

namespace ObjectiveRow

/-- The constructor. -/
def new : ObjectiveRow := ⟨fun _ => 0, [], 0⟩

/-- An entry is replaced, with a hint if it is now positive and not above a bound. -/
def setEntry (o : ObjectiveRow) (col : UInt16) (value : Int8) (bound : Int) : ObjectiveRow where
  matrixEntries := Function.update o.matrixEntries col value
  nzHints := if 0 < value ∧ value.toInt ≤ bound then col :: o.nzHints else o.nzHints
  rowValue := o.rowValue

/-- The body of the loop over `row.pos`. -/
def subtractPos (coeff : Int8) (o : ObjectiveRow) (p : UInt16) : ObjectiveRow :=
  o.setEntry p (o.matrixEntries p - coeff) (-coeff.toInt)

/-- The body of the loop over `row.neg`. -/
def subtractNeg (coeff : Int8) (o : ObjectiveRow) (n : UInt16) : ObjectiveRow :=
  o.setEntry n (o.matrixEntries n + coeff) coeff.toInt

/-- `subtract_sparse`. -/
def subtractSparse (o : ObjectiveRow) (row : SignedTURow) (negated : Bool) (pivotCol : UInt16) :
    ObjectiveRow :=
  let coeff := o.matrixEntries pivotCol
  let o := { o with rowValue := o.rowValue - BitVec.ofInt 128 coeff.toInt * row.getValue negated }
  let coeff := if negated then coeff * -1 else coeff
  row.neg.foldl (subtractNeg coeff) (row.pos.foldl (subtractPos coeff) o)

def setIdx (o : ObjectiveRow) (idx : UInt16) (value : Int8) : ObjectiveRow where
  matrixEntries := Function.update o.matrixEntries idx value
  nzHints := if 0 < value then idx :: o.nzHints else o.nzHints
  rowValue := o.rowValue

/-- The loop of `get_next_pos`: the column, and the hints that are left. -/
def nextPos (entries : UInt16 → Int8) : List UInt16 → Option UInt16 × List UInt16
  | [] => (none, [])
  | val :: rest => if 0 < entries val then (some val, rest) else nextPos entries rest

/-- The loop of `get_next_pivot_column`, with enough rounds. -/
def nextPivotColumn (entries : UInt16 → Int8) (activeCols : UInt16 → Bool) :
    Nat → List UInt16 → Option UInt16 × List UInt16
  | 0, hints => (none, hints)
  | fuel + 1, hints =>
    match nextPos entries hints with
    | (none, hints) => (none, hints)
    | (some col, hints) =>
      if activeCols col then (some col, hints) else nextPivotColumn entries activeCols fuel hints

/-- `get_next_pivot_column`. -/
def getNextPivotColumn (o : ObjectiveRow) (activeCols : UInt16 → Bool) :
    Option UInt16 × ObjectiveRow :=
  let r := nextPivotColumn o.matrixEntries activeCols (o.nzHints.length + 1) o.nzHints
  (r.1, { o with nzHints := r.2 })

/-! ### Subtracting a row -/

theorem toInt_of_range {value : Int8} {z : Int} (hcongr : value.toInt % 256 = z % 256)
    (hrange : -128 ≤ z ∧ z ≤ 127) : value.toInt = z := by
  have := value.toInt_lt
  have := value.le_toInt
  omega

theorem toInt_add_emod (a b : Int8) : (a + b).toInt % 256 = (a.toInt + b.toInt) % 256 := by
  rw [Int8.toInt_add]
  exact Int.bmod_emod

theorem toInt_neg_emod (a : Int8) : (-a).toInt % 256 = -a.toInt % 256 := by
  rw [Int8.toInt_neg]
  exact Int.bmod_emod

theorem toInt_negated (coeff : Int8) (negated : Bool) :
    (if negated then coeff * -1 else coeff).toInt % 256 =
      (if negated then -coeff.toInt else coeff.toInt) % 256 := by
  cases negated with
  | false => rfl
  | true =>
    have hneg : coeff * -1 = -coeff := by rw [Int8.mul_neg, Int8.mul_one]
    simp only [if_true, hneg, toInt_neg_emod]

/-- Both loops add an amount to the entries of a list of columns, and the bound for a hint goes
with the amount. -/
def addAt (amount : Int8) (bound : Int) (o : ObjectiveRow) (col : UInt16) : ObjectiveRow :=
  o.setEntry col (o.matrixEntries col + amount) bound

theorem subtractPos_eq (coeff : Int8) : subtractPos coeff = addAt (-coeff) (-coeff.toInt) := by
  funext o p
  simp only [subtractPos, addAt, Int8.sub_eq_add_neg]

theorem subtractNeg_eq (coeff : Int8) : subtractNeg coeff = addAt coeff coeff.toInt := rfl

section AddAt

variable {amount : Int8} {bound : Int} {cols : List UInt16} (o : ObjectiveRow)

theorem addAt_rowValue : (cols.foldl (addAt amount bound) o).rowValue = o.rowValue := by
  induction cols generalizing o with
  | nil => rfl
  | cons col cols ih => exact ih _

theorem addAt_entries (hnodup : cols.Nodup) (c : UInt16) :
    (cols.foldl (addAt amount bound) o).matrixEntries c =
      if c ∈ cols then o.matrixEntries c + amount else o.matrixEntries c := by
  induction cols generalizing o with
  | nil => simp
  | cons col cols ih =>
    obtain ⟨hnot, hrest⟩ := List.nodup_cons.mp hnodup
    rw [List.foldl_cons, ih _ hrest]
    by_cases hcol : c = col
    · subst hcol
      simp [hnot, addAt, setEntry]
    · simp [hcol, addAt, setEntry]

theorem addAt_hints_mono {c : UInt16} (h : c ∈ o.nzHints) :
    c ∈ (cols.foldl (addAt amount bound) o).nzHints := by
  induction cols generalizing o with
  | nil => exact h
  | cons col cols ih =>
    apply ih
    simp only [addAt, setEntry]
    split
    · exact List.mem_cons_of_mem _ h
    · exact h

/-- A column that ends at a positive entry within the bound has a hint. -/
theorem addAt_hint (hnodup : cols.Nodup) {c : UInt16} (hc : c ∈ cols)
    (hpos : 0 < o.matrixEntries c + amount)
    (hbound : (o.matrixEntries c + amount).toInt ≤ bound) :
    c ∈ (cols.foldl (addAt amount bound) o).nzHints := by
  induction cols generalizing o with
  | nil => simp at hc
  | cons col cols ih =>
    obtain ⟨hnot, hrest⟩ := List.nodup_cons.mp hnodup
    rw [List.foldl_cons]
    by_cases hcol : c = col
    · subst hcol
      apply addAt_hints_mono
      simp only [addAt, setEntry]
      rw [if_pos ⟨hpos, hbound⟩]
      exact List.mem_cons_self
    · have hc' : c ∈ cols := by simpa [hcol] using hc
      have hentry : (addAt amount bound o col).matrixEntries c = o.matrixEntries c := by
        simp [addAt, setEntry, hcol]
      apply ih _ hrest hc'
      · rwa [hentry]
      · rwa [hentry]

end AddAt

/-- The coefficient of both loops. -/
def signedCoeff (o : ObjectiveRow) (negated : Bool) (pivotCol : UInt16) : Int8 :=
  if negated then o.matrixEntries pivotCol * -1 else o.matrixEntries pivotCol

section SubtractSparse

variable {o : ObjectiveRow} {row : SignedTURow} {negated : Bool} {pivotCol : UInt16}

theorem subtractSparse_eq : o.subtractSparse row negated pivotCol =
    row.neg.foldl (addAt (o.signedCoeff negated pivotCol) (o.signedCoeff negated pivotCol).toInt)
      (row.pos.foldl
        (addAt (-o.signedCoeff negated pivotCol) (-(o.signedCoeff negated pivotCol).toInt))
        { o with rowValue := o.rowValue -
            BitVec.ofInt 128 (o.matrixEntries pivotCol).toInt * row.getValue negated }) := by
  rw [← subtractNeg_eq, ← subtractPos_eq]
  rfl

theorem subtractSparse_rowValue : (o.subtractSparse row negated pivotCol).rowValue =
    o.rowValue - BitVec.ofInt 128 (o.matrixEntries pivotCol).toInt * row.getValue negated := by
  rw [subtractSparse_eq, addAt_rowValue, addAt_rowValue]

theorem subtractSparse_entries (hrow : row.WellFormed) (c : UInt16) :
    (o.subtractSparse row negated pivotCol).matrixEntries c =
      if c ∈ row.pos then o.matrixEntries c + -o.signedCoeff negated pivotCol
      else if c ∈ row.neg then o.matrixEntries c + o.signedCoeff negated pivotCol
      else o.matrixEntries c := by
  obtain ⟨hpos, hneg, hdisj⟩ := List.nodup_append.mp hrow
  rw [subtractSparse_eq, addAt_entries _ hneg, addAt_entries _ hpos]
  by_cases hc : c ∈ row.pos
  · have hnot : c ∉ row.neg := fun h => hdisj c hc c h rfl
    simp [hc, hnot]
  · simp [hc]

/-- The entries that a subtraction leaves are those of the dense operation, up to a wrap. -/
theorem subtractSparse_toInt_emod (hrow : row.WellFormed) (c : UInt16) :
    ((o.subtractSparse row negated pivotCol).matrixEntries c).toInt % 256 =
      ((o.matrixEntries c).toInt -
        (o.matrixEntries pivotCol).toInt * (row.get negated c).toInt) % 256 := by
  have hcoeff := toInt_negated (o.matrixEntries pivotCol) negated
  change (o.signedCoeff negated pivotCol).toInt % 256 = _ at hcoeff
  have hadd := toInt_add_emod (o.matrixEntries c) (o.signedCoeff negated pivotCol)
  have hsub := toInt_add_emod (o.matrixEntries c) (-o.signedCoeff negated pivotCol)
  have hopp := toInt_neg_emod (o.signedCoeff negated pivotCol)
  have hone : (1 : Int8).toInt = 1 := rfl
  have hminus : (-1 : Int8).toInt = -1 := rfl
  have hzero : (0 : Int8).toInt = 0 := rfl
  rw [subtractSparse_entries hrow]
  simp only [SignedTURow.get, List.contains_iff_mem]
  cases negated with
  | false =>
    simp only [Bool.false_eq_true, if_false] at hcoeff ⊢
    split
    · simp only [hone, mul_one]; omega
    · split
      · simp only [hminus]; omega
      · simp only [hzero, mul_zero, sub_zero]
  | true =>
    simp only [if_true] at hcoeff ⊢
    split
    · simp only [hminus]; omega
    · split
      · simp only [hone, mul_one]; omega
      · simp only [hzero, mul_zero, sub_zero]

theorem subtractSparse_hints_mono {c : UInt16} (h : c ∈ o.nzHints) :
    c ∈ (o.subtractSparse row negated pivotCol).nzHints := by
  rw [subtractSparse_eq]
  apply addAt_hints_mono
  apply addAt_hints_mono
  exact h

/-- The condition under which the flipped coefficient is the negative of the coefficient. -/
theorem signedCoeff_toInt (hcoeff : negated = true → o.matrixEntries pivotCol ≠ -128) :
    (o.signedCoeff negated pivotCol).toInt =
      if negated then -(o.matrixEntries pivotCol).toInt else (o.matrixEntries pivotCol).toInt := by
  have hmod := toInt_negated (o.matrixEntries pivotCol) negated
  apply toInt_of_range hmod
  have hlt := (o.matrixEntries pivotCol).toInt_lt
  have hle := (o.matrixEntries pivotCol).le_toInt
  cases negated with
  | false =>
    simp only [Bool.false_eq_true, if_false]
    omega
  | true =>
    have hne : (o.matrixEntries pivotCol).toInt ≠ -128 := fun h =>
      hcoeff rfl (Int8.toInt_inj.mp h)
    simp only [if_true]
    omega

/-- A column whose entry becomes positive has a hint. -/
theorem subtractSparse_hint (hrow : row.WellFormed)
    (hcoeff : negated = true → o.matrixEntries pivotCol ≠ -128) {c : UInt16}
    (hold : ¬ 0 < o.matrixEntries c)
    (hnew : 0 < (o.subtractSparse row negated pivotCol).matrixEntries c)
    (hexact : ((o.subtractSparse row negated pivotCol).matrixEntries c).toInt =
      (o.matrixEntries c).toInt -
        (o.matrixEntries pivotCol).toInt * (row.get negated c).toInt) :
    c ∈ (o.subtractSparse row negated pivotCol).nzHints := by
  obtain ⟨hpos, hneg, hdisj⟩ := List.nodup_append.mp hrow
  have hsigned := signedCoeff_toInt hcoeff
  have hold' : (o.matrixEntries c).toInt ≤ 0 := by
    rw [Int8.lt_iff_toInt_lt] at hold
    exact not_lt.mp hold
  have hentries := @subtractSparse_entries o row negated pivotCol hrow c
  rw [SignedTURow.get] at hexact
  by_cases hc : c ∈ row.pos
  · rw [if_pos hc] at hentries
    rw [hentries] at hnew hexact
    have hbound : (o.matrixEntries c + -o.signedCoeff negated pivotCol).toInt ≤
        -(o.signedCoeff negated pivotCol).toInt := by
      rw [hexact, hsigned, if_pos (List.contains_iff_mem.mpr hc)]
      cases negated <;> simp <;> omega
    rw [subtractSparse_eq]
    apply addAt_hints_mono
    exact addAt_hint _ hpos hc hnew hbound
  · by_cases hc' : c ∈ row.neg
    · rw [if_neg hc, if_pos hc'] at hentries
      rw [hentries] at hnew hexact
      have hbound : (o.matrixEntries c + o.signedCoeff negated pivotCol).toInt ≤
          (o.signedCoeff negated pivotCol).toInt := by
        rw [hexact, hsigned, if_neg (by simpa using hc), if_pos (List.contains_iff_mem.mpr hc')]
        cases negated <;> simp <;> omega
      rw [subtractSparse_eq]
      have hsame := @addAt_entries (-o.signedCoeff negated pivotCol)
        (-(o.signedCoeff negated pivotCol).toInt) row.pos
        { o with rowValue := o.rowValue - BitVec.ofInt 128 (o.matrixEntries pivotCol).toInt *
          row.getValue negated } hpos c
      rw [if_neg hc] at hsame
      apply addAt_hint _ hneg hc'
      · rwa [hsame]
      · rwa [hsame]
    · rw [if_neg hc, if_neg hc'] at hentries
      rw [hentries] at hnew
      exact absurd hnew hold

end SubtractSparse

/-! ### Taking a hint -/

/-- The loop of `get_next_pos` drops only columns whose entry is not positive. -/
theorem nextPos_dropped {entries : UInt16 → Int8} (hints : List UInt16) {c : UInt16}
    (hc : c ∈ hints) (hpos : 0 < entries c) :
    c ∈ (nextPos entries hints).2 ∨ (nextPos entries hints).1 = some c := by
  induction hints with
  | nil => simp at hc
  | cons val rest ih =>
    rw [nextPos]
    by_cases hval : 0 < entries val
    · rw [if_pos hval]
      rcases List.mem_cons.mp hc with rfl | hc
      · exact Or.inr rfl
      · exact Or.inl hc
    · rw [if_neg hval]
      rcases List.mem_cons.mp hc with rfl | hc
      · exact absurd hpos hval
      · exact ih hc

theorem nextPos_none {entries : UInt16 → Int8} {hints : List UInt16}
    (h : (nextPos entries hints).1 = none) : (nextPos entries hints).2 = [] := by
  induction hints with
  | nil => rfl
  | cons val rest ih =>
    rw [nextPos] at h ⊢
    split at h
    · simp at h
    · rename_i hval
      rw [if_neg hval]
      exact ih h

theorem nextPos_length {entries : UInt16 → Int8} {hints : List UInt16} {c : UInt16}
    (h : (nextPos entries hints).1 = some c) : (nextPos entries hints).2.length < hints.length := by
  induction hints with
  | nil => simp [nextPos] at h
  | cons val rest ih =>
    rw [nextPos] at h ⊢
    split at h
    · rename_i hval
      rw [if_pos hval]
      exact Nat.lt_succ_self _
    · rename_i hval
      rw [if_neg hval]
      exact (ih h).trans (Nat.lt_succ_self _)

section NextPivotColumn

variable {entries : UInt16 → Int8} {activeCols : UInt16 → Bool}

/-- The loop of `get_next_pivot_column` also drops columns that are not active. -/
theorem nextPivotColumn_dropped (fuel : Nat) (hints : List UInt16) {c : UInt16}
    (hc : c ∈ hints) (hpos : 0 < entries c) (hactive : activeCols c) :
    c ∈ (nextPivotColumn entries activeCols fuel hints).2 ∨
      (nextPivotColumn entries activeCols fuel hints).1 = some c := by
  induction fuel generalizing hints with
  | zero => exact Or.inl hc
  | succ fuel ih =>
    have hdropped := nextPos_dropped hints hc hpos
    rw [nextPivotColumn]
    rcases hnext : nextPos entries hints with ⟨next, rest⟩
    rw [hnext] at hdropped
    cases next with
    | none => exact Or.inl (hdropped.resolve_right (by simp))
    | some col =>
      by_cases hcol : activeCols col
      · simpa only [hcol, if_true] using hdropped
      · simp only [hcol]
        rcases hdropped with hrest | hsame
        · exact ih rest hrest
        · exact absurd (Option.some.inj hsame ▸ hactive) hcol

/-- With enough rounds the loop ends without a column only when no hint is left. -/
theorem nextPivotColumn_none (fuel : Nat) (hints : List UInt16) (hfuel : hints.length < fuel)
    (h : (nextPivotColumn entries activeCols fuel hints).1 = none) :
    (nextPivotColumn entries activeCols fuel hints).2 = [] := by
  induction fuel generalizing hints with
  | zero => omega
  | succ fuel ih =>
    have hempty := @nextPos_none entries hints
    have hlength := @nextPos_length entries hints
    rw [nextPivotColumn] at h ⊢
    rcases hnext : nextPos entries hints with ⟨next, rest⟩
    rw [hnext] at h hempty hlength
    cases next with
    | none => exact hempty rfl
    | some col =>
      have hrest : rest.length < hints.length := hlength rfl
      by_cases hcol : activeCols col
      · simp [hcol] at h
      · simp only [hcol] at h ⊢
        apply ih rest _ h
        omega

end NextPivotColumn

end ObjectiveRow

/-! ### The dense row -/

/-- The objective row as integers, with the operations that the sparse ones stand for. -/
structure DenseRow where
  entries : UInt16 → Int
  value : BitVec 128

namespace DenseRow

def new : DenseRow := ⟨fun _ => 0, 0⟩

def setIdx (d : DenseRow) (idx : UInt16) (value : Int8) : DenseRow :=
  { d with entries := Function.update d.entries idx value.toInt }

/-- The row is subtracted as often as the entry of the pivot column says. -/
def subtract (d : DenseRow) (row : SignedTURow) (negated : Bool) (pivotCol : UInt16) :
    DenseRow where
  entries c := d.entries c - d.entries pivotCol * (row.get negated c).toInt
  value := d.value - BitVec.ofInt 128 (d.entries pivotCol) * row.getValue negated

def InRange (d : DenseRow) : Prop := ∀ c, -128 ≤ d.entries c ∧ d.entries c ≤ 127

theorem new_inRange : new.InRange := by
  intro c
  simp [new]

theorem setIdx_inRange {d : DenseRow} (h : d.InRange) (idx : UInt16) (value : Int8) :
    (d.setIdx idx value).InRange := by
  intro c
  change -128 ≤ Function.update d.entries idx value.toInt c ∧
    Function.update d.entries idx value.toInt c ≤ 127
  by_cases hc : c = idx
  · subst hc
    have := value.toInt_lt
    have := value.le_toInt
    rw [Function.update_self]
    omega
  · rw [Function.update_of_ne hc]
    exact h c

end DenseRow

/-! ### Runs -/

/-- The solver: its objective row, and the column that `get_next_pivot_column` has returned and
that has not been pivoted on. -/
structure SolverState where
  objectiveRow : ObjectiveRow
  awaiting : Option UInt16

inductive SimplexOp where
  | setIdx (idx : UInt16) (value : Int8)
  | subtractSparse (row : SignedTURow) (negated : Bool) (pivotCol : UInt16)
  | getNextPivotColumn
  /-- The rest of `do_pivot`, with the pivot row. -/
  | pivot (row : SignedTURow) (negated : Bool)

namespace SolverState

def operate (activeCols : UInt16 → Bool) (s : SolverState) : SimplexOp → SolverState
  | .setIdx idx value => { s with objectiveRow := s.objectiveRow.setIdx idx value }
  | .subtractSparse row negated pivotCol =>
    { s with objectiveRow := s.objectiveRow.subtractSparse row negated pivotCol }
  | .getNextPivotColumn =>
    let r := s.objectiveRow.getNextPivotColumn activeCols
    ⟨r.2, r.1⟩
  | .pivot row negated =>
    match s.awaiting with
    | none => s
    | some col => ⟨s.objectiveRow.subtractSparse row negated col, none⟩

def denseOperate (s : SolverState) (d : DenseRow) : SimplexOp → DenseRow
  | .setIdx idx value => d.setIdx idx value
  | .subtractSparse row negated pivotCol => d.subtract row negated pivotCol
  | .getNextPivotColumn => d
  | .pivot row negated =>
    match s.awaiting with
    | none => d
    | some col => d.subtract row negated col

/-- Rows have one entry for each column, a column is taken only when none is awaited, and the
pivot row has the entry 1 in the column that was taken. -/
def Allowed (s : SolverState) : SimplexOp → Prop
  | .setIdx _ _ => True
  | .subtractSparse row _ _ => row.WellFormed
  | .getNextPivotColumn => s.awaiting = none
  | .pivot row negated => row.WellFormed ∧ ∃ col, s.awaiting = some col ∧ row.get negated col = 1

/-- A row that is negated is not subtracted with the entry -128 in the pivot column. -/
def NoWrap (s : SolverState) : SimplexOp → Prop
  | .setIdx _ _ => True
  | .subtractSparse _ negated pivotCol =>
    negated = true → s.objectiveRow.matrixEntries pivotCol ≠ -128
  | .getNextPivotColumn => True
  | .pivot _ negated =>
    ∀ col, s.awaiting = some col → negated = true → s.objectiveRow.matrixEntries col ≠ -128

/-- Every active column with a positive entry has a hint, but for the column that is awaited. -/
def HintsComplete (activeCols : UInt16 → Bool) (s : SolverState) : Prop :=
  ∀ c, activeCols c → 0 < s.objectiveRow.matrixEntries c → s.awaiting ≠ some c →
    c ∈ s.objectiveRow.nzHints

structure Simulates (s : SolverState) (d : DenseRow) : Prop where
  entries : ∀ c, (s.objectiveRow.matrixEntries c).toInt = d.entries c
  value : s.objectiveRow.rowValue = d.value

/-- When no column is awaited and none is found, no active column has a positive entry. -/
def ReportsPositive (activeCols : UInt16 → Bool) (s : SolverState) : Prop :=
  s.awaiting = none → (s.objectiveRow.getNextPivotColumn activeCols).1 = none →
    ∀ c, activeCols c → ¬ 0 < s.objectiveRow.matrixEntries c

/-- A run in which no entry of the dense row leaves the range of `int8_t`. -/
inductive Run (activeCols : UInt16 → Bool) (condition : SolverState → SimplexOp → Prop) :
    SolverState → DenseRow → Prop where
  | start : Run activeCols condition ⟨ObjectiveRow.new, none⟩ DenseRow.new
  | step {s : SolverState} {d : DenseRow} (op : SimplexOp) (h : Run activeCols condition s d)
      (hallowed : s.Allowed op) (hrange : (s.denseOperate d op).InRange)
      (hcond : condition s op) :
      Run activeCols condition (s.operate activeCols op) (s.denseOperate d op)

theorem subtractSparse_simulates {s : SolverState} {d : DenseRow} (h : s.Simulates d)
    {row : SignedTURow} {negated : Bool} {pivotCol : UInt16} {awaiting : Option UInt16}
    (hrow : row.WellFormed) (hrange : (d.subtract row negated pivotCol).InRange) :
    Simulates ⟨s.objectiveRow.subtractSparse row negated pivotCol, awaiting⟩
      (d.subtract row negated pivotCol) where
  entries c := by
    have hmod := @ObjectiveRow.subtractSparse_toInt_emod s.objectiveRow row negated pivotCol hrow c
    rw [h.entries, h.entries] at hmod
    exact ObjectiveRow.toInt_of_range hmod (hrange c)
  value := by
    change (s.objectiveRow.subtractSparse row negated pivotCol).rowValue = _
    rw [ObjectiveRow.subtractSparse_rowValue, h.entries, h.value]
    rfl

/-- A subtraction keeps the hints complete, and completes them for a column that was awaited and
has lost its entry. -/
theorem subtractSparse_complete {activeCols : UInt16 → Bool} {s : SolverState} {d : DenseRow}
    (h : s.Simulates d) (hints : s.HintsComplete activeCols) {row : SignedTURow} {negated : Bool}
    {pivotCol : UInt16} {awaiting : Option UInt16} (hrow : row.WellFormed)
    (hrange : (d.subtract row negated pivotCol).InRange)
    (hcoeff : negated = true → s.objectiveRow.matrixEntries pivotCol ≠ -128)
    (hawait : ∀ col, s.awaiting = some col → awaiting ≠ some col →
      ¬ 0 < (s.objectiveRow.subtractSparse row negated pivotCol).matrixEntries col) :
    HintsComplete activeCols ⟨s.objectiveRow.subtractSparse row negated pivotCol, awaiting⟩ := by
  intro c hactive hpos hnot
  change 0 < (s.objectiveRow.subtractSparse row negated pivotCol).matrixEntries c at hpos
  by_cases hold : 0 < s.objectiveRow.matrixEntries c
  · by_cases hsame : s.awaiting = some c
    · exact absurd hpos (hawait c hsame hnot)
    · exact ObjectiveRow.subtractSparse_hints_mono (hints c hactive hold hsame)
  · apply ObjectiveRow.subtractSparse_hint hrow hcoeff hold hpos
    have hsim := @subtractSparse_simulates s d h row negated pivotCol awaiting hrow hrange
    rw [h.entries, h.entries]
    exact hsim.entries c

theorem operate_simulates {activeCols : UInt16 → Bool} {s : SolverState} {d : DenseRow}
    (h : s.Simulates d) {op : SimplexOp} (hallowed : s.Allowed op)
    (hrange : (s.denseOperate d op).InRange) :
    (s.operate activeCols op).Simulates (s.denseOperate d op) := by
  cases op with
  | setIdx idx value =>
    refine ⟨fun c => ?_, h.value⟩
    change (Function.update s.objectiveRow.matrixEntries idx value c).toInt =
      Function.update d.entries idx value.toInt c
    by_cases hc : c = idx
    · subst hc
      simp
    · simpa [hc] using h.entries c
  | subtractSparse row negated pivotCol => exact subtractSparse_simulates h hallowed hrange
  | getNextPivotColumn => exact ⟨h.entries, h.value⟩
  | pivot row negated =>
    obtain ⟨hrow, col, hcol, -⟩ := hallowed
    simp only [denseOperate, hcol] at hrange ⊢
    simp only [operate, hcol]
    exact subtractSparse_simulates h hrow hrange

theorem operate_complete {activeCols : UInt16 → Bool} {s : SolverState} {d : DenseRow}
    (h : s.Simulates d) (hints : s.HintsComplete activeCols) {op : SimplexOp}
    (hallowed : s.Allowed op) (hrange : (s.denseOperate d op).InRange) (hcond : s.NoWrap op) :
    (s.operate activeCols op).HintsComplete activeCols := by
  cases op with
  | setIdx idx value =>
    intro c hactive hpos hnot
    simp only [operate, ObjectiveRow.setIdx] at hpos ⊢
    by_cases hc : c = idx
    · subst hc
      rw [Function.update_self] at hpos
      rw [if_pos hpos]
      exact List.mem_cons_self
    · rw [Function.update_of_ne hc] at hpos
      have hold := hints c hactive hpos hnot
      split
      · exact List.mem_cons_of_mem _ hold
      · exact hold
  | subtractSparse row negated pivotCol =>
    apply subtractSparse_complete h hints hallowed hrange hcond
    intro col hcol hnot
    exact absurd hcol hnot
  | getNextPivotColumn =>
    intro c hactive hpos hnot
    have hold := hints c hactive hpos (by rw [hallowed]; simp)
    exact (ObjectiveRow.nextPivotColumn_dropped _ _ hold hpos hactive).resolve_right hnot
  | pivot row negated =>
    obtain ⟨hrow, col, hcol, hone⟩ := hallowed
    simp only [denseOperate, hcol] at hrange
    simp only [operate, hcol]
    apply subtractSparse_complete h hints hrow hrange (hcond col hcol)
    intro col' hcol' _
    obtain rfl := Option.some.inj (hcol.symm.trans hcol')
    -- The entry of the column that was taken is now zero.
    have hexact := (@subtractSparse_simulates s d h row negated col none hrow hrange).entries col
    have hzero : ((s.objectiveRow.subtractSparse row negated col).matrixEntries col).toInt = 0 := by
      rw [hexact]
      simp [DenseRow.subtract, hone]
    rw [Int8.lt_iff_toInt_lt, hzero]
    exact lt_irrefl _

theorem simulates_of_run {activeCols : UInt16 → Bool}
    {condition : SolverState → SimplexOp → Prop} {s : SolverState} {d : DenseRow}
    (h : Run activeCols condition s d) : s.Simulates d := by
  induction h with
  | start => exact ⟨fun _ => rfl, rfl⟩
  | step op _ hallowed hrange _ ih => exact operate_simulates ih hallowed hrange

theorem hintsComplete_of_run {activeCols : UInt16 → Bool} {s : SolverState} {d : DenseRow}
    (h : Run activeCols NoWrap s d) : s.HintsComplete activeCols := by
  induction h with
  | start =>
    intro c _ hpos
    exact (Int8.lt_irrefl hpos).elim
  | step op hrun hallowed hrange hcond ih =>
    exact operate_complete (simulates_of_run hrun) ih hallowed hrange hcond

theorem reportsPositive_of_complete {activeCols : UInt16 → Bool} {s : SolverState}
    (h : s.HintsComplete activeCols) : s.ReportsPositive activeCols := by
  intro hawait hnone c hactive hpos
  have hhint := h c hactive hpos (by rw [hawait]; simp)
  have hempty := ObjectiveRow.nextPivotColumn_none _ _ (Nat.lt_succ_self _) hnone
  rcases ObjectiveRow.nextPivotColumn_dropped (s.objectiveRow.nzHints.length + 1) _ hhint hpos
    hactive with hrest | hsame
  · rw [hempty] at hrest
    simp at hrest
  · exact absurd (hnone.symm.trans hsame) (by simp)

/-- In a run in which no negated row is subtracted with the entry -128 in its pivot column, the
entries and the value are those of the dense row, every active column with a positive entry has a
hint, and the solver runs out of columns only when no active column has a positive entry. -/
theorem hints_of_run (activeCols : UInt16 → Bool) (s : SolverState) (d : DenseRow)
    (h : Run activeCols NoWrap s d) :
    s.Simulates d ∧ s.HintsComplete activeCols ∧ s.ReportsPositive activeCols :=
  ⟨simulates_of_run h, hintsComplete_of_run h, reportsPositive_of_complete (hintsComplete_of_run h)⟩

/-- A column is taken and pivoted on, and the pivot makes another column positive. -/
def pivotOps : List SimplexOp :=
  [.setIdx 0 5, .getNextPivotColumn, .pivot ⟨[0], [1], 3⟩ false]

/-- The entry of column 1 goes from -1 to 127 through a negated row. -/
def wrapOps : List SimplexOp :=
  [.setIdx 0 (-128), .setIdx 1 (-1), .subtractSparse ⟨[], [0, 1], 0⟩ true 0]

def operateAll (activeCols : UInt16 → Bool) (s : SolverState) (d : DenseRow)
    (ops : List SimplexOp) : SolverState × DenseRow :=
  ops.foldl (fun r op => (r.1.operate activeCols op, r.1.denseOperate r.2 op)) (s, d)

theorem run_pivotOps : Run (fun _ => true) NoWrap
    (operateAll (fun _ => true) ⟨ObjectiveRow.new, none⟩ DenseRow.new pivotOps).1
    (operateAll (fun _ => true) ⟨ObjectiveRow.new, none⟩ DenseRow.new pivotOps).2 := by
  have hset := DenseRow.setIdx_inRange DenseRow.new_inRange 0 5
  have hrange : ((DenseRow.new.setIdx 0 5).subtract ⟨[0], [1], 3⟩ false 0).InRange := by
    intro c
    by_cases hc : c = 0
    · subst hc
      decide
    · by_cases hc' : c = 1
      · subst hc'
        decide
      · simp [DenseRow.subtract, DenseRow.setIdx, DenseRow.new, SignedTURow.get, hc, hc']
  have htaken := @Run.step (fun _ => true) NoWrap _ _ .getNextPivotColumn
    (Run.step (.setIdx 0 5) Run.start trivial hset trivial) rfl hset trivial
  apply Run.step (.pivot ⟨[0], [1], 3⟩ false) htaken ⟨by decide, 0, rfl, rfl⟩ hrange
  intro col _ hneg
  exact absurd hneg (by simp)

theorem hints_of_run_pivotOps :
    (operateAll (fun _ => true) ⟨ObjectiveRow.new, none⟩ DenseRow.new pivotOps).1.Simulates
        (operateAll (fun _ => true) ⟨ObjectiveRow.new, none⟩ DenseRow.new pivotOps).2 ∧
      HintsComplete (fun _ => true)
        (operateAll (fun _ => true) ⟨ObjectiveRow.new, none⟩ DenseRow.new pivotOps).1 ∧
      ReportsPositive (fun _ => true)
        (operateAll (fun _ => true) ⟨ObjectiveRow.new, none⟩ DenseRow.new pivotOps).1 :=
  hints_of_run _ _ _ run_pivotOps

theorem run_wrapOps : Run (fun _ => true) (fun _ _ => True)
    (operateAll (fun _ => true) ⟨ObjectiveRow.new, none⟩ DenseRow.new wrapOps).1
    (operateAll (fun _ => true) ⟨ObjectiveRow.new, none⟩ DenseRow.new wrapOps).2 := by
  have hzero := DenseRow.setIdx_inRange DenseRow.new_inRange 0 (-128)
  have hone := DenseRow.setIdx_inRange hzero 1 (-1)
  have hrow : SignedTURow.WellFormed ⟨[], [0, 1], 0⟩ := by decide
  have hrange : (((DenseRow.new.setIdx 0 (-128)).setIdx 1 (-1)).subtract ⟨[], [0, 1], 0⟩ true
      0).InRange := by
    intro c
    by_cases hc : c = 0
    · subst hc
      decide
    · by_cases hc' : c = 1
      · subst hc'
        decide
      · simp [DenseRow.subtract, DenseRow.setIdx, DenseRow.new, SignedTURow.get, hc, hc']
  have hset := @Run.step (fun _ => true) (fun _ _ => True) _ _ (.setIdx 1 (-1))
    (Run.step (.setIdx 0 (-128)) Run.start trivial hzero trivial) trivial hone trivial
  exact Run.step (.subtractSparse ⟨[], [0, 1], 0⟩ true 0) hset hrow hrange trivial

/-- Column 1 has the entry 127 and no hint, and no column is found. -/
theorem hints_lost_wrapOps : ¬ ∀ (activeCols : UInt16 → Bool) (s : SolverState) (d : DenseRow),
    Run activeCols (fun _ _ => True) s d →
      s.Simulates d ∧ s.HintsComplete activeCols ∧ s.ReportsPositive activeCols := by
  intro hall
  obtain ⟨-, -, hreports⟩ := hall _ _ _ run_wrapOps
  exact hreports rfl rfl 1 rfl (by decide)

end SolverState

end Speedex
