import Mathlib

/-! Cursors into strictly increasing lists.  A cursor moves forward to the place of an element and
inserts or removes it there; one that has not passed that place acts as on the whole list.  Two
disjoint lists under two cursors hold a vector of signs, and adding one at a position is a removal
from one list or an insertion into the other. -/

namespace Lib

/-- A place in a list: what is before it, and what is from it on. -/
structure Cursor (α : Type) where
  before : List α
  after : List α

namespace Cursor

variable {α : Type} [LinearOrder α]

def start (l : List α) : Cursor α := ⟨[], l⟩

def list (c : Cursor α) : List α := c.before ++ c.after

def insertFrom (x : α) : List α → List α → Cursor α
  | before, [] => ⟨before, [x]⟩
  | before, y :: after =>
    if x < y then ⟨before, x :: y :: after⟩ else insertFrom x (before ++ [y]) after

/-- Moves on to the first element above `x`, and inserts `x` before it. -/
def insert (c : Cursor α) (x : α) : Cursor α := insertFrom x c.before c.after

def tryEraseFrom (x : α) : List α → List α → Bool × Cursor α
  | before, [] => (false, ⟨before, []⟩)
  | before, y :: after =>
    if y = x then (true, ⟨before, after⟩)
    else if x < y then (false, ⟨before, y :: after⟩)
    else tryEraseFrom x (before ++ [y]) after

/-- Moves on to the first element from `x` on, and removes it if it is `x`. -/
def tryErase (c : Cursor α) (x : α) : Bool × Cursor α := tryEraseFrom x c.before c.after

/-- The cursor has not passed the place of `x`. -/
def Ready (c : Cursor α) (x : α) : Prop := ∀ y ∈ c.before, y < x

theorem Ready.mono {c : Cursor α} {x y : α} (h : c.Ready x) (hxy : x ≤ y) : c.Ready y :=
  fun z hz => (h z hz).trans_le hxy

theorem start_ready (l : List α) (x : α) : (start l).Ready x := by simp [Ready, start]

theorem insertFrom_spec {x : α} {before after : List α}
    (hsorted : (before ++ after).Pairwise (· < ·)) (hbefore : ∀ y ∈ before, y < x)
    (hnot : x ∉ after) :
    (insertFrom x before after).list.Pairwise (· < ·) ∧ (insertFrom x before after).Ready x ∧
      ∀ y, y ∈ (insertFrom x before after).list ↔ y = x ∨ y ∈ before ++ after := by
  induction after generalizing before with
  | nil =>
    refine ⟨?_, hbefore, fun y => ?_⟩
    · rw [List.append_nil] at hsorted
      exact List.pairwise_append.mpr ⟨hsorted, List.pairwise_singleton _ x, fun y hy z hz =>
        List.mem_singleton.mp hz ▸ hbefore y hy⟩
    · simp [insertFrom, list, or_comm]
  | cons y after ih =>
    obtain ⟨hfirst, hlast, hcross⟩ := List.pairwise_append.mp hsorted
    rw [insertFrom]
    split
    · rename_i hlt
      refine ⟨?_, hbefore, fun z => ?_⟩
      · have hafter : (x :: y :: after).Pairwise (· < ·) := by
          refine List.pairwise_cons.mpr ⟨fun z hz => ?_, hlast⟩
          rcases List.mem_cons.mp hz with rfl | hz
          · exact hlt
          · exact hlt.trans ((List.pairwise_cons.mp hlast).1 z hz)
        refine List.pairwise_append.mpr ⟨hfirst, hafter, fun z hz w hw => ?_⟩
        rcases List.mem_cons.mp hw with rfl | hw
        · exact hbefore z hz
        · exact hcross z hz w hw
      · simp only [list, List.mem_append, List.mem_cons]
        tauto
    · rename_i hle
      have hy : y < x := lt_of_le_of_ne (not_lt.mp hle) fun h => hnot (h ▸ List.mem_cons_self)
      have happend : before ++ [y] ++ after = before ++ y :: after := by simp
      have hbefore' : ∀ z ∈ before ++ [y], z < x := by
        intro z hz
        rcases List.mem_append.mp hz with hz | hz
        · exact hbefore z hz
        · exact List.mem_singleton.mp hz ▸ hy
      have hrest := ih (happend ▸ hsorted) hbefore' fun h => hnot (List.mem_cons_of_mem y h)
      rwa [happend] at hrest

theorem tryEraseFrom_spec {x : α} {before after : List α}
    (hsorted : (before ++ after).Pairwise (· < ·)) (hbefore : ∀ y ∈ before, y < x) :
    ((tryEraseFrom x before after).1 = true ↔ x ∈ before ++ after) ∧
      (tryEraseFrom x before after).2.list.Pairwise (· < ·) ∧
      (tryEraseFrom x before after).2.Ready x ∧
      ∀ y, y ∈ (tryEraseFrom x before after).2.list ↔ y ≠ x ∧ y ∈ before ++ after := by
  have hnot : x ∉ before := fun h => lt_irrefl x (hbefore x h)
  induction after generalizing before with
  | nil =>
    refine ⟨by simpa [tryEraseFrom] using hnot, hsorted, hbefore, fun y => ?_⟩
    have : y ∈ before → y ≠ x := fun hy => (hbefore y hy).ne
    simp only [tryEraseFrom, list, List.append_nil]
    tauto
  | cons y after ih =>
    obtain ⟨hfirst, hlast, hcross⟩ := List.pairwise_append.mp hsorted
    rw [tryEraseFrom]
    split
    · rename_i heq
      subst heq
      have habove := (List.pairwise_cons.mp hlast).1
      refine ⟨by simp, ?_, hbefore, fun z => ?_⟩
      · exact hsorted.sublist ((List.sublist_cons_self y after).append_left before)
      · have hlow : z ∈ before → z ≠ y := fun hz => (hbefore z hz).ne
        have hhigh : z ∈ after → z ≠ y := fun hz => (habove z hz).ne'
        simp only [list, List.mem_append, List.mem_cons]
        tauto
    · rename_i hne
      split
      · rename_i hlt
        have hall : ∀ z ∈ y :: after, x < z := by
          intro z hz
          rcases List.mem_cons.mp hz with rfl | hz
          · exact hlt
          · exact hlt.trans ((List.pairwise_cons.mp hlast).1 z hz)
        refine ⟨?_, hsorted, hbefore, fun z => ?_⟩
        · have : x ∉ y :: after := fun h => lt_irrefl x (hall x h)
          simp [hnot, this]
        · have hlow : z ∈ before → z ≠ x := fun hz => (hbefore z hz).ne
          have hhigh : z ∈ y :: after → z ≠ x := fun hz => (hall z hz).ne'
          simp only [list, List.mem_append]
          tauto
      · rename_i hle
        have hy : y < x := lt_of_le_of_ne (not_lt.mp hle) hne
        have happend : before ++ [y] ++ after = before ++ y :: after := by simp
        have hbefore' : ∀ z ∈ before ++ [y], z < x := by
          intro z hz
          rcases List.mem_append.mp hz with hz | hz
          · exact hbefore z hz
          · exact List.mem_singleton.mp hz ▸ hy
        have hrest := ih (happend ▸ hsorted) hbefore' fun h => lt_irrefl x (hbefore' x h)
        rwa [happend] at hrest

end Cursor

/-- Two cursors, one for each sign. -/
structure SignedCursor (α : Type) where
  pos : Cursor α
  neg : Cursor α

namespace SignedCursor

variable {α : Type} [LinearOrder α]

/-- The cursor of the negative sign, or that of the positive one. -/
def side (p : SignedCursor α) (negative : Bool) : Cursor α := if negative then p.neg else p.pos

def setSide (p : SignedCursor α) (negative : Bool) (c : Cursor α) : SignedCursor α :=
  if negative then { p with neg := c } else { p with pos := c }

def insertTo (p : SignedCursor α) (negative : Bool) (x : α) : SignedCursor α :=
  p.setSide negative ((p.side negative).insert x)

def tryEraseFrom (p : SignedCursor α) (negative : Bool) (x : α) : Bool × SignedCursor α :=
  let r := (p.side negative).tryErase x
  (r.1, p.setSide negative r.2)

/-- A removal from the list of the opposite sign, or else an insertion. -/
def add (p : SignedCursor α) (negative : Bool) (x : α) : Bool × SignedCursor α :=
  let r := p.tryEraseFrom (!negative) x
  if r.1 then r else (false, r.2.insertTo negative x)

/-- What another vector does, when it is known whether the first step removes an element. -/
def addKnown (p : SignedCursor α) (erased negative : Bool) (x : α) : Bool × SignedCursor α :=
  if erased then p.tryEraseFrom (!negative) x else (true, p.insertTo negative x)

structure WellFormed (p : SignedCursor α) : Prop where
  sorted : ∀ b, (p.side b).list.Pairwise (· < ·)
  disjoint : ∀ b x, x ∈ (p.side b).list → x ∉ (p.side !b).list

def Ready (p : SignedCursor α) (x : α) : Prop := ∀ b, (p.side b).Ready x

/-- The entry at `x`, in units of one sign. -/
def entry (p : SignedCursor α) (unit : Bool) (x : α) : Int :=
  if x ∈ (p.side unit).list then 1 else if x ∈ (p.side !unit).list then -1 else 0

/-- One unit is added at `x`, and the cursors are ready for what is above. -/
structure Adds (unit : Bool) (x : α) (p p' : SignedCursor α) : Prop where
  wellFormed : p'.WellFormed
  ready : ∀ y, x < y → p'.Ready y
  entry_eq : ∀ y, p'.entry unit y = if y = x then p.entry unit x + 1 else p.entry unit y

omit [LinearOrder α] in
@[simp] theorem side_setSide_self (p : SignedCursor α) (b : Bool) (c : Cursor α) :
    (p.setSide b c).side b = c := by
  cases b <;> rfl

omit [LinearOrder α] in
@[simp] theorem side_setSide_not (p : SignedCursor α) (b : Bool) (c : Cursor α) :
    (p.setSide b c).side (!b) = p.side (!b) := by
  cases b <;> rfl

omit [LinearOrder α] in
@[simp] theorem side_setSide_not' (p : SignedCursor α) (b : Bool) (c : Cursor α) :
    (p.setSide (!b) c).side b = p.side b := by
  cases b <;> rfl

theorem forall_side {P : Bool → Prop} (b : Bool) (h : P b) (hnot : P !b) : ∀ b', P b' := by
  intro b'
  cases b <;> cases b' <;> assumption

section Step

variable {p : SignedCursor α} {unit : Bool} {x : α}

theorem entry_not (hwf : p.WellFormed) (unit : Bool) (x : α) :
    p.entry (!unit) x = -p.entry unit x := by
  have hdisj := hwf.disjoint unit x
  rw [entry, entry, Bool.not_not]
  by_cases hx : x ∈ (p.side unit).list
  · simp [hx, hdisj hx]
  · by_cases hx' : x ∈ (p.side !unit).list <;> simp [hx, hx']

/-- Two disjoint lists that differ at `x` only, and there by one unit. -/
theorem adds_of_sides {p' : SignedCursor α} (hwf : p.WellFormed) (hentry : p.entry unit x ≠ 1)
    (hsorted : ∀ b, (p'.side b).list.Pairwise (· < ·)) (hready : ∀ b, (p'.side b).Ready x)
    (hfound : x ∈ (p.side !unit).list → x ∉ (p'.side unit).list ∧ x ∉ (p'.side !unit).list)
    (hnew : x ∉ (p.side !unit).list → x ∈ (p'.side unit).list ∧ x ∉ (p'.side !unit).list)
    (hsame : ∀ b y, y ≠ x → (y ∈ (p'.side b).list ↔ y ∈ (p.side b).list)) :
    Adds unit x p p' := by
  have hx : x ∉ (p.side unit).list := fun h => hentry (if_pos h)
  have hboth : ¬ (x ∈ (p'.side unit).list ∧ x ∈ (p'.side !unit).list) := by
    by_cases h : x ∈ (p.side !unit).list
    · exact fun hx' => (hfound h).1 hx'.1
    · exact fun hx' => (hnew h).2 hx'.2
  refine ⟨⟨hsorted, ?_⟩, fun y hy b => (hready b).mono hy.le, fun y => ?_⟩
  · refine forall_side unit (fun y hy hy' => ?_) (fun y hy hy' => ?_)
    · by_cases hyx : y = x
      · subst hyx
        exact hboth ⟨hy, hy'⟩
      · rw [hsame _ y hyx] at hy hy'
        exact hwf.disjoint unit y hy hy'
    · rw [Bool.not_not] at hy'
      by_cases hyx : y = x
      · subst hyx
        exact hboth ⟨hy', hy⟩
      · rw [hsame _ y hyx] at hy hy'
        exact hwf.disjoint unit y hy' hy
  · split
    · rename_i hyx
      subst hyx
      by_cases h : y ∈ (p.side !unit).list
      · simp [entry, hx, h, hfound h]
      · simp [entry, hx, h, hnew h]
    · rename_i hyx
      simp only [entry, hsame _ y hyx]

/-- An insertion adds a unit where the entry is zero. -/
theorem insertTo_adds (hwf : p.WellFormed) (hready : p.Ready x) (hentry : p.entry unit x ≠ 1)
    (hnot : x ∉ (p.side !unit).list) : Adds unit x p (p.insertTo unit x) := by
  have hx : x ∉ (p.side unit).list := fun h => hentry (if_pos h)
  obtain ⟨hsorted, hready', hmem⟩ := Cursor.insertFrom_spec (hwf.sorted unit) (hready unit)
    fun h => hx (List.mem_append_right _ h)
  change ((p.side unit).insert x).list.Pairwise _ at hsorted
  change ((p.side unit).insert x).Ready x at hready'
  change ∀ y, y ∈ ((p.side unit).insert x).list ↔ y = x ∨ y ∈ (p.side unit).list at hmem
  refine adds_of_sides hwf hentry (forall_side unit ?_ ?_) (forall_side unit ?_ ?_)
    (fun h => absurd h hnot) (fun _ => ⟨?_, ?_⟩) (forall_side unit ?_ ?_)
  · simpa [insertTo] using hsorted
  · simpa [insertTo] using hwf.sorted !unit
  · simpa [insertTo] using hready'
  · simpa [insertTo] using hready !unit
  · simp [insertTo, hmem]
  · simpa [insertTo] using hnot
  · intro y hyx
    simp [insertTo, hmem, hyx]
  · intro y _
    simp [insertTo]

/-- A removal from the other list adds a unit where the entry is minus one, and fails elsewhere
without a change to the lists. -/
theorem tryEraseFrom_spec (hwf : p.WellFormed) (hready : p.Ready x) :
    ((p.tryEraseFrom (!unit) x).1 = true ↔ x ∈ (p.side !unit).list) ∧
      (x ∈ (p.side !unit).list → Adds unit x p (p.tryEraseFrom (!unit) x).2) ∧
      (x ∉ (p.side !unit).list → (p.tryEraseFrom (!unit) x).2.WellFormed ∧
        (p.tryEraseFrom (!unit) x).2.Ready x ∧
        ∀ b y, y ∈ ((p.tryEraseFrom (!unit) x).2.side b).list ↔ y ∈ (p.side b).list) := by
  obtain ⟨hfound, hsorted, hready', hmem⟩ := Cursor.tryEraseFrom_spec (hwf.sorted !unit)
    (hready !unit)
  change ((p.side !unit).tryErase x).1 = true ↔ x ∈ (p.side !unit).list at hfound
  change ((p.side !unit).tryErase x).2.list.Pairwise _ at hsorted
  change ((p.side !unit).tryErase x).2.Ready x at hready'
  change ∀ y, y ∈ ((p.side !unit).tryErase x).2.list ↔ y ≠ x ∧ y ∈ (p.side !unit).list at hmem
  have hsorted' : ∀ b, ((p.tryEraseFrom (!unit) x).2.side b).list.Pairwise (· < ·) := by
    refine forall_side unit ?_ ?_
    · simpa [tryEraseFrom] using hwf.sorted unit
    · simpa [tryEraseFrom] using hsorted
  have hready'' : ∀ b, ((p.tryEraseFrom (!unit) x).2.side b).Ready x := by
    refine forall_side unit ?_ ?_
    · simpa [tryEraseFrom] using hready unit
    · simpa [tryEraseFrom] using hready'
  refine ⟨hfound, fun h => ?_, fun h => ?_⟩
  · have hx : x ∉ (p.side unit).list := fun hx => hwf.disjoint unit x hx h
    refine adds_of_sides hwf (by simp [entry, hx, h]) hsorted' hready'' (fun _ => ⟨?_, ?_⟩)
      (fun hnot => absurd h hnot) (forall_side unit ?_ ?_)
    · simpa [tryEraseFrom] using hx
    · simp [tryEraseFrom, hmem]
    · intro y _
      simp [tryEraseFrom]
    · intro y hyx
      simp [tryEraseFrom, hmem, hyx]
  · have hsame : ∀ b y, y ∈ ((p.tryEraseFrom (!unit) x).2.side b).list ↔ y ∈ (p.side b).list := by
      refine forall_side unit (fun y => ?_) (fun y => ?_)
      · simp [tryEraseFrom]
      · have : y ∈ (p.side !unit).list → y ≠ x := fun hy hyx => h (hyx ▸ hy)
        simp only [tryEraseFrom, side_setSide_self, hmem]
        tauto
    exact ⟨⟨hsorted', fun b y => by rw [hsame, hsame]; exact hwf.disjoint b y⟩, hready'', hsame⟩

theorem add_adds (hwf : p.WellFormed) (hready : p.Ready x) (hentry : p.entry unit x ≠ 1) :
    ((p.add unit x).1 = true ↔ p.entry unit x = -1) ∧ Adds unit x p (p.add unit x).2 := by
  have hx : x ∉ (p.side unit).list := fun h => hentry (if_pos h)
  obtain ⟨hfound, herase, hkeep⟩ := @tryEraseFrom_spec _ _ p unit x hwf hready
  by_cases h : x ∈ (p.side !unit).list
  · have htrue := hfound.mpr h
    rw [add]
    simp only [htrue, if_true]
    exact ⟨by simp [entry, hx, h], herase h⟩
  · have hfalse : (p.tryEraseFrom (!unit) x).1 = false :=
      Bool.eq_false_iff.mpr fun htrue => h (hfound.mp htrue)
    obtain ⟨hwf', hready', hsame⟩ := hkeep h
    have hsame' : ∀ y, (p.tryEraseFrom (!unit) x).2.entry unit y = p.entry unit y := by
      intro y
      simp only [entry, hsame]
    rw [add]
    simp only [hfalse, Bool.false_eq_true, if_false]
    refine ⟨by simp [entry, hx, h], ?_⟩
    have hadds := insertTo_adds hwf' hready' (by rwa [hsame']) (by rwa [hsame])
    exact ⟨hadds.wellFormed, hadds.ready, by simpa only [hsame'] using hadds.entry_eq⟩

theorem addKnown_adds (hwf : p.WellFormed) (hready : p.Ready x) (hentry : p.entry unit x ≠ 1)
    {erased : Bool} (herased : erased = true ↔ p.entry unit x = -1) :
    (p.addKnown erased unit x).1 = true ∧ Adds unit x p (p.addKnown erased unit x).2 := by
  have hx : x ∉ (p.side unit).list := fun h => hentry (if_pos h)
  obtain ⟨hfound, herase, -⟩ := @tryEraseFrom_spec _ _ p unit x hwf hready
  by_cases h : x ∈ (p.side !unit).list
  · have htrue : erased = true := herased.mpr (by simp [entry, hx, h])
    rw [addKnown, if_pos htrue]
    exact ⟨hfound.mpr h, herase h⟩
  · have hfalse : ¬ erased = true := fun htrue => by
      have := herased.mp htrue
      simp [entry, hx, h] at this
    rw [addKnown, if_neg hfalse]
    exact ⟨rfl, insertTo_adds hwf hready hentry h⟩

end Step

end SignedCursor

end Lib
