import Speedex.Lib.Except
import Speedex.Types

/-! The accounts in memory, in rows of `0x10000` (`memory_database/account_vector.cc`).  Rows are
allocated one by one and stay where they are, so pointers into them stay valid. -/

namespace Speedex

open Lib

/-- The address of an entry: of its row, and the position in the row. -/
structure AccountSlot where
  row : Nat
  slot : Fin 0x10000
deriving DecidableEq

structure AccountVectorRow (α : Type) where
  /-- where the row was allocated -/
  address : Nat
  numActiveEntries : Nat
  row : Fin 0x10000 → α

namespace AccountVectorRow

variable {α : Type}

def new [Inhabited α] (address : Nat) : AccountVectorRow α := ⟨address, 0, fun _ => default⟩

def isFull (r : AccountVectorRow α) : Bool := r.numActiveEntries = 0x10000

def append (r : AccountVectorRow α) (acct : α) : Result (AccountSlot × AccountVectorRow α) :=
  if h : r.numActiveEntries < 0x10000 then
    .ok (⟨r.address, ⟨r.numActiveEntries, h⟩⟩, { r with
      numActiveEntries := r.numActiveEntries + 1
      row := Function.update r.row ⟨r.numActiveEntries, h⟩ acct })
  else .error .indexOutOfRange

/-- `erase`, with the number of entries that it erased. -/
def erase (r : AccountVectorRow α) (numToErase : Nat) : Nat × AccountVectorRow α :=
  let numEraseable := min numToErase r.numActiveEntries
  (numEraseable, { r with numActiveEntries := r.numActiveEntries - numEraseable })

def get (r : AccountVectorRow α) (idx : Nat) : Result AccountSlot :=
  if h : idx < 0x10000 then .ok ⟨r.address, ⟨idx, h⟩⟩ else .error .indexOutOfRange

/-- `resize`, with the number of entries that it added. -/
def resize (r : AccountVectorRow α) (sz : Nat) : Result (Nat × AccountVectorRow α) :=
  if r.numActiveEntries > 0x10000 then .error (.runtimeError "assigned past max")
  else
    let numAddable := min sz (0x10000 - r.numActiveEntries)
    .ok (numAddable, { r with numActiveEntries := r.numActiveEntries + numAddable })

end AccountVectorRow

structure AccountVector (α : Type) where
  accounts : List (AccountVectorRow α)
  nextOpenIdx : Nat
  size : Nat

namespace AccountVector

variable {α : Type}

/-- An access to the vector of rows. -/
def rowAt (accounts : List (AccountVectorRow α)) (i : Nat) : Result (AccountVectorRow α) :=
  match accounts[i]? with
  | none => .error .indexOutOfRange
  | some r => .ok r

/-- The constructor.  Row number `i` is allocated at `alloc i`. -/
def new [Inhabited α] (alloc : Nat → Nat) : AccountVector α := ⟨[.new (alloc 0)], 0, 0⟩

/-- The row at `next_open_idx` is full: go on to the next, and allocate it unless it is there. -/
def openNext [Inhabited α] (alloc : Nat → Nat) (v : AccountVector α) : AccountVector α where
  accounts := if v.accounts.length = v.nextOpenIdx + 1 then
    v.accounts ++ [.new (alloc v.accounts.length)] else v.accounts
  nextOpenIdx := v.nextOpenIdx + 1
  size := v.size

def emplaceBack [Inhabited α] (alloc : Nat → Nat) (v : AccountVector α) (acct : α) :
    Result (AccountSlot × AccountVector α) := do
  let row ← rowAt v.accounts v.nextOpenIdx
  let (out, row) ← row.append acct
  let v := { v with
    accounts := v.accounts.set v.nextOpenIdx row
    size := v.size + 1 }
  return (out, if row.isFull then v.openNext alloc else v)

/-- The loop of `erase`.  Below row 0 there is none. -/
def eraseLoop : Nat → Nat → List (AccountVectorRow α) → Result (List (AccountVectorRow α) × Nat)
  | nextOpenIdx, 0, accounts => .ok (accounts, nextOpenIdx)
  | nextOpenIdx, numToErase + 1, accounts => do
    let row ← rowAt accounts nextOpenIdx
    let (erased, row) := row.erase (numToErase + 1)
    let accounts := accounts.set nextOpenIdx row
    if numToErase + 1 - erased > 0 then
      match nextOpenIdx with
      | 0 => .error .indexOutOfRange
      | nextOpenIdx + 1 => eraseLoop nextOpenIdx (numToErase + 1 - erased) accounts
    else .ok (accounts, nextOpenIdx)

def erase (v : AccountVector α) (numToErase : Nat) : Result (AccountVector α) := do
  let (accounts, nextOpenIdx) ← eraseLoop v.nextOpenIdx numToErase v.accounts
  return ⟨accounts, nextOpenIdx, v.size - numToErase⟩

/-- `idx >> ROW_OFFSET_LSHIFT` is the row and `idx & LOWBITS_MASK` the position in it. -/
def get (v : AccountVector α) (idx : Nat) : Result AccountSlot := do
  let row ← rowAt v.accounts (idx >>> 16)
  row.get (idx &&& 0xFFFF)

/-- The loop of `resize`, with a bound on the number of rounds.  Each adds an entry or leaves a full
row behind. -/
def resizeLoop [Inhabited α] (alloc : Nat → Nat) : Nat → Nat → AccountVector α →
    Result (AccountVector α)
  | _, 0, v => .ok v
  | 0, _ + 1, _ => .error .nontermination
  | rounds + 1, numToAdd + 1, v => do
    let row ← rowAt v.accounts v.nextOpenIdx
    let (numAdded, row) ← row.resize (numToAdd + 1)
    let v := { v with
      accounts := v.accounts.set v.nextOpenIdx row
      size := v.size + numAdded }
    if row.isFull then resizeLoop alloc rounds (numToAdd + 1 - numAdded) (v.openNext alloc)
    else if numToAdd + 1 - numAdded ≠ 0 then .error (.runtimeError "resize error")
    else .ok v

def resize [Inhabited α] (alloc : Nat → Nat) (v : AccountVector α) (sz : Nat) :
    Result (AccountVector α) := do
  if sz ≤ v.size then .ok v
  else
    let v ← resizeLoop alloc (sz - v.size + v.accounts.length) (sz - v.size) v
    if sz ≠ v.size then .error (.runtimeError "overall resize error") else .ok v

/-- The account that a pointer points to. -/
def load (v : AccountVector α) (p : AccountSlot) : Option α :=
  (v.accounts.find? (·.address = p.row)).map (·.row p.slot)

theorem rowAt_eq_ok {accounts : List (AccountVectorRow α)} {i : Nat} {r : AccountVectorRow α} :
    rowAt accounts i = .ok r ↔ accounts[i]? = some r := by
  unfold rowAt
  split
  · rename_i h
    simp [h]
  · rename_i h
    simp [h]

end AccountVector

/-! ### The list of accounts -/

/-- Row number `i` holds its part of the list `l`. -/
structure AccountVectorRow.Holds {α : Type} (alloc : Nat → Nat) (l : List α) (i : Nat)
    (r : AccountVectorRow α) : Prop where
  address : r.address = alloc i
  active : r.numActiveEntries = min 0x10000 (l.length - 0x10000 * i)
  entry : ∀ (s : Fin 0x10000) a, l[0x10000 * i + s.val]? = some a → r.row s = a

/-- The entries of row number `i` past the list `l` are as they were constructed. -/
def AccountVectorRow.Clean {α : Type} [Inhabited α] (l : List α) (i : Nat)
    (r : AccountVectorRow α) : Prop :=
  ∀ s : Fin 0x10000, l.length ≤ 0x10000 * i + s.val → r.row s = default

namespace AccountVectorRow

variable {α : Type} {alloc : Nat → Nat} {l : List α} {i : Nat} {r : AccountVectorRow α}

theorem holds_new [Inhabited α] (h : l.length ≤ 0x10000 * i) : (new (alloc i)).Holds alloc l i := by
  refine ⟨rfl, ?_, fun s a hs => ?_⟩
  · simp only [new]
    omega
  · rw [List.getElem?_eq_none (by omega)] at hs
    cases hs

theorem clean_new [Inhabited α] (address : Nat) : (new address : AccountVectorRow α).Clean l i :=
  fun _ _ => rfl

/-- An append to the row that the list ends in. -/
theorem Holds.append (h : r.Holds alloc l i) (hlo : 0x10000 * i ≤ l.length)
    (hhi : l.length < 0x10000 * i + 0x10000) (acct : α) :
    ∃ out r', r.append acct = .ok (out, r') ∧ r'.Holds alloc (l ++ [acct]) i ∧
      out.row = alloc i ∧ 0x10000 * i + out.slot.val = l.length := by
  have hactive : r.numActiveEntries = l.length - 0x10000 * i := by
    rw [h.active]
    omega
  rw [AccountVectorRow.append, dif_pos (by omega)]
  refine ⟨_, _, rfl, ⟨h.address, ?_, fun s a hs => ?_⟩, h.address, ?_⟩
  · rw [List.length_append, List.length_singleton]
    simp only
    omega
  · rcases lt_trichotomy (0x10000 * i + s.val) l.length with hlt | heq | hgt
    · rw [List.getElem?_append_left hlt] at hs
      have hne : s ≠ ⟨r.numActiveEntries, by omega⟩ := by
        intro heq
        rw [Fin.ext_iff] at heq
        simp only at heq
        omega
      exact (Function.update_of_ne hne ..).trans (h.entry s a hs)
    · have hs' : s = ⟨r.numActiveEntries, by omega⟩ := by
        apply Fin.ext
        simp only
        omega
      rw [heq, List.getElem?_concat_length] at hs
      rw [hs']
      exact (Function.update_self ..).trans (Option.some.inj hs)
    · rw [List.getElem?_eq_none (by simp; omega)] at hs
      cases hs
  · simp only
    omega

theorem append_clean [Inhabited α] {acct : α} {out : AccountSlot} {r' : AccountVectorRow α}
    (h : r.Clean l i) (hout : r.append acct = .ok (out, r'))
    (hslot : 0x10000 * i + out.slot.val = l.length) : r'.Clean (l ++ [acct]) i := by
  rw [AccountVectorRow.append] at hout
  split at hout
  · cases hout
    intro s hs
    rw [List.length_append, List.length_singleton] at hs
    have hne : s ≠ ⟨r.numActiveEntries, by assumption⟩ := by
      rintro rfl
      simp only at hs hslot
      omega
    exact (Function.update_of_ne hne ..).trans (h s (by omega))
  · cases hout

/-- A row that the list does not end in keeps what it holds when the list grows. -/
theorem Holds.extend (h : r.Holds alloc l i) {l' : List α}
    (hout : (l ++ l').length ≤ 0x10000 * i ∨
      0x10000 * i + 0x10000 ≤ l.length) : r.Holds alloc (l ++ l') i := by
  rw [List.length_append] at hout
  refine ⟨h.address, ?_, fun s a hs => ?_⟩
  · rw [h.active, List.length_append]
    omega
  · rcases hout with hout | hout
    · rw [List.getElem?_eq_none (by rw [List.length_append]; omega)] at hs
      cases hs
    · rw [List.getElem?_append_left (by omega)] at hs
      exact h.entry s a hs

/-- `erase` of a row, when the list is cut. -/
theorem Holds.take (h : r.Holds alloc l i) {m : Nat} (hm : m ≤ l.length) {numActiveEntries : Nat}
    (hactive : numActiveEntries = min 0x10000 (m - 0x10000 * i)) :
    { r with numActiveEntries := numActiveEntries }.Holds alloc (l.take m) i := by
  refine ⟨h.address, ?_, fun s a hs => ?_⟩
  · rw [List.length_take]
    simp only
    omega
  · rw [List.getElem?_take] at hs
    split_ifs at hs
    exact h.entry s a hs

/-- `resize` of the row that the list ends in: the entries are those that the constructor left. -/
theorem Holds.resize [Inhabited α] (h : r.Holds alloc l i) (hc : r.Clean l i)
    (hlo : 0x10000 * i ≤ l.length) (hhi : l.length < 0x10000 * i + 0x10000) (sz : Nat) :
    ∃ k r', r.resize sz = .ok (k, r') ∧ k = min sz (0x10000 * i + 0x10000 - l.length) ∧
      r'.Holds alloc (l ++ List.replicate k default) i ∧
      r'.Clean (l ++ List.replicate k default) i := by
  have hactive : r.numActiveEntries = l.length - 0x10000 * i :=
    h.active.trans (Nat.min_eq_right (by omega))
  have hleft : 0x10000 - r.numActiveEntries = 0x10000 * i + 0x10000 - l.length := by omega
  rw [AccountVectorRow.resize, if_neg (by omega), hleft]
  generalize hk : min sz (0x10000 * i + 0x10000 - l.length) = k
  refine ⟨k, _, rfl, rfl, ⟨h.address, ?_, fun s a hs => ?_⟩, fun s hs => hc s ?_⟩
  · rw [List.length_append, List.length_replicate, Nat.min_eq_right (by omega)]
    simp only
    omega
  · rcases Nat.lt_or_ge (0x10000 * i + s.val) l.length with hlt | hge
    · rw [List.getElem?_append_left hlt] at hs
      exact h.entry s a hs
    · rw [List.getElem?_append_right hge, List.getElem?_replicate] at hs
      split_ifs at hs
      cases hs
      exact hc s hge
  · rw [List.length_append] at hs
    omega

end AccountVectorRow

namespace AccountVector

variable {α : Type} {alloc : Nat → Nat} {v : AccountVector α} {l : List α}

/-- Each row holds its part of the list. -/
def RowsHold (alloc : Nat → Nat) (accounts : List (AccountVectorRow α)) (l : List α) : Prop :=
  ∀ i (r : AccountVectorRow α), accounts[i]? = some r → r.Holds alloc l i

def RowsClean [Inhabited α] (accounts : List (AccountVectorRow α)) (l : List α) : Prop :=
  ∀ i (r : AccountVectorRow α), accounts[i]? = some r → r.Clean l i

/-- The vector holds the list `l`: rows before `next_open_idx` are full, and it is not. -/
structure Holds (alloc : Nat → Nat) (v : AccountVector α) (l : List α) : Prop where
  size : v.size = l.length
  nextOpenIdx : v.nextOpenIdx = l.length / 0x10000
  inside : v.nextOpenIdx < v.accounts.length
  rows : RowsHold alloc v.accounts l

theorem holds_new [Inhabited α] : (new alloc : AccountVector α).Holds alloc [] := by
  refine ⟨rfl, by simp [new], by simp [new], fun i r hr => ?_⟩
  obtain ⟨rfl, rfl⟩ : i = 0 ∧ AccountVectorRow.new (alloc 0) = r := by
    simpa [new, List.getElem?_singleton] using hr
  exact AccountVectorRow.holds_new (Nat.zero_le _)

theorem clean_new [Inhabited α] : RowsClean (new alloc : AccountVector α).accounts [] := by
  intro i r hr
  obtain ⟨-, rfl⟩ : i = 0 ∧ AccountVectorRow.new (alloc 0) = r := by
    simpa [new, List.getElem?_singleton] using hr
  exact AccountVectorRow.clean_new _

theorem getElem?_set_eq_some {accounts : List (AccountVectorRow α)} {i j : Nat}
    {r r' : AccountVectorRow α} (h : (accounts.set i r)[j]? = some r') :
    (j = i ∧ r' = r) ∨ (j ≠ i ∧ accounts[j]? = some r') := by
  rcases eq_or_ne i j with rfl | hne
  · rw [List.getElem?_set_self'] at h
    obtain ⟨-, -, rfl⟩ := Option.map_eq_some_iff.mp h
    exact .inl ⟨rfl, rfl⟩
  · rw [List.getElem?_set_ne hne] at h
    exact .inr ⟨hne.symm, h⟩

theorem getElem?_openNext [Inhabited α] {i : Nat} {r : AccountVectorRow α}
    (h : (v.openNext alloc).accounts[i]? = some r) :
    v.accounts[i]? = some r ∨
      (i = v.accounts.length ∧ i = v.nextOpenIdx + 1 ∧ r = .new (alloc i)) := by
  simp only [openNext] at h
  split_ifs at h with hlast
  · rcases Nat.lt_or_ge i v.accounts.length with hlt | hge
    · rw [List.getElem?_append_left hlt] at h
      exact .inl h
    · rw [List.getElem?_append_right hge, List.getElem?_singleton] at h
      split_ifs at h with hi
      cases h
      obtain rfl : i = v.accounts.length := by omega
      exact .inr ⟨rfl, hlast, rfl⟩
  · exact .inl h

theorem RowsHold.set {accounts : List (AccountVectorRow α)} {l' : List α} {i : Nat}
    {r : AccountVectorRow α} (h : RowsHold alloc accounts l)
    (hother : ∀ j (r : AccountVectorRow α), j ≠ i → r.Holds alloc l j → r.Holds alloc l' j)
    (hr : r.Holds alloc l' i) : RowsHold alloc (accounts.set i r) l' := by
  intro j r' hr'
  rcases getElem?_set_eq_some hr' with ⟨rfl, rfl⟩ | ⟨hne, hr'⟩
  · exact hr
  · exact hother j r' hne (h j r' hr')

theorem RowsClean.set [Inhabited α] {accounts : List (AccountVectorRow α)} {l' : List α} {i : Nat}
    {r : AccountVectorRow α} (h : RowsClean accounts l) (hle : l.length ≤ l'.length)
    (hr : r.Clean l' i) : RowsClean (accounts.set i r) l' := by
  intro j r' hr'
  rcases getElem?_set_eq_some hr' with ⟨rfl, rfl⟩ | ⟨-, hr'⟩
  · exact hr
  · exact fun s hs => h j r' hr' s (hle.trans hs)

/-- The list ends where the row at `next_open_idx` does. -/
theorem holds_openNext [Inhabited α] (hrows : RowsHold alloc v.accounts l)
    (hsize : v.size = l.length) (hinside : v.nextOpenIdx < v.accounts.length)
    (hfull : l.length = 0x10000 * (v.nextOpenIdx + 1)) : (v.openNext alloc).Holds alloc l := by
  refine ⟨hsize, ?_, ?_, ?_⟩
  · simp only [openNext]
    omega
  · simp only [openNext]
    split_ifs with hlast
    · rw [List.length_append, List.length_singleton]
      omega
    · omega
  · intro i r hr
    rcases getElem?_openNext hr with hr | ⟨-, hi, rfl⟩
    · exact hrows i r hr
    · exact AccountVectorRow.holds_new (by omega)

theorem clean_openNext [Inhabited α] (h : RowsClean v.accounts l) :
    RowsClean (v.openNext alloc).accounts l := by
  intro i r hr
  rcases getElem?_openNext hr with hr | ⟨-, -, rfl⟩
  · exact h i r hr
  · exact AccountVectorRow.clean_new _

/-- The open row of a vector. -/
theorem Holds.openRow (h : v.Holds alloc l) :
    ∃ r, rowAt v.accounts v.nextOpenIdx = .ok r ∧ r.Holds alloc l v.nextOpenIdx ∧
      v.accounts[v.nextOpenIdx]? = some r := by
  obtain ⟨r, hr⟩ : ∃ r, v.accounts[v.nextOpenIdx]? = some r :=
    ⟨_, List.getElem?_eq_getElem h.inside⟩
  exact ⟨r, rowAt_eq_ok.mpr hr, h.rows _ _ hr, hr⟩

/-- The address of entry `i`, of any vector. -/
def pointer (alloc : Nat → Nat) (i : Nat) : AccountSlot :=
  ⟨alloc (i / 0x10000), ⟨i % 0x10000, Nat.mod_lt i (by decide)⟩⟩

theorem emplaceBack_holds [Inhabited α] (h : v.Holds alloc l) (acct : α) :
    ∃ v', v.emplaceBack alloc acct = .ok (pointer alloc l.length, v') ∧
      v'.Holds alloc (l ++ [acct]) ∧ (RowsClean v.accounts l → RowsClean v'.accounts (l ++ [acct])) := by
  obtain ⟨r, hat, hr, hget⟩ := h.openRow
  have hopen := h.nextOpenIdx
  obtain ⟨out, r', happend, hr', hrow, hslot⟩ := hr.append (by omega) (by omega) acct
  have hout : out = pointer alloc l.length := by
    have hmod : out.slot.val = l.length % 0x10000 := by omega
    rw [pointer, ← hopen, ← hrow]
    exact congrArg (AccountSlot.mk out.row) (Fin.ext hmod)
  have hrows : RowsHold alloc (v.accounts.set v.nextOpenIdx r') (l ++ [acct]) := by
    refine h.rows.set (fun j r hne hj => hj.extend ?_) hr'
    rw [List.length_append, List.length_singleton]
    omega
  have hclean : RowsClean v.accounts l →
      RowsClean (v.accounts.set v.nextOpenIdx r') (l ++ [acct]) := fun hc =>
    hc.set (by simp) (AccountVectorRow.append_clean (hc _ _ hget) happend hslot)
  have hactive := hr'.active
  rw [List.length_append, List.length_singleton] at hactive
  have hsize : v.size + 1 = (l ++ [acct]).length := by rw [h.size]; simp
  have hinside : v.nextOpenIdx < (v.accounts.set v.nextOpenIdx r').length := by
    rw [List.length_set]
    exact h.inside
  rw [emplaceBack, hat, ok_bind, happend, ok_bind, hout]
  refine ⟨_, rfl, ?_⟩
  split_ifs with hfull
  · rw [AccountVectorRow.isFull, decide_eq_true_eq] at hfull
    refine ⟨holds_openNext hrows hsize hinside ?_, fun hc => clean_openNext (hclean hc)⟩
    simp only [List.length_append, List.length_singleton]
    omega
  · rw [AccountVectorRow.isFull, decide_eq_true_eq] at hfull
    refine ⟨⟨hsize, ?_, hinside, hrows⟩, hclean⟩
    rw [List.length_append, List.length_singleton]
    simp only
    omega

/-- The loop of `erase`, from a row that the list ends in or at: it cuts the list to its first `m`
entries, and ends at the row where they end. -/
theorem eraseLoop_holds {nextOpenIdx numToErase m : Nat} {accounts : List (AccountVectorRow α)}
    (hnum : 0 < numToErase) (hlength : m + numToErase = l.length)
    (hlo : 0x10000 * nextOpenIdx ≤ l.length) (hhi : l.length ≤ 0x10000 * (nextOpenIdx + 1))
    (hinside : nextOpenIdx < accounts.length) (hrows : RowsHold alloc accounts l) :
    ∃ accounts', eraseLoop nextOpenIdx numToErase accounts = .ok (accounts', m / 0x10000) ∧
      accounts'.length = accounts.length ∧ RowsHold alloc accounts' (l.take m) := by
  induction nextOpenIdx generalizing numToErase l accounts with
  | zero =>
    obtain ⟨k, rfl⟩ : ∃ k, numToErase = k + 1 := ⟨numToErase - 1, by omega⟩
    obtain ⟨r, hr⟩ : ∃ r, accounts[0]? = some r := ⟨_, List.getElem?_eq_getElem hinside⟩
    have hactive := (hrows 0 r hr).active
    have hmin : min (k + 1) r.numActiveEntries = k + 1 := by omega
    rw [eraseLoop, rowAt_eq_ok.mpr hr, ok_bind]
    simp only [AccountVectorRow.erase, hmin]
    rw [if_neg (by omega), Nat.div_eq_of_lt (by omega)]
    refine ⟨_, rfl, List.length_set, hrows.set (fun j r hne hj => ?_) ?_⟩
    · exact hj.take (by omega) (by rw [hj.active]; omega)
    · exact (hrows 0 r hr).take (by omega) (by omega)
  | succ n ih =>
    obtain ⟨k, rfl⟩ : ∃ k, numToErase = k + 1 := ⟨numToErase - 1, by omega⟩
    obtain ⟨r, hr⟩ : ∃ r, accounts[n + 1]? = some r := ⟨_, List.getElem?_eq_getElem hinside⟩
    have hactive := (hrows (n + 1) r hr).active
    rw [eraseLoop, rowAt_eq_ok.mpr hr, ok_bind]
    rcases Nat.lt_or_ge r.numActiveEntries (k + 1) with hlt | hge
    · -- the row is emptied, and the one before it is full
      have hmin : min (k + 1) r.numActiveEntries = r.numActiveEntries := by omega
      simp only [AccountVectorRow.erase, hmin]
      rw [if_pos (by omega)]
      have hrows' : RowsHold alloc (accounts.set (n + 1)
          { r with numActiveEntries := r.numActiveEntries - r.numActiveEntries })
          (l.take (0x10000 * (n + 1))) := by
        refine hrows.set (fun j r hne hj => ?_) ?_
        · exact hj.take (by omega) (by rw [hj.active]; omega)
        · exact (hrows (n + 1) r hr).take (by omega) (by omega)
      have hcut : (l.take (0x10000 * (n + 1))).length = 0x10000 * (n + 1) := by
        rw [List.length_take]
        omega
      obtain ⟨accounts', hloop, hlength', hrows'⟩ := @ih (l.take (0x10000 * (n + 1)))
        (k + 1 - r.numActiveEntries) _ (by omega) (by omega) (by omega) (by omega)
        (by rw [List.length_set]; omega) hrows'
      refine ⟨accounts', hloop, hlength'.trans List.length_set, ?_⟩
      rwa [List.take_take, Nat.min_eq_left (by omega)] at hrows'
    · have hmin : min (k + 1) r.numActiveEntries = k + 1 := by omega
      have hdiv : m / 0x10000 = n + 1 := by omega
      have hpart : r.numActiveEntries = l.length - 0x10000 * (n + 1) :=
        hactive.trans (Nat.min_eq_right (by omega))
      have hleft : r.numActiveEntries - (k + 1) = min 0x10000 (m - 0x10000 * (n + 1)) := by
        rw [Nat.min_eq_right (by omega)]
        omega
      simp only [AccountVectorRow.erase, hmin]
      rw [if_neg (by omega), hdiv]
      refine ⟨_, rfl, List.length_set, hrows.set (fun j r hne hj => ?_) ?_⟩
      · exact hj.take (by omega) (by rw [hj.active]; omega)
      · exact (hrows (n + 1) r hr).take (by omega) hleft

theorem erase_holds (h : v.Holds alloc l) {k : Nat} (hk : k ≤ l.length) :
    ∃ v', v.erase k = .ok v' ∧ v'.Holds alloc (l.take (l.length - k)) := by
  have hopen := h.nextOpenIdx
  have hcut : (l.take (l.length - k)).length = l.length - k := by
    rw [List.length_take]
    omega
  rcases Nat.eq_zero_or_pos k with rfl | hpos
  · refine ⟨v, ?_, ?_⟩
    · rw [erase, show eraseLoop v.nextOpenIdx 0 v.accounts = .ok (v.accounts, v.nextOpenIdx) by
        cases v.nextOpenIdx <;> rfl]
      rfl
    · rw [Nat.sub_zero, List.take_length]
      exact h
  · obtain ⟨accounts', hloop, hlength, hrows⟩ := @eraseLoop_holds _ alloc l v.nextOpenIdx k
      (l.length - k) v.accounts hpos (by omega) (by omega) (by omega) h.inside h.rows
    refine ⟨⟨accounts', (l.length - k) / 0x10000, v.size - k⟩, ?_, ?_, ?_, ?_, hrows⟩
    · rw [erase, hloop]
      rfl
    · rw [hcut]
      simp only [h.size]
    · rw [hcut]
    · have hinside := h.inside
      simp only [hlength]
      omega

theorem resizeLoop_holds [Inhabited α] {rounds numToAdd : Nat} (h : v.Holds alloc l)
    (hc : RowsClean v.accounts l) (hrounds : numToAdd ≤ rounds) :
    ∃ v', resizeLoop alloc rounds numToAdd v = .ok v' ∧
      v'.Holds alloc (l ++ List.replicate numToAdd default) ∧
      RowsClean v'.accounts (l ++ List.replicate numToAdd default) := by
  induction rounds generalizing numToAdd l v with
  | zero =>
    obtain rfl : numToAdd = 0 := by omega
    rw [List.replicate_zero, List.append_nil]
    exact ⟨v, rfl, h, hc⟩
  | succ rounds ih =>
    obtain rfl | ⟨num, rfl⟩ : numToAdd = 0 ∨ ∃ num, numToAdd = num + 1 := by
      rcases Nat.eq_zero_or_pos numToAdd with hzero | hpos
      · exact .inl hzero
      · exact .inr ⟨numToAdd - 1, by omega⟩
    · rw [List.replicate_zero, List.append_nil]
      exact ⟨v, rfl, h, hc⟩
    obtain ⟨r, hat, hr, hget⟩ := h.openRow
    have hopen := h.nextOpenIdx
    obtain ⟨k, r', hresize, hk, hr', hcr'⟩ :=
      hr.resize (hc _ _ hget) (by omega) (by omega) (num + 1)
    have hlength : (l ++ List.replicate k default).length = l.length + k := by
      rw [List.length_append, List.length_replicate]
    have hrows : RowsHold alloc (v.accounts.set v.nextOpenIdx r')
        (l ++ List.replicate k default) := by
      refine h.rows.set (fun j r hne hj => hj.extend ?_) hr'
      rw [hlength]
      omega
    have hclean : RowsClean (v.accounts.set v.nextOpenIdx r') (l ++ List.replicate k default) :=
      hc.set (by omega) hcr'
    have hsize : v.size + k = (l ++ List.replicate k default).length := by rw [h.size, hlength]
    have hinside : v.nextOpenIdx < (v.accounts.set v.nextOpenIdx r').length := by
      rw [List.length_set]
      exact h.inside
    have hactive := hr'.active
    rw [hlength] at hactive
    rw [resizeLoop, hat, ok_bind, hresize, ok_bind]
    simp only [AccountVectorRow.isFull, decide_eq_true_eq]
    split_ifs with hfull hrest
    · obtain ⟨v', hloop, hv', hcv'⟩ := @ih (openNext alloc ⟨_, v.nextOpenIdx, v.size + k⟩)
        (l ++ List.replicate k default) (num + 1 - k)
        (holds_openNext hrows hsize hinside (by rw [hlength]; simp only; omega))
        (clean_openNext hclean) (by omega)
      rw [List.append_assoc, List.replicate_append_replicate,
        Nat.add_sub_cancel' (by omega)] at hv' hcv'
      exact ⟨v', hloop, hv', hcv'⟩
    · omega
    · obtain rfl : k = num + 1 := by omega
      refine ⟨_, rfl, ⟨hsize, ?_, hinside, hrows⟩, hclean⟩
      rw [hlength]
      simp only
      omega

theorem resize_holds [Inhabited α] (h : v.Holds alloc l) (hc : RowsClean v.accounts l)
    (sz : Nat) : ∃ v', v.resize alloc sz = .ok v' ∧
      v'.Holds alloc (l ++ List.replicate (sz - l.length) default) ∧
      RowsClean v'.accounts (l ++ List.replicate (sz - l.length) default) := by
  have hsize := h.size
  rw [resize]
  split_ifs with hle
  · rw [Nat.sub_eq_zero_of_le (by omega), List.replicate_zero, List.append_nil]
    exact ⟨v, rfl, h, hc⟩
  · obtain ⟨v', hloop, hv', hcv'⟩ := @resizeLoop_holds _ alloc v l _
      (sz - v.size + v.accounts.length) (sz - v.size) h hc (by omega)
    have hsz : sz = v'.size := by
      rw [hv'.size, List.length_append, List.length_replicate]
      omega
    rw [hloop, ok_bind, if_neg (not_not.mpr hsz), ← hsize]
    exact ⟨v', rfl, hv', hcv'⟩

/-! ### Access -/

/-- Every entry of the list has its row. -/
theorem Holds.row (h : v.Holds alloc l) {i : Nat} (hi : i < l.length) :
    ∃ r, v.accounts[i / 0x10000]? = some r ∧ r.Holds alloc l (i / 0x10000) := by
  have hinside := h.inside
  rw [h.nextOpenIdx] at hinside
  have hle : i / 0x10000 ≤ l.length / 0x10000 := Nat.div_le_div_right (by omega)
  obtain ⟨r, hr⟩ : ∃ r, v.accounts[i / 0x10000]? = some r :=
    ⟨_, List.getElem?_eq_getElem (by omega)⟩
  exact ⟨r, hr, h.rows _ r hr⟩

theorem get_holds (h : v.Holds alloc l) {i : Nat} (hi : i < l.length) :
    v.get i = .ok (pointer alloc i) := by
  obtain ⟨r, hr, hholds⟩ := h.row hi
  have hdiv : i >>> 16 = i / 0x10000 := Nat.shiftRight_eq_div_pow i 16
  have hmod : i &&& 0xFFFF = i % 0x10000 := Nat.and_two_pow_sub_one_eq_mod i 16
  have hlt : i % 0x10000 < 0x10000 := Nat.mod_lt i (by decide)
  rw [get, hdiv, hmod, rowAt_eq_ok.mpr hr, ok_bind, AccountVectorRow.get, dif_pos hlt,
    hholds.address]
  rfl

/-- A pointer to an entry points to the account at its index. -/
theorem load_holds (hinj : Function.Injective alloc) (h : v.Holds alloc l) {i : Nat} {a : α}
    (hi : l[i]? = some a) : v.load (pointer alloc i) = some a := by
  have hlt : i < l.length := (List.getElem?_eq_some_iff.mp hi).1
  obtain ⟨r, hr, hholds⟩ := h.row hlt
  have hfound : v.accounts.find? (·.address = alloc (i / 0x10000)) = some r := by
    obtain ⟨hin, hat⟩ := List.getElem?_eq_some_iff.mp hr
    rw [List.find?_eq_some_iff_getElem]
    refine ⟨by simp [hholds.address], i / 0x10000, hin, hat, fun j hj => ?_⟩
    have hrow := h.rows j _ (List.getElem?_eq_getElem (hj.trans hin))
    simp only [hrow.address, Bool.not_eq_true', decide_eq_false_iff_not]
    exact fun heq => absurd (hinj heq) (by omega)
  have hload : v.load (pointer alloc i) = (v.accounts.find? (·.address = alloc (i / 0x10000))).map
      (·.row (pointer alloc i).slot) := rfl
  have hentry : l[0x10000 * (i / 0x10000) + (pointer alloc i).slot.val]? = some a := by
    rw [show 0x10000 * (i / 0x10000) + (pointer alloc i).slot.val = i from Nat.div_add_mod i 0x10000]
    exact hi
  rw [hload, hfound, Option.map_some, hholds.entry _ a hentry]

theorem pointer_inj (hinj : Function.Injective alloc) {i j : Nat}
    (h : pointer alloc i = pointer alloc j) : i = j := by
  rw [pointer, pointer, AccountSlot.mk.injEq, Fin.mk.injEq] at h
  have hdiv := hinj h.1
  omega

/-- What `rollback_new_accounts_` does with a thunk: the entries that it reads are the ones that
`erase` then removes. -/
theorem rollback_holds (hinj : Function.Injective alloc) (h : v.Holds alloc l) {k : Nat}
    (hk : k ≤ l.length) :
    (∀ i a, (l.drop (l.length - k))[i]? = some a → ∃ p, v.get (v.size - k + i) = .ok p ∧
      v.load p = some a) ∧
    ∃ v', v.erase k = .ok v' ∧ v'.Holds alloc (l.take (l.length - k)) := by
  refine ⟨fun i a hi => ?_, erase_holds h hk⟩
  rw [List.getElem?_drop, ← h.size] at hi
  have hlt := (List.getElem?_eq_some_iff.mp hi).1
  exact ⟨_, get_holds h hlt, load_holds hinj h hi⟩

/-! ### Runs -/

inductive Op (α : Type) where
  | emplaceBack (acct : α)
  | erase (numToErase : Nat)
  | resize (sz : Nat)

def step [Inhabited α] (alloc : Nat → Nat) (v : AccountVector α) : Op α → Result (AccountVector α)
  | .emplaceBack acct => Prod.snd <$> v.emplaceBack alloc acct
  | .erase numToErase => v.erase numToErase
  | .resize sz => v.resize alloc sz

def run [Inhabited α] (alloc : Nat → Nat) (v : AccountVector α) (ops : List (Op α)) :
    Result (AccountVector α) :=
  ops.foldlM (step alloc) v

/-- An operation on the list of accounts. -/
def Op.apply [Inhabited α] (l : List α) : Op α → List α
  | .emplaceBack acct => l ++ [acct]
  | .erase numToErase => l.take (l.length - numToErase)
  | .resize sz => l ++ List.replicate (sz - l.length) default

/-- The list after a run from `l`. -/
def contents [Inhabited α] (l : List α) (ops : List (Op α)) : List α := ops.foldl Op.apply l

def Op.isErase : Op α → Bool
  | .erase _ => true
  | _ => false

/-- At most the list is erased, and it is not resized after an erase. -/
def Op.Allowed (erased : Bool) (l : List α) : Op α → Prop
  | .emplaceBack _ => True
  | .erase numToErase => numToErase ≤ l.length
  | .resize _ => erased = false

def Admissible [Inhabited α] : Bool → List α → List (Op α) → Prop
  | _, _, [] => True
  | erased, l, op :: ops => op.Allowed erased l ∧ Admissible (erased || op.isErase) (op.apply l) ops

/-- The vector holds the list, and has clean rows until something is erased. -/
def Refines [Inhabited α] (alloc : Nat → Nat) (erased : Bool) (v : AccountVector α)
    (l : List α) : Prop :=
  v.Holds alloc l ∧ (erased = false → RowsClean v.accounts l)

section Runs

variable [Inhabited α] {erased : Bool} {op : Op α} {ops : List (Op α)}

theorem step_refines (h : Refines alloc erased v l) (hop : op.Allowed erased l) :
    ∃ v', step alloc v op = .ok v' ∧ Refines alloc (erased || op.isErase) v' (op.apply l) := by
  cases op with
  | emplaceBack acct =>
    obtain ⟨v', hstep, hv', hclean⟩ := emplaceBack_holds h.1 acct
    refine ⟨v', ?_, hv', fun herased => hclean (h.2 (by simpa [Op.isErase] using herased))⟩
    rw [step, hstep]
    rfl
  | erase k =>
    obtain ⟨v', hstep, hv'⟩ := erase_holds h.1 hop
    exact ⟨v', hstep, hv', fun herased => by simp [Op.isErase] at herased⟩
  | resize sz =>
    obtain ⟨v', hstep, hv', hclean⟩ := resize_holds h.1 (h.2 hop) sz
    exact ⟨v', hstep, hv', fun _ => hclean⟩

theorem run_refines (h : Refines alloc erased v l) (hops : Admissible erased l ops) :
    ∃ v' erased', run alloc v ops = .ok v' ∧ Refines alloc erased' v' (contents l ops) := by
  induction ops generalizing erased v l with
  | nil => exact ⟨v, erased, rfl, h⟩
  | cons op ops ih =>
    obtain ⟨v', hstep, hv'⟩ := step_refines h hops.1
    obtain ⟨v'', erased', hrun, hv''⟩ := ih hv' hops.2
    exact ⟨v'', erased', foldlM_cons.mpr ⟨v', hstep, hrun⟩, hv''⟩

theorem Admissible.before {before after : List (Op α)}
    (h : Admissible erased l (before ++ after)) : Admissible erased l before := by
  induction before generalizing erased l with
  | nil => exact trivial
  | cons op before ih => exact ⟨h.1, ih h.2⟩

/-- Entry `i` is there throughout. -/
def Kept (i : Nat) (l : List α) (ops : List (Op α)) : Prop :=
  ∀ k, i < (contents l (ops.take k)).length

theorem apply_getElem? {i : Nat} (hi : i < l.length) (hi' : i < (op.apply l).length) :
    (op.apply l)[i]? = l[i]? := by
  cases op with
  | emplaceBack acct => exact List.getElem?_append_left hi
  | erase k =>
    rw [Op.apply, List.length_take] at hi'
    rw [Op.apply, List.getElem?_take, if_pos (by omega)]
  | resize sz => exact List.getElem?_append_left hi

theorem Kept.getElem? {i : Nat} (h : Kept i l ops) : (contents l ops)[i]? = l[i]? := by
  induction ops generalizing l with
  | nil => rfl
  | cons op ops ih =>
    have hhere : i < l.length := h 0
    have hnext : i < (op.apply l).length := h 1
    exact (ih fun k => h (k + 1)).trans (apply_getElem? hhere hnext)

end Runs

/-- The vector is the list of accounts, after any run: no operation leaves the rows or fails, the
size is the length, entry `i` is the account at index `i`, and the pointer from `emplace_back`
stays the one of its entry while that is there. -/
theorem accountVector_refines_list [Inhabited α] (hinj : Function.Injective alloc)
    {ops : List (Op α)} (hops : Admissible false [] ops) :
    ∃ v, run alloc (new alloc) ops = .ok v ∧ v.size = (contents [] ops).length ∧
      (∀ i a, (contents [] ops)[i]? = some a → ∃ p, v.get i = .ok p ∧ v.load p = some a) ∧
      (∀ i j p, i < v.size → j < v.size → v.get i = .ok p → v.get j = .ok p → i = j) ∧
      (∀ before acct after, ops = before ++ .emplaceBack acct :: after → ∃ v₀ p v₁,
        run alloc (new alloc) before = .ok v₀ ∧ v₀.size = (contents [] before).length ∧
          v₀.emplaceBack alloc acct = .ok (p, v₁) ∧ run alloc v₁ after = .ok v ∧
          (Kept v₀.size (contents [] before ++ [acct]) after →
            v.get v₀.size = .ok p ∧ v.load p = some acct)) := by
  have hstart : Refines alloc false (new alloc : AccountVector α) [] :=
    ⟨holds_new, fun _ => clean_new⟩
  obtain ⟨v, erased, hrun, hv, -⟩ := run_refines hstart hops
  refine ⟨v, hrun, hv.size, fun i a hi => ?_, fun i j p hi hj hpi hpj => ?_,
    fun before acct after heq => ?_⟩
  · have hlt := (List.getElem?_eq_some_iff.mp hi).1
    exact ⟨_, get_holds hv hlt, load_holds hinj hv hi⟩
  · rw [hv.size] at hi hj
    rw [get_holds hv hi] at hpi
    rw [get_holds hv hj] at hpj
    exact pointer_inj hinj (Except.ok.inj (hpi.trans hpj.symm))
  · subst heq
    obtain ⟨v₀, erased₀, hrun₀, hv₀, -⟩ := run_refines hstart hops.before
    obtain ⟨v₁, hstep, -⟩ := emplaceBack_holds hv₀ acct
    have hrun₁ : run alloc v₁ after = .ok v := by
      rw [run, List.foldlM_append, ← run, hrun₀, ok_bind, List.foldlM_cons, step, hstep] at hrun
      exact hrun
    refine ⟨v₀, _, v₁, hrun₀, hv₀.size, hstep, hrun₁, fun hkept => ?_⟩
    have hcontents : contents [] (before ++ .emplaceBack acct :: after) =
        contents (contents [] before ++ [acct]) after := by
      rw [contents, List.foldl_append]
      rfl
    have hentry : (contents [] (before ++ .emplaceBack acct :: after))[v₀.size]? = some acct := by
      rw [hcontents, hkept.getElem?, hv₀.size]
      exact List.getElem?_concat_length
    have hlt := (List.getElem?_eq_some_iff.mp hentry).1
    rw [get_holds hv hlt, hv₀.size]
    rw [hv₀.size] at hentry
    exact ⟨rfl, load_holds hinj hv hentry⟩

/-- A row that is filled up to its last two entries, and three accounts.  Two of them are erased, and
two others appended. -/
def fillAndErase (n : Nat) : List (Op Nat) :=
  [.resize n, .emplaceBack 6, .emplaceBack 7, .emplaceBack 8, .erase 2, .emplaceBack 9, .emplaceBack 10]

theorem admissible_fillAndErase (n : Nat) : Admissible false [] (fillAndErase n) := by
  simp [fillAndErase, Admissible, Op.Allowed, Op.apply]

theorem contents_resize (n : Nat) : contents [] [.resize n] = List.replicate n 0 := by
  simp [contents, Op.apply]

theorem contents_fillAndErase (n : Nat) :
    contents [] (fillAndErase n) = List.replicate n 0 ++ [6, 9, 10] := by
  have herase : (List.replicate n 0 ++ [6, 7, 8]).take (n + 1) = List.replicate n 0 ++ [6] := by
    simp [List.take_append]
  simp [fillAndErase, contents, Op.apply, herase]

theorem kept_fillAndErase (n : Nat) :
    Kept n (List.replicate n 0 ++ [6]) ((fillAndErase n).drop 2) := by
  intro k
  match k with
  | 0 | 1 | 2 | 3 | 4 => simp [fillAndErase, contents, Op.apply]
  | k + 5 =>
    simp [fillAndErase, contents, Op.apply]
    omega

/-- The appends and the erase go over the boundary of the first row, and the pointer to account 6
stays. -/
theorem accountVector_refines_fillAndErase : ∃ v v₀ p v₁,
    run id (new id) (fillAndErase 0xFFFE) = .ok v ∧ v.size = 0x10001 ∧
      (∃ q, v.get 0xFFFF = .ok q ∧ v.load q = some 9) ∧
      (∃ q, v.get 0x10000 = .ok q ∧ v.load q = some 10) ∧
      run id (new id) [.resize 0xFFFE] = .ok v₀ ∧ v₀.emplaceBack id 6 = .ok (p, v₁) ∧
      v.get 0xFFFE = .ok p ∧ v.load p = some 6 := by
  obtain ⟨v, hrun, hsize, hget, -, hpointers⟩ :=
    accountVector_refines_list Function.injective_id (admissible_fillAndErase 0xFFFE)
  obtain ⟨v₀, p, v₁, hrun₀, hsize₀, hemplace, -, hpointer⟩ :=
    hpointers [.resize 0xFFFE] 6 ((fillAndErase 0xFFFE).drop 2) rfl
  rw [contents_fillAndErase] at hsize hget
  rw [List.length_append, List.length_replicate] at hsize
  rw [contents_resize, List.length_replicate] at hsize₀
  rw [contents_resize, hsize₀] at hpointer
  have hat (i : Nat) : (List.replicate 0xFFFE 0 ++ [6, 9, 10])[0xFFFE + i]? = [6, 9, 10][i]? := by
    rw [List.getElem?_append_right (by rw [List.length_replicate]; omega), List.length_replicate,
      Nat.add_sub_cancel_left]
  obtain ⟨hp, hload⟩ := hpointer (kept_fillAndErase 0xFFFE)
  exact ⟨v, v₀, p, v₁, hrun, hsize, hget 0xFFFF 9 (hat 1), hget 0x10000 10 (hat 2), hrun₀, hemplace,
    hp, hload⟩

end AccountVector

end Speedex
