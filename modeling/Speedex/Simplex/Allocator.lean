import Speedex.Lib.Except
import Speedex.Lib.WordBits
import Speedex.Types

/-! The cells of the lists of the sparse tableau (`simplex/allocator.h`): words in rows of 65536,
each with a 16-bit value in its low bits and the address of another cell above them.  A row hands
out its slots in order, and all of them again once it has handed out 65535 and all are back. -/

namespace Speedex

open Lib

/-! ### The source -/

structure AllocatorRow where
  data : UInt16 → UInt64
  nextFreeSlot : UInt64
  usageCount : UInt32
  upperBits : UInt64

namespace AllocatorRow

def maxIndexShifted : UInt64 := 0xFFFF0000

def new (bufferIdx : UInt64) : AllocatorRow := ⟨fun _ => 0, 0, 0, bufferIdx <<< 32⟩

def allocate (row : AllocatorRow) : UInt64 × AllocatorRow :=
  (row.upperBits + row.nextFreeSlot,
    { row with nextFreeSlot := row.nextFreeSlot + 0x10000, usageCount := row.usageCount + 1 })

def full (row : AllocatorRow) : Bool := row.nextFreeSlot == maxIndexShifted

def free (row : AllocatorRow) : AllocatorRow := { row with usageCount := row.usageCount - 1 }

def readyForRefresh (row : AllocatorRow) : Bool := row.usageCount == 0 && row.full

def clear (row : AllocatorRow) : AllocatorRow := { row with usageCount := 0, nextFreeSlot := 0 }

/-- A word of the row is overwritten. -/
def write (row : AllocatorRow) (slot : UInt16) (word : UInt64) : AllocatorRow :=
  { row with data := Function.update row.data slot word }

-- stated of any counters: with those of `allocate`, the sums would be unfolded
theorem counters_frame (row : AllocatorRow) (out nextFreeSlot : UInt64) (usageCount : UInt32) :
    (out, { row with nextFreeSlot, usageCount }).2.data = row.data ∧
      (out, { row with nextFreeSlot, usageCount }).2.upperBits = row.upperBits := ⟨rfl, rfl⟩

@[simp] theorem data_allocate (row : AllocatorRow) : row.allocate.2.data = row.data :=
  (row.counters_frame _ _ _).1

@[simp] theorem upperBits_allocate (row : AllocatorRow) :
    row.allocate.2.upperBits = row.upperBits :=
  (row.counters_frame _ _ _).2

@[simp] theorem data_free (row : AllocatorRow) : row.free.data = row.data := rfl

@[simp] theorem data_clear (row : AllocatorRow) : row.clear.data = row.data := rfl

@[simp] theorem data_write (row : AllocatorRow) (slot : UInt16) (word : UInt64) :
    (row.write slot word).data = Function.update row.data slot word := rfl

@[simp] theorem full_free (row : AllocatorRow) : row.free.full = row.full := rfl

@[simp] theorem full_write (row : AllocatorRow) (slot : UInt16) (word : UInt64) :
    (row.write slot word).full = row.full := rfl

end AllocatorRow

/-- What a non-null `uint64_t*` into a row points to. -/
@[ext] structure CellPtr where
  row : Nat
  slot : UInt16
deriving DecidableEq, Repr

structure Allocator where
  buffers : List AllocatorRow
  /-- from the back -/
  nonfullBuffers : List UInt32

namespace Allocator

def new : Allocator := ⟨[.new 1], [0]⟩

def get (alloc : Allocator) (addr : UInt64) : Result (Option CellPtr) :=
  let bufferIdx := (addr >>> 32).toUInt32
  if bufferIdx = 0 then
    .ok none
  else if (bufferIdx - 1).toNat < alloc.buffers.length then
    .ok (some ⟨(bufferIdx - 1).toNat, ((addr &&& 0xFFFF0000) >>> 16).toUInt16⟩)
  else
    .error .indexOutOfRange

/-- A new row is 2^19 bytes long; `make_unique` throws when there is no memory for it. -/
def allocate (alloc : Allocator) : Result (UInt64 × Allocator) :=
  match alloc.nonfullBuffers with
  | [] => .error .indexOutOfRange
  | back :: rest =>
    match alloc.buffers[back.toNat]? with
    | none => .error .indexOutOfRange
    | some row =>
      let (out, row) := row.allocate
      let buffers := alloc.buffers.set back.toNat row
      if row.full then
        if rest.isEmpty then
          let nextBufferIdx := UInt32.ofNat buffers.length
          -- the number of the new row is a sum of 32 bits
          .ok (out, ⟨buffers ++ [.new (nextBufferIdx + 1).toUInt64], [nextBufferIdx]⟩)
        else
          .ok (out, ⟨buffers, rest⟩)
      else
        .ok (out, ⟨buffers, back :: rest⟩)

def free (alloc : Allocator) (addr : UInt64) : Result Allocator :=
  let bufIdx := ((addr >>> 32) - 1).toUInt32
  match alloc.buffers[bufIdx.toNat]? with
  | none => .error .indexOutOfRange
  | some row =>
    let row := row.free
    if row.readyForRefresh then
      .ok ⟨alloc.buffers.set bufIdx.toNat row.clear, bufIdx :: alloc.nonfullBuffers⟩
    else
      .ok { alloc with buffers := alloc.buffers.set bufIdx.toNat row }

def getValue (addr : UInt64) : UInt16 := (addr &&& 0xFFFF).toUInt16

def setValue (addr : UInt64) (val : UInt16) : UInt64 :=
  (addr &&& 0xFFFFFFFFFFFF0000) ||| val.toUInt64

def copyNextObjPtr (modAddr nextAddr : UInt64) : UInt64 :=
  (modAddr &&& 0xFFFF) ||| (nextAddr &&& 0xFFFFFFFFFFFF0000)

/-- `*ptr`.  There is no cell at the null pointer. -/
def load (alloc : Allocator) : Option CellPtr → Result UInt64
  | none => .error .indexOutOfRange
  | some p =>
    match alloc.buffers[p.row]? with
    | none => .error .indexOutOfRange
    | some row => .ok (row.data p.slot)

/-- `*ptr = word`. -/
def store (alloc : Allocator) (ptr : Option CellPtr) (word : UInt64) : Result Allocator :=
  match ptr with
  | none => .error .indexOutOfRange
  | some p =>
    match alloc.buffers[p.row]? with
    | none => .error .indexOutOfRange
    | some row => .ok { alloc with buffers := alloc.buffers.set p.row (row.write p.slot word) }

end Allocator

/-! ### Words -/

/-- The cell that a word leads to. -/
def cellOf (word : UInt64) : Option CellPtr :=
  if word.toNat / 2 ^ 32 = 0 then none
  else some ⟨word.toNat / 2 ^ 32 - 1, UInt16.ofNat (word.toNat / 2 ^ 16)⟩

namespace Allocator

variable {alloc alloc' : Allocator} {word : UInt64} {p q : CellPtr} {val : UInt16}

theorem toNat_and_low (word : UInt64) : (word &&& 0xFFFF).toNat = word.toNat % 2 ^ 16 := by
  rw [UInt64.toNat_and]
  exact Nat.and_two_pow_sub_one_eq_mod word.toNat 16

theorem bit_high {i : Nat} (hi : i < 64) : bit 0xFFFFFFFFFFFF0000 i = decide (16 ≤ i) := by
  have h : ∀ i : Fin 64, bit 0xFFFFFFFFFFFF0000 i.val = decide (16 ≤ i.val) := by decide
  exact h ⟨i, hi⟩

theorem toNat_and_high (word : UInt64) :
    (word &&& 0xFFFFFFFFFFFF0000).toNat = 2 ^ 16 * (word.toNat / 2 ^ 16) := by
  have hshift : word &&& (0xFFFFFFFFFFFF0000 : UInt64) = (word >>> 16) <<< 16 := by
    apply ext_bits
    intro i
    rw [bit_and, bit_shiftLeft _ (by decide), bit_shiftRight _ (by decide)]
    by_cases hi : i < 64
    · rw [bit_high hi, show (16 : UInt64).toNat = 16 from rfl, decide_eq_true hi]
      by_cases h16 : 16 ≤ i
      · simp [h16]
      · simp [h16]
    · have hnone : bit word i = false := by
        by_contra h
        exact hi (lt_of_bit (by simpa using h))
      simp [hnone, hi]
  have hlt := word.toNat_lt
  simp only [hshift, UInt64.toNat_shiftLeft, UInt64.toNat_shiftRight, UInt64.reduceToNat,
    Nat.reduceMod, Nat.shiftRight_eq_div_pow, Nat.shiftLeft_eq]
  omega

/-- A word of low bits and high bits. -/
theorem toNat_or {low high : UInt64} {k : Nat} (hlow : low.toNat < 2 ^ 16)
    (hhigh : high.toNat = 2 ^ 16 * k) : (low ||| high).toNat = 2 ^ 16 * k + low.toNat := by
  rw [UInt64.toNat_or, hhigh, Nat.or_comm, ← Nat.two_pow_add_eq_or_of_lt hlow]

theorem toNat_copyNextObjPtr (word next : UInt64) :
    (copyNextObjPtr word next).toNat = 2 ^ 16 * (next.toNat / 2 ^ 16) + word.toNat % 2 ^ 16 := by
  have hlow := toNat_and_low word
  rw [copyNextObjPtr, toNat_or (by omega) (toNat_and_high next), hlow]

theorem toNat_setValue (word : UInt64) (val : UInt16) :
    (setValue word val).toNat = 2 ^ 16 * (word.toNat / 2 ^ 16) + val.toNat := by
  have hval : val.toUInt64.toNat = val.toNat := UInt16.toNat_toUInt64 val
  have hlt := val.toNat_lt
  rw [setValue, UInt64.or_comm, toNat_or (by omega) (toNat_and_high word), hval]

/-- The link of a word is in its high bits. -/
theorem cellOf_congr {v w : UInt64} (h : v.toNat / 2 ^ 16 = w.toNat / 2 ^ 16) :
    cellOf v = cellOf w := by
  have hrow : v.toNat / 2 ^ 32 = w.toNat / 2 ^ 32 := by omega
  rw [cellOf, cellOf, h, hrow]

@[simp] theorem cellOf_zero : cellOf 0 = none := rfl

@[simp] theorem cellOf_copyNextObjPtr (word next : UInt64) :
    cellOf (copyNextObjPtr word next) = cellOf next := by
  apply cellOf_congr
  rw [toNat_copyNextObjPtr]
  omega

@[simp] theorem cellOf_setValue (word : UInt64) (val : UInt16) :
    cellOf (setValue word val) = cellOf word := by
  have hlt := val.toNat_lt
  apply cellOf_congr
  rw [toNat_setValue]
  omega

theorem toNat_getValue (word : UInt64) : (getValue word).toNat = word.toNat % 2 ^ 16 := by
  rw [getValue, UInt64.toNat_toUInt16, toNat_and_low]
  omega

@[simp] theorem getValue_copyNextObjPtr (word next : UInt64) :
    getValue (copyNextObjPtr word next) = getValue word := by
  apply UInt16.toNat_inj.mp
  rw [toNat_getValue, toNat_getValue, toNat_copyNextObjPtr]
  omega

@[simp] theorem getValue_setValue (word : UInt64) (val : UInt16) :
    getValue (setValue word val) = val := by
  have hlt := val.toNat_lt
  apply UInt16.toNat_inj.mp
  rw [toNat_getValue, toNat_setValue]
  omega

theorem toNat_shiftRight_row (word : UInt64) : (word >>> 32).toNat = word.toNat / 2 ^ 32 := by
  simp only [UInt64.toNat_shiftRight, UInt64.reduceToNat, Nat.reduceMod, Nat.shiftRight_eq_div_pow]

theorem toNat_slot (word : UInt64) :
    ((word &&& 0xFFFF0000) >>> 16).toUInt16.toNat = word.toNat / 2 ^ 16 % 2 ^ 16 := by
  have hshift : (word &&& (0xFFFF0000 : UInt64)) >>> 16 = (word >>> 16) &&& 0xFFFF := by
    apply ext_bits
    intro i
    rw [bit_shiftRight _ (by decide), bit_and, bit_and, bit_shiftRight _ (by decide)]
    congr 1
    by_cases hi : i < 64
    · have h : ∀ i : Fin 64, bit 0xFFFF0000 ((16 : UInt64).toNat + i.val) = bit 0xFFFF i.val := by
        decide
      exact h ⟨i, hi⟩
    · have hnone : ∀ (w : UInt64) (j : Nat), i ≤ j → bit w j = false := by
        intro w j hj
        by_contra h
        have hlt := lt_of_bit (by simpa using h)
        omega
      rw [hnone _ _ (Nat.le_add_left i _), hnone _ _ (Nat.le_refl i)]
  rw [hshift, UInt64.toNat_toUInt16, toNat_and_low]
  simp only [UInt64.toNat_shiftRight, UInt64.reduceToNat, Nat.reduceMod, Nat.shiftRight_eq_div_pow]
  omega

theorem get_of_none (h : cellOf word = none) : alloc.get word = .ok none := by
  have hrow : word.toNat / 2 ^ 32 = 0 := by
    rw [cellOf] at h
    split at h
    · assumption
    · cases h
  have hidx : (word >>> 32).toUInt32 = 0 := by
    apply UInt32.toNat_inj.mp
    rw [UInt64.toNat_toUInt32, toNat_shiftRight_row, hrow]
    rfl
  rw [get, if_pos hidx]

/-- A word that leads to a cell has the number of its row and that of its slot. -/
theorem of_cellOf_eq_some (h : cellOf word = some p) :
    word.toNat / 2 ^ 32 = p.row + 1 ∧ UInt16.ofNat (word.toNat / 2 ^ 16) = p.slot := by
  rw [cellOf] at h
  split at h
  · cases h
  · cases h
    exact ⟨by dsimp only; omega, rfl⟩

theorem get_of_some (h : cellOf word = some p) (hp : p.row < alloc.buffers.length) :
    alloc.get word = .ok (some p) := by
  obtain ⟨hrow, hslot⟩ := of_cellOf_eq_some h
  have hlt := word.toNat_lt
  have hidx : (word >>> 32).toUInt32.toNat = p.row + 1 := by
    rw [UInt64.toNat_toUInt32, toNat_shiftRight_row, hrow]
    omega
  have hne : (word >>> 32).toUInt32 ≠ 0 := by
    intro h0
    rw [h0] at hidx
    cases hidx
  have hpred : ((word >>> 32).toUInt32 - 1).toNat = p.row := by
    have hle : (1 : UInt32) ≤ (word >>> 32).toUInt32 := by
      rw [UInt32.le_iff_toNat_le, hidx, UInt32.toNat_one]
      omega
    rw [UInt32.toNat_sub_of_le _ _ hle, hidx, UInt32.toNat_one]
    rfl
  have hcell : ((word &&& 0xFFFF0000) >>> 16).toUInt16 = p.slot := by
    rw [← hslot]
    apply UInt16.toNat_inj.mp
    rw [toNat_slot, UInt16.toNat_ofNat']
  rw [get, if_neg hne, if_pos (by rw [hpred]; exact hp), hpred, hcell]

end Allocator

/-! ### Rows -/

namespace AllocatorRow

variable {row : AllocatorRow} {b n : Nat}

theorem toNat_upperBits_new {bufferIdx : UInt64} (hidx : bufferIdx.toNat < 2 ^ 32) :
    (new bufferIdx).upperBits.toNat = bufferIdx.toNat * 2 ^ 32 := by
  simp only [new, UInt64.toNat_shiftLeft, UInt64.reduceToNat, Nat.reduceMod, Nat.shiftLeft_eq]
  omega

theorem full_iff (hnext : row.nextFreeSlot.toNat = n * 2 ^ 16) : row.full = true ↔ n = 65535 := by
  have hmax : maxIndexShifted.toNat = 65535 * 2 ^ 16 := by decide
  rw [full, beq_iff_eq, ← UInt64.toNat_inj]
  omega

theorem toNat_nextFreeSlot_allocate (hnext : row.nextFreeSlot.toNat = n * 2 ^ 16) (hn : n < 65535) :
    row.allocate.2.nextFreeSlot.toNat = (n + 1) * 2 ^ 16 := by
  have hstep : (0x10000 : UInt64).toNat = 65536 := by decide
  dsimp only [allocate]
  rw [UInt64.toNat_add, hnext, hstep]
  omega

theorem toNat_allocate (hupper : row.upperBits.toNat = b * 2 ^ 32) (hb : b < 2 ^ 32)
    (hnext : row.nextFreeSlot.toNat = n * 2 ^ 16) (hn : n < 65535) :
    row.allocate.1.toNat = b * 2 ^ 32 + n * 2 ^ 16 := by
  rw [allocate, UInt64.toNat_add, hupper, hnext]
  omega

end AllocatorRow

/-- Row number `b` has handed out its first `n` slots, and `usage` of them are not back. -/
structure RowHolds (row : AllocatorRow) (b n usage : Nat) : Prop where
  upper : row.upperBits.toNat = (b + 1) * 2 ^ 32
  next : row.nextFreeSlot.toNat = n * 2 ^ 16
  count : row.usageCount.toNat = usage
  bound : usage ≤ n ∧ n ≤ 65535

namespace RowHolds

variable {row : AllocatorRow} {b n usage : Nat}

theorem new {bufferIdx : UInt64} (hidx : bufferIdx.toNat = b + 1) (hb : b + 1 < 2 ^ 32) :
    RowHolds (.new bufferIdx) b 0 0 := by
  refine ⟨?_, rfl, rfl, Nat.le_refl 0, Nat.zero_le 65535⟩
  rw [AllocatorRow.toNat_upperBits_new (by omega), hidx]

theorem full_iff (h : RowHolds row b n usage) : row.full = true ↔ n = 65535 :=
  AllocatorRow.full_iff h.next

theorem readyForRefresh_iff (h : RowHolds row b n usage) :
    row.readyForRefresh = true ↔ usage = 0 ∧ n = 65535 := by
  have hcount := h.count
  rw [AllocatorRow.readyForRefresh, Bool.and_eq_true, h.full_iff, beq_iff_eq, ← UInt32.toNat_inj,
    hcount, UInt32.toNat_zero]

theorem allocate (h : RowHolds row b n usage) (hn : n < 65535) :
    RowHolds row.allocate.2 b (n + 1) (usage + 1) := by
  have hcount := h.count
  have hbound := h.bound
  refine ⟨?_, AllocatorRow.toNat_nextFreeSlot_allocate h.next hn, ?_, by omega⟩
  · rw [AllocatorRow.upperBits_allocate, h.upper]
  · dsimp only [AllocatorRow.allocate]
    rw [UInt32.toNat_add, hcount, UInt32.toNat_one]
    omega

/-- The address that a row hands out is that of its next slot. -/
theorem cellOf_allocate (h : RowHolds row b n usage) (hn : n < 65535) (hb : b + 1 < 2 ^ 32) :
    cellOf row.allocate.1 = some ⟨b, UInt16.ofNat n⟩ := by
  have hout := AllocatorRow.toNat_allocate h.upper hb h.next hn
  have hrow : row.allocate.1.toNat / 2 ^ 32 = b + 1 := by omega
  have hslot : UInt16.ofNat (row.allocate.1.toNat / 2 ^ 16) = UInt16.ofNat n := by
    apply UInt16.toNat_inj.mp
    rw [UInt16.toNat_ofNat', UInt16.toNat_ofNat', hout]
    omega
  rw [cellOf, hrow, hslot, if_neg (Nat.succ_ne_zero b)]
  rfl

theorem free (h : RowHolds row b n (usage + 1)) : RowHolds row.free b n usage := by
  have hcount := h.count
  have hbound := h.bound
  refine ⟨h.upper, h.next, ?_, by omega⟩
  have hle : (1 : UInt32) ≤ row.usageCount := by
    rw [UInt32.le_iff_toNat_le, hcount, UInt32.toNat_one]
    omega
  rw [AllocatorRow.free, UInt32.toNat_sub_of_le _ _ hle, hcount, UInt32.toNat_one]
  omega

theorem clear (h : RowHolds row b n usage) : RowHolds row.clear b 0 0 :=
  ⟨h.upper, (Nat.zero_mul _).symm, rfl, Nat.le_refl 0, Nat.zero_le 65535⟩

end RowHolds

/-- The words of a row's cells do not matter. -/
theorem RowHolds.write {row : AllocatorRow} {b n usage : Nat} (h : RowHolds row b n usage)
    (slot : UInt16) (word : UInt64) : RowHolds (row.write slot word) b n usage :=
  ⟨h.upper, h.next, h.count, h.bound⟩

/-- The live cells of a row are among the slots that it has handed out, and it has counted
them. -/
def RowAt (row : AllocatorRow) (b : Nat) (live : List CellPtr) : Prop :=
  ∃ n, RowHolds row b n (live.countP (·.row = b)) ∧ ∀ p ∈ live, p.row = b → p.slot.toNat < n

theorem rowAt_cons_of_ne {row : AllocatorRow} {b : Nat} {p : CellPtr} {live : List CellPtr}
    (hp : p.row ≠ b) : RowAt row b (p :: live) ↔ RowAt row b live := by
  have hcount : (p :: live).countP (·.row = b) = live.countP (·.row = b) :=
    List.countP_cons_of_neg (by simpa using hp)
  have hslots : ∀ n, (∀ q ∈ p :: live, q.row = b → q.slot.toNat < n) ↔
      ∀ q ∈ live, q.row = b → q.slot.toNat < n := by
    intro n
    rw [List.forall_mem_cons]
    exact ⟨And.right, fun h => ⟨fun hrow => absurd hrow hp, h⟩⟩
  simp only [RowAt, hcount, hslots]

theorem RowAt.perm {row : AllocatorRow} {b : Nat} {live live' : List CellPtr} (h : RowAt row b live)
    (hperm : live.Perm live') : RowAt row b live' := by
  obtain ⟨n, hrow, hslots⟩ := h
  rw [hperm.countP_eq] at hrow
  exact ⟨n, hrow, fun p hp => hslots p (hperm.mem_iff.mpr hp)⟩

/-- One row changes. -/
theorem rowAt_set {buffers : List AllocatorRow} {b : Nat} {row : AllocatorRow}
    {live live' : List CellPtr} (hrows : ∀ b r, buffers[b]? = some r → RowAt r b live)
    (hrow : RowAt row b live') (hother : ∀ b', b' ≠ b → ∀ r, RowAt r b' live → RowAt r b' live')
    (b' : Nat) (r : AllocatorRow) (hr : (buffers.set b row)[b']? = some r) : RowAt r b' live' := by
  by_cases hb : b = b'
  · subst hb
    rw [List.getElem?_set_self (by simpa using (List.getElem?_eq_some_iff.mp hr).1)] at hr
    cases hr
    exact hrow
  · rw [List.getElem?_set_ne hb] at hr
    exact hother b' (Ne.symm hb) r (hrows b' r hr)

/-- There is a new row, unless its number does not fit. -/
theorem rowAt_append {buffers : List AllocatorRow} {live : List CellPtr}
    (hrows : ∀ b r, buffers[b]? = some r → RowAt r b live)
    (hlive : ∀ p ∈ live, p.row < buffers.length) (hfew : buffers.length + 1 < 2 ^ 32) (b : Nat)
    (r : AllocatorRow)
    (hr : (buffers ++ [.new (UInt32.ofNat buffers.length + 1).toUInt64])[b]? = some r) :
    RowAt r b live := by
  rcases Nat.lt_or_ge b buffers.length with hlt | hge
  · rw [List.getElem?_append_left hlt] at hr
    exact hrows b r hr
  · obtain rfl : b = buffers.length := by
      have hlt := (List.getElem?_eq_some_iff.mp hr).1
      rw [List.length_append, List.length_singleton] at hlt
      omega
    rw [List.getElem?_concat_length] at hr
    cases hr
    have hidx : (UInt32.ofNat buffers.length + 1).toUInt64.toNat = buffers.length + 1 := by
      rw [UInt32.toNat_toUInt64, UInt32.toNat_add, UInt32.toNat_ofNat', UInt32.toNat_one]
      omega
    have hcount : live.countP (·.row = buffers.length) = 0 := by
      apply List.countP_eq_zero.mpr
      intro p hp
      have hlt := hlive p hp
      simpa using Nat.ne_of_lt hlt
    refine ⟨0, ?_, fun p hp hrow => ?_⟩
    · rw [hcount]
      exact RowHolds.new hidx hfew
    · exact absurd hrow (Nat.ne_of_lt (hlive p hp))

/-- Row number `b` has slots to hand out. -/
def Nonfull (buffers : List AllocatorRow) (b : Nat) : Prop :=
  ∃ row, buffers[b]? = some row ∧ row.full = false

section Nonfull

variable {buffers : List AllocatorRow} {b b' : Nat} {row row' : AllocatorRow}

theorem nonfull_iff (hrow : buffers[b]? = some row) : Nonfull buffers b ↔ row.full = false := by
  rw [Nonfull, hrow]
  constructor
  · rintro ⟨_, hsome, hfull⟩
    cases hsome
    exact hfull
  · exact fun hfull => ⟨row, rfl, hfull⟩

theorem nonfull_set (hb : b < buffers.length) : Nonfull (buffers.set b row) b ↔ row.full = false :=
  nonfull_iff (List.getElem?_set_self hb)

theorem nonfull_set_of_ne (hne : b ≠ b') : Nonfull (buffers.set b row) b' ↔ Nonfull buffers b' := by
  rw [Nonfull, Nonfull, List.getElem?_set_ne hne]

/-- A row changes, but not whether it has slots. -/
theorem nonfull_set_of_eq (hrow : buffers[b]? = some row) (hfull : row'.full = row.full) :
    Nonfull (buffers.set b row') b' ↔ Nonfull buffers b' := by
  by_cases hb : b = b'
  · subst hb
    rw [nonfull_set (List.getElem?_eq_some_iff.mp hrow).1, nonfull_iff hrow, hfull]
  · exact nonfull_set_of_ne hb

theorem nonfull_append : Nonfull (buffers ++ [row]) b ↔
    Nonfull buffers b ∨ b = buffers.length ∧ row.full = false := by
  rcases Nat.lt_trichotomy b buffers.length with hlt | heq | hgt
  · rw [Nonfull, List.getElem?_append_left hlt, or_iff_left fun h => Nat.ne_of_lt hlt h.1]
    rfl
  · subst heq
    have hout : ¬ Nonfull buffers buffers.length := by
      rintro ⟨_, hsome, -⟩
      rw [List.getElem?_eq_none (Nat.le_refl _)] at hsome
      cases hsome
    rw [nonfull_iff List.getElem?_concat_length, or_iff_right hout]
    exact ⟨fun hfull => ⟨rfl, hfull⟩, And.right⟩
  · have hout : ∀ l : List AllocatorRow, l.length ≤ b → ¬ Nonfull l b := by
      rintro l hl ⟨_, hsome, -⟩
      rw [List.getElem?_eq_none hl] at hsome
      cases hsome
    refine iff_of_false (hout _ (by simpa using hgt)) ?_
    rintro (hin | ⟨heq, -⟩)
    · exact hout buffers (Nat.le_of_lt hgt) hin
    · exact Nat.ne_of_gt hgt heq

end Nonfull

/-! ### The allocator -/

/-- The `live` cells are in use. -/
structure AllocatorInv (alloc : Allocator) (live : List CellPtr) : Prop where
  nodup : live.Nodup
  inRow : ∀ p ∈ live, p.row < alloc.buffers.length
  rows : ∀ b row, alloc.buffers[b]? = some row → RowAt row b live
  nonfullNodup : alloc.nonfullBuffers.Nodup
  nonempty : alloc.nonfullBuffers ≠ []
  nonfull : ∀ i, i ∈ alloc.nonfullBuffers ↔ Nonfull alloc.buffers i.toNat
  few : alloc.buffers.length < 2 ^ 32

theorem AllocatorInv.perm {alloc : Allocator} {live live' : List CellPtr}
    (h : AllocatorInv alloc live) (hperm : live.Perm live') : AllocatorInv alloc live' :=
  ⟨hperm.nodup_iff.mp h.nodup, fun p hp => h.inRow p (hperm.mem_iff.mpr hp),
    fun b row hrow => (h.rows b row hrow).perm hperm, h.nonfullNodup, h.nonempty, h.nonfull, h.few⟩

theorem AllocatorInv.new : AllocatorInv .new [] := by
  refine ⟨List.nodup_nil, nofun, fun b row hrow => ?_, List.nodup_singleton 0,
    List.cons_ne_nil 0 [], fun i => ?_, by decide⟩
  · cases b with
    | zero =>
      cases hrow
      exact ⟨0, RowHolds.new UInt64.toNat_one (by decide), nofun⟩
    | succ b => cases hrow
  · rw [Allocator.new, List.mem_singleton]
    constructor
    · rintro rfl
      exact ⟨_, rfl, rfl⟩
    · rintro ⟨row, hrow, -⟩
      have hlt := (List.getElem?_eq_some_iff.mp hrow).1
      apply UInt32.toNat_inj.mp
      rw [UInt32.toNat_zero]
      exact Nat.lt_one_iff.mp hlt

namespace Allocator

/-- The word of a cell. -/
def word (alloc : Allocator) (p : CellPtr) : UInt64 :=
  match alloc.buffers[p.row]? with
  | none => 0
  | some row => row.data p.slot

variable {alloc : Allocator} {addr : UInt64} {p : CellPtr} {live : List CellPtr}

theorem word_eq {row : AllocatorRow} (hrow : alloc.buffers[p.row]? = some row) :
    alloc.word p = row.data p.slot := by
  rw [word, hrow]

/-- A row changes, but not the words of its cells. -/
theorem word_set {nonfull : List UInt32} {b : Nat} {row row' : AllocatorRow}
    (hb : alloc.buffers[b]? = some row) (hdata : row'.data = row.data) :
    word ⟨alloc.buffers.set b row', nonfull⟩ = alloc.word := by
  funext q
  by_cases hq : b = q.row
  · subst hq
    rw [word_eq hb, word_eq (List.getElem?_set_self (List.getElem?_eq_some_iff.mp hb).1), hdata]
  · dsimp only [word]
    rw [List.getElem?_set_ne hq]

theorem load_eq (hp : p.row < alloc.buffers.length) : alloc.load (some p) = .ok (alloc.word p) := by
  rw [load, word, List.getElem?_eq_getElem hp]

theorem store_eq {row : AllocatorRow} (hrow : alloc.buffers[p.row]? = some row) (w : UInt64) :
    alloc.store (some p) w =
      .ok ⟨alloc.buffers.set p.row (row.write p.slot w), alloc.nonfullBuffers⟩ := by
  rw [store]
  simp only [hrow]

theorem inv_store {row : AllocatorRow} (h : AllocatorInv alloc live)
    (hrow : alloc.buffers[p.row]? = some row) (w : UInt64) :
    AllocatorInv ⟨alloc.buffers.set p.row (row.write p.slot w), alloc.nonfullBuffers⟩ live := by
  have hat : RowAt (row.write p.slot w) p.row live := by
    obtain ⟨n, hholds, hslots⟩ := h.rows p.row row hrow
    exact ⟨n, hholds.write p.slot w, hslots⟩
  refine ⟨h.nodup, ?_, ?_, h.nonfullNodup, h.nonempty, ?_, ?_⟩
  · intro q hq
    rw [List.length_set]
    exact h.inRow q hq
  · exact rowAt_set h.rows hat fun _ _ _ hr => hr
  · intro i
    exact (h.nonfull i).trans (nonfull_set_of_eq hrow (AllocatorRow.full_write row p.slot w)).symm
  · rw [List.length_set]
    exact h.few

/-- One word changes. -/
theorem store_spec (hp : p.row < alloc.buffers.length) (w : UInt64) :
    ∃ alloc', alloc.store (some p) w = .ok alloc' ∧ alloc'.word = Function.update alloc.word p w ∧
      alloc'.buffers.length = alloc.buffers.length ∧
      ∀ live, AllocatorInv alloc live → AllocatorInv alloc' live := by
  obtain ⟨row, hrow⟩ : ∃ row, alloc.buffers[p.row]? = some row := ⟨_, List.getElem?_eq_getElem hp⟩
  refine ⟨_, store_eq hrow w, ?_, List.length_set, fun live h => inv_store h hrow w⟩
  funext q
  by_cases hq : q = p
  · subst hq
    rw [word_eq (List.getElem?_set_self hp), AllocatorRow.data_write, Function.update_self,
      Function.update_self]
  · rw [Function.update_of_ne hq]
    by_cases hqrow : p.row = q.row
    · have hslot : q.slot ≠ p.slot := fun hslot => hq (CellPtr.ext hqrow.symm hslot)
      have hset : (alloc.buffers.set p.row (row.write p.slot w))[q.row]? =
          some (row.write p.slot w) := by
        rw [← hqrow, List.getElem?_set_self hp]
      rw [hqrow] at hrow
      rw [word_eq hset, word_eq hrow, AllocatorRow.data_write, Function.update_of_ne hslot]
    · dsimp only [word]
      rw [List.getElem?_set_ne hqrow]

theorem toNat_bufIdx (haddr : cellOf addr = some p) :
    ((addr >>> 32) - 1).toUInt32.toNat = p.row := by
  have hrow := (of_cellOf_eq_some haddr).1
  have hlt := addr.toNat_lt
  have hle : (1 : UInt64) ≤ addr >>> 32 := by
    rw [UInt64.le_iff_toNat_le, toNat_shiftRight_row, hrow, UInt64.toNat_one]
    omega
  rw [UInt64.toNat_toUInt32, UInt64.toNat_sub_of_le _ _ hle, toNat_shiftRight_row, hrow,
    UInt64.toNat_one]
  omega

/-- The row of a cell that is in use, without the cell. -/
theorem rowAt_free {row : AllocatorRow} (h : RowAt row p.row (p :: live)) :
    RowAt row.free p.row live ∧
      (row.free.readyForRefresh = true → RowAt row.free.clear p.row live ∧ row.full = true) := by
  obtain ⟨n, hholds, hslots⟩ := h
  rw [List.countP_cons_of_pos (by simp)] at hholds
  have hfree := hholds.free
  refine ⟨⟨n, hfree, fun q hq => hslots q (List.mem_cons_of_mem p hq)⟩, fun hready => ?_⟩
  obtain ⟨hcount, hn⟩ := hfree.readyForRefresh_iff.mp hready
  refine ⟨⟨0, ?_, fun q hq hrow => ?_⟩, hholds.full_iff.mpr hn⟩
  · rw [hcount]
    exact hfree.clear
  · exact absurd (by simpa using hrow) (List.countP_eq_zero.mp hcount q hq)

theorem free_spec (h : AllocatorInv alloc (p :: live)) (haddr : cellOf addr = some p) :
    ∃ alloc', alloc.free addr = .ok alloc' ∧ AllocatorInv alloc' live ∧ alloc'.word = alloc.word ∧
      alloc'.buffers.length = alloc.buffers.length := by
  have hp := h.inRow p List.mem_cons_self
  have hidx := toNat_bufIdx haddr
  obtain ⟨row, hrow⟩ : ∃ row, alloc.buffers[p.row]? = some row := ⟨_, List.getElem?_eq_getElem hp⟩
  obtain ⟨hat, hclear⟩ := rowAt_free (h.rows p.row row hrow)
  have hnodup := (List.nodup_cons.mp h.nodup).2
  have hinRow : ∀ q ∈ live, q.row < alloc.buffers.length :=
    fun q hq => h.inRow q (List.mem_cons_of_mem p hq)
  have hother : ∀ b, b ≠ p.row → ∀ r, RowAt r b (p :: live) → RowAt r b live :=
    fun b hb r hr => (rowAt_cons_of_ne (Ne.symm hb)).mp hr
  by_cases hready : row.free.readyForRefresh
  · obtain ⟨hat', hfull⟩ := hclear hready
    have hnot : ((addr >>> 32) - 1).toUInt32 ∉ alloc.nonfullBuffers := by
      rw [h.nonfull, hidx]
      rintro ⟨r, hr, hrfull⟩
      cases hrow.symm.trans hr
      rw [hfull] at hrfull
      cases hrfull
    refine ⟨⟨alloc.buffers.set p.row row.free.clear,
      ((addr >>> 32) - 1).toUInt32 :: alloc.nonfullBuffers⟩, ?_, ⟨hnodup, ?_, ?_, ?_, ?_, ?_, ?_⟩,
      word_set hrow rfl, List.length_set⟩
    · rw [free, hidx]
      simp only [hrow]
      rw [if_pos hready]
    · rw [List.length_set]
      exact hinRow
    · exact rowAt_set h.rows hat' hother
    · exact List.nodup_cons.mpr ⟨hnot, h.nonfullNodup⟩
    · exact List.cons_ne_nil _ _
    · intro i
      rw [List.mem_cons]
      by_cases hi : p.row = i.toNat
      · rw [← hi, nonfull_set hp]
        refine ⟨fun _ => rfl, fun _ => .inl ?_⟩
        apply UInt32.toNat_inj.mp
        rw [hidx, hi]
      · rw [nonfull_set_of_ne hi, h.nonfull, or_iff_right]
        rintro rfl
        exact hi hidx.symm
    · rw [List.length_set]
      exact h.few
  · refine ⟨⟨alloc.buffers.set p.row row.free, alloc.nonfullBuffers⟩, ?_,
      ⟨hnodup, ?_, ?_, h.nonfullNodup, h.nonempty, ?_, ?_⟩, word_set hrow rfl, List.length_set⟩
    · rw [free, hidx]
      simp only [hrow]
      rw [if_neg hready]
    · rw [List.length_set]
      exact hinRow
    · exact rowAt_set h.rows hat hother
    · intro i
      exact (h.nonfull i).trans (nonfull_set_of_eq hrow (AllocatorRow.full_free row)).symm
    · rw [List.length_set]
      exact h.few

/-- The words of a new row are 0, as those of the rows that there are not. -/
theorem word_append {buffers : List AllocatorRow} {nonfull nonfull' : List UInt32}
    (bufferIdx : UInt64) :
    word ⟨buffers ++ [.new bufferIdx], nonfull⟩ = word ⟨buffers, nonfull'⟩ := by
  funext q
  dsimp only [word]
  rcases Nat.lt_trichotomy q.row buffers.length with hlt | heq | hgt
  · rw [List.getElem?_append_left hlt]
  · rw [heq, List.getElem?_concat_length, List.getElem?_eq_none (Nat.le_refl _)]
    rfl
  · rw [List.getElem?_eq_none (by simpa using hgt), List.getElem?_eq_none (Nat.le_of_lt hgt)]

/-- The row of `allocate`. -/
theorem back_spec {back : UInt32} (h : AllocatorInv alloc live)
    (hback : back ∈ alloc.nonfullBuffers) :
    ∃ row n, alloc.buffers[back.toNat]? = some row ∧ n < 65535 ∧
      cellOf row.allocate.1 = some ⟨back.toNat, UInt16.ofNat n⟩ ∧
      ⟨back.toNat, UInt16.ofNat n⟩ ∉ live ∧
      RowAt row.allocate.2 back.toNat (⟨back.toNat, UInt16.ofNat n⟩ :: live) := by
  obtain ⟨row, hrow, hfull⟩ := (h.nonfull back).mp hback
  obtain ⟨n, hholds, hslots⟩ := h.rows back.toNat row hrow
  have hlen := (List.getElem?_eq_some_iff.mp hrow).1
  have hfew := h.few
  have hbound := hholds.bound
  have hn : n < 65535 := by
    have hne : n ≠ 65535 := fun hn => by
      rw [hholds.full_iff.mpr hn] at hfull
      cases hfull
    omega
  have hslot : (UInt16.ofNat n).toNat = n := by
    rw [UInt16.toNat_ofNat']
    omega
  refine ⟨row, n, hrow, hn, hholds.cellOf_allocate hn (by omega), fun hmem => ?_, n + 1, ?_, ?_⟩
  · have hlt : (UInt16.ofNat n).toNat < n := hslots _ hmem rfl
    omega
  · rw [List.countP_cons_of_pos (by simp)]
    exact hholds.allocate hn
  · intro q hq hqrow
    rcases List.mem_cons.mp hq with rfl | hq
    · dsimp only
      omega
    · have hlt := hslots q hq hqrow
      omega

/-- A free cell, and it is in use. -/
theorem allocate_spec (h : AllocatorInv alloc live) :
    ∃ addr p alloc', alloc.allocate = .ok (addr, alloc') ∧ cellOf addr = some p ∧ p ∉ live ∧
      p.row < alloc'.buffers.length ∧ alloc'.word = alloc.word ∧
      alloc.buffers.length ≤ alloc'.buffers.length ∧
      alloc'.buffers.length ≤ alloc.buffers.length + 1 ∧
      (alloc'.buffers.length < 2 ^ 32 → AllocatorInv alloc' (p :: live)) := by
  obtain ⟨back, rest, hback⟩ := List.exists_cons_of_ne_nil h.nonempty
  have hmem : back ∈ alloc.nonfullBuffers := by
    rw [hback]
    exact List.mem_cons_self
  obtain ⟨row, n, hrow, hn, haddr, hfresh, hat⟩ := back_spec h hmem
  generalize hp : (⟨back.toNat, UInt16.ofNat n⟩ : CellPtr) = p at haddr hfresh hat
  have hprow : p.row = back.toNat := by rw [← hp]
  have hlen := (List.getElem?_eq_some_iff.mp hrow).1
  have hfew := h.few
  have hnodup : (p :: live).Nodup := List.nodup_cons.mpr ⟨hfresh, h.nodup⟩
  have hinRow : ∀ q ∈ p :: live, q.row < alloc.buffers.length := by
    intro q hq
    rcases List.mem_cons.mp hq with rfl | hq
    · omega
    · exact h.inRow q hq
  have hrows : ∀ b r, (alloc.buffers.set back.toNat row.allocate.2)[b]? = some r →
      RowAt r b (p :: live) := by
    refine rowAt_set h.rows hat fun b hb r hr => ?_
    exact (rowAt_cons_of_ne (by rw [hprow]; exact Ne.symm hb)).mpr hr
  obtain ⟨hnot, hrestNodup⟩ := List.nodup_cons.mp (hback ▸ h.nonfullNodup)
  by_cases hfull : row.allocate.2.full
  · -- the row is full now, so it is no longer in the list
    have hnonfull : ∀ i, i ∈ rest ↔
        Nonfull (alloc.buffers.set back.toNat row.allocate.2) i.toNat := by
      intro i
      by_cases hi : back = i
      · subst hi
        rw [nonfull_set hlen, hfull]
        exact ⟨fun hin => absurd hin hnot, nofun⟩
      · rw [nonfull_set_of_ne fun heq => hi (UInt32.toNat_inj.mp heq), ← h.nonfull, hback,
          List.mem_cons]
        exact ⟨.inr, fun hin => hin.resolve_left (Ne.symm hi)⟩
    cases rest with
    | nil =>
      have hlength : (alloc.buffers.set back.toNat row.allocate.2).length = alloc.buffers.length :=
        List.length_set
      have hword : word ⟨alloc.buffers.set back.toNat row.allocate.2, []⟩ = alloc.word :=
        word_set hrow row.data_allocate
      have heq : alloc.allocate = .ok (row.allocate.1,
          ⟨alloc.buffers.set back.toNat row.allocate.2 ++
            [.new (UInt32.ofNat (alloc.buffers.set back.toNat row.allocate.2).length + 1).toUInt64],
            [UInt32.ofNat (alloc.buffers.set back.toNat row.allocate.2).length]⟩) := by
        rw [allocate]
        simp only [hback, hrow, hfull, if_true, List.isEmpty_nil]
      generalize alloc.buffers.set back.toNat row.allocate.2 = buffers at *
      refine ⟨_, p, _, heq, haddr, hfresh, ?_, (word_append _).trans hword, ?_, ?_, fun hfew' =>
        ⟨hnodup, ?_, ?_, List.nodup_singleton _, List.cons_ne_nil _ _, ?_, hfew'⟩⟩
      all_goals simp only [List.length_append, List.length_singleton] at *
      · omega
      · omega
      · omega
      · intro q hq
        have hlt := hinRow q hq
        omega
      · exact rowAt_append hrows (by rwa [hlength]) (by omega)
      · intro i
        have hidx : (UInt32.ofNat buffers.length).toNat = buffers.length := by
          rw [UInt32.toNat_ofNat']
          omega
        rw [nonfull_append, List.mem_singleton, ← hnonfull i, or_iff_right List.not_mem_nil,
          ← UInt32.toNat_inj, hidx]
        exact ⟨fun hi => ⟨hi, rfl⟩, And.left⟩
    | cons next rest =>
      refine ⟨row.allocate.1, p, ⟨alloc.buffers.set back.toNat row.allocate.2, next :: rest⟩, ?_,
        haddr, hfresh, ?_, word_set hrow row.data_allocate, ?_, ?_, fun _ =>
        ⟨hnodup, ?_, hrows, hrestNodup, List.cons_ne_nil next rest, hnonfull, ?_⟩⟩
      · rw [allocate]
        simp only [hback, hrow, hfull, if_true, List.isEmpty_cons]
        rfl
      all_goals rw [List.length_set]
      · omega
      · omega
      · exact hinRow
      · exact hfew
  · refine ⟨row.allocate.1, p, ⟨alloc.buffers.set back.toNat row.allocate.2, back :: rest⟩, ?_,
      haddr, hfresh, ?_, word_set hrow row.data_allocate, ?_, ?_, fun _ =>
      ⟨hnodup, ?_, hrows, hback ▸ h.nonfullNodup, List.cons_ne_nil back rest, ?_, ?_⟩⟩
    · rw [allocate]
      simp only [hback, hrow, hfull]
      rfl
    · rw [List.length_set, hprow]
      exact hlen
    · rw [List.length_set]
    · rw [List.length_set]
      omega
    · rw [List.length_set]
      exact hinRow
    · intro i
      rw [← hback, h.nonfull]
      refine (nonfull_set_of_eq hrow ?_).symm
      rw [(nonfull_iff hrow).mp ((h.nonfull back).mp hmem)]
      simpa using hfull
    · rw [List.length_set]
      exact hfew

end Allocator

end Speedex
