import Speedex.Lib.Except
import Speedex.Lib.Patch
import Speedex.Lib.Xdr
import Speedex.Types

/-! Writing lists to disk (`utils/save_load_xdr.h`).  Elements are encoded into an aligned buffer,
which is flushed in whole sectors of 512 bytes; the rest of the last sector moves to the front, and
the file is cut off where the encoding ends. -/

namespace Speedex

open Lib Lib.Xdr

/-- How much of what it is given the system's `write` takes in each of its calls. -/
structure WriteCalls where
  size : Nat → Nat → Nat
  size_pos : ∀ call n, 0 < n → 0 < size call n
  size_le : ∀ call n, size call n ≤ n

/-- A file that is open for writing, and the number of calls of `write` so far. -/
structure OpenFile where
  content : List Byte
  offset : Nat
  calls : Nat

namespace OpenFile

/-- A file that has been opened, whatever is in it or has been allocated for it. -/
def fresh (content : List Byte) : OpenFile := ⟨content, 0, 0⟩

/-- One call of `write`, and what it returns. -/
def write (os : WriteCalls) (fd : OpenFile) (bytes : List Byte) : OpenFile × Nat :=
  let written := os.size fd.calls bytes.length
  (⟨patch fd.content fd.offset (bytes.take written), fd.offset + written, fd.calls + 1⟩, written)

/-- The loop of `flush_buffer`. -/
def flushLoop (os : WriteCalls) (bytes : List Byte) : Nat → OpenFile → Nat → OpenFile
  | 0, fd, _ => fd
  | fuel + 1, fd, idx =>
    if idx < bytes.length then
      let r := fd.write os (bytes.drop idx)
      flushLoop os bytes fuel r.1 (idx + r.2)
    else fd

/-- `flush_buffer`. -/
def flushBuffer (os : WriteCalls) (fd : OpenFile) (buffer : List Byte) (bytesToWrite : Nat) :
    Result OpenFile :=
  if buffer.length < bytesToWrite then .error .indexOutOfRange
  else .ok (flushLoop os (buffer.take bytesToWrite) bytesToWrite fd 0)

/-- `lseek` to the start. -/
def rewind (fd : OpenFile) : OpenFile := { fd with offset := 0 }

def ftruncate (fd : OpenFile) (size : Nat) : OpenFile :=
  { fd with content := fd.content.take size ++ List.replicate (size - fd.content.length) Byte.zero }

theorem flushLoop_spec (os : WriteCalls) (bytes : List Byte) {fuel : Nat} (fd : OpenFile) (idx : Nat)
    (hfuel : bytes.length - idx ≤ fuel) (hidx : idx ≤ bytes.length)
    (hoffset : fd.offset ≤ fd.content.length) :
    (flushLoop os bytes fuel fd idx).content = patch fd.content fd.offset (bytes.drop idx) ∧
      (flushLoop os bytes fuel fd idx).offset = fd.offset + (bytes.length - idx) := by
  induction fuel generalizing fd idx with
  | zero =>
    have hend : bytes.drop idx = [] := List.drop_of_length_le (by omega)
    rw [flushLoop, hend, patch_nil]
    exact ⟨rfl, by omega⟩
  | succ fuel ih =>
    rw [flushLoop]
    by_cases hlt : idx < bytes.length
    · rw [if_pos hlt]
      have hlength : (bytes.drop idx).length = bytes.length - idx := List.length_drop
      have hpos := os.size_pos fd.calls (bytes.drop idx).length (by omega)
      have hle := os.size_le fd.calls (bytes.drop idx).length
      dsimp only [write]
      generalize hn : os.size fd.calls (bytes.drop idx).length = n at *
      have htake : ((bytes.drop idx).take n).length = n := by
        rw [List.length_take]
        omega
      have hgrown := le_length_patch hoffset ((bytes.drop idx).take n)
      rw [htake] at hgrown
      obtain ⟨hcontent, hoffset'⟩ := ih
        ⟨patch fd.content fd.offset ((bytes.drop idx).take n), fd.offset + n, fd.calls + 1⟩
        (idx + n) (by omega) (by omega) hgrown
      rw [hcontent, hoffset']
      refine ⟨?_, ?_⟩
      · have hpatch := patch_patch hoffset ((bytes.drop idx).take n) (bytes.drop (idx + n))
        rw [htake] at hpatch
        rw [hpatch, ← List.drop_drop, List.take_append_drop]
      · dsimp only
        omega
    · rw [if_neg hlt, List.drop_of_length_le (Nat.le_of_not_lt hlt), patch_nil]
      exact ⟨rfl, by omega⟩

/-- However `write` splits it, `flush_buffer` writes the whole part of the buffer. -/
theorem flushBuffer_spec (os : WriteCalls) {fd : OpenFile} {buffer : List Byte} {n : Nat}
    (hoffset : fd.offset ≤ fd.content.length) (hn : n ≤ buffer.length) :
    ∃ fd', fd.flushBuffer os buffer n = .ok fd' ∧
      fd'.content = patch fd.content fd.offset (buffer.take n) ∧ fd'.offset = fd.offset + n := by
  have hlength : (buffer.take n).length = n := by
    rw [List.length_take, Nat.min_eq_left hn]
  obtain ⟨hcontent, hoffset'⟩ := @flushLoop_spec os (buffer.take n) n fd 0
    (by omega) (Nat.zero_le _) hoffset
  rw [hlength] at hoffset'
  exact ⟨_, if_neg (Nat.not_lt.mpr hn), hcontent, hoffset'⟩

/-- What was written from the offset on stands behind what the file had before it. -/
structure Appended (fd fd' : OpenFile) (bytes : List Byte) : Prop where
  content : fd'.content.take fd'.offset = fd.content.take fd.offset ++ bytes
  offset : fd'.offset = fd.offset + bytes.length
  offset_le : fd'.offset ≤ fd'.content.length

theorem flushBuffer_appended (os : WriteCalls) {fd : OpenFile} {buffer : List Byte} {n : Nat}
    (hoffset : fd.offset ≤ fd.content.length) (hn : n ≤ buffer.length) :
    ∃ fd', fd.flushBuffer os buffer n = .ok fd' ∧ fd.Appended fd' (buffer.take n) := by
  have hlength : (buffer.take n).length = n := by
    rw [List.length_take, Nat.min_eq_left hn]
  obtain ⟨fd', hflush, hcontent, hoffset'⟩ := flushBuffer_spec os hoffset hn
  have htake := take_patch hoffset (buffer.take n)
  have hgrown := le_length_patch hoffset (buffer.take n)
  rw [hlength] at htake hgrown
  refine ⟨fd', hflush, ?_, ?_, ?_⟩
  · rw [hcontent, hoffset', htake]
  · rw [hoffset', hlength]
  · rw [hcontent, hoffset']
    exact hgrown

/-- The first sector, once more than a sector has been written. -/
theorem Appended.take_content {fd fd' : OpenFile} {bytes : List Byte} (h : fd.Appended fd' bytes) {n : Nat}
    (hn : n ≤ bytes.length) : fd'.content.take n = (fd.content.take fd.offset ++ bytes).take n := by
  have hle : n ≤ fd'.offset := by
    have := h.offset
    omega
  rw [← h.content, List.take_take, Nat.min_eq_left hle]

end OpenFile

/-! ### The writer -/

/-- A difference of two `size_t`. -/
def sizeSub (a b : Nat) : Nat := (a + 2 ^ 64 - b) % 2 ^ 64

theorem sizeSub_of_le {a b : Nat} (h : b ≤ a) (ha : a < 2 ^ 64) : sizeSub a b = a - b := by
  rw [sizeSub]
  omega

/-- What `std::align` leaves of a serialization buffer, with the space for the last sector. -/
structure AlignedBuffer where
  memory : List Byte
  hasReserve : 512 ≤ memory.length
  bounded : memory.length < 2 ^ 32

/-- `aligned_buf_size`, less the reserve. -/
def AlignedBuffer.alignedBufSize (b : AlignedBuffer) : Nat :=
  sizeSub (b.memory.length - b.memory.length % 4) 512

/-- The variables of the functions that write to disk.  The position is where the encoder `p`
stands. -/
structure XdrWriter where
  memory : List Byte
  alignedBufSize : Nat
  bufIdx : Nat
  position : Nat
  totalWrittenBytes : Nat
  fd : OpenFile

namespace XdrWriter

/-- The length of the list is put in front. -/
def start (buffer : AlignedBuffer) (fd : OpenFile) (listSize : Nat) : XdrWriter where
  memory := patch buffer.memory 0 (uint32 (size32 listSize))
  alignedBufSize := buffer.alignedBufSize
  bufIdx := 4
  position := 4
  totalWrittenBytes := 0
  fd := fd

/-- The whole sectors go to the file, and what is behind them moves to the front. -/
def flushSectors (os : WriteCalls) (w : XdrWriter) : Result XdrWriter := do
  let writeAmount := w.bufIdx - w.bufIdx % 512
  let fd ← w.fd.flushBuffer os w.memory writeAmount
  return { w with
    fd := fd
    totalWrittenBytes := w.totalWrittenBytes + writeAmount
    memory := patch w.memory 0 ((w.memory.drop writeAmount).take (w.bufIdx % 512))
    bufIdx := w.bufIdx % 512
    position := w.bufIdx % 512 }

/-- `p(value)`, for the encoding of a value. -/
def put (w : XdrWriter) (bytes : List Byte) : Result XdrWriter :=
  if sizeSub w.alignedBufSize w.position < bytes.length then
    .error (.runtimeError "insufficient buffer space in xdr_generic_put")
  else .ok { w with
    memory := patch w.memory w.position bytes
    position := w.position + bytes.length }

/-- An element whose encoding does not fit. -/
def isFull (w : XdrWriter) (bytes : List Byte) : Bool :=
  decide (sizeSub w.alignedBufSize w.bufIdx < bytes.length)

/-- One round of the loop of `save_xdr_to_file_fast`. -/
def addElement (os : WriteCalls) (w : XdrWriter) (bytes : List Byte) : Result XdrWriter := do
  let w ← (if w.isFull bytes then w.flushSectors os else .ok w)
  let w ← w.put bytes
  return { w with bufIdx := w.bufIdx + bytes.length }

/-- The last sectors, with whatever is behind the encoding. -/
def flushRest (os : WriteCalls) (w : XdrWriter) : Result XdrWriter := do
  let writeAmount := w.bufIdx - w.bufIdx % 512 + 512
  let fd ← w.fd.flushBuffer os w.memory writeAmount
  return { w with fd := fd, totalWrittenBytes := w.totalWrittenBytes + w.bufIdx }

end XdrWriter

/-- `save_xdr_to_file_fast`. -/
def saveXdrToFileFast {α : Type} (codec : Codec α) (os : WriteCalls) (value : List α) (fd : OpenFile)
    (buffer : AlignedBuffer) : Result OpenFile := do
  let w ← value.foldlM (fun (w : XdrWriter) v => w.addElement os (codec.encode v))
    (XdrWriter.start buffer fd value.length)
  let w ← w.flushRest os
  return w.fd.ftruncate w.totalWrittenBytes

/-- The loop of `load_xdr_from_file`, with what is left of the file. -/
def freadLoop : Nat → List Byte → List Byte → List Byte
  | 0, _, contents => contents
  | fuel + 1, rest, contents =>
    let buf := rest.take 65536
    if buf.length = 0 then contents else freadLoop fuel (rest.drop 65536) (contents ++ buf)

/-- `load_xdr_from_file`. -/
def loadXdrFromFile {α : Type} (codec : Codec α) (content : List Byte) : Option (List α) :=
  codec.decodeVector (freadLoop (content.length + 1) content [])

/-! ### What is written -/

namespace XdrWriter

/-- What the file and the buffer hold together. -/
structure Holds (w : XdrWriter) (bytes : List Byte) : Prop where
  written : w.fd.content.take w.fd.offset ++ w.memory.take w.bufIdx = bytes
  offset_le : w.fd.offset ≤ w.fd.content.length
  total : w.totalWrittenBytes = w.fd.offset
  position : w.position = w.bufIdx
  fits : w.bufIdx ≤ max 4 w.alignedBufSize
  reserve : w.alignedBufSize + 512 ≤ w.memory.length
  bounded : w.memory.length < 2 ^ 32

variable {w : XdrWriter} {bytes : List Byte}

theorem alignedBufSize_le (buffer : AlignedBuffer) :
    buffer.alignedBufSize + 512 ≤ buffer.memory.length := by
  have hreserve := buffer.hasReserve
  have hbounded := buffer.bounded
  rw [AlignedBuffer.alignedBufSize, sizeSub_of_le (by omega) (by omega)]
  omega

theorem holds_start (buffer : AlignedBuffer) (content : List Byte) (listSize : Nat) :
    (start buffer (.fresh content) listSize).Holds (uint32 (size32 listSize)) := by
  have hreserve := buffer.hasReserve
  have hlength : (patch buffer.memory 0 (uint32 (size32 listSize))).length = buffer.memory.length := by
    refine length_patch ?_
    rw [length_uint32]
    omega
  have htake := take_patch (Nat.zero_le buffer.memory.length) (uint32 (size32 listSize))
  rw [length_uint32] at htake
  refine ⟨htake, Nat.zero_le _, rfl, rfl, le_max_left _ _, ?_, ?_⟩
  · rw [start, hlength]
    exact alignedBufSize_le buffer
  · rw [start, hlength]
    exact buffer.bounded

theorem Holds.bufIdx_le (h : w.Holds bytes) : w.bufIdx - w.bufIdx % 512 + 512 ≤ w.memory.length := by
  have hfits := h.fits
  have hreserve := h.reserve
  omega

/-- Flushing moves bytes from the buffer to the file. -/
theorem Holds.flushSectors (os : WriteCalls) (h : w.Holds bytes) :
    ∃ w', w.flushSectors os = .ok w' ∧ w'.Holds bytes ∧ w'.bufIdx = w.bufIdx % 512 ∧
      w'.alignedBufSize = w.alignedBufSize ∧
      w.fd.Appended w'.fd (w.memory.take (w.bufIdx - w.bufIdx % 512)) := by
  have hroom := h.bufIdx_le
  have hfits := h.fits
  have hsplit : w.bufIdx - w.bufIdx % 512 + w.bufIdx % 512 = w.bufIdx := by omega
  generalize hn : w.bufIdx - w.bufIdx % 512 = n at hroom hsplit
  have hrest : ((w.memory.drop n).take (w.bufIdx % 512)).length = w.bufIdx % 512 := by
    rw [List.length_take, List.length_drop]
    omega
  have hlength : (patch w.memory 0 ((w.memory.drop n).take (w.bufIdx % 512))).length =
      w.memory.length := by
    refine length_patch ?_
    rw [hrest]
    omega
  have hmoved := take_patch (Nat.zero_le w.memory.length) ((w.memory.drop n).take (w.bufIdx % 512))
  rw [hrest, Nat.zero_add, List.take_zero, List.nil_append] at hmoved
  obtain ⟨fd, hflush, happended⟩ := OpenFile.flushBuffer_appended os h.offset_le
    (show n ≤ w.memory.length by omega)
  have htake : (w.memory.take n).length = n := by
    rw [List.length_take]
    omega
  refine ⟨_, bind_eq_ok.mpr ⟨fd, by rw [hn]; exact hflush, rfl⟩, ?_, rfl, rfl, happended⟩
  refine ⟨?_, happended.offset_le, ?_, rfl, ?_, ?_, ?_⟩
  · dsimp only
    rw [hn, happended.content, hmoved, List.append_assoc, ← List.take_add, hsplit]
    exact h.written
  · dsimp only
    rw [hn, happended.offset, htake, h.total]
  · dsimp only
    omega
  · dsimp only
    rw [hn, hlength]
    exact h.reserve
  · dsimp only
    rw [hn, hlength]
    exact h.bounded

/-- An element that fits goes to the buffer. -/
theorem Holds.put (h : w.Holds bytes) {element : List Byte} (hsize : 4 ≤ w.alignedBufSize)
    (hfits : w.bufIdx + element.length ≤ w.alignedBufSize) : ∃ w', w.put element = .ok w' ∧
    ({ w' with bufIdx := w'.bufIdx + element.length } : XdrWriter).Holds (bytes ++ element) := by
  have hreserve := h.reserve
  have hbounded := h.bounded
  have hroom : ¬ sizeSub w.alignedBufSize w.position < element.length := by
    rw [h.position, sizeSub_of_le (by omega) (by omega)]
    omega
  have hposition : w.bufIdx ≤ w.memory.length := by omega
  have hlength : (patch w.memory w.bufIdx element).length = w.memory.length :=
    length_patch (by omega)
  refine ⟨_, if_neg hroom, ?_, h.offset_le, h.total, ?_, ?_, ?_, ?_⟩
  · dsimp only
    rw [h.position, take_patch hposition, ← List.append_assoc, h.written]
  · dsimp only
    rw [h.position]
  · dsimp only
    omega
  · dsimp only
    rw [h.position, hlength]
    exact hreserve
  · dsimp only
    rw [h.position, hlength]
    exact hbounded

/-- What an element that is added does to the file: it is left alone, or a sector at least goes to
it. -/
def FileStep (w w' : XdrWriter) (element : List Byte) : Prop :=
  if w.isFull element then ∃ n, 512 ≤ n ∧ n ≤ w.memory.length ∧ w.fd.Appended w'.fd (w.memory.take n)
  else w'.fd = w.fd

/-- An element is added, with a flush in front of it where it does not fit. -/
theorem Holds.addElement (os : WriteCalls) (h : w.Holds bytes) {element : List Byte}
    (hfits : element.length + 511 ≤ w.alignedBufSize) : ∃ w', w.addElement os element = .ok w' ∧
    w'.Holds (bytes ++ element) ∧ w'.alignedBufSize = w.alignedBufSize ∧ w.FileStep w' element := by
  have hbufIdx := h.fits
  have hreserve := h.reserve
  have hbounded := h.bounded
  have hroom : ∃ w', (if w.isFull element then w.flushSectors os else .ok w) = .ok w' ∧
      w'.Holds bytes ∧ w'.alignedBufSize = w.alignedBufSize ∧
      w'.bufIdx + element.length ≤ w.alignedBufSize ∧ w.FileStep w' element := by
    by_cases hfull : w.isFull element
    · obtain ⟨w', hflush, hw', hidx, hsame, happended⟩ := h.flushSectors os
      refine ⟨w', (if_pos hfull).trans hflush, hw', hsame, by omega, ?_⟩
      rw [FileStep, if_pos hfull]
      rw [isFull, decide_eq_true_eq, sizeSub_of_le (by omega) (by omega)] at hfull
      exact ⟨_, by omega, by omega, happended⟩
    · refine ⟨w, if_neg hfull, h, rfl, ?_, if_neg hfull |>.mpr rfl⟩
      rw [isFull, decide_eq_true_eq, sizeSub_of_le (by omega) (by omega)] at hfull
      omega
  obtain ⟨w', hw', hheld, hsame, hle, hfile⟩ := hroom
  obtain ⟨w'', hput, hheld'⟩ := hheld.put (by omega) (hsame ▸ hle)
  have hput' := hput
  rw [XdrWriter.put] at hput'
  split_ifs at hput'
  cases hput'
  exact ⟨_, bind_eq_ok.mpr ⟨w', hw', bind_eq_ok.mpr ⟨_, hput, rfl⟩⟩, hheld', hsame, hfile⟩

theorem Holds.addElements (os : WriteCalls) (h : w.Holds bytes) {elements : List (List Byte)}
    (hfits : ∀ e ∈ elements, e.length + 511 ≤ w.alignedBufSize) :
    ∃ w', elements.foldlM (fun (w : XdrWriter) e => w.addElement os e) w = .ok w' ∧
      w'.Holds (bytes ++ elements.flatten) := by
  induction elements generalizing w bytes with
  | nil => exact ⟨w, rfl, by rw [List.flatten_nil, List.append_nil]; exact h⟩
  | cons e elements ih =>
    obtain ⟨hfirst, hrest⟩ := List.forall_mem_cons.mp hfits
    obtain ⟨w', hadd, hheld, hsame, -⟩ := h.addElement os hfirst
    obtain ⟨w'', hfold, hheld'⟩ := ih hheld (hsame ▸ hrest)
    refine ⟨w'', ?_, ?_⟩
    · rw [List.foldlM_cons, hadd]
      exact hfold
    · rw [List.flatten_cons, ← List.append_assoc]
      exact hheld'

/-- The last sectors have what the buffer holds, and more, which is cut off. -/
theorem Holds.flushRest (os : WriteCalls) (h : w.Holds bytes) : ∃ w' n, w.flushRest os = .ok w' ∧
    w'.totalWrittenBytes = bytes.length ∧ w'.fd.content.take bytes.length = bytes ∧
    512 ≤ n ∧ n ≤ w.memory.length ∧ bytes.length ≤ w.fd.offset + n ∧
    w.fd.Appended w'.fd (w.memory.take n) := by
  have hroom := h.bufIdx_le
  have hge : 512 ≤ w.bufIdx - w.bufIdx % 512 + 512 := Nat.le_add_left _ _
  generalize hn : w.bufIdx - w.bufIdx % 512 + 512 = n at hroom hge
  have hle : w.bufIdx ≤ n := by omega
  have htake : (w.memory.take n).length = n := by
    rw [List.length_take]
    omega
  have hlength : bytes.length = w.fd.offset + w.bufIdx := by
    rw [← h.written, List.length_append, List.length_take, List.length_take, Nat.min_eq_left h.offset_le,
      Nat.min_eq_left (hle.trans hroom)]
  obtain ⟨fd, hflush, happended⟩ := OpenFile.flushBuffer_appended os h.offset_le hroom
  refine ⟨_, n, bind_eq_ok.mpr ⟨fd, by rw [hn]; exact hflush, rfl⟩, ?_, ?_, hge, hroom, by omega,
    happended⟩
  · dsimp only
    rw [h.total, hlength]
  · have hcut : bytes.length = min bytes.length fd.offset := by
      have := happended.offset
      omega
    dsimp only
    rw [hcut, ← List.take_take, happended.content, hlength, List.take_append,
      List.take_take, List.take_take, List.length_take, Nat.min_eq_left h.offset_le,
      Nat.min_eq_right (Nat.le_add_right _ _), Nat.add_sub_cancel_left, Nat.min_eq_left hle]
    exact h.written

end XdrWriter

/-- The file is read to its end. -/
theorem freadLoop_eq {fuel : Nat} (rest contents : List Byte) (hfuel : rest.length < fuel) :
    freadLoop fuel rest contents = contents ++ rest := by
  induction fuel generalizing rest contents with
  | zero => exact absurd hfuel (Nat.not_lt_zero _)
  | succ fuel ih =>
    rw [freadLoop]
    by_cases hend : (rest.take 65536).length = 0
    · obtain rfl : rest = [] := by
        rw [List.length_take] at hend
        exact List.length_eq_zero_iff.mp (by omega)
      rw [if_pos hend, List.append_nil]
    · rw [if_neg hend, ih _ _ (by rw [List.length_take] at hend; rw [List.length_drop]; omega),
        List.append_assoc, List.take_append_drop]

/-- The file has exactly the encoding of the list, and the list is read back from it. -/
theorem saveXdrToFileFast_spec {α : Type} (codec : Codec α) (os : WriteCalls) (value : List α)
    (content : List Byte) (buffer : AlignedBuffer)
    (hfits : ∀ v ∈ value, (codec.encode v).length + 511 ≤ buffer.alignedBufSize) :
    ∃ fd, saveXdrToFileFast codec os value (.fresh content) buffer = .ok fd ∧
      fd.content = vector codec.encode value ∧
      (value.length < 2 ^ 32 → loadXdrFromFile codec fd.content = some value) := by
  have hstart := XdrWriter.holds_start buffer content value.length
  have hall : ∀ e ∈ value.map codec.encode, e.length + 511 ≤ buffer.alignedBufSize := by
    intro e he
    obtain ⟨v, hv, rfl⟩ := List.mem_map.mp he
    exact hfits v hv
  obtain ⟨w, hfold, hheld⟩ := hstart.addElements os hall
  rw [List.foldlM_map] at hfold
  rw [← List.flatMap_def] at hheld
  obtain ⟨w', n, hrest, htotal, htake, -, hn, hlength, happended⟩ := hheld.flushRest os
  have hle : (uint32 (size32 value.length) ++ value.flatMap codec.encode).length ≤
      w'.fd.content.length := by
    have hoffset := happended.offset
    have hoffset_le := happended.offset_le
    rw [List.length_take] at hoffset
    omega
  have hcontent : (w'.fd.ftruncate w'.totalWrittenBytes).content = vector codec.encode value := by
    rw [OpenFile.ftruncate, htotal]
    dsimp only
    rw [Nat.sub_eq_zero_of_le hle, List.replicate_zero, List.append_nil, htake]
    rfl
  refine ⟨_, bind_eq_ok.mpr ⟨w, hfold, bind_eq_ok.mpr ⟨w', hrest, rfl⟩⟩, hcontent, fun hlength => ?_⟩
  rw [hcontent, loadXdrFromFile, freadLoop_eq _ _ (Nat.lt_succ_self _), List.nil_append]
  exact codec.decodeVector_vector hlength

/-- Each call of `write` takes the half of what is left. -/
def WriteCalls.halves : WriteCalls where
  size _ n := (n + 1) / 2
  size_pos _ n _ := by omega
  size_le _ n := by omega

/-- A buffer of two kilobytes. -/
def AlignedBuffer.twoKilobytes : AlignedBuffer where
  memory := List.replicate 2048 Byte.zero
  hasReserve := by rw [List.length_replicate]; decide
  bounded := by rw [List.length_replicate]; decide

/-- Words whose encoding does not fit in the buffer. -/
def fourHundredWords : List UInt64 := (List.range 400).map UInt64.ofNat

/-- The buffer is flushed twice before its last sectors are. -/
theorem saveXdrToFileFast_spec_words : ∃ fd,
    saveXdrToFileFast Codec.words .halves fourHundredWords (.fresh [Byte.ones]) .twoKilobytes =
        .ok fd ∧
      fd.content = vector uint64 fourHundredWords ∧
      AlignedBuffer.twoKilobytes.memory.length + 1024 < fd.content.length ∧
      loadXdrFromFile Codec.words fd.content = some fourHundredWords := by
  have hfits : ∀ v ∈ fourHundredWords,
      (Codec.words.encode v).length + 511 ≤ AlignedBuffer.twoKilobytes.alignedBufSize := by
    intro v _
    have hword : (Codec.words.encode v).length = 8 := length_uint64 v
    rw [hword, AlignedBuffer.alignedBufSize, AlignedBuffer.twoKilobytes, List.length_replicate]
    decide
  obtain ⟨fd, hsave, hcontent, hload⟩ := saveXdrToFileFast_spec Codec.words .halves fourHundredWords
    [Byte.ones] .twoKilobytes hfits
  refine ⟨fd, hsave, hcontent, ?_, hload (by decide +kernel)⟩
  rw [hcontent, AlignedBuffer.twoKilobytes, List.length_replicate]
  decide +kernel

end Speedex
