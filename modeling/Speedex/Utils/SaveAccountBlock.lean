import Speedex.Modlog.Normalize
import Speedex.Utils.SaveLoadXdr

/-! Writing the transactions of an account block to disk (`utils/save_load_xdr.cc`).  The number of
transactions is known at the end, so the first sector is kept and written again. -/

namespace Speedex

open Lib Lib.Xdr

abbrev AccountModificationBlock := List AccountModificationTxListWrapper

/-- The account that is next, and the transactions that are being written with the index of the
next one. -/
structure BlockCursor where
  listIdx : Nat
  txBuffer : Option (List SignedTransaction)
  bufferIdx : Nat

namespace BlockCursor

/-- One round of the inner loop. -/
def visit (c : BlockCursor) (account : AccountModificationTxListWrapper) : BlockCursor :=
  if account.newTransactionsSelf.length ≠ 0 then
    ⟨c.listIdx + 1, some account.newTransactionsSelf, 0⟩
  else ⟨c.listIdx + 1, c.txBuffer, c.bufferIdx⟩

/-- The inner loop: the next account with a transaction. -/
def findBuffer (value : AccountModificationBlock) : Nat → BlockCursor → Result BlockCursor
  | 0, _ => .error .nontermination
  | fuel + 1, c =>
    match c.txBuffer, value[c.listIdx]? with
    | some _, _ => .ok c
    | none, none => .error .indexOutOfRange
    | none, some account =>
      if value.length ≤ (c.visit account).listIdx then .ok (c.visit account)
      else findBuffer value fuel (c.visit account)

/-- The cursor behind the transaction that it stands at. -/
def advance (c : BlockCursor) (txs : List SignedTransaction) : BlockCursor :=
  ⟨c.listIdx, if txs.length ≤ c.bufferIdx + 1 then none else some txs, c.bufferIdx + 1⟩

/-- The next transaction to write, with the cursor behind it, or nothing where the inner loop has
found no account. -/
def nextTx (value : AccountModificationBlock) (c : BlockCursor) :
    Result (Option (SignedTransaction × BlockCursor)) := do
  let c ← findBuffer value (value.length + 1) c
  match c.txBuffer with
  | none => return none
  | some txs =>
    match txs[c.bufferIdx]? with
    | none => .error .indexOutOfRange
    | some tx => return some (tx, c.advance txs)

end BlockCursor

/-- The writer, and the first sector once it has been flushed. -/
structure BlockWriter where
  writer : XdrWriter
  first : Option (List Byte)

namespace BlockWriter

/-- `aligned_first`: the buffer is copied where no sector has been flushed. -/
def savedFirst (b : BlockWriter) : List Byte := b.first.getD (b.writer.memory.take 512)

/-- One transaction is written, and before that the first sector is kept if it is flushed. -/
def addTransaction (os : WriteCalls) (b : BlockWriter) (tx : SignedTransaction) :
    Result BlockWriter := do
  let w ← b.writer.addElement os tx.xdr
  return ⟨w, if b.writer.isFull tx.xdr then some b.savedFirst else b.first⟩

end BlockWriter

/-- The loop of `save_account_block_fast`, with the number of transactions written. -/
def blockLoop (os : WriteCalls) (value : AccountModificationBlock) :
    Nat → BlockCursor → Nat → BlockWriter → Result (Nat × BlockWriter)
  | 0, _, _, _ => .error .nontermination
  | fuel + 1, c, numWritten, b =>
    if c.listIdx < value.length then
      (c.nextTx value).bind fun next =>
        match next with
        | none => .ok (numWritten, b)
        | some (tx, c) =>
          (b.addTransaction os tx).bind fun b => blockLoop os value fuel c (numWritten + 1) b
    else .ok (numWritten, b)

/-- All transactions of a block. -/
def AccountModificationBlock.transactions (value : AccountModificationBlock) : List SignedTransaction :=
  value.flatMap (·.newTransactionsSelf)

/-- `save_account_block_fast`. -/
def saveAccountBlockFast (os : WriteCalls) (value : AccountModificationBlock) (fd : OpenFile)
    (buffer : AlignedBuffer) : Result OpenFile := do
  let r ← blockLoop os value (AccountModificationBlock.transactions value).length.succ ⟨0, none, 0⟩ 0
    ⟨.start buffer fd 0, none⟩
  let first := r.2.savedFirst
  let w ← r.2.writer.flushRest os
  let fd ← w.fd.rewind.flushBuffer os (patch first 0 (uint32 (size32 r.1))) 512
  return fd.ftruncate w.totalWrittenBytes

/-! ### Which transactions are written -/

/-- All transactions of the accounts but the last, and the first of the last account. -/
def savedTransactions : AccountModificationBlock → List SignedTransaction
  | [] => []
  | [account] => account.newTransactionsSelf.take 1
  | account :: rest => account.newTransactionsSelf ++ savedTransactions rest

namespace BlockCursor

/-- The transactions that are written from a cursor on.  The loop is left when the cursor has come
to the end of the accounts, whatever is left of the last one. -/
def remaining (value : AccountModificationBlock) (c : BlockCursor) : List SignedTransaction :=
  if c.listIdx < value.length then
    (c.txBuffer.getD []).drop c.bufferIdx ++ savedTransactions (value.drop c.listIdx)
  else []

/-- A cursor stands at a transaction, or between two accounts. -/
def Valid (c : BlockCursor) : Prop :=
  ∀ txs, c.txBuffer = some txs → c.bufferIdx < txs.length

theorem savedTransactions_drop_last {value : AccountModificationBlock} {i : Nat}
    (hlt : i < value.length) (hlast : value.length ≤ i + 1) :
    savedTransactions (value.drop i) = (value[i]).newTransactionsSelf.take 1 := by
  rw [List.drop_eq_getElem_cons hlt, List.drop_of_length_le hlast]
  rfl

theorem savedTransactions_drop {value : AccountModificationBlock} {i : Nat}
    (hlt : i + 1 < value.length) : savedTransactions (value.drop i) =
      (value[i]).newTransactionsSelf ++ savedTransactions (value.drop (i + 1)) := by
  rw [List.drop_eq_getElem_cons (Nat.lt_of_succ_lt hlt), List.drop_eq_getElem_cons hlt]
  rfl

/-- The next account with a transaction, of which only the first is written if it is the last
account. -/
theorem findBuffer_spec (value : AccountModificationBlock) {fuel : Nat} (c : BlockCursor)
    (hnone : c.txBuffer = none) (hlt : c.listIdx < value.length)
    (hfuel : value.length - c.listIdx < fuel) :
    ∃ c', findBuffer value fuel c = .ok c' ∧
      ((c'.txBuffer = none ∧ savedTransactions (value.drop c.listIdx) = []) ∨
        ∃ txs, c'.txBuffer = some txs ∧ txs ≠ [] ∧ c'.bufferIdx = 0 ∧
          savedTransactions (value.drop c.listIdx) =
            if c'.listIdx < value.length then txs ++ savedTransactions (value.drop c'.listIdx)
            else txs.take 1) := by
  induction fuel generalizing c with
  | zero => exact absurd hfuel (Nat.not_lt_zero _)
  | succ fuel ih =>
    have hlistIdx : (c.visit value[c.listIdx]).listIdx = c.listIdx + 1 := by
      unfold visit
      split_ifs <;> rfl
    rw [findBuffer, hnone, List.getElem?_eq_getElem hlt]
    dsimp only
    rw [hlistIdx]
    by_cases hempty : (value[c.listIdx]).newTransactionsSelf = []
    · have hvisit : c.visit value[c.listIdx] = ⟨c.listIdx + 1, c.txBuffer, c.bufferIdx⟩ :=
        if_neg (not_not.mpr (List.length_eq_zero_iff.mpr hempty))
      rw [hvisit]
      by_cases hlast : value.length ≤ c.listIdx + 1
      · rw [if_pos hlast]
        refine ⟨_, rfl, .inl ⟨hnone, ?_⟩⟩
        rw [savedTransactions_drop_last hlt hlast, hempty]
        rfl
      · rw [if_neg hlast, savedTransactions_drop (Nat.lt_of_not_le hlast), hempty, List.nil_append]
        exact ih ⟨c.listIdx + 1, c.txBuffer, c.bufferIdx⟩ hnone (Nat.lt_of_not_le hlast)
          (by dsimp only; omega)
    · have hvisit : c.visit value[c.listIdx] =
          ⟨c.listIdx + 1, some (value[c.listIdx]).newTransactionsSelf, 0⟩ :=
        if_pos fun h => hempty (List.length_eq_zero_iff.mp h)
      rw [hvisit]
      by_cases hlast : value.length ≤ c.listIdx + 1
      · rw [if_pos hlast]
        refine ⟨_, rfl, .inr ⟨_, rfl, hempty, rfl, ?_⟩⟩
        rw [if_neg (Nat.not_lt.mpr hlast), savedTransactions_drop_last hlt hlast]
      · rw [if_neg hlast]
        obtain ⟨fuel, rfl⟩ : ∃ k, fuel = k + 1 := ⟨fuel - 1, by omega⟩
        refine ⟨_, rfl, .inr ⟨_, rfl, hempty, rfl, ?_⟩⟩
        rw [if_pos (Nat.lt_of_not_le hlast), savedTransactions_drop (Nat.lt_of_not_le hlast)]

theorem advance_valid {c : BlockCursor} {txs : List SignedTransaction} : (c.advance txs).Valid := by
  intro txs' hsome
  unfold advance at hsome ⊢
  dsimp only at hsome ⊢
  split_ifs at hsome with hend
  cases hsome
  exact Nat.lt_of_not_le hend

/-- What is left of an account behind the cursor. -/
theorem drop_advance (c : BlockCursor) (txs : List SignedTransaction) :
    ((c.advance txs).txBuffer.getD []).drop (c.advance txs).bufferIdx = txs.drop (c.bufferIdx + 1) := by
  unfold advance
  dsimp only
  split_ifs with hend
  · rw [List.drop_of_length_le hend]
    rfl
  · rfl

/-- The next transaction is the first of those that remain. -/
theorem nextTx_spec {value : AccountModificationBlock} {c : BlockCursor} (hvalid : c.Valid)
    (hlt : c.listIdx < value.length) :
    (c.nextTx value = .ok none ∧ c.remaining value = []) ∨
      ∃ tx c', c.nextTx value = .ok (some (tx, c')) ∧ c'.Valid ∧
        c.remaining value = tx :: c'.remaining value := by
  have hnext {c₁ : BlockCursor} {txs : List SignedTransaction} (hsome : c₁.txBuffer = some txs)
      (hidx : c₁.bufferIdx < txs.length)
      (hfind : findBuffer value (value.length + 1) c = .ok c₁) :
      c.nextTx value = .ok (some (txs[c₁.bufferIdx], c₁.advance txs)) := by
    rw [nextTx, hfind, ok_bind, hsome]
    dsimp only
    rw [List.getElem?_eq_getElem hidx]
    rfl
  rw [remaining, if_pos hlt]
  cases hbuffer : c.txBuffer with
  | some txs =>
    have hidx := hvalid txs hbuffer
    have hfind : findBuffer value (value.length + 1) c = .ok c := by
      rw [findBuffer, hbuffer]
    refine .inr ⟨_, _, hnext hbuffer hidx hfind, advance_valid, ?_⟩
    rw [remaining, drop_advance, if_pos (show (c.advance txs).listIdx < value.length from hlt),
      Option.getD_some, List.drop_eq_getElem_cons hidx]
    rfl
  | none =>
    obtain ⟨c₁, hfind, hresult⟩ := findBuffer_spec value c hbuffer hlt
      (show value.length - c.listIdx < value.length + 1 by omega)
    rw [Option.getD_none, List.drop_nil, List.nil_append]
    rcases hresult with ⟨hnone, hsaved⟩ | ⟨txs, hsome, hne, hzero, hsaved⟩
    · refine .inl ⟨?_, hsaved⟩
      rw [nextTx, hfind, ok_bind, hnone]
      rfl
    · have hidx : c₁.bufferIdx < txs.length := hzero ▸ List.length_pos_of_ne_nil hne
      refine .inr ⟨_, _, hnext hsome hidx hfind, advance_valid, ?_⟩
      rw [hsaved, remaining, drop_advance]
      have hcons : txs = txs[c₁.bufferIdx] :: txs.drop (c₁.bufferIdx + 1) := by
        rw [← List.drop_eq_getElem_cons hidx, hzero, List.drop_zero]
      by_cases hlast : c₁.listIdx < value.length
      · rw [if_pos hlast, if_pos (show (c₁.advance txs).listIdx < value.length from hlast),
          ← List.cons_append, ← hcons]
        rfl
      · rw [if_neg hlast, if_neg (show ¬ (c₁.advance txs).listIdx < value.length from hlast)]
        exact congrArg (List.take 1) hcons

end BlockCursor

theorem sublist_savedTransactions (value : AccountModificationBlock) :
    (savedTransactions value).Sublist (AccountModificationBlock.transactions value) := by
  unfold AccountModificationBlock.transactions
  induction value using savedTransactions.induct with
  | case1 => exact .slnil
  | case2 account =>
    rw [savedTransactions, List.flatMap_singleton]
    exact List.take_sublist 1 _
  | case3 account rest hne ih =>
    rw [savedTransactions, List.flatMap_cons]
    · exact (List.Sublist.refl _).append ih
    · exact hne

/-- Every transaction is saved exactly when the last account has no second one. -/
theorem savedTransactions_eq_iff (value : AccountModificationBlock) :
    savedTransactions value = AccountModificationBlock.transactions value ↔
      ∀ account ∈ value.getLast?, account.newTransactionsSelf.length ≤ 1 := by
  unfold AccountModificationBlock.transactions
  induction value using savedTransactions.induct with
  | case1 => simp [savedTransactions]
  | case2 account =>
    rw [savedTransactions, List.flatMap_singleton, List.take_eq_self_iff]
    simp
  | case3 account rest hne ih =>
    obtain ⟨next, rest, rfl⟩ := List.exists_cons_of_ne_nil fun h => hne h
    rw [savedTransactions, List.flatMap_cons, List.append_cancel_left_eq, ih, List.getLast?_cons_cons]
    exact hne

/-! ### What the writer holds -/

namespace BlockWriter

/-- The first sector is kept once it has been flushed. -/
structure FirstHeld (b : BlockWriter) : Prop where
  unset : b.first = none → b.writer.fd.offset = 0
  set : ∀ first, b.first = some first →
    512 ≤ b.writer.fd.offset ∧ first = b.writer.fd.content.take 512

/-- After a flush the first sector of the file is the one that is kept. -/
theorem FirstHeld.appended {b : BlockWriter} (h : b.FirstHeld) {fd : OpenFile} {n : Nat} (hn : 512 ≤ n)
    (hle : n ≤ b.writer.memory.length) (happended : b.writer.fd.Appended fd (b.writer.memory.take n))
    (hoffset : b.writer.fd.offset ≤ b.writer.fd.content.length) :
    fd.content.take 512 = b.savedFirst ∧ 512 ≤ fd.offset := by
  have hlength : (b.writer.memory.take n).length = n := by
    rw [List.length_take, Nat.min_eq_left hle]
  have hflushed := happended.offset
  refine ⟨?_, by omega⟩
  rw [happended.take_content (by omega), savedFirst]
  cases hfirst : b.first with
  | none =>
    rw [h.unset hfirst, List.take_zero, List.nil_append, List.take_take, Nat.min_eq_left hn]
    rfl
  | some first =>
    obtain ⟨hge, rfl⟩ := h.set first hfirst
    rw [List.take_append_of_le_length (by rw [List.length_take]; omega), List.take_take,
      Nat.min_eq_left hge]
    rfl

theorem addTransaction_spec (os : WriteCalls) {b : BlockWriter} {bytes : List Byte}
    (h : b.writer.Holds bytes) (hfirst : b.FirstHeld) {tx : SignedTransaction}
    (hfits : tx.xdr.length + 511 ≤ b.writer.alignedBufSize) : ∃ b', b.addTransaction os tx = .ok b' ∧
    b'.writer.Holds (bytes ++ tx.xdr) ∧ b'.FirstHeld ∧
    b'.writer.alignedBufSize = b.writer.alignedBufSize := by
  obtain ⟨w, hadd, hheld, hsame, hfile⟩ := h.addElement os hfits
  refine ⟨_, bind_eq_ok.mpr ⟨w, hadd, rfl⟩, hheld, ?_, hsame⟩
  unfold XdrWriter.FileStep at hfile
  by_cases hfull : b.writer.isFull tx.xdr
  · rw [if_pos hfull] at hfile ⊢
    obtain ⟨n, hn, hle, happended⟩ := hfile
    obtain ⟨hsaved, hge⟩ := hfirst.appended hn hle happended h.offset_le
    refine ⟨fun hnone => ?_, fun first hsome => ⟨hge, ?_⟩⟩
    · cases hnone
    · cases hsome
      exact hsaved.symm
  · rw [if_neg hfull] at hfile ⊢
    refine ⟨fun hnone => ?_, fun first hsome => ?_⟩
    · dsimp only
      rw [hfile]
      exact hfirst.unset hnone
    · dsimp only
      rw [hfile]
      exact hfirst.set first hsome

end BlockWriter

/-- The loop writes the transactions that remain from its cursor on, and counts them. -/
theorem blockLoop_spec (os : WriteCalls) {value : AccountModificationBlock} {fuel : Nat}
    {c : BlockCursor} (numWritten : Nat) {b : BlockWriter} {bytes : List Byte} (hvalid : c.Valid)
    (hfuel : (c.remaining value).length < fuel) (h : b.writer.Holds bytes) (hfirst : b.FirstHeld)
    (hfits : ∀ tx ∈ c.remaining value, tx.xdr.length + 511 ≤ b.writer.alignedBufSize) :
    ∃ b', blockLoop os value fuel c numWritten b =
        .ok (numWritten + (c.remaining value).length, b') ∧
      b'.writer.Holds (bytes ++ (c.remaining value).flatMap (·.xdr)) ∧ b'.FirstHeld := by
  induction fuel generalizing c numWritten b bytes with
  | zero => exact absurd hfuel (Nat.not_lt_zero _)
  | succ fuel ih =>
    rw [blockLoop]
    by_cases hlt : c.listIdx < value.length
    · rw [if_pos hlt]
      rcases BlockCursor.nextTx_spec hvalid hlt with ⟨hnext, hdone⟩ | ⟨tx, c', hnext, hvalid', hcons⟩
      · rw [hnext, hdone]
        exact ⟨b, rfl, by rw [List.flatMap_nil, List.append_nil]; exact h, hfirst⟩
      · rw [hcons] at hfuel hfits ⊢
        obtain ⟨hfit, hrest⟩ := List.forall_mem_cons.mp hfits
        obtain ⟨b₁, hadd, hheld, hfirst', hsame⟩ := BlockWriter.addTransaction_spec os h hfirst hfit
        obtain ⟨b', hloop, hheld', hfirst''⟩ := ih (numWritten + 1) hvalid'
          (Nat.lt_of_succ_lt_succ hfuel) hheld hfirst' (hsame ▸ hrest)
        refine ⟨b', ?_, ?_, hfirst''⟩
        · refine bind_eq_ok.mpr ⟨_, hnext, bind_eq_ok.mpr ⟨b₁, hadd, ?_⟩⟩
          rw [hloop, List.length_cons, Nat.add_assoc, Nat.add_comm 1]
        · rw [List.flatMap_cons, ← List.append_assoc]
          exact hheld'
    · have hdone : c.remaining value = [] := if_neg hlt
      rw [if_neg hlt, hdone]
      exact ⟨b, rfl, by rw [List.flatMap_nil, List.append_nil]; exact h, hfirst⟩

/-- The file has the encoding of the transactions that are saved. -/
theorem saveAccountBlockFast_content (os : WriteCalls) (value : AccountModificationBlock)
    (content : List Byte) (buffer : AlignedBuffer)
    (hfits : ∀ tx ∈ AccountModificationBlock.transactions value,
      tx.xdr.length + 511 ≤ buffer.alignedBufSize) :
    ∃ fd, saveAccountBlockFast os value (.fresh content) buffer = .ok fd ∧
      fd.content = vector SignedTransaction.xdr (savedTransactions value) := by
  have hsublist := sublist_savedTransactions value
  have hlength := hsublist.length_le
  have hremaining : BlockCursor.remaining value ⟨0, none, 0⟩ = savedTransactions value := by
    cases value with
    | nil => rfl
    | cons account rest => exact if_pos (Nat.succ_pos _)
  have hstart : BlockWriter.FirstHeld ⟨XdrWriter.start buffer (.fresh content) 0, none⟩ := by
    refine ⟨fun _ => rfl, fun first hsome => ?_⟩
    cases hsome
  obtain ⟨b, hloop, hheld, hfirst⟩ := @blockLoop_spec os value
    (AccountModificationBlock.transactions value).length.succ ⟨0, none, 0⟩ 0
    ⟨XdrWriter.start buffer (.fresh content) 0, none⟩ _
    (fun txs hsome => by cases hsome) (by rw [hremaining]; omega)
    (XdrWriter.holds_start buffer content 0) hstart
    (by rw [hremaining]; exact fun tx htx => hfits tx (hsublist.subset htx))
  rw [hremaining, Nat.zero_add] at hloop
  rw [hremaining] at hheld
  generalize hcount : (savedTransactions value).length = count at hloop
  obtain ⟨w, n, hrest, htotal, htake, hn, hle, hbytes, happended⟩ := hheld.flushRest os
  obtain ⟨hsaved, hge⟩ := hfirst.appended hn hle happended hheld.offset_le
  have hoffset_le := happended.offset_le
  have hoffset := happended.offset
  rw [List.length_take, Nat.min_eq_left hle] at hoffset
  have hpatched : (patch b.savedFirst 0 (uint32 (size32 count))).length = 512 := by
    rw [← hsaved, length_patch (by rw [length_uint32, List.length_take]; omega), List.length_take]
    omega
  obtain ⟨fd, hflush, hcontent, -⟩ := OpenFile.flushBuffer_spec os
    (show w.fd.rewind.offset ≤ w.fd.rewind.content.length from Nat.zero_le _) hpatched.ge
  have hcontent' : fd.content = patch w.fd.content 0 (uint32 (size32 count)) := by
    rw [hcontent, List.take_of_length_le hpatched.le, ← hsaved]
    exact patch_take_self (by rw [length_uint32]; omega) (show 512 ≤ w.fd.content.length by omega)
  have hlength' : fd.content.length = w.fd.content.length := by
    rw [hcontent', length_patch (by rw [length_uint32]; omega)]
  refine ⟨_, bind_eq_ok.mpr ⟨_, hloop, bind_eq_ok.mpr ⟨w, hrest, bind_eq_ok.mpr ⟨fd, hflush, rfl⟩⟩⟩, ?_⟩
  rw [OpenFile.ftruncate, htotal]
  dsimp only
  rw [Nat.sub_eq_zero_of_le (by omega), List.replicate_zero, List.append_nil, hcontent', patch_zero,
    length_uint32, vector, hcount]
  have htotalLength : (uint32 (size32 0) ++ (savedTransactions value).flatMap (·.xdr)).length =
      4 + ((savedTransactions value).flatMap (·.xdr)).length := by
    rw [List.length_append, length_uint32]
  have hrestBytes : (w.fd.content.drop 4).take ((savedTransactions value).flatMap (·.xdr)).length =
      (savedTransactions value).flatMap (·.xdr) := by
    rw [htotalLength] at htake
    rw [List.take_drop, htake, List.drop_left' (length_uint32 _)]
  rw [htotalLength, List.take_append, length_uint32, List.take_of_length_le (by rw [length_uint32]; omega),
    Nat.add_sub_cancel_left, hrestBytes]

/-- A transaction's encoding is not empty. -/
theorem SignedTransaction.length_xdr_pos (tx : SignedTransaction) : 0 < tx.xdr.length := by
  rw [SignedTransaction.xdr, List.length_append, length_fixed]
  exact Nat.lt_add_left _ (by decide)

/-- Lists of which one is a part of the other have the same encoding only if they are equal. -/
theorem eq_of_sublist_of_vector_eq {l l' : List SignedTransaction} (h : l.Sublist l')
    (heq : vector SignedTransaction.xdr l = vector SignedTransaction.xdr l') : l = l' := by
  have hlength := congrArg List.length heq
  rw [length_vector, length_vector, Nat.add_left_cancel_iff] at hlength
  have hsum {l l' : List SignedTransaction} (h : l.Sublist l') :
      (l.map fun tx => tx.xdr.length).sum + (l'.length - l.length) ≤
        (l'.map fun tx => tx.xdr.length).sum := by
    induction h with
    | slnil => exact le_rfl
    | cons tx h ih =>
      have := tx.length_xdr_pos
      have := h.length_le
      rw [List.map_cons, List.sum_cons, List.length_cons]
      omega
    | cons_cons tx h ih =>
      rw [List.map_cons, List.sum_cons, List.length_cons, List.map_cons, List.sum_cons, List.length_cons]
      omega
  have := hsum h
  exact h.eq_of_length_le (by omega)

/-- The file has the encoding of all transactions of the block exactly when its last account has at
most one. -/
theorem saveAccountBlockFast_iff (os : WriteCalls) (value : AccountModificationBlock)
    (content : List Byte) (buffer : AlignedBuffer)
    (hfits : ∀ tx ∈ AccountModificationBlock.transactions value,
      tx.xdr.length + 511 ≤ buffer.alignedBufSize) :
    (∃ fd, saveAccountBlockFast os value (.fresh content) buffer = .ok fd ∧
      fd.content = vector SignedTransaction.xdr (AccountModificationBlock.transactions value)) ↔
    ∀ account ∈ value.getLast?, account.newTransactionsSelf.length ≤ 1 := by
  obtain ⟨fd, hsave, hcontent⟩ := saveAccountBlockFast_content os value content buffer hfits
  rw [← savedTransactions_eq_iff]
  constructor
  · rintro ⟨fd', hsave', hcontent'⟩
    obtain rfl : fd = fd' := Except.ok.inj (hsave.symm.trans hsave')
    exact eq_of_sublist_of_vector_eq (sublist_savedTransactions value) (hcontent.symm.trans hcontent')
  · intro heq
    exact ⟨fd, hsave, heq ▸ hcontent⟩

/-- An account with empty transactions of these sequence numbers. -/
def accountWith (owner : AccountID) (numbers : List UInt64) : AccountModificationTxListWrapper where
  newTransactionsSelf := numbers.map fun n => ⟨⟨⟨owner, n⟩, [], Nat.zero_le _, 0⟩, 0⟩
  identifiersSelf := []
  identifiersOthers := []
  owner := owner

/-- An account's transactions have no operations, so that two kilobytes are enough for each. -/
theorem length_xdr_accountWith {owner : AccountID} {numbers : List UInt64} {tx : SignedTransaction}
    (h : tx ∈ (accountWith owner numbers).newTransactionsSelf) :
    tx.xdr.length + 511 ≤ AlignedBuffer.twoKilobytes.alignedBufSize := by
  obtain ⟨n, -, rfl⟩ := List.mem_map.mp h
  have hsize : AlignedBuffer.twoKilobytes.alignedBufSize = 1536 := by
    rw [AlignedBuffer.alignedBufSize, AlignedBuffer.twoKilobytes, List.length_replicate]
    decide
  rw [hsize, SignedTransaction.xdr, Transaction.xdr, TransactionMetadata.xdr]
  simp only [List.length_append, length_vector, length_uint64, length_uint32, length_fixed]
  decide

theorem saveAccountBlockFast_iff_accountWith : ∃ fd,
    saveAccountBlockFast .halves [accountWith 7 [256, 512], accountWith 8 [256]] (.fresh [])
      .twoKilobytes = .ok fd ∧ fd.content = vector SignedTransaction.xdr
        (AccountModificationBlock.transactions [accountWith 7 [256, 512], accountWith 8 [256]]) := by
  refine (saveAccountBlockFast_iff .halves _ [] .twoKilobytes fun tx htx => ?_).mpr fun account h => ?_
  · obtain ⟨account, haccount, htx⟩ := List.mem_flatMap.mp htx
    rcases List.mem_cons.mp haccount with rfl | haccount
    · exact length_xdr_accountWith htx
    · rw [List.mem_singleton.mp haccount] at htx
      exact length_xdr_accountWith htx
  · cases h
    decide

/-- The second transaction of the only account is lost. -/
theorem saveAccountBlockFast_loses : ¬ ∃ fd,
    saveAccountBlockFast .halves [accountWith 7 [256, 512]] (.fresh []) .twoKilobytes = .ok fd ∧
      fd.content = vector SignedTransaction.xdr
        (AccountModificationBlock.transactions [accountWith 7 [256, 512]]) := by
  rintro ⟨fd, hsave, hcontent⟩
  obtain ⟨fd', hsave', hcontent'⟩ := saveAccountBlockFast_content .halves [accountWith 7 [256, 512]] []
    .twoKilobytes fun tx htx => by
      obtain ⟨account, haccount, htx⟩ := List.mem_flatMap.mp htx
      rw [List.mem_singleton.mp haccount] at htx
      exact length_xdr_accountWith htx
  obtain rfl : fd = fd' := Except.ok.inj (hsave.symm.trans hsave')
  have heq := eq_of_sublist_of_vector_eq (sublist_savedTransactions _) (hcontent'.symm.trans hcontent)
  exact absurd (congrArg List.length heq) (by decide)

end Speedex
