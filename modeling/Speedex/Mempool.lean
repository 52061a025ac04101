import Speedex.Lib.Except
import Speedex.Lib.SwapRemove
import Speedex.Filtering.AccountFilterEntry

/-! The mempool (`mempool/mempool.cc`): chunks of transactions, each with a bitmap of those that
block production is done with.  Removing transactions, filtering and joining chunks change the
vectors and the bitmaps in different ways; bits are set only between a block's production and the
cleaning that follows it. -/

namespace Speedex

open Lib

structure MempoolChunk where
  txs : List SignedTransaction
  confirmedTxsToRemove : List Bool

namespace MempoolChunk

def size (c : MempoolChunk) : Nat := c.txs.length

/-- The loop of `remove_confirmed_txs`. -/
def removeConfirmedLoop : Nat → MempoolChunk → Nat → UInt64 → Result (MempoolChunk × UInt64)
  | 0, c, _, numRemoved => .ok (c, numRemoved)
  | fuel + 1, c, i, numRemoved =>
    match c.confirmedTxsToRemove[i]? with
    | none => .ok (c, numRemoved)
    | some false => removeConfirmedLoop fuel c (i + 1) numRemoved
    | some true =>
      if i < c.txs.length then
        removeConfirmedLoop fuel ⟨swapRemove c.txs i, swapRemove c.confirmedTxsToRemove i⟩ i
          (numRemoved + 1)
      else .error .indexOutOfRange

/-- `remove_confirmed_txs`: what is left, and how many were removed. -/
def removeConfirmedTxs (c : MempoolChunk) : Result (MempoolChunk × UInt64) :=
  removeConfirmedLoop c.confirmedTxsToRemove.length c 0 0

/-- `filter`, which leaves the bitmap as it is. -/
def filter (checkTransaction : SignedTransaction → Bool) (c : MempoolChunk) : MempoolChunk × UInt64 :=
  let left := removeLoop checkTransaction c.txs.length c.txs 0 0
  ({ c with txs := left.1 }, .ofNat left.2)

def setConfirmedTxs (c : MempoolChunk) (bitmap : List Bool) : Result MempoolChunk :=
  if bitmap.length ≠ c.txs.length then .error (.runtimeError "size mismatch: bitmap vs txs")
  else .ok { c with confirmedTxsToRemove := bitmap }

def join (c other : MempoolChunk) : MempoolChunk :=
  ⟨c.txs ++ other.txs, c.confirmedTxsToRemove ++ other.confirmedTxsToRemove⟩

end MempoolChunk

/-- `MempoolTransactionFilter::check_transaction`: whether to remove a transaction. -/
def checkTransaction (db : MemoryDatabase) (tx : SignedTransaction) : Bool :=
  match db.lookupAccount tx.transaction.metadata.sourceAccount with
  | none => false
  | some u => tx.transaction.metadata.sequenceNumber ≤ u.getLastCommittedSeqNumber

/-- `delete_tx_from_mempool`. -/
def deleteTxFromMempool : TransactionProcessingStatus → Bool
  | .SUCCESS => true
  | .SEQ_NUM_TOO_HIGH | .SEQ_NUM_TEMP_IN_USE | .NEW_ACCOUNT_TEMP_RESERVED => false
  | .INSUFFICIENT_BALANCE | .CANCEL_OFFER_TARGET_NEXIST => true
  | .SOURCE_ACCOUNT_NEXIST | .INVALID_OPERATION_TYPE | .SEQ_NUM_TOO_LOW
  | .STARTING_BALANCE_TOO_LOW | .NEW_ACCOUNT_ALREADY_EXISTS | .INVALID_TX_FORMAT
  | .INVALID_OFFER_CATEGORY | .INVALID_PRICE | .RECIPIENT_ACCOUNT_NEXIST
  | .INVALID_PRINT_MONEY_AMOUNT | .INVALID_AMOUNT | .FEE_BID_TOO_LOW | .BAD_SIGNATURE => true

/-- A chunk's turn in a block's production: the block space that the shared counter had left, and
what `process_transaction` returns for each transaction of the chunk. -/
structure ChunkVisit where
  remainingSpace : Int
  status : Nat → TransactionProcessingStatus

namespace ChunkVisit

/-- How many transactions of the chunk there is space for. -/
def chunkSz (v : ChunkVisit) (c : MempoolChunk) : Int :=
  if v.remainingSpace < c.size then v.remainingSpace else c.size

/-- The bitmap that is set: the transactions that are processed and not to be tried again. -/
def bitmap (v : ChunkVisit) (c : MempoolChunk) : List Bool :=
  (List.range c.size).map fun (j : Nat) =>
    decide ((j : Int) < v.chunkSz c) && (decide (v.status j = .SUCCESS) || deleteTxFromMempool (v.status j))

/-- One round of the loop of `BlockProductionReduce::operator()`, which ends without a bitmap where
there is no space left. -/
def run (v : ChunkVisit) (c : MempoolChunk) : Result MempoolChunk :=
  if v.remainingSpace < c.size ∧ v.chunkSz c ≤ 0 then .ok c
  else c.setConfirmedTxs (v.bitmap c)

end ChunkVisit

/-- A chunk has no turn in a block's production when its worker has ended before it. -/
def MempoolChunk.visit (c : MempoolChunk) : Option ChunkVisit → Result MempoolChunk
  | none => .ok c
  | some v => v.run c

structure Mempool where
  mempool : List MempoolChunk
  bufferedMempool : List MempoolChunk
  mempoolSize : UInt64
  bufferSize : UInt64
  targetChunkSize : Nat
  maxMempoolSize : Nat

namespace Mempool

/-- The constructor. -/
def new (targetChunkSize maxMempoolSize : Nat) : Mempool :=
  ⟨[], [], 0, 0, targetChunkSize, maxMempoolSize⟩

def addToMempoolBufferNolock (m : Mempool) (chunk : List SignedTransaction) : Mempool :=
  { m with
    bufferSize := m.bufferSize + .ofNat chunk.length
    bufferedMempool := m.bufferedMempool ++ [⟨chunk, []⟩] }

/-- The transactions from `min_idx` to `max_idx` in round `i`. -/
def chunkOf (targetChunkSize : Nat) (txs : List SignedTransaction) (i : Nat) : List SignedTransaction :=
  let minIdx := i * targetChunkSize
  let maxIdx := min txs.length ((i + 1) * targetChunkSize)
  (txs.drop minIdx).take (maxIdx - minIdx)

def chunkifyAndAddToMempoolBuffer (m : Mempool) (txs : List SignedTransaction) : Result Mempool :=
  if m.targetChunkSize = 0 then .error .divisionByZero
  else .ok ((List.range (txs.length / m.targetChunkSize + 1)).foldl
    (fun m' i => m'.addToMempoolBufferNolock (chunkOf m.targetChunkSize txs i)) m)

/-- The loop of `push_mempool_buffer_to_mempool`, over the buffered chunks. -/
def pushLoop : List MempoolChunk → Mempool → Mempool
  | [], m => m
  | front :: rest, m =>
    let curSz := m.mempoolSize
    let m := { m with
      mempoolSize := m.mempoolSize + .ofNat front.size
      bufferSize := m.bufferSize - .ofNat front.size
      mempool := m.mempool ++ [front]
      bufferedMempool := rest }
    if m.maxMempoolSize < curSz.toNat then m else pushLoop rest m

def pushMempoolBufferToMempool (m : Mempool) : Mempool := pushLoop m.bufferedMempool m

/-- The loop of `join_small_chunks`. -/
def joinLoop (targetChunkSize : Nat) : Nat → List MempoolChunk → Nat → List MempoolChunk
  | 0, chunks, _ => chunks
  | fuel + 1, chunks, i =>
    if h : i + 1 < chunks.length then
      if chunks[i].size + chunks[i + 1].size < targetChunkSize then
        joinLoop targetChunkSize fuel
          (swapRemove (chunks.set i (chunks[i].join chunks[i + 1])) (i + 1)) i
      else joinLoop targetChunkSize fuel chunks (i + 1)
    else chunks

def joinSmallChunks (m : Mempool) : Mempool :=
  { m with mempool := joinLoop m.targetChunkSize m.mempool.length m.mempool 0 }

/-- The chunks in `remove_confirmed_txs`, and the sum of what `log_tx_removal` is told. -/
def removeConfirmedChunks : List MempoolChunk → Result (List MempoolChunk × UInt64)
  | [] => .ok ([], 0)
  | c :: chunks => do
    let r ← c.removeConfirmedTxs
    let r' ← removeConfirmedChunks chunks
    return (r.1 :: r'.1, r.2 + r'.2)

def removeConfirmedTxs (m : Mempool) : Result Mempool := do
  let r ← removeConfirmedChunks m.mempool
  return { m with mempool := r.1, mempoolSize := m.mempoolSize - r.2 }

/-- The mempool cleaner's work. -/
def clean (m : Mempool) : Result Mempool := do return (← m.removeConfirmedTxs).joinSmallChunks

/-- The chunks in a block's production, from number `i` on. -/
def produceChunks (visits : Nat → Option ChunkVisit) : Nat → List MempoolChunk → Result (List MempoolChunk)
  | _, [] => .ok []
  | i, c :: chunks => do
    let c' ← c.visit (visits i)
    return c' :: (← produceChunks visits (i + 1) chunks)

/-- `BlockProducer::build_block`, as far as the mempool goes. -/
def produce (m : Mempool) (visits : Nat → Option ChunkVisit) : Result Mempool := do
  return { m with mempool := ← produceChunks visits 0 m.mempool }

/-- The chunks in `MempoolFilterExecutor::run`, from number `i` on.  A chunk has no turn when the
filter is cancelled before it. -/
def filterChunks (checkTransaction : SignedTransaction → Bool) (visited : Nat → Bool) :
    Nat → List MempoolChunk → List MempoolChunk × UInt64
  | _, [] => ([], 0)
  | i, c :: chunks =>
    let r := if visited i then c.filter checkTransaction else (c, 0)
    let r' := filterChunks checkTransaction visited (i + 1) chunks
    (r.1 :: r'.1, r.2 + r'.2)

def filter (m : Mempool) (db : MemoryDatabase) (visited : Nat → Bool) : Mempool :=
  let r := filterChunks (checkTransaction db) visited 0 m.mempool
  { m with mempool := r.1, mempoolSize := m.mempoolSize - r.2 }

end Mempool

/-- What happens to a mempool. -/
inductive MempoolOp where
  | chunkifyAndAdd (txs : List SignedTransaction)
  | push
  | produceAndClean (visits : Nat → Option ChunkVisit)
  | clean
  | filter (db : MemoryDatabase) (visited : Nat → Bool)

namespace Mempool

def operate (m : Mempool) : MempoolOp → Result Mempool
  | .chunkifyAndAdd txs => m.chunkifyAndAddToMempoolBuffer txs
  | .push => .ok m.pushMempoolBufferToMempool
  | .produceAndClean visits => do (← m.produce visits).clean
  | .clean => m.clean
  | .filter db visited => .ok (m.filter db visited)

end Mempool

/-! ### One chunk -/

namespace MempoolChunk

/-- The transactions whose own bit is set. -/
def marked (c : MempoolChunk) : List SignedTransaction :=
  ((c.txs.zip c.confirmedTxsToRemove).filter (·.2)).map (·.1)

/-- Bits are set only where the bitmap has a bit for each transaction. -/
def Aligned (c : MempoolChunk) : Prop :=
  true ∈ c.confirmedTxsToRemove → c.confirmedTxsToRemove.length = c.txs.length

theorem marked_of_noBit {c : MempoolChunk} (h : true ∉ c.confirmedTxsToRemove) : c.marked = [] := by
  rw [marked, List.map_eq_nil_iff, List.filter_eq_nil_iff]
  intro a ha hbit
  exact h (hbit ▸ (List.of_mem_zip ha).2)

/-- Without a set bit, the loop goes through the bitmap and changes nothing, whatever the lengths. -/
theorem removeConfirmedLoop_of_noBit {c : MempoolChunk} (h : true ∉ c.confirmedTxsToRemove)
    (fuel i : Nat) (numRemoved : UInt64) :
    removeConfirmedLoop fuel c i numRemoved = .ok (c, numRemoved) := by
  induction fuel generalizing i with
  | zero => rfl
  | succ fuel ih =>
    rw [removeConfirmedLoop]
    rcases hbit : c.confirmedTxsToRemove[i]? with _ | _ | _
    · rfl
    · exact ih (i + 1)
    · exact absurd (List.mem_of_getElem? hbit) h

/-- Where the bitmap is aligned, both vectors are changed as one vector of pairs. -/
theorem removeConfirmedLoop_zip (fuel : Nat) (pairs : List (SignedTransaction × Bool)) (i removed : Nat) :
    removeConfirmedLoop fuel ⟨pairs.map (·.1), pairs.map (·.2)⟩ i (.ofNat removed) =
      .ok (⟨(removeLoop (·.2) fuel pairs i removed).1.map (·.1),
        (removeLoop (·.2) fuel pairs i removed).1.map (·.2)⟩,
        .ofNat (removeLoop (·.2) fuel pairs i removed).2) := by
  induction fuel generalizing pairs i removed with
  | zero => rfl
  | succ fuel ih =>
    rw [removeConfirmedLoop, removeLoop, List.getElem?_map]
    by_cases hi : i < pairs.length
    · rw [dif_pos hi, List.getElem?_eq_getElem hi, Option.map_some]
      rcases hbit : pairs[i].2 with _ | _
      · rw [if_neg Bool.false_ne_true]
        exact ih pairs (i + 1) removed
      · have hsucc : UInt64.ofNat removed + 1 = .ofNat (removed + 1) := (UInt64.ofNat_add ..).symm
        simp only [List.length_map, if_true]
        rw [if_pos hi, ← map_swapRemove, ← map_swapRemove, hsucc]
        exact ih (swapRemove pairs i) i (removed + 1)
    · rw [dif_neg hi, List.getElem?_eq_none (Nat.le_of_not_lt hi)]
      rfl

/-- What `remove_confirmed_txs` does: each transaction whose own bit is set goes, and no other. -/
theorem removeConfirmedTxs_spec {c : MempoolChunk} (h : c.Aligned) : ∃ c',
    c.removeConfirmedTxs = .ok (c', .ofNat c.marked.length) ∧ true ∉ c'.confirmedTxsToRemove ∧
      (c.marked ++ c'.txs).Perm c.txs := by
  by_cases hbit : true ∈ c.confirmedTxsToRemove
  · have hlength := h hbit
    obtain ⟨kept, hloop, hkept⟩ := exists_removeLoop Prod.snd (c.txs.zip c.confirmedTxsToRemove)
    have hfst : (c.txs.zip c.confirmedTxsToRemove).map Prod.fst = c.txs :=
      List.map_fst_zip hlength.ge
    have hsnd : (c.txs.zip c.confirmedTxsToRemove).map Prod.snd = c.confirmedTxsToRemove :=
      List.map_snd_zip hlength.le
    have hzip := removeConfirmedLoop_zip (c.txs.zip c.confirmedTxsToRemove).length
      (c.txs.zip c.confirmedTxsToRemove) 0 0
    rw [hfst, hsnd, hloop, List.length_zip, hlength, Nat.min_self, ← hlength] at hzip
    refine ⟨⟨kept.map (·.1), kept.map (·.2)⟩, ?_, ?_, ?_⟩
    · rw [marked, List.length_map, ← List.countP_eq_length_filter]
      exact hzip
    · intro hmem
      obtain ⟨a, ha, hset⟩ := List.mem_map.mp hmem
      have hfilter := (List.mem_filter.mp (hkept.mem_iff.mp ha)).2
      rw [hset] at hfilter
      cases hfilter
    · have hsplit := (List.filter_append_perm Prod.snd (c.txs.zip c.confirmedTxsToRemove)).map Prod.fst
      rw [List.map_append, hfst] at hsplit
      exact ((hkept.map Prod.fst).append_left _).trans hsplit
  · refine ⟨c, ?_, hbit, ?_⟩
    · rw [marked_of_noBit hbit]
      exact removeConfirmedLoop_of_noBit hbit _ 0 0
    · rw [marked_of_noBit hbit]
      exact .refl _

/-- What `filter` does: exactly the transactions that the check rejects go. -/
theorem filter_spec (check : SignedTransaction → Bool) (c : MempoolChunk) :
    (c.filter check).2 = .ofNat (c.txs.filter check).length ∧
      (c.filter check).1.confirmedTxsToRemove = c.confirmedTxsToRemove ∧
      (c.txs.filter check ++ (c.filter check).1.txs).Perm c.txs := by
  obtain ⟨kept, hloop, hkept⟩ := exists_removeLoop check c.txs
  refine ⟨?_, rfl, ?_⟩
  · rw [filter, hloop, List.countP_eq_length_filter]
  · rw [filter, hloop]
    exact (hkept.append_left _).trans (List.filter_append_perm check c.txs)

end MempoolChunk

/-- The bitmap of a production has a bit for each transaction, so that it is taken. -/
theorem ChunkVisit.run_spec (v : ChunkVisit) {c : MempoolChunk} (h : true ∉ c.confirmedTxsToRemove) :
    ∃ c', v.run c = .ok c' ∧ c'.txs = c.txs ∧ c'.Aligned := by
  have hlength : (v.bitmap c).length = c.txs.length := by
    rw [ChunkVisit.bitmap, List.length_map, List.length_range, MempoolChunk.size]
  by_cases hspace : v.remainingSpace < c.size ∧ v.chunkSz c ≤ 0
  · exact ⟨c, if_pos hspace, rfl, fun hbit => absurd hbit h⟩
  · refine ⟨{ c with confirmedTxsToRemove := v.bitmap c }, ?_, rfl, fun _ => hlength⟩
    exact (if_neg hspace).trans (if_neg (not_not.mpr hlength))

/-! ### All chunks -/

namespace Mempool

/-- The transactions of some chunks. -/
def txsOf (chunks : List MempoolChunk) : Multiset SignedTransaction := chunks.flatMap (·.txs)

@[simp] theorem txsOf_nil : txsOf [] = 0 := rfl

theorem txsOf_cons (c : MempoolChunk) (chunks : List MempoolChunk) :
    txsOf (c :: chunks) = ↑c.txs + txsOf chunks := by
  rw [txsOf, List.flatMap_cons, ← Multiset.coe_add]
  rfl

theorem txsOf_append (chunks chunks' : List MempoolChunk) :
    txsOf (chunks ++ chunks') = txsOf chunks + txsOf chunks' := by
  rw [txsOf, List.flatMap_append, ← Multiset.coe_add]
  rfl

theorem txsOf_perm {chunks chunks' : List MempoolChunk} (h : chunks.Perm chunks') :
    txsOf chunks = txsOf chunks' :=
  Multiset.coe_eq_coe.mpr (h.flatMap_right _)

/-- The transactions of some chunks whose own bit is set. -/
def markedOf (chunks : List MempoolChunk) : Multiset SignedTransaction := chunks.flatMap (·.marked)

theorem markedOf_cons (c : MempoolChunk) (chunks : List MempoolChunk) :
    markedOf (c :: chunks) = ↑c.marked + markedOf chunks := by
  rw [markedOf, List.flatMap_cons, ← Multiset.coe_add]
  rfl

/-- No bit is set in any chunk. -/
def NoBits (chunks : List MempoolChunk) : Prop := ∀ c ∈ chunks, true ∉ c.confirmedTxsToRemove

theorem markedOf_of_noBits {chunks : List MempoolChunk} (h : NoBits chunks) : markedOf chunks = 0 := by
  induction chunks with
  | nil => rfl
  | cons c chunks ih =>
    rw [markedOf_cons, MempoolChunk.marked_of_noBit (h c List.mem_cons_self),
      ih fun c' hc' => h c' (List.mem_cons_of_mem c hc')]
    rfl

theorem ofNat_card_add (s t : Multiset SignedTransaction) :
    UInt64.ofNat (s + t).card = .ofNat s.card + .ofNat t.card := by
  rw [Multiset.card_add, UInt64.ofNat_add]

theorem removeConfirmedChunks_spec {chunks : List MempoolChunk} (h : ∀ c ∈ chunks, c.Aligned) :
    ∃ chunks', removeConfirmedChunks chunks = .ok (chunks', .ofNat (markedOf chunks).card) ∧
      NoBits chunks' ∧ markedOf chunks + txsOf chunks' = txsOf chunks := by
  induction chunks with
  | nil => exact ⟨[], rfl, fun c hc => absurd hc List.not_mem_nil, rfl⟩
  | cons c chunks ih =>
    obtain ⟨c', hc, hbits, hperm⟩ := MempoolChunk.removeConfirmedTxs_spec (h c List.mem_cons_self)
    obtain ⟨chunks', hchunks, hbits', htxs⟩ := ih fun c' hc' => h c' (List.mem_cons_of_mem c hc')
    refine ⟨c' :: chunks', ?_, ?_, ?_⟩
    · rw [removeConfirmedChunks, hc, ok_bind, hchunks, ok_bind, markedOf_cons, ofNat_card_add,
        Multiset.coe_card]
      rfl
    · exact List.forall_mem_cons.mpr ⟨hbits, hbits'⟩
    · rw [markedOf_cons, txsOf_cons, txsOf_cons, ← htxs, add_add_add_comm, Multiset.coe_add,
        Multiset.coe_eq_coe.mpr hperm]

theorem joinLoop_spec (targetChunkSize fuel : Nat) (chunks : List MempoolChunk) (i : Nat)
    (h : NoBits chunks) :
    txsOf (joinLoop targetChunkSize fuel chunks i) = txsOf chunks ∧
      NoBits (joinLoop targetChunkSize fuel chunks i) := by
  induction fuel generalizing chunks i with
  | zero => exact ⟨rfl, h⟩
  | succ fuel ih =>
    rw [joinLoop]
    by_cases hi : i + 1 < chunks.length
    · rw [dif_pos hi]
      split_ifs with hsmall
      · -- the chunks before the joined ones, the joined ones, and those after them
        obtain ⟨before, c, c', rest, rfl, rfl⟩ : ∃ before c c' rest,
            chunks = before ++ c :: c' :: rest ∧ i = before.length := by
          refine ⟨chunks.take i, chunks[i], chunks[i + 1], chunks.drop (i + 2), ?_, ?_⟩
          · rw [← List.drop_eq_getElem_cons hi, ← List.drop_eq_getElem_cons, List.take_append_drop]
          · rw [List.length_take]
            omega
        obtain ⟨rest', hswap, hperm⟩ := exists_swapRemove (before ++ [c.join c']) rest c'
        have hset : (before ++ c :: c' :: rest).set before.length (c.join c') =
            (before ++ [c.join c']) ++ c' :: rest := by simp
        have hlength : before.length + 1 = (before ++ [c.join c']).length := by simp
        have hjoined : NoBits (before ++ [c.join c'] ++ rest') := by
          intro a ha
          rcases List.mem_append.mp ha with ha | ha
          · rcases List.mem_append.mp ha with ha | ha
            · exact h a (List.mem_append_left _ ha)
            · rw [List.mem_singleton.mp ha]
              intro hbit
              rcases List.mem_append.mp hbit with hbit | hbit
              · exact h c (by simp) hbit
              · exact h c' (by simp) hbit
          · refine h a (List.mem_append_right _ (List.mem_cons_of_mem c (List.mem_cons_of_mem c' ?_)))
            exact hperm.mem_iff.mp ha
        have hc : (before ++ c :: c' :: rest)[before.length] = c := by simp
        have hc' : (before ++ c :: c' :: rest)[before.length + 1] = c' := by simp
        rw [hc, hc', hset, hlength, hswap]
        obtain ⟨htxs, hbits⟩ := ih _ before.length hjoined
        refine ⟨htxs.trans ?_, hbits⟩
        rw [txsOf_append, txsOf_append, txsOf_append, txsOf_perm hperm, txsOf_cons, txsOf_cons, txsOf_cons,
          txsOf_nil, MempoolChunk.join, ← Multiset.coe_add]
        simp only [add_zero, add_assoc]
      · exact ih chunks (i + 1) h
    · rw [dif_neg hi]
      exact ⟨rfl, h⟩

theorem produceChunks_spec (visits : Nat → Option ChunkVisit) (i : Nat) {chunks : List MempoolChunk}
    (h : NoBits chunks) : ∃ chunks', produceChunks visits i chunks = .ok chunks' ∧
      txsOf chunks' = txsOf chunks ∧ ∀ c ∈ chunks', c.Aligned := by
  induction chunks generalizing i with
  | nil => exact ⟨[], rfl, rfl, fun c hc => absurd hc List.not_mem_nil⟩
  | cons c chunks ih =>
    obtain ⟨hc, hchunks⟩ := List.forall_mem_cons.mp h
    obtain ⟨chunks', hproduce, htxs, haligned⟩ := ih (i + 1) hchunks
    have hvisit : ∃ c', c.visit (visits i) = .ok c' ∧ c'.txs = c.txs ∧ c'.Aligned := by
      cases visits i with
      | none => exact ⟨c, rfl, rfl, fun hbit => absurd hbit hc⟩
      | some v => exact v.run_spec hc
    obtain ⟨c', hc', hsame, haligned'⟩ := hvisit
    refine ⟨c' :: chunks', ?_, ?_, List.forall_mem_cons.mpr ⟨haligned', haligned⟩⟩
    · rw [produceChunks, hc', ok_bind, hproduce]
      rfl
    · rw [txsOf_cons, txsOf_cons, hsame, htxs]

/-- The transactions that the filter rejects, of the chunks that it comes to. -/
def rejectedOf (checkTransaction : SignedTransaction → Bool) (visited : Nat → Bool) :
    Nat → List MempoolChunk → Multiset SignedTransaction
  | _, [] => 0
  | i, c :: chunks => (if visited i then ↑(c.txs.filter checkTransaction) else 0) +
      rejectedOf checkTransaction visited (i + 1) chunks

theorem mem_rejectedOf {check : SignedTransaction → Bool} {visited : Nat → Bool} {i : Nat}
    {chunks : List MempoolChunk} {tx : SignedTransaction} (h : tx ∈ rejectedOf check visited i chunks) :
    check tx = true := by
  induction chunks generalizing i with
  | nil => cases h
  | cons c chunks ih =>
    rcases Multiset.mem_add.mp h with h | h
    · split_ifs at h
      · exact (List.mem_filter.mp h).2
      · cases h
    · exact ih h

theorem filterChunks_spec (check : SignedTransaction → Bool) (visited : Nat → Bool) (i : Nat)
    {chunks : List MempoolChunk} (h : NoBits chunks) :
    (filterChunks check visited i chunks).2 = .ofNat (rejectedOf check visited i chunks).card ∧
      NoBits (filterChunks check visited i chunks).1 ∧
      rejectedOf check visited i chunks + txsOf (filterChunks check visited i chunks).1 =
        txsOf chunks := by
  induction chunks generalizing i with
  | nil => exact ⟨rfl, fun c hc => absurd hc List.not_mem_nil, rfl⟩
  | cons c chunks ih =>
    obtain ⟨hc, hchunks⟩ := List.forall_mem_cons.mp h
    obtain ⟨hremoved, hbits, htxs⟩ := ih (i + 1) hchunks
    obtain ⟨hcount, hsame, hperm⟩ := c.filter_spec check
    rw [filterChunks, rejectedOf]
    by_cases hi : visited i
    · simp only [if_pos hi]
      refine ⟨?_, List.forall_mem_cons.mpr ⟨hsame ▸ hc, hbits⟩, ?_⟩
      · rw [hcount, hremoved, ofNat_card_add, Multiset.coe_card]
      · rw [txsOf_cons, txsOf_cons, ← htxs, add_add_add_comm, Multiset.coe_add,
          Multiset.coe_eq_coe.mpr hperm]
    · simp only [if_neg hi]
      refine ⟨?_, List.forall_mem_cons.mpr ⟨hc, hbits⟩, ?_⟩
      · rw [hremoved, UInt64.zero_add, zero_add]
      · rw [txsOf_cons, txsOf_cons, ← htxs, zero_add, add_left_comm]

/-! ### Splitting a batch into chunks -/

theorem flatMap_chunkOf (targetChunkSize : Nat) (txs : List SignedTransaction) (k : Nat) :
    (List.range k).flatMap (chunkOf targetChunkSize txs) = txs.take (k * targetChunkSize) := by
  induction k with
  | zero => simp
  | succ k ih =>
    rw [List.range_succ, List.flatMap_append, ih, List.flatMap_singleton, Nat.succ_mul, List.take_add]
    refine congrArg (txs.take (k * targetChunkSize) ++ ·) ?_
    rw [chunkOf, Nat.succ_mul]
    by_cases hle : k * targetChunkSize + targetChunkSize ≤ txs.length
    · rw [Nat.min_eq_right hle, Nat.add_sub_cancel_left]
    · rw [Nat.min_eq_left (Nat.le_of_not_le hle), List.take_of_length_le (by rw [List.length_drop]),
        List.take_of_length_le (by rw [List.length_drop]; omega)]

/-- The rounds of `chunkify_and_add_to_mempool_buffer` come to the end of the batch. -/
theorem flatMap_chunks {targetChunkSize : Nat} (h : targetChunkSize ≠ 0) (txs : List SignedTransaction) :
    (List.range (txs.length / targetChunkSize + 1)).flatMap (chunkOf targetChunkSize txs) = txs := by
  rw [flatMap_chunkOf, List.take_of_length_le]
  have := Nat.lt_mul_div_succ txs.length (Nat.pos_of_ne_zero h)
  rw [Nat.mul_comm]
  exact this.le

/-! ### Runs -/

/-- Between two operations no bit is set, and the sizes are those of the transactions held. -/
structure Consistent (m : Mempool) : Prop where
  noBits : NoBits m.mempool
  noBufferedBits : NoBits m.bufferedMempool
  mempoolSize : m.mempoolSize = .ofNat (txsOf m.mempool).card
  bufferSize : m.bufferSize = .ofNat (txsOf m.bufferedMempool).card

/-- What an operation may do to the transactions in the mempool and in its buffer. -/
def Accounted (m m' : Mempool) : MempoolOp → Prop
  | .chunkifyAndAdd txs => txsOf m'.mempool = txsOf m.mempool ∧
      txsOf m'.bufferedMempool = txsOf m.bufferedMempool + ↑txs
  | .push => ∃ moved, txsOf m'.mempool = txsOf m.mempool + moved ∧
      txsOf m.bufferedMempool = moved + txsOf m'.bufferedMempool
  | .produceAndClean visits => ∃ produced, m.produce visits = .ok produced ∧
      (∀ c ∈ produced.mempool, c.Aligned) ∧
      markedOf produced.mempool + txsOf m'.mempool = txsOf m.mempool ∧
      txsOf m'.bufferedMempool = txsOf m.bufferedMempool
  | .clean => txsOf m'.mempool = txsOf m.mempool ∧
      txsOf m'.bufferedMempool = txsOf m.bufferedMempool
  | .filter db visited => ∃ rejected, (∀ tx ∈ rejected, checkTransaction db tx = true) ∧
      rejected = rejectedOf (checkTransaction db) visited 0 m.mempool ∧
      rejected + txsOf m'.mempool = txsOf m.mempool ∧
      txsOf m'.bufferedMempool = txsOf m.bufferedMempool

variable {m m' : Mempool}

theorem consistent_new (targetChunkSize maxMempoolSize : Nat) :
    (new targetChunkSize maxMempoolSize).Consistent :=
  ⟨fun _ hc => absurd hc List.not_mem_nil, fun _ hc => absurd hc List.not_mem_nil, rfl, rfl⟩

theorem Consistent.addToMempoolBufferNolock (h : m.Consistent) (chunk : List SignedTransaction) :
    (m.addToMempoolBufferNolock chunk).Consistent := by
  refine ⟨h.noBits, ?_, h.mempoolSize, ?_⟩
  · intro c hc
    rcases List.mem_append.mp hc with hc | hc
    · exact h.noBufferedBits c hc
    · rw [List.mem_singleton.mp hc]
      exact List.not_mem_nil
  · rw [Mempool.addToMempoolBufferNolock, txsOf_append, ofNat_card_add, h.bufferSize, txsOf_cons,
      txsOf_nil, add_zero, Multiset.coe_card]

theorem foldl_addToMempoolBufferNolock (h : m.Consistent) (chunks : List (List SignedTransaction)) :
    let m' := chunks.foldl addToMempoolBufferNolock m
    m'.Consistent ∧ m'.targetChunkSize = m.targetChunkSize ∧ m'.mempool = m.mempool ∧
      txsOf m'.bufferedMempool = txsOf m.bufferedMempool + ↑chunks.flatten := by
  induction chunks generalizing m with
  | nil => exact ⟨h, rfl, rfl, (add_zero _).symm⟩
  | cons chunk chunks ih =>
    obtain ⟨hconsistent, htarget, hmempool, htxs⟩ := ih (h.addToMempoolBufferNolock chunk)
    refine ⟨hconsistent, htarget, hmempool, htxs.trans ?_⟩
    rw [Mempool.addToMempoolBufferNolock, txsOf_append, txsOf_cons, txsOf_nil, add_zero, add_assoc,
      Multiset.coe_add, List.flatten_cons]

theorem Consistent.pushLoop (h : m.Consistent) {buffer : List MempoolChunk}
    (hbuffer : m.bufferedMempool = buffer) :
    (pushLoop buffer m).Consistent ∧ (Mempool.pushLoop buffer m).targetChunkSize = m.targetChunkSize ∧
      Accounted m (Mempool.pushLoop buffer m) .push := by
  induction buffer generalizing m with
  | nil => exact ⟨h, rfl, 0, (add_zero _).symm, (zero_add _).symm⟩
  | cons front rest ih =>
    set moved : Mempool := { m with
      mempoolSize := m.mempoolSize + .ofNat front.size
      bufferSize := m.bufferSize - .ofNat front.size
      mempool := m.mempool ++ [front]
      bufferedMempool := rest } with hmoved
    have hbits : NoBits (front :: rest) := hbuffer ▸ h.noBufferedBits
    have hconsistent : moved.Consistent := by
      refine ⟨?_, fun c hc => hbits c (List.mem_cons_of_mem front hc), ?_, ?_⟩
      · intro c hc
        rcases List.mem_append.mp hc with hc | hc
        · exact h.noBits c hc
        · rw [List.mem_singleton.mp hc]
          exact hbits front List.mem_cons_self
      · rw [hmoved, txsOf_append, ofNat_card_add, h.mempoolSize, txsOf_cons, txsOf_nil, add_zero]
        rfl
      · rw [hmoved]
        dsimp only
        rw [h.bufferSize, hbuffer, txsOf_cons, ofNat_card_add, UInt64.add_comm]
        exact UInt64.add_sub_cancel _ _
    have hmempool : txsOf moved.mempool = txsOf m.mempool + ↑front.txs := by
      rw [hmoved, txsOf_append, txsOf_cons, txsOf_nil, add_zero]
    have hrest : txsOf m.bufferedMempool = ↑front.txs + txsOf moved.bufferedMempool := by
      rw [hbuffer, txsOf_cons]
    rw [Mempool.pushLoop]
    dsimp only
    by_cases hfull : m.maxMempoolSize < m.mempoolSize.toNat
    · rw [if_pos hfull]
      exact ⟨hconsistent, rfl, ↑front.txs, hmempool, hrest⟩
    · rw [if_neg hfull]
      obtain ⟨hrun, htarget, moved', hmempool', hrest'⟩ := ih hconsistent rfl
      refine ⟨hrun, htarget, ↑front.txs + moved', ?_, ?_⟩
      · rw [hmempool', hmempool, add_assoc]
      · rw [hrest, hrest', add_assoc]

/-- Cleaning takes out what is marked in an aligned mempool. -/
theorem clean_spec (haligned : ∀ c ∈ m.mempool, c.Aligned) (hbuffered : NoBits m.bufferedMempool)
    (hmempoolSize : m.mempoolSize = .ofNat (txsOf m.mempool).card)
    (hbufferSize : m.bufferSize = .ofNat (txsOf m.bufferedMempool).card) :
    ∃ m', m.clean = .ok m' ∧ m'.Consistent ∧ markedOf m.mempool + txsOf m'.mempool = txsOf m.mempool ∧
      txsOf m'.bufferedMempool = txsOf m.bufferedMempool ∧ m'.targetChunkSize = m.targetChunkSize := by
  obtain ⟨chunks, hremove, hbits, htxs⟩ := removeConfirmedChunks_spec haligned
  obtain ⟨hjoined, hjoinedBits⟩ := joinLoop_spec m.targetChunkSize chunks.length chunks 0 hbits
  refine ⟨_, bind_eq_ok.mpr ⟨_, bind_eq_ok.mpr ⟨_, hremove, rfl⟩, rfl⟩,
    ⟨hjoinedBits, hbuffered, ?_, hbufferSize⟩, ?_, rfl, rfl⟩
  · rw [joinSmallChunks, hjoined, hmempoolSize, ← htxs, ofNat_card_add, UInt64.add_comm]
    exact UInt64.add_sub_cancel _ _
  · rw [joinSmallChunks, hjoined, htxs]

/-- A batch goes to the buffer, in chunks. -/
theorem Consistent.chunkify (h : m.Consistent) (txs : List SignedTransaction) (ht : m.targetChunkSize ≠ 0) :
    ∃ m', m.operate (.chunkifyAndAdd txs) = .ok m' ∧ m'.Consistent ∧
      m'.targetChunkSize = m.targetChunkSize ∧ Accounted m m' (.chunkifyAndAdd txs) := by
  obtain ⟨hconsistent, htarget, hmempool, htxs⟩ := foldl_addToMempoolBufferNolock h
    ((List.range (txs.length / m.targetChunkSize + 1)).map (chunkOf m.targetChunkSize txs))
  rw [List.foldl_map] at hconsistent htarget hmempool htxs
  refine ⟨_, if_neg ht, hconsistent, htarget, congrArg txsOf hmempool, htxs.trans ?_⟩
  rw [← List.flatMap_def, flatMap_chunks ht]

/-- A block's production marks transactions, and the cleaning takes these out. -/
theorem Consistent.produceAndClean (h : m.Consistent) (visits : Nat → Option ChunkVisit) :
    ∃ m', m.operate (.produceAndClean visits) = .ok m' ∧ m'.Consistent ∧
      m'.targetChunkSize = m.targetChunkSize ∧ Accounted m m' (.produceAndClean visits) := by
  obtain ⟨chunks, hproduce, htxs, haligned⟩ := produceChunks_spec visits 0 h.noBits
  have hproduced : m.produce visits = .ok { m with mempool := chunks } :=
    bind_eq_ok.mpr ⟨chunks, hproduce, rfl⟩
  have hsize : m.mempoolSize = .ofNat (txsOf chunks).card := htxs ▸ h.mempoolSize
  have hclean := @clean_spec { m with mempool := chunks } haligned h.noBufferedBits hsize h.bufferSize
  obtain ⟨m', hclean, hconsistent, hmarked, hbuffered, htarget⟩ := hclean
  exact ⟨m', bind_eq_ok.mpr ⟨_, hproduced, hclean⟩, hconsistent, htarget, _, hproduced, haligned,
    hmarked.trans htxs, hbuffered⟩

/-- Without a production before it, the cleaning takes nothing out. -/
theorem Consistent.clean (h : m.Consistent) : ∃ m', m.operate .clean = .ok m' ∧ m'.Consistent ∧
    m'.targetChunkSize = m.targetChunkSize ∧ Accounted m m' .clean := by
  have haligned : ∀ c ∈ m.mempool, c.Aligned := fun c hc hbit => absurd hbit (h.noBits c hc)
  obtain ⟨m', hclean, hconsistent, hmarked, hbuffered, htarget⟩ :=
    clean_spec haligned h.noBufferedBits h.mempoolSize h.bufferSize
  rw [markedOf_of_noBits h.noBits, zero_add] at hmarked
  exact ⟨m', hclean, hconsistent, htarget, hmarked, hbuffered⟩

/-- The filter takes out what it rejects. -/
theorem Consistent.filter (h : m.Consistent) (db : MemoryDatabase) (visited : Nat → Bool) :
    (m.filter db visited).Consistent ∧ (m.filter db visited).targetChunkSize = m.targetChunkSize ∧
      Accounted m (m.filter db visited) (.filter db visited) := by
  obtain ⟨hremoved, hbits, htxs⟩ := filterChunks_spec (checkTransaction db) visited 0 h.noBits
  refine ⟨⟨hbits, h.noBufferedBits, ?_, h.bufferSize⟩, rfl, _, fun tx htx => mem_rejectedOf htx, rfl,
    htxs, rfl⟩
  rw [Mempool.filter, hremoved, h.mempoolSize, ← htxs, ofNat_card_add, UInt64.add_comm]
  exact UInt64.add_sub_cancel _ _

/-- One operation: it fails only where a batch cannot be split, and accounts for every
transaction. -/
theorem operate_spec (h : m.Consistent) (op : MempoolOp) :
    (∃ m', m.operate op = .ok m' ∧ m'.Consistent ∧ m'.targetChunkSize = m.targetChunkSize ∧
      Accounted m m' op) ∨
    (m.targetChunkSize = 0 ∧ m.operate op = .error .divisionByZero) := by
  cases op with
  | chunkifyAndAdd txs =>
    by_cases ht : m.targetChunkSize = 0
    · exact .inr ⟨ht, if_pos ht⟩
    · exact .inl (h.chunkify txs ht)
  | push => exact .inl ⟨_, rfl, h.pushLoop rfl⟩
  | produceAndClean visits => exact .inl (h.produceAndClean visits)
  | clean => exact .inl h.clean
  | filter db visited => exact .inl ⟨_, rfl, h.filter db visited⟩

/-- Operations one after the other, from an empty mempool. -/
def run (targetChunkSize maxMempoolSize : Nat) (ops : List MempoolOp) : Result Mempool :=
  ops.foldlM operate (new targetChunkSize maxMempoolSize)

theorem consistent_of_run {targetChunkSize maxMempoolSize : Nat} {ops : List MempoolOp}
    (hrun : run targetChunkSize maxMempoolSize ops = .ok m) :
    m.Consistent ∧ m.targetChunkSize = targetChunkSize := by
  have hstep (ops : List MempoolOp) (m m' : Mempool) (h : m.Consistent)
      (hops : ops.foldlM operate m = .ok m') :
      m'.Consistent ∧ m'.targetChunkSize = m.targetChunkSize := by
    induction ops generalizing m with
    | nil =>
      cases hops
      exact ⟨h, rfl⟩
    | cons op ops ih =>
      rw [List.foldlM_cons] at hops
      rcases operate_spec h op with ⟨m₁, hm₁, hconsistent, htarget, -⟩ | ⟨-, herror⟩
      · rw [hm₁] at hops
        obtain ⟨hrest, htarget'⟩ := ih m₁ hconsistent hops
        exact ⟨hrest, htarget'.trans htarget⟩
      · rw [herror] at hops
        cases hops
  exact hstep ops _ m (consistent_new _ _) hrun

/-- The mempool neither loses nor duplicates transactions.  After any run, no bit is set, the sizes
are exact, and the next operation accounts for every transaction; with chunks of a positive size it
does not fail. -/
theorem accounted_of_run (targetChunkSize maxMempoolSize : Nat) (ops : List MempoolOp) (m : Mempool)
    (hrun : run targetChunkSize maxMempoolSize ops = .ok m) :
    m.Consistent ∧ ∀ op, (∀ m', m.operate op = .ok m' → Accounted m m' op) ∧
      (targetChunkSize ≠ 0 → ∃ m', m.operate op = .ok m') := by
  obtain ⟨hconsistent, htarget⟩ := consistent_of_run hrun
  refine ⟨hconsistent, fun op => ?_⟩
  rcases operate_spec hconsistent op with ⟨m₁, hm₁, -, -, haccounted⟩ | ⟨hzero, herror⟩
  · refine ⟨fun m' hm' => ?_, fun _ => ⟨m₁, hm₁⟩⟩
    rw [hm₁] at hm'
    cases hm'
    exact haccounted
  · refine ⟨fun m' hm' => ?_, fun ht => absurd (htarget.symm.trans hzero) ht⟩
    rw [herror] at hm'
    cases hm'

/-- A batch of two transactions of account 7. -/
def batch : List SignedTransaction :=
  [⟨⟨⟨7, 256⟩, [], Nat.zero_le _, 0⟩, 0⟩, ⟨⟨⟨7, 512⟩, [], Nat.zero_le _, 0⟩, 0⟩]

/-- The first of them has succeeded in a block that had no space for the second. -/
theorem accounted_of_run_batch : ∃ m, run 10 100 [.chunkifyAndAdd batch, .push] = .ok m ∧
    ∃ m', m.operate (.produceAndClean fun _ => some ⟨1, fun _ => .SUCCESS⟩) = .ok m' ∧
      Accounted m m' (.produceAndClean fun _ => some ⟨1, fun _ => .SUCCESS⟩) := by
  obtain ⟨-, h⟩ := accounted_of_run 10 100 [.chunkifyAndAdd batch, .push] _ rfl
  obtain ⟨haccounted, hreturns⟩ := h (.produceAndClean fun _ => some ⟨1, fun _ => .SUCCESS⟩)
  obtain ⟨m', hm'⟩ := hreturns (by decide)
  exact ⟨_, rfl, m', hm', haccounted m' hm'⟩

end Mempool

end Speedex
