import Speedex.Modlog
import Speedex.Database.SequenceTracker

/-! The log whose entries are ordered sets (`modlog/account_modification_entry.cc`, and the
`AccountModificationEntry` side of `modlog/log_entry_fns.h`), and the block that is accumulated from
it.  Workers log to tries of their own, which are merged when the block is complete. -/

namespace Speedex

open Lib

instance : Inhabited SignedTransaction := ⟨⟨⟨⟨0, 0⟩, [], Nat.zero_le _, 0⟩, default⟩⟩

/-- `AccountModificationEntry`.  `TxComparator` orders `new_transactions_self` by the sequence
number alone. -/
structure AccountModificationEntry where
  owner : Option AccountID
  identifiersSelf : Finset UInt64
  identifiersOther : Finset TxIdentifier
  newTransactionsSelf : SortedMap UInt64 SignedTransaction
deriving DecidableEq

/-- The number of transactions below a node of the trie. -/
structure TxCountMetadata where
  numTxs : Int32
deriving DecidableEq

namespace AccountModificationEntry

/-- `LogEntryInsertFn::new_value`. -/
def newValue (account : AccountID) : AccountModificationEntry := ⟨some account, ∅, ∅, ∅⟩

def addIdentifierSelf (e : AccountModificationEntry) (id : UInt64) : AccountModificationEntry :=
  { e with identifiersSelf := insert id e.identifiersSelf }

def addIdentifierOther (e : AccountModificationEntry) (id : TxIdentifier) : AccountModificationEntry :=
  { e with identifiersOther := insert id e.identifiersOther }

/-- `add_tx_self`: a set keeps the element that it has. -/
def addTxSelf (e : AccountModificationEntry) (tx : SignedTransaction) : AccountModificationEntry :=
  if e.newTransactionsSelf.contains tx.sequenceNumber then e
  else { e with newTransactionsSelf := e.newTransactionsSelf.insert tx.sequenceNumber tx }

/-- `merge_value`, with what is left of the other entry: `std::set::merge` moves the elements that
the set does not have. -/
def mergeValue (e other : AccountModificationEntry) :
    Result (AccountModificationEntry × AccountModificationEntry) :=
  let left := other.newTransactionsSelf.filter fun n _ => e.newTransactionsSelf.contains n
  if e.owner ≠ other.owner then .error (.runtimeError "log entry merge_value owner mismatch")
  else if left.size ≠ 0 then
    .error (.runtimeError "seqno error: tx showed up in multiple values")
  else .ok (⟨e.owner, e.identifiersSelf ∪ other.identifiersSelf,
      e.identifiersOther ∪ other.identifiersOther,
      other.newTransactionsSelf.union e.newTransactionsSelf⟩,
    ⟨other.owner, e.identifiersSelf ∩ other.identifiersSelf,
      e.identifiersOther ∩ other.identifiersOther, left⟩)

end AccountModificationEntry

namespace TxCountMetadata

def zero : TxCountMetadata := ⟨0⟩

def add (a b : TxCountMetadata) : TxCountMetadata := ⟨a.numTxs + b.numTxs⟩

def fromValue (e : AccountModificationEntry) : TxCountMetadata :=
  ⟨.ofNat e.newTransactionsSelf.size⟩

/-- `size_increment` and `vector_size`: the count, as a `size_t`. -/
def sizeIncrement (m : TxCountMetadata) : Nat := m.numTxs.toInt64.toUInt64.toNat

end TxCountMetadata

/-- `LogMergeFn::value_merge_recyclingimpl`: the merged entry, and what to add to its metadata. -/
def logMergeFn (original mergeIn : AccountModificationEntry) :
    Result (AccountModificationEntry × TxCountMetadata) := do
  let out := TxCountMetadata.fromValue mergeIn
  let (original, mergeIn) ← original.mergeValue mergeIn
  if (TxCountMetadata.fromValue mergeIn).numTxs > 0 then
    throw (.runtimeError "tx duplicated in tree")
  else return (original, out)

/-- A worker's log. -/
abbrev SerialLog := SortedMap AccountID AccountModificationEntry

namespace SerialLog

/-- `LogEntryInsertFn`: insert into the entry of an account, which is new if it has none. -/
def valueInsert (log : SerialLog) (account : AccountID)
    (f : AccountModificationEntry → AccountModificationEntry) : SerialLog :=
  log.insert account (f ((log.find? account).getD (.newValue account)))

def logSelfModification (log : SerialLog) (owner : AccountID) (sequenceNumber : UInt64) : SerialLog :=
  log.valueInsert owner (·.addIdentifierSelf sequenceNumber)

def logOtherModification (log : SerialLog) (txOwner : AccountID) (sequenceNumber : UInt64)
    (modifiedAccount : AccountID) : SerialLog :=
  log.valueInsert modifiedAccount (·.addIdentifierOther ⟨txOwner, sequenceNumber⟩)

def logNewSelfTransaction (log : SerialLog) (tx : SignedTransaction) : SerialLog :=
  log.valueInsert tx.source (·.addTxSelf tx)

end SerialLog

/-- The merged log, with the metadata of every key. -/
abbrev EntryLog := SortedMap AccountID (AccountModificationEntry × TxCountMetadata)

namespace EntryLog

/-- One entry of a serial log is merged. -/
def mergeEntry (m : EntryLog) (a : AccountID × AccountModificationEntry) : Result EntryLog :=
  match m.find? a.1 with
  | none => .ok (m.insert a.1 (a.2, .fromValue a.2))
  | some (original, metadata) => do
    let (merged, delta) ← logMergeFn original a.2
    return m.insert a.1 (merged, metadata.add delta)

/-- One serial log is merged. -/
def mergeIn (m : EntryLog) (log : SerialLog) : Result EntryLog := log.entries.foldlM mergeEntry m

/-- `merge_in_log_batch`, with the serial logs of the cache in some order. -/
def mergeInLogBatch (cache : List SerialLog) : Result EntryLog := cache.foldlM mergeIn ∅

/-- The body of the loop of `EntryAccumulateValuesFn::accumulate`. -/
def writeTx (acc : List SignedTransaction × Nat) (tx : SignedTransaction) :
    Result (List SignedTransaction × Nat) :=
  if acc.2 < acc.1.length then .ok (acc.1.set acc.2 tx, acc.2 + 1) else .error .indexOutOfRange

/-- `EntryAccumulateValuesFn::accumulate`. -/
def accumulate (vector : List SignedTransaction) (vectorOffset : Nat) (value : AccountModificationEntry) :
    Result (List SignedTransaction) := do
  let (vector, _) ← value.newTransactionsSelf.values.foldlM writeTx (vector, vectorOffset)
  return vector

/-- One key: the next one writes from where its increment ends. -/
def accumulateKey (acc : List SignedTransaction × Nat) (a : AccountModificationEntry × TxCountMetadata) :
    Result (List SignedTransaction × Nat) := do
  let vector ← accumulate acc.1 acc.2 a.1
  return (vector, acc.2 + a.2.sizeIncrement)

/-- `accumulate_values_parallel`: the vector has the size of the root's metadata, and each key writes
from the sum of the increments of the smaller keys. -/
def accumulateValues (m : EntryLog) : Result (List SignedTransaction) := do
  let root := m.values.foldl (fun acc a => acc.add a.2) TxCountMetadata.zero
  let (vector, _) ← m.values.foldlM accumulateKey (List.replicate root.sizeIncrement default, 0)
  return vector

end EntryLog

/-! ### What a log holds -/

namespace SerialLog

/-- The transaction of an account with this sequence number. -/
def txAt (log : SerialLog) (account : AccountID) (n : UInt64) : Option SignedTransaction :=
  (log.find? account).bind (·.newTransactionsSelf.find? n)

/-- Every entry has its owner, and every transaction stands at its own account and number. -/
structure WellFormed (log : SerialLog) : Prop where
  owners : ∀ account e, log.find? account = some e → e.owner = some account
  txs : ∀ account n tx, log.txAt account n = some tx → tx.source = account ∧ tx.sequenceNumber = n

variable {log : SerialLog}

theorem wellFormed_empty : WellFormed ∅ := by
  constructor
  · intro account e h
    simp at h
  · intro account n tx h
    simp [txAt] at h

/-- Identifiers are logged. -/
theorem valueInsert_identifiers (h : log.WellFormed) (account : AccountID)
    {f : AccountModificationEntry → AccountModificationEntry} (howner : ∀ e, (f e).owner = e.owner)
    (htxs : ∀ e, (f e).newTransactionsSelf = e.newTransactionsSelf) :
    (log.valueInsert account f).WellFormed ∧ (log.valueInsert account f).txAt = log.txAt := by
  have hsame : (log.valueInsert account f).txAt = log.txAt := by
    funext account' n
    unfold txAt valueInsert
    rw [SortedMap.find?_insert]
    split_ifs with heq
    · subst heq
      rw [Option.bind_some, htxs]
      cases hfind : log.find? account with
      | none => rfl
      | some e => rfl
    · rfl
  refine ⟨⟨fun account' e he => ?_, ?_⟩, hsame⟩
  · unfold valueInsert at he
    rw [SortedMap.find?_insert] at he
    split_ifs at he with heq
    · subst heq
      cases he
      rw [howner]
      cases hfind : log.find? account with
      | none => rfl
      | some e => exact h.owners account e hfind
    · exact h.owners account' e he
  · rw [hsame]
    exact h.txs

/-- A transaction is logged, with a number that its account has not used. -/
theorem logNewSelfTransaction_spec (h : log.WellFormed) {tx : SignedTransaction}
    (hnew : log.txAt tx.source tx.sequenceNumber = none) :
    (log.logNewSelfTransaction tx).WellFormed ∧ ∀ account n,
      (log.logNewSelfTransaction tx).txAt account n =
        if tx.source = account ∧ tx.sequenceNumber = n then some tx else log.txAt account n := by
  set e := (log.find? tx.source).getD (.newValue tx.source) with he
  have hentry : ∀ n, e.newTransactionsSelf.find? n = log.txAt tx.source n := by
    intro n
    rw [he, txAt]
    cases log.find? tx.source with
    | none => rfl
    | some e => rfl
  have howner : e.owner = some tx.source := by
    rw [he]
    cases hfind : log.find? tx.source with
    | none => rfl
    | some e => exact h.owners _ e hfind
  have hadd : e.addTxSelf tx =
      { e with newTransactionsSelf := e.newTransactionsSelf.insert tx.sequenceNumber tx } := by
    refine if_neg ?_
    rw [SortedMap.contains, hentry, hnew]
    exact Bool.false_ne_true
  have htxAt : ∀ account n, (log.logNewSelfTransaction tx).txAt account n =
      if tx.source = account ∧ tx.sequenceNumber = n then some tx else log.txAt account n := by
    intro account n
    rw [txAt, logNewSelfTransaction, valueInsert, ← he, hadd, SortedMap.find?_insert]
    by_cases haccount : tx.source = account
    · subst haccount
      rw [if_pos rfl, Option.bind_some, SortedMap.find?_insert, hentry]
      simp only [true_and]
    · rw [if_neg haccount, if_neg fun h => haccount h.1]
      rfl
  refine ⟨⟨fun account e' he' => ?_, fun account n tx' htx' => ?_⟩, htxAt⟩
  · rw [logNewSelfTransaction, valueInsert, ← he, hadd, SortedMap.find?_insert] at he'
    split_ifs at he' with heq
    · subst heq
      cases he'
      exact howner
    · exact h.owners account e' he'
  · rw [htxAt] at htx'
    split_ifs at htx' with heq
    · cases htx'
      exact heq
    · exact h.txs account n tx' htx'

/-- No account has used a sequence number in both logs. -/
def Disjoint (log log' : SerialLog) : Prop :=
  ∀ account n, log.txAt account n ≠ none → log'.txAt account n = none

theorem Disjoint.symm {log' : SerialLog} (h : log.Disjoint log') : log'.Disjoint log := by
  intro account n hsome
  by_contra hne
  exact hsome (h account n hne)

end SerialLog

/-! ### Merging -/

/-- Entries of one owner without a common number are merged, and no transaction is left over. -/
theorem AccountModificationEntry.mergeValue_eq {e other : AccountModificationEntry}
    (howner : e.owner = other.owner) (hdisjoint : ∀ n,
      e.newTransactionsSelf.find? n ≠ none → other.newTransactionsSelf.find? n = none) :
    e.mergeValue other = .ok (⟨e.owner, e.identifiersSelf ∪ other.identifiersSelf,
        e.identifiersOther ∪ other.identifiersOther,
        other.newTransactionsSelf.union e.newTransactionsSelf⟩,
      ⟨other.owner, e.identifiersSelf ∩ other.identifiersSelf,
        e.identifiersOther ∩ other.identifiersOther, ∅⟩) := by
  have hleft : other.newTransactionsSelf.filter
      (fun n _ => e.newTransactionsSelf.contains n) = ∅ := by
    refine SortedMap.ext_find fun n => ?_
    rw [SortedMap.find?_filter, SortedMap.find?_empty, Option.filter_eq_none_iff]
    intro tx htx hcontains
    rw [SortedMap.contains, Option.isSome_iff_ne_none] at hcontains
    rw [hdisjoint n hcontains] at htx
    cases htx
  rw [mergeValue, hleft]
  exact (if_neg (not_not.mpr howner)).trans (if_neg (not_not.mpr rfl))

/-- The counts of the merged entries add up. -/
theorem logMergeFn_spec {original mergeIn : AccountModificationEntry}
    (howner : original.owner = mergeIn.owner) (hdisjoint : ∀ n,
      original.newTransactionsSelf.find? n ≠ none → mergeIn.newTransactionsSelf.find? n = none) :
    ∃ merged, logMergeFn original mergeIn = .ok (merged, .fromValue mergeIn) ∧
      merged.owner = original.owner ∧
      TxCountMetadata.fromValue merged = (TxCountMetadata.fromValue original).add (.fromValue mergeIn) ∧
      ∀ n, merged.newTransactionsSelf.find? n =
        (original.newTransactionsSelf.find? n).or (mergeIn.newTransactionsSelf.find? n) := by
  have hsize : (mergeIn.newTransactionsSelf.union original.newTransactionsSelf).size =
      original.newTransactionsSelf.size + mergeIn.newTransactionsSelf.size := by
    refine SortedMap.size_union fun n hne => ?_
    by_contra hsome
    exact hne (hdisjoint n hsome)
  refine ⟨_, bind_eq_ok.mpr ⟨_, AccountModificationEntry.mergeValue_eq howner hdisjoint, rfl⟩, rfl,
    ?_, fun n => SortedMap.find?_union _ _ n⟩
  simp only [TxCountMetadata.fromValue, TxCountMetadata.add, hsize, Int32.ofNat_add]

namespace EntryLog

variable {m : EntryLog}

def txAt (m : EntryLog) (account : AccountID) (n : UInt64) : Option SignedTransaction :=
  (m.find? account).bind (·.1.newTransactionsSelf.find? n)

/-- Every entry has its owner, and its metadata is its number of transactions. -/
structure WellFormed (m : EntryLog) : Prop where
  owners : ∀ account a, m.find? account = some a → a.1.owner = some account
  counts : ∀ account a, m.find? account = some a → a.2 = .fromValue a.1

theorem wellFormed_empty : WellFormed ∅ := by
  constructor
  · intro account a h
    simp at h
  · intro account a h
    simp at h

theorem WellFormed.insert (h : m.WellFormed) {account : AccountID} {e : AccountModificationEntry}
    {metadata : TxCountMetadata} (howner : e.owner = some account)
    (hcount : metadata = .fromValue e) : WellFormed (m.insert account (e, metadata)) := by
  constructor
  · intro account' a ha
    rw [SortedMap.find?_insert] at ha
    split_ifs at ha with heq
    · cases ha
      exact heq ▸ howner
    · exact h.owners account' a ha
  · intro account' a ha
    rw [SortedMap.find?_insert] at ha
    split_ifs at ha with heq
    · cases ha
      exact hcount
    · exact h.counts account' a ha

/-- One entry is merged. -/
theorem mergeEntry_spec (h : m.WellFormed) {account : AccountID} {e : AccountModificationEntry}
    (howner : e.owner = some account)
    (hdisjoint : ∀ n, m.txAt account n ≠ none → e.newTransactionsSelf.find? n = none) :
    ∃ m', mergeEntry m (account, e) = .ok m' ∧ m'.WellFormed ∧ ∀ account' n, m'.txAt account' n =
      if account = account' then (m.txAt account n).or (e.newTransactionsSelf.find? n)
      else m.txAt account' n := by
  have hinsert : ∀ (e' : AccountModificationEntry) (metadata : TxCountMetadata) account' n,
      txAt (m.insert account (e', metadata)) account' n =
        if account = account' then e'.newTransactionsSelf.find? n else m.txAt account' n := by
    intro e' metadata account' n
    rw [txAt, SortedMap.find?_insert]
    split_ifs
    · rfl
    · rfl
  cases hfind : m.find? account with
  | none =>
    have hnone : ∀ n, m.txAt account n = none := fun n => by
      rw [txAt, hfind]
      rfl
    refine ⟨m.insert account (e, .fromValue e), ?_, h.insert howner rfl, fun account' n => ?_⟩
    · unfold mergeEntry
      rw [hfind]
    · rw [hinsert, hnone, Option.none_or]
  | some a =>
    obtain ⟨original, metadata⟩ := a
    have htxAt : ∀ n, m.txAt account n = original.newTransactionsSelf.find? n := fun n => by
      rw [txAt, hfind]
      rfl
    have horiginal := h.owners account _ hfind
    obtain ⟨merged, hmerge, howner', hcount, htxs⟩ := logMergeFn_spec (horiginal.trans howner.symm)
      fun n hn => hdisjoint n (by rwa [htxAt])
    have hmetadata : metadata = .fromValue original := h.counts account _ hfind
    refine ⟨m.insert account (merged, metadata.add (.fromValue e)), ?_,
      h.insert (howner'.trans horiginal) ?_, fun account' n => ?_⟩
    · unfold mergeEntry
      rw [hfind]
      exact bind_eq_ok.mpr ⟨_, hmerge, rfl⟩
    · rw [hcount, hmetadata]
    · rw [hinsert, htxs, htxAt]

/-- The entries of a serial log are merged. -/
theorem foldlM_mergeEntry {l : List (AccountID × AccountModificationEntry)} (hm : m.WellFormed)
    (hnodup : (l.map (·.1)).Nodup) (howners : ∀ a ∈ l, a.2.owner = some a.1)
    (hdisjoint : ∀ account n, m.txAt account n ≠ none →
      ((SortedMap.lookup account l).bind (·.newTransactionsSelf.find? n)) = none) :
    ∃ m', l.foldlM mergeEntry m = .ok m' ∧ m'.WellFormed ∧ ∀ account n, m'.txAt account n =
      (m.txAt account n).or ((SortedMap.lookup account l).bind (·.newTransactionsSelf.find? n)) := by
  induction l generalizing m with
  | nil => exact ⟨m, rfl, hm, fun account n => by simp [SortedMap.lookup]⟩
  | cons a l ih =>
    obtain ⟨account, e⟩ := a
    rw [List.map_cons, List.nodup_cons] at hnodup
    -- the account of this entry has no other in the log
    have hlast : SortedMap.lookup account l = none := by
      by_contra hsome
      obtain ⟨e', he'⟩ := Option.ne_none_iff_exists'.mp hsome
      exact hnodup.1 (List.mem_map.mpr ⟨(account, e'), SortedMap.mem_of_lookup he', rfl⟩)
    obtain ⟨m₁, hone, hm₁, htxs₁⟩ := mergeEntry_spec hm (howners _ List.mem_cons_self) fun n hn => by
      simpa [SortedMap.lookup] using hdisjoint account n hn
    obtain ⟨m', hfold, hm', htxs'⟩ := ih hm₁ hnodup.2
      (fun b hb => howners b (List.mem_cons_of_mem _ hb)) fun account' n hn => by
        rw [htxs₁] at hn
        split_ifs at hn with heq
        · rw [← heq, hlast]
          rfl
        · have := hdisjoint account' n hn
          rwa [SortedMap.lookup, if_neg heq] at this
    refine ⟨m', foldlM_cons.mpr ⟨m₁, hone, hfold⟩, hm', fun account' n => ?_⟩
    rw [htxs', htxs₁, SortedMap.lookup]
    split_ifs with heq
    · subst heq
      rw [hlast, Option.bind_none, Option.or_none]
      rfl
    · rfl

theorem mergeIn_spec (hm : m.WellFormed) {log : SerialLog} (hlog : log.WellFormed)
    (hdisjoint : ∀ account n, m.txAt account n ≠ none → log.txAt account n = none) :
    ∃ m', mergeIn m log = .ok m' ∧ m'.WellFormed ∧
      ∀ account n, m'.txAt account n = (m.txAt account n).or (log.txAt account n) :=
  foldlM_mergeEntry hm log.nodup_keys
    (fun a ha => hlog.owners a.1 a.2 (SortedMap.mem_entries.mp ha)) hdisjoint

/-- Logs without a common transaction are merged, in any order. -/
theorem foldlM_mergeIn {logs : List SerialLog} (hm : m.WellFormed)
    (hlogs : ∀ log ∈ logs, log.WellFormed) (hdisjoint : logs.Pairwise SerialLog.Disjoint)
    (hnew : ∀ log ∈ logs, ∀ account n, m.txAt account n ≠ none → log.txAt account n = none) :
    ∃ m', logs.foldlM mergeIn m = .ok m' ∧ m'.WellFormed ∧ ∀ account n tx,
      m'.txAt account n = some tx ↔
        m.txAt account n = some tx ∨ ∃ log ∈ logs, log.txAt account n = some tx := by
  induction logs generalizing m with
  | nil => exact ⟨m, rfl, hm, fun account n tx => by simp⟩
  | cons log logs ih =>
    rw [List.pairwise_cons] at hdisjoint
    have hfirst := hnew log List.mem_cons_self
    obtain ⟨m₁, hone, hm₁, htxs₁⟩ := mergeIn_spec hm (hlogs log List.mem_cons_self) hfirst
    obtain ⟨m', hfold, hm', htxs'⟩ := ih hm₁ (fun l hl => hlogs l (List.mem_cons_of_mem _ hl))
      hdisjoint.2 fun l hl account n hsome => by
        rw [htxs₁] at hsome
        by_cases hin : m.txAt account n = none
        · rw [hin, Option.none_or] at hsome
          exact hdisjoint.1 l hl account n hsome
        · exact hnew l (List.mem_cons_of_mem _ hl) account n hin
    refine ⟨m', foldlM_cons.mpr ⟨m₁, hone, hfold⟩, hm', fun account n tx => ?_⟩
    have hor : m₁.txAt account n = some tx ↔
        m.txAt account n = some tx ∨ log.txAt account n = some tx := by
      rw [htxs₁, Option.or_eq_some_iff]
      constructor
      · rintro (h | ⟨-, h⟩)
        · exact .inl h
        · exact .inr h
      · rintro (h | h)
        · exact .inl h
        · refine .inr ⟨?_, h⟩
          by_contra hsome
          rw [hfirst account n hsome] at h
          cases h
    rw [htxs', hor, List.exists_mem_cons_iff, or_assoc]

/-! ### Accumulating -/

/-- The transactions of the log, account by account. -/
def transactions (m : EntryLog) : List SignedTransaction :=
  m.values.flatMap (·.1.newTransactionsSelf.values)

theorem sizeIncrement_ofNat {n : Nat} (h : n < 2 ^ 31) : TxCountMetadata.sizeIncrement ⟨.ofNat n⟩ = n := by
  have hint : (Int32.ofNat n).toInt64.toInt = n := by
    rw [Int32.toInt_toInt64, Int32.toInt_ofNat_of_lt h]
  have hnonneg : 0 ≤ (Int32.ofNat n).toInt64 := by
    rw [Int64.le_iff_toInt_le, hint]
    exact Int.natCast_nonneg n
  rw [TxCountMetadata.sizeIncrement, Int64.toNat_toUInt64_of_le hnonneg, Int64.toNatClampNeg, hint]
  rfl

theorem length_values {K V : Type} [LinearOrder K] (m : SortedMap K V) : m.values.length = m.size :=
  List.length_map _

theorem foldlM_writeTx (txs done rest : List SignedTransaction) (h : txs.length ≤ rest.length) :
    txs.foldlM writeTx (done ++ rest, done.length) =
      .ok (done ++ txs ++ rest.drop txs.length, (done ++ txs).length) := by
  induction txs generalizing done rest with
  | nil => simp [pure, Except.pure]
  | cons tx txs ih =>
    cases rest with
    | nil => simp at h
    | cons r rest =>
      have hnext := ih (done ++ [tx]) rest (by simpa using h)
      rw [foldlM_cons]
      refine ⟨(done ++ [tx] ++ rest, (done ++ [tx]).length), ?_, ?_⟩
      · simp [writeTx]
      · rw [hnext]
        simp

/-- The keys are written one behind the other. -/
theorem foldlM_accumulateKey {l : List (AccountModificationEntry × TxCountMetadata)}
    (hcounts : ∀ a ∈ l, a.2 = .fromValue a.1) (done rest : List SignedTransaction)
    (hlength : (l.flatMap (·.1.newTransactionsSelf.values)).length ≤ rest.length)
    (hrest : rest.length < 2 ^ 31) :
    ∃ k, l.foldlM accumulateKey (done ++ rest, done.length) =
      .ok (done ++ l.flatMap (·.1.newTransactionsSelf.values) ++
        rest.drop (l.flatMap (·.1.newTransactionsSelf.values)).length, k) := by
  induction l generalizing done rest with
  | nil => exact ⟨done.length, by simp [pure, Except.pure]⟩
  | cons a l ih =>
    rw [List.flatMap_cons, List.length_append] at hlength
    set txs := a.1.newTransactionsSelf.values with htxs
    have hfits : txs.length ≤ rest.length := by omega
    have hincrement : a.2.sizeIncrement = txs.length := by
      rw [hcounts a List.mem_cons_self, TxCountMetadata.fromValue, ← length_values, ← htxs,
        sizeIncrement_ofNat (by omega)]
    have hkey : accumulateKey (done ++ rest, done.length) a =
        .ok (done ++ txs ++ rest.drop txs.length, (done ++ txs).length) := by
      refine bind_eq_ok.mpr ⟨_, bind_eq_ok.mpr ⟨_, foldlM_writeTx txs done rest hfits, rfl⟩, ?_⟩
      rw [hincrement, List.length_append]
      rfl
    obtain ⟨k, hk⟩ := ih (fun b hb => hcounts b (List.mem_cons_of_mem _ hb)) (done ++ txs)
      (rest.drop txs.length) (by rw [List.length_drop]; omega) (by rw [List.length_drop]; omega)
    refine ⟨k, foldlM_cons.mpr ⟨_, hkey, ?_⟩⟩
    rw [hk, List.flatMap_cons, List.drop_drop, List.length_append, ← htxs]
    simp only [List.append_assoc]

theorem foldl_add (l : List (AccountModificationEntry × TxCountMetadata))
    (hcounts : ∀ a ∈ l, a.2 = .fromValue a.1) (n : Nat) :
    l.foldl (fun acc a => acc.add a.2) (⟨.ofNat n⟩ : TxCountMetadata) =
      ⟨.ofNat (n + (l.flatMap (·.1.newTransactionsSelf.values)).length)⟩ := by
  induction l generalizing n with
  | nil => rfl
  | cons a l ih =>
    have hcount : (TxCountMetadata.add ⟨.ofNat n⟩ a.2) =
        ⟨.ofNat (n + a.1.newTransactionsSelf.values.length)⟩ := by
      rw [hcounts a List.mem_cons_self, TxCountMetadata.fromValue, TxCountMetadata.add, length_values,
        Int32.ofNat_add]
    rw [List.foldl_cons, hcount, ih fun b hb => hcounts b (List.mem_cons_of_mem _ hb),
      List.flatMap_cons, List.length_append, Nat.add_assoc]

/-- The block that is accumulated from a log. -/
theorem accumulateValues_eq (hm : m.WellFormed) (hlength : m.transactions.length < 2 ^ 31) :
    m.accumulateValues = .ok m.transactions := by
  have hcounts : ∀ a ∈ m.values, a.2 = .fromValue a.1 := by
    intro a ha
    obtain ⟨⟨account, a'⟩, hmem, rfl⟩ := List.mem_map.mp ha
    exact hm.counts account a' (SortedMap.mem_entries.mp hmem)
  have hroot := foldl_add m.values hcounts 0
  rw [Nat.zero_add] at hroot
  obtain ⟨k, hk⟩ := foldlM_accumulateKey hcounts [] (List.replicate m.transactions.length default)
    (by rw [List.length_replicate]; rfl) (by rw [List.length_replicate]; exact hlength)
  refine bind_eq_ok.mpr ⟨(m.transactions, k), ?_, rfl⟩
  show m.values.foldlM accumulateKey (List.replicate (TxCountMetadata.sizeIncrement
    (m.values.foldl (fun acc a => acc.add a.2) ⟨.ofNat 0⟩)) default, 0) = _
  rw [hroot, show (m.values.flatMap (·.1.newTransactionsSelf.values)) = m.transactions from rfl,
    sizeIncrement_ofNat hlength]
  refine hk.trans ?_
  rw [show (m.values.flatMap (·.1.newTransactionsSelf.values)) = m.transactions from rfl,
    List.drop_eq_nil_of_le (by rw [List.length_replicate]), List.append_nil, List.nil_append]

theorem mem_transactions {tx : SignedTransaction} :
    tx ∈ m.transactions ↔ ∃ account n, m.txAt account n = some tx := by
  constructor
  · intro h
    obtain ⟨a, ha, htx⟩ := List.mem_flatMap.mp h
    obtain ⟨⟨account, a'⟩, hmem, rfl⟩ := List.mem_map.mp ha
    obtain ⟨⟨n, tx'⟩, hmem', rfl⟩ := List.mem_map.mp htx
    refine ⟨account, n, ?_⟩
    rw [txAt, SortedMap.mem_entries.mp hmem]
    exact SortedMap.mem_entries.mp hmem'
  · rintro ⟨account, n, h⟩
    obtain ⟨a, ha, htx⟩ := Option.bind_eq_some_iff.mp h
    exact List.mem_flatMap.mpr ⟨a, List.mem_map.mpr ⟨(account, a), SortedMap.mem_entries.mpr ha, rfl⟩,
      List.mem_map.mpr ⟨(n, tx), SortedMap.mem_entries.mpr htx, rfl⟩⟩

end EntryLog

/-- The order of a block: by source account, and then by sequence number. -/
def SignedTransaction.Before (a b : SignedTransaction) : Prop :=
  a.source < b.source ∨ (a.source = b.source ∧ a.sequenceNumber < b.sequenceNumber)

theorem SignedTransaction.Before.ne {a b : SignedTransaction} (h : a.Before b) : a ≠ b := by
  rintro rfl
  rcases h with h | ⟨-, h⟩
  · exact lt_irrefl _ h
  · exact lt_irrefl _ h

namespace EntryLog

variable {m : EntryLog}

theorem pairwise_transactions (h : ∀ account n tx, m.txAt account n = some tx →
    tx.source = account ∧ tx.sequenceNumber = n) :
    m.transactions.Pairwise SignedTransaction.Before := by
  have hat : ∀ a ∈ m.entries, ∀ b ∈ a.2.1.newTransactionsSelf.entries,
      b.2.source = a.1 ∧ b.2.sequenceNumber = b.1 := by
    intro a ha b hb
    refine h a.1 b.1 b.2 ?_
    rw [txAt, SortedMap.mem_entries.mp ha]
    exact SortedMap.mem_entries.mp hb
  rw [transactions, SortedMap.values, List.flatMap_map, List.pairwise_flatMap]
  constructor
  · intro a ha
    refine List.pairwise_map.mpr (a.2.1.newTransactionsSelf.sorted.imp_of_mem fun {b c} hb hc hlt => ?_)
    obtain ⟨hsource, hnumber⟩ := hat a ha b hb
    obtain ⟨hsource', hnumber'⟩ := hat a ha c hc
    exact .inr ⟨hsource.trans hsource'.symm, by rw [hnumber, hnumber']; exact hlt⟩
  · refine m.sorted.imp_of_mem fun {a a'} ha ha' hlt tx htx tx' htx' => ?_
    obtain ⟨b, hb, rfl⟩ := List.mem_map.mp htx
    obtain ⟨b', hb', rfl⟩ := List.mem_map.mp htx'
    refine .inl ?_
    rw [(hat a ha b hb).1, (hat a' ha' b' hb').1]
    exact hlt

end EntryLog

/-! ### Workers -/

/-- The workers of a block: what they share of the database, the transactions that they have reserved
a sequence number for and those that have succeeded, and their logs. -/
structure LoggedProduction where
  trackers : AccountID → SequenceTracker
  pending : List SignedTransaction
  applied : List SignedTransaction
  logs : List SerialLog

namespace LoggedProduction

/-- What a worker does next, in any interleaving: it reserves the sequence number of a transaction,
rejects the transaction and releases the number, or applies it and logs it; or it logs that an
account was modified. -/
inductive Step : LoggedProduction → LoggedProduction → Prop where
  | reserve {p : LoggedProduction} {tx : SignedTransaction} {t : SequenceTracker}
    (hformat : formatChecked tx.sequenceNumber)
    (h : (p.trackers tx.source).reserveSequenceNumber tx.sequenceNumber = (.SUCCESS, t)) :
    Step p { p with trackers := Function.update p.trackers tx.source t, pending := tx :: p.pending }
  | reject {p : LoggedProduction} {tx : SignedTransaction} {t : SequenceTracker} (htx : tx ∈ p.pending)
    (h : (p.trackers tx.source).releaseSequenceNumber tx.sequenceNumber = .ok t) :
    Step p { p with
      trackers := Function.update p.trackers tx.source t, pending := p.pending.erase tx }
  | succeed {p : LoggedProduction} {tx : SignedTransaction} {i : Nat} {log : SerialLog}
    (htx : tx ∈ p.pending) (hlog : p.logs[i]? = some log) :
    Step p { p with
      pending := p.pending.erase tx
      applied := tx :: p.applied
      logs := p.logs.set i (log.logNewSelfTransaction tx) }
  | modifySelf {p : LoggedProduction} {i : Nat} {log : SerialLog} (owner : AccountID) (n : UInt64)
    (hlog : p.logs[i]? = some log) :
    Step p { p with logs := p.logs.set i (log.logSelfModification owner n) }
  | modifyOther {p : LoggedProduction} {i : Nat} {log : SerialLog} (txOwner : AccountID) (n : UInt64)
    (modified : AccountID) (hlog : p.logs[i]? = some log) :
    Step p { p with logs := p.logs.set i (log.logOtherModification txOwner n modified) }

/-- The start of a block: no sequence number is reserved, and every log is empty. -/
structure Start (p : LoggedProduction) : Prop where
  numbers : ∀ account, (p.trackers account).lastCommittedId.toNat % 256 = 0 ∧
    (p.trackers account).sequenceNumberVec = 0
  pending : p.pending = []
  applied : p.applied = []
  logs : ∀ log ∈ p.logs, log = ∅

inductive Run (p₀ : LoggedProduction) : LoggedProduction → Prop where
  | refl : Run p₀ p₀
  | step {p p' : LoggedProduction} (hrun : Run p₀ p) (hstep : Step p p') : Run p₀ p'

/-- The sequence numbers that an account has reserved. -/
def numbersOf (txs : List SignedTransaction) (account : AccountID) : List UInt64 :=
  (txs.filter (·.source = account)).map SignedTransaction.sequenceNumber

/-- What holds throughout a block. -/
structure Inv (p : LoggedProduction) : Prop where
  reserved : ∀ account, Reserved.Represents 64 (fun t : SequenceTracker => bit t.sequenceNumberVec)
    ⟨p.trackers account, numbersOf (p.pending ++ p.applied) account⟩
  wellFormed : ∀ log ∈ p.logs, log.WellFormed
  logged : ∀ tx, tx ∈ p.applied ↔ ∃ log ∈ p.logs, log.txAt tx.source tx.sequenceNumber = some tx
  disjoint : ∀ (i j : Nat) (log log' : SerialLog), p.logs[i]? = some log →
    p.logs[j]? = some log' → i ≠ j → log.Disjoint log'

variable {p p' p₀ : LoggedProduction}

theorem represents_perm {t : SequenceTracker} {live live' : List UInt64} (h : live.Perm live')
    (hr : Reserved.Represents 64 (fun t : SequenceTracker => bit t.sequenceNumberVec) ⟨t, live⟩) :
    Reserved.Represents 64 (fun t : SequenceTracker => bit t.sequenceNumberVec) ⟨t, live'⟩ :=
  ⟨hr.lt, hr.multiple, h.nodup_iff.mp hr.nodup, fun n => (h.mem_iff).symm.trans (hr.mem_live n), hr.fits⟩

theorem numbersOf_perm {l l' : List SignedTransaction} (h : l.Perm l') (account : AccountID) :
    (numbersOf l account).Perm (numbersOf l' account) := (h.filter _).map _

theorem numbersOf_cons (tx : SignedTransaction) (l : List SignedTransaction) (account : AccountID) :
    numbersOf (tx :: l) account =
      if tx.source = account then tx.sequenceNumber :: numbersOf l account else numbersOf l account := by
  unfold numbersOf
  rw [List.filter_cons]
  by_cases h : tx.source = account
  · simp [h]
  · simp [h]

/-- The number of a pending transaction is not that of a transaction which has been logged. -/
theorem Inv.fresh (h : Inv p) {tx : SignedTransaction} (htx : tx ∈ p.pending) {log : SerialLog}
    (hlog : log ∈ p.logs) : log.txAt tx.source tx.sequenceNumber = none := by
  by_contra hsome
  obtain ⟨tx', htx'⟩ := Option.ne_none_iff_exists'.mp hsome
  obtain ⟨hsource, hnumber⟩ := (h.wellFormed log hlog).txs _ _ _ htx'
  have happlied : tx' ∈ p.applied := (h.logged tx').mpr ⟨log, hlog, by rw [hsource, hnumber, htx']⟩
  have hnodup := (h.reserved tx.source).nodup
  rw [numbersOf, List.filter_append, List.map_append] at hnodup
  have hdisjoint := (List.nodup_append'.mp hnodup).2.2
  exact hdisjoint (List.mem_map_of_mem (List.mem_filter.mpr ⟨htx, decide_eq_true rfl⟩))
    (List.mem_map.mpr ⟨tx', List.mem_filter.mpr ⟨happlied, decide_eq_true hsource⟩, hnumber⟩)

theorem Start.inv (h : Start p) : Inv p := by
  refine ⟨fun account => ?_, fun log hlog => ?_, fun tx => ?_, fun i j log log' hi _ _ => ?_⟩
  · rw [h.pending, h.applied]
    refine Reserved.Represents.init (h.numbers account).1 fun i => ?_
    rw [(h.numbers account).2]
    exact bit_zero i
  · rw [h.logs log hlog]
    exact SerialLog.wellFormed_empty
  · rw [h.applied]
    refine iff_of_false List.not_mem_nil ?_
    rintro ⟨log, hlog, htx⟩
    rw [h.logs log hlog] at htx
    simp [SerialLog.txAt] at htx
  · intro account n hsome
    rw [h.logs log (List.mem_of_getElem? hi)] at hsome
    simp [SerialLog.txAt] at hsome

theorem Inv.reserve (h : Inv p) {tx : SignedTransaction} {t : SequenceTracker}
    (hformat : formatChecked tx.sequenceNumber)
    (hreserve : (p.trackers tx.source).reserveSequenceNumber tx.sequenceNumber = (.SUCCESS, t)) :
    Inv { p with trackers := Function.update p.trackers tx.source t, pending := tx :: p.pending } := by
  refine ⟨fun account => ?_, h.wellFormed, h.logged, h.disjoint⟩
  dsimp only
  rw [List.cons_append, numbersOf_cons]
  by_cases haccount : tx.source = account
  · subst haccount
    have hr := (h.reserved tx.source).reserve SequenceTracker.tracksBits hformat
    rw [Reserved.reserve_of_success hreserve] at hr
    rw [if_pos rfl, Function.update_self]
    exact hr
  · rw [if_neg haccount, Function.update_of_ne (Ne.symm haccount)]
    exact h.reserved account

theorem Inv.reject (h : Inv p) {tx : SignedTransaction} {t : SequenceTracker} (htx : tx ∈ p.pending)
    (hrelease : (p.trackers tx.source).releaseSequenceNumber tx.sequenceNumber = .ok t) :
    Inv { p with
      trackers := Function.update p.trackers tx.source t, pending := p.pending.erase tx } := by
  refine ⟨fun account => ?_, h.wellFormed, h.logged, h.disjoint⟩
  dsimp only
  have hperm : (p.pending ++ p.applied).Perm (tx :: (p.pending.erase tx ++ p.applied)) :=
    (List.perm_cons_erase htx).append_right p.applied
  have hnumbers := numbersOf_perm hperm account
  rw [numbersOf_cons] at hnumbers
  by_cases haccount : tx.source = account
  · subst haccount
    rw [if_pos rfl] at hnumbers
    have hmem : tx.sequenceNumber ∈ numbersOf (p.pending ++ p.applied) tx.source :=
      hnumbers.mem_iff.mpr List.mem_cons_self
    have hr := (h.reserved tx.source).release SequenceTracker.tracksBits hmem hrelease
    rw [Function.update_self]
    refine represents_perm ?_ hr
    have herase := hnumbers.erase tx.sequenceNumber
    rwa [List.erase_cons_head] at herase
  · rw [if_neg haccount] at hnumbers
    rw [Function.update_of_ne (Ne.symm haccount)]
    exact represents_perm hnumbers (h.reserved account)

theorem getElem?_set_cases {logs : List SerialLog} {i j : Nat} {log l : SerialLog}
    (h : (logs.set i log)[j]? = some l) : (i = j ∧ l = log) ∨ (i ≠ j ∧ logs[j]? = some l) := by
  by_cases hij : i = j
  · subst hij
    rw [List.getElem?_set_self'] at h
    obtain ⟨l', -, rfl⟩ := Option.map_eq_some_iff.mp h
    exact .inl ⟨rfl, rfl⟩
  · rw [List.getElem?_set_ne hij] at h
    exact .inr ⟨hij, h⟩

theorem getElem?_set_of_some {logs : List SerialLog} {i : Nat} {log l : SerialLog}
    (h : logs[i]? = some l) : (logs.set i log)[i]? = some log := by
  rw [List.getElem?_set_self', h]
  rfl

/-- A worker changes its log.  Either the log holds the transactions that it held, or it holds one
more that has just succeeded. -/
theorem Inv.setLog (h : Inv p) (new : List SignedTransaction) {i : Nat} {log log' : SerialLog}
    (hlog : p.logs[i]? = some log) (hwf : log'.WellFormed)
    (hperm : (p.pending ++ p.applied).Perm (p'.pending ++ p'.applied))
    (hfresh : ∀ tx ∈ new, ∀ l ∈ p.logs, l.txAt tx.source tx.sequenceNumber = none)
    (htxs : ∀ account n tx, log'.txAt account n = some tx ↔ log.txAt account n = some tx ∨
      (tx ∈ new ∧ tx.source = account ∧ tx.sequenceNumber = n))
    (happlied : ∀ tx, tx ∈ p'.applied ↔ tx ∈ new ∨ tx ∈ p.applied)
    (htrackers : p'.trackers = p.trackers) (hlogs : p'.logs = p.logs.set i log') : Inv p' := by
  have hself : p'.logs[i]? = some log' := hlogs ▸ getElem?_set_of_some hlog
  -- a transaction that another log holds is not the new one
  have hdisjoint : ∀ (j : Nat) (l : SerialLog), i ≠ j → p.logs[j]? = some l → log'.Disjoint l := by
    intro j l hij hl account n hsome
    obtain ⟨tx, htx⟩ := Option.ne_none_iff_exists'.mp hsome
    rcases (htxs account n tx).mp htx with hold | ⟨hnew, rfl, rfl⟩
    · exact h.disjoint i j log l hlog hl hij account n (by rw [hold]; exact Option.some_ne_none tx)
    · exact hfresh tx hnew l (List.mem_of_getElem? hl)
  refine ⟨fun account => ?_, fun l hl => ?_, fun tx => ?_, fun j k l l' hl hl' hjk => ?_⟩
  · rw [htrackers]
    exact represents_perm (numbersOf_perm hperm account) (h.reserved account)
  · rw [hlogs] at hl
    rcases List.mem_or_eq_of_mem_set hl with hl | rfl
    · exact h.wellFormed l hl
    · exact hwf
  · rw [happlied, h.logged]
    constructor
    · rintro (hnew | ⟨l, hl, htx⟩)
      · exact ⟨log', List.mem_of_getElem? hself, (htxs _ _ tx).mpr (.inr ⟨hnew, rfl, rfl⟩)⟩
      · obtain ⟨j, hj⟩ := List.mem_iff_getElem?.mp hl
        by_cases hij : i = j
        · subst hij
          cases hlog.symm.trans hj
          exact ⟨log', List.mem_of_getElem? hself, (htxs _ _ tx).mpr (.inl htx)⟩
        · refine ⟨l, List.mem_of_getElem? (i := j) ?_, htx⟩
          rw [hlogs, List.getElem?_set_ne hij, hj]
    · rintro ⟨l, hl, htx⟩
      obtain ⟨j, hj⟩ := List.mem_iff_getElem?.mp hl
      rw [hlogs] at hj
      rcases getElem?_set_cases hj with ⟨rfl, rfl⟩ | ⟨-, hj⟩
      · rcases (htxs _ _ tx).mp htx with hold | ⟨hnew, -⟩
        · exact .inr ⟨log, List.mem_of_getElem? hlog, hold⟩
        · exact .inl hnew
      · exact .inr ⟨l, List.mem_of_getElem? hj, htx⟩
  · rw [hlogs] at hl hl'
    rcases getElem?_set_cases hl with ⟨rfl, rfl⟩ | ⟨hij, hold⟩
    · rcases getElem?_set_cases hl' with ⟨rfl, rfl⟩ | ⟨hik, hold'⟩
      · exact absurd rfl hjk
      · exact hdisjoint k l' hik hold'
    · rcases getElem?_set_cases hl' with ⟨rfl, rfl⟩ | ⟨hik, hold'⟩
      · exact (hdisjoint j l hij hold).symm
      · exact h.disjoint j k l l' hold hold' hjk

theorem Inv.succeed (h : Inv p) {tx : SignedTransaction} {i : Nat} {log : SerialLog}
    (htx : tx ∈ p.pending) (hlog : p.logs[i]? = some log) :
    Inv { p with
      pending := p.pending.erase tx
      applied := tx :: p.applied
      logs := p.logs.set i (log.logNewSelfTransaction tx) } := by
  have hmem := List.mem_of_getElem? hlog
  have hfresh : ∀ l ∈ p.logs, l.txAt tx.source tx.sequenceNumber = none := fun l => h.fresh htx
  obtain ⟨hwf, htxs⟩ := SerialLog.logNewSelfTransaction_spec (h.wellFormed log hmem) (hfresh log hmem)
  refine h.setLog [tx] hlog hwf ?_ ?_ (fun account n tx' => ?_) ?_ rfl rfl
  · exact ((List.perm_cons_erase htx).append_right p.applied).trans List.perm_middle.symm
  · simpa using hfresh
  · rw [htxs, List.mem_singleton]
    split_ifs with heq
    · obtain ⟨rfl, rfl⟩ := heq
      rw [hfresh log hmem]
      constructor
      · intro hsome
        cases hsome
        exact .inr ⟨rfl, rfl, rfl⟩
      · rintro (hnone | ⟨rfl, -⟩)
        · cases hnone
        · rfl
    · constructor
      · exact .inl
      · rintro (hold | ⟨rfl, hsource, hnumber⟩)
        · exact hold
        · exact absurd ⟨hsource, hnumber⟩ heq
  · simp

theorem Inv.modify (h : Inv p) {i : Nat} {log : SerialLog} (hlog : p.logs[i]? = some log)
    (account : AccountID) {f : AccountModificationEntry → AccountModificationEntry}
    (howner : ∀ e, (f e).owner = e.owner)
    (htxs : ∀ e, (f e).newTransactionsSelf = e.newTransactionsSelf) :
    Inv { p with logs := p.logs.set i (log.valueInsert account f) } := by
  obtain ⟨hwf, hsame⟩ := SerialLog.valueInsert_identifiers
    (h.wellFormed log (List.mem_of_getElem? hlog)) account howner htxs
  refine h.setLog [] hlog hwf (.refl _) ?_ (fun account n tx => ?_) ?_ rfl rfl
  · simp
  · simp [hsame]
  · simp

theorem Step.inv (hstep : Step p p') (h : Inv p) : Inv p' := by
  cases hstep with
  | reserve hformat hreserve => exact h.reserve hformat hreserve
  | reject htx hrelease => exact h.reject htx hrelease
  | succeed htx hlog => exact h.succeed htx hlog
  | modifySelf owner n hlog => exact h.modify hlog owner (fun _ => rfl) fun _ => rfl
  | modifyOther txOwner n modified hlog => exact h.modify hlog modified (fun _ => rfl) fun _ => rfl

theorem Run.inv (hrun : Run p₀ p) (h : Inv p₀) : Inv p := by
  induction hrun with
  | refl => exact h
  | step _ hstep ih => exact hstep.inv ih

theorem nodup_of_numbersOf {l : List SignedTransaction} (h : ∀ account, (numbersOf l account).Nodup) :
    l.Nodup := by
  induction l with
  | nil => exact List.nodup_nil
  | cons tx l ih =>
    refine List.nodup_cons.mpr ⟨fun hmem => ?_, ih fun account => ?_⟩
    · have hnodup := h tx.source
      rw [numbersOf_cons, if_pos rfl, List.nodup_cons] at hnodup
      exact hnodup.1 (List.mem_map_of_mem (List.mem_filter.mpr ⟨hmem, decide_eq_true rfl⟩))
    · have hnodup := h account
      rw [numbersOf_cons] at hnodup
      split_ifs at hnodup
      · exact hnodup.of_cons
      · exact hnodup

/-- Every transaction has succeeded once. -/
theorem Inv.nodup_applied (h : Inv p) : p.applied.Nodup :=
  (List.nodup_append'.mp (nodup_of_numbersOf fun account => (h.reserved account).nodup)).2.1

/-- Merging the logs in any order gives a log of the transactions that have succeeded. -/
theorem Inv.merges (h : Inv p) {logs : List SerialLog} (hlogs : logs.Perm p.logs) :
    ∃ m, EntryLog.mergeInLogBatch logs = .ok m ∧ m.WellFormed ∧
      m.transactions.Perm p.applied ∧ m.transactions.Pairwise SignedTransaction.Before := by
  have hdisjoint : p.logs.Pairwise SerialLog.Disjoint := by
    rw [List.pairwise_iff_getElem]
    intro i j hi hj hij
    exact h.disjoint i j _ _ (List.getElem?_eq_getElem hi) (List.getElem?_eq_getElem hj) hij.ne
  have hempty : ∀ account n, EntryLog.txAt ∅ account n = none := fun account n => by
    simp [EntryLog.txAt]
  obtain ⟨m, hmerge, hm, htxs⟩ := EntryLog.foldlM_mergeIn EntryLog.wellFormed_empty
    (fun log hlog => h.wellFormed log (hlogs.mem_iff.mp hlog))
    (hlogs.symm.pairwise hdisjoint fun hab => hab.symm)
    fun log _ account n hsome => absurd (hempty account n) hsome
  have hat : ∀ account n tx, m.txAt account n = some tx ↔
      ∃ log ∈ p.logs, log.txAt account n = some tx := by
    intro account n tx
    rw [htxs, hempty]
    simp only [reduceCtorEq, false_or, hlogs.mem_iff]
  have hpairwise : m.transactions.Pairwise SignedTransaction.Before := by
    refine EntryLog.pairwise_transactions fun account n tx htx => ?_
    obtain ⟨log, hlog, htx⟩ := (hat account n tx).mp htx
    exact (h.wellFormed log hlog).txs account n tx htx
  refine ⟨m, hmerge, hm, ?_, hpairwise⟩
  refine (List.perm_ext_iff_of_nodup (hpairwise.imp SignedTransaction.Before.ne)
    h.nodup_applied).mpr fun tx => ?_
  rw [EntryLog.mem_transactions, h.logged]
  constructor
  · rintro ⟨account, n, htx⟩
    obtain ⟨log, hlog, htx⟩ := (hat account n tx).mp htx
    obtain ⟨rfl, rfl⟩ := (h.wellFormed log hlog).txs account n tx htx
    exact ⟨log, hlog, htx⟩
  · rintro ⟨log, hlog, htx⟩
    exact ⟨tx.source, tx.sequenceNumber, (hat _ _ tx).mpr ⟨log, hlog, htx⟩⟩

/-- The most transactions that a `SignedTransactionList` can have. -/
def maxTransactionsPerBlock : Nat := 10000000

/-- However the workers interleave, and in whatever order their logs are merged, the merge returns,
and the block that is accumulated has every transaction that succeeded once and no other, by source
account and then by sequence number. -/
theorem block_of_run (p₀ p : LoggedProduction) (h₀ : Start p₀) (hrun : Run p₀ p)
    (hlength : p.applied.length ≤ maxTransactionsPerBlock) (logs : List SerialLog)
    (hlogs : logs.Perm p.logs) :
    ∃ m block, EntryLog.mergeInLogBatch logs = .ok m ∧ m.accumulateValues = .ok block ∧
      block.Perm p.applied ∧ p.applied.Nodup ∧ block.Pairwise SignedTransaction.Before := by
  have h := hrun.inv h₀.inv
  obtain ⟨m, hmerge, hm, hperm, hpairwise⟩ := h.merges hlogs
  refine ⟨m, m.transactions, hmerge, EntryLog.accumulateValues_eq hm ?_, hperm, h.nodup_applied, hpairwise⟩
  rw [hperm.length_eq]
  exact hlength.trans_lt (by decide)

/-- An empty transaction of account 7. -/
def emptyTx (n : UInt64) : SignedTransaction := ⟨⟨⟨7, n⟩, [], Nat.zero_le _, 0⟩, default⟩

/-- Two workers at the start of a block. -/
def twoWorkers : LoggedProduction := ⟨fun _ => .ofId 0, [], [], [∅, ∅]⟩

/-- Each worker applies one transaction of account 7, the later one first. -/
theorem block_of_run_twoWorkers :
    ∃ p m block, Run twoWorkers p ∧ p.applied = [emptyTx 256, emptyTx 512] ∧
      EntryLog.mergeInLogBatch p.logs.reverse = .ok m ∧ m.accumulateValues = .ok block ∧
      block.Perm p.applied ∧ p.applied.Nodup ∧ block.Pairwise SignedTransaction.Before := by
  have hstart : Start twoWorkers := by
    refine ⟨fun account => ⟨rfl, rfl⟩, rfl, rfl, fun log hlog => ?_⟩
    simpa [twoWorkers] using hlog
  have hrun : ∃ p, Run twoWorkers p ∧ p.applied = [emptyTx 256, emptyTx 512] := by
    refine ⟨_, .step (.step (.step (.step .refl
      (@Step.reserve _ (emptyTx 512) _ (by decide) rfl))
      (@Step.succeed _ (emptyTx 512) 1 _ List.mem_cons_self rfl))
      (@Step.reserve _ (emptyTx 256) _ (by decide) rfl))
      (@Step.succeed _ (emptyTx 256) 0 _ List.mem_cons_self rfl), rfl⟩
  obtain ⟨p, hrun, happlied⟩ := hrun
  obtain ⟨m, block, hmerge, hblock⟩ := block_of_run twoWorkers p hstart hrun
    (by rw [happlied]; decide) p.logs.reverse (List.reverse_perm _)
  exact ⟨p, m, block, hrun, happlied, hmerge, hblock⟩

end LoggedProduction

end Speedex
