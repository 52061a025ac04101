import Speedex.Lib.SortedList
import Speedex.Marshal
import Speedex.Modlog.AccountModificationEntry

/-! The two representations of what happened to one account (`modlog/log_entry_fns.cc`): sets that
are kept in order, and lists that are sorted and freed of duplicates when the log is complete.  What
they write is hashed, so the bytes should agree. -/

namespace Speedex

open Lib Lib.Xdr

/-- The order of `TxIdentifierCompareFn`: by the owner, then by the sequence number. -/
def TxIdentifier.ordered (id : TxIdentifier) : UInt64 ×ₗ UInt64 := toLex (id.owner, id.sequenceNumber)

theorem TxIdentifier.ordered_injective : Function.Injective TxIdentifier.ordered := by
  rintro ⟨owner, n⟩ ⟨owner', n'⟩ h
  obtain ⟨rfl, rfl⟩ := Prod.mk.inj (toLex.injective h)
  rfl

instance : LinearOrder TxIdentifier where
  le a b := a.ordered ≤ b.ordered
  lt a b := a.ordered < b.ordered
  le_refl a := le_refl a.ordered
  le_trans _ _ _ := le_trans
  lt_iff_le_not_ge _ _ := lt_iff_le_not_ge
  le_antisymm _ _ h h' := TxIdentifier.ordered_injective (le_antisymm h h')
  le_total a b := le_total a.ordered b.ordered
  toDecidableLE a b := inferInstanceAs (Decidable (a.ordered ≤ b.ordered))
  toDecidableLT a b := inferInstanceAs (Decidable (a.ordered < b.ordered))
  toDecidableEq := inferInstance

/-! ### Removing duplicates -/

section Dedup

variable {α : Type}

/-- The loop of `dedup`, and of `apply_to_value` for `identifiers_self`.  Its header moves the
counter on, and so does the branch that keeps an element. -/
def dedupLoop (comparator : α → α → Bool) : Nat → List α → Nat → List α
  | 0, values, _ => values
  | fuel + 1, values, i =>
    if h : i < values.length then
      if comparator values[i] values[i - 1] then dedupLoop comparator fuel (values.eraseIdx i) (i + 1)
      else dedupLoop comparator fuel values (i + 1 + 1)
    else values

/-- `dedup`, with enough rounds. -/
def dedup (comparator : α → α → Bool) (values : List α) : List α :=
  dedupLoop comparator values.length values 1

/-- What the loop does: the elements are taken in pairs, and only those of a pair are compared. -/
def dedupPairs (comparator : α → α → Bool) : List α → List α
  | a :: b :: l =>
    if comparator b a then a :: dedupPairs comparator l else a :: b :: dedupPairs comparator l
  | l => l

theorem dedupLoop_eq {comparator : α → α → Bool} {fuel : Nat} (done l : List α) (hfuel : l.length ≤ fuel) :
    dedupLoop comparator fuel (done ++ l) (done.length + 1) = done ++ dedupPairs comparator l := by
  induction l using dedupPairs.induct comparator generalizing done fuel with
  | case1 a b l heq ih =>
    obtain ⟨fuel, rfl⟩ := Nat.exists_eq_add_of_le' (Nat.le_of_add_left_le hfuel)
    have herase : (done ++ a :: b :: l).eraseIdx (done.length + 1) = (done ++ [a]) ++ l := by
      rw [List.eraseIdx_append_of_length_le (Nat.le_add_right _ _)]
      simp
    have hlength : done.length + 1 + 1 = (done ++ [a]).length + 1 := by simp
    rw [dedupLoop, dif_pos (by simp), if_pos (by simpa using heq), herase, hlength,
      ih _ (by simp only [List.length_cons] at hfuel; omega), dedupPairs, if_pos heq, List.append_assoc]
    rfl
  | case2 a b l hne ih =>
    obtain ⟨fuel, rfl⟩ := Nat.exists_eq_add_of_le' (Nat.le_of_add_left_le hfuel)
    have hlist : done ++ a :: b :: l = (done ++ [a, b]) ++ l := by simp
    have hlength : done.length + 1 + 1 + 1 = (done ++ [a, b]).length + 1 := by simp
    rw [dedupLoop, dif_pos (by simp), if_neg (by simpa using hne), hlist, hlength,
      ih _ (by simp only [List.length_cons] at hfuel; omega), dedupPairs, if_neg hne, List.append_assoc]
    rfl
  | case3 l hshort =>
    have hlength : ¬ done.length + 1 < (done ++ l).length := by
      cases l with
      | nil => simp
      | cons a l =>
        cases l with
        | nil => simp
        | cons b l => exact absurd rfl (hshort a b l)
    cases fuel with
    | zero => rw [dedupLoop, dedupPairs]; exact hshort
    | succ fuel => rw [dedupLoop, dif_neg hlength, dedupPairs]; exact hshort

theorem dedup_eq (comparator : α → α → Bool) (l : List α) :
    dedup comparator l = dedupPairs comparator l :=
  dedupLoop_eq [] l le_rfl

theorem dedupPairs_of_pairwise {comparator : α → α → Bool} {l : List α}
    (h : l.Pairwise fun a b => comparator b a = false) : dedupPairs comparator l = l := by
  induction l using dedupPairs.induct comparator with
  | case1 a b l heq ih =>
    have hne := List.rel_of_pairwise_cons h List.mem_cons_self
    rw [hne] at heq
    cases heq
  | case2 a b l hne ih =>
    rw [dedupPairs, if_neg hne, ih h.of_cons.of_cons]
  | case3 l hshort =>
    rw [dedupPairs]
    exact hshort

end Dedup

section Sorted

variable {α : Type} [LinearOrder α]

/-- The comparison of two elements for equality. -/
def equal (a b : α) : Bool := decide (a = b)

theorem mem_dedupPairs {l : List α} {x : α} : x ∈ dedupPairs equal l ↔ x ∈ l := by
  induction l using dedupPairs.induct (@equal α _) with
  | case1 a b l heq ih =>
    obtain rfl : b = a := of_decide_eq_true heq
    rw [dedupPairs, if_pos heq, List.mem_cons, List.mem_cons, List.mem_cons, ih]
    tauto
  | case2 a b l hne ih =>
    rw [dedupPairs, if_neg hne, List.mem_cons, List.mem_cons, List.mem_cons, List.mem_cons, ih]
  | case3 l hshort =>
    rw [dedupPairs]
    exact hshort

/-- The first of a sorted list is below the others unless the next one is equal to it. -/
theorem forall_lt_iff {a : α} {l : List α} (hsorted : (a :: l).Pairwise (· ≤ ·)) :
    (∀ b ∈ l, a < b) ↔ l[0]? ≠ some a := by
  constructor
  · intro hlt hhead
    exact (hlt a (List.mem_of_getElem? hhead)).false
  · intro hne b hb
    obtain ⟨hle, hsorted⟩ := List.pairwise_cons.mp hsorted
    cases l with
    | nil => cases hb
    | cons c l =>
      have hac : a < c := lt_of_le_of_ne (hle c List.mem_cons_self) fun heq => hne (by simp [heq])
      rcases List.mem_cons.mp hb with rfl | hb
      · exact hac
      · exact hac.trans_le (List.rel_of_pairwise_cons hsorted hb)

/-- The elements that are not compared are the last of a pair and the first of the next. -/
theorem sorted_dedupPairs_iff {l : List α} (hsorted : l.Pairwise (· ≤ ·)) :
    (dedupPairs equal l).Pairwise (· < ·) ↔
      ∀ k x, ¬ (l[2 * k + 1]? = some x ∧ l[2 * k + 2]? = some x) := by
  have hstep (a b : α) (l : List α) :
      (∀ k x, ¬ ((a :: b :: l)[2 * k + 1]? = some x ∧ (a :: b :: l)[2 * k + 2]? = some x)) ↔
        l[0]? ≠ some b ∧ ∀ k x, ¬ (l[2 * k + 1]? = some x ∧ l[2 * k + 2]? = some x) := by
    constructor
    · refine fun h => ⟨fun hhead => h 0 b ⟨rfl, hhead⟩, fun k x => ?_⟩
      exact h (k + 1) x
    · rintro ⟨hhead, h⟩ k x
      cases k with
      | zero =>
        rintro ⟨hb, hx⟩
        cases hb
        exact hhead hx
      | succ k => exact h k x
  induction l using dedupPairs.induct (@equal α _) with
  | case1 a b l heq ih =>
    obtain rfl : b = a := of_decide_eq_true heq
    rw [hstep, dedupPairs, if_pos heq, List.pairwise_cons]
    refine Iff.trans ?_ (and_congr (forall_lt_iff hsorted.of_cons) (ih hsorted.of_cons.of_cons))
    simp only [mem_dedupPairs]
  | case2 a b l hne ih =>
    have hab : a < b := by
      refine lt_of_le_of_ne (List.rel_of_pairwise_cons hsorted List.mem_cons_self) fun heq => hne ?_
      exact decide_eq_true heq.symm
    rw [hstep, dedupPairs, if_neg hne, List.pairwise_cons, List.pairwise_cons]
    refine Iff.trans ?_ (and_congr (forall_lt_iff hsorted.of_cons) (ih hsorted.of_cons.of_cons))
    simp only [List.mem_cons, forall_eq_or_imp, mem_dedupPairs]
    exact ⟨And.right, fun h => ⟨⟨hab, fun c hc => hab.trans (h.1 c hc)⟩, h⟩⟩
  | case3 l hshort =>
    rw [dedupPairs]
    · constructor
      · rintro - k x ⟨-, hx⟩
        match l, hshort with
        | a :: b :: l, hshort => exact hshort a b l rfl
      · intro _
        match l, hshort with
        | [], _ => exact .nil
        | [a], _ => exact List.pairwise_singleton _ a
        | a :: b :: l, hshort => exact absurd rfl (hshort a b l)
    · exact hshort

/-- No element stands more than twice, and an element that stands twice has an even number of
smaller ones, so that its two copies make up a pair. -/
def CopiesPaired (l : List α) : Prop :=
  ∀ x, l.count x ≤ 2 ∧ (l.count x = 2 → Even (l.countP (· < x)))

/-- When the duplicates of a list are removed by sorting it and taking it in pairs. -/
theorem sorted_dedup_insertionSort_iff (l : List α) :
    (dedup equal (l.insertionSort (· ≤ ·))).Pairwise (· < ·) ↔ CopiesPaired l := by
  have hperm := List.perm_insertionSort (· ≤ ·) l
  have hsorted := List.pairwise_insertionSort (· ≤ ·) l
  rw [dedup_eq, sorted_dedupPairs_iff hsorted, forall_comm]
  refine forall_congr' fun x => ?_
  simp only [getElem?_eq_some_iff_of_sorted hsorted, hperm.count_eq, hperm.countP_eq]
  generalize l.count x = copies
  generalize l.countP (· < x) = smaller
  constructor
  · intro h
    have := h (smaller / 2)
    rw [Nat.even_iff]
    omega
  · rintro ⟨hle, heven⟩ k
    rw [Nat.even_iff] at heven
    omega

/-- The elements are left as they are, whether or not the duplicates go. -/
theorem mem_dedup_insertionSort {l : List α} {x : α} :
    x ∈ dedup equal (l.insertionSort (· ≤ ·)) ↔ x ∈ l := by
  rw [dedup_eq, mem_dedupPairs, List.mem_insertionSort]

/-- Where the duplicates go, what is left is the set in order. -/
theorem dedup_eq_sort {l : List α} (h : CopiesPaired l) :
    dedup equal (l.insertionSort (· ≤ ·)) = l.toFinset.sort := by
  have hsorted := (sorted_dedup_insertionSort_iff l).mpr h
  have hfinset : l.toFinset = (dedup equal (l.insertionSort (· ≤ ·))).toFinset := by
    ext x
    rw [List.mem_toFinset, List.mem_toFinset, mem_dedup_insertionSort]
  rw [hfinset]
  exact ((List.toFinset_sort (· ≤ ·) (hsorted.imp ne_of_lt)).mpr (hsorted.imp le_of_lt)).symm

end Sorted

/-! ### The list representation -/

/-- What is logged for an account. -/
inductive LogInsert where
  | selfModification (sequenceNumber : UInt64)
  | otherModification (id : TxIdentifier)
  | newSelfTransaction (tx : SignedTransaction)

/-- `AccountModificationTxListWrapper`: the lists, with their owner. -/
structure AccountModificationTxListWrapper extends AccountModificationTxList where
  owner : AccountID
deriving DecidableEq

namespace AccountModificationTxListWrapper

/-- `LogListInsertFn::new_value`. -/
def newValue (account : AccountID) : AccountModificationTxListWrapper := ⟨default, account⟩

/-- `LogListInsertFn::value_insert`. -/
def valueInsert (log : AccountModificationTxListWrapper) : LogInsert → AccountModificationTxListWrapper
  | .selfModification n => { log with identifiersSelf := log.identifiersSelf ++ [n] }
  | .otherModification id => { log with identifiersOthers := log.identifiersOthers ++ [id] }
  | .newSelfTransaction tx => { log with newTransactionsSelf := log.newTransactionsSelf ++ [tx] }

/-- `LogMergeFn::value_merge`. -/
def valueMerge (original mergeIn : AccountModificationTxListWrapper) :
    Result AccountModificationTxListWrapper :=
  if original.owner ≠ mergeIn.owner then
    .error (.runtimeError "owner mismatch when merging logs!!!")
  else .ok ⟨original.toAccountModificationTxList.valueMerge mergeIn.toAccountModificationTxList,
    original.owner⟩

/-- `transaction_eq`. -/
def transactionEq (a b : SignedTransaction) : Bool := decide (a.sequenceNumber = b.sequenceNumber)

/-- `LogNormalizeFn::apply_to_value`. -/
def normalize (log : AccountModificationTxListWrapper) : AccountModificationTxListWrapper where
  owner := log.owner
  identifiersSelf := dedup equal (log.identifiersSelf.insertionSort (· ≤ ·))
  identifiersOthers := dedup equal (log.identifiersOthers.insertionSort (· ≤ ·))
  newTransactionsSelf := dedup transactionEq
    (log.newTransactionsSelf.insertionSort fun a b => a.sequenceNumber ≤ b.sequenceNumber)

/-- The XDR encoding of an `AccountModificationTxList`. -/
def xdr (log : AccountModificationTxListWrapper) : List Byte :=
  uint64 log.owner ++ vector SignedTransaction.xdr log.newTransactionsSelf ++
    vector uint64 log.identifiersSelf ++ vector TxIdentifier.xdr log.identifiersOthers

/-- The lists are strictly increasing, so that nothing is in them twice. -/
structure StrictlyIncreasing (log : AccountModificationTxListWrapper) : Prop where
  identifiersSelf : log.identifiersSelf.Pairwise (· < ·)
  identifiersOthers : log.identifiersOthers.Pairwise (· < ·)
  newTransactionsSelf :
    log.newTransactionsSelf.Pairwise fun a b => a.sequenceNumber < b.sequenceNumber

end AccountModificationTxListWrapper

/-! ### The set representation -/

namespace AccountModificationEntry

/-- `LogEntryInsertFn::value_insert`. -/
def valueInsert (e : AccountModificationEntry) : LogInsert → AccountModificationEntry
  | .selfModification n => e.addIdentifierSelf n
  | .otherModification id => e.addIdentifierOther id
  | .newSelfTransaction tx => e.addTxSelf tx

/-- The size that `serialize_xdr` computes for its buffer. -/
def totalSizeBytes (e : AccountModificationEntry) : Nat :=
  8 + (4 + (e.newTransactionsSelf.values.map fun tx => tx.xdr.length).sum) +
    (4 + 8 * e.identifiersSelf.card) + (4 + 16 * e.identifiersOther.card)

/-- What `serialize_xdr` puts into its buffer. -/
def written (e : AccountModificationEntry) (owner : AccountID) : List Byte :=
  uint64 owner ++
    (uint32 (.ofNat e.newTransactionsSelf.size) ++
      e.newTransactionsSelf.values.flatMap SignedTransaction.xdr) ++
    (uint32 (.ofNat e.identifiersSelf.card) ++ e.identifiersSelf.sort.flatMap uint64) ++
    (uint32 (.ofNat e.identifiersOther.card) ++ e.identifiersOther.sort.flatMap TxIdentifier.xdr)

/-- `serialize_xdr`. -/
def serializeXdr (e : AccountModificationEntry) : Result (List Byte) :=
  match e.owner with
  | none => .error (.runtimeError "owner not set prior to serialization")
  | some owner =>
    if e.totalSizeBytes < (e.written owner).length then
      .error (.runtimeError "insufficient buffer space in xdr_generic_put")
    else .ok (e.written owner)

/-- The buffer has room for exactly what is written. -/
theorem length_written (e : AccountModificationEntry) (owner : AccountID) :
    (e.written owner).length = e.totalSizeBytes := by
  simp only [written, totalSizeBytes, List.length_append, length_uint64, length_uint32,
    length_flatMap_const length_uint64, length_flatMap_const TxIdentifier.length_xdr,
    length_flatMap, Finset.length_sort]

theorem serializeXdr_eq {e : AccountModificationEntry} {owner : AccountID} (h : e.owner = some owner) :
    e.serializeXdr = .ok (e.written owner) := by
  rw [serializeXdr, h]
  exact if_neg (by rw [length_written]; exact lt_irrefl _)

end AccountModificationEntry

/-! ### The same inserts and merges in both -/

/-- How an account's log comes about: entries that are inserted into, and merged. -/
inductive LogBuild where
  | new
  | insert (b : LogBuild) (i : LogInsert)
  | merge (original mergeIn : LogBuild)

namespace LogBuild

/-- The log as an entry. -/
def entry (account : AccountID) : LogBuild → Result AccountModificationEntry
  | new => .ok (.newValue account)
  | insert b i => do return (← b.entry account).valueInsert i
  | merge original mergeIn => do
    return (← (← original.entry account).mergeValue (← mergeIn.entry account)).1

/-- The log as lists. -/
def txList (account : AccountID) : LogBuild → Result AccountModificationTxListWrapper
  | new => .ok (.newValue account)
  | insert b i => do return (← b.txList account).valueInsert i
  | merge original mergeIn => do (← original.txList account).valueMerge (← mergeIn.txList account)

/-- The self identifiers that are inserted. -/
def selfIdentifiers : LogBuild → List UInt64
  | new => []
  | insert b (.selfModification n) => b.selfIdentifiers ++ [n]
  | insert b _ => b.selfIdentifiers
  | merge original mergeIn => original.selfIdentifiers ++ mergeIn.selfIdentifiers

/-- The other accounts' identifiers that are inserted. -/
def otherIdentifiers : LogBuild → List TxIdentifier
  | new => []
  | insert b (.otherModification id) => b.otherIdentifiers ++ [id]
  | insert b _ => b.otherIdentifiers
  | merge original mergeIn => original.otherIdentifiers ++ mergeIn.otherIdentifiers

/-- The transactions that are inserted. -/
def transactions : LogBuild → List SignedTransaction
  | new => []
  | insert b (.newSelfTransaction tx) => b.transactions ++ [tx]
  | insert b _ => b.transactions
  | merge original mergeIn => original.transactions ++ mergeIn.transactions

/-- No sequence number is used twice. -/
def DistinctSequenceNumbers (b : LogBuild) : Prop :=
  (b.transactions.map SignedTransaction.sequenceNumber).Nodup

/-- The lists hold all inserts, in order. -/
theorem txList_eq (account : AccountID) (b : LogBuild) :
    b.txList account = .ok ⟨⟨b.transactions, b.selfIdentifiers, b.otherIdentifiers⟩, account⟩ := by
  induction b with
  | new => rfl
  | insert b i ih =>
    rw [txList, ih]
    cases i with
    | selfModification n => rfl
    | otherModification id => rfl
    | newSelfTransaction tx => rfl
  | merge original mergeIn ih ih' =>
    rw [txList, ih, ih']
    exact if_neg (not_not.mpr rfl)

/-- What an entry holds of the inserts. -/
structure HeldBy (b : LogBuild) (account : AccountID) (e : AccountModificationEntry) : Prop where
  owner : e.owner = some account
  identifiersSelf : e.identifiersSelf = b.selfIdentifiers.toFinset
  identifiersOther : e.identifiersOther = b.otherIdentifiers.toFinset
  newTransactionsSelf : ∀ n tx, e.newTransactionsSelf.find? n = some tx ↔
    tx ∈ b.transactions ∧ tx.sequenceNumber = n

variable {account : AccountID} {b : LogBuild} {e : AccountModificationEntry}

theorem HeldBy.find?_eq_none (h : b.HeldBy account e) {n : UInt64}
    (hn : n ∉ b.transactions.map SignedTransaction.sequenceNumber) :
    e.newTransactionsSelf.find? n = none := by
  rw [Option.eq_none_iff_forall_ne_some]
  intro tx htx
  obtain ⟨hmem, rfl⟩ := (h.newTransactionsSelf n tx).mp htx
  exact hn (List.mem_map_of_mem hmem)

theorem HeldBy.insert (h : b.HeldBy account e) (i : LogInsert)
    (hdistinct : (b.insert i).DistinctSequenceNumbers) :
    (b.insert i).HeldBy account (e.valueInsert i) := by
  cases i with
  | selfModification n =>
    refine ⟨h.owner, ?_, h.identifiersOther, h.newTransactionsSelf⟩
    rw [selfIdentifiers, List.toFinset_append, Finset.union_comm, ← h.identifiersSelf]
    rfl
  | otherModification id =>
    refine ⟨h.owner, h.identifiersSelf, ?_, h.newTransactionsSelf⟩
    rw [otherIdentifiers, List.toFinset_append, Finset.union_comm, ← h.identifiersOther]
    rfl
  | newSelfTransaction tx =>
    have hnew : tx.sequenceNumber ∉ b.transactions.map SignedTransaction.sequenceNumber := by
      rw [DistinctSequenceNumbers, transactions, List.map_append, List.nodup_append] at hdistinct
      exact fun hmem => hdistinct.2.2 _ hmem _ (by simp) rfl
    have hadd : e.addTxSelf tx =
        { e with newTransactionsSelf := e.newTransactionsSelf.insert tx.sequenceNumber tx } := by
      refine if_neg ?_
      rw [SortedMap.contains, h.find?_eq_none hnew]
      exact Bool.false_ne_true
    rw [AccountModificationEntry.valueInsert, hadd]
    refine ⟨h.owner, h.identifiersSelf, h.identifiersOther, fun n tx' => ?_⟩
    rw [SortedMap.find?_insert, transactions, List.mem_append, List.mem_singleton]
    split_ifs with heq
    · subst heq
      rw [Option.some.injEq]
      constructor
      · rintro rfl
        exact ⟨.inr rfl, rfl⟩
      · rintro ⟨hmem | rfl, hnumber⟩
        · exact absurd (hnumber ▸ List.mem_map_of_mem hmem) hnew
        · rfl
    · rw [h.newTransactionsSelf]
      constructor
      · exact fun hold => ⟨.inl hold.1, hold.2⟩
      · rintro ⟨hmem | rfl, hnumber⟩
        · exact ⟨hmem, hnumber⟩
        · exact absurd hnumber heq

/-- Whatever the splitting and the order of the merges, the entry has the sets of what was
inserted. -/
theorem entry_spec (account : AccountID) (b : LogBuild) (h : b.DistinctSequenceNumbers) :
    ∃ e, b.entry account = .ok e ∧ b.HeldBy account e := by
  induction b with
  | new => exact ⟨.newValue account, rfl, rfl, rfl, rfl, fun n tx => by simp [transactions,
      AccountModificationEntry.newValue]⟩
  | insert b i ih =>
    have hb : b.DistinctSequenceNumbers := by
      cases i with
      | selfModification n => exact h
      | otherModification id => exact h
      | newSelfTransaction tx =>
        rw [DistinctSequenceNumbers, transactions, List.map_append] at h
        exact h.of_append_left
    obtain ⟨e, he, hheld⟩ := ih hb
    exact ⟨e.valueInsert i, by rw [entry, he]; rfl, hheld.insert i h⟩
  | merge b b' ih ih' =>
    rw [DistinctSequenceNumbers, transactions, List.map_append, List.nodup_append] at h
    obtain ⟨hb, hb', hne⟩ := h
    obtain ⟨e, he, hheld⟩ := ih hb
    obtain ⟨e', he', hheld'⟩ := ih' hb'
    have hdisjoint (n : UInt64) (hn : e.newTransactionsSelf.find? n ≠ none) :
        e'.newTransactionsSelf.find? n = none := by
      refine hheld'.find?_eq_none fun hmem' => hn (hheld.find?_eq_none fun hmem => ?_)
      exact hne n hmem n hmem' rfl
    refine ⟨_, bind_eq_ok.mpr ⟨e, he, bind_eq_ok.mpr ⟨e', he', bind_eq_ok.mpr ⟨_,
      AccountModificationEntry.mergeValue_eq (hheld.owner.trans hheld'.owner.symm) hdisjoint,
      rfl⟩⟩⟩, ?_⟩
    refine ⟨hheld.owner, ?_, ?_, fun n tx => ?_⟩
    · rw [selfIdentifiers, List.toFinset_append, hheld.identifiersSelf, hheld'.identifiersSelf]
    · rw [otherIdentifiers, List.toFinset_append, hheld.identifiersOther, hheld'.identifiersOther]
    · rw [SortedMap.find?_union, transactions, List.mem_append, or_and_right,
        ← hheld.newTransactionsSelf, ← hheld'.newTransactionsSelf]
      cases hfind : e.newTransactionsSelf.find? n with
      | none => simp
      | some tx' =>
        rw [hdisjoint n (by rw [hfind]; exact Option.some_ne_none _)]
        simp

/-- The transactions of an entry, in order, are the sorted list. -/
theorem HeldBy.values_eq (h : b.HeldBy account e) (hdistinct : b.DistinctSequenceNumbers) :
    e.newTransactionsSelf.values = b.transactions.insertionSort
      fun a b => a.sequenceNumber ≤ b.sequenceNumber := by
  have hkey (a : UInt64 × SignedTransaction) (ha : a ∈ e.newTransactionsSelf.entries) :
      a.2 ∈ b.transactions ∧ a.2.sequenceNumber = a.1 :=
    (h.newTransactionsSelf a.1 a.2).mp (SortedMap.mem_entries.mp ha)
  have hvalues : e.newTransactionsSelf.values.Pairwise
      fun a b => a.sequenceNumber < b.sequenceNumber := by
    rw [SortedMap.values, List.pairwise_map]
    refine e.newTransactionsSelf.sorted.imp_of_mem fun {a c} ha hc hlt => ?_
    rw [(hkey a ha).2, (hkey c hc).2]
    exact hlt
  have hperm := List.perm_insertionSort
    (fun a b : SignedTransaction => a.sequenceNumber ≤ b.sequenceNumber) b.transactions
  have hsorted := sorted_by_of_nodup (List.pairwise_insertionSort _ b.transactions)
    ((hperm.map SignedTransaction.sequenceNumber).nodup_iff.mpr hdistinct)
  refine eq_of_sorted_by ?_ hvalues hsorted
  refine (List.Perm.trans ?_ hperm.symm)
  have hne (l : List SignedTransaction) (hl : l.Pairwise fun a b => a.sequenceNumber < b.sequenceNumber) :
      l.Nodup := hl.imp fun hlt heq => hlt.ne (congrArg _ heq)
  refine (List.perm_ext_iff_of_nodup (hne _ hvalues) (hdistinct.of_map _)).mpr fun tx => ?_
  rw [SortedMap.values, List.mem_map]
  constructor
  · rintro ⟨a, ha, rfl⟩
    exact (hkey a ha).1
  · intro htx
    have hfind := (h.newTransactionsSelf tx.sequenceNumber tx).mpr ⟨htx, rfl⟩
    exact ⟨_, SortedMap.mem_entries.mpr hfind, rfl⟩

/-- The transactions have no duplicates to remove. -/
theorem dedup_transactions (hdistinct : b.DistinctSequenceNumbers) :
    let l := b.transactions.insertionSort fun a b => a.sequenceNumber ≤ b.sequenceNumber
    dedup AccountModificationTxListWrapper.transactionEq l = l ∧
      l.Pairwise fun a b => a.sequenceNumber < b.sequenceNumber := by
  intro l
  have hperm : l.Perm b.transactions := List.perm_insertionSort _ _
  have hsorted : l.Pairwise fun a b => a.sequenceNumber < b.sequenceNumber :=
    sorted_by_of_nodup (List.pairwise_insertionSort _ b.transactions)
      ((hperm.map SignedTransaction.sequenceNumber).nodup_iff.mpr hdistinct)
  refine ⟨?_, hsorted⟩
  rw [dedup_eq]
  exact dedupPairs_of_pairwise (hsorted.imp fun hlt => decide_eq_false hlt.ne')

/-- What both representations of a log should write: the same bytes, of lists that are strictly
increasing. -/
def Agree (account : AccountID) (b : LogBuild) : Prop :=
  ∃ e log, b.entry account = .ok e ∧ b.txList account = .ok log ∧
    e.serializeXdr = .ok log.normalize.xdr ∧ log.normalize.StrictlyIncreasing

/-- The representations agree exactly when the copies of the identifiers that were logged fall into
the pairs that are compared. -/
theorem agree_iff (account : AccountID) (b : LogBuild) (hdistinct : b.DistinctSequenceNumbers) :
    b.Agree account ↔ CopiesPaired b.selfIdentifiers ∧ CopiesPaired b.otherIdentifiers := by
  constructor
  · rintro ⟨e, log, -, hlog, -, hincreasing⟩
    rw [txList_eq] at hlog
    cases hlog
    exact ⟨(sorted_dedup_insertionSort_iff _).mp hincreasing.identifiersSelf,
      (sorted_dedup_insertionSort_iff _).mp hincreasing.identifiersOthers⟩
  · rintro ⟨hself, hothers⟩
    obtain ⟨e, he, hheld⟩ := entry_spec account b hdistinct
    obtain ⟨hdedup, hsorted⟩ := dedup_transactions hdistinct
    refine ⟨e, _, he, txList_eq account b, ?_, ?_, ?_, ?_⟩
    · rw [AccountModificationEntry.serializeXdr_eq hheld.owner]
      refine congrArg Except.ok ?_
      rw [AccountModificationEntry.written, AccountModificationTxListWrapper.xdr,
        AccountModificationTxListWrapper.normalize, dedup_eq_sort hself, dedup_eq_sort hothers, hdedup,
        ← hheld.values_eq hdistinct, ← hheld.identifiersSelf, ← hheld.identifiersOther]
      simp only [vector, size32, Finset.length_sort, SortedMap.values, List.length_map, SortedMap.size]
    · exact (sorted_dedup_insertionSort_iff _).mpr hself
    · exact (sorted_dedup_insertionSort_iff _).mpr hothers
    · rw [AccountModificationTxListWrapper.normalize]
      dsimp only
      rw [hdedup]
      exact hsorted

/-- Two entries, each with the first operation of one transaction. -/
def mergedCopies : LogBuild :=
  .merge (.insert .new (.selfModification 256)) (.insert .new (.selfModification 256))

theorem agree_iff_mergedCopies : mergedCopies.Agree 7 := by
  refine (agree_iff 7 mergedCopies List.nodup_nil).mpr ⟨fun x => ?_, fun x => by
    simp [mergedCopies, otherIdentifiers]⟩
  by_cases hx : x = 256
  · subst hx
    decide
  · have hcount : mergedCopies.selfIdentifiers.count x = 0 := by
      refine List.count_eq_zero.mpr fun hmem => hx ?_
      simpa [mergedCopies, selfIdentifiers] using hmem
    rw [hcount]
    exact ⟨by decide, fun h => absurd h (by decide)⟩

/-- The second operation is logged twice, after the first. -/
def copiesAcrossPairs : LogBuild :=
  .insert (.insert (.insert .new (.selfModification 256)) (.selfModification 257)) (.selfModification 257)

/-- Both copies stay in the list. -/
theorem disagree_copiesAcrossPairs :
    copiesAcrossPairs.DistinctSequenceNumbers ∧ ¬ copiesAcrossPairs.Agree 7 := by
  refine ⟨List.nodup_nil, ?_⟩
  rintro ⟨e, log, -, hlog, -, hincreasing⟩
  rw [txList_eq] at hlog
  cases hlog
  exact absurd hincreasing.identifiersSelf (by decide)

end LogBuild

end Speedex
