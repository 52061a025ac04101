import Speedex.Commutativity.Schedules

/-! The order in which the transactions of a block are validated, and how they are split among the
validators, do not matter: not for whether the block is accepted, and not for what is left behind. -/

namespace Speedex

open Lib

/-! ### Merging the new offers -/

/-- The tries of new offers, merged into a trie in turn. -/
def mergeAll (t : OrderbookTrie) (tries : List OrderbookTrie) : OrderbookTrie :=
  tries.foldl OrderbookTrie.mergeIn t

/-- The entries of the tries together. -/
def entriesOf (tries : List OrderbookTrie) : Multiset (OfferKey × OfferLeaf) :=
  (tries.map fun t => (t.entries : Multiset (OfferKey × OfferLeaf))).sum

theorem mem_entries_iff {t : OrderbookTrie} {key : OfferKey} {leaf : OfferLeaf} :
    (key, leaf) ∈ (t.entries : Multiset (OfferKey × OfferLeaf)) ↔ t.find? key = some leaf := by
  rw [Multiset.mem_coe, SortedMap.mem_entries]

/-- As no two of the tries share a key, what is found after merging them is in one of them, or in
none and in the trie that they were merged into. -/
theorem find?_mergeAll {t : OrderbookTrie} {tries : List OrderbookTrie}
    (hnodup : ((entriesOf tries).map Prod.fst).Nodup) (key : OfferKey) (leaf : OfferLeaf) :
    (mergeAll t tries).find? key = some leaf ↔ (key, leaf) ∈ entriesOf tries ∨
      (∀ leaf', (key, leaf') ∉ entriesOf tries) ∧ t.find? key = some leaf := by
  induction tries generalizing t with
  | nil => simp [mergeAll, entriesOf]
  | cons u tries ih =>
    have hcons : entriesOf (u :: tries) = (u.entries : Multiset _) + entriesOf tries := List.sum_cons
    have hmerge : mergeAll t (u :: tries) = mergeAll (t.mergeIn u) tries := rfl
    rw [hcons, Multiset.map_add] at hnodup
    obtain ⟨-, hrest, hdisjoint⟩ := Multiset.nodup_add.mp hnodup
    have happart : ∀ {leaf leaf'}, u.find? key = some leaf → (key, leaf') ∉ entriesOf tries := by
      intro leaf leaf' hleaf hmem
      exact Multiset.disjoint_left.mp hdisjoint
        (Multiset.mem_map.mpr ⟨(key, leaf), mem_entries_iff.mpr hleaf, rfl⟩)
        (Multiset.mem_map.mpr ⟨(key, leaf'), hmem, rfl⟩)
    rw [hmerge, ih hrest, hcons, Multiset.mem_add, mem_entries_iff, OrderbookTrie.mergeIn,
      SortedMap.find?_union]
    simp only [Multiset.mem_add, mem_entries_iff, not_or]
    cases hu : u.find? key with
    | none => simp
    | some leaf' =>
      simp [happart hu]

theorem mergeAll_congr {tries tries' : List OrderbookTrie} (h : entriesOf tries = entriesOf tries')
    (hnodup : ((entriesOf tries).map Prod.fst).Nodup) (t : OrderbookTrie) :
    mergeAll t tries = mergeAll t tries' := by
  refine SortedMap.ext_find fun key => Option.ext fun leaf => ?_
  rw [find?_mergeAll hnodup, find?_mergeAll (h ▸ hnodup), h]

namespace ParallelValidate

variable {s s' : ParallelValidate}

/-- The new offers for one orderbook, by validator. -/
def triesFor (s : ParallelValidate) (idx : Nat) : List OrderbookTrie :=
  s.validators.values.map fun v => v.manager.newOffers.getD idx ∅

theorem newOffers_produced (s : ParallelValidate) (idx : Nat) :
    s.produced.newOffers idx = entriesOf (s.triesFor idx) := by
  unfold produced entriesOf triesFor
  rw [List.map_map]
  induction s.validators.values with
  | nil => rfl
  | cons v l ih =>
    rw [List.map_cons, List.map_cons, List.sum_cons, List.sum_cons, Produced.newOffers_add,
      Pi.add_apply, ih]
    rfl

/-- An orderbook with more new offers. -/
def addAllOffers (tries : List OrderbookTrie) (ob : Orderbook) : Orderbook :=
  { ob with uncommittedOffers := mergeAll ob.uncommittedOffers tries }

theorem modifyBook_id (m : OrderbookManager) (idx : Nat) : m.modifyBook idx id = m := by
  unfold OrderbookManager.modifyBook
  rw [List.modify_id]

theorem partialFinish_eq (m : ValidatingSerialManager) {books : OrderbookManager} {idx : Nat}
    (hidx : idx < books.orderbooks.length) : m.partialFinish books idx =
      .ok (books.modifyBook idx (·.addOffers (m.newOffers.getD idx ∅))) := by
  unfold ValidatingSerialManager.partialFinish
  rw [List.getD_eq_getElem?_getD]
  cases m.newOffers[idx]? with
  | none => exact congrArg Except.ok (modifyBook_id books idx).symm
  | some t => exact bind_eq_ok.mpr ⟨_, vectorAt_eq_ok.mpr (List.getElem?_eq_getElem hidx), rfl⟩

theorem modifyBook_modifyBook (m : OrderbookManager) (idx : Nat) (f g : Orderbook → Orderbook) :
    (m.modifyBook idx f).modifyBook idx g = m.modifyBook idx (g ∘ f) := by
  unfold OrderbookManager.modifyBook
  rw [List.modify_modify_eq]

theorem finishBook_eq (validators : List SerialValidator) {books : OrderbookManager} {idx : Nat}
    (hidx : idx < books.orderbooks.length) :
    validators.foldlM (fun books v => v.manager.partialFinish books idx) books =
      .ok (books.modifyBook idx
        (addAllOffers (validators.map fun v => v.manager.newOffers.getD idx ∅))) := by
  induction validators generalizing books with
  | nil => exact congrArg Except.ok (modifyBook_id books idx).symm
  | cons v validators ih =>
    rw [List.foldlM_cons, partialFinish_eq v.manager hidx, ok_bind,
      ih (by simpa [OrderbookManager.modifyBook] using hidx), modifyBook_modifyBook]
    rfl

/-- The orderbooks with all new offers. -/
def gathered (s : ParallelValidate) : OrderbookManager :=
  (List.range s.books.getNumOrderbooks).foldl
    (fun books idx => books.modifyBook idx (addAllOffers (s.triesFor idx))) s.books

theorem finish_eq (h : s.books.orderbooks.length = s.books.getNumOrderbooks) :
    s.finish = .ok s.gathered := by
  have hfold : ∀ (l : List Nat) (books : OrderbookManager),
      (∀ idx ∈ l, idx < books.orderbooks.length) →
      l.foldlM (fun books idx => s.validators.values.foldlM
        (fun books v => v.manager.partialFinish books idx) books) books =
      .ok (l.foldl (fun books idx => books.modifyBook idx (addAllOffers (s.triesFor idx))) books) := by
    intro l
    induction l with
    | nil => exact fun books _ => rfl
    | cons idx l ih =>
      intro books hl
      rw [List.foldlM_cons, finishBook_eq _ (hl idx List.mem_cons_self), ok_bind, List.foldl_cons]
      refine ih _ fun idx' hidx' => ?_
      simpa [OrderbookManager.modifyBook] using hl idx' (List.mem_cons_of_mem _ hidx')
  refine hfold _ _ fun idx hidx => ?_
  rw [h]
  exact List.mem_range.mp hidx

/-- The orderbooks after the block do not depend on how the new offers are spread. -/
theorem gathered_congr (hbooks : s'.books = s.books) (hproduced : s'.produced = s.produced)
    (hnodup : ∀ idx, ((s.produced.newOffers idx).map Prod.fst).Nodup) :
    s'.gathered = s.gathered := by
  unfold gathered
  rw [hbooks]
  congr 1
  funext books idx
  have hentries : entriesOf (s'.triesFor idx) = entriesOf (s.triesFor idx) := by
    rw [← newOffers_produced, ← newOffers_produced, hproduced]
  have hnodup' : ((entriesOf (s'.triesFor idx)).map Prod.fst).Nodup := by
    rw [hentries, ← newOffers_produced]
    exact hnodup idx
  have hadd : addAllOffers (s'.triesFor idx) = addAllOffers (s.triesFor idx) := by
    funext ob
    unfold addAllOffers
    rw [mergeAll_congr hentries hnodup']
  rw [hadd]

/-! ### Statistics and executions -/

theorem get_add (stats other : ValidationStatistics) (i : Nat) :
    (stats.add other).get i = stats.get i + other.get i := by
  unfold ValidationStatistics.add
  by_cases hi : i < max stats.length other.length
  · rw [ValidationStatistics.get, List.getD_eq_getElem _ _ (by simpa using hi)]
    simp
  · rw [not_lt, max_le_iff] at hi
    unfold ValidationStatistics.get
    rw [List.getD_eq_default _ _ (by simpa using hi), List.getD_eq_default _ _ hi.1,
      List.getD_eq_default _ _ hi.2]
    rfl

theorem length_add (stats other : ValidationStatistics) :
    (stats.add other).length = max stats.length other.length := by
  simp [ValidationStatistics.add]

theorem get_conclude (s : ParallelValidate) (stats : ValidationStatistics) (i : Nat) :
    (s.conclude stats).get i = stats.get i + s.produced.supplies i := by
  unfold conclude produced
  induction s.validators.values generalizing stats with
  | nil => exact (add_zero _).symm
  | cons v l ih =>
    rw [List.foldl_cons, ih, get_add, List.map_cons, List.sum_cons, add_assoc]
    rfl

theorem length_conclude (s : ParallelValidate) (stats : ValidationStatistics) :
    (s.conclude stats).length = max stats.length s.produced.size := by
  unfold conclude produced
  induction s.validators.values generalizing stats with
  | nil => exact (max_eq_left (Nat.zero_le _)).symm
  | cons v l ih =>
    rw [List.foldl_cons, ih, length_add, List.map_cons, List.sum_cons, Produced.size_add, max_assoc]
    rfl

theorem ext_get {stats stats' : ValidationStatistics} (hlength : stats.length = stats'.length)
    (h : ∀ i, stats.get i = stats'.get i) : stats = stats' := by
  refine List.ext_getElem hlength fun i hi hi' => ?_
  have hi'' := h i
  unfold ValidationStatistics.get at hi''
  rwa [List.getD_eq_getElem _ _ hi, List.getD_eq_getElem _ _ hi'] at hi''

theorem conclude_congr (hproduced : s'.produced = s.produced) (stats : ValidationStatistics) :
    s'.conclude stats = s.conclude stats := by
  refine ext_get ?_ fun i => ?_
  · rw [length_conclude, length_conclude, hproduced]
  · rw [get_conclude, get_conclude, hproduced]

theorem executed_produced (s : ParallelValidate) :
    (s.executed : Multiset Execution) = s.produced.executed := by
  unfold executed produced
  induction s.validators.values with
  | nil => rfl
  | cons v l ih =>
    rw [List.flatMap_cons, List.map_cons, List.sum_cons, ← Multiset.coe_add, ih]
    rfl

theorem executed_congr (hproduced : s'.produced = s.produced) : s'.executed.Perm s.executed := by
  rw [← Multiset.coe_eq_coe, executed_produced, executed_produced, hproduced]

/-! ### What is left behind -/

theorem books_eq_of_untouched {m m' : OrderbookManager} (h : m'.untouched = m.untouched)
    (hoffers : m'.orderbooks.map Orderbook.committedOffers =
      m.orderbooks.map Orderbook.committedOffers) : m' = m := by
  have hassets := congrArg OrderbookManager.numAssets h
  have hrest := congrArg OrderbookManager.orderbooks h
  have hbooks : m'.orderbooks = m.orderbooks := by
    have hinj : Function.Injective fun ob : Orderbook =>
        (({ ob with committedOffers := ∅ } : Orderbook), ob.committedOffers) := by
      rintro ⟨_, _, _, _, _⟩ ⟨_, _, _, _, _⟩ hpair
      simp only [Prod.mk.injEq, Orderbook.mk.injEq] at hpair
      obtain ⟨⟨rfl, -, rfl, rfl, rfl⟩, rfl⟩ := hpair
      rfl
    refine List.map_injective_iff.mpr hinj ?_
    have hzip := congrArg₂ List.zip hrest hoffers
    simpa only [OrderbookManager.untouched, List.zip_map', Function.comp_def] using hzip
  cases m
  cases m'
  exact congrArg₂ OrderbookManager.mk hbooks hassets

/-- Transactions keep the orderbooks complete. -/
theorem complete_of_untouched {m m' : OrderbookManager} (h : m'.untouched = m.untouched)
    (hcomplete : m.orderbooks.length = m.getNumOrderbooks) :
    m'.orderbooks.length = m'.getNumOrderbooks := by
  have hassets : m'.numAssets = m.numAssets := by
    have hassets := congrArg OrderbookManager.numAssets h
    exact hassets
  have hlength : m'.orderbooks.length = m.orderbooks.length := by
    have hlength := congrArg (fun m => m.orderbooks.length) h
    simpa [OrderbookManager.untouched] using hlength
  rw [hlength, hcomplete, OrderbookManager.getNumOrderbooks, OrderbookManager.getNumOrderbooks,
    hassets]

theorem db_eq_of_untouched {db db' : MemoryDatabase} (h : db'.untouched = db.untouched)
    (haccounts : db'.database = db.database)
    (hids : db'.reservedAccountIds = db.reservedAccountIds) :
    { db' with uncommittedDb := db.uncommittedDb } = db := by
  cases db
  cases db'
  simp only [MemoryDatabase.untouched, MemoryDatabase.mk.injEq] at h haccounts hids ⊢
  obtain ⟨-, rfl, -, -, rfl, rfl, rfl⟩ := h
  simp [haccounts, hids]

end ParallelValidate

/-! ### The log -/

theorem entry_valueMerge (l l' : AccountModificationTxList) :
    (l.valueMerge l').entry = l.entry + l'.entry := by
  simp [AccountModificationTxList.entry, AccountModificationTxList.valueMerge]

/-- Merging entries of different accounts into a log. -/
theorem logEntries_merge {l : List (AccountID × AccountModificationTxList)}
    (hnodup : (l.map (·.1)).Nodup) (log : ModificationTrie) (account : AccountID) :
    (l.foldl (fun log a => log.valueInsert a.1 (·.valueMerge a.2)) log).logEntries account =
      match SortedMap.lookup account l with
      | some v => some ((log.logEntries account).getD 0 + v.entry)
      | none => log.logEntries account := by
  induction l generalizing log with
  | nil => rfl
  | cons a l ih =>
    obtain ⟨hnew, hrest⟩ := List.nodup_cons.mp hnodup
    rw [List.foldl_cons, ih hrest, logEntries_valueInsert log a.1 fun l' => entry_valueMerge l' a.2]
    by_cases hk : account = a.1
    · subst hk
      have hnone : SortedMap.lookup a.1 l = none := by
        by_contra hsome
        obtain ⟨v, hv⟩ := Option.ne_none_iff_exists'.mp hsome
        exact hnew (List.mem_map.mpr ⟨_, SortedMap.mem_of_lookup hv, rfl⟩)
      rw [hnone, SortedMap.lookup, if_pos rfl]
      exact Function.update_self ..
    · rw [SortedMap.lookup, if_neg (Ne.symm hk)]
      simp only [Function.update_of_ne hk]

theorem logEntries_mergeInLogBatch (cache : ModificationTrie) {main : ModificationTrie}
    (hempty : main.size = 0) :
    (AccountModificationLog.mergeInLogBatch ⟨cache, main⟩).modificationLog.logEntries =
      cache.logEntries := by
  have hmain : main = ∅ := by
    refine SortedMap.ext_find fun k => ?_
    rw [SortedMap.find?, List.length_eq_zero_iff.mp hempty]
    rfl
  funext account
  rw [AccountModificationLog.mergeInLogBatch, hmain, logEntries_merge cache.nodup_keys]
  unfold ModificationTrie.logEntries SortedMap.find?
  cases SortedMap.lookup account cache.entries with
  | none => rfl
  | some v => exact congrArg some (zero_add _)

/-- Whether the accounts are valid does not depend on the order of the log. -/
theorem checkValidState_congr {db db' : MemoryDatabase} {log log' : ModificationTrie}
    (hids : db'.userIdToIdxMap = db.userIdToIdxMap) (haccounts : db'.database = db.database)
    (hcreated : db'.uncommittedDb.Perm db.uncommittedDb) (hlog : log'.logEntries = log.logEntries) :
    db'.checkValidState log' = db.checkValidState log := by
  have hkeys : ∀ account, account ∈ log'.keys ↔ account ∈ log.keys := by
    intro account
    have hentry := congrArg Option.isSome (congrFun hlog account)
    simp only [ModificationTrie.logEntries, Option.isSome_map] at hentry
    rw [SortedMap.mem_keys, SortedMap.mem_keys, SortedMap.contains, SortedMap.contains, hentry]
  unfold MemoryDatabase.checkValidState MemoryDatabase.lookupUser
  rw [hids, haccounts, hcreated.all_eq]
  refine congrArg (· && _) (Bool.eq_iff_iff.mpr ?_)
  simp only [List.all_eq_true, hkeys]

/-! ### Blocks -/

section Blocks

variable {config : SignatureConfig} {checker : OrderbookStateCommitmentChecker}
  {db : MemoryDatabase} {books : OrderbookManager} {log : AccountModificationLog}
  {mainStats : ValidationStatistics} {schedule : List (Nat × SignedTransaction)}
  {r : BlockValidation}

/-- What it takes for a block to be accepted. -/
theorem validateTransactionBlock_eq_ok :
    validateTransactionBlock config checker db books log mainStats schedule = .ok (true, r) ↔
      log.modificationLog.size = 0 ∧ ∃ s books',
        schedule.foldlM (ParallelValidate.validateNext config checker) ⟨db, books, log.cache, ∅⟩ =
          .ok s ∧
        s.valid = true ∧ s.finish = .ok books' ∧
        s.db.checkValidState
          (AccountModificationLog.mergeInLogBatch ⟨s.log, log.modificationLog⟩).modificationLog =
            true ∧
        r = ⟨s.db, books', AccountModificationLog.mergeInLogBatch ⟨s.log, log.modificationLog⟩,
          s.conclude mainStats, s.executed⟩ := by
  unfold validateTransactionBlock
  constructor
  · intro h
    split at h
    · cases h
    rename_i hlog
    obtain ⟨s, hs, h⟩ := bind_eq_ok.mp h
    split at h
    · cases h
    rename_i hvalid
    obtain ⟨books', hfinish, h⟩ := bind_eq_ok.mp h
    obtain ⟨hstate, rfl⟩ := Prod.mk.inj (Except.ok.inj h)
    exact ⟨not_not.mp hlog, s, books', hs, by simpa using hvalid, hfinish, hstate, rfl⟩
  · rintro ⟨hlog, s, books', hs, hvalid, hfinish, hstate, rfl⟩
    rw [if_neg (not_not.mpr hlog)]
    refine bind_eq_ok.mpr ⟨s, hs, ?_⟩
    dsimp only
    rw [if_neg (by simp [hvalid]), hfinish, ok_bind, hstate]
    rfl

end Blocks

/-- Two results of validation that differ at most in the order of what came in. -/
structure SameBlock (r r' : BlockValidation) : Prop where
  /-- the new accounts are the same, in some order -/
  created : r'.db.uncommittedDb.Perm r.db.uncommittedDb
  db : { r'.db with uncommittedDb := r.db.uncommittedDb } = r.db
  books : r'.books = r.books
  cache : r'.log.cache = r.log.cache
  /-- the entries of the log are the same, in some order -/
  log : r'.log.modificationLog.logEntries = r.log.modificationLog.logEntries
  mainStats : r'.mainStats = r.mainStats
  executed : r'.executed.Perm r.executed

/-- If a block is accepted, it is accepted with its transactions in any order and split in any way
among the validators, and what is left behind is the same. -/
theorem validateTransactionBlock_perm (config : SignatureConfig)
    (checker : OrderbookStateCommitmentChecker) (db : MemoryDatabase) (books : OrderbookManager)
    (log : AccountModificationLog) (mainStats : ValidationStatistics)
    (schedule schedule' : List (Nat × SignedTransaction)) (r : BlockValidation)
    (hbooks : books.orderbooks.length = books.getNumOrderbooks)
    (hperm : (schedule.map (·.2)).Perm (schedule'.map (·.2)))
    (h : validateTransactionBlock config checker db books log mainStats schedule = .ok (true, r)) :
    ∃ r', validateTransactionBlock config checker db books log mainStats schedule' =
      .ok (true, r') ∧ SameBlock r r' := by
  obtain ⟨hlog, s, books', hs, hvalid, hfinish, hstate, rfl⟩ := validateTransactionBlock_eq_ok.mp h
  have hprep := ParallelValidate.prepared_start checker db books log.cache
  obtain ⟨-, hmakes, hprep'⟩ := ParallelValidate.validateAll_makes hprep hs hvalid
  obtain ⟨s', hs', hvalid', hsame⟩ := ParallelValidate.validateAll_perm hprep hperm hs hvalid
  have hstate' := hsame.blockState
  have hids : s'.db.userIdToIdxMap = s.db.userIdToIdxMap := by
    have hids := congrArg MemoryDatabase.userIdToIdxMap hsame.db
    exact hids
  have hproduced : s'.produced = s.produced := congrArg BlockState.produced hstate'
  have haccounts : s'.db.database = s.db.database := congrArg BlockState.accounts hstate'
  have hcreated : s'.db.uncommittedDb.Perm s.db.uncommittedDb :=
    Multiset.coe_eq_coe.mp (congrArg BlockState.created hstate')
  have hmerged : (AccountModificationLog.mergeInLogBatch
      ⟨s'.log, log.modificationLog⟩).modificationLog.logEntries =
        (AccountModificationLog.mergeInLogBatch
          ⟨s.log, log.modificationLog⟩).modificationLog.logEntries := by
    rw [logEntries_mergeInLogBatch s'.log hlog, logEntries_mergeInLogBatch s.log hlog]
    exact congrArg BlockState.log hstate'
  -- the orderbooks are the same before the new offers are merged in, and after
  have hsameBooks : s'.books = s.books := ParallelValidate.books_eq_of_untouched hsame.books
    (congrArg BlockState.committedOffers hstate')
  have hcomplete := ParallelValidate.complete_of_untouched hmakes.books hbooks
  have hfinish' : s'.finish = .ok books' := by
    rw [ParallelValidate.finish_eq (hsameBooks ▸ hcomplete),
      ParallelValidate.gathered_congr hsameBooks hproduced hprep'.numbered.nodup,
      ← ParallelValidate.finish_eq hcomplete, hfinish]
  refine ⟨_, validateTransactionBlock_eq_ok.mpr
    ⟨hlog, s', books', hs', hvalid', hfinish', ?_, rfl⟩, ?_⟩
  · rw [checkValidState_congr hids haccounts hcreated hmerged]
    exact hstate
  · exact {
      created := hcreated
      db := ParallelValidate.db_eq_of_untouched hsame.db haccounts
        (congrArg BlockState.reservedAccountIds hstate')
      books := rfl
      cache := rfl
      log := hmerged
      mainStats := ParallelValidate.conclude_congr hproduced mainStats
      executed := ParallelValidate.executed_congr hproduced }

/-- Accounts 7 and 8, with 200 of asset 0 and 100 of asset 1 each. -/
def tradersDb : MemoryDatabase where
  database := [⟨[.ofAmount 200, .ofAmount 100], [], .ofId 0, 7, 0⟩,
    ⟨[.ofAmount 200, .ofAmount 100], [], .ofId 0, 8, 0⟩]
  userIdToIdxMap := ((∅ : SortedMap AccountID Nat).insert 7 0).insert 8 1
  uncommittedDb := []
  reservedAccountIds := ∅
  commitmentTrie := ∅
  accountCreationThunks := []
  minPersistedRoundNumber := 0

/-- A header by which new offers of the first orderbook are cleared at once, and those of the second
stay on the books. -/
def tradersChecker : OrderbookStateCommitmentChecker where
  commitments := [⟨0, 0, .zero, 1, 0⟩, ⟨0, 0, .zero, 0, 0⟩]
  prices := OrderbookManager.unitPrices
  taxRate := 10

/-- Account 7 pays account 8 and makes an offer. -/
def firstTrade : SignedTransaction :=
  ⟨⟨⟨7, 256⟩, [.PAYMENT ⟨8, 0, 10⟩, .CREATE_SELL_OFFER ⟨⟨0, 1, .SELL⟩, 50, 2 ^ 24⟩],
    Nat.le_of_ble_eq_true rfl, 20⟩, 0⟩

/-- Account 8 makes an offer and pays account 7. -/
def secondTrade : SignedTransaction :=
  ⟨⟨⟨8, 512⟩, [.CREATE_SELL_OFFER ⟨⟨1, 0, .SELL⟩, 40, 2 ^ 24⟩, .PAYMENT ⟨7, 1, 5⟩],
    Nat.le_of_ble_eq_true rfl, 20⟩, 0⟩

/-- Signatures are not checked. -/
def unchecked : SignatureConfig := ⟨false, fun _ _ _ => true⟩

/-- Two validators, with a transaction each. -/
def tradersBlock : Result (Bool × BlockValidation) :=
  validateTransactionBlock unchecked tradersChecker tradersDb (.new 2) .empty []
    [(0, firstTrade), (1, secondTrade)]

theorem tradersBlock_accepted : ∃ r, tradersBlock = .ok (true, r) := by
  obtain ⟨⟨valid, r⟩, h, hvalid⟩ := returns_iff.mp (show returns tradersBlock (fun r => r.1) = true by
    decide +kernel)
  obtain rfl : valid = true := hvalid
  exact ⟨r, h⟩

/-- One validator works on both transactions, the second one first. -/
theorem validateTransactionBlock_perm_traders :
    ∃ r r', tradersBlock = .ok (true, r) ∧
      validateTransactionBlock unchecked tradersChecker tradersDb (.new 2) .empty []
        [(3, secondTrade), (3, firstTrade)] = .ok (true, r') ∧ SameBlock r r' := by
  obtain ⟨r, h⟩ := tradersBlock_accepted
  obtain ⟨r', h', hsame⟩ := validateTransactionBlock_perm unchecked tradersChecker tradersDb (.new 2)
    .empty [] [(0, firstTrade), (1, secondTrade)] [(3, secondTrade), (3, firstTrade)] r (by decide)
    (.swap ..) h
  exact ⟨r, r', h, h', hsame⟩

/-! ### When a block is accepted -/

namespace BlockState

/-- No account of the log, and no new account, has a negative balance. -/
def Valid (ids : SortedMap AccountID Nat) (a : BlockState) : Prop :=
  (∀ owner u, (a.log owner).isSome = true → (ids.find? owner).bind (a.accounts[·]?) = some u →
    u.inValidState = true) ∧
  ∀ u ∈ a.created, u.inValidState = true

theorem valid_of_iff {db : MemoryDatabase} {books : OrderbookManager} {log main : ModificationTrie}
    {p : Produced} (hmain : main.logEntries = log.logEntries) :
    db.checkValidState main = true ↔ (BlockState.of db books log p).Valid db.userIdToIdxMap := by
  have hkeys : ∀ owner, owner ∈ main.keys ↔ (log.logEntries owner).isSome = true := by
    intro owner
    rw [SortedMap.mem_keys, SortedMap.contains, ← hmain, ModificationTrie.logEntries,
      Option.isSome_map]
  unfold MemoryDatabase.checkValidState Valid
  simp only [Bool.and_eq_true, List.all_eq_true, hkeys]
  refine and_congr ⟨fun h owner u howner hu => ?_, fun h owner howner => ?_⟩ Iff.rfl
  · have hvalid := h owner howner
    rw [show (db.lookupUser owner).bind (db.database[·]?) = some u from hu] at hvalid
    exact hvalid
  · cases hu : (db.lookupUser owner).bind (db.database[·]?) with
    | none => rfl
    | some u => exact h owner u howner hu

end BlockState

theorem pairwise_compatible_iff {us : List Update} :
    us.Pairwise BlockState.updates.compatible ↔ (us.filter Update.exclusive).Nodup := by
  rw [List.Nodup, List.pairwise_filter]
  refine List.Pairwise.iff fun u v => ⟨fun h hu _ => h hu, fun h hu => ?_⟩
  rintro rfl
  exact h hu hu rfl

/-- A block is accepted if every transaction is valid as far as it can be told without the others,
what they take is free before the block and taken only once, and no balance is negative when all of
their updates have been made. -/
theorem validateTransactionBlock_accepts_iff (config : SignatureConfig)
    (checker : OrderbookStateCommitmentChecker) (db : MemoryDatabase) (books : OrderbookManager)
    (log : AccountModificationLog) (mainStats : ValidationStatistics)
    (schedule : List (Nat × SignedTransaction))
    (hbooks : books.orderbooks.length = books.getNumOrderbooks)
    (hlog : log.modificationLog.size = 0) :
    (∃ r, validateTransactionBlock config checker db books log mainStats schedule =
      .ok (true, r)) ↔
      WellFormed config (.of db books checker) (schedule.map (·.2)) ∧
      (∀ u ∈ blockUpdates config (.of db books checker) (schedule.map (·.2)),
        (BlockState.of db books log.cache 0).allowed u = true) ∧
      ((blockUpdates config (.of db books checker) (schedule.map (·.2))).filter
        Update.exclusive).Nodup ∧
      ((blockUpdates config (.of db books checker) (schedule.map (·.2))).foldl BlockState.effect
        (.of db books log.cache 0)).Valid db.userIdToIdxMap := by
  set us := blockUpdates config (.of db books checker) (schedule.map (·.2)) with hus
  have hprep := ParallelValidate.prepared_start checker db books log.cache
  have hmain : ∀ s : ParallelValidate, s.db.checkValidState
      (AccountModificationLog.mergeInLogBatch ⟨s.log, log.modificationLog⟩).modificationLog = true ↔
        s.blockState.Valid s.db.userIdToIdxMap :=
    fun s => BlockState.valid_of_iff (logEntries_mergeInLogBatch s.log hlog)
  rw [← pairwise_compatible_iff]
  constructor
  · rintro ⟨r, h⟩
    obtain ⟨-, s, books', hs, hvalid, -, hstate, -⟩ := validateTransactionBlock_eq_ok.mp h
    obtain ⟨hformed, hmakes, -⟩ := ParallelValidate.validateAll_makes hprep hs hvalid
    obtain ⟨hallowed, hpairs, hfinal⟩ := BlockState.updates.run_eq_some.mp hmakes.run
    have hids : s.db.userIdToIdxMap = db.userIdToIdxMap := by
      have hids := congrArg MemoryDatabase.userIdToIdxMap hmakes.db
      exact hids
    rw [hmain, hids, hfinal] at hstate
    exact ⟨hformed, hallowed, hpairs, hstate⟩
  · rintro ⟨hformed, hallowed, hpairs, hstate⟩
    have hrun := BlockState.updates.run_eq_some.mpr ⟨hallowed, hpairs, rfl⟩
    obtain ⟨s, hs, hvalid⟩ := ParallelValidate.validateAll_succeeds hprep hformed hrun
    obtain ⟨-, hmakes, -⟩ := ParallelValidate.validateAll_makes hprep hs hvalid
    have hids : s.db.userIdToIdxMap = db.userIdToIdxMap := by
      have hids := congrArg MemoryDatabase.userIdToIdxMap hmakes.db
      exact hids
    have hfinal := Option.some.inj (hmakes.run.symm.trans hrun)
    have hcomplete := ParallelValidate.complete_of_untouched hmakes.books hbooks
    refine ⟨_, validateTransactionBlock_eq_ok.mpr
      ⟨hlog, s, _, hs, hvalid, ParallelValidate.finish_eq hcomplete, ?_, rfl⟩⟩
    rw [hmain, hids, hfinal]
    exact hstate

theorem validateTransactionBlock_accepts_iff_traders :
    WellFormed unchecked (.of tradersDb (.new 2) tradersChecker) [firstTrade, secondTrade] ∧
      (∀ u ∈ blockUpdates unchecked (.of tradersDb (.new 2) tradersChecker)
        [firstTrade, secondTrade], (BlockState.of tradersDb (.new 2) ∅ 0).allowed u = true) ∧
      ((blockUpdates unchecked (.of tradersDb (.new 2) tradersChecker)
        [firstTrade, secondTrade]).filter Update.exclusive).Nodup ∧
      ((blockUpdates unchecked (.of tradersDb (.new 2) tradersChecker)
        [firstTrade, secondTrade]).foldl BlockState.effect (.of tradersDb (.new 2) ∅ 0)).Valid
          tradersDb.userIdToIdxMap :=
  (validateTransactionBlock_accepts_iff unchecked tradersChecker tradersDb (.new 2) .empty []
    [(0, firstTrade), (1, secondTrade)] (by decide) rfl).mp tradersBlock_accepted

end Speedex
