import Speedex.BlockProcessing.Transactions
import Speedex.Database.StoreRuns
import Speedex.Vm.Validation

/-! Transactions that crash the node, in the states that block production and block validation
reach. -/

namespace Speedex

open Lib

/-! ### Headers -/

namespace OrderbookStateCommitmentChecker

variable {c : OrderbookStateCommitmentChecker} {n : Nat}

/-- A header that passes `check_clearing` has a price for every asset that can be bought. -/
theorem prepared_of_checkClearing (hprices : c.prices.length = n)
    (hcommitments : c.commitments.length = getNumOrderbooksByAssetCount n)
    (h : c.checkClearing = .ok true) : c.Prepared n := by
  obtain ⟨totals, hfold, -⟩ := bind_eq_ok.mp h
  refine ⟨hcommitments, fun id hid => ?_⟩
  obtain ⟨idx, -, hlt, hfrom⟩ := categoryToIdx_of_valid hid
  have hmem : idx ∈ List.range (c.commitments.map
      SingleOrderbookStateCommitment.supplyActivated).length := by
    rw [List.length_map, hcommitments]
    exact List.mem_range.mpr hlt
  obtain ⟨totals₁, totals₂, hadd⟩ := foldlM_mem hfold hmem
  obtain ⟨supply, -, hadd⟩ := bind_eq_ok.mp hadd
  obtain ⟨sellPrice, hsellPrice, hadd⟩ := bind_eq_ok.mp hadd
  obtain ⟨buyPrice, hbuyPrice, hadd⟩ := bind_eq_ok.mp hadd
  obtain ⟨demanded, hdemanded, -⟩ := bind_eq_ok.mp hadd
  rw [hprices, hfrom] at hsellPrice
  rw [hprices, hfrom] at hbuyPrice
  refine ⟨sellPrice, buyPrice, hsellPrice, hbuyPrice, fun hzero => ?_⟩
  rw [Price.wideMultiplyValByAOverB, if_pos hzero] at hdemanded
  cases hdemanded

end OrderbookStateCommitmentChecker

/-! ### Reachable states -/

/-- The accounts of a node between two blocks: from genesis, after any blocks that it proposed,
accepted or rejected, and any writes to disk and rewinds. -/
inductive MemoryDatabase.BetweenBlocks : MemoryDatabase → Prop where
  | run {numAssets : Nat} {defaultAmount : Int64} {accounts : List (AccountID × PublicKey)}
    {s₀ s : AccountStore} (hnodup : (accounts.map Prod.fst).Nodup)
    (hgenesis : AccountStore.genesis numAssets defaultAmount accounts = .ok s₀)
    (hrun : AccountStore.Run (fun _ _ => True) s₀ s) : BetweenBlocks s.db

theorem MemoryDatabase.BetweenBlocks.indexed {db : MemoryDatabase} (h : db.BetweenBlocks) :
    db.Indexed := by
  obtain ⟨hnodup, hgenesis, hrun⟩ := h
  have hids := (AccountStore.run_identified
    (AccountStore.genesis_consistent hnodup hgenesis).identified hrun).ids
  intro account idx hidx
  have howner := (hids.lookup account idx).mp hidx
  simpa [MemoryDatabase.owners] using (List.getElem?_eq_some_iff.mp howner).1

/-- The orderbooks that the constructor makes.  The vector is never resized. -/
def OrderbookManager.Complete (books : OrderbookManager) : Prop :=
  books.orderbooks.length = books.getNumOrderbooks

theorem OrderbookManager.complete_new (numAssets : Nat) : (new numAssets).Complete := by
  simp [Complete, new, getNumOrderbooks]

/-- Block production: the workers share the accounts and the orderbooks, and have new offers of
their own. -/
structure Production where
  db : MemoryDatabase
  books : OrderbookManager
  log : ModificationTrie
  managers : List ProcessingSerialManager

namespace Production

variable {config : SignatureConfig} {p : Production}

/-- What a worker works on. -/
def worker (p : Production) (manager : ProcessingSerialManager) : ProcessorState :=
  ⟨p.db, p.books, manager, p.log⟩

/-- The states of block production, in which any worker takes any transaction next. -/
inductive Reachable (config : SignatureConfig) : Production → Prop where
  | start {db : MemoryDatabase} {books : OrderbookManager} (log : ModificationTrie)
    (numWorkers : Nat) (hdb : db.BetweenBlocks) (hbooks : books.Complete) :
    Reachable config ⟨db, books, log, List.replicate numWorkers ⟨[]⟩⟩
  | process {p : Production} {i : Nat} {m : ProcessingSerialManager} {tx : SignedTransaction}
    {status : TransactionProcessingStatus} {s : ProcessorState} (h : Reachable config p)
    (hm : p.managers[i]? = some m)
    (hprocess : (p.worker m).processTransaction config tx = .ok (status, s)) :
    Reachable config ⟨s.db, s.books, s.log, p.managers.set i s.manager⟩

/-- Every worker can take a transaction. -/
structure Ready (p : Production) : Prop where
  users : p.db.Indexed
  numBooks : p.books.Complete
  newOffers : ∀ m ∈ p.managers, m.newOffers.length ≤ p.books.getNumOrderbooks

theorem Ready.worker (h : p.Ready) {m : ProcessingSerialManager} (hm : m ∈ p.managers) :
    (p.worker m).Ready :=
  ⟨h.users, h.numBooks, h.newOffers m hm⟩

theorem Reachable.ready (h : Reachable config p) : p.Ready := by
  induction h with
  | start log numWorkers hdb hbooks =>
    refine ⟨hdb.indexed, hbooks, fun m hm => ?_⟩
    obtain rfl := (List.mem_replicate.mp hm).2
    exact Nat.zero_le _
  | @process p i m tx status s _ hm hprocess ih =>
    have hready := ih.worker (List.mem_of_getElem? hm)
    have hnot : ¬ (p.worker m).ReachesOutside config tx := fun hreaches =>
      ProcessorState.processTransaction_throws hready hreaches _ hprocess
    obtain ⟨status', s', hs', hleaves⟩ := ProcessorState.processTransaction_returns hready hnot
    cases hprocess.symm.trans hs'
    have hnum : s.books.getNumOrderbooks = p.books.getNumOrderbooks := by
      rw [OrderbookManager.getNumOrderbooks, hleaves.numAssets]
      rfl
    refine ⟨ih.users.sameCommitted hleaves.db, ?_, fun m' hm' => ?_⟩
    · exact (hleaves.numBooks.trans ih.numBooks).trans hnum.symm
    · show _ ≤ s.books.getNumOrderbooks
      rw [hnum]
      rcases List.mem_or_eq_of_mem_set hm' with hm' | rfl
      · exact ih.newOffers m' hm'
      · exact hleaves.newOffers

end Production

namespace ParallelValidate

variable {config : SignatureConfig} {checker : OrderbookStateCommitmentChecker} {s : ParallelValidate}

/-- The states of block validation for a header that has passed the checks before the
transactions. -/
inductive Reachable (config : SignatureConfig) (m : ManagementStructures)
    (prevBlock nextBlock : HashedBlock) : ParallelValidate → Prop where
  | start (hdb : m.db.BetweenBlocks) (hbooks : m.orderbookManager.Complete)
    (hheader : m.headerValid prevBlock nextBlock = true)
    (hclearing : (ManagementStructures.commitmentChecker nextBlock).checkClearing = .ok true) :
    Reachable config m prevBlock nextBlock
      ⟨m.db, m.orderbookManager, m.accountModificationLog.cache, ∅⟩
  | validate {s s' : ParallelValidate} {next : Nat × SignedTransaction}
    (h : Reachable config m prevBlock nextBlock s)
    (hnext : s.validateNext config (ManagementStructures.commitmentChecker nextBlock) next = .ok s') :
    Reachable config m prevBlock nextBlock s'

/-- Every validator can take a transaction. -/
structure Ready (checker : OrderbookStateCommitmentChecker) (s : ParallelValidate) : Prop where
  users : s.db.Indexed
  numBooks : s.books.Complete
  newOffers : ∀ i, (s.validator checker i).manager.newOffers.length ≤ s.books.getNumOrderbooks
  prepared : ∀ i, (s.validator checker i).manager.clearingCommitment.Prepared s.books.numAssets

theorem Ready.worker (h : s.Ready checker) (i : Nat) : (s.worker checker i).Ready :=
  ⟨h.users, h.numBooks, h.newOffers i, h.prepared i⟩

theorem Ready.validateNext {s' : ParallelValidate} {next : Nat × SignedTransaction}
    (h : s.Ready checker) (hnext : s.validateNext config checker next = .ok s') : s'.Ready checker := by
  unfold ParallelValidate.validateNext at hnext
  dsimp only at hnext
  split at hnext
  · cases hnext
    exact h
  obtain ⟨⟨valid, t⟩, ht, hnext⟩ := bind_eq_ok.mp hnext
  cases hnext
  have hready := h.worker next.1
  have hnot : ¬ (s.worker checker next.1).ReachesOutside config next.2 := fun hreaches =>
    ValidatorState.validateTransaction_throws hready hreaches _ ht
  obtain ⟨valid', t', ht', hleaves⟩ := ValidatorState.validateTransaction_returns hready hnot
  cases ht.symm.trans ht'
  have hnum : t.books.getNumOrderbooks = s.books.getNumOrderbooks := by
    rw [OrderbookManager.getNumOrderbooks, hleaves.numAssets]
    rfl
  have hvalidator (i : Nat) : (validator ⟨t.db, t.books, t.log,
      s.validators.insert next.1 ⟨t.manager, valid⟩⟩ checker i) =
      if next.1 = i then ⟨t.manager, valid⟩ else s.validator checker i := by
    simp only [validator, SortedMap.find?_insert]
    split_ifs <;> rfl
  refine ⟨h.users.sameCommitted hleaves.db, ?_, fun i => ?_, fun i => ?_⟩
  · exact (hleaves.numBooks.trans h.numBooks).trans hnum.symm
  · rw [hvalidator]
    show _ ≤ t.books.getNumOrderbooks
    rw [hnum]
    split_ifs
    · exact hleaves.newOffers
    · exact h.newOffers i
  · rw [hvalidator]
    show OrderbookStateCommitmentChecker.Prepared _ t.books.numAssets
    rw [hleaves.numAssets]
    split_ifs
    · exact hleaves.prepared
    · exact h.prepared i

theorem Reachable.ready {m : ManagementStructures} {prevBlock nextBlock : HashedBlock}
    (h : Reachable config m prevBlock nextBlock s) :
    s.Ready (ManagementStructures.commitmentChecker nextBlock) := by
  induction h with
  | start hdb hbooks hheader hclearing =>
    simp only [ManagementStructures.headerValid, Bool.and_eq_true, decide_eq_true_eq] at hheader
    have hprepared : (ManagementStructures.commitmentChecker nextBlock).Prepared
        m.orderbookManager.numAssets :=
      OrderbookStateCommitmentChecker.prepared_of_checkClearing hheader.1.1.1.2 hheader.1.1.2
        hclearing
    exact ⟨hdb.indexed, hbooks, fun _ => Nat.zero_le _, fun _ => hprepared⟩
  | validate _ hnext ih => exact ih.validateNext hnext

end ParallelValidate

/-! ### Crashes -/

/-- Processing gives a status, and there are new offers for valid orderbooks only. -/
def ProcessorState.Returns (config : SignatureConfig) (s : ProcessorState) (tx : SignedTransaction) :
    Prop :=
  ∃ status s', s.processTransaction config tx = .ok (status, s') ∧
    s'.manager.newOffers.length ≤ s.books.getNumOrderbooks

/-- Validating gives a verdict, and there are new offers for valid orderbooks only. -/
def ValidatorState.Returns (config : SignatureConfig) (s : ValidatorState) (tx : SignedTransaction) :
    Prop :=
  ∃ valid s', s.validateTransaction config tx = .ok (valid, s') ∧
    s'.manager.newOffers.length ≤ s.books.getNumOrderbooks

/-- In every state that is reached, a transaction is processed to a status exactly when it does not
come to a cancellation in a category that has no orderbook. -/
theorem transactions_return_iff (config : SignatureConfig) :
    (∀ p, Production.Reachable config p → ∀ m ∈ p.managers, ∀ tx,
      (p.worker m).Returns config tx ↔ ¬ (p.worker m).ReachesOutside config tx) ∧
    ∀ m prevBlock nextBlock s, ParallelValidate.Reachable config m prevBlock nextBlock s → ∀ i tx,
      let worker := s.worker (ManagementStructures.commitmentChecker nextBlock) i
      worker.Returns config tx ↔ ¬ worker.ReachesOutside config tx := by
  constructor
  · intro p hp m hm tx
    have hready := hp.ready.worker hm
    constructor
    · rintro ⟨status, s', hs', -⟩ hreaches
      exact ProcessorState.processTransaction_throws hready hreaches _ hs'
    · intro hnot
      obtain ⟨status, s', hs', hleaves⟩ := ProcessorState.processTransaction_returns hready hnot
      exact ⟨status, s', hs', hleaves.newOffers⟩
  · intro m prevBlock nextBlock s hs i tx
    have hready := hs.ready.worker i
    constructor
    · rintro ⟨valid, s', hs', -⟩ hreaches
      exact ValidatorState.validateTransaction_throws hready hreaches _ hs'
    · intro hnot
      obtain ⟨valid, s', hs', hleaves⟩ := ValidatorState.validateTransaction_returns hready hnot
      exact ⟨valid, s', hs', hleaves.newOffers⟩

/-- A transaction of account 7 that cancels an offer in a category. -/
def cancelTx (sellAsset buyAsset : AssetID) : SignedTransaction :=
  ⟨⟨⟨7, 256⟩, [.CANCEL_SELL_OFFER ⟨⟨sellAsset, buyAsset, .SELL⟩, 1, 1⟩],
    (by decide : 1 ≤ maxOpsPerTx), 100⟩, 0⟩

/-- Signatures are not checked. -/
def uncheckedSignatures : SignatureConfig := ⟨false, fun _ _ _ => false⟩

/-- The first state of the production of a block after genesis, with two assets and one worker. -/
def firstProduction (s₀ : AccountStore) : Production := ⟨s₀.db, .new 2, ∅, [⟨[]⟩]⟩

theorem firstProduction_reachable {s₀ : AccountStore}
    (h : AccountStore.genesis 2 1000 [(7, 0)] = .ok s₀) :
    Production.Reachable uncheckedSignatures (firstProduction s₀) :=
  .start ∅ 1 (.run (by decide) h (.refl s₀)) (OrderbookManager.complete_new 2)

/-- The first block after genesis, without clearing. -/
def firstBlock : HashedBlock :=
  ⟨⟨0, 1, [1, 1], 1, ⟨0, [⟨0, 0, .zero, 1, 0⟩, ⟨0, 0, .zero, 1, 0⟩], 0, 0⟩⟩, 0⟩

def firstStructures (s₀ : AccountStore) : ManagementStructures :=
  ⟨s₀.db, .new 2, .empty, 0, 0, uncheckedSignatures⟩

/-- The first state of its validation. -/
def firstValidation (s₀ : AccountStore) : ParallelValidate := ⟨s₀.db, .new 2, ∅, ∅⟩

theorem firstValidation_reachable {s₀ : AccountStore}
    (h : AccountStore.genesis 2 1000 [(7, 0)] = .ok s₀) :
    ParallelValidate.Reachable uncheckedSignatures (firstStructures s₀) genesisBlock firstBlock
      (firstValidation s₀) :=
  .start (.run (by decide) h (.refl s₀)) (OrderbookManager.complete_new 2) rfl (by decide +kernel)

/-- A cancellation of an offer to sell the last asset for itself, which has the index after the last
orderbook. -/
theorem cancelTx_crashes :
    ∃ s₀, AccountStore.genesis 2 1000 [(7, 0)] = .ok s₀ ∧
      Production.Reachable uncheckedSignatures (firstProduction s₀) ∧
      ((firstProduction s₀).worker ⟨[]⟩).processTransaction uncheckedSignatures (cancelTx 1 1) =
        .error .indexOutOfRange ∧
      ¬ ((firstProduction s₀).worker ⟨[]⟩).Returns uncheckedSignatures (cancelTx 1 1) := by
  obtain ⟨s₀, hs₀, hthrows⟩ := returns_iff.mp (show returns (AccountStore.genesis 2 1000 [(7, 0)])
    (fun s₀ => throws (((firstProduction s₀).worker ⟨[]⟩).processTransaction uncheckedSignatures
      (cancelTx 1 1)) .indexOutOfRange) = true by decide +kernel)
  rw [throws_iff] at hthrows
  refine ⟨s₀, hs₀, firstProduction_reachable hs₀, hthrows, ?_⟩
  rintro ⟨status, s', hs', -⟩
  cases hthrows.symm.trans hs'

/-- A cancellation in a category that has an orderbook. -/
theorem cancelTx_returns :
    ∃ s₀, AccountStore.genesis 2 1000 [(7, 0)] = .ok s₀ ∧
      ((firstProduction s₀).worker ⟨[]⟩).Returns uncheckedSignatures (cancelTx 0 1) ∧
      ((firstValidation s₀).worker (ManagementStructures.commitmentChecker firstBlock) 0).Returns
        uncheckedSignatures (cancelTx 0 1) := by
  obtain ⟨s₀, hs₀, -⟩ := returns_iff.mp (show returns (AccountStore.genesis 2 1000 [(7, 0)])
    (fun _ => true) = true by decide +kernel)
  have hwithin : ∀ op ∈ (cancelTx 0 1).transaction.operations,
      ¬ CancelsOutside (OrderbookManager.new 2) op := by decide +kernel
  have hproduction := firstProduction_reachable hs₀
  have hvalidation := firstValidation_reachable hs₀
  refine ⟨s₀, hs₀, ?_, ?_⟩
  · refine ((transactions_return_iff _).1 _ hproduction _ List.mem_cons_self _).mpr ?_
    exact ProcessorState.not_reachesOutside (hproduction.ready.worker List.mem_cons_self) hwithin
  · refine ((transactions_return_iff _).2 _ _ _ _ hvalidation 0 _).mpr ?_
    exact ValidatorState.not_reachesOutside (hvalidation.ready.worker 0) hwithin

end Speedex
