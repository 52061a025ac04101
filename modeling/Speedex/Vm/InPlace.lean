import Speedex.Vm.BlockNumbers
import Speedex.Orderbook.Categories

/-! The offers and the executions of a node that validates blocks: every offer is in the orderbook of
its category, and every execution of a block is at the prices of its header. -/

namespace Speedex

open Lib

/-! ### New offers -/

namespace ValidatingSerialManager

/-- The manager works for the header, has recorded only its executions, and has its new offers under
the indices of their categories. -/
structure Records (checker : OrderbookStateCommitmentChecker) (numAssets : Nat)
    (m : ValidatingSerialManager) : Prop where
  commitment : m.clearingCommitment = checker
  executed : ∀ e ∈ m.executed, Executed checker e
  newOffers : ∀ (i : Nat) (trie : OrderbookTrie), m.newOffers[i]? = some trie →
    trie.OfCategory (categoryFromIdx i numAssets)

variable {V : Type} [DatabaseView V] {checker : OrderbookStateCommitmentChecker} {numAssets : Nat}

theorem records_new : (new checker).Records checker numAssets where
  commitment := rfl
  executed e he := absurd he List.not_mem_nil
  newOffers i trie htrie := by cases htrie

/-- Tries that are added are empty. -/
theorem Records.ensure {m : ValidatingSerialManager} (h : m.Records checker numAssets) (idx : Nat)
    (stats : ValidationStatistics) :
    Records checker numAssets { m with
      activatedSupplies := stats
      newOffers := ensureSufficientNewOffersSz m.newOffers idx } where
  commitment := h.commitment
  executed := h.executed
  newOffers i trie htrie := by
    dsimp only [ensureSufficientNewOffersSz] at htrie
    rw [List.getElem?_append] at htrie
    split at htrie
    · exact h.newOffers i trie htrie
    · rw [List.getElem?_replicate] at htrie
      split at htrie
      · cases htrie
        exact OrderbookTrie.ofCategory_empty _
      · cases htrie

theorem clearNewOffer_records {idx : Nat} {offer : Offer} {metadata : OperationMetadata}
    {s s' : HandlerState ValidatingSerialManager V}
    (h : clearNewOffer idx offer metadata s = .ok s') (hs : Records checker numAssets s.manager) :
    s'.books = s.books ∧ Records checker numAssets s'.manager := by
  obtain ⟨sellPrice, hsell, h⟩ := bind_eq_ok.mp h
  obtain ⟨buyPrice, hbuy, h⟩ := bind_eq_ok.mp h
  obtain ⟨⟨buyAmount, credited⟩, hclear, h⟩ := bind_eq_ok.mp h
  obtain ⟨buyAmount', hcredit, hclear⟩ := bind_eq_ok.mp hclear
  cases hclear
  cases h
  rw [hs.commitment] at hsell hbuy hcredit
  have hexecuted := executed_of_fullBuyAmount hsell hbuy hcredit
  exact ⟨rfl, hs.commitment, executed_append hs.executed hexecuted, hs.newOffers⟩

theorem addOffer_records {idx : Nat} {offer : Offer} {metadata : OperationMetadata}
    {s s' : HandlerState ValidatingSerialManager V}
    (hidx : categoryFromIdx idx numAssets = offer.category)
    (h : addOffer idx offer metadata s = .ok s') (hs : Records checker numAssets s.manager) :
    s'.books = s.books ∧ Records checker numAssets s'.manager := by
  have hensured := hs.ensure idx (s.manager.activatedSupplies.makeMinimumSize idx)
  obtain ⟨commitment, -, h⟩ := bind_eq_ok.mp h
  split at h
  · obtain ⟨hbooks, hrecords⟩ := clearNewOffer_records h hensured
    exact ⟨hbooks, hrecords⟩
  · split at h
    · cases h
      refine ⟨rfl, hs.commitment, hs.executed, fun i trie htrie => ?_⟩
      simp only [List.getElem?_modify, Option.map_eq_map, Option.map_eq_some_iff] at htrie
      obtain ⟨trie', htrie', rfl⟩ := htrie
      have hold := hensured.newOffers i trie' htrie'
      split
      · rename_i heq
        apply hold.insert
        intro _
        rw [← heq, hidx]
      · exact hold
    · obtain ⟨hbooks, hrecords⟩ := clearNewOffer_records h hensured
      exact ⟨hbooks, hrecords⟩

end ValidatingSerialManager

/-! ### Transactions -/

section Operations

variable {M V : Type} [DatabaseView V] {metadata : OperationMetadata} (s : HandlerState M V)

@[simp] theorem transferAvailable_manager (account : AccountPtr) (asset : AssetID) (amount : Int64) :
    (s.transferAvailable account asset amount).2.manager = s.manager := rfl

/-- The orderbooks and the manager are the same. -/
def SameOffersIn (s s' : HandlerState M V) : Prop := s'.books = s.books ∧ s'.manager = s.manager

theorem processCreateAccount_sameOffers (op : CreateAccountOp) :
    SameOffersIn s (processCreateAccount metadata op s).2 := by
  simp only [processCreateAccount]
  split_ifs <;> exact ⟨rfl, rfl⟩

theorem processPayment_sameOffers (op : PaymentOp) :
    SameOffersIn s (processPayment metadata op s).2 := by
  simp only [processPayment]
  cases s.lookupUser op.receiver <;> split_ifs <;> exact ⟨rfl, rfl⟩

theorem processMoneyPrinter_sameOffers (op : MoneyPrinterOp) :
    SameOffersIn s (processMoneyPrinter metadata op s).2 := by
  simp only [processMoneyPrinter]
  split_ifs <;> exact ⟨rfl, rfl⟩

end Operations

/-- The orderbooks are those of this many assets, with their offers in place. -/
structure OrderbookManager.InPlaceFor (numAssets : Nat) (books : OrderbookManager) : Prop where
  numAssets : books.numAssets = numAssets
  inPlace : books.InPlace

namespace ValidatorState

variable {checker : OrderbookStateCommitmentChecker} {numAssets : Nat} {s s' : Running}

/-- The orderbooks and the manager of a validator are in order. -/
structure Records (checker : OrderbookStateCommitmentChecker) (numAssets : Nat)
    (books : OrderbookManager) (manager : ValidatingSerialManager) : Prop where
  books : books.InPlaceFor numAssets
  manager : manager.Records checker numAssets

theorem SameOffersIn.records (h : SameOffersIn s s')
    (hs : Records checker numAssets s.books s.manager) :
    Records checker numAssets s'.books s'.manager := by
  rw [h.1, h.2]
  exact hs

theorem deleteOffer_records {idx : Nat} {minPrice : Price} {owner : AccountID} {offerId : UInt64}
    {offer : Option Offer} (h : s.deleteOffer idx minPrice owner offerId = .ok (offer, s'))
    (hs : Records checker numAssets s.books s.manager) :
    Records checker numAssets s'.books s'.manager := by
  obtain ⟨⟨offer', books⟩, hmark, h⟩ := bind_eq_ok.mp h
  cases h
  obtain ⟨ob, -, hmark⟩ := bind_eq_ok.mp hmark
  cases hmark
  exact ⟨⟨hs.books.numAssets, hs.books.inPlace.modifyBook fun ob _ => ob.markForDeletion_stays _⟩,
    hs.manager.ensure idx s.manager.activatedSupplies⟩

theorem undeleteOffer_eq {idx : Nat} {minPrice : Price} {owner : AccountID} {offerId : UInt64}
    (h : s.undeleteOffer idx minPrice owner offerId = .ok s') : s' = s := by
  obtain ⟨books, hbooks, h⟩ := bind_eq_ok.mp h
  cases hbooks
  cases h
  rfl

theorem processCreateSellOffer_records {metadata : OperationMetadata} {op : CreateSellOfferOp}
    {status : TransactionProcessingStatus}
    (h : processCreateSellOffer metadata op s = .ok (status, s'))
    (hs : Records checker numAssets s.books s.manager) :
    Records checker numAssets s'.books s'.manager := by
  simp only [processCreateSellOffer] at h
  split_ifs at h with hcategory
  · cases h
    exact hs
  · cases h
    exact hs
  · cases h
    exact hs
  · obtain ⟨idx, hidx, h⟩ := bind_eq_ok.mp h
    obtain ⟨s₁, hadd, h⟩ := bind_eq_ok.mp h
    have hvalid : validateCategory op.category s.books.numAssets = true := by simpa using hcategory
    obtain ⟨idx', hidx', -, hfrom⟩ := categoryToIdx_of_valid hvalid
    cases hidx.symm.trans hidx'
    rw [hs.books.numAssets] at hfrom
    obtain ⟨hbooks, hmanager⟩ := ValidatingSerialManager.addOffer_records hfrom hadd hs.manager
    have hs₁ : Records checker numAssets s₁.books s₁.manager := ⟨hbooks ▸ hs.books, hmanager⟩
    split at h
    · obtain ⟨manager, hmanager, h⟩ := bind_eq_ok.mp h
      cases hmanager
      cases h
      exact hs₁
    · cases h
      exact hs₁

theorem processCancelSellOffer_records {metadata : OperationMetadata} {op : CancelSellOfferOp}
    {status : TransactionProcessingStatus}
    (h : processCancelSellOffer metadata op s = .ok (status, s'))
    (hs : Records checker numAssets s.books s.manager) :
    Records checker numAssets s'.books s'.manager := by
  obtain ⟨idx, -, h⟩ := bind_eq_ok.mp h
  obtain ⟨⟨found, s₁⟩, hdelete, h⟩ := bind_eq_ok.mp h
  have hs₁ := deleteOffer_records hdelete hs
  dsimp only at h
  split at h
  · cases h
    exact hs₁
  · split at h
    · obtain ⟨s₂, hundelete, h⟩ := bind_eq_ok.mp h
      cases undeleteOffer_eq hundelete
      cases h
      exact hs₁
    · cases h
      exact hs₁

theorem processOperation_records {metadata : OperationMetadata} {op : Operation}
    {status : TransactionProcessingStatus} (h : processOperation metadata op s = .ok (status, s'))
    (hs : Records checker numAssets s.books s.manager) :
    Records checker numAssets s'.books s'.manager := by
  cases op with
  | CREATE_ACCOUNT op =>
    have hsame : SameOffersIn s (processCreateAccount metadata op s).2 :=
      processCreateAccount_sameOffers s op
    rw [Except.ok.inj h] at hsame
    exact SameOffersIn.records hsame hs
  | PAYMENT op =>
    have hsame : SameOffersIn s (processPayment metadata op s).2 := processPayment_sameOffers s op
    rw [Except.ok.inj h] at hsame
    exact SameOffersIn.records hsame hs
  | MONEY_PRINTER op =>
    have hsame : SameOffersIn s (processMoneyPrinter metadata op s).2 :=
      processMoneyPrinter_sameOffers s op
    rw [Except.ok.inj h] at hsame
    exact SameOffersIn.records hsame hs
  | CREATE_SELL_OFFER op => exact processCreateSellOffer_records h hs
  | CANCEL_SELL_OFFER op => exact processCancelSellOffer_records h hs

theorem processOperations_records {metadata : TransactionMetadata} {sourceIdx i n : Nat}
    {ops : List Operation} {status : TransactionProcessingStatus}
    (h : processOperations metadata sourceIdx i ops s = .ok (status, n, s'))
    (hs : Records checker numAssets s.books s.manager) :
    Records checker numAssets s'.books s'.manager := by
  induction ops generalizing i s with
  | nil =>
    cases h
    exact hs
  | cons op ops ih =>
    obtain ⟨⟨status', s₁⟩, hop, h⟩ := bind_eq_ok.mp h
    have hs₁ := processOperation_records hop hs
    dsimp only at h
    split at h
    · cases h
      exact hs₁
    · exact ih h hs₁

theorem validateTransaction_records {config : SignatureConfig} {s s' : ValidatorState}
    {tx : SignedTransaction} {valid : Bool} (h : s.validateTransaction config tx = .ok (valid, s'))
    (hs : Records checker numAssets s.books s.manager) :
    Records checker numAssets s'.books s'.manager := by
  unfold validateTransaction at h
  dsimp only at h
  split at h
  · cases h
    exact hs
  split at h
  · cases h
    exact hs
  split at h
  · cases h
    exact hs
  obtain ⟨source, -, h⟩ := bind_eq_ok.mp h
  split at h
  · cases h
    exact hs
  obtain ⟨⟨status, db, creation⟩, -, h⟩ := bind_eq_ok.mp h
  dsimp only at h
  split at h
  · cases h
    exact hs
  split at h
  · cases h
    exact hs
  obtain ⟨⟨status', n, run⟩, hops, h⟩ := bind_eq_ok.mp h
  have hrun := processOperations_records hops hs
  dsimp only at h
  split at h
  · cases h
    exact hrun
  · cases h
    exact hrun

end ValidatorState

/-! ### Blocks -/

namespace ParallelValidate

variable {checker : OrderbookStateCommitmentChecker} {config : SignatureConfig} {numAssets : Nat}
  {s s' : ParallelValidate}

/-- The orderbooks and every validator are in order. -/
structure Records (checker : OrderbookStateCommitmentChecker) (numAssets : Nat)
    (s : ParallelValidate) : Prop where
  books : s.books.InPlaceFor numAssets
  managers : ∀ i v, s.validators.find? i = some v → v.manager.Records checker numAssets

theorem Records.validator (hs : s.Records checker numAssets) (i : Nat) :
    (s.validator checker i).manager.Records checker numAssets := by
  unfold ParallelValidate.validator
  cases hi : s.validators.find? i with
  | none => exact ValidatingSerialManager.records_new
  | some v => exact hs.managers i v hi

theorem validateNext_records {next : Nat × SignedTransaction}
    (h : s.validateNext config checker next = .ok s') (hs : s.Records checker numAssets) :
    s'.Records checker numAssets := by
  unfold validateNext at h
  dsimp only at h
  split at h
  · cases h
    exact hs
  obtain ⟨⟨valid, t⟩, ht, h⟩ := bind_eq_ok.mp h
  cases h
  have hrecords := ValidatorState.validateTransaction_records ht ⟨hs.books, hs.validator next.1⟩
  refine ⟨hrecords.books, fun i v hi => ?_⟩
  rw [SortedMap.find?_insert] at hi
  split at hi
  · cases hi
    exact hrecords.manager
  · exact hs.managers i v hi

theorem Records.executed (hs : s.Records checker numAssets) :
    ∀ e ∈ s.executed, Executed checker e := by
  intro e he
  obtain ⟨v, hv, he⟩ := List.mem_flatMap.mp he
  obtain ⟨⟨i, v'⟩, hmem, rfl⟩ := List.mem_map.mp hv
  exact (hs.managers i v' (SortedMap.mem_entries.mp hmem)).executed e he

/-- New offers are merged into the orderbooks of their categories. -/
theorem partialFinish_inPlace {m : ValidatingSerialManager} {books books' : OrderbookManager}
    {idx : Nat} (h : m.partialFinish books idx = .ok books') (hm : m.Records checker numAssets)
    (hbooks : books.InPlaceFor numAssets) : books'.InPlaceFor numAssets := by
  unfold ValidatingSerialManager.partialFinish at h
  split at h
  · cases h
    exact hbooks
  · rename_i trie htrie
    obtain ⟨ob, -, h⟩ := bind_eq_ok.mp h
    cases h
    refine ⟨hbooks.numAssets, hbooks.inPlace.modifyBook fun ob hob => Orderbook.addOffers_stays ?_⟩
    rw [hbooks.inPlace.category idx ob hob, hbooks.numAssets]
    exact hm.newOffers idx trie htrie

theorem finish_inPlace {books : OrderbookManager} (h : s.finish = .ok books)
    (hs : s.Records checker numAssets) : books.InPlaceFor numAssets := by
  refine foldlM_invariant (P := OrderbookManager.InPlaceFor numAssets)
    (fun b idx b' _ hb hstep => ?_) hs.books h
  refine foldlM_invariant (P := OrderbookManager.InPlaceFor numAssets)
    (fun b v b' hv hb hstep => ?_) hb hstep
  obtain ⟨⟨i, v'⟩, hmem, rfl⟩ := List.mem_map.mp hv
  exact partialFinish_inPlace hstep (hs.managers i v' (SortedMap.mem_entries.mp hmem)) hb

end ParallelValidate

/-- The orderbooks are in place, and the executions are of the header. -/
structure BlockValidation.Records (checker : OrderbookStateCommitmentChecker) (numAssets : Nat)
    (t : BlockValidation) : Prop where
  books : t.books.InPlaceFor numAssets
  executed : ∀ e ∈ t.executed, Executed checker e

theorem validateTransactionBlock_records {config : SignatureConfig}
    {checker : OrderbookStateCommitmentChecker} {db : MemoryDatabase} {books : OrderbookManager}
    {log : AccountModificationLog} {mainStats : ValidationStatistics}
    {schedule : List (Nat × SignedTransaction)} {valid : Bool} {t : BlockValidation}
    (h : validateTransactionBlock config checker db books log mainStats schedule = .ok (valid, t))
    (hbooks : books.InPlace) : t.Records checker books.numAssets := by
  unfold validateTransactionBlock at h
  split at h
  · cases h
  obtain ⟨s, hfold, h⟩ := bind_eq_ok.mp h
  have hs : s.Records checker books.numAssets :=
    foldlM_invariant (P := ParallelValidate.Records checker books.numAssets)
      (fun _ _ _ _ hb hstep => ParallelValidate.validateNext_records hstep hb)
      ⟨⟨rfl, hbooks⟩, fun i v hi => by simp at hi⟩ hfold
  split at h
  · cases h
    exact ⟨hs.books, hs.executed⟩
  · obtain ⟨books', hfinish, h⟩ := bind_eq_ok.mp h
    cases h
    exact ⟨ParallelValidate.finish_inPlace hfinish hs, hs.executed⟩

namespace ManagementStructures

variable {hashes : Hashes} {m : ManagementStructures} {prevBlock nextBlock : HashedBlock}
  {choices : Choices} {outcome : ValidationOutcome}

/-- The offers that a validation leaves are in place, and its executions are of the header. -/
structure OutcomeRecords (checker : OrderbookStateCommitmentChecker) (outcome : ValidationOutcome) :
    Prop where
  books : outcome.structures.orderbookManager.InPlace
  executed : ∀ e ∈ outcome.executed, Executed checker e

theorem validateClearing_records {t : BlockValidation} {numAssets : Nat}
    (h : m.validateClearing hashes prevBlock nextBlock choices t = .ok outcome)
    (ht : t.Records (commitmentChecker nextBlock) numAssets) :
    OutcomeRecords (commitmentChecker nextBlock) outcome := by
  obtain ⟨a, -, h⟩ := bind_eq_ok.mp h
  obtain ⟨books, hcommit, h⟩ := bind_eq_ok.mp h
  obtain ⟨⟨cleared, c⟩, hclear, h⟩ := bind_eq_ok.mp h
  have hbooks := ht.books.inPlace.genericMap (fun _ _ _ => Orderbook.tentativeCommit_stays) hcommit
  have hc : c.Records (commitmentChecker nextBlock) books.numAssets :=
    TentativeClearing.clearRanges_keeps
      (fun _ _ _ _ hbook hc => TentativeClearing.clearBook_records hbook hc) hclear
      ⟨hbooks, ht.executed⟩
  dsimp only at h
  split at h
  · obtain ⟨books', hrollback, h⟩ := bind_eq_ok.mp h
    obtain ⟨db, -, h⟩ := bind_eq_ok.mp h
    cases h
    exact ⟨hc.1.genericMap (fun _ _ _ => Orderbook.rollbackValidation_stays) hrollback, hc.2⟩
  · obtain ⟨a₁, -, h⟩ := bind_eq_ok.mp h
    split at h
    · cases h
    obtain ⟨a₂, -, h⟩ := bind_eq_ok.mp h
    obtain ⟨books', hfinalize, h⟩ := bind_eq_ok.mp h
    obtain ⟨db, -, h⟩ := bind_eq_ok.mp h
    cases h
    exact ⟨hc.1.genericMap (fun _ _ _ => Orderbook.finalizeValidation_stays) hfinalize, hc.2⟩

/-- Every execution of a validation is at the header's prices for the assets of its offer, with the
header's tax, and the offers stay in place. -/
theorem blockValidationLogic_records
    (h : m.blockValidationLogic hashes prevBlock nextBlock choices = .ok outcome)
    (hm : m.orderbookManager.InPlace) : OutcomeRecords (commitmentChecker nextBlock) outcome := by
  unfold blockValidationLogic at h
  split at h
  · cases h
    exact ⟨hm, fun e he => absurd he List.not_mem_nil⟩
  obtain ⟨res, -, h⟩ := bind_eq_ok.mp h
  split at h
  · cases h
    exact ⟨hm, fun e he => absurd he List.not_mem_nil⟩
  obtain ⟨⟨valid, t⟩, ht, h⟩ := bind_eq_ok.mp h
  have hrecords := validateTransactionBlock_records ht hm
  dsimp only at h
  split at h
  · cases h
    exact ⟨hrecords.books.inPlace, hrecords.executed⟩
  · exact validateClearing_records h hrecords

end ManagementStructures

/-! ### Runs -/

namespace SpeedexVm

variable {hashes : VmHashes} {vm vm₀ vm' : SpeedexVm} {nextBlock : HashedBlock} {skipped : Bool}

theorem concludeBlock_books {outcome : ValidationOutcome}
    (h : vm.concludeBlock hashes nextBlock outcome = .ok vm') :
    vm'.structures.orderbookManager = outcome.structures.orderbookManager := by
  obtain ⟨map, -, h⟩ := bind_eq_ok.mp h
  dsimp only at h
  split at h
  · cases h
    rfl
  · obtain ⟨s, -, h⟩ := bind_eq_ok.mp h
    cases h
    rfl

theorem PersistStep.books_eq (h : PersistStep vm vm') :
    vm'.structures.orderbookManager = vm.structures.orderbookManager := by
  cases h <;> rfl

theorem initClean_inPlace {numAssets : Nat} {defaultAmount : Int64}
    {accounts : List (AccountID × PublicKey)} {taxRate : UInt8} {config : SignatureConfig}
    (h : initClean hashes numAssets defaultAmount accounts taxRate config = .ok vm) :
    vm.structures.orderbookManager.InPlace := by
  obtain ⟨s, -, h⟩ := bind_eq_ok.mp h
  cases h
  exact OrderbookManager.inPlace_new numAssets

/-- A node that executes blocks keeps its offers in place. -/
theorem Run.inPlace (h : Run hashes vm₀ vm skipped) (hstart : vm₀.structures.orderbookManager.InPlace) :
    vm.structures.orderbookManager.InPlace := by
  induction h with
  | start => exact hstart
  | skip _ _ _ hexec ih =>
    unfold execBlock at hexec
    split at hexec
    · cases hexec
      exact ih
    · obtain ⟨outcome, hlogic, hconclude⟩ := bind_eq_ok.mp hexec
      rw [concludeBlock_books hconclude]
      exact (ManagementStructures.blockValidationLogic_records hlogic ih).books
  | commit _ _ hpass _ hfinish ih =>
    obtain ⟨-, -, hblock⟩ := ManagementStructures.passTransactions_eq_some hpass
    have ht := validateTransactionBlock_records hblock ih
    obtain ⟨outcome, hclearing, hconclude⟩ := bind_eq_ok.mp hfinish
    rw [concludeBlock_books hconclude]
    exact (ManagementStructures.validateClearing_records hclearing ⟨ht.books, ht.executed⟩).books
  | persist _ hstep ih =>
    rw [hstep.books_eq]
    exact ih

end SpeedexVm

end Speedex
