import Speedex.Commutativity.OperationUpdates
import Speedex.Vm.NewOffers

/-! Block validation makes the updates of its transactions.  A validator that succeeds has run them
from its state, and it succeeds if they can be run. -/

namespace Speedex

open Lib

theorem toOption_eq_some {ε α : Type} {x : Except ε α} {a : α} :
    x.toOption = some a ↔ x = .ok a := by
  cases x <;> simp [Except.toOption]

/-! ### Concrete states as block states -/

def AccountModificationTxList.entry (l : AccountModificationTxList) : LogEntry :=
  (l.newTransactionsSelf, l.identifiersSelf, l.identifiersOthers)

def ModificationTrie.logEntries (log : ModificationTrie) (account : AccountID) : Option LogEntry :=
  (log.find? account).map AccountModificationTxList.entry

/-- An insertion that adds to the entry of an account. -/
theorem logEntries_valueInsert (log : ModificationTrie) (account : AccountID)
    {f : AccountModificationTxList → AccountModificationTxList} {x : LogEntry}
    (h : ∀ l, (f l).entry = l.entry + x) : (log.valueInsert account f).logEntries =
      Function.update log.logEntries account (some ((log.logEntries account).getD 0 + x)) := by
  funext k
  unfold ModificationTrie.valueInsert ModificationTrie.logEntries
  rw [SortedMap.find?_insert]
  by_cases hk : account = k
  · subst hk
    rw [if_pos rfl, Function.update_self, Option.map_some, h]
    cases log.find? account <;> rfl
  · rw [if_neg hk, Function.update_of_ne (Ne.symm hk)]

def ValidatingSerialManager.produced (m : ValidatingSerialManager) : Produced where
  newOffers idx := (m.newOffers.getD idx ∅).entries
  supplies := m.activatedSupplies.get
  size := m.activatedSupplies.length
  executed := m.executed

def BlockState.of (db : MemoryDatabase) (books : OrderbookManager) (log : ModificationTrie)
    (produced : Produced) : BlockState where
  accounts := db.database
  reservedAccountIds := db.reservedAccountIds
  created := db.uncommittedDb
  committedOffers := books.orderbooks.map Orderbook.committedOffers
  log := log.logEntries
  produced := produced

/-- What transactions leave alone of the database. -/
def MemoryDatabase.untouched (db : MemoryDatabase) : MemoryDatabase :=
  { db with database := [], uncommittedDb := [], reservedAccountIds := ∅ }

/-- What transactions leave alone of the orderbooks. -/
def OrderbookManager.untouched (m : OrderbookManager) : OrderbookManager :=
  { m with orderbooks := m.orderbooks.map fun ob => { ob with committedOffers := ∅ } }

/-- What does not change between the transactions of a block. -/
def BlockContext.of (db : MemoryDatabase) (books : OrderbookManager)
    (checker : OrderbookStateCommitmentChecker) : BlockContext where
  ids := db.userIdToIdxMap
  publicKeys := db.database.map UserAccount.pk
  numAssets := books.numAssets
  offers := books.orderbooks.map fun ob => ob.committedOffers.offers
  checker := checker

/-! ### What updates keep -/

namespace BlockState

variable {a a' : BlockState} {us : List Update}

def publicKeys (a : BlockState) : List PublicKey := a.accounts.map UserAccount.pk

def offers (a : BlockState) : List (SortedMap OfferKey Offer) :=
  a.committedOffers.map OrderbookTrie.offers

theorem offers_markLeaf (t : OrderbookTrie) (key : OfferKey) :
    OrderbookTrie.offers (markLeaf t key) = t.offers := by
  refine SortedMap.ext_find fun k => ?_
  rw [OrderbookTrie.find?_offers, find?_markLeaf, OrderbookTrie.find?_offers, Option.map_map]
  rfl

/-- What holds of a state holds after updates that keep it. -/
theorem run_invariant {P : BlockState → Prop} (hstep : ∀ a u, u ∈ us → P a → P (a.effect u))
    (h : updates.run a us = some a') (ha : P a) : P a' := by
  obtain ⟨-, -, rfl⟩ := updates.run_eq_some.mp h
  exact List.foldlRecOn us updates.effect ha fun b hb u hu => hstep b u hu hb

theorem effect_publicKeys (a : BlockState) (u : Update) :
    (a.effect u).publicKeys = a.publicKeys := by
  cases u with
  | reserve idx n => exact MemoryDatabase.map_modify fun _ _ => rfl
  | transfer idx asset x => exact MemoryDatabase.map_modify fun u _ => u.pk_transferAvailable asset x
  | _ => rfl

theorem effect_offers (a : BlockState) (u : Update) : (a.effect u).offers = a.offers := by
  cases u with
  | mark book key => exact MemoryDatabase.map_modify fun t _ => offers_markLeaf t key
  | _ => rfl

theorem run_publicKeys (h : updates.run a us = some a') : a'.publicKeys = a.publicKeys :=
  run_invariant (P := fun b => b.publicKeys = a.publicKeys)
    (fun b u _ hb => (b.effect_publicKeys u).trans hb) h rfl

theorem run_offers (h : updates.run a us = some a') : a'.offers = a.offers :=
  run_invariant (P := fun b => b.offers = a.offers)
    (fun b u _ hb => (b.effect_offers u).trans hb) h rfl

end BlockState

/-- Updates do not change what the updates of transactions depend on. -/
theorem BlockContext.of_eq {db db' : MemoryDatabase} {books books' : OrderbookManager}
    {log log' : ModificationTrie} {p p' : Produced} {us : List Update}
    (checker : OrderbookStateCommitmentChecker)
    (hrun : BlockState.updates.run (.of db books log p) us = some (.of db' books' log' p'))
    (hdb : db'.untouched = db.untouched) (hbooks : books'.untouched = books.untouched) :
    BlockContext.of db' books' checker = .of db books checker := by
  have hids := congrArg MemoryDatabase.userIdToIdxMap hdb
  have hassets := congrArg OrderbookManager.numAssets hbooks
  have hkeys := BlockState.run_publicKeys hrun
  have hoffers := BlockState.run_offers hrun
  simp only [BlockState.offers, BlockState.of, List.map_map] at hoffers
  simp only [BlockContext.of, BlockContext.mk.injEq]
  exact ⟨hids, hkeys, hassets, hoffers, trivial⟩

/-! ### Runs of a validator -/

namespace ValidatorState

/-- The block state while a serial validator works.  `rest` is what the others have produced. -/
def Running.blockState (s : Running) (rest : Produced) : BlockState :=
  .of s.db s.books s.log (rest + s.manager.produced)

def Running.context (s : Running) : BlockContext :=
  .of s.db s.books s.manager.clearingCommitment

/-- A step of a validator makes these updates, and no other change. -/
structure Makes (rest : Produced) (us : List Update) (s s' : Running) : Prop where
  run : BlockState.updates.run (s.blockState rest) us = some (s'.blockState rest)
  db : s'.db.untouched = s.db.untouched
  books : s'.books.untouched = s.books.untouched
  checker : s'.manager.clearingCommitment = s.manager.clearingCommitment

namespace Makes

variable {rest : Produced} {us us' : List Update} {s s₁ s' : Running}

theorem refl (s : Running) : Makes rest [] s s := ⟨rfl, rfl, rfl, rfl⟩

theorem trans (h : Makes rest us s s₁) (h' : Makes rest us' s₁ s') : Makes rest (us ++ us') s s' where
  run := BlockState.updates.run_append_eq_some.mpr ⟨_, h.run, h'.run⟩
  db := h'.db.trans h.db
  books := h'.books.trans h.books
  checker := h'.checker.trans h.checker

theorem context (h : Makes rest us s s') : s'.context = s.context := by
  unfold Running.context
  rw [h.checker]
  exact BlockContext.of_eq _ h.run h.db h.books

end Makes

/-! ### Operations -/

section Operations

variable {rest : Produced} {s s' : Running} {metadata : OperationMetadata} {us : List Update}
  {v : AccountCreationView}

theorem makes_transferAvailable (s : Running) (idx : Nat) (asset : AssetID) (amount : Int64) :
    Makes rest [.transfer idx asset amount] s (s.transferAvailable (.main idx) asset amount).2 :=
  ⟨rfl, rfl, rfl, rfl⟩

theorem makes_escrow (s : Running) (idx : Nat) (asset : AssetID) (amount : Int64) :
    Makes rest [.transfer idx asset (-amount)] s (s.escrow (.main idx) asset amount).2 := by
  refine ⟨?_, rfl, rfl, rfl⟩
  have hdebit : (fun u : UserAccount => u.escrow asset amount) =
      fun u => u.transferAvailable asset (-amount) :=
    funext fun u => u.escrow_eq_transferAvailable asset amount
  change some _ = some { s.blockState rest with
    accounts := s.db.database.modify idx fun u => u.escrow asset amount }
  rw [hdebit]
  rfl

theorem transferAvailable_succeeds (s : Running) (target : AccountPtr) (asset : AssetID)
    (amount : Int64) : (s.transferAvailable target asset amount).1 = .SUCCESS := by
  cases target <;> rfl

theorem view_transferAvailable (s : Running) (target : AccountPtr) (asset : AssetID)
    (amount : Int64) : (s.transferAvailable target asset amount).2.view.toAccountCreationView =
      (s.view.credit target asset amount).2 := by
  cases target <;> rfl

theorem makes_credit (s : Running) (target : AccountPtr) (asset : AssetID) (amount : Int64) :
    Makes rest (s.view.credit target asset amount).1 s
      (s.transferAvailable target asset amount).2 := by
  cases target with
  | main idx => exact makes_transferAvailable s idx asset amount
  | fresh id => exact ⟨rfl, rfl, rfl, rfl⟩

theorem processMoneyPrinter_makes {op : MoneyPrinterOp}
    (h : processMoneyPrinter metadata op s = (.SUCCESS, s')) : ∃ us,
      moneyPrinterUpdates metadata s.view.toAccountCreationView op =
        some (us, s'.view.toAccountCreationView) ∧ Makes rest us s s' := by
  unfold processMoneyPrinter at h
  unfold moneyPrinterUpdates
  split_ifs at h ⊢
  · cases h
  · obtain rfl := congrArg Prod.snd h
    exact ⟨_, rfl, makes_transferAvailable s _ _ _⟩

theorem processMoneyPrinter_succeeds {op : MoneyPrinterOp}
    (h : moneyPrinterUpdates metadata s.view.toAccountCreationView op = some (us, v)) :
    (processMoneyPrinter metadata op s).1 = .SUCCESS := by
  unfold moneyPrinterUpdates at h
  unfold processMoneyPrinter
  split_ifs at h ⊢
  rfl

theorem lookupUser_context (s : Running) (account : AccountID) :
    s.context.lookupUser s.view.toAccountCreationView account = s.lookupUser account := by
  unfold BlockContext.lookupUser HandlerState.lookupUser AccountCreationView.lookupUser
  simp only [List.contains_iff_mem]
  rfl

theorem processPayment_makes {op : PaymentOp} (h : processPayment metadata op s = (.SUCCESS, s')) :
    ∃ us, paymentUpdates s.context metadata s.view.toAccountCreationView op =
        some (us, s'.view.toAccountCreationView) ∧ Makes rest us s s' := by
  unfold processPayment at h
  unfold paymentUpdates
  rw [lookupUser_context]
  split_ifs at h ⊢
  · cases h
  · cases htarget : s.lookupUser op.receiver with
    | none =>
      rw [htarget] at h
      cases h
    | some target =>
      rw [htarget] at h
      have hdebit : Makes rest _ _ _ := makes_transferAvailable s metadata.sourceAccountIdx op.asset
        (-op.amount)
      have hcredit := hdebit.trans (makes_credit _ target op.asset op.amount)
      have hview := view_transferAvailable
        (s.transferAvailable (.main metadata.sourceAccountIdx) op.asset (-op.amount)).2 target
        op.asset op.amount
      obtain rfl := congrArg Prod.snd h
      exact ⟨_, congrArg some (Prod.ext rfl hview.symm), hcredit⟩

theorem processPayment_succeeds {op : PaymentOp}
    (h : paymentUpdates s.context metadata s.view.toAccountCreationView op = some (us, v)) :
    (processPayment metadata op s).1 = .SUCCESS := by
  unfold paymentUpdates at h
  rw [lookupUser_context] at h
  unfold processPayment
  split_ifs at h ⊢
  obtain ⟨target, htarget, h⟩ := Option.bind_eq_some_iff.mp h
  rw [htarget]
  exact transferAvailable_succeeds _ target op.asset op.amount

variable (rest) in
theorem createNewAccount_makes {account : AccountID} {pk : PublicKey}
    (h : (s.createNewAccount account pk).1 = .SUCCESS) :
    s.context.ids.contains account = false ∧
      (s.createNewAccount account pk).2.view.toAccountCreationView =
        s.view.addAccount account pk ∧
      Makes rest [.reserveId account] s (s.createNewAccount account pk).2 := by
  have hids : s.context.ids.contains account = s.db.userIdToIdxMap.contains account := rfl
  rw [hids]
  simp only [HandlerState.createNewAccount, DatabaseView.creation, DatabaseView.setCreation,
    AccountCreationView.createNewAccount, MemoryDatabase.reserveAccountCreation] at h ⊢
  by_cases hexists : s.db.userIdToIdxMap.contains account = true
  · simp [hexists] at h
  by_cases hreserved : account ∈ s.db.reservedAccountIds
  · simp [hexists, hreserved] at h
  simp only [hexists, hreserved, if_false, Bool.false_eq_true, ne_eq, not_true_eq_false]
  refine ⟨by simp, rfl, ⟨?_, rfl, rfl, rfl⟩⟩
  have hallowed : (s.blockState rest).allowed (.reserveId account) = true :=
    BlockState.allowed_reserveId.mpr hreserved
  exact BlockState.updates.run_singleton.mpr ⟨hallowed, rfl⟩

theorem createNewAccount_succeeds {account : AccountID} (pk : PublicKey)
    (hids : ¬ s.context.ids.contains account = true)
    (hallowed : (s.blockState rest).allowed (.reserveId account) = true) :
    (s.createNewAccount account pk).1 = .SUCCESS := by
  have hexists : ¬ s.db.userIdToIdxMap.contains account = true := hids
  have hreserved : account ∉ s.db.reservedAccountIds := BlockState.allowed_reserveId.mp hallowed
  simp [HandlerState.createNewAccount, DatabaseView.creation, AccountCreationView.createNewAccount,
    MemoryDatabase.reserveAccountCreation, hexists, hreserved]

theorem processCreateAccount_makes {op : CreateAccountOp}
    (h : processCreateAccount metadata op s = (.SUCCESS, s')) : ∃ us,
      createAccountUpdates s.context metadata s.view.toAccountCreationView op =
        some (us, s'.view.toAccountCreationView) ∧ Makes rest us s s' := by
  unfold processCreateAccount at h
  unfold createAccountUpdates
  dsimp only at h
  split_ifs at h with hbalance hcreated hpaid hamount
  · cases h
  · exact absurd (congrArg Prod.fst h) hcreated
  · exact absurd (congrArg Prod.fst h) hpaid
  · cases h
  · rw [not_not] at hcreated
    obtain ⟨hids, hview, hcreate⟩ := createNewAccount_makes rest hcreated
    -- the debit does not change the view
    have hdebit := hcreate.trans (makes_transferAvailable _ metadata.sourceAccountIdx
      MemoryDatabase.nativeAsset (-op.startingBalance))
    set s₁ : Running := (HandlerState.transferAvailable
      (s.createNewAccount op.newAccountId op.newAccountPublicKey).2
      (.main metadata.sourceAccountIdx) MemoryDatabase.nativeAsset (-op.startingBalance)).2
    have hview₁ : s₁.view.toAccountCreationView =
      s.view.addAccount op.newAccountId op.newAccountPublicKey := hview
    have hcredit := hdebit.trans (makes_credit s₁ (.fresh op.newAccountId)
      MemoryDatabase.nativeAsset op.startingBalance)
    have hview' := view_transferAvailable s₁ (.fresh op.newAccountId) MemoryDatabase.nativeAsset
      op.startingBalance
    rw [hview₁] at hcredit hview'
    rw [if_neg hbalance, if_neg (by simp [hids]), if_neg hamount]
    obtain rfl := congrArg Prod.snd h
    exact ⟨_, congrArg some (Prod.ext rfl hview'.symm), hcredit⟩

theorem processCreateAccount_succeeds {op : CreateAccountOp}
    (h : createAccountUpdates s.context metadata s.view.toAccountCreationView op = some (us, v))
    (hallowed : ∀ account, .reserveId account ∈ us → 
      (s.blockState rest).allowed (.reserveId account) = true) :
    (processCreateAccount metadata op s).1 = .SUCCESS := by
  unfold createAccountUpdates at h
  split_ifs at h with hbalance hids hamount
  have hcreated := createNewAccount_succeeds op.newAccountPublicKey hids
    (hallowed op.newAccountId (by cases h; simp))
  unfold processCreateAccount
  dsimp only
  rw [if_neg hbalance, if_neg (not_not.mpr hcreated), if_neg hamount]
  exact transferAvailable_succeeds ..

/-- Room for new offers is not an update. -/
theorem produced_ensure (m : ValidatingSerialManager) (idx : Nat) :
    ({ m with newOffers := ensureSufficientNewOffersSz m.newOffers idx } :
      ValidatingSerialManager).produced = m.produced := by
  unfold ValidatingSerialManager.produced
  simp only [ProcessingSerialManager.getD_ensure]

theorem deleteOffer_eq_ok {idx : Nat} {minPrice : Price} {owner : AccountID} {offerId : UInt64}
    {found : Option Offer} : s.deleteOffer idx minPrice owner offerId = .ok (found, s') ↔
      ∃ ob, s.books.orderbooks[idx]? = some ob ∧
        found = (ob.markForDeletion (generateOrderbookTrieKey minPrice owner offerId)).1 ∧
        s' = { s with
          manager := { s.manager with
            newOffers := ensureSufficientNewOffersSz s.manager.newOffers idx }
          books := s.books.modifyBook idx fun ob =>
            (ob.markForDeletion (generateOrderbookTrieKey minPrice owner offerId)).2 } := by
  constructor
  · intro h
    obtain ⟨⟨found, books⟩, hmark, h⟩ := bind_eq_ok.mp h
    obtain ⟨ob, hob, hmark⟩ := bind_eq_ok.mp hmark
    cases hmark
    cases h
    exact ⟨ob, vectorAt_eq_ok.mp hob, rfl, rfl⟩
  · rintro ⟨ob, hob, rfl, rfl⟩
    exact bind_eq_ok.mpr ⟨_, bind_eq_ok.mpr ⟨ob, vectorAt_eq_ok.mpr hob, rfl⟩, rfl⟩

/-- An offer is found if it is on the book and not marked. -/
theorem markForDeletion_eq_some {ob : Orderbook} {key : OfferKey} {offer : Offer} :
    (ob.markForDeletion key).1 = some offer ↔
      ∃ leaf, ob.committedOffers.find? key = some leaf ∧ leaf.deleted = false ∧
        leaf.offer = offer := by
  unfold Orderbook.markForDeletion OrderbookTrie.markForDeletion
  cases ob.committedOffers.find? key with
  | none => simp
  | some leaf => cases hdeleted : leaf.deleted <;> simp [hdeleted]

variable (rest) in
/-- An offer that is found is of the committed ones, and it is marked. -/
theorem deleteOffer_makes {idx : Nat} {minPrice : Price} {owner : AccountID} {offerId : UInt64}
    {offer : Offer} (h : s.deleteOffer idx minPrice owner offerId = .ok (some offer, s')) :
    (∃ offers, s.context.offers[idx]? = some offers ∧
      offers.find? (generateOrderbookTrieKey minPrice owner offerId) = some offer) ∧
    s'.view = s.view ∧
    Makes rest [.mark idx (generateOrderbookTrieKey minPrice owner offerId)] s s' := by
  obtain ⟨ob, hob, hfound, rfl⟩ := deleteOffer_eq_ok.mp h
  obtain ⟨leaf, hleaf, hfree, rfl⟩ := markForDeletion_eq_some.mp hfound.symm
  refine ⟨⟨ob.committedOffers.offers, ?_, ?_⟩, rfl, ?_, rfl, ?_, rfl⟩
  · simp [Running.context, BlockContext.of, hob]
  · rw [OrderbookTrie.find?_offers, hleaf]
    rfl
  · refine BlockState.updates.run_singleton.mpr ⟨BlockState.allowed_mark.mpr
      ⟨ob.committedOffers, leaf, ?_, hleaf, hfree⟩, BlockState.ext rfl rfl rfl ?_ rfl ?_⟩
    · simp [Running.blockState, BlockState.of, hob]
    · refine map_modify_eq fun ob' hob' => ?_
      cases hob.symm.trans hob'
      simp [Orderbook.markForDeletion, OrderbookTrie.markForDeletion, hleaf, hfree,
        BlockState.markLeaf]
    · exact congrArg (rest + ·) (produced_ensure s.manager idx)
  · refine congrArg (fun l => { s.books with orderbooks := l }) ?_
    exact MemoryDatabase.map_modify fun _ _ => rfl

/-- An offer that can be marked is found. -/
theorem deleteOffer_succeeds {idx : Nat} (minPrice : Price) (owner : AccountID) (offerId : UInt64)
    (h : (s.blockState rest).allowed
      (.mark idx (generateOrderbookTrieKey minPrice owner offerId)) = true) :
    ∃ offer s₁, s.deleteOffer idx minPrice owner offerId = .ok (some offer, s₁) := by
  obtain ⟨t, leaf, ht, hleaf, hfree⟩ := BlockState.allowed_mark.mp h
  simp only [Running.blockState, BlockState.of, List.getElem?_map, Option.map_eq_some_iff] at ht
  obtain ⟨ob, hob, rfl⟩ := ht
  have hmark := markForDeletion_eq_some.mpr ⟨leaf, hleaf, hfree, rfl⟩
  exact ⟨leaf.offer, _, deleteOffer_eq_ok.mpr ⟨ob, hob, hmark.symm, rfl⟩⟩

theorem processCancelSellOffer_makes {op : CancelSellOfferOp}
    (h : processCancelSellOffer metadata op s = .ok (.SUCCESS, s')) : ∃ us,
      cancelSellOfferUpdates s.context metadata s.view.toAccountCreationView op =
        some (us, s'.view.toAccountCreationView) ∧ Makes rest us s s' := by
  obtain ⟨idx, hidx, h⟩ := bind_eq_ok.mp h
  obtain ⟨⟨found, s₁⟩, hdelete, h⟩ := bind_eq_ok.mp h
  cases found with
  | none => cases h
  | some offer =>
    obtain ⟨⟨offers, hoffers, hoffer⟩, hview, hmark⟩ := deleteOffer_makes rest hdelete
    have hrefund := hmark.trans (makes_escrow s₁ metadata.sourceAccountIdx op.category.sellAsset
      (-offer.amount).toInt64)
    obtain rfl := congrArg Prod.snd (Except.ok.inj h)
    refine ⟨_, ?_, hrefund⟩
    refine Option.bind_eq_some_iff.mpr ⟨idx, toOption_eq_some.mpr hidx, ?_⟩
    refine Option.bind_eq_some_iff.mpr ⟨offers, hoffers, ?_⟩
    refine Option.bind_eq_some_iff.mpr ⟨offer, hoffer, ?_⟩
    exact congrArg some (Prod.ext rfl
      (congrArg UnbufferedMemoryDatabaseView.toAccountCreationView hview.symm))

theorem processCancelSellOffer_succeeds {op : CancelSellOfferOp}
    (h : cancelSellOfferUpdates s.context metadata s.view.toAccountCreationView op = some (us, v))
    (hallowed : ∀ book key, .mark book key ∈ us → 
      (s.blockState rest).allowed (.mark book key) = true) :
    ∃ s', processCancelSellOffer metadata op s = .ok (.SUCCESS, s') := by
  obtain ⟨idx, hidx, h⟩ := Option.bind_eq_some_iff.mp h
  obtain ⟨offers, -, h⟩ := Option.bind_eq_some_iff.mp h
  obtain ⟨offer, -, h⟩ := Option.bind_eq_some_iff.mp h
  cases h
  obtain ⟨found, s₁, hdelete⟩ := deleteOffer_succeeds op.minPrice
    metadata.txMetadata.sourceAccount op.offerId (hallowed idx _ (by simp))
  exact ⟨_, bind_eq_ok.mpr ⟨idx, toOption_eq_some.mp hidx, bind_eq_ok.mpr ⟨_, hdelete, rfl⟩⟩⟩

/-! ### New offers -/

theorem produce_makes {p : Produced} {manager : ValidatingSerialManager}
    (h : manager.produced = s.manager.produced + p)
    (hchecker : manager.clearingCommitment = s.manager.clearingCommitment) :
    Makes rest [.produce p] s { s with manager := manager } := by
  refine ⟨?_, rfl, rfl, hchecker⟩
  refine BlockState.updates.run_singleton.mpr ⟨rfl, BlockState.ext rfl rfl rfl rfl rfl ?_⟩
  exact (congrArg (rest + ·) h).trans (add_assoc rest _ p).symm

theorem length_makeMinimumSize (stats : ValidationStatistics) (idx : Nat) :
    (stats.makeMinimumSize idx).length = max stats.length (idx + 1) := by
  unfold ValidationStatistics.makeMinimumSize
  split
  · rw [List.length_append, List.length_replicate]
    omega
  · omega

variable (rest) in
theorem prepared_makes (s : Running) (idx : Nat) :
    Makes rest [.produce (.touch idx)] s (prepared s idx) := by
  refine produce_makes (Produced.ext ?_ ?_ ?_ ?_) rfl
  · funext i
    simp only [ValidatingSerialManager.produced, ProcessingSerialManager.getD_ensure]
    exact (add_zero _).symm
  · funext i
    exact (OrderbookManager.get_makeMinimumSize _ idx i).trans (add_zero _).symm
  · exact length_makeMinimumSize _ idx
  · exact (add_zero _).symm

theorem entries_insert {K V : Type} [LinearOrder K] {m : SortedMap K V} {k : K} (v : V)
    (h : m.find? k = none) : (m.insert k v).entries.Perm ((k, v) :: m.entries) := by
  have herase : (m.insert k v).erase k = m := by
    refine SortedMap.ext_find fun k' => ?_
    rw [SortedMap.find?_erase, SortedMap.find?_insert]
    split_ifs with hk
    · rw [← hk, h]
    · rfl
  have hperm := SortedMap.entries_erase (m.find?_insert_self k v)
  rwa [herase] at hperm

/-- The new offer stays on the books, under a key that is not in use. -/
theorem kept_makes {idx : Nat} {offer : Offer} (hidx : idx < s.manager.newOffers.length)
    (hfresh : SortedMap.find? (s.manager.newOffers.getD idx ∅) offer.key = none) :
    Makes rest [.produce (.kept idx offer)] s { s with manager := { s.manager with
      newOffers := s.manager.newOffers.modify idx (·.insertRollback offer.key offer) } } := by
  refine produce_makes (Produced.ext ?_ (add_zero _).symm (max_eq_left (Nat.zero_le _)).symm
    (add_zero _).symm) rfl
  funext i
  simp only [ValidatingSerialManager.produced, Produced.newOffers_add, Produced.kept, Pi.add_apply]
  by_cases hi : i = idx
  · subst hi
    have hmodified : (s.manager.newOffers.modify i (·.insertRollback offer.key offer)).getD i ∅ =
        (s.manager.newOffers.getD i ∅).insertRollback offer.key offer := by
      simp [List.getD_eq_getElem?_getD, hidx]
    rw [hmodified, Pi.single_eq_same, add_comm, Multiset.singleton_add, Multiset.cons_coe]
    exact Multiset.coe_eq_coe.mpr (entries_insert _ hfresh)
  · rw [Pi.single_eq_of_ne hi, add_zero]
    simp [List.getD_eq_getElem?_getD, Ne.symm hi]

theorem log_makes {log : ModificationTrie} {account : AccountID} {x : LogEntry}
    (h : log.logEntries = Function.update s.log.logEntries account
      (some ((s.log.logEntries account).getD 0 + x))) :
    Makes rest [.log account x] s { s with log := log } :=
  ⟨BlockState.updates.run_singleton.mpr ⟨rfl, BlockState.ext rfl rfl rfl rfl h rfl⟩, rfl, rfl, rfl⟩

theorem logEntries_logSelfModification (log : ModificationTrie) (owner : AccountID) (n : UInt64) :
    (log.logSelfModification owner n).logEntries = Function.update log.logEntries owner
      (some ((log.logEntries owner).getD 0 + (0, {n}, 0))) := by
  refine logEntries_valueInsert log owner fun l => ?_
  rw [AccountModificationTxList.entry, ← Multiset.coe_add]
  simp [AccountModificationTxList.entry]

theorem clearNewOffer_eq_ok {idx : Nat} {offer : Offer} :
    ValidatingSerialManager.clearNewOffer idx offer metadata s = .ok s' ↔
      ∃ sellPrice buyPrice buyAmount,
        s.manager.clearingCommitment.prices[offer.category.sellAsset.toNat]? = some sellPrice ∧
        s.manager.clearingCommitment.prices[offer.category.buyAsset.toNat]? = some buyPrice ∧
        fullBuyAmount offer sellPrice buyPrice s.manager.clearingCommitment.taxRate =
          .ok buyAmount ∧
        s' = { s with
          db := s.db.transferAvailable metadata.sourceAccountIdx offer.category.buyAsset buyAmount
          log := s.log.logSelfModification metadata.txMetadata.sourceAccount metadata.operationId
          manager := { s.manager with
            activatedSupplies := s.manager.activatedSupplies.addAt idx
              (.fromIntegral (widenUInt64 offer.amount))
            executed := s.manager.executed ++ [⟨offer, offer.amount, buyAmount⟩] } } := by
  constructor
  · intro h
    obtain ⟨sellPrice, hsell, h⟩ := bind_eq_ok.mp h
    obtain ⟨buyPrice, hbuy, h⟩ := bind_eq_ok.mp h
    obtain ⟨⟨buyAmount, credited⟩, hclear, h⟩ := bind_eq_ok.mp h
    obtain ⟨buyAmount', hamount, hclear⟩ := bind_eq_ok.mp hclear
    cases hclear
    cases h
    exact ⟨sellPrice, buyPrice, _, vectorAt_eq_ok.mp hsell, vectorAt_eq_ok.mp hbuy, hamount, rfl⟩
  · rintro ⟨sellPrice, buyPrice, buyAmount, hsell, hbuy, hamount, rfl⟩
    refine bind_eq_ok.mpr ⟨sellPrice, vectorAt_eq_ok.mpr hsell, ?_⟩
    refine bind_eq_ok.mpr ⟨buyPrice, vectorAt_eq_ok.mpr hbuy, ?_⟩
    exact bind_eq_ok.mpr ⟨_, bind_eq_ok.mpr ⟨buyAmount, hamount, rfl⟩, rfl⟩

/-- The new offer is cleared at once. -/
theorem cleared_makes {idx : Nat} {offer : Offer} (buyAmount : Int64)
    (hidx : idx < s.manager.activatedSupplies.length) :
    Makes rest [.transfer metadata.sourceAccountIdx offer.category.buyAsset buyAmount,
        .log metadata.txMetadata.sourceAccount (0, {metadata.operationId}, 0),
        .produce (.cleared idx offer buyAmount)] s { s with
      db := s.db.transferAvailable metadata.sourceAccountIdx offer.category.buyAsset buyAmount
      log := s.log.logSelfModification metadata.txMetadata.sourceAccount metadata.operationId
      manager := { s.manager with
        activatedSupplies := s.manager.activatedSupplies.addAt idx
          (.fromIntegral (widenUInt64 offer.amount))
        executed := s.manager.executed ++ [⟨offer, offer.amount, buyAmount⟩] } } := by
  have hcredit : Makes rest _ _ _ := makes_transferAvailable s metadata.sourceAccountIdx
    offer.category.buyAsset buyAmount
  have hlogged := hcredit.trans (log_makes (logEntries_logSelfModification s.log
    metadata.txMetadata.sourceAccount metadata.operationId))
  refine hlogged.trans (produce_makes (Produced.ext ?_ ?_ ?_ ?_) rfl)
  · exact (add_zero _).symm
  · funext i
    refine (get_addAt _ idx i _).trans ?_
    by_cases hi : idx = i
    · subst hi
      simp [Produced.cleared, ValidatingSerialManager.produced]
    · simp [Produced.cleared, ValidatingSerialManager.produced, hi]
  · refine (List.length_modify ..).trans ?_
    rw [length_makeMinimumSize]
    exact (max_eq_left hidx).trans (max_eq_left (Nat.zero_le _)).symm
  · exact (Multiset.coe_add _ _).symm

variable (rest) in
/-- What a serial validator does with a new offer. -/
theorem addOffer_makes {idx : Nat} {offer : Offer}
    (hfresh : SortedMap.find? (s.manager.newOffers.getD idx ∅) offer.key = none)
    (h : ValidatingSerialManager.addOffer idx offer metadata s = .ok s') :
    ∃ us, newOfferUpdates s.context metadata idx offer = some us ∧ s'.view = s.view ∧
      Makes rest us s s' := by
  obtain ⟨commitment, hcommitment, h⟩ := bind_eq_ok.mp h
  have hprepared := prepared_makes rest s idx
  by_cases hkept : commitment.thresholdKeyIsNull ≠ 1 ∧
      commitment.partialExecThresholdKey ≤ offer.key
  · rw [if_neg hkept.1, if_pos hkept.2] at h
    cases h
    have hsize : idx < (ensureSufficientNewOffersSz s.manager.newOffers idx).length := by
      simp only [ensureSufficientNewOffersSz, List.length_append, List.length_replicate]
      omega
    have hfresh' : SortedMap.find?
        ((ensureSufficientNewOffersSz s.manager.newOffers idx).getD idx ∅) offer.key = none := by
      rwa [ProcessingSerialManager.getD_ensure]
    exact ⟨_, Option.bind_eq_some_iff.mpr ⟨commitment, vectorAt_eq_ok.mp hcommitment, if_pos hkept⟩,
      rfl, hprepared.trans (kept_makes (s := prepared s idx) hsize hfresh')⟩
  · have hclear : ValidatingSerialManager.clearNewOffer idx offer metadata (prepared s idx) =
        .ok s' := by
      split_ifs at h with hnull hkey
      · exact h
      · exact absurd ⟨hnull, hkey⟩ hkept
      · exact h
    obtain ⟨sellPrice, buyPrice, buyAmount, hsell, hbuy, hamount, rfl⟩ :=
      clearNewOffer_eq_ok.mp hclear
    have hsize : idx < (s.manager.activatedSupplies.makeMinimumSize idx).length :=
      OrderbookManager.lt_length_makeMinimumSize ..
    refine ⟨_, Option.bind_eq_some_iff.mpr ⟨commitment, vectorAt_eq_ok.mp hcommitment, ?_⟩, rfl,
      hprepared.trans (cleared_makes (s := prepared s idx) buyAmount hsize)⟩
    rw [if_neg hkept]
    refine Option.bind_eq_some_iff.mpr ⟨sellPrice, hsell, ?_⟩
    refine Option.bind_eq_some_iff.mpr ⟨buyPrice, hbuy, ?_⟩
    exact Option.bind_eq_some_iff.mpr ⟨buyAmount, toOption_eq_some.mpr hamount, rfl⟩

theorem addOffer_succeeds {idx : Nat} {offer : Offer}
    (h : newOfferUpdates s.context metadata idx offer = some us) :
    ∃ s', ValidatingSerialManager.addOffer idx offer metadata s = .ok s' := by
  obtain ⟨commitment, hcommitment, h⟩ := Option.bind_eq_some_iff.mp h
  have hat : vectorAt s.manager.clearingCommitment.commitments idx = .ok commitment :=
    vectorAt_eq_ok.mpr hcommitment
  have hcleared : (∃ s', ValidatingSerialManager.clearNewOffer idx offer metadata (prepared s idx) =
      .ok s') ∨ commitment.thresholdKeyIsNull ≠ 1 ∧
        commitment.partialExecThresholdKey ≤ offer.key := by
    split_ifs at h with hkept
    · exact .inr hkept
    · obtain ⟨sellPrice, hsell, h⟩ := Option.bind_eq_some_iff.mp h
      obtain ⟨buyPrice, hbuy, h⟩ := Option.bind_eq_some_iff.mp h
      obtain ⟨buyAmount, hamount, -⟩ := Option.bind_eq_some_iff.mp h
      exact .inl ⟨_, clearNewOffer_eq_ok.mpr ⟨sellPrice, buyPrice, buyAmount, hsell, hbuy,
        toOption_eq_some.mp hamount, rfl⟩⟩
  unfold ValidatingSerialManager.addOffer
  dsimp only
  rw [hat, ok_bind]
  rcases hcleared with hcleared | ⟨hnull, hkey⟩
  · split_ifs
    · exact hcleared
    · exact ⟨_, rfl⟩
    · exact hcleared
  · rw [if_neg hnull, if_pos hkey]
    exact ⟨_, rfl⟩

theorem processCreateSellOffer_makes {op : CreateSellOfferOp}
    (hfresh : ∀ idx, SortedMap.find? (s.manager.newOffers.getD idx ∅)
      (makeOffer op metadata).key = none)
    (h : processCreateSellOffer metadata op s = .ok (.SUCCESS, s')) : ∃ us,
      createSellOfferUpdates s.context metadata s.view.toAccountCreationView op =
        some (us, s'.view.toAccountCreationView) ∧ Makes rest us s s' := by
  have hassets : s.context.numAssets = s.books.numAssets := rfl
  unfold processCreateSellOffer at h
  unfold createSellOfferUpdates
  rw [hassets]
  split_ifs at h ⊢
  · cases h
  · cases h
  · cases h
  obtain ⟨idx, hidx, h⟩ := bind_eq_ok.mp h
  obtain ⟨s₁, hadd, h⟩ := bind_eq_ok.mp h
  obtain ⟨us, hus, hview, hadded⟩ := addOffer_makes rest (hfresh idx) hadd
  have hpaid := hadded.trans (makes_escrow s₁ metadata.sourceAccountIdx op.category.sellAsset
    op.amount)
  obtain rfl := congrArg Prod.snd (Except.ok.inj h)
  refine ⟨_, ?_, hpaid⟩
  refine Option.bind_eq_some_iff.mpr ⟨idx, toOption_eq_some.mpr hidx, ?_⟩
  refine Option.bind_eq_some_iff.mpr ⟨us, hus, ?_⟩
  exact congrArg some (Prod.ext rfl
    (congrArg UnbufferedMemoryDatabaseView.toAccountCreationView hview.symm))

theorem processCreateSellOffer_succeeds {op : CreateSellOfferOp}
    (h : createSellOfferUpdates s.context metadata s.view.toAccountCreationView op =
      some (us, v)) : ∃ s', processCreateSellOffer metadata op s = .ok (.SUCCESS, s') := by
  have hassets : s.context.numAssets = s.books.numAssets := rfl
  unfold createSellOfferUpdates at h
  unfold processCreateSellOffer
  rw [hassets] at h
  split_ifs at h ⊢
  obtain ⟨idx, hidx, h⟩ := Option.bind_eq_some_iff.mp h
  obtain ⟨updates, hupdates, -⟩ := Option.bind_eq_some_iff.mp h
  obtain ⟨s₁, hadd⟩ := addOffer_succeeds hupdates
  exact ⟨_, bind_eq_ok.mpr ⟨idx, toOption_eq_some.mp hidx, bind_eq_ok.mpr ⟨s₁, hadd, rfl⟩⟩⟩

/-! ### Any operation -/

/-- The key of a new offer of an operation is in no trie of the validator. -/
def FreshKeys (s : Running) (metadata : OperationMetadata) : Prop :=
  ∀ idx price, SortedMap.find? (s.manager.newOffers.getD idx ∅)
    (generateOrderbookTrieKey price metadata.txMetadata.sourceAccount metadata.operationId) = none

variable (rest) in
/-- An operation that succeeds makes the updates that it stands for. -/
theorem processOperation_makes {op : Operation} (hfresh : FreshKeys s metadata)
    (h : processOperation metadata op s = .ok (.SUCCESS, s')) : ∃ us,
      operationUpdates s.context metadata s.view.toAccountCreationView op =
        some (us, s'.view.toAccountCreationView) ∧ Makes rest us s s' := by
  cases op with
  | CREATE_ACCOUNT op => exact processCreateAccount_makes (Except.ok.inj h)
  | CREATE_SELL_OFFER op => exact processCreateSellOffer_makes (fun idx => hfresh idx op.minPrice) h
  | CANCEL_SELL_OFFER op => exact processCancelSellOffer_makes h
  | PAYMENT op => exact processPayment_makes (Except.ok.inj h)
  | MONEY_PRINTER op => exact processMoneyPrinter_makes (Except.ok.inj h)

/-- An operation succeeds if the updates that it stands for can be made. -/
theorem processOperation_succeeds {op : Operation}
    (h : operationUpdates s.context metadata s.view.toAccountCreationView op = some (us, v))
    (hallowed : ∀ u ∈ us, (s.blockState rest).allowed u = true) :
    ∃ s', processOperation metadata op s = .ok (.SUCCESS, s') := by
  cases op with
  | CREATE_ACCOUNT op =>
    have hsuccess := processCreateAccount_succeeds h fun account hu => hallowed _ hu
    exact ⟨_, congrArg Except.ok (Prod.ext hsuccess rfl)⟩
  | CREATE_SELL_OFFER op => exact processCreateSellOffer_succeeds h
  | CANCEL_SELL_OFFER op =>
    exact processCancelSellOffer_succeeds h fun book key hu => hallowed _ hu
  | PAYMENT op => exact ⟨_, congrArg Except.ok (Prod.ext (processPayment_succeeds h) rfl)⟩
  | MONEY_PRINTER op => exact ⟨_, congrArg Except.ok (Prod.ext (processMoneyPrinter_succeeds h) rfl)⟩

end Operations

end ValidatorState

end Speedex
