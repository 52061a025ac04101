import Speedex.BlockProcessing.Validator
import Speedex.Database.CommitmentTrie

/-! What a transaction does to the account database, in production and in validation, is a sequence
of database operations. -/

namespace Speedex

open Lib

namespace MemoryDatabase

variable {db db' db'' : MemoryDatabase}

/-- Some sequence of operations leads from one database to another. -/
def Applies (db db' : MemoryDatabase) : Prop :=
  ∃ ops : List DbOp, ops.foldlM apply db = .ok db'

theorem Applies.refl (db : MemoryDatabase) : db.Applies db := ⟨[], rfl⟩

theorem Applies.trans (h : db.Applies db') (h' : db'.Applies db'') : db.Applies db'' := by
  obtain ⟨ops, hops⟩ := h
  obtain ⟨ops', hops'⟩ := h'
  refine ⟨ops ++ ops', ?_⟩
  rw [List.foldlM_append, hops]
  exact hops'

theorem Applies.of_apply (op : DbOp) (h : db.apply op = .ok db') : db.Applies db' := by
  refine ⟨[op], ?_⟩
  rw [List.foldlM_cons, h]
  rfl

/-- A loop of operations. -/
theorem Applies.foldl {α : Type} {f : MemoryDatabase → α → MemoryDatabase}
    (hf : ∀ (d : MemoryDatabase) (a : α), d.Applies (f d a)) (l : List α) (db : MemoryDatabase) :
    db.Applies (l.foldl f db) := by
  induction l generalizing db with
  | nil => exact .refl db
  | cons a l ih => exact (hf db a).trans (ih (f db a))

theorem Applies.foldlM {α : Type} {f : MemoryDatabase → α → Result MemoryDatabase}
    (hf : ∀ d a d', f d a = .ok d' → d.Applies d') {l : List α} (h : l.foldlM f db = .ok db') :
    db.Applies db' :=
  foldlM_invariant (P := fun d => db.Applies d) (fun d a d' _ hd hstep => hd.trans (hf d a d' hstep))
    (.refl db) h

theorem applies_transferAvailable (idx : Nat) (asset : AssetID) (amount : Int64) :
    db.Applies (db.transferAvailable idx asset amount) :=
  .of_apply (.transferAvailable idx asset amount) rfl

theorem applies_reserveAccountCreation (account : AccountID) :
    db.Applies (db.reserveAccountCreation account).2 :=
  .of_apply (.reserveAccountCreation account) rfl

end MemoryDatabase

/-! ### The views -/

/-- Credits and debits through the view are operations of the database. -/
class LawfulView (V : Type) [DatabaseView V] : Prop where
  transferAvailable (v : V) (db : MemoryDatabase) (account : AccountPtr) (asset : AssetID)
    (amount : Int64) : db.Applies (DatabaseView.transferAvailable v db account asset amount).2.1
  escrow (v : V) (db : MemoryDatabase) (account : AccountPtr) (asset : AssetID)
    (amount : Int64) : db.Applies (DatabaseView.escrow v db account asset amount).2.1

theorem UserAccountView.settle_applies (v : UserAccountView) {db : MemoryDatabase} (asset : AssetID)
    (newBuffer : Int64) {take : Bool × MemoryDatabase} (htake : db.Applies take.2) :
    db.Applies (v.settle db asset newBuffer take).2.1 := by
  unfold UserAccountView.settle
  split
  · split
    · exact htake
    · exact htake
  · exact .refl db

instance lawfulBufferedView : LawfulView BufferedMemoryDatabaseView where
  transferAvailable v db account asset amount := by
    cases account with
    | fresh id => exact .refl db
    | main idx =>
      refine (v.getExistingAccount idx).settle_applies asset _ ?_
      exact .of_apply (.conditionalTransferAvailable idx asset _) rfl
  escrow v db account asset amount := by
    cases account with
    | fresh id => exact .refl db
    | main idx =>
      show db.Applies ((v.getExistingAccount idx).conditionalEscrow db idx asset amount).2.1
      unfold UserAccountView.conditionalEscrow
      split
      · exact .refl db
      · refine (v.getExistingAccount idx).settle_applies asset _ ?_
        exact .of_apply (.conditionalEscrow idx asset _) rfl

instance lawfulUnbufferedView : LawfulView UnbufferedMemoryDatabaseView where
  transferAvailable v db account asset amount := by
    cases account with
    | fresh id => exact .refl db
    | main idx => exact .of_apply (.transferAvailable idx asset amount) rfl
  escrow v db account asset amount := by
    cases account with
    | fresh id => exact .refl db
    | main idx => exact .of_apply (.escrow idx asset amount) rfl

theorem AccountCreationView.createNewAccount_applies (v : AccountCreationView) (db : MemoryDatabase)
    (account : AccountID) (pk : PublicKey) : db.Applies (v.createNewAccount db account pk).2.1 := by
  simp only [AccountCreationView.createNewAccount]
  split
  · exact MemoryDatabase.applies_reserveAccountCreation account
  · exact MemoryDatabase.applies_reserveAccountCreation account

theorem AccountCreationView.reserveSequenceNumber_applies {v v' : AccountCreationView}
    {db db' : MemoryDatabase} {idx : Nat} {n : UInt64} {status : TransactionProcessingStatus}
    (h : v.reserveSequenceNumber db idx n = .ok (status, db', v')) : db.Applies db' := by
  obtain ⟨⟨status', db₁⟩, hreserve, h⟩ := bind_eq_ok.mp h
  have happly : db.apply (.reserveSequenceNumber idx n) = .ok db₁ :=
    map_eq_ok.mpr ⟨_, hreserve, rfl⟩
  dsimp only at h
  split at h
  · cases h
    exact .of_apply _ happly
  · cases h
    exact .of_apply _ happly

theorem AccountCreationView.commit_applies (v : AccountCreationView) (db : MemoryDatabase) :
    db.Applies (v.commit db) := by
  unfold AccountCreationView.commit
  refine .foldl (fun d a => ?_) v.newAccounts db
  exact .of_apply (.commitAccountCreation a.2) rfl

theorem AccountCreationView.unwind_applies {v : AccountCreationView} {db db' : MemoryDatabase}
    (h : v.unwind db = .ok db') : db.Applies db' := by
  have hrelease : db.Applies (v.newAccounts.foldl (fun db a => db.releaseAccountCreation a.1) db) :=
    by
      refine .foldl (fun d a => ?_) v.newAccounts db
      exact .of_apply (.releaseAccountCreation a.1) rfl
  unfold AccountCreationView.unwind at h
  refine hrelease.trans (.foldlM (fun d res d' hstep => ?_) h)
  exact .of_apply (.releaseSequenceNumber res.account res.seqno) hstep

theorem UserAccountView.commit_applies (v : UserAccountView) (db : MemoryDatabase) (idx : Nat) :
    db.Applies (v.commit db idx) := by
  unfold UserAccountView.commit
  refine .foldl (fun d a => ?_) _ db
  exact MemoryDatabase.applies_transferAvailable idx a.1 a.2

theorem UserAccountView.unwind_applies (v : UserAccountView) (db : MemoryDatabase) (idx : Nat) :
    db.Applies (v.unwind db idx) := by
  unfold UserAccountView.unwind
  refine .foldl (fun d a => ?_) _ db
  exact MemoryDatabase.applies_transferAvailable idx a.1 (-a.2)

theorem BufferedMemoryDatabaseView.commit_applies (v : BufferedMemoryDatabaseView)
    (db : MemoryDatabase) : db.Applies (v.commit db) := by
  unfold BufferedMemoryDatabaseView.commit
  exact .trans (.foldl (fun d a => a.2.commit_applies d a.1) v.accounts.entries db)
    (v.toAccountCreationView.commit_applies _)

theorem BufferedMemoryDatabaseView.unwind_applies {v : BufferedMemoryDatabaseView}
    {db db' : MemoryDatabase} (h : v.unwind db = .ok db') : db.Applies db' := by
  unfold BufferedMemoryDatabaseView.unwind at h
  exact .trans (.foldl (fun d a => a.2.unwind_applies d a.1) v.accounts.entries db)
    (AccountCreationView.unwind_applies h)

/-! ### What operations keep -/

/-- A property of a database and of a view of it that the calls on the view keep, for assets that
satisfy `A`. -/
structure KeptByCalls {V : Type} [DatabaseView V] (A : AssetID → Prop)
    (P : MemoryDatabase → V → Prop) : Prop where
  native : A MemoryDatabase.nativeAsset
  transferAvailable (v : V) (db : MemoryDatabase) (account : AccountPtr) (asset : AssetID)
    (amount : Int64) (hasset : A asset) (h : P db v) :
    P (DatabaseView.transferAvailable v db account asset amount).2.1
      (DatabaseView.transferAvailable v db account asset amount).2.2
  escrow (v : V) (db : MemoryDatabase) (account : AccountPtr) (asset : AssetID) (amount : Int64)
    (hasset : A asset) (h : P db v) :
    P (DatabaseView.escrow v db account asset amount).2.1
      (DatabaseView.escrow v db account asset amount).2.2
  createNewAccount (v : V) (db : MemoryDatabase) (account : AccountID) (pk : PublicKey)
    (h : P db v) :
    P ((DatabaseView.creation v).createNewAccount db account pk).2.1
      (DatabaseView.setCreation v ((DatabaseView.creation v).createNewAccount db account pk).2.2)

/-- What calls do to the database is a sequence of operations. -/
theorem KeptByCalls.applies {V : Type} [DatabaseView V] [LawfulView V] (db₀ : MemoryDatabase) :
    KeptByCalls (fun _ => True) fun db (_ : V) => db₀.Applies db where
  native := trivial
  transferAvailable _ _ _ _ _ _ h := h.trans (LawfulView.transferAvailable _ _ _ _ _)
  escrow _ _ _ _ _ _ h := h.trans (LawfulView.escrow _ _ _ _ _)
  createNewAccount _ _ _ _ h := h.trans (AccountCreationView.createNewAccount_applies _ _ _ _)

/-- Adding an offer does to the database only what the view does, in the asset that it buys. -/
class LawfulManager (M : Type) [SerialManager M] : Prop where
  addOffer {V : Type} [DatabaseView V] {A : AssetID → Prop} {P : MemoryDatabase → V → Prop}
    (hP : KeptByCalls A P) {idx : Nat} {offer : Offer} {metadata : OperationMetadata}
    {s s' : HandlerState M V} (hasset : A offer.category.buyAsset)
    (h : SerialManager.addOffer idx offer metadata s = .ok s') (hs : P s.db s.view) :
    P s'.db s'.view ∧ s'.books = s.books
  undeleteOffer {m : M} {books books' : OrderbookManager} {idx : Nat} {key : OfferKey}
    (h : SerialManager.undeleteOffer m books idx key = .ok books') :
    books'.numAssets = books.numAssets

instance lawfulProcessingManager : LawfulManager ProcessingSerialManager where
  addOffer _ _ _ _ _ _ _ h hs := by
    cases h
    exact ⟨hs, rfl⟩
  undeleteOffer h := by
    obtain ⟨_, -, h⟩ := bind_eq_ok.mp h
    cases h
    rfl

theorem ValidatingSerialManager.clearNewOffer_keeps {V : Type} [DatabaseView V]
    {A : AssetID → Prop} {P : MemoryDatabase → V → Prop} (hP : KeptByCalls A P)
    {idx : Nat} {offer : Offer} {metadata : OperationMetadata}
    {s s' : HandlerState ValidatingSerialManager V} (hasset : A offer.category.buyAsset)
    (h : ValidatingSerialManager.clearNewOffer idx offer metadata s = .ok s')
    (hs : P s.db s.view) : P s'.db s'.view ∧ s'.books = s.books := by
  obtain ⟨sellPrice, -, h⟩ := bind_eq_ok.mp h
  obtain ⟨buyPrice, -, h⟩ := bind_eq_ok.mp h
  obtain ⟨⟨buyAmount, credited⟩, hclear, h⟩ := bind_eq_ok.mp h
  obtain ⟨buyAmount', -, hclear⟩ := bind_eq_ok.mp hclear
  cases hclear
  cases h
  exact ⟨hP.transferAvailable _ _ _ _ _ hasset hs, rfl⟩

instance lawfulValidatingManager : LawfulManager ValidatingSerialManager where
  addOffer hP _ _ _ _ _ hasset h hs := by
    obtain ⟨commitment, -, h⟩ := bind_eq_ok.mp h
    split at h
    · have hkept := ValidatingSerialManager.clearNewOffer_keeps hP hasset h hs
      exact hkept
    · split at h
      · cases h
        exact ⟨hs, rfl⟩
      · have hkept := ValidatingSerialManager.clearNewOffer_keeps hP hasset h hs
        exact hkept
  undeleteOffer h := by
    cases h
    rfl

/-- The asset of an operation that does not check it satisfies `A`. -/
def Operation.AssetIn (A : AssetID → Prop) : Operation → Prop
  | .PAYMENT op => A op.asset
  | .MONEY_PRINTER op => A op.asset
  | .CREATE_ACCOUNT _ | .CREATE_SELL_OFFER _ | .CANCEL_SELL_OFFER _ => True

section Operations

variable {M V : Type} [SerialManager M] [DatabaseView V] (metadata : OperationMetadata)
  (s : HandlerState M V)

omit [SerialManager M] in
theorem transferAvailable_applies [LawfulView V] (account : AccountPtr) (asset : AssetID)
    (amount : Int64) : s.db.Applies (s.transferAvailable account asset amount).2.db :=
  LawfulView.transferAvailable _ _ _ _ _

omit [SerialManager M] in
theorem escrow_applies [LawfulView V] (account : AccountPtr) (asset : AssetID) (amount : Int64) :
    s.db.Applies (s.escrow account asset amount).2.db :=
  LawfulView.escrow _ _ _ _ _

omit [SerialManager M] in
theorem createNewAccount_applies (account : AccountID) (pk : PublicKey) :
    s.db.Applies (s.createNewAccount account pk).2.db :=
  AccountCreationView.createNewAccount_applies _ _ _ _

variable {A : AssetID → Prop} {P : MemoryDatabase → V → Prop} (hP : KeptByCalls A P) {s}
include hP

omit [SerialManager M] in
theorem processCreateAccount_keeps (op : CreateAccountOp) (hs : P s.db s.view) :
    P (processCreateAccount metadata op s).2.db (processCreateAccount metadata op s).2.view ∧
      (processCreateAccount metadata op s).2.books = s.books := by
  have hcreate := hP.createNewAccount s.view s.db op.newAccountId op.newAccountPublicKey hs
  simp only [processCreateAccount]
  split_ifs
  · exact ⟨hs, rfl⟩
  · exact ⟨hcreate, rfl⟩
  · exact ⟨hP.transferAvailable _ _ _ _ _ hP.native hcreate, rfl⟩
  · exact ⟨hP.transferAvailable _ _ _ _ _ hP.native hcreate, rfl⟩
  · exact ⟨hP.transferAvailable _ _ _ _ _ hP.native
      (hP.transferAvailable _ _ _ _ _ hP.native hcreate), rfl⟩

omit [SerialManager M] in
theorem processPayment_keeps {op : PaymentOp} (hasset : A op.asset) (hs : P s.db s.view) :
    P (processPayment metadata op s).2.db (processPayment metadata op s).2.view ∧
      (processPayment metadata op s).2.books = s.books := by
  simp only [processPayment]
  cases s.lookupUser op.receiver with
  | none => split_ifs <;> exact ⟨hs, rfl⟩
  | some target =>
    split_ifs
    · exact ⟨hs, rfl⟩
    · exact ⟨hP.transferAvailable _ _ _ _ _ hasset hs, rfl⟩
    · exact ⟨hP.transferAvailable _ _ _ _ _ hasset (hP.transferAvailable _ _ _ _ _ hasset hs), rfl⟩

omit [SerialManager M] in
theorem processMoneyPrinter_keeps {op : MoneyPrinterOp} (hasset : A op.asset) (hs : P s.db s.view) :
    P (processMoneyPrinter metadata op s).2.db (processMoneyPrinter metadata op s).2.view ∧
      (processMoneyPrinter metadata op s).2.books = s.books := by
  simp only [processMoneyPrinter]
  split_ifs
  · exact ⟨hs, rfl⟩
  · exact ⟨hP.transferAvailable _ _ _ _ _ hasset hs, rfl⟩

variable {metadata} [LawfulManager M] {s' : HandlerState M V} {status : TransactionProcessingStatus}
  (hbooks : ∀ asset : AssetID, asset.toNat < s.books.numAssets → A asset)
include hbooks

/-- Offers are in assets below the number of assets, as their category is checked. -/
theorem processCreateSellOffer_keeps {op : CreateSellOfferOp}
    (h : processCreateSellOffer metadata op s = .ok (status, s')) (hs : P s.db s.view) :
    P s'.db s'.view ∧ s'.books.numAssets = s.books.numAssets := by
  rw [processCreateSellOffer] at h
  split_ifs at h with hcategory
  · cases h
    exact ⟨hs, rfl⟩
  · cases h
    exact ⟨hs, rfl⟩
  · cases h
    exact ⟨hs, rfl⟩
  · simp only [validateCategory, Bool.not_eq_true', Bool.not_eq_false, Bool.and_eq_true,
      decide_eq_true_eq] at hcategory
    obtain ⟨idx, -, h⟩ := bind_eq_ok.mp h
    obtain ⟨s₁, hadd, h⟩ := bind_eq_ok.mp h
    obtain ⟨hs₁, hbooks₁⟩ := LawfulManager.addOffer hP (hbooks _ hcategory.1.2) hadd hs
    have hescrow := hP.escrow s₁.view s₁.db (.main metadata.sourceAccountIdx) op.category.sellAsset
      op.amount (hbooks _ hcategory.1.1.2) hs₁
    dsimp only at h
    split at h
    · obtain ⟨manager, -, h⟩ := bind_eq_ok.mp h
      cases h
      exact ⟨hescrow, congrArg _ hbooks₁⟩
    · cases h
      exact ⟨hescrow, congrArg _ hbooks₁⟩

/-- The asset of a cancelled offer is checked when its orderbook is looked up. -/
theorem processCancelSellOffer_keeps {op : CancelSellOfferOp}
    (h : processCancelSellOffer metadata op s = .ok (status, s')) (hs : P s.db s.view) :
    P s'.db s'.view ∧ s'.books.numAssets = s.books.numAssets := by
  obtain ⟨idx, hidx, h⟩ := bind_eq_ok.mp h
  have hsell : op.category.sellAsset.toNat < s.books.numAssets := by
    by_contra hge
    rw [OrderbookManager.lookUpIdx, categoryToIdx, if_pos (.inl (not_lt.mp hge))] at hidx
    cases hidx
  obtain ⟨⟨found, s₁⟩, hdelete, h⟩ := bind_eq_ok.mp h
  obtain ⟨⟨offer, books⟩, hmark, hdelete⟩ := bind_eq_ok.mp hdelete
  obtain ⟨_, -, hmark⟩ := bind_eq_ok.mp hmark
  cases hmark
  cases hdelete
  dsimp only at h
  split at h
  · cases h
    exact ⟨hs, rfl⟩
  · rename_i offer _
    have hescrow := hP.escrow s.view s.db (.main metadata.sourceAccountIdx) op.category.sellAsset
      (-offer.amount).toInt64 (hbooks _ hsell) hs
    split at h
    · obtain ⟨s₂, hundelete, h⟩ := bind_eq_ok.mp h
      obtain ⟨books, hbooks', hundelete⟩ := bind_eq_ok.mp hundelete
      cases hundelete
      cases h
      exact ⟨hescrow, (LawfulManager.undeleteOffer hbooks').trans rfl⟩
    · cases h
      exact ⟨hescrow, rfl⟩

theorem processOperation_keeps {op : Operation} (hop : op.AssetIn A)
    (h : processOperation metadata op s = .ok (status, s')) (hs : P s.db s.view) :
    P s'.db s'.view ∧ s'.books.numAssets = s.books.numAssets := by
  cases op with
  | CREATE_ACCOUNT op =>
    obtain ⟨hkept, hsame⟩ := processCreateAccount_keeps metadata hP op hs
    rw [Except.ok.inj h] at hkept hsame
    exact ⟨hkept, congrArg _ hsame⟩
  | PAYMENT op =>
    obtain ⟨hkept, hsame⟩ := processPayment_keeps metadata hP hop hs
    rw [Except.ok.inj h] at hkept hsame
    exact ⟨hkept, congrArg _ hsame⟩
  | MONEY_PRINTER op =>
    obtain ⟨hkept, hsame⟩ := processMoneyPrinter_keeps metadata hP hop hs
    rw [Except.ok.inj h] at hkept hsame
    exact ⟨hkept, congrArg _ hsame⟩
  | CREATE_SELL_OFFER op => exact processCreateSellOffer_keeps hP hbooks h hs
  | CANCEL_SELL_OFFER op => exact processCancelSellOffer_keeps hP hbooks h hs

theorem processOperations_keeps {txMetadata : TransactionMetadata} {sourceIdx i n : Nat}
    {ops : List Operation} (hops : ∀ op ∈ ops, op.AssetIn A)
    (h : processOperations txMetadata sourceIdx i ops s = .ok (status, n, s'))
    (hs : P s.db s.view) : P s'.db s'.view := by
  induction ops generalizing i s with
  | nil =>
    cases h
    exact hs
  | cons op ops ih =>
    obtain ⟨⟨status', s₁⟩, hop, h⟩ := bind_eq_ok.mp h
    obtain ⟨hs₁, hnum⟩ := processOperation_keeps hP hbooks (hops op List.mem_cons_self) hop hs
    dsimp only at h
    split at h
    · cases h
      exact hs₁
    · refine ih (fun asset hasset => hbooks asset ?_)
        (fun op' hop' => hops op' (List.mem_cons_of_mem op hop')) h hs₁
      rwa [hnum] at hasset

end Operations

/-! ### Transactions -/

theorem ProcessorState.unwindOperation_same {metadata : TransactionMetadata} {i : Nat}
    {op : Operation} {s s' : ProcessorState.Running}
    (h : ProcessorState.unwindOperation metadata i op s = .ok s') :
    s'.db = s.db ∧ s'.view = s.view := by
  cases op with
  | CREATE_SELL_OFFER op =>
    obtain ⟨idx, -, h⟩ := bind_eq_ok.mp h
    obtain ⟨manager, -, h⟩ := bind_eq_ok.mp h
    cases h
    exact ⟨rfl, rfl⟩
  | CANCEL_SELL_OFFER op =>
    obtain ⟨idx, -, h⟩ := bind_eq_ok.mp h
    obtain ⟨books, -, h⟩ := bind_eq_ok.mp h
    cases h
    exact ⟨rfl, rfl⟩
  | CREATE_ACCOUNT op | PAYMENT op | MONEY_PRINTER op =>
    cases h
    exact ⟨rfl, rfl⟩

theorem ProcessorState.unwindOperations_same {metadata : TransactionMetadata}
    {ops : List Operation} {n : Nat} {s s' : ProcessorState.Running}
    (h : ProcessorState.unwindOperations metadata ops n s = .ok s') :
    s'.db = s.db ∧ s'.view = s.view := by
  induction n generalizing s with
  | zero =>
    cases h
    exact ⟨rfl, rfl⟩
  | succ n ih =>
    obtain ⟨op, -, h⟩ := bind_eq_ok.mp h
    obtain ⟨s₁, hop, h⟩ := bind_eq_ok.mp h
    obtain ⟨hdb, hview⟩ := unwindOperation_same hop
    obtain ⟨hdb', hview'⟩ := ih h
    exact ⟨hdb'.trans hdb, hview'.trans hview⟩

/-- A property `R` of databases, through one `P` of databases with a view that transactions keep. -/
structure KeptByTransactions {V : Type} [DatabaseView V] (A : AssetID → Prop)
    (P : MemoryDatabase → V → Prop) (R : MemoryDatabase → Prop) (empty : V) : Prop
    extends KeptByCalls A P where
  start {db : MemoryDatabase} (h : R db) : P db empty
  reserve {db db' : MemoryDatabase} {idx : Nat} {n : UInt64} {status : TransactionProcessingStatus}
    {creation : AccountCreationView}
    (hreserve : (DatabaseView.creation empty).reserveSequenceNumber db idx n =
      .ok (status, db', creation)) (h : P db empty) : P db' (DatabaseView.setCreation empty creation)

/-- A transaction in block production. -/
theorem ProcessorState.processTransaction_keeps {A : AssetID → Prop}
    {P : MemoryDatabase → BufferedMemoryDatabaseView → Prop} {R : MemoryDatabase → Prop}
    (hP : KeptByTransactions A P R .empty)
    (hcommit : ∀ (v : BufferedMemoryDatabaseView) (db : MemoryDatabase), P db v → R (v.commit db))
    (hunwind : ∀ (v : BufferedMemoryDatabaseView) (db db' : MemoryDatabase), P db v →
      v.unwind db = .ok db' → R db')
    {config : SignatureConfig} {s s' : ProcessorState} {tx : SignedTransaction}
    {status : TransactionProcessingStatus}
    (hbooks : ∀ asset : AssetID, asset.toNat < s.books.numAssets → A asset)
    (htx : ∀ op ∈ tx.transaction.operations, op.AssetIn A)
    (h : s.processTransaction config tx = .ok (status, s')) (hs : R s.db) : R s'.db := by
  have hunwound : ∀ {run : Running} {s₁ : ProcessorState}, P run.db run.view →
      unwound run = .ok s₁ → R s₁.db := by
    intro run s₁ hrun hunwound
    obtain ⟨db, hdb, hunwound⟩ := bind_eq_ok.mp hunwound
    cases hunwound
    exact hunwind _ _ _ hrun hdb
  unfold processTransaction at h
  dsimp only at h
  split at h
  · cases h
    exact hs
  split at h
  · cases h
    exact hs
  split at h
  · cases h
    exact hs
  rename_i sourceIdx _
  obtain ⟨source, -, h⟩ := bind_eq_ok.mp h
  split at h
  · cases h
    exact hs
  obtain ⟨⟨status₁, db, creation⟩, hreserved, h⟩ := bind_eq_ok.mp h
  have hreserve := hP.reserve hreserved (hP.start hs)
  dsimp only at h
  split at h
  · obtain ⟨s₁, hs₁, h⟩ := bind_eq_ok.mp h
    cases h
    exact hunwound hreserve hs₁
  have hfee := hP.transferAvailable _ _ (.main sourceIdx) _
    (-.ofNat (feeRequired tx.transaction.operations.length)) hP.native hreserve
  split at h
  · obtain ⟨s₁, hs₁, h⟩ := bind_eq_ok.mp h
    cases h
    exact hunwound hfee hs₁
  obtain ⟨⟨status₂, n, run⟩, hprocessed, h⟩ := bind_eq_ok.mp h
  have hops := processOperations_keeps hP.toKeptByCalls hbooks htx hprocessed hfee
  dsimp only at h
  split at h
  · obtain ⟨run', hundone, h⟩ := bind_eq_ok.mp h
    obtain ⟨s₁, hs₁, h⟩ := bind_eq_ok.mp h
    cases h
    unfold unwindTransaction at hundone
    split at hundone
    · cases hundone
    · obtain ⟨hdb, hview⟩ := unwindOperations_same hundone
      exact hunwound (by rwa [hdb, hview]) hs₁
  · cases h
    exact hcommit _ _ hops

/-- A transaction in block validation, which leaves the view behind if it fails. -/
theorem ValidatorState.validateTransaction_keeps {A : AssetID → Prop}
    {P : MemoryDatabase → UnbufferedMemoryDatabaseView → Prop} {R : MemoryDatabase → Prop}
    (hP : KeptByTransactions A P R .empty)
    (hcommit : ∀ (v : UnbufferedMemoryDatabaseView) (db : MemoryDatabase), P db v →
      R (v.commit db))
    (habandon : ∀ (v : UnbufferedMemoryDatabaseView) (db : MemoryDatabase), P db v → R db)
    {config : SignatureConfig} {s s' : ValidatorState} {tx : SignedTransaction} {valid : Bool}
    (hbooks : ∀ asset : AssetID, asset.toNat < s.books.numAssets → A asset)
    (htx : ∀ op ∈ tx.transaction.operations, op.AssetIn A)
    (h : s.validateTransaction config tx = .ok (valid, s')) (hs : R s.db) : R s'.db := by
  unfold validateTransaction at h
  dsimp only at h
  split at h
  · cases h
    exact hs
  split at h
  · cases h
    exact hs
  rename_i sourceIdx _
  split at h
  · cases h
    exact hs
  obtain ⟨source, -, h⟩ := bind_eq_ok.mp h
  split at h
  · cases h
    exact hs
  obtain ⟨⟨status₁, db, creation⟩, hreserved, h⟩ := bind_eq_ok.mp h
  have hreserve := hP.reserve hreserved (hP.start hs)
  dsimp only at h
  split at h
  · cases h
    exact habandon _ _ hreserve
  have hfee := hP.transferAvailable _ _ (.main sourceIdx) _
    (-.ofNat (feeRequired tx.transaction.operations.length)) hP.native hreserve
  split at h
  · cases h
    exact habandon _ _ hfee
  obtain ⟨⟨status₂, n, run⟩, hprocessed, h⟩ := bind_eq_ok.mp h
  have hops := processOperations_keeps hP.toKeptByCalls hbooks htx hprocessed hfee
  dsimp only at h
  split at h
  · cases h
    exact habandon _ _ hops
  · cases h
    exact hcommit _ _ hops

theorem KeptByTransactions.applies {V : Type} [DatabaseView V] [LawfulView V] (db₀ : MemoryDatabase)
    (empty : V) : KeptByTransactions (fun _ => True) (fun db (_ : V) => db₀.Applies db)
      (fun db => db₀.Applies db) empty where
  toKeptByCalls := KeptByCalls.applies db₀
  start h := h
  reserve hreserve h := h.trans (AccountCreationView.reserveSequenceNumber_applies hreserve)

theorem Operation.assetIn_true (op : Operation) : op.AssetIn fun _ => True := by
  cases op <;> trivial

theorem ProcessorState.processTransaction_applies {config : SignatureConfig} {s s' : ProcessorState}
    {tx : SignedTransaction} {status : TransactionProcessingStatus}
    (h : s.processTransaction config tx = .ok (status, s')) : s.db.Applies s'.db :=
  processTransaction_keeps (R := fun db => s.db.Applies db)
    (KeptByTransactions.applies s.db BufferedMemoryDatabaseView.empty)
    (fun v db hdb => hdb.trans (v.commit_applies db))
    (fun _ _ _ hdb hunwind => hdb.trans (BufferedMemoryDatabaseView.unwind_applies hunwind))
    (fun _ _ => trivial) (fun op _ => op.assetIn_true) h (.refl s.db)

theorem ValidatorState.validateTransaction_applies {config : SignatureConfig} {s s' : ValidatorState}
    {tx : SignedTransaction} {valid : Bool}
    (h : s.validateTransaction config tx = .ok (valid, s')) : s.db.Applies s'.db :=
  validateTransaction_keeps (R := fun db => s.db.Applies db)
    (KeptByTransactions.applies s.db UnbufferedMemoryDatabaseView.empty)
    (fun v db hdb => hdb.trans (v.toAccountCreationView.commit_applies db)) (fun _ _ hdb => hdb)
    (fun _ _ => trivial) (fun op _ => op.assetIn_true) h (.refl s.db)

theorem ParallelValidate.validateNext_applies {config : SignatureConfig}
    {checker : OrderbookStateCommitmentChecker} {s s' : ParallelValidate}
    {next : Nat × SignedTransaction} (h : s.validateNext config checker next = .ok s') :
    s.db.Applies s'.db := by
  unfold validateNext at h
  dsimp only at h
  split at h
  · cases h
    exact .refl s.db
  obtain ⟨⟨valid, t⟩, ht, h⟩ := bind_eq_ok.mp h
  cases h
  have happlies := ValidatorState.validateTransaction_applies ht
  exact happlies

/-- A block of transactions in validation. -/
theorem validateTransactionBlock_applies {config : SignatureConfig}
    {checker : OrderbookStateCommitmentChecker} {db : MemoryDatabase} {books : OrderbookManager}
    {log : AccountModificationLog} {mainStats : ValidationStatistics}
    {schedule : List (Nat × SignedTransaction)} {valid : Bool} {t : BlockValidation}
    (h : validateTransactionBlock config checker db books log mainStats schedule = .ok (valid, t)) :
    db.Applies t.db := by
  unfold validateTransactionBlock at h
  split at h
  · cases h
  obtain ⟨s, hfold, h⟩ := bind_eq_ok.mp h
  have hs : db.Applies s.db := foldlM_invariant (P := fun s : ParallelValidate => db.Applies s.db)
    (fun _ _ _ _ hb hstep => hb.trans (ParallelValidate.validateNext_applies hstep)) (.refl db) hfold
  split at h
  · cases h
    exact hs
  · obtain ⟨books', -, h⟩ := bind_eq_ok.mp h
    cases h
    exact hs

end Speedex
