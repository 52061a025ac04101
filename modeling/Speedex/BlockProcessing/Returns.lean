import Speedex.BlockProcessing.Effects
import Speedex.Database.Committed
import Speedex.Orderbook.Indices

/-! Which operations make transaction processing throw.  `CREATE_SELL_OFFER` checks its category
before it uses it as an index, and the other operations have their positions from the id map.
`CANCEL_SELL_OFFER` takes its orderbook index from the category as it is. -/

namespace Speedex

open Lib

theorem MemoryDatabase.Applies.sameCommitted {db db' : MemoryDatabase} (h : db.Applies db') :
    db.SameCommitted db' := by
  obtain ⟨ops, hops⟩ := h
  exact foldlM_invariant (P := fun d => db.SameCommitted d)
    (fun _ _ _ _ hd hstep => hd.trans (sameCommitted_apply hstep)) (.refl db) hops

/-! ### Orderbook indices -/

namespace OrderbookManager

variable {m : OrderbookManager} {id : OfferCategory} {idx : Nat}

/-- `look_up_idx` throws for the category, or gives an index past the orderbooks. -/
def Outside (m : OrderbookManager) (id : OfferCategory) : Prop :=
  m.numAssets ≤ id.sellAsset.toNat ∨ m.numAssets ≤ id.buyAsset.toNat ∨ id.type ≠ .SELL ∨
    (id.sellAsset = id.buyAsset ∧ id.sellAsset.toNat + 1 = m.numAssets)

instance decidableOutside (m : OrderbookManager) (id : OfferCategory) : Decidable (m.Outside id) :=
  inferInstanceAs (Decidable (_ ∨ _ ∨ _ ∨ _))

theorem not_outside_of_valid (h : validateCategory id m.numAssets = true) : ¬ m.Outside id := by
  simp only [validateCategory, Bool.and_eq_true, decide_eq_true_eq] at h
  obtain ⟨⟨⟨hne, hsell⟩, hbuy⟩, htype⟩ := h
  rintro (h | h | h | h)
  · omega
  · omega
  · exact h htype
  · exact hne h.1

theorem lookUpIdx_eq (hsell : id.sellAsset.toNat < m.numAssets)
    (hbuy : id.buyAsset.toNat < m.numAssets) (htype : id.type = .SELL) :
    m.lookUpIdx id = .ok (id.sellAsset.toNat * (m.numAssets - 1) + (id.buyAsset.toNat -
      if id.sellAsset.toNat < id.buyAsset.toNat then 1 else 0)) :=
  categoryToIdx_eq hsell hbuy htype

theorem lookUpIdx_within (h : ¬ m.Outside id) :
    ∃ idx, m.lookUpIdx id = .ok idx ∧ idx < m.getNumOrderbooks := by
  simp only [Outside, not_or, not_le] at h
  obtain ⟨hsell, hbuy, htype, hlast⟩ := h
  refine ⟨_, lookUpIdx_eq hsell hbuy (not_not.mp htype), ?_⟩
  rw [getNumOrderbooks, getNumOrderbooksByAssetCount, pairIndex_lt hsell hbuy,
    UInt32.toNat_inj]
  exact hlast

theorem lookUpIdx_outside (h : m.Outside id) (hidx : m.lookUpIdx id = .ok idx) :
    m.getNumOrderbooks ≤ idx := by
  have hbounds : id.sellAsset.toNat < m.numAssets ∧ id.buyAsset.toNat < m.numAssets := by
    by_contra hnot
    rw [lookUpIdx, categoryToIdx, if_pos (by omega)] at hidx
    cases hidx
  have htype : id.type = .SELL := by
    rw [lookUpIdx, categoryToIdx, if_neg (by omega)] at hidx
    split at hidx
    · cases hidx
    · assumption
  rw [lookUpIdx_eq hbounds.1 hbounds.2 htype] at hidx
  cases hidx
  rw [getNumOrderbooks, getNumOrderbooksByAssetCount, ← not_lt, pairIndex_lt hbounds.1 hbounds.2,
    not_not, UInt32.toNat_inj]
  rcases h with h | h | h | h
  · omega
  · omega
  · exact absurd htype h
  · exact h

theorem markForDeletion_returns (h : idx < m.orderbooks.length) (key : OfferKey) :
    ∃ found m', m.markForDeletion idx key = .ok (found, m') ∧ m'.numAssets = m.numAssets ∧
      m'.orderbooks.length = m.orderbooks.length := by
  obtain ⟨ob, hob⟩ : ∃ ob, vectorAt m.orderbooks idx = .ok ob :=
    ⟨_, vectorAt_eq_ok.mpr (List.getElem?_eq_getElem h)⟩
  refine ⟨_, _, bind_eq_ok.mpr ⟨ob, hob, rfl⟩, rfl, ?_⟩
  simp [modifyBook]

theorem unmarkForDeletion_returns (h : idx < m.orderbooks.length) (key : OfferKey) :
    ∃ m', m.unmarkForDeletion idx key = .ok m' ∧ m'.numAssets = m.numAssets ∧
      m'.orderbooks.length = m.orderbooks.length := by
  obtain ⟨ob, hob⟩ : ∃ ob, vectorAt m.orderbooks idx = .ok ob :=
    ⟨_, vectorAt_eq_ok.mpr (List.getElem?_eq_getElem h)⟩
  refine ⟨_, bind_eq_ok.mpr ⟨ob, hob, rfl⟩, rfl, ?_⟩
  simp [modifyBook]

end OrderbookManager

/-! ### Calls -/

/-- The view keeps its reservations of sequence numbers. -/
class ReservingView (V : Type) [DatabaseView V] : Prop extends LawfulView V where
  creation_setCreation (v : V) (c : AccountCreationView) :
    DatabaseView.creation (DatabaseView.setCreation v c) = c
  transferAvailable_reservations (v : V) (db : MemoryDatabase) (account : AccountPtr)
    (asset : AssetID) (amount : Int64) :
    (DatabaseView.creation (DatabaseView.transferAvailable v db account asset amount).2.2).reservations =
      (DatabaseView.creation v).reservations
  escrow_reservations (v : V) (db : MemoryDatabase) (account : AccountPtr)
    (asset : AssetID) (amount : Int64) :
    (DatabaseView.creation (DatabaseView.escrow v db account asset amount).2.2).reservations =
      (DatabaseView.creation v).reservations

instance reservingBufferedView : ReservingView BufferedMemoryDatabaseView where
  creation_setCreation _ _ := rfl
  transferAvailable_reservations _ _ account _ _ := by cases account <;> rfl
  escrow_reservations _ _ account _ _ := by cases account <;> rfl

instance reservingUnbufferedView : ReservingView UnbufferedMemoryDatabaseView where
  creation_setCreation _ _ := rfl
  transferAvailable_reservations _ _ account _ _ := by cases account <;> rfl
  escrow_reservations _ _ account _ _ := by cases account <;> rfl

namespace HandlerState

variable {M V : Type} [SerialManager M] [DatabaseView V] {s s' s'' : HandlerState M V}

/-- A call has changed the database and the view only. -/
structure Calls (s s' : HandlerState M V) : Prop where
  books : s'.books = s.books
  manager : s'.manager = s.manager
  db : s.db.SameCommitted s'.db
  reservations : (DatabaseView.creation s'.view).reservations =
    (DatabaseView.creation s.view).reservations

/-- What operations keep.  There can be more tries of new offers than before. -/
structure Extends (s s' : HandlerState M V) : Prop where
  db : s.db.SameCommitted s'.db
  reservations : (DatabaseView.creation s'.view).reservations =
    (DatabaseView.creation s.view).reservations
  numAssets : s'.books.numAssets = s.books.numAssets
  numBooks : s'.books.orderbooks.length = s.books.orderbooks.length
  newOffers : (SerialManager.newOffers s.manager).length ≤
    (SerialManager.newOffers s'.manager).length

omit [SerialManager M] in
theorem Calls.refl (s : HandlerState M V) : Calls s s := ⟨rfl, rfl, .refl s.db, rfl⟩

omit [SerialManager M] in
theorem Calls.trans (h : Calls s s') (h' : Calls s' s'') : Calls s s'' :=
  ⟨h'.books.trans h.books, h'.manager.trans h.manager, h.db.trans h'.db,
    h'.reservations.trans h.reservations⟩

theorem Calls.extends (h : Calls s s') : Extends s s' :=
  ⟨h.db, h.reservations, by rw [h.books], by rw [h.books], by rw [h.manager]⟩

theorem Extends.refl (s : HandlerState M V) : Extends s s := (Calls.refl s).extends

theorem Extends.trans (h : Extends s s') (h' : Extends s' s'') : Extends s s'' :=
  ⟨h.db.trans h'.db, h'.reservations.trans h.reservations, h'.numAssets.trans h.numAssets,
    h'.numBooks.trans h.numBooks, h.newOffers.trans h'.newOffers⟩

variable [ReservingView V] (s)

omit [SerialManager M] in
theorem calls_transferAvailable (account : AccountPtr) (asset : AssetID) (amount : Int64) :
    Calls s (s.transferAvailable account asset amount).2 :=
  ⟨rfl, rfl, (transferAvailable_applies s account asset amount).sameCommitted,
    ReservingView.transferAvailable_reservations _ _ _ _ _⟩

omit [SerialManager M] in
theorem calls_escrow (account : AccountPtr) (asset : AssetID) (amount : Int64) :
    Calls s (s.escrow account asset amount).2 :=
  ⟨rfl, rfl, (escrow_applies s account asset amount).sameCommitted,
    ReservingView.escrow_reservations _ _ _ _ _⟩

omit [SerialManager M] in
theorem calls_createNewAccount (account : AccountID) (pk : PublicKey) :
    Calls s (s.createNewAccount account pk).2 := by
  refine ⟨rfl, rfl, (createNewAccount_applies s account pk).sameCommitted, ?_⟩
  simp only [createNewAccount, ReservingView.creation_setCreation,
    AccountCreationView.createNewAccount]
  split <;> rfl

end HandlerState

section TotalOperations

open HandlerState

variable {M V : Type} [SerialManager M] [DatabaseView V] [ReservingView V]
  {metadata : OperationMetadata} (s : HandlerState M V)

omit [SerialManager M] in
theorem processCreateAccount_calls (op : CreateAccountOp) :
    Calls s (processCreateAccount metadata op s).2 := by
  have hcreate := s.calls_createNewAccount op.newAccountId op.newAccountPublicKey
  simp only [processCreateAccount]
  split_ifs
  · exact .refl s
  · exact hcreate
  · exact hcreate.trans (calls_transferAvailable _ _ _ _)
  · exact hcreate.trans (calls_transferAvailable _ _ _ _)
  · exact (hcreate.trans (calls_transferAvailable _ _ _ _)).trans (calls_transferAvailable _ _ _ _)

omit [SerialManager M] in
theorem processPayment_calls (op : PaymentOp) : Calls s (processPayment metadata op s).2 := by
  simp only [processPayment]
  cases s.lookupUser op.receiver with
  | none => split_ifs <;> exact .refl s
  | some target =>
    split_ifs
    · exact .refl s
    · exact calls_transferAvailable _ _ _ _
    · exact (calls_transferAvailable _ _ _ _).trans (calls_transferAvailable _ _ _ _)

omit [SerialManager M] in
theorem processMoneyPrinter_calls (op : MoneyPrinterOp) :
    Calls s (processMoneyPrinter metadata op s).2 := by
  simp only [processMoneyPrinter]
  split_ifs
  · exact .refl s
  · exact calls_transferAvailable _ _ _ _

end TotalOperations

/-! ### Managers -/

/-- What operations rely on in a serial manager that is `Prepared` for a number of assets. -/
class ReturningManager (M : Type) [SerialManager M] where
  Prepared : M → Nat → Prop
  newOffers_setNewOffers (m : M) (newOffers : List OrderbookTrie) :
    SerialManager.newOffers (SerialManager.setNewOffers m newOffers) = newOffers
  prepared_setNewOffers {m : M} {n : Nat} (newOffers : List OrderbookTrie) (h : Prepared m n) :
    Prepared (SerialManager.setNewOffers m newOffers) n
  addOffer_returns {V : Type} [DatabaseView V] [ReservingView V] {s : HandlerState M V} {idx : Nat}
    {offer : Offer} (metadata : OperationMetadata) (h : Prepared s.manager s.books.numAssets)
    (hcategory : validateCategory offer.category s.books.numAssets = true)
    (hidx : s.books.lookUpIdx offer.category = .ok idx) :
    ∃ s', SerialManager.addOffer idx offer metadata s = .ok s' ∧ s.Extends s' ∧
      Prepared s'.manager s'.books.numAssets ∧
      (SerialManager.newOffers s'.manager).length =
        max (SerialManager.newOffers s.manager).length (idx + 1)
  unwindAddOffer_returns {m : M} {n idx : Nat} (offer : Offer) (h : Prepared m n)
    (hidx : idx < (SerialManager.newOffers m).length) :
    ∃ m', SerialManager.unwindAddOffer m idx offer = .ok m' ∧ Prepared m' n ∧
      (SerialManager.newOffers m').length = (SerialManager.newOffers m).length
  undeleteOffer_returns (m : M) {books : OrderbookManager} {idx : Nat} (key : OfferKey)
    (hidx : idx < books.orderbooks.length) :
    ∃ books', SerialManager.undeleteOffer m books idx key = .ok books' ∧
      books'.numAssets = books.numAssets ∧ books'.orderbooks.length = books.orderbooks.length

theorem length_ensureSufficientNewOffersSz (l : List OrderbookTrie) (idx : Nat) :
    (ensureSufficientNewOffersSz l idx).length = max l.length (idx + 1) := by
  rw [ensureSufficientNewOffersSz, List.length_append, List.length_replicate]
  omega

instance returningProcessingManager : ReturningManager ProcessingSerialManager where
  Prepared _ _ := True
  newOffers_setNewOffers _ _ := rfl
  prepared_setNewOffers _ _ := trivial
  addOffer_returns {_ _ _ s idx offer} _ _ _ _ := by
    have hlength : (ProcessingSerialManager.addOffer idx offer s).manager.newOffers.length =
        max s.manager.newOffers.length (idx + 1) := by
      simp only [ProcessingSerialManager.addOffer, List.length_modify,
        length_ensureSufficientNewOffersSz]
    refine ⟨_, rfl, ⟨.refl s.db, rfl, rfl, rfl, ?_⟩, trivial, hlength⟩
    show s.manager.newOffers.length ≤
      (ProcessingSerialManager.addOffer idx offer s).manager.newOffers.length
    omega
  unwindAddOffer_returns {m n idx} offer _ hidx := by
    refine ⟨_, bind_eq_ok.mpr ⟨_, vectorAt_eq_ok.mpr (List.getElem?_eq_getElem hidx), rfl⟩, trivial, ?_⟩
    exact List.length_modify _ _ _
  undeleteOffer_returns _ _ _ key hidx := OrderbookManager.unmarkForDeletion_returns hidx key

/-- The header has a commitment for every orderbook, and prices at which any pair of assets can
trade. -/
structure OrderbookStateCommitmentChecker.Prepared (c : OrderbookStateCommitmentChecker)
    (numAssets : Nat) : Prop where
  commitments : c.commitments.length = getNumOrderbooksByAssetCount numAssets
  prices : ∀ id, validateCategory id numAssets = true → ∃ sellPrice buyPrice,
    vectorAt c.prices id.sellAsset.toNat = .ok sellPrice ∧
    vectorAt c.prices id.buyAsset.toNat = .ok buyPrice ∧ buyPrice ≠ 0

namespace ValidatingSerialManager

variable {V : Type} [DatabaseView V] [ReservingView V] {s : HandlerState ValidatingSerialManager V}
  {idx : Nat} {offer : Offer}

theorem clearNewOffer_returns (metadata : OperationMetadata) {n : Nat}
    (h : s.manager.clearingCommitment.Prepared n)
    (hcategory : validateCategory offer.category n = true) :
    ∃ s', clearNewOffer idx offer metadata s = .ok s' ∧ s'.books = s.books ∧
      s.db.SameCommitted s'.db ∧
      (DatabaseView.creation s'.view).reservations = (DatabaseView.creation s.view).reservations ∧
      s'.manager.clearingCommitment = s.manager.clearingCommitment ∧
      s'.manager.newOffers = s.manager.newOffers := by
  obtain ⟨sellPrice, buyPrice, hsell, hbuy, hne⟩ := h.prices _ hcategory
  obtain ⟨b, hb⟩ : ∃ b, fullBuyAmount offer sellPrice buyPrice
      s.manager.clearingCommitment.taxRate = .ok b :=
    fullBuyAmount_returns offer _ hne
  have hcalls := s.calls_transferAvailable (.main metadata.sourceAccountIdx)
    offer.category.buyAsset b
  simp only [clearNewOffer, hsell, hbuy, clearOfferFull, hb, ok_bind, pure, Except.pure]
  exact ⟨_, rfl, rfl, hcalls.db, hcalls.reservations, rfl, rfl⟩

theorem addOffer_returns (metadata : OperationMetadata)
    (h : s.manager.clearingCommitment.Prepared s.books.numAssets)
    (hcategory : validateCategory offer.category s.books.numAssets = true)
    (hidx : s.books.lookUpIdx offer.category = .ok idx) :
    ∃ s', addOffer idx offer metadata s = .ok s' ∧ s.Extends s' ∧
      s'.manager.clearingCommitment.Prepared s'.books.numAssets ∧
      s'.manager.newOffers.length = max s.manager.newOffers.length (idx + 1) := by
  obtain ⟨idx', hidx', hlt⟩ :=
    OrderbookManager.lookUpIdx_within (OrderbookManager.not_outside_of_valid hcategory)
  cases hidx.symm.trans hidx'
  -- whatever is done with the offer, there are tries up to its orderbook first
  generalize hs₁ : ({ s with manager := { s.manager with
    activatedSupplies := s.manager.activatedSupplies.makeMinimumSize idx
    newOffers := ensureSufficientNewOffersSz s.manager.newOffers idx } } :
      HandlerState ValidatingSerialManager V) = s₁
  have hmanager : s₁.manager.clearingCommitment = s.manager.clearingCommitment := by rw [← hs₁]
  have hlength : s₁.manager.newOffers.length = max s.manager.newOffers.length (idx + 1) := by
    rw [← hs₁]
    exact length_ensureSufficientNewOffersSz _ _
  obtain ⟨commitment, hcommitment⟩ : ∃ c, vectorAt s.manager.clearingCommitment.commitments idx =
      .ok c := by
    refine ⟨_, vectorAt_eq_ok.mpr (List.getElem?_eq_getElem ?_)⟩
    rw [h.commitments]
    exact hlt
  have hclear : ∃ s', clearNewOffer idx offer metadata s₁ = .ok s' ∧ s.Extends s' ∧
      s'.manager.clearingCommitment.Prepared s'.books.numAssets ∧
      s'.manager.newOffers.length = max s.manager.newOffers.length (idx + 1) := by
    obtain ⟨s', hs', hbooks, hdb, hreservations, hchecker, hnew⟩ :=
      @clearNewOffer_returns V _ _ s₁ idx offer metadata _ (hmanager ▸ h) hcategory
    rw [← hs₁] at hbooks hdb hreservations
    have hlength' : s'.manager.newOffers.length = max s.manager.newOffers.length (idx + 1) := by
      rw [hnew, hlength]
    refine ⟨s', hs', ⟨hdb, hreservations, by rw [hbooks], by rw [hbooks], ?_⟩, ?_, hlength'⟩
    · show s.manager.newOffers.length ≤ s'.manager.newOffers.length
      omega
    · rw [hchecker, hmanager, hbooks]
      exact h
  simp only [addOffer, hs₁, hcommitment, ok_bind]
  split_ifs
  · exact hclear
  · have hlength' : ((ensureSufficientNewOffersSz s.manager.newOffers idx).modify idx
        (·.insertRollback offer.key offer)).length = max s.manager.newOffers.length (idx + 1) := by
      rw [List.length_modify, length_ensureSufficientNewOffersSz]
    refine ⟨_, rfl, ⟨.refl s.db, rfl, rfl, rfl, ?_⟩, h, hlength'⟩
    exact le_of_le_of_eq (le_max_left _ _) hlength'.symm
  · exact hclear

end ValidatingSerialManager

instance returningValidatingManager : ReturningManager ValidatingSerialManager where
  Prepared m n := m.clearingCommitment.Prepared n
  newOffers_setNewOffers _ _ := rfl
  prepared_setNewOffers _ h := h
  addOffer_returns metadata h hcategory hidx :=
    ValidatingSerialManager.addOffer_returns metadata h hcategory hidx
  unwindAddOffer_returns _ h _ := ⟨_, rfl, h, rfl⟩
  undeleteOffer_returns _ _ _ _ _ := ⟨_, rfl, rfl, rfl⟩

/-! ### Operations -/

section Operations

open HandlerState

variable {M V : Type} [SerialManager M] [DatabaseView V] {s s' : HandlerState M V}

/-- A cancellation in a category without an orderbook. -/
def CancelsOutside (books : OrderbookManager) : Operation → Prop
  | .CANCEL_SELL_OFFER op => books.Outside op.category
  | _ => False

instance decidableCancelsOutside (books : OrderbookManager) (op : Operation) :
    Decidable (CancelsOutside books op) :=
  match op with
  | .CANCEL_SELL_OFFER op => inferInstanceAs (Decidable (books.Outside op.category))
  | .CREATE_ACCOUNT _ | .CREATE_SELL_OFFER _ | .PAYMENT _ | .MONEY_PRINTER _ =>
    inferInstanceAs (Decidable False)

/-- The loop over the operations, from operation `i` on, comes to a cancellation in a category
without an orderbook: those before it succeed. -/
def ReachesOutside (metadata : TransactionMetadata) (sourceAccountIdx : Nat) :
    Nat → List Operation → HandlerState M V → Prop
  | _, [], _ => False
  | i, op :: ops, s => CancelsOutside s.books op ∨
    ∃ s', processOperation (.at metadata sourceAccountIdx i) op s = .ok (.SUCCESS, s') ∧
      ReachesOutside metadata sourceAccountIdx (i + 1) ops s'

/-- The orderbook of an operation that succeeded is there to unwind the operation. -/
def HandlerState.Unwindable (s : HandlerState M V) : Operation → Prop
  | .CREATE_SELL_OFFER op => ∃ idx, s.books.lookUpIdx op.category = .ok idx ∧
    idx < (SerialManager.newOffers s.manager).length
  | .CANCEL_SELL_OFFER op => ∃ idx, s.books.lookUpIdx op.category = .ok idx ∧
    idx < s.books.orderbooks.length
  | .CREATE_ACCOUNT _ | .PAYMENT _ | .MONEY_PRINTER _ => True

theorem HandlerState.Unwindable.extends {op : Operation} (h : s.Unwindable op) (hs : s.Extends s') :
    s'.Unwindable op := by
  have hlookup (id : OfferCategory) : s'.books.lookUpIdx id = s.books.lookUpIdx id := by
    rw [OrderbookManager.lookUpIdx, hs.numAssets]
    rfl
  cases op with
  | CREATE_SELL_OFFER op =>
    obtain ⟨idx, hidx, hlt⟩ := h
    exact ⟨idx, (hlookup _).trans hidx, hlt.trans_le hs.newOffers⟩
  | CANCEL_SELL_OFFER op =>
    obtain ⟨idx, hidx, hlt⟩ := h
    exact ⟨idx, (hlookup _).trans hidx, hlt.trans_eq hs.numBooks.symm⟩
  | CREATE_ACCOUNT op | PAYMENT op | MONEY_PRINTER op => trivial

variable [ReturningManager M]

/-- There are orderbooks for all pairs of assets, and new offers for no others. -/
structure HandlerState.Ready (s : HandlerState M V) : Prop where
  numBooks : s.books.orderbooks.length = s.books.getNumOrderbooks
  newOffers : (SerialManager.newOffers s.manager).length ≤ s.books.getNumOrderbooks
  prepared : ReturningManager.Prepared s.manager s.books.numAssets

theorem HandlerState.Ready.calls (h : s.Ready) (hs : s.Calls s') : s'.Ready :=
  ⟨hs.books ▸ h.numBooks, by rw [hs.books, hs.manager]; exact h.newOffers,
    by rw [hs.books, hs.manager]; exact h.prepared⟩

/-- The state that an operation ends in. -/
structure HandlerState.Steps (s s' : HandlerState M V) (status : TransactionProcessingStatus)
    (op : Operation) : Prop where
  extends_ : s.Extends s'
  ready : s'.Ready
  unwindable : status = .SUCCESS → s'.Unwindable op

variable [ReservingView V] {metadata : OperationMetadata}

theorem processCreateSellOffer_returns (h : s.Ready) (op : CreateSellOfferOp) :
    ∃ status s', processCreateSellOffer metadata op s = .ok (status, s') ∧
      s.Steps s' status (.CREATE_SELL_OFFER op) := by
  rw [processCreateSellOffer]
  split_ifs with hcategory hprice hamount
  · exact ⟨_, s, rfl, .refl s, h, fun hstatus => absurd hstatus (by decide)⟩
  · exact ⟨_, s, rfl, .refl s, h, fun hstatus => absurd hstatus (by decide)⟩
  · exact ⟨_, s, rfl, .refl s, h, fun hstatus => absurd hstatus (by decide)⟩
  rw [Bool.not_eq_true', Bool.not_eq_false] at hcategory
  obtain ⟨idx, hidx, hlt⟩ :=
    OrderbookManager.lookUpIdx_within (OrderbookManager.not_outside_of_valid hcategory)
  obtain ⟨s₁, hadd, hext, hprepared, hlength⟩ :=
    @ReturningManager.addOffer_returns M _ _ V _ _ s idx (makeOffer op metadata) metadata h.prepared
      hcategory hidx
  have hcalls := s₁.calls_escrow (.main metadata.sourceAccountIdx) op.category.sellAsset op.amount
  generalize hs₂ : s₁.escrow (.main metadata.sourceAccountIdx) op.category.sellAsset op.amount = r
    at hcalls
  have hnum : s₁.books.getNumOrderbooks = s.books.getNumOrderbooks := by
    rw [OrderbookManager.getNumOrderbooks, hext.numAssets]
    rfl
  have hready₁ : s₁.Ready := by
    refine ⟨?_, ?_, hprepared⟩
    · rw [hnum, hext.numBooks, h.numBooks]
    · rw [hnum, hlength]
      have hnew := h.newOffers
      omega
  have hlookup : r.2.books.lookUpIdx op.category = .ok idx := by
    rw [OrderbookManager.lookUpIdx, hcalls.books, hext.numAssets]
    exact hidx
  have hready₂ := hready₁.calls hcalls
  have hext₂ := hext.trans hcalls.extends
  have hin : idx < (SerialManager.newOffers r.2.manager).length := by
    rw [hcalls.manager, hlength]
    omega
  simp only [hidx, hadd, ok_bind, hs₂]
  split_ifs with hstatus
  · obtain ⟨m', hm', hm'prepared, hm'length⟩ := ReturningManager.unwindAddOffer_returns
      (makeOffer op metadata) hready₂.prepared hin
    simp only [hm', ok_bind, pure, Except.pure]
    refine ⟨_, _, rfl, ?_, ⟨hready₂.numBooks, ?_, hm'prepared⟩, fun h => absurd h hstatus⟩
    · exact hext₂.trans ⟨.refl _, rfl, rfl, rfl, hm'length.ge⟩
    · rw [hm'length]
      exact hready₂.newOffers
  · exact ⟨_, _, rfl, hext₂, hready₂, fun _ => ⟨idx, hlookup, hin⟩⟩

omit [ReservingView V] in
/-- `delete_offer` makes room for new offers of the orderbook, and returns if it is there. -/
theorem deleteOffer_returns (h : s.Ready) {idx : Nat} (hidx : idx < s.books.getNumOrderbooks)
    (minPrice : Price) (owner : AccountID) (offerId : UInt64) :
    ∃ found s', s.deleteOffer idx minPrice owner offerId = .ok (found, s') ∧ s.Extends s' ∧
      s'.Ready := by
  obtain ⟨found, books, hmark, hassets, hlength⟩ := OrderbookManager.markForDeletion_returns
    (h.numBooks.symm ▸ hidx) (generateOrderbookTrieKey minPrice owner offerId)
  have hnum : books.getNumOrderbooks = s.books.getNumOrderbooks := by
    rw [OrderbookManager.getNumOrderbooks, hassets]
    rfl
  have hnew := ReturningManager.newOffers_setNewOffers s.manager
    (ensureSufficientNewOffersSz (SerialManager.newOffers s.manager) idx)
  simp only [deleteOffer, hmark, ok_bind, pure, Except.pure]
  refine ⟨_, _, rfl, ⟨.refl _, rfl, hassets, hlength, ?_⟩, ?_, ?_, ?_⟩
  · rw [hnew, length_ensureSufficientNewOffersSz]
    exact le_max_left _ _
  · rw [hnum, hlength]
    exact h.numBooks
  · rw [hnew, length_ensureSufficientNewOffersSz, hnum]
    exact max_le h.newOffers hidx
  · rw [hassets]
    exact ReturningManager.prepared_setNewOffers _ h.prepared

omit [ReservingView V] in
theorem undeleteOffer_returns (h : s.Ready) {idx : Nat} (hidx : idx < s.books.orderbooks.length)
    (minPrice : Price) (owner : AccountID) (offerId : UInt64) :
    ∃ s', s.undeleteOffer idx minPrice owner offerId = .ok s' ∧ s.Extends s' ∧ s'.Ready := by
  obtain ⟨books, hundelete, hassets, hlength⟩ := ReturningManager.undeleteOffer_returns s.manager
    (generateOrderbookTrieKey minPrice owner offerId) hidx
  have hnum : books.getNumOrderbooks = s.books.getNumOrderbooks := by
    rw [OrderbookManager.getNumOrderbooks, hassets]
    rfl
  simp only [undeleteOffer, hundelete, ok_bind, pure, Except.pure]
  refine ⟨_, rfl, ⟨.refl _, rfl, hassets, hlength, le_rfl⟩, ?_, ?_, ?_⟩
  · rw [hnum, hlength]
    exact h.numBooks
  · rw [hnum]
    exact h.newOffers
  · rw [hassets]
    exact h.prepared

theorem processCancelSellOffer_returns (h : s.Ready) {op : CancelSellOfferOp}
    (hop : ¬ s.books.Outside op.category) :
    ∃ status s', processCancelSellOffer metadata op s = .ok (status, s') ∧
      s.Steps s' status (.CANCEL_SELL_OFFER op) := by
  obtain ⟨idx, hidx, hlt⟩ := OrderbookManager.lookUpIdx_within hop
  obtain ⟨found, s₁, hdelete, hext, hready₁⟩ :=
    deleteOffer_returns h hlt op.minPrice metadata.txMetadata.sourceAccount op.offerId
  rw [processCancelSellOffer]
  simp only [hidx, hdelete, ok_bind]
  cases found with
  | none => exact ⟨_, s₁, rfl, hext, hready₁, fun hstatus => absurd hstatus (by decide)⟩
  | some offer =>
    dsimp only
    have hcalls := s₁.calls_escrow (.main metadata.sourceAccountIdx) op.category.sellAsset
      (-offer.amount).toInt64
    generalize s₁.escrow (.main metadata.sourceAccountIdx) op.category.sellAsset
      (-offer.amount).toInt64 = r at hcalls ⊢
    have hready₂ := hready₁.calls hcalls
    have hext₂ := hext.trans hcalls.extends
    have hin : idx < r.2.books.orderbooks.length := by
      rw [hext₂.numBooks, h.numBooks]
      exact hlt
    split_ifs with hstatus
    · obtain ⟨s₃, hundelete, hext₃, hready₃⟩ := undeleteOffer_returns hready₂ hin op.minPrice
        metadata.txMetadata.sourceAccount op.offerId
      simp only [hundelete, ok_bind, pure, Except.pure]
      exact ⟨_, s₃, rfl, hext₂.trans hext₃, hready₃, fun h => absurd h hstatus⟩
    · refine ⟨_, r.2, rfl, hext₂, hready₂, fun _ => ⟨idx, ?_, hin⟩⟩
      rw [OrderbookManager.lookUpIdx, hext₂.numAssets]
      exact hidx

/-- Every operation returns, unless it is a cancellation in a category without an orderbook. -/
theorem processOperation_returns (h : s.Ready) {op : Operation} (hop : ¬ CancelsOutside s.books op) :
    ∃ status s', processOperation metadata op s = .ok (status, s') ∧ s.Steps s' status op := by
  cases op with
  | CREATE_SELL_OFFER op => exact processCreateSellOffer_returns h op
  | CANCEL_SELL_OFFER op => exact processCancelSellOffer_returns h hop
  | CREATE_ACCOUNT op =>
    have hcalls := @processCreateAccount_calls M V _ _ metadata s op
    exact ⟨_, _, rfl, hcalls.extends, h.calls hcalls, fun _ => trivial⟩
  | PAYMENT op =>
    have hcalls := @processPayment_calls M V _ _ metadata s op
    exact ⟨_, _, rfl, hcalls.extends, h.calls hcalls, fun _ => trivial⟩
  | MONEY_PRINTER op =>
    have hcalls := @processMoneyPrinter_calls M V _ _ metadata s op
    exact ⟨_, _, rfl, hcalls.extends, h.calls hcalls, fun _ => trivial⟩

omit [ReservingView V] in
theorem processOperation_throws (h : s.Ready) {op : Operation} (hop : CancelsOutside s.books op)
    (r : TransactionProcessingStatus × HandlerState M V) :
    processOperation metadata op s ≠ .ok r := by
  cases op with
  | CANCEL_SELL_OFFER op =>
    intro hr
    obtain ⟨idx, hidx, hr⟩ := bind_eq_ok.mp hr
    obtain ⟨⟨found, s₁⟩, hdelete, -⟩ := bind_eq_ok.mp hr
    obtain ⟨⟨found', books⟩, hmark, -⟩ := bind_eq_ok.mp hdelete
    obtain ⟨ob, hob, -⟩ := bind_eq_ok.mp hmark
    have hlt : idx < s.books.orderbooks.length :=
      (List.getElem?_eq_some_iff.mp (vectorAt_eq_ok.mp hob)).1
    have hle := OrderbookManager.lookUpIdx_outside hop hidx
    have hnum := h.numBooks
    omega
  | CREATE_ACCOUNT op | CREATE_SELL_OFFER op | PAYMENT op | MONEY_PRINTER op => exact hop.elim

variable {txMetadata : TransactionMetadata} {sourceIdx : Nat}

/-- The loop returns if it does not come to such a cancellation, and the operations that succeeded
can be unwound. -/
theorem processOperations_returns (h : s.Ready) {i : Nat} {ops : List Operation}
    (hops : ¬ ReachesOutside txMetadata sourceIdx i ops s) :
    ∃ status k s', processOperations txMetadata sourceIdx i ops s = .ok (status, i + k, s') ∧
      s.Extends s' ∧ s'.Ready ∧ ∀ j < k, ∃ op, ops[j]? = some op ∧ s'.Unwindable op := by
  induction ops generalizing i s with
  | nil => exact ⟨_, 0, s, rfl, .refl s, h, fun _ hj => absurd hj (Nat.not_lt_zero _)⟩
  | cons op ops ih =>
    rw [ReachesOutside, not_or] at hops
    obtain ⟨status, s₁, hop, hext, hready, hunwindable⟩ := processOperation_returns h hops.1
    rw [processOperations, hop, ok_bind]
    dsimp only
    split_ifs with hstatus
    · exact ⟨status, 0, s₁, rfl, hext, hready, fun _ hj => absurd hj (Nat.not_lt_zero _)⟩
    · rw [not_not] at hstatus
      subst hstatus
      obtain ⟨status, k, s₂, hrest, hext₂, hready₂, hall⟩ := ih hready fun hreaches =>
        hops.2 ⟨s₁, hop, hreaches⟩
      refine ⟨status, k + 1, s₂, ?_, hext.trans hext₂, hready₂, fun j hj => ?_⟩
      · rw [hrest, Nat.add_assoc, Nat.add_comm 1 k]
      · cases j with
        | zero => exact ⟨op, rfl, (hunwindable rfl).extends hext₂⟩
        | succ j => exact hall j (by omega)

theorem processOperations_throws (h : s.Ready) {i : Nat} {ops : List Operation}
    (hops : ReachesOutside txMetadata sourceIdx i ops s)
    (r : TransactionProcessingStatus × Nat × HandlerState M V) :
    processOperations txMetadata sourceIdx i ops s ≠ .ok r := by
  induction ops generalizing i s with
  | nil => exact hops.elim
  | cons op ops ih =>
    intro hr
    by_cases hop : CancelsOutside s.books op
    · obtain ⟨r₁, hr₁, -⟩ := bind_eq_ok.mp hr
      exact processOperation_throws h hop r₁ hr₁
    rcases hops with hops | ⟨s₁, hs₁, hops⟩
    · exact hop hops
    obtain ⟨status, s₁', hop', hsteps⟩ := processOperation_returns h hop
    cases hop'.symm.trans hs₁
    rw [processOperations, hs₁, ok_bind] at hr
    exact ih hsteps.ready hops hr

/-- Only a transaction with such a cancellation comes to one. -/
theorem ReachesOutside.exists (h : s.Ready) {i : Nat} {ops : List Operation}
    (hops : ReachesOutside txMetadata sourceIdx i ops s) : ∃ op ∈ ops, CancelsOutside s.books op := by
  induction ops generalizing i s with
  | nil => exact hops.elim
  | cons op ops ih =>
    by_cases hop : CancelsOutside s.books op
    · exact ⟨op, List.mem_cons_self, hop⟩
    rcases hops with hops | ⟨s₁, hs₁, hops⟩
    · exact absurd hops hop
    obtain ⟨status, s₁', hop', hsteps⟩ := processOperation_returns h hop
    cases hop'.symm.trans hs₁
    obtain ⟨op', hmem, houtside⟩ := ih hsteps.ready hops
    refine ⟨op', List.mem_cons_of_mem op hmem, ?_⟩
    cases op' with
    | CANCEL_SELL_OFFER op' =>
      simp only [CancelsOutside, OrderbookManager.Outside, hsteps.extends_.numAssets] at houtside
      exact houtside
    | CREATE_ACCOUNT op' | CREATE_SELL_OFFER op' | PAYMENT op' | MONEY_PRINTER op' =>
      exact houtside.elim

end Operations

end Speedex
