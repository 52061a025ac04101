import Speedex.BlockProcessing.Processor
import Speedex.Database.Unwind

/-! What a rejected transaction leaves behind in block production.  The unwind inverts the operations
that succeeded, from the last to the first, and the view returns what it took.  What is not undone is
the room that a failed debit made for an asset. -/

namespace Speedex

open Lib

/-! ### New offers -/

namespace ProcessingSerialManager

variable {m m' m'' : ProcessingSerialManager} {idx i : Nat} {offer : Offer}

/-- The new offers for one orderbook. -/
def offersAt (m : ProcessingSerialManager) (i : Nat) : OrderbookTrie := m.newOffers.getD i ∅

/-- `m` has the new offers of `m'`, and as many tries at least. -/
structure Covers (m m' : ProcessingSerialManager) : Prop where
  offers : ∀ i, m.offersAt i = m'.offersAt i
  length : m'.newOffers.length ≤ m.newOffers.length

theorem Covers.refl (m : ProcessingSerialManager) : Covers m m := ⟨fun _ => rfl, le_rfl⟩

theorem Covers.trans (h : Covers m m') (h' : Covers m' m'') : Covers m m'' :=
  ⟨fun i => (h.offers i).trans (h'.offers i), h'.length.trans h.length⟩

theorem getD_ensure (l : List OrderbookTrie) (idx i : Nat) :
    (ensureSufficientNewOffersSz l idx).getD i ∅ = l.getD i ∅ := by
  unfold ensureSufficientNewOffersSz
  by_cases hi : i < l.length
  · rw [List.getD_append _ _ _ _ hi]
  · rw [List.getD_append_right _ _ _ _ (by omega), List.getD_eq_default l _ (by omega),
      List.getD_eq_getElem?_getD, List.getElem?_replicate]
    split <;> rfl

@[simp] theorem length_ensure (l : List OrderbookTrie) (idx : Nat) :
    (ensureSufficientNewOffersSz l idx).length = max l.length (idx + 1) := by
  unfold ensureSufficientNewOffersSz
  rw [List.length_append, List.length_replicate]
  omega

theorem covers_ensure (m : ProcessingSerialManager) (idx : Nat) :
    Covers ⟨ensureSufficientNewOffersSz m.newOffers idx⟩ m :=
  ⟨fun i => getD_ensure _ _ _, by simp⟩

theorem getD_modify (l : List OrderbookTrie) (f : OrderbookTrie → OrderbookTrie)
    (h : idx < l.length) (i : Nat) :
    (l.modify idx f).getD i ∅ = if idx = i then f (l.getD i ∅) else l.getD i ∅ := by
  rw [List.getD_eq_getElem?_getD, List.getElem?_modify, List.getD_eq_getElem?_getD]
  by_cases hi : idx = i
  · subst hi
    simp [h]
  · simp [hi]

theorem offersAt_addOffer {V : Type} (s : HandlerState ProcessingSerialManager V) (i : Nat) :
    (addOffer idx offer s).manager.offersAt i =
      if idx = i then (s.manager.offersAt i).insertOffer offer.key offer
      else s.manager.offersAt i := by
  change (List.modify _ idx _).getD i ∅ = _
  rw [getD_modify _ _ (by simp), getD_ensure]
  rfl

theorem erase_insert {t : OrderbookTrie} {k : OfferKey} {leaf : OfferLeaf}
    (h : t.find? k = none) : (t.insert k leaf).erase k = t := by
  refine SortedMap.ext_find fun k' => ?_
  by_cases hk : k = k'
  · subst hk
    simp [h]
  · rw [SortedMap.find?_erase_ne hk, SortedMap.find?_insert_ne hk]

/-- Unwinding a new offer whose key was not in use takes exactly that offer out. -/
theorem unwindAddOffer_of_covers {V : Type} {s : HandlerState ProcessingSerialManager V}
    (hcovers : Covers m'' (addOffer idx offer s).manager)
    (hfresh : (s.manager.offersAt idx).find? offer.key = none) :
    ∃ m, m''.unwindAddOffer idx offer = .ok m ∧ Covers m s.manager := by
  have hlength := hcovers.length
  simp only [addOffer, List.length_modify, length_ensure] at hlength
  have hidx : idx < m''.newOffers.length := by omega
  refine ⟨⟨m''.newOffers.modify idx fun t => (t.performDeletion offer.key).2⟩, ?_, fun i => ?_, ?_⟩
  · simp [unwindAddOffer, vectorAt, hidx]
  · change (List.modify _ idx _).getD i ∅ = _
    rw [getD_modify _ _ hidx]
    have hoffers := hcovers.offers i
    rw [offersAt_addOffer] at hoffers
    change m''.newOffers.getD i ∅ = _ at hoffers
    rw [hoffers]
    by_cases hi : idx = i
    · subst hi
      simp only [if_true]
      exact erase_insert hfresh
    · simp only [hi, if_false]
  · simp only [List.length_modify]
    omega

end ProcessingSerialManager

/-! ### Deletion marks -/

namespace OrderbookTrie

theorem unmark_mark {t : OrderbookTrie} {k : OfferKey} {offer : Offer}
    (h : (t.markForDeletion k).1 = some offer) :
    ((t.markForDeletion k).2.unmarkForDeletion k).2 = t := by
  unfold markForDeletion at h ⊢
  cases hk : t.find? k with
  | none => simp [hk] at h
  | some leaf =>
    cases hd : leaf.deleted with
    | true => simp [hk, hd] at h
    | false =>
      simp only [hd, Bool.false_eq_true, if_false, unmarkForDeletion, SortedMap.find?_modify, hk,
        if_true, Option.map_some]
      refine SortedMap.ext_find fun k' => ?_
      rw [SortedMap.find?_modify, SortedMap.find?_modify]
      by_cases hkk : k = k'
      · subst hkk
        simp only [if_true, hk, Option.map_some]
        congr 1
        cases leaf
        simp_all
      · simp [hkk]

end OrderbookTrie

namespace OrderbookManager

theorem mark_numAssets {m m' : OrderbookManager} {idx : Nat} {k : OfferKey} {found : Option Offer}
    (h : m.markForDeletion idx k = .ok (found, m')) : m'.numAssets = m.numAssets := by
  obtain ⟨ob, -, h⟩ := bind_eq_ok.mp h
  cases h
  rfl

/-- An offer that is not found is not marked. -/
theorem mark_none {m m' : OrderbookManager} {idx : Nat} {k : OfferKey}
    (h : m.markForDeletion idx k = .ok (none, m')) : m' = m := by
  obtain ⟨ob, hob, hm⟩ := bind_eq_ok.mp h
  simp only [pure, Except.pure, Except.ok.injEq, Prod.mk.injEq] at hm
  obtain ⟨hfound, rfl⟩ := hm
  have hidx : m.orderbooks[idx]? = some ob := by
    unfold vectorAt at hob
    split at hob
    · cases hob
    · cases hob
      assumption
  have hsame : (ob.markForDeletion k).2 = ob := by
    simp only [Orderbook.markForDeletion, OrderbookTrie.markForDeletion] at hfound ⊢
    split at hfound
    · rename_i hnone
      simp only
    · rename_i leaf hleaf
      split_ifs at hfound with hdeleted
      simp only [hdeleted, if_true]
  unfold modifyBook
  have horderbooks : m.orderbooks.modify idx (fun ob => (ob.markForDeletion k).2) = m.orderbooks := by
    refine List.ext_getElem? fun j => ?_
    rw [List.getElem?_modify]
    by_cases hj : idx = j
    · subst hj
      simp [hidx, hsame]
    · simp [hj]
  rw [horderbooks]

theorem unmark_mark {m m' : OrderbookManager} {idx : Nat} {k : OfferKey} {offer : Offer}
    (h : m.markForDeletion idx k = .ok (some offer, m')) : m'.unmarkForDeletion idx k = .ok m := by
  obtain ⟨ob, hob, hm⟩ := bind_eq_ok.mp h
  have hidx : m.orderbooks[idx]? = some ob := by
    unfold vectorAt at hob
    split at hob
    · cases hob
    · cases hob
      assumption
  simp only [pure, Except.pure, Except.ok.injEq, Prod.mk.injEq] at hm
  obtain ⟨hfound, rfl⟩ := hm
  unfold unmarkForDeletion
  have hat : (m.modifyBook idx fun ob => (ob.markForDeletion k).2).orderbooks[idx]? =
      some (ob.markForDeletion k).2 := by
    simp [modifyBook, hidx]
  rw [show vectorAt (m.modifyBook idx fun ob => (ob.markForDeletion k).2).orderbooks idx =
    .ok (ob.markForDeletion k).2 by simp [vectorAt, hat]]
  simp only [ok_bind, pure, Except.pure, Except.ok.injEq]
  cases m with
  | mk orderbooks numAssets =>
    simp only [modifyBook, OrderbookManager.mk.injEq, and_true] at hidx ⊢
    refine List.ext_getElem? fun i => ?_
    simp only [List.getElem?_modify]
    by_cases hi : idx = i
    · subst hi
      rw [hidx]
      have htrie := OrderbookTrie.unmark_mark (t := ob.committedOffers) (k := k) hfound
      cases ob
      simp only [Orderbook.unmarkForDeletion, Orderbook.markForDeletion, if_true, Option.map_eq_map,
        Option.map_some] at htrie ⊢
      rw [htrie]
    · simp [hi]

end OrderbookManager

namespace ProcessorState

open BufferedMemoryDatabaseView

variable {db₀ : MemoryDatabase} {s s' : Running} {status : TransactionProcessingStatus} {i : Nat}

/-! ### Calls of the view -/

/-- The operation comes to a change of a balance that makes the buffer for the asset negative, where
the account has no slot for it: a debit that the transaction's own credits do not cover, or credits
that wrap. -/
def GrowsSlot (source : Nat) (owner : AccountID) (op : Operation) (s : Running) : Prop :=
  match op with
  | .CREATE_ACCOUNT op =>
    ¬ op.startingBalance < createAccountMinStartingBalance ∧
      (s.db.reserveAccountCreation op.newAccountId).1 = .SUCCESS ∧
      Uncovered s.db source MemoryDatabase.nativeAsset
        (s.view.buffered source MemoryDatabase.nativeAsset + -op.startingBalance)
  | .CREATE_SELL_OFFER op =>
    validateCategory op.category s.books.numAssets = true ∧ Price.isValidPrice op.minPrice = true ∧
      isValidAmount op.amount = true ∧
      Uncovered s.db source op.category.sellAsset
        (s.view.buffered source op.category.sellAsset - op.amount)
  | .CANCEL_SELL_OFFER op =>
    ∃ idx offer books, s.books.lookUpIdx op.category = .ok idx ∧
      s.books.markForDeletion idx (generateOrderbookTrieKey op.minPrice owner op.offerId) =
        .ok (some offer, books) ∧
      ¬ (-offer.amount).toInt64 < 0 ∧
      Uncovered s.db source op.category.sellAsset
        (s.view.buffered source op.category.sellAsset - (-offer.amount).toInt64)
  | .PAYMENT op =>
    isValidAmount op.amount = true ∧ ∃ target, s.lookupUser op.receiver = some target ∧
      (Uncovered s.db source op.asset (s.view.buffered source op.asset + -op.amount) ∨
        ∃ s₁ j, s.transferAvailable (.main source) op.asset (-op.amount) = (.SUCCESS, s₁) ∧
          target = .main j ∧ Uncovered s₁.db j op.asset (s₁.view.buffered j op.asset + op.amount))
  | .MONEY_PRINTER op =>
    ¬ op.amount < 0 ∧ Uncovered s.db source op.asset (s.view.buffered source op.asset + op.amount)

/-- A failed call leaves the database as it was, but for slots that it made room for if `grows`. -/
def Rejected (db₀ : MemoryDatabase) (s' : Running) (grows : Prop) : Prop :=
  (¬ grows ∧ Buffers s'.view db₀ s'.db) ∨
    (grows ∧ ∃ j n u, db₀.database[j]? = some u ∧ u.slots < n ∧
      Buffers s'.view (db₀.growAt j n) s'.db)

/-- Only the database and the view have changed. -/
structure Frame (s s' : Running) : Prop where
  books : s'.books = s.books
  manager : s'.manager = s.manager
  log : s'.log = s.log
  reservations : s'.view.reservations = s.view.reservations

theorem rejected_of_buffers (h : Buffers s'.view db₀ s'.db) {grows : Prop} (hnot : ¬ grows) :
    Rejected db₀ s' grows := .inl ⟨hnot, h⟩

theorem Rejected.congr {grows grows' : Prop} (h : Rejected db₀ s' grows) (hiff : grows ↔ grows') :
    Rejected db₀ s' grows' := by
  unfold Rejected at h ⊢
  rwa [← hiff]

/-- A call that leads where a call of the view leads. -/
theorem leads_cases {asset : AssetID} {newBuffer : Int64}
    {r : TransactionProcessingStatus × MemoryDatabase × BufferedMemoryDatabaseView}
    (h : Leads s.view db₀ i asset newBuffer r) (hb : Buffers s.view db₀ s.db)
    (hs' : s' = { s with db := r.2.1, view := r.2.2 }) :
    Frame s s' ∧
      ((r.1 = .SUCCESS ∧ ¬ Uncovered s.db i asset newBuffer ∧ Buffers s'.view db₀ s'.db) ∨
        (r.1 ≠ .SUCCESS ∧ Rejected db₀ s' (Uncovered s.db i asset newBuffer))) := by
  subst hs'
  obtain ⟨hcreation, hcases⟩ := h
  refine ⟨⟨rfl, rfl, rfl, by simp [hcreation]⟩, ?_⟩
  rw [hb.uncovered_iff]
  rcases hcases with ⟨hstatus, hcovered, hbuffers⟩ | ⟨hstatus, hneg, hbuffers⟩
  · exact .inl ⟨hstatus, hcovered, hbuffers⟩
  · refine .inr ⟨hstatus, ?_⟩
    by_cases hunc : Uncovered db₀ i asset newBuffer
    · obtain ⟨u, hu, hle⟩ := hunc.2
      exact .inr ⟨hunc, i, asset.toNat + 1, u, hu, by omega, hbuffers⟩
    · refine .inl ⟨hunc, ?_⟩
      rwa [MemoryDatabase.growAt_of_lt] at hbuffers
      intro u hu
      by_contra hle
      exact hunc ⟨hneg, u, hu, by omega⟩

theorem transferAvailable_cases (hb : Buffers s.view db₀ s.db) {asset : AssetID} {amount : Int64}
    (hcall : s.transferAvailable (.main i) asset amount = (status, s')) :
    Frame s s' ∧
      ((status = .SUCCESS ∧ ¬ Uncovered s.db i asset (s.view.buffered i asset + amount) ∧
          Buffers s'.view db₀ s'.db) ∨
        (status ≠ .SUCCESS ∧
          Rejected db₀ s' (Uncovered s.db i asset (s.view.buffered i asset + amount)))) := by
  cases hcall
  exact leads_cases (hb.transferAvailable asset amount) hb rfl

theorem escrow_cases (hb : Buffers s.view db₀ s.db) {asset : AssetID} {amount : Int64}
    (hcall : s.escrow (.main i) asset amount = (status, s')) :
    Frame s s' ∧
      ((status = .SUCCESS ∧
          ¬ (¬ amount < 0 ∧ Uncovered s.db i asset (s.view.buffered i asset - amount)) ∧
          Buffers s'.view db₀ s'.db) ∨
        (status ≠ .SUCCESS ∧ Rejected db₀ s'
          (¬ amount < 0 ∧ Uncovered s.db i asset (s.view.buffered i asset - amount)))) := by
  by_cases hamount : amount < 0
  · obtain ⟨v', hv', hcreation, hbuffers⟩ := hb.free (i := i) asset hamount
    simp only [HandlerState.escrow, DatabaseView.escrow, hv', Prod.mk.injEq] at hcall
    obtain ⟨rfl, rfl⟩ := hcall
    exact ⟨⟨rfl, rfl, rfl, by simp [hcreation]⟩, .inl ⟨rfl, fun h => h.1 hamount, hbuffers⟩⟩
  · simp only [hamount, not_false_eq_true, true_and]
    cases hcall
    exact leads_cases (hb.escrow asset hamount) hb rfl

/-- A call on an account that the view created. -/
theorem transferAvailable_fresh (hb : Buffers s.view db₀ s.db) {account : AccountID}
    {asset : AssetID} {amount : Int64}
    (hcall : s.transferAvailable (.fresh account) asset amount = (status, s')) :
    Frame s s' ∧ Buffers s'.view db₀ s'.db := by
  obtain ⟨hdb, hres, hbuffers⟩ := hb.onNewAccount account
    fun u => u.conditionalTransferAvailable asset amount
  cases hcall
  exact ⟨⟨rfl, rfl, rfl, hres⟩, hbuffers⟩

/-! ### Operations -/

/-- Unwinding the operation takes the orderbooks and the new offers back to those of `s`, from any
state that has the orderbooks and the new offers of `s'`. -/
def Unwinds (metadata : TransactionMetadata) (i : Nat) (op : Operation) (s s' : Running) : Prop :=
  ∀ r : Running, r.books = s'.books → r.manager.Covers s'.manager →
    ∃ m, unwindOperation metadata i op r = .ok { r with books := s.books, manager := m } ∧
      m.Covers s.manager

/-- Every new offer of `m'` is one of `m`, or has the id of operation `i`. -/
def AddsOnly (metadata : TransactionMetadata) (i : Nat) (m m' : ProcessingSerialManager) : Prop :=
  ∀ idx k leaf, (m'.offersAt idx).find? k = some leaf →
    (m.offersAt idx).find? k = some leaf ∨
      ∃ price, k = generateOrderbookTrieKey price metadata.sourceAccount
        (metadata.sequenceNumber + .ofNat i)

theorem addsOnly_of_covers {metadata : TransactionMetadata} {m m' : ProcessingSerialManager}
    (h : m'.Covers m) : AddsOnly metadata i m m' := by
  intro idx k leaf hleaf
  rw [h.offers] at hleaf
  exact .inl hleaf

/-- What an operation leads to, from a view that buffers what it takes from `db₀`: it succeeds and
can be unwound, or it fails and has been unwound, but for a slot. -/
structure Outcome (db₀ : MemoryDatabase) (metadata : TransactionMetadata) (i : Nat) (op : Operation)
    (grows : Prop) (s s' : Running) (status : TransactionProcessingStatus) : Prop where
  log : s'.log = s.log
  reservations : s'.view.reservations = s.view.reservations
  cases : (status = .SUCCESS ∧ ¬ grows ∧ Buffers s'.view db₀ s'.db ∧ Unwinds metadata i op s s' ∧
      AddsOnly metadata i s.manager s'.manager) ∨
    (status ≠ .SUCCESS ∧ s'.books = s.books ∧ s'.manager.Covers s.manager ∧ Rejected db₀ s' grows)

variable {metadata : TransactionMetadata} {source : Nat}

/-- The view unwinds the operation. -/
def UnwoundByView : Operation → Prop
  | .CREATE_ACCOUNT _ | .PAYMENT _ | .MONEY_PRINTER _ => True
  | .CREATE_SELL_OFFER _ | .CANCEL_SELL_OFFER _ => False

theorem Frame.refl (s : Running) : Frame s s := ⟨rfl, rfl, rfl, rfl⟩

theorem Frame.trans {s₁ s₂ : Running} (h : Frame s s₁) (h' : Frame s₁ s₂) : Frame s s₂ :=
  ⟨h'.books.trans h.books, h'.manager.trans h.manager, h'.log.trans h.log,
    h'.reservations.trans h.reservations⟩

theorem Frame.unwinds {op : Operation} (hop : UnwoundByView op) (h : Frame s s') :
    Unwinds metadata i op s s' := by
  intro r hbooks hcovers
  have hmanager := h.manager ▸ hcovers
  have hsame : r.books = s.books := hbooks.trans h.books
  refine ⟨r.manager, ?_, hmanager⟩
  rw [← hsame]
  cases op with
  | CREATE_ACCOUNT | PAYMENT | MONEY_PRINTER => rfl
  | CREATE_SELL_OFFER | CANCEL_SELL_OFFER => exact hop.elim

theorem Frame.succeeds {op : Operation} (hop : UnwoundByView op) (h : Frame s s') {grows : Prop}
    (hnot : ¬ grows) (hb : Buffers s'.view db₀ s'.db) :
    Outcome db₀ metadata i op grows s s' .SUCCESS :=
  ⟨h.log, h.reservations, .inl ⟨rfl, hnot, hb, h.unwinds hop, addsOnly_of_covers
    (h.manager ▸ .refl s.manager)⟩⟩

theorem Frame.fails {op : Operation} (h : Frame s s') {grows : Prop} (hstatus : status ≠ .SUCCESS)
    (hrejected : Rejected db₀ s' grows) : Outcome db₀ metadata i op grows s s' status :=
  ⟨h.log, h.reservations, .inr ⟨hstatus, h.books, h.manager ▸ .refl s.manager, hrejected⟩⟩

/-- A call on an account of the database that is the last of an operation. -/
theorem Frame.ends {op : Operation} (hop : UnwoundByView op) (h : Frame s s') {grows grows' : Prop}
    (hcases : (status = .SUCCESS ∧ ¬ grows' ∧ Buffers s'.view db₀ s'.db) ∨
      (status ≠ .SUCCESS ∧ Rejected db₀ s' grows')) (hgrows : grows' ↔ grows) :
    Outcome db₀ metadata i op grows s s' status := by
  rcases hcases with ⟨rfl, hnot, hb⟩ | ⟨hstatus, hrejected⟩
  · exact h.succeeds hop (fun hg => hnot (hgrows.mpr hg)) hb
  · exact h.fails hstatus (hrejected.congr hgrows)

/-- A call on a new account that is the last of an operation. -/
theorem Frame.last {op : Operation} (hop : UnwoundByView op) (h : Frame s s') {grows : Prop}
    (hnot : ¬ grows) (hb : Buffers s'.view db₀ s'.db) :
    Outcome db₀ metadata i op grows s s' status := by
  by_cases hstatus : status = .SUCCESS
  · exact hstatus ▸ h.succeeds hop hnot hb
  · exact h.fails hstatus (rejected_of_buffers hb hnot)

theorem uncovered_reserveAccountCreation {db : MemoryDatabase} {account : AccountID} {j : Nat}
    {asset : AssetID} {newBuffer : Int64} :
    Uncovered (db.reserveAccountCreation account).2 j asset newBuffer ↔
      Uncovered db j asset newBuffer := by
  unfold Uncovered MemoryDatabase.Unslotted MemoryDatabase.reserveAccountCreation
  split_ifs <;> rfl

theorem createNewAccount_cases (hb : Buffers s.view db₀ s.db) {account : AccountID} {pk : PublicKey}
    (hcall : s.createNewAccount account pk = (status, s')) :
    Frame s s' ∧ Buffers s'.view db₀ s'.db ∧ status = (s.db.reserveAccountCreation account).1 ∧
      (∀ j asset newBuffer, Uncovered s'.db j asset newBuffer ↔ Uncovered s.db j asset newBuffer) ∧
      ∀ j asset, s'.view.buffered j asset = s.view.buffered j asset := by
  rcases hcreate : s.view.createNewAccount s.db account pk with ⟨status', db', c⟩
  obtain ⟨hstatus, hreservations, hbuffers⟩ := hb.createNewAccount account pk hcreate
  have hdb : db' = (s.db.reserveAccountCreation account).2 := by
    unfold AccountCreationView.createNewAccount at hcreate
    dsimp only at hcreate
    split_ifs at hcreate
    · exact (congrArg (·.2.1) hcreate).symm
    · exact (congrArg (·.2.1) hcreate).symm
  simp only [HandlerState.createNewAccount, DatabaseView.creation, hcreate, Prod.mk.injEq] at hcall
  obtain ⟨rfl, rfl⟩ := hcall
  refine ⟨⟨rfl, rfl, rfl, hreservations⟩, hbuffers, hstatus, fun j asset newBuffer => ?_, fun _ _ => rfl⟩
  dsimp only
  rw [hdb]
  exact uncovered_reserveAccountCreation

theorem processCreateAccount_outcome (hb : Buffers s.view db₀ s.db) (op : CreateAccountOp)
    (owner : AccountID) (h : processCreateAccount (.at metadata source i) op s = (status, s')) :
    Outcome db₀ metadata i (.CREATE_ACCOUNT op) (GrowsSlot source owner (.CREATE_ACCOUNT op) s) s s'
      status := by
  rcases hcreate : s.createNewAccount op.newAccountId op.newAccountPublicKey with ⟨status₁, s₁⟩
  rcases htransfer : s₁.transferAvailable (.main source) MemoryDatabase.nativeAsset
    (-op.startingBalance) with ⟨status₂, s₂⟩
  simp only [processCreateAccount, OperationMetadata.at, hcreate, htransfer] at h
  by_cases hlow : op.startingBalance < createAccountMinStartingBalance
  · rw [if_pos hlow] at h
    cases h
    exact (Frame.refl s).fails (by decide) (rejected_of_buffers hb fun hgrows => hgrows.1 hlow)
  rw [if_neg hlow] at h
  obtain ⟨hframe₁, hb₁, hstatus₁, huncovered, hbuffered⟩ := createNewAccount_cases hb hcreate
  by_cases hfailed₁ : status₁ ≠ .SUCCESS
  · rw [if_pos hfailed₁] at h
    cases h
    exact hframe₁.fails hfailed₁
      (rejected_of_buffers hb₁ fun hgrows => hfailed₁ (hstatus₁.trans hgrows.2.1))
  rw [if_neg hfailed₁] at h
  have hgrows : GrowsSlot source owner (.CREATE_ACCOUNT op) s ↔
      Uncovered s₁.db source MemoryDatabase.nativeAsset
        (s₁.view.buffered source MemoryDatabase.nativeAsset + -op.startingBalance) := by
    rw [huncovered, hbuffered]
    exact ⟨fun h => h.2.2, fun h => ⟨hlow, hstatus₁ ▸ not_not.mp hfailed₁, h⟩⟩
  obtain ⟨hframe₂, hcases⟩ := transferAvailable_cases hb₁ htransfer
  have hframe := hframe₁.trans hframe₂
  rcases hcases with ⟨rfl, hnot, hb₂⟩ | ⟨hfailed₂, hrejected⟩
  · have hnot' := fun hg => hnot (hgrows.mp hg)
    rw [if_neg (not_not.mpr rfl)] at h
    by_cases hinvalid : (!isValidAmount op.startingBalance) = true
    · rw [if_pos hinvalid] at h
      cases h
      exact hframe.fails (by decide) (rejected_of_buffers hb₂ hnot')
    · rw [if_neg hinvalid] at h
      obtain ⟨hframe₃, hb₃⟩ := transferAvailable_fresh hb₂ h
      exact (hframe.trans hframe₃).last (by trivial) hnot' hb₃
  · rw [if_pos hfailed₂] at h
    cases h
    exact hframe.fails hfailed₂ (hrejected.congr hgrows.symm)

theorem processMoneyPrinter_outcome (hb : Buffers s.view db₀ s.db) (op : MoneyPrinterOp)
    (owner : AccountID) (h : processMoneyPrinter (.at metadata source i) op s = (status, s')) :
    Outcome db₀ metadata i (.MONEY_PRINTER op) (GrowsSlot source owner (.MONEY_PRINTER op) s) s s'
      status := by
  simp only [processMoneyPrinter, OperationMetadata.at] at h
  by_cases hlow : op.amount < 0
  · rw [if_pos hlow] at h
    cases h
    exact (Frame.refl s).fails (by decide) (rejected_of_buffers hb fun hgrows => hgrows.1 hlow)
  rw [if_neg hlow] at h
  obtain ⟨hframe, hcases⟩ := transferAvailable_cases hb h
  exact hframe.ends (by trivial) hcases ⟨fun h => ⟨hlow, h⟩, fun h => h.2⟩

theorem processPayment_outcome (hb : Buffers s.view db₀ s.db) (op : PaymentOp) (owner : AccountID)
    (h : processPayment (.at metadata source i) op s = (status, s')) :
    Outcome db₀ metadata i (.PAYMENT op) (GrowsSlot source owner (.PAYMENT op) s) s s' status := by
  rcases htransfer : s.transferAvailable (.main source) op.asset (-op.amount) with ⟨status₁, s₁⟩
  simp only [processPayment, OperationMetadata.at, htransfer] at h
  by_cases hinvalid : (!isValidAmount op.amount) = true
  · rw [if_pos hinvalid] at h
    cases h
    exact (Frame.refl s).fails (by decide)
      (rejected_of_buffers hb fun hgrows => absurd hgrows.1 (by simpa using hinvalid))
  rw [if_neg hinvalid] at h
  have hvalid : isValidAmount op.amount = true := by simpa using hinvalid
  cases htarget : s.lookupUser op.receiver with
  | none =>
    rw [htarget] at h
    cases h
    refine (Frame.refl s).fails (by decide) (rejected_of_buffers hb ?_)
    rintro ⟨-, target, hsome, -⟩
    cases htarget.symm.trans hsome
  | some target =>
    rw [htarget] at h
    dsimp only at h
    obtain ⟨hframe₁, hcases⟩ := transferAvailable_cases hb htransfer
    -- the second call is reached only if the first succeeds
    rcases hcases with ⟨rfl, hnot, hb₁⟩ | ⟨hfailed, hrejected⟩
    · rw [if_neg (not_not.mpr rfl)] at h
      cases target with
      | fresh account =>
        obtain ⟨hframe₂, hb₂⟩ := transferAvailable_fresh hb₁ h
        refine (hframe₁.trans hframe₂).last (by trivial) ?_ hb₂
        rintro ⟨-, target, hsome, hfirst | ⟨s₂, j, -, rfl, -⟩⟩
        · exact hnot hfirst
        · cases htarget.symm.trans hsome
      | main j =>
        obtain ⟨hframe₂, hcases₂⟩ := transferAvailable_cases hb₁ h
        refine (hframe₁.trans hframe₂).ends (by trivial) hcases₂ ⟨fun hsecond => ?_, ?_⟩
        · exact ⟨hvalid, _, htarget, .inr ⟨s₁, j, htransfer, rfl, hsecond⟩⟩
        · rintro ⟨-, target, hsome, hfirst | ⟨s₂, j', hs₂, rfl, hsecond⟩⟩
          · exact absurd hfirst hnot
          · cases htarget.symm.trans hsome
            cases htransfer.symm.trans hs₂
            exact hsecond
    · rw [if_pos hfailed] at h
      cases h
      refine hframe₁.fails hfailed (hrejected.congr ⟨fun hfirst => ⟨hvalid, _, htarget, .inl hfirst⟩, ?_⟩)
      rintro ⟨-, target', hsome, hfirst | ⟨s₂, j', hs₂, -, -⟩⟩
      · exact hfirst
      · cases htransfer.symm.trans hs₂
        exact absurd rfl hfailed

/-- No new offer has the id that operation `i` would give to one. -/
def Fresh (metadata : TransactionMetadata) (i : Nat) (m : ProcessingSerialManager) : Prop :=
  ∀ idx price, (m.offersAt idx).find? (generateOrderbookTrieKey price metadata.sourceAccount
    (metadata.sequenceNumber + .ofNat i)) = none

theorem processCreateSellOffer_outcome (hb : Buffers s.view db₀ s.db) (op : CreateSellOfferOp)
    (hfresh : Fresh metadata i s.manager) (owner : AccountID)
    (h : processCreateSellOffer (.at metadata source i) op s = .ok (status, s')) :
    Outcome db₀ metadata i (.CREATE_SELL_OFFER op) (GrowsSlot source owner (.CREATE_SELL_OFFER op) s)
      s s' status := by
  unfold processCreateSellOffer at h
  by_cases hcategory : (!validateCategory op.category s.books.numAssets) = true
  · rw [if_pos hcategory] at h
    cases h
    exact (Frame.refl s).fails (by decide)
      (rejected_of_buffers hb fun hgrows => absurd hgrows.1 (by simpa using hcategory))
  rw [if_neg hcategory] at h
  by_cases hprice : (!Price.isValidPrice op.minPrice) = true
  · rw [if_pos hprice] at h
    cases h
    exact (Frame.refl s).fails (by decide)
      (rejected_of_buffers hb fun hgrows => absurd hgrows.2.1 (by simpa using hprice))
  rw [if_neg hprice] at h
  by_cases hinvalid : (!isValidAmount op.amount) = true
  · rw [if_pos hinvalid] at h
    cases h
    exact (Frame.refl s).fails (by decide)
      (rejected_of_buffers hb fun hgrows => absurd hgrows.2.2.1 (by simpa using hinvalid))
  rw [if_neg hinvalid] at h
  rw [Bool.not_eq_true', Bool.not_eq_false] at hcategory hprice hinvalid
  obtain ⟨idx, hidx, h⟩ := bind_eq_ok.mp h
  obtain ⟨s₁, hadd, h⟩ := bind_eq_ok.mp h
  have hpositive : ¬ op.amount < 0 := by
    rw [isValidAmount, Bool.and_eq_true, decide_eq_true_eq] at hinvalid
    exact Int64.not_lt.mpr (Int64.le_of_lt hinvalid.1)
  set offer := makeOffer op (.at metadata source i) with hoffer
  cases hadd
  rcases hescrow : HandlerState.escrow (ProcessingSerialManager.addOffer idx offer s)
    (.main (OperationMetadata.at metadata source i).sourceAccountIdx) op.category.sellAsset
    op.amount with ⟨status₂, s₂⟩
  have hfresh' : (s.manager.offersAt idx).find? offer.key = none := hfresh idx op.minPrice
  obtain ⟨hframe, hcases⟩ :=
    escrow_cases (s := ProcessingSerialManager.addOffer idx offer s) hb hescrow
  have hgrows : (¬ op.amount < 0 ∧ Uncovered s.db source op.category.sellAsset
      (s.view.buffered source op.category.sellAsset - op.amount)) ↔
      GrowsSlot source owner (.CREATE_SELL_OFFER op) s :=
    ⟨fun h => ⟨hcategory, hprice, hinvalid, h.2⟩, fun h => ⟨hpositive, h.2.2.2⟩⟩
  rw [hescrow] at h
  dsimp only at h
  rcases hcases with ⟨rfl, hnot, hb₂⟩ | ⟨hfailed, hrejected⟩
  · rw [if_neg (not_not.mpr rfl)] at h
    cases h
    refine ⟨hframe.log, hframe.reservations,
      .inl ⟨rfl, fun hg => hnot (hgrows.mpr hg), hb₂, ?_, ?_⟩⟩
    · intro r hbooks hcovers
      rw [hframe.manager] at hcovers
      obtain ⟨m, hm, hcovers'⟩ := ProcessingSerialManager.unwindAddOffer_of_covers hcovers hfresh'
      have hsame : r.books = s.books := hbooks.trans hframe.books
      refine ⟨m, bind_eq_ok.mpr ⟨idx, hsame ▸ hidx, bind_eq_ok.mpr ⟨m, hm, ?_⟩⟩, hcovers'⟩
      rw [← hsame]
      rfl
    · intro idx' k leaf hleaf
      rw [hframe.manager, ProcessingSerialManager.offersAt_addOffer] at hleaf
      by_cases hk : offer.key = k
      · exact .inr ⟨op.minPrice, hk.symm⟩
      · left
        split_ifs at hleaf with hidx'
        · rwa [OrderbookTrie.insertOffer, SortedMap.find?_insert_ne hk] at hleaf
        · exact hleaf
  · rw [if_pos hfailed] at h
    obtain ⟨manager, hmanager, h⟩ := bind_eq_ok.mp h
    rw [hframe.manager] at hmanager
    obtain ⟨m, hm, hcovers⟩ :=
      ProcessingSerialManager.unwindAddOffer_of_covers (.refl _) hfresh'
    cases hmanager.symm.trans hm
    cases h
    exact ⟨hframe.log, hframe.reservations, .inr ⟨hfailed, hframe.books, hcovers,
      hrejected.congr hgrows⟩⟩

theorem processCancelSellOffer_outcome (hb : Buffers s.view db₀ s.db) (op : CancelSellOfferOp)
    (h : processCancelSellOffer (.at metadata source i) op s = .ok (status, s')) :
    Outcome db₀ metadata i (.CANCEL_SELL_OFFER op)
      (GrowsSlot source metadata.sourceAccount (.CANCEL_SELL_OFFER op) s) s s' status := by
  obtain ⟨idx, hidx, h⟩ := bind_eq_ok.mp h
  obtain ⟨⟨found, s₁⟩, hdelete, h⟩ := bind_eq_ok.mp h
  obtain ⟨⟨found', books⟩, hmark, hdelete⟩ := bind_eq_ok.mp hdelete
  cases hdelete
  set key := generateOrderbookTrieKey op.minPrice metadata.sourceAccount op.offerId with hkey
  have hcovers : ProcessingSerialManager.Covers
      ⟨ensureSufficientNewOffersSz s.manager.newOffers idx⟩ s.manager :=
    ProcessingSerialManager.covers_ensure s.manager idx
  cases found with
  | none =>
    cases h
    have hbooks : books = s.books := OrderbookManager.mark_none hmark
    refine ⟨rfl, rfl, .inr ⟨by decide, hbooks, hcovers, rejected_of_buffers hb ?_⟩⟩
    rintro ⟨idx', offer, books', hidx', hmark', -⟩
    cases hidx.symm.trans hidx'
    cases hmark.symm.trans hmark'
  | some offer =>
    dsimp only at h
    set s₁ : Running := ⟨s.db, books, SerialManager.setNewOffers s.manager
      (ensureSufficientNewOffersSz (SerialManager.newOffers s.manager) idx), s.view, s.log⟩ with hs₁
    rcases hescrow : s₁.escrow (.main (OperationMetadata.at metadata source i).sourceAccountIdx)
      op.category.sellAsset (-offer.amount).toInt64 with ⟨status₂, s₂⟩
    rw [hescrow] at h
    dsimp only at h
    obtain ⟨hframe, hcases⟩ := escrow_cases (s := s₁) hb hescrow
    have hunmark := OrderbookManager.unmark_mark hmark
    have hgrows : (¬ (-offer.amount).toInt64 < 0 ∧ Uncovered s₁.db source op.category.sellAsset
        (s₁.view.buffered source op.category.sellAsset - (-offer.amount).toInt64)) ↔
        GrowsSlot source metadata.sourceAccount (.CANCEL_SELL_OFFER op) s := by
      constructor
      · exact fun h => ⟨idx, offer, books, hidx, hmark, h⟩
      · rintro ⟨idx', offer', books', hidx', hmark', h⟩
        cases hidx.symm.trans hidx'
        cases hmark.symm.trans hmark'
        exact h
    rcases hcases with ⟨rfl, hnot, hb₂⟩ | ⟨hfailed, hrejected⟩
    · rw [if_neg (not_not.mpr rfl)] at h
      cases h
      refine ⟨hframe.log, hframe.reservations, .inl ⟨rfl, fun hg => hnot (hgrows.mpr hg), hb₂, ?_,
        addsOnly_of_covers (hframe.manager ▸ hcovers)⟩⟩
      intro r hbooks hcovers'
      have hsame : r.books = books := hbooks.trans hframe.books
      have hlookup : r.books.lookUpIdx op.category = .ok idx := by
        rw [hsame, OrderbookManager.lookUpIdx, OrderbookManager.mark_numAssets hmark]
        exact hidx
      refine ⟨r.manager, ?_, (hframe.manager ▸ hcovers').trans hcovers⟩
      refine bind_eq_ok.mpr ⟨idx, hlookup, bind_eq_ok.mpr ⟨s.books, ?_, rfl⟩⟩
      change r.books.unmarkForDeletion idx key = _
      rw [hsame]
      exact hunmark
    · rw [if_pos hfailed] at h
      obtain ⟨s₃, hundelete, h⟩ := bind_eq_ok.mp h
      obtain ⟨books₃, hbooks₃, hundelete⟩ := bind_eq_ok.mp hundelete
      cases hundelete
      cases h
      change s₂.books.unmarkForDeletion idx key = _ at hbooks₃
      rw [hframe.books] at hbooks₃
      cases hunmark.symm.trans hbooks₃
      exact ⟨hframe.log, hframe.reservations, .inr ⟨hfailed, rfl, hframe.manager ▸ hcovers,
        hrejected.congr hgrows⟩⟩

/-- Every operation. -/
theorem processOperation_outcome (hb : Buffers s.view db₀ s.db) {op : Operation}
    (hfresh : Fresh metadata i s.manager)
    (h : processOperation (.at metadata source i) op s = .ok (status, s')) :
    Outcome db₀ metadata i op (GrowsSlot source metadata.sourceAccount op s) s s' status := by
  cases op with
  | CREATE_ACCOUNT op => exact processCreateAccount_outcome hb op _ (Except.ok.inj h)
  | CREATE_SELL_OFFER op => exact processCreateSellOffer_outcome hb op hfresh _ h
  | CANCEL_SELL_OFFER op => exact processCancelSellOffer_outcome hb op h
  | PAYMENT op => exact processPayment_outcome hb op _ (Except.ok.inj h)
  | MONEY_PRINTER op => exact processMoneyPrinter_outcome hb op _ (Except.ok.inj h)

end ProcessorState

end Speedex
