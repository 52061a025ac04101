import Speedex.BlockProcessing.Returns

/-! Which transactions make transaction processing throw, in production and in validation: exactly
those that come to a `CANCEL_SELL_OFFER` in a category that has no orderbook. -/

namespace Speedex

open Lib

/-! ### Sequence numbers -/

/-- A sequence number that can be released again. -/
def SequenceTracker.Releasable (lastCommittedId sequenceNumber : UInt64) : Prop :=
  lastCommittedId < sequenceNumber ∧
    SequenceTracker.getSeqNumOffset sequenceNumber lastCommittedId < 64

theorem SequenceTracker.releasable_of_reserved {t : SequenceTracker} {n : UInt64}
    (h : (t.reserveSequenceNumber n).1 = .SUCCESS) : Releasable t.lastCommittedId n := by
  simp only [reserveSequenceNumber] at h
  split_ifs at h with hlow hhigh
  exact ⟨not_le.mp hlow, not_le.mp hhigh⟩

theorem SequenceTracker.releaseSequenceNumber_returns {t : SequenceTracker} {n : UInt64}
    (h : Releasable t.lastCommittedId n) : ∃ t', t.releaseSequenceNumber n = .ok t' := by
  rw [releaseSequenceNumber, if_neg (not_le.mpr h.1)]
  dsimp only
  rw [if_neg (not_le.mpr h.2)]
  exact ⟨_, rfl⟩

namespace MemoryDatabase

variable {db db' : MemoryDatabase} {idx : Nat} {n : UInt64}

/-- The account at `idx` can release the sequence number. -/
def Releasable (db : MemoryDatabase) (idx : Nat) (n : UInt64) : Prop :=
  ∃ u, db.database[idx]? = some u ∧ SequenceTracker.Releasable u.seqTracker.lastCommittedId n

theorem Releasable.sameCommitted (h : db.Releasable idx n) (hsame : db.SameCommitted db') :
    db'.Releasable idx n := by
  obtain ⟨u, hu, hrelease⟩ := h
  obtain ⟨u', hu', hcommitted⟩ := hsame.getElem? hu
  refine ⟨u', hu', ?_⟩
  rwa [show u'.seqTracker.lastCommittedId = u.seqTracker.lastCommittedId from
    congrArg CommittedPart.lastCommittedId hcommitted]

theorem Releasable.releaseSequenceNumber (h : db.Releasable idx n) :
    ∃ db', db.releaseSequenceNumber idx n = .ok db' := by
  obtain ⟨u, hu, hrelease⟩ := h
  obtain ⟨t, ht⟩ := SequenceTracker.releaseSequenceNumber_returns hrelease
  simp only [MemoryDatabase.releaseSequenceNumber, hu, UserAccount.releaseSequenceNumber, ht, ok_bind,
    pure, Except.pure]
  exact ⟨_, rfl⟩

end MemoryDatabase

/-- What a reservation does, for a source account that is there. -/
theorem AccountCreationView.reserveSequenceNumber_returns {db : MemoryDatabase} {idx : Nat}
    (hidx : idx < db.database.length) (n : UInt64) :
    ∃ status db' v, empty.reserveSequenceNumber db idx n = .ok (status, db', v) ∧
      db.SameCommitted db' ∧ ∀ r ∈ v.reservations, db'.Releasable r.account r.seqno := by
  obtain ⟨u, hu⟩ : ∃ u, db.database[idx]? = some u := ⟨_, List.getElem?_eq_getElem hidx⟩
  rw [reserveSequenceNumber, MemoryDatabase.reserveSequenceNumber, hu]
  simp only [ok_bind]
  have hsame : db.SameCommitted (db.modifyAccount idx fun u => (u.reserveSequenceNumber n).2) :=
    MemoryDatabase.sameCommitted_modifyAccount fun u _ => u.committedPart_reserveSequenceNumber n
  split_ifs with hstatus
  · refine ⟨_, _, _, rfl, hsame, fun r hr => ?_⟩
    obtain rfl := List.mem_singleton.mp hr
    exact MemoryDatabase.Releasable.sameCommitted
      ⟨u, hu, SequenceTracker.releasable_of_reserved hstatus⟩ hsame
  · exact ⟨_, _, _, rfl, hsame, fun r hr => absurd hr List.not_mem_nil⟩

/-- A view can be unwound if its sequence numbers can be released. -/
theorem BufferedMemoryDatabaseView.unwind_returns {v : BufferedMemoryDatabaseView}
    {db : MemoryDatabase} (h : ∀ r ∈ v.reservations, db.Releasable r.account r.seqno) :
    ∃ db', v.unwind db = .ok db' := by
  have hrelease : ∀ (l : List SeqnoReservation) (d : MemoryDatabase),
      (∀ r ∈ l, d.Releasable r.account r.seqno) →
      ∃ d', l.foldlM (fun db res => db.releaseSequenceNumber res.account res.seqno) d = .ok d' := by
    intro l
    induction l with
    | nil => exact fun d _ => ⟨d, rfl⟩
    | cons r l ih =>
      intro d hd
      obtain ⟨d₁, hd₁⟩ := (hd r List.mem_cons_self).releaseSequenceNumber
      have happly : d.apply (.releaseSequenceNumber r.account r.seqno) = .ok d₁ := hd₁
      have hsame := MemoryDatabase.sameCommitted_apply happly
      obtain ⟨d', hd'⟩ := ih d₁ fun r' hr' => (hd r' (List.mem_cons_of_mem r hr')).sameCommitted hsame
      exact ⟨d', foldlM_cons.mpr ⟨d₁, hd₁, hd'⟩⟩
  have hviews : db.SameCommitted (v.accounts.entries.foldl (fun db a => a.2.unwind db a.1) db) :=
    (MemoryDatabase.Applies.foldl (fun d (a : Nat × UserAccountView) => a.2.unwind_applies d a.1)
      v.accounts.entries db).sameCommitted
  have hcreated (d : MemoryDatabase) : d.SameCommitted
      (v.newAccounts.foldl (fun db a => db.releaseAccountCreation a.1) d) := by
    refine (MemoryDatabase.Applies.foldl (fun d a => ?_) v.newAccounts d).sameCommitted
    exact .of_apply (.releaseAccountCreation a.1) rfl
  exact hrelease v.reservations _ fun r hr => (h r hr).sameCommitted (hviews.trans (hcreated _))

/-! ### Transactions -/

/-- The position of the source account of a transaction, and the state in which its operations
begin, if it comes to them. -/
def admitted {M V : Type} [DatabaseView V] (config : SignatureConfig) (db : MemoryDatabase)
    (run : MemoryDatabase → AccountCreationView → HandlerState M V) (signedTx : SignedTransaction) :
    Option (Nat × HandlerState M V) :=
  let tx := signedTx.transaction
  let feeReq := feeRequired tx.operations.length
  if !checkTxFormatParameters tx || feeReq > tx.maxFee.toNat then none
  else match db.lookupUser tx.metadata.sourceAccount with
    | none => none
    | some sourceIdx => match db.database[sourceIdx]? with
      | none => none
      | some source =>
        if config.checkSigs && !config.sigCheck tx signedTx.signature source.pk then none
        else match AccountCreationView.empty.reserveSequenceNumber db sourceIdx
            tx.metadata.sequenceNumber with
          | .error _ => none
          | .ok (status, db, creation) =>
            if status ≠ .SUCCESS then none
            else
              let (status, run) := (run db creation).transferAvailable (.main sourceIdx)
                MemoryDatabase.nativeAsset (-.ofNat feeReq)
              if status ≠ .SUCCESS then none else some (sourceIdx, run)

/-- The positions in the id map are those of accounts. -/
def MemoryDatabase.Indexed (db : MemoryDatabase) : Prop :=
  ∀ account idx, db.lookupUser account = some idx → idx < db.database.length

theorem MemoryDatabase.Indexed.sameCommitted {db db' : MemoryDatabase} (h : db.Indexed)
    (hsame : db.SameCommitted db') : db'.Indexed := by
  intro account idx hidx
  rw [hsame.length]
  exact h account idx (hsame.lookupUser account ▸ hidx)

namespace ProcessorState

variable {config : SignatureConfig} {s s' : ProcessorState} {tx : SignedTransaction}
  {status : TransactionProcessingStatus}

/-- The state in which the operations of a transaction begin. -/
def begin (config : SignatureConfig) (s : ProcessorState) (tx : SignedTransaction) :
    Option (Nat × Running) :=
  admitted config s.db (fun db creation => { s.start with db := db, view := { s.start.view with
    toAccountCreationView := creation } }) tx

/-- Processing the transaction comes to a cancellation in a category without an orderbook. -/
def ReachesOutside (config : SignatureConfig) (s : ProcessorState) (tx : SignedTransaction) : Prop :=
  ∃ sourceIdx run, s.begin config tx = some (sourceIdx, run) ∧
    Speedex.ReachesOutside tx.transaction.metadata sourceIdx 0 tx.transaction.operations run

/-- A state between transactions. -/
structure Ready (s : ProcessorState) : Prop where
  users : s.db.Indexed
  numBooks : s.books.orderbooks.length = s.books.getNumOrderbooks
  newOffers : s.manager.newOffers.length ≤ s.books.getNumOrderbooks

theorem unwindOperation_returns {run : Running} (h : run.Ready) {metadata : TransactionMetadata}
    {i : Nat} {op : Operation} (hop : run.Unwindable op) :
    ∃ run', unwindOperation metadata i op run = .ok run' ∧ run.Extends run' ∧ run'.Ready := by
  cases op with
  | CREATE_SELL_OFFER op =>
    obtain ⟨idx, hidx, hlt⟩ := hop
    obtain ⟨m, hm, -, hlength⟩ := ReturningManager.unwindAddOffer_returns
      (makeOffer op (.at metadata 0 i)) h.prepared hlt
    refine ⟨{ run with manager := m }, bind_eq_ok.mpr ⟨idx, hidx, bind_eq_ok.mpr ⟨m, hm, rfl⟩⟩,
      ⟨.refl _, rfl, rfl, rfl, hlength.ge⟩, h.numBooks, ?_, trivial⟩
    rw [hlength]
    exact h.newOffers
  | CANCEL_SELL_OFFER op =>
    obtain ⟨idx, hidx, hlt⟩ := hop
    obtain ⟨run', hrun', hext, hready⟩ :=
      undeleteOffer_returns h hlt op.minPrice metadata.sourceAccount op.offerId
    exact ⟨run', bind_eq_ok.mpr ⟨idx, hidx, hrun'⟩, hext, hready⟩
  | CREATE_ACCOUNT op | PAYMENT op | MONEY_PRINTER op => exact ⟨run, rfl, .refl run, h⟩

theorem unwindOperations_returns {run : Running} (h : run.Ready) {metadata : TransactionMetadata}
    {ops : List Operation} {n : Nat} (hops : ∀ j < n, ∃ op, ops[j]? = some op ∧ run.Unwindable op) :
    ∃ run', unwindOperations metadata ops n run = .ok run' ∧ run.Extends run' ∧ run'.Ready := by
  induction n generalizing run with
  | zero => exact ⟨run, rfl, .refl run, h⟩
  | succ n ih =>
    obtain ⟨op, hop, hunwindable⟩ := hops n (Nat.lt_succ_self n)
    obtain ⟨run₁, hrun₁, hext, hready⟩ :=
      @unwindOperation_returns run h metadata n op hunwindable
    obtain ⟨run₂, hrun₂, hext₂, hready₂⟩ := ih hready fun j hj => by
      obtain ⟨op', hop', hunwindable'⟩ := hops j (Nat.lt_succ_of_lt hj)
      exact ⟨op', hop', hunwindable'.extends hext⟩
    refine ⟨run₂, ?_, hext.trans hext₂, hready₂⟩
    exact bind_eq_ok.mpr ⟨op, vectorAt_eq_ok.mpr hop, bind_eq_ok.mpr ⟨run₁, hrun₁, hrun₂⟩⟩

/-- The state that a transaction leaves. -/
structure Leaves (s s' : ProcessorState) : Prop where
  db : s.db.SameCommitted s'.db
  numAssets : s'.books.numAssets = s.books.numAssets
  numBooks : s'.books.orderbooks.length = s.books.orderbooks.length
  newOffers : s'.manager.newOffers.length ≤ s.books.getNumOrderbooks

/-- What is known of the state in which the operations begin. -/
structure Begun (s : ProcessorState) (run : Running) : Prop where
  db : s.db.SameCommitted run.db
  books : run.books = s.books
  manager : run.manager = s.manager
  releasable : ∀ r ∈ run.view.reservations, run.db.Releasable r.account r.seqno

theorem Begun.calls {run run' : Running} (h : s.Begun run) (hcalls : run.Calls run') : s.Begun run' :=
  ⟨h.db.trans hcalls.db, hcalls.books.trans h.books, hcalls.manager.trans h.manager, fun r hr =>
    (h.releasable r (hcalls.reservations ▸ hr)).sameCommitted hcalls.db⟩

theorem Begun.ready {run : Running} (h : s.Begun run) (hs : s.Ready) : run.Ready :=
  ⟨h.books ▸ hs.numBooks, by rw [h.books, h.manager]; exact hs.newOffers, trivial⟩

/-- Unwinding the view, after the operations if there were any. -/
theorem Begun.unwound {run run' : Running} (h : s.Begun run) (hext : run.Extends run')
    (hready : run'.Ready) : ∃ s', unwound run' = .ok s' ∧ s.Leaves s' := by
  obtain ⟨db, hdb⟩ := @BufferedMemoryDatabaseView.unwind_returns run'.view run'.db fun r hr =>
    (h.releasable r (hext.reservations ▸ hr)).sameCommitted hext.db
  have happlies := (BufferedMemoryDatabaseView.unwind_applies hdb).sameCommitted
  refine ⟨_, bind_eq_ok.mpr ⟨db, hdb, rfl⟩, ?_, ?_, ?_, ?_⟩
  · exact (h.db.trans hext.db).trans happlies
  · exact hext.numAssets.trans (by rw [h.books])
  · exact hext.numBooks.trans (by rw [h.books])
  · have hnew := hready.newOffers
    rw [OrderbookManager.getNumOrderbooks, hext.numAssets, h.books] at hnew
    exact hnew

/-- A transaction either returns before its operations, or goes on with them. -/
theorem processTransaction_cases (hs : s.Ready) :
    (s.begin config tx = none ∧ ∃ status s', s.processTransaction config tx = .ok (status, s') ∧
      s.Leaves s') ∨
    ∃ sourceIdx run, s.begin config tx = some (sourceIdx, run) ∧ s.Begun run ∧
      s.db.lookupUser tx.transaction.metadata.sourceAccount = some sourceIdx ∧
      s.processTransaction config tx = (do
        let (status, i, run) ← processOperations tx.transaction.metadata sourceIdx 0
          tx.transaction.operations run
        if status ≠ .SUCCESS then
          let run ← unwindTransaction tx.transaction i run
          return (status, ← ProcessorState.unwound run)
        else return (.SUCCESS, {
          db := run.view.commit run.db
          books := run.books
          manager := run.manager
          log := logModifiedAccounts tx run.log })) := by
  have hsame : s.Leaves s := ⟨.refl s.db, rfl, rfl, hs.newOffers⟩
  unfold begin admitted processTransaction
  dsimp only
  by_cases hformat : (!checkTxFormatParameters tx.transaction) = true
  · exact .inl ⟨by simp [hformat], _, s, by rw [if_pos hformat], hsame⟩
  rw [if_neg hformat]
  by_cases hfee : feeRequired tx.transaction.operations.length > tx.transaction.maxFee.toNat
  · exact .inl ⟨by simp [hfee], _, s, by rw [if_pos hfee], hsame⟩
  rw [if_neg hfee, if_neg (by simp [hformat, hfee])]
  cases huser : s.db.lookupUser tx.transaction.metadata.sourceAccount with
  | none => exact .inl ⟨rfl, _, s, rfl, hsame⟩
  | some sourceIdx =>
    have hidx := hs.users _ _ huser
    dsimp only
    rw [vectorAt, List.getElem?_eq_getElem hidx]
    dsimp only
    rw [ok_bind]
    split_ifs with hsig
    · exact .inl ⟨rfl, _, s, rfl, hsame⟩
    obtain ⟨status, db, creation, hreserve, hdb, hrelease⟩ :=
      AccountCreationView.reserveSequenceNumber_returns hidx tx.transaction.metadata.sequenceNumber
    rw [hreserve]
    dsimp only
    rw [ok_bind]
    dsimp only
    generalize hrun : ({ s.start with db := db, view := { s.start.view with
      toAccountCreationView := creation } } : Running) = run
    have hbegun : s.Begun run := by
      rw [← hrun]
      exact ⟨hdb, rfl, rfl, hrelease⟩
    split_ifs with hstatus hfee'
    · obtain ⟨s', hs', hleaves⟩ := hbegun.unwound (.refl run) (hbegun.ready hs)
      exact .inl ⟨rfl, _, s', bind_eq_ok.mpr ⟨s', hs', rfl⟩, hleaves⟩
    · have hcalls := run.calls_transferAvailable (.main sourceIdx) MemoryDatabase.nativeAsset
        (-.ofNat (feeRequired tx.transaction.operations.length))
      obtain ⟨s', hs', hleaves⟩ := hbegun.unwound hcalls.extends ((hbegun.ready hs).calls hcalls)
      exact .inl ⟨rfl, _, s', bind_eq_ok.mpr ⟨s', hs', rfl⟩, hleaves⟩
    · refine .inr ⟨sourceIdx, _, rfl, hbegun.calls (run.calls_transferAvailable _ _ _), rfl, rfl⟩

/-- A transaction in block production returns exactly when it does not come to a cancellation in a
category without an orderbook. -/
theorem processTransaction_returns (hs : s.Ready) (h : ¬ s.ReachesOutside config tx) :
    ∃ status s', s.processTransaction config tx = .ok (status, s') ∧ s.Leaves s' := by
  rcases @processTransaction_cases config s tx hs with ⟨-, hreturns⟩ |
    ⟨sourceIdx, run, hbegin, hbegun, huser, heq⟩
  · exact hreturns
  have hready := hbegun.ready hs
  obtain ⟨status, k, run', hops, hext, hready', hunwindable⟩ :=
    processOperations_returns hready fun hreaches => h ⟨sourceIdx, run, hbegin, hreaches⟩
  rw [heq, hops, ok_bind]
  dsimp only
  split_ifs with hstatus
  · rw [Nat.zero_add, unwindTransaction, hext.db.lookupUser, hbegun.db.lookupUser, huser]
    obtain ⟨run'', hunwind, hext', hready''⟩ :=
      @unwindOperations_returns run' hready' tx.transaction.metadata _ k hunwindable
    obtain ⟨s', hs', hleaves⟩ := hbegun.unwound (hext.trans hext') hready''
    dsimp only
    rw [hunwind, ok_bind, hs', ok_bind]
    exact ⟨_, s', rfl, hleaves⟩
  · refine ⟨_, _, rfl, ?_, ?_, ?_, ?_⟩
    · exact (hbegun.db.trans hext.db).trans (run'.view.commit_applies run'.db).sameCommitted
    · exact hext.numAssets.trans (by rw [hbegun.books])
    · exact hext.numBooks.trans (by rw [hbegun.books])
    · have hnew := hready'.newOffers
      rw [OrderbookManager.getNumOrderbooks, hext.numAssets, hbegun.books] at hnew
      exact hnew

theorem processTransaction_throws (hs : s.Ready) (h : s.ReachesOutside config tx)
    (r : TransactionProcessingStatus × ProcessorState) : s.processTransaction config tx ≠ .ok r := by
  obtain ⟨sourceIdx, run, hbegin, hreaches⟩ := h
  rcases @processTransaction_cases config s tx hs with ⟨hnone, -⟩ |
    ⟨sourceIdx', run', hbegin', hbegun, -, heq⟩
  · cases hbegin.symm.trans hnone
  cases hbegin.symm.trans hbegin'
  rw [heq]
  intro hr
  obtain ⟨r₁, hr₁, -⟩ := bind_eq_ok.mp hr
  exact processOperations_throws (hbegun.ready hs) hreaches r₁ hr₁

/-- A transaction without such a cancellation does not come to one. -/
theorem not_reachesOutside (hs : s.Ready)
    (h : ∀ op ∈ tx.transaction.operations, ¬ CancelsOutside s.books op) :
    ¬ s.ReachesOutside config tx := by
  rintro ⟨sourceIdx, run, hbegin, hreaches⟩
  rcases @processTransaction_cases config s tx hs with ⟨hnone, -⟩ |
    ⟨sourceIdx', run', hbegin', hbegun, -, -⟩
  · cases hbegin.symm.trans hnone
  cases hbegin.symm.trans hbegin'
  obtain ⟨op, hop, houtside⟩ := hreaches.exists (hbegun.ready hs)
  rw [hbegun.books] at houtside
  exact h op hop houtside

end ProcessorState

namespace ValidatorState

variable {config : SignatureConfig} {s s' : ValidatorState} {tx : SignedTransaction} {valid : Bool}

/-- The state in which the operations of a transaction begin. -/
def begin (config : SignatureConfig) (s : ValidatorState) (tx : SignedTransaction) :
    Option (Nat × Running) :=
  admitted config s.db (fun db creation => ⟨db, s.books, s.manager, ⟨creation⟩, s.log⟩) tx

/-- Validating the transaction comes to a cancellation in a category without an orderbook. -/
def ReachesOutside (config : SignatureConfig) (s : ValidatorState) (tx : SignedTransaction) : Prop :=
  ∃ sourceIdx run, s.begin config tx = some (sourceIdx, run) ∧
    Speedex.ReachesOutside tx.transaction.metadata sourceIdx 0 tx.transaction.operations run

/-- A state between transactions. -/
structure Ready (s : ValidatorState) : Prop where
  users : s.db.Indexed
  numBooks : s.books.orderbooks.length = s.books.getNumOrderbooks
  newOffers : s.manager.newOffers.length ≤ s.books.getNumOrderbooks
  prepared : s.manager.clearingCommitment.Prepared s.books.numAssets

/-- The state that a transaction leaves. -/
structure Leaves (s s' : ValidatorState) : Prop where
  db : s.db.SameCommitted s'.db
  numAssets : s'.books.numAssets = s.books.numAssets
  numBooks : s'.books.orderbooks.length = s.books.orderbooks.length
  newOffers : s'.manager.newOffers.length ≤ s.books.getNumOrderbooks
  prepared : s'.manager.clearingCommitment.Prepared s.books.numAssets

/-- What is known of the state in which the operations begin. -/
structure Begun (s : ValidatorState) (run : Running) : Prop where
  db : s.db.SameCommitted run.db
  books : run.books = s.books
  manager : run.manager = s.manager

theorem Begun.calls {run run' : Running} (h : s.Begun run) (hcalls : run.Calls run') : s.Begun run' :=
  ⟨h.db.trans hcalls.db, hcalls.books.trans h.books, hcalls.manager.trans h.manager⟩

theorem Begun.ready {run : Running} (h : s.Begun run) (hs : s.Ready) : run.Ready :=
  ⟨h.books ▸ hs.numBooks, by rw [h.books, h.manager]; exact hs.newOffers,
    by rw [h.books, h.manager]; exact hs.prepared⟩

theorem Begun.leaves {run run' : Running} (h : s.Begun run) (hext : run.Extends run')
    (hready : run'.Ready) {db : MemoryDatabase} (hdb : run'.db.SameCommitted db)
    (log : ModificationTrie) : s.Leaves ⟨db, run'.books, run'.manager, log⟩ := by
  have hnew := hready.newOffers
  have hprepared := hready.prepared
  rw [OrderbookManager.getNumOrderbooks, hext.numAssets, h.books] at hnew
  rw [hext.numAssets, h.books] at hprepared
  exact ⟨(h.db.trans hext.db).trans hdb, hext.numAssets.trans (by rw [h.books]),
    hext.numBooks.trans (by rw [h.books]), hnew, hprepared⟩

/-- A transaction either returns before its operations, or goes on with them. -/
theorem validateTransaction_cases (hs : s.Ready) :
    (s.begin config tx = none ∧ ∃ valid s', s.validateTransaction config tx = .ok (valid, s') ∧
      s.Leaves s') ∨
    ∃ sourceIdx run, s.begin config tx = some (sourceIdx, run) ∧ s.Begun run ∧
      s.validateTransaction config tx = (do
        let (status, _, run) ← processOperations tx.transaction.metadata sourceIdx 0
          tx.transaction.operations run
        if status ≠ .SUCCESS then return (false, abandoned run)
        else return (true, {
          db := run.view.commit run.db
          books := run.books
          manager := run.manager
          log := logModifiedAccounts tx run.log })) := by
  have hsame : s.Leaves s := ⟨.refl s.db, rfl, rfl, hs.newOffers, hs.prepared⟩
  unfold begin admitted validateTransaction
  dsimp only
  by_cases hformat : (!checkTxFormatParameters tx.transaction) = true
  · exact .inl ⟨by simp [hformat], _, s, by rw [if_pos hformat], hsame⟩
  rw [if_neg hformat]
  cases huser : s.db.lookupUser tx.transaction.metadata.sourceAccount with
  | none => exact .inl ⟨by simp, _, s, rfl, hsame⟩
  | some sourceIdx =>
    dsimp only
    by_cases hfee : feeRequired tx.transaction.operations.length > tx.transaction.maxFee.toNat
    · exact .inl ⟨by simp [hfee], _, s, by rw [if_pos hfee], hsame⟩
    rw [if_neg hfee, if_neg (by simp [hformat, hfee])]
    have hidx := hs.users _ _ huser
    rw [vectorAt, List.getElem?_eq_getElem hidx]
    dsimp only
    rw [ok_bind]
    split_ifs with hsig
    · exact .inl ⟨rfl, _, s, rfl, hsame⟩
    obtain ⟨status, db, creation, hreserve, hdb, -⟩ :=
      AccountCreationView.reserveSequenceNumber_returns hidx tx.transaction.metadata.sequenceNumber
    rw [hreserve]
    dsimp only
    rw [ok_bind]
    dsimp only
    generalize hrun : (⟨db, s.books, s.manager, ⟨creation⟩, s.log⟩ : Running) = run
    have hbegun : s.Begun run := by
      rw [← hrun]
      exact ⟨hdb, rfl, rfl⟩
    split_ifs with hstatus hfee'
    · exact .inl ⟨rfl, _, _, rfl, hbegun.leaves (.refl run) (hbegun.ready hs) (.refl _) _⟩
    · have hcalls := run.calls_transferAvailable (.main sourceIdx) MemoryDatabase.nativeAsset
        (-.ofNat (feeRequired tx.transaction.operations.length))
      exact .inl ⟨rfl, _, _, rfl,
        hbegun.leaves hcalls.extends ((hbegun.ready hs).calls hcalls) (.refl _) _⟩
    · refine .inr ⟨sourceIdx, _, rfl, hbegun.calls (run.calls_transferAvailable _ _ _), rfl⟩

/-- A transaction in block validation returns if it does not come to a cancellation in a category
without an orderbook. -/
theorem validateTransaction_returns (hs : s.Ready) (h : ¬ s.ReachesOutside config tx) :
    ∃ valid s', s.validateTransaction config tx = .ok (valid, s') ∧ s.Leaves s' := by
  rcases @validateTransaction_cases config s tx hs with ⟨-, hreturns⟩ |
    ⟨sourceIdx, run, hbegin, hbegun, heq⟩
  · exact hreturns
  obtain ⟨status, k, run', hops, hext, hready', -⟩ :=
    processOperations_returns (hbegun.ready hs) fun hreaches => h ⟨sourceIdx, run, hbegin, hreaches⟩
  rw [heq, hops, ok_bind]
  dsimp only
  split_ifs with hstatus
  · exact ⟨_, _, rfl, hbegun.leaves hext hready' (.refl _) _⟩
  · exact ⟨_, _, rfl,
      hbegun.leaves hext hready' (AccountCreationView.commit_applies _ _).sameCommitted _⟩

theorem validateTransaction_throws (hs : s.Ready) (h : s.ReachesOutside config tx)
    (r : Bool × ValidatorState) : s.validateTransaction config tx ≠ .ok r := by
  obtain ⟨sourceIdx, run, hbegin, hreaches⟩ := h
  rcases @validateTransaction_cases config s tx hs with ⟨hnone, -⟩ |
    ⟨sourceIdx', run', hbegin', hbegun, heq⟩
  · cases hbegin.symm.trans hnone
  cases hbegin.symm.trans hbegin'
  rw [heq]
  intro hr
  obtain ⟨r₁, hr₁, -⟩ := bind_eq_ok.mp hr
  exact processOperations_throws (hbegun.ready hs) hreaches r₁ hr₁

/-- A transaction without such a cancellation does not come to one. -/
theorem not_reachesOutside (hs : s.Ready)
    (h : ∀ op ∈ tx.transaction.operations, ¬ CancelsOutside s.books op) :
    ¬ s.ReachesOutside config tx := by
  rintro ⟨sourceIdx, run, hbegin, hreaches⟩
  rcases @validateTransaction_cases config s tx hs with ⟨hnone, -⟩ |
    ⟨sourceIdx', run', hbegin', hbegun, -⟩
  · cases hbegin.symm.trans hnone
  cases hbegin.symm.trans hbegin'
  obtain ⟨op, hop, houtside⟩ := hreaches.exists (hbegun.ready hs)
  rw [hbegun.books] at houtside
  exact h op hop houtside

end ValidatorState

end Speedex
