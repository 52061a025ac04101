import Speedex.BlockProcessing.Rejected
import Speedex.Database.SequenceTracker

/-! A transaction that block production rejects.  Its operations are unwound in reverse, its view
returns what it took, and its sequence number is released, which no other transaction can have taken
in the meantime.  The offers that it added are taken out of tries that hold the offers of the same
block by their ids, so that this depends on no id being given twice. -/

namespace Speedex

open Lib

/-! ### Sequence numbers -/

namespace SequenceTracker

variable {t : SequenceTracker} {n n' : UInt64}

/-- The sequence number is reserved in this block. -/
def InUse (t : SequenceTracker) (n : UInt64) : Prop :=
  (t.reserveSequenceNumber n).1 = .SEQ_NUM_TEMP_IN_USE

theorem or_mask_eq_self {w mask : UInt64} (h : ∀ i, bit mask i = true → bit w i = true) :
    w ||| mask = w := by
  rw [← UInt64.toNat_inj, UInt64.toNat_or]
  refine Nat.eq_of_testBit_eq fun i => ?_
  rw [Nat.testBit_or]
  have hi := h i
  unfold bit at hi
  cases hmask : mask.toNat.testBit i with
  | false => simp
  | true => simp [hi hmask]

/-- What a reservation does, by the bit of the sequence number. -/
theorem reserve_cases (t : SequenceTracker) (n : UInt64) :
    ((t.reserveSequenceNumber n).1 ≠ .SUCCESS ∧ (t.reserveSequenceNumber n).2 = t) ∨
    ∃ o : UInt64, o = getSeqNumOffset n t.lastCommittedId ∧ ¬ n ≤ t.lastCommittedId ∧ o.toNat < 64 ∧
      bit t.sequenceNumberVec o.toNat = false ∧
      t.reserveSequenceNumber n =
        (.SUCCESS, { t with sequenceNumberVec := t.sequenceNumberVec ||| 1 <<< o }) := by
  unfold reserveSequenceNumber
  by_cases hlow : n ≤ t.lastCommittedId
  · rw [if_pos hlow]
    exact .inl ⟨by simp, rfl⟩
  rw [if_neg hlow]
  dsimp only
  by_cases hhigh : getSeqNumOffset n t.lastCommittedId ≥ 64
  · rw [if_pos hhigh]
    exact .inl ⟨by simp, rfl⟩
  rw [if_neg hhigh]
  have ho : (getSeqNumOffset n t.lastCommittedId).toNat < 64 := UInt64.lt_iff_toNat_lt.mp (not_le.mp hhigh)
  by_cases hbit : bit t.sequenceNumberVec (getSeqNumOffset n t.lastCommittedId).toNat = true
  · rw [if_pos ((and_mask_ne_zero ho).mpr hbit)]
    refine .inl ⟨by simp, ?_⟩
    rw [or_mask_eq_self fun i hi => ?_]
    rw [bit_mask ho, decide_eq_true_eq] at hi
    exact hi ▸ hbit
  · rw [if_neg fun h => hbit ((and_mask_ne_zero ho).mp h)]
    exact .inr ⟨_, rfl, hlow, ho, by simpa using hbit, rfl⟩

theorem reserve_failed (h : (t.reserveSequenceNumber n).1 ≠ .SUCCESS) :
    (t.reserveSequenceNumber n).2 = t := by
  rcases t.reserve_cases n with ⟨-, hsame⟩ | ⟨o, -, -, -, -, heq⟩
  · exact hsame
  · rw [heq] at h
    exact absurd rfl h

/-- Releasing a sequence number undoes its reservation. -/
theorem release_reserve (h : (t.reserveSequenceNumber n).1 = .SUCCESS) :
    (t.reserveSequenceNumber n).2.releaseSequenceNumber n = .ok t := by
  rcases t.reserve_cases n with ⟨hfailed, -⟩ | ⟨o, rfl, hlow, ho, hbit, heq⟩
  · exact absurd h hfailed
  rw [heq, releaseSequenceNumber]
  dsimp only
  rw [if_neg hlow, if_neg (not_le.mpr (UInt64.lt_iff_toNat_lt.mpr ho))]
  set o := getSeqNumOffset n t.lastCommittedId
  have hback : (t.sequenceNumberVec ||| 1 <<< o) &&& ~~~(1 <<< o) = t.sequenceNumberVec := by
    rw [← UInt64.toNat_inj]
    refine Nat.eq_of_testBit_eq fun i => ?_
    change bit _ i = bit _ i
    rw [bit_and_not_mask ho, bit_or_mask ho]
    by_cases hi : o.toNat = i
    · rw [← hi, hbit]
      simp
    · simp [hi]
  rw [hback]

theorem inUse_iff : InUse t n ↔ ¬ n ≤ t.lastCommittedId ∧
    (getSeqNumOffset n t.lastCommittedId).toNat < 64 ∧
      bit t.sequenceNumberVec (getSeqNumOffset n t.lastCommittedId).toNat = true := by
  unfold InUse reserveSequenceNumber
  by_cases hlow : n ≤ t.lastCommittedId
  · simp [hlow]
  rw [if_neg hlow]
  dsimp only
  by_cases hhigh : getSeqNumOffset n t.lastCommittedId ≥ 64
  · rw [if_pos hhigh]
    have := UInt64.le_iff_toNat_le.mp hhigh
    simp only [reduceCtorEq, false_iff, not_and]
    intro _ hlt
    exact absurd hlt (not_lt.mpr this)
  rw [if_neg hhigh]
  have ho : (getSeqNumOffset n t.lastCommittedId).toNat < 64 :=
    UInt64.lt_iff_toNat_lt.mp (not_le.mp hhigh)
  by_cases hbit : bit t.sequenceNumberVec (getSeqNumOffset n t.lastCommittedId).toNat = true
  · rw [if_pos ((and_mask_ne_zero ho).mpr hbit)]
    simp [hlow, ho, hbit]
  · rw [if_neg fun h => hbit ((and_mask_ne_zero ho).mp h)]
    simp [hbit]

theorem inUse_reserve (h : (t.reserveSequenceNumber n).1 = .SUCCESS) :
    InUse (t.reserveSequenceNumber n).2 n := by
  rcases t.reserve_cases n with ⟨hfailed, -⟩ | ⟨o, rfl, hlow, ho, -, heq⟩
  · exact absurd h hfailed
  rw [heq, inUse_iff]
  refine ⟨hlow, ho, ?_⟩
  rw [bit_or_mask ho]
  simp

/-- Another reservation does not take one back. -/
theorem InUse.reserve (h : InUse t n) (n' : UInt64) : InUse (t.reserveSequenceNumber n').2 n := by
  rcases t.reserve_cases n' with ⟨-, hsame⟩ | ⟨o, -, -, ho, -, heq⟩
  · rwa [hsame]
  rw [heq]
  rw [inUse_iff] at h ⊢
  refine ⟨h.1, h.2.1, ?_⟩
  rw [bit_or_mask ho]
  simp [h.2.2]

end SequenceTracker

/-! ### Offer ids -/

/-- A key determines the owner and the id of its offer. -/
theorem generateOrderbookTrieKey_inj {price price' : Price} {owner owner' : AccountID}
    {id id' : UInt64}
    (h : generateOrderbookTrieKey price owner id = generateOrderbookTrieKey price' owner' id') :
    owner = owner' ∧ id = id' := by
  have hword : ∀ a b : UInt64, bytesBE 8 a.toNat = bytesBE 8 b.toNat → a = b := by
    intro a b hab
    have hnat := congrArg ofBytesBE hab
    have ha := a.toNat_lt
    have hb := b.toNat_lt
    rw [ofBytesBE_bytesBE, ofBytesBE_bytesBE] at hnat
    exact UInt64.toNat_inj.mp (by omega)
  have hbytes := congrArg OfferKey.bytes h
  simp only [generateOrderbookTrieKey] at hbytes
  obtain ⟨hfront, hid⟩ := List.append_inj hbytes (by simp)
  obtain ⟨-, howner⟩ := List.append_inj hfront (by simp)
  exact ⟨hword _ _ howner, hword _ _ hid⟩

/-- Ids of transactions with different sequence numbers differ, and so do those of one
transaction. -/
theorem operationId_inj {n n' : UInt64} (hn : formatChecked n) (hn' : formatChecked n') {i j : Nat}
    (hi : i < maxOpsPerTx) (hj : j < maxOpsPerTx) (h : n + .ofNat i = n' + .ofNat j) :
    n = n' ∧ i = j := by
  rw [Reserved.formatChecked_iff] at hn hn'
  have hadd : ∀ (m : UInt64) (k : Nat), k < 256 → m.toNat % 256 = 0 →
      (m + .ofNat k).toNat = m.toNat + k := by
    intro m k hk hm
    have hlt := m.toNat_lt
    rw [UInt64.toNat_add, UInt64.toNat_ofNat_of_lt' (lt_trans hk (by decide))]
    exact Nat.mod_eq_of_lt (by omega)
  have hnat := congrArg UInt64.toNat h
  rw [hadd n i hi hn, hadd n' j hj hn'] at hnat
  unfold maxOpsPerTx at hi hj
  exact ⟨UInt64.toNat_inj.mp (by omega), by omega⟩

/-! ### Releasing a sequence number -/

namespace MemoryDatabase

variable {db : MemoryDatabase} {i j : Nat}

theorem modifyAccount_comm {f g : UserAccount → UserAccount} (h : ∀ u, f (g u) = g (f u)) :
    (db.modifyAccount i f).modifyAccount j g = (db.modifyAccount j g).modifyAccount i f := by
  unfold modifyAccount
  dsimp only
  congr 1
  refine List.ext_getElem? fun k => ?_
  simp only [List.getElem?_modify]
  cases db.database[k]? with
  | none => simp
  | some u =>
    by_cases hi : i = k <;> by_cases hj : j = k <;> simp [hi, hj, h]

/-- The database in which the account at `i` has reserved a sequence number. -/
def reserveAt (db : MemoryDatabase) (i : Nat) (n : UInt64) : MemoryDatabase :=
  db.modifyAccount i fun u => (u.reserveSequenceNumber n).2

theorem reserveAt_failed {n : UInt64} {u : UserAccount} (hu : db.database[i]? = some u)
    (h : (u.reserveSequenceNumber n).1 ≠ .SUCCESS) : db.reserveAt i n = db := by
  have hsame : (u.reserveSequenceNumber n).2 = u := by
    have htracker := SequenceTracker.reserve_failed (t := u.seqTracker) (n := n) h
    change ({ u with seqTracker := (u.seqTracker.reserveSequenceNumber n).2 } : UserAccount) = u
    rw [htracker]
  rw [reserveAt, modifyAccount_congr (g := fun u => u), modifyAccount_id]
  intro u' hu'
  rw [hu] at hu'
  cases hu'
  exact hsame

theorem release_reserveAt {n : UInt64} {u : UserAccount} (hu : db.database[i]? = some u)
    (h : (u.reserveSequenceNumber n).1 = .SUCCESS) :
    (db.reserveAt i n).releaseSequenceNumber i n = .ok db := by
  have hat : (db.reserveAt i n).database[i]? = some (u.reserveSequenceNumber n).2 := by
    rw [reserveAt, getElem?_modifyAccount, if_pos rfl, hu, Option.map_some]
  have hback : (u.reserveSequenceNumber n).2.releaseSequenceNumber n = .ok u := by
    have htracker := SequenceTracker.release_reserve (t := u.seqTracker) (n := n) h
    exact bind_eq_ok.mpr ⟨u.seqTracker, htracker, rfl⟩
  rw [releaseSequenceNumber, hat]
  dsimp only
  rw [hback, ok_bind, reserveAt, modifyAccount_modifyAccount]
  change Except.ok _ = _
  rw [modifyAccount_congr (g := fun u => u), modifyAccount_id]
  intro u' hu'
  rw [hu] at hu'
  cases hu'
  rfl

theorem reserveAt_growAt (n : UInt64) (m : Nat) :
    (db.reserveAt i n).growAt j m = (db.growAt j m).reserveAt i n :=
  modifyAccount_comm fun _ => rfl

/-- Room for assets plays no part in a reservation. -/
theorem release_reserveAt_growAt {n : UInt64} {u : UserAccount} (hu : db.database[i]? = some u)
    (h : (u.reserveSequenceNumber n).1 = .SUCCESS) (m : Nat) :
    ((db.reserveAt i n).growAt j m).releaseSequenceNumber i n = .ok (db.growAt j m) := by
  rw [reserveAt_growAt]
  by_cases hj : j = i
  · subst hj
    have hat : (db.growAt j m).database[j]? = some (u.growTo m) := by
      rw [growAt, getElem?_modifyAccount, if_pos rfl, hu, Option.map_some]
    exact release_reserveAt hat h
  · have hat : (db.growAt j m).database[i]? = some u := by
      rw [growAt, getElem?_modifyAccount, if_neg hj, hu]
    exact release_reserveAt hat h

end MemoryDatabase

/-! ### The operations of a transaction -/

namespace ProcessorState

open BufferedMemoryDatabaseView

variable {db₀ : MemoryDatabase} {metadata : TransactionMetadata} {source : Nat}
  {status : TransactionProcessingStatus}

/-- Unwinding the first `n` operations takes the orderbooks and the new offers back to those of
`s`, from any state that has the orderbooks and the new offers of `s'`. -/
def UnwindsAll (metadata : TransactionMetadata) (ops : List Operation) (n : Nat) (s s' : Running) :
    Prop :=
  ∀ r : Running, r.books = s'.books → r.manager.Covers s'.manager →
    ∃ m, unwindOperations metadata ops n r = .ok { r with books := s.books, manager := m } ∧
      m.Covers s.manager

theorem unwindsAll_zero (ops : List Operation) (s : Running) : UnwindsAll metadata ops 0 s s := by
  intro r hbooks hcovers
  refine ⟨r.manager, ?_, hcovers⟩
  rw [← hbooks]
  rfl

theorem UnwindsAll.succ {ops : List Operation} {n : Nat} {s s₁ s₂ : Running} {op : Operation}
    (h : UnwindsAll metadata ops n s s₁) (hop : ops[n]? = some op)
    (hunwinds : Unwinds metadata n op s₁ s₂) : UnwindsAll metadata ops (n + 1) s s₂ := by
  intro r hbooks hcovers
  obtain ⟨m, hm, hcovers₁⟩ := hunwinds r hbooks hcovers
  obtain ⟨m', hm', hcovers'⟩ := h { r with books := s₁.books, manager := m } rfl hcovers₁
  refine ⟨m', bind_eq_ok.mpr ⟨op, ?_, bind_eq_ok.mpr ⟨_, hm, hm'⟩⟩, hcovers'⟩
  rw [vectorAt, hop]

/-- Every new offer of `m'` is one of `m`, or has an id of the transaction. -/
def AddsIds (metadata : TransactionMetadata) (m m' : ProcessingSerialManager) : Prop :=
  ∀ idx k leaf, (m'.offersAt idx).find? k = some leaf →
    (m.offersAt idx).find? k = some leaf ∨
      ∃ price i, i < maxOpsPerTx ∧ k = generateOrderbookTrieKey price metadata.sourceAccount
        (metadata.sequenceNumber + .ofNat i)

/-- Operation `i` leaves the ids of later operations free. -/
theorem Fresh.addsOnly {m m' : ProcessingSerialManager} {i j : Nat}
    (hformat : formatChecked metadata.sequenceNumber) (h : Fresh metadata j m)
    (hadds : AddsOnly metadata i m m') (hi : i < maxOpsPerTx) (hj : j < maxOpsPerTx) (hij : i ≠ j) :
    Fresh metadata j m' := by
  intro idx price
  by_contra hsome
  obtain ⟨leaf, hleaf⟩ := Option.ne_none_iff_exists'.mp hsome
  rcases hadds idx _ leaf hleaf with hold | ⟨price', hkey⟩
  · rw [h idx price] at hold
    cases hold
  · exact hij (operationId_inj hformat hformat hj hi (generateOrderbookTrieKey_inj hkey).2).2.symm

/-- The operations come to a change that makes a buffer negative, for an asset without a slot. -/
def ComesToGrow (metadata : TransactionMetadata) (source : Nat) :
    Nat → List Operation → Running → Prop
  | _, [], _ => False
  | i, op :: ops, s => GrowsSlot source metadata.sourceAccount op s ∨
    ∃ s', processOperation (.at metadata source i) op s = .ok (.SUCCESS, s') ∧
      ComesToGrow metadata source (i + 1) ops s'

/-- What the operations of a transaction lead to: they all succeed, or they are unwound, but for a
slot. -/
structure RunOutcome (db₀ : MemoryDatabase) (metadata : TransactionMetadata) (all : List Operation)
    (grows : Prop) (s₀ s s' : Running) (status : TransactionProcessingStatus) (k : Nat) : Prop where
  log : s'.log = s.log
  reservations : s'.view.reservations = s.view.reservations
  cases : (status = .SUCCESS ∧ ¬ grows ∧ Buffers s'.view db₀ s'.db ∧
      AddsIds metadata s.manager s'.manager) ∨
    (status ≠ .SUCCESS ∧ Rejected db₀ s' grows ∧
      ∃ m, unwindOperations metadata all k s' = .ok { s' with books := s₀.books, manager := m } ∧
        m.Covers s₀.manager)

theorem processOperations_outcome {all rest : List Operation} {i k : Nat} {s₀ s s' : Running}
    (hformat : formatChecked metadata.sequenceNumber) (hall : all.length ≤ maxOpsPerTx)
    (hrest : all.drop i = rest) (hb : Buffers s.view db₀ s.db)
    (hfresh : ∀ j, i ≤ j → j < maxOpsPerTx → Fresh metadata j s.manager)
    (hunwinds : UnwindsAll metadata all i s₀ s)
    (h : processOperations metadata source i rest s = .ok (status, k, s')) :
    RunOutcome db₀ metadata all (ComesToGrow metadata source i rest s) s₀ s s' status k := by
  induction rest generalizing i s with
  | nil =>
    cases h
    exact ⟨rfl, rfl, .inl ⟨rfl, id, hb, fun _ _ _ hleaf => .inl hleaf⟩⟩
  | cons op ops ih =>
    have hop : all[i]? = some op := by
      have hhead := congrArg List.head? hrest
      rwa [List.head?_drop] at hhead
    have hi : i < maxOpsPerTx := lt_of_lt_of_le (List.getElem?_eq_some_iff.mp hop).1 hall
    obtain ⟨⟨status₁, s₁⟩, hprocess, h⟩ := bind_eq_ok.mp h
    dsimp only at h
    obtain ⟨hlog, hreservations, hcases⟩ := processOperation_outcome hb (hfresh i le_rfl hi) hprocess
    rcases hcases with ⟨rfl, hnot, hb₁, hunwinds₁, hadds⟩ | ⟨hfailed, hbooks, hcovers, hrejected⟩
    · rw [if_neg (not_not.mpr rfl)] at h
      have hgrows : ComesToGrow metadata source i (op :: ops) s ↔
          ComesToGrow metadata source (i + 1) ops s₁ := by
        constructor
        · rintro (hg | ⟨s₂, hs₂, hlater⟩)
          · exact absurd hg hnot
          · cases hprocess.symm.trans hs₂
            exact hlater
        · exact fun hlater => .inr ⟨s₁, hprocess, hlater⟩
      have hdrop : all.drop (i + 1) = ops := by
        rw [← List.tail_drop, hrest, List.tail_cons]
      have hout := ih hdrop hb₁ (fun j hj hlt => (hfresh j (by omega) hlt).addsOnly hformat hadds hi
        hlt (by omega)) (hunwinds.succ hop hunwinds₁) h
      rw [hgrows]
      refine ⟨hout.log.trans hlog, hout.reservations.trans hreservations, ?_⟩
      rcases hout.cases with ⟨hstatus, hnot', hb', hadds'⟩ | hfailed
      · refine .inl ⟨hstatus, hnot', hb', fun idx key leaf hleaf => ?_⟩
        rcases hadds' idx key leaf hleaf with hold | hnew
        · rcases hadds idx key leaf hold with hold | ⟨price, hkey⟩
          · exact .inl hold
          · exact .inr ⟨price, i, hi, hkey⟩
        · exact .inr hnew
      · exact .inr hfailed
    · rw [if_pos hfailed] at h
      cases h
      have hgrows : GrowsSlot source metadata.sourceAccount op s ↔
          ComesToGrow metadata source k (op :: ops) s := by
        refine ⟨.inl, ?_⟩
        rintro (hg | ⟨s₂, hs₂, -⟩)
        · exact hg
        · cases hprocess.symm.trans hs₂
          exact absurd rfl hfailed
      exact ⟨hlog, hreservations, .inr ⟨hfailed, hrejected.congr hgrows, hunwinds s' hbooks hcovers⟩⟩

/-! ### Transactions -/

variable {config : SignatureConfig} {s s' : ProcessorState} {tx : SignedTransaction}

/-- The transaction comes to paying its fee. -/
structure ComesToFee (config : SignatureConfig) (s : ProcessorState) (tx : SignedTransaction)
    (sourceIdx : Nat) (source : UserAccount) : Prop where
  format : checkTxFormatParameters tx.transaction = true
  bid : ¬ feeRequired tx.transaction.operations.length > tx.transaction.maxFee.toNat
  user : s.db.lookupUser tx.transaction.metadata.sourceAccount = some sourceIdx
  account : s.db.database[sourceIdx]? = some source
  signature : ¬ (config.checkSigs &&
    !config.sigCheck tx.transaction tx.signature source.pk) = true
  reserved : (source.reserveSequenceNumber tx.transaction.metadata.sequenceNumber).1 = .SUCCESS

/-- The state after the reservation of a sequence number. -/
def reserved (s : ProcessorState) (sourceIdx : Nat) (n : UInt64) : Running :=
  ⟨s.db.reserveAt sourceIdx n, s.books, s.manager, ⟨⟨[], [⟨sourceIdx, n⟩]⟩, ∅⟩, s.log⟩

/-- Pay the fee of a transaction. -/
def payFee (tx : SignedTransaction) (sourceIdx : Nat) (run : Running) :
    TransactionProcessingStatus × Running :=
  run.transferAvailable (.main sourceIdx) MemoryDatabase.nativeAsset
    (-.ofNat (feeRequired tx.transaction.operations.length))

/-- The rest of `process_transaction`, from the operations on. -/
def processFrom (tx : SignedTransaction) (sourceIdx : Nat) (run : Running) :
    Result (TransactionProcessingStatus × ProcessorState) := do
  let (status, i, run) ← processOperations tx.transaction.metadata sourceIdx 0
    tx.transaction.operations run
  if status ≠ .SUCCESS then
    let run ← unwindTransaction tx.transaction i run
    return (status, ← unwound run)
  else return (.SUCCESS, {
    db := run.view.commit run.db
    books := run.books
    manager := run.manager
    log := logModifiedAccounts tx run.log })

/-- A transaction is turned away before its fee, or goes on to it. -/
theorem processTransaction_eq (h : s.processTransaction config tx = .ok (status, s')) :
    (status ≠ .SUCCESS ∧ s' = s ∧ ∀ sourceIdx source, ¬ ComesToFee config s tx sourceIdx source) ∨
    ∃ sourceIdx source run paid, ComesToFee config s tx sourceIdx source ∧
      payFee tx sourceIdx (s.reserved sourceIdx tx.transaction.metadata.sequenceNumber) =
        (paid, run) ∧
      ((paid ≠ .SUCCESS ∧ status = paid ∧ unwound run = .ok s') ∨
        (paid = .SUCCESS ∧ processFrom tx sourceIdx run = .ok (status, s'))) := by
  unfold processTransaction at h
  dsimp only at h
  by_cases hformat : (!checkTxFormatParameters tx.transaction) = true
  · rw [if_pos hformat] at h
    cases h
    refine .inl ⟨by decide, rfl, fun _ _ hfee => ?_⟩
    simp [hfee.format] at hformat
  rw [if_neg hformat] at h
  by_cases hbid : feeRequired tx.transaction.operations.length > tx.transaction.maxFee.toNat
  · rw [if_pos hbid] at h
    cases h
    exact .inl ⟨by decide, rfl, fun _ _ hfee => hfee.bid hbid⟩
  rw [if_neg hbid] at h
  cases huser : s.db.lookupUser tx.transaction.metadata.sourceAccount with
  | none =>
    rw [huser] at h
    cases h
    refine .inl ⟨by decide, rfl, fun _ _ hfee => ?_⟩
    cases huser.symm.trans hfee.user
  | some sourceIdx =>
    rw [huser] at h
    obtain ⟨source, hsource, h⟩ := bind_eq_ok.mp h
    rw [vectorAt_eq_ok] at hsource
    have hunique : ∀ idx u, ComesToFee config s tx idx u → idx = sourceIdx ∧ u = source := by
      intro idx u hfee
      cases huser.symm.trans hfee.user
      cases hsource.symm.trans hfee.account
      exact ⟨rfl, rfl⟩
    by_cases hsig : (config.checkSigs &&
        !config.sigCheck tx.transaction tx.signature source.pk) = true
    · rw [if_pos hsig] at h
      cases h
      refine .inl ⟨by decide, rfl, fun idx u hfee => ?_⟩
      obtain ⟨rfl, rfl⟩ := hunique idx u hfee
      exact hfee.signature hsig
    rw [if_neg hsig] at h
    obtain ⟨⟨status₁, db, creation⟩, hreserve, h⟩ := bind_eq_ok.mp h
    simp only [AccountCreationView.reserveSequenceNumber, MemoryDatabase.reserveSequenceNumber,
      hsource, ok_bind] at hreserve
    dsimp only at h
    by_cases hreserved :
        (source.reserveSequenceNumber tx.transaction.metadata.sequenceNumber).1 = .SUCCESS
    · rw [if_pos hreserved] at hreserve
      cases hreserve
      rw [if_neg (not_not.mpr hreserved)] at h
      refine .inr ⟨sourceIdx, source, _, _, ⟨by simpa using hformat, hbid, huser, hsource, hsig,
        hreserved⟩, rfl, ?_⟩
      split_ifs at h with hpaid
      · obtain ⟨s₁, hs₁, h⟩ := bind_eq_ok.mp h
        cases h
        exact .inl ⟨hpaid, rfl, hs₁⟩
      · exact .inr ⟨not_not.mp hpaid, h⟩
    · rw [if_neg hreserved] at hreserve
      cases hreserve
      rw [if_pos hreserved] at h
      obtain ⟨s₁, hs₁, h⟩ := bind_eq_ok.mp h
      cases h
      cases hs₁
      refine .inl ⟨hreserved, ?_, fun idx u hfee => ?_⟩
      · have hdb := MemoryDatabase.reserveAt_failed hsource hreserved
        change (⟨s.db.reserveAt sourceIdx _, s.books, s.manager, s.log⟩ : ProcessorState) = s
        rw [hdb]
      · obtain ⟨rfl, rfl⟩ := hunique idx u hfee
        exact hreserved hfee.reserved

theorem buffers_reserved (s : ProcessorState) (sourceIdx : Nat) (n : UInt64) :
    Buffers (s.reserved sourceIdx n).view (s.db.reserveAt sourceIdx n)
      (s.reserved sourceIdx n).db :=
  buffers_begin rfl _

theorem exists_reserveAt {db : MemoryDatabase} {i j : Nat} {n : UInt64} {u : UserAccount}
    (h : (db.reserveAt i n).database[j]? = some u) :
    ∃ u₀, db.database[j]? = some u₀ ∧ u₀.slots = u.slots := by
  rw [MemoryDatabase.reserveAt, MemoryDatabase.getElem?_modifyAccount] at h
  split_ifs at h
  · obtain ⟨u₀, hu₀, rfl⟩ := Option.map_eq_some_iff.mp h
    exact ⟨u₀, hu₀, rfl⟩
  · exact ⟨u, h, rfl⟩

theorem uncovered_reserveAt {db : MemoryDatabase} {i j : Nat} {n : UInt64} {asset : AssetID}
    {newBuffer : Int64} :
    Uncovered (db.reserveAt i n) j asset newBuffer ↔ Uncovered db j asset newBuffer := by
  unfold Uncovered MemoryDatabase.Unslotted MemoryDatabase.reserveAt
  rw [MemoryDatabase.getElem?_modifyAccount]
  cases db.database[j]? with
  | none => simp
  | some u =>
    split_ifs
    · simp [UserAccount.reserveSequenceNumber, UserAccount.slots]
    · rfl

/-- The database is the same, but for slots that were made room for if `grows`. -/
def LeavesSlots (db db' : MemoryDatabase) (grows : Prop) : Prop :=
  (¬ grows ∧ db' = db) ∨
    (grows ∧ ∃ j m u, db.database[j]? = some u ∧ u.slots < m ∧ db' = db.growAt j m)

/-- Unwinding the view of a rejected transaction. -/
theorem Rejected.unwoundView {sourceIdx : Nat} {source : UserAccount} {n : UInt64} {run : Running}
    {grows : Prop} (h : Rejected (s.db.reserveAt sourceIdx n) run grows)
    (hsource : s.db.database[sourceIdx]? = some source)
    (hreserved : (source.reserveSequenceNumber n).1 = .SUCCESS)
    (hreservations : run.view.reservations = [⟨sourceIdx, n⟩]) :
    ∃ db, unwound run = .ok ⟨db, run.books, run.manager, run.log⟩ ∧ LeavesSlots s.db db grows := by
  have hunwind : ∀ j m, Buffers run.view ((s.db.reserveAt sourceIdx n).growAt j m) run.db →
      unwound run = .ok ⟨s.db.growAt j m, run.books, run.manager, run.log⟩ := by
    intro j m hb
    refine bind_eq_ok.mpr ⟨s.db.growAt j m, ?_, rfl⟩
    rw [hb.unwind, hreservations, List.foldlM_cons,
      MemoryDatabase.release_reserveAt_growAt hsource hreserved]
    rfl
  rcases h with ⟨hnot, hb⟩ | ⟨hgrows, j, m, u, hu, hlt, hb⟩
  · have hzero := hunwind 0 0 (by rwa [MemoryDatabase.growAt_zero])
    rw [MemoryDatabase.growAt_zero] at hzero
    exact ⟨s.db, hzero, .inl ⟨hnot, rfl⟩⟩
  · obtain ⟨u₀, hu₀, hslots⟩ := exists_reserveAt hu
    exact ⟨_, hunwind j m hb, .inr ⟨hgrows, j, m, u₀, hu₀, by omega, rfl⟩⟩

/-- The fee of the transaction, or one of its operations, makes a buffer negative, for an asset that
the account has no slot for. -/
def DebitsUnslotted (config : SignatureConfig) (s : ProcessorState) (tx : SignedTransaction) : Prop :=
  ∃ sourceIdx source, ComesToFee config s tx sourceIdx source ∧
    (Uncovered s.db sourceIdx MemoryDatabase.nativeAsset
        (-.ofNat (feeRequired tx.transaction.operations.length)) ∨
      ∃ run, payFee tx sourceIdx (s.reserved sourceIdx tx.transaction.metadata.sequenceNumber) =
          (.SUCCESS, run) ∧
        ComesToGrow tx.transaction.metadata sourceIdx 0 tx.transaction.operations run)

/-- What a transaction leads to. -/
structure TransactionOutcome (config : SignatureConfig) (s s' : ProcessorState)
    (tx : SignedTransaction) (status : TransactionProcessingStatus) : Prop where
  cases : (status ≠ .SUCCESS ∧ s'.books = s.books ∧ s'.manager.Covers s.manager ∧ s'.log = s.log ∧
      LeavesSlots s.db s'.db (DebitsUnslotted config s tx)) ∨
    (status = .SUCCESS ∧ ∃ (sourceIdx : Nat) (source : UserAccount) (run : Running),
      ComesToFee config s tx sourceIdx source ∧
      Buffers run.view (s.db.reserveAt sourceIdx tx.transaction.metadata.sequenceNumber) run.db ∧
      s'.db = run.view.commit run.db ∧ AddsIds tx.transaction.metadata s.manager s'.manager)

/-- No new offer has an id that the transaction would give to one. -/
def FreshFor (s : ProcessorState) (tx : SignedTransaction) : Prop :=
  ∀ i < maxOpsPerTx, Fresh tx.transaction.metadata i s.manager

theorem processTransaction_outcome
    (hfresh : ∀ sourceIdx source, ComesToFee config s tx sourceIdx source → s.FreshFor tx)
    (h : s.processTransaction config tx = .ok (status, s')) :
    TransactionOutcome config s s' tx status := by
  rcases processTransaction_eq h with ⟨hstatus, rfl, hturned⟩ |
    ⟨sourceIdx, source, run, paid, hfee, hpay, hcases⟩
  · refine ⟨.inl ⟨hstatus, rfl, .refl _, rfl, .inl ⟨?_, rfl⟩⟩⟩
    rintro ⟨idx, u, hfee, -⟩
    exact hturned idx u hfee
  set n := tx.transaction.metadata.sequenceNumber
  have hunique : ∀ idx u, ComesToFee config s tx idx u → idx = sourceIdx := fun idx u hfee' =>
    Option.some.inj (hfee'.user.symm.trans hfee.user)
  obtain ⟨hframe, hpaid⟩ := transferAvailable_cases (buffers_reserved s sourceIdx n) hpay
  have hzero : (s.reserved sourceIdx n).view.buffered sourceIdx MemoryDatabase.nativeAsset = 0 := rfl
  rw [hzero, zero_add] at hpaid
  change (paid = _ ∧ ¬ Uncovered (s.db.reserveAt sourceIdx n) _ _ _ ∧ _) ∨
    (_ ∧ Rejected _ _ (Uncovered (s.db.reserveAt sourceIdx n) _ _ _)) at hpaid
  rw [uncovered_reserveAt] at hpaid
  have hreservations : run.view.reservations = [⟨sourceIdx, n⟩] := hframe.reservations
  rcases hpaid with ⟨rfl, hcovered, hb⟩ | ⟨hunpaid, hrejected⟩
  · rcases hcases with ⟨hne, -⟩ | ⟨-, h⟩
    · exact absurd rfl hne
    obtain ⟨⟨status', k, run'⟩, hops, h⟩ := bind_eq_ok.mp h
    dsimp only at h
    have hgrows : ComesToGrow tx.transaction.metadata sourceIdx 0 tx.transaction.operations run ↔
        DebitsUnslotted config s tx := by
      constructor
      · exact fun hg => ⟨sourceIdx, source, hfee, .inr ⟨run, hpay, hg⟩⟩
      · rintro ⟨idx, u, hfee', hg⟩
        cases hunique idx u hfee'
        rcases hg with hg | ⟨run₂, hrun₂, hg⟩
        · exact absurd hg hcovered
        · cases hpay.symm.trans hrun₂
          exact hg
    have hformat : formatChecked n := of_decide_eq_true hfee.format
    obtain ⟨hlog, hres, hout⟩ := processOperations_outcome hformat tx.transaction.operations_le rfl hb
      (fun j _ hj => by rw [hframe.manager]; exact hfresh sourceIdx source hfee j hj)
      (unwindsAll_zero _ run) hops
    rcases hout with ⟨rfl, hnot, hb', hadds⟩ | ⟨hfailed, hrejected, m, hunwind, hcovers⟩
    · rw [if_neg (not_not.mpr rfl)] at h
      cases h
      refine ⟨.inr ⟨rfl, sourceIdx, source, run', hfee, hb', rfl, ?_⟩⟩
      rw [hframe.manager] at hadds
      exact hadds
    · rw [if_pos hfailed] at h
      obtain ⟨run'', hrun'', h⟩ := bind_eq_ok.mp h
      obtain ⟨s₁, hs₁, h⟩ := bind_eq_ok.mp h
      cases h
      unfold unwindTransaction at hrun''
      split at hrun''
      · cases hrun''
      cases hunwind.symm.trans hrun''
      have hrejected' : Rejected (s.db.reserveAt sourceIdx n)
          { run' with books := run.books, manager := m } (DebitsUnslotted config s tx) :=
        hrejected.congr hgrows
      obtain ⟨db, hdb, hslots⟩ := hrejected'.unwoundView hfee.account hfee.reserved
        (hres.trans hreservations)
      cases hdb.symm.trans hs₁
      refine ⟨.inl ⟨hfailed, hframe.books, ?_, hlog.trans hframe.log, hslots⟩⟩
      rw [hframe.manager] at hcovers
      exact hcovers
  · rcases hcases with ⟨-, rfl, hunwound⟩ | ⟨rfl, -⟩
    · have hgrows : Uncovered s.db sourceIdx MemoryDatabase.nativeAsset
          (-.ofNat (feeRequired tx.transaction.operations.length)) ↔ DebitsUnslotted config s tx := by
        constructor
        · exact fun hg => ⟨sourceIdx, source, hfee, .inl hg⟩
        · rintro ⟨idx, u, hfee', hg⟩
          cases hunique idx u hfee'
          rcases hg with hg | ⟨run₂, hrun₂, -⟩
          · exact hg
          · cases hpay.symm.trans hrun₂
            exact absurd rfl hunpaid
      obtain ⟨db, hdb, hslots⟩ := (hrejected.congr hgrows).unwoundView hfee.account hfee.reserved
        hreservations
      cases hdb.symm.trans hunwound
      exact ⟨.inl ⟨hunpaid, hframe.books, hframe.manager ▸ .refl s.manager, hframe.log, hslots⟩⟩
    · exact absurd rfl hunpaid

end ProcessorState

/-! ### Reservations through a block -/

namespace MemoryDatabase

variable {db db' db'' : MemoryDatabase}

/-- The same accounts, with every reservation that there was. -/
structure KeepsReservations (db db' : MemoryDatabase) : Prop where
  users : ∀ account, db'.lookupUser account = db.lookupUser account
  inUse : ∀ (i : Nat) (u : UserAccount), db.database[i]? = some u →
    ∃ u' : UserAccount, db'.database[i]? = some u' ∧
      ∀ n, u.seqTracker.InUse n → u'.seqTracker.InUse n

theorem KeepsReservations.refl (db : MemoryDatabase) : db.KeepsReservations db :=
  ⟨fun _ => rfl, fun _ u hu => ⟨u, hu, fun _ h => h⟩⟩

theorem KeepsReservations.trans (h : db.KeepsReservations db') (h' : db'.KeepsReservations db'') :
    db.KeepsReservations db'' := by
  refine ⟨fun account => (h'.users account).trans (h.users account), fun i u hu => ?_⟩
  obtain ⟨u', hu', hkeeps⟩ := h.inUse i u hu
  obtain ⟨u'', hu'', hkeeps'⟩ := h'.inUse i u' hu'
  exact ⟨u'', hu'', fun n hn => hkeeps' n (hkeeps n hn)⟩

theorem keepsReservations_modifyAccount {idx : Nat} {f : UserAccount → UserAccount}
    (h : ∀ u n, u.seqTracker.InUse n → (f u).seqTracker.InUse n) :
    db.KeepsReservations (db.modifyAccount idx f) := by
  refine ⟨fun _ => rfl, fun i u hu => ?_⟩
  rw [getElem?_modifyAccount, hu]
  split_ifs
  · exact ⟨f u, rfl, h u⟩
  · exact ⟨u, rfl, fun _ hn => hn⟩

theorem keepsReservations_transferAvailable (idx : Nat) (asset : AssetID) (amount : Int64) :
    db.KeepsReservations (db.transferAvailable idx asset amount) := by
  refine keepsReservations_modifyAccount fun u n hn => ?_
  rw [UserAccount.transferAvailable_eq]
  exact hn

theorem keepsReservations_growAt (i n : Nat) : db.KeepsReservations (db.growAt i n) :=
  keepsReservations_modifyAccount fun _ _ hn => hn

theorem keepsReservations_reserveAt (i : Nat) (n : UInt64) :
    db.KeepsReservations (db.reserveAt i n) :=
  keepsReservations_modifyAccount fun _ _ hn => hn.reserve n

theorem keepsReservations_foldl {α : Type} (l : List α) {f : MemoryDatabase → α → MemoryDatabase}
    (h : ∀ (db : MemoryDatabase) a, db.KeepsReservations (f db a)) : db.KeepsReservations (l.foldl f db) :=
  List.foldlRecOn l f (.refl db) fun db' hdb' a _ => hdb'.trans (h db' a)

end MemoryDatabase

theorem BufferedMemoryDatabaseView.Buffers.keepsReservations {v : BufferedMemoryDatabaseView}
    {db₀ db : MemoryDatabase} (h : Buffers v db₀ db) : db₀.KeepsReservations db := by
  refine ⟨fun account => ?_, fun i u hu => ?_⟩
  · rw [h.eq]
    rfl
  · rw [h.getElem?, hu]
    exact ⟨_, rfl, fun _ hn => hn⟩

theorem BufferedMemoryDatabaseView.commit_keepsReservations (v : BufferedMemoryDatabaseView)
    (db : MemoryDatabase) : db.KeepsReservations (v.commit db) := by
  unfold BufferedMemoryDatabaseView.commit AccountCreationView.commit
  refine .trans (MemoryDatabase.keepsReservations_foldl _ fun db a => ?_)
    (MemoryDatabase.keepsReservations_foldl _ fun db a => ?_)
  · exact MemoryDatabase.keepsReservations_foldl _ fun db b =>
      MemoryDatabase.keepsReservations_transferAvailable a.1 b.1 b.2
  · exact ⟨fun _ => rfl, fun _ u hu => ⟨u, hu, fun _ hn => hn⟩⟩

namespace ProcessorState

variable {config : SignatureConfig} {s s' : ProcessorState} {tx : SignedTransaction}
  {status : TransactionProcessingStatus}

/-- Every new offer has the id of an operation of a transaction whose sequence number is reserved. -/
def IdsReserved (db : MemoryDatabase) (m : ProcessingSerialManager) : Prop :=
  ∀ idx k leaf, (m.offersAt idx).find? k = some leaf →
    ∃ (price : Price) (owner : AccountID) (n : UInt64) (i account : Nat) (u : UserAccount),
      k = generateOrderbookTrieKey price owner (n + .ofNat i) ∧
      formatChecked n ∧ i < maxOpsPerTx ∧ db.lookupUser owner = some account ∧
      db.database[account]? = some u ∧ u.seqTracker.InUse n

theorem IdsReserved.keeps {db db' : MemoryDatabase} {m : ProcessingSerialManager}
    (h : IdsReserved db m) (hkeeps : db.KeepsReservations db') : IdsReserved db' m := by
  intro idx k leaf hleaf
  obtain ⟨price, owner, n, i, account, u, hk, hformat, hi, hlookup, hu, hinUse⟩ := h idx k leaf hleaf
  obtain ⟨u', hu', hkeep⟩ := hkeeps.inUse account u hu
  exact ⟨price, owner, n, i, account, u', hk, hformat, hi, (hkeeps.users owner).trans hlookup, hu',
    hkeep n hinUse⟩

/-- A sequence number that can be reserved has given no ids. -/
theorem IdsReserved.freshFor (h : IdsReserved s.db s.manager) {sourceIdx : Nat}
    {source : UserAccount} (hfee : ComesToFee config s tx sourceIdx source) : s.FreshFor tx := by
  intro j hj idx price
  by_contra hsome
  obtain ⟨leaf, hleaf⟩ := Option.ne_none_iff_exists'.mp hsome
  obtain ⟨price', owner, n, i, account, u, hk, hformat, hi, hlookup, hu, hinUse⟩ := h idx _ leaf hleaf
  obtain ⟨rfl, hid⟩ := generateOrderbookTrieKey_inj hk
  obtain ⟨rfl, -⟩ := operationId_inj (of_decide_eq_true hfee.format) hformat hj hi hid
  cases hlookup.symm.trans hfee.user
  cases hu.symm.trans hfee.account
  have hreserved : (source.seqTracker.reserveSequenceNumber _).1 = .SUCCESS := hfee.reserved
  cases hinUse.symm.trans hreserved

/-- A transaction keeps every reservation, whether it succeeds or not. -/
theorem TransactionOutcome.keepsReservations (h : TransactionOutcome config s s' tx status) :
    s.db.KeepsReservations s'.db := by
  rcases h.cases with ⟨-, -, -, -, hslots⟩ | ⟨-, sourceIdx, source, run, -, hb, hdb, -⟩
  · rcases hslots with ⟨-, hsame⟩ | ⟨-, j, m, u, -, -, hgrown⟩
    · rw [hsame]
      exact .refl s.db
    · rw [hgrown]
      exact MemoryDatabase.keepsReservations_growAt j m
  · rw [hdb]
    exact ((MemoryDatabase.keepsReservations_reserveAt sourceIdx _).trans hb.keepsReservations).trans
      (run.view.commit_keepsReservations run.db)

theorem TransactionOutcome.idsReserved (h : TransactionOutcome config s s' tx status)
    (hids : IdsReserved s.db s.manager) : IdsReserved s'.db s'.manager := by
  have hkeeps := hids.keeps h.keepsReservations
  rcases h.cases with ⟨-, -, hcovers, -, -⟩ | ⟨-, sourceIdx, source, run, hfee, hb, hdb, hadds⟩
  · intro idx k leaf hleaf
    rw [hcovers.offers] at hleaf
    exact hkeeps idx k leaf hleaf
  · intro idx k leaf hleaf
    rcases hadds idx k leaf hleaf with hold | ⟨price, i, hi, hk⟩
    · exact hkeeps idx k leaf hold
    set n := tx.transaction.metadata.sequenceNumber
    have hlater : (s.db.reserveAt sourceIdx n).KeepsReservations s'.db := by
      rw [hdb]
      exact hb.keepsReservations.trans (run.view.commit_keepsReservations run.db)
    have hat : (s.db.reserveAt sourceIdx n).database[sourceIdx]? =
        some (source.reserveSequenceNumber n).2 := by
      rw [MemoryDatabase.reserveAt, MemoryDatabase.getElem?_modifyAccount, if_pos rfl, hfee.account,
        Option.map_some]
    obtain ⟨u', hu', hinUse⟩ := hlater.inUse sourceIdx _ hat
    exact ⟨price, _, n, i, sourceIdx, u', hk, of_decide_eq_true hfee.format, hi,
      (hlater.users _).trans hfee.user, hu',
      hinUse n (SequenceTracker.inUse_reserve (t := source.seqTracker) hfee.reserved)⟩

end ProcessorState

/-! ### Block production -/

/-- Block production: the workers share the database and the orderbooks, and each has new offers and
a log of its own. -/
structure Workers where
  db : MemoryDatabase
  books : OrderbookManager
  workers : List (ProcessingSerialManager × ModificationTrie)

namespace Workers

variable {config : SignatureConfig} {db : MemoryDatabase} {books : OrderbookManager}
  {before after : List (ProcessingSerialManager × ModificationTrie)}
  {manager : ProcessingSerialManager} {log : ModificationTrie} {s' : ProcessorState}
  {tx : SignedTransaction} {status : TransactionProcessingStatus}

/-- The states that the workers reach from one without new offers. -/
inductive Reachable (config : SignatureConfig) : Workers → Prop where
  | start {w : Workers} (h : ∀ a ∈ w.workers, ∀ i, a.1.offersAt i = ∅) : Reachable config w
  | step {db : MemoryDatabase} {books : OrderbookManager}
    {before after : List (ProcessingSerialManager × ModificationTrie)}
    {manager : ProcessingSerialManager} {log : ModificationTrie} {s' : ProcessorState}
    {tx : SignedTransaction} {status : TransactionProcessingStatus}
    (h : Reachable config ⟨db, books, before ++ (manager, log) :: after⟩)
    (hprocess : ProcessorState.processTransaction config ⟨db, books, manager, log⟩ tx =
      .ok (status, s')) :
    Reachable config ⟨s'.db, s'.books, before ++ (s'.manager, s'.log) :: after⟩

/-- In a reachable state the sequence number of every new offer of every worker is reserved. -/
theorem Reachable.idsReserved {w : Workers} (h : Reachable config w) :
    ∀ a ∈ w.workers, ProcessorState.IdsReserved w.db a.1 := by
  induction h with
  | start hempty =>
    intro a ha idx k leaf hleaf
    rw [hempty a ha idx] at hleaf
    cases hleaf
  | step hreachable hprocess ih =>
    have hown := ih _ (List.mem_append_right _ List.mem_cons_self)
    have hout := ProcessorState.processTransaction_outcome (fun _ _ hfee => hown.freshFor hfee)
      hprocess
    intro a ha
    rcases List.mem_append.mp ha with hbefore | hrest
    · exact (ih a (List.mem_append_left _ hbefore)).keeps hout.keepsReservations
    · rcases List.mem_cons.mp hrest with rfl | hafter
      · exact hout.idsReserved hown
      · exact (ih a (List.mem_append_right _ (List.mem_cons_of_mem _ hafter))).keeps
          hout.keepsReservations

/-- Every transaction that a worker processes in a reachable state. -/
theorem Reachable.outcome
    (h : Reachable config ⟨db, books, before ++ (manager, log) :: after⟩)
    (hprocess : ProcessorState.processTransaction config ⟨db, books, manager, log⟩ tx =
      .ok (status, s')) :
    ProcessorState.TransactionOutcome config ⟨db, books, manager, log⟩ s' tx status := by
  have hown := h.idsReserved _ (List.mem_append_right _ List.mem_cons_self)
  exact ProcessorState.processTransaction_outcome (fun _ _ hfee => hown.freshFor hfee) hprocess

end Workers

namespace ProcessorState

/-- Nothing that the block commits or that another transaction sees has changed. -/
structure NoTrace (s s' : ProcessorState) : Prop where
  commitments : ∀ i : Nat, (s'.db.database[i]?).map UserAccount.tentativeCommitment =
    (s.db.database[i]?).map UserAccount.tentativeCommitment
  assetEntries : ∀ i : Nat, (s'.db.database[i]?).map UserAccount.slots =
    (s.db.database[i]?).map UserAccount.slots
  seqnos : ∀ i : Nat, (s'.db.database[i]?).map UserAccount.seqTracker =
    (s.db.database[i]?).map UserAccount.seqTracker
  reservedAccountIds : s'.db.reservedAccountIds = s.db.reservedAccountIds
  newOffers : ∀ i, s'.manager.offersAt i = s.manager.offersAt i
  books : s'.books = s.books

/-- A rejected transaction leaves no trace exactly if it does not come to a debit that neither its
own credits nor an asset slot of the account covers. -/
theorem noTrace_iff {config : SignatureConfig} {db : MemoryDatabase} {books : OrderbookManager}
    {before after : List (ProcessingSerialManager × ModificationTrie)}
    {manager : ProcessingSerialManager} {log : ModificationTrie} {s' : ProcessorState}
    {tx : SignedTransaction} {status : TransactionProcessingStatus}
    (hreachable : Workers.Reachable config ⟨db, books, before ++ (manager, log) :: after⟩)
    (h : processTransaction config ⟨db, books, manager, log⟩ tx = .ok (status, s'))
    (hstatus : status ≠ .SUCCESS) :
    NoTrace ⟨db, books, manager, log⟩ s' ↔ ¬ DebitsUnslotted config ⟨db, books, manager, log⟩ tx := by
  rcases (hreachable.outcome h).cases with ⟨-, hbooks, hcovers, -, hslots⟩ | ⟨hsuccess, -⟩
  · rcases hslots with ⟨hnot, hdb⟩ | ⟨hgrows, j, m, u, hu, hlt, hdb⟩
    · refine iff_of_true ?_ hnot
      exact ⟨fun i => by rw [hdb], fun i => by rw [hdb], fun i => by rw [hdb], by rw [hdb],
        hcovers.offers, hbooks⟩
    · refine iff_of_false (fun htrace => ?_) (not_not.mpr hgrows)
      have hentries := htrace.assetEntries j
      rw [hdb, MemoryDatabase.growAt, MemoryDatabase.getElem?_modifyAccount, if_pos rfl] at hentries
      change Option.map _ (Option.map _ db.database[j]?) = Option.map _ db.database[j]? at hentries
      rw [show db.database[j]? = some u from hu, Option.map_some, Option.map_some, Option.map_some,
        UserAccount.slots_growTo, Option.some.injEq] at hentries
      omega
  · exact absurd hsuccess hstatus

/-- Accounts 7 and 8 with 100 of the native asset each, and one worker. -/
def twoAccounts : ProcessorState where
  db := ⟨[⟨[.ofAmount 100], [], .ofId 0, 7, 0⟩, ⟨[.ofAmount 100], [], .ofId 0, 8, 0⟩],
    ((∅ : SortedMap AccountID Nat).insert 7 0).insert 8 1, [], ∅, ∅, [], 0⟩
  books := ⟨[], 2⟩
  manager := ⟨[]⟩
  log := ∅

/-- Account 7 pays 200 of an asset to account 8. -/
def paying (asset : AssetID) : SignedTransaction :=
  ⟨⟨⟨7, 256⟩, [.PAYMENT ⟨8, asset, 200⟩], Nat.le_of_ble_eq_true rfl, 15⟩, 0⟩

theorem twoAccounts_reachable (config : SignatureConfig) :
    Workers.Reachable config
      ⟨twoAccounts.db, twoAccounts.books, [] ++ (twoAccounts.manager, twoAccounts.log) :: []⟩ := by
  refine .start fun a ha i => ?_
  cases List.mem_singleton.mp ha
  rfl

/-- Account 7 has a slot for the native asset, so that a payment of too much of it leaves no
trace. -/
theorem noTrace_iff_paying : ∃ s', processTransaction ⟨false, fun _ _ _ => true⟩ twoAccounts
    (paying 0) = .ok (.INSUFFICIENT_BALANCE, s') ∧ NoTrace twoAccounts s' ∧
      ¬ DebitsUnslotted ⟨false, fun _ _ _ => true⟩ twoAccounts (paying 0) := by
  obtain ⟨⟨status, s'⟩, h, hvalues⟩ := returns_iff.mp (show returns (processTransaction
    ⟨false, fun _ _ _ => true⟩ twoAccounts (paying 0)) (fun r => r.1 = .INSUFFICIENT_BALANCE ∧
      r.2 = twoAccounts) = true by decide +kernel)
  obtain ⟨rfl, rfl⟩ := of_decide_eq_true hvalues
  have htrace : NoTrace twoAccounts twoAccounts :=
    ⟨fun _ => rfl, fun _ => rfl, fun _ => rfl, rfl, fun _ => rfl, rfl⟩
  exact ⟨_, h, htrace, (noTrace_iff (twoAccounts_reachable _) h (by decide)).mp htrace⟩

/-- A payment of asset 1, which account 7 has never held, leaves an entry for it. -/
theorem trace_of_paying :
    Workers.Reachable ⟨false, fun _ _ _ => true⟩
      ⟨twoAccounts.db, twoAccounts.books, [] ++ (twoAccounts.manager, twoAccounts.log) :: []⟩ ∧
    ∃ s', processTransaction ⟨false, fun _ _ _ => true⟩ twoAccounts (paying 1) =
      .ok (.INSUFFICIENT_BALANCE, s') ∧ ¬ NoTrace twoAccounts s' := by
  obtain ⟨⟨status, s'⟩, h, hvalues⟩ := returns_iff.mp (show returns (processTransaction
    ⟨false, fun _ _ _ => true⟩ twoAccounts (paying 1)) (fun r => r.1 = .INSUFFICIENT_BALANCE ∧
      r.2.db.database[0]?.map UserAccount.slots = some 2) = true by decide +kernel)
  obtain ⟨rfl, hslots⟩ := of_decide_eq_true hvalues
  refine ⟨twoAccounts_reachable _, s', h, fun htrace => ?_⟩
  have hentries := htrace.assetEntries 0
  rw [hslots] at hentries
  cases hentries

end ProcessorState

end Speedex
