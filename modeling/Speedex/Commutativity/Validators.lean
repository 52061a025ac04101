import Speedex.Commutativity.Refinement

/-! A transaction in validation as updates.  New offers are told apart by their keys, which carry the
sequence number of the transaction: it is reserved before its first offer is added, so that no two
transactions of a block share a key. -/

namespace Speedex

open Lib

/-! ### The keys of new offers -/

/-- The new offers that an update adds, by orderbook. -/
def Update.newOffers : Update → Nat → Multiset (OfferKey × OfferLeaf)
  | .produce p => p.newOffers
  | .reserve .. | .transfer .. | .reserveId .. | .create .. | .mark .. | .log .. => 0

def addedOffers (us : List Update) : Nat → Multiset (OfferKey × OfferLeaf) :=
  (us.map Update.newOffers).sum

namespace BlockState

variable {a a' : BlockState} {us : List Update}

theorem effect_newOffers (a : BlockState) (u : Update) :
    (a.effect u).produced.newOffers = a.produced.newOffers + u.newOffers := by
  cases u with
  | produce p => rfl
  | _ => exact (add_zero _).symm

theorem run_newOffers (h : updates.run a us = some a') :
    a'.produced.newOffers = a.produced.newOffers + addedOffers us := by
  induction us generalizing a with
  | nil =>
    cases h
    exact (add_zero _).symm
  | cons u us ih =>
    obtain ⟨a₁, hu, hus⟩ := Option.bind_eq_some_iff.mp h
    obtain ⟨-, rfl⟩ := updates.apply_eq_some.mp hu
    have hcons : addedOffers (u :: us) = u.newOffers + addedOffers us := List.sum_cons
    rw [ih hus, hcons, ← add_assoc]
    exact congrArg (· + _) (a.effect_newOffers u)

/-- A sequence number of the account at `idx` is reserved. -/
def InUse (a : BlockState) (idx : Nat) (n : UInt64) : Prop :=
  ∃ u, a.accounts[idx]? = some u ∧ u.seqTracker.InUse n

/-- No update takes a reservation back. -/
theorem InUse.effect {idx : Nat} {n : UInt64} (h : a.InUse idx n) (u : Update) :
    (a.effect u).InUse idx n := by
  obtain ⟨user, huser, hused⟩ := h
  have hmodified : ∀ (idx' : Nat) {f : UserAccount → UserAccount},
      (f user).seqTracker.InUse n → ∃ u, (a.accounts.modify idx' f)[idx]? = some u ∧
        u.seqTracker.InUse n := by
    intro idx' f hf
    rw [List.getElem?_modify, huser]
    by_cases hidx : idx' = idx
    · exact ⟨f user, by simp [hidx], hf⟩
    · exact ⟨user, by simp [hidx], hused⟩
  cases u with
  | reserve idx' m => exact hmodified idx' (hused.reserve m)
  | transfer idx' asset x => exact hmodified idx' (by simpa using hused)
  | _ => exact ⟨user, huser, hused⟩

theorem InUse.run {idx : Nat} {n : UInt64} (h : a.InUse idx n)
    (hrun : updates.run a us = some a') : a'.InUse idx n :=
  run_invariant (P := fun b => b.InUse idx n) (fun _ u _ hb => hb.effect u) hrun h

/-- A sequence number that is reserved first is reserved in the end. -/
theorem inUse_of_run {idx : Nat} {n : UInt64}
    (h : updates.run a (.reserve idx n :: us) = some a') : a'.InUse idx n := by
  obtain ⟨a₁, hfirst, hrest⟩ := Option.bind_eq_some_iff.mp h
  obtain ⟨hallowed, rfl⟩ := updates.apply_eq_some.mp hfirst
  obtain ⟨-, u, hu, hfree⟩ := allowed_reserve.mp hallowed
  refine InUse.run ⟨(u.reserveSequenceNumber n).2, ?_, SequenceTracker.inUse_reserve hfree⟩ hrest
  change (a.accounts.modify idx _)[idx]? = _
  simp [hu]

/-- New offers have the ids of operations of transactions whose sequence numbers are reserved: of
the first `bound owner n` operations of the transaction of `owner` with sequence number `n`. -/
structure Numbered (ids : SortedMap AccountID Nat) (bound : AccountID → UInt64 → Nat)
    (a : BlockState) : Prop where
  nodup : ∀ book, ((a.produced.newOffers book).map Prod.fst).Nodup
  reserved : ∀ book, ∀ o ∈ a.produced.newOffers book, ∃ price owner n i idx,
    o.1 = generateOrderbookTrieKey price owner (n + .ofNat i) ∧ formatChecked n ∧
      i < bound owner n ∧ ids.find? owner = some idx ∧ a.InUse idx n

/-- Only the first `k` operations of one transaction have been worked on. -/
def upTo (owner : AccountID) (n : UInt64) (k : Nat) : AccountID → UInt64 → Nat :=
  fun owner' n' => if owner' = owner ∧ n' = n then k else maxOpsPerTx

/-- All transactions whose sequence numbers are reserved have been worked on. -/
def upToAll : AccountID → UInt64 → Nat := fun _ _ => maxOpsPerTx

theorem upTo_le {owner : AccountID} {n : UInt64} {k : Nat} (hk : k ≤ maxOpsPerTx)
    (owner' : AccountID) (n' : UInt64) : upTo owner n k owner' n' ≤ upToAll owner' n' := by
  unfold upTo upToAll
  split_ifs
  · exact hk
  · exact le_rfl

namespace Numbered

variable {ids : SortedMap AccountID Nat} {bound bound' : AccountID → UInt64 → Nat}
  {owner : AccountID} {n : UInt64} {k : Nat}

theorem mono (h : Numbered ids bound a) (hle : ∀ owner n, bound owner n ≤ bound' owner n) :
    Numbered ids bound' a where
  nodup := h.nodup
  reserved book o ho := by
    obtain ⟨price, owner, n, i, idx, hkey, hformat, hi, hids, hused⟩ := h.reserved book o ho
    exact ⟨price, owner, n, i, idx, hkey, hformat, lt_of_lt_of_le hi (hle owner n), hids, hused⟩

/-- Updates that add no new offers. -/
theorem run (h : Numbered ids bound a) (hrun : updates.run a us = some a')
    (hnone : addedOffers us = 0) : Numbered ids bound a' := by
  have hsame := run_newOffers hrun
  rw [hnone, add_zero] at hsame
  constructor
  · rw [hsame]
    exact h.nodup
  · intro book o ho
    rw [hsame] at ho
    obtain ⟨price, owner, n, i, idx, hkey, hformat, hi, hids, hused⟩ := h.reserved book o ho
    exact ⟨price, owner, n, i, idx, hkey, hformat, hi, hids, hused.run hrun⟩

/-- Operation `k` has added no offer yet. -/
theorem fresh (h : Numbered ids (upTo owner n k) a) (hformat : formatChecked n)
    (hk : k < maxOpsPerTx) {book : Nat} {o : OfferKey × OfferLeaf}
    (ho : o ∈ a.produced.newOffers book) (price : Price) :
    o.1 ≠ generateOrderbookTrieKey price owner (n + .ofNat k) := by
  intro hsame
  obtain ⟨price', owner', n', i, idx, hkey, hformat', hi, -, -⟩ := h.reserved book o ho
  obtain ⟨rfl, hid⟩ := generateOrderbookTrieKey_inj (hkey.symm.trans hsame)
  have hi' : i < maxOpsPerTx := lt_of_lt_of_le hi (upTo_le hk.le owner' n')
  obtain ⟨rfl, rfl⟩ := operationId_inj hformat' hformat hi' hk hid
  simp [upTo] at hi

/-- Updates that add at most one offer, of operation `k`. -/
theorem step (h : Numbered ids (upTo owner n k) a) (hformat : formatChecked n)
    (hk : k < maxOpsPerTx) {idx : Nat} (hids : ids.find? owner = some idx) (hused : a.InUse idx n)
    (hrun : updates.run a us = some a')
    (hadded : addedOffers us = 0 ∨ ∃ book price leaf, addedOffers us =
      Pi.single book {(generateOrderbookTrieKey price owner (n + .ofNat k), leaf)}) :
    Numbered ids (upTo owner n (k + 1)) a' := by
  have hmono : ∀ owner' n', upTo owner n k owner' n' ≤ upTo owner n (k + 1) owner' n' := by
    intro owner' n'
    unfold upTo
    split_ifs
    · exact Nat.le_succ k
    · exact le_rfl
  rcases hadded with hnone | ⟨book₀, price, leaf, hone⟩
  · exact (h.run hrun hnone).mono hmono
  have hnew := run_newOffers hrun
  rw [hone] at hnew
  constructor
  · intro book
    rw [hnew, Pi.add_apply, Multiset.map_add]
    by_cases hbook : book = book₀
    · subst hbook
      rw [Pi.single_eq_same, Multiset.map_singleton, add_comm, Multiset.singleton_add,
        Multiset.nodup_cons]
      refine ⟨fun hmem => ?_, h.nodup book⟩
      obtain ⟨o, ho, hkey⟩ := Multiset.mem_map.mp hmem
      exact h.fresh hformat hk ho price hkey
    · rw [Pi.single_eq_of_ne hbook, Multiset.map_zero, add_zero]
      exact h.nodup book
  · intro book o ho
    rw [hnew, Pi.add_apply, Multiset.mem_add] at ho
    rcases ho with ho | ho
    · obtain ⟨price', owner', n', i, idx', hkey, hformat', hi, hids', hused'⟩ := h.reserved book o ho
      exact ⟨price', owner', n', i, idx', hkey, hformat', lt_of_lt_of_le hi (hmono owner' n'), hids',
        hused'.run hrun⟩
    · by_cases hbook : book = book₀
      · subst hbook
        rw [Pi.single_eq_same, Multiset.mem_singleton] at ho
        subst ho
        exact ⟨price, owner, n, k, idx, rfl, hformat, by simp [upTo], hids, hused.run hrun⟩
      · rw [Pi.single_eq_of_ne hbook] at ho
        exact absurd ho (Multiset.notMem_zero o)

/-- A transaction whose sequence number is not reserved has added no offers. -/
theorem start (h : Numbered ids upToAll a) {idx : Nat} (hids : ids.find? owner = some idx)
    (hfree : ¬ a.InUse idx n) : Numbered ids (upTo owner n 0) a where
  nodup := h.nodup
  reserved book o ho := by
    obtain ⟨price, owner', n', i, idx', hkey, hformat, hi, hids', hused⟩ := h.reserved book o ho
    refine ⟨price, owner', n', i, idx', hkey, hformat, ?_, hids', hused⟩
    unfold upTo
    rw [if_neg]
    · exact hi
    · rintro ⟨rfl, rfl⟩
      cases hids.symm.trans hids'
      exact hfree hused

end Numbered

end BlockState

/-! ### The offers of an operation -/

section Operations

variable {ctx : BlockContext} {metadata : OperationMetadata} {v v' : AccountCreationView}
  {us us' : List Update}

@[simp] theorem addedOffers_nil : addedOffers [] = 0 := rfl

@[simp] theorem addedOffers_cons (u : Update) (us : List Update) :
    addedOffers (u :: us) = u.newOffers + addedOffers us := List.sum_cons

@[simp] theorem addedOffers_append : addedOffers (us ++ us') = addedOffers us + addedOffers us' := by
  simp [addedOffers]

theorem addedOffers_credit (target : AccountPtr) (asset : AssetID) (amount : Int64) :
    addedOffers (v.credit target asset amount).1 = 0 := by
  cases target with
  | main idx => exact add_zero _
  | fresh id => rfl

theorem addedOffers_newOffer {idx : Nat} {offer : Offer}
    (h : newOfferUpdates ctx metadata idx offer = some us) :
    addedOffers us = 0 ∨ addedOffers us = Pi.single idx {(offer.key, ⟨offer, false, true⟩)} := by
  obtain ⟨commitment, -, h⟩ := Option.bind_eq_some_iff.mp h
  split_ifs at h
  · cases h
    refine .inr ?_
    simp [Update.newOffers, Produced.touch, Produced.kept]
  · obtain ⟨sellPrice, -, h⟩ := Option.bind_eq_some_iff.mp h
    obtain ⟨buyPrice, -, h⟩ := Option.bind_eq_some_iff.mp h
    obtain ⟨buyAmount, -, h⟩ := Option.bind_eq_some_iff.mp h
    cases h
    refine .inl ?_
    simp [Update.newOffers, Produced.touch, Produced.cleared]

/-- An operation adds at most one offer, under a key with its own id. -/
theorem addedOffers_operation {op : Operation}
    (h : operationUpdates ctx metadata v op = some (us, v')) :
    addedOffers us = 0 ∨ ∃ book price leaf, addedOffers us =
      Pi.single book {(generateOrderbookTrieKey price metadata.txMetadata.sourceAccount
        metadata.operationId, leaf)} := by
  cases op with
  | CREATE_ACCOUNT op =>
    simp only [operationUpdates, createAccountUpdates] at h
    split_ifs at h
    cases h
    exact .inl rfl
  | CREATE_SELL_OFFER op =>
    simp only [operationUpdates, createSellOfferUpdates] at h
    split_ifs at h
    obtain ⟨idx, -, h⟩ := Option.bind_eq_some_iff.mp h
    obtain ⟨updates, hupdates, h⟩ := Option.bind_eq_some_iff.mp h
    cases h
    have hlast : addedOffers (updates ++
        [.transfer metadata.sourceAccountIdx op.category.sellAsset (-op.amount)]) =
          addedOffers updates := by
      simp [Update.newOffers]
    rw [hlast]
    rcases addedOffers_newOffer hupdates with hnone | hone
    · exact .inl hnone
    · exact .inr ⟨idx, op.minPrice, _, hone⟩
  | CANCEL_SELL_OFFER op =>
    obtain ⟨idx, -, h⟩ := Option.bind_eq_some_iff.mp h
    obtain ⟨offers, -, h⟩ := Option.bind_eq_some_iff.mp h
    obtain ⟨offer, -, h⟩ := Option.bind_eq_some_iff.mp h
    cases h
    exact .inl rfl
  | PAYMENT op =>
    simp only [operationUpdates, paymentUpdates] at h
    split_ifs at h
    obtain ⟨target, -, h⟩ := Option.bind_eq_some_iff.mp h
    cases h
    refine .inl ?_
    rw [addedOffers_cons, addedOffers_credit]
    rfl
  | MONEY_PRINTER op =>
    simp only [operationUpdates, moneyPrinterUpdates] at h
    split_ifs at h
    cases h
    exact .inl rfl

theorem addedOffers_eq_zero (h : ∀ u ∈ us, u.newOffers = 0) : addedOffers us = 0 := by
  refine List.sum_eq_zero fun p hp => ?_
  obtain ⟨u, hu, rfl⟩ := List.mem_map.mp hp
  exact h u hu

theorem addedOffers_creates (accounts : List (AccountID × UserAccount)) :
    addedOffers (accounts.map fun a => .create a.2) = 0 := by
  refine addedOffers_eq_zero fun u hu => ?_
  obtain ⟨a, -, rfl⟩ := List.mem_map.mp hu
  rfl

theorem addedOffers_logUpdates (tx : SignedTransaction) : addedOffers (logUpdates tx) = 0 := by
  refine addedOffers_eq_zero fun u hu => ?_
  rcases List.mem_cons.mp hu with rfl | hu
  · rfl
  · obtain ⟨op, -, hu⟩ := List.mem_flatMap.mp hu
    unfold operationLogUpdates at hu
    split at hu
    · rw [List.mem_singleton.mp hu]
      rfl
    · rw [List.mem_singleton.mp hu]
      rfl
    all_goals exact absurd hu List.not_mem_nil

end Operations

/-! ### Transactions -/

namespace ValidatorState

section Operations

variable {rest : Produced} {metadata : TransactionMetadata} {sourceIdx k : Nat} {s s' : Running}
  {us : List Update} {ops : List Operation}

/-- A validator before operation `k` of a transaction. -/
structure Working (rest : Produced) (metadata : TransactionMetadata) (sourceIdx k : Nat)
    (s : Running) : Prop where
  format : formatChecked metadata.sequenceNumber
  source : s.db.lookupUser metadata.sourceAccount = some sourceIdx
  reserved : (s.blockState rest).InUse sourceIdx metadata.sequenceNumber
  numbered : (s.blockState rest).Numbered s.db.userIdToIdxMap
    (BlockState.upTo metadata.sourceAccount metadata.sequenceNumber k)

theorem Working.freshKeys (h : Working rest metadata sourceIdx k s) (hk : k < maxOpsPerTx) :
    FreshKeys s (.at metadata sourceIdx k) := by
  intro book price
  by_contra hfound
  obtain ⟨leaf, hleaf⟩ := Option.ne_none_iff_exists'.mp hfound
  have hmem : (generateOrderbookTrieKey price metadata.sourceAccount
      (metadata.sequenceNumber + .ofNat k), leaf) ∈ (s.blockState rest).produced.newOffers book :=
    Multiset.mem_add.mpr (.inr (SortedMap.mem_entries.mpr hleaf))
  exact h.numbered.fresh h.format hk hmem price rfl

theorem Working.step (h : Working rest metadata sourceIdx k s) (hk : k < maxOpsPerTx)
    {ctx : BlockContext} {v v' : AccountCreationView} {op : Operation}
    (hus : operationUpdates ctx (.at metadata sourceIdx k) v op = some (us, v'))
    (hmakes : Makes rest us s s') : Working rest metadata sourceIdx (k + 1) s' := by
  have hids : s'.db.userIdToIdxMap = s.db.userIdToIdxMap :=
    congrArg BlockContext.ids hmakes.context
  have hadded := addedOffers_operation hus
  simp only [OperationMetadata.at] at hadded
  refine ⟨h.format, ?_, h.reserved.run hmakes.run, ?_⟩
  · rw [MemoryDatabase.lookupUser, hids]
    exact h.source
  · rw [hids]
    exact h.numbered.step h.format hk h.source h.reserved hmakes.run hadded

theorem processOperations_makes {n : Nat} (hwork : Working rest metadata sourceIdx k s)
    (hk : k + ops.length ≤ maxOpsPerTx)
    (h : processOperations metadata sourceIdx k ops s = .ok (.SUCCESS, n, s')) :
    (∃ us, operationsUpdates s.context metadata sourceIdx k ops s.view.toAccountCreationView =
        some (us, s'.view.toAccountCreationView) ∧ Makes rest us s s') ∧
      Working rest metadata sourceIdx (k + ops.length) s' := by
  induction ops generalizing k s with
  | nil =>
    cases h
    exact ⟨⟨[], rfl, .refl _⟩, hwork⟩
  | cons op ops ih =>
    rw [List.length_cons] at hk
    obtain ⟨⟨status, s₁⟩, hop, h⟩ := bind_eq_ok.mp h
    dsimp only at h
    split_ifs at h with hstatus
    · obtain ⟨rfl, -⟩ := Prod.mk.inj (Except.ok.inj h)
      exact absurd rfl hstatus
    rw [not_not] at hstatus
    subst hstatus
    have hlt : k < maxOpsPerTx := by omega
    obtain ⟨us, hus, hmakes⟩ := processOperation_makes rest (hwork.freshKeys hlt) hop
    have hwork₁ := hwork.step hlt hus hmakes
    obtain ⟨⟨us', hus', hmakes'⟩, hwork'⟩ := ih hwork₁ (by omega) h
    rw [hmakes.context] at hus'
    refine ⟨⟨us ++ us', ?_, hmakes.trans hmakes'⟩, ?_⟩
    · refine Option.bind_eq_some_iff.mpr ⟨_, hus, ?_⟩
      exact Option.bind_eq_some_iff.mpr ⟨_, hus', rfl⟩
    · rwa [List.length_cons, Nat.add_comm ops.length 1, ← Nat.add_assoc]

theorem processOperations_succeeds {v : AccountCreationView}
    (hwork : Working rest metadata sourceIdx k s) (hk : k + ops.length ≤ maxOpsPerTx)
    (h : operationsUpdates s.context metadata sourceIdx k ops s.view.toAccountCreationView =
      some (us, v)) {a : BlockState} (hrun : BlockState.updates.run (s.blockState rest) us = some a) :
    ∃ n s', processOperations metadata sourceIdx k ops s = .ok (.SUCCESS, n, s') := by
  induction ops generalizing k s us with
  | nil => exact ⟨k, s, rfl⟩
  | cons op ops ih =>
    rw [List.length_cons] at hk
    obtain ⟨⟨us₁, v₁⟩, hus₁, h⟩ := Option.bind_eq_some_iff.mp h
    obtain ⟨⟨us₂, v₂⟩, hus₂, h⟩ := Option.bind_eq_some_iff.mp h
    cases h
    obtain ⟨a₁, hrun₁, hrun₂⟩ := BlockState.updates.run_append_eq_some.mp hrun
    obtain ⟨hallowed, -, -⟩ := BlockState.updates.run_eq_some.mp hrun₁
    obtain ⟨s₁, hop⟩ := processOperation_succeeds hus₁ hallowed
    have hlt : k < maxOpsPerTx := by omega
    obtain ⟨us', hus', hmakes⟩ := processOperation_makes rest (hwork.freshKeys hlt) hop
    cases hus'.symm.trans hus₁
    cases hmakes.run.symm.trans hrun₁
    have hwork₁ := hwork.step hlt hus' hmakes
    rw [← hmakes.context] at hus₂
    obtain ⟨n, s', hrest⟩ := ih hwork₁ (by omega) hus₂ hrun₂
    refine ⟨n, s', bind_eq_ok.mpr ⟨_, hop, ?_⟩⟩
    exact (if_neg (not_not.mpr rfl)).trans hrest

end Operations

/-! ### Whole transactions -/

section Transactions

variable {rest : Produced} {s s' : Running} {config : SignatureConfig} {us : List Update}

variable (rest) in
/-- The view's new accounts go to the database. -/
theorem commit_makes (s : Running) : Makes rest (s.view.newAccounts.map fun a => .create a.2) s
    { s with db := s.view.commit s.db } := by
  unfold AccountCreationView.commit
  induction s.view.newAccounts generalizing s with
  | nil => exact .refl s
  | cons a l ih =>
    have hfirst : Makes rest [.create a.2] s { s with db := s.db.commitAccountCreation a.2 } := by
      refine ⟨?_, rfl, rfl, rfl⟩
      refine BlockState.updates.run_singleton.mpr ⟨rfl, BlockState.ext rfl rfl ?_ rfl rfl rfl⟩
      refine (Multiset.coe_add _ _).symm.trans ?_
      rw [Multiset.coe_singleton, add_comm, Multiset.singleton_add]
      rfl
    exact hfirst.trans (ih { s with db := s.db.commitAccountCreation a.2 })

theorem logOperation_makes (s : Running) (metadata : TransactionMetadata) (op : Operation × Nat) :
    Makes rest (operationLogUpdates metadata op) s
      { s with log := logOperation metadata s.log op.2 op.1 } := by
  have hother : ∀ account, Makes rest [.log account
      (0, 0, {⟨metadata.sourceAccount, metadata.sequenceNumber + .ofNat op.2⟩})] s
      { s with
        log := s.log.logOtherModification metadata.sourceAccount
          (metadata.sequenceNumber + .ofNat op.2) account } := by
    intro account
    refine log_makes (logEntries_valueInsert s.log account fun l => ?_)
    rw [AccountModificationTxList.entry, ← Multiset.coe_add]
    simp [AccountModificationTxList.entry]
  unfold operationLogUpdates logOperation
  cases op.1 with
  | CREATE_ACCOUNT op => exact hother op.newAccountId
  | PAYMENT op => exact hother op.receiver
  | _ => exact .refl s

theorem logModifiedAccounts_makes (s : Running) (tx : SignedTransaction) :
    Makes rest (logUpdates tx) s { s with log := logModifiedAccounts tx s.log } := by
  have hself : Makes rest [.log tx.transaction.metadata.sourceAccount ({tx}, 0, 0)] s
      { s with log := s.log.logNewSelfTransaction tx } := by
    refine log_makes (logEntries_valueInsert s.log _ fun l => ?_)
    rw [AccountModificationTxList.entry, ← Multiset.coe_add]
    simp [AccountModificationTxList.entry]
  refine hself.trans ?_
  unfold logModifiedAccounts
  generalize tx.transaction.operations.zipIdx = ops
  generalize s.log.logNewSelfTransaction tx = log
  induction ops generalizing log with
  | nil => exact .refl _
  | cons op ops ih =>
    rw [List.map_cons, List.flatten_cons, List.foldl_cons]
    exact (logOperation_makes { s with log := log } _ op).trans (ih _)

/-- The state of a validator between transactions as one of a validator at work. -/
def idle (s : ValidatorState) (v : AccountCreationView) : Running :=
  ⟨s.db, s.books, s.manager, ⟨v⟩, s.log⟩

def blockState (s : ValidatorState) (rest : Produced) : BlockState :=
  .of s.db s.books s.log (rest + s.manager.produced)

def context (s : ValidatorState) : BlockContext := .of s.db s.books s.manager.clearingCommitment

/-- The state after the sequence number of a transaction has been reserved. -/
def reserved (s : ValidatorState) (sourceIdx : Nat) (n : UInt64) : Running :=
  ⟨s.db.reserveAt sourceIdx n, s.books, s.manager, ⟨⟨[], [⟨sourceIdx, n⟩]⟩⟩, s.log⟩

/-- The state after the fee has been paid. -/
def paid (s : ValidatorState) (sourceIdx : Nat) (tx : Transaction) : Running :=
  ((s.reserved sourceIdx tx.metadata.sequenceNumber).transferAvailable (.main sourceIdx)
    MemoryDatabase.nativeAsset (-.ofNat (feeRequired tx.operations.length))).2

/-- The state after the operations, when the transaction succeeds. -/
def concluded (run : Running) (tx : SignedTransaction) : ValidatorState where
  db := run.view.commit run.db
  books := run.books
  manager := run.manager
  log := logModifiedAccounts tx run.log

/-- The checks that a transaction passes before it changes anything. -/
structure Accepts (config : SignatureConfig) (s : ValidatorState) (signedTx : SignedTransaction)
    (sourceIdx : Nat) (source : UserAccount) : Prop where
  format : checkTxFormatParameters signedTx.transaction = true
  user : s.db.lookupUser signedTx.transaction.metadata.sourceAccount = some sourceIdx
  fee : ¬ feeRequired signedTx.transaction.operations.length > signedTx.transaction.maxFee.toNat
  account : s.db.database[sourceIdx]? = some source
  signature : ¬ (config.checkSigs &&
    !config.sigCheck signedTx.transaction signedTx.signature source.pk) = true

theorem reserveSequenceNumber_empty {db : MemoryDatabase} {idx : Nat} {u : UserAccount}
    (hu : db.database[idx]? = some u) (n : UInt64) :
    AccountCreationView.empty.reserveSequenceNumber db idx n =
      .ok ((u.seqTracker.reserveSequenceNumber n).1, db.reserveAt idx n,
        if (u.seqTracker.reserveSequenceNumber n).1 = .SUCCESS then ⟨[], [⟨idx, n⟩]⟩
        else .empty) := by
  have hreserve : db.reserveSequenceNumber idx n =
      .ok ((u.seqTracker.reserveSequenceNumber n).1, db.reserveAt idx n) := by
    rw [MemoryDatabase.reserveSequenceNumber, hu]
    rfl
  unfold AccountCreationView.reserveSequenceNumber
  rw [hreserve, ok_bind]
  dsimp only
  split_ifs <;> rfl

/-- What it takes for a transaction to validate. -/
theorem validateTransaction_eq_ok {s s' : ValidatorState} {tx : SignedTransaction} :
    s.validateTransaction config tx = .ok (true, s') ↔ ∃ sourceIdx source n run,
      Accepts config s tx sourceIdx source ∧
      (source.seqTracker.reserveSequenceNumber tx.transaction.metadata.sequenceNumber).1 =
        .SUCCESS ∧
      processOperations tx.transaction.metadata sourceIdx 0 tx.transaction.operations
        (s.paid sourceIdx tx.transaction) = .ok (.SUCCESS, n, run) ∧
      s' = concluded run tx := by
  constructor
  · intro h
    unfold validateTransaction at h
    dsimp only at h
    split at h
    · cases h
    rename_i hformat
    split at h
    · cases h
    rename_i sourceIdx huser
    split at h
    · cases h
    rename_i hfee
    obtain ⟨source, hsource, h⟩ := bind_eq_ok.mp h
    have haccount := vectorAt_eq_ok.mp hsource
    split at h
    · cases h
    rename_i hsignature
    rw [reserveSequenceNumber_empty haccount, ok_bind] at h
    dsimp only at h
    by_cases hreserved : (source.seqTracker.reserveSequenceNumber
        tx.transaction.metadata.sequenceNumber).1 = .SUCCESS
    · rw [if_neg (not_not.mpr hreserved), if_pos hreserved,
        if_neg (not_not.mpr (transferAvailable_succeeds ..))] at h
      obtain ⟨⟨status, n, run⟩, hops, h⟩ := bind_eq_ok.mp h
      dsimp only at h
      split at h
      · cases h
      rename_i hstatus
      cases h
      rw [not_not] at hstatus
      subst hstatus
      exact ⟨sourceIdx, source, n, run, ⟨by simpa using hformat, huser, hfee, haccount, hsignature⟩,
        hreserved, hops, rfl⟩
    · rw [if_pos hreserved] at h
      cases h
  · rintro ⟨sourceIdx, source, n, run, haccepts, hreserved, hops, rfl⟩
    unfold validateTransaction
    dsimp only
    rw [if_neg (by simp [haccepts.format]), haccepts.user]
    dsimp only
    rw [if_neg haccepts.fee, vectorAt_eq_ok.mpr haccepts.account, ok_bind,
      if_neg haccepts.signature, reserveSequenceNumber_empty haccepts.account, ok_bind]
    dsimp only
    rw [if_neg (not_not.mpr hreserved), if_pos hreserved,
      if_neg (not_not.mpr (transferAvailable_succeeds ..))]
    exact bind_eq_ok.mpr ⟨_, hops, if_neg (not_not.mpr rfl)⟩

variable (rest) in
/-- Reserving the sequence number and paying the fee. -/
theorem paid_makes {s : ValidatorState} {tx : SignedTransaction} {sourceIdx : Nat}
    {source : UserAccount} (haccepts : Accepts config s tx sourceIdx source)
    (hreserved : (source.seqTracker.reserveSequenceNumber
      tx.transaction.metadata.sequenceNumber).1 = .SUCCESS) :
    Makes rest [.reserve sourceIdx tx.transaction.metadata.sequenceNumber,
        .transfer sourceIdx MemoryDatabase.nativeAsset
          (-.ofNat (feeRequired tx.transaction.operations.length))]
      (s.idle .empty) (s.paid sourceIdx tx.transaction) := by
  have hreserve : Makes rest [.reserve sourceIdx tx.transaction.metadata.sequenceNumber]
      (s.idle .empty) (s.reserved sourceIdx tx.transaction.metadata.sequenceNumber) := by
    refine ⟨BlockState.updates.run_singleton.mpr ⟨BlockState.allowed_reserve.mpr
      ⟨?_, source, haccepts.account, hreserved⟩, rfl⟩, rfl, rfl, rfl⟩
    exact of_decide_eq_true haccepts.format
  exact hreserve.trans (makes_transferAvailable ..)

/-- What it takes for a transaction to stand for updates. -/
theorem transactionUpdates_eq_some {s : ValidatorState} {tx : SignedTransaction} :
    transactionUpdates config s.context tx = some us ↔ ∃ sourceIdx source opUpdates v,
      Accepts config s tx sourceIdx source ∧
      operationsUpdates s.context tx.transaction.metadata sourceIdx 0 tx.transaction.operations
        ⟨[], [⟨sourceIdx, tx.transaction.metadata.sequenceNumber⟩]⟩ = some (opUpdates, v) ∧
      us = [.reserve sourceIdx tx.transaction.metadata.sequenceNumber,
        .transfer sourceIdx MemoryDatabase.nativeAsset
          (-.ofNat (feeRequired tx.transaction.operations.length))] ++ opUpdates ++
            v.newAccounts.map (fun a => .create a.2) ++ logUpdates tx := by
  have hids : s.context.ids.find? tx.transaction.metadata.sourceAccount =
      s.db.lookupUser tx.transaction.metadata.sourceAccount := rfl
  have hkeys : ∀ idx, s.context.publicKeys[idx]? = s.db.database[idx]?.map UserAccount.pk :=
    fun idx => List.getElem?_map
  unfold transactionUpdates
  dsimp only
  rw [hids]
  constructor
  · intro h
    split at h
    · cases h
    rename_i hformat
    obtain ⟨sourceIdx, huser, h⟩ := Option.bind_eq_some_iff.mp h
    split at h
    · cases h
    rename_i hfee
    obtain ⟨pk, hpk, h⟩ := Option.bind_eq_some_iff.mp h
    rw [hkeys] at hpk
    obtain ⟨source, haccount, rfl⟩ := Option.map_eq_some_iff.mp hpk
    split_ifs at h with hsignature
    obtain ⟨⟨opUpdates, v⟩, hops, h⟩ := Option.bind_eq_some_iff.mp h
    cases h
    exact ⟨sourceIdx, source, opUpdates, v,
      ⟨by simpa using hformat, huser, hfee, haccount, hsignature⟩, hops, rfl⟩
  · rintro ⟨sourceIdx, source, opUpdates, v, haccepts, hops, rfl⟩
    rw [if_neg (by simp [haccepts.format])]
    refine Option.bind_eq_some_iff.mpr ⟨sourceIdx, haccepts.user, ?_⟩
    rw [if_neg haccepts.fee]
    refine Option.bind_eq_some_iff.mpr ⟨source.pk, ?_, ?_⟩
    · rw [hkeys, haccepts.account]
      rfl
    · rw [if_neg haccepts.signature]
      exact Option.bind_eq_some_iff.mpr ⟨_, hops, rfl⟩

/-- Before the operations of a transaction. -/
theorem Accepts.working {s : ValidatorState} {tx : SignedTransaction} {sourceIdx : Nat}
    {source : UserAccount} (haccepts : Accepts config s tx sourceIdx source)
    (hreserved : (source.seqTracker.reserveSequenceNumber
      tx.transaction.metadata.sequenceNumber).1 = .SUCCESS)
    (hnumbered : (s.blockState rest).Numbered s.db.userIdToIdxMap BlockState.upToAll) :
    Working rest tx.transaction.metadata sourceIdx 0 (s.paid sourceIdx tx.transaction) := by
  have hmakes := paid_makes rest haccepts hreserved
  have hfree : ¬ (s.blockState rest).InUse sourceIdx tx.transaction.metadata.sequenceNumber := by
    rintro ⟨u, hu, hused⟩
    cases haccepts.account.symm.trans hu
    cases hreserved.symm.trans hused
  have hnone : addedOffers [.reserve sourceIdx tx.transaction.metadata.sequenceNumber,
      .transfer sourceIdx MemoryDatabase.nativeAsset
        (-.ofNat (feeRequired tx.transaction.operations.length))] = 0 := by
    simp [Update.newOffers]
  refine ⟨of_decide_eq_true haccepts.format, haccepts.user, BlockState.inUse_of_run hmakes.run, ?_⟩
  have hstart := (hnumbered.start haccepts.user hfree).run hmakes.run hnone
  exact hstart

/-- A transaction that validates makes the updates that it stands for. -/
theorem validateTransaction_makes {s s' : ValidatorState} {tx : SignedTransaction}
    (hnumbered : (s.blockState rest).Numbered s.db.userIdToIdxMap BlockState.upToAll)
    (h : s.validateTransaction config tx = .ok (true, s')) :
    (∃ us, transactionUpdates config s.context tx = some us ∧
      Makes rest us (s.idle .empty) (s'.idle .empty)) ∧
    (s'.blockState rest).Numbered s'.db.userIdToIdxMap BlockState.upToAll := by
  obtain ⟨sourceIdx, source, n, run, haccepts, hreserved, hops, rfl⟩ :=
    validateTransaction_eq_ok.mp h
  have hpaid := paid_makes rest haccepts hreserved
  have hwork := haccepts.working hreserved hnumbered
  have hlength : 0 + tx.transaction.operations.length ≤ maxOpsPerTx := by
    rw [Nat.zero_add]
    exact tx.transaction.operations_le
  obtain ⟨⟨us, hus, hmakes⟩, hdone⟩ := processOperations_makes hwork hlength hops
  rw [hpaid.context] at hus
  have hcommitted := (hpaid.trans hmakes).trans (commit_makes rest run)
  have hlogged := hcommitted.trans (logModifiedAccounts_makes _ tx)
  refine ⟨⟨_, ?_, ⟨hlogged.run, hlogged.db, hlogged.books, hlogged.checker⟩⟩, ?_⟩
  · exact transactionUpdates_eq_some.mpr ⟨sourceIdx, source, us, _, haccepts, hus, rfl⟩
  · have hfinal := (commit_makes rest run).trans (logModifiedAccounts_makes _ tx)
    have hids : (concluded run tx).db.userIdToIdxMap = run.db.userIdToIdxMap :=
      congrArg BlockContext.ids hfinal.context
    have hnone : addedOffers ((run.view.newAccounts.map fun a => .create a.2) ++ logUpdates tx) =
        0 := by
      rw [addedOffers_append, addedOffers_creates, addedOffers_logUpdates, add_zero]
    have hnumbered' := (hdone.numbered.mono (BlockState.upTo_le hlength)).run hfinal.run hnone
    rw [hids]
    exact hnumbered'

theorem validateTransaction_succeeds {s : ValidatorState} {tx : SignedTransaction}
    (hnumbered : (s.blockState rest).Numbered s.db.userIdToIdxMap BlockState.upToAll)
    (h : transactionUpdates config s.context tx = some us) {a : BlockState}
    (hrun : BlockState.updates.run (s.blockState rest) us = some a) :
    ∃ s', s.validateTransaction config tx = .ok (true, s') := by
  obtain ⟨sourceIdx, source, us, v, haccepts, hus, rfl⟩ := transactionUpdates_eq_some.mp h
  obtain ⟨a₁, hops, -⟩ := BlockState.updates.run_append_eq_some.mp hrun
  obtain ⟨a₂, hops, -⟩ := BlockState.updates.run_append_eq_some.mp hops
  obtain ⟨a₃, hfirst, hops⟩ := BlockState.updates.run_append_eq_some.mp hops
  have hreserved : (source.seqTracker.reserveSequenceNumber
      tx.transaction.metadata.sequenceNumber).1 = .SUCCESS := by
    obtain ⟨hallowed, -, -⟩ := BlockState.updates.run_eq_some.mp hfirst
    obtain ⟨-, u, hu, hfree⟩ := BlockState.allowed_reserve.mp (hallowed _ List.mem_cons_self)
    cases haccepts.account.symm.trans hu
    exact hfree
  have hpaid := paid_makes rest haccepts hreserved
  have hwork := haccepts.working hreserved hnumbered
  have hlength : 0 + tx.transaction.operations.length ≤ maxOpsPerTx := by
    rw [Nat.zero_add]
    exact tx.transaction.operations_le
  cases hpaid.run.symm.trans hfirst
  have hcontext : (s.paid sourceIdx tx.transaction).context = s.context := hpaid.context
  rw [← hcontext] at hus
  obtain ⟨n, run, hdone⟩ := processOperations_succeeds hwork hlength hus hops
  exact ⟨_, validateTransaction_eq_ok.mpr ⟨sourceIdx, source, n, run, haccepts, hreserved, hdone, rfl⟩⟩

end Transactions

end ValidatorState

end Speedex
