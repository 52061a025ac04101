import Speedex.Vm.SpeedexVm
import Speedex.BlockProcessing.Effects
import Speedex.Database.Committed
import Speedex.Orderbook.Executions

/-! The numbers of the account creation thunks.  `commit_new_accounts` wants the number of the last
thunk, or of the persisted round, to be one below the block's.  A block that is rejected before its
own `commit_new_accounts` leaves no thunk, but counts. -/

namespace Speedex

open Lib

/-! ### What leaves the rounds alone -/

namespace MemoryDatabase

variable {db db' : MemoryDatabase}

theorem Applies.sameRounds (h : db.Applies db') : db.SameRounds db' := by
  obtain ⟨ops, hops⟩ := h
  exact .foldlM (fun _ _ _ hstep => sameRounds_apply hstep) hops

/-- Committing new accounts fails on the block number exactly when the thunks are not in order. -/
theorem commitNewAccounts_numberError {n : UInt64} :
    db.commitNewAccounts n = .error (.runtimeError "account creation thunks block number error") ↔
      db.creationThunkInOrder n = false := by
  unfold commitNewAccounts
  cases horder : db.creationThunkInOrder n with
  | false => simp
  | true =>
    simp only [Bool.not_true, Bool.false_eq_true, if_false, Bool.true_eq_false, iff_false]
    intro herror
    cases hfold : db.uncommittedDb.foldlM commitNewAccount db with
    | ok db₁ => simp [hfold, pure, Except.pure] at herror
    | error e =>
      rw [hfold, error_bind] at herror
      cases herror
      obtain ⟨d, u, -, hu⟩ := foldlM_eq_error hfold
      rcases bind_eq_error.mp hu with hu | ⟨c, -, hu⟩
      · unfold UserAccount.produceCommitment at hu
        split at hu <;> cases hu
      · cases hu

end MemoryDatabase

/-! ### The two parts of a validation -/

namespace ManagementStructures

variable {hashes : Hashes} {m : ManagementStructures} {prevBlock nextBlock : HashedBlock}
  {choices : Choices} {outcome : ValidationOutcome} {t : BlockValidation}

/-- What the transactions of a block lead to, if the block passes all checks up to
`commit_new_accounts`. -/
def passTransactions (m : ManagementStructures) (prevBlock nextBlock : HashedBlock)
    (choices : Choices) : Option BlockValidation :=
  if !m.headerValid prevBlock nextBlock then none
  else match (commitmentChecker nextBlock).checkClearing with
    | .ok true =>
      match validateTransactionBlock m.config (commitmentChecker nextBlock) m.db m.orderbookManager
        m.accountModificationLog
        (ValidationStatistics.makeMinimumSize [] m.orderbookManager.getNumOrderbooks)
        choices.schedule with
      | .ok (true, t) => some t
      | _ => none
    | _ => none

theorem passTransactions_eq_some (h : m.passTransactions prevBlock nextBlock choices = some t) :
    m.headerValid prevBlock nextBlock = true ∧ (commitmentChecker nextBlock).checkClearing = .ok true ∧
      validateTransactionBlock m.config (commitmentChecker nextBlock) m.db m.orderbookManager
        m.accountModificationLog
        (ValidationStatistics.makeMinimumSize [] m.orderbookManager.getNumOrderbooks)
        choices.schedule = .ok (true, t) := by
  unfold passTransactions at h
  split at h
  · cases h
  rename_i hheader
  split at h
  · rename_i hclearing
    split at h
    · rename_i hblock
      cases h
      exact ⟨by simpa using hheader, hclearing, hblock⟩
    · cases h
  · cases h

/-- A block that passes its transactions goes on to the clearing. -/
theorem blockValidationLogic_of_pass
    (h : m.passTransactions prevBlock nextBlock choices = some t) :
    m.blockValidationLogic hashes prevBlock nextBlock choices =
      m.validateClearing hashes prevBlock nextBlock choices t := by
  obtain ⟨hheader, hclearing, hblock⟩ := passTransactions_eq_some h
  simp [blockValidationLogic, hheader, hclearing, hblock]

/-- A block that does not pass is rejected, and has not touched the rounds. -/
theorem blockValidationLogic_of_none
    (h : m.passTransactions prevBlock nextBlock choices = none)
    (hlogic : m.blockValidationLogic hashes prevBlock nextBlock choices = .ok outcome) :
    outcome.verdict = false ∧ m.db.SameRounds outcome.structures.db := by
  unfold blockValidationLogic at hlogic
  split at hlogic
  · cases hlogic
    exact ⟨rfl, .refl m.db⟩
  rename_i hheader
  obtain ⟨res, hclearing, hlogic⟩ := bind_eq_ok.mp hlogic
  split at hlogic
  · cases hlogic
    exact ⟨rfl, .refl m.db⟩
  rename_i hres
  obtain ⟨⟨valid, t⟩, hblock, hlogic⟩ := bind_eq_ok.mp hlogic
  dsimp only at hlogic
  split at hlogic
  · cases hlogic
    exact ⟨rfl, (validateTransactionBlock_applies hblock).sameRounds⟩
  · rename_i hvalid
    simp only [Bool.not_eq_true', Bool.not_eq_false] at hheader hres hvalid
    subst hres hvalid
    simp [passTransactions, hheader, hclearing, hblock] at h

/-- A block that comes to `commit_new_accounts` adds its thunk, whatever becomes of it. -/
theorem validateClearing_rounds
    (h : m.validateClearing hashes prevBlock nextBlock choices t = .ok outcome)
    (hthunks : ∀ thunk ∈ t.db.accountCreationThunks,
      thunk.currentBlockNumber ≤ prevBlock.block.blockNumber + 1) :
    ∃ k, outcome.structures.db.accountCreationThunks =
        t.db.accountCreationThunks ++ [⟨prevBlock.block.blockNumber + 1, k⟩] ∧
      outcome.structures.db.minPersistedRoundNumber = t.db.minPersistedRoundNumber := by
  obtain ⟨a, hcommit, h⟩ := bind_eq_ok.mp h
  obtain ⟨db₁, hdb₁, hcommit⟩ := bind_eq_ok.mp hcommit
  cases hcommit
  obtain ⟨books, -, h⟩ := bind_eq_ok.mp h
  obtain ⟨⟨cleared, c⟩, hclear, h⟩ := bind_eq_ok.mp h
  have hc : db₁.SameRounds c.state.db :=
    TentativeClearing.clearRanges_invariant (P := fun s => db₁.SameRounds s.db)
      (fun _ _ hs => hs) (fun s idx e _ hs => ⟨hs.thunks, hs.persisted⟩) hclear (.refl db₁)
  have hthunks₁ := hc.thunks.trans (MemoryDatabase.commitNewAccounts_thunks hdb₁)
  have hpersisted₁ := hc.persisted.trans (MemoryDatabase.commitNewAccounts_persisted hdb₁)
  refine ⟨t.db.uncommittedDb.length, ?_⟩
  dsimp only at h
  split at h
  · obtain ⟨books', -, h⟩ := bind_eq_ok.mp h
    obtain ⟨db, hdestroy, h⟩ := bind_eq_ok.mp h
    cases h
    simp only [DatabaseAutoRollback.destroy, DatabaseAutoRollback.new, if_true, Bool.false_eq_true,
      if_false, Except.ok.injEq] at hdestroy
    subst hdestroy
    refine ⟨?_, ?_⟩
    · show (c.state.db.rollbackNewAccounts _).accountCreationThunks = _
      rw [MemoryDatabase.rollbackNewAccounts_thunks, hthunks₁]
      refine List.filter_eq_self.mpr fun thunk hthunk => ?_
      rcases List.mem_append.mp hthunk with hthunk | hthunk
      · exact decide_eq_true (hthunks thunk hthunk)
      · cases List.mem_singleton.mp hthunk
        exact decide_eq_true le_rfl
    · show (c.state.db.rollbackNewAccounts _).minPersistedRoundNumber = _
      rw [MemoryDatabase.rollbackNewAccounts_persisted, hpersisted₁]
      rfl
  · obtain ⟨a₁, htrie, h⟩ := bind_eq_ok.mp h
    obtain ⟨db₂, hdb₂, htrie⟩ := bind_eq_ok.mp htrie
    cases htrie
    split at h
    · cases h
    obtain ⟨a₂, hfinal, h⟩ := bind_eq_ok.mp h
    obtain ⟨books', -, h⟩ := bind_eq_ok.mp h
    obtain ⟨db, hdestroy, h⟩ := bind_eq_ok.mp h
    cases h
    simp only [DatabaseAutoRollback.finalizeCommit, DatabaseAutoRollback.new, Bool.not_true,
      Bool.or_self, Bool.false_eq_true, if_false] at hfinal
    obtain ⟨db₃, hdb₃, hfinal⟩ := bind_eq_ok.mp hfinal
    cases hfinal
    cases hdestroy
    have hrounds := (MemoryDatabase.sameRounds_modifyCommitments hdb₂).trans
      (MemoryDatabase.sameRounds_commitValues hdb₃)
    exact ⟨hrounds.thunks.trans hthunks₁, hrounds.persisted.trans hpersisted₁⟩

end ManagementStructures

/-! ### Runs -/

namespace SpeedexVm

variable {hashes : VmHashes} {vm vm₀ vm₁ vm' : SpeedexVm} {nextBlock : HashedBlock}
  {choices : Choices} {t : BlockValidation} {skipped : Bool}

/-- What the transactions of the next block lead to, if it comes to `commit_new_accounts`. -/
def passTransactions (vm : SpeedexVm) (nextBlock : HashedBlock) (choices : Choices) :
    Option BlockValidation :=
  vm.structures.passTransactions vm.lastCommittedBlock nextBlock choices

/-- `exec_block` from `commit_new_accounts` on. -/
def finishBlock (hashes : VmHashes) (vm : SpeedexVm) (nextBlock : HashedBlock) (choices : Choices)
    (t : BlockValidation) : Result SpeedexVm := do
  let outcome ← vm.structures.validateClearing hashes.toHashes vm.lastCommittedBlock nextBlock choices
    { t with db := vm.structures.db }
  vm.concludeBlock hashes nextBlock outcome

/-- The number of a block is one more than that of the last. -/
def Follows (nextBlock : HashedBlock) (vm : SpeedexVm) : Prop :=
  nextBlock.block.blockNumber.toNat = vm.height.toNat + 1

/-- The runs of `exec_block` over headers with consecutive numbers, in which the background thread
takes its steps at any time, also between the transactions of a block and its
`commit_new_accounts`.  The flag tells whether the last block was rejected before that. -/
inductive Run (hashes : VmHashes) (vm₀ : SpeedexVm) : SpeedexVm → Bool → Prop where
  | start : Run hashes vm₀ vm₀ false
  | skip {vm vm' : SpeedexVm} {skipped : Bool} {nextBlock : HashedBlock} {choices : Choices}
    (hrun : Run hashes vm₀ vm skipped) (hfollows : Follows nextBlock vm)
    (hpass : vm.passTransactions nextBlock choices = none)
    (hexec : vm.execBlock hashes nextBlock choices = .ok vm') : Run hashes vm₀ vm' true
  | commit {vm vm₁ vm' : SpeedexVm} {skipped : Bool} {nextBlock : HashedBlock} {choices : Choices}
    {t : BlockValidation} (hrun : Run hashes vm₀ vm skipped) (hfollows : Follows nextBlock vm)
    (hpass : vm.passTransactions nextBlock choices = some t)
    (hpersists : Persists (vm.withDb t.db) vm₁)
    (hfinish : vm₁.finishBlock hashes nextBlock choices t = .ok vm') : Run hashes vm₀ vm' false
  | persist {vm vm' : SpeedexVm} {skipped : Bool} (hrun : Run hashes vm₀ vm skipped)
    (hstep : PersistStep vm vm') : Run hashes vm₀ vm' skipped

theorem Run.persists (hrun : Run hashes vm₀ vm skipped) (h : Persists vm vm') :
    Run hashes vm₀ vm' skipped := by
  induction h with
  | refl => exact hrun
  | tail _ hstep ih => exact .persist ih hstep

/-- Transactions that workers have processed for a proposal, each worker with its own new offers. -/
inductive Produces : ManagementStructures → ManagementStructures → Prop where
  | refl (m : ManagementStructures) : Produces m m
  | step {m m₁ : ManagementStructures} {manager : ProcessingSerialManager} {tx : SignedTransaction}
    {status : TransactionProcessingStatus} {s : ProcessorState} (hrest : Produces m m₁)
    (hprocess : ProcessorState.processTransaction m₁.config
      ⟨m₁.db, m₁.orderbookManager, manager, m₁.accountModificationLog.cache⟩ tx = .ok (status, s)) :
    Produces m { m₁ with
      db := s.db
      orderbookManager := s.books
      accountModificationLog := { m₁.accountModificationLog with cache := s.log } }

/-- The node is about to call `commit_new_accounts` for a block, which it validates or which it
proposes. -/
inductive BeforeCommit (vm : SpeedexVm) : UInt64 → SpeedexVm → Prop where
  | validate {nextBlock : HashedBlock} {choices : Choices} {t : BlockValidation} {vm' : SpeedexVm}
    (hfollows : Follows nextBlock vm) (hpass : vm.passTransactions nextBlock choices = some t)
    (hpersists : Persists (vm.withDb t.db) vm') : BeforeCommit vm (vm.height + 1) vm'
  | propose {m : ManagementStructures} {vm' : SpeedexVm} (hproduces : Produces vm.structures m)
    (hnumber : vm.proposalBaseBlock.block.blockNumber.toNat + 1 < 2 ^ 64)
    (hpersists : Persists { vm with structures := m } vm') :
    BeforeCommit vm (vm.proposalBaseBlock.block.blockNumber + 1) vm'

/-- The numbers of the thunks and of the blocks, in a run. -/
structure InOrder (vm : SpeedexVm) (skipped : Bool) : Prop where
  thunks : ∀ thunk ∈ vm.structures.db.accountCreationThunks, thunk.currentBlockNumber ≤ vm.height
  persisted : vm.structures.db.minPersistedRoundNumber ≤ vm.height
  /-- the last block has no thunk -/
  missing : skipped = true → ∀ thunk ∈ vm.structures.db.accountCreationThunks,
    thunk.currentBlockNumber < vm.height
  /-- the last block has the last thunk -/
  last : skipped = false → ∀ thunk, vm.structures.db.accountCreationThunks.getLast? = some thunk →
    thunk.currentBlockNumber = vm.height
  /-- or it is on disk -/
  onDisk : skipped = false → vm.structures.db.accountCreationThunks = [] →
    vm.structures.db.minPersistedRoundNumber = vm.height
  gathered : ∀ n thunks, vm.persister = .gathered n thunks → n ≤ vm.height
  written : ∀ n, vm.persister = .written n → n ≤ vm.structures.db.minPersistedRoundNumber
  base : vm.proposalBaseBlock.block.blockNumber = vm.height

/-- Nothing waits to be persisted. -/
structure AtRest (vm : SpeedexVm) : Prop where
  thunks : vm.structures.db.accountCreationThunks = []
  persisted : vm.structures.db.minPersistedRoundNumber = vm.height
  persister : vm.persister = .idle
  base : vm.proposalBaseBlock = vm.lastCommittedBlock

theorem AtRest.inOrder (h : vm.AtRest) : vm.InOrder false where
  thunks thunk hthunk := by simp [h.thunks] at hthunk
  persisted := h.persisted.le
  missing := nofun
  last _ thunk hthunk := by simp [h.thunks] at hthunk
  onDisk _ _ := h.persisted
  gathered n thunks hgathered := by simp [h.persister] at hgathered
  written n hwritten := by simp [h.persister] at hwritten
  base := by rw [h.base]; rfl

/-- The structures have changed, but not the rounds. -/
theorem InOrder.withStructures (h : vm.InOrder skipped) {m : ManagementStructures}
    (hrounds : vm.structures.db.SameRounds m.db) : InOrder { vm with structures := m } skipped where
  thunks := by rw [hrounds.thunks]; exact h.thunks
  persisted := by rw [hrounds.persisted]; exact h.persisted
  missing := by rw [hrounds.thunks]; exact h.missing
  last := by rw [hrounds.thunks]; exact h.last
  onDisk := by rw [hrounds.thunks, hrounds.persisted]; exact h.onDisk
  gathered := h.gathered
  written := by rw [hrounds.persisted]; exact h.written
  base := h.base

/-! ### The background thread -/

theorem persistThunks_rounds {s s' : AccountStore} {thunks : List DBPersistenceThunk} {n : UInt64}
    (h : s.persistThunks thunks n = .ok s') :
    s'.db.accountCreationThunks = s.db.accountCreationThunks ∧
      s'.db.minPersistedRoundNumber = max s.db.minPersistedRoundNumber n := by
  obtain ⟨⟨lmdb, number⟩, -, h⟩ := bind_eq_ok.mp h
  dsimp only at h
  split at h
  · cases h
  · cases h
    exact ⟨rfl, rfl⟩

/-- The thunks above `m`, where the last thunk has the highest number. -/
theorem filter_last {l : List AccountCreationThunk} {m height : UInt64}
    (hlast : ∀ thunk, l.getLast? = some thunk → thunk.currentBlockNumber = height)
    (hle : ∀ thunk ∈ l, thunk.currentBlockNumber ≤ height) :
    (∀ thunk, (l.filter (m < ·.currentBlockNumber)).getLast? = some thunk →
        thunk.currentBlockNumber = height) ∧
      (l.filter (m < ·.currentBlockNumber) = [] → l = [] ∨ height ≤ m) := by
  rcases List.eq_nil_or_concat l with rfl | ⟨init, top, rfl⟩
  · exact ⟨nofun, fun _ => .inl rfl⟩
  rw [List.concat_eq_append] at hlast hle ⊢
  have htop : top.currentBlockNumber = height := hlast top (by simp)
  by_cases hm : m < height
  · have hfilter : (init ++ [top]).filter (m < ·.currentBlockNumber) =
        init.filter (m < ·.currentBlockNumber) ++ [top] := by
      simp [List.filter_append, htop, hm]
    rw [hfilter]
    refine ⟨fun thunk hthunk => ?_, fun hnil => absurd hnil (by simp)⟩
    rw [List.getLast?_concat] at hthunk
    cases hthunk
    exact htop
  · have hfilter : (init ++ [top]).filter (m < ·.currentBlockNumber) = [] := by
      refine List.filter_eq_nil_iff.mpr fun thunk hthunk => ?_
      have := hle thunk hthunk
      simpa using this.trans (not_lt.mp hm)
    rw [hfilter]
    exact ⟨nofun, fun _ => .inr (not_lt.mp hm)⟩

theorem PersistStep.height_eq (h : PersistStep vm vm') : vm'.height = vm.height := by
  cases h <;> rfl

theorem PersistStep.inOrder (h : PersistStep vm vm') (hvm : vm.InOrder skipped) :
    vm'.InOrder skipped := by
  cases h with
  | gather hidle hcommitted =>
    refine ⟨hvm.thunks, hvm.persisted, hvm.missing, hvm.last, hvm.onDisk, ?_, nofun, hvm.base⟩
    rintro n thunks hgathered
    cases hgathered
    exact hcommitted
  | @write m _ s hgathered hwrite =>
    obtain ⟨hthunks, hmin⟩ := persistThunks_rounds hwrite
    have hm := hvm.gathered _ _ hgathered
    refine ⟨?_, ?_, ?_, ?_, ?_, nofun, ?_, hvm.base⟩
    · show ∀ thunk ∈ s.db.accountCreationThunks, _
      rw [hthunks]
      exact hvm.thunks
    · show s.db.minPersistedRoundNumber ≤ _
      rw [hmin]
      exact max_le hvm.persisted hm
    · show _ → ∀ thunk ∈ s.db.accountCreationThunks, _
      rw [hthunks]
      exact hvm.missing
    · show _ → ∀ thunk, s.db.accountCreationThunks.getLast? = some thunk → _
      rw [hthunks]
      exact hvm.last
    · show _ → s.db.accountCreationThunks = [] → s.db.minPersistedRoundNumber = _
      rw [hthunks, hmin]
      intro hskipped hnone
      have honDisk := hvm.onDisk hskipped hnone
      exact (congrArg (max · m) honDisk).trans (max_eq_left hm)
    · show ∀ n, _ → n ≤ s.db.minPersistedRoundNumber
      rw [hmin]
      rintro n hwritten
      cases hwritten
      exact le_max_right _ _
  | @clear m hwritten =>
    have hm := hvm.written _ hwritten
    have hsub : ∀ thunk ∈ vm.structures.db.accountCreationThunks.filter (m < ·.currentBlockNumber),
        thunk ∈ vm.structures.db.accountCreationThunks := fun thunk hthunk =>
      (List.mem_filter.mp hthunk).1
    refine ⟨fun thunk hthunk => hvm.thunks thunk (hsub thunk hthunk), hvm.persisted,
      fun hskipped thunk hthunk => hvm.missing hskipped thunk (hsub thunk hthunk),
      fun hskipped thunk hthunk => ?_, fun hskipped hnone => ?_, nofun, nofun, hvm.base⟩
    · exact (filter_last (hvm.last hskipped) hvm.thunks).1 thunk hthunk
    · rcases (filter_last (hvm.last hskipped) hvm.thunks).2 hnone with hnone | hle
      · exact hvm.onDisk hskipped hnone
      · exact le_antisymm hvm.persisted (hle.trans hm)

theorem Persists.height_eq (h : Persists vm vm') : vm'.height = vm.height := by
  induction h with
  | refl => rfl
  | tail _ hstep ih => exact hstep.height_eq.trans ih

theorem Persists.inOrder (h : Persists vm vm') (hvm : vm.InOrder skipped) : vm'.InOrder skipped := by
  induction h with
  | refl => exact hvm
  | tail _ hstep ih => exact hstep.inOrder ih

/-! ### Blocks -/

/-- What the end of `exec_block` does to the numbers. -/
structure Concluded (vm vm' : SpeedexVm) (outcome : ValidationOutcome) : Prop where
  db : vm'.structures.db = outcome.structures.db
  height : vm'.height = vm.height + 1
  persister : vm'.persister = vm.persister
  base : vm'.proposalBaseBlock.block.blockNumber =
    if vm.proposalBaseBlock.block.blockNumber < vm.height + 1 then vm.height + 1
    else vm.proposalBaseBlock.block.blockNumber

theorem persistCriticalRoundData_concluded {outcome : ValidationOutcome}
    (h : vm₁.persistCriticalRoundData nextBlock = .ok vm') (hvm₁ : Concluded vm vm₁ outcome) :
    Concluded vm vm' outcome := by
  obtain ⟨s, hs, h⟩ := bind_eq_ok.mp h
  obtain ⟨kvs, -, hs⟩ := bind_eq_ok.mp hs
  cases hs
  cases h
  exact ⟨hvm₁.db, hvm₁.height, hvm₁.persister, hvm₁.base⟩

theorem concludeBlock_concluded {outcome : ValidationOutcome}
    (h : vm.concludeBlock hashes nextBlock outcome = .ok vm') : Concluded vm vm' outcome := by
  obtain ⟨map, -, h⟩ := bind_eq_ok.mp h
  dsimp only at h
  generalize hvm₁ : (SpeedexVm.mk _ _ _ _ _ _ _ _) = vm₁ at h
  have hconcluded : Concluded vm vm₁ outcome := by
    subst hvm₁
    refine ⟨rfl, rfl, rfl, ?_⟩
    exact apply_ite (fun b : HashedBlock => b.block.blockNumber) _ _ _
  split at h
  · cases h
    exact hconcluded
  · exact persistCriticalRoundData_concluded h hconcluded

theorem Concluded.base_eq {outcome : ValidationOutcome} (h : Concluded vm vm' outcome)
    (hbase : vm.proposalBaseBlock.block.blockNumber = vm.height)
    (hnumber : vm.height.toNat + 1 < 2 ^ 64) :
    vm'.proposalBaseBlock.block.blockNumber = vm'.height := by
  have hlt : vm.height < vm.height + 1 := by
    rw [UInt64.lt_iff_toNat_lt, UInt64.toNat_add]
    have hone : UInt64.toNat 1 = 1 := rfl
    omega
  rw [h.base, h.height, hbase, if_pos hlt]

theorem Follows.height_lt (h : Follows nextBlock vm) : vm.height.toNat + 1 < 2 ^ 64 := by
  have := nextBlock.block.blockNumber.toNat_lt
  unfold Follows at h
  omega

theorem Follows.number_eq (h : Follows nextBlock vm) :
    vm.height + 1 = nextBlock.block.blockNumber := by
  rw [← UInt64.toNat_inj, UInt64.toNat_add, h]
  have := h.height_lt
  exact Nat.mod_eq_of_lt this

theorem lt_succ_of_le {n height : UInt64} (h : n ≤ height) (hlt : height.toNat + 1 < 2 ^ 64) :
    n < height + 1 := by
  rw [UInt64.le_iff_toNat_le] at h
  rw [UInt64.lt_iff_toNat_lt, UInt64.toNat_add]
  have hone : UInt64.toNat 1 = 1 := rfl
  omega

/-- A block that is rejected early leaves the thunks behind the height. -/
theorem InOrder.skip (hvm : vm.InOrder skipped) (hfollows : Follows nextBlock vm)
    (hpass : vm.passTransactions nextBlock choices = none)
    (hexec : vm.execBlock hashes nextBlock choices = .ok vm') : vm'.InOrder true := by
  unfold execBlock at hexec
  rw [if_neg (by simpa using hfollows.number_eq)] at hexec
  obtain ⟨outcome, hlogic, hexec⟩ := bind_eq_ok.mp hexec
  obtain ⟨-, hrounds⟩ := ManagementStructures.blockValidationLogic_of_none hpass hlogic
  have hconcluded := concludeBlock_concluded hexec
  have hlt := hfollows.height_lt
  have hthunks : ∀ thunk ∈ vm'.structures.db.accountCreationThunks,
      thunk.currentBlockNumber < vm'.height := by
    rw [hconcluded.db, hrounds.thunks, hconcluded.height]
    exact fun thunk hthunk => lt_succ_of_le (hvm.thunks thunk hthunk) hlt
  refine ⟨fun thunk hthunk => (hthunks thunk hthunk).le, ?_, fun _ => hthunks, nofun, nofun, ?_, ?_,
    hconcluded.base_eq hvm.base hlt⟩
  · rw [hconcluded.db, hrounds.persisted, hconcluded.height]
    exact (lt_succ_of_le hvm.persisted hlt).le
  · rw [hconcluded.persister, hconcluded.height]
    exact fun n thunks hn => (lt_succ_of_le (hvm.gathered n thunks hn) hlt).le
  · rw [hconcluded.persister, hconcluded.db, hrounds.persisted]
    exact hvm.written

/-- A block that comes to `commit_new_accounts` has the last thunk. -/
theorem InOrder.finish (hvm : vm.InOrder skipped) (hlt : vm.height.toNat + 1 < 2 ^ 64)
    (hfinish : vm.finishBlock hashes nextBlock choices t = .ok vm') : vm'.InOrder false := by
  obtain ⟨outcome, hclearing, hfinish⟩ := bind_eq_ok.mp hfinish
  have hle : ∀ thunk ∈ vm.structures.db.accountCreationThunks,
      thunk.currentBlockNumber ≤ vm.height + 1 :=
    fun thunk hthunk => (lt_succ_of_le (hvm.thunks thunk hthunk) hlt).le
  obtain ⟨k, hthunks, hpersisted⟩ := ManagementStructures.validateClearing_rounds hclearing hle
  dsimp only at hthunks hpersisted
  have hconcluded := concludeBlock_concluded hfinish
  refine ⟨?_, ?_, nofun, fun _ thunk hthunk => ?_, fun _ hnone => ?_, ?_, ?_,
    hconcluded.base_eq hvm.base hlt⟩
  · rw [hconcluded.db, hthunks, hconcluded.height]
    intro thunk hthunk
    rcases List.mem_append.mp hthunk with hthunk | hthunk
    · exact hle thunk hthunk
    · cases List.mem_singleton.mp hthunk
      exact le_rfl
  · rw [hconcluded.db, hpersisted, hconcluded.height]
    exact (lt_succ_of_le hvm.persisted hlt).le
  · rw [hconcluded.db, hthunks, List.getLast?_concat] at hthunk
    cases hthunk
    exact hconcluded.height.symm
  · rw [hconcluded.db, hthunks] at hnone
    simp at hnone
  · rw [hconcluded.persister, hconcluded.height]
    exact fun n thunks hn => (lt_succ_of_le (hvm.gathered n thunks hn) hlt).le
  · rw [hconcluded.persister, hconcluded.db, hpersisted]
    exact hvm.written

theorem passTransactions_sameRounds (h : vm.passTransactions nextBlock choices = some t) :
    vm.structures.db.SameRounds t.db :=
  (validateTransactionBlock_applies
    (ManagementStructures.passTransactions_eq_some h).2.2).sameRounds

theorem InOrder.withDb (hvm : vm.InOrder skipped)
    (hpass : vm.passTransactions nextBlock choices = some t) :
    (vm.withDb t.db).InOrder skipped :=
  hvm.withStructures (passTransactions_sameRounds hpass)

/-- The numbers are in order in every state of a run. -/
theorem Run.inOrder (h : Run hashes vm₀ vm skipped) (hrest : vm₀.AtRest) : vm.InOrder skipped := by
  induction h with
  | start => exact hrest.inOrder
  | skip _ hfollows hpass hexec ih => exact ih.skip hfollows hpass hexec
  | commit _ hfollows hpass hpersists hfinish ih =>
    have hvm₁ := hpersists.inOrder (ih.withDb hpass)
    have hheight := hpersists.height_eq
    exact hvm₁.finish (hheight ▸ hfollows.height_lt) hfinish
  | persist _ hstep ih => exact hstep.inOrder ih

theorem Produces.sameRounds {m m' : ManagementStructures} (h : Produces m m') :
    m.db.SameRounds m'.db := by
  induction h with
  | refl => exact .refl m.db
  | step _ hprocess ih =>
    exact ih.trans (ProcessorState.processTransaction_applies hprocess).sameRounds

/-- The thunks are in order for the next block exactly when the last block has left one, or
everything up to it is on disk. -/
theorem InOrder.creationThunkInOrder (hvm : vm.InOrder skipped)
    (hlt : vm.height.toNat + 1 < 2 ^ 64) :
    vm.structures.db.creationThunkInOrder (vm.height + 1) = true ↔
      (skipped = true → vm.structures.db.accountCreationThunks = [] ∧
        vm.structures.db.minPersistedRoundNumber = vm.height) := by
  have hne : vm.height + 1 ≠ 0 := by
    rw [Ne, ← UInt64.toNat_inj, UInt64.toNat_add]
    have hone : UInt64.toNat 1 = 1 := rfl
    have hzero : UInt64.toNat 0 = 0 := rfl
    omega
  unfold MemoryDatabase.creationThunkInOrder
  simp only [hne, decide_false, Bool.false_and, Bool.or_false]
  cases hlast : vm.structures.db.accountCreationThunks.getLast? with
  | none =>
    have hnone : vm.structures.db.accountCreationThunks = [] := List.getLast?_eq_none_iff.mp hlast
    simp only [hnone, true_and, decide_eq_true_eq, add_left_inj]
    cases skipped with
    | false => simpa using hvm.onDisk rfl hnone
    | true => simp
  | some thunk =>
    have hmem := List.mem_of_getLast? hlast
    have hnone : vm.structures.db.accountCreationThunks ≠ [] := List.ne_nil_of_mem hmem
    simp only [hnone, false_and, imp_false, decide_eq_true_eq, add_left_inj]
    cases skipped with
    | false => simpa using hvm.last rfl thunk hlast
    | true => simpa using (hvm.missing rfl thunk hmem).ne

theorem BeforeCommit.inOrder {n : UInt64} (h : BeforeCommit vm n vm') (hvm : vm.InOrder skipped) :
    vm'.InOrder skipped ∧ n = vm'.height + 1 ∧ vm'.height = vm.height ∧
      vm.height.toNat + 1 < 2 ^ 64 := by
  cases h with
  | validate hfollows hpass hpersists =>
    have hheight : vm'.height = vm.height := hpersists.height_eq
    exact ⟨hpersists.inOrder (hvm.withDb hpass), by rw [hheight], hheight, hfollows.height_lt⟩
  | propose hproduces hnumber hpersists =>
    have hheight : vm'.height = vm.height := hpersists.height_eq
    rw [hvm.base] at hnumber ⊢
    exact ⟨hpersists.inOrder (hvm.withStructures hproduces.sameRounds), by rw [hheight], hheight,
      hnumber⟩

/-- The next `commit_new_accounts` of a run accepts the block's number exactly when the last block
came to its own `commit_new_accounts`, or has been persisted and no thunk is left. -/
theorem commitNewAccounts_accepts_iff (hashes : VmHashes) (vm₀ vm vm' : SpeedexVm) (skipped : Bool)
    (n : UInt64) (hrest : vm₀.AtRest) (hrun : Run hashes vm₀ vm skipped)
    (hnext : BeforeCommit vm n vm') :
    vm'.structures.db.commitNewAccounts n ≠
        .error (.runtimeError "account creation thunks block number error") ↔
      (skipped = true → vm'.structures.db.accountCreationThunks = [] ∧
        vm'.structures.db.minPersistedRoundNumber = vm.height) := by
  obtain ⟨hvm', rfl, hheight, hlt⟩ := hnext.inOrder (hrun.inOrder hrest)
  rw [Ne, MemoryDatabase.commitNewAccounts_numberError, Bool.not_eq_false,
    hvm'.creationThunkInOrder (hheight ▸ hlt), hheight]

/-! ### From genesis -/

theorem initClean_atRest {numAssets : Nat} {defaultAmount : Int64}
    {accounts : List (AccountID × PublicKey)} {taxRate : UInt8} {config : SignatureConfig}
    (h : initClean hashes numAssets defaultAmount accounts taxRate config = .ok vm) : vm.AtRest := by
  obtain ⟨s, hs, h⟩ := bind_eq_ok.mp h
  cases h
  obtain ⟨db, hinstall, hpersist⟩ := bind_eq_ok.mp hs
  obtain ⟨kvs, -, hpersist⟩ := bind_eq_ok.mp hpersist
  obtain ⟨hthunks, hmin⟩ := persistThunks_rounds hpersist
  have hdb := MemoryDatabase.SameRounds.foldlM
    (fun _ _ _ hstep => MemoryDatabase.sameRounds_commitNewAccount hstep) hinstall
  refine ⟨hthunks.trans hdb.thunks, ?_, rfl, rfl⟩
  show s.db.minPersistedRoundNumber = _
  rw [hmin, hdb.persisted]
  rfl

/-- Block 1 without prices, and then an empty block 2. -/
def priceless : HashedBlock := ⟨⟨0, 1, [], 0, ⟨0, [], 0, 0⟩⟩, 0⟩

def emptyBlock : HashedBlock := ⟨⟨0, 2, [1, 1], 1, ⟨0, [⟨0, 0, .zero, 1, 0⟩, ⟨0, 0, .zero, 1, 0⟩], 0, 0⟩⟩, 0⟩

def noTransactions : Choices := ⟨[], [[0, 1]], fun _ => false⟩

def nullHashes : VmHashes := ⟨⟨fun _ => 0, fun _ => 0, fun _ => 0, fun _ => 0⟩, fun _ => 0⟩

/-- The node before and after block 1, after the call `commit_persistence_thunks(1)`, and what the
transactions of block 2 lead to, before and after that call. -/
def afterPriceless :
    Result (SpeedexVm × SpeedexVm × SpeedexVm × Option BlockValidation × Option BlockValidation) := do
  let vm₀ ← initClean nullHashes 2 100 [(7, 0)] 1 ⟨false, fun _ _ _ => true⟩
  let vm ← vm₀.execBlock nullHashes priceless noTransactions
  let vm' ← vm.commitPersistenceThunks 1
  return (vm₀, vm, vm', vm.passTransactions emptyBlock noTransactions,
    vm'.passTransactions emptyBlock noTransactions)

theorem afterPriceless_spec {vm₀ vm vm' : SpeedexVm} {t t' : Option BlockValidation}
    (h : afterPriceless = .ok (vm₀, vm, vm', t, t')) :
    vm₀.AtRest ∧ vm₀.execBlock nullHashes priceless noTransactions = .ok vm ∧
      vm.commitPersistenceThunks 1 = .ok vm' ∧
      t = vm.passTransactions emptyBlock noTransactions ∧
      t' = vm'.passTransactions emptyBlock noTransactions := by
  obtain ⟨vm₀', hinit, h⟩ := bind_eq_ok.mp h
  obtain ⟨vm₁, hexec, h⟩ := bind_eq_ok.mp h
  obtain ⟨vm₂, hpersist, h⟩ := bind_eq_ok.mp h
  cases h
  exact ⟨initClean_atRest hinit, hexec, hpersist, rfl, rfl⟩

/-- The block that was rejected for its prices makes the next one throw. -/
theorem commitNewAccounts_throws_afterPriceless :
    ∃ vm₀ vm vm' : SpeedexVm, vm₀.AtRest ∧ Run nullHashes vm₀ vm true ∧ BeforeCommit vm 2 vm' ∧
      vm'.structures.db.commitNewAccounts 2 =
        .error (.runtimeError "account creation thunks block number error") := by
  obtain ⟨⟨vm₀, vm, vm', t, t'⟩, hok, hvalues⟩ := returns_iff.mp (show returns afterPriceless
    (fun r => (r.1.passTransactions priceless noTransactions).isNone && r.1.height = 0 &&
      r.2.1.height = 1 &&
      r.2.2.2.1.any fun t => !t.db.creationThunkInOrder 2) = true by decide +kernel)
  obtain ⟨hrest, hexec, -, rfl, -⟩ := afterPriceless_spec hok
  simp only [Bool.and_eq_true, decide_eq_true_eq, Option.isNone_iff_eq_none,
    Option.any_eq_true] at hvalues
  obtain ⟨⟨⟨hnone, hheight₀⟩, hheight⟩, t, hpass, horder⟩ := hvalues
  have hrun : Run nullHashes vm₀ vm true := .skip .start (by rw [Follows, hheight₀]; rfl) hnone hexec
  have hnext : BeforeCommit vm (vm.height + 1) (vm.withDb t.db) :=
    .validate (by rw [Follows, hheight]; rfl) hpass .refl
  rw [hheight] at hnext
  refine ⟨vm₀, vm, _, hrest, hrun, hnext, ?_⟩
  exact MemoryDatabase.commitNewAccounts_numberError.mpr ((Bool.not_eq_true' _).mp horder)

/-- Once the rejected block has been persisted, the next one is accepted. -/
theorem commitNewAccounts_accepts_persisted :
    ∃ vm₀ vm vm' : SpeedexVm, vm₀.AtRest ∧ Run nullHashes vm₀ vm true ∧ BeforeCommit vm 2 vm' ∧
      vm'.structures.db.commitNewAccounts 2 ≠
        .error (.runtimeError "account creation thunks block number error") := by
  obtain ⟨⟨vm₀, vm, vm', t, t'⟩, hok, hvalues⟩ := returns_iff.mp (show returns afterPriceless
    (fun r => (r.1.passTransactions priceless noTransactions).isNone && r.1.height = 0 &&
      r.2.1.height = 1 && r.2.1.persister = .idle && r.2.2.1.height = 1 &&
      r.2.2.2.2.any fun t => t.db.accountCreationThunks = [] && t.db.minPersistedRoundNumber = 1) =
        true by decide +kernel)
  obtain ⟨hrest, hexec, hpersist, -, rfl⟩ := afterPriceless_spec hok
  simp only [Bool.and_eq_true, decide_eq_true_eq, Option.isNone_iff_eq_none,
    Option.any_eq_true] at hvalues
  obtain ⟨⟨⟨⟨⟨hnone, hheight₀⟩, hheight⟩, hidle⟩, hheight'⟩, t, hpass, hthunks⟩ := hvalues
  have hrun : Run nullHashes vm₀ vm true := .skip .start (by rw [Follows, hheight₀]; rfl) hnone hexec
  have hpersists := persists_commitPersistenceThunks hidle (by rw [hheight]) hpersist
  have hrun' := hrun.persists hpersists
  have hnext : BeforeCommit vm' (vm'.height + 1) (vm'.withDb t.db) :=
    .validate (by rw [Follows, hheight']; rfl) hpass .refl
  rw [hheight'] at hnext
  refine ⟨vm₀, vm', _, hrest, hrun', hnext, ?_⟩
  exact (commitNewAccounts_accepts_iff _ _ _ _ _ _ hrest hrun' hnext).mpr
    fun _ => ⟨hthunks.1, hthunks.2.trans hheight'.symm⟩

end SpeedexVm

end Speedex
