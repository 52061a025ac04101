import Speedex.Commutativity.Validators

/-! A block of transactions in validation as updates: whichever transactions go to whichever
validator, and in whatever order they are worked on. -/

namespace Speedex

open Lib

/-! ### The updates of a block -/

/-- Every transaction is valid as far as it can be told without the others. -/
def WellFormed (config : SignatureConfig) (ctx : BlockContext) (txs : List SignedTransaction) :
    Prop :=
  ∀ tx ∈ txs, (transactionUpdates config ctx tx).isSome = true

def blockUpdates (config : SignatureConfig) (ctx : BlockContext) (txs : List SignedTransaction) :
    List Update :=
  txs.flatMap fun tx => (transactionUpdates config ctx tx).getD []

namespace ParallelValidate

/-- What the validators have produced together. -/
def produced (s : ParallelValidate) : Produced :=
  (s.validators.values.map fun v => v.manager.produced).sum

/-- What the validators other than number `i` have produced. -/
def others (s : ParallelValidate) (i : Nat) : Produced :=
  ((s.validators.erase i).values.map fun v => v.manager.produced).sum

def blockState (s : ParallelValidate) : BlockState := .of s.db s.books s.log s.produced

variable {config : SignatureConfig} {checker : OrderbookStateCommitmentChecker}
  {s s' s'' : ParallelValidate} {us us' : List Update}

theorem produced_new : (ValidatingSerialManager.new checker).produced = 0 := by
  refine Produced.ext ?_ ?_ rfl rfl
  · funext i
    simp [ValidatingSerialManager.produced, ValidatingSerialManager.new]
    rfl
  · funext i
    rfl

/-- The part of one validator. -/
theorem produced_eq (s : ParallelValidate) (checker : OrderbookStateCommitmentChecker) (i : Nat) :
    s.produced = s.others i + (s.validator checker i).manager.produced := by
  unfold produced others validator
  cases hv : s.validators.find? i with
  | none =>
    have herase : s.validators.erase i = s.validators := by
      refine SortedMap.ext_find fun k => ?_
      rw [SortedMap.find?_erase]
      split_ifs with hk
      · rw [← hk, hv]
      · rfl
    rw [herase, Option.getD_none, produced_new, add_zero]
  | some v =>
    have hperm := (SortedMap.entries_erase hv).map fun a => a.2.manager.produced
    have hsum := hperm.sum_eq
    rw [List.map_cons, List.sum_cons, add_comm] at hsum
    simpa [SortedMap.values, Function.comp_def] using hsum

theorem produced_insert (s : ParallelValidate) (i : Nat) (v : SerialValidator) (db : MemoryDatabase)
    (books : OrderbookManager) (log : ModificationTrie) :
    (⟨db, books, log, s.validators.insert i v⟩ : ParallelValidate).produced =
      s.others i + v.manager.produced := by
  have herase : (s.validators.insert i v).erase i = s.validators.erase i := by
    refine SortedMap.ext_find fun k => ?_
    rw [SortedMap.find?_erase, SortedMap.find?_insert, SortedMap.find?_erase]
    split_ifs <;> rfl
  rw [produced_eq _ ⟨[], [], 0⟩ i]
  unfold others validator
  rw [herase, SortedMap.find?_insert_self]
  rfl

/-- Every validator works with the header's clearing data, and none has failed.  New offers have the
ids of operations whose transactions have reserved their sequence numbers. -/
structure Prepared (checker : OrderbookStateCommitmentChecker) (s : ParallelValidate) : Prop where
  checker : ∀ i v, s.validators.find? i = some v → v.manager.clearingCommitment = checker
  valid : ∀ i v, s.validators.find? i = some v → v.valid = true
  numbered : s.blockState.Numbered s.db.userIdToIdxMap BlockState.upToAll

theorem valid_iff : s.valid = true ↔ ∀ i v, s.validators.find? i = some v → v.valid = true := by
  simp only [ParallelValidate.valid, List.all_eq_true, SortedMap.values, List.mem_map,
    forall_exists_index, and_imp]
  constructor
  · intro h i v hv
    exact h v (i, v) (SortedMap.mem_entries.mpr hv) rfl
  · rintro h v ⟨i, v'⟩ hv rfl
    exact h i v' (SortedMap.mem_entries.mp hv)

theorem Prepared.checker_validator (h : s.Prepared checker) (i : Nat) :
    (s.validator checker i).manager.clearingCommitment = checker := by
  unfold validator
  cases hv : s.validators.find? i with
  | none => rfl
  | some v => exact h.checker i v hv

theorem Prepared.valid_validator (h : s.Prepared checker) (i : Nat) :
    (s.validator checker i).valid = true := by
  unfold validator
  cases hv : s.validators.find? i with
  | none => rfl
  | some v => exact h.valid i v hv

/-- The state after validator `i` has worked. -/
def workedOn (s : ParallelValidate) (i : Nat) (t : ValidatorState) (valid : Bool) :
    ParallelValidate :=
  ⟨t.db, t.books, t.log, s.validators.insert i ⟨t.manager, valid⟩⟩

variable {next : Nat × SignedTransaction} 

theorem validateNext_eq_ok (h : s.Prepared checker) :
    s.validateNext config checker next = .ok s' ↔ ∃ valid t,
      (s.worker checker next.1).validateTransaction config next.2 = .ok (valid, t) ∧
        s' = s.workedOn next.1 t valid := by
  unfold validateNext
  dsimp only
  rw [if_neg (by simp [h.valid_validator next.1]), bind_eq_ok]
  constructor
  · rintro ⟨⟨valid, t⟩, ht, hs⟩
    cases hs
    exact ⟨valid, t, ht, rfl⟩
  · rintro ⟨valid, t, ht, rfl⟩
    exact ⟨(valid, t), ht, rfl⟩

/-- A validator that has failed stays so. -/
theorem valid_of_validateNext (h : s.validateNext config checker next = .ok s')
    (hvalid : s'.valid = true) : s.valid = true := by
  unfold validateNext at h
  dsimp only at h
  split at h
  · cases h
    exact hvalid
  rename_i hown
  obtain ⟨⟨valid, t⟩, -, h⟩ := bind_eq_ok.mp h
  cases h
  rw [valid_iff] at hvalid ⊢
  intro i v hv
  by_cases hi : next.1 = i
  · subst hi
    simpa [validator, hv] using hown
  · exact hvalid i v (by rw [SortedMap.find?_insert_ne hi]; exact hv)

/-- Transactions make these updates, and no other change. -/
structure Makes (us : List Update) (s s' : ParallelValidate) : Prop where
  run : BlockState.updates.run s.blockState us = some s'.blockState
  db : s'.db.untouched = s.db.untouched
  books : s'.books.untouched = s.books.untouched

theorem Makes.refl (s : ParallelValidate) : Makes [] s s := ⟨rfl, rfl, rfl⟩

theorem Makes.trans (h : Makes us s s') (h' : Makes us' s' s'') : Makes (us ++ us') s s'' where
  run := BlockState.updates.run_append_eq_some.mpr ⟨_, h.run, h'.run⟩
  db := h'.db.trans h.db
  books := h'.books.trans h.books

/-- The context of every validator. -/
def context (s : ParallelValidate) (checker : OrderbookStateCommitmentChecker) : BlockContext :=
  .of s.db s.books checker

theorem Makes.context (h : Makes us s s') (checker : OrderbookStateCommitmentChecker) :
    s'.context checker = s.context checker :=
  BlockContext.of_eq checker h.run h.db h.books

theorem blockState_worker (s : ParallelValidate) (checker : OrderbookStateCommitmentChecker)
    (i : Nat) : (s.worker checker i).blockState (s.others i) = s.blockState := by
  unfold blockState
  rw [produced_eq s checker i]
  rfl

theorem blockState_workedOn (s : ParallelValidate) (i : Nat) (t : ValidatorState) (valid : Bool) :
    (s.workedOn i t valid).blockState = t.blockState (s.others i) := by
  unfold workedOn blockState
  rw [produced_insert]
  rfl

theorem context_worker (hprep : s.Prepared checker) (i : Nat) :
    (s.worker checker i).context = s.context checker :=
  congrArg (BlockContext.of s.db s.books) (hprep.checker_validator i)

theorem numbered_worker (hprep : s.Prepared checker) (i : Nat) :
    ((s.worker checker i).blockState (s.others i)).Numbered s.db.userIdToIdxMap
      BlockState.upToAll := by
  rw [blockState_worker]
  exact hprep.numbered

/-- A transaction that a validator has accepted. -/
theorem validateNext_makes (hprep : s.Prepared checker)
    (h : s.validateNext config checker next = .ok s') (hvalid : s'.valid = true) :
    (∃ us, transactionUpdates config (s.context checker) next.2 = some us ∧ Makes us s s') ∧
      s'.Prepared checker := by
  obtain ⟨valid, t, ht, rfl⟩ := (validateNext_eq_ok hprep).mp h
  rw [valid_iff] at hvalid
  obtain rfl : valid = true := hvalid next.1 _ (SortedMap.find?_insert_self ..)
  obtain ⟨⟨us, hus, hmakes⟩, hnumbered⟩ :=
    ValidatorState.validateTransaction_makes (numbered_worker hprep next.1) ht
  have hrun : BlockState.updates.run ((s.worker checker next.1).blockState (s.others next.1)) us =
      some (t.blockState (s.others next.1)) := hmakes.run
  rw [context_worker hprep] at hus
  rw [blockState_worker, ← blockState_workedOn s next.1 t true] at hrun
  refine ⟨⟨us, hus, hrun, hmakes.db, hmakes.books⟩, ?_, hvalid, ?_⟩
  · intro i v hv
    rw [workedOn, SortedMap.find?_insert] at hv
    split_ifs at hv
    · cases hv
      exact hmakes.checker.trans (hprep.checker_validator next.1)
    · exact hprep.checker i v hv
  · rw [blockState_workedOn]
    exact hnumbered

/-- A transaction whose updates can be made is accepted. -/
theorem validateNext_succeeds (hprep : s.Prepared checker)
    (h : transactionUpdates config (s.context checker) next.2 = some us) {a : BlockState}
    (hrun : BlockState.updates.run s.blockState us = some a) :
    ∃ s', s.validateNext config checker next = .ok s' ∧ s'.valid = true := by
  rw [← context_worker hprep next.1] at h
  rw [← blockState_worker s checker next.1] at hrun
  obtain ⟨t, ht⟩ :=
    ValidatorState.validateTransaction_succeeds (numbered_worker hprep next.1) h hrun
  refine ⟨s.workedOn next.1 t true, (validateNext_eq_ok hprep).mpr ⟨true, t, ht, rfl⟩, ?_⟩
  rw [valid_iff]
  intro i v hv
  rw [workedOn, SortedMap.find?_insert] at hv
  split_ifs at hv
  · cases hv
    rfl
  · exact hprep.valid i v hv

/-! ### All transactions -/

variable {schedule : List (Nat × SignedTransaction)}

theorem valid_of_foldlM (h : schedule.foldlM (validateNext config checker) s = .ok s')
    (hvalid : s'.valid = true) : s.valid = true := by
  induction schedule generalizing s with
  | nil =>
    cases h
    exact hvalid
  | cons next schedule ih =>
    obtain ⟨s₁, hfirst, hrest⟩ := foldlM_cons.mp h
    exact valid_of_validateNext hfirst (ih hrest)

/-- A schedule whose transactions are all accepted makes their updates. -/
theorem validateAll_makes (hprep : s.Prepared checker)
    (h : schedule.foldlM (validateNext config checker) s = .ok s') (hvalid : s'.valid = true) :
    WellFormed config (s.context checker) (schedule.map (·.2)) ∧
      Makes (blockUpdates config (s.context checker) (schedule.map (·.2))) s s' ∧
      s'.Prepared checker := by
  induction schedule generalizing s with
  | nil =>
    cases h
    exact ⟨by simp [WellFormed], .refl _, hprep⟩
  | cons next schedule ih =>
    obtain ⟨s₁, hfirst, hrest⟩ := foldlM_cons.mp h
    obtain ⟨⟨us, hus, hmakes⟩, hprep₁⟩ :=
      validateNext_makes hprep hfirst (valid_of_foldlM hrest hvalid)
    obtain ⟨hformed, hlater, hprep'⟩ := ih hprep₁ hrest
    rw [hmakes.context] at hformed hlater
    refine ⟨?_, ?_, hprep'⟩
    · intro tx htx
      rcases List.mem_cons.mp htx with rfl | htx
      · rw [hus]
        rfl
      · exact hformed tx htx
    · have hcons : blockUpdates config (s.context checker) ((next :: schedule).map (·.2)) =
          us ++ blockUpdates config (s.context checker) (schedule.map (·.2)) := by
        simp [blockUpdates, hus]
      rw [hcons]
      exact hmakes.trans hlater

/-- A schedule is accepted if the updates of its transactions can be made. -/
theorem validateAll_succeeds (hprep : s.Prepared checker)
    (hformed : WellFormed config (s.context checker) (schedule.map (·.2))) {a : BlockState}
    (hrun : BlockState.updates.run s.blockState
      (blockUpdates config (s.context checker) (schedule.map (·.2))) = some a) :
    ∃ s', schedule.foldlM (validateNext config checker) s = .ok s' ∧ s'.valid = true := by
  induction schedule generalizing s with
  | nil => exact ⟨s, rfl, valid_iff.mpr hprep.valid⟩
  | cons next schedule ih =>
    obtain ⟨us, hus⟩ := Option.isSome_iff_exists.mp (hformed next.2 List.mem_cons_self)
    have hcons : blockUpdates config (s.context checker) ((next :: schedule).map (·.2)) =
        us ++ blockUpdates config (s.context checker) (schedule.map (·.2)) := by
      simp [blockUpdates, hus]
    rw [hcons] at hrun
    obtain ⟨a₁, hfirst, hrest⟩ := BlockState.updates.run_append_eq_some.mp hrun
    obtain ⟨s₁, hs₁, hvalid₁⟩ := validateNext_succeeds hprep hus hfirst
    obtain ⟨⟨us', hus', hmakes⟩, hprep₁⟩ := validateNext_makes hprep hs₁ hvalid₁
    cases hus.symm.trans hus'
    cases hmakes.run.symm.trans hfirst
    have hformed₁ : WellFormed config (s₁.context checker) (schedule.map (·.2)) := by
      rw [hmakes.context]
      exact fun tx htx => hformed tx (List.mem_cons_of_mem _ htx)
    rw [← hmakes.context checker] at hrest
    obtain ⟨s', hs', hvalid⟩ := ih hprep₁ hformed₁ hrest
    exact ⟨s', foldlM_cons.mpr ⟨s₁, hs₁, hs'⟩, hvalid⟩

/-- Before the first transaction. -/
theorem prepared_start (checker : OrderbookStateCommitmentChecker) (db : MemoryDatabase)
    (books : OrderbookManager) (log : ModificationTrie) :
    (⟨db, books, log, ∅⟩ : ParallelValidate).Prepared checker where
  checker i v hv := by cases hv
  valid i v hv := by cases hv
  numbered := by
    constructor
    · intro book
      exact Multiset.nodup_zero
    · intro book o ho
      exact absurd ho (Multiset.notMem_zero o)

/-- Two states that differ at most in the order of what came in. -/
structure Same (s s' : ParallelValidate) : Prop where
  blockState : s'.blockState = s.blockState
  db : s'.db.untouched = s.db.untouched
  books : s'.books.untouched = s.books.untouched

/-- The order of the transactions and their validators do not matter. -/
theorem validateAll_perm {schedule' : List (Nat × SignedTransaction)} (hprep : s.Prepared checker)
    (hperm : (schedule.map (·.2)).Perm (schedule'.map (·.2)))
    (h : schedule.foldlM (validateNext config checker) s = .ok s') (hvalid : s'.valid = true) :
    ∃ s'', schedule'.foldlM (validateNext config checker) s = .ok s'' ∧ s''.valid = true ∧
      Same s' s'' := by
  obtain ⟨hformed, hmakes, -⟩ := validateAll_makes hprep h hvalid
  have hformed' : WellFormed config (s.context checker) (schedule'.map (·.2)) :=
    fun tx htx => hformed tx (hperm.mem_iff.mpr htx)
  have hrun : BlockState.updates.run s.blockState
      (blockUpdates config (s.context checker) (schedule'.map (·.2))) = some s'.blockState := by
    rw [← hmakes.run]
    exact (BlockState.updates.run_perm (hperm.flatMap_right _) _).symm
  obtain ⟨s'', hs'', hvalid'⟩ := validateAll_succeeds hprep hformed' hrun
  obtain ⟨-, hmakes', -⟩ := validateAll_makes hprep hs'' hvalid'
  refine ⟨s'', hs'', hvalid', ?_, hmakes'.db.trans hmakes.db.symm,
    hmakes'.books.trans hmakes.books.symm⟩
  exact Option.some.inj (hmakes'.run.symm.trans hrun)

end ParallelValidate

end Speedex
