import Speedex.Vm.BlockNumbers
import Speedex.Vm.FeeRate
import Speedex.Orderbook.Loading

/-! The replay of a block that validation accepted, on orderbooks that were loaded from disk. -/

namespace Speedex

open Lib

/-- The orderbooks before a replay, against those that validation started from: the ones that lag
behind the block have the same offers. -/
structure Resumes (validated replayed : OrderbookManager) (n : UInt64) : Prop where
  length : replayed.orderbooks.length = validated.orderbooks.length
  offers : ∀ (i : Nat) (ob ob' : Orderbook), validated.orderbooks[i]? = some ob →
    replayed.orderbooks[i]? = some ob' → ob'.Lags n → SameOffers ob ob'

/-- A replay returns, leaves the offers that validation left in the orderbooks that lag behind, and
does not touch the others. -/
def ReplaysExactly (validated replayed : OrderbookManager) (n : UInt64)
    (result : Result (OrderbookManager × ClearingState)) : Prop :=
  ∃ m state, result = .ok (m, state) ∧ ∀ (i : Nat) (ob : Orderbook),
    replayed.orderbooks[i]? = some ob → ∃ ob' : Orderbook, m.orderbooks[i]? = some ob' ∧
      if ob.Lags n then ∃ v : Orderbook, validated.orderbooks[i]? = some v ∧
        ob'.committedOffers.offers = v.committedOffers.offers
      else ob' = ob

/-- Every orderbook is in one range of the workers. -/
def Splits (ranges : List (List Nat)) (m : OrderbookManager) : Prop :=
  ranges.flatten.Perm (List.range m.orderbooks.length)

namespace OrderbookManager

variable {m m' : OrderbookManager} {n : UInt64}

theorem genericMapLoading_none {f : Nat → Orderbook → Result Orderbook}
    (hnone : ∀ ob ∈ m.orderbooks, ¬ ob.Lags n) : m.genericMapLoading n f = .ok m := by
  have hmap : ∀ (l : List Orderbook) (k : Nat), (∀ ob ∈ l, ¬ ob.Lags n) →
      (l.zipIdx k).mapM (fun a => if a.1.Lags n then f a.2 a.1 else .ok a.1) = .ok l := by
    intro l
    induction l with
    | nil => exact fun _ _ => rfl
    | cons ob l ih =>
      intro k hl
      rw [List.zipIdx_cons]
      refine mapM_cons.mpr ⟨ob, l, ?_, ih (k + 1) fun ob' hob' => hl ob' (List.mem_cons_of_mem _ hob'),
        rfl⟩
      rw [if_neg (hl ob List.mem_cons_self)]
  unfold genericMapLoading genericMap
  rw [hmap m.orderbooks 0 hnone]
  rfl

theorem lags_commit {ob ob' : Orderbook} {b : Bool}
    (h : ob.tentativeCommitForValidation n b = .ok ob') : ob'.Lags n ↔ ob.Lags n := by
  obtain ⟨lmdb, hlmdb, h⟩ := bind_eq_ok.mp h
  cases h
  unfold OrderbookLMDB.addNewThunk at hlmdb
  split at hlmdb
  · cases hlmdb
  · cases hlmdb
    rfl

end OrderbookManager

namespace MemoryDatabase

variable {db db' : MemoryDatabase}

theorem modifyCommitments_ids {log : ModificationTrie}
    {commitment : UserAccount → Result AccountCommitment}
    (h : db.modifyCommitments log commitment = .ok db') :
    db'.userIdToIdxMap = db.userIdToIdxMap := by
  refine foldlM_invariant (P := fun d => d.userIdToIdxMap = db.userIdToIdxMap)
    (fun d owner d' _ hd hstep => ?_) rfl h
  split at hstep
  · cases hstep
  · obtain ⟨c, -, hstep⟩ := bind_eq_ok.mp hstep
    cases hstep
    exact hd

theorem commitValues_ids {log : ModificationTrie} (h : db.commitValues log = .ok db') :
    db'.userIdToIdxMap = db.userIdToIdxMap := by
  refine foldlM_invariant (P := fun d => d.userIdToIdxMap = db.userIdToIdxMap)
    (fun d owner d' _ hd hstep => ?_) rfl h
  split at hstep
  · cases hstep
    exact hd
  · cases hstep

end MemoryDatabase

namespace ManagementStructures

variable {hashes : Hashes} {m : ManagementStructures} {prevBlock nextBlock : HashedBlock}
  {choices : Choices} {t : BlockValidation} {outcome : ValidationOutcome}

/-- In an accepted validation every orderbook has cleared, with the accounts of the outcome. -/
theorem validateClearing_accepted
    (h : m.validateClearing hashes prevBlock nextBlock choices t = .ok outcome)
    (hverdict : outcome.verdict = true) (hsplit : Splits choices.ranges t.books) :
    ∀ (i : Nat) (ob : Orderbook), t.books.orderbooks[i]? = some ob →
      ∃ (b : Bool) (ob₁ : Orderbook) (c₁ c₂ : TentativeClearing),
      ob.tentativeCommitForValidation (prevBlock.block.blockNumber + 1) b = .ok ob₁ ∧
      c₁.orderbooks[i]? = some ob₁ ∧
      c₁.state.db.userIdToIdxMap = outcome.structures.db.userIdToIdxMap ∧
      c₁.clearBook (commitmentChecker nextBlock) i = .ok (true, c₂) := by
  obtain ⟨a, -, h⟩ := bind_eq_ok.mp h
  obtain ⟨books, hbooks, h⟩ := bind_eq_ok.mp h
  obtain ⟨⟨cleared, c⟩, hclear, h⟩ := bind_eq_ok.mp h
  dsimp only at h
  split at h
  · obtain ⟨books', -, h⟩ := bind_eq_ok.mp h
    obtain ⟨db, -, h⟩ := bind_eq_ok.mp h
    cases h
    cases hverdict
  rename_i hvalid
  have hcleared : cleared = true := by
    simp only [Bool.or_eq_true, Bool.not_eq_true', not_or, Bool.not_eq_false] at hvalid
    exact hvalid.1
  subst hcleared
  obtain ⟨a₁, htrie, h⟩ := bind_eq_ok.mp h
  obtain ⟨db₁, hdb₁, htrie⟩ := bind_eq_ok.mp htrie
  cases htrie
  split at h
  · cases h
  obtain ⟨a₂, hfinal, h⟩ := bind_eq_ok.mp h
  obtain ⟨books', -, h⟩ := bind_eq_ok.mp h
  obtain ⟨db, hdestroy, h⟩ := bind_eq_ok.mp h
  cases h
  unfold DatabaseAutoRollback.finalizeCommit at hfinal
  split at hfinal
  · cases hfinal
  obtain ⟨db₂, hdb₂, hfinal⟩ := bind_eq_ok.mp hfinal
  cases hfinal
  cases hdestroy
  have hids₀ : c.state.db.userIdToIdxMap = a.db.userIdToIdxMap :=
    TentativeClearing.clearRanges_invariant
      (P := fun s => s.db.userIdToIdxMap = a.db.userIdToIdxMap) (fun _ _ hs => hs)
      (fun _ _ _ _ hs => hs) hclear rfl
  have hids : db₂.userIdToIdxMap = a.db.userIdToIdxMap :=
    (MemoryDatabase.commitValues_ids hdb₂).trans
      ((MemoryDatabase.modifyCommitments_ids hdb₁).trans hids₀)
  intro i ob hob
  obtain ⟨ob₁, hob₁, hcommit⟩ := OrderbookManager.getElem?_of_genericMap hbooks hob
  have hmem : i ∈ choices.ranges.flatten :=
    hsplit.mem_iff.mpr (List.mem_range.mpr (List.getElem?_eq_some_iff.mp hob).1)
  have hnodup := hsplit.nodup_iff.mpr List.nodup_range
  obtain ⟨c₁, c₂, huntouched, hbook⟩ :=
    (TentativeClearing.clearRanges_true hnodup hclear).2 i hmem
  exact ⟨_, ob₁, c₁, c₂, hcommit, huntouched.orderbook.trans hob₁, huntouched.ids.trans hids.symm,
    hbook⟩

/-- The replay of an accepted block is exact exactly when there is nothing to replay: it throws as
soon as one orderbook lags behind. -/
theorem replaysExactly_iff (hashes : Hashes) (m : ManagementStructures)
    (prevBlock nextBlock : HashedBlock) (choices : Choices) (t : BlockValidation)
    (outcome : ValidationOutcome) (replayed : OrderbookManager) (state : ClearingState)
    (stats : ValidationStatistics) (ranges : List (List Nat)) (indeterminate : Nat → Bool)
    (hpass : m.passTransactions prevBlock nextBlock choices = some t)
    (h : m.blockValidationLogic hashes prevBlock nextBlock choices = .ok outcome)
    (hverdict : outcome.verdict = true) (hsplit : Splits choices.ranges t.books)
    (hresumes : Resumes t.books replayed (prevBlock.block.blockNumber + 1))
    (hranges : Splits ranges replayed)
    (haccounts : ∀ id, (outcome.structures.db.lookupUser id).isSome →
      (state.db.lookupUser id).isSome) :
    ReplaysExactly outcome.structures.orderbookManager replayed (prevBlock.block.blockNumber + 1)
        (replayed.replayBlock state stats (commitmentChecker nextBlock) ranges indeterminate
          (prevBlock.block.blockNumber + 1)) ↔
      ∀ ob ∈ replayed.orderbooks, ¬ ob.Lags (prevBlock.block.blockNumber + 1) := by
  constructor
  · rintro ⟨m', state', hreplay, -⟩ lagging hlagging hlags
    obtain ⟨m₁, hcommit, hreplay⟩ := bind_eq_ok.mp hreplay
    obtain ⟨⟨m₂, state₂⟩, hclear, -⟩ := bind_eq_ok.mp hreplay
    obtain ⟨⟨flag, c⟩, hload, hclear⟩ := bind_eq_ok.mp hclear
    unfold OrderbookManager.commitForLoading OrderbookManager.genericMapLoading at hcommit
    have hflag : flag = true := by
      refine TentativeClearing.loadRanges_flag (hranges.nodup_iff.mpr List.nodup_range) ?_ hload
        (.inr ?_)
      · -- what returned true in validation does not return false here
        rintro i hi ⟨ob₁', hob₁', hlags₁⟩ c₁' c₂' huntouched
        have hi := List.mem_range.mp (hranges.mem_iff.mp hi)
        have hob' : replayed.orderbooks[i]? = some replayed.orderbooks[i] :=
          List.getElem?_eq_getElem hi
        have hi' : i < t.books.orderbooks.length := hresumes.length ▸ hi
        have hob : t.books.orderbooks[i]? = some t.books.orderbooks[i] :=
          List.getElem?_eq_getElem hi'
        obtain ⟨ob₂', hob₂', hcommit'⟩ := OrderbookManager.getElem?_of_genericMap hcommit hob'
        obtain rfl : ob₁' = ob₂' := Option.some.inj (hob₁'.symm.trans hob₂')
        split at hcommit'
        · rename_i hlagged
          rw [blockValidationLogic_of_pass hpass] at h
          obtain ⟨b, ob₁, c₁, c₂, hcommit₁, hbook, hids, hcleared⟩ :=
            validateClearing_accepted h hverdict hsplit i _ hob
          have hoffers := (hresumes.offers i _ _ hob hob' hlagged).commit hcommit₁ hcommit'
          refine TentativeClearing.clearBook_ne_false hbook (huntouched.orderbook.trans hob₁') hoffers
            (fun id hid => ?_) hcleared
          have hid' := haccounts id (by simpa [MemoryDatabase.lookupUser, hids] using hid)
          simpa [MemoryDatabase.lookupUser, huntouched.ids] using hid'
        · rename_i hlagged
          cases hcommit'
          exact absurd hlags₁ hlagged
      · -- the book that lags behind still does once it is committed
        obtain ⟨i, hi, hget⟩ := List.mem_iff_getElem.mp hlagging
        have hob' : replayed.orderbooks[i]? = some lagging := by
          rw [List.getElem?_eq_getElem hi, hget]
        obtain ⟨ob₁', hob₁', hcommit'⟩ := OrderbookManager.getElem?_of_genericMap hcommit hob'
        rw [if_pos hlags] at hcommit'
        exact ⟨i, hranges.mem_iff.mpr (List.mem_range.mpr hi), ob₁', hob₁',
          (OrderbookManager.lags_commit hcommit').mpr hlags⟩
    subst hflag
    cases hclear
  · intro hnone
    refine ⟨replayed, state, ?_, fun i ob hob => ⟨ob, hob, ?_⟩⟩
    · unfold OrderbookManager.replayBlock OrderbookManager.commitForLoading
        OrderbookManager.finalizeForLoading OrderbookManager.clearOffersForDataLoading
      rw [OrderbookManager.genericMapLoading_none hnone, ok_bind,
        TentativeClearing.loadRanges_none ?_ hnone]
      · simp only [ok_bind, Bool.false_eq_true, if_false, pure, Except.pure]
        rw [OrderbookManager.genericMapLoading_none hnone]
        rfl
      · intro i hi
        exact List.mem_range.mp (hranges.mem_iff.mp hi)
    · rw [if_neg (hnone ob (List.mem_of_getElem? hob))]

open SpeedexVm (nullHashes noTransactions)

/-- What the two opposite offers lead to, if the orderbooks on disk already have block 1. -/
def persistedOrderbooks : OrderbookManager :=
  ⟨[{ bookOf (offerOf 0 1 256) with lmdb := ⟨[], ∅, 1⟩ },
    { bookOf (offerOf 1 0 257) with lmdb := ⟨[], ∅, 1⟩ }], 2⟩

theorem replaysExactly_persisted :
    ∃ t outcome, twoOfferStructures.passTransactions genesisBlock (twoOfferBlock 9) noTransactions =
        some t ∧
      twoOfferStructures.blockValidationLogic nullHashes.toHashes genesisBlock (twoOfferBlock 9)
        noTransactions = .ok outcome ∧
      ReplaysExactly outcome.structures.orderbookManager persistedOrderbooks 1
        (persistedOrderbooks.replayBlock ⟨outcome.structures.db, .empty, []⟩ []
          (commitmentChecker (twoOfferBlock 9)) [[0, 1]] (fun _ => false) 1) := by
  obtain ⟨outcome, hok, hverdict⟩ := returns_iff.mp (show returns
    (twoOfferStructures.blockValidationLogic nullHashes.toHashes genesisBlock (twoOfferBlock 9)
      noTransactions) (fun o => o.verdict) = true by decide +kernel)
  obtain ⟨t, hpass⟩ := Option.isSome_iff_exists.mp (show (twoOfferStructures.passTransactions
    genesisBlock (twoOfferBlock 9) noTransactions).isSome = true by decide +kernel)
  have hlength : t.books.orderbooks.length = 2 := by
    have h := congrArg (Option.map fun t => t.books.orderbooks.length) hpass
    exact Option.some.inj (h.symm.trans (by decide +kernel))
  have hlags : ∀ ob ∈ persistedOrderbooks.orderbooks, ¬ ob.Lags 1 := by decide
  refine ⟨t, outcome, hpass, hok, (replaysExactly_iff nullHashes.toHashes twoOfferStructures
    genesisBlock (twoOfferBlock 9) noTransactions t outcome persistedOrderbooks _ _ _ _ hpass hok hverdict
    ?_ ?_ (show [[0, 1]].flatten.Perm (List.range 2) by decide) fun _ h => h).mpr hlags⟩
  · rw [Splits, hlength]
    decide
  · refine ⟨hlength.symm, fun i ob ob' _ hob' hlagging => ?_⟩
    exact absurd hlagging (hlags ob' (List.mem_of_getElem? hob'))

/-- The block that validation accepts cannot be replayed on the orderbooks it was validated on. -/
theorem not_replaysExactly_lagging :
    ∃ t outcome, twoOfferStructures.passTransactions genesisBlock (twoOfferBlock 9) noTransactions =
        some t ∧
      twoOfferStructures.blockValidationLogic nullHashes.toHashes genesisBlock (twoOfferBlock 9)
        noTransactions = .ok outcome ∧ outcome.verdict = true ∧
      Resumes t.books twoOfferStructures.orderbookManager 1 ∧
      twoOfferStructures.orderbookManager.replayBlock ⟨outcome.structures.db, .empty, []⟩ []
          (commitmentChecker (twoOfferBlock 9)) [[0, 1]] (fun _ => false) 1 =
        .error (.runtimeError "failed to load block!") := by
  obtain ⟨outcome, hok, hvalues⟩ := returns_iff.mp (show returns
    (twoOfferStructures.blockValidationLogic nullHashes.toHashes genesisBlock (twoOfferBlock 9)
      noTransactions) (fun o => o.verdict && throws
        (twoOfferStructures.orderbookManager.replayBlock ⟨o.structures.db, .empty, []⟩ []
          (commitmentChecker (twoOfferBlock 9)) [[0, 1]] (fun _ => false) 1)
        (.runtimeError "failed to load block!")) = true by decide +kernel)
  rw [Bool.and_eq_true] at hvalues
  obtain ⟨t, hpass⟩ := Option.isSome_iff_exists.mp (show (twoOfferStructures.passTransactions
    genesisBlock (twoOfferBlock 9) noTransactions).isSome = true by decide +kernel)
  have hbooks : t.books = twoOfferStructures.orderbookManager := by
    have h := congrArg (Option.map fun t => t.books) hpass
    exact Option.some.inj (h.symm.trans rfl)
  refine ⟨t, outcome, hpass, hok, hvalues.1, ?_, throws_iff.mp hvalues.2⟩
  rw [hbooks]
  refine ⟨rfl, fun i ob ob' hob hob' _ => ?_⟩
  obtain rfl := Option.some.inj (hob.symm.trans hob')
  exact ⟨rfl, rfl, rfl⟩

end ManagementStructures

end Speedex
