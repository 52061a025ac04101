import Speedex.Database.CommitmentTrie
import Speedex.Database.Transfers

/-! What a block changes of the accounts, and when.  Transactions and clearing change only what is
tentative, `commit_values` commits it for the accounts of the log, and `commit_new_accounts` appends
the accounts that the block created. -/

namespace Speedex

open Lib

/-! ### What transactions leave of the accounts -/

/-- What a block commits to, of an account. -/
structure CommittedPart where
  owner : AccountID
  pk : PublicKey
  lastCommittedId : UInt64
  assets : List Int64
deriving DecidableEq

namespace UserAccount

def committedPart (u : UserAccount) : CommittedPart :=
  ⟨u.owner, u.pk, u.seqTracker.lastCommittedId, u.ownedAssets.map (·.committedAvailable)⟩

theorem committedPart_operateOnAsset {ρ : Type} (u : UserAccount) (asset : AssetID)
    {func : RevertableAsset → ρ × RevertableAsset}
    (hfunc : ∀ a, (func a).2.committedAvailable = a.committedAvailable) :
    (u.operateOnAsset asset func).2.committedPart = u.committedPart := by
  simp only [operateOnAsset]
  split
  · rfl
  · rename_i hlt
    rw [not_le] at hlt
    have hassets : (u.ownedAssets.set asset.toNat
        (func (u.ownedAssets.getD asset.toNat .zero)).2).map (·.committedAvailable) =
        u.ownedAssets.map (·.committedAvailable) := by
      refine List.ext_getElem? fun i => ?_
      rw [List.getElem?_map, List.getElem?_map, List.getElem?_set]
      by_cases hi : asset.toNat = i
      · subst hi
        simp [hlt, hfunc]
      · simp [hi]
    simp only [committedPart, hassets]

theorem committedPart_reserveSequenceNumber (u : UserAccount) (n : UInt64) :
    (u.reserveSequenceNumber n).2.committedPart = u.committedPart := by
  have hlast : (u.seqTracker.reserveSequenceNumber n).2.lastCommittedId =
      u.seqTracker.lastCommittedId := by
    simp only [SequenceTracker.reserveSequenceNumber]
    split_ifs <;> rfl
  simp only [reserveSequenceNumber, committedPart, hlast]

theorem committedPart_releaseSequenceNumber {u u' : UserAccount} {n : UInt64}
    (h : u.releaseSequenceNumber n = .ok u') : u'.committedPart = u.committedPart := by
  obtain ⟨t, ht, h⟩ := bind_eq_ok.mp h
  cases h
  have hlast : t.lastCommittedId = u.seqTracker.lastCommittedId := by
    simp only [SequenceTracker.releaseSequenceNumber] at ht
    split_ifs at ht
    cases ht
    rfl
  simp only [committedPart, hlast]

end UserAccount

namespace MemoryDatabase

variable {db db' db'' : MemoryDatabase}

/-- The ids have the same accounts, and nothing is committed. -/
structure SameCommitted (db db' : MemoryDatabase) : Prop where
  ids : db'.userIdToIdxMap = db.userIdToIdxMap
  committed : db'.database.map UserAccount.committedPart = db.database.map UserAccount.committedPart

theorem SameCommitted.refl (db : MemoryDatabase) : db.SameCommitted db := ⟨rfl, rfl⟩

theorem SameCommitted.trans (h : db.SameCommitted db') (h' : db'.SameCommitted db'') :
    db.SameCommitted db'' :=
  ⟨h'.ids.trans h.ids, h'.committed.trans h.committed⟩

theorem SameCommitted.lookupUser (h : db.SameCommitted db') (account : AccountID) :
    db'.lookupUser account = db.lookupUser account := by
  rw [MemoryDatabase.lookupUser, h.ids]
  rfl

theorem SameCommitted.length (h : db.SameCommitted db') :
    db'.database.length = db.database.length := by
  simpa using congrArg List.length h.committed

theorem SameCommitted.getElem? (h : db.SameCommitted db') {i : Nat} {u : UserAccount}
    (hu : db.database[i]? = some u) :
    ∃ u', db'.database[i]? = some u' ∧ u'.committedPart = u.committedPart := by
  have hat := congrArg (·[i]?) h.committed
  simp only [List.getElem?_map, hu, Option.map_some] at hat
  exact Option.map_eq_some_iff.mp hat

theorem sameCommitted_modifyAccount {f : UserAccount → UserAccount} {idx : Nat}
    (hf : ∀ u, db.database[idx]? = some u → (f u).committedPart = u.committedPart) :
    db.SameCommitted (db.modifyAccount idx f) :=
  ⟨rfl, map_modify hf⟩

theorem sameCommitted_apply {op : DbOp} (h : db.apply op = .ok db') : db.SameCommitted db' := by
  cases op with
  | transferAvailable idx asset change | escrow idx asset change =>
    cases h
    exact sameCommitted_modifyAccount fun u _ => u.committedPart_operateOnAsset asset fun _ => rfl
  | conditionalTransferAvailable idx asset change =>
    cases h
    refine sameCommitted_modifyAccount fun u _ => u.committedPart_operateOnAsset asset fun a => ?_
    unfold RevertableAsset.conditionalTransferAvailable
    split_ifs <;> rfl
  | conditionalEscrow idx asset change =>
    cases h
    refine sameCommitted_modifyAccount fun u _ => u.committedPart_operateOnAsset asset fun a => ?_
    unfold RevertableAsset.conditionalEscrow RevertableAsset.conditionalTransferAvailable
    split_ifs <;> rfl
  | reserveSequenceNumber idx n =>
    obtain ⟨⟨status, d⟩, hreserve, rfl⟩ := map_eq_ok.mp h
    unfold MemoryDatabase.reserveSequenceNumber at hreserve
    split at hreserve
    · cases hreserve
    · cases hreserve
      exact sameCommitted_modifyAccount fun u _ => u.committedPart_reserveSequenceNumber n
  | releaseSequenceNumber idx n =>
    unfold apply MemoryDatabase.releaseSequenceNumber at h
    dsimp only at h
    split at h
    · cases h
    · rename_i u hu
      obtain ⟨u', hrelease, h⟩ := bind_eq_ok.mp h
      cases h
      refine sameCommitted_modifyAccount fun v hv => ?_
      cases hu.symm.trans hv
      exact UserAccount.committedPart_releaseSequenceNumber hrelease
  | reserveAccountCreation account =>
    cases h
    unfold MemoryDatabase.reserveAccountCreation
    split_ifs <;> exact ⟨rfl, rfl⟩
  | releaseAccountCreation account | commitAccountCreation accountData =>
    cases h
    exact ⟨rfl, rfl⟩

/-! ### What leaves the rounds alone -/

/-- The creation thunks and the persisted round have not changed. -/
structure SameRounds (db db' : MemoryDatabase) : Prop where
  thunks : db'.accountCreationThunks = db.accountCreationThunks
  persisted : db'.minPersistedRoundNumber = db.minPersistedRoundNumber

theorem SameRounds.refl (db : MemoryDatabase) : db.SameRounds db := ⟨rfl, rfl⟩

theorem SameRounds.trans (h : db.SameRounds db') (h' : db'.SameRounds db'') : db.SameRounds db'' :=
  ⟨h'.thunks.trans h.thunks, h'.persisted.trans h.persisted⟩

theorem SameRounds.foldlM {α : Type} {f : MemoryDatabase → α → Result MemoryDatabase}
    (hf : ∀ d a d', f d a = .ok d' → d.SameRounds d') {l : List α} (h : l.foldlM f db = .ok db') :
    db.SameRounds db' :=
  foldlM_invariant (P := fun d => db.SameRounds d)
    (fun d a d' _ hd hstep => hd.trans (hf d a d' hstep)) (.refl db) h

theorem sameRounds_apply {op : DbOp} (h : db.apply op = .ok db') : db.SameRounds db' := by
  cases op with
  | transferAvailable | escrow | conditionalTransferAvailable | conditionalEscrow
  | releaseAccountCreation | commitAccountCreation =>
    cases h
    exact ⟨rfl, rfl⟩
  | reserveSequenceNumber idx n =>
    obtain ⟨⟨status, d⟩, hreserve, rfl⟩ := map_eq_ok.mp h
    unfold MemoryDatabase.reserveSequenceNumber at hreserve
    split at hreserve
    · cases hreserve
    · cases hreserve
      exact ⟨rfl, rfl⟩
  | releaseSequenceNumber idx n =>
    unfold apply MemoryDatabase.releaseSequenceNumber at h
    dsimp only at h
    split at h
    · cases h
    · obtain ⟨u, -, h⟩ := bind_eq_ok.mp h
      cases h
      exact ⟨rfl, rfl⟩
  | reserveAccountCreation account =>
    cases h
    unfold MemoryDatabase.reserveAccountCreation
    split_ifs <;> exact ⟨rfl, rfl⟩

theorem sameRounds_commitValues {log : ModificationTrie} (h : db.commitValues log = .ok db') :
    db.SameRounds db' := by
  refine .foldlM (fun d owner d' hstep => ?_) h
  split at hstep
  · cases hstep
    exact ⟨rfl, rfl⟩
  · cases hstep

theorem sameRounds_modifyCommitments {log : ModificationTrie}
    {commitment : UserAccount → Result AccountCommitment}
    (h : db.modifyCommitments log commitment = .ok db') : db.SameRounds db' := by
  refine .foldlM (fun d owner d' hstep => ?_) h
  split at hstep
  · cases hstep
  · obtain ⟨c, -, hstep⟩ := bind_eq_ok.mp hstep
    cases hstep
    exact ⟨rfl, rfl⟩

theorem sameRounds_commitNewAccount {u : UserAccount} (h : db.commitNewAccount u = .ok db') :
    db.SameRounds db' := by
  obtain ⟨c, -, h⟩ := bind_eq_ok.mp h
  cases h
  exact ⟨rfl, rfl⟩

theorem commitNewAccounts_persisted {n : UInt64} (h : db.commitNewAccounts n = .ok db') :
    db'.minPersistedRoundNumber = db.minPersistedRoundNumber := by
  rw [commitNewAccounts] at h
  split at h
  · cases h
  obtain ⟨db₁, hfold, h⟩ := bind_eq_ok.mp h
  have h₁ := SameRounds.foldlM (fun _ _ _ hstep => sameRounds_commitNewAccount hstep) hfold
  cases h
  exact h₁.persisted

theorem rollbackNewAccounts_persisted (db : MemoryDatabase) (n : UInt64) :
    (db.rollbackNewAccounts n).minPersistedRoundNumber = db.minPersistedRoundNumber := by
  have hfold : ∀ (l : List AccountCreationThunk) (d : MemoryDatabase),
      (l.foldl (fun d thunk => d.dropAccounts thunk.numAccountsCreated) d).minPersistedRoundNumber =
        d.minPersistedRoundNumber := by
    intro l
    induction l with
    | nil => exact fun _ => rfl
    | cons thunk l ih => exact fun d => ih _
  exact hfold _ _

theorem Changes.sameCommitted (h : db.Changes db') : db.SameCommitted db' := by
  induction h with
  | refl db => exact .refl db
  | step op _ hstep _ ih => exact (sameCommitted_apply hstep).trans ih

theorem Changes.sameRounds (h : db.Changes db') : db.SameRounds db' := by
  induction h with
  | refl db => exact .refl db
  | step op _ hstep _ ih => exact (sameRounds_apply hstep).trans ih

end MemoryDatabase

/-! ### Tentative and committed values -/

namespace UserAccount

variable {u : UserAccount}

/-- What is committed of asset `n`. -/
def committedBalance (u : UserAccount) (n : Nat) : Int64 := u.committedPart.assets.getD n 0

/-- The tentative balances and the tentative sequence number are the committed ones. -/
structure Unchanged (u : UserAccount) : Prop where
  balances : ∀ n, u.balance n = u.committedBalance n
  seqno : u.seqTracker.tentativeCommitment = u.seqTracker.lastCommittedId

/-- Accounts with the same committed values that have not changed have the same balances. -/
theorem Unchanged.balance_eq {v : UserAccount} (hu : u.Unchanged) (hv : v.Unchanged)
    (h : v.committedPart = u.committedPart) (n : Nat) : v.balance n = u.balance n := by
  rw [hv.balances, hu.balances, committedBalance, committedBalance, h]

theorem balance_of_uncommitted_nil (h : u.uncommittedAssets = []) (n : Nat) :
    u.balance n = (u.ownedAssets.map (·.available)).getD n 0 := by
  unfold balance assetAt
  split_ifs with hn
  · simp [hn]
  · rw [List.getD_eq_default (u.ownedAssets.map _) _ (by simpa using hn), h]
    rfl

theorem unchanged_of_committed (hnone : u.uncommittedAssets = [])
    (hassets : ∀ a ∈ u.ownedAssets, a.available = a.committedAvailable)
    (hseqno : u.seqTracker.sequenceNumberVec = 0) : u.Unchanged := by
  refine ⟨fun n => ?_, ?_⟩
  · rw [balance_of_uncommitted_nil hnone, committedBalance, committedPart,
      List.map_congr_left hassets]
  · rw [SequenceTracker.tentativeCommitment, hseqno]
    exact add_zero _

theorem commit_unchanged (u : UserAccount) : u.commit.Unchanged := by
  refine unchanged_of_committed rfl (fun a ha => ?_) rfl
  rcases List.mem_append.mp ha with ha | ha
  · obtain ⟨b, -, rfl⟩ := List.mem_map.mp ha
    rfl
  · obtain ⟨b, -, rfl⟩ := List.mem_map.mp ha
    rfl

end UserAccount

namespace MemoryDatabase

variable {db db' : MemoryDatabase}

/-! ### The end of a block -/

/-- What `commit_values` does to an account. -/
def commitIn (keys : List AccountID) (u : UserAccount) : UserAccount :=
  if keys.contains u.owner then u.commit else u

theorem commitIn_owner (keys : List AccountID) (u : UserAccount) : (commitIn keys u).owner = u.owner := by
  unfold commitIn
  split_ifs <;> rfl

/-- One account is committed. -/
theorem modifyAccount_commit (hids : db.UniqueIds) {owner : AccountID} {idx : Nat}
    (hidx : db.lookupUser owner = some idx) :
    (db.modifyAccount idx UserAccount.commit).database = db.database.map (commitIn [owner]) := by
  refine List.ext_getElem? fun j => ?_
  rw [modifyAccount, List.getElem?_modify, List.getElem?_map]
  cases hu : db.database[j]? with
  | none => rfl
  | some u =>
    have howner := (hids.lookup u.owner j).mpr (by rw [owners, List.getElem?_map, hu]; rfl)
    by_cases hj : idx = j
    · subst hj
      simp [commitIn, hids.owner_eq hidx hu]
    · have hne : u.owner ≠ owner := by
        rintro rfl
        exact hj (Option.some.inj (hidx.symm.trans howner))
      simp [commitIn, hj, hne]

/-- `commit_values` commits the accounts of the log, which must all be there. -/
theorem commitValues_eq {log : ModificationTrie} (h : db.commitValues log = .ok db')
    (hids : db.UniqueIds) :
    db' = { db with database := db.database.map (commitIn log.keys) } ∧
      ∀ owner ∈ log.keys, owner ∈ db.owners := by
  unfold commitValues at h
  have hnodup := log.nodup_keys
  generalize log.keys = l at h hnodup ⊢
  induction l generalizing db with
  | nil =>
    cases h
    have hid : db'.database.map (commitIn []) = db'.database :=
      (List.map_congr_left fun u _ => if_neg Bool.false_ne_true).trans (List.map_id' _)
    exact ⟨by rw [hid], fun _ howner => absurd howner List.not_mem_nil⟩
  | cons owner l ih =>
    obtain ⟨db₁, hstep, h⟩ := foldlM_cons.mp h
    rw [List.nodup_cons] at hnodup
    cases hidx : db.lookupUser owner with
    | none =>
      rw [hidx] at hstep
      cases hstep
    | some idx =>
      rw [hidx] at hstep
      cases hstep
      have hids₁ : (db.modifyAccount idx UserAccount.commit).UniqueIds :=
        hids.modifyAccount fun _ _ => rfl
      obtain ⟨heq, hmem⟩ := ih hids₁ h hnodup.2
      have howners : (db.modifyAccount idx UserAccount.commit).owners = db.owners :=
        owners_modifyAccount fun _ _ => rfl
      refine ⟨?_, fun owner' howner' => ?_⟩
      · rw [heq, modifyAccount_commit hids hidx, List.map_map]
        have hcommit : ∀ u : UserAccount,
            (commitIn l ∘ commitIn [owner]) u = commitIn (owner :: l) u := by
          intro u
          by_cases hu : u.owner = owner
          · have hcommitted : u.commit.owner ∉ l := fun hmem => hnodup.1 (hu ▸ hmem)
            simp [commitIn, hu, hcommitted]
          · simp [commitIn, hu]
        rw [List.map_congr_left fun u _ => hcommit u]
        rfl
      · rcases List.mem_cons.mp howner' with rfl | howner'
        · exact List.mem_of_getElem? ((hids.lookup _ idx).mp hidx)
        · rw [← howners]
          exact hmem owner' howner'

theorem commitNewAccount_database {u : UserAccount} (h : db.commitNewAccount u = .ok db') :
    db'.database = db.database ++ [u.commit] := by
  obtain ⟨c, -, h⟩ := bind_eq_ok.mp h
  cases h
  rfl

/-- `commit_new_accounts` appends the accounts that the block created. -/
theorem commitNewAccounts_database {n : UInt64} (h : db.commitNewAccounts n = .ok db') :
    db'.database = db.database ++ db.uncommittedDb.map UserAccount.commit := by
  have hfold : ∀ (l : List UserAccount) (d d' : MemoryDatabase),
      l.foldlM commitNewAccount d = .ok d' → d'.database = d.database ++ l.map UserAccount.commit := by
    intro l
    induction l with
    | nil =>
      intro d d' h
      cases h
      simp
    | cons u l ih =>
      intro d d' h
      obtain ⟨d₁, hstep, h⟩ := foldlM_cons.mp h
      rw [ih d₁ d' h, commitNewAccount_database hstep]
      simp
  rw [commitNewAccounts] at h
  split at h
  · cases h
  obtain ⟨db₁, hdb₁, h⟩ := bind_eq_ok.mp h
  cases h
  exact hfold _ db db₁ hdb₁

end MemoryDatabase

end Speedex
