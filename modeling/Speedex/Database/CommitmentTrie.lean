import Speedex.Database.Persistence

/-! The commitment trie mirrors the accounts.  Blocks change accounts and trie separately, and only
for the accounts of a log; a rewind changes accounts without the trie. -/

namespace Speedex

open Lib

/-! ### Changes within a block -/

/-- What transactions and clearing do to the database. -/
inductive DbOp where
  | transferAvailable (idx : Nat) (asset : AssetID) (change : Int64)
  | escrow (idx : Nat) (asset : AssetID) (change : Int64)
  | conditionalTransferAvailable (idx : Nat) (asset : AssetID) (change : Int64)
  | conditionalEscrow (idx : Nat) (asset : AssetID) (change : Int64)
  | reserveSequenceNumber (idx : Nat) (sequenceNumber : UInt64)
  | releaseSequenceNumber (idx : Nat) (sequenceNumber : UInt64)
  | reserveAccountCreation (account : AccountID)
  | releaseAccountCreation (account : AccountID)
  | commitAccountCreation (accountData : UserAccount)

namespace MemoryDatabase

def apply (db : MemoryDatabase) : DbOp → Result MemoryDatabase
  | .transferAvailable idx asset change => .ok (db.transferAvailable idx asset change)
  | .escrow idx asset change => .ok (db.escrow idx asset change)
  | .conditionalTransferAvailable idx asset change =>
    .ok (db.conditionalTransferAvailable idx asset change).2
  | .conditionalEscrow idx asset change => .ok (db.conditionalEscrow idx asset change).2
  | .reserveSequenceNumber idx n => (·.2) <$> db.reserveSequenceNumber idx n
  | .releaseSequenceNumber idx n => db.releaseSequenceNumber idx n
  | .reserveAccountCreation account => .ok (db.reserveAccountCreation account).2
  | .releaseAccountCreation account => .ok (db.releaseAccountCreation account)
  | .commitAccountCreation accountData => .ok (db.commitAccountCreation accountData)

/-- The ids of the accounts, in the order of the vector. -/
def owners (db : MemoryDatabase) : List AccountID := db.database.map UserAccount.owner

/-- The ids of the accounts created in this block. -/
def createdOwners (db : MemoryDatabase) : List AccountID := db.uncommittedDb.map UserAccount.owner

/-- What the views of the database guarantee: they create an account once, after reserving its id,
and release only ids that they do not create. -/
def Allowed (db : MemoryDatabase) : DbOp → Prop
  | .releaseAccountCreation account => account ∉ db.createdOwners
  | .commitAccountCreation accountData =>
    accountData.owner ∈ db.reservedAccountIds ∧ accountData.owner ∉ db.createdOwners
  | _ => True

/-- A sequence of changes. -/
inductive Changes : MemoryDatabase → MemoryDatabase → Prop where
  | refl (db : MemoryDatabase) : Changes db db
  | step {db db₁ db₂ : MemoryDatabase} (op : DbOp) (hop : db.Allowed op)
    (h : db.apply op = .ok db₁) (hrest : Changes db₁ db₂) : Changes db db₂

/-- Every id has one account, in the vector and among the created ones, and the id map finds it. -/
structure UniqueIds (db : MemoryDatabase) : Prop where
  nodup : db.owners.Nodup
  lookup : ∀ id idx, db.lookupUser id = some idx ↔ db.owners[idx]? = some id
  created_nodup : db.createdOwners.Nodup
  created_reserved : ∀ id ∈ db.createdOwners, id ∈ db.reservedAccountIds
  reserved_new : ∀ id ∈ db.reservedAccountIds, id ∉ db.owners

/-- The trie maps exactly the ids of the accounts, each to its account's commitment, save for the
values at the ids in `K`. -/
structure MirrorsExcept (K : AccountID → Prop) (db : MemoryDatabase) : Prop where
  keys : ∀ id, db.commitmentTrie.contains id = true ↔ id ∈ db.owners
  values : ∀ u ∈ db.database, ¬ K u.owner →
    ∃ c, u.produceCommitment = .ok c ∧ db.commitmentTrie.find? u.owner = some c

/-- The trie maps exactly the ids of the accounts, each to its account's commitment. -/
def Mirrors (db : MemoryDatabase) : Prop := db.MirrorsExcept fun _ => False

variable {db db' : MemoryDatabase} {K : AccountID → Prop}

theorem map_modify {α β : Type} {g : α → β} {f : α → α} {l : List α} {i : Nat}
    (h : ∀ a, l[i]? = some a → g (f a) = g a) : (l.modify i f).map g = l.map g := by
  refine List.ext_getElem? fun j => ?_
  rw [List.getElem?_map, List.getElem?_map, List.getElem?_modify]
  by_cases hij : i = j
  · subst hij
    cases hi : l[i]? with
    | none => rfl
    | some a => simp [h a hi]
  · simp [hij]

theorem mem_modify {α : Type} {f : α → α} {l : List α} {i : Nat} {a : α} (h : a ∈ l.modify i f) :
    a ∈ l ∨ ∃ b, l[i]? = some b ∧ a = f b := by
  obtain ⟨j, hj⟩ := List.mem_iff_getElem?.mp h
  rw [List.getElem?_modify] at hj
  obtain ⟨b, hb, hab⟩ := Option.map_eq_some_iff.mp hj
  by_cases hij : i = j
  · subst hij
    exact .inr ⟨b, hb, by simpa using hab.symm⟩
  · rw [if_neg hij] at hab
    exact .inl (hab ▸ List.mem_of_getElem? hb)

/-- A change that keeps what is committed of the account at `idx`. -/
def KeepsAt (db : MemoryDatabase) (idx : Nat) (f : UserAccount → UserAccount) : Prop :=
  ∀ u, db.database[idx]? = some u → (f u).owner = u.owner ∧
    (f u).produceCommitment = u.produceCommitment

/-- A change that keeps what is committed of every account. -/
def Keeps (f : UserAccount → UserAccount) : Prop :=
  ∀ u, (f u).owner = u.owner ∧ (f u).produceCommitment = u.produceCommitment

theorem owners_modifyAccount {f : UserAccount → UserAccount} {idx : Nat}
    (hf : ∀ u, db.database[idx]? = some u → (f u).owner = u.owner) :
    (db.modifyAccount idx f).owners = db.owners := map_modify hf

theorem UniqueIds.modifyAccount (h : db.UniqueIds) {f : UserAccount → UserAccount} {idx : Nat}
    (hf : ∀ u, db.database[idx]? = some u → (f u).owner = u.owner) :
    (db.modifyAccount idx f).UniqueIds := by
  have howners := owners_modifyAccount hf
  exact ⟨howners ▸ h.nodup, howners ▸ h.lookup, h.created_nodup, h.created_reserved,
    howners ▸ h.reserved_new⟩

theorem MirrorsExcept.modifyAccount (h : db.MirrorsExcept K) {f : UserAccount → UserAccount}
    {idx : Nat} (hf : db.KeepsAt idx f) : (db.modifyAccount idx f).MirrorsExcept K := by
  have howners := owners_modifyAccount fun u hu => (hf u hu).1
  refine ⟨howners ▸ h.keys, fun u hu hK => ?_⟩
  rcases mem_modify hu with hu | ⟨v, hv, rfl⟩
  · exact h.values u hu hK
  · rw [(hf v hv).1] at hK ⊢
    rw [(hf v hv).2]
    exact h.values v (List.mem_of_getElem? hv) hK

end MemoryDatabase

namespace UserAccount

/-- Balances keep what is committed of them, whatever is done to what is available. -/
theorem keeps_operateOnAsset {ρ : Type} {asset : AssetID}
    {func : RevertableAsset → ρ × RevertableAsset}
    (hfunc : ∀ a, (func a).2.committedAvailable = a.committedAvailable) :
    MemoryDatabase.Keeps fun u => (u.operateOnAsset asset func).2 := by
  intro u
  simp only [operateOnAsset]
  split
  · exact ⟨rfl, rfl⟩
  · rename_i hlt
    refine ⟨rfl, ?_⟩
    have hassets : (u.ownedAssets.set asset.toNat
        (func (u.ownedAssets.getD asset.toNat .zero)).2).mapIdx
          (fun i a => a.produceCommitment (.ofNat i)) =
        u.ownedAssets.mapIdx fun i a => a.produceCommitment (.ofNat i) := by
      refine List.ext_getElem? fun i => ?_
      rw [List.getElem?_mapIdx, List.getElem?_mapIdx, List.getElem?_set]
      by_cases hi : asset.toNat = i
      · subst hi
        rw [not_le] at hlt
        simp [hlt, RevertableAsset.produceCommitment, hfunc]
      · simp [hi]
    simp only [produceCommitment, List.length_set, hassets]

theorem keeps_transferAvailable (asset : AssetID) (amount : Int64) :
    MemoryDatabase.Keeps (·.transferAvailable asset amount) :=
  keeps_operateOnAsset fun _ => rfl

theorem keeps_escrow (asset : AssetID) (amount : Int64) :
    MemoryDatabase.Keeps (·.escrow asset amount) :=
  keeps_operateOnAsset fun _ => rfl

theorem keeps_conditionalTransferAvailable (asset : AssetID) (amount : Int64) :
    MemoryDatabase.Keeps fun u => (u.conditionalTransferAvailable asset amount).2 := by
  refine keeps_operateOnAsset fun a => ?_
  unfold RevertableAsset.conditionalTransferAvailable
  split_ifs <;> rfl

theorem keeps_conditionalEscrow (asset : AssetID) (amount : Int64) :
    MemoryDatabase.Keeps fun u => (u.conditionalEscrow asset amount).2 := by
  refine keeps_operateOnAsset fun a => ?_
  unfold RevertableAsset.conditionalEscrow RevertableAsset.conditionalTransferAvailable
  split_ifs <;> rfl

theorem keeps_reserveSequenceNumber (n : UInt64) :
    MemoryDatabase.Keeps fun u => (u.reserveSequenceNumber n).2 := by
  intro u
  have hlast : (u.seqTracker.reserveSequenceNumber n).2.lastCommittedId =
      u.seqTracker.lastCommittedId := by
    simp only [SequenceTracker.reserveSequenceNumber]
    split_ifs <;> rfl
  simp [reserveSequenceNumber, produceCommitment, SequenceTracker.produceCommitment, hlast]

theorem releaseSequenceNumber_keeps {u u' : UserAccount} {n : UInt64}
    (h : u.releaseSequenceNumber n = .ok u') :
    u'.owner = u.owner ∧ u'.produceCommitment = u.produceCommitment := by
  obtain ⟨t, ht, h⟩ := bind_eq_ok.mp h
  cases h
  have hlast : t.lastCommittedId = u.seqTracker.lastCommittedId := by
    simp only [SequenceTracker.releaseSequenceNumber] at ht
    split_ifs at ht
    cases ht
    rfl
  simp [produceCommitment, SequenceTracker.produceCommitment, hlast]

theorem keeps_rollback : MemoryDatabase.Keeps rollback := by
  intro u
  simp [rollback, produceCommitment, SequenceTracker.produceCommitment, SequenceTracker.rollback,
    RevertableAsset.produceCommitment, RevertableAsset.rollback, List.mapIdx_eq_zipIdx_map,
    List.zipIdx_map, Function.comp_def]

end UserAccount

namespace MemoryDatabase

variable {db db' : MemoryDatabase} {K : AccountID → Prop}

/-- The ids and the trie after a change. -/
theorem apply_keeps {op : DbOp} (hop : db.Allowed op) (h : db.apply op = .ok db')
    (hids : db.UniqueIds) : db'.UniqueIds ∧ (db.MirrorsExcept K → db'.MirrorsExcept K) := by
  have hat : ∀ {f : UserAccount → UserAccount} {idx : Nat}, db.KeepsAt idx f →
      (db.modifyAccount idx f).UniqueIds ∧
        (db.MirrorsExcept K → (db.modifyAccount idx f).MirrorsExcept K) := fun hf =>
    ⟨hids.modifyAccount fun u hu => (hf u hu).1, fun hm => hm.modifyAccount hf⟩
  have hall : ∀ {f : UserAccount → UserAccount} {idx : Nat}, Keeps f →
      (db.modifyAccount idx f).UniqueIds ∧
        (db.MirrorsExcept K → (db.modifyAccount idx f).MirrorsExcept K) := fun hf =>
    hat fun u _ => hf u
  cases op with
  | transferAvailable idx asset change =>
    cases h
    exact hall (UserAccount.keeps_transferAvailable asset change)
  | escrow idx asset change =>
    cases h
    exact hall (UserAccount.keeps_escrow asset change)
  | conditionalTransferAvailable idx asset change =>
    cases h
    exact hall (UserAccount.keeps_conditionalTransferAvailable asset change)
  | conditionalEscrow idx asset change =>
    cases h
    exact hall (UserAccount.keeps_conditionalEscrow asset change)
  | reserveSequenceNumber idx n =>
    obtain ⟨⟨status, db₁⟩, hr, rfl⟩ := map_eq_ok.mp h
    rw [MemoryDatabase.reserveSequenceNumber] at hr
    split at hr
    · cases hr
    · cases hr
      exact hall (UserAccount.keeps_reserveSequenceNumber n)
  | releaseSequenceNumber idx n =>
    change db.releaseSequenceNumber idx n = .ok db' at h
    rw [MemoryDatabase.releaseSequenceNumber] at h
    split at h
    · cases h
    · rename_i u hu
      obtain ⟨u', hu', h⟩ := bind_eq_ok.mp h
      cases h
      refine hat fun v hv => ?_
      cases hu.symm.trans hv
      exact UserAccount.releaseSequenceNumber_keeps hu'
  | reserveAccountCreation account =>
    cases h
    unfold MemoryDatabase.reserveAccountCreation
    split_ifs with hmap hreserved
    · exact ⟨hids, id⟩
    · exact ⟨hids, id⟩
    · refine ⟨⟨hids.nodup, hids.lookup, hids.created_nodup, fun id hid => ?_, fun id hid => ?_⟩,
        fun hm => ⟨hm.keys, hm.values⟩⟩
      · exact Finset.mem_insert_of_mem (hids.created_reserved id hid)
      · rcases Finset.mem_insert.mp hid with rfl | hid
        · intro hmem
          obtain ⟨idx, hidx⟩ := List.mem_iff_getElem?.mp hmem
          have hfind := (hids.lookup id idx).mpr hidx
          rw [lookupUser] at hfind
          simp [SortedMap.contains, hfind] at hmap
        · exact hids.reserved_new id hid
  | releaseAccountCreation account =>
    cases h
    refine ⟨⟨hids.nodup, hids.lookup, hids.created_nodup, fun id hid => ?_, fun id hid => ?_⟩,
      fun hm => ⟨hm.keys, hm.values⟩⟩
    · refine Finset.mem_erase.mpr ⟨?_, hids.created_reserved id hid⟩
      rintro rfl
      exact hop hid
    · exact hids.reserved_new id (Finset.mem_of_mem_erase hid)
  | commitAccountCreation accountData =>
    cases h
    have hcreated : (db.commitAccountCreation accountData).createdOwners =
        db.createdOwners ++ [accountData.owner] := by
      simp [commitAccountCreation, createdOwners]
    refine ⟨⟨hids.nodup, hids.lookup, ?_, fun id hid => ?_, hids.reserved_new⟩,
      fun hm => ⟨hm.keys, hm.values⟩⟩
    · rw [hcreated]
      exact List.nodup_append'.mpr ⟨hids.created_nodup, List.nodup_singleton _, by
        simpa using hop.2⟩
    · rw [hcreated, List.mem_append, List.mem_singleton] at hid
      rcases hid with hid | rfl
      · exact hids.created_reserved id hid
      · exact hop.1

theorem changes_keeps (h : db.Changes db') (hids : db.UniqueIds) :
    db'.UniqueIds ∧ (db.MirrorsExcept K → db'.MirrorsExcept K) := by
  induction h with
  | refl => exact ⟨hids, id⟩
  | step op hop hstep _ ih =>
    obtain ⟨hids₁, hm₁⟩ := apply_keeps (K := K) hop hstep hids
    obtain ⟨hids₂, hm₂⟩ := ih hids₁
    exact ⟨hids₂, hm₂ ∘ hm₁⟩

/-! ### The end of a block -/

/-- Every id has one account in the vector, and the id map finds it. -/
structure Located (db : MemoryDatabase) : Prop where
  nodup : db.owners.Nodup
  lookup : ∀ id idx, db.lookupUser id = some idx ↔ db.owners[idx]? = some id

/-- The accounts of the vector, the id map and the trie, without what is reserved. -/
structure IndexedExcept (K : AccountID → Prop) (db : MemoryDatabase) : Prop where
  nodup : db.owners.Nodup
  lookup : ∀ id idx, db.lookupUser id = some idx ↔ db.owners[idx]? = some id
  mirrors : db.MirrorsExcept K

theorem getElem?_concat {α : Type} {l : List α} {a b : α} {i : Nat} :
    (l ++ [a])[i]? = some b ↔ l[i]? = some b ∨ (i = l.length ∧ a = b) := by
  rw [List.getElem?_append]
  split
  · rename_i hlt
    constructor
    · exact .inl
    · rintro (h | ⟨rfl, -⟩)
      · exact h
      · omega
  · rename_i hge
    have hnone : l[i]? = none := List.getElem?_eq_none (by omega)
    rw [hnone, List.getElem?_singleton]
    split
    · rename_i hzero
      have hi : i = l.length := by omega
      simp [hi]
    · simp
      omega

theorem commitNewAccount_located {u : UserAccount} (h : db.commitNewAccount u = .ok db')
    (hdb : db.Located) (hnew : u.owner ∉ db.owners) :
    db'.Located ∧ db'.owners = db.owners ++ [u.owner] := by
  obtain ⟨c, -, h⟩ := bind_eq_ok.mp h
  cases h
  have howners : ∀ d, MemoryDatabase.owners { db with
      database := db.database ++ [u.commit]
      commitmentTrie := d
      userIdToIdxMap := db.userIdToIdxMap.insert u.commit.owner db.database.length } =
      db.owners ++ [u.owner] := fun d => by
    simp [owners, UserAccount.commit]
  have hlen : db.owners.length = db.database.length := List.length_map _
  refine ⟨⟨?_, fun id idx => ?_⟩, howners _⟩
  · rw [howners]
    exact List.nodup_append'.mpr ⟨hdb.nodup, List.nodup_singleton _, by simpa using hnew⟩
  · rw [howners, getElem?_concat, ← hdb.lookup, hlen]
    show (db.userIdToIdxMap.insert u.owner db.database.length).find? id = some idx ↔ _
    rw [SortedMap.find?_insert]
    by_cases hid : u.owner = id
    · subst hid
      have hnone : db.lookupUser u.owner ≠ some idx := fun hfind =>
        hnew (List.mem_of_getElem? ((hdb.lookup _ _).mp hfind))
      simp [hnone, eq_comm]
    · simp [hid, lookupUser]

theorem commitNewAccount_indexed {u : UserAccount} (h : db.commitNewAccount u = .ok db')
    (hdb : db.IndexedExcept K) (hnew : u.owner ∉ db.owners) :
    db'.IndexedExcept K ∧ db'.owners = db.owners ++ [u.owner] := by
  obtain ⟨hlocated, howners⟩ := commitNewAccount_located h ⟨hdb.nodup, hdb.lookup⟩ hnew
  refine ⟨⟨hlocated.nodup, hlocated.lookup, ⟨fun id => ?_, fun v hv hK => ?_⟩⟩, howners⟩
  · rw [howners, List.mem_append, List.mem_singleton, ← hdb.mirrors.keys, SortedMap.contains]
    obtain ⟨c, -, h⟩ := bind_eq_ok.mp h
    cases h
    rw [SortedMap.find?_insert]
    by_cases hid : u.commit.owner = id
    · rw [if_pos hid]
      simp [show id = u.owner from hid.symm]
    · rw [if_neg hid]
      simp [SortedMap.contains, show id ≠ u.owner from fun h => hid h.symm]
  · obtain ⟨c, hc, h⟩ := bind_eq_ok.mp h
    cases h
    rcases List.mem_append.mp hv with hv | hv
    · obtain ⟨c', hc', hfind⟩ := hdb.mirrors.values v hv hK
      refine ⟨c', hc', ?_⟩
      have hne : u.commit.owner ≠ v.owner := fun heq => hnew (List.mem_map.mpr ⟨v, hv, heq.symm⟩)
      rw [SortedMap.find?_insert, if_neg hne, hfind]
    · cases List.mem_singleton.mp hv
      exact ⟨c, hc, by rw [SortedMap.find?_insert, if_pos rfl]⟩

/-- New accounts with new ids. -/
theorem commitNewAccount_invariant {P : MemoryDatabase → Prop} {l : List UserAccount}
    (hstep : ∀ d u d', P d → u.owner ∉ d.owners → d.commitNewAccount u = .ok d' →
      P d' ∧ d'.owners = d.owners ++ [u.owner])
    (h : l.foldlM commitNewAccount db = .ok db') (hdb : P db)
    (hnodup : (l.map UserAccount.owner).Nodup) (hnew : ∀ u ∈ l, u.owner ∉ db.owners) : P db' := by
  induction l generalizing db with
  | nil =>
    cases h
    exact hdb
  | cons u l ih =>
    obtain ⟨db₁, hone, h⟩ := foldlM_cons.mp h
    rw [List.map_cons, List.nodup_cons] at hnodup
    obtain ⟨hdb₁, howners⟩ := hstep db u db₁ hdb (hnew u List.mem_cons_self) hone
    refine ih h hdb₁ hnodup.2 fun v hv => ?_
    rw [howners, List.mem_append, List.mem_singleton]
    rintro (hmem | heq)
    · exact hnew v (List.mem_cons_of_mem _ hv) hmem
    · exact hnodup.1 (heq ▸ List.mem_map_of_mem hv)

theorem commitNewAccount_indexed_all {l : List UserAccount}
    (h : l.foldlM commitNewAccount db = .ok db') (hdb : db.IndexedExcept K)
    (hnodup : (l.map UserAccount.owner).Nodup) (hnew : ∀ u ∈ l, u.owner ∉ db.owners) :
    db'.IndexedExcept K :=
  commitNewAccount_invariant (fun _ _ _ hd hu hone => commitNewAccount_indexed hone hd hu) h hdb hnodup
    hnew

theorem Located.uniqueIds (h : db.Located) (hcreated : db.uncommittedDb = [])
    (hreserved : db.reservedAccountIds = ∅) : db.UniqueIds := by
  refine ⟨h.nodup, h.lookup, ?_, ?_, ?_⟩ <;> simp [createdOwners, hcreated, hreserved]

theorem IndexedExcept.uniqueIds (h : db.IndexedExcept K) (hcreated : db.uncommittedDb = [])
    (hreserved : db.reservedAccountIds = ∅) : db.UniqueIds :=
  Located.uniqueIds ⟨h.nodup, h.lookup⟩ hcreated hreserved

theorem UniqueIds.commitNewAccounts {n : UInt64} (hids : db.UniqueIds)
    (h : db.commitNewAccounts n = .ok db') : db'.UniqueIds := by
  rw [MemoryDatabase.commitNewAccounts] at h
  split at h
  · cases h
  obtain ⟨db₁, hfold, h⟩ := bind_eq_ok.mp h
  cases h
  have hdb₁ : db₁.Located := commitNewAccount_invariant
    (fun _ _ _ hd hu hone => commitNewAccount_located hone hd hu) hfold ⟨hids.nodup, hids.lookup⟩
    hids.created_nodup fun u hu =>
      hids.reserved_new _ (hids.created_reserved _ (List.mem_map_of_mem hu))
  exact Located.uniqueIds ⟨hdb₁.nodup, hdb₁.lookup⟩ rfl rfl

theorem commitNewAccounts_keeps {n : UInt64} (h : db.commitNewAccounts n = .ok db')
    (hids : db.UniqueIds) (hm : db.MirrorsExcept K) :
    db'.UniqueIds ∧ db'.MirrorsExcept K := by
  rw [commitNewAccounts] at h
  split at h
  · cases h
  obtain ⟨db₁, hfold, h⟩ := bind_eq_ok.mp h
  cases h
  have hdb₁ := commitNewAccount_indexed_all hfold ⟨hids.nodup, hids.lookup, hm⟩
    hids.created_nodup fun u hu =>
      hids.reserved_new _ (hids.created_reserved _ (List.mem_map_of_mem hu))
  have hdb' : IndexedExcept K (clearInternalDataStructures { db₁ with
      accountCreationThunks := db₁.accountCreationThunks ++ [⟨n, db.uncommittedDb.length⟩] }) :=
    ⟨hdb₁.nodup, hdb₁.lookup, hdb₁.mirrors.keys, hdb₁.mirrors.values⟩
  exact ⟨hdb'.uniqueIds rfl rfl, hdb'.mirrors⟩

/-- The account that the id map finds has that id. -/
theorem UniqueIds.owner_eq (h : db.UniqueIds) {id : AccountID} {idx : Nat} {u : UserAccount}
    (hfind : db.lookupUser id = some idx) (hu : db.database[idx]? = some u) : u.owner = id := by
  have howner := (h.lookup id idx).mp hfind
  rw [owners, List.getElem?_map, hu] at howner
  exact Option.some.inj howner

theorem MirrorsExcept.modifyExempt (h : db.MirrorsExcept K) {f : UserAccount → UserAccount}
    {idx : Nat} (hf : ∀ u, db.database[idx]? = some u → (f u).owner = u.owner ∧ K u.owner) :
    (db.modifyAccount idx f).MirrorsExcept K := by
  have howners := owners_modifyAccount fun u hu => (hf u hu).1
  refine ⟨howners ▸ h.keys, fun u hu hK => ?_⟩
  rcases mem_modify hu with hu | ⟨v, hv, rfl⟩
  · exact h.values u hu hK
  · exact absurd ((hf v hv).1 ▸ (hf v hv).2) hK

theorem MirrorsExcept.mono {K' : AccountID → Prop} (h : db.MirrorsExcept K)
    (hK : ∀ id, K id → K' id) : db.MirrorsExcept K' :=
  ⟨h.keys, fun u hu hK' => h.values u hu fun hu' => hK' (hK _ hu')⟩

theorem commitValues_keeps {log : ModificationTrie} (h : db.commitValues log = .ok db')
    (hids : db.UniqueIds) (hm : db.MirrorsExcept K) (hK : ∀ id ∈ log.keys, K id) :
    db'.UniqueIds ∧ db'.MirrorsExcept K := by
  refine foldlM_invariant (P := fun d => UniqueIds d ∧ MirrorsExcept K d)
    (fun d owner d' hmem hd hstep => ?_) ⟨hids, hm⟩ h
  split at hstep
  · rename_i idx hidx
    cases hstep
    refine ⟨hd.1.modifyAccount fun _ _ => rfl, hd.2.modifyExempt fun u hu => ⟨rfl, ?_⟩⟩
    rw [hd.1.owner_eq hidx hu]
    exact hK owner hmem
  · cases hstep

/-- A change of the trie's value at an id that the trie has. -/
theorem contains_modify {t : SortedMap AccountID AccountCommitment} {owner : AccountID}
    {f : AccountCommitment → AccountCommitment} (id : AccountID) :
    (t.modify owner f).contains id = t.contains id := by
  simp only [SortedMap.contains, SortedMap.find?_modify]
  split_ifs <;> simp

theorem modifyCommitments_keeps {log : ModificationTrie}
    {commitment : UserAccount → Result AccountCommitment}
    (h : db.modifyCommitments log commitment = .ok db') (hids : db.UniqueIds)
    (hm : db.MirrorsExcept K) (hK : ∀ id ∈ log.keys, K id) :
    db'.UniqueIds ∧ db'.MirrorsExcept K := by
  refine foldlM_invariant (P := fun d => UniqueIds d ∧ MirrorsExcept K d)
    (fun d owner d' hmem hd hstep => ?_) ⟨hids, hm⟩ h
  split at hstep
  · cases hstep
  obtain ⟨c, -, hstep⟩ := bind_eq_ok.mp hstep
  cases hstep
  refine ⟨⟨hd.1.nodup, hd.1.lookup, hd.1.created_nodup, hd.1.created_reserved, hd.1.reserved_new⟩,
    fun id => ?_, fun u hu hu' => ?_⟩
  · rw [contains_modify]
    exact hd.2.keys id
  · obtain ⟨c', hc', hfind⟩ := hd.2.values u hu hu'
    refine ⟨c', hc', ?_⟩
    have hne : owner ≠ u.owner := fun heq => hu' (heq ▸ hK owner hmem)
    rw [SortedMap.find?_modify, if_neg hne, hfind]

/-- The account with an id is the one that the id map finds. -/
theorem UniqueIds.eq_of_owner (h : db.UniqueIds) {u v : UserAccount} {idx : Nat}
    (hu : u ∈ db.database) (hfind : db.lookupUser u.owner = some idx)
    (hv : db.database[idx]? = some v) : u = v := by
  obtain ⟨j, hj⟩ := List.mem_iff_getElem?.mp hu
  have hfind' := (h.lookup u.owner j).mpr (by rw [owners, List.getElem?_map, hj]; rfl)
  cases hfind.symm.trans hfind'
  exact Option.some.inj (hj.symm.trans hv)

theorem UniqueIds.withTrie (h : db.UniqueIds) (t : SortedMap AccountID AccountCommitment) :
    UniqueIds { db with commitmentTrie := t } :=
  ⟨h.nodup, h.lookup, h.created_nodup, h.created_reserved, h.reserved_new⟩

/-- The entry that `commitment` gives an account. -/
def Entry (commitment : UserAccount → Result AccountCommitment)
    (t : SortedMap AccountID AccountCommitment) (u : UserAccount) : Prop :=
  ∃ c, commitment u = .ok c ∧ t.find? u.owner = some c

/-- One iteration of the loop over the log's keys, at the account that is found. -/
theorem modifyCommitments_step {owner : AccountID}
    {commitment : UserAccount → Result AccountCommitment}
    (h : (match (db.lookupUser owner).bind (db.database[·]?) with
      | none => .error (.runtimeError "unordered_map::at")
      | some u => do
        let c ← commitment u
        return { db with commitmentTrie := db.commitmentTrie.modify owner fun _ => c } :
          Result MemoryDatabase) = .ok db') :
    ∃ idx v c, db.lookupUser owner = some idx ∧ db.database[idx]? = some v ∧
      commitment v = .ok c ∧
      db' = { db with commitmentTrie := db.commitmentTrie.modify owner fun _ => c } := by
  split at h
  · cases h
  rename_i v hv
  obtain ⟨idx, hidx, hv⟩ := Option.bind_eq_some_iff.mp hv
  obtain ⟨c, hc, h⟩ := bind_eq_ok.mp h
  cases h
  exact ⟨idx, v, c, hidx, hv, hc, rfl⟩

/-- The loop over the log leaves the accounts alone and enters every account that the log names. -/
theorem modifyCommitments_entries {log : ModificationTrie}
    {commitment : UserAccount → Result AccountCommitment}
    (h : db.modifyCommitments log commitment = .ok db') (hids : db.UniqueIds)
    (hkeys : ∀ id ∈ db.owners, db.commitmentTrie.contains id = true) :
    db'.database = db.database ∧
      ∀ u ∈ db.database, u.owner ∈ log.keys → Entry commitment db'.commitmentTrie u := by
  rw [modifyCommitments] at h
  -- an account still to come, or already entered
  suffices hgoal : db'.database = db.database ∧ ∀ u ∈ db.database,
      u.owner ∈ log.keys ∨ Entry commitment db.commitmentTrie u →
        Entry commitment db'.commitmentTrie u from
    ⟨hgoal.1, fun u hu hlog => hgoal.2 u hu (.inl hlog)⟩
  generalize log.keys = owners' at h ⊢
  induction owners' generalizing db with
  | nil =>
    cases h
    exact ⟨rfl, fun u _ hu => hu.resolve_left List.not_mem_nil⟩
  | cons owner rest ih =>
    obtain ⟨db₁, hstep, h⟩ := foldlM_cons.mp h
    obtain ⟨idx, v, c, hidx, hv, hc, rfl⟩ := modifyCommitments_step hstep
    obtain ⟨hdb, hentries⟩ := ih (hids.withTrie (db.commitmentTrie.modify owner fun _ => c))
      (fun id hid => (contains_modify id).trans (hkeys id hid)) h
    refine ⟨hdb, fun u hu hcase => hentries u hu ?_⟩
    by_cases howner : owner = u.owner
    · subst howner
      have heq := hids.eq_of_owner hu hidx hv
      subst heq
      right
      have hcontains := hkeys u.owner (List.mem_map_of_mem hu)
      rw [SortedMap.contains, Option.isSome_iff_exists] at hcontains
      obtain ⟨c', hc'⟩ := hcontains
      refine ⟨c, hc, ?_⟩
      rw [SortedMap.find?_modify, if_pos rfl, hc']
      rfl
    · rcases hcase with hmem | ⟨c', hc', hfind⟩
      · exact .inl ((List.mem_cons.mp hmem).resolve_left fun heq => howner heq.symm)
      · refine .inr ⟨c', hc', ?_⟩
        rw [SortedMap.find?_modify, if_neg howner, hfind]

/-- Entering the committed values of the log's accounts repairs the trie there. -/
theorem setTrie_mirrors {log : ModificationTrie}
    (h : db.setTrieCommitmentToUserAccountCommits log = .ok db') (hids : db.UniqueIds)
    (hm : db.MirrorsExcept (· ∈ log.keys)) : db'.UniqueIds ∧ db'.Mirrors := by
  obtain ⟨hids', hm'⟩ := modifyCommitments_keeps h hids hm fun _ h => h
  obtain ⟨hdb, hentries⟩ := modifyCommitments_entries h hids fun id hid => (hm.keys id).mpr hid
  refine ⟨hids', hm'.keys, fun u hu _ => ?_⟩
  by_cases hlog : u.owner ∈ log.keys
  · exact hentries u (hdb ▸ hu) hlog
  · exact hm'.values u hu hlog

/-- The entry of an account is what the account would commit to, if it can commit to anything. -/
def Settled (t : SortedMap AccountID AccountCommitment) (u : UserAccount) : Prop :=
  ∃ c, t.find? u.owner = some c ∧ ∀ c', u.produceCommitment = .ok c' → c' = c

/-- Committing an account makes its tentative commitment the real one. -/
theorem Entry.settled_commit {t : SortedMap AccountID AccountCommitment} {u : UserAccount}
    (h : Entry UserAccount.tentativeCommitment t u) : Settled t u.commit := by
  obtain ⟨c, hc, hfind⟩ := h
  refine ⟨c, hfind, fun c' hc' => ?_⟩
  simp only [UserAccount.tentativeCommitment] at hc
  simp only [UserAccount.produceCommitment] at hc'
  split_ifs at hc hc'
  cases hc
  cases hc'
  have hassets : u.commit.ownedAssets.mapIdx (fun i a => a.produceCommitment (.ofNat i)) =
      u.ownedAssets.mapIdx (fun i a => a.tentativeCommitment (.ofNat i)) ++
        u.uncommittedAssets.mapIdx
          fun i a => a.tentativeCommitment (.ofNat (i + u.ownedAssets.length)) := by
    rw [UserAccount.commit, List.mapIdx_append, List.length_map]
    congr 1 <;> refine List.ext_getElem? fun i => ?_ <;>
      simp [RevertableAsset.produceCommitment, RevertableAsset.tentativeCommitment,
        RevertableAsset.commit, RevertableAsset.ofAmount, Function.comp_def]
  rw [hassets]
  rfl

theorem commitValues_settled {log : ModificationTrie} (h : db.commitValues log = .ok db')
    (hids : db.UniqueIds)
    (hlog : ∀ u ∈ db.database, u.owner ∈ log.keys →
      Entry UserAccount.tentativeCommitment db.commitmentTrie u)
    (hrest : ∀ u ∈ db.database, u.owner ∉ log.keys → Settled db.commitmentTrie u) :
    ∀ u ∈ db'.database, Settled db'.commitmentTrie u := by
  have hnodup := log.nodup_keys
  rw [commitValues] at h
  generalize log.keys = owners' at h hlog hrest hnodup
  induction owners' generalizing db with
  | nil =>
    cases h
    exact fun u hu => hrest u hu List.not_mem_nil
  | cons owner rest ih =>
    obtain ⟨db₁, hstep, h⟩ := foldlM_cons.mp h
    split at hstep
    · rename_i idx hidx
      cases hstep
      rw [List.nodup_cons] at hnodup
      -- an account of the new vector is an old one with another id, or the one just committed
      have hcases : ∀ u ∈ (db.modifyAccount idx UserAccount.commit).database,
          (u ∈ db.database ∧ u.owner ≠ owner) ∨ (u.owner = owner ∧ Settled db.commitmentTrie u) := by
        intro u hu
        obtain ⟨j, hj⟩ := List.mem_iff_getElem?.mp hu
        rw [modifyAccount, List.getElem?_modify] at hj
        obtain ⟨v, hv, huv⟩ := Option.map_eq_some_iff.mp hj
        by_cases hij : idx = j
        · subst hij
          rw [if_pos rfl] at huv
          subst huv
          have howner := hids.owner_eq hidx hv
          refine .inr ⟨howner, (hlog v (List.mem_of_getElem? hv) ?_).settled_commit⟩
          rw [howner]
          exact List.mem_cons_self
        · rw [if_neg hij] at huv
          subst huv
          refine .inl ⟨List.mem_of_getElem? hv, fun howner => hij ?_⟩
          have hfind := (hids.lookup v.owner j).mpr (by rw [owners, List.getElem?_map, hv]; rfl)
          rw [howner] at hfind
          exact Option.some.inj (hidx.symm.trans hfind)
      have hids₁ : (db.modifyAccount idx UserAccount.commit).UniqueIds :=
        hids.modifyAccount fun _ _ => rfl
      refine ih hids₁ h (fun u hu hmem => ?_) (fun u hu hmem => ?_)
        hnodup.2
      · rcases hcases u hu with ⟨hu, -⟩ | ⟨howner, -⟩
        · exact hlog u hu (List.mem_cons_of_mem _ hmem)
        · exact absurd (howner ▸ hmem) hnodup.1
      · rcases hcases u hu with ⟨hu, hne⟩ | ⟨-, hsettled⟩
        · exact hrest u hu (List.not_mem_cons_of_ne_of_not_mem hne hmem)
        · exact hsettled
    · cases hstep

/-! ### Undoing blocks -/

theorem owners_dropAccounts (db : MemoryDatabase) (n : Nat) :
    (db.dropAccounts n).owners = db.owners.take (db.database.length - n) := List.map_take

/-- An id is kept or dropped, not both. -/
theorem disjoint_dropAccounts (hnodup : db.owners.Nodup) (k : Nat) :
    List.Disjoint (db.owners.take k) (db.owners.drop k) :=
  (List.nodup_append'.mp ((List.take_append_drop k db.owners).symm ▸ hnodup)).2.2

/-- The id map finds the accounts that stay. -/
theorem lookupUser_dropAccounts (hnodup : db.owners.Nodup)
    (hlookup : ∀ id idx, db.lookupUser id = some idx ↔ db.owners[idx]? = some id) (n : Nat)
    (id : AccountID) (idx : Nat) : (db.dropAccounts n).lookupUser id = some idx ↔
      (db.dropAccounts n).owners[idx]? = some id := by
  set k := db.database.length - n with hk
  have hdropped : (db.database.drop k).map UserAccount.owner = db.owners.drop k := List.map_drop
  have htake : (db.owners.take k)[idx]? = some id ↔
      id ∉ db.owners.drop k ∧ db.owners[idx]? = some id := by
    constructor
    · intro h
      refine ⟨fun hmem => disjoint_dropAccounts hnodup k (List.mem_of_getElem? h) hmem, ?_⟩
      rw [List.getElem?_take] at h
      split at h
      · exact h
      · cases h
    · rintro ⟨hmem, h⟩
      rw [← List.take_append_drop k db.owners, List.getElem?_append] at h
      split at h
      · exact h
      · exact absurd (List.mem_of_getElem? h) hmem
  rw [owners_dropAccounts, htake, ← hlookup]
  show (db.userIdToIdxMap.eraseAll ((db.database.drop k).map UserAccount.owner)).find? id =
    some idx ↔ _
  rw [SortedMap.find?_eraseAll, hdropped, lookupUser]
  split_ifs with hmem
  · simp [hmem]
  · simp [hmem]

theorem Located.dropAccounts (h : db.Located) (n : Nat) : (db.dropAccounts n).Located :=
  ⟨owners_dropAccounts db n ▸ h.nodup.sublist (List.take_sublist _ _),
    lookupUser_dropAccounts h.nodup h.lookup n⟩

theorem dropAccounts_indexed (hdb : db.IndexedExcept K) (n : Nat) :
    (db.dropAccounts n).IndexedExcept K := by
  have howners := owners_dropAccounts db n
  have hlocated := Located.dropAccounts ⟨hdb.nodup, hdb.lookup⟩ n
  refine ⟨hlocated.nodup, hlocated.lookup, fun id => ?_, fun u hu hK => ?_⟩
  all_goals
    set k := db.database.length - n with hk
    have hdropped : (db.database.drop k).map UserAccount.owner = db.owners.drop k := List.map_drop
    have hdisjoint := disjoint_dropAccounts hdb.nodup k
  · have hsplit : id ∈ db.owners ↔ id ∈ db.owners.take k ∨ id ∈ db.owners.drop k := by
      rw [← List.mem_append, List.take_append_drop]
    rw [howners]
    show (db.commitmentTrie.eraseAll ((db.database.drop k).map UserAccount.owner)).contains id =
      true ↔ _
    have hkeys := hdb.mirrors.keys id
    rw [SortedMap.contains] at hkeys ⊢
    rw [SortedMap.find?_eraseAll, hdropped]
    split_ifs with hmem
    · simpa using fun htake => hdisjoint htake hmem
    · rw [hkeys, hsplit]
      simp [hmem]
  · have hu' : u ∈ db.database.take k := hu
    obtain ⟨c, hc, hfind⟩ := hdb.mirrors.values u (List.mem_of_mem_take hu') hK
    refine ⟨c, hc, ?_⟩
    show (db.commitmentTrie.eraseAll ((db.database.drop k).map UserAccount.owner)).find? u.owner = _
    have hmem : u.owner ∈ db.owners.take k := by
      rw [← howners]
      exact List.mem_map_of_mem hu
    rw [SortedMap.find?_eraseAll, hdropped, if_neg (hdisjoint hmem), hfind]

/-- Undoing account creations keeps the ids and the trie of the accounts that stay. -/
theorem rollbackNewAccounts_keeps (hids : db.UniqueIds) (hm : db.MirrorsExcept K) (n : UInt64) :
    (db.rollbackNewAccounts n).UniqueIds ∧ (db.rollbackNewAccounts n).MirrorsExcept K := by
  have hdropped : ∀ (l : List AccountCreationThunk) (d : MemoryDatabase), d.IndexedExcept K →
      (l.foldl (fun d thunk => d.dropAccounts thunk.numAccountsCreated) d).IndexedExcept K := by
    intro l
    induction l with
    | nil => exact fun _ h => h
    | cons thunk l ih => exact fun d h => ih _ (dropAccounts_indexed h _)
  have hdb := hdropped (db.accountCreationThunks.filter (·.currentBlockNumber > n)) db
    ⟨hids.nodup, hids.lookup, hm⟩
  have hdb' : (db.rollbackNewAccounts n).IndexedExcept K :=
    ⟨hdb.nodup, hdb.lookup, hdb.mirrors.keys, hdb.mirrors.values⟩
  exact ⟨hdb'.uniqueIds rfl rfl, hdb'.mirrors⟩

theorem rollbackValues_keeps (hids : db.UniqueIds) (hm : db.MirrorsExcept K) :
    db.rollbackValues.UniqueIds ∧ db.rollbackValues.MirrorsExcept K := by
  have howners : db.rollbackValues.owners = db.owners := by
    simp [rollbackValues, owners, UserAccount.rollback, Function.comp_def]
  refine ⟨⟨howners ▸ hids.nodup, howners ▸ hids.lookup, hids.created_nodup, hids.created_reserved,
    howners ▸ hids.reserved_new⟩, howners ▸ hm.keys, fun u hu hK => ?_⟩
  obtain ⟨v, hv, rfl⟩ := List.mem_map.mp hu
  rw [(UserAccount.keeps_rollback v).1] at hK ⊢
  rw [(UserAccount.keeps_rollback v).2]
  exact hm.values v hv hK

end MemoryDatabase

namespace UserAccount

/-- The loop of `UserAccount(commitment)` over assets that are numbered from the front. -/
theorem ofCommitment_assets {l : List RevertableAsset} {owned : List RevertableAsset}
    (hlen : owned.length + l.length ≤ 256) :
    (l.mapIdx fun i a => a.produceCommitment (.ofNat (i + owned.length))).foldlM
      (fun (owned : List RevertableAsset) (a : AssetCommitment) =>
        (if a.asset.toNat < owned.length then
          .error (.runtimeError "assets in commitment should be sorted")
        else .ok (owned ++ List.replicate (a.asset.toNat - owned.length) (.ofAmount 0) ++
          [RevertableAsset.ofAmount a.amountAvailable.toInt64]) : Result (List RevertableAsset)))
      owned = .ok (owned ++ l.map fun a => .ofAmount a.committedAvailable) := by
  induction l generalizing owned with
  | nil => simp [pure, Except.pure]
  | cons a l ih =>
    rw [List.length_cons] at hlen
    have hnat : (UInt32.ofNat owned.length).toNat = owned.length := by
      rw [UInt32.toNat_ofNat']
      exact Nat.mod_eq_of_lt (by omega)
    rw [List.mapIdx_cons, foldlM_cons]
    refine ⟨owned ++ [.ofAmount a.committedAvailable], ?_, ?_⟩
    · simp [RevertableAsset.produceCommitment, hnat]
    · have hih := @ih (owned ++ [.ofAmount a.committedAvailable]) (by simp; omega)
      rw [List.length_append, List.length_singleton, List.append_assoc] at hih
      have hshift : ∀ i, i + 1 + owned.length = i + (owned.length + 1) := fun i => by omega
      simp only [hshift]
      exact hih

/-- The account that is loaded from a commitment. -/
theorem ofCommitment_eq {u : UserAccount} {c : AccountCommitment} (h : u.produceCommitment = .ok c) :
    ofCommitment c = .ok ⟨u.ownedAssets.map fun a => .ofAmount a.committedAvailable, [],
      .ofId u.seqTracker.lastCommittedId, u.owner, u.pk⟩ := by
  unfold produceCommitment at h
  split at h
  · cases h
  rename_i hlen
  cases h
  have hassets := ofCommitment_assets (show
    ([] : List RevertableAsset).length + u.ownedAssets.length ≤ 256 by simp; omega)
  unfold ofCommitment
  rw [show (u.ownedAssets.mapIdx fun i a => a.produceCommitment (.ofNat i)) =
    u.ownedAssets.mapIdx fun i a =>
      a.produceCommitment (.ofNat (i + ([] : List RevertableAsset).length)) from rfl, hassets]
  rfl

/-- An account loaded from its commitment has that commitment. -/
theorem ofCommitment_of_produceCommitment {u : UserAccount} {c : AccountCommitment}
    (h : u.produceCommitment = .ok c) :
    ∃ v, ofCommitment c = .ok v ∧ v.owner = u.owner ∧ v.produceCommitment = .ok c := by
  refine ⟨_, ofCommitment_eq h, rfl, ?_⟩
  rw [← h]
  simp only [produceCommitment, List.length_map]
  have hmap : (u.ownedAssets.map fun a => RevertableAsset.ofAmount a.committedAvailable).mapIdx
      (fun i a => a.produceCommitment (.ofNat i)) =
      u.ownedAssets.mapIdx fun i a => a.produceCommitment (.ofNat i) := by
    refine List.ext_getElem? fun i => ?_
    simp [RevertableAsset.produceCommitment, RevertableAsset.ofAmount, Function.comp_def]
  rw [hmap]
  rfl

end UserAccount

end Speedex
