import Speedex.Database.Committed
import Speedex.Database.StoreRuns

/-! Rewinds to a block.  A block leaves the committed values of the accounts in its log in a thunk;
writing the thunks up to block `n` puts the state after that block on disk, and the thunks after it
name all accounts that have changed since. -/

namespace Speedex

open Lib

/-! ### The committed part of an account, in a commitment -/

/-- `produce_commitment`, of the values that are committed. -/
def CommittedPart.commitment (p : CommittedPart) : AccountCommitment where
  owner := p.owner
  assets := p.assets.mapIdx fun i amount => ⟨.ofNat i, amount.toUInt64⟩
  lastCommittedId := p.lastCommittedId
  pk := p.pk

namespace UserAccount

theorem produceCommitment_part {u : UserAccount} {c : AccountCommitment}
    (h : u.produceCommitment = .ok c) :
    c = u.committedPart.commitment ∧ u.committedPart.assets.length ≤ 255 := by
  unfold produceCommitment at h
  split at h
  · cases h
  · rename_i hlen
    cases h
    refine ⟨?_, ?_⟩
    · simp only [CommittedPart.commitment, committedPart, SequenceTracker.produceCommitment,
        AccountCommitment.mk.injEq, and_true, true_and]
      refine List.ext_getElem? fun i => ?_
      rw [List.getElem?_mapIdx, List.getElem?_mapIdx, List.getElem?_map, Option.map_map]
      rfl
    · simp only [committedPart, List.length_map]
      omega

/-- An account with these committed values and no others. -/
def ofPart (p : CommittedPart) : UserAccount :=
  ⟨p.assets.map RevertableAsset.ofAmount, [], .ofId p.lastCommittedId, p.owner, p.pk⟩

theorem committedPart_ofPart (p : CommittedPart) : (ofPart p).committedPart = p := by
  simp [committedPart, ofPart, RevertableAsset.ofAmount, SequenceTracker.ofId, Function.comp_def]

/-- An account that is loaded from a commitment has its values, and nothing pending. -/
theorem ofCommitment_part {p : CommittedPart} (h : p.assets.length ≤ 255) :
    ∃ u, ofCommitment p.commitment = .ok u ∧ u.committedPart = p ∧ u.Unchanged := by
  have hproduce : (ofPart p).produceCommitment = .ok p.commitment := by
    have hnot : ¬ 256 ≤ (ofPart p).ownedAssets.length := by
      simp only [ofPart, List.length_map]
      omega
    have hok : ∃ c, (ofPart p).produceCommitment = .ok c := ⟨_, if_neg hnot⟩
    obtain ⟨c, hc⟩ := hok
    rw [hc, (produceCommitment_part hc).1, committedPart_ofPart]
  refine ⟨_, ofCommitment_eq hproduce, ?_, unchanged_of_committed rfl (fun a ha => ?_) rfl⟩
  · simp [committedPart, ofPart, RevertableAsset.ofAmount, SequenceTracker.ofId, Function.comp_def]
  · obtain ⟨b, -, rfl⟩ := List.mem_map.mp ha
    rfl

end UserAccount

/-! ### Accounts on disk -/

/-- The committed parts of the accounts, in the order of the vector. -/
def MemoryDatabase.parts (db : MemoryDatabase) : List CommittedPart :=
  db.database.map UserAccount.committedPart

theorem MemoryDatabase.map_owner_parts (db : MemoryDatabase) :
    db.parts.map CommittedPart.owner = db.owners := by
  simp [parts, owners, UserAccount.committedPart, Function.comp_def]

/-- The part with this id. -/
def partOf (parts : List CommittedPart) (id : AccountID) : Option CommittedPart :=
  parts.find? fun p => p.owner = id

theorem partOf_eq_some {parts : List CommittedPart} (hnodup : (parts.map CommittedPart.owner).Nodup)
    {id : AccountID} {p : CommittedPart} : partOf parts id = some p ↔ p ∈ parts ∧ p.owner = id := by
  constructor
  · intro h
    exact ⟨List.mem_of_find?_eq_some h, by simpa using List.find?_some h⟩
  · rintro ⟨hp, hid⟩
    have hfound : (partOf parts id).isSome = true :=
      List.find?_isSome.mpr ⟨p, hp, decide_eq_true hid⟩
    obtain ⟨q, hq⟩ := Option.isSome_iff_exists.mp hfound
    have hq' : q.owner = id := by simpa using List.find?_some hq
    have heq : q = p := List.inj_on_of_nodup_map hnodup (List.mem_of_find?_eq_some hq) hp
      (hq'.trans hid.symm)
    rw [hq, heq]

/-- What is on disk is exactly the commitments of these accounts. -/
structure Stores (lmdb : SortedMap AccountID AccountCommitment) (parts : List CommittedPart) : Prop where
  entries : ∀ id, lmdb.find? id = (partOf parts id).map CommittedPart.commitment
  fits : ∀ p ∈ parts, p.assets.length ≤ 255

/-- What a block with a log of these ids does to the committed parts. -/
structure BlockChange (keys : List AccountID) (old new : List CommittedPart) : Prop where
  length : old.length ≤ new.length
  owners : ∀ (i : Nat) (p : CommittedPart), old[i]? = some p →
    ∃ q : CommittedPart, new[i]? = some q ∧ q.owner = p.owner
  kept : ∀ (i : Nat) (p : CommittedPart), old[i]? = some p → p.owner ∉ keys → new[i]? = some p
  created : ∀ (i : Nat) (p : CommittedPart), new[i]? = some p → old.length ≤ i → p.owner ∈ keys
  nodup : (new.map CommittedPart.owner).Nodup

/-- The accounts that are not in the log are those that were there. -/
theorem BlockChange.mem_iff {keys : List AccountID} {old new : List CommittedPart}
    (h : BlockChange keys old new) {p : CommittedPart} (hp : p.owner ∉ keys) : p ∈ new ↔ p ∈ old := by
  constructor
  · intro hmem
    obtain ⟨i, hi⟩ := List.mem_iff_getElem?.mp hmem
    by_cases hlt : i < old.length
    · obtain ⟨q, hq, howner⟩ := h.owners i old[i] (List.getElem?_eq_getElem hlt)
      cases hi.symm.trans hq
      have hkept := h.kept i old[i] (List.getElem?_eq_getElem hlt) (howner ▸ hp)
      cases hi.symm.trans hkept
      exact List.getElem_mem hlt
    · exact absurd (h.created i p hi (not_lt.mp hlt)) hp
  · intro hmem
    obtain ⟨i, hi⟩ := List.mem_iff_getElem?.mp hmem
    exact List.mem_of_getElem? (h.kept i p hi hp)

theorem BlockChange.old_nodup {keys : List AccountID} {old new : List CommittedPart}
    (h : BlockChange keys old new) : (old.map CommittedPart.owner).Nodup := by
  have hpre : old.map CommittedPart.owner = (new.map CommittedPart.owner).take old.length := by
    refine List.ext_getElem? fun i => ?_
    rw [List.getElem?_take, List.getElem?_map, List.getElem?_map]
    split
    · rename_i hlt
      obtain ⟨q, hq, howner⟩ := h.owners i old[i] (List.getElem?_eq_getElem hlt)
      rw [hq, List.getElem?_eq_getElem hlt]
      exact congrArg some howner.symm
    · rename_i hge
      rw [List.getElem?_eq_none (not_lt.mp hge)]
      rfl
  rw [hpre]
  exact h.nodup.sublist (List.take_sublist _ _)

/-- A thunk with the accounts of the log brings the disk up to date. -/
theorem Stores.insertAll {lmdb : SortedMap AccountID AccountCommitment} {keys : List AccountID}
    {old new : List CommittedPart} (h : Stores lmdb old) (hchange : BlockChange keys old new)
    {kvs : List (AccountID × AccountCommitment)} (hkeys : kvs.map Prod.fst = keys)
    (hnodup : keys.Nodup) (hkvs : ∀ kv ∈ kvs, ∃ p ∈ new, p.owner = kv.1 ∧ kv.2 = p.commitment ∧
      p.assets.length ≤ 255) : Stores (lmdb.insertAll kvs) new := by
  have hnodup' : (kvs.map Prod.fst).Nodup := hkeys ▸ hnodup
  refine ⟨fun id => ?_, fun p hp => ?_⟩
  · rw [SortedMap.find?_insertAll, SortedMap.lookup_reverse hnodup', h.entries]
    by_cases hid : id ∈ keys
    · obtain ⟨⟨id', c⟩, hkv, rfl⟩ := List.mem_map.mp (hkeys ▸ hid)
      obtain ⟨p, hp, howner, hcommitment, -⟩ := hkvs _ hkv
      rw [(partOf_eq_some hchange.nodup).mpr ⟨hp, howner⟩, (SortedMap.lookup_eq_some hnodup').mpr hkv,
        Option.some_or, Option.map_some, ← hcommitment]
    · have hnone : SortedMap.lookup id kvs = none := by
        by_contra hsome
        obtain ⟨c, hc⟩ := Option.ne_none_iff_exists'.mp hsome
        exact hid (hkeys ▸ List.mem_map_of_mem (f := Prod.fst) (SortedMap.mem_of_lookup hc))
      have hsame : partOf new id = partOf old id := by
        refine Option.ext fun p => ?_
        rw [partOf_eq_some hchange.nodup, partOf_eq_some hchange.old_nodup]
        constructor
        · rintro ⟨hp, rfl⟩
          exact ⟨(hchange.mem_iff hid).mp hp, rfl⟩
        · rintro ⟨hp, rfl⟩
          exact ⟨(hchange.mem_iff hid).mpr hp, rfl⟩
      rw [hnone, Option.none_or, hsame]
  · by_cases hid : p.owner ∈ keys
    · obtain ⟨kv, hkv, howner⟩ := List.mem_map.mp (hkeys ▸ hid)
      obtain ⟨q, hq, hqowner, -, hfits⟩ := hkvs kv hkv
      have heq : q = p := List.inj_on_of_nodup_map hchange.nodup hq hp (hqowner.trans howner)
      rwa [← heq]
    · exact h.fits p ((hchange.mem_iff hid).mp hp)

/-! ### A block -/

namespace MemoryDatabase

/-- What a block with number `n` does to the accounts: transactions, new accounts, clearing, and
`commit_values` for a log with every account that has changed.  A block that creates no account need
not call `commit_new_accounts`. -/
inductive Block (n : UInt64) (log : ModificationTrie) : MemoryDatabase → MemoryDatabase → Prop where
  | mk {db db₁ db₂ db₃ db₄ : MemoryDatabase} (hprocess : db.Changes db₁)
    (hcreated : ∀ id ∈ db₁.createdOwners, id ∈ log.keys)
    (hnew : db₁.commitNewAccounts n = .ok db₂ ∨ (db₁.uncommittedDb = [] ∧ db₂ = db₁))
    (hclear : db₂.Changes db₃) (hlogged : ∀ u ∈ db₃.database, u.owner ∉ log.keys → u.Unchanged)
    (hcommit : db₃.commitValues log = .ok db₄) (trie : SortedMap AccountID AccountCommitment) :
    Block n log db { db₄ with commitmentTrie := trie }

/-- The accounts that the blocks after `n` have created. -/
def createdAfter (db : MemoryDatabase) (n : UInt64) : Nat :=
  ((db.accountCreationThunks.filter (n < ·.currentBlockNumber)).map (·.numAccountsCreated)).sum

/-- What the rest of the store sees of a block. -/
structure BlockEffect (n : UInt64) (keys : List AccountID) (db db' : MemoryDatabase) : Prop where
  ids : db'.UniqueIds
  unchanged : ∀ u ∈ db'.database, u.Unchanged
  change : BlockChange keys db.parts db'.parts
  persisted : db'.minPersistedRoundNumber = db.minPersistedRoundNumber
  thunks : ∃ new : List AccountCreationThunk,
    db'.accountCreationThunks = db.accountCreationThunks ++ new ∧
      (∀ thunk ∈ new, thunk.currentBlockNumber = n) ∧
      db'.database.length = db.database.length + (new.map (·.numAccountsCreated)).sum

variable {db db' : MemoryDatabase} {n : UInt64} {log : ModificationTrie}

theorem getElem?_parts {i : Nat} {p : CommittedPart} :
    db.parts[i]? = some p ↔ ∃ u, db.database[i]? = some u ∧ u.committedPart = p := by
  rw [parts, List.getElem?_map, Option.map_eq_some_iff]

/-- New accounts, if any: they come last, and they are all that is new. -/
theorem created_cases {db₁ db₂ : MemoryDatabase} (hids : db₁.UniqueIds)
    (hnew : db₁.commitNewAccounts n = .ok db₂ ∨ (db₁.uncommittedDb = [] ∧ db₂ = db₁)) :
    db₂.UniqueIds ∧ db₂.parts = db₁.parts ++ db₁.uncommittedDb.map (·.commit.committedPart) ∧
      db₂.minPersistedRoundNumber = db₁.minPersistedRoundNumber ∧
      ∃ new : List AccountCreationThunk,
        db₂.accountCreationThunks = db₁.accountCreationThunks ++ new ∧
        (∀ thunk ∈ new, thunk.currentBlockNumber = n) ∧
        (new.map (·.numAccountsCreated)).sum = db₁.uncommittedDb.length := by
  rcases hnew with hnew | ⟨hnone, rfl⟩
  · refine ⟨hids.commitNewAccounts hnew, ?_, commitNewAccounts_persisted hnew, _,
      commitNewAccounts_thunks hnew, by simp, by simp⟩
    rw [parts, commitNewAccounts_database hnew, List.map_append, List.map_map]
    rfl
  · exact ⟨hids, by simp [hnone], rfl, [], by simp [hnone]⟩

/-- The loop over the log changes the trie and nothing else. -/
theorem modifyCommitments_trie {commitment : UserAccount → Result AccountCommitment}
    (h : db.modifyCommitments log commitment = .ok db') :
    db' = { db with commitmentTrie := db'.commitmentTrie } := by
  refine foldlM_invariant (P := fun d => d = { db with commitmentTrie := d.commitmentTrie })
    (fun d owner d' _ hd hstep => ?_) rfl h
  obtain ⟨-, -, c, -, -, -, rfl⟩ := modifyCommitments_step hstep
  rw [hd]

theorem length_parts (db : MemoryDatabase) : db.parts.length = db.database.length :=
  List.length_map _

theorem committedPart_commitIn {keys : List AccountID} {u : UserAccount} (h : u.owner ∉ keys) :
    commitIn keys u = u := by
  simp [commitIn, h]

/-- What a block does to the accounts, in one statement. -/
theorem Block.effect (h : Block n log db db') (hids : db.UniqueIds) :
    BlockEffect n log.keys db db' := by
  obtain ⟨hprocess, hcreated, hnew, hclear, hlogged, hcommit, trie⟩ := h
  rename_i db₁ db₂ db₃ db₄
  obtain ⟨hids₁, -⟩ := changes_keeps (K := fun _ => True) hprocess hids
  obtain ⟨hids₂, hparts₂, hpersisted₂, new, hthunks₂, hnumber, hsum⟩ := created_cases hids₁ hnew
  obtain ⟨hids₃, -⟩ := changes_keeps (K := fun _ => True) hclear hids₂
  obtain ⟨rfl, -⟩ := commitValues_eq hcommit hids₃
  have hparts₁ : db₁.parts = db.parts := hprocess.sameCommitted.committed
  have hparts₃ : db₃.parts = db₂.parts := hclear.sameCommitted.committed
  have hparts : db₃.parts = db.parts ++ db₁.uncommittedDb.map (·.commit.committedPart) := by
    rw [hparts₃, hparts₂, hparts₁]
  have howners : MemoryDatabase.owners
      { db₃ with database := db₃.database.map (commitIn log.keys), commitmentTrie := trie } =
      db₃.owners := by
    simp [owners, commitIn_owner, Function.comp_def]
  have hids' : MemoryDatabase.UniqueIds
      { db₃ with database := db₃.database.map (commitIn log.keys), commitmentTrie := trie } :=
    ⟨howners ▸ hids₃.nodup, howners ▸ hids₃.lookup, hids₃.created_nodup, hids₃.created_reserved,
      howners ▸ hids₃.reserved_new⟩
  -- an account that was there before the block is in the same place
  have hold : ∀ (i : Nat) (p : CommittedPart), db.parts[i]? = some p →
      ∃ u, db₃.database[i]? = some u ∧ u.committedPart = p := by
    intro i p hp
    refine getElem?_parts.mp ?_
    rw [hparts, List.getElem?_append_left (List.getElem?_eq_some_iff.mp hp).1, hp]
  refine ⟨hids', fun u hu => ?_, ⟨?_, fun i p hp => ?_, fun i p hp hkeys => ?_, fun i p hp hi => ?_, ?_⟩,
    ?_, new, ?_, hnumber, ?_⟩
  · obtain ⟨v, hv, rfl⟩ := List.mem_map.mp hu
    by_cases hkeys : v.owner ∈ log.keys
    · rw [commitIn, if_pos (List.contains_iff_mem.mpr hkeys)]
      exact v.commit_unchanged
    · rw [committedPart_commitIn hkeys]
      exact hlogged v hv hkeys
  · have hlength := congrArg List.length hparts
    rw [List.length_append, length_parts] at hlength
    simp only [length_parts, List.length_map] at hlength ⊢
    omega
  · obtain ⟨u, hu, rfl⟩ := hold i p hp
    refine ⟨(commitIn log.keys u).committedPart, getElem?_parts.mpr ⟨_, ?_, rfl⟩, commitIn_owner _ u⟩
    rw [List.getElem?_map, hu]
    rfl
  · obtain ⟨u, hu, rfl⟩ := hold i p hp
    refine getElem?_parts.mpr ⟨u, ?_, rfl⟩
    rw [List.getElem?_map, hu, Option.map_some, committedPart_commitIn hkeys]
  · obtain ⟨u', hu', rfl⟩ := getElem?_parts.mp hp
    rw [List.getElem?_map, Option.map_eq_some_iff] at hu'
    obtain ⟨u, hu, rfl⟩ := hu'
    have hpart : db₃.parts[i]? = some u.committedPart := getElem?_parts.mpr ⟨u, hu, rfl⟩
    rw [hparts, List.getElem?_append_right hi] at hpart
    obtain ⟨v, hv, heq⟩ := List.mem_map.mp (List.mem_of_getElem? hpart)
    have howner : v.owner = u.owner := congrArg CommittedPart.owner heq
    show (commitIn log.keys u).owner ∈ log.keys
    rw [commitIn_owner, ← howner]
    exact hcreated v.owner (List.mem_map_of_mem hv)
  · rw [map_owner_parts]
    exact hids'.nodup
  · exact hclear.sameRounds.persisted.trans (hpersisted₂.trans hprocess.sameRounds.persisted)
  · rw [show (_ : List AccountCreationThunk) = db₃.accountCreationThunks from rfl,
      hclear.sameRounds.thunks, hthunks₂, hprocess.sameRounds.thunks]
  · have hlength := congrArg List.length hparts
    rw [List.length_append, length_parts, length_parts, List.length_map] at hlength
    rw [hsum, List.length_map, hlength]

end MemoryDatabase

/-! ### Runs of blocks -/

namespace AccountStore

/-- Runs of blocks, whose numbers increase and may have gaps, and of writes to disk.  The history
has the accounts at the end of each block, the latest first. -/
inductive BlockRun (s₀ : AccountStore) : List (UInt64 × MemoryDatabase) → AccountStore → Prop where
  | start : BlockRun s₀ [] s₀
  | block {history : List (UInt64 × MemoryDatabase)} {s s' : AccountStore} {n : UInt64}
    {log : ModificationTrie} {db : MemoryDatabase} (hrun : BlockRun s₀ history s)
    (hnumber : ∀ b ∈ history, b.1 < n) (hblock : s.db.Block n log db)
    (hthunk : addPersistenceThunk { s with db := db } n log = .ok s') :
    BlockRun s₀ ((n, s'.db) :: history) s'
  | persist {history : List (UInt64 × MemoryDatabase)} {s s' : AccountStore} {k : UInt64}
    (hrun : BlockRun s₀ history s) (hk : s.maxPersistedRoundNumber ≤ k)
    (h : s.commitPersistenceThunks k = .ok s') : BlockRun s₀ history s'

/-- The accounts at the end of the last block numbered at most `n`. -/
def stateAt (s₀ : AccountStore) (history : List (UInt64 × MemoryDatabase)) (n : UInt64) :
    MemoryDatabase :=
  match history.find? (fun b => b.1 ≤ n) with
  | some b => b.2
  | none => s₀.db

/-- The store before any block: its accounts are on disk. -/
structure OnDisk (s : AccountStore) : Prop where
  ids : s.db.UniqueIds
  unchanged : ∀ u ∈ s.db.database, u.Unchanged
  stored : Stores s.accountLmdb s.db.parts
  thunks : s.persistenceThunks = []
  creations : s.db.accountCreationThunks = []
  rounds : s.db.minPersistedRoundNumber = s.maxPersistedRoundNumber

/-- The disk once the thunks up to block `n` are written. -/
def writtenTo (s : AccountStore) (n : UInt64) : SortedMap AccountID AccountCommitment :=
  s.accountLmdb.insertAll
    ((s.persistenceThunks.filter (·.currentBlockNumber ≤ n)).flatMap DBPersistenceThunk.kvs)

/-- The accounts in the thunks after block `n`. -/
def keysAfter (s : AccountStore) (n : UInt64) : List AccountID :=
  (s.persistenceThunks.filter (n < ·.currentBlockNumber)).flatMap fun thunk => thunk.kvs.map Prod.fst

/-- The accounts `d` can be had back: once the thunks up to `n` are written they are on disk, those
that have changed since are in the thunks after `n`, and the others are still in memory. -/
structure RewindsTo (s : AccountStore) (n : UInt64) (d : MemoryDatabase) : Prop where
  ids : d.UniqueIds
  unchanged : ∀ u ∈ d.database, u.Unchanged
  stored : Stores (s.writtenTo n) d.parts
  length : s.db.database.length = d.database.length + s.db.createdAfter n
  owners : ∀ (i : Nat) (p : CommittedPart), d.parts[i]? = some p →
    ∃ q : CommittedPart, s.db.parts[i]? = some q ∧ q.owner = p.owner
  kept : ∀ (i : Nat) (p : CommittedPart), d.parts[i]? = some p → p.owner ∉ s.keysAfter n →
    s.db.parts[i]? = some p

/-- What holds at the end of every block. -/
structure Recoverable (s₀ : AccountStore) (history : List (UInt64 × MemoryDatabase))
    (s : AccountStore) : Prop where
  ids : s.db.UniqueIds
  unchanged : ∀ u ∈ s.db.database, u.Unchanged
  rounds : s.db.minPersistedRoundNumber = s.maxPersistedRoundNumber
  sorted : s.persistenceThunks.Pairwise fun a b => a.currentBlockNumber < b.currentBlockNumber
  thunks : ∀ thunk ∈ s.persistenceThunks, ∃ b ∈ history, b.1 = thunk.currentBlockNumber
  creations : ∀ thunk ∈ s.db.accountCreationThunks, ∃ b ∈ history, b.1 = thunk.currentBlockNumber
  rewinds : ∀ n, s.maxPersistedRoundNumber ≤ n → s.RewindsTo n (stateAt s₀ history n)

variable {s s' s₀ : AccountStore} {n : UInt64} {d : MemoryDatabase}
  {history : List (UInt64 × MemoryDatabase)}

theorem OnDisk.recoverable (h : s.OnDisk) : Recoverable s [] s := by
  refine ⟨h.ids, h.unchanged, h.rounds, ?_, ?_, ?_, fun n _ => ⟨h.ids, h.unchanged, ?_, ?_, ?_, ?_⟩⟩
  · rw [h.thunks]
    exact .nil
  · simp [h.thunks]
  · simp [h.creations]
  · rw [writtenTo, h.thunks]
    exact h.stored
  · simp [stateAt, MemoryDatabase.createdAfter, h.creations]
  · exact fun i p hp => ⟨p, hp, rfl⟩
  · exact fun i p hp _ => hp

/-- Where no block after `n` has left a thunk, the accounts are those that a rewind restores. -/
theorem RewindsTo.parts_eq (h : s.RewindsTo n d) (hkeys : s.keysAfter n = [])
    (hcreated : s.db.createdAfter n = 0) : s.db.parts = d.parts := by
  refine List.ext_getElem? fun i => ?_
  cases hp : d.parts[i]? with
  | some p => exact h.kept i p hp (by simp [hkeys])
  | none =>
    have hlength := h.length
    rw [hcreated, add_zero] at hlength
    rw [List.getElem?_eq_none_iff, MemoryDatabase.length_parts] at hp ⊢
    omega

/-! ### A block -/

/-- The entries of a thunk are the commitments of the accounts in the log. -/
theorem addPersistenceThunk_eq {log : ModificationTrie} (h : s.addPersistenceThunk n log = .ok s')
    (hids : s.db.UniqueIds) : ∃ kvs : List (AccountID × AccountCommitment),
      s' = { s with persistenceThunks := s.persistenceThunks ++ [⟨kvs, n⟩] } ∧
      kvs.map Prod.fst = log.keys ∧ ∀ kv ∈ kvs, ∃ p ∈ s.db.parts, p.owner = kv.1 ∧
        kv.2 = p.commitment ∧ p.assets.length ≤ 255 := by
  obtain ⟨kvs, hkvs, h⟩ := bind_eq_ok.mp h
  cases h
  refine ⟨kvs, rfl, ?_, fun kv hkv => ?_⟩
  · refine (map_of_mapM (g := id) hkvs fun account kv hkv => ?_).trans (List.map_id _)
    obtain ⟨-, -, c, -, -, -, rfl⟩ := kvAssignment_spec hkv
    rfl
  · obtain ⟨account, -, hkv⟩ := mem_of_mapM hkvs hkv
    obtain ⟨idx, u, c, hidx, hu, hc, rfl⟩ := kvAssignment_spec hkv
    obtain ⟨rfl, hfits⟩ := UserAccount.produceCommitment_part hc
    exact ⟨u.committedPart, List.mem_map_of_mem (List.mem_of_getElem? hu), hids.owner_eq hidx hu, rfl,
      hfits⟩

theorem stateAt_cons (s₀ : AccountStore) (history : List (UInt64 × MemoryDatabase)) (m : UInt64)
    (db : MemoryDatabase) (n : UInt64) :
    stateAt s₀ ((m, db) :: history) n = if m ≤ n then db else stateAt s₀ history n := by
  unfold stateAt
  rw [List.find?_cons]
  split_ifs with h
  · simp [h]
  · simp [h]

/-- A block with a number above `n` adds to what a rewind to `n` undoes. -/
theorem RewindsTo.block (h : s.RewindsTo n d) {m : UInt64} (hm : n < m) {keys : List AccountID}
    {db : MemoryDatabase} (heffect : s.db.BlockEffect m keys db)
    {kvs : List (AccountID × AccountCommitment)} (hkeys : kvs.map Prod.fst = keys) :
    RewindsTo { s with db := db, persistenceThunks := s.persistenceThunks ++ [⟨kvs, m⟩] } n d := by
  have hafter : keysAfter { s with db := db, persistenceThunks := s.persistenceThunks ++ [⟨kvs, m⟩] } n
      = s.keysAfter n ++ keys := by
    simp [keysAfter, hm, hkeys]
  obtain ⟨new, hthunks, hnumber, hlength⟩ := heffect.thunks
  have hnew : new.filter (n < ·.currentBlockNumber) = new :=
    List.filter_eq_self.mpr fun thunk hthunk => by simpa [hnumber thunk hthunk] using hm
  refine ⟨h.ids, h.unchanged, ?_, ?_, fun i p hp => ?_, fun i p hp hnot => ?_⟩
  · have hwritten : writtenTo
        { s with db := db, persistenceThunks := s.persistenceThunks ++ [⟨kvs, m⟩] } n =
        s.writtenTo n := by
      have hle : ¬ m ≤ n := not_le.mpr hm
      simp [writtenTo, hle]
    rw [hwritten]
    exact h.stored
  · show db.database.length = d.database.length + db.createdAfter n
    rw [hlength, h.length, MemoryDatabase.createdAfter, MemoryDatabase.createdAfter, hthunks,
      List.filter_append, hnew, List.map_append, List.sum_append]
    omega
  · obtain ⟨q, hq, howner⟩ := h.owners i p hp
    obtain ⟨q', hq', howner'⟩ := heffect.change.owners i q hq
    exact ⟨q', hq', howner'.trans howner⟩
  · rw [hafter, List.mem_append, not_or] at hnot
    exact heffect.change.kept i p (h.kept i p hp hnot.1) hnot.2

/-- The accounts at the end of a block are on disk once its thunk is written. -/
theorem Recoverable.block_rewindsTo (h : Recoverable s₀ history s) {m : UInt64}
    (hnumber : ∀ b ∈ history, b.1 < m) (hm : m ≤ n) (hn : s.maxPersistedRoundNumber ≤ n)
    {log : ModificationTrie} {db : MemoryDatabase} (heffect : s.db.BlockEffect m log.keys db)
    {kvs : List (AccountID × AccountCommitment)} (hkeys : kvs.map Prod.fst = log.keys)
    (hkvs : ∀ kv ∈ kvs, ∃ p ∈ db.parts, p.owner = kv.1 ∧ kv.2 = p.commitment ∧
      p.assets.length ≤ 255) :
    RewindsTo { s with db := db, persistenceThunks := s.persistenceThunks ++ [⟨kvs, m⟩] } n db := by
  -- every block so far is numbered at most `n`
  have hthunks : ∀ thunk ∈ s.persistenceThunks, thunk.currentBlockNumber ≤ n := fun thunk ht => by
    obtain ⟨b, hb, hnum⟩ := h.thunks thunk ht
    exact hnum ▸ (hnumber b hb).le.trans hm
  have hcreations : ∀ thunk ∈ s.db.accountCreationThunks, thunk.currentBlockNumber ≤ n :=
    fun thunk ht => by
      obtain ⟨b, hb, hnum⟩ := h.creations thunk ht
      exact hnum ▸ (hnumber b hb).le.trans hm
  have hold : s.RewindsTo n (stateAt s₀ history n) := h.rewinds n hn
  have hparts : s.db.parts = (stateAt s₀ history n).parts := by
    refine hold.parts_eq ?_ ?_
    · rw [keysAfter, List.filter_eq_nil_iff.mpr fun thunk ht => by simpa using hthunks thunk ht]
      rfl
    · rw [MemoryDatabase.createdAfter,
        List.filter_eq_nil_iff.mpr fun thunk ht => by simpa using hcreations thunk ht]
      rfl
  have hall : s.persistenceThunks.filter (·.currentBlockNumber ≤ n) = s.persistenceThunks :=
    List.filter_eq_self.mpr fun thunk ht => by simpa using hthunks thunk ht
  obtain ⟨new, hnew, hnum, hlength⟩ := heffect.thunks
  refine ⟨heffect.ids, heffect.unchanged, ?_, ?_, fun i p hp => ⟨p, hp, rfl⟩, fun i p hp _ => hp⟩
  · have hwritten : writtenTo
        { s with db := db, persistenceThunks := s.persistenceThunks ++ [⟨kvs, m⟩] } n =
        (s.writtenTo n).insertAll kvs := by
      rw [writtenTo, writtenTo, ← SortedMap.insertAll_append, hall, List.filter_append, hall]
      simp [hm]
    rw [hwritten]
    have hstored : Stores (s.writtenTo n) s.db.parts := hparts ▸ hold.stored
    exact hstored.insertAll heffect.change hkeys log.nodup_keys hkvs
  · show db.database.length = db.database.length + db.createdAfter n
    have hnone : db.accountCreationThunks.filter (n < ·.currentBlockNumber) = [] := by
      refine List.filter_eq_nil_iff.mpr fun thunk ht => ?_
      rw [hnew, List.mem_append] at ht
      rcases ht with ht | ht
      · simpa using hcreations thunk ht
      · simpa [hnum thunk ht] using hm
    rw [MemoryDatabase.createdAfter, hnone]
    rfl

theorem Recoverable.block (h : Recoverable s₀ history s) {m : UInt64} {log : ModificationTrie}
    {db : MemoryDatabase} (hnumber : ∀ b ∈ history, b.1 < m) (hblock : s.db.Block m log db)
    (hthunk : addPersistenceThunk { s with db := db } m log = .ok s') :
    Recoverable s₀ ((m, s'.db) :: history) s' := by
  have heffect := hblock.effect h.ids
  obtain ⟨kvs, rfl, hkeys, hkvs⟩ := addPersistenceThunk_eq hthunk heffect.ids
  obtain ⟨new, hnew, hnum, -⟩ := heffect.thunks
  refine ⟨heffect.ids, heffect.unchanged, heffect.persisted.trans h.rounds, ?_, fun thunk ht => ?_,
    fun thunk ht => ?_, fun n hn => ?_⟩
  · refine List.pairwise_append.mpr ⟨h.sorted, List.pairwise_singleton _ _, fun a ha b hb => ?_⟩
    cases List.mem_singleton.mp hb
    obtain ⟨c, hc, hcnum⟩ := h.thunks a ha
    exact hcnum ▸ hnumber c hc
  · rcases List.mem_append.mp ht with ht | ht
    · obtain ⟨b, hb, hbnum⟩ := h.thunks thunk ht
      exact ⟨b, List.mem_cons_of_mem _ hb, hbnum⟩
    · cases List.mem_singleton.mp ht
      exact ⟨_, List.mem_cons_self, rfl⟩
  · have ht : thunk ∈ s.db.accountCreationThunks ++ new := hnew ▸ ht
    rcases List.mem_append.mp ht with ht | ht
    · obtain ⟨b, hb, hbnum⟩ := h.creations thunk ht
      exact ⟨b, List.mem_cons_of_mem _ hb, hbnum⟩
    · exact ⟨_, List.mem_cons_self, (hnum thunk ht).symm⟩
  · rw [stateAt_cons]
    split_ifs with hm
    · exact h.block_rewindsTo hnumber hm hn heffect hkeys hkvs
    · exact (h.rewinds n hn).block (not_le.mp hm) heffect hkeys

/-! ### A write to disk -/

theorem foldlM_execOneThunk {thunks : List DBPersistenceThunk}
    {acc acc' : SortedMap AccountID AccountCommitment × UInt64}
    (h : thunks.foldlM execOneThunk acc = .ok acc') :
    acc'.1 = acc.1.insertAll (thunks.flatMap DBPersistenceThunk.kvs) := by
  induction thunks generalizing acc with
  | nil =>
    cases h
    rfl
  | cons thunk thunks ih =>
    obtain ⟨acc₁, hone, h⟩ := foldlM_cons.mp h
    unfold execOneThunk at hone
    split at hone
    · cases hone
    · cases hone
      rw [ih h, List.flatMap_cons, SortedMap.insertAll_append]
      rfl

/-- What `commit_persistence_thunks` does when it returns. -/
theorem commitPersistenceThunks_eq (h : s.commitPersistenceThunks n = .ok s') :
    s' = { s with
      db := { s.db with
        minPersistedRoundNumber := max s.db.minPersistedRoundNumber n
        accountCreationThunks := s.db.accountCreationThunks.filter (n < ·.currentBlockNumber) }
      persistenceThunks := s.persistenceThunks.filter (n < ·.currentBlockNumber)
      accountLmdb := s.writtenTo n
      maxPersistedRoundNumber := max s.maxPersistedRoundNumber n } := by
  obtain ⟨s₁, hpersist, h⟩ := bind_eq_ok.mp h
  cases h
  obtain ⟨⟨lmdb, number⟩, hfold, hpersist⟩ := bind_eq_ok.mp hpersist
  have hlmdb : lmdb = s.writtenTo n := foldlM_execOneThunk hfold
  subst hlmdb
  dsimp only at hpersist
  split at hpersist
  · cases hpersist
  · cases hpersist
    rfl

/-- The thunks up to `n` are those up to `k` and those from there. -/
theorem filter_sorted {l : List DBPersistenceThunk}
    (h : l.Pairwise fun a b => a.currentBlockNumber < b.currentBlockNumber) {k n : UInt64}
    (hk : k ≤ n) : l.filter (·.currentBlockNumber ≤ n) =
      l.filter (·.currentBlockNumber ≤ k) ++
        (l.filter (k < ·.currentBlockNumber)).filter (·.currentBlockNumber ≤ n) := by
  induction l with
  | nil => rfl
  | cons thunk l ih =>
    rw [List.pairwise_cons] at h
    by_cases hthunk : thunk.currentBlockNumber ≤ k
    · have hnot : ¬ k < thunk.currentBlockNumber := not_lt.mpr hthunk
      simp [hthunk, hnot, hthunk.trans hk, ih h.2]
    · -- this thunk and all that follow are above `k`
      have hlt : ∀ t ∈ thunk :: l, k < t.currentBlockNumber := fun t ht => by
        rcases List.mem_cons.mp ht with rfl | ht
        · exact not_le.mp hthunk
        · exact (not_le.mp hthunk).trans (h.1 t ht)
      have hnone : (thunk :: l).filter (·.currentBlockNumber ≤ k) = [] :=
        List.filter_eq_nil_iff.mpr fun t ht => by simpa using hlt t ht
      have hall : (thunk :: l).filter (k < ·.currentBlockNumber) = thunk :: l :=
        List.filter_eq_self.mpr fun t ht => by simpa using hlt t ht
      rw [hnone, hall, List.nil_append]

theorem filter_above {α : Type} (f : α → UInt64) (l : List α) {k n : UInt64} (hk : k ≤ n) :
    (l.filter (k < f ·)).filter (n < f ·) = l.filter (n < f ·) := by
  rw [List.filter_filter]
  refine List.filter_congr fun a _ => ?_
  by_cases h : n < f a
  · simp [h, hk.trans_lt h]
  · simp [h]

theorem Recoverable.persist (h : Recoverable s₀ history s) {k : UInt64}
    (hk : s.maxPersistedRoundNumber ≤ k) (hpersist : s.commitPersistenceThunks k = .ok s') :
    Recoverable s₀ history s' ∧ s'.maxPersistedRoundNumber = k := by
  have hmax : max s.maxPersistedRoundNumber k = k := max_eq_right hk
  cases commitPersistenceThunks_eq hpersist
  refine ⟨⟨?_, h.unchanged, ?_, h.sorted.filter _, fun thunk ht => ?_, fun thunk ht => ?_,
    fun n hn => ?_⟩, hmax⟩
  · exact ⟨h.ids.nodup, h.ids.lookup, h.ids.created_nodup, h.ids.created_reserved, h.ids.reserved_new⟩
  · exact congrArg (max · k) h.rounds
  · exact h.thunks thunk (List.mem_filter.mp ht).1
  · exact h.creations thunk (List.mem_filter.mp ht).1
  · have hkn : k ≤ n := hmax ▸ hn
    have hold := h.rewinds n (hk.trans hkn)
    refine ⟨hold.ids, hold.unchanged, ?_, ?_, hold.owners, fun i p hp hnot => hold.kept i p hp ?_⟩
    · have hstored := hold.stored
      rw [writtenTo, filter_sorted h.sorted hkn, List.flatMap_append,
        SortedMap.insertAll_append] at hstored
      exact hstored
    · have hlength := hold.length
      rw [MemoryDatabase.createdAfter, ← filter_above _ _ hkn] at hlength
      exact hlength
    · rw [keysAfter, ← filter_above _ _ hkn]
      exact hnot

theorem BlockRun.recoverable (h₀ : s₀.OnDisk) (h : BlockRun s₀ history s) :
    Recoverable s₀ history s := by
  induction h with
  | start => exact h₀.recoverable
  | block _ hnumber hblock hthunk ih => exact ih.block hnumber hblock hthunk
  | persist _ hk hpersist ih => exact (ih.persist hk hpersist).1

/-- Thunks in order, above what is on disk, can be written. -/
theorem foldlM_execOneThunk_returns {thunks : List DBPersistenceThunk}
    {acc : SortedMap AccountID AccountCommitment × UInt64} (hn : acc.2 ≤ n)
    (hsorted : thunks.Pairwise fun a b => a.currentBlockNumber < b.currentBlockNumber)
    (habove : ∀ thunk ∈ thunks, acc.2 < thunk.currentBlockNumber)
    (hle : ∀ thunk ∈ thunks, thunk.currentBlockNumber ≤ n) :
    ∃ acc', thunks.foldlM execOneThunk acc = .ok acc' ∧ acc'.2 ≤ n := by
  induction thunks generalizing acc with
  | nil => exact ⟨acc, rfl, hn⟩
  | cons thunk thunks ih =>
    rw [List.pairwise_cons] at hsorted
    have hlt := habove thunk List.mem_cons_self
    have hnot : ¬ (thunk.currentBlockNumber < acc.2 + 1 ∧ acc.2 ≠ 0) := by
      rintro ⟨hwrong, -⟩
      rw [UInt64.lt_iff_toNat_lt, UInt64.toNat_add] at hwrong
      rw [UInt64.lt_iff_toNat_lt] at hlt
      have := thunk.currentBlockNumber.toNat_lt
      have hone : (1 : UInt64).toNat = 1 := rfl
      omega
    obtain ⟨acc', hfold, hacc'⟩ := @ih (acc.1.insertAll thunk.kvs, thunk.currentBlockNumber)
      (hle thunk List.mem_cons_self) hsorted.2 hsorted.1
      fun t ht => hle t (List.mem_cons_of_mem _ ht)
    refine ⟨acc', foldlM_cons.mpr ⟨_, ?_, hfold⟩, hacc'⟩
    exact if_neg hnot

theorem Recoverable.commitPersistenceThunks_returns (h : Recoverable s₀ history s)
    (hn : s.maxPersistedRoundNumber ≤ n)
    (habove : ∀ thunk ∈ s.persistenceThunks, s.maxPersistedRoundNumber < thunk.currentBlockNumber) :
    ∃ s', s.commitPersistenceThunks n = .ok s' := by
  have hfold : ∃ acc', (s.persistenceThunks.filter (·.currentBlockNumber ≤ n)).foldlM execOneThunk
      (s.accountLmdb, s.db.minPersistedRoundNumber) = .ok acc' ∧ acc'.2 ≤ n := by
    refine foldlM_execOneThunk_returns (h.rounds ▸ hn) (h.sorted.filter _) (fun thunk ht => ?_)
      fun thunk ht => ?_
    · exact h.rounds ▸ habove thunk (List.mem_filter.mp ht).1
    · simpa using (List.mem_filter.mp ht).2
  obtain ⟨acc', hfold, hacc'⟩ := hfold
  have hpersist : ∃ s', persistThunks (s.gatherThunks n).2 (s.gatherThunks n).1 n = .ok s' :=
    ⟨_, bind_eq_ok.mpr ⟨acc', hfold, if_neg (not_lt.mpr hacc')⟩⟩
  obtain ⟨s', hs'⟩ := hpersist
  exact ⟨_, bind_eq_ok.mpr ⟨s', hs', rfl⟩⟩

/-! ### The rewind -/

/-- The accounts of `d` are back: the same ids, in the same places, with the same public keys,
sequence numbers and balances. -/
structure Restores (d db : MemoryDatabase) : Prop where
  ids : ∀ id, db.lookupUser id = d.lookupUser id
  length : db.database.length = d.database.length
  accounts : ∀ (i : Nat) (u v : UserAccount), d.database[i]? = some u → db.database[i]? = some v →
    v.owner = u.owner ∧ v.pk = u.pk ∧
      v.seqTracker.lastCommittedId = u.seqTracker.lastCommittedId ∧
      ∀ asset, v.balance asset = u.balance asset ∧ v.committedBalance asset = u.committedBalance asset

theorem length_of_owners {db : MemoryDatabase} (h : db.owners = d.owners) :
    db.database.length = d.database.length := by
  simpa [MemoryDatabase.owners] using congrArg List.length h

/-- The loop over the thunks puts back every account that was there. -/
theorem reload_loop {lmdb : SortedMap AccountID AccountCommitment} (hd : d.UniqueIds)
    (hstored : Stores lmdb d.parts) {kvs : List (AccountID × AccountCommitment)} {db : MemoryDatabase}
    (hlocated : db.Located) (howners : db.owners = d.owners)
    (hunchanged : ∀ u ∈ db.database, u.Unchanged)
    (hkept : ∀ (i : Nat) (p : CommittedPart), d.parts[i]? = some p → p.owner ∉ kvs.map Prod.fst →
      db.parts[i]? = some p) :
    ∃ db', kvs.foldlM (reloadAccount lmdb) db = .ok db' ∧ db'.Located ∧ db'.parts = d.parts ∧
      ∀ u ∈ db'.database, u.Unchanged := by
  have hnodup : (d.parts.map CommittedPart.owner).Nodup := d.map_owner_parts ▸ hd.nodup
  induction kvs generalizing db with
  | nil =>
    refine ⟨db, rfl, hlocated, List.ext_getElem? fun i => ?_, hunchanged⟩
    cases hp : d.parts[i]? with
    | some p => exact hkept i p hp List.not_mem_nil
    | none =>
      have hlength := length_of_owners howners
      rw [List.getElem?_eq_none_iff, MemoryDatabase.length_parts] at hp ⊢
      omega
  | cons kv kvs ih =>
    have hentry := hstored.entries kv.1
    cases hpart : partOf d.parts kv.1 with
    | none =>
      -- the account was created since, and is gone already
      rw [hpart, Option.map_none] at hentry
      have hone : reloadAccount lmdb db kv = .ok db := by
        unfold reloadAccount
        rw [hentry]
      obtain ⟨db', hfold, hdb'⟩ := ih hlocated howners hunchanged fun i p hp hnot => by
        refine hkept i p hp fun hmem => ?_
        rcases List.mem_cons.mp hmem with hid | hmem
        · have hsome := (partOf_eq_some hnodup).mpr ⟨List.mem_of_getElem? hp, hid⟩
          cases hpart.symm.trans hsome
        · exact hnot hmem
      exact ⟨db', foldlM_cons.mpr ⟨db, hone, hfold⟩, hdb'⟩
    | some p =>
      rw [hpart, Option.map_some] at hentry
      obtain ⟨hmem, hid⟩ := (partOf_eq_some hnodup).mp hpart
      obtain ⟨idx, hidx⟩ := List.mem_iff_getElem?.mp hmem
      obtain ⟨u, hu, hupart, hunch⟩ := UserAccount.ofCommitment_part (hstored.fits p hmem)
      have howner : u.owner = kv.1 := (congrArg CommittedPart.owner hupart).trans hid
      have hat : db.owners[idx]? = some kv.1 := by
        rw [howners, ← d.map_owner_parts, List.getElem?_map, hidx, Option.map_some, hid]
      have hone : reloadAccount lmdb db kv = .ok (db.modifyAccount idx fun _ => u) := by
        unfold reloadAccount
        rw [hentry]
        dsimp only
        rw [(hlocated.lookup kv.1 idx).mpr hat]
        exact bind_eq_ok.mpr ⟨u, hu, rfl⟩
      have howners₁ : (db.modifyAccount idx fun _ => u).owners = db.owners :=
        MemoryDatabase.owners_modifyAccount fun v hv => by
          rw [MemoryDatabase.owners, List.getElem?_map, hv] at hat
          exact howner.trans (Option.some.inj hat).symm
      have hunchanged₁ : ∀ v ∈ (db.modifyAccount idx fun _ => u).database, v.Unchanged := by
        intro v hv
        rcases MemoryDatabase.mem_modify hv with hv | ⟨w, -, rfl⟩
        · exact hunchanged v hv
        · exact hunch
      have hkept₁ : ∀ (i : Nat) (q : CommittedPart), d.parts[i]? = some q →
          q.owner ∉ kvs.map Prod.fst → (db.modifyAccount idx fun _ => u).parts[i]? = some q := by
        intro i q hq hnot
        by_cases hi : idx = i
        · subst hi
          have hlt : idx < db.database.length := by
            simpa [MemoryDatabase.owners] using (List.getElem?_eq_some_iff.mp hat).1
          cases hidx.symm.trans hq
          refine MemoryDatabase.getElem?_parts.mpr ⟨u, ?_, hupart⟩
          simp [MemoryDatabase.modifyAccount, hlt]
        · have hne : q.owner ≠ kv.1 := by
            intro heq
            have hsame : p = q := List.inj_on_of_nodup_map hnodup hmem (List.mem_of_getElem? hq)
              (hid.trans heq.symm)
            have hlt := (List.getElem?_eq_some_iff.mp hidx).1
            exact hi ((List.getElem?_inj hlt (hnodup.of_map _)).mp (by rw [hidx, hq, hsame]))
          obtain ⟨v, hv, hvpart⟩ :=
            MemoryDatabase.getElem?_parts.mp (hkept i q hq (by simp [hne, hnot]))
          refine MemoryDatabase.getElem?_parts.mpr ⟨v, ?_, hvpart⟩
          simp [MemoryDatabase.modifyAccount, hi, hv]
      obtain ⟨db', hfold, hdb'⟩ := ih ⟨howners₁ ▸ hlocated.nodup, howners₁ ▸ hlocated.lookup⟩
        (howners₁.trans howners) hunchanged₁ hkept₁
      exact ⟨db', foldlM_cons.mpr ⟨_, hone, hfold⟩, hdb'⟩

/-- `rollback_new_accounts` takes away the newest accounts. -/
theorem rollbackNewAccounts_located {db : MemoryDatabase} (h : db.Located) (n : UInt64) :
    (db.rollbackNewAccounts n).Located ∧ (db.rollbackNewAccounts n).database =
      db.database.take (db.database.length - db.createdAfter n) := by
  have hdropped : ∀ (l : List AccountCreationThunk) (d : MemoryDatabase), d.Located →
      (l.foldl (fun d thunk => d.dropAccounts thunk.numAccountsCreated) d).Located ∧
      (l.foldl (fun d thunk => d.dropAccounts thunk.numAccountsCreated) d).database =
        d.database.take (d.database.length - (l.map (·.numAccountsCreated)).sum) := by
    intro l
    induction l with
    | nil =>
      intro d hd
      exact ⟨hd, by simp⟩
    | cons thunk l ih =>
      intro d hd
      obtain ⟨hlocated, hdatabase⟩ := ih _ (hd.dropAccounts thunk.numAccountsCreated)
      refine ⟨hlocated, ?_⟩
      rw [List.foldl_cons, hdatabase]
      simp only [MemoryDatabase.dropAccounts, List.take_take, List.length_take, List.map_cons,
        List.sum_cons]
      congr 1
      omega
  obtain ⟨hlocated, hdatabase⟩ := hdropped (db.accountCreationThunks.filter (·.currentBlockNumber > n)) db h
  exact ⟨⟨hlocated.nodup, hlocated.lookup⟩, hdatabase⟩

/-- A rewind to what is on disk. -/
theorem RewindsTo.rewind (h : s.RewindsTo n d) (hids : s.db.UniqueIds)
    (hunchanged : ∀ u ∈ s.db.database, u.Unchanged)
    (hmin : s.db.minPersistedRoundNumber = n) (hmax : s.maxPersistedRoundNumber = n)
    (hthunks : ∀ thunk ∈ s.persistenceThunks, n < thunk.currentBlockNumber) :
    ∃ s', s.clearPersistenceThunksAndReload n = .ok s' ∧ Restores d s'.db := by
  obtain ⟨hlocated, hdatabase⟩ := rollbackNewAccounts_located ⟨hids.nodup, hids.lookup⟩ n
  have htake : s.db.database.length - s.db.createdAfter n = d.database.length := by
    have := h.length
    omega
  rw [htake] at hdatabase
  have hparts : (s.db.rollbackNewAccounts n).parts = s.db.parts.take d.database.length := by
    rw [MemoryDatabase.parts, hdatabase, List.map_take, MemoryDatabase.parts]
  have hstored : Stores s.accountLmdb d.parts := by
    have hnone : s.persistenceThunks.filter (·.currentBlockNumber ≤ n) = [] :=
      List.filter_eq_nil_iff.mpr fun thunk ht => by simpa using hthunks thunk ht
    have hstored := h.stored
    rw [writtenTo, hnone] at hstored
    exact hstored
  have hat : ∀ (i : Nat) (p : CommittedPart), d.parts[i]? = some p →
      (s.db.rollbackNewAccounts n).parts[i]? = s.db.parts[i]? := by
    intro i p hp
    have hlt := (List.getElem?_eq_some_iff.mp hp).1
    rw [MemoryDatabase.length_parts] at hlt
    rw [hparts, List.getElem?_take_of_lt hlt]
  have howners : (s.db.rollbackNewAccounts n).owners = d.owners := by
    rw [← MemoryDatabase.map_owner_parts, ← MemoryDatabase.map_owner_parts]
    refine List.ext_getElem? fun i => ?_
    rw [List.getElem?_map, List.getElem?_map]
    cases hp : d.parts[i]? with
    | some p =>
      obtain ⟨q, hq, howner⟩ := h.owners i p hp
      rw [hat i p hp, hq, Option.map_some, Option.map_some, howner]
    | none =>
      rw [List.getElem?_eq_none_iff, MemoryDatabase.length_parts] at hp
      rw [hparts, List.getElem?_take_eq_none hp]
  set undone := (s.persistenceThunks.filter (n < ·.currentBlockNumber)).reverse.flatMap
    DBPersistenceThunk.kvs with hundone
  have hkept : ∀ (i : Nat) (p : CommittedPart), d.parts[i]? = some p →
      p.owner ∉ undone.map Prod.fst → (s.db.rollbackNewAccounts n).parts[i]? = some p := by
    intro i p hp hnot
    rw [hat i p hp]
    refine h.kept i p hp fun hmem => hnot ?_
    obtain ⟨thunk, hthunk, hmem⟩ := List.mem_flatMap.mp hmem
    obtain ⟨kv, hkv, hid⟩ := List.mem_map.mp hmem
    exact List.mem_map.mpr ⟨kv, List.mem_flatMap.mpr ⟨thunk, List.mem_reverse.mpr hthunk, hkv⟩, hid⟩
  obtain ⟨db', hfold, hlocated', hparts', hunchanged'⟩ := reload_loop h.ids hstored hlocated howners
    (fun u hu => hunchanged u (List.mem_of_mem_take (hdatabase ▸ hu))) hkept
  have howners' : db'.owners = d.owners := by
    rw [← MemoryDatabase.map_owner_parts, hparts', MemoryDatabase.map_owner_parts]
  refine ⟨{ s with db := db', persistenceThunks := [] }, ?_, fun id => ?_, length_of_owners howners',
    fun i u v hu hv => ?_⟩
  · unfold clearPersistenceThunksAndReload
    rw [if_neg (by rw [hmin, hmax]; exact not_not.mpr rfl), if_neg (by rw [hmin]; exact not_not.mpr rfl)]
    exact bind_eq_ok.mpr ⟨db', hfold, rfl⟩
  · refine Option.ext fun idx => ?_
    rw [hlocated'.lookup, howners', h.ids.lookup]
  · have hpart : v.committedPart = u.committedPart := by
      have hu' := MemoryDatabase.getElem?_parts.mpr ⟨u, hu, rfl⟩
      have hv' := MemoryDatabase.getElem?_parts.mpr ⟨v, hv, rfl⟩
      rw [hparts', hu'] at hv'
      exact (Option.some.inj hv').symm
    have hu₁ := h.unchanged u (List.mem_of_getElem? hu)
    have hv₁ := hunchanged' v (List.mem_of_getElem? hv)
    refine ⟨congrArg CommittedPart.owner hpart, congrArg CommittedPart.pk hpart,
      congrArg CommittedPart.lastCommittedId hpart, fun asset => ⟨hu₁.balance_eq hv₁ hpart asset, ?_⟩⟩
    rw [UserAccount.committedBalance, UserAccount.committedBalance, hpart]

/-- In every run of blocks and writes from a store whose accounts are on disk, writing the thunks up
to `n` and reloading gives back the accounts at the end of the last block numbered at most `n`: none
is missing, and none that was created later is left.  The write returns if the blocks that are to be
written are numbered above the last one that was. -/
theorem rewind_of_run (s₀ s : AccountStore) (history : List (UInt64 × MemoryDatabase)) (n : UInt64)
    (h₀ : s₀.OnDisk) (hrun : BlockRun s₀ history s) (hn : s.maxPersistedRoundNumber ≤ n) :
    (∀ s₁, s.commitPersistenceThunks n = .ok s₁ →
      ∃ s₂, s₁.clearPersistenceThunksAndReload n = .ok s₂ ∧ Restores (stateAt s₀ history n) s₂.db) ∧
    ((∀ thunk ∈ s.persistenceThunks, s.maxPersistedRoundNumber < thunk.currentBlockNumber) →
      ∃ s₁, s.commitPersistenceThunks n = .ok s₁) := by
  have hs := hrun.recoverable h₀
  refine ⟨fun s₁ hpersist => ?_, hs.commitPersistenceThunks_returns hn⟩
  obtain ⟨hs₁, hmax⟩ := hs.persist hn hpersist
  have hthunks : ∀ thunk ∈ s₁.persistenceThunks, n < thunk.currentBlockNumber := by
    cases commitPersistenceThunks_eq hpersist
    intro thunk ht
    simpa using (List.mem_filter.mp ht).2
  exact (hs₁.rewinds n hmax.le).rewind hs₁.ids hs₁.unchanged (hs₁.rounds.trans hmax) hmax hthunks

/-! ### From genesis -/

theorem genesis_onDisk {numAssets : Nat} {defaultAmount : Int64} {accounts : List (AccountID × PublicKey)}
    (hnodup : (accounts.map Prod.fst).Nodup) (h : genesis numAssets defaultAmount accounts = .ok s) :
    s.OnDisk := by
  have hids := (genesis_consistent hnodup h).ids
  obtain ⟨db, hdb, h⟩ := bind_eq_ok.mp h
  obtain ⟨kvs, hkvs, hpersist⟩ := bind_eq_ok.mp h
  obtain ⟨⟨lmdb, number⟩, hfold, hpersist⟩ := bind_eq_ok.mp hpersist
  have hlmdb : lmdb = (∅ : SortedMap AccountID AccountCommitment).insertAll kvs := by
    simpa using foldlM_execOneThunk hfold
  dsimp only at hpersist
  split at hpersist
  · cases hpersist
  cases hpersist
  have hrounds := MemoryDatabase.SameRounds.foldlM
    (fun _ _ _ hstep => MemoryDatabase.sameRounds_commitNewAccount hstep) hdb
  have hunchanged : ∀ u ∈ db.database, u.Unchanged := foldlM_invariant
    (P := fun d : MemoryDatabase => ∀ u ∈ d.database, u.Unchanged)
    (fun d a d' _ hd hstep u hu => by
      rw [MemoryDatabase.commitNewAccount_database hstep, List.mem_append, List.mem_singleton] at hu
      rcases hu with hu | rfl
      · exact hd u hu
      · exact a.commit_unchanged) (fun u hu => absurd hu List.not_mem_nil) hdb
  have hkeys : kvs.map Prod.fst = db.owners := map_of_mapM hkvs fun u kv hkv => by
    obtain ⟨c, -, hkv⟩ := bind_eq_ok.mp hkv
    cases hkv
    rfl
  have hchange : BlockChange db.owners [] db.parts := by
    refine ⟨Nat.zero_le _, fun i p hp => by simp at hp, fun i p hp => by simp at hp, fun i p hp _ => ?_, ?_⟩
    · rw [← MemoryDatabase.map_owner_parts]
      exact List.mem_map_of_mem (List.mem_of_getElem? hp)
    · rw [MemoryDatabase.map_owner_parts]
      exact hids.nodup
  have hempty : Stores ∅ [] := ⟨fun _ => rfl, fun p hp => absurd hp List.not_mem_nil⟩
  refine ⟨hids, hunchanged, ?_, rfl, hrounds.thunks, ?_⟩
  · show Stores lmdb db.parts
    rw [hlmdb]
    refine hempty.insertAll hchange hkeys hids.nodup fun kv hkv => ?_
    obtain ⟨u, hu, hkv⟩ := mem_of_mapM hkvs hkv
    obtain ⟨c, hc, hkv⟩ := bind_eq_ok.mp hkv
    cases hkv
    obtain ⟨rfl, hfits⟩ := UserAccount.produceCommitment_part hc
    exact ⟨u.committedPart, List.mem_map_of_mem hu, rfl, rfl, hfits⟩
  · show max db.minPersistedRoundNumber 0 = max 0 0
    rw [hrounds.persisted]
    rfl

/-- The payment of block 1 is undone: account 7 has its 10 units back. -/
theorem rewind_of_run_payment :
    ∃ s₀ s s₁ s₂ history, genesis 1 10 [(7, 0)] = .ok s₀ ∧ BlockRun s₀ history s ∧
      s.commitPersistenceThunks 0 = .ok s₁ ∧ s₁.clearPersistenceThunksAndReload 0 = .ok s₂ ∧
      s.db.database.map (fun u => u.balance 0) = [7] ∧ stateAt s₀ history 0 = s₀.db ∧
      Restores s₀.db s₂.db ∧ s₂.db.database.map (fun u => u.balance 0) = [10] := by
  obtain ⟨r, hr, hvalues⟩ := returns_iff.mp (show returns (rewoundTo 0) (fun r =>
    r.1.db.database.map (fun u => u.balance 0) = [7] ∧
      r.2.db.database.map (fun u => u.balance 0) = [10]) = true by decide +kernel)
  obtain ⟨s₀, hgenesis, hs₀⟩ := returns_iff.mp (show returns (genesis 1 10 [(7, 0)]) (fun s =>
    s.db.uncommittedDb = [] ∧ s.db.owners = [7] ∧ s.maxPersistedRoundNumber = 0) = true by
      decide +kernel)
  obtain ⟨hbefore, hafter⟩ := of_decide_eq_true hvalues
  obtain ⟨hcreated, howners, hmax⟩ := of_decide_eq_true hs₀
  obtain ⟨s₀', hgenesis', hr⟩ := bind_eq_ok.mp hr
  cases hgenesis.symm.trans hgenesis'
  obtain ⟨db₂, hnew, hr⟩ := bind_eq_ok.mp hr
  obtain ⟨db₃, hcommit, hr⟩ := bind_eq_ok.mp hr
  obtain ⟨db₄, htrie, hr⟩ := bind_eq_ok.mp hr
  obtain ⟨s, hthunk, hr⟩ := bind_eq_ok.mp hr
  obtain ⟨s₁, hpersist, hr⟩ := bind_eq_ok.mp hr
  obtain ⟨s₂, hrewind, hr⟩ := bind_eq_ok.mp hr
  cases hr
  have hblock : s₀.db.Block 1 paymentLog db₄ := by
    have hids := (genesis_onDisk (by decide) hgenesis).ids
    have hprocess : s₀.db.Changes (s₀.db.escrow 0 0 3) :=
      .step (.escrow 0 0 3) trivial rfl (.refl _)
    obtain ⟨hids₁, -⟩ := MemoryDatabase.changes_keeps (K := fun _ => True) hprocess hids
    have howners₂ : ∀ u ∈ db₂.database, u.owner ∈ paymentLog.keys := by
      have hparts := (MemoryDatabase.created_cases hids₁ (.inl hnew)).2.1
      rw [show (s₀.db.escrow 0 0 3).uncommittedDb = [] from hcreated, List.map_nil, List.append_nil,
        show (s₀.db.escrow 0 0 3).parts = s₀.db.parts from hprocess.sameCommitted.committed] at hparts
      intro u hu
      have hmem : u.owner ∈ db₂.owners := List.mem_map_of_mem hu
      rw [← MemoryDatabase.map_owner_parts, hparts, MemoryDatabase.map_owner_parts, howners,
        List.mem_singleton] at hmem
      rw [hmem]
      decide
    rw [MemoryDatabase.modifyCommitments_trie htrie]
    refine .mk hprocess (fun id hid => ?_) (.inl hnew) (.refl _)
      (fun u hu hnot => absurd (howners₂ u hu) hnot) hcommit _
    rw [MemoryDatabase.createdOwners, show (s₀.db.escrow 0 0 3).uncommittedDb = [] from hcreated] at hid
    exact absurd hid List.not_mem_nil
  have hrun : BlockRun s₀ [(1, s.db)] s :=
    .block .start (fun b hb => absurd hb List.not_mem_nil) hblock hthunk
  have hround : s.maxPersistedRoundNumber ≤ 0 := by
    obtain ⟨thunk, rfl, -, -⟩ := addPersistenceThunk_spec hthunk (hblock.effect
      (genesis_onDisk (by decide) hgenesis).ids).ids
    exact hmax.le
  obtain ⟨s₂', hrewind', hrestores⟩ := (rewind_of_run s₀ s [(1, s.db)] 0
    (genesis_onDisk (by decide) hgenesis) hrun hround).1 s₁ hpersist
  cases hrewind.symm.trans hrewind'
  have hdb : s₁.db.database = s.db.database := by
    cases commitPersistenceThunks_eq hpersist
    rfl
  exact ⟨s₀, s, s₁, s₂, [(1, s.db)], hgenesis, hrun, hpersist, hrewind, hdb ▸ hbefore, rfl, hrestores,
    hafter⟩

end AccountStore

end Speedex
