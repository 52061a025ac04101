import Speedex.Database.CommitmentTrie

/-! Runs of the account store from genesis: blocks that this node proposes, blocks that it
validates, writes to disk and rewinds.  The trie mirrors the accounts until a rewind loads an
account that an undone block had changed. -/

namespace Speedex

open Lib

namespace MemoryDatabase

/-- The empty database. -/
def empty : MemoryDatabase := ⟨[], ∅, [], ∅, ∅, [], 0⟩

/-- `account_init_lambda`, up to the commit. -/
def genesisAccount (numAssets : Nat) (defaultAmount : Int64) (account : AccountID × PublicKey) :
    UserAccount :=
  (List.range numAssets).foldl (fun u i => u.transferAvailable (.ofNat i) defaultAmount)
    (.new account.1 account.2)

/-- `install_initial_accounts_and_commit`. -/
def installInitialAccountsAndCommit (numAssets : Nat) (defaultAmount : Int64)
    (accounts : List (AccountID × PublicKey)) : Result MemoryDatabase :=
  (accounts.map (genesisAccount numAssets defaultAmount)).foldlM commitNewAccount empty

end MemoryDatabase

namespace AccountStore

/-- `persist_lmdb`: write every account. -/
def persistLmdb (s : AccountStore) (currentBlockNumber : UInt64) : Result AccountStore := do
  let kvs ← s.db.database.mapM fun u => do
    let commitment ← u.produceCommitment
    return (u.owner, commitment)
  s.persistThunks [⟨kvs, currentBlockNumber⟩] currentBlockNumber

/-- The accounts after `init_clean`. -/
def genesis (numAssets : Nat) (defaultAmount : Int64) (accounts : List (AccountID × PublicKey)) :
    Result AccountStore := do
  let db ← MemoryDatabase.installInitialAccountsAndCommit numAssets defaultAmount accounts
  persistLmdb ⟨db, [], ∅, 0⟩ 0

inductive Action where
  | produce (number : UInt64) (log : ModificationTrie)
  | accept (number : UInt64) (log : ModificationTrie)
  | rejectEarly
  | rejectClearing (number : UInt64)
  | rejectHash (number : UInt64) (log : ModificationTrie)
  | persist (maxRoundNumber : UInt64)
  | rewind (expectedPersistedRoundNumber : UInt64)

/-- What happens between two block boundaries.  A block is proposed, accepted, rejected before
`commit_new_accounts`, or rejected after it, without or with a tentative state commitment. -/
inductive Step : AccountStore → Action → AccountStore → Prop where
  | produce {s s' : AccountStore} {db₁ db₂ db₃ db₄ db₅ : MemoryDatabase} {n : UInt64}
    {log : ModificationTrie} (hprocess : s.db.Changes db₁) (hnew : db₁.commitNewAccounts n = .ok db₂)
    (hclear : db₂.Changes db₃) (hcommit : db₃.commitValues log = .ok db₄)
    (htrie : db₄.setTrieCommitmentToUserAccountCommits log = .ok db₅)
    (hthunk : addPersistenceThunk { s with db := db₅ } n log = .ok s') :
    Step s (.produce n log) s'
  | accept {s s' : AccountStore} {db₁ db₂ : MemoryDatabase} {a a₁ a₂ : DatabaseAutoRollback}
    {n : UInt64} {log : ModificationTrie} (hvalidate : s.db.Changes db₁)
    (hnew : (DatabaseAutoRollback.new db₁ n).tentativeCommitForValidation = .ok a)
    (hclear : a.db.Changes db₂)
    (htrie : { a with db := db₂ }.tentativeProduceStateCommitment log = .ok a₁)
    (hfinal : a₁.finalizeCommit = .ok a₂)
    (hthunk : addPersistenceThunk { s with db := a₂.db } n log = .ok s') :
    Step s (.accept n log) s'
  | rejectEarly {s : AccountStore} {db₁ : MemoryDatabase} (hvalidate : s.db.Changes db₁) :
    Step s .rejectEarly { s with db := db₁ }
  | rejectClearing {s : AccountStore} {db₁ db₂ db₃ : MemoryDatabase} {a : DatabaseAutoRollback}
    {n : UInt64} (hvalidate : s.db.Changes db₁)
    (hnew : (DatabaseAutoRollback.new db₁ n).tentativeCommitForValidation = .ok a)
    (hclear : a.db.Changes db₂) (hdestroy : { a with db := db₂ }.destroy = .ok db₃) :
    Step s (.rejectClearing n) { s with db := db₃ }
  | rejectHash {s : AccountStore} {db₁ db₂ db₃ : MemoryDatabase} {a a₁ : DatabaseAutoRollback}
    {n : UInt64} {log : ModificationTrie} (hvalidate : s.db.Changes db₁)
    (hnew : (DatabaseAutoRollback.new db₁ n).tentativeCommitForValidation = .ok a)
    (hclear : a.db.Changes db₂)
    (htrie : { a with db := db₂ }.tentativeProduceStateCommitment log = .ok a₁)
    (hdestroy : a₁.destroy = .ok db₃) :
    Step s (.rejectHash n log) { s with db := db₃ }
  | persist {s s' : AccountStore} {n : UInt64} (h : s.commitPersistenceThunks n = .ok s') :
    Step s (.persist n) s'
  | rewind {s s' : AccountStore} {n : UInt64}
    (h : s.clearPersistenceThunksAndReload n = .ok s') : Step s (.rewind n) s'

/-- A run whose steps all meet `P`. -/
inductive Run (P : AccountStore → Action → Prop) : AccountStore → AccountStore → Prop where
  | refl (s : AccountStore) : Run P s s
  | step {s s₁ s₂ : AccountStore} {a : Action} (hrun : Run P s s₁) (hP : P s₁ a)
    (hstep : Step s₁ a s₂) : Run P s s₂

/-- No block that a rewind to block `n` undoes has changed the committed state of an account that
is on disk. -/
def UndoesNoChange (s : AccountStore) : Action → Prop
  | .rewind n => ∀ thunk ∈ s.persistenceThunks, n < thunk.currentBlockNumber → ∀ kv ∈ thunk.kvs,
      ∀ c, s.accountLmdb.find? kv.1 = some c →
        ∀ u ∈ s.db.database, u.owner = kv.1 → u.produceCommitment = .ok c
  | _ => True

instance (s : AccountStore) (n : UInt64) : Decidable (s.UndoesNoChange (.rewind n)) :=
  decidable_of_iff (∀ thunk ∈ s.persistenceThunks, n < thunk.currentBlockNumber →
      ∀ kv ∈ thunk.kvs, ∀ c ∈ s.accountLmdb.find? kv.1,
        ∀ u ∈ s.db.database, u.owner = kv.1 → u.produceCommitment = .ok c) Iff.rfl

/-- The commitment of some account with this id. -/
def IsCommitment (id : AccountID) (c : AccountCommitment) : Prop :=
  ∃ u : UserAccount, u.owner = id ∧ u.produceCommitment = .ok c

/-- A state at a block boundary.  What is on disk, and what is to be written there, are
commitments. -/
structure Consistent (s : AccountStore) : Prop where
  ids : s.db.UniqueIds
  mirrors : s.db.Mirrors
  disk : ∀ id c, s.accountLmdb.find? id = some c → IsCommitment id c
  thunks : ∀ thunk ∈ s.persistenceThunks, ∀ kv ∈ thunk.kvs, IsCommitment kv.1 kv.2

variable {s s' : AccountStore}

theorem execOneThunk_disk {acc acc' : SortedMap AccountID AccountCommitment × UInt64}
    {thunk : DBPersistenceThunk} (h : execOneThunk acc thunk = .ok acc')
    (hdisk : ∀ id c, acc.1.find? id = some c → IsCommitment id c)
    (hthunk : ∀ kv ∈ thunk.kvs, IsCommitment kv.1 kv.2) :
    ∀ id c, acc'.1.find? id = some c → IsCommitment id c := by
  unfold execOneThunk at h
  split at h
  · cases h
  cases h
  show ∀ id c, (acc.1.insertAll thunk.kvs).find? id = some c → _
  intro id c hfind
  rw [SortedMap.find?_insertAll] at hfind
  cases hlookup : SortedMap.lookup id thunk.kvs.reverse with
  | none =>
    rw [hlookup] at hfind
    exact hdisk id c hfind
  | some c' =>
    rw [hlookup] at hfind
    cases hfind
    exact hthunk (id, c) (List.mem_reverse.mp (SortedMap.mem_of_lookup hlookup))

theorem persistThunks_disk {thunks : List DBPersistenceThunk} {n : UInt64}
    (h : s.persistThunks thunks n = .ok s')
    (hdisk : ∀ id c, s.accountLmdb.find? id = some c → IsCommitment id c)
    (hthunks : ∀ thunk ∈ thunks, ∀ kv ∈ thunk.kvs, IsCommitment kv.1 kv.2) :
    (∀ id c, s'.accountLmdb.find? id = some c → IsCommitment id c) ∧
      s'.persistenceThunks = s.persistenceThunks ∧
      s'.db = { s.db with minPersistedRoundNumber := s'.db.minPersistedRoundNumber } := by
  obtain ⟨⟨lmdb, number⟩, hfold, h⟩ := bind_eq_ok.mp h
  dsimp only at h
  split at h
  · cases h
  cases h
  refine ⟨?_, rfl, rfl⟩
  exact foldlM_invariant
    (P := fun acc => ∀ id c, acc.1.find? id = some c → IsCommitment id c)
    (fun acc thunk acc' hmem hacc hstep => execOneThunk_disk hstep hacc (hthunks thunk hmem))
    hdisk hfold

theorem kvAssignment_spec {db : MemoryDatabase} {account : AccountID}
    {kv : AccountID × AccountCommitment} (h : kvAssignment db account = .ok kv) :
    ∃ idx u c, db.lookupUser account = some idx ∧ db.database[idx]? = some u ∧
      u.produceCommitment = .ok c ∧ kv = (account, c) := by
  unfold kvAssignment at h
  split at h
  · cases h
  rename_i u hu
  obtain ⟨idx, hidx, hu⟩ := Option.bind_eq_some_iff.mp hu
  obtain ⟨c, hc, h⟩ := bind_eq_ok.mp h
  cases h
  exact ⟨idx, u, c, hidx, hu, hc, rfl⟩

theorem addPersistenceThunk_spec {n : UInt64} {log : ModificationTrie}
    (h : s.addPersistenceThunk n log = .ok s') (hids : s.db.UniqueIds) :
    ∃ thunk, s' = { s with persistenceThunks := s.persistenceThunks ++ [thunk] } ∧
      (∀ kv ∈ thunk.kvs, IsCommitment kv.1 kv.2) ∧
      ∀ u ∈ s.db.database, u.owner ∈ log.keys → ∃ c, u.produceCommitment = .ok c := by
  obtain ⟨kvs, hkvs, h⟩ := bind_eq_ok.mp h
  cases h
  refine ⟨⟨kvs, n⟩, rfl, fun kv hkv => ?_, fun u hu hlog => ?_⟩
  · obtain ⟨account, -, hkv⟩ := mem_of_mapM hkvs hkv
    obtain ⟨idx, u, c, hidx, hu, hc, rfl⟩ := kvAssignment_spec hkv
    exact ⟨u, hids.owner_eq hidx hu, hc⟩
  · obtain ⟨kv, -, hkv⟩ := mapM_ok_of_mem hkvs hlog
    obtain ⟨idx, v, c, hidx, hv, hc, -⟩ := kvAssignment_spec hkv
    cases hids.eq_of_owner hu hidx hv
    exact ⟨c, hc⟩

/-! ### The steps -/

/-- A thunk of committed values is added to a consistent store. -/
theorem Consistent.addPersistenceThunk {n : UInt64} {log : ModificationTrie} (hs : s.Consistent)
    {db : MemoryDatabase} (hids : db.UniqueIds) (hm : db.Mirrors)
    (h : AccountStore.addPersistenceThunk { s with db := db } n log = .ok s') : s'.Consistent := by
  obtain ⟨thunk, rfl, hthunk, -⟩ := addPersistenceThunk_spec h hids
  refine ⟨hids, hm, hs.disk, fun t ht => ?_⟩
  rcases List.mem_append.mp ht with ht | ht
  · exact hs.thunks t ht
  · cases List.mem_singleton.mp ht
    exact hthunk

theorem produce_consistent (hs : s.Consistent) {n : UInt64} {log : ModificationTrie}
    {db₁ db₂ db₃ db₄ db₅ : MemoryDatabase} (hprocess : s.db.Changes db₁)
    (hnew : db₁.commitNewAccounts n = .ok db₂) (hclear : db₂.Changes db₃)
    (hcommit : db₃.commitValues log = .ok db₄)
    (htrie : db₄.setTrieCommitmentToUserAccountCommits log = .ok db₅)
    (hthunk : AccountStore.addPersistenceThunk { s with db := db₅ } n log = .ok s') :
    s'.Consistent := by
  obtain ⟨hids₁, hm₁⟩ := MemoryDatabase.changes_keeps hprocess hs.ids
  obtain ⟨hids₂, hm₂⟩ := MemoryDatabase.commitNewAccounts_keeps hnew hids₁ (hm₁ hs.mirrors)
  obtain ⟨hids₃, hm₃⟩ := MemoryDatabase.changes_keeps hclear hids₂
  obtain ⟨hids₄, hm₄⟩ := MemoryDatabase.commitValues_keeps hcommit hids₃
    ((hm₃ hm₂).mono fun _ => False.elim) fun _ h => h
  obtain ⟨hids₅, hm₅⟩ := MemoryDatabase.setTrie_mirrors htrie hids₄ hm₄
  exact hs.addPersistenceThunk hids₅ hm₅ hthunk

/-- What validation leaves behind when it reaches the tentative state commitment. -/
theorem tentative_keeps (hs : s.Consistent) {n : UInt64} {db₁ db₂ : MemoryDatabase}
    {a : DatabaseAutoRollback} (hvalidate : s.db.Changes db₁)
    (hnew : (DatabaseAutoRollback.new db₁ n).tentativeCommitForValidation = .ok a)
    (hclear : a.db.Changes db₂) :
    db₂.UniqueIds ∧ db₂.Mirrors ∧ a.doRollbackForValidation = true ∧
      a.doRollbackProduceStateCommitment = false := by
  obtain ⟨hids₁, hm₁⟩ := MemoryDatabase.changes_keeps hvalidate hs.ids
  obtain ⟨db, hdb, h⟩ := bind_eq_ok.mp hnew
  cases h
  obtain ⟨hids, hm⟩ := MemoryDatabase.commitNewAccounts_keeps hdb hids₁ (hm₁ hs.mirrors)
  obtain ⟨hids₂, hm₂⟩ := MemoryDatabase.changes_keeps hclear hids
  exact ⟨hids₂, hm₂ hm, rfl, rfl⟩

theorem accept_consistent (hs : s.Consistent) {n : UInt64} {log : ModificationTrie}
    {db₁ db₂ : MemoryDatabase} {a a₁ a₂ : DatabaseAutoRollback} (hvalidate : s.db.Changes db₁)
    (hnew : (DatabaseAutoRollback.new db₁ n).tentativeCommitForValidation = .ok a)
    (hclear : a.db.Changes db₂)
    (htrie : { a with db := db₂ }.tentativeProduceStateCommitment log = .ok a₁)
    (hfinal : a₁.finalizeCommit = .ok a₂)
    (hthunk : AccountStore.addPersistenceThunk { s with db := a₂.db } n log = .ok s') :
    s'.Consistent := by
  obtain ⟨hids₂, hm₂, -, -⟩ := tentative_keeps hs hvalidate hnew hclear
  obtain ⟨db₃, hmodify, h⟩ := bind_eq_ok.mp htrie
  cases h
  unfold DatabaseAutoRollback.finalizeCommit at hfinal
  split at hfinal
  · cases hfinal
  obtain ⟨db₄, hcommit, h⟩ := bind_eq_ok.mp hfinal
  cases h
  have hlog : db₂.MirrorsExcept (· ∈ log.keys) := hm₂.mono fun _ => False.elim
  obtain ⟨hids₃, hm₃⟩ := MemoryDatabase.modifyCommitments_keeps hmodify hids₂ hlog fun _ h => h
  obtain ⟨hdb₃, hentries⟩ := MemoryDatabase.modifyCommitments_entries hmodify hids₂
    fun id hid => (hm₂.keys id).mpr hid
  obtain ⟨hids₄, hm₄⟩ := MemoryDatabase.commitValues_keeps hcommit hids₃ hm₃ fun _ h => h
  have hsettled := MemoryDatabase.commitValues_settled hcommit hids₃
    (fun u hu hmem => hentries u (hdb₃ ▸ hu) hmem) fun u hu hmem => by
      obtain ⟨c, hc, hfind⟩ := hm₃.values u hu hmem
      exact ⟨c, hfind, fun c' hc' => Except.ok.inj (hc'.symm.trans hc)⟩
  obtain ⟨-, -, -, hproduce⟩ := addPersistenceThunk_spec hthunk hids₄
  -- the log's accounts could be written, so they have the commitments that the trie holds
  refine hs.addPersistenceThunk hids₄ ⟨hm₄.keys, fun u hu _ => ?_⟩ hthunk
  by_cases hmem : u.owner ∈ log.keys
  · obtain ⟨c, hc⟩ := hproduce u hu hmem
    obtain ⟨c', hfind, heq⟩ := hsettled u hu
    cases heq c hc
    exact ⟨c, hc, hfind⟩
  · exact hm₄.values u hu hmem

theorem rejectClearing_consistent (hs : s.Consistent) {n : UInt64} {db₁ db₂ db₃ : MemoryDatabase}
    {a : DatabaseAutoRollback} (hvalidate : s.db.Changes db₁)
    (hnew : (DatabaseAutoRollback.new db₁ n).tentativeCommitForValidation = .ok a)
    (hclear : a.db.Changes db₂) (hdestroy : { a with db := db₂ }.destroy = .ok db₃) :
    Consistent { s with db := db₃ } := by
  obtain ⟨hids₂, hm₂, hrollback, hproduce⟩ := tentative_keeps hs hvalidate hnew hclear
  simp only [DatabaseAutoRollback.destroy, hrollback, hproduce] at hdestroy
  cases hdestroy
  obtain ⟨hids, hm⟩ := MemoryDatabase.rollbackNewAccounts_keeps hids₂ hm₂ a.currentBlockNumber
  obtain ⟨hids', hm'⟩ := MemoryDatabase.rollbackValues_keeps hids hm
  exact ⟨hids', hm', hs.disk, hs.thunks⟩

theorem rejectHash_consistent (hs : s.Consistent) {n : UInt64} {log : ModificationTrie}
    {db₁ db₂ db₃ : MemoryDatabase} {a a₁ : DatabaseAutoRollback} (hvalidate : s.db.Changes db₁)
    (hnew : (DatabaseAutoRollback.new db₁ n).tentativeCommitForValidation = .ok a)
    (hclear : a.db.Changes db₂)
    (htrie : { a with db := db₂ }.tentativeProduceStateCommitment log = .ok a₁)
    (hdestroy : a₁.destroy = .ok db₃) : Consistent { s with db := db₃ } := by
  obtain ⟨hids₂, hm₂, hrollback, -⟩ := tentative_keeps hs hvalidate hnew hclear
  obtain ⟨db, hmodify, h⟩ := bind_eq_ok.mp htrie
  cases h
  obtain ⟨hids, hm⟩ := MemoryDatabase.modifyCommitments_keeps hmodify hids₂
    (hm₂.mono fun _ => False.elim) fun _ h => h
  simp only [DatabaseAutoRollback.destroy, hrollback] at hdestroy
  obtain ⟨hids₁, hm₁⟩ := MemoryDatabase.rollbackNewAccounts_keeps hids hm a.currentBlockNumber
  obtain ⟨hids', hm'⟩ := MemoryDatabase.rollbackValues_keeps hids₁ hm₁
  obtain ⟨hids₃, hm₃⟩ := MemoryDatabase.setTrie_mirrors hdestroy hids' hm'
  exact ⟨hids₃, hm₃, hs.disk, hs.thunks⟩

/-- The numbers of the persisted rounds and the creation thunks do not matter. -/
theorem Consistent.withRounds (hs : s.Consistent) {lmdb : SortedMap AccountID AccountCommitment}
    (hdisk : ∀ id c, lmdb.find? id = some c → IsCommitment id c) {thunks : List DBPersistenceThunk}
    (hthunks : ∀ thunk ∈ thunks, thunk ∈ s.persistenceThunks) (l : List AccountCreationThunk)
    (r r' : UInt64) :
    Consistent ⟨{ s.db with accountCreationThunks := l, minPersistedRoundNumber := r }, thunks, lmdb,
      r'⟩ :=
  ⟨⟨hs.ids.nodup, hs.ids.lookup, hs.ids.created_nodup, hs.ids.created_reserved,
    hs.ids.reserved_new⟩, ⟨hs.mirrors.keys, hs.mirrors.values⟩, hdisk,
    fun thunk ht => hs.thunks thunk (hthunks thunk ht)⟩

theorem persist_consistent (hs : s.Consistent) {n : UInt64}
    (h : s.commitPersistenceThunks n = .ok s') : s'.Consistent := by
  obtain ⟨s₁, hpersist, h⟩ := bind_eq_ok.mp h
  cases h
  obtain ⟨hdisk, hthunks, hdb⟩ := persistThunks_disk hpersist hs.disk fun thunk ht =>
    hs.thunks thunk (List.mem_filter.mp ht).1
  rw [clearCreationThunks, hdb]
  refine hs.withRounds hdisk (fun thunk ht => ?_) _ _ _
  rw [hthunks] at ht
  exact (List.mem_filter.mp ht).1

theorem find?_rollbackNewAccounts {db : MemoryDatabase} {n : UInt64} {id : AccountID}
    {c : AccountCommitment} (h : (db.rollbackNewAccounts n).commitmentTrie.find? id = some c) :
    db.commitmentTrie.find? id = some c := by
  have hdropped : ∀ (l : List AccountCreationThunk) (d : MemoryDatabase),
      (l.foldl (fun d thunk => d.dropAccounts thunk.numAccountsCreated) d).commitmentTrie.find? id =
        some c → d.commitmentTrie.find? id = some c := by
    intro l
    induction l with
    | nil => exact fun _ h => h
    | cons thunk l ih =>
      intro d hd
      have hfind := ih _ hd
      simp only [MemoryDatabase.dropAccounts, SortedMap.find?_eraseAll] at hfind
      split_ifs at hfind
      exact hfind
  exact hdropped _ db h

/-- A reload of an account whose entry is what is on disk. -/
theorem reloadAccount_keeps {lmdb : SortedMap AccountID AccountCommitment}
    {db db' : MemoryDatabase} {kv : AccountID × AccountCommitment}
    (h : reloadAccount lmdb db kv = .ok db') (hids : db.UniqueIds) (hm : db.Mirrors)
    (hdisk : ∀ c, lmdb.find? kv.1 = some c → IsCommitment kv.1 c)
    (hsame : ∀ c, lmdb.find? kv.1 = some c → ∀ c', db.commitmentTrie.find? kv.1 = some c' → c' = c) :
    db'.UniqueIds ∧ db'.Mirrors ∧ db'.commitmentTrie = db.commitmentTrie := by
  unfold reloadAccount at h
  split at h
  · cases h
    exact ⟨hids, hm, rfl⟩
  rename_i c hc
  split at h
  · cases h
  rename_i idx hidx
  obtain ⟨u, hu, h⟩ := bind_eq_ok.mp h
  cases h
  obtain ⟨v, hv, hcommit⟩ := hdisk c hc
  obtain ⟨u', hu', howner, hproduce⟩ := UserAccount.ofCommitment_of_produceCommitment hcommit
  cases hu.symm.trans hu'
  have hkeeps : db.KeepsAt idx fun _ => u := by
    intro w hw
    have hwowner := hids.owner_eq hidx hw
    obtain ⟨c', hc', hfind⟩ := hm.values w (List.mem_of_getElem? hw) id
    rw [hwowner] at hfind
    cases hsame c hc c' hfind
    exact ⟨howner.trans (hv.trans hwowner.symm), hproduce.trans hc'.symm⟩
  exact ⟨hids.modifyAccount fun w hw => (hkeeps w hw).1, hm.modifyAccount hkeeps, rfl⟩

theorem rewind_consistent (hs : s.Consistent) {n : UInt64} (hsafe : s.UndoesNoChange (.rewind n))
    (h : s.clearPersistenceThunksAndReload n = .ok s') : s'.Consistent := by
  unfold clearPersistenceThunksAndReload at h
  split at h
  · cases h
  split at h
  · cases h
  obtain ⟨db, hfold, h⟩ := bind_eq_ok.mp h
  cases h
  obtain ⟨hids₁, hm₁⟩ := MemoryDatabase.rollbackNewAccounts_keeps hs.ids hs.mirrors n
  -- every reload finds in the trie what it finds on disk
  have hloop := foldlM_invariant (P := fun d => d.UniqueIds ∧ d.Mirrors ∧
      d.commitmentTrie = (s.db.rollbackNewAccounts n).commitmentTrie)
    (fun d kv d' hkv hd hstep => ?_) ⟨hids₁, hm₁, rfl⟩ hfold
  · exact ⟨hloop.1, hloop.2.1, hs.disk, fun thunk ht => absurd ht List.not_mem_nil⟩
  · obtain ⟨hd₁, hd₂, hd₃⟩ := hd
    obtain ⟨thunk, hthunk, hmem⟩ := List.mem_flatMap.mp hkv
    obtain ⟨hthunk, hnumber⟩ := List.mem_filter.mp (List.mem_reverse.mp hthunk)
    have hnumber : n < thunk.currentBlockNumber := by simpa using hnumber
    obtain ⟨h₁, h₂, h₃⟩ := reloadAccount_keeps hstep hd₁ hd₂ (fun c => hs.disk kv.1 c)
      fun c hc c' hc' => by
        rw [hd₃] at hc'
        have hfind := find?_rollbackNewAccounts hc'
        have hcontains : s.db.commitmentTrie.contains kv.1 = true := by
          rw [SortedMap.contains, hfind]
          rfl
        obtain ⟨u, hu, howner⟩ := List.mem_map.mp ((hs.mirrors.keys kv.1).mp hcontains)
        obtain ⟨c'', hc'', hentry⟩ := hs.mirrors.values u hu id
        rw [howner, hfind] at hentry
        cases hentry
        exact Except.ok.inj (hc''.symm.trans (hsafe thunk hthunk hnumber kv hmem c hc u hu howner))
    exact ⟨h₁, h₂, h₃.trans hd₃⟩

/-- One step keeps a consistent store consistent, unless it is a rewind that undoes a change. -/
theorem step_consistent {a : Action} (hs : s.Consistent) (hsafe : s.UndoesNoChange a)
    (h : Step s a s') : s'.Consistent := by
  cases h with
  | produce hprocess hnew hclear hcommit htrie hthunk =>
    exact produce_consistent hs hprocess hnew hclear hcommit htrie hthunk
  | accept hvalidate hnew hclear htrie hfinal hthunk =>
    exact accept_consistent hs hvalidate hnew hclear htrie hfinal hthunk
  | rejectEarly hvalidate =>
    obtain ⟨hids, hm⟩ := MemoryDatabase.changes_keeps hvalidate hs.ids
    exact ⟨hids, hm hs.mirrors, hs.disk, hs.thunks⟩
  | rejectClearing hvalidate hnew hclear hdestroy =>
    exact rejectClearing_consistent hs hvalidate hnew hclear hdestroy
  | rejectHash hvalidate hnew hclear htrie hdestroy =>
    exact rejectHash_consistent hs hvalidate hnew hclear htrie hdestroy
  | persist h => exact persist_consistent hs h
  | rewind h => exact rewind_consistent hs hsafe h

theorem run_consistent (hs : s.Consistent) (h : Run UndoesNoChange s s') : s'.Consistent := by
  induction h with
  | refl => exact hs
  | step _ hsafe hstep ih => exact step_consistent ih hsafe hstep

/-! ### The ids, in every run -/

/-- The ids of a store, whatever values the trie has. -/
structure Identified (s : AccountStore) : Prop where
  ids : s.db.UniqueIds
  keys : s.db.MirrorsExcept fun _ => True
  disk : ∀ id c, s.accountLmdb.find? id = some c → IsCommitment id c
  thunks : ∀ thunk ∈ s.persistenceThunks, ∀ kv ∈ thunk.kvs, IsCommitment kv.1 kv.2

theorem Consistent.identified (hs : s.Consistent) : s.Identified :=
  ⟨hs.ids, hs.mirrors.mono fun _ => False.elim, hs.disk, hs.thunks⟩

theorem Identified.addPersistenceThunk {n : UInt64} {log : ModificationTrie} (hs : s.Identified)
    {db : MemoryDatabase} (hdb : db.UniqueIds ∧ db.MirrorsExcept fun _ => True)
    (h : AccountStore.addPersistenceThunk { s with db := db } n log = .ok s') : s'.Identified := by
  obtain ⟨thunk, rfl, hthunk, -⟩ := addPersistenceThunk_spec h hdb.1
  refine ⟨hdb.1, hdb.2, hs.disk, fun t ht => ?_⟩
  rcases List.mem_append.mp ht with ht | ht
  · exact hs.thunks t ht
  · cases List.mem_singleton.mp ht
    exact hthunk

theorem Identified.commitNewAccounts (hs : s.Identified) {db₁ db₂ db₃ : MemoryDatabase} {n : UInt64}
    (hprocess : s.db.Changes db₁) (hnew : db₁.commitNewAccounts n = .ok db₂)
    (hclear : db₂.Changes db₃) : db₃.UniqueIds ∧ db₃.MirrorsExcept fun _ => True := by
  obtain ⟨hids₁, hm₁⟩ := MemoryDatabase.changes_keeps hprocess hs.ids
  obtain ⟨hids₂, hm₂⟩ := MemoryDatabase.commitNewAccounts_keeps hnew hids₁ (hm₁ hs.keys)
  obtain ⟨hids₃, hm₃⟩ := MemoryDatabase.changes_keeps hclear hids₂
  exact ⟨hids₃, hm₃ hm₂⟩

theorem Identified.rewind (hs : s.Identified) {n : UInt64}
    (h : s.clearPersistenceThunksAndReload n = .ok s') : s'.Identified := by
  unfold clearPersistenceThunksAndReload at h
  split at h
  · cases h
  split at h
  · cases h
  obtain ⟨db, hfold, h⟩ := bind_eq_ok.mp h
  cases h
  have hdb := foldlM_invariant (P := fun d => d.UniqueIds ∧ d.MirrorsExcept fun _ => True)
    (fun d kv d' _ hd hstep => ?_) (MemoryDatabase.rollbackNewAccounts_keeps hs.ids hs.keys n) hfold
  · exact ⟨hdb.1, hdb.2, hs.disk, fun thunk ht => absurd ht List.not_mem_nil⟩
  unfold reloadAccount at hstep
  split at hstep
  · cases hstep
    exact hd
  rename_i c hc
  split at hstep
  · cases hstep
  rename_i idx hidx
  obtain ⟨u, hu, hstep⟩ := bind_eq_ok.mp hstep
  cases hstep
  obtain ⟨v, hv, hcommit⟩ := hs.disk kv.1 c hc
  obtain ⟨u', hu', howner, -⟩ := UserAccount.ofCommitment_of_produceCommitment hcommit
  cases hu.symm.trans hu'
  have hkeeps : ∀ w, d.database[idx]? = some w → u.owner = w.owner := fun w hw =>
    (howner.trans hv).trans (hd.1.owner_eq hidx hw).symm
  exact ⟨hd.1.modifyAccount hkeeps, hd.2.modifyExempt fun w hw => ⟨hkeeps w hw, trivial⟩⟩

theorem step_identified {a : Action} (hs : s.Identified) (h : Step s a s') : s'.Identified := by
  cases h with
  | produce hprocess hnew hclear hcommit htrie hthunk =>
    obtain ⟨hids₃, hm₃⟩ := hs.commitNewAccounts hprocess hnew hclear
    obtain ⟨hids₄, hm₄⟩ := MemoryDatabase.commitValues_keeps hcommit hids₃ hm₃ fun _ _ => trivial
    exact hs.addPersistenceThunk
      (MemoryDatabase.modifyCommitments_keeps htrie hids₄ hm₄ fun _ _ => trivial) hthunk
  | accept hvalidate hnew hclear htrie hfinal hthunk =>
    obtain ⟨db, hdb, h⟩ := bind_eq_ok.mp hnew
    cases h
    obtain ⟨hids₂, hm₂⟩ := hs.commitNewAccounts hvalidate hdb hclear
    obtain ⟨db₃, hmodify, h⟩ := bind_eq_ok.mp htrie
    cases h
    obtain ⟨hids₃, hm₃⟩ :=
      MemoryDatabase.modifyCommitments_keeps hmodify hids₂ hm₂ fun _ _ => trivial
    unfold DatabaseAutoRollback.finalizeCommit at hfinal
    split at hfinal
    · cases hfinal
    obtain ⟨db₄, hcommit, h⟩ := bind_eq_ok.mp hfinal
    cases h
    exact hs.addPersistenceThunk
      (MemoryDatabase.commitValues_keeps hcommit hids₃ hm₃ fun _ _ => trivial) hthunk
  | rejectEarly hvalidate =>
    obtain ⟨hids, hm⟩ := MemoryDatabase.changes_keeps hvalidate hs.ids
    exact ⟨hids, hm hs.keys, hs.disk, hs.thunks⟩
  | rejectClearing hvalidate hnew hclear hdestroy =>
    obtain ⟨db, hdb, h⟩ := bind_eq_ok.mp hnew
    cases h
    obtain ⟨hids₂, hm₂⟩ := hs.commitNewAccounts hvalidate hdb hclear
    cases hdestroy
    obtain ⟨hids₃, hm₃⟩ := MemoryDatabase.rollbackNewAccounts_keeps hids₂ hm₂ _
    obtain ⟨hids₄, hm₄⟩ := MemoryDatabase.rollbackValues_keeps hids₃ hm₃
    exact ⟨hids₄, hm₄, hs.disk, hs.thunks⟩
  | rejectHash hvalidate hnew hclear htrie hdestroy =>
    obtain ⟨db, hdb, h⟩ := bind_eq_ok.mp hnew
    cases h
    obtain ⟨hids₂, hm₂⟩ := hs.commitNewAccounts hvalidate hdb hclear
    obtain ⟨db₃, hmodify, h⟩ := bind_eq_ok.mp htrie
    cases h
    obtain ⟨hids₃, hm₃⟩ :=
      MemoryDatabase.modifyCommitments_keeps hmodify hids₂ hm₂ fun _ _ => trivial
    obtain ⟨hids₄, hm₄⟩ := MemoryDatabase.rollbackNewAccounts_keeps hids₃ hm₃ _
    obtain ⟨hids₅, hm₅⟩ := MemoryDatabase.rollbackValues_keeps hids₄ hm₄
    obtain ⟨hids₆, hm₆⟩ :=
      MemoryDatabase.modifyCommitments_keeps hdestroy hids₅ hm₅ fun _ _ => trivial
    exact ⟨hids₆, hm₆, hs.disk, hs.thunks⟩
  | persist h =>
    obtain ⟨s₁, hpersist, h⟩ := bind_eq_ok.mp h
    cases h
    obtain ⟨hdisk, hthunks, hdb⟩ := persistThunks_disk hpersist hs.disk fun thunk ht =>
      hs.thunks thunk (List.mem_filter.mp ht).1
    rw [clearCreationThunks, hdb]
    refine ⟨⟨hs.ids.nodup, hs.ids.lookup, hs.ids.created_nodup, hs.ids.created_reserved,
      hs.ids.reserved_new⟩, ⟨hs.keys.keys, hs.keys.values⟩, hdisk, fun thunk ht => ?_⟩
    rw [hthunks] at ht
    exact hs.thunks thunk (List.mem_filter.mp ht).1
  | rewind h => exact hs.rewind h

theorem run_identified {P : AccountStore → Action → Prop} (hs : s.Identified) (h : Run P s s') :
    s'.Identified := by
  induction h with
  | refl => exact hs
  | step _ _ hstep ih => exact step_identified ih hstep

/-! ### From genesis -/

theorem genesisAccount_owner (numAssets : Nat) (defaultAmount : Int64)
    (account : AccountID × PublicKey) :
    (MemoryDatabase.genesisAccount numAssets defaultAmount account).owner = account.1 := by
  unfold MemoryDatabase.genesisAccount
  induction numAssets with
  | zero => rfl
  | succ n ih =>
    rw [List.range_succ, List.foldl_append, List.foldl_cons, List.foldl_nil]
    exact (UserAccount.keeps_transferAvailable _ _ _).1.trans ih

theorem commitNewAccount_uncommitted {db db' : MemoryDatabase} {u : UserAccount}
    (h : db.commitNewAccount u = .ok db') :
    db'.uncommittedDb = db.uncommittedDb ∧ db'.reservedAccountIds = db.reservedAccountIds := by
  obtain ⟨c, -, h⟩ := bind_eq_ok.mp h
  cases h
  exact ⟨rfl, rfl⟩

theorem genesis_consistent {numAssets : Nat} {defaultAmount : Int64}
    {accounts : List (AccountID × PublicKey)} (hnodup : (accounts.map Prod.fst).Nodup)
    (h : genesis numAssets defaultAmount accounts = .ok s) : s.Consistent := by
  obtain ⟨db, hdb, h⟩ := bind_eq_ok.mp h
  obtain ⟨kvs, hkvs, hpersist⟩ := bind_eq_ok.mp h
  have hempty : MemoryDatabase.empty.IndexedExcept fun _ => False := by
    refine ⟨List.nodup_nil, fun id idx => ?_, fun id => ?_, fun u hu => ?_⟩
    · simp [MemoryDatabase.empty, MemoryDatabase.lookupUser, MemoryDatabase.owners]
    · simp [MemoryDatabase.empty, SortedMap.contains, MemoryDatabase.owners]
    · exact absurd hu List.not_mem_nil
  have hindexed := MemoryDatabase.commitNewAccount_indexed_all hdb hempty
    (by simpa [Function.comp_def, genesisAccount_owner] using hnodup)
    fun u _ => by simp [MemoryDatabase.empty, MemoryDatabase.owners]
  obtain ⟨hcreated, hreserved⟩ := foldlM_invariant
    (P := fun d : MemoryDatabase => d.uncommittedDb = [] ∧ d.reservedAccountIds = ∅)
    (fun d u d' _ hd hstep => by
      obtain ⟨h₁, h₂⟩ := commitNewAccount_uncommitted hstep
      exact ⟨h₁.trans hd.1, h₂.trans hd.2⟩) ⟨rfl, rfl⟩ hdb
  have hinit : Consistent ⟨db, [], ∅, 0⟩ :=
    ⟨hindexed.uniqueIds hcreated hreserved, hindexed.mirrors,
      fun id c hfind => by simp at hfind, fun thunk ht => absurd ht List.not_mem_nil⟩
  obtain ⟨hdisk, hthunks, hdb'⟩ := persistThunks_disk hpersist hinit.disk fun thunk ht kv hkv => by
    cases List.mem_singleton.mp ht
    obtain ⟨u, -, hu⟩ := mem_of_mapM hkvs hkv
    obtain ⟨c, hc, hu⟩ := bind_eq_ok.mp hu
    cases hu
    exact ⟨u, rfl, hc⟩
  have hsub : ∀ thunk ∈ s.persistenceThunks, thunk ∈ ([] : List DBPersistenceThunk) :=
    fun thunk ht => by rwa [hthunks] at ht
  have hs := hinit.withRounds hdisk hsub db.accountCreationThunks s.db.minPersistedRoundNumber
    s.maxPersistedRoundNumber
  rw [show s = ⟨s.db, s.persistenceThunks, s.accountLmdb, s.maxPersistedRoundNumber⟩ from rfl, hdb']
  exact hs

/-- At every block boundary of a run in which no rewind undoes a change to an account on disk, the
trie maps exactly the ids of the accounts, each to its account's commitment. -/
theorem mirrors_of_run (numAssets : Nat) (defaultAmount : Int64)
    (accounts : List (AccountID × PublicKey)) (hnodup : (accounts.map Prod.fst).Nodup)
    (s₀ s : AccountStore) (hgenesis : genesis numAssets defaultAmount accounts = .ok s₀)
    (hrun : Run UndoesNoChange s₀ s) : s.db.Mirrors :=
  (run_consistent (genesis_consistent hnodup hgenesis) hrun).mirrors

/-- The log of a block in which account 7 pays 3 units. -/
def paymentLog : ModificationTrie := (∅ : ModificationTrie).insert 7 default

/-- Genesis with one account, a block in which it pays, and a rewind to block `n`: the states
before and after the rewind. -/
def rewoundTo (n : UInt64) : Result (AccountStore × AccountStore) := do
  let s₀ ← genesis 1 10 [(7, 0)]
  let db₂ ← (s₀.db.escrow 0 0 3).commitNewAccounts 1
  let db₃ ← db₂.commitValues paymentLog
  let db₄ ← db₃.setTrieCommitmentToUserAccountCommits paymentLog
  let s₁ ← addPersistenceThunk { s₀ with db := db₄ } 1 paymentLog
  let s₂ ← s₁.commitPersistenceThunks n
  let s₃ ← s₂.clearPersistenceThunksAndReload n
  return (s₂, s₃)

theorem rewoundTo_spec {n : UInt64} {r : AccountStore × AccountStore} (h : rewoundTo n = .ok r) :
    ∃ s₀ s₁, genesis 1 10 [(7, 0)] = .ok s₀ ∧ Step s₀ (.produce 1 paymentLog) s₁ ∧
      Step s₁ (.persist n) r.1 ∧ Step r.1 (.rewind n) r.2 := by
  obtain ⟨s₀, hgenesis, h⟩ := bind_eq_ok.mp h
  obtain ⟨db₂, hnew, h⟩ := bind_eq_ok.mp h
  obtain ⟨db₃, hcommit, h⟩ := bind_eq_ok.mp h
  obtain ⟨db₄, htrie, h⟩ := bind_eq_ok.mp h
  obtain ⟨s₁, hthunk, h⟩ := bind_eq_ok.mp h
  obtain ⟨s₂, hpersist, h⟩ := bind_eq_ok.mp h
  obtain ⟨s₃, hrewind, h⟩ := bind_eq_ok.mp h
  cases h
  have hprocess : s₀.db.Changes (s₀.db.escrow 0 0 3) :=
    .step (.escrow 0 0 3) trivial rfl (.refl _)
  exact ⟨s₀, s₁, hgenesis, .produce hprocess hnew (.refl _) hcommit htrie hthunk,
    .persist hpersist, .rewind hrewind⟩

/-- Block 1 is undone: account 7 has its 10 units back, but the trie still commits to 7. -/
theorem not_mirrors_rewoundTo_zero :
    ∃ s₀ s₁ s₂ s₃, genesis 1 10 [(7, 0)] = .ok s₀ ∧ Step s₀ (.produce 1 paymentLog) s₁ ∧
      Step s₁ (.persist 0) s₂ ∧ Step s₂ (.rewind 0) s₃ ∧
      s₃.db.database.map (fun u => u.ownedAssets.map RevertableAsset.available) = [[10]] ∧
      s₃.db.commitmentTrie.find? 7 = some ⟨7, [⟨0, 7⟩], 0, 0⟩ ∧ ¬ s₃.db.Mirrors := by
  obtain ⟨r, hr, hvalues⟩ := returns_iff.mp (show returns (rewoundTo 0) (fun r =>
    r.2.db.database = [⟨[⟨10, 10⟩], [], ⟨0, 0⟩, 7, 0⟩] ∧
      r.2.db.commitmentTrie.find? 7 = some ⟨7, [⟨0, 7⟩], 0, 0⟩) = true by decide +kernel)
  obtain ⟨hdb, hfind⟩ := of_decide_eq_true hvalues
  obtain ⟨s₀, s₁, hgenesis, hproduce, hpersist, hrewind⟩ := rewoundTo_spec hr
  refine ⟨s₀, s₁, r.1, r.2, hgenesis, hproduce, hpersist, hrewind, by rw [hdb]; rfl, hfind,
    fun hm => ?_⟩
  obtain ⟨c, hc, hfind'⟩ := hm.values ⟨[⟨10, 10⟩], [], ⟨0, 0⟩, 7, 0⟩
    (by rw [hdb]; exact List.mem_singleton_self _) id
  cases hfind.symm.trans hfind'
  exact absurd hc (by decide)

/-- The log of a block that creates account 9 and leaves account 7 as it is. -/
def creationLog : ModificationTrie := paymentLog.insert 9 default

/-- Account 9 is created in the current block. -/
def createNine (db : MemoryDatabase) : MemoryDatabase :=
  (db.reserveAccountCreation 9).2.commitAccountCreation (.new 9 0)

/-- Block 1, which is written to disk, then a block 2 that creates account 9, and a rewind to block
1: the states before and after the rewind. -/
def rewoundCreation : Result (AccountStore × AccountStore) := do
  let (_, s) ← rewoundTo 1
  let db₂ ← (createNine s.db).commitNewAccounts 2
  let db₃ ← db₂.commitValues creationLog
  let db₄ ← db₃.setTrieCommitmentToUserAccountCommits creationLog
  let s₁ ← addPersistenceThunk { s with db := db₄ } 2 creationLog
  let s₂ ← s₁.clearPersistenceThunksAndReload 1
  return (s₁, s₂)

/-- A rewind that undoes the creation of account 9, in a block whose log names account 7 too. -/
theorem mirrors_rewoundCreation :
    ∃ s₀ s₁ s, genesis 1 10 [(7, 0)] = .ok s₀ ∧ Run UndoesNoChange s₀ s₁ ∧ Step s₁ (.rewind 1) s ∧
      s₁.db.owners = [7, 9] ∧ s.db.owners = [7] ∧ s.db.commitmentTrie.find? 9 = none ∧
      s.db.commitmentTrie.find? 7 = some ⟨7, [⟨0, 7⟩], 0, 0⟩ ∧ s₁.db.Mirrors ∧ s.db.Mirrors := by
  obtain ⟨r, hr, hvalues⟩ := returns_iff.mp (show returns (rewoundTo 1) (fun r =>
    r.1.UndoesNoChange (.rewind 1) ∧
      (9 : AccountID) ∈ (r.2.db.reserveAccountCreation 9).2.reservedAccountIds ∧
      (9 : AccountID) ∉ (r.2.db.reserveAccountCreation 9).2.createdOwners) = true by decide +kernel)
  obtain ⟨⟨s₁, s⟩, hlast, hvalues'⟩ := returns_iff.mp (show returns rewoundCreation (fun r =>
    r.1.UndoesNoChange (.rewind 1) ∧ r.1.db.owners = [7, 9] ∧ r.2.db.owners = [7] ∧
      r.2.db.commitmentTrie.find? 9 = none ∧
      r.2.db.commitmentTrie.find? 7 = some ⟨7, [⟨0, 7⟩], 0, 0⟩) = true by decide +kernel)
  obtain ⟨hsafe, hallowed⟩ := of_decide_eq_true hvalues
  obtain ⟨hsafe', howners, hremains, hnine, hseven⟩ := of_decide_eq_true hvalues'
  -- block 1, its write to disk, and a rewind that undoes nothing
  obtain ⟨s₀, t₁, hgenesis, hproduce, hpersist, hrewind⟩ := rewoundTo_spec hr
  have hfirst : Run UndoesNoChange s₀ t₁ := .step (.refl _) (by trivial) hproduce
  have hwritten : Run UndoesNoChange s₀ r.1 := .step hfirst (by trivial) hpersist
  have hrewound : Run UndoesNoChange s₀ r.2 := .step hwritten hsafe hrewind
  -- block 2, and the rewind that undoes it
  obtain ⟨r', hr', hlast⟩ := bind_eq_ok.mp hlast
  cases hr.symm.trans hr'
  obtain ⟨db₂, hnew, hlast⟩ := bind_eq_ok.mp hlast
  obtain ⟨db₃, hcommit, hlast⟩ := bind_eq_ok.mp hlast
  obtain ⟨db₄, htrie, hlast⟩ := bind_eq_ok.mp hlast
  obtain ⟨s₁', hthunk, hlast⟩ := bind_eq_ok.mp hlast
  obtain ⟨s', hlastRewind, hlast⟩ := bind_eq_ok.mp hlast
  cases hlast
  have hprocess : r.2.db.Changes (createNine r.2.db) :=
    .step (.reserveAccountCreation 9) trivial rfl
      (.step (.commitAccountCreation (.new 9 0)) hallowed rfl (.refl _))
  have hrun : Run UndoesNoChange s₀ s₁ :=
    .step hrewound (by trivial) (.produce hprocess hnew (.refl _) hcommit htrie hthunk)
  have hundone : Run UndoesNoChange s₀ s := .step hrun hsafe' (.rewind hlastRewind)
  exact ⟨s₀, s₁, s, hgenesis, hrun, .rewind hlastRewind, howners, hremains, hnine, hseven,
    mirrors_of_run 1 10 [(7, 0)] (by decide) s₀ s₁ hgenesis hrun,
    mirrors_of_run 1 10 [(7, 0)] (by decide) s₀ s hgenesis hundone⟩

end AccountStore

end Speedex
