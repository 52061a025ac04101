import Speedex.Vm.SpeedexVm

/-! The map of block headers with its database on disk
(`header_hash/block_header_hash_map.cc`): inserts, writes to disk, rollbacks, and restarts that
load the map from disk. -/

namespace Speedex

open Lib

/-! ### Loops over block numbers -/

/-- The numbers from `first` to `last`. -/
def roundsUpTo (first last : UInt64) : List UInt64 :=
  (List.range' first.toNat (last.toNat + 1 - first.toNat)).map .ofNat

/-- `for (uint64_t i = first; i <= last; i++)`.  The condition holds of every counter if `last` is
the largest one: then only an exception ends the loop, in this pass or in the next, from 0. -/
def forRounds {σ : Type} (first last : UInt64) (body : σ → UInt64 → Result σ) (s : σ) : Result σ := do
  let s ← (roundsUpTo first last).foldlM body s
  if last.toNat = 2 ^ 64 - 1 then
    let _ ← (roundsUpTo 0 last).foldlM body s
    .error .nontermination
  else return s

section Loops

variable {σ : Type} {body : σ → UInt64 → Result σ} {s : σ}

theorem foldlM_range' {P : Nat → σ → Prop} (first count : Nat)
    (hstep : ∀ i s, first ≤ i → i < first + count → P i s →
      ∃ s', body s (.ofNat i) = .ok s' ∧ P (i + 1) s') (h : P first s) :
    ∃ s', ((List.range' first count).map UInt64.ofNat).foldlM body s = .ok s' ∧
      P (first + count) s' := by
  induction count generalizing first s with
  | zero => exact ⟨s, rfl, h⟩
  | succ count ih =>
    obtain ⟨s₁, hs₁, h₁⟩ := hstep first s le_rfl (by omega) h
    obtain ⟨s', hs', h'⟩ := @ih s₁ (first + 1) (fun i s hlow hhigh => hstep i s (by omega) (by omega)) h₁
    rw [List.range'_succ, List.map_cons]
    refine ⟨s', foldlM_cons.mpr ⟨s₁, hs₁, hs'⟩, ?_⟩
    rwa [show first + (count + 1) = first + 1 + count by omega]

/-- The rule for loops: `P i` holds before the round of `i`. -/
theorem forRounds_returns {P : Nat → σ → Prop} {first last : UInt64}
    (hlast : last.toNat < 2 ^ 64 - 1) (hle : first.toNat ≤ last.toNat + 1)
    (hstep : ∀ (i : UInt64) s, first ≤ i → i ≤ last → P i.toNat s →
      ∃ s', body s i = .ok s' ∧ P (i.toNat + 1) s') (h : P first.toNat s) :
    ∃ s', forRounds first last body s = .ok s' ∧ P (last.toNat + 1) s' := by
  have hround : ∀ i s, first.toNat ≤ i → i < first.toNat + (last.toNat + 1 - first.toNat) → P i s →
      ∃ s', body s (.ofNat i) = .ok s' ∧ P (i + 1) s' := by
    intro i s hlow hhigh hi
    have hnat : (UInt64.ofNat i).toNat = i := by
      rw [UInt64.toNat_ofNat']
      exact Nat.mod_eq_of_lt (by omega)
    have hround := hstep (.ofNat i) s (UInt64.le_iff_toNat_le.mpr (by omega))
      (UInt64.le_iff_toNat_le.mpr (by omega))
    rw [hnat] at hround
    exact hround hi
  obtain ⟨s', hs', h'⟩ := foldlM_range' first.toNat (last.toNat + 1 - first.toNat) hround h
  refine ⟨s', bind_eq_ok.mpr ⟨s', hs', if_neg (by omega)⟩, ?_⟩
  rwa [show first.toNat + (last.toNat + 1 - first.toNat) = last.toNat + 1 by omega] at h'

end Loops

/-! ### The map on disk -/

/-- The map and its LMDB instance, which is a map with the number of the last block that was
written. -/
structure HeaderHashStore where
  map : BlockHeaderHashMap
  lmdbOpen : Bool
  lmdb : SortedMap UInt64 BlockHeaderHashValue
  persistedRoundNumber : UInt64

namespace HeaderHashStore

/-- The constructor, `open_lmdb_env` and `create_lmdb`. -/
def created : HeaderHashStore := ⟨⟨∅, 0⟩, true, ∅, 0⟩

/-- `insert`. -/
def insert (hashes : VmHashes) (s : HeaderHashStore) (block : Block) (res : Bool) :
    Result HeaderHashStore := do
  let map ← s.map.insert hashes block res
  return { s with map }

/-- A round of the loop of `persist_lmdb`. -/
def writeRound (blockMap lmdb : SortedMap UInt64 BlockHeaderHashValue) (i : UInt64) :
    Result (SortedMap UInt64 BlockHeaderHashValue) :=
  if i = 0 then .ok lmdb
  else match blockMap.find? i with
    | none => .error (.runtimeError "did not find hash in hash_map!")
    | some value => .ok (lmdb.insert i value)

/-- `persist_lmdb`, in one transaction. -/
def persistLmdb (s : HeaderHashStore) (currentBlockNumber : UInt64) : Result HeaderHashStore :=
  if !s.lmdbOpen then .ok s
  else do
    let lmdb ← forRounds s.persistedRoundNumber currentBlockNumber (writeRound s.map.blockMap) s.lmdb
    return { s with lmdb, persistedRoundNumber := currentBlockNumber }

/-- A round of the loop of `rollback_to_committed_round`. -/
def deleteRound (blockMap : SortedMap UInt64 BlockHeaderHashValue) (i : UInt64) :
    Result (SortedMap UInt64 BlockHeaderHashValue) :=
  if i = 0 then .ok blockMap
  else if blockMap.contains i then .ok (blockMap.erase i)
  else .error (.runtimeError "error when deleting from header hash map")

/-- `rollback_to_committed_round`. -/
def rollbackToCommittedRound (s : HeaderHashStore) (committedBlockNumber : UInt64) :
    Result HeaderHashStore :=
  if committedBlockNumber < s.persistedRoundNumber then
    .error (.runtimeError "can't rollback beyond lmdb persist")
  else do
    let blockMap ← forRounds (committedBlockNumber + 1) s.map.lastCommittedBlockNumber deleteRound
      s.map.blockMap
    return { s with map := ⟨blockMap, committedBlockNumber⟩ }

/-- `load_lmdb_contents_to_memory`. -/
def loadLmdbContentsToMemory (s : HeaderHashStore) : Result HeaderHashStore := do
  let blockMap ← s.lmdb.entries.foldlM (fun blockMap kv =>
    (if kv.1 > s.persistedRoundNumber then
      .error (.runtimeError "lmdb contains round idx beyond committed max")
    else .ok (blockMap.insert kv.1 kv.2) : Result (SortedMap UInt64 BlockHeaderHashValue)))
    s.map.blockMap
  return { s with map := ⟨blockMap, s.persistedRoundNumber⟩ }

/-- A new process: the constructor, `open_lmdb_env`, `open_lmdb`, and the load. -/
def restart (s : HeaderHashStore) : Result HeaderHashStore :=
  loadLmdbContentsToMemory { s with map := ⟨∅, 0⟩, lmdbOpen := true }

/-- The calls of a run. -/
inductive Call where
  | insert (block : Block) (res : Bool)
  | persistLmdb (currentBlockNumber : UInt64)
  | rollbackToCommittedRound (committedBlockNumber : UInt64)
  | restart

def exec (hashes : VmHashes) (s : HeaderHashStore) : Call → Result HeaderHashStore
  | .insert block res => s.insert hashes block res
  | .persistLmdb currentBlockNumber => s.persistLmdb currentBlockNumber
  | .rollbackToCommittedRound committedBlockNumber => s.rollbackToCommittedRound committedBlockNumber
  | .restart => s.restart

/-- Inserts in sequence, writes and rollbacks between the last block on disk and the last block.
The largest number, at which the counters of the loops wrap, is not reached. -/
def Sequenced (s : HeaderHashStore) : Call → Prop
  | .insert block _ => block.blockNumber.toNat = s.map.lastCommittedBlockNumber.toNat + 1 ∧
    block.blockNumber.toNat < 2 ^ 64 - 1
  | .persistLmdb n | .rollbackToCommittedRound n =>
    s.persistedRoundNumber ≤ n ∧ n ≤ s.map.lastCommittedBlockNumber
  | .restart => True

/-- What was inserted last under a number, in the calls of a run, the latest first. -/
def lastInserted (hashes : VmHashes) (n : UInt64) : List Call → Option BlockHeaderHashValue
  | [] => none
  | .insert block res :: calls =>
    if block.blockNumber = n then some ⟨hashes.header block, res⟩ else lastInserted hashes n calls
  | .persistLmdb _ :: calls | .rollbackToCommittedRound _ :: calls | .restart :: calls =>
    lastInserted hashes n calls

/-- The state that a run of calls in sequence reaches, with the calls, the latest first. -/
inductive Run (hashes : VmHashes) : List Call → HeaderHashStore → Prop where
  | created : Run hashes [] created
  | call {calls : List Call} {s s' : HeaderHashStore} (call : Call) (hrun : Run hashes calls s)
    (hcall : s.Sequenced call) (h : s.exec hashes call = .ok s') : Run hashes (call :: calls) s'

/-- The map has the blocks up to the last one, and the disk those up to the last one written, both
with the values that were last inserted. -/
structure GapFree (hashes : VmHashes) (calls : List Call) (s : HeaderHashStore) : Prop where
  lmdbOpen : s.lmdbOpen = true
  bounded : s.map.lastCommittedBlockNumber.toNat < 2 ^ 64 - 1
  persisted : s.persistedRoundNumber ≤ s.map.lastCommittedBlockNumber
  inserted : ∀ n, 0 < n → n ≤ s.map.lastCommittedBlockNumber → (lastInserted hashes n calls).isSome
  memory : ∀ n, s.map.blockMap.find? n =
    if 0 < n ∧ n ≤ s.map.lastCommittedBlockNumber then lastInserted hashes n calls else none
  disk : ∀ n, s.lmdb.find? n =
    if 0 < n ∧ n ≤ s.persistedRoundNumber then lastInserted hashes n calls else none

section Steps

variable {hashes : VmHashes} {calls : List Call} {s : HeaderHashStore}

theorem GapFree.insert (hs : s.GapFree hashes calls) {block : Block} {res : Bool}
    (hcall : s.Sequenced (.insert block res)) :
    ∃ s', s.insert hashes block res = .ok s' ∧ s'.GapFree hashes (.insert block res :: calls) := by
  obtain ⟨hnext, hbound⟩ := hcall
  have hzero : block.blockNumber ≠ 0 := by
    intro h0
    rw [h0] at hnext
    exact absurd hnext (by simp)
  have hnumber : block.blockNumber = s.map.lastCommittedBlockNumber + 1 := by
    rw [← UInt64.toNat_inj, UInt64.toNat_add, hnext]
    exact (Nat.mod_eq_of_lt (by simpa [← hnext] using block.blockNumber.toNat_lt)).symm
  refine ⟨{ s with map := ⟨s.map.blockMap.insert block.blockNumber ⟨hashes.header block, res⟩,
    block.blockNumber⟩ }, ?_, ?_⟩
  · refine bind_eq_ok.mpr ⟨_, ?_, rfl⟩
    rw [BlockHeaderHashMap.insert, if_neg hzero, if_neg (not_not_intro hnumber)]
  · have hle : ∀ n, n ≠ block.blockNumber →
        (n ≤ block.blockNumber ↔ n ≤ s.map.lastCommittedBlockNumber) := by
      intro n hn
      rw [ne_eq, ← UInt64.toNat_inj] at hn
      simp only [UInt64.le_iff_toNat_le]
      omega
    have hold : ∀ n, n ≠ block.blockNumber →
        lastInserted hashes n (.insert block res :: calls) = lastInserted hashes n calls :=
      fun n hn => if_neg (Ne.symm hn)
    constructor
    · exact hs.lmdbOpen
    · exact hbound
    · have hpersisted := hs.persisted
      simp only [UInt64.le_iff_toNat_le] at hpersisted ⊢
      omega
    · intro n hpos hn
      by_cases heq : n = block.blockNumber
      · simp [lastInserted, heq]
      · rw [hold n heq]
        exact hs.inserted n hpos ((hle n heq).mp hn)
    · intro n
      by_cases heq : n = block.blockNumber
      · subst heq
        have hpos : 0 < block.blockNumber := UInt64.pos_iff_ne_zero.mpr hzero
        simp [lastInserted, hpos]
      · rw [SortedMap.find?_insert_ne (Ne.symm heq), hs.memory, hold n heq]
        simp only [hle n heq]
    · intro n
      by_cases heq : n = block.blockNumber
      · have hpersisted := hs.persisted
        rw [hs.disk, if_neg, if_neg] <;>
        · rw [heq]
          simp only [UInt64.le_iff_toNat_le] at hpersisted ⊢
          omega
      · rw [hs.disk, hold n heq]

/-- Before the round of `i` the blocks below `i` are on disk, and those that were. -/
theorem GapFree.writeRounds (hs : s.GapFree hashes calls) {n : UInt64}
    (hlow : s.persistedRoundNumber ≤ n) (hhigh : n ≤ s.map.lastCommittedBlockNumber) :
    ∃ lmdb, forRounds s.persistedRoundNumber n (writeRound s.map.blockMap) s.lmdb = .ok lmdb ∧
      ∀ k, lmdb.find? k = if 0 < k ∧ (k.toNat < n.toNat + 1 ∨ k ≤ s.persistedRoundNumber) then
        lastInserted hashes k calls else none := by
  have hbound := hs.bounded
  rw [UInt64.le_iff_toNat_le] at hlow hhigh
  refine forRounds_returns (P := fun i (lmdb : SortedMap UInt64 BlockHeaderHashValue) => ∀ k,
    lmdb.find? k = if 0 < k ∧ (k.toNat < i ∨ k ≤ s.persistedRoundNumber) then lastInserted hashes k calls else none)
    (by omega) (by omega) (fun i lmdb hfirst hlast hlmdb => ?_) fun k => ?_
  · unfold writeRound
    by_cases hzero : i = 0
    · rw [if_pos hzero]
      refine ⟨lmdb, rfl, fun k => ?_⟩
      rw [hlmdb k]
      have hskip : 0 < k → (k.toNat < i.toNat ↔ k.toNat < i.toNat + 1) := by
        intro hk
        rw [UInt64.lt_iff_toNat_lt] at hk
        simp only [hzero, UInt64.toNat_zero] at hk ⊢
        omega
      by_cases hk : 0 < k
      · simp only [hskip hk]
      · rw [if_neg fun h => hk h.1, if_neg fun h => hk h.1]
    · have hpos := UInt64.pos_iff_ne_zero.mpr hzero
      have hmem : i ≤ s.map.lastCommittedBlockNumber :=
        hlast.trans (UInt64.le_iff_toNat_le.mpr hhigh)
      obtain ⟨v, hv⟩ := Option.isSome_iff_exists.mp (hs.inserted i hpos hmem)
      have hfind : s.map.blockMap.find? i = some v := by
        rw [hs.memory i, if_pos ⟨hpos, hmem⟩, hv]
      rw [if_neg hzero, hfind]
      refine ⟨lmdb.insert i v, rfl, fun k => ?_⟩
      by_cases heq : i = k
      · subst heq
        rw [SortedMap.find?_insert_self, if_pos ⟨hpos, .inl (Nat.lt_succ_self _)⟩, hv]
      · have hne : k.toNat ≠ i.toNat := fun h => heq (UInt64.toNat_inj.mp h).symm
        have hlt : k.toNat < i.toNat + 1 ↔ k.toNat < i.toNat := by omega
        rw [SortedMap.find?_insert_ne heq, hlmdb k]
        simp only [hlt]
  · rw [hs.disk k]
    have hbelow : k ≤ s.persistedRoundNumber ↔
        k.toNat < s.persistedRoundNumber.toNat ∨ k ≤ s.persistedRoundNumber := by
      rw [UInt64.le_iff_toNat_le]
      omega
    simp only [← hbelow]

theorem GapFree.persistLmdb (hs : s.GapFree hashes calls) {n : UInt64}
    (hcall : s.Sequenced (.persistLmdb n)) :
    ∃ s', s.persistLmdb n = .ok s' ∧ s'.GapFree hashes (.persistLmdb n :: calls) := by
  obtain ⟨lmdb, hlmdb, hdisk⟩ := hs.writeRounds hcall.1 hcall.2
  refine ⟨{ s with lmdb, persistedRoundNumber := n }, ?_, hs.lmdbOpen, hs.bounded, hcall.2,
    hs.inserted, hs.memory, fun k => ?_⟩
  · rw [HeaderHashStore.persistLmdb, if_neg (by simp [hs.lmdbOpen])]
    exact bind_eq_ok.mpr ⟨lmdb, hlmdb, rfl⟩
  · have hlow := hcall.1
    rw [UInt64.le_iff_toNat_le] at hlow
    have hwritten : k.toNat < n.toNat + 1 ∨ k ≤ s.persistedRoundNumber ↔ k ≤ n := by
      simp only [UInt64.le_iff_toNat_le]
      omega
    have hk := hdisk k
    simp only [hwritten] at hk
    exact hk

/-- Before the round of `i` the blocks from `n + 1` up to `i` are deleted. -/
theorem GapFree.deleteRounds (hs : s.GapFree hashes calls) {n : UInt64}
    (hhigh : n ≤ s.map.lastCommittedBlockNumber) :
    ∃ blockMap, forRounds (n + 1) s.map.lastCommittedBlockNumber deleteRound s.map.blockMap =
        .ok blockMap ∧
      ∀ k, blockMap.find? k = if 0 < k ∧ k ≤ s.map.lastCommittedBlockNumber ∧
        (k ≤ n ∨ s.map.lastCommittedBlockNumber.toNat + 1 ≤ k.toNat) then
        lastInserted hashes k calls else none := by
  have hbound := hs.bounded
  rw [UInt64.le_iff_toNat_le] at hhigh
  have hnext : (n + 1).toNat = n.toNat + 1 := by
    rw [UInt64.toNat_add]
    exact Nat.mod_eq_of_lt (by simp; omega)
  refine forRounds_returns (P := fun i (blockMap : SortedMap UInt64 BlockHeaderHashValue) => ∀ k,
    blockMap.find? k = if 0 < k ∧ k ≤ s.map.lastCommittedBlockNumber ∧ (k ≤ n ∨ i ≤ k.toNat) then
      lastInserted hashes k calls else none)
    (by omega) (by omega) (fun i blockMap hfirst hlast hblocks => ?_) fun k => ?_
  · rw [UInt64.le_iff_toNat_le, hnext] at hfirst
    have hzero : i ≠ 0 := by
      rintro rfl
      simp at hfirst
    have hpos := UInt64.pos_iff_ne_zero.mpr hzero
    have hfind := hblocks i
    rw [if_pos ⟨hpos, hlast, .inr le_rfl⟩] at hfind
    have hcontains : blockMap.contains i = true := by
      rw [SortedMap.contains, hfind]
      exact hs.inserted i hpos hlast
    refine ⟨blockMap.erase i, ?_, fun k => ?_⟩
    · rw [deleteRound, if_neg hzero, if_pos hcontains]
    · by_cases heq : i = k
      · subst heq
        rw [SortedMap.find?_erase_self, if_neg]
        simp only [UInt64.le_iff_toNat_le]
        omega
      · have hne : k.toNat ≠ i.toNat := fun h => heq (UInt64.toNat_inj.mp h).symm
        have hge : i.toNat + 1 ≤ k.toNat ↔ i.toNat ≤ k.toNat := by omega
        rw [SortedMap.find?_erase_ne heq, hblocks k]
        simp only [hge]
  · rw [hs.memory k, hnext]
    have hall : k ≤ n ∨ n.toNat + 1 ≤ k.toNat := by
      rw [UInt64.le_iff_toNat_le]
      omega
    simp only [hall, and_true]

theorem GapFree.rollbackToCommittedRound (hs : s.GapFree hashes calls) {n : UInt64}
    (hcall : s.Sequenced (.rollbackToCommittedRound n)) :
    ∃ s', s.rollbackToCommittedRound n = .ok s' ∧
      s'.GapFree hashes (.rollbackToCommittedRound n :: calls) ∧
      s'.map.lastCommittedBlockNumber = n ∧ s'.persistedRoundNumber = s.persistedRoundNumber := by
  obtain ⟨blockMap, hblocks, hmemory⟩ := hs.deleteRounds hcall.2
  have hhigh := hcall.2
  refine ⟨{ s with map := ⟨blockMap, n⟩ }, ?_, ⟨hs.lmdbOpen, ?_, hcall.1, fun k hpos hk => ?_,
    fun k => ?_, hs.disk⟩, rfl, rfl⟩
  · rw [HeaderHashStore.rollbackToCommittedRound, if_neg (not_lt.mpr hcall.1)]
    exact bind_eq_ok.mpr ⟨blockMap, hblocks, rfl⟩
  · have hbound := hs.bounded
    rw [UInt64.le_iff_toNat_le] at hhigh
    exact lt_of_le_of_lt hhigh hbound
  · exact hs.inserted k hpos (le_trans hk hhigh)
  · have hkept : k ≤ s.map.lastCommittedBlockNumber ∧
        (k ≤ n ∨ s.map.lastCommittedBlockNumber.toNat + 1 ≤ k.toNat) ↔ k ≤ n := by
      simp only [UInt64.le_iff_toNat_le] at hhigh ⊢
      omega
    have hk := hmemory k
    simp only [hkept] at hk
    exact hk

/-- A restart keeps the blocks on disk. -/
theorem GapFree.restart (hs : s.GapFree hashes calls) :
    ∃ s', s.restart = .ok s' ∧ s'.GapFree hashes (.restart :: calls) ∧
      s'.persistedRoundNumber = s.persistedRoundNumber ∧
      s'.map.lastCommittedBlockNumber = s.persistedRoundNumber ∧
      ∀ n, s'.map.blockMap.find? n =
        if n ≤ s.persistedRoundNumber then s.map.blockMap.find? n else none := by
  have hkeys : ∀ kv ∈ s.lmdb.entries, kv.1 ≤ s.persistedRoundNumber := by
    intro kv hkv
    have hfind := hs.disk kv.1
    rw [SortedMap.mem_entries.mp hkv] at hfind
    by_contra hbeyond
    rw [if_neg fun h => hbeyond h.2] at hfind
    cases hfind
  have hload : ∀ (l : List (UInt64 × BlockHeaderHashValue))
      (m : SortedMap UInt64 BlockHeaderHashValue), (∀ kv ∈ l, kv.1 ≤ s.persistedRoundNumber) →
      l.foldlM (fun blockMap kv =>
        (if kv.1 > s.persistedRoundNumber then
          .error (.runtimeError "lmdb contains round idx beyond committed max")
        else .ok (blockMap.insert kv.1 kv.2) : Result (SortedMap UInt64 BlockHeaderHashValue))) m =
        .ok (m.insertAll l) := by
    intro l
    induction l with
    | nil => exact fun m _ => rfl
    | cons kv l ih =>
      intro m hl
      refine foldlM_cons.mpr ⟨m.insert kv.1 kv.2, if_neg (not_lt.mpr (hl kv List.mem_cons_self)), ?_⟩
      exact ih _ fun kv hkv => hl kv (List.mem_cons_of_mem _ hkv)
  have hmap : ∀ n, ((∅ : SortedMap UInt64 BlockHeaderHashValue).union s.lmdb).find? n =
      s.lmdb.find? n := by
    intro n
    rw [SortedMap.find?_union, SortedMap.find?_empty, Option.or_none]
  refine ⟨{ s with map := ⟨(∅ : SortedMap UInt64 BlockHeaderHashValue).union s.lmdb,
    s.persistedRoundNumber⟩, lmdbOpen := true }, ?_, ⟨rfl, ?_, le_rfl, ?_, ?_, hs.disk⟩, rfl, rfl, ?_⟩
  · exact bind_eq_ok.mpr ⟨_, hload _ _ hkeys, rfl⟩
  · have hle := hs.persisted
    rw [UInt64.le_iff_toNat_le] at hle
    exact lt_of_le_of_lt hle hs.bounded
  · exact fun n hpos hn => hs.inserted n hpos (le_trans hn hs.persisted)
  · exact fun n => (hmap n).trans (hs.disk n)
  · intro n
    refine (hmap n).trans ?_
    rw [hs.disk n, hs.memory n]
    by_cases hn : n ≤ s.persistedRoundNumber
    · simp [hn, le_trans hn hs.persisted]
    · simp [hn]

/-- A call in sequence returns, and leaves the map without gaps. -/
theorem GapFree.exec (hs : s.GapFree hashes calls) {call : Call} (hcall : s.Sequenced call) :
    ∃ s', s.exec hashes call = .ok s' ∧ s'.GapFree hashes (call :: calls) := by
  cases call with
  | insert block res => exact hs.insert hcall
  | persistLmdb n => exact hs.persistLmdb hcall
  | rollbackToCommittedRound n =>
    obtain ⟨s', hs', hgap, -⟩ := hs.rollbackToCommittedRound hcall
    exact ⟨s', hs', hgap⟩
  | restart =>
    obtain ⟨s', hs', hgap, -⟩ := hs.restart
    exact ⟨s', hs', hgap⟩

theorem GapFree.of_run (h : Run hashes calls s) : s.GapFree hashes calls := by
  induction h with
  | created =>
    refine ⟨rfl, by decide, le_rfl, fun n hpos hn => ?_, fun n => ?_, fun n => ?_⟩
    · exact absurd (lt_of_lt_of_le hpos hn) (lt_irrefl _)
    · exact (ite_self none).symm
    · exact (ite_self none).symm
  | call call hrun hcall h ih =>
    obtain ⟨s', hs', hgap⟩ := ih.exec hcall
    cases hs'.symm.trans h
    exact hgap

end Steps

/-- In every state that a run of calls in sequence reaches: the map has exactly the blocks up to
the last one and the disk exactly those up to the last one written, with the values that were last
inserted for them; no call in sequence throws; a rollback to `n` makes `n` the last block; and a
restart loads the map up to the last block on disk, which is the last one then. -/
theorem header_map_of_run (hashes : VmHashes) (calls : List Call) (s : HeaderHashStore)
    (hrun : Run hashes calls s) :
    s.GapFree hashes calls ∧
    (∀ n, s.map.blockMap.contains n = true ↔ 0 < n ∧ n ≤ s.map.lastCommittedBlockNumber) ∧
    (∀ n, s.lmdb.contains n = true ↔ 0 < n ∧ n ≤ s.persistedRoundNumber) ∧
    (∀ call, s.Sequenced call → ∃ s', s.exec hashes call = .ok s') ∧
    (∀ n, s.Sequenced (.rollbackToCommittedRound n) → ∃ s', s.rollbackToCommittedRound n = .ok s' ∧
      s'.map.lastCommittedBlockNumber = n ∧ s'.persistedRoundNumber = s.persistedRoundNumber) ∧
    ∃ s', s.restart = .ok s' ∧ s'.map.lastCommittedBlockNumber = s.persistedRoundNumber ∧
      s'.persistedRoundNumber = s.persistedRoundNumber ∧
      ∀ n, s'.map.blockMap.find? n =
        if n ≤ s.persistedRoundNumber then s.map.blockMap.find? n else none := by
  have hs := GapFree.of_run hrun
  refine ⟨hs, fun n => ?_, fun n => ?_, fun call hcall => ?_, fun n hn => ?_, ?_⟩
  · rw [SortedMap.contains, hs.memory n]
    split
    · rename_i hn
      exact ⟨fun _ => hn, fun _ => hs.inserted n hn.1 hn.2⟩
    · rename_i hn
      exact ⟨fun h => absurd h (by simp), fun h => absurd h hn⟩
  · rw [SortedMap.contains, hs.disk n]
    split
    · rename_i hn
      exact ⟨fun _ => hn, fun _ => hs.inserted n hn.1 (le_trans hn.2 hs.persisted)⟩
    · rename_i hn
      exact ⟨fun h => absurd h (by simp), fun h => absurd h hn⟩
  · obtain ⟨s', hs', -⟩ := hs.exec hcall
    exact ⟨s', hs'⟩
  · obtain ⟨s', hs', -, hlast, hpersisted⟩ := hs.rollbackToCommittedRound hn
    exact ⟨s', hs', hlast, hpersisted⟩
  · obtain ⟨s', hs', -, hpersisted, hlast, hload⟩ := hs.restart
    exact ⟨s', hs', hlast, hpersisted, hload⟩

/-- Hashes that are the block numbers, and 0 elsewhere. -/
def numberHashes : VmHashes :=
  ⟨⟨fun _ => 0, fun _ => 0, fun _ => 0, fun block => .ofNat 256 block.blockNumber.toNat⟩, fun _ => 0⟩

def blockNumbered (n : UInt64) : Block := { genesisBlock.block with blockNumber := n }

/-- Two blocks, of which the first is written, a restart, and block 2 once more. -/
def rewritten : Result (List HeaderHashStore) := do
  let s₁ ← created.insert numberHashes (blockNumbered 1) true
  let s₂ ← s₁.insert numberHashes (blockNumbered 2) true
  let s₃ ← s₂.persistLmdb 1
  let s₄ ← s₃.restart
  let s₅ ← s₄.insert numberHashes (blockNumbered 2) false
  return [s₁, s₂, s₃, s₄, s₅]

theorem header_map_rewritten :
    ∃ s, s.map.blockMap.keys = [1, 2] ∧ s.lmdb.keys = [1] ∧
      Run numberHashes [.insert (blockNumbered 2) false, .restart, .persistLmdb 1,
        .insert (blockNumbered 2) true, .insert (blockNumbered 1) true] s ∧
      s.GapFree numberHashes [.insert (blockNumbered 2) false, .restart, .persistLmdb 1,
        .insert (blockNumbered 2) true, .insert (blockNumbered 1) true] := by
  obtain ⟨l, h, hvalues⟩ := returns_iff.mp (show returns rewritten (fun l =>
    l.map (fun s => (s.map.lastCommittedBlockNumber.toNat, s.persistedRoundNumber.toNat,
      s.map.blockMap.keys, s.lmdb.keys)) =
      [(1, 0, [1], []), (2, 0, [1, 2], []), (2, 1, [1, 2], [1]), (1, 1, [1], [1]),
        (2, 1, [1, 2], [1])]) = true by decide +kernel)
  obtain ⟨s₁, h₁, h⟩ := bind_eq_ok.mp h
  obtain ⟨s₂, h₂, h⟩ := bind_eq_ok.mp h
  obtain ⟨s₃, h₃, h⟩ := bind_eq_ok.mp h
  obtain ⟨s₄, h₄, h⟩ := bind_eq_ok.mp h
  obtain ⟨s₅, h₅, h⟩ := bind_eq_ok.mp h
  cases h
  simp only [List.map_cons, List.map_nil, decide_eq_true_eq, List.cons.injEq, Prod.mk.injEq] at hvalues
  obtain ⟨hv₁, hv₂, hv₃, hv₄, hv₅, -⟩ := hvalues
  have hr₁ : Run numberHashes _ s₁ := .call (.insert (blockNumbered 1) true) .created
    ⟨by decide, by decide⟩ h₁
  have hr₂ : Run numberHashes _ s₂ := .call (.insert (blockNumbered 2) true) hr₁
    ⟨by rw [hv₁.1]; rfl, by decide⟩ h₂
  have hr₃ : Run numberHashes _ s₃ := .call (.persistLmdb 1) hr₂
    ⟨UInt64.le_iff_toNat_le.mpr (by rw [hv₂.2.1]; decide),
      UInt64.le_iff_toNat_le.mpr (by rw [hv₂.1]; decide)⟩ h₃
  have hr₄ : Run numberHashes _ s₄ := .call .restart hr₃ trivial h₄
  have hr₅ : Run numberHashes _ s₅ := .call (.insert (blockNumbered 2) false) hr₄
    ⟨by rw [hv₄.1]; rfl, by decide⟩ h₅
  exact ⟨s₅, hv₅.2.2.1, hv₅.2.2.2, hr₅, (header_map_of_run numberHashes _ s₅ hr₅).1⟩

/-- A rollback to a number past the last block leaves a gap: block 2 can be neither inserted nor
written. -/
theorem header_map_gap :
    ∃ s₁ s₂, created.insert numberHashes (blockNumbered 1) true = .ok s₁ ∧
      s₁.persistedRoundNumber ≤ 5 ∧ s₁.rollbackToCommittedRound 5 = .ok s₂ ∧
      s₂.map.blockMap.keys = [1] ∧ s₂.map.lastCommittedBlockNumber = 5 ∧
      s₂.exec numberHashes (.insert (blockNumbered 2) true) =
        .error (.runtimeError "inserting wrong block number") ∧
      s₂.exec numberHashes (.persistLmdb 2) =
        .error (.runtimeError "did not find hash in hash_map!") := by
  refine ⟨_, _, rfl, by decide, rfl, by decide +kernel, rfl, rfl, rfl⟩

end HeaderHashStore

end Speedex
