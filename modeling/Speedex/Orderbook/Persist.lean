import Speedex.Orderbook.Rounds

/-! Writing thunks to disk (`orderbook/lmdb.cc`).  `write_thunks` does not replay the blocks: it
works on all thunks at once, in five phases, and each phase is described here key by key. -/

namespace Speedex

open Lib

namespace OrderbookLMDB

/-! ### The five phases -/

/-- What phase 1 computes: the offers on disk without the cancelled ones, the cancelled keys that
were not on disk, and the greatest `partial_exec_key`, if any thunk has one. -/
structure MaxKey where
  data : Book
  keysThatWillBeLaterDeleted : List OfferKey
  keyBuf : OfferKey
  keySet : Bool

/-- Delete one cancelled offer from disk. -/
def deleteKey (m : Book × List OfferKey) (kv : OfferKey × Offer) : Book × List OfferKey :=
  if m.1.contains kv.1 then (m.1.erase kv.1, m.2) else (m.1, kv.1 :: m.2)

/-- Phase 1 for one thunk. -/
def maxKeyStep (m : MaxKey) (thunk : OrderbookLMDBCommitmentThunk) : MaxKey :=
  let deleted := thunk.deletedKeys.foldl deleteKey (m.data, m.keysThatWillBeLaterDeleted)
  { data := deleted.1
    keysThatWillBeLaterDeleted := deleted.2
    keyBuf := if thunk.existsPartialExec then max m.keyBuf thunk.partialExecKey else m.keyBuf
    keySet := m.keySet || thunk.existsPartialExec }

/-- Phase 2: delete everything below the key, or everything if no key was set or none is as
large. -/
def deleteBelow (m : MaxKey) : Book :=
  if !m.keySet || !m.data.keys.any fun k => decide (m.keyBuf ≤ k) then ∅
  else m.data.filter fun k _ => decide (m.keyBuf ≤ k)

/-- The test of phase 3 on one offer. -/
def dbPut (keyBuf : OfferKey) (later : List OfferKey) (offer : Offer) : Bool :=
  let minExecPrice := readPriceBigEndian keyBuf
  decide (offer.minPrice.toNat ≥ minExecPrice) &&
    (decide (offer.minPrice.toNat > minExecPrice) || decide (offer.key ≥ keyBuf)) &&
    decide (offer.key ∉ later)

/-- The inner loop of phase 3, over one thunk's new offers from the last to the first: it stops at
the first that fails the test. -/
def insertNewOffers (keyBuf : OfferKey) (later : List OfferKey) : List Offer → Book → Result Book
  | [], data => .ok data
  | offer :: offers, data =>
    if offer.amount = 0 then .error (.runtimeError "tried to persist an amount 0 offer!")
    else if dbPut keyBuf later offer then
      insertNewOffers keyBuf later offers (data.insert offer.key offer)
    else .ok data

/-- Phase 3, from the last thunk to the first, with the running key. -/
def insertPhase (later : List OfferKey) : List OrderbookLMDBCommitmentThunk → Book →
    Result (Book × OfferKey)
  | [], data => .ok (data, .zero)
  | thunk :: thunks, data => do
    let (data, keyBuf) ← insertPhase later thunks data
    let keyBuf := max keyBuf thunk.partialExecKey
    let data ← insertNewOffers keyBuf later thunk.uncommittedOffersVec.reverse data
    return (data, keyBuf)

/-- Phase 4 for one thunk: take the partially executed amount from the offer on disk. -/
def partialExecStep (data : Book) (thunk : OrderbookLMDBCommitmentThunk) : Result Book :=
  if !thunk.existsPartialExec then .ok data
  else match data.find? thunk.partialExecKey with
    | none => .ok data
    | some offer =>
      if thunk.partialExecAmount < 0 then
        .error (.runtimeError "invalid thunks[i].partial_exec_amount")
      else if thunk.partialExecAmount.toUInt64 > offer.amount then
        .error (.runtimeError
          "can't have partial exec offer.amount < thunk[i].partial_exec_amount")
      else
        let offer := Orderbook.reduced offer thunk.partialExecAmount.toUInt64
        if offer.amount > 0 then .ok (data.insert thunk.partialExecKey offer)
        else .ok (data.erase thunk.partialExecKey)

/-- Phase 5: delete the partially executed offers that a later thunk clears. -/
def clearPartialExec : List OrderbookLMDBCommitmentThunk → Book → Book
  | [], data => data
  | thunk :: thunks, data =>
    clearPartialExec thunks (if thunk.existsPartialExec &&
      thunks.any fun future => decide (thunk.partialExecKey < future.partialExecKey)
    then data.erase thunk.partialExecKey else data)

/-- `write_thunks`: everything up to and including `current_block_number`.  The round number on
disk is written later, with the transaction. -/
def writeThunks (lmdb : OrderbookLMDB) (currentBlockNumber : UInt64) : Result OrderbookLMDB :=
  let relevant := lmdb.thunks.filter (·.currentBlockNumber ≤ currentBlockNumber)
  let lmdb := { lmdb with thunks := lmdb.thunks.filter (·.currentBlockNumber > currentBlockNumber) }
  match relevant with
  | [] => .ok lmdb
  | first :: _ =>
    if first.currentBlockNumber < lmdb.persistedRoundNumber + 1 then
      .error (.runtimeError "too small current_block_number")
    else do
      let m := relevant.foldl maxKeyStep ⟨lmdb.data, [], .zero, false⟩
      let (data, _) ← insertPhase m.keysThatWillBeLaterDeleted relevant (deleteBelow m)
      let data ← relevant.foldlM partialExecStep data
      return { lmdb with data := clearPartialExec relevant data }

/-! ### Phases 1 and 2 -/

theorem deleteKey_find? (m : Book × List OfferKey) (kv : OfferKey × Offer) (k : OfferKey) :
    (deleteKey m kv).1.find? k = if kv.1 = k then none else m.1.find? k := by
  rw [deleteKey]
  by_cases hk : kv.1 = k
  · subst hk
    by_cases hc : m.1.contains kv.1 = true
    · simp [hc]
    · rw [if_neg hc, if_pos rfl]
      simpa [SortedMap.contains] using hc
  · rw [if_neg hk]
    split
    · exact SortedMap.find?_erase_ne hk _
    · rfl

theorem deleteKeys_find? (l : List (OfferKey × Offer)) (m : Book × List OfferKey) (k : OfferKey) :
    (l.foldl deleteKey m).1.find? k = if k ∈ l.map (·.1) then none else m.1.find? k := by
  induction l generalizing m with
  | nil => rfl
  | cons kv l ih =>
    rw [List.foldl_cons, ih, deleteKey_find?]
    by_cases hl : k ∈ l.map (·.1)
    · simp [hl]
    · by_cases hk : kv.1 = k
      · simp [hk]
      · simp [hl, hk, Ne.symm hk]

/-- A key that is not on disk counts as deleted later exactly when a thunk deletes it. -/
theorem deleteKeys_later (l : List (OfferKey × Offer)) (m : Book × List OfferKey) {k : OfferKey}
    (hk : m.1.find? k = none) :
    k ∈ (l.foldl deleteKey m).2 ↔ k ∈ m.2 ∨ k ∈ l.map (·.1) := by
  induction l generalizing m with
  | nil => simp
  | cons kv l ih =>
    have hk' : (deleteKey m kv).1.find? k = none := by rw [deleteKey_find?, hk, ite_self]
    rw [List.foldl_cons, ih _ hk', deleteKey]
    by_cases hc : m.1.contains kv.1 = true
    · have hne : k ≠ kv.1 := by
        rintro rfl
        simp [SortedMap.contains, hk] at hc
      simp [hc, hne]
    · simp only [hc, List.mem_cons, List.map_cons, Bool.false_eq_true, if_false]
      tauto

/-- Some thunk deletes `k`. -/
def Deletes (thunks : List OrderbookLMDBCommitmentThunk) (k : OfferKey) : Prop :=
  ∃ thunk ∈ thunks, k ∈ thunk.deletedKeys.map (·.1)

instance (thunks : List OrderbookLMDBCommitmentThunk) (k : OfferKey) :
    Decidable (Deletes thunks k) :=
  inferInstanceAs (Decidable (∃ thunk ∈ thunks, k ∈ thunk.deletedKeys.map (·.1)))

theorem deletes_cons {thunk : OrderbookLMDBCommitmentThunk}
    {thunks : List OrderbookLMDBCommitmentThunk} {k : OfferKey} :
    Deletes (thunk :: thunks) k ↔ k ∈ thunk.deletedKeys.map (·.1) ∨ Deletes thunks k := by
  simp [Deletes]

theorem maxKey_data (thunks : List OrderbookLMDBCommitmentThunk) (m : MaxKey) (k : OfferKey) :
    (thunks.foldl maxKeyStep m).data.find? k =
      if Deletes thunks k then none else m.data.find? k := by
  induction thunks generalizing m with
  | nil => rw [if_neg (by simp [Deletes])]; rfl
  | cons thunk thunks ih =>
    rw [List.foldl_cons, ih, maxKeyStep, deleteKeys_find?]
    simp only [deletes_cons]
    by_cases h₁ : Deletes thunks k <;> by_cases h₂ : k ∈ thunk.deletedKeys.map (·.1) <;>
      simp only [h₁, h₂, if_true, if_false, or_true, or_false, or_self]

theorem maxKey_later (thunks : List OrderbookLMDBCommitmentThunk) (m : MaxKey) {k : OfferKey}
    (hk : m.data.find? k = none) :
    k ∈ (thunks.foldl maxKeyStep m).keysThatWillBeLaterDeleted ↔
      k ∈ m.keysThatWillBeLaterDeleted ∨ Deletes thunks k := by
  induction thunks generalizing m with
  | nil => simp [Deletes]
  | cons thunk thunks ih =>
    have hk' : (maxKeyStep m thunk).data.find? k = none := by
      rw [maxKeyStep, deleteKeys_find?, hk, ite_self]
    rw [List.foldl_cons, ih _ hk', maxKeyStep, deleteKeys_later _ _ hk, deletes_cons]
    tauto

/-- The key of phase 2 is at most `k` exactly when every partially executed key is. -/
theorem maxKey_keyBuf_le (thunks : List OrderbookLMDBCommitmentThunk) (m : MaxKey)
    (k : OfferKey) :
    (thunks.foldl maxKeyStep m).keyBuf ≤ k ↔ m.keyBuf ≤ k ∧
      ∀ thunk ∈ thunks, thunk.existsPartialExec = true → thunk.partialExecKey ≤ k := by
  induction thunks generalizing m with
  | nil => simp
  | cons thunk thunks ih =>
    rw [List.foldl_cons, ih, maxKeyStep]
    by_cases he : thunk.existsPartialExec = true
    · simp only [he, if_true, max_le_iff, List.forall_mem_cons, forall_const]
      tauto
    · simp only [he, if_false, List.forall_mem_cons, false_imp_iff, true_and, Bool.false_eq_true]

theorem maxKey_keySet (thunks : List OrderbookLMDBCommitmentThunk) (m : MaxKey) :
    (thunks.foldl maxKeyStep m).keySet = true ↔
      m.keySet = true ∨ ∃ thunk ∈ thunks, thunk.existsPartialExec = true := by
  induction thunks generalizing m with
  | nil => simp
  | cons thunk thunks ih =>
    rw [List.foldl_cons, ih, maxKeyStep]
    by_cases he : thunk.existsPartialExec = true <;> simp [he]

theorem deleteBelow_find? (m : MaxKey) (k : OfferKey) :
    (deleteBelow m).find? k = if m.keySet = true ∧ m.keyBuf ≤ k then m.data.find? k else none := by
  rw [deleteBelow]
  by_cases hset : m.keySet = true
  · by_cases hany : (m.data.keys.any fun k => decide (m.keyBuf ≤ k)) = true
    · rw [if_neg (by simp [hset, hany]), SortedMap.find?_filter_key]
      simp [hset]
    · rw [if_pos (by simp [hany])]
      split
      · rename_i hk
        have hnot : k ∉ m.data.keys := by
          intro hmem
          exact hany (List.any_eq_true.mpr ⟨k, hmem, decide_eq_true hk.2⟩)
        rw [SortedMap.mem_keys, SortedMap.contains, Bool.not_eq_true, Option.isSome_eq_false_iff,
          Option.isNone_iff_eq_none] at hnot
        rw [hnot]
        rfl
      · rfl
  · rw [if_pos (by simp [hset]), if_neg fun h => hset h.1]
    rfl

/-! ### Phase 3 -/

/-- The test of phase 3 compares keys. -/
theorem dbPut_iff {keyBuf : OfferKey} {later : List OfferKey} {offer : Offer}
    (hprice : offer.minPrice ≤ Price.maxPrice) :
    dbPut keyBuf later offer = true ↔ keyBuf ≤ offer.key ∧ offer.key ∉ later := by
  have hp : offer.minPrice.toNat < 2 ^ 48 := by
    have := UInt64.le_iff_toNat_le.mp hprice
    rw [show Price.maxPrice.toNat = 2 ^ 48 - 1 from rfl] at this
    omega
  have ho := offer.owner.toNat_lt
  have hi := offer.offerId.toNat_lt
  have hkey := key_toNat offer
  rw [Nat.mod_eq_of_lt hp] at hkey
  simp only [dbPut, readPriceBigEndian_eq, Bool.and_eq_true, Bool.or_eq_true, decide_eq_true_eq,
    ge_iff_le, gt_iff_lt, OfferKey.le_iff]
  constructor
  · rintro ⟨⟨-, hlt | hle⟩, hlater⟩
    · exact ⟨by omega, hlater⟩
    · exact ⟨hle, hlater⟩
  · rintro ⟨hle, hlater⟩
    exact ⟨⟨by omega, .inr hle⟩, hlater⟩

theorem insertNewOffers_eq {keyBuf : OfferKey} {later : List OfferKey} {offers : List Offer}
    (hpos : ∀ offer ∈ offers, offer.amount ≠ 0) (data : Book) :
    insertNewOffers keyBuf later offers data =
      .ok (data.insertAll ((offers.takeWhile (dbPut keyBuf later)).map fun o => (o.key, o))) := by
  induction offers generalizing data with
  | nil => rfl
  | cons offer offers ih =>
    rw [insertNewOffers, if_neg (hpos offer List.mem_cons_self), List.takeWhile_cons]
    cases dbPut keyBuf later offer with
    | false => rfl
    | true => exact ih (fun o ho => hpos o (List.mem_cons_of_mem _ ho)) _

/-- The new offer under `k` passes the test of phase 3, and so do all with a greater key. -/
def PassesFrom (keyBuf : OfferKey) (later : List OfferKey) (created : Book) (k : OfferKey) : Prop :=
  ∀ k' offer, created.find? k' = some offer → k ≤ k' → keyBuf ≤ k' ∧ k' ∉ later

/-- What a new offer of a valid round looks like. -/
def NewOffers (created : Book) : Prop :=
  ∀ k offer, created.find? k = some offer →
    k = offer.key ∧ 0 < offer.amount ∧ offer.amount.toNat < 2 ^ 63 ∧ offer.minPrice ≤ Price.maxPrice

/-- Phase 3 for one round inserts the new offers from which on all pass. -/
theorem insertCreated_find? (keyBuf : OfferKey) (later : List OfferKey) (data : Book)
    {created : Book} (hnew : NewOffers created) :
    ∃ data', insertNewOffers keyBuf later created.values.reverse data = .ok data' ∧
      ∀ k, (∀ offer, created.find? k = some offer → PassesFrom keyBuf later created k →
          data'.find? k = some offer) ∧
        ((created.find? k = none ∨ ¬ PassesFrom keyBuf later created k) →
          data'.find? k = data.find? k) := by
  have hpos : ∀ offer ∈ created.values.reverse, offer.amount ≠ 0 := by
    intro offer hoffer
    rw [List.mem_reverse, SortedMap.values, List.mem_map] at hoffer
    obtain ⟨⟨k, o⟩, hmem, rfl⟩ := hoffer
    exact UInt64.pos_iff_ne_zero.mp (hnew k o (SortedMap.mem_entries.mp hmem)).2.1
  -- the offers read, with their keys, are entries of the map
  have hentries : (created.values.reverse.takeWhile (dbPut keyBuf later)).map (fun o => (o.key, o)) =
      created.entries.reverse.takeWhile fun a => dbPut keyBuf later a.2 := by
    rw [SortedMap.values, ← List.map_reverse, List.takeWhile_map, List.map_map]
    refine (List.map_congr_left fun a ha => ?_).trans (List.map_id _)
    have hmem := List.mem_reverse.mp (List.takeWhile_subset _ ha)
    exact Prod.ext (hnew a.1 a.2 (SortedMap.mem_entries.mp hmem)).1.symm rfl
  have htaken : ∀ k offer, (k, offer) ∈ (created.entries.reverse.takeWhile fun a =>
      dbPut keyBuf later a.2) ↔ created.find? k = some offer ∧ PassesFrom keyBuf later created k := by
    intro k offer
    rw [SortedMap.mem_takeWhile_reverse created.sorted, SortedMap.mem_entries]
    refine and_congr_right fun _ => ?_
    constructor
    · intro hall k' o' hk' hle
      have hput := hall (k', o') (SortedMap.mem_entries.mpr hk') hle
      rwa [dbPut_iff (hnew k' o' hk').2.2.2, ← (hnew k' o' hk').1] at hput
    · rintro hpass ⟨k', o'⟩ hmem hle
      have hk' := SortedMap.mem_entries.mp hmem
      rw [dbPut_iff (hnew k' o' hk').2.2.2, ← (hnew k' o' hk').1]
      exact hpass k' o' hk' hle
  refine ⟨_, insertNewOffers_eq hpos data, fun k => ?_⟩
  rw [hentries, SortedMap.find?_insertAll]
  refine ⟨fun offer hoffer hpass => ?_, fun hnot => ?_⟩
  · have hsub := (List.takeWhile_sublist (l := created.entries.reverse)
      fun a => dbPut keyBuf later a.2).reverse
    rw [List.reverse_reverse] at hsub
    rw [SortedMap.lookup_of_mem (created.sorted.sublist hsub)
      (List.mem_reverse.mpr ((htaken k offer).mpr ⟨hoffer, hpass⟩))]
    rfl
  · cases hlookup : SortedMap.lookup k (created.entries.reverse.takeWhile fun a =>
        dbPut keyBuf later a.2).reverse with
    | none => rfl
    | some offer =>
      have hmem := (htaken k offer).mp (List.mem_reverse.mp (SortedMap.mem_of_lookup hlookup))
      rcases hnot with hnone | hnot
      · rw [hnone] at hmem
        cases hmem.1
      · exact absurd hmem.2 hnot

/-- The running key of phase 3: the greatest threshold of the rounds from here on. -/
def maxThreshold : List Round → OfferKey
  | [] => .zero
  | r :: rs => max (maxThreshold rs) r.thresholdKey

theorem maxThreshold_le {rs : List Round} {k : OfferKey} :
    maxThreshold rs ≤ k ↔ ∀ r ∈ rs, r.thresholdKey ≤ k := by
  induction rs with
  | nil => simp [maxThreshold, OfferKey.zero_le]
  | cons r rs ih =>
    rw [maxThreshold, max_le_iff, ih, List.forall_mem_cons]
    exact and_comm

/-- Phase 3 inserts `offer` under `k`. -/
def Inserted (later : List OfferKey) (k : OfferKey) (offer : Offer) : List Round → Prop
  | [] => False
  | r :: rs => (r.created.find? k = some offer ∧
      PassesFrom (maxThreshold (r :: rs)) later r.created k) ∨ Inserted later k offer rs

theorem Inserted.created {later : List OfferKey} {k : OfferKey} {offer : Offer} {rs : List Round}
    (h : Inserted later k offer rs) : ∃ r ∈ rs, r.created.find? k = some offer := by
  induction rs with
  | nil => exact absurd h id
  | cons r rs ih =>
    rcases h with ⟨hcreated, -⟩ | h
    · exact ⟨r, List.mem_cons_self, hcreated⟩
    · obtain ⟨r', hr', hcreated⟩ := ih h
      exact ⟨r', List.mem_cons_of_mem _ hr', hcreated⟩

/-- Phase 3 returns, and changes exactly the keys that it inserts. -/
theorem insertPhase_find? (later : List OfferKey) (data : Book) {book : Book} {rs : List Round}
    {thunks : List OrderbookLMDBCommitmentThunk} (hrec : RecordedRun book rs thunks)
    (hnew : ∀ r ∈ rs, NewOffers r.created)
    (hfresh : rs.Pairwise fun r r' => ∀ k offer, r.created.find? k = some offer →
      r'.created.find? k = none) :
    ∃ data', insertPhase later thunks data = .ok (data', maxThreshold rs) ∧
      ∀ k, (∀ offer, Inserted later k offer rs → data'.find? k = some offer) ∧
        ((∀ offer, ¬ Inserted later k offer rs) → data'.find? k = data.find? k) := by
  induction rs generalizing book thunks with
  | nil =>
    cases hrec
    exact ⟨data, rfl, fun k => ⟨fun _ h => absurd h id, fun _ => rfl⟩⟩
  | cons r rs ih =>
    obtain ⟨thunk, thunks, rfl, hr, hrest⟩ := hrec
    obtain ⟨hfirst, hfresh⟩ := List.pairwise_cons.mp hfresh
    obtain ⟨data₁, hok, hdata₁⟩ := ih hrest (fun r' hr' => hnew r' (List.mem_cons_of_mem _ hr')) hfresh
    obtain ⟨data₂, hok₂, hdata₂⟩ := insertCreated_find? (maxThreshold (r :: rs)) later data₁
      (hnew r List.mem_cons_self)
    refine ⟨data₂, ?_, fun k => ⟨fun offer hins => ?_, fun hnot => ?_⟩⟩
    · rw [insertPhase, hok, hr.threshold, hr.created]
      simp only [ok_bind]
      rw [show max (maxThreshold rs) r.thresholdKey = maxThreshold (r :: rs) from rfl, hok₂]
      rfl
    · rcases hins with ⟨hcreated, hpass⟩ | hins
      · exact (hdata₂ k).1 offer hcreated hpass
      · obtain ⟨r', hr', hcreated'⟩ := hins.created
        have hnone : r.created.find? k = none := by
          by_contra hsome
          obtain ⟨o, ho⟩ := Option.ne_none_iff_exists'.mp hsome
          rw [hfirst r' hr' k o ho] at hcreated'
          cases hcreated'
        rw [(hdata₂ k).2 (.inl hnone), (hdata₁ k).1 offer hins]
    · rw [(hdata₂ k).2, (hdata₁ k).2 fun offer hins => hnot offer (.inr hins)]
      by_cases hpass : PassesFrom (maxThreshold (r :: rs)) later r.created k
      · exact .inl (Option.eq_none_iff_forall_ne_some.mpr fun offer ho =>
          hnot offer (.inl ⟨ho, hpass⟩))
      · exact .inr hpass

/-! ### Phase 5 -/

/-- A round executes the offer under `k` partially, and a later one has a greater threshold. -/
def ClearedAfterPartial (k : OfferKey) : List Round → Prop
  | [] => False
  | r :: rs => ((∃ amount, r.clearing = .upTo k amount) ∧ ∃ r' ∈ rs, k < r'.thresholdKey) ∨
      ClearedAfterPartial k rs

theorem recordedRun_exists_threshold {book : Book} {rs : List Round}
    {thunks : List OrderbookLMDBCommitmentThunk} (hrec : RecordedRun book rs thunks)
    {P : OfferKey → Prop} :
    (∃ thunk ∈ thunks, P thunk.partialExecKey) ↔ ∃ r ∈ rs, P r.thresholdKey := by
  induction rs generalizing book thunks with
  | nil => cases hrec; simp
  | cons r rs ih =>
    obtain ⟨thunk, thunks, rfl, hr, hrest⟩ := hrec
    simp only [List.exists_mem_cons_iff, ih hrest, hr.threshold]

/-- Phase 5 deletes exactly the partially executed offers that a later round clears. -/
theorem clearPartialExec_find? {book data : Book} {rs : List Round}
    {thunks : List OrderbookLMDBCommitmentThunk} (hrec : RecordedRun book rs thunks)
    (k : OfferKey) :
    (ClearedAfterPartial k rs → (clearPartialExec thunks data).find? k = none) ∧
      (¬ ClearedAfterPartial k rs → (clearPartialExec thunks data).find? k = data.find? k) := by
  induction rs generalizing book thunks data with
  | nil =>
    cases hrec
    exact ⟨fun h => absurd h id, fun _ => rfl⟩
  | cons r rs ih =>
    obtain ⟨thunk, thunks, rfl, hr, hrest⟩ := hrec
    rw [clearPartialExec]
    set data' := if (thunk.existsPartialExec &&
        thunks.any fun future => decide (thunk.partialExecKey < future.partialExecKey)) = true
      then data.erase thunk.partialExecKey else data with hdata'
    have hcond : (thunk.existsPartialExec &&
        thunks.any fun future => decide (thunk.partialExecKey < future.partialExecKey)) = true ↔
        r.clearing ≠ .everything ∧ ∃ r' ∈ rs, r.thresholdKey < r'.thresholdKey := by
      rw [Bool.and_eq_true, hr.exists_iff, List.any_eq_true]
      simp only [decide_eq_true_eq, hr.threshold,
        recordedRun_exists_threshold hrest (P := fun key => r.thresholdKey < key)]
    have hupTo : ∀ amount, r.clearing = .upTo k amount → r.thresholdKey = k := by
      intro amount hc
      rw [Round.thresholdKey, hc]
    have hstep : ((∃ amount, r.clearing = .upTo k amount) ∧ ∃ r' ∈ rs, k < r'.thresholdKey) →
        data'.find? k = none := by
      rintro ⟨⟨amount, hc⟩, hlater⟩
      rw [hdata', if_pos (hcond.mpr ⟨by simp [hc], by rwa [hupTo amount hc]⟩), hr.threshold,
        hupTo amount hc]
      exact SortedMap.find?_erase_self ..
    have hkeep : ¬ ((∃ amount, r.clearing = .upTo k amount) ∧ ∃ r' ∈ rs, k < r'.thresholdKey) →
        data'.find? k = data.find? k := by
      intro hnot
      rw [hdata']
      split
      · rename_i hif
        obtain ⟨hne, hlater⟩ := hcond.mp hif
        refine SortedMap.find?_erase_ne (fun hk => hnot ?_) _
        rw [hr.threshold] at hk
        cases hc : r.clearing with
        | everything => exact absurd hc hne
        | upTo key amount =>
          have hkey : key = k := by rw [← hk, Round.thresholdKey, hc]
          exact ⟨⟨amount, by rw [hkey]⟩, by rwa [← hk]⟩
      · rfl
    refine ⟨?_, fun hnot => ?_⟩
    · rintro (hhead | htail)
      · by_cases htail : ClearedAfterPartial k rs
        · exact (ih hrest).1 htail
        · rw [(ih hrest).2 htail, hstep hhead]
      · exact (ih hrest).1 htail
    · rw [(ih hrest).2 fun h => hnot (.inr h), hkeep fun h => hnot (.inl h)]

end OrderbookLMDB

end Speedex
