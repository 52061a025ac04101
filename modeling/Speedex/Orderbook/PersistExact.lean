import Speedex.Orderbook.Fate
import Speedex.Orderbook.Persist

/-! What `write_thunks` leaves on disk, against the book in memory: which offers come back that are
gone, and which offers get lost. -/

namespace Speedex

open Lib

namespace OrderbookLMDB

variable {book data : Book} {r : Round} {rs : List Round} {k : OfferKey}
  {thunk : OrderbookLMDBCommitmentThunk} {thunks : List OrderbookLMDBCommitmentThunk}

/-! ### Thunks and rounds -/

theorem deletes_iff (hrec : RecordedRun book rs thunks) (hv : ValidRun book rs) (k : OfferKey) :
    Deletes thunks k ↔ ∃ r ∈ rs, k ∈ r.cancelled := by
  induction rs generalizing book thunks with
  | nil =>
    cases hrec
    simp [Deletes]
  | cons r rs ih =>
    obtain ⟨thunk, thunks, rfl, hr, hrest⟩ := hrec
    rw [deletes_cons, ih hrest hv.2, List.exists_mem_cons_iff, hr.deleted]
    refine or_congr_left ?_
    change k ∈ SortedMap.keys _ ↔ _
    rw [SortedMap.mem_keys, SortedMap.contains, SortedMap.find?_filter_key]
    constructor
    · intro h
      by_contra hnot
      rw [if_neg hnot] at h
      cases h
    · intro hc
      obtain ⟨offer, hoffer⟩ := hv.1.cancelled k hc
      rw [if_pos hc, hoffer]
      rfl

/-- A round records a partial execution exactly when it clears up to a key. -/
theorem partialExec_iff (hr : r.Recorded book thunk) {P : OfferKey → Prop} :
    (thunk.existsPartialExec = true → P thunk.partialExecKey) ↔
      ∀ key amount, r.clearing = .upTo key amount → P key := by
  rw [hr.exists_iff, hr.threshold, Round.thresholdKey]
  cases r.clearing with
  | everything => simp
  | upTo key amount => simp

theorem forall_partialExec_iff (hrec : RecordedRun book rs thunks) {P : OfferKey → Prop} :
    (∀ thunk ∈ thunks, thunk.existsPartialExec = true → P thunk.partialExecKey) ↔
      ∀ r ∈ rs, ∀ key amount, r.clearing = .upTo key amount → P key := by
  induction rs generalizing book thunks with
  | nil =>
    cases hrec
    simp
  | cons r rs ih =>
    obtain ⟨thunk, thunks, rfl, hr, hrest⟩ := hrec
    rw [List.forall_mem_cons, List.forall_mem_cons, ih hrest, partialExec_iff hr]

/-! ### Phases 1 to 3 -/

/-- No round cancels the offer under `k` or clears below a key above it, and some round clears up
to a key. -/
structure Kept (rs : List Round) (k : OfferKey) : Prop where
  notCancelled : ∀ r ∈ rs, k ∉ r.cancelled
  notBelow : ∀ r ∈ rs, ¬ ClearsBelow k r
  someUpTo : ∃ r ∈ rs, ¬ ClearsAll r

/-- What phase 1 computes from the disk. -/
def maxKey (book : Book) (thunks : List OrderbookLMDBCommitmentThunk) : MaxKey :=
  thunks.foldl maxKeyStep ⟨book, [], .zero, false⟩

/-- Phases 1 and 2 keep exactly those offers of the disk. -/
theorem deleteBelow_maxKey (hrec : RecordedRun book rs thunks) (hv : ValidRun book rs)
    (k : OfferKey) :
    (Kept rs k → (deleteBelow (maxKey book thunks)).find? k = book.find? k) ∧
      (¬ Kept rs k → (deleteBelow (maxKey book thunks)).find? k = none) := by
  have hset : (maxKey book thunks).keySet = true ↔ ∃ r ∈ rs, ¬ ClearsAll r := by
    rw [maxKey, maxKey_keySet, ← not_iff_not]
    have hall := forall_partialExec_iff hrec (P := fun _ => False)
    simp only [Bool.false_eq_true, false_or, not_exists, not_and, not_not, ClearsAll]
    refine hall.trans (forall₂_congr fun r _ => ?_)
    cases r.clearing with
    | everything => simp
    | upTo key amount => simp
  have hbelow : (maxKey book thunks).keyBuf ≤ k ↔ ∀ r ∈ rs, ¬ ClearsBelow k r := by
    rw [maxKey, maxKey_keyBuf_le, forall_partialExec_iff hrec (P := (· ≤ k)),
      and_iff_right k.zero_le]
    refine forall₂_congr fun r _ => ?_
    simp only [ClearsBelow, not_exists, not_and, not_lt]
  have hdel := deletes_iff hrec hv k
  have hdata : (maxKey book thunks).data.find? k =
      if Deletes thunks k then none else book.find? k := maxKey_data ..
  rw [deleteBelow_find?, hdata]
  constructor
  · intro hkept
    rw [if_pos ⟨hset.mpr hkept.someUpTo, hbelow.mpr hkept.notBelow⟩, if_neg]
    intro hd
    obtain ⟨r, hr, hc⟩ := hdel.mp hd
    exact hkept.notCancelled r hr hc
  · intro hnot
    split
    · rename_i hif
      rw [if_pos]
      by_contra hd
      exact hnot ⟨fun r hr hc => hd (hdel.mpr ⟨r, hr, hc⟩), hbelow.mp hif.2, hset.mp hif.1⟩
    · rfl

/-- A new offer counts as deleted later exactly when a round cancels it. -/
theorem mem_later_iff (hrec : RecordedRun book rs thunks) (hv : ValidRun book rs)
    (hk : book.find? k = none) :
    k ∈ (maxKey book thunks).keysThatWillBeLaterDeleted ↔ ∃ r ∈ rs, k ∈ r.cancelled := by
  rw [maxKey, maxKey_later _ _ hk, deletes_iff hrec hv]
  simp

theorem newOffers_of_validRun (hv : ValidRun book rs) : ∀ r ∈ rs, NewOffers r.created := by
  induction rs generalizing book with
  | nil => exact fun _ h => absurd h List.not_mem_nil
  | cons r rs ih => exact List.forall_mem_cons.mpr ⟨hv.1.created, ih hv.2⟩

/-! ### Phase 4 -/

/-- The offer on disk under `k` is absent, or it is the one in memory (or still to come), or the
one in memory is gone for good. -/
def Tracks (data book : Book) (rs : List Round) : Prop :=
  ∀ k, data.find? k = none ∨ data.find? k = pending k book rs ∨
    (book.find? k = none ∧ NeverCreated k rs)

/-- Amounts are `int64_t` values. -/
def Amounts (book : Book) : Prop :=
  ∀ k offer, book.find? k = some offer → offer.amount.toNat < 2 ^ 63

theorem not_neg_of_toUInt64_le {x : Int64} {y : UInt64} (hle : x.toUInt64 ≤ y)
    (hy : y.toNat < 2 ^ 63) : ¬ x < 0 := by
  have hnat := UInt64.le_iff_toNat_le.mp hle
  have hbits : x.toUInt64.toNat = x.toBitVec.toNat := rfl
  have hint : x.toInt = x.toBitVec.toInt := rfl
  rw [Int64.lt_iff_toInt_lt, hint, BitVec.toInt_eq_toNat_of_lt (by omega)]
  simp

theorem Amounts.merged (h : Amounts book) (hv : r.Valid book) : Amounts (r.merged book) := by
  intro k offer hk
  rw [Round.find?_merged, Round.mergedAt, Option.or_eq_some_iff] at hk
  rcases hk with hk | ⟨-, hk⟩
  · exact (hv.created k offer hk).2.2.1
  · split at hk
    · cases hk
    · exact h k offer hk

theorem Amounts.after (h : Amounts book) (hv : r.Valid book) : Amounts (r.after book) := by
  intro k offer hk
  have hmerged := h.merged hv k
  rw [Round.find?_merged] at hmerged
  rw [Round.find?_after, Round.afterAt] at hk
  cases hc : r.clearing with
  | everything =>
    rw [hc] at hk
    cases hk
  | upTo key amount =>
    rw [hc, Round.clearedAt] at hk
    split at hk
    · cases hk
    · split at hk
      · obtain ⟨o, ho, hleft⟩ := Option.bind_eq_some_iff.mp hk
        rename_i hkey
        obtain ⟨o', ho', hle⟩ := hv.partialExec key amount hc
        rw [Round.find?_merged, ← hkey, ho] at ho'
        cases ho'
        rw [Round.leftover] at hleft
        split at hleft
        · cases hleft
        · cases hleft
          have hsmall := hmerged o ho
          have hnat : (o.amount - amount).toNat = o.amount.toNat - amount.toNat :=
            UInt64.toNat_sub_of_le _ _ hle
          change (o.amount - amount).toNat < 2 ^ 63
          omega
      · exact hmerged offer hk

/-- One thunk of phase 4 never throws, and does to the disk what the round's partial execution
does. -/
theorem partialExecStep_ok (hv : r.Valid book) (hf : FreshRun book (r :: rs))
    (hr : r.Recorded book thunk) (hamounts : Amounts book)
    (htracks : Tracks data book (r :: rs)) :
    ∃ data', partialExecStep data thunk = .ok data' ∧
      ∀ k, data'.find? k = partialAt k r (data.find? k) := by
  cases hc : r.clearing with
  | everything =>
    have hexists : thunk.existsPartialExec = false := by
      rw [Bool.eq_false_iff, ne_eq, hr.exists_iff, hc]
      exact fun h => h rfl
    refine ⟨data, by rw [partialExecStep, hexists]; rfl, fun k => ?_⟩
    rw [partialAt, hc]
  | upTo key amount =>
    have hexists : thunk.existsPartialExec = true := hr.exists_iff.mpr (by simp [hc])
    have hkey : thunk.partialExecKey = key := by rw [hr.threshold, Round.thresholdKey, hc]
    have hat : ∀ k v, partialAt k r v = if key = k then v.bind (Round.leftover · amount) else v := by
      intro k v
      rw [partialAt, hc]
    obtain ⟨offer, hoffer, hle⟩ := hv.partialExec key amount hc
    have hamount := (hr.partialExec key amount hc).1
    have hnonneg : ¬ thunk.partialExecAmount < 0 :=
      not_neg_of_toUInt64_le (hamount ▸ hle) (hamounts.merged hv key offer hoffer)
    rw [Round.find?_merged] at hoffer
    rw [partialExecStep, hexists, hkey, hamount]
    rcases htracks key with hnone | hsame | ⟨hgone, hnever⟩
    · rw [hnone]
      refine ⟨data, rfl, fun k => ?_⟩
      rw [hat]
      by_cases hk : key = k
      · rw [if_pos hk, ← hk, hnone]
        rfl
      · rw [if_neg hk]
    · rw [(hf.of_mergedAt hoffer).1] at hsame
      rw [hsame]
      simp only [Bool.not_true, Bool.false_eq_true, if_false, if_neg hnonneg,
        if_neg (not_lt.mpr hle)]
      by_cases hzero : (Orderbook.reduced offer amount).amount = 0
      · refine ⟨data.erase key, if_neg (by rw [hzero]; exact lt_irrefl _), fun k => ?_⟩
        rw [hat]
        by_cases hk : key = k
        · rw [if_pos hk, ← hk, hsame, Option.bind_some, Round.leftover, if_pos hzero]
          exact SortedMap.find?_erase_self ..
        · rw [if_neg hk]
          exact SortedMap.find?_erase_ne hk _
      · refine ⟨data.insert key (Orderbook.reduced offer amount),
          if_pos (UInt64.pos_iff_ne_zero.mpr hzero), fun k => ?_⟩
        rw [hat]
        by_cases hk : key = k
        · rw [if_pos hk, ← hk, hsame, Option.bind_some, Round.leftover, if_neg hzero]
          exact SortedMap.find?_insert_self ..
        · rw [if_neg hk]
          exact SortedMap.find?_insert_ne hk ..
    · rw [Round.mergedAt, hnever r List.mem_cons_self, hgone, ite_self] at hoffer
      cases hoffer

/-- Phase 4 keeps the disk in step with the memory. -/
theorem Tracks.step {data' : Book} (h : Tracks data book (r :: rs)) (hv : r.Valid book)
    (hf : FreshRun book (r :: rs)) (hdata : ∀ k, data'.find? k = partialAt k r (data.find? k)) :
    Tracks data' (r.after book) rs := by
  intro k
  rw [hdata]
  rcases h k with hnone | hsame | ⟨hgone, hnever⟩
  · left
    rw [hnone, partialAt]
    cases r.clearing with
    | everything => rfl
    | upTo key amount => exact ite_self _
  · cases hm : r.mergedAt k (book.find? k) with
    | some offer =>
      obtain ⟨hpending, hnew⟩ := hf.of_mergedAt hm
      rcases after_of_mergedAt hm with ⟨-, hnone, -⟩ | ⟨-, hnone⟩ | ⟨-, -, hafter⟩
      · exact .inr (.inr ⟨hnone, hnew⟩)
      · exact .inr (.inr ⟨hnone, hnew⟩)
      · refine .inr (.inl ?_)
        rw [hsame, hpending, pending_of_neverCreated hnew, hafter]
    | none =>
      rcases hf.of_mergedAt_none hm with ⟨-, hnew⟩ | ⟨-, hpending⟩
      · exact .inr (.inr ⟨after_of_mergedAt_none hm, hnew⟩)
      · refine .inr (.inl ?_)
        rw [partialAt_of_mergedAt_none hv hm, hsame, hpending]
  · refine .inr (.inr ⟨after_of_mergedAt_none ?_, fun r' hr' =>
      hnever r' (List.mem_cons_of_mem _ hr')⟩)
    rw [Round.mergedAt, hnever r List.mem_cons_self, hgone, ite_self]
    rfl

/-- Phase 4 never throws, and does to the disk what the partial executions of the run do. -/
theorem partialExecPhase_ok (hv : ValidRun book rs) (hf : FreshRun book rs)
    (hrec : RecordedRun book rs thunks) (hamounts : Amounts book) (htracks : Tracks data book rs) :
    ∃ data', thunks.foldlM partialExecStep data = .ok data' ∧
      ∀ k, data'.find? k = partialsAt k rs (data.find? k) := by
  induction rs generalizing book data thunks with
  | nil =>
    cases hrec
    exact ⟨data, rfl, fun _ => rfl⟩
  | cons r rs ih =>
    obtain ⟨thunk, thunks, rfl, hr, hrest⟩ := hrec
    obtain ⟨data₁, hok, hdata₁⟩ := partialExecStep_ok hv.1 hf hr hamounts htracks
    obtain ⟨data₂, hok₂, hdata₂⟩ := ih hv.2 hf.tail hrest (hamounts.after hv.1)
      (htracks.step hv.1 hf hdata₁)
    refine ⟨data₂, foldlM_cons.mpr ⟨data₁, hok, hok₂⟩, fun k => ?_⟩
    rw [hdata₂, hdata₁, partialsAt_cons]

/-! ### All phases -/

theorem Inserted.passes {later : List OfferKey} {offer : Offer} (h : Inserted later k offer rs) :
    k ∉ later ∧ ∃ r ∈ rs, r.created.find? k = some offer := by
  induction rs with
  | nil => exact absurd h id
  | cons r rs ih =>
    rcases h with ⟨hcreated, hpass⟩ | h
    · exact ⟨(hpass k offer hcreated le_rfl).2, r, List.mem_cons_self, hcreated⟩
    · obtain ⟨hlater, r', hr', hcreated⟩ := ih h
      exact ⟨hlater, r', List.mem_cons_of_mem _ hr', hcreated⟩

/-- A new offer is the one that the run is to create. -/
theorem pending_of_created {offer : Offer} (hf : FreshRun book rs) (hr : r ∈ rs)
    (hk : r.created.find? k = some offer) :
    book.find? k = none ∧ pending k book rs = some offer := by
  have hold := hf.notInBook r hr k offer hk
  refine ⟨hold, ?_⟩
  rw [pending, hold, Option.none_or]
  have htwice := hf.notTwice
  clear hf hold
  induction rs with
  | nil => exact absurd hr List.not_mem_nil
  | cons r' rs ih =>
    obtain ⟨hfirst, htwice⟩ := List.pairwise_cons.mp htwice
    rw [List.findSome?_cons]
    rcases List.mem_cons.mp hr with rfl | hr
    · rw [hk]
    · cases hk' : r'.created.find? k with
      | none => exact ih hr htwice
      | some o =>
        rw [hfirst r hr k o hk'] at hk
        cases hk

/-- What the five phases leave on disk, key by key. -/
structure Written (disk disk' : Book) (rs : List Round) (later : List OfferKey) : Prop where
  later_iff : ∀ k, disk.find? k = none → (k ∈ later ↔ ∃ r ∈ rs, k ∈ r.cancelled)
  clearedAfterPartial : ∀ k, ClearedAfterPartial k rs → disk'.find? k = none
  inserted : ∀ k offer, ¬ ClearedAfterPartial k rs → Inserted later k offer rs →
    disk'.find? k = partialsAt k rs (some offer)
  kept : ∀ k, ¬ ClearedAfterPartial k rs → (∀ offer, ¬ Inserted later k offer rs) → Kept rs k →
    disk'.find? k = partialsAt k rs (disk.find? k)
  dropped : ∀ k, (∀ offer, ¬ Inserted later k offer rs) → ¬ Kept rs k → disk'.find? k = none

/-- A disk that holds the book of an earlier round, and the thunks of the rounds since then. -/
structure Unpersisted (lmdb : OrderbookLMDB) (n : UInt64) (rs : List Round) : Prop where
  valid : ValidRun lmdb.data rs
  fresh : FreshRun lmdb.data rs
  amounts : Amounts lmdb.data
  thunks : ∃ relevant later, lmdb.thunks = relevant ++ later ∧
    RecordedRun lmdb.data rs relevant ∧
    (∀ thunk ∈ relevant, lmdb.persistedRoundNumber < thunk.currentBlockNumber ∧
      thunk.currentBlockNumber ≤ n) ∧
    ∀ thunk ∈ later, n < thunk.currentBlockNumber

/-- Up to phase 3, the disk is in step with the memory. -/
theorem tracks_inserted {later : List OfferKey} {data₂ : Book} (hf : FreshRun book rs)
    (hkept : ∀ k, data₂.find? k = none ∨ data₂.find? k = book.find? k)
    (hdata : ∀ k, (∀ offer, Inserted later k offer rs → data.find? k = some offer) ∧
      ((∀ offer, ¬ Inserted later k offer rs) → data.find? k = data₂.find? k)) :
    Tracks data book rs := by
  intro k
  by_cases hins : ∃ offer, Inserted later k offer rs
  · obtain ⟨offer, hins⟩ := hins
    obtain ⟨-, r, hr, hcreated⟩ := hins.passes
    refine .inr (.inl ?_)
    rw [(hdata k).1 offer hins, (pending_of_created hf hr hcreated).2]
  · rw [(hdata k).2 (not_exists.mp hins)]
    rcases hkept k with hnone | hsame
    · exact .inl hnone
    · cases hk : book.find? k with
      | none => exact .inl (hsame.trans hk)
      | some offer =>
        refine .inr (.inl ?_)
        rw [hsame, pending, hk]
        rfl

theorem writeThunks_written {lmdb : OrderbookLMDB} {n : UInt64} (h : Unpersisted lmdb n rs)
    (hne : rs ≠ []) :
    ∃ lmdb' later, lmdb.writeThunks n = .ok lmdb' ∧ Written lmdb.data lmdb'.data rs later := by
  obtain ⟨relevant, rest, hthunks, hrec, hrelevant, hrest⟩ := h.thunks
  have hfilter : lmdb.thunks.filter (·.currentBlockNumber ≤ n) = relevant := by
    rw [hthunks, List.filter_append, List.filter_eq_self.mpr, List.filter_eq_nil_iff.mpr,
      List.append_nil]
    · intro thunk ht
      simpa using hrest thunk ht
    · intro thunk ht
      exact decide_eq_true (hrelevant thunk ht).2
  set later := (maxKey lmdb.data relevant).keysThatWillBeLaterDeleted with hlater
  obtain ⟨data₃, hok₃, hdata₃⟩ := insertPhase_find? later
    (deleteBelow (maxKey lmdb.data relevant)) hrec (newOffers_of_validRun h.valid)
    h.fresh.notTwice
  have htracks : Tracks data₃ lmdb.data rs := by
    refine tracks_inserted h.fresh (fun k => ?_) hdata₃
    by_cases hkept : Kept rs k
    · exact .inr ((deleteBelow_maxKey hrec h.valid k).1 hkept)
    · exact .inl ((deleteBelow_maxKey hrec h.valid k).2 hkept)
  obtain ⟨data₄, hok₄, hdata₄⟩ := partialExecPhase_ok h.valid h.fresh hrec h.amounts htracks
  refine ⟨{ lmdb with
    thunks := lmdb.thunks.filter (·.currentBlockNumber > n)
    data := clearPartialExec relevant data₄ }, later, ?_, ?_, ?_, ?_, ?_, ?_⟩
  · rw [writeThunks, hfilter]
    cases hcons : relevant with
    | nil =>
      rw [hcons] at hrec
      cases rs with
      | nil => exact absurd rfl hne
      | cons r rs =>
        obtain ⟨_, _, hnil, -⟩ := hrec
        cases hnil
    | cons first ts =>
      have hlt := (hrelevant first (by rw [hcons]; exact List.mem_cons_self)).1
      have hnumber : ¬ first.currentBlockNumber < lmdb.persistedRoundNumber + 1 := by
        rw [UInt64.lt_iff_toNat_lt, UInt64.toNat_add]
        have := UInt64.lt_iff_toNat_lt.mp hlt
        have := Nat.mod_le (lmdb.persistedRoundNumber.toNat + (1 : UInt64).toNat) (2 ^ 64)
        have hone : (1 : UInt64).toNat = 1 := rfl
        omega
      rw [hcons] at hok₃ hok₄ hlater
      simp only [if_neg hnumber]
      rw [maxKey] at hok₃ hlater
      rw [← hlater, hok₃, ok_bind, hok₄]
      rfl
  · exact fun k hk => mem_later_iff hrec h.valid hk
  · exact fun k => (clearPartialExec_find? hrec k).1
  · intro k offer hnot hins
    rw [(clearPartialExec_find? hrec k).2 hnot, hdata₄, (hdata₃ k).1 offer hins]
  · intro k hnot hins hkept
    rw [(clearPartialExec_find? hrec k).2 hnot, hdata₄, (hdata₃ k).2 hins,
      (deleteBelow_maxKey hrec h.valid k).1 hkept]
  · intro k hins hkept
    by_cases hnot : ClearedAfterPartial k rs
    · exact (clearPartialExec_find? hrec k).1 hnot
    · rw [(clearPartialExec_find? hrec k).2 hnot, hdata₄, (hdata₃ k).2 hins,
        (deleteBelow_maxKey hrec h.valid k).2 hkept, partialsAt_none]

end OrderbookLMDB

end Speedex
