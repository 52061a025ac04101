import Speedex.Orderbook.BlockRounds

/-! Rewinding an orderbook over several blocks (`rollback_thunks`).  The thunks are undone oldest
first, so that the newest thunk that touches an offer decides what is left of it. -/

namespace Speedex

open Lib

namespace Round

open OrderbookTrie

variable {r : Round} {book first : Book} {thunk : OrderbookLMDBCommitmentThunk}

/-- The round creates, cancels, clears or partially executes the offer under `k`. -/
def Touches (r : Round) (book : Book) (k : OfferKey) : Prop :=
  (∃ offer, r.created.find? k = some offer) ∨ k ∈ r.cancelled ∨
    (∃ offer, (r.cleared book).find? k = some offer) ∨ ∃ amount, r.clearing = .upTo k amount

/-- Every offer that the round cancels, clears or partially executes stands in the book as it did
in `first`, unless the round itself created it and cleared it fully. -/
structure FindsAsIn (r : Round) (book first : Book) : Prop where
  cancelled : ∀ k ∈ r.cancelled, book.find? k = first.find? k
  cleared : ∀ k offer, (r.cleared book).find? k = some offer → r.created.find? k = none →
    book.find? k = first.find? k
  partialExec : ∀ k amount, r.clearing = .upTo k amount →
    r.created.find? k = none ∧ book.find? k = first.find? k

/-- A round leaves alone what it does not touch. -/
theorem find?_after_of_not_touches {k : OfferKey} (h : ¬ r.Touches book k) :
    (r.after book).find? k = book.find? k := by
  simp only [Touches, not_or, not_exists] at h
  obtain ⟨hcreated, hcancelled, hcleared, hpartial⟩ := h
  have hnew : r.created.find? k = none := Option.eq_none_iff_forall_ne_some.mpr hcreated
  have hmerged : r.mergedAt k (book.find? k) = book.find? k := by
    rw [mergedAt, hnew, if_neg hcancelled, Option.none_or]
  rw [find?_after, afterAt, hmerged]
  cases hc : r.clearing with
  | everything =>
    have hcl := find?_cleared_everything hc book k
    rw [hmerged] at hcl
    rw [← hcl, Option.eq_none_iff_forall_ne_some.mpr hcleared]
    rfl
  | upTo key amount =>
    have hcl := find?_cleared_upTo hc book k
    rw [hmerged, Option.eq_none_iff_forall_ne_some.mpr hcleared] at hcl
    rw [clearedAt]
    by_cases hlt : k < key
    · rw [if_pos hlt] at hcl ⊢
      exact hcl
    · have hne : k ≠ key := by
        rintro rfl
        exact hpartial amount hc
      rw [if_neg hlt, if_neg hne]

theorem mem_created_keys (hv : r.Valid book) (hr : r.Recorded book thunk) {k : OfferKey} :
    k ∈ thunk.uncommittedOffersVec.map Offer.key ↔ ∃ offer, r.created.find? k = some offer := by
  rw [hr.created, SortedMap.values, List.map_map, List.mem_map]
  constructor
  · rintro ⟨⟨k', offer⟩, hmem, rfl⟩
    have hfind := SortedMap.mem_entries.mp hmem
    obtain ⟨rfl, -⟩ := hv.created k' offer hfind
    exact ⟨offer, hfind⟩
  · rintro ⟨offer, hfind⟩
    exact ⟨(k, offer), SortedMap.mem_entries.mpr hfind, (hv.created k offer hfind).1.symm⟩

theorem lookup_deleted (hr : r.Recorded book thunk) (k : OfferKey) :
    SortedMap.lookup k thunk.deletedKeys.reverse =
      if k ∈ r.cancelled then book.find? k else none := by
  rw [hr.deleted, SortedMap.lookup_reverse (SortedMap.nodup_keys _)]
  exact SortedMap.find?_filter_key ..

/-- Undoing a round leaves alone what the round did not touch. -/
theorem find?_undoThunk_of_not_touches {t : OrderbookTrie} (ht : t.Unmarked) (hv : r.Valid book)
    (hr : r.Recorded book thunk) {k : OfferKey} (h : ¬ r.Touches book k) :
    (Orderbook.undoThunk t thunk).offers.find? k = t.offers.find? k := by
  simp only [Touches, not_or, not_exists] at h
  obtain ⟨hcreated, hcancelled, hcleared, hpartial⟩ := h
  have hnot : ¬ (thunk.existsPartialExec = true ∧ thunk.partialExecKey = k) := by
    rintro ⟨hexists, rfl⟩
    cases hc : r.clearing with
    | everything => exact hr.exists_iff.mp hexists hc
    | upTo key amount =>
      have hkey : thunk.partialExecKey = key := by rw [hr.threshold, thresholdKey, hc]
      exact hpartial amount (hkey ▸ hc)
  rw [Orderbook.find?_undoThunk ht hr.unmarked, if_neg hnot,
    if_neg fun hmem => (not_exists.mpr hcreated) ((mem_created_keys hv hr).mp hmem), hr.cleared,
    Option.eq_none_iff_forall_ne_some.mpr hcleared, lookup_deleted hr, if_neg hcancelled,
    Option.none_or, Option.none_or]

/-- Undoing a round that found its offers as in `first` puts them back as in `first`. -/
theorem find?_undoThunk_of_touches {t : OrderbookTrie} (ht : t.Unmarked) (hv : r.Valid book)
    (hr : r.Recorded book thunk) (hfinds : r.FindsAsIn book first)
    (hfresh : ∀ k offer, r.created.find? k = some offer → first.find? k = none) {k : OfferKey}
    (h : r.Touches book k) : (Orderbook.undoThunk t thunk).offers.find? k = first.find? k := by
  rw [Orderbook.find?_undoThunk ht hr.unmarked]
  split
  · rename_i hp
    obtain ⟨hexists, rfl⟩ := hp
    cases hc : r.clearing with
    | everything => exact absurd hc (hr.exists_iff.mp hexists)
    | upTo key amount =>
      have hkey : thunk.partialExecKey = key := by rw [hr.threshold, thresholdKey, hc]
      obtain ⟨hnew, hsame⟩ := hfinds.partialExec key amount hc
      obtain ⟨offer, hoffer, -⟩ := hv.partialExec key amount hc
      rw [hkey, ← hsame, ← (hr.partialExec key amount hc).2, hoffer]
      rw [find?_merged, mergedAt, hnew, Option.none_or] at hoffer
      split at hoffer
      · cases hoffer
      · exact hoffer.symm
  rename_i hnotPartial
  split
  · rename_i hcreated
    obtain ⟨offer, hoffer⟩ := (mem_created_keys hv hr).mp hcreated
    exact (hfresh k offer hoffer).symm
  rename_i hnew
  rw [mem_created_keys hv hr] at hnew
  have hnew : r.created.find? k = none := Option.eq_none_iff_forall_ne_some.mpr (not_exists.mp hnew)
  rw [hr.cleared, lookup_deleted hr]
  cases hcl : (r.cleared book).find? k with
  | some offer =>
    have hsame := hfinds.cleared k offer hcl hnew
    have hmerged : r.mergedAt k (book.find? k) = some offer := by
      cases hc : r.clearing with
      | everything => rw [← hcl, find?_cleared_everything hc]
      | upTo key amount =>
        rw [find?_cleared_upTo hc] at hcl
        split at hcl
        · exact hcl
        · cases hcl
    rw [mergedAt, hnew, Option.none_or] at hmerged
    split at hmerged
    · cases hmerged
    · rw [← hsame, hmerged]
      rfl
  | none =>
    -- what is left is a cancellation
    have hcancelled : k ∈ r.cancelled := by
      rcases h with ⟨offer, hoffer⟩ | hcancelled | ⟨offer, hoffer⟩ | ⟨amount, hc⟩
      · rw [hnew] at hoffer
        cases hoffer
      · exact hcancelled
      · rw [hcl] at hoffer
        cases hoffer
      · refine absurd ⟨hr.exists_iff.mpr (by simp [hc]), ?_⟩ hnotPartial
        rw [hr.threshold, thresholdKey, hc]
    obtain ⟨offer, hoffer⟩ := hv.cancelled k hcancelled
    rw [if_pos hcancelled, ← hfinds.cancelled k hcancelled, hoffer]
    rfl

end Round

/-- Every round of the run finds the offers it touches as they are in `first`. -/
def FindsAsInRun (first : Book) : Book → List Round → Prop
  | _, [] => True
  | book, r :: rs => r.FindsAsIn book first ∧ FindsAsInRun first (r.after book) rs

instance (r : Round) (book first : Book) : Decidable (r.FindsAsIn book first) :=
  decidable_of_iff ((∀ k ∈ r.cancelled, book.find? k = first.find? k) ∧
    (∀ k offer, (r.cleared book).find? k = some offer → r.created.find? k = none →
      book.find? k = first.find? k) ∧
    ∀ k amount, r.clearing = .upTo k amount →
      r.created.find? k = none ∧ book.find? k = first.find? k)
    ⟨fun h => ⟨h.1, h.2.1, h.2.2⟩, fun h => ⟨h.cancelled, h.cleared, h.partialExec⟩⟩

instance decidableFindsAsInRun (first : Book) :
    ∀ (book : Book) (rs : List Round), Decidable (FindsAsInRun first book rs)
  | _, [] => isTrue trivial
  | book, r :: rs =>
    have := decidableFindsAsInRun first (r.after book) rs
    inferInstanceAs (Decidable (r.FindsAsIn book first ∧ FindsAsInRun first (r.after book) rs))

/-- No round of the run touches `k`. -/
def UntouchedRun (k : OfferKey) : Book → List Round → Prop
  | _, [] => True
  | book, r :: rs => ¬ r.Touches book k ∧ UntouchedRun k (r.after book) rs

theorem find?_runRounds_of_untouched {k : OfferKey} {book : Book} {rs : List Round}
    (h : UntouchedRun k book rs) : (runRounds book rs).find? k = book.find? k := by
  induction rs generalizing book with
  | nil => rfl
  | cons r rs ih => rw [runRounds_cons, ih h.2, Round.find?_after_of_not_touches h.1]

/-- Undoing the thunks of a run, key by key: an offer is as in `first`, or the run never touched
it. -/
theorem undoThunks_find? {first book : Book} {rs : List Round}
    {thunks : List OrderbookLMDBCommitmentThunk} {t : OrderbookTrie} (ht : t.Unmarked)
    (hv : ValidRun book rs) (hr : RecordedRun book rs thunks) (hfinds : FindsAsInRun first book rs)
    (hfresh : ∀ r ∈ rs, ∀ k offer, r.created.find? k = some offer → first.find? k = none)
    (k : OfferKey) :
    (thunks.foldl Orderbook.undoThunk t).offers.find? k = first.find? k ∨
      ((thunks.foldl Orderbook.undoThunk t).offers.find? k = t.offers.find? k ∧
        UntouchedRun k book rs) := by
  induction rs generalizing book thunks t with
  | nil =>
    cases hr
    exact .inr ⟨rfl, trivial⟩
  | cons r rs ih =>
    obtain ⟨thunk, thunks, rfl, hrec, hrest⟩ := hr
    have hfresh' := hfresh r List.mem_cons_self
    rw [List.foldl_cons]
    rcases ih (Orderbook.unmarked_undoThunk t thunk) hv.2 hrest hfinds.2
      (fun r' hr' => hfresh r' (List.mem_cons_of_mem _ hr')) with hfirst | ⟨hsame, huntouched⟩
    · exact .inl hfirst
    by_cases htouch : r.Touches book k
    · exact .inl (hsame.trans
        (Round.find?_undoThunk_of_touches ht hv.1 hrec hfinds.1 hfresh' htouch))
    · exact .inr ⟨hsame.trans (Round.find?_undoThunk_of_not_touches ht hv.1 hrec htouch), htouch,
        huntouched⟩

namespace Orderbook

open OrderbookTrie

/-- An orderbook after a run of rounds from `first`, whose thunks are all numbered above `n`. -/
structure AfterRounds (ob : Orderbook) (first : Book) (n : UInt64) (rs : List Round) : Prop where
  valid : ValidRun first rs
  fresh : FreshRun first rs
  book : ob.committedOffers.offers = runRounds first rs
  unmarked : ob.committedOffers.Unmarked
  thunks : ∃ older newer, ob.lmdb.thunks = older ++ newer ∧ RecordedRun first rs newer ∧
    (∀ thunk ∈ older, thunk.currentBlockNumber ≤ n) ∧ ∀ thunk ∈ newer, n < thunk.currentBlockNumber
  persisted : ob.lmdb.persistedRoundNumber ≤ n

/-- A block continues the run: its new offers have fresh keys, and nothing else has changed since
the block before but the cancellation marks. -/
theorem AfterRounds.step {ob ob₁ ob₂ : Orderbook} {first : Book} {n : UInt64} {rs : List Round}
    {r : Round} (h : AfterRounds ob first n rs)
    (hbook : ob₁.committedOffers.offers = ob.committedOffers.offers) (hlmdb : ob₁.lmdb = ob.lmdb)
    (hacts : ActsAs ob₁ ob₂ r)
    (hcreated : ∀ k offer, r.created.find? k = some offer → k = offer.key ∧ 0 < offer.amount ∧
      offer.amount.toNat < 2 ^ 63 ∧ offer.minPrice ≤ Price.maxPrice)
    (hfresh : FreshRun first (rs ++ [r])) (hnumber : n < r.number) :
    AfterRounds ob₂ first n (rs ++ [r]) := by
  have hrun : ob₁.committedOffers.offers = runRounds first rs := hbook.trans h.book
  obtain ⟨thunk, hthunk, hrec⟩ := hacts.thunk
  obtain ⟨older, newer, hthunks, hnewer, hold, hnew⟩ := h.thunks
  rw [hrun] at hrec
  refine ⟨validRun_append h.valid ⟨hcreated, hrun ▸ hacts.cancelled, hrun ▸ hacts.partialExec⟩,
    hfresh, ?_, hacts.unmarked, ?_, ?_⟩
  · rw [hacts.book, hrun, runRounds_append]
    rfl
  · refine ⟨older, newer ++ [thunk], ?_, recordedRun_append hnewer hrec, hold, fun t ht => ?_⟩
    · rw [hthunk, hlmdb, hthunks, List.append_assoc]
    · rcases List.mem_append.mp ht with ht | ht
      · exact hnew t ht
      · rw [List.mem_singleton.mp ht, hrec.number]
        exact hnumber
  · rw [hacts.persisted, hlmdb]
    exact h.persisted

/-- Rewinding to block `n` restores the book of block `n`, when every round since then found the
offers that it cancelled, cleared or partially executed as they were in block `n`. -/
theorem rollbackThunks_exact (ob : Orderbook) (first : Book) (n : UInt64) (rs : List Round)
    (h : AfterRounds ob first n rs) (hfinds : FindsAsInRun first first rs) :
    ∃ ob', ob.rollbackThunks n = .ok ob' ∧ ob'.committedOffers.offers = first := by
  obtain ⟨older, newer, hthunks, hrec, hold, hnew⟩ := h.thunks
  have hundone : ob.lmdb.thunks.filter (fun thunk => decide (thunk.currentBlockNumber > n)) =
      newer := by
    rw [hthunks, List.filter_append, List.filter_eq_nil_iff.mpr, List.nil_append,
      List.filter_eq_self.mpr]
    · intro thunk ht
      exact decide_eq_true (hnew thunk ht)
    · intro thunk ht
      simpa using hold thunk ht
  refine ⟨_, if_neg (not_lt.mpr h.persisted), SortedMap.ext_find fun k => ?_⟩
  simp only [hundone]
  rcases undoThunks_find? h.unmarked h.valid hrec hfinds h.fresh.notInBook k with
    hfirst | ⟨hsame, huntouched⟩
  · exact hfirst
  · rw [hsame, h.book, find?_runRounds_of_untouched huntouched]

/-- A book with one committed offer and no thunks. -/
def oneOfferBook (offer : Offer) : Orderbook where
  category := offer.category
  committedOffers := OrderbookTrie.insertOffer ∅ offer.key offer
  uncommittedOffers := ∅
  lmdb := ⟨[], SortedMap.insert ∅ offer.key offer, 0⟩
  indexedMetadata := []

/-- Produce two blocks that each take some of the lowest offer, and rewind to before both. -/
def clearTwiceThenRewind (ob : Orderbook) (first second : BitVec 128) : Result Orderbook := do
  let ob ← ob.commitForProduction 1 false
  let (ob, s, _) ← ob.processClearOffers ⟨.ofAccount 7, ∅, []⟩ (.fromIntegral first) [1, 1] 10
  let ob ← ob.commitForProduction 2 false
  let (ob, _, _) ← ob.processClearOffers s (.fromIntegral second) [1, 1] 10
  ob.rollbackThunks 0

/-- An offer of 100 that two blocks execute partially comes back with the 50 that the second block
found. -/
theorem rollbackThunks_keeps_later_amount :
    ∃ ob', clearTwiceThenRewind (oneOfferBook (sellOffer 7 256 100 1)) 50 20 = .ok ob' ∧
      ob'.committedOffers.offers.entries =
        [((sellOffer 7 256 100 1).key, sellOffer 7 256 50 1)] ∧
      ob'.committedOffers.offers ≠
        (oneOfferBook (sellOffer 7 256 100 1)).committedOffers.offers := by
  obtain ⟨ob', hok, hob'⟩ := returns_iff.mp (show returns
    (clearTwiceThenRewind (oneOfferBook (sellOffer 7 256 100 1)) 50 20)
    (fun ob' => ob'.committedOffers.offers.entries =
      [((sellOffer 7 256 100 1).key, sellOffer 7 256 50 1)]) = true by decide +kernel)
  have hentries := of_decide_eq_true hob'
  refine ⟨ob', hok, hentries, fun heq => ?_⟩
  rw [heq] at hentries
  exact absurd hentries (by decide +kernel)

/-! ### A run of three blocks -/

/-- One block that adds offers, cancels offers and clears up to a supply. -/
def produceBlock (ob : Orderbook) (n : UInt64) (created : List Offer) (cancelled : List OfferKey)
    (supply : BitVec 128) : Result Orderbook := do
  let ob := ob.addOffers (created.foldl (fun t offer => t.insertOffer offer.key offer) ∅)
  let ob := cancelled.foldl (fun ob key => (ob.markForDeletion key).2) ob
  let ob ← ob.commitForProduction n false
  let (ob, _, _) ← ob.processClearOffers ⟨.ofAccount 7, ∅, []⟩ (.fromIntegral supply) [1, 1] 10
  return ob

/-- A book without offers or thunks. -/
def emptyBook (category : OfferCategory) : Orderbook := ⟨category, ∅, ∅, ⟨[], ∅, 0⟩, []⟩

/-- A book of these offers. -/
def bookOfOffers (offers : List Offer) : Book :=
  SortedMap.insertAll ∅ (offers.map fun offer => (offer.key, offer))

/-- The offers of the first block, which clears none of them. -/
def firstOffers : List Offer :=
  [sellOffer 7 256 100 1, sellOffer 7 257 50 2, sellOffer 7 258 80 3, sellOffer 7 259 30 4]

/-- The second block adds an offer and clears it with two old ones.  The third adds one, cancels one
and takes 30 of the 80 units of the lowest that is left. -/
def threeBlocks : Result Orderbook := do
  let ob ← (emptyBook ⟨0, 1, .SELL⟩).produceBlock 1 firstOffers [] 0
  let ob ← ob.produceBlock 2 [sellOffer 7 512 20 1] [] 170
  ob.produceBlock 3 [sellOffer 7 768 40 5] [(sellOffer 7 259 30 4).key] 30

def laterRounds : List Round :=
  [⟨2, bookOfOffers [sellOffer 7 512 20 1], [], .upTo (sellOffer 7 258 80 3).key 0⟩,
    ⟨3, bookOfOffers [sellOffer 7 768 40 5], [(sellOffer 7 259 30 4).key],
      .upTo (sellOffer 7 258 80 3).key 30⟩]

theorem rollbackThunks_exact_threeBlocks :
    ∃ ob ob', threeBlocks = .ok ob ∧
      ob.committedOffers.offers = bookOfOffers [sellOffer 7 258 50 3, sellOffer 7 768 40 5] ∧
      ob.rollbackThunks 1 = .ok ob' ∧ ob'.committedOffers.offers = bookOfOffers firstOffers := by
  obtain ⟨ob, hok, hvalues⟩ := returns_iff.mp (show returns threeBlocks (fun ob =>
      ob.committedOffers.offers = bookOfOffers [sellOffer 7 258 50 3, sellOffer 7 768 40 5] ∧
      ob.committedOffers.Unmarked ∧ (∀ thunk ∈ ob.lmdb.thunks.take 1, thunk.currentBlockNumber ≤ 1) ∧
      (∀ thunk ∈ ob.lmdb.thunks.drop 1, 1 < thunk.currentBlockNumber) ∧
      RecordedRun (bookOfOffers firstOffers) laterRounds (ob.lmdb.thunks.drop 1) ∧
      ob.lmdb.persistedRoundNumber ≤ 1) = true by decide +kernel)
  obtain ⟨hbook, hunmarked, hold, hnew, hrec, hpersisted⟩ := of_decide_eq_true hvalues
  have hvalid : ValidRun (bookOfOffers firstOffers) laterRounds := by decide +kernel
  have hfresh : FreshRun (bookOfOffers firstOffers) laterRounds := by decide +kernel
  have hrun : bookOfOffers [sellOffer 7 258 50 3, sellOffer 7 768 40 5] =
      runRounds (bookOfOffers firstOffers) laterRounds := by decide +kernel
  have hafter : AfterRounds ob (bookOfOffers firstOffers) 1 laterRounds :=
    ⟨hvalid, hfresh, hbook.trans hrun, hunmarked,
      ⟨_, _, (List.take_append_drop 1 _).symm, hrec, hold, hnew⟩, hpersisted⟩
  obtain ⟨ob', hrollback, hfirst⟩ :=
    rollbackThunks_exact ob (bookOfOffers firstOffers) 1 laterRounds hafter (by decide +kernel)
  exact ⟨ob, ob', hok, hbook, hrollback, hfirst⟩

end Orderbook

end Speedex
