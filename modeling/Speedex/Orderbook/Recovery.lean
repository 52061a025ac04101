import Speedex.Orderbook.PersistExact
import Speedex.Orderbook.Rewind

/-! What a restart finds on disk.  `write_thunks` can bring back an offer that a block cleared with
the whole book, and can lose an offer that was created below one that was cancelled later. -/

namespace Speedex

open Lib

namespace OrderbookLMDB

open Orderbook (sellOffer oneOfferBook emptyBook produceBlock bookOfOffers)

variable {book : Book} {r : Round} {rs : List Round} {k : OfferKey} {later : List OfferKey}

theorem clearsBelow_iff : ¬ ClearsAll r ∧ ¬ ClearsBelow k r ↔
    ∃ key amount, r.clearing = .upTo key amount ∧ key ≤ k := by
  unfold ClearsAll ClearsBelow
  cases r.clearing with
  | everything => simp
  | upTo key amount => simp

/-- An offer that phase 3 inserts comes only to rounds with a threshold at or below its key. -/
theorem Inserted.threshold_le {P : Round → Prop} {v offer : Offer} (hf : FreshRun book rs)
    (hk : book.find? k = none) (hins : Inserted later k v rs) (hcomes : ComesTo P k offer book rs) :
    ∃ r ∈ rs, P r ∧ r.thresholdKey ≤ k := by
  induction rs generalizing book with
  | nil => exact absurd hins id
  | cons r rs ih =>
    rcases hins with ⟨hcreated, hpass⟩ | hins
    · have hle := maxThreshold_le.mp (hpass k v hcreated le_rfl).1
      obtain ⟨r', hr', hP⟩ := hcomes.exists_round
      exact ⟨r', hr', hP, hle r' hr'⟩
    · have hcreated : r.created.find? k = none := by
        obtain ⟨r', hr', hcreated'⟩ := hins.created
        by_contra hsome
        obtain ⟨o, ho⟩ := Option.ne_none_iff_exists'.mp hsome
        rw [(List.pairwise_cons.mp hf.notTwice).1 r' hr' k o ho] at hcreated'
        cases hcreated'
      have hm : r.mergedAt k (book.find? k) = none := by
        rw [Round.mergedAt, hcreated, hk, ite_self]
        rfl
      rcases hcomes with ⟨-, hm'⟩ | hcomes
      · rw [hm] at hm'
        cases hm'
      · obtain ⟨r', hr', hP⟩ := ih hf.tail (after_of_mergedAt_none hm) hins hcomes
        exact ⟨r', List.mem_cons_of_mem _ hr', hP⟩

/-- Phase 3 inserts a new offer under the greatest key, unless it is cancelled. -/
theorem inserted_max {v : Offer} (hr : r ∈ rs) (hk : r.created.find? .max = some v)
    (hlater : .max ∉ later) : Inserted later .max v rs := by
  induction rs with
  | nil => exact absurd hr List.not_mem_nil
  | cons r' rs ih =>
    rcases List.mem_cons.mp hr with rfl | hr
    · refine .inl ⟨hk, fun k' _ _ hle => ?_⟩
      rw [le_antisymm k'.le_max hle]
      exact ⟨OfferKey.le_max _, hlater⟩
    · exact .inr (ih hr)

/-- Phase 3 inserts a new offer that is there at the end, when no offer of its round above it is
cancelled. -/
theorem inserted_of_alive {offer : Offer} (hv : ValidRun book rs) (hf : FreshRun book rs)
    (hk : book.find? k = none) (hfinal : (runRounds book rs).find? k = some offer)
    (hlater : ∀ r ∈ rs, ∀ k' o, r.created.find? k' = some o → k ≤ k' → r.created.contains k = true →
      k' ∉ later) : ∃ v, Inserted later k v rs := by
  induction rs generalizing book with
  | nil =>
    change book.find? k = some offer at hfinal
    rw [hk] at hfinal
    cases hfinal
  | cons r rs ih =>
    cases hm : r.mergedAt k (book.find? k) with
    | none =>
      obtain ⟨v, hins⟩ := ih hv.2 hf.tail (after_of_mergedAt_none hm) hfinal
        fun r' hr' => hlater r' (List.mem_cons_of_mem _ hr')
      exact ⟨v, .inr hins⟩
    | some v =>
      have hcreated : r.created.find? k = some v := by
        rw [Round.mergedAt, hk, ite_self, Option.or_none] at hm
        exact hm
      have hle : maxThreshold (r :: rs) ≤ k := by
        refine maxThreshold_le.mpr fun r' hr' => ?_
        obtain ⟨key, amount, hc, hle⟩ := clearsBelow_iff.mp (alive hv hf hm hfinal r' hr')
        rw [Round.thresholdKey, hc]
        exact hle
      refine ⟨v, .inl ⟨hcreated, fun k' o hk' hkk' => ⟨hle.trans hkk', ?_⟩⟩⟩
      refine hlater r List.mem_cons_self k' o hk' hkk' ?_
      rw [SortedMap.contains, hcreated]
      rfl

/-- Phase 3 stops at an offer that is cancelled later, and does not come to those below it. -/
theorem not_inserted_of_later {k' : OfferKey} {v offer offer' : Offer}
    (htwice : rs.Pairwise fun r r' => ∀ k offer, r.created.find? k = some offer →
      r'.created.find? k = none)
    (hr : r ∈ rs) (hk : r.created.find? k = some offer) (hk' : r.created.find? k' = some offer')
    (hle : k ≤ k') (hlater : k' ∈ later) : ¬ Inserted later k v rs := by
  induction rs with
  | nil => exact id
  | cons r' rs ih =>
    obtain ⟨hfirst, htwice⟩ := List.pairwise_cons.mp htwice
    rintro (⟨hcreated, hpass⟩ | hins)
    · rcases List.mem_cons.mp hr with rfl | hr
      · exact (hpass k' offer' hk' hle).2 hlater
      · rw [hfirst r hr k v hcreated] at hk
        cases hk
    · rcases List.mem_cons.mp hr with rfl | hr
      · obtain ⟨r₂, hr₂, hcreated⟩ := hins.created
        rw [hfirst r₂ hr₂ k offer hk] at hcreated
        cases hcreated
      · exact ih htwice hr hins

/-- Phase 5 finds an offer that was executed partially and then cleared with the book. -/
theorem clearedAfterPartial_of_comesTo {offer : Offer} {amount : UInt64} (hv : ValidRun book rs)
    (hf : FreshRun book rs) (hcomes : ComesTo ClearsAll k offer book rs) (hk : k ≠ .max)
    (hr : r ∈ rs) (hc : r.clearing = .upTo k amount) : ClearedAfterPartial k rs := by
  induction rs generalizing book with
  | nil => exact absurd hr List.not_mem_nil
  | cons r' rs ih =>
    rcases hcomes with ⟨hall, hm⟩ | hcomes
    · have hnone : (r'.after book).find? k = none := by
        rw [Round.find?_after, Round.afterAt, show r'.clearing = .everything from hall]
        rfl
      have hrest := (gone_untouched hv.2 hnone (hf.of_mergedAt hm).2).2
      rcases List.mem_cons.mp hr with rfl | hr
      · rw [show r.clearing = .everything from hall] at hc
        cases hc
      · exact absurd hc ((hrest r hr).2 amount)
    · rcases List.mem_cons.mp hr with rfl | hr
      · obtain ⟨r', hr', hall⟩ := hcomes.exists_round
        refine .inl ⟨⟨amount, hc⟩, r', hr', ?_⟩
        rw [Round.thresholdKey, show r'.clearing = .everything from hall]
        exact lt_of_le_of_ne k.le_max hk
      · exact .inr (ih hv.2 hf.tail hcomes hr)

/-- Phase 5 leaves alone an offer that is there at the end. -/
theorem not_clearedAfterPartial_of_alive {offer : Offer} (hv : ValidRun book rs)
    (hf : FreshRun book rs) (hfinal : (runRounds book rs).find? k = some offer) :
    ¬ ClearedAfterPartial k rs := by
  induction rs generalizing book with
  | nil => exact id
  | cons r rs ih =>
    rintro (⟨⟨amount, hc⟩, r', hr', hlt⟩ | hrest)
    · obtain ⟨o, hm, -⟩ := hv.1.partialExec k amount hc
      rw [Round.find?_merged] at hm
      obtain ⟨key, amount', hc', hle⟩ := clearsBelow_iff.mp
        (alive hv hf hm hfinal r' (List.mem_cons_of_mem _ hr'))
      rw [Round.thresholdKey, hc'] at hlt
      exact absurd hlt (not_lt.mpr hle)
    · exact ih hv.2 hf.tail hfinal hrest

/-- Phases 1 and 2 keep an offer of the disk that is there at the end. -/
theorem kept_of_alive {v offer : Offer} (hv : ValidRun book rs) (hf : FreshRun book rs)
    (hne : rs ≠ []) (hk : book.find? k = some v)
    (hfinal : (runRounds book rs).find? k = some offer) : Kept rs k := by
  have hnot := not_cancelled_of_alive hv hf hfinal
  cases rs with
  | nil => exact absurd rfl hne
  | cons r rs =>
    obtain ⟨o, hm⟩ : ∃ o, r.mergedAt k (book.find? k) = some o := by
      rw [Round.mergedAt, if_neg (hnot r List.mem_cons_self), hk]
      cases r.created.find? k with
      | none => exact ⟨v, rfl⟩
      | some o => exact ⟨o, rfl⟩
    have halive := alive hv hf hm hfinal
    exact ⟨hnot, fun r' hr' => (halive r' hr').2, r, List.mem_cons_self,
      (halive r List.mem_cons_self).1⟩

theorem ClearedAfterPartial.ne_max (h : ClearedAfterPartial k rs) :
    k ≠ .max ∧ ∃ r ∈ rs, ∃ amount, r.clearing = .upTo k amount := by
  induction rs with
  | nil => exact absurd h id
  | cons r rs ih =>
    rcases h with ⟨hc, r', hr', hlt⟩ | h
    · refine ⟨?_, r, List.mem_cons_self, hc⟩
      rintro rfl
      exact absurd hlt (not_lt.mpr r'.thresholdKey.le_max)
    · obtain ⟨hne, r', hr', hc⟩ := ih h
      exact ⟨hne, r', List.mem_cons_of_mem _ hr', hc⟩

/-! ### Offers that come back -/

/-- A deletion on disk reaches an offer that a block cleared with the whole book.  For one that was
on disk before the run, all blocks clear the whole book, or one clears below a key above it, or one
executes it partially.  No threshold is above the greatest key. -/
def Reached (disk : Book) (rs : List Round) (k : OfferKey) : Prop :=
  (disk.find? k = none → k ≠ .max) ∧
    (disk.find? k ≠ none → (∀ r ∈ rs, ClearsAll r) ∨ (∃ r ∈ rs, ClearsBelow k r) ∨
      (k ≠ .max ∧ ∃ r ∈ rs, ∃ amount, r.clearing = .upTo k amount))

def ClearsReachDisk (disk : Book) (rs : List Round) : Prop :=
  ∀ k offer, ComesTo ClearsAll k offer disk rs → Reached disk rs k

theorem not_inserted_of_disk {disk : Book} (hf : FreshRun disk rs) (hk : disk.find? k ≠ none)
    (offer : Offer) : ¬ Inserted later k offer rs := by
  intro hins
  obtain ⟨-, r, hr, hcreated⟩ := hins.passes
  exact hk (hf.notInBook r hr k offer hcreated)

/-- What is on disk is what the partial executions leave of the offer. -/
theorem Written.eq_partialsAt {disk disk' : Book} (h : Written disk disk' rs later)
    (hf : FreshRun disk rs) {offer : Offer} (hk : disk'.find? k = some offer) :
    partialsAt k rs (pending k disk rs) = some offer ∧ ¬ ClearedAfterPartial k rs ∧
      ((∃ v, Inserted later k v rs) ∨ (Kept rs k ∧ disk.find? k ≠ none)) := by
  have hnot : ¬ ClearedAfterPartial k rs := by
    intro hc
    rw [h.clearedAfterPartial k hc] at hk
    cases hk
  by_cases hins : ∃ v, Inserted later k v rs
  · obtain ⟨v, hins⟩ := hins
    obtain ⟨-, r, hr, hcreated⟩ := hins.passes
    rw [h.inserted k v hnot hins, ← (pending_of_created hf hr hcreated).2] at hk
    exact ⟨hk, hnot, .inl ⟨v, hins⟩⟩
  · have hins := not_exists.mp hins
    by_cases hkept : Kept rs k
    · rw [h.kept k hnot hins hkept] at hk
      cases hdisk : disk.find? k with
      | none =>
        rw [hdisk, partialsAt_none] at hk
        cases hk
      | some v =>
        refine ⟨?_, hnot, .inr ⟨hkept, by simp⟩⟩
        rw [pending, hdisk, Option.some_or, ← hdisk, hk]
    · rw [h.dropped k hins hkept] at hk
      cases hk

/-- An offer that was taken out is on disk only if it was cleared with the whole book and no
deletion reached it. -/
theorem Written.gone {disk disk' : Book} (h : Written disk disk' rs later)
    (hv : ValidRun disk rs) (hf : FreshRun disk rs) (hreach : ClearsReachDisk disk rs)
    (hout : TakenOut k disk rs) (offer : Offer) : disk'.find? k ≠ some offer := by
  intro hk
  obtain ⟨-, hnot, hwhy⟩ := h.eq_partialsAt hf hk
  rcases hout with ⟨r, hr, hcancelled⟩ | ⟨o, hcomes⟩ | ⟨o, hcomes⟩
  · rcases hwhy with ⟨v, hins⟩ | ⟨hkept, -⟩
    · obtain ⟨hlater, r', hr', hcreated⟩ := hins.passes
      exact hlater ((h.later_iff k (hf.notInBook r' hr' k v hcreated)).mpr ⟨r, hr, hcancelled⟩)
    · exact hkept.notCancelled r hr hcancelled
  · rcases hwhy with ⟨v, hins⟩ | ⟨hkept, -⟩
    · obtain ⟨-, r', hr', hcreated⟩ := hins.passes
      obtain ⟨r, -, ⟨key, amount, hc, hlt⟩, hle⟩ :=
        hins.threshold_le hf (hf.notInBook r' hr' k v hcreated) hcomes
      rw [Round.thresholdKey, hc] at hle
      exact absurd hlt (not_lt.mpr hle)
    · obtain ⟨r, hr, hbelow⟩ := hcomes.exists_round
      exact hkept.notBelow r hr hbelow
  · obtain ⟨hnew, hold⟩ := hreach k o hcomes
    rcases hwhy with ⟨v, hins⟩ | ⟨hkept, hdisk⟩
    · obtain ⟨-, r', hr', hcreated⟩ := hins.passes
      have hnone := hf.notInBook r' hr' k v hcreated
      obtain ⟨r, -, hall, hle⟩ := hins.threshold_le hf hnone hcomes
      rw [Round.thresholdKey, show r.clearing = .everything from hall] at hle
      exact hnew hnone (le_antisymm k.le_max hle)
    · rcases hold hdisk with hall | ⟨r, hr, hbelow⟩ | ⟨hne, r, hr, amount, hc⟩
      · obtain ⟨r, hr, hnall⟩ := hkept.someUpTo
        exact hnall (hall r hr)
      · exact hkept.notBelow r hr hbelow
      · exact hnot (clearedAfterPartial_of_comesTo hv hf hcomes hne hr hc)

/-- An offer that was cleared with the whole book and that no deletion reaches is on disk. -/
theorem Written.resurrected {disk disk' : Book} (h : Written disk disk' rs later)
    (hv : ValidRun disk rs) (hf : FreshRun disk rs) {offer : Offer}
    (hcomes : ComesTo ClearsAll k offer disk rs) (hnot : ¬ Reached disk rs k) :
    disk'.find? k = some offer := by
  obtain ⟨-, hpart, hcancelled⟩ := hcomes.clearsAll hv hf
  cases hdisk : disk.find? k with
  | none =>
    have hmax : k = .max := by
      by_contra hne
      exact hnot ⟨fun _ => hne, fun hsome => absurd hdisk hsome⟩
    subst hmax
    have hcleared : ¬ ClearedAfterPartial .max rs := fun hc => hc.ne_max.1 rfl
    rw [pending, hdisk, Option.none_or] at hpart
    cases hcreated : rs.findSome? fun r => r.created.find? .max with
    | none =>
      rw [hcreated, partialsAt_none] at hpart
      cases hpart
    | some v =>
      obtain ⟨r, hr, hrk⟩ := List.exists_of_findSome?_eq_some hcreated
      have hins : Inserted later .max v rs := by
        refine inserted_max hr hrk fun hmem => ?_
        obtain ⟨r', hr', hc⟩ := (h.later_iff _ hdisk).mp hmem
        exact hcancelled r' hr' hc
      rw [h.inserted _ v hcleared hins, ← hcreated, hpart]
  | some v =>
    have hsome : disk.find? k ≠ none := by simp [hdisk]
    have hnot' : ¬ ((∀ r ∈ rs, ClearsAll r) ∨ (∃ r ∈ rs, ClearsBelow k r) ∨
        (k ≠ .max ∧ ∃ r ∈ rs, ∃ amount, r.clearing = .upTo k amount)) :=
      fun hor => hnot ⟨fun hnone => absurd hnone hsome, fun _ => hor⟩
    simp only [not_or, not_forall, not_exists, not_and] at hnot'
    obtain ⟨⟨r, hr, hnall⟩, hbelow, hpartial⟩ := hnot'
    have hcleared : ¬ ClearedAfterPartial k rs := by
      intro hc
      obtain ⟨hne, r', hr', amount, hc'⟩ := hc.ne_max
      exact hpartial hne r' hr' amount hc'
    rw [h.kept k hcleared (not_inserted_of_disk hf hsome) ⟨hcancelled, hbelow, r, hr, hnall⟩]
    rw [pending, hdisk, Option.some_or, ← hdisk] at hpart
    exact hpart

theorem unpersisted_nil {lmdb : OrderbookLMDB} {n : UInt64} (h : Unpersisted lmdb n []) :
    ∃ lmdb', lmdb.writeThunks n = .ok lmdb' ∧ lmdb'.data = runRounds lmdb.data [] := by
  obtain ⟨relevant, rest, hthunks, hrec, -, hrest⟩ := h.thunks
  cases hrec
  have hfilter : lmdb.thunks.filter (·.currentBlockNumber ≤ n) = [] := by
    rw [hthunks, List.nil_append, List.filter_eq_nil_iff]
    intro thunk ht
    simpa using hrest thunk ht
  refine ⟨{ lmdb with thunks := lmdb.thunks.filter (·.currentBlockNumber > n) }, ?_, rfl⟩
  rw [writeThunks, hfilter]

/-- Every offer that `write_thunks` leaves on disk is in the book, exactly when the deletions on
disk reach every offer that was cleared with the whole book. -/
theorem writeThunks_no_resurrection_iff (lmdb : OrderbookLMDB) (n : UInt64) (rs : List Round)
    (h : Unpersisted lmdb n rs) :
    (∃ lmdb', lmdb.writeThunks n = .ok lmdb' ∧ ∀ k offer, lmdb'.data.find? k = some offer →
        (runRounds lmdb.data rs).find? k = some offer) ↔ ClearsReachDisk lmdb.data rs := by
  by_cases hne : rs = []
  · subst hne
    obtain ⟨lmdb', hok, hdata⟩ := unpersisted_nil h
    refine iff_of_true ⟨lmdb', hok, fun k offer hk => hdata ▸ hk⟩ ?_
    exact fun k offer hcomes => absurd hcomes id
  obtain ⟨lmdb', later, hok, hwritten⟩ := writeThunks_written h hne
  constructor
  · rintro ⟨lmdb'', hok', hsame⟩ k offer hcomes
    rw [hok] at hok'
    cases hok'
    by_contra hnot
    have hfinal := hsame k offer (hwritten.resurrected h.valid h.fresh hcomes hnot)
    rw [(hcomes.clearsAll h.valid h.fresh).1] at hfinal
    cases hfinal
  · intro hreach
    refine ⟨lmdb', hok, fun k offer hk => ?_⟩
    rcases fate h.valid h.fresh k with hfinal | ⟨-, hout⟩
    · rw [hfinal, (hwritten.eq_partialsAt h.fresh hk).1]
    · exact absurd hk (hwritten.gone h.valid h.fresh hreach hout offer)

/-- A book whose disk is as old as the run has what `write_thunks` needs. -/
theorem unpersisted_of_afterRounds {ob : Orderbook} {n : UInt64}
    (h : Orderbook.AfterRounds ob ob.lmdb.data ob.lmdb.persistedRoundNumber rs)
    (hamounts : Amounts ob.lmdb.data)
    (hthunks : ∀ thunk ∈ ob.lmdb.thunks, ob.lmdb.persistedRoundNumber < thunk.currentBlockNumber ∧
      thunk.currentBlockNumber ≤ n) :
    Unpersisted ob.lmdb n rs ∧ ob.committedOffers.offers = runRounds ob.lmdb.data rs := by
  obtain ⟨older, newer, hsplit, hrec, hold, -⟩ := h.thunks
  have hnone : older = [] := by
    refine List.eq_nil_iff_forall_not_mem.mpr fun thunk ht => ?_
    have hlt := (hthunks thunk (by rw [hsplit]; exact List.mem_append_left _ ht)).1
    exact absurd hlt (not_lt.mpr (hold thunk ht))
  rw [hnone, List.nil_append] at hsplit
  exact ⟨⟨h.valid, h.fresh, hamounts, newer, [], by rw [hsplit, List.append_nil], hrec,
    hsplit ▸ hthunks, nofun⟩, h.book⟩

/-- Two blocks, and then `write_thunks`: the book in memory, and the disk. -/
def produceTwiceThenPersist (ob : Orderbook) (first second : Orderbook → Result Orderbook) :
    Result (Book × Book) := do
  let ob ← first ob
  let ob ← second ob
  let lmdb ← ob.lmdb.writeThunks 2
  return (ob.committedOffers.offers, lmdb.data)

/-- The first block clears the only offer, the second adds an offer below it and clears nothing:
the cleared offer is on disk again. -/
theorem writeThunks_resurrects :
    ∃ memory disk, produceTwiceThenPersist (oneOfferBook (sellOffer 7 256 100 2))
        (produceBlock · 1 [] [] 100)
        (produceBlock · 2 [sellOffer 7 512 100 1] [] 0) = .ok (memory, disk) ∧
      memory.entries = [((sellOffer 7 512 100 1).key, sellOffer 7 512 100 1)] ∧
      disk.entries = [((sellOffer 7 512 100 1).key, sellOffer 7 512 100 1),
        ((sellOffer 7 256 100 2).key, sellOffer 7 256 100 2)] ∧
      ¬ ∀ k offer, disk.find? k = some offer → memory.find? k = some offer := by
  obtain ⟨⟨memory, disk⟩, hok, hp⟩ := returns_iff.mp (show returns
    (produceTwiceThenPersist (oneOfferBook (sellOffer 7 256 100 2))
        (produceBlock · 1 [] [] 100)
        (produceBlock · 2 [sellOffer 7 512 100 1] [] 0))
    (fun p => p.1.entries =
        [((sellOffer 7 512 100 1).key, sellOffer 7 512 100 1)] ∧
      p.2.entries = [((sellOffer 7 512 100 1).key, sellOffer 7 512 100 1),
        ((sellOffer 7 256 100 2).key, sellOffer 7 256 100 2)]) = true
    by decide +kernel)
  obtain ⟨hmemory, hdisk⟩ := of_decide_eq_true hp
  refine ⟨memory, disk, hok, hmemory, hdisk, fun hall => ?_⟩
  have hfind := hall (sellOffer 7 256 100 2).key (sellOffer 7 256 100 2)
    (SortedMap.mem_entries.mp (by rw [hdisk]; exact List.mem_cons_of_mem _ List.mem_cons_self))
  have hmem := SortedMap.mem_entries.mpr hfind
  rw [hmemory] at hmem
  exact absurd hmem (by decide +kernel)

/-- Three blocks on a book of one offer, which is on disk.  The first adds an offer and clears both,
the second adds two and clears the lower one, and the third adds two, cancels the one that was left
and takes 20 of the 30 units of the lowest. -/
def unpersistedBlocks : Result Orderbook := do
  let ob ← (oneOfferBook (sellOffer 7 256 100 2)).produceBlock 1 [sellOffer 7 512 20 1] [] 120
  let ob ← ob.produceBlock 2 [sellOffer 7 513 80 3, sellOffer 7 514 10 6] [] 80
  ob.produceBlock 3 [sellOffer 7 515 40 5, sellOffer 7 516 30 4] [(sellOffer 7 514 10 6).key] 20

def unpersistedRounds : List Round :=
  [⟨1, bookOfOffers [sellOffer 7 512 20 1], [], .everything⟩,
    ⟨2, bookOfOffers [sellOffer 7 513 80 3, sellOffer 7 514 10 6], [],
      .upTo (sellOffer 7 514 10 6).key 0⟩,
    ⟨3, bookOfOffers [sellOffer 7 515 40 5, sellOffer 7 516 30 4], [(sellOffer 7 514 10 6).key],
      .upTo (sellOffer 7 516 30 4).key 20⟩]

theorem unpersisted_unpersistedBlocks :
    ∃ ob, unpersistedBlocks = .ok ob ∧
      ob.committedOffers.offers = bookOfOffers [sellOffer 7 516 10 4, sellOffer 7 515 40 5] ∧
      ob.lmdb.data = bookOfOffers [sellOffer 7 256 100 2] ∧
      Unpersisted ob.lmdb 3 unpersistedRounds ∧
      ob.committedOffers.offers = runRounds ob.lmdb.data unpersistedRounds := by
  obtain ⟨ob, hok, hvalues⟩ := returns_iff.mp (show returns unpersistedBlocks (fun ob =>
      ob.committedOffers.offers = bookOfOffers [sellOffer 7 516 10 4, sellOffer 7 515 40 5] ∧
      ob.committedOffers.Unmarked ∧ ob.lmdb.data = bookOfOffers [sellOffer 7 256 100 2] ∧
      ob.lmdb.persistedRoundNumber = 0 ∧
      (∀ thunk ∈ ob.lmdb.thunks, 0 < thunk.currentBlockNumber ∧ thunk.currentBlockNumber ≤ 3) ∧
      RecordedRun (bookOfOffers [sellOffer 7 256 100 2]) unpersistedRounds ob.lmdb.thunks) = true
    by decide +kernel)
  obtain ⟨hbook, hunmarked, hdata, hpersisted, hthunks, hrec⟩ := of_decide_eq_true hvalues
  have hvalid : ValidRun (bookOfOffers [sellOffer 7 256 100 2]) unpersistedRounds := by
    decide +kernel
  have hfresh : FreshRun (bookOfOffers [sellOffer 7 256 100 2]) unpersistedRounds := by
    decide +kernel
  have hamounts : Amounts (bookOfOffers [sellOffer 7 256 100 2]) := by
    unfold Amounts
    decide +kernel
  have hrun : bookOfOffers [sellOffer 7 516 10 4, sellOffer 7 515 40 5] =
      runRounds (bookOfOffers [sellOffer 7 256 100 2]) unpersistedRounds := by decide +kernel
  have hafter : Orderbook.AfterRounds ob ob.lmdb.data ob.lmdb.persistedRoundNumber
      unpersistedRounds := by
    rw [hdata, hpersisted]
    exact ⟨hvalid, hfresh, hbook.trans hrun, hunmarked,
      ⟨[], _, rfl, hrec, nofun, fun thunk ht => (hthunks thunk ht).1⟩, hpersisted.le⟩
  obtain ⟨hunpersisted, hmemory⟩ := unpersisted_of_afterRounds (n := 3) hafter (hdata ▸ hamounts)
    (hpersisted ▸ hthunks)
  exact ⟨ob, hok, hbook, hdata, hunpersisted, hmemory⟩

/-- Neither the offers that were cleared nor the one that was cancelled are brought back. -/
theorem writeThunks_no_resurrection_threeBlocks :
    ∃ ob lmdb', unpersistedBlocks = .ok ob ∧ ob.lmdb.writeThunks 3 = .ok lmdb' ∧
      ob.committedOffers.offers = bookOfOffers [sellOffer 7 516 10 4, sellOffer 7 515 40 5] ∧
      ∀ k offer, lmdb'.data.find? k = some offer →
        ob.committedOffers.offers.find? k = some offer := by
  obtain ⟨ob, hok, hbook, hdata, hunpersisted, hmemory⟩ := unpersisted_unpersistedBlocks
  have hreach : ClearsReachDisk ob.lmdb.data unpersistedRounds := by
    rw [hdata]
    intro k offer hcomes
    have hfirst : ∀ r ∈ unpersistedRounds.tail, ¬ ClearsAll r := by
      unfold ClearsAll
      decide +kernel
    have hnew : (bookOfOffers [sellOffer 7 512 20 1]).find? .max = none := by decide +kernel
    have hbelow : ∀ k offer, (bookOfOffers [sellOffer 7 256 100 2]).find? k = some offer →
        k < (sellOffer 7 514 10 6).key := by decide +kernel
    rcases hcomes with ⟨-, hm⟩ | ⟨hall, -⟩ | ⟨hall, -⟩ | hcomes
    · refine ⟨fun hnone hmax => ?_, fun hsome => .inr (.inl ?_)⟩
      · rw [hnone, hmax, Round.mergedAt, hnew, ite_self] at hm
        cases hm
      · obtain ⟨old, hold⟩ := Option.ne_none_iff_exists'.mp hsome
        exact ⟨_, List.mem_cons_of_mem _ List.mem_cons_self, _, _, rfl, hbelow k old hold⟩
    · exact absurd hall (hfirst _ List.mem_cons_self)
    · exact absurd hall (hfirst _ (List.mem_cons_of_mem _ List.mem_cons_self))
    · exact absurd hcomes id
  obtain ⟨lmdb', hwrite, hsame⟩ :=
    (writeThunks_no_resurrection_iff ob.lmdb 3 unpersistedRounds hunpersisted).mpr hreach
  rw [← hmemory] at hsame
  exact ⟨ob, lmdb', hok, hwrite, hbook, hsame⟩

/-! ### Offers that get lost -/

/-- No offer that is there at the end was created in one block with an offer above it that some
block cancels. -/
def NoCancelAbove (disk : Book) (rs : List Round) : Prop :=
  ∀ r ∈ rs, ∀ k k' offer offer', r.created.find? k = some offer →
    r.created.find? k' = some offer' → k < k' → (∃ r' ∈ rs, k' ∈ r'.cancelled) →
    (runRounds disk rs).find? k = none

/-- An offer of the book is on disk when no offer above it was cancelled. -/
theorem Written.stored {disk disk' : Book} (h : Written disk disk' rs later) (hne : rs ≠ [])
    (hv : ValidRun disk rs) (hf : FreshRun disk rs) (hcancel : NoCancelAbove disk rs)
    {offer : Offer} (hfinal : (runRounds disk rs).find? k = some offer) :
    disk'.find? k = some offer := by
  have hpart : partialsAt k rs (pending k disk rs) = some offer := by
    rcases fate hv hf k with hfate | ⟨hnone, -⟩
    · rw [← hfate, hfinal]
    · rw [hnone] at hfinal
      cases hfinal
  have hnot := not_cancelled_of_alive hv hf hfinal
  have hcleared := not_clearedAfterPartial_of_alive hv hf hfinal
  cases hdisk : disk.find? k with
  | none =>
    have hlater : ∀ r ∈ rs, ∀ k' o, r.created.find? k' = some o → k ≤ k' →
        r.created.contains k = true → k' ∉ later := by
      intro r hr k' o hk' hle hcontains hmem
      obtain ⟨o', ho'⟩ := Option.isSome_iff_exists.mp hcontains
      obtain ⟨r', hr', hc⟩ := (h.later_iff k' (hf.notInBook r hr k' o hk')).mp hmem
      rcases lt_or_eq_of_le hle with hlt | rfl
      · rw [hcancel r hr k k' o' o ho' hk' hlt ⟨r', hr', hc⟩] at hfinal
        cases hfinal
      · exact hnot r' hr' hc
    obtain ⟨v, hins⟩ := inserted_of_alive hv hf hdisk hfinal hlater
    obtain ⟨-, r, hr, hcreated⟩ := hins.passes
    rw [h.inserted k v hcleared hins, ← (pending_of_created hf hr hcreated).2, hpart]
  | some v =>
    have hsome : disk.find? k ≠ none := by simp [hdisk]
    rw [h.kept k hcleared (not_inserted_of_disk hf hsome) (kept_of_alive hv hf hne hdisk hfinal)]
    rw [pending, hdisk, Option.some_or, ← hdisk] at hpart
    exact hpart

/-- An offer created below one that is cancelled is not on disk. -/
theorem Written.lost {disk disk' : Book} {k' : OfferKey} {offer offer' : Offer}
    (h : Written disk disk' rs later) (hf : FreshRun disk rs) (hr : r ∈ rs)
    (hk : r.created.find? k = some offer) (hk' : r.created.find? k' = some offer') (hlt : k < k')
    (hcancelled : ∃ r' ∈ rs, k' ∈ r'.cancelled) : disk'.find? k = none := by
  have hdisk := hf.notInBook r hr k offer hk
  have hmem := (h.later_iff k' (hf.notInBook r hr k' offer' hk')).mpr hcancelled
  have hins : ∀ v, ¬ Inserted later k v rs :=
    fun _ => not_inserted_of_later hf.notTwice hr hk hk' hlt.le hmem
  by_cases hcleared : ClearedAfterPartial k rs
  · exact h.clearedAfterPartial k hcleared
  · by_cases hkept : Kept rs k
    · rw [h.kept k hcleared hins hkept, hdisk, partialsAt_none]
    · exact h.dropped k hins hkept

/-- `write_thunks` returns and every offer of the book is on disk, exactly when no offer of the
book was created in one block with an offer above it that is cancelled within the run. -/
theorem writeThunks_no_loss_iff (lmdb : OrderbookLMDB) (n : UInt64) (rs : List Round)
    (h : Unpersisted lmdb n rs) :
    (∃ lmdb', lmdb.writeThunks n = .ok lmdb' ∧ ∀ k offer,
        (runRounds lmdb.data rs).find? k = some offer → lmdb'.data.find? k = some offer) ↔
      NoCancelAbove lmdb.data rs := by
  by_cases hne : rs = []
  · subst hne
    obtain ⟨lmdb', hok, hdata⟩ := unpersisted_nil h
    refine iff_of_true ⟨lmdb', hok, fun k offer hk => hdata ▸ hk⟩ ?_
    exact fun r hr => absurd hr List.not_mem_nil
  obtain ⟨lmdb', later, hok, hwritten⟩ := writeThunks_written h hne
  constructor
  · rintro ⟨lmdb'', hok', hsame⟩ r hr k k' offer offer' hk hk' hlt hcancelled
    rw [hok] at hok'
    cases hok'
    by_contra hsome
    obtain ⟨o, ho⟩ := Option.ne_none_iff_exists'.mp hsome
    have hstored := hsame k o ho
    rw [hwritten.lost h.fresh hr hk hk' hlt hcancelled] at hstored
    cases hstored
  · intro hcancel
    exact ⟨lmdb', hok, fun k offer => hwritten.stored hne h.valid h.fresh hcancel⟩

/-- The first block adds two offers and clears nothing, the second cancels the upper one and clears
nothing: the lower one is not on disk. -/
theorem writeThunks_loses :
    ∃ memory disk, produceTwiceThenPersist (emptyBook ⟨0, 1, .SELL⟩)
        (produceBlock · 1 [sellOffer 7 256 100 1, sellOffer 7 512 100 2] [] 0)
        (produceBlock · 2 [] [(sellOffer 7 512 100 2).key] 0) = .ok (memory, disk) ∧
      memory.entries = [((sellOffer 7 256 100 1).key, sellOffer 7 256 100 1)] ∧
      disk.entries = [] ∧
      ¬ ∀ k offer, memory.find? k = some offer → disk.find? k = some offer := by
  obtain ⟨⟨memory, disk⟩, hok, hp⟩ := returns_iff.mp (show returns
    (produceTwiceThenPersist (emptyBook ⟨0, 1, .SELL⟩)
      (produceBlock · 1 [sellOffer 7 256 100 1, sellOffer 7 512 100 2] [] 0)
      (produceBlock · 2 [] [(sellOffer 7 512 100 2).key] 0))
    (fun p => p.1.entries = [((sellOffer 7 256 100 1).key, sellOffer 7 256 100 1)] ∧
      p.2.entries = []) = true
    by decide +kernel)
  obtain ⟨hmemory, hdisk⟩ := of_decide_eq_true hp
  refine ⟨memory, disk, hok, hmemory, hdisk, fun hall => ?_⟩
  have hfind := hall (sellOffer 7 256 100 1).key (sellOffer 7 256 100 1)
    (SortedMap.mem_entries.mp (by rw [hmemory]; exact List.mem_cons_self))
  have hmem := SortedMap.mem_entries.mpr hfind
  rw [hdisk] at hmem
  exact absurd hmem List.not_mem_nil

/-- Both offers are on disk. -/
theorem writeThunks_no_loss_threeBlocks :
    ∃ ob lmdb', unpersistedBlocks = .ok ob ∧ ob.lmdb.writeThunks 3 = .ok lmdb' ∧
      ob.committedOffers.offers = bookOfOffers [sellOffer 7 516 10 4, sellOffer 7 515 40 5] ∧
      ∀ k offer, ob.committedOffers.offers.find? k = some offer →
        lmdb'.data.find? k = some offer := by
  obtain ⟨ob, hok, hbook, hdata, hunpersisted, hmemory⟩ := unpersisted_unpersistedBlocks
  have hcancel : NoCancelAbove ob.lmdb.data unpersistedRounds := by
    have hcheck : ∀ r ∈ unpersistedRounds, ∀ k offer, r.created.find? k = some offer →
        ∀ k' offer', r.created.find? k' = some offer' → k < k' →
        (∃ r' ∈ unpersistedRounds, k' ∈ r'.cancelled) →
        (runRounds (bookOfOffers [sellOffer 7 256 100 2]) unpersistedRounds).find? k = none := by
      decide +kernel
    intro r hr k k' offer offer' hk hk'
    rw [hdata]
    exact hcheck r hr k offer hk k' offer' hk'
  obtain ⟨lmdb', hwrite, hsame⟩ :=
    (writeThunks_no_loss_iff ob.lmdb 3 unpersistedRounds hunpersisted).mpr hcancel
  rw [← hmemory] at hsame
  exact ⟨ob, lmdb', hok, hwrite, hbook, hsame⟩

end OrderbookLMDB

end Speedex
