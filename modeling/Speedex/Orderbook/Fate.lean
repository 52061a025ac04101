import Speedex.Orderbook.Rounds

/-! The fate of one offer over a run of rounds: it may be cancelled, cleared below a threshold,
cleared with the whole book, or only executed partially. -/

namespace Speedex

open Lib

variable {book : Book} {r : Round} {rs : List Round} {k : OfferKey}

/-- No round of the run creates an offer under `k`. -/
def NeverCreated (k : OfferKey) (rs : List Round) : Prop := ∀ r ∈ rs, r.created.find? k = none

/-- The offer under `k` that is in the book, or else the one that the run creates. -/
def pending (k : OfferKey) (book : Book) (rs : List Round) : Option Offer :=
  (book.find? k).or (rs.findSome? fun r => r.created.find? k)

/-- What the partial executions of one round leave of the offer under `k`. -/
def partialAt (k : OfferKey) (r : Round) (v : Option Offer) : Option Offer :=
  match r.clearing with
  | .everything => v
  | .upTo key amount => if key = k then v.bind (Round.leftover · amount) else v

/-- What the partial executions of a run leave of the offer under `k`. -/
def partialsAt (k : OfferKey) (rs : List Round) (v : Option Offer) : Option Offer :=
  rs.foldl (fun v r => partialAt k r v) v

/-- The offer under `k`, if it is there, comes to a round that satisfies `P` as `offer`. -/
def ComesTo (P : Round → Prop) (k : OfferKey) (offer : Offer) : Book → List Round → Prop
  | _, [] => False
  | book, r :: rs => (P r ∧ r.mergedAt k (book.find? k) = some offer) ∨
      ComesTo P k offer (r.after book) rs

/-- The round clears the whole book. -/
def ClearsAll (r : Round) : Prop := r.clearing = .everything

/-- The round clears offers with keys below a key above `k`. -/
def ClearsBelow (k : OfferKey) (r : Round) : Prop :=
  ∃ key amount, r.clearing = .upTo key amount ∧ k < key

/-! ### One round -/

/-- A round that commits no offer under `k` leaves none. -/
theorem after_of_mergedAt_none (hk : r.mergedAt k (book.find? k) = none) :
    (r.after book).find? k = none := by
  rw [Round.find?_after, Round.afterAt, hk]
  cases r.clearing with
  | everything => rfl
  | upTo key amount => simp [Round.clearedAt]

theorem FreshRun.tail (h : FreshRun book (r :: rs)) : FreshRun (r.after book) rs := by
  obtain ⟨hfirst, hrest⟩ := List.pairwise_cons.mp h.notTwice
  refine ⟨fun r' hr' k offer hk => ?_, hrest⟩
  have hold := h.notInBook r' (List.mem_cons_of_mem _ hr') k offer hk
  have hnew : r.created.find? k = none := by
    by_contra hsome
    obtain ⟨o, ho⟩ := Option.ne_none_iff_exists'.mp hsome
    rw [hfirst r' hr' k o ho] at hk
    cases hk
  refine after_of_mergedAt_none ?_
  rw [Round.mergedAt, hold, hnew, ite_self]
  rfl

/-- An offer of the book or of the first round is not created again. -/
theorem FreshRun.neverCreated (h : FreshRun book (r :: rs)) {offer : Offer}
    (hk : book.find? k = some offer ∨ r.created.find? k = some offer) : NeverCreated k rs := by
  intro r' hr'
  by_contra hsome
  obtain ⟨o, ho⟩ := Option.ne_none_iff_exists'.mp hsome
  rcases hk with hk | hk
  · rw [h.notInBook r' (List.mem_cons_of_mem _ hr') k o ho] at hk
    cases hk
  · rw [(List.pairwise_cons.mp h.notTwice).1 r' hr' k offer hk] at ho
    cases ho

/-- An offer that comes out of the commit was in the book or is new, and is not created again. -/
theorem FreshRun.of_mergedAt (h : FreshRun book (r :: rs)) {offer : Offer}
    (hk : r.mergedAt k (book.find? k) = some offer) :
    pending k book (r :: rs) = some offer ∧ NeverCreated k rs := by
  rw [Round.mergedAt, Option.or_eq_some_iff] at hk
  rcases hk with hk | ⟨-, hk⟩
  · have hold := h.notInBook r List.mem_cons_self k offer hk
    refine ⟨?_, h.neverCreated (.inr hk)⟩
    rw [pending, hold, Option.none_or, List.findSome?_cons, hk]
  · split at hk
    · cases hk
    · exact ⟨by rw [pending, hk]; rfl, h.neverCreated (.inl hk)⟩

/-- An offer that does not come out of the commit was cancelled, or is not there yet. -/
theorem FreshRun.of_mergedAt_none (h : FreshRun book (r :: rs))
    (hk : r.mergedAt k (book.find? k) = none) :
    (k ∈ r.cancelled ∧ NeverCreated k rs) ∨
      (book.find? k = none ∧ pending k book (r :: rs) = pending k (r.after book) rs) := by
  have hafter := after_of_mergedAt_none hk
  rw [Round.mergedAt, Option.or_eq_none_iff] at hk
  cases hold : book.find? k with
  | some offer =>
    refine .inl ⟨?_, h.neverCreated (.inl hold)⟩
    by_contra hnot
    rw [hold, if_neg hnot] at hk
    cases hk.2
  | none =>
    refine .inr ⟨rfl, ?_⟩
    rw [pending, pending, hold, hafter, Option.none_or, Option.none_or, List.findSome?_cons, hk.1]

/-! ### Runs -/

theorem pending_of_neverCreated (h : NeverCreated k rs) (book : Book) :
    pending k book rs = book.find? k := by
  have hnone : rs.findSome? (fun r => r.created.find? k) = none :=
    List.findSome?_eq_none_iff.mpr h
  rw [pending, hnone, Option.or_none]

@[simp] theorem partialsAt_cons (k : OfferKey) (r : Round) (rs : List Round) (v : Option Offer) :
    partialsAt k (r :: rs) v = partialsAt k rs (partialAt k r v) := rfl

@[simp] theorem partialsAt_none (k : OfferKey) (rs : List Round) : partialsAt k rs none = none := by
  induction rs with
  | nil => rfl
  | cons r rs ih =>
    have hr : partialAt k r none = none := by
      rw [partialAt]
      cases r.clearing with
      | everything => rfl
      | upTo key amount => exact ite_self _
    rw [partialsAt_cons, hr, ih]

/-- What happens to an offer once it is gone: nothing. -/
theorem gone_untouched (hv : ValidRun book rs) (hk : book.find? k = none)
    (hnew : NeverCreated k rs) :
    (runRounds book rs).find? k = none ∧
      ∀ r ∈ rs, k ∉ r.cancelled ∧ ∀ amount, r.clearing ≠ .upTo k amount := by
  induction rs generalizing book with
  | nil => exact ⟨hk, nofun⟩
  | cons r rs ih =>
    have hmerged : r.mergedAt k (book.find? k) = none := by
      rw [Round.mergedAt, hnew r List.mem_cons_self, hk, ite_self]
      rfl
    have hafter := after_of_mergedAt_none hmerged
    obtain ⟨hfinal, hrest⟩ := ih hv.2 hafter fun r' hr' => hnew r' (List.mem_cons_of_mem _ hr')
    refine ⟨hfinal, List.forall_mem_cons.mpr ⟨⟨fun hc => ?_, fun amount hc => ?_⟩, hrest⟩⟩
    · obtain ⟨offer, hoffer⟩ := hv.1.cancelled k hc
      rw [hk] at hoffer
      cases hoffer
    · obtain ⟨offer, hoffer, -⟩ := hv.1.partialExec k amount hc
      rw [Round.find?_merged, hmerged] at hoffer
      cases hoffer

theorem partialsAt_of_no_partial (h : ∀ r ∈ rs, ∀ amount, r.clearing ≠ .upTo k amount)
    (v : Option Offer) : partialsAt k rs v = v := by
  induction rs generalizing v with
  | nil => rfl
  | cons r rs ih =>
    have hr : partialAt k r v = v := by
      rw [partialAt]
      cases hc : r.clearing with
      | everything => rfl
      | upTo key amount =>
        refine if_neg fun hkey => ?_
        subst hkey
        exact h r List.mem_cons_self amount hc
    rw [partialsAt_cons, hr, ih fun r' hr' => h r' (List.mem_cons_of_mem _ hr')]

/-- The fate of an offer that comes out of the commit of a round: cleared with the book, cleared
below a threshold, or whatever the partial execution leaves of it. -/
theorem after_of_mergedAt {offer : Offer} (hk : r.mergedAt k (book.find? k) = some offer) :
    (ClearsAll r ∧ (r.after book).find? k = none ∧ ∀ v, partialAt k r v = v) ∨
      (ClearsBelow k r ∧ (r.after book).find? k = none) ∨
      (¬ ClearsAll r ∧ ¬ ClearsBelow k r ∧
        (r.after book).find? k = partialAt k r (some offer)) := by
  rw [Round.find?_after, Round.afterAt, hk]
  unfold ClearsAll ClearsBelow partialAt
  cases r.clearing with
  | everything => exact .inl ⟨rfl, rfl, fun _ => rfl⟩
  | upTo key amount =>
    simp only [Round.clearedAt]
    by_cases hlt : k < key
    · exact .inr (.inl ⟨⟨key, amount, rfl, hlt⟩, if_pos hlt⟩)
    · refine .inr (.inr ⟨by simp, ?_, ?_⟩)
      · rintro ⟨key', amount', heq, hlt'⟩
        cases heq
        exact hlt hlt'
      · rw [if_neg hlt]
        by_cases hkey : k = key
        · rw [if_pos hkey, if_pos hkey.symm]
        · rw [if_neg hkey, if_neg (Ne.symm hkey)]

theorem ComesTo.exists_round {P : Round → Prop} {offer : Offer} (h : ComesTo P k offer book rs) :
    ∃ r ∈ rs, P r := by
  induction rs generalizing book with
  | nil => exact absurd h id
  | cons r rs ih =>
    rcases h with ⟨hr, -⟩ | h
    · exact ⟨r, List.mem_cons_self, hr⟩
    · obtain ⟨r', hr', hP⟩ := ih h
      exact ⟨r', List.mem_cons_of_mem _ hr', hP⟩

/-- The partial executions of a round do not touch an offer that the round does not commit. -/
theorem partialAt_of_mergedAt_none (hv : r.Valid book) (hk : r.mergedAt k (book.find? k) = none)
    (v : Option Offer) : partialAt k r v = v := by
  rw [partialAt]
  cases hc : r.clearing with
  | everything => rfl
  | upTo key amount =>
    refine if_neg fun hkey => ?_
    subst hkey
    obtain ⟨offer, hoffer, -⟩ := hv.partialExec key amount hc
    rw [Round.find?_merged, hk] at hoffer
    cases hoffer

/-- Why an offer can be gone: it was cancelled, or cleared below a threshold, or with the book. -/
def TakenOut (k : OfferKey) (book : Book) (rs : List Round) : Prop :=
  (∃ r ∈ rs, k ∈ r.cancelled) ∨ (∃ offer, ComesTo (ClearsBelow k) k offer book rs) ∨
    ∃ offer, ComesTo ClearsAll k offer book rs

theorem TakenOut.cons (h : TakenOut k (r.after book) rs) : TakenOut k book (r :: rs) := by
  rcases h with ⟨r', hr', hc⟩ | ⟨offer, h⟩ | ⟨offer, h⟩
  · exact .inl ⟨r', List.mem_cons_of_mem _ hr', hc⟩
  · exact .inr (.inl ⟨offer, .inr h⟩)
  · exact .inr (.inr ⟨offer, .inr h⟩)

/-- At the end of a run an offer is what the partial executions leave of it, or it is gone because
it was taken out. -/
theorem fate (hv : ValidRun book rs) (hf : FreshRun book rs) (k : OfferKey) :
    (runRounds book rs).find? k = partialsAt k rs (pending k book rs) ∨
      ((runRounds book rs).find? k = none ∧ TakenOut k book rs) := by
  induction rs generalizing book with
  | nil =>
    left
    rw [pending_of_neverCreated (fun _ h => absurd h List.not_mem_nil) book]
    rfl
  | cons r rs ih =>
    rw [runRounds_cons, partialsAt_cons]
    cases hm : r.mergedAt k (book.find? k) with
    | some offer =>
      obtain ⟨hpending, hnew⟩ := hf.of_mergedAt hm
      rcases after_of_mergedAt hm with ⟨hall, hnone, -⟩ | ⟨hbelow, hnone⟩ | ⟨-, -, hafter⟩
      · exact .inr ⟨(gone_untouched hv.2 hnone hnew).1, .inr (.inr ⟨offer, .inl ⟨hall, hm⟩⟩)⟩
      · exact .inr ⟨(gone_untouched hv.2 hnone hnew).1, .inr (.inl ⟨offer, .inl ⟨hbelow, hm⟩⟩)⟩
      · rw [hpending, ← hafter, ← pending_of_neverCreated hnew (r.after book)]
        exact (ih hv.2 hf.tail).imp_right fun ⟨hnone, hwhy⟩ => ⟨hnone, hwhy.cons⟩
    | none =>
      rcases hf.of_mergedAt_none hm with ⟨hcancelled, hnew⟩ | ⟨-, hpending⟩
      · have hnone := after_of_mergedAt_none hm
        exact .inr ⟨(gone_untouched hv.2 hnone hnew).1, .inl ⟨r, List.mem_cons_self, hcancelled⟩⟩
      · rw [hpending, partialAt_of_mergedAt_none hv.1 hm]
        exact (ih hv.2 hf.tail).imp_right fun ⟨hnone, hwhy⟩ => ⟨hnone, hwhy.cons⟩

/-- An offer that is cleared with the book is gone at the end, was never cancelled, and had been
left by the partial executions as it was cleared. -/
theorem ComesTo.clearsAll {offer : Offer} (h : ComesTo ClearsAll k offer book rs)
    (hv : ValidRun book rs) (hf : FreshRun book rs) :
    (runRounds book rs).find? k = none ∧ partialsAt k rs (pending k book rs) = some offer ∧
      ∀ r ∈ rs, k ∉ r.cancelled := by
  induction rs generalizing book with
  | nil => exact absurd h id
  | cons r rs ih =>
    rw [runRounds_cons, partialsAt_cons]
    cases hm : r.mergedAt k (book.find? k) with
    | some o =>
      obtain ⟨hpending, hnew⟩ := hf.of_mergedAt hm
      have hnot : k ∉ r.cancelled := by
        intro hc
        rw [Round.mergedAt, if_pos hc, Option.or_none] at hm
        obtain ⟨o', ho'⟩ := hv.1.cancelled k hc
        rw [hf.notInBook r List.mem_cons_self k o hm] at ho'
        cases ho'
      rcases h with ⟨hall, hm'⟩ | h
      · have hnone : (r.after book).find? k = none := by
          rw [Round.find?_after, Round.afterAt, show r.clearing = .everything from hall]
          rfl
        obtain ⟨hfinal, hrest⟩ := gone_untouched hv.2 hnone hnew
        rw [hm] at hm'
        cases hm'
        refine ⟨hfinal, ?_, List.forall_mem_cons.mpr ⟨hnot, fun r' hr' => (hrest r' hr').1⟩⟩
        rw [hpending, partialAt, show r.clearing = .everything from hall]
        exact partialsAt_of_no_partial (fun r' hr' => (hrest r' hr').2) _
      · obtain ⟨hfinal, hpart, hrest⟩ := ih h hv.2 hf.tail
        refine ⟨hfinal, ?_, List.forall_mem_cons.mpr ⟨hnot, hrest⟩⟩
        rw [pending_of_neverCreated hnew _] at hpart
        rcases after_of_mergedAt hm with ⟨-, hnone, -⟩ | ⟨-, hnone⟩ | ⟨-, -, hafter⟩
        · rw [hnone, partialsAt_none] at hpart
          cases hpart
        · rw [hnone, partialsAt_none] at hpart
          cases hpart
        · rw [hpending, ← hafter, hpart]
    | none =>
      rcases h with ⟨-, hm'⟩ | h
      · rw [hm] at hm'
        cases hm'
      · obtain ⟨hfinal, hpart, hrest⟩ := ih h hv.2 hf.tail
        rcases hf.of_mergedAt_none hm with ⟨hcancelled, hnew⟩ | ⟨hold, hpending⟩
        · rw [pending_of_neverCreated hnew, after_of_mergedAt_none hm, partialsAt_none] at hpart
          cases hpart
        · refine ⟨hfinal, ?_, List.forall_mem_cons.mpr ⟨fun hc => ?_, hrest⟩⟩
          · rw [hpending, partialAt_of_mergedAt_none hv.1 hm, hpart]
          · obtain ⟨o', ho'⟩ := hv.1.cancelled k hc
            rw [hold] at ho'
            cases ho'

/-- An offer that is there at the end was not taken out by any round since it was there. -/
theorem alive {v offer : Offer} (hv : ValidRun book (r :: rs)) (hf : FreshRun book (r :: rs))
    (hm : r.mergedAt k (book.find? k) = some v)
    (hfinal : (runRounds book (r :: rs)).find? k = some offer) :
    ∀ r' ∈ r :: rs, ¬ ClearsAll r' ∧ ¬ ClearsBelow k r' := by
  induction rs generalizing book r v with
  | nil =>
    rw [runRounds_cons] at hfinal
    change (r.after book).find? k = some offer at hfinal
    rcases after_of_mergedAt hm with ⟨-, hnone, -⟩ | ⟨-, hnone⟩ | ⟨hall, hbelow, -⟩
    · rw [hnone] at hfinal
      cases hfinal
    · rw [hnone] at hfinal
      cases hfinal
    · exact List.forall_mem_cons.mpr ⟨⟨hall, hbelow⟩, fun _ h => absurd h List.not_mem_nil⟩
  | cons r₂ rs ih =>
    have hnew := (hf.of_mergedAt hm).2
    have hthere : ∀ {b}, (r.after book).find? k = b → b ≠ none := by
      rintro b hb rfl
      rw [runRounds_cons, (gone_untouched hv.2 hb hnew).1] at hfinal
      cases hfinal
    have hm₂ : ∃ v₂, r₂.mergedAt k ((r.after book).find? k) = some v₂ := by
      cases hm₂ : r₂.mergedAt k ((r.after book).find? k) with
      | some v₂ => exact ⟨v₂, rfl⟩
      | none =>
        rw [runRounds_cons, runRounds_cons, (gone_untouched hv.2.2 (after_of_mergedAt_none hm₂)
          fun r' hr' => hnew r' (List.mem_cons_of_mem _ hr')).1] at hfinal
        cases hfinal
    obtain ⟨v₂, hm₂⟩ := hm₂
    refine List.forall_mem_cons.mpr ⟨?_, ih hv.2 hf.tail hm₂ hfinal⟩
    rcases after_of_mergedAt hm with ⟨-, hnone, -⟩ | ⟨-, hnone⟩ | ⟨hall, hbelow, -⟩
    · exact absurd rfl (hthere hnone)
    · exact absurd rfl (hthere hnone)
    · exact ⟨hall, hbelow⟩

/-- An offer that is there at the end was never cancelled. -/
theorem not_cancelled_of_alive {offer : Offer} (hv : ValidRun book rs) (hf : FreshRun book rs)
    (hfinal : (runRounds book rs).find? k = some offer) : ∀ r ∈ rs, k ∉ r.cancelled := by
  induction rs generalizing book with
  | nil => exact fun _ h => absurd h List.not_mem_nil
  | cons r rs ih =>
    refine List.forall_mem_cons.mpr ⟨fun hc => ?_, ih hv.2 hf.tail hfinal⟩
    obtain ⟨o, ho⟩ := hv.1.cancelled k hc
    have hcreated : r.created.find? k = none := by
      by_contra hsome
      obtain ⟨o', ho'⟩ := Option.ne_none_iff_exists'.mp hsome
      rw [hf.notInBook r List.mem_cons_self k o' ho'] at ho
      cases ho
    have hm : r.mergedAt k (book.find? k) = none := by
      rw [Round.mergedAt, hcreated, if_pos hc]
      rfl
    rw [runRounds_cons, (gone_untouched hv.2 (after_of_mergedAt_none hm)
      (hf.neverCreated (.inl ho))).1] at hfinal
    cases hfinal

end Speedex
