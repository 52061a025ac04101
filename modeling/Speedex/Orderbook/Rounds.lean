import Speedex.Orderbook.Rollback

/-! What a block does to the offers of one orderbook, and what its thunk records of it.  A round
creates and cancels offers and then clears the book, either as a whole or up to one offer that
executes partially.  Both production and validation act on the book in rounds. -/

namespace Speedex

open Lib

/-- The offers of an orderbook. -/
abbrev Book := SortedMap OfferKey Offer

/-- How far a block clears a book: all of it, or all offers below a key and some of the offer
under that key. -/
inductive Clearing where
  | everything
  | upTo (key : OfferKey) (amount : UInt64)
deriving DecidableEq

structure Round where
  number : UInt64
  created : Book
  cancelled : List OfferKey
  clearing : Clearing
deriving DecidableEq

namespace Round

/-- The book with the round's new offers and without the cancelled ones. -/
def merged (r : Round) (book : Book) : Book :=
  (book.filter fun k _ => decide (k ∉ r.cancelled)).union r.created

/-- The offers that clear fully. -/
def cleared (r : Round) (book : Book) : Book :=
  match r.clearing with
  | .everything => r.merged book
  | .upTo key _ => (r.merged book).filter fun k _ => decide (k < key)

/-- What is left of an offer that executes partially. -/
def leftover (offer : Offer) (amount : UInt64) : Option Offer :=
  if (Orderbook.reduced offer amount).amount = 0 then none
  else some (Orderbook.reduced offer amount)

/-- The book after the round. -/
def after (r : Round) (book : Book) : Book :=
  match r.clearing with
  | .everything => ∅
  | .upTo key amount =>
    let rest := (r.merged book).filter fun k _ => decide (key < k)
    match ((r.merged book).find? key).bind (leftover · amount) with
    | none => rest
    | some offer => rest.insert key offer

/-- The key that the thunk keeps (`partial_exec_key`). -/
def thresholdKey (r : Round) : OfferKey :=
  match r.clearing with
  | .everything => .max
  | .upTo key _ => key

/-- The round can happen to this book: the cancelled offers and the one that executes partially
are there, and new offers have a positive `int64_t` amount and a valid price. -/
structure Valid (r : Round) (book : Book) : Prop where
  created : ∀ k offer, r.created.find? k = some offer →
    k = offer.key ∧ 0 < offer.amount ∧ offer.amount.toNat < 2 ^ 63 ∧ offer.minPrice ≤ Price.maxPrice
  cancelled : ∀ k ∈ r.cancelled, ∃ offer, book.find? k = some offer
  partialExec : ∀ key amount, r.clearing = .upTo key amount →
    ∃ offer, (r.merged book).find? key = some offer ∧ amount ≤ offer.amount

/-- What a thunk records of a round. -/
structure Recorded (r : Round) (book : Book) (thunk : OrderbookLMDBCommitmentThunk) : Prop where
  number : thunk.currentBlockNumber = r.number
  created : thunk.uncommittedOffersVec = r.created.values
  deleted : thunk.deletedKeys = (book.filter fun k _ => decide (k ∈ r.cancelled)).entries
  cleared : thunk.clearedOffers.offers = r.cleared book
  unmarked : thunk.clearedOffers.Unmarked
  threshold : thunk.partialExecKey = r.thresholdKey
  exists_iff : thunk.existsPartialExec = true ↔ r.clearing ≠ .everything
  partialExec : ∀ key amount, r.clearing = .upTo key amount →
    thunk.partialExecAmount.toUInt64 = amount ∧
      (r.merged book).find? key = some thunk.preexecutePartialExecOffer

/-! ### Checks -/

instance {c : Clearing} {P : OfferKey → UInt64 → Prop} [∀ key amount, Decidable (P key amount)] :
    Decidable (∀ key amount, c = .upTo key amount → P key amount) :=
  match c with
  | .everything => isTrue nofun
  | .upTo key amount => decidable_of_iff (P key amount)
      ⟨fun h _ _ hc => by cases hc; exact h, fun h => h key amount rfl⟩

instance (r : Round) (book : Book) : Decidable (r.Valid book) :=
  decidable_of_iff ((∀ k offer, r.created.find? k = some offer → k = offer.key ∧ 0 < offer.amount ∧
      offer.amount.toNat < 2 ^ 63 ∧ offer.minPrice ≤ Price.maxPrice) ∧
    (∀ k ∈ r.cancelled, (book.find? k).isSome = true) ∧
    ∀ key amount, r.clearing = .upTo key amount →
      ((r.merged book).find? key).any (fun offer => decide (amount ≤ offer.amount)) = true) <| by
    simp only [Option.isSome_iff_exists, Option.any_eq_true, decide_eq_true_eq]
    exact ⟨fun h => ⟨h.1, h.2.1, h.2.2⟩, fun h => ⟨h.created, h.cancelled, h.partialExec⟩⟩

instance (r : Round) (book : Book) (thunk : OrderbookLMDBCommitmentThunk) :
    Decidable (r.Recorded book thunk) :=
  decidable_of_iff (thunk.currentBlockNumber = r.number ∧
    thunk.uncommittedOffersVec = r.created.values ∧
    thunk.deletedKeys = (book.filter fun k _ => decide (k ∈ r.cancelled)).entries ∧
    thunk.clearedOffers.offers = r.cleared book ∧ thunk.clearedOffers.Unmarked ∧
    thunk.partialExecKey = r.thresholdKey ∧
    (thunk.existsPartialExec = true ↔ r.clearing ≠ .everything) ∧
    ∀ key amount, r.clearing = .upTo key amount → thunk.partialExecAmount.toUInt64 = amount ∧
      (r.merged book).find? key = some thunk.preexecutePartialExecOffer)
    ⟨fun ⟨h₁, h₂, h₃, h₄, h₅, h₆, h₇, h₈⟩ => ⟨h₁, h₂, h₃, h₄, h₅, h₆, h₇, h₈⟩,
      fun ⟨h₁, h₂, h₃, h₄, h₅, h₆, h₇, h₈⟩ => ⟨h₁, h₂, h₃, h₄, h₅, h₆, h₇, h₈⟩⟩

/-! ### A round, key by key -/

/-- What the commit makes of the offer under `k`. -/
def mergedAt (r : Round) (k : OfferKey) (v : Option Offer) : Option Offer :=
  (r.created.find? k).or (if k ∈ r.cancelled then none else v)

/-- What the clearing makes of the offer under `k`. -/
def clearedAt (c : Clearing) (k : OfferKey) (v : Option Offer) : Option Offer :=
  match c with
  | .everything => none
  | .upTo key amount => if k < key then none else if k = key then v.bind (leftover · amount) else v

/-- What the round makes of the offer under `k`. -/
def afterAt (r : Round) (k : OfferKey) (v : Option Offer) : Option Offer :=
  clearedAt r.clearing k (r.mergedAt k v)

theorem find?_merged (r : Round) (book : Book) (k : OfferKey) :
    (r.merged book).find? k = r.mergedAt k (book.find? k) := by
  rw [merged, SortedMap.find?_union, SortedMap.find?_filter, mergedAt]
  congr 1
  by_cases hk : k ∈ r.cancelled <;> cases book.find? k <;> simp [hk, Option.filter_some]

/-- A round acts on each key by itself. -/
theorem find?_after (r : Round) (book : Book) (k : OfferKey) :
    (r.after book).find? k = r.afterAt k (book.find? k) := by
  rw [after, afterAt, ← find?_merged]
  cases r.clearing with
  | everything => rfl
  | upTo key amount =>
    rw [clearedAt]
    have hrest : ((r.merged book).filter fun k _ => decide (key < k)).find? k =
        if key < k then (r.merged book).find? k else none :=
      SortedMap.find?_filter_key ..
    simp only
    rcases lt_trichotomy k key with hlt | heq | hgt
    · rw [if_pos hlt]
      split
      · rw [hrest, if_neg (lt_asymm hlt)]
      · rw [SortedMap.find?_insert_ne (ne_of_gt hlt), hrest, if_neg (lt_asymm hlt)]
    · subst heq
      rw [if_neg (lt_irrefl _), if_pos rfl]
      split
      · rename_i hnone
        rw [hrest, if_neg (lt_irrefl _), hnone]
      · rename_i offer hsome
        rw [SortedMap.find?_insert_self, hsome]
    · rw [if_neg (lt_asymm hgt), if_neg (ne_of_gt hgt)]
      split
      · rw [hrest, if_pos hgt]
      · rw [SortedMap.find?_insert_ne (ne_of_lt hgt), hrest, if_pos hgt]

theorem find?_cleared_everything {r : Round} (h : r.clearing = .everything) (book : Book)
    (k : OfferKey) : (r.cleared book).find? k = r.mergedAt k (book.find? k) := by
  rw [cleared, h, find?_merged]

theorem find?_cleared_upTo {r : Round} {key : OfferKey} {amount : UInt64}
    (h : r.clearing = .upTo key amount) (book : Book) (k : OfferKey) :
    (r.cleared book).find? k = if k < key then r.mergedAt k (book.find? k) else none := by
  rw [cleared, h, ← find?_merged]
  exact SortedMap.find?_filter_key ..

end Round

/-! ### Runs of rounds -/

/-- The book after a run of rounds. -/
def runRounds (book : Book) (rs : List Round) : Book := rs.foldl (fun book r => r.after book) book

theorem runRounds_cons (book : Book) (r : Round) (rs : List Round) :
    runRounds book (r :: rs) = runRounds (r.after book) rs := rfl

/-- Every round can happen when it comes. -/
def ValidRun : Book → List Round → Prop
  | _, [] => True
  | book, r :: rs => r.Valid book ∧ ValidRun (r.after book) rs

instance decidableValidRun : ∀ (book : Book) (rs : List Round), Decidable (ValidRun book rs)
  | _, [] => isTrue trivial
  | book, r :: rs =>
    have := decidableValidRun (r.after book) rs
    inferInstanceAs (Decidable (r.Valid book ∧ ValidRun (r.after book) rs))

theorem runRounds_append (book : Book) (rs rs' : List Round) :
    runRounds book (rs ++ rs') = runRounds (runRounds book rs) rs' :=
  List.foldl_append

theorem validRun_append {book : Book} {rs : List Round} {r : Round} (h : ValidRun book rs)
    (hr : r.Valid (runRounds book rs)) : ValidRun book (rs ++ [r]) := by
  induction rs generalizing book with
  | nil => exact ⟨hr, trivial⟩
  | cons r' rs ih => exact ⟨h.1, ih h.2 hr⟩

/-- Every round leaves its thunk. -/
def RecordedRun : Book → List Round → List OrderbookLMDBCommitmentThunk → Prop
  | _, [], thunks => thunks = []
  | book, r :: rs, thunks =>
    ∃ thunk thunks', thunks = thunk :: thunks' ∧ r.Recorded book thunk ∧
      RecordedRun (r.after book) rs thunks'

instance decidableRecordedRun : ∀ (book : Book) (rs : List Round)
    (thunks : List OrderbookLMDBCommitmentThunk), Decidable (RecordedRun book rs thunks)
  | _, [], thunks => inferInstanceAs (Decidable (thunks = []))
  | _, _ :: _, [] => isFalse fun ⟨_, _, h, _⟩ => by cases h
  | book, r :: rs, thunk :: thunks =>
    have := decidableRecordedRun (r.after book) rs thunks
    decidable_of_iff (r.Recorded book thunk ∧ RecordedRun (r.after book) rs thunks)
      ⟨fun h => ⟨thunk, thunks, rfl, h⟩, fun ⟨_, _, heq, h⟩ => by cases heq; exact h⟩

theorem recordedRun_append {book : Book} {rs : List Round} {r : Round}
    {thunks : List OrderbookLMDBCommitmentThunk} {thunk : OrderbookLMDBCommitmentThunk}
    (h : RecordedRun book rs thunks) (hr : r.Recorded (runRounds book rs) thunk) :
    RecordedRun book (rs ++ [r]) (thunks ++ [thunk]) := by
  induction rs generalizing book thunks with
  | nil =>
    cases h
    exact ⟨thunk, [], rfl, hr, rfl⟩
  | cons r' rs ih =>
    obtain ⟨thunk', thunks', rfl, hrec, hrest⟩ := h
    exact ⟨thunk', thunks' ++ [thunk], rfl, hrec, ih hrest hr⟩

/-- Offer ids are never reused: a new offer's key is in neither the first book nor another
round. -/
structure FreshRun (book : Book) (rs : List Round) : Prop where
  notInBook : ∀ r ∈ rs, ∀ k offer, r.created.find? k = some offer → book.find? k = none
  notTwice : rs.Pairwise fun r r' => ∀ k offer, r.created.find? k = some offer →
    r'.created.find? k = none

instance (book : Book) (rs : List Round) : Decidable (FreshRun book rs) :=
  decidable_of_iff ((∀ r ∈ rs, ∀ k offer, r.created.find? k = some offer → book.find? k = none) ∧
    rs.Pairwise fun r r' => ∀ k offer, r.created.find? k = some offer → r'.created.find? k = none)
    ⟨fun h => ⟨h.1, h.2⟩, fun h => ⟨h.notInBook, h.notTwice⟩⟩

end Speedex
