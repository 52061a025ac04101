import Speedex.Database.Account
import Speedex.Lib.Except
import Speedex.Lib.WordBits

/-! Replay prevention (`memory_database/sequence_tracker.h`).  The tracker for wide windows keeps its
reservations in several words.  Both trackers are compared with one set of live reservations. -/

namespace Speedex

open Lib

/-! ### The tracker of wide windows -/

/-- `NUM_WORDS`. -/
def numWords (maxSeqGap : Nat) : Nat := maxSeqGap / 64 + 1

/-- `BoundedSequenceTracker<MAX_SEQ_GAP>`: bit `i % 64` of word `i / 64` reserves
`lastCommittedId + (i + 1) * MAX_OPS_PER_TX`. -/
structure BoundedSequenceTracker (maxSeqGap : Nat) where
  lastCommittedId : UInt64
  sequenceNumberVec : List UInt64
  length_eq : sequenceNumberVec.length = numWords maxSeqGap

namespace BoundedSequenceTracker

variable {maxSeqGap : Nat}

/-- `BoundedSequenceTracker(last_committed_id)`. -/
def ofId (maxSeqGap : Nat) (lastCommittedId : UInt64) : BoundedSequenceTracker maxSeqGap :=
  ⟨lastCommittedId, List.replicate (numWords maxSeqGap) 0, List.length_replicate⟩

/-- `array_get_seq_num_offset`. -/
def getSeqNumOffset (sequenceNumber lastCommittedId : UInt64) : UInt64 :=
  (sequenceNumber - lastCommittedId) / 256 - 1

/-- The loop of `array_get_seq_num_increment` over the words below `n`, from the highest.
`MAX_OPS_PER_TX` has 32 bits, and so has the product. -/
def seqNumIncrementBelow (bv : List UInt64) : Nat → UInt64
  | 0 => 0
  | i + 1 =>
    let val := bv.getD i 0
    if val ≠ 0 then
      let out : UInt32 := (64 * .ofNat i + (val.log2 + 1).toUInt32) * 256
      out.toUInt64
    else seqNumIncrementBelow bv i

/-- `array_get_seq_num_increment`.  The loop counter is an `int32_t`. -/
def getSeqNumIncrement (bv : List UInt64) : UInt64 :=
  let start := Int32.ofNat (bv.length - 1)
  if start < 0 then 0 else seqNumIncrementBelow bv (start.toInt.toNat + 1)

def tentativeCommitment (t : BoundedSequenceTracker maxSeqGap) : UInt64 :=
  t.lastCommittedId + getSeqNumIncrement t.sequenceNumberVec

/-- `f` at the word that holds the bit of an offset. -/
def modifyWord (t : BoundedSequenceTracker maxSeqGap) (offset : UInt64) (f : UInt64 → UInt64) :
    BoundedSequenceTracker maxSeqGap where
  lastCommittedId := t.lastCommittedId
  sequenceNumberVec := t.sequenceNumberVec.modify (offset / 64).toNat f
  length_eq := by rw [List.length_modify, t.length_eq]

def reserveSequenceNumber (t : BoundedSequenceTracker maxSeqGap) (sequenceNumber : UInt64) :
    TransactionProcessingStatus × BoundedSequenceTracker maxSeqGap :=
  if sequenceNumber ≤ t.lastCommittedId then (.SEQ_NUM_TOO_LOW, t)
  else
    let offset := getSeqNumOffset sequenceNumber t.lastCommittedId
    if offset.toNat ≥ maxSeqGap then (.SEQ_NUM_TOO_HIGH, t)
    else
      let bitMask : UInt64 := 1 <<< (offset % 64)
      let prev := t.sequenceNumberVec.getD (offset / 64).toNat 0
      let t' := t.modifyWord offset (· ||| bitMask)
      if prev &&& bitMask ≠ 0 then (.SEQ_NUM_TEMP_IN_USE, t') else (.SUCCESS, t')

def releaseSequenceNumber (t : BoundedSequenceTracker maxSeqGap) (sequenceNumber : UInt64) :
    Result (BoundedSequenceTracker maxSeqGap) :=
  if sequenceNumber ≤ t.lastCommittedId then
    .error (.runtimeError "cannot release invalid seq num!")
  else
    let offset := getSeqNumOffset sequenceNumber t.lastCommittedId
    if offset.toNat ≥ maxSeqGap then
      .error (.runtimeError "cannot release too far forward seq num!")
    else .ok (t.modifyWord offset (· &&& ~~~(1 <<< (offset % 64))))

def commit (t : BoundedSequenceTracker maxSeqGap) : BoundedSequenceTracker maxSeqGap :=
  ofId maxSeqGap (t.lastCommittedId + getSeqNumIncrement t.sequenceNumberVec)

def rollback (t : BoundedSequenceTracker maxSeqGap) : BoundedSequenceTracker maxSeqGap :=
  ofId maxSeqGap t.lastCommittedId

end BoundedSequenceTracker

/-! ### Runs of a tracker -/

/-- What both trackers offer. -/
class SequenceTracking (T : Type) where
  lastCommittedId : T → UInt64
  tentativeCommitment : T → UInt64
  reserveSequenceNumber : T → UInt64 → TransactionProcessingStatus × T
  releaseSequenceNumber : T → UInt64 → Result T
  commit : T → T
  rollback : T → T

instance sequenceTrackingUInt64 : SequenceTracking SequenceTracker where
  lastCommittedId := SequenceTracker.lastCommittedId
  tentativeCommitment := SequenceTracker.tentativeCommitment
  reserveSequenceNumber := SequenceTracker.reserveSequenceNumber
  releaseSequenceNumber := SequenceTracker.releaseSequenceNumber
  commit := SequenceTracker.commit
  rollback := SequenceTracker.rollback

instance sequenceTrackingBounded (maxSeqGap : Nat) :
    SequenceTracking (BoundedSequenceTracker maxSeqGap) where
  lastCommittedId := BoundedSequenceTracker.lastCommittedId
  tentativeCommitment := BoundedSequenceTracker.tentativeCommitment
  reserveSequenceNumber := BoundedSequenceTracker.reserveSequenceNumber
  releaseSequenceNumber := BoundedSequenceTracker.releaseSequenceNumber
  commit := BoundedSequenceTracker.commit
  rollback := BoundedSequenceTracker.rollback

/-- The low bits of a sequence number are reserved for the operations (`check_tx_format_parameters`). -/
def formatChecked (sequenceNumber : UInt64) : Prop := sequenceNumber &&& reservedSequenceNumLowbits = 0

instance decidableFormatChecked (n : UInt64) : Decidable (formatChecked n) :=
  inferInstanceAs (Decidable (n &&& reservedSequenceNumLowbits = 0))

/-- A tracker, and the reservations that were made and neither released nor committed since. -/
structure Reserved (T : Type) where
  tracker : T
  live : List UInt64

namespace Reserved

open SequenceTracking

variable {T : Type} [SequenceTracking T]

def reserve (s : Reserved T) (n : UInt64) : Reserved T :=
  let (status, tracker) := reserveSequenceNumber s.tracker n
  ⟨tracker, if status = .SUCCESS then n :: s.live else s.live⟩

theorem reserve_of_success {s : Reserved T} {n : UInt64} {t : T}
    (h : reserveSequenceNumber s.tracker n = (.SUCCESS, t)) : s.reserve n = ⟨t, n :: s.live⟩ := by
  simp [reserve, h]

/-- Every state that a tracker reaches from `start`, when only live reservations are released. -/
inductive Reaches (start : T) : Reserved T → Prop where
  | init : Reaches start ⟨start, []⟩
  | reserve {s : Reserved T} (n : UInt64) (hn : formatChecked n) :
    Reaches start s → Reaches start (s.reserve n)
  | release {s : Reserved T} {t : T} (n : UInt64) (hn : n ∈ s.live)
    (ht : releaseSequenceNumber s.tracker n = .ok t) :
    Reaches start s → Reaches start ⟨t, s.live.erase n⟩
  | commit {s : Reserved T} : Reaches start s → Reaches start ⟨SequenceTracking.commit s.tracker, []⟩
  | rollback {s : Reserved T} :
    Reaches start s → Reaches start ⟨SequenceTracking.rollback s.tracker, []⟩

/-- The reference: the answer to a reservation, given the set of the live ones. -/
def referenceStatus (window : Nat) (last : UInt64) (live : List UInt64) (n : UInt64) :
    TransactionProcessingStatus :=
  if n ≤ last then .SEQ_NUM_TOO_LOW
  else if last.toNat + 256 * window < n.toNat then .SEQ_NUM_TOO_HIGH
  else if n ∈ live then .SEQ_NUM_TEMP_IN_USE
  else .SUCCESS

/-- Replay prevention in one state. -/
structure PreventsReplay (window : Nat) (s : Reserved T) : Prop where
  multiple : 256 ∣ (lastCommittedId s.tracker).toNat
  tooLow : ∀ n ≤ lastCommittedId s.tracker, (reserveSequenceNumber s.tracker n).1 ≠ .SUCCESS
  nodup : s.live.Nodup
  accepts : ∀ n, formatChecked n → (reserveSequenceNumber s.tracker n).1 =
    referenceStatus window (lastCommittedId s.tracker) s.live n
  releases : ∀ n ∈ s.live, ∃ t, releaseSequenceNumber s.tracker n = .ok t
  commit_empty : s.live = [] →
    lastCommittedId (SequenceTracking.commit s.tracker) = lastCommittedId s.tracker
  commit_largest : ∀ m ∈ s.live, (∀ n ∈ s.live, n ≤ m) →
    lastCommittedId (SequenceTracking.commit s.tracker) = m
  tentative : tentativeCommitment s.tracker =
    lastCommittedId (SequenceTracking.commit s.tracker)
  no_wrap : lastCommittedId s.tracker ≤ lastCommittedId (SequenceTracking.commit s.tracker)

/-! ### Reservations as bits -/

/-- How a tracker works on its bits: number `o` of the window stands for the sequence number
`lastCommittedId + (o + 1) * 256`. -/
structure TracksBits (T : Type) [SequenceTracking T] (window : Nat) (bits : T → Nat → Bool) :
    Prop where
  reserve_low : ∀ {t : T} {n}, n ≤ lastCommittedId t → reserveSequenceNumber t n = (.SEQ_NUM_TOO_LOW, t)
  reserve_high : ∀ {t : T} {n : UInt64} {o}, n.toNat = (lastCommittedId t).toNat + (o + 1) * 256 → window ≤ o →
    reserveSequenceNumber t n = (.SEQ_NUM_TOO_HIGH, t)
  reserve_status : ∀ {t : T} {n : UInt64} {o}, n.toNat = (lastCommittedId t).toNat + (o + 1) * 256 → o < window →
    (reserveSequenceNumber t n).1 = if bits t o then .SEQ_NUM_TEMP_IN_USE else .SUCCESS
  reserve_last : ∀ {t : T} {n}, lastCommittedId (reserveSequenceNumber t n).2 = lastCommittedId t
  reserve_bits : ∀ {t : T} {n : UInt64} {o}, n.toNat = (lastCommittedId t).toNat + (o + 1) * 256 → o < window →
    ∀ i, bits (reserveSequenceNumber t n).2 i = (bits t i || decide (o = i))
  release : ∀ {t : T} {n : UInt64} {o}, n.toNat = (lastCommittedId t).toNat + (o + 1) * 256 → o < window →
    ∃ t', releaseSequenceNumber t n = .ok t' ∧ lastCommittedId t' = lastCommittedId t ∧
      ∀ i, bits t' i = (bits t i && !decide (o = i))
  tentative : ∀ {t : T}, tentativeCommitment t = lastCommittedId (SequenceTracking.commit t)
  commit_bits : ∀ {t : T} {i}, bits (SequenceTracking.commit t) i = false
  commit_empty : ∀ {t : T}, (∀ i, bits t i = false) →
    lastCommittedId (SequenceTracking.commit t) = lastCommittedId t
  commit_top : ∀ {t : T} {m}, m < window → bits t m = true → (∀ i, bits t i = true → i ≤ m) →
    lastCommittedId (SequenceTracking.commit t) = lastCommittedId t + .ofNat ((m + 1) * 256)
  rollback_last : ∀ {t : T}, lastCommittedId (SequenceTracking.rollback t) = lastCommittedId t
  rollback_bits : ∀ {t : T} {i}, bits (SequenceTracking.rollback t) i = false

/-- The bits of the tracker are the live reservations. -/
structure Represents (window : Nat) (bits : T → Nat → Bool) (s : Reserved T) : Prop where
  lt : ∀ o, bits s.tracker o = true → o < window
  multiple : (lastCommittedId s.tracker).toNat % 256 = 0
  nodup : s.live.Nodup
  mem_live : ∀ n, n ∈ s.live ↔ ∃ o, bits s.tracker o = true ∧
    n.toNat = (lastCommittedId s.tracker).toNat + (o + 1) * 256
  fits : ∀ o, bits s.tracker o = true →
    (lastCommittedId s.tracker).toNat + (o + 1) * 256 < 2 ^ 64

theorem formatChecked_iff {n : UInt64} : formatChecked n ↔ n.toNat % 256 = 0 := by
  rw [formatChecked, ← UInt64.toNat_inj, UInt64.toNat_and]
  exact iff_of_eq (congrArg (· = 0) (Nat.and_two_pow_sub_one_eq_mod n.toNat 8))

/-- A number above the last committed one has a place in the window. -/
theorem exists_offset {n last : UInt64} (hn : n.toNat % 256 = 0) (hlast : last.toNat % 256 = 0)
    (h : ¬ n ≤ last) : ∃ o, n.toNat = last.toNat + (o + 1) * 256 := by
  rw [UInt64.le_iff_toNat_le] at h
  exact ⟨(n.toNat - last.toNat) / 256 - 1, by omega⟩

variable {window : Nat} {bits : T → Nat → Bool}

namespace Represents

variable {s : Reserved T}

/-- Where a reservation stands is its only bit. -/
theorem mem_iff_bit (hr : Represents window bits s) {n : UInt64} {o : Nat}
    (ho : n.toNat = (lastCommittedId s.tracker).toNat + (o + 1) * 256) :
    n ∈ s.live ↔ bits s.tracker o = true := by
  rw [hr.mem_live]
  constructor
  · rintro ⟨o', hbit, ho'⟩
    have : o' = o := by omega
    exact this ▸ hbit
  · intro hbit
    exact ⟨o, hbit, ho⟩

theorem init {t : T} (hm : (lastCommittedId t).toNat % 256 = 0) (hb : ∀ i, bits t i = false) :
    Represents window bits ⟨t, []⟩ where
  lt o h := by simp [hb] at h
  multiple := hm
  nodup := List.nodup_nil
  mem_live n := by simp [hb]
  fits o h := by simp [hb] at h

theorem reserve (hb : TracksBits T window bits) (hr : Represents window bits s) {n : UInt64}
    (hn : formatChecked n) : Represents window bits (s.reserve n) := by
  rw [formatChecked_iff] at hn
  by_cases hlow : n ≤ lastCommittedId s.tracker
  · simpa [Reserved.reserve, hb.reserve_low hlow] using hr
  obtain ⟨o, ho⟩ := exists_offset hn hr.multiple hlow
  by_cases hhigh : window ≤ o
  · simpa [Reserved.reserve, hb.reserve_high ho hhigh] using hr
  have hlt : o < window := by omega
  have hbits := hb.reserve_bits ho hlt
  have hstatus := hb.reserve_status ho hlt
  have hmem := hr.mem_iff_bit ho
  unfold Reserved.reserve
  rcases hres : reserveSequenceNumber s.tracker n with ⟨status, t⟩
  have hlast : lastCommittedId t = lastCommittedId s.tracker := by
    simpa [hres] using hb.reserve_last (t := s.tracker) (n := n)
  rw [hres] at hbits hstatus
  have hwithin : ∀ i, bits t i = true → i < window := by
    intro i hi
    rw [hbits, Bool.or_eq_true, decide_eq_true_eq] at hi
    rcases hi with hi | rfl
    · exact hr.lt i hi
    · exact hlt
  have hfits : ∀ i, bits t i = true →
      (lastCommittedId s.tracker).toNat + (i + 1) * 256 < 2 ^ 64 := by
    intro i hi
    rw [hbits, Bool.or_eq_true, decide_eq_true_eq] at hi
    rcases hi with hi | rfl
    · exact hr.fits i hi
    · exact ho ▸ n.toNat_lt
  cases hbit : bits s.tracker o with
  | true =>
    -- the number is in use, and its bit is set already
    have hne : status ≠ .SUCCESS := by simp_all
    have hsame : ∀ i, bits t i = bits s.tracker i := by
      intro i
      rw [hbits]
      by_cases hi : o = i
      · simp [← hi, hbit]
      · simp [hi]
    refine ⟨hwithin, ?_, ?_, ?_, ?_⟩
    · simpa [hlast] using hr.multiple
    · simpa [hne] using hr.nodup
    · simpa [hne, hlast, hsame] using hr.mem_live
    · simpa [hlast] using hfits
  | false =>
    have hok : status = .SUCCESS := by simp_all
    refine ⟨hwithin, ?_, ?_, ?_, ?_⟩
    · simpa [hlast] using hr.multiple
    · simp only [hok, if_true]
      exact List.nodup_cons.mpr ⟨by simp [hmem, hbit], hr.nodup⟩
    · intro m
      simp only [hok, if_true, List.mem_cons, hlast, hbits, Bool.or_eq_true, decide_eq_true_eq]
      rw [hr.mem_live]
      constructor
      · rintro (rfl | ⟨o', hbit', ho'⟩)
        · exact ⟨o, .inr rfl, ho⟩
        · exact ⟨o', .inl hbit', ho'⟩
      · rintro ⟨o', hbit' | rfl, ho'⟩
        · exact .inr ⟨o', hbit', ho'⟩
        · exact .inl (UInt64.toNat_inj.mp (ho'.trans ho.symm))
    · simpa [hlast] using hfits

theorem release (hb : TracksBits T window bits) (hr : Represents window bits s) {n : UInt64} {t : T}
    (hn : n ∈ s.live) (ht : releaseSequenceNumber s.tracker n = .ok t) :
    Represents window bits ⟨t, s.live.erase n⟩ := by
  obtain ⟨o, hbit, ho⟩ := (hr.mem_live n).mp hn
  obtain ⟨t', ht', hlast, hbits⟩ := hb.release ho (hr.lt o hbit)
  cases ht.symm.trans ht'
  refine ⟨fun i hi => ?_, ?_, hr.nodup.erase n, ?_, ?_⟩
  · rw [hbits, Bool.and_eq_true] at hi
    exact hr.lt i hi.1
  · simpa [hlast] using hr.multiple
  · intro m
    simp only [hlast, hbits, Bool.and_eq_true, Bool.not_eq_true', decide_eq_false_iff_not]
    rw [hr.nodup.mem_erase_iff, hr.mem_live]
    constructor
    · rintro ⟨hne, o', hbit', ho'⟩
      refine ⟨o', ⟨hbit', ?_⟩, ho'⟩
      rintro rfl
      exact hne (UInt64.toNat_inj.mp (ho'.trans ho.symm))
    · rintro ⟨o', ⟨hbit', hne⟩, ho'⟩
      refine ⟨?_, o', hbit', ho'⟩
      rintro rfl
      exact hne (by omega)
  · intro i hi
    rw [hbits, Bool.and_eq_true] at hi
    simpa [hlast] using hr.fits i hi.1

/-- The number that a commit leaves: that of the highest bit. -/
theorem commit_last (hb : TracksBits T window bits) (hr : Represents window bits s) {m : Nat}
    (hbit : bits s.tracker m = true) (htop : ∀ i, bits s.tracker i = true → i ≤ m) :
    (lastCommittedId (SequenceTracking.commit s.tracker)).toNat =
      (lastCommittedId s.tracker).toNat + (m + 1) * 256 := by
  have hfits := hr.fits m hbit
  rw [hb.commit_top (hr.lt m hbit) hbit htop, UInt64.toNat_add, UInt64.toNat_ofNat']
  omega

/-- Either no bit is set, or there is a highest one. -/
theorem top_cases (hr : Represents window bits s) : (∀ i, bits s.tracker i = false) ∨
    ∃ m, bits s.tracker m = true ∧ ∀ i, bits s.tracker i = true → i ≤ m := by
  by_cases h : ∃ i, bits s.tracker i = true
  · have hfin : {i | bits s.tracker i = true}.Finite := (Set.finite_lt_nat window).subset hr.lt
    obtain ⟨m, hm, htop⟩ := hfin.exists_maximal h
    refine .inr ⟨m, hm, fun i hi => ?_⟩
    by_contra hlt
    exact hlt (htop hi (by omega))
  · exact .inl fun i => by simpa using not_exists.mp h i

theorem commit (hb : TracksBits T window bits) (hr : Represents window bits s) :
    Represents window bits ⟨SequenceTracking.commit s.tracker, []⟩ := by
  refine init ?_ fun i => hb.commit_bits
  have hm := hr.multiple
  rcases hr.top_cases with hempty | ⟨m, hbit, htop⟩
  · rw [hb.commit_empty hempty]
    exact hm
  · rw [hr.commit_last hb hbit htop]
    omega

theorem of_reaches (hb : TracksBits T window bits) {start : T}
    (hm : (lastCommittedId start).toNat % 256 = 0) (hstart : ∀ i, bits start i = false)
    (h : Reaches start s) : Represents window bits s := by
  induction h with
  | init => exact init hm hstart
  | reserve n hn _ ih => exact ih.reserve hb hn
  | release n hn ht _ ih => exact ih.release hb hn ht
  | commit _ ih => exact ih.commit hb
  | rollback _ ih =>
    refine init ?_ fun i => hb.rollback_bits
    rw [hb.rollback_last]
    exact ih.multiple

theorem accepts (hb : TracksBits T window bits) (hr : Represents window bits s) {n : UInt64}
    (hn : formatChecked n) : (reserveSequenceNumber s.tracker n).1 =
      referenceStatus window (lastCommittedId s.tracker) s.live n := by
  rw [formatChecked_iff] at hn
  unfold referenceStatus
  by_cases hlow : n ≤ lastCommittedId s.tracker
  · rw [hb.reserve_low hlow, if_pos hlow]
  obtain ⟨o, ho⟩ := exists_offset hn hr.multiple hlow
  rw [if_neg hlow]
  by_cases hhigh : window ≤ o
  · rw [hb.reserve_high ho hhigh, if_pos (by omega)]
  · have hwithin : ¬ (lastCommittedId s.tracker).toNat + 256 * window < n.toNat := by omega
    rw [if_neg hwithin, hb.reserve_status ho (by omega)]
    exact if_congr (hr.mem_iff_bit ho).symm rfl rfl

theorem preventsReplay (hb : TracksBits T window bits) (hr : Represents window bits s) :
    PreventsReplay window s where
  multiple := Nat.dvd_of_mod_eq_zero hr.multiple
  tooLow n hn := by
    simp [hb.reserve_low hn]
  nodup := hr.nodup
  accepts n hn := hr.accepts hb hn
  releases n hn := by
    obtain ⟨o, hbit, ho⟩ := (hr.mem_live n).mp hn
    obtain ⟨t, ht, -⟩ := hb.release ho (hr.lt o hbit)
    exact ⟨t, ht⟩
  commit_empty hempty := by
    refine hb.commit_empty fun o => ?_
    by_contra hbit
    rw [Bool.not_eq_false] at hbit
    have hmem := (hr.mem_live (.ofNat ((lastCommittedId s.tracker).toNat + (o + 1) * 256))).mpr
      ⟨o, hbit, UInt64.toNat_ofNat_of_lt' (hr.fits o hbit)⟩
    simp [hempty] at hmem
  commit_largest m hm hlargest := by
    obtain ⟨o, hbit, ho⟩ := (hr.mem_live m).mp hm
    refine UInt64.toNat_inj.mp ((hr.commit_last hb hbit fun i hi => ?_).trans ho.symm)
    have hle := hlargest (.ofNat ((lastCommittedId s.tracker).toNat + (i + 1) * 256))
      ((hr.mem_live _).mpr ⟨i, hi, UInt64.toNat_ofNat_of_lt' (hr.fits i hi)⟩)
    rw [UInt64.le_iff_toNat_le, UInt64.toNat_ofNat_of_lt' (hr.fits i hi)] at hle
    omega
  tentative := hb.tentative
  no_wrap := by
    rcases hr.top_cases with hempty | ⟨m, hbit, htop⟩
    · rw [hb.commit_empty hempty]
    · rw [UInt64.le_iff_toNat_le, hr.commit_last hb hbit htop]
      omega

end Represents

end Reserved

/-! ### The two trackers -/

theorem offset_eq {n last : UInt64} {o : Nat} (ho : n.toNat = last.toNat + (o + 1) * 256) :
    ((n - last) / 256 - 1).toNat = o := by
  have hn := n.toNat_lt
  have hlast := last.toNat_lt
  have hsub : (n - last).toNat = (o + 1) * 256 := by
    rw [UInt64.toNat_sub]
    omega
  have hdiv : ((n - last) / 256).toNat = o + 1 := by
    rw [UInt64.toNat_div, hsub]
    simp
  rw [UInt64.toNat_sub, hdiv]
  simp
  omega

theorem not_le_of_offset {n last : UInt64} {o : Nat} (ho : n.toNat = last.toNat + (o + 1) * 256) :
    ¬ n ≤ last := by
  rw [UInt64.le_iff_toNat_le]
  omega

namespace SequenceTracker

theorem getSeqNumOffset_eq {n last : UInt64} {o : Nat}
    (ho : n.toNat = last.toNat + (o + 1) * 256) :
    (getSeqNumOffset n last).toNat = if 64 ≤ o then 255 else o := by
  have hoff := offset_eq ho
  unfold getSeqNumOffset
  simp only [ge_iff_le, UInt64.le_iff_toNat_le, hoff]
  by_cases h : 64 ≤ o
  · simp [h]
  · simp [h, hoff]

theorem toNat_increment {bv : UInt64} (h : bv ≠ 0) :
    getSeqNumIncrement bv = .ofNat ((bv.log2.toNat + 1) * 256) := by
  have hlt : bv.log2.toNat < 64 := lt_of_bit (bit_log2 h)
  refine UInt64.toNat_inj.mp ?_
  rw [getSeqNumIncrement, if_neg h, UInt64.toNat_mul, UInt64.toNat_add, UInt64.toNat_ofNat']
  simp

theorem reserve_within {t : SequenceTracker} {n : UInt64} {o : Nat}
    (ho : n.toNat = t.lastCommittedId.toNat + (o + 1) * 256) (hlt : o < 64) :
    ∃ offset : UInt64, offset.toNat = o ∧ t.reserveSequenceNumber n =
      (if bit t.sequenceNumberVec o then .SEQ_NUM_TEMP_IN_USE else .SUCCESS,
        { t with sequenceNumberVec := t.sequenceNumberVec ||| 1 <<< offset }) := by
  have hoff := getSeqNumOffset_eq ho
  rw [if_neg (by omega)] at hoff
  have hwithin : ¬ getSeqNumOffset n t.lastCommittedId ≥ 64 := by
    rw [ge_iff_le, UInt64.le_iff_toNat_le, hoff]
    simpa using hlt
  refine ⟨getSeqNumOffset n t.lastCommittedId, hoff, ?_⟩
  have hmask := and_mask_ne_zero (w := t.sequenceNumberVec) (o := getSeqNumOffset n t.lastCommittedId)
    (by omega)
  rw [hoff] at hmask
  rw [reserveSequenceNumber, if_neg (not_le_of_offset ho), if_neg hwithin]
  by_cases hbit : bit t.sequenceNumberVec o = true
  · simp [hmask.mpr hbit, hbit]
  · rw [if_neg (mt hmask.mp hbit), if_neg hbit]

theorem reserve_above {t : SequenceTracker} {n : UInt64} {o : Nat}
    (ho : n.toNat = t.lastCommittedId.toNat + (o + 1) * 256) (hhigh : 64 ≤ o) :
    t.reserveSequenceNumber n = (.SEQ_NUM_TOO_HIGH, t) := by
  have hoff := getSeqNumOffset_eq ho
  rw [if_pos hhigh] at hoff
  refine (if_neg (not_le_of_offset ho)).trans (if_pos ?_)
  rw [ge_iff_le, UInt64.le_iff_toNat_le, hoff]
  decide

theorem release_within {t : SequenceTracker} {n : UInt64} {o : Nat}
    (ho : n.toNat = t.lastCommittedId.toNat + (o + 1) * 256) (hlt : o < 64) :
    ∃ offset : UInt64, offset.toNat = o ∧ t.releaseSequenceNumber n =
      .ok { t with sequenceNumberVec := t.sequenceNumberVec &&& ~~~(1 <<< offset) } := by
  have hoff := getSeqNumOffset_eq ho
  rw [if_neg (by omega)] at hoff
  have hwithin : ¬ getSeqNumOffset n t.lastCommittedId ≥ 64 := by
    rw [ge_iff_le, UInt64.le_iff_toNat_le, hoff]
    simpa using hlt
  exact ⟨_, hoff, (if_neg (not_le_of_offset ho)).trans (if_neg hwithin)⟩

theorem tracksBits : Reserved.TracksBits SequenceTracker 64 fun t => bit t.sequenceNumberVec where
  reserve_low h := if_pos h
  reserve_high ho hhigh := reserve_above ho hhigh
  reserve_status ho hlt := by
    obtain ⟨offset, -, heq⟩ := reserve_within ho hlt
    exact congrArg Prod.fst heq
  reserve_last {t n} := by
    show (t.reserveSequenceNumber n).2.lastCommittedId = t.lastCommittedId
    simp only [reserveSequenceNumber]
    split_ifs <;> rfl
  reserve_bits ho hlt i := by
    obtain ⟨offset, rfl, heq⟩ := reserve_within ho hlt
    exact (congrArg (fun r => bit r.2.sequenceNumberVec i) heq).trans (bit_or_mask hlt i)
  release ho hlt := by
    obtain ⟨offset, rfl, heq⟩ := release_within ho hlt
    exact ⟨_, heq, rfl, bit_and_not_mask hlt⟩
  tentative := rfl
  commit_bits := bit_zero _
  commit_empty {t} hempty := by
    have h0 := eq_zero_of_bits hempty
    show t.lastCommittedId + getSeqNumIncrement t.sequenceNumberVec = t.lastCommittedId
    rw [h0]
    simp [getSeqNumIncrement]
  commit_top {t m} _ hbit htop := by
    have hne : t.sequenceNumberVec ≠ 0 := by
      intro h0
      rw [h0, bit_zero] at hbit
      cases hbit
    have hm : t.sequenceNumberVec.log2.toNat = m :=
      le_antisymm (htop _ (bit_log2 hne)) (le_log2_of_bit hbit)
    show t.lastCommittedId + getSeqNumIncrement t.sequenceNumberVec = _
    rw [toNat_increment hne, hm]
    rfl
  rollback_last := rfl
  rollback_bits := bit_zero _

end SequenceTracker

namespace BoundedSequenceTracker

variable {maxSeqGap : Nat}

/-- The bit of offset `o`. -/
def reserved (bv : List UInt64) (o : Nat) : Bool := bit (bv.getD (o / 64) 0) (o % 64)

theorem reserved_replicate (n o : Nat) : reserved (List.replicate n 0) o = false := by
  simp [reserved]

theorem getD_modify {bv : List UInt64} {i : Nat} (hi : i < bv.length) (f : UInt64 → UInt64)
    (j : Nat) : (bv.modify i f).getD j 0 = if i = j then f (bv.getD j 0) else bv.getD j 0 := by
  simp only [List.getD_eq_getElem?_getD, List.getElem?_modify]
  by_cases h : i = j
  · subst h
    simp [List.getElem?_eq_getElem hi]
  · simp [h]

/-- A word with a bit set has its highest bit at `m`, if no bit beyond `m` is reserved. -/
theorem seqNumIncrementBelow_eq {bv : List UInt64} {n m : Nat} (hm : m / 64 < n)
    (hbit : reserved bv m = true) (htop : ∀ i, reserved bv i = true → i ≤ m) :
    seqNumIncrementBelow bv n = .ofNat ((m + 1) * 256 % 2 ^ 32) := by
  induction n with
  | zero => omega
  | succ i ih =>
    unfold seqNumIncrementBelow
    by_cases hval : bv.getD i 0 = 0
    · have hne : m / 64 ≠ i := by
        rintro rfl
        rw [reserved, hval, bit_zero] at hbit
        cases hbit
      exact (if_neg (not_not.mpr hval)).trans (ih (by omega))
    have hhigh := bit_log2 hval
    have hlt := lt_of_bit hhigh
    have hle : i * 64 + (bv.getD i 0).log2.toNat ≤ m := by
      refine htop _ ?_
      rw [reserved, show (i * 64 + (bv.getD i 0).log2.toNat) / 64 = i by omega,
        show (i * 64 + (bv.getD i 0).log2.toNat) % 64 = (bv.getD i 0).log2.toNat by omega]
      exact hhigh
    have hi : m / 64 = i := by omega
    have hge : m % 64 ≤ (bv.getD i 0).log2.toNat := by
      rw [reserved, hi] at hbit
      exact le_log2_of_bit hbit
    have hlog : (bv.getD i 0).log2.toNat = m % 64 := by omega
    rw [if_pos hval]
    refine UInt64.toNat_inj.mp ?_
    simp only [UInt32.toNat_toUInt64, UInt32.toNat_mul, UInt32.toNat_add, UInt64.toNat_toUInt32,
      UInt64.toNat_add, hlog, UInt32.toNat_ofNat', UInt64.toNat_ofNat', UInt64.reduceToNat,
      UInt32.reduceToNat]
    omega

theorem seqNumIncrementBelow_zero {bv : List UInt64} {n : Nat}
    (h : ∀ i, i / 64 < n → reserved bv i = false) : seqNumIncrementBelow bv n = 0 := by
  induction n with
  | zero => rfl
  | succ i ih =>
    have hval : bv.getD i 0 = 0 := by
      refine eq_zero_of_bits fun b => ?_
      by_cases hb : b < 64
      · have hres := h (i * 64 + b) (by omega)
        rwa [reserved, show (i * 64 + b) / 64 = i by omega, show (i * 64 + b) % 64 = b by omega]
          at hres
      · by_contra hbit
        exact hb (lt_of_bit (by simpa using hbit))
    exact (if_neg (not_not.mpr hval)).trans (ih fun j hj => h j (by omega))

/-- The window fits the words, and the counter of the loop over them reaches every word. -/
theorem getSeqNumIncrement_eq {bv : List UInt64} (hlen : bv.length = numWords maxSeqGap)
    (hgap : maxSeqGap < 2 ^ 37) :
    getSeqNumIncrement bv = seqNumIncrementBelow bv (numWords maxSeqGap) := by
  have hlt : maxSeqGap / 64 < 2 ^ 31 := by omega
  have hstart : (Int32.ofNat (bv.length - 1)).toInt = maxSeqGap / 64 := by
    rw [Int32.toInt_ofNat_of_lt] <;> simp [hlen, numWords]
    omega
  have hneg : ¬ Int32.ofNat (bv.length - 1) < 0 := by
    rw [Int32.lt_iff_toInt_lt, hstart]
    simp
    omega
  simp only [getSeqNumIncrement]
  rw [if_neg hneg, hstart]
  rfl

theorem reserve_above {t : BoundedSequenceTracker maxSeqGap} {n : UInt64} {o : Nat}
    (ho : n.toNat = t.lastCommittedId.toNat + (o + 1) * 256) (hhigh : maxSeqGap ≤ o) :
    t.reserveSequenceNumber n = (.SEQ_NUM_TOO_HIGH, t) := by
  refine (if_neg (not_le_of_offset ho)).trans (if_pos ?_)
  rw [getSeqNumOffset, offset_eq ho]
  exact hhigh

theorem reserve_within {t : BoundedSequenceTracker maxSeqGap} {n : UInt64} {o : Nat}
    (ho : n.toNat = t.lastCommittedId.toNat + (o + 1) * 256) (hlt : o < maxSeqGap) :
    ∃ offset : UInt64, offset.toNat = o ∧ t.reserveSequenceNumber n =
      (if reserved t.sequenceNumberVec o then .SEQ_NUM_TEMP_IN_USE else .SUCCESS,
        t.modifyWord offset (· ||| 1 <<< (offset % 64))) := by
  have hoff : (getSeqNumOffset n t.lastCommittedId).toNat = o := offset_eq ho
  refine ⟨getSeqNumOffset n t.lastCommittedId, hoff, ?_⟩
  have hmask := and_mask_ne_zero
    (w := t.sequenceNumberVec.getD (getSeqNumOffset n t.lastCommittedId / 64).toNat 0)
    (o := getSeqNumOffset n t.lastCommittedId % 64) (by simp; omega)
  rw [reserveSequenceNumber, if_neg (not_le_of_offset ho), if_neg (by omega)]
  have hreserved : bit (t.sequenceNumberVec.getD (getSeqNumOffset n t.lastCommittedId / 64).toNat 0)
      (getSeqNumOffset n t.lastCommittedId % 64).toNat = reserved t.sequenceNumberVec o := by
    rw [UInt64.toNat_div, UInt64.toNat_mod, hoff]
    rfl
  rw [hreserved] at hmask
  by_cases hbit : reserved t.sequenceNumberVec o = true
  · simp only [if_pos (hmask.mpr hbit), if_pos hbit]
  · simp only [if_neg (mt hmask.mp hbit), if_neg hbit]

theorem release_within {t : BoundedSequenceTracker maxSeqGap} {n : UInt64} {o : Nat}
    (ho : n.toNat = t.lastCommittedId.toNat + (o + 1) * 256) (hlt : o < maxSeqGap) :
    ∃ offset : UInt64, offset.toNat = o ∧ t.releaseSequenceNumber n =
      .ok (t.modifyWord offset (· &&& ~~~(1 <<< (offset % 64)))) := by
  have hoff : (getSeqNumOffset n t.lastCommittedId).toNat = o := offset_eq ho
  exact ⟨_, hoff, (if_neg (not_le_of_offset ho)).trans (if_neg (by omega))⟩

/-- The word of an offset is there. -/
theorem word_lt (t : BoundedSequenceTracker maxSeqGap) {offset : UInt64}
    (h : offset.toNat < maxSeqGap) : (offset / 64).toNat < t.sequenceNumberVec.length := by
  rw [t.length_eq, numWords, UInt64.toNat_div]
  show offset.toNat / 64 < _
  omega

/-- A change of one bit of a word is a change of one offset. -/
theorem reserved_modifyWord (t : BoundedSequenceTracker maxSeqGap) {offset : UInt64}
    (h : offset.toNat < maxSeqGap) {f : UInt64 → UInt64} {p : Bool → Bool → Bool}
    (hf : ∀ w i, bit (f w) i = p (bit w i) (decide ((offset % 64).toNat = i)))
    (hp : ∀ b, p b false = b) (i : Nat) :
    reserved (t.modifyWord offset f).sequenceNumberVec i =
      p (reserved t.sequenceNumberVec i) (decide (offset.toNat = i)) := by
  have hmod : (offset % 64).toNat = offset.toNat % 64 := UInt64.toNat_mod ..
  have hdiv : (offset / 64).toNat = offset.toNat / 64 := UInt64.toNat_div ..
  rw [reserved, modifyWord, getD_modify (t.word_lt h)]
  by_cases hword : (offset / 64).toNat = i / 64
  · have hiff : offset.toNat % 64 = i % 64 ↔ offset.toNat = i := by omega
    rw [if_pos hword, hf, hmod, decide_eq_decide.mpr hiff]
    rfl
  · have hne : offset.toNat ≠ i := by
      rintro rfl
      exact hword hdiv
    rw [if_neg hword, decide_eq_false hne, hp]
    rfl

theorem toNat_mod_lt (offset : UInt64) : (offset % 64).toNat < 64 := by
  rw [UInt64.toNat_mod]
  exact Nat.mod_lt _ (by decide)

theorem tracksBits (hgap : maxSeqGap < 2 ^ 24) :
    Reserved.TracksBits (BoundedSequenceTracker maxSeqGap) maxSeqGap
      fun t => reserved t.sequenceNumberVec where
  reserve_low h := if_pos h
  reserve_high ho hhigh := reserve_above ho hhigh
  reserve_status ho hlt := by
    obtain ⟨offset, -, heq⟩ := reserve_within ho hlt
    exact congrArg Prod.fst heq
  reserve_last {t n} := by
    show (t.reserveSequenceNumber n).2.lastCommittedId = t.lastCommittedId
    simp only [reserveSequenceNumber]
    split_ifs <;> rfl
  reserve_bits {t n o} ho hlt i := by
    obtain ⟨offset, rfl, heq⟩ := reserve_within ho hlt
    refine (congrArg (fun r => reserved r.2.sequenceNumberVec i) heq).trans ?_
    exact t.reserved_modifyWord hlt (p := (· || ·)) (fun w => bit_or_mask (toNat_mod_lt offset))
      Bool.or_false i
  release {t n o} ho hlt := by
    obtain ⟨offset, rfl, heq⟩ := release_within ho hlt
    exact ⟨_, heq, rfl, t.reserved_modifyWord hlt (p := fun a b => a && !b)
      (fun w => bit_and_not_mask (toNat_mod_lt offset)) Bool.and_true⟩
  tentative := rfl
  commit_bits := reserved_replicate ..
  commit_empty {t} hempty := by
    show t.lastCommittedId + getSeqNumIncrement t.sequenceNumberVec = t.lastCommittedId
    rw [getSeqNumIncrement_eq t.length_eq (by omega), seqNumIncrementBelow_zero fun i _ => hempty i]
    simp
  commit_top {t m} hm hbit htop := by
    show t.lastCommittedId + getSeqNumIncrement t.sequenceNumberVec = _
    rw [getSeqNumIncrement_eq t.length_eq (by omega),
      seqNumIncrementBelow_eq (by rw [numWords]; omega) hbit htop, Nat.mod_eq_of_lt (by omega)]
    rfl
  rollback_last := rfl
  rollback_bits := reserved_replicate ..

/-- The one reservation whose distance, `2 ^ 32`, is lost in the product. -/
theorem getSeqNumIncrement_wraps {bv : List UInt64}
    (h : ∀ i, reserved bv i = decide (2 ^ 24 - 1 = i)) : getSeqNumIncrement bv = 0 := by
  have hbelow : ∀ n, seqNumIncrementBelow bv n = 0 := by
    intro n
    by_cases hn : (2 ^ 24 - 1) / 64 < n
    · exact seqNumIncrementBelow_eq hn (by simp [h]) fun i hi => by simp [h] at hi; omega
    · refine seqNumIncrementBelow_zero fun i hi => ?_
      rw [h]
      exact decide_eq_false (by rintro rfl; exact hn hi)
  simp only [getSeqNumIncrement, hbelow, ite_self]

/-- A window of `2 ^ 24` numbers or more holds a reservation that a commit forgets. -/
theorem exists_forgotten (hgap : 2 ^ 24 ≤ maxSeqGap) :
    ∃ s, Reserved.Reaches (ofId maxSeqGap 0) s ∧ s.live = [2 ^ 32] ∧
      s.tracker.commit.lastCommittedId = 0 := by
  have ho : UInt64.toNat (2 ^ 32) =
      (ofId maxSeqGap 0).lastCommittedId.toNat + (2 ^ 24 - 1 + 1) * 256 := by
    show _ = UInt64.toNat 0 + _
    decide
  obtain ⟨offset, hoffset, heq⟩ := reserve_within ho (by omega)
  rw [if_neg (by simp [ofId, reserved_replicate])] at heq
  have hwithin : offset.toNat < maxSeqGap := by omega
  have hbits := (ofId maxSeqGap 0).reserved_modifyWord hwithin
    (p := (· || ·)) (fun w => bit_or_mask (toNat_mod_lt offset)) Bool.or_false
  have hreserve := Reserved.reserve_of_success (s := ⟨ofId maxSeqGap 0, []⟩) heq
  refine ⟨_, .reserve (2 ^ 32) (by decide) .init, ?_⟩
  rw [hreserve]
  refine ⟨rfl, ?_⟩
  show 0 + getSeqNumIncrement _ = 0
  rw [getSeqNumIncrement_wraps fun i => ?_]
  · rfl
  · rw [hbits, hoffset]
    simp [ofId, reserved_replicate]

end BoundedSequenceTracker

open Reserved

/-- Both trackers prevent replay in every run exactly when the wide window has fewer than `2 ^ 24`
numbers: beyond that, the distance of a reservation does not fit the 32-bit product. -/
theorem preventsReplay_iff (maxSeqGap : Nat) :
    ((∀ id, formatChecked id → ∀ s, Reaches (SequenceTracker.ofId id) s → PreventsReplay 64 s) ∧
      ∀ id, formatChecked id → ∀ s, Reaches (BoundedSequenceTracker.ofId maxSeqGap id) s →
        PreventsReplay maxSeqGap s) ↔ maxSeqGap < 2 ^ 24 := by
  constructor
  · rintro ⟨-, h⟩
    by_contra hgap
    obtain ⟨s, hs, hlive, hcommit⟩ := BoundedSequenceTracker.exists_forgotten (not_lt.mp hgap)
    have hlargest := (h 0 (by decide) s hs).commit_largest (2 ^ 32) (by simp [hlive])
      (by simp [hlive])
    exact absurd (hlargest.symm.trans hcommit) (by decide)
  · intro hgap
    refine ⟨fun id hid s hs => ?_, fun id hid s hs => ?_⟩
    · exact (Represents.of_reaches SequenceTracker.tracksBits (formatChecked_iff.mp hid) bit_zero
        hs).preventsReplay SequenceTracker.tracksBits
    · have hb := BoundedSequenceTracker.tracksBits hgap
      exact (Represents.of_reaches hb (formatChecked_iff.mp hid)
        (BoundedSequenceTracker.reserved_replicate _) hs).preventsReplay hb

/-- A window of `2 ^ 24` numbers: a committed transaction can be replayed. -/
theorem not_preventsReplay_wideWindow :
    ¬ ∀ maxSeqGap > 64, ∀ id, formatChecked id →
      ∀ s, Reaches (BoundedSequenceTracker.ofId maxSeqGap id) s → PreventsReplay maxSeqGap s := by
  intro h
  obtain ⟨s, hs, hlive, hcommit⟩ :=
    BoundedSequenceTracker.exists_forgotten (show 2 ^ 24 ≤ 2 ^ 24 from le_rfl)
  have hlargest := (h (2 ^ 24) (by decide) 0 (by decide) s hs).commit_largest (2 ^ 32)
    (by simp [hlive]) (by simp [hlive])
  exact absurd (hlargest.symm.trans hcommit) (by decide)

end Speedex
