import Speedex.Database.Committed
import Speedex.Lib.WordBits

/-! One account over the changes of a block: `rollback` restores what was committed before, and
`commit` commits to what was tentative (`memory_database/user_account.cc`). -/

namespace Speedex

open Lib

/-- The changes that a block makes to an account. -/
inductive AccountOp where
  | escrow (asset : AssetID) (amount : Int64)
  | transferAvailable (asset : AssetID) (amount : Int64)
  | conditionalTransferAvailable (asset : AssetID) (amount : Int64)
  | conditionalEscrow (asset : AssetID) (amount : Int64)
  | reserveSequenceNumber (sequenceNumber : UInt64)
  | releaseSequenceNumber (sequenceNumber : UInt64)
  | commitSequenceNumber (sequenceNumber : UInt64)

namespace UserAccount

/-- A release that throws has changed nothing, and committing a sequence number does nothing. -/
def operate (u : UserAccount) : AccountOp → UserAccount
  | .escrow asset amount => u.escrow asset amount
  | .transferAvailable asset amount => u.transferAvailable asset amount
  | .conditionalTransferAvailable asset amount => (u.conditionalTransferAvailable asset amount).2
  | .conditionalEscrow asset amount => (u.conditionalEscrow asset amount).2
  | .reserveSequenceNumber n => (u.reserveSequenceNumber n).2
  | .releaseSequenceNumber n => (u.releaseSequenceNumber n).toOption.getD u
  | .commitSequenceNumber _ => u

/-- The account after a sequence of changes. -/
def run (u : UserAccount) (ops : List AccountOp) : UserAccount := ops.foldl operate u

/-- Nothing is pending. -/
structure Settled (u : UserAccount) : Prop where
  uncommitted : u.uncommittedAssets = []
  balances : ∀ a ∈ u.ownedAssets, a.available = a.committedAvailable
  seqnos : u.seqTracker.sequenceNumberVec = 0

/-! ### Changes keep what is committed -/

theorem committedPart_operate (u : UserAccount) (op : AccountOp) :
    (u.operate op).committedPart = u.committedPart := by
  cases op with
  | escrow asset amount => exact u.committedPart_operateOnAsset asset fun _ => rfl
  | transferAvailable asset amount => exact u.committedPart_operateOnAsset asset fun _ => rfl
  | conditionalTransferAvailable asset amount =>
    refine u.committedPart_operateOnAsset asset fun a => ?_
    unfold RevertableAsset.conditionalTransferAvailable
    split_ifs <;> rfl
  | conditionalEscrow asset amount =>
    refine u.committedPart_operateOnAsset asset fun a => ?_
    unfold RevertableAsset.conditionalEscrow RevertableAsset.conditionalTransferAvailable
    split_ifs <;> rfl
  | reserveSequenceNumber n => exact u.committedPart_reserveSequenceNumber n
  | releaseSequenceNumber n =>
    show ((u.releaseSequenceNumber n).toOption.getD u).committedPart = _
    cases h : u.releaseSequenceNumber n with
    | error e => rfl
    | ok u' => exact committedPart_releaseSequenceNumber h
  | commitSequenceNumber n => rfl

theorem committedPart_run (u : UserAccount) (ops : List AccountOp) :
    (u.run ops).committedPart = u.committedPart := by
  induction ops generalizing u with
  | nil => rfl
  | cons op ops ih => exact (ih (u.operate op)).trans (u.committedPart_operate op)

/-- `rollback` depends on what is committed only. -/
theorem rollback_congr {u v : UserAccount} (h : u.committedPart = v.committedPart) :
    u.rollback = v.rollback := by
  have hrollback : ∀ w : UserAccount, w.rollback =
      ⟨w.committedPart.assets.map .ofAmount, [], ⟨w.committedPart.lastCommittedId, 0⟩,
        w.committedPart.owner, w.committedPart.pk⟩ := by
    intro w
    simp only [rollback, committedPart, List.map_map]
    rfl
  rw [hrollback, hrollback, h]

theorem Settled.rollback_eq {u : UserAccount} (h : u.Settled) : u.rollback = u := by
  obtain ⟨owned, uncommitted, ⟨last, vec⟩, owner, pk⟩ := u
  obtain ⟨huncommitted, hbalances, hseqnos⟩ := h
  simp only at huncommitted hbalances hseqnos
  subst huncommitted hseqnos
  have howned : owned.map RevertableAsset.rollback = owned := by
    refine (List.map_congr_left fun a ha => ?_).trans (List.map_id _)
    obtain ⟨available, committed⟩ := a
    exact congrArg (RevertableAsset.mk · committed) (hbalances _ ha).symm
  simp only [rollback, howned]
  rfl

theorem commit_settled (u : UserAccount) : u.commit.Settled := by
  refine ⟨rfl, fun a ha => ?_, rfl⟩
  rcases List.mem_append.mp ha with ha | ha
  · obtain ⟨b, -, rfl⟩ := List.mem_map.mp ha
    rfl
  · obtain ⟨b, -, rfl⟩ := List.mem_map.mp ha
    rfl

/-! ### The slots -/

theorem slots_operateOnAsset {ρ : Type} (u : UserAccount) (asset : AssetID)
    (func : RevertableAsset → ρ × RevertableAsset) :
    (u.operateOnAsset asset func).2.slots = max u.slots (asset.toNat + 1) := by
  simp only [operateOnAsset, slots]
  split
  · simp only [List.length_set, List.length_append, List.length_replicate]
    omega
  · simp only [List.length_set]
    omega

theorem slots_le_operate (u : UserAccount) (op : AccountOp) : u.slots ≤ (u.operate op).slots := by
  cases op with
  | escrow asset amount | transferAvailable asset amount
  | conditionalTransferAvailable asset amount | conditionalEscrow asset amount =>
    exact (Nat.le_max_left _ _).trans_eq (u.slots_operateOnAsset asset _).symm
  | reserveSequenceNumber n => exact le_rfl
  | releaseSequenceNumber n =>
    show u.slots ≤ ((u.releaseSequenceNumber n).toOption.getD u).slots
    cases h : u.releaseSequenceNumber n with
    | error e => exact le_rfl
    | ok u' =>
      obtain ⟨t, -, h⟩ := bind_eq_ok.mp h
      cases h
      exact le_rfl
  | commitSequenceNumber n => exact le_rfl

theorem slots_le_run (u : UserAccount) (ops : List AccountOp) : u.slots ≤ (u.run ops).slots := by
  induction ops generalizing u with
  | nil => exact le_rfl
  | cons op ops ih => exact (u.slots_le_operate op).trans (ih (u.operate op))

/-! ### The commitments -/

theorem getSeqNumIncrement_eq_zero {bv : UInt64} :
    SequenceTracker.getSeqNumIncrement bv = 0 ↔ bv = 0 := by
  unfold SequenceTracker.getSeqNumIncrement
  split_ifs with h
  · exact ⟨fun _ => h, fun _ => rfl⟩
  · have hlog : bv.log2.toNat < 64 := by
      rw [toNat_log2]
      have hpos : bv.toNat ≠ 0 := fun h0 => h (UInt64.toNat_inj.mp h0)
      exact (Nat.log2_lt hpos).mpr bv.toNat_lt
    refine ⟨fun hzero => ?_, fun hzero => absurd hzero h⟩
    have hnat : (bv.log2.toNat + 1) % 2 ^ 64 * 256 % 2 ^ 64 = 0 := by
      have hnat := congrArg UInt64.toNat hzero
      rwa [UInt64.toNat_mul, UInt64.toNat_add] at hnat
    omega

section Commitments

variable {u : UserAccount}

/-- Below 256 slots both commitments return. -/
theorem produceCommitment_eq (h : u.slots ≤ 255) : u.produceCommitment = .ok
    { owner := u.owner
      assets := u.ownedAssets.mapIdx fun i a => a.produceCommitment (.ofNat i)
      lastCommittedId := u.seqTracker.produceCommitment
      pk := u.pk } := by
  rw [produceCommitment, if_neg]
  simp only [slots] at h
  omega

theorem tentativeCommitment_eq (h : u.slots ≤ 255) : u.tentativeCommitment = .ok
    { owner := u.owner
      assets := (u.ownedAssets ++ u.uncommittedAssets).mapIdx fun i a => a.tentativeCommitment (.ofNat i)
      lastCommittedId := u.seqTracker.tentativeCommitment
      pk := u.pk } := by
  rw [tentativeCommitment, if_neg, List.mapIdx_append]
  simp only [slots] at h
  omega

/-- The tentative commitment is the committed one exactly when nothing is pending. -/
theorem settled_iff (h : u.slots ≤ 255) :
    u.Settled ↔ u.tentativeCommitment = u.produceCommitment := by
  rw [produceCommitment_eq h, tentativeCommitment_eq h]
  constructor
  · rintro ⟨huncommitted, hbalances, hseqnos⟩
    have hassets : (u.ownedAssets ++ u.uncommittedAssets).mapIdx
        (fun i a => a.tentativeCommitment (.ofNat i)) =
        u.ownedAssets.mapIdx fun i a => a.produceCommitment (.ofNat i) := by
      rw [huncommitted, List.append_nil]
      refine List.ext_getElem? fun i => ?_
      rw [List.getElem?_mapIdx, List.getElem?_mapIdx]
      cases ha : u.ownedAssets[i]? with
      | none => rfl
      | some a =>
        have hbalance := hbalances a (List.mem_of_getElem? ha)
        simp [RevertableAsset.tentativeCommitment, RevertableAsset.produceCommitment, hbalance]
    have hseqno : u.seqTracker.tentativeCommitment = u.seqTracker.produceCommitment := by
      rw [SequenceTracker.tentativeCommitment, hseqnos]
      exact add_zero _
    rw [hassets, hseqno]
  · intro heq
    have hfields := Except.ok.inj heq
    have hassets := congrArg AccountCommitment.assets hfields
    have hseqno := congrArg AccountCommitment.lastCommittedId hfields
    dsimp only at hassets hseqno
    have hlength := congrArg List.length hassets
    rw [List.length_mapIdx, List.length_mapIdx, List.length_append] at hlength
    have hnil : u.uncommittedAssets = [] := List.length_eq_zero_iff.mp (by omega)
    refine ⟨hnil, fun a ha => ?_, ?_⟩
    · obtain ⟨i, hi⟩ := List.mem_iff_getElem?.mp ha
      have hat := congrArg (·[i]?) hassets
      simp only [hnil, List.append_nil, List.getElem?_mapIdx, hi, Option.map_some, Option.some.injEq,
        RevertableAsset.tentativeCommitment, RevertableAsset.produceCommitment,
        AssetCommitment.mk.injEq, true_and] at hat
      simpa using congrArg UInt64.toInt64 hat
    · rw [SequenceTracker.tentativeCommitment, SequenceTracker.produceCommitment] at hseqno
      exact getSeqNumIncrement_eq_zero.mp (add_eq_left.mp hseqno)

/-- Committing makes the tentative values the committed ones. -/
theorem commit_produceCommitment (h : u.slots ≤ 255) :
    u.commit.produceCommitment = u.tentativeCommitment := by
  have hslots : u.commit.slots ≤ 255 := by
    simpa [commit, slots] using h
  rw [produceCommitment_eq hslots, tentativeCommitment_eq h]
  have hassets : u.commit.ownedAssets.mapIdx (fun i a => a.produceCommitment (.ofNat i)) =
      (u.ownedAssets ++ u.uncommittedAssets).mapIdx fun i a => a.tentativeCommitment (.ofNat i) := by
    simp only [commit, List.mapIdx_append, List.length_map]
    refine congrArg₂ (· ++ ·) (List.ext_getElem? fun i => ?_) (List.ext_getElem? fun i => ?_)
    · rw [List.getElem?_mapIdx, List.getElem?_mapIdx, List.getElem?_map, Option.map_map]
      rfl
    · rw [List.getElem?_mapIdx, List.getElem?_mapIdx, List.getElem?_map, Option.map_map]
      rfl
  rw [hassets]
  rfl

/-- `rollback` and `commit` are exact: after any changes to an account with nothing pending,
rolling back restores both commitments, and committing commits to what was tentative. -/
theorem rollback_commit_exact (u : UserAccount) (ops : List AccountOp)
    (hclean : u.tentativeCommitment = u.produceCommitment) (hslots : (u.run ops).slots ≤ 255) :
    ∃ before tentative, u.produceCommitment = .ok before ∧
      (u.run ops).tentativeCommitment = .ok tentative ∧
      (u.run ops).rollback.tentativeCommitment = .ok before ∧
      (u.run ops).rollback.produceCommitment = .ok before ∧
      (u.run ops).commit.produceCommitment = .ok tentative ∧ (u.run ops).commit.Settled := by
  have hstart := (u.slots_le_run ops).trans hslots
  have hrollback : (u.run ops).rollback = u :=
    (rollback_congr (u.committedPart_run ops)).trans ((settled_iff hstart).mpr hclean).rollback_eq
  refine ⟨_, _, produceCommitment_eq hstart, tentativeCommitment_eq hslots, ?_, ?_, ?_,
    (u.run ops).commit_settled⟩
  · rw [hrollback, hclean]
    exact produceCommitment_eq hstart
  · rw [hrollback]
    exact produceCommitment_eq hstart
  · rw [commit_produceCommitment hslots]
    exact tentativeCommitment_eq hslots

end Commitments

/-- A payment in a new asset under a new sequence number, rolled back and committed. -/
theorem rollback_commit_exact_payment :
    ∃ before tentative,
      (⟨[⟨10, 10⟩], [], .ofId 0, 7, 0⟩ : UserAccount).produceCommitment = .ok before ∧
      tentative.assets = [⟨0, 10⟩, ⟨1, 0⟩, ⟨2, 5⟩] ∧ tentative.lastCommittedId = 256 ∧
      let v := (⟨[⟨10, 10⟩], [], .ofId 0, 7, 0⟩ : UserAccount).run
        [.transferAvailable 2 5, .reserveSequenceNumber 256]
      v.tentativeCommitment = .ok tentative ∧ v.rollback.tentativeCommitment = .ok before ∧
      v.rollback.produceCommitment = .ok before ∧ v.commit.produceCommitment = .ok tentative ∧
      v.commit.Settled := by
  obtain ⟨before, tentative, hbefore, htentative, hrest⟩ := rollback_commit_exact
    ⟨[⟨10, 10⟩], [], .ofId 0, 7, 0⟩ [.transferAvailable 2 5, .reserveSequenceNumber 256] rfl
    (by decide +kernel)
  obtain ⟨c, hc, hvalues⟩ := returns_iff.mp (show returns
    ((⟨[⟨10, 10⟩], [], .ofId 0, 7, 0⟩ : UserAccount).run
      [.transferAvailable 2 5, .reserveSequenceNumber 256]).tentativeCommitment (fun c =>
        c.assets = [⟨0, 10⟩, ⟨1, 0⟩, ⟨2, 5⟩] && c.lastCommittedId = 256) = true by decide +kernel)
  simp only [Bool.and_eq_true, decide_eq_true_eq] at hvalues
  cases htentative.symm.trans hc
  exact ⟨before, _, hbefore, hvalues.1, hvalues.2, htentative, hrest⟩

end UserAccount

end Speedex
