import Speedex.BlockProcessing.Unwinding
import Speedex.BlockProcessing.Validator
import Speedex.Lib.GuardedUpdates

/-! What the transactions of a block do while it is validated, as updates of a state in which nothing
is kept in the order in which it came in.  A sequence number, the id of a new account and the
deletion of an offer can be taken once in a block.  All other updates are always possible, and
balances are looked at only at the end of the block. -/

namespace Speedex

open Lib

/-! ### Sequence numbers -/

namespace SequenceTracker

variable {t : SequenceTracker} {n m : UInt64}

/-- The bit that a reservation sets; none if the sequence number is out of range. -/
def reservedBit (t : SequenceTracker) (n : UInt64) : UInt64 :=
  if n ≤ t.lastCommittedId then 0
  else if getSeqNumOffset n t.lastCommittedId ≥ 64 then 0
  else 1 <<< getSeqNumOffset n t.lastCommittedId

theorem reserve_snd (t : SequenceTracker) (n : UInt64) :
    (t.reserveSequenceNumber n).2 =
      { t with sequenceNumberVec := t.sequenceNumberVec ||| t.reservedBit n } := by
  unfold reserveSequenceNumber reservedBit
  split_ifs with hlow hhigh
  · simp
  · simp [hhigh]
  · dsimp only
    rw [if_neg hhigh]
    split <;> rfl

theorem reserve_comm (t : SequenceTracker) (n m : UInt64) :
    ((t.reserveSequenceNumber n).2.reserveSequenceNumber m).2 =
      ((t.reserveSequenceNumber m).2.reserveSequenceNumber n).2 := by
  simp only [reserve_snd, SequenceTracker.mk.injEq, true_and]
  change t.sequenceNumberVec ||| t.reservedBit n ||| t.reservedBit m =
    t.sequenceNumberVec ||| t.reservedBit m ||| t.reservedBit n
  rw [UInt64.or_assoc, UInt64.or_comm (t.reservedBit n), ← UInt64.or_assoc]

/-- A place in the window says how far above the last committed one a sequence number is. -/
theorem toNat_getSeqNumOffset {last : UInt64} (hlow : ¬ n ≤ last)
    (hlt : (getSeqNumOffset n last).toNat < 64) :
    (n.toNat - last.toNat) / 256 = (getSeqNumOffset n last).toNat + 1 := by
  have hle : last ≤ n := UInt64.le_of_lt (UInt64.not_le.mp hlow)
  have hquotient : ((n - last) / 256).toNat = (n.toNat - last.toNat) / 256 := by
    rw [UInt64.toNat_div, UInt64.toNat_sub_of_le _ _ hle]
    rfl
  have hsmall := n.toNat_lt
  unfold getSeqNumOffset at hlt ⊢
  dsimp only at hlt ⊢
  split at hlt
  · exact absurd hlt (by decide)
  · rename_i hwithin
    rw [if_neg hwithin]
    rw [UInt64.toNat_sub, hquotient] at hlt ⊢
    change (2 ^ 64 - 1 + (n.toNat - last.toNat) / 256) % 2 ^ 64 < 64 at hlt
    change (n.toNat - last.toNat) / 256 = (2 ^ 64 - 1 + (n.toNat - last.toNat) / 256) % 2 ^ 64 + 1
    omega

/-- Sequence numbers of transactions with the same place in the window are the same. -/
theorem getSeqNumOffset_inj (hn : formatChecked n) (hm : formatChecked m) {last : UInt64}
    (hlow : ¬ n ≤ last) (hlow' : ¬ m ≤ last) (hlt : (getSeqNumOffset n last).toNat < 64)
    (h : getSeqNumOffset n last = getSeqNumOffset m last) : n = m := by
  have hplace := toNat_getSeqNumOffset hlow hlt
  have hplace' := toNat_getSeqNumOffset hlow' (h ▸ hlt)
  rw [Reserved.formatChecked_iff] at hn hm
  rw [UInt64.le_iff_toNat_le] at hlow hlow'
  rw [← h] at hplace'
  exact UInt64.toNat_inj.mp (by omega)

/-- A sequence number can be reserved if it is in the window and its bit is not set. -/
theorem reserve_succeeds_iff : (t.reserveSequenceNumber n).1 = .SUCCESS ↔
    ¬ n ≤ t.lastCommittedId ∧ (getSeqNumOffset n t.lastCommittedId).toNat < 64 ∧
      bit t.sequenceNumberVec (getSeqNumOffset n t.lastCommittedId).toNat = false := by
  constructor
  · intro h
    rcases t.reserve_cases n with ⟨hfailed, -⟩ | ⟨o, rfl, hlow, ho, hbit, -⟩
    · exact absurd h hfailed
    · exact ⟨hlow, ho, hbit⟩
  · rintro ⟨hlow, ho, hbit⟩
    have hwithin : ¬ getSeqNumOffset n t.lastCommittedId ≥ 64 :=
      not_le.mpr (UInt64.lt_iff_toNat_lt.mpr ho)
    have hclear : t.sequenceNumberVec &&& 1 <<< getSeqNumOffset n t.lastCommittedId = 0 := by
      by_contra hset
      rw [(and_mask_ne_zero ho).mp hset] at hbit
      cases hbit
    simp [reserveSequenceNumber, hlow, hwithin, hclear]

/-- After a reservation every other sequence number can be reserved that could be before. -/
theorem reserve_reserve (hn : formatChecked n) (hm : formatChecked m)
    (h : (t.reserveSequenceNumber n).1 = .SUCCESS) :
    ((t.reserveSequenceNumber n).2.reserveSequenceNumber m).1 = .SUCCESS ↔
      (t.reserveSequenceNumber m).1 = .SUCCESS ∧ n ≠ m := by
  rcases t.reserve_cases n with ⟨hfailed, -⟩ | ⟨o, rfl, hlow, ho, -, heq⟩
  · exact absurd h hfailed
  rw [heq, reserve_succeeds_iff, reserve_succeeds_iff]
  simp only [bit_or_mask ho, Bool.or_eq_false_iff, decide_eq_false_iff_not]
  constructor
  · rintro ⟨hlow', ho', hbit, hne⟩
    refine ⟨⟨hlow', ho', hbit⟩, ?_⟩
    rintro rfl
    exact hne rfl
  · rintro ⟨⟨hlow', ho', hbit⟩, hne⟩
    refine ⟨hlow', ho', hbit, fun hsame => hne ?_⟩
    exact getSeqNumOffset_inj hn hm hlow hlow' ho (UInt64.toNat_inj.mp hsame)

end SequenceTracker

/-! ### Accounts -/

namespace UserAccount

variable (u : UserAccount) (asset asset' : AssetID) (x y : Int64) (n m : UInt64)

theorem transferAvailable_transferAvailable :
    (u.transferAvailable asset x).transferAvailable asset' y =
      (u.growTo (max (asset.toNat + 1) (asset'.toNat + 1))).shift
        (Pi.single asset.toNat x + Pi.single asset'.toNat y) := by
  have hzero : ∀ i, (u.growTo (asset.toNat + 1)).slots ≤ i →
      (Pi.single asset.toNat x : Nat → Int64) i = 0 := by
    intro i hi
    rw [slots_growTo] at hi
    have hne : i ≠ asset.toNat := by omega
    exact Pi.single_eq_of_ne (M := fun _ => Int64) hne x
  rw [transferAvailable_eq, transferAvailable_eq, ← growTo_shift hzero, growTo_growTo, shift_shift]

theorem transferAvailable_comm :
    (u.transferAvailable asset x).transferAvailable asset' y =
      (u.transferAvailable asset' y).transferAvailable asset x := by
  rw [transferAvailable_transferAvailable, transferAvailable_transferAvailable,
    max_comm (asset.toNat + 1)]
  exact congrArg _ (add_comm _ _)

@[simp] theorem seqTracker_transferAvailable :
    (u.transferAvailable asset x).seqTracker = u.seqTracker := by
  rw [transferAvailable_eq, seqTracker_shift, seqTracker_growTo]

theorem pk_transferAvailable : (u.transferAvailable asset x).pk = u.pk := by
  rw [transferAvailable_eq]
  rfl

theorem reserve_reserve_comm :
    ((u.reserveSequenceNumber n).2.reserveSequenceNumber m).2 =
      ((u.reserveSequenceNumber m).2.reserveSequenceNumber n).2 := by
  simp [reserveSequenceNumber, u.seqTracker.reserve_comm n m]

theorem reserve_transferAvailable :
    ((u.transferAvailable asset x).reserveSequenceNumber n).2 =
      (u.reserveSequenceNumber n).2.transferAvailable asset x := by
  simp only [reserveSequenceNumber, transferAvailable_eq]
  rfl

/-- A debit is a credit of the negated amount. -/
theorem escrow_eq_transferAvailable : u.escrow asset x = u.transferAvailable asset (-x) := by
  rw [escrow_eq, transferAvailable_eq]

end UserAccount

/-! ### What a block adds -/

instance : Zero FractionalAsset := ⟨⟨0⟩⟩

instance : AddCommMonoid FractionalAsset where
  add_assoc a b c := congrArg FractionalAsset.mk (BitVec.add_assoc a.value b.value c.value)
  zero_add a := congrArg FractionalAsset.mk (BitVec.zero_add a.value)
  add_zero a := congrArg FractionalAsset.mk (BitVec.add_zero a.value)
  add_comm a b := congrArg FractionalAsset.mk (BitVec.add_comm a.value b.value)
  nsmul := nsmulRec

/-- What serial validators gather: the new offers that stay on the books, by orderbook, the supply
of those that were cleared at once, and their executions.  `size` is the length of the statistics. -/
@[ext] structure Produced where
  newOffers : Nat → Multiset (OfferKey × OfferLeaf)
  supplies : Nat → FractionalAsset
  size : Nat
  executed : Multiset Execution

namespace Produced

instance : Zero Produced := ⟨⟨0, 0, 0, 0⟩⟩

instance : Add Produced := ⟨fun p q =>
  ⟨p.newOffers + q.newOffers, p.supplies + q.supplies, max p.size q.size, p.executed + q.executed⟩⟩

@[simp] theorem newOffers_zero : (0 : Produced).newOffers = 0 := rfl
@[simp] theorem supplies_zero : (0 : Produced).supplies = 0 := rfl
@[simp] theorem size_zero : (0 : Produced).size = 0 := rfl
@[simp] theorem executed_zero : (0 : Produced).executed = 0 := rfl

variable (p q : Produced)

@[simp] theorem newOffers_add : (p + q).newOffers = p.newOffers + q.newOffers := rfl
@[simp] theorem supplies_add : (p + q).supplies = p.supplies + q.supplies := rfl
@[simp] theorem size_add : (p + q).size = max p.size q.size := rfl
@[simp] theorem executed_add : (p + q).executed = p.executed + q.executed := rfl

instance : AddCommMonoid Produced where
  add_assoc p q r := by ext1 <;> simp [add_assoc, max_assoc]
  zero_add p := by ext1 <;> simp
  add_zero p := by ext1 <;> simp
  add_comm p q := by ext1 <;> simp [add_comm, max_comm]
  nsmul := nsmulRec

end Produced

/-- The entry of an account in the log: transactions, own operations, operations of others. -/
abbrev LogEntry := Multiset SignedTransaction × Multiset UInt64 × Multiset TxIdentifier

/-! ### The state -/

/-- The part of the state that transactions change while a block is validated. -/
@[ext] structure BlockState where
  accounts : List UserAccount
  reservedAccountIds : Finset AccountID
  created : Multiset UserAccount
  /-- the committed offers of the orderbooks, with their marks -/
  committedOffers : List OrderbookTrie
  log : AccountID → Option LogEntry
  produced : Produced

/-- What a transaction does to the state. -/
inductive Update where
  /-- reserve a sequence number of an account -/
  | reserve (idx : Nat) (sequenceNumber : UInt64)
  | transfer (idx : Nat) (asset : AssetID) (amount : Int64)
  /-- reserve the id of a new account -/
  | reserveId (account : AccountID)
  | create (account : UserAccount)
  /-- mark an offer for deletion -/
  | mark (book : Nat) (key : OfferKey)
  | log (account : AccountID) (entry : LogEntry)
  | produce (p : Produced)

namespace BlockState

/-- Mark the offer under a key. -/
def markLeaf (t : OrderbookTrie) (key : OfferKey) : OrderbookTrie :=
  t.modify key fun leaf => { leaf with deleted := true }

def effect (s : BlockState) : Update → BlockState
  | .reserve idx n =>
    { s with accounts := s.accounts.modify idx fun u => (u.reserveSequenceNumber n).2 }
  | .transfer idx asset amount =>
    { s with accounts := s.accounts.modify idx fun u => u.transferAvailable asset amount }
  | .reserveId account =>
    { s with reservedAccountIds := insert account s.reservedAccountIds }
  | .create account => { s with created := account ::ₘ s.created }
  | .mark book key => { s with committedOffers := s.committedOffers.modify book (markLeaf · key) }
  | .log account entry =>
    { s with log := Function.update s.log account (some ((s.log account).getD 0 + entry)) }
  | .produce p => { s with produced := s.produced + p }

/-- What can be taken only once must be free. -/
def allowed (s : BlockState) : Update → Bool
  | .reserve idx n => decide (formatChecked n) &&
    s.accounts[idx]?.any fun u => decide ((u.reserveSequenceNumber n).1 = .SUCCESS)
  | .reserveId account => decide (account ∉ s.reservedAccountIds)
  | .mark book key =>
    (s.committedOffers[book]?.bind fun t => t.find? key).any fun leaf => !leaf.deleted
  | .transfer .. | .create .. | .log .. | .produce .. => true

theorem markLeaf_comm (t : OrderbookTrie) (key key' : OfferKey) :
    markLeaf (markLeaf t key) key' = markLeaf (markLeaf t key') key := by
  refine SortedMap.ext_find fun k => ?_
  simp only [markLeaf, SortedMap.find?_modify]
  split_ifs <;> rfl

/-- A leaf that has been marked. -/
theorem find?_markLeaf (t : OrderbookTrie) (key key' : OfferKey) :
    (markLeaf t key).find? key' = (t.find? key').map fun leaf =>
      { leaf with deleted := leaf.deleted || decide (key = key') } := by
  rw [markLeaf, SortedMap.find?_modify]
  by_cases h : key = key' <;> simp [h]

end BlockState

/-- The update takes something that can be taken once in a block. -/
def Update.exclusive : Update → Bool
  | .reserve .. | .reserveId .. | .mark .. => true
  | .transfer .. | .create .. | .log .. | .produce .. => false

namespace BlockState

/-- The order of two updates does not matter for what they do. -/
theorem effect_comm (s : BlockState) (u v : Update) :
    (s.effect u).effect v = (s.effect v).effect u := by
  cases u with
  | reserve idx n =>
    cases v with
    | reserve idx' n' =>
      refine congrArg (fun l => { s with accounts := l }) ?_
      exact modify_comm (fun a => a.reserve_reserve_comm n' n) _ _ _
    | transfer idx' asset x =>
      refine congrArg (fun l => { s with accounts := l }) ?_
      exact modify_comm (fun a => a.reserve_transferAvailable asset x n) _ _ _
    | _ => rfl
  | transfer idx asset x =>
    cases v with
    | reserve idx' n =>
      refine congrArg (fun l => { s with accounts := l }) ?_
      exact modify_comm (fun a => (a.reserve_transferAvailable asset x n).symm) _ _ _
    | transfer idx' asset' y =>
      refine congrArg (fun l => { s with accounts := l }) ?_
      exact modify_comm (fun a => a.transferAvailable_comm asset' asset y x) _ _ _
    | _ => rfl
  | reserveId account =>
    cases v with
    | reserveId account' =>
      exact congrArg (fun ids => { s with reservedAccountIds := ids })
        (Finset.insert_comm account' account _)
    | _ => rfl
  | create account =>
    cases v with
    | create account' =>
      exact congrArg (fun l => { s with created := l }) (Multiset.cons_swap account' account _)
    | _ => rfl
  | mark book key =>
    cases v with
    | mark book' key' =>
      refine congrArg (fun l => { s with committedOffers := l }) ?_
      exact modify_comm (fun t => markLeaf_comm t key' key) _ _ _
    | _ => rfl
  | log account entry =>
    cases v with
    | log account' entry' =>
      refine congrArg (fun log => { s with log := log }) (funext fun k => ?_)
      by_cases hsame : account = account'
      · subst hsame
        by_cases hk : k = account
        · subst hk
          simp [effect, add_right_comm]
        · simp [effect, Function.update_of_ne hk]
      · rw [effect, effect]
        simp only [Function.update_of_ne hsame, Function.update_of_ne (Ne.symm hsame)]
        rw [Function.update_comm hsame]
    | _ => rfl
  | produce p =>
    cases v with
    | produce q => exact congrArg (fun p => { s with produced := p }) (add_right_comm _ p q)
    | _ => rfl

variable {s : BlockState} {u : Update}

theorem allowed_reserve {idx : Nat} {n : UInt64} : s.allowed (.reserve idx n) = true ↔
    formatChecked n ∧ ∃ u, s.accounts[idx]? = some u ∧
      (u.seqTracker.reserveSequenceNumber n).1 = .SUCCESS := by
  simp only [allowed, Option.any_eq_true, Bool.and_eq_true, decide_eq_true_eq]
  rfl

theorem allowed_reserveId {account : AccountID} :
    s.allowed (.reserveId account) = true ↔ account ∉ s.reservedAccountIds := by
  simp [allowed]

theorem allowed_mark {book : Nat} {key : OfferKey} : s.allowed (.mark book key) = true ↔
    ∃ t leaf, s.committedOffers[book]? = some t ∧ t.find? key = some leaf ∧
      leaf.deleted = false := by
  simp only [allowed, Option.any_eq_true, Option.bind_eq_some_iff, Bool.not_eq_true']
  constructor
  · rintro ⟨leaf, ⟨t, ht, hleaf⟩, hfree⟩
    exact ⟨t, leaf, ht, hleaf, hfree⟩
  · rintro ⟨t, leaf, ht, hleaf, hfree⟩
    exact ⟨leaf, ⟨t, ht, hleaf⟩, hfree⟩

theorem allowed_reserve_effect {idx idx' : Nat} {n m : UInt64}
    (h : s.allowed (.reserve idx n) = true) :
    (s.effect (.reserve idx n)).allowed (.reserve idx' m) = true ↔
      s.allowed (.reserve idx' m) = true ∧ ¬ (idx = idx' ∧ n = m) := by
  obtain ⟨hn, u, hu, hfree⟩ := allowed_reserve.mp h
  rw [allowed_reserve, allowed_reserve, effect, List.getElem?_modify]
  by_cases hidx : idx = idx'
  · subst hidx
    rw [hu]
    simp only [if_true]
    constructor
    · rintro ⟨hm, u', hu', hreserved⟩
      cases hu'
      obtain ⟨hbefore, hne⟩ := (SequenceTracker.reserve_reserve hn hm hfree).mp hreserved
      exact ⟨⟨hm, u, rfl, hbefore⟩, fun hsame => hne hsame.2⟩
    · rintro ⟨⟨hm, u', hu', hbefore⟩, hne⟩
      cases hu'
      exact ⟨hm, _, rfl, (SequenceTracker.reserve_reserve hn hm hfree).mpr
        ⟨hbefore, fun hsame => hne ⟨trivial, hsame⟩⟩⟩
  · simp [hidx]

theorem allowed_reserve_transfer {idx idx' : Nat} {n : UInt64} {asset : AssetID} {x : Int64} :
    (s.effect (.transfer idx asset x)).allowed (.reserve idx' n) = true ↔
      s.allowed (.reserve idx' n) = true := by
  rw [allowed_reserve, allowed_reserve, effect, List.getElem?_modify]
  by_cases hidx : idx = idx'
  · subst hidx
    cases s.accounts[idx]? with
    | none => simp
    | some u => simp
  · simp [hidx]

theorem allowed_mark_effect {book book' : Nat} {key key' : OfferKey} :
    (s.effect (.mark book key)).allowed (.mark book' key') = true ↔
      s.allowed (.mark book' key') = true ∧ ¬ (book = book' ∧ key = key') := by
  rw [allowed_mark, allowed_mark, effect, List.getElem?_modify]
  by_cases hbook : book = book'
  · subst hbook
    cases s.committedOffers[book]? with
    | none => simp
    | some t =>
      cases hleaf : t.find? key' with
      | none => simp [find?_markLeaf, hleaf]
      | some leaf => simp [find?_markLeaf, hleaf]
  · simp [hbook]

/-- The update leaves alone what the other one takes. -/
theorem allowed_effect_of_eq {v : Update} (h : (s.effect u).allowed v = s.allowed v)
    (hne : u.exclusive = true → u ≠ v) : (s.effect u).allowed v = true ↔
      s.allowed v = true ∧ (u.exclusive = true → u ≠ v) := by
  rw [h]
  exact ⟨fun hv => ⟨hv, hne⟩, And.left⟩

/-- An update forbids another only by taking the same. -/
theorem allowed_effect (h : s.allowed u = true) (v : Update) : (s.effect u).allowed v = true ↔
    s.allowed v = true ∧ (u.exclusive = true → u ≠ v) := by
  cases u with
  | reserve idx n =>
    cases v with
    | reserve idx' m =>
      rw [allowed_reserve_effect h]
      simp [Update.exclusive]
    | _ => exact allowed_effect_of_eq rfl (by simp)
  | reserveId account =>
    cases v with
    | reserveId account' =>
      rw [allowed_reserveId, allowed_reserveId, effect, Finset.mem_insert, not_or, and_comm]
      simp [Update.exclusive, eq_comm]
    | _ => exact allowed_effect_of_eq rfl (by simp)
  | mark book key =>
    cases v with
    | mark book' key' =>
      rw [allowed_mark_effect]
      simp [Update.exclusive]
    | _ => exact allowed_effect_of_eq rfl (by simp)
  | transfer idx asset x =>
    cases v with
    | reserve idx' n =>
      rw [allowed_reserve_transfer]
      simp
    | _ => exact allowed_effect_of_eq rfl (by simp [Update.exclusive])
  | create account | log account entry | produce p =>
    refine allowed_effect_of_eq ?_ (by simp [Update.exclusive])
    cases v <;> rfl

/-- The updates of a block. -/
def updates : GuardedUpdates BlockState Update where
  allowed := allowed
  effect := effect
  compatible u v := u.exclusive = true → u ≠ v
  compatible_symm := by
    rintro u v h hv rfl
    exact h hv rfl
  effect_comm := effect_comm
  allowed_effect := allowed_effect

end BlockState

end Speedex
