import Speedex.Arithmetic

/-! One user's account (`memory_database/revertable_asset.h`, `memory_database/sequence_tracker.cc`,
`memory_database/user_account.cc`): revertable balances, the window of reserved sequence numbers,
and the commitments that are hashed. -/

namespace Speedex

/-! ### Balances -/

/-- An amount of an asset that can be reverted to its last committed value. -/
structure RevertableAsset where
  available : Int64
  committedAvailable : Int64
deriving DecidableEq

namespace RevertableAsset

/-- `RevertableAsset()`. -/
def zero : RevertableAsset := ⟨0, 0⟩

instance : Inhabited RevertableAsset := ⟨zero⟩

/-- `RevertableAsset(amount)`. -/
def ofAmount (amount : Int64) : RevertableAsset := ⟨amount, amount⟩

def escrow (a : RevertableAsset) (amount : Int64) : RevertableAsset :=
  { a with available := a.available - amount }

def transferAvailable (a : RevertableAsset) (amount : Int64) : RevertableAsset :=
  { a with available := a.available + amount }

/-- `__builtin_add_overflow_p` on `int64_t`. -/
def addOverflows (x y : Int64) : Bool := (x + y).toInt ≠ x.toInt + y.toInt

/-- A positive amount is always added.  Any other amount is added unless the sum overflows or is
negative. -/
def conditionalTransferAvailable (a : RevertableAsset) (amount : Int64) : Bool × RevertableAsset :=
  if amount > 0 then (true, a.transferAvailable amount)
  else if addOverflows a.available amount then (false, a)
  else if a.available + amount < 0 then (false, a)
  else (true, { a with available := a.available + amount })

def conditionalEscrow (a : RevertableAsset) (amount : Int64) : Bool × RevertableAsset :=
  if amount = Int64.minValue then (false, a)
  else if amount > 0 then a.conditionalTransferAvailable (-amount)
  else (true, a.transferAvailable (-amount))

def produceCommitment (a : RevertableAsset) (asset : AssetID) : AssetCommitment :=
  ⟨asset, a.committedAvailable.toUInt64⟩

def tentativeCommitment (a : RevertableAsset) (asset : AssetID) : AssetCommitment :=
  ⟨asset, a.available.toUInt64⟩

def commit (a : RevertableAsset) : RevertableAsset :=
  { a with committedAvailable := a.available }

def rollback (a : RevertableAsset) : RevertableAsset :=
  { a with available := a.committedAvailable }

def inValidState (a : RevertableAsset) : Bool := a.available ≥ 0

end RevertableAsset

/-! ### Sequence numbers -/

/-- `UInt64SequenceTracker`: bit `i` of the vector reserves
`lastCommittedId + (i + 1) * MAX_OPS_PER_TX`. -/
structure SequenceTracker where
  lastCommittedId : UInt64
  sequenceNumberVec : UInt64
deriving DecidableEq

namespace SequenceTracker

/-- `UInt64SequenceTracker(last_committed_id)`. -/
def ofId (lastCommittedId : UInt64) : SequenceTracker := ⟨lastCommittedId, 0⟩

/-- `uint64_get_seq_num_offset`. -/
def getSeqNumOffset (sequenceNumber lastCommittedId : UInt64) : UInt64 :=
  let offset := (sequenceNumber - lastCommittedId) / 256 - 1
  if offset ≥ 64 then 255 else offset

/-- `uint64_get_seq_num_increment`: `64 - clzll` is the position after the highest bit. -/
def getSeqNumIncrement (bv : UInt64) : UInt64 :=
  if bv = 0 then 0 else (bv.log2 + 1) * 256

def produceCommitment (t : SequenceTracker) : UInt64 := t.lastCommittedId

def tentativeCommitment (t : SequenceTracker) : UInt64 :=
  t.lastCommittedId + getSeqNumIncrement t.sequenceNumberVec

def reserveSequenceNumber (t : SequenceTracker) (sequenceNumber : UInt64) :
    TransactionProcessingStatus × SequenceTracker :=
  if sequenceNumber ≤ t.lastCommittedId then (.SEQ_NUM_TOO_LOW, t)
  else
    let offset := getSeqNumOffset sequenceNumber t.lastCommittedId
    if offset ≥ 64 then (.SEQ_NUM_TOO_HIGH, t)
    else
      let bitMask : UInt64 := 1 <<< offset
      let t' := { t with sequenceNumberVec := t.sequenceNumberVec ||| bitMask }
      if t.sequenceNumberVec &&& bitMask ≠ 0 then (.SEQ_NUM_TEMP_IN_USE, t') else (.SUCCESS, t')

def releaseSequenceNumber (t : SequenceTracker) (sequenceNumber : UInt64) :
    Result SequenceTracker :=
  if sequenceNumber ≤ t.lastCommittedId then
    .error (.runtimeError "cannot release invalid seq num!")
  else
    let offset := getSeqNumOffset sequenceNumber t.lastCommittedId
    if offset ≥ 64 then .error (.runtimeError "cannot release too far forward seq num!")
    else .ok { t with sequenceNumberVec := t.sequenceNumberVec &&& ~~~(1 <<< offset) }

def commit (t : SequenceTracker) : SequenceTracker :=
  ⟨t.lastCommittedId + getSeqNumIncrement t.sequenceNumberVec, 0⟩

def rollback (t : SequenceTracker) : SequenceTracker := { t with sequenceNumberVec := 0 }

end SequenceTracker

/-! ### Accounts -/

structure UserAccount where
  /-- assets owned by the account -/
  ownedAssets : List RevertableAsset
  /-- assets that the account did not own before this block -/
  uncommittedAssets : List RevertableAsset
  seqTracker : SequenceTracker
  owner : AccountID
  pk : PublicKey
deriving DecidableEq

namespace UserAccount

/-- `UserAccount(owner, public_key)`. -/
def new (owner : AccountID) (pk : PublicKey) : UserAccount := ⟨[], [], .ofId 0, owner, pk⟩

/-- The number of asset slots, committed and not. -/
def slots (u : UserAccount) : Nat := u.ownedAssets.length + u.uncommittedAssets.length

/-- Apply `func` to an asset.  An asset without a slot gets one, as do all assets below it,
whatever `func` answers. -/
def operateOnAsset {ρ : Type} (u : UserAccount) (asset : AssetID)
    (func : RevertableAsset → ρ × RevertableAsset) : ρ × UserAccount :=
  let size := u.ownedAssets.length
  if asset.toNat ≥ size then
    let idx := asset.toNat - size
    let uncommitted := u.uncommittedAssets ++
      List.replicate (idx + 1 - u.uncommittedAssets.length) RevertableAsset.zero
    let (res, a) := func (uncommitted.getD idx .zero)
    (res, { u with uncommittedAssets := uncommitted.set idx a })
  else
    let (res, a) := func (u.ownedAssets.getD asset.toNat .zero)
    (res, { u with ownedAssets := u.ownedAssets.set asset.toNat a })

def transferAvailable (u : UserAccount) (asset : AssetID) (amount : Int64) : UserAccount :=
  (u.operateOnAsset asset fun a => ((), a.transferAvailable amount)).2

def escrow (u : UserAccount) (asset : AssetID) (amount : Int64) : UserAccount :=
  (u.operateOnAsset asset fun a => ((), a.escrow amount)).2

def conditionalTransferAvailable (u : UserAccount) (asset : AssetID) (amount : Int64) :
    Bool × UserAccount :=
  u.operateOnAsset asset fun a => a.conditionalTransferAvailable amount

def conditionalEscrow (u : UserAccount) (asset : AssetID) (amount : Int64) : Bool × UserAccount :=
  u.operateOnAsset asset fun a => a.conditionalEscrow amount

def reserveSequenceNumber (u : UserAccount) (sequenceNumber : UInt64) :
    TransactionProcessingStatus × UserAccount :=
  let (status, t) := u.seqTracker.reserveSequenceNumber sequenceNumber
  (status, { u with seqTracker := t })

def releaseSequenceNumber (u : UserAccount) (sequenceNumber : UInt64) : Result UserAccount := do
  let t ← u.seqTracker.releaseSequenceNumber sequenceNumber
  return { u with seqTracker := t }

/-- Commit the current round's modifications. -/
def commit (u : UserAccount) : UserAccount :=
  { u with
    ownedAssets := u.ownedAssets.map RevertableAsset.commit ++
      u.uncommittedAssets.map fun a => .ofAmount a.available
    uncommittedAssets := []
    seqTracker := u.seqTracker.commit }

/-- Roll back the current round's modifications. -/
def rollback (u : UserAccount) : UserAccount :=
  { u with
    ownedAssets := u.ownedAssets.map RevertableAsset.rollback
    uncommittedAssets := []
    seqTracker := u.seqTracker.rollback }

def inValidState (u : UserAccount) : Bool :=
  u.ownedAssets.all RevertableAsset.inValidState &&
    u.uncommittedAssets.all RevertableAsset.inValidState

/-- The commitment to the committed balances.  The loop counter has 8 bits, so it never reaches a
size of 256 or more. -/
def produceCommitment (u : UserAccount) : Result AccountCommitment :=
  if 256 ≤ u.ownedAssets.length then .error .nontermination
  else .ok {
    owner := u.owner
    assets := u.ownedAssets.mapIdx fun i a => a.produceCommitment (.ofNat i)
    lastCommittedId := u.seqTracker.produceCommitment
    pk := u.pk }

/-- The commitment to the balances with the current round's modifications, by two loops with
8-bit counters. -/
def tentativeCommitment (u : UserAccount) : Result AccountCommitment :=
  if 256 ≤ u.ownedAssets.length ∨ 256 ≤ u.uncommittedAssets.length then .error .nontermination
  else .ok {
    owner := u.owner
    assets := u.ownedAssets.mapIdx (fun i a => a.tentativeCommitment (.ofNat i)) ++
      u.uncommittedAssets.mapIdx fun i a => a.tentativeCommitment (.ofNat (i + u.ownedAssets.length))
    lastCommittedId := u.seqTracker.tentativeCommitment
    pk := u.pk }

end UserAccount

end Speedex
