import Speedex.Database.MemoryDatabase

/-! What the transaction filter keeps for one account (`filtering/account_filter_entry.cc`). -/

namespace Speedex

open Lib

inductive FilterResult where
  | VALID_NO_TXS
  | VALID_HAS_TXS
  | MISSING_REQUIREMENT
  | INVALID_DUPLICATE
  | ACCOUNT_NEXIST
  | OVERFLOW_REQ
deriving DecidableEq, Repr

/-- How often each account is created (`filtering/filter_log.cc`). -/
structure AccountCreationFilter where
  createdCounts : SortedMap AccountID UInt32
deriving DecidableEq

namespace AccountCreationFilter

def logAccountCreation (f : AccountCreationFilter) (src : AccountID) : AccountCreationFilter :=
  ⟨f.createdCounts.insert src ((f.createdCounts.find? src).getD 0 + 1)⟩

end AccountCreationFilter

/-- The account that `lookup_user` points to. -/
def MemoryDatabase.lookupAccount (db : MemoryDatabase) (account : AccountID) : Option UserAccount :=
  (db.lookupUser account).bind (db.database[·]?)

/-- `get_last_committed_seq_number`. -/
def UserAccount.getLastCommittedSeqNumber (u : UserAccount) : UInt64 := u.seqTracker.lastCommittedId

/-- `lookup_available_balance`, which does not see the assets that are new in this block. -/
def UserAccount.lookupAvailableBalance (u : UserAccount) (asset : AssetID) : Int64 :=
  match u.ownedAssets[asset.toNat]? with
  | none => 0
  | some a => a.available

structure AccountFilterEntry where
  account : AccountID
  minSeqNo : UInt64
  initialized : Bool
  reqsComputed : Bool
  txs : SortedMap UInt64 SignedTransaction
  requiredAssets : SortedMap AssetID Int64
  consumedCancelIds : Finset UInt64
  foundBadDuplicate : Bool
  foundInvalidReqs : Bool
  foundAccountNexist : Bool
  overflowReq : Bool
  doubleCancel : Bool
  checkedReqsCached : Bool
deriving DecidableEq

namespace AccountFilterEntry

/-- `UINT64_MAX`, the value of `min_seq_no` until it is looked up. -/
def unknownSeqNo : UInt64 := 0xFFFFFFFFFFFFFFFF

/-- `AccountFilterEntry(account)`. -/
def new (account : AccountID) : AccountFilterEntry where
  account := account
  minSeqNo := unknownSeqNo
  initialized := true
  reqsComputed := false
  txs := ∅
  requiredAssets := ∅
  consumedCancelIds := ∅
  foundBadDuplicate := false
  foundInvalidReqs := false
  foundAccountNexist := false
  overflowReq := false
  doubleCancel := false
  checkedReqsCached := false

def foundError (e : AccountFilterEntry) : Bool :=
  e.foundBadDuplicate || e.foundInvalidReqs || e.foundAccountNexist || e.overflowReq ||
    e.doubleCancel

def logInvalidAccount (e : AccountFilterEntry) : AccountFilterEntry :=
  { e with foundAccountNexist := true }

def logBadDuplicate (e : AccountFilterEntry) : AccountFilterEntry :=
  { e with foundBadDuplicate := true }

def logOverflowReq (e : AccountFilterEntry) : AccountFilterEntry := { e with overflowReq := true }

def logDoubleCancel (e : AccountFilterEntry) : AccountFilterEntry := { e with doubleCancel := true }

def logReqsInvalid (e : AccountFilterEntry) : AccountFilterEntry :=
  { e with checkedReqsCached := true, foundInvalidReqs := true }

def logReqsChecked (e : AccountFilterEntry) : AccountFilterEntry :=
  { e with checkedReqsCached := true }

/-- `required_assets[asset]`. -/
def required (e : AccountFilterEntry) (asset : AssetID) : Int64 :=
  (e.requiredAssets.find? asset).getD 0

def addReq (e : AccountFilterEntry) (asset : AssetID) (amount : Int64) : AccountFilterEntry :=
  if amount < 0 then e
  else if e.foundError then e
  else if RevertableAsset.addOverflows amount (e.required asset) then
    { e with requiredAssets := e.requiredAssets.insert asset Int64.maxValue }.logOverflowReq
  else { e with requiredAssets := e.requiredAssets.insert asset (e.required asset + amount) }

def addCancelId (e : AccountFilterEntry) (id : UInt64) : AccountFilterEntry :=
  if id ∈ e.consumedCancelIds then e.logDoubleCancel
  else { e with consumedCancelIds := insert id e.consumedCancelIds }

/-- One operation in the loop of `compute_reqs`. -/
def computeOpReqs (s : AccountFilterEntry × AccountCreationFilter) :
    Operation → AccountFilterEntry × AccountCreationFilter
  | .CREATE_ACCOUNT op =>
    (s.1.addReq MemoryDatabase.nativeAsset op.startingBalance,
      s.2.logAccountCreation op.newAccountId)
  | .CREATE_SELL_OFFER op => (s.1.addReq op.category.sellAsset op.amount, s.2)
  | .CANCEL_SELL_OFFER op => (s.1.addCancelId op.offerId, s.2)
  | .PAYMENT op => (s.1.addReq op.asset op.amount, s.2)
  | .MONEY_PRINTER _ => s

/-- One transaction in the loop of `compute_reqs`. -/
def computeTxReqs (s : AccountFilterEntry × AccountCreationFilter) (tx : SignedTransaction) :
    AccountFilterEntry × AccountCreationFilter :=
  let s := tx.transaction.operations.foldl computeOpReqs s
  (s.1.addReq MemoryDatabase.nativeAsset tx.transaction.maxFee.toUInt64.toInt64, s.2)

def computeReqs (e : AccountFilterEntry) (accounts : AccountCreationFilter) :
    Result (AccountFilterEntry × AccountCreationFilter) :=
  if e.reqsComputed then .error (.runtimeError "double compute reqs")
  else
    let (e, accounts) := e.txs.values.foldl computeTxReqs (e, accounts)
    .ok ({ e with reqsComputed := true }, accounts)

/-- `add_tx` once the minimum sequence number is known. -/
def recordTx (e : AccountFilterEntry) (tx : SignedTransaction) : AccountFilterEntry :=
  if tx.sequenceNumber ≤ e.minSeqNo then e
  else match e.txs.find? tx.sequenceNumber with
    | some txOld => if txOld ≠ tx then e.logBadDuplicate else e
    | none => { e with txs := e.txs.insert tx.sequenceNumber tx }

def addTx (e : AccountFilterEntry) (db : MemoryDatabase) (tx : SignedTransaction) :
    AccountFilterEntry :=
  if e.foundError then e
  else if e.minSeqNo = unknownSeqNo then
    match db.lookupAccount e.account with
    | none => e.logReqsInvalid
    | some acc => { e with minSeqNo := acc.getLastCommittedSeqNumber }.recordTx tx
  else e.recordTx tx

def assertInitialized (e : AccountFilterEntry) : Result Unit :=
  if !e.initialized then .error (.runtimeError "uninit") else .ok ()

def computeValidity (e : AccountFilterEntry) (db : MemoryDatabase)
    (accounts : AccountCreationFilter) : Result (AccountFilterEntry × AccountCreationFilter) :=
  if e.checkedReqsCached then .error (.runtimeError "double check valid")
  else if e.foundError then .ok (e.logReqsChecked, accounts)
  else do
    e.assertInitialized
    let (e, accounts) ← e.computeReqs accounts
    match db.lookupAccount e.account with
    | none => return (e.logInvalidAccount, accounts)
    | some acc =>
      if e.requiredAssets.entries.any fun a => acc.lookupAvailableBalance a.1 < a.2 then
        return (e.logReqsInvalid, accounts)
      else return (e.logReqsChecked, accounts)

def checkValid (e : AccountFilterEntry) : Result FilterResult :=
  if !e.checkedReqsCached then .error (.runtimeError "check before computing valid or not")
  else if e.foundBadDuplicate then .ok .INVALID_DUPLICATE
  else if e.foundAccountNexist then .ok .ACCOUNT_NEXIST
  else if e.foundInvalidReqs then .ok .MISSING_REQUIREMENT
  else if e.overflowReq then .ok .OVERFLOW_REQ
  else .ok .VALID_HAS_TXS

/-- The loop of `merge_in` over the transactions that `txs.merge` left behind. -/
def checkDuplicates (e : AccountFilterEntry) :
    List (UInt64 × SignedTransaction) → Result AccountFilterEntry
  | [] => .ok e
  | (seqno, tx) :: rest =>
    match e.txs.find? seqno with
    | none => .error (.runtimeError "error in map merge")
    | some txOld => if txOld ≠ tx then .ok e.logBadDuplicate else e.checkDuplicates rest

/-- The flags and the minimum in `merge_in`. -/
def mergeFlags (e other : AccountFilterEntry) : AccountFilterEntry :=
  { e with
    minSeqNo := min e.minSeqNo other.minSeqNo
    foundBadDuplicate := e.foundBadDuplicate || other.foundBadDuplicate
    foundInvalidReqs := e.foundInvalidReqs || other.foundInvalidReqs
    foundAccountNexist := e.foundAccountNexist || other.foundAccountNexist
    overflowReq := e.overflowReq || other.overflowReq }

def mergeIn (e other : AccountFilterEntry) : Result AccountFilterEntry :=
  let e := e.mergeFlags other
  if e.foundError then .ok e
  else do
    other.assertInitialized
    if e.initialized && other.account ≠ e.account then throw (.runtimeError "invalid merge")
    else if other.reqsComputed || e.reqsComputed then throw (.runtimeError "improper merge")
    else if e.checkedReqsCached then throw (.runtimeError "improper merge in post check")
    else
      -- `txs.merge` keeps what is there, and leaves behind what it did not move
      let leftBehind := other.txs.filter fun seqno _ => e.txs.contains seqno
      { e with initialized := true, txs := other.txs.union e.txs }.checkDuplicates leftBehind.entries

end AccountFilterEntry

end Speedex
