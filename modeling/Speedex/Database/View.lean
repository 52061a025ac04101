import Speedex.Database.MemoryDatabase

/-! A transaction's view of the account database (`memory_database/memory_database_view.cc`).  Both
views keep the accounts that the transaction creates.  The buffered view of block production also
keeps credits back until the transaction succeeds, and what it took from the accounts, to be able to
return it. -/

namespace Speedex

open Lib

/-- A `UserAccount*`: to an account of the database, or to one that the view created. -/
inductive AccountPtr where
  | main (idx : Nat)
  | fresh (account : AccountID)
deriving DecidableEq

structure SeqnoReservation where
  account : Nat
  seqno : UInt64
deriving DecidableEq

/-! ### Account creation -/

/-- `AccountCreationView`.  The list has the newest account first, and `temporary_idxs` maps the ids
in it to their accounts. -/
structure AccountCreationView where
  newAccounts : List (AccountID × UserAccount)
  reservations : List SeqnoReservation
deriving DecidableEq

namespace AccountCreationView

def empty : AccountCreationView := ⟨[], []⟩

def lookupUser (v : AccountCreationView) (db : MemoryDatabase) (account : AccountID) :
    Option AccountPtr :=
  match db.lookupUser account with
  | some idx => some (.main idx)
  | none => if account ∈ v.newAccounts.map (·.1) then some (.fresh account) else none

/-- The pointer is to be used only with a status of `SUCCESS`. -/
def createNewAccount (v : AccountCreationView) (db : MemoryDatabase) (account : AccountID)
    (pk : PublicKey) : TransactionProcessingStatus × MemoryDatabase × AccountCreationView :=
  let (status, db) := db.reserveAccountCreation account
  if status ≠ .SUCCESS then (status, db, v)
  else (.SUCCESS, db, { v with newAccounts := (account, .new account pk) :: v.newAccounts })

def reserveSequenceNumber (v : AccountCreationView) (db : MemoryDatabase) (idx : Nat)
    (sequenceNumber : UInt64) :
    Result (TransactionProcessingStatus × MemoryDatabase × AccountCreationView) := do
  let (status, db) ← db.reserveSequenceNumber idx sequenceNumber
  if status = .SUCCESS then
    return (status, db, { v with reservations := v.reservations ++ [⟨idx, sequenceNumber⟩] })
  else return (status, db, v)

/-- `f` at an account that the view created. -/
def modifyNewAccount (v : AccountCreationView) (account : AccountID)
    (f : UserAccount → UserAccount) : AccountCreationView :=
  { v with newAccounts := v.newAccounts.map fun a => if a.1 = account then (a.1, f a.2) else a }

/-- A conditional change to an account that the view created. -/
def conditionalNewAccount (v : AccountCreationView) (account : AccountID)
    (f : UserAccount → Bool × UserAccount) : TransactionProcessingStatus × AccountCreationView :=
  let succeeds := (v.newAccounts.find? (·.1 = account)).any fun a => (f a.2).1
  (if succeeds then .SUCCESS else .INSUFFICIENT_BALANCE,
    v.modifyNewAccount account fun u => (f u).2)

/-- `commit`.  Committing a sequence number does nothing. -/
def commit (v : AccountCreationView) (db : MemoryDatabase) : MemoryDatabase :=
  v.newAccounts.foldl (fun db a => db.commitAccountCreation a.2) db

def unwind (v : AccountCreationView) (db : MemoryDatabase) : Result MemoryDatabase :=
  v.reservations.foldlM (fun db res => db.releaseSequenceNumber res.account res.seqno)
    (v.newAccounts.foldl (fun db a => db.releaseAccountCreation a.1) db)

end AccountCreationView

/-! ### One account of a buffered view -/

/-- `UserAccountView`: credits not yet given, and debits already taken. -/
structure UserAccountView where
  availableBuffer : SortedMap AssetID Int64
  availableSideEffects : SortedMap AssetID Int64
deriving DecidableEq

namespace UserAccountView

def empty : UserAccountView := ⟨∅, ∅⟩

/-- `available_buffer[asset]`. -/
def buffered (v : UserAccountView) (asset : AssetID) : Int64 := (v.availableBuffer.find? asset).getD 0

def sideEffect (v : UserAccountView) (asset : AssetID) : Int64 :=
  (v.availableSideEffects.find? asset).getD 0

def setBuffer (v : UserAccountView) (asset : AssetID) (amount : Int64) : UserAccountView :=
  { v with availableBuffer := v.availableBuffer.insert asset amount }

/-- `available_side_effects[asset] += amount`. -/
def addSideEffect (v : UserAccountView) (asset : AssetID) (amount : Int64) : UserAccountView :=
  { v with availableSideEffects := v.availableSideEffects.insert asset (v.sideEffect asset + amount) }

/-- Settle a new buffer: what it lacks is taken from the account by `take`, if that succeeds. -/
def settle (v : UserAccountView) (db : MemoryDatabase) (asset : AssetID) (newBuffer : Int64)
    (take : Bool × MemoryDatabase) :
    TransactionProcessingStatus × MemoryDatabase × UserAccountView :=
  if newBuffer < 0 then
    if take.1 then (.SUCCESS, take.2, (v.addSideEffect asset newBuffer).setBuffer asset 0)
    else (.INSUFFICIENT_BALANCE, take.2, v.setBuffer asset (v.buffered asset))
  else (.SUCCESS, db, v.setBuffer asset newBuffer)

def conditionalEscrow (v : UserAccountView) (db : MemoryDatabase) (main : Nat) (asset : AssetID)
    (amount : Int64) : TransactionProcessingStatus × MemoryDatabase × UserAccountView :=
  if amount < 0 then (.SUCCESS, db, v.setBuffer asset (v.buffered asset - amount))
  else
    let newBuffer := v.buffered asset - amount
    v.settle db asset newBuffer (db.conditionalEscrow main asset (-newBuffer))

def transferAvailable (v : UserAccountView) (db : MemoryDatabase) (main : Nat) (asset : AssetID)
    (amount : Int64) : TransactionProcessingStatus × MemoryDatabase × UserAccountView :=
  let newBuffer := v.buffered asset + amount
  v.settle db asset newBuffer (db.conditionalTransferAvailable main asset newBuffer)

/-- `commit`.  The credits are to different assets, so that their order does not matter. -/
def commit (v : UserAccountView) (db : MemoryDatabase) (main : Nat) : MemoryDatabase :=
  v.availableBuffer.entries.foldl (fun db a => db.transferAvailable main a.1 a.2) db

def unwind (v : UserAccountView) (db : MemoryDatabase) (main : Nat) : MemoryDatabase :=
  v.availableSideEffects.entries.foldl (fun db a => db.transferAvailable main a.1 (-a.2)) db

end UserAccountView

/-! ### The two views -/

/-- What transactions need of a view of the database. -/
class DatabaseView (V : Type) where
  creation : V → AccountCreationView
  setCreation : V → AccountCreationView → V
  escrow : V → MemoryDatabase → AccountPtr → AssetID → Int64 →
    TransactionProcessingStatus × MemoryDatabase × V
  transferAvailable : V → MemoryDatabase → AccountPtr → AssetID → Int64 →
    TransactionProcessingStatus × MemoryDatabase × V

/-- The view of block production. -/
structure BufferedMemoryDatabaseView extends AccountCreationView where
  accounts : SortedMap Nat UserAccountView
deriving DecidableEq

namespace BufferedMemoryDatabaseView

def empty : BufferedMemoryDatabaseView := ⟨.empty, ∅⟩

/-- `get_existing_account`. -/
def getExistingAccount (v : BufferedMemoryDatabaseView) (account : Nat) : UserAccountView :=
  (v.accounts.find? account).getD .empty

/-- Run an operation on the view of an account. -/
def onAccount (v : BufferedMemoryDatabaseView) (account : Nat)
    (op : UserAccountView → TransactionProcessingStatus × MemoryDatabase × UserAccountView) :
    TransactionProcessingStatus × MemoryDatabase × BufferedMemoryDatabaseView :=
  let (status, db, view) := op (v.getExistingAccount account)
  (status, db, { v with accounts := v.accounts.insert account view })

def onNewAccount (v : BufferedMemoryDatabaseView) (db : MemoryDatabase) (account : AccountID)
    (f : UserAccount → Bool × UserAccount) :
    TransactionProcessingStatus × MemoryDatabase × BufferedMemoryDatabaseView :=
  let (status, creation) := v.conditionalNewAccount account f
  (status, db, { v with toAccountCreationView := creation })

def escrow (v : BufferedMemoryDatabaseView) (db : MemoryDatabase) (account : AccountPtr)
    (asset : AssetID) (amount : Int64) :
    TransactionProcessingStatus × MemoryDatabase × BufferedMemoryDatabaseView :=
  match account with
  | .fresh id => v.onNewAccount db id (·.conditionalEscrow asset amount)
  | .main idx => v.onAccount idx (·.conditionalEscrow db idx asset amount)

def transferAvailable (v : BufferedMemoryDatabaseView) (db : MemoryDatabase) (account : AccountPtr)
    (asset : AssetID) (amount : Int64) :
    TransactionProcessingStatus × MemoryDatabase × BufferedMemoryDatabaseView :=
  match account with
  | .fresh id => v.onNewAccount db id (·.conditionalTransferAvailable asset amount)
  | .main idx => v.onAccount idx (·.transferAvailable db idx asset amount)

instance : DatabaseView BufferedMemoryDatabaseView where
  creation v := v.toAccountCreationView
  setCreation v creation := { v with toAccountCreationView := creation }
  escrow := escrow
  transferAvailable := transferAvailable

/-- `commit`.  The accounts differ, so that their order does not matter. -/
def commit (v : BufferedMemoryDatabaseView) (db : MemoryDatabase) : MemoryDatabase :=
  v.toAccountCreationView.commit (v.accounts.entries.foldl (fun db a => a.2.commit db a.1) db)

def unwind (v : BufferedMemoryDatabaseView) (db : MemoryDatabase) : Result MemoryDatabase :=
  v.toAccountCreationView.unwind (v.accounts.entries.foldl (fun db a => a.2.unwind db a.1) db)

end BufferedMemoryDatabaseView

/-- The view of block validation, which checks balances only at the end of the block. -/
structure UnbufferedMemoryDatabaseView extends AccountCreationView
deriving DecidableEq

namespace UnbufferedMemoryDatabaseView

def empty : UnbufferedMemoryDatabaseView := ⟨.empty⟩

/-- A change to an account, wherever it is. -/
def onPtr (v : UnbufferedMemoryDatabaseView) (db : MemoryDatabase) (account : AccountPtr)
    (f : UserAccount → UserAccount) :
    TransactionProcessingStatus × MemoryDatabase × UnbufferedMemoryDatabaseView :=
  match account with
  | .fresh id => (.SUCCESS, db, ⟨v.modifyNewAccount id f⟩)
  | .main idx => (.SUCCESS, db.modifyAccount idx f, v)

def escrow (v : UnbufferedMemoryDatabaseView) (db : MemoryDatabase) (account : AccountPtr)
    (asset : AssetID) (amount : Int64) :
    TransactionProcessingStatus × MemoryDatabase × UnbufferedMemoryDatabaseView :=
  v.onPtr db account (·.escrow asset amount)

def transferAvailable (v : UnbufferedMemoryDatabaseView) (db : MemoryDatabase)
    (account : AccountPtr) (asset : AssetID) (amount : Int64) :
    TransactionProcessingStatus × MemoryDatabase × UnbufferedMemoryDatabaseView :=
  v.onPtr db account (·.transferAvailable asset amount)

instance : DatabaseView UnbufferedMemoryDatabaseView where
  creation v := v.toAccountCreationView
  setCreation _ creation := ⟨creation⟩
  escrow := escrow
  transferAvailable := transferAvailable

end UnbufferedMemoryDatabaseView

end Speedex
