import Speedex.Filtering.AccountFilterEntry

/-! The transaction filter (`filtering/filter_log.cc`): the accounts' entries, made in local logs and
merged. -/

namespace Speedex

open Lib

abbrev FilterTrie := SortedMap AccountID AccountFilterEntry

namespace FilterTrie

/-- `insert<AccountFilterInsertFn>`. -/
def insertTx (db : MemoryDatabase) (t : FilterTrie) (tx : SignedTransaction) : FilterTrie :=
  let e := (t.find? tx.source).getD (.new tx.source)
  t.insert tx.source (e.addTx db tx)

/-- One value of another trie in `merge_in<AccountFilterMergeFn>`. -/
def mergeValue (t : FilterTrie) (a : AccountID × AccountFilterEntry) : Result FilterTrie :=
  match t.find? a.1 with
  | none => .ok (t.insert a.1 a.2)
  | some into => do
    let e ← into.mergeIn a.2
    return t.insert a.1 e

/-- The merge of two tries. -/
def mergeIn (t other : FilterTrie) : Result FilterTrie := other.entries.foldlM mergeValue t

end FilterTrie

/-- How the transactions are split among local logs, and the order in which these are merged. -/
inductive LocalLogs where
  | localLog (txs : List SignedTransaction)
  | merge (into other : LocalLogs)

namespace LocalLogs

/-- All transactions of the logs. -/
def txs : LocalLogs → List SignedTransaction
  | localLog txs => txs
  | merge into other => into.txs ++ other.txs

/-- The trie that the local logs are merged into. -/
def trie (db : MemoryDatabase) : LocalLogs → Result FilterTrie
  | localLog txs => .ok (txs.foldl (FilterTrie.insertTx db) ∅)
  | merge into other => do
    let t ← into.trie db
    let t' ← other.trie db
    t.mergeIn t'

end LocalLogs

structure FilterLog where
  entries : FilterTrie
  accounts : AccountCreationFilter

namespace FilterLog

def empty : FilterLog := ⟨∅, ⟨∅⟩⟩

/-- One entry in the loop over all entries. -/
def validateEntry (db : MemoryDatabase) (log : FilterLog) (a : AccountID × AccountFilterEntry) :
    Result FilterLog := do
  let (e, accounts) ← a.2.computeValidity db log.accounts
  return ⟨log.entries.insert a.1 e, accounts⟩

/-- `add_txs`, with the transactions as they are split among the workers. -/
def addTxs (log : FilterLog) (logs : LocalLogs) (db : MemoryDatabase) : Result FilterLog := do
  let t ← logs.trie db
  let entries ← log.entries.mergeIn t
  entries.entries.foldlM (validateEntry db) { log with entries := entries }

def checkValidAccount (log : FilterLog) (account : AccountID) : Result FilterResult :=
  match log.entries.find? account with
  | none => .ok .VALID_NO_TXS
  | some e => e.checkValid

end FilterLog

end Speedex
