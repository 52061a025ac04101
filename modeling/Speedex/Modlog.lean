import Speedex.Database.MemoryDatabase

/-! The log of modified accounts (`modlog/account_modification_log.cc`, `modlog/log_entry_fns.cc`).
Threads write to serial logs in a cache, which is merged into the main log. -/

namespace Speedex

open Lib

/-- `AccountModificationLog`: the serial logs' entries, and the merged log. -/
structure AccountModificationLog where
  cache : ModificationTrie
  modificationLog : ModificationTrie
deriving DecidableEq

/-- `LogListInsertFn`: insert into the entry of an account, which is new if it has none. -/
def ModificationTrie.valueInsert (log : ModificationTrie) (account : AccountID)
    (f : AccountModificationTxList → AccountModificationTxList) : ModificationTrie :=
  log.insert account (f ((log.find? account).getD default))

/-- `log_self_modification`. -/
def ModificationTrie.logSelfModification (log : ModificationTrie) (owner : AccountID)
    (sequenceNumber : UInt64) : ModificationTrie :=
  log.valueInsert owner fun l =>
    { l with identifiersSelf := l.identifiersSelf ++ [sequenceNumber] }

/-- `log_other_modification`. -/
def ModificationTrie.logOtherModification (log : ModificationTrie) (txOwner : AccountID)
    (sequenceNumber : UInt64) (modifiedAccount : AccountID) : ModificationTrie :=
  log.valueInsert modifiedAccount fun l =>
    { l with identifiersOthers := l.identifiersOthers ++ [⟨txOwner, sequenceNumber⟩] }

/-- `log_new_self_transaction`. -/
def ModificationTrie.logNewSelfTransaction (log : ModificationTrie) (tx : SignedTransaction) :
    ModificationTrie :=
  log.valueInsert tx.transaction.metadata.sourceAccount fun l =>
    { l with newTransactionsSelf := l.newTransactionsSelf ++ [tx] }

/-- `LogMergeFn::value_merge`. -/
def AccountModificationTxList.valueMerge (original mergeIn : AccountModificationTxList) :
    AccountModificationTxList where
  newTransactionsSelf := original.newTransactionsSelf ++ mergeIn.newTransactionsSelf
  identifiersSelf := original.identifiersSelf ++ mergeIn.identifiersSelf
  identifiersOthers := original.identifiersOthers ++ mergeIn.identifiersOthers

namespace AccountModificationLog

def empty : AccountModificationLog := ⟨∅, ∅⟩

/-- `merge_in_log_batch`: merge the cached entries into the main log. -/
def mergeInLogBatch (log : AccountModificationLog) : AccountModificationLog where
  cache := ∅
  modificationLog := log.cache.entries.foldl (fun m a => m.valueInsert a.1 (·.valueMerge a.2))
    log.modificationLog

/-- `detached_clear`. -/
def detachedClear (_ : AccountModificationLog) : AccountModificationLog := empty

end AccountModificationLog

end Speedex
