import Speedex.Filtering.Splitting

/-! Whether the filter gives every account a verdict. -/

namespace Speedex

open Lib

/-- The transactions of one account. -/
def ofAccount (account : AccountID) (l : List SignedTransaction) : List SignedTransaction :=
  l.filter fun tx => tx.source = account

theorem ofAccount_append (account : AccountID) (l l' : List SignedTransaction) :
    ofAccount account (l ++ l') = ofAccount account l ++ ofAccount account l' :=
  List.filter_append ..

theorem ofAccount_ne_nil {account : AccountID} {l : List SignedTransaction} :
    ofAccount account l ≠ [] ↔ ∃ tx ∈ l, tx.source = account := by
  simp [ofAccount, List.filter_eq_nil_iff]

namespace AccountFilterEntry

variable {account : AccountID} {last : UInt64} {l l' : List SignedTransaction}
  {tx : SignedTransaction} {e other : AccountFilterEntry} {db : MemoryDatabase}

theorem Represents.perm (h : Represents account last l e) (hperm : l.Perm l') :
    Represents account last l' e := by
  cases h with
  | conflicting hconflict hfound hunchecked =>
    exact .conflicting (hconflict.mono hperm.subset) hfound hunchecked
  | @collected txs hcollects =>
    have hcollects' : Collects last l' txs := by
      intro seqno tx
      rw [hcollects seqno tx, Live, Live, hperm.mem_iff]
    have hnil : l = [] ↔ l' = [] := by
      rw [← List.length_eq_zero_iff, ← List.length_eq_zero_iff, hperm.length_eq]
    have hmin : lookedUp last l = lookedUp last l' := by simp [lookedUp, hnil]
    rw [hmin]
    exact .collected hcollects'

/-- What an entry with transactions is like.  The entry of an account that does not exist counts as
checked before it is. -/
def Tracks (db : MemoryDatabase) (account : AccountID) (l : List SignedTransaction)
    (e : AccountFilterEntry) : Prop :=
  match db.lookupAccount account with
  | some u => Represents account u.getLastCommittedSeqNumber l e
  | none => e.foundInvalidReqs = true ∧ e.checkedReqsCached = true

theorem foundError_of_invalidReqs (h : e.foundInvalidReqs = true) : e.foundError = true := by
  simp [foundError, h]

theorem tracks_first : Tracks db account [tx] ((new account).addTx db tx) := by
  unfold Tracks
  split
  · rename_i u hu
    exact represents_new.addTx hu rfl
  · rename_i hnone
    have hinvalid : (new account).addTx db tx = (new account).logReqsInvalid := by
      simp [addTx, foundError, new, hnone]
    rw [hinvalid]
    exact ⟨rfl, rfl⟩

theorem Tracks.addTx (h : Tracks db account l e) : Tracks db account (tx :: l) (e.addTx db tx) := by
  unfold Tracks at h ⊢
  split
  · rename_i u hu
    rw [hu] at h
    exact Represents.addTx h hu rfl
  · rename_i hnone
    rw [hnone] at h
    rwa [AccountFilterEntry.addTx, if_pos (foundError_of_invalidReqs h.1)]

theorem Tracks.mergeIn (h : Tracks db account l e) (h' : Tracks db account l' other) :
    ∃ merged, e.mergeIn other = .ok merged ∧ Tracks db account (l ++ l') merged := by
  unfold Tracks at h h' ⊢
  cases hu : db.lookupAccount account with
  | some u =>
    rw [hu] at h h'
    exact Represents.mergeIn h h'
  | none =>
    rw [hu] at h h'
    have hinvalid : (e.mergeFlags other).foundInvalidReqs = true := by simp [mergeFlags, h.1]
    refine ⟨e.mergeFlags other, ?_, hinvalid, h.2⟩
    simp [AccountFilterEntry.mergeIn, foundError_of_invalidReqs hinvalid]

theorem Tracks.perm (h : Tracks db account l e) (hperm : l.Perm l') : Tracks db account l' e := by
  unfold Tracks at h ⊢
  split
  · rename_i u hu
    rw [hu] at h
    exact Represents.perm h hperm
  · rename_i hnone
    rwa [hnone] at h

end AccountFilterEntry

/-! ### The tries -/

namespace FilterTrie

open AccountFilterEntry

variable {db : MemoryDatabase} {t t' other : FilterTrie} {l l' : List SignedTransaction}

/-- The trie has an entry for every account with transactions, and no other. -/
def Tracks (db : MemoryDatabase) (l : List SignedTransaction) (t : FilterTrie) : Prop :=
  ∀ account, match t.find? account with
    | none => ofAccount account l = []
    | some e => ofAccount account l ≠ [] ∧
        AccountFilterEntry.Tracks db account (ofAccount account l) e

theorem tracks_empty : Tracks db [] ∅ := fun _ => rfl

theorem Tracks.insertTx (h : Tracks db l t) (tx : SignedTransaction) :
    Tracks db (l ++ [tx]) (t.insertTx db tx) := by
  intro account
  have hsource := h account
  rw [FilterTrie.insertTx, SortedMap.find?_insert, ofAccount_append]
  by_cases haccount : tx.source = account
  · have hone : ofAccount account [tx] = [tx] := by simp [ofAccount, haccount]
    rw [if_pos haccount, hone]
    subst haccount
    dsimp only
    refine ⟨by simp, ?_⟩
    cases hfind : t.find? tx.source with
    | none =>
      rw [hfind] at hsource
      rw [hsource]
      exact tracks_first
    | some e =>
      rw [hfind] at hsource
      have hadded : AccountFilterEntry.Tracks db tx.source
        (tx :: ofAccount tx.source l) (e.addTx db tx) := hsource.2.addTx
      exact hadded.perm (List.perm_append_singleton tx _).symm
  · have hnone : ofAccount account [tx] = [] := by simp [ofAccount, haccount]
    rw [if_neg haccount, hnone, List.append_nil]
    exact hsource

theorem tracks_localLog (l : List SignedTransaction) :
    Tracks db l (l.foldl (insertTx db) ∅) := by
  have hfold : ∀ (l l₀ : List SignedTransaction) (t : FilterTrie), Tracks db l₀ t →
      Tracks db (l₀ ++ l) (l.foldl (insertTx db) t) := by
    intro l
    induction l with
    | nil =>
      intro l₀ t ht
      simpa using ht
    | cons tx l ih =>
      intro l₀ t ht
      have hnext := ih (l₀ ++ [tx]) _ (ht.insertTx tx)
      rwa [List.append_assoc] at hnext
  exact hfold l [] ∅ tracks_empty

/-- What a merge leaves under each key, if every merge of two values returns. -/
theorem foldlM_mergeValue {rest : List (AccountID × AccountFilterEntry)}
    (hnodup : (rest.map (·.1)).Nodup)
    (hreturns : ∀ a ∈ rest, ∀ into, t.find? a.1 = some into → ∃ merged, into.mergeIn a.2 = .ok merged) :
    ∃ t', rest.foldlM mergeValue t = .ok t' ∧
      (∀ k, k ∉ rest.map (·.1) → t'.find? k = t.find? k) ∧
      ∀ a ∈ rest, ∃ e, t'.find? a.1 = some e ∧ match t.find? a.1 with
        | none => e = a.2
        | some into => into.mergeIn a.2 = .ok e := by
  induction rest generalizing t with
  | nil => exact ⟨t, rfl, fun _ _ => rfl, fun _ ha => absurd ha List.not_mem_nil⟩
  | cons a rest ih =>
    obtain ⟨ha, hnodup⟩ := List.nodup_cons.mp hnodup
    obtain ⟨t₁, ht₁, e, hfind, he⟩ : ∃ t₁, t.mergeValue a = .ok t₁ ∧ ∃ e, t₁ = t.insert a.1 e ∧
        match t.find? a.1 with
        | none => e = a.2
        | some into => into.mergeIn a.2 = .ok e := by
      unfold mergeValue
      cases hfind : t.find? a.1 with
      | none => exact ⟨_, rfl, a.2, rfl, rfl⟩
      | some into =>
        obtain ⟨merged, hmerged⟩ := hreturns a List.mem_cons_self into hfind
        dsimp only
        rw [hmerged]
        exact ⟨_, rfl, merged, rfl, rfl⟩
    subst hfind
    have hkeys : ∀ b ∈ rest, (t.insert a.1 e).find? b.1 = t.find? b.1 := by
      intro b hb
      refine SortedMap.find?_insert_ne (fun hab => ha ?_) t e
      exact List.mem_map.mpr ⟨b, hb, hab.symm⟩
    obtain ⟨t', ht', hframe, hall⟩ := ih hnodup fun b hb into hinto =>
      hreturns b (List.mem_cons_of_mem a hb) into (hkeys b hb ▸ hinto)
    refine ⟨t', foldlM_cons.mpr ⟨_, ht₁, ht'⟩, fun k hk => ?_, fun b hb => ?_⟩
    · rw [List.map_cons, List.mem_cons, not_or] at hk
      rw [hframe k hk.2, SortedMap.find?_insert_ne (Ne.symm hk.1)]
    · rcases List.mem_cons.mp hb with rfl | hb
      · refine ⟨e, ?_, he⟩
        rw [hframe b.1 ha, SortedMap.find?_insert_self]
      · have hb' := hall b hb
        rwa [hkeys b hb] at hb'

theorem Tracks.mergeIn (h : Tracks db l t) (h' : Tracks db l' other) :
    ∃ merged, t.mergeIn other = .ok merged ∧ Tracks db (l ++ l') merged := by
  have hboth : ∀ account into e, t.find? account = some into → other.find? account = some e →
      ∃ merged, into.mergeIn e = .ok merged ∧
        AccountFilterEntry.Tracks db account (ofAccount account (l ++ l')) merged := by
    intro account into e hinto he
    have hl := h account
    have hl' := h' account
    rw [hinto] at hl
    rw [he] at hl'
    rw [ofAccount_append]
    exact hl.2.mergeIn hl'.2
  obtain ⟨merged, hmerged, hframe, hall⟩ := foldlM_mergeValue other.nodup_keys (t := t)
    (fun a ha into hinto => by
      obtain ⟨e, he, -⟩ := hboth a.1 into a.2 hinto (SortedMap.mem_entries.mp ha)
      exact ⟨e, he⟩)
  refine ⟨merged, hmerged, fun account => ?_⟩
  have hl := h account
  have hl' := h' account
  rw [ofAccount_append]
  cases he : other.find? account with
  | none =>
    have hnot : account ∉ other.keys := by
      rw [SortedMap.mem_keys, SortedMap.contains, he]
      decide
    rw [he] at hl'
    rw [hframe account hnot, hl', List.append_nil]
    exact hl
  | some e =>
    rw [he] at hl'
    obtain ⟨e', hfind, hvalue⟩ := hall (account, e) (SortedMap.mem_entries.mpr he)
    dsimp only at hfind hvalue
    rw [hfind]
    refine ⟨fun hnil => hl'.1 (List.append_eq_nil_iff.mp hnil).2, ?_⟩
    cases hinto : t.find? account with
    | none =>
      rw [hinto] at hvalue hl
      dsimp only at hvalue hl
      rw [hvalue, hl]
      exact hl'.2
    | some into =>
      rw [hinto] at hvalue
      obtain ⟨merged', hmerged', htracks⟩ := hboth account into e hinto he
      obtain rfl := Except.ok.inj (hvalue.symm.trans hmerged')
      rwa [← ofAccount_append]

end FilterTrie

theorem LocalLogs.trie_tracks (db : MemoryDatabase) (logs : LocalLogs) :
    ∃ t, logs.trie db = .ok t ∧ FilterTrie.Tracks db logs.txs t := by
  induction logs with
  | localLog txs => exact ⟨_, rfl, FilterTrie.tracks_localLog txs⟩
  | merge into other ih ih' =>
    obtain ⟨t, ht, htracks⟩ := ih
    obtain ⟨t', ht', htracks'⟩ := ih'
    obtain ⟨merged, hmerged, htracks''⟩ := htracks.mergeIn htracks'
    refine ⟨merged, ?_, htracks''⟩
    rw [trie, ht, ht']
    exact hmerged

namespace FilterLog

variable {db : MemoryDatabase} {log log' : FilterLog}

/-- The loop over the entries gives each entry its verdict, if every `compute_validity` returns. -/
theorem foldlM_validateEntry {rest : List (AccountID × AccountFilterEntry)}
    (hnodup : (rest.map (·.1)).Nodup)
    (hreturns : ∀ a ∈ rest, ∀ accounts, ∃ p, a.2.computeValidity db accounts = .ok p) :
    ∃ log', rest.foldlM (validateEntry db) log = .ok log' ∧
      (∀ k, k ∉ rest.map (·.1) → log'.entries.find? k = log.entries.find? k) ∧
      ∀ a ∈ rest, ∃ e accounts accounts', log'.entries.find? a.1 = some e ∧
        a.2.computeValidity db accounts = .ok (e, accounts') := by
  induction rest generalizing log with
  | nil => exact ⟨log, rfl, fun _ _ => rfl, fun _ ha => absurd ha List.not_mem_nil⟩
  | cons a rest ih =>
    obtain ⟨ha, hnodup⟩ := List.nodup_cons.mp hnodup
    obtain ⟨⟨e, accounts'⟩, hvalidity⟩ := hreturns a List.mem_cons_self log.accounts
    have hstep : log.validateEntry db a = .ok ⟨log.entries.insert a.1 e, accounts'⟩ := by
      rw [validateEntry, hvalidity]
      rfl
    obtain ⟨log', hlog', hframe, hall⟩ := @ih ⟨log.entries.insert a.1 e, accounts'⟩ hnodup
      fun b hb => hreturns b (List.mem_cons_of_mem a hb)
    refine ⟨log', foldlM_cons.mpr ⟨_, hstep, hlog'⟩, fun k hk => ?_, fun b hb => ?_⟩
    · rw [List.map_cons, List.mem_cons, not_or] at hk
      rw [hframe k hk.2, SortedMap.find?_insert_ne (Ne.symm hk.1)]
    · rcases List.mem_cons.mp hb with rfl | hb
      · refine ⟨e, log.accounts, accounts', ?_, hvalidity⟩
        rw [hframe b.1 ha, SortedMap.find?_insert_self]
      · exact hall b hb

/-- `add_txs` returns, every account gets a verdict, and it is `ACCOUNT_NEXIST` exactly for the
accounts that have transactions but are not in the database. -/
def GivesVerdicts (db : MemoryDatabase) (txs : List SignedTransaction) (result : Result FilterLog) :
    Prop :=
  ∃ log, result = .ok log ∧ ∀ account, ∃ r, log.checkValidAccount account = .ok r ∧
    (r = .ACCOUNT_NEXIST ↔
      (∃ tx ∈ txs, tx.source = account) ∧ db.lookupAccount account = none)

/-- The filter gives every account a verdict exactly when every transaction comes from an account in
the database. -/
theorem givesVerdicts_iff (db : MemoryDatabase) (logs : LocalLogs) :
    GivesVerdicts db logs.txs (empty.addTxs logs db) ↔
      ∀ tx ∈ logs.txs, (db.lookupAccount tx.source).isSome := by
  obtain ⟨t, ht, htracks⟩ := logs.trie_tracks db
  obtain ⟨entries, hentries, htracks⟩ := FilterTrie.tracks_empty.mergeIn htracks
  rw [List.nil_append] at htracks
  have hadd : empty.addTxs logs db = entries.entries.foldlM (validateEntry db) ⟨entries, ⟨∅⟩⟩ := by
    rw [addTxs, ht, ok_bind, show empty.entries = ∅ from rfl, hentries]
    rfl
  rw [hadd]
  constructor
  · rintro ⟨log, hlog, -⟩ tx htx
    by_contra hnone
    rw [Option.not_isSome_iff_eq_none] at hnone
    have hentry := htracks tx.source
    cases he : entries.find? tx.source with
    | none =>
      rw [he] at hentry
      exact ofAccount_ne_nil.mpr ⟨tx, htx, rfl⟩ hentry
    | some e =>
      rw [he] at hentry
      have hchecked := hentry.2
      rw [AccountFilterEntry.Tracks, hnone] at hchecked
      -- the entry counts as checked, so its `compute_validity` throws
      obtain ⟨log₁, log₂, hstep⟩ := foldlM_mem hlog (SortedMap.mem_entries.mpr he)
      rw [validateEntry, AccountFilterEntry.computeValidity, if_pos hchecked.2] at hstep
      cases hstep
  · intro hexist
    have hverdict : ∀ account e, entries.find? account = some e → ∃ u,
        db.lookupAccount account = some u ∧ AccountFilterEntry.Represents account
          u.getLastCommittedSeqNumber (ofAccount account logs.txs) e := by
      intro account e he
      have hentry := htracks account
      rw [he] at hentry
      obtain ⟨tx, htx, rfl⟩ := ofAccount_ne_nil.mp hentry.1
      obtain ⟨u, hu⟩ := Option.isSome_iff_exists.mp (hexist tx htx)
      have hrepresents := hentry.2
      rw [AccountFilterEntry.Tracks, hu] at hrepresents
      exact ⟨u, hu, hrepresents⟩
    obtain ⟨log', hlog', hframe, hall⟩ := @foldlM_validateEntry db ⟨entries, ⟨∅⟩⟩ entries.entries
      entries.nodup_keys (fun a ha accounts => by
        obtain ⟨u, hu, hrepresents⟩ := hverdict a.1 a.2 (SortedMap.mem_entries.mp ha)
        obtain ⟨e', accounts', r, hvalidity, -⟩ := hrepresents.computeValidity hu accounts
        exact ⟨_, hvalidity⟩)
    refine ⟨log', hlog', fun account => ?_⟩
    cases he : entries.find? account with
    | none =>
      have hnot : account ∉ entries.keys := by
        rw [SortedMap.mem_keys, SortedMap.contains, he]
        decide
      have hentry := htracks account
      rw [he] at hentry
      refine ⟨.VALID_NO_TXS, ?_, fun hr => absurd hr (by decide), fun hnexist => ?_⟩
      · rw [checkValidAccount, hframe account hnot, he]
      · exact absurd hentry (ofAccount_ne_nil.mpr hnexist.1)
    | some e =>
      obtain ⟨u, hu, hrepresents⟩ := hverdict account e he
      obtain ⟨e', accounts, accounts', hfind, hvalidity⟩ :=
        hall (account, e) (SortedMap.mem_entries.mpr he)
      obtain ⟨e₁, accounts₁, r, hvalidity₁, hcheck, hne, -⟩ := hrepresents.computeValidity hu accounts
      obtain ⟨rfl, -⟩ := Prod.mk.inj (Except.ok.inj (hvalidity₁.symm.trans hvalidity))
      refine ⟨r, ?_, fun hr => absurd hr hne, fun hnexist => ?_⟩
      · rw [checkValidAccount, hfind]
        exact hcheck
      · rw [hu] at hnexist
        cases hnexist.2

/-- One transaction of an account that does not exist. -/
theorem not_givesVerdicts_nexist :
    empty.addTxs (.localLog [emptyTx 3 256 10]) oneSenderDb =
        .error (.runtimeError "double check valid") ∧
      ¬ GivesVerdicts oneSenderDb [emptyTx 3 256 10]
        (empty.addTxs (.localLog [emptyTx 3 256 10]) oneSenderDb) := by
  have hthrows : empty.addTxs (.localLog [emptyTx 3 256 10]) oneSenderDb =
      .error (.runtimeError "double check valid") := throws_iff.mp (by decide +kernel)
  refine ⟨hthrows, ?_⟩
  rintro ⟨log, hlog, -⟩
  rw [hthrows] at hlog
  cases hlog

end FilterLog

end Speedex
