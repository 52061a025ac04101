import Speedex.Filtering.FilterLog

/-! The filter's verdict on an account does not depend on how its transactions are split among
entries, nor on the order in which they are added and the entries merged. -/

namespace Speedex

open Lib

/-- A transaction of the list that the account has not committed yet. -/
def Live (last : UInt64) (l : List SignedTransaction) (tx : SignedTransaction) : Prop :=
  tx ∈ l ∧ last < tx.sequenceNumber

/-- Two different live transactions with one sequence number. -/
def Conflict (last : UInt64) (l : List SignedTransaction) : Prop :=
  ∃ tx tx', Live last l tx ∧ Live last l tx' ∧ tx.sequenceNumber = tx'.sequenceNumber ∧ tx ≠ tx'

/-- The map holds the live transactions by their sequence numbers. -/
def Collects (last : UInt64) (l : List SignedTransaction)
    (txs : SortedMap UInt64 SignedTransaction) : Prop :=
  ∀ seqno tx, txs.find? seqno = some tx ↔ Live last l tx ∧ tx.sequenceNumber = seqno

section Live

variable {last : UInt64} {l l' : List SignedTransaction} {tx : SignedTransaction}
  {txs txs' : SortedMap UInt64 SignedTransaction}

theorem Live.mono (h : Live last l tx) (hsub : l ⊆ l') : Live last l' tx := ⟨hsub h.1, h.2⟩

theorem Conflict.mono (h : Conflict last l) (hsub : l ⊆ l') : Conflict last l' := by
  obtain ⟨tx, tx', hlive, hlive', hseqno, hne⟩ := h
  exact ⟨tx, tx', hlive.mono hsub, hlive'.mono hsub, hseqno, hne⟩

theorem Collects.no_conflict (h : Collects last l txs) : ¬ Conflict last l := by
  rintro ⟨tx, tx', hlive, hlive', hseqno, hne⟩
  have hfind := (h tx.sequenceNumber tx).mpr ⟨hlive, rfl⟩
  have hfind' := (h tx.sequenceNumber tx').mpr ⟨hlive', hseqno.symm⟩
  exact hne (Option.some.inj (hfind.symm.trans hfind'))

theorem Collects.unique (h : Collects last l txs) (h' : Collects last l' txs')
    (hsame : ∀ tx, tx ∈ l ↔ tx ∈ l') : txs = txs' := by
  refine SortedMap.ext_find fun seqno => Option.ext fun tx => ?_
  rw [h seqno tx, h' seqno tx, Live, Live, hsame tx]

theorem Collects.nil : Collects last [] ∅ := by
  intro seqno tx
  simp [Live]

/-- A transaction that is not live is not collected. -/
theorem Collects.skip (h : Collects last l txs) (hlow : tx.sequenceNumber ≤ last) :
    Collects last (tx :: l) txs := by
  intro seqno tx'
  rw [h seqno tx']
  refine and_congr_left fun _ => ⟨fun hlive => hlive.mono (List.subset_cons_self tx l), ?_⟩
  rintro ⟨hmem, hlt⟩
  rcases List.mem_cons.mp hmem with rfl | hmem
  · exact absurd hlow (not_le.mpr hlt)
  · exact ⟨hmem, hlt⟩

/-- A transaction that is there already is collected. -/
theorem Collects.again (h : Collects last l txs) (hfind : txs.find? tx.sequenceNumber = some tx) :
    Collects last (tx :: l) txs := by
  intro seqno tx'
  rw [h seqno tx']
  refine and_congr_left fun _ => ⟨fun hlive => hlive.mono (List.subset_cons_self tx l), ?_⟩
  rintro ⟨hmem, hlt⟩
  rcases List.mem_cons.mp hmem with rfl | hmem
  · exact ((h _ _).mp hfind).1
  · exact ⟨hmem, hlt⟩

theorem Collects.insert (h : Collects last l txs) (hlt : last < tx.sequenceNumber)
    (hfind : txs.find? tx.sequenceNumber = none) :
    Collects last (tx :: l) (txs.insert tx.sequenceNumber tx) := by
  intro seqno tx'
  rw [SortedMap.find?_insert]
  split
  · rename_i heq
    subst heq
    constructor
    · intro hsome
      cases hsome
      exact ⟨⟨List.mem_cons_self, hlt⟩, rfl⟩
    · rintro ⟨⟨hmem, hlt'⟩, hseqno⟩
      rcases List.mem_cons.mp hmem with rfl | hmem
      · rfl
      · have hfound := (h tx.sequenceNumber tx').mpr ⟨⟨hmem, hlt'⟩, hseqno⟩
        rw [hfind] at hfound
        cases hfound
  · rename_i hne
    rw [h seqno tx']
    constructor
    · rintro ⟨hlive, hseqno⟩
      exact ⟨hlive.mono (List.subset_cons_self tx l), hseqno⟩
    · rintro ⟨⟨hmem, hlt'⟩, hseqno⟩
      rcases List.mem_cons.mp hmem with rfl | hmem
      · exact absurd hseqno hne
      · exact ⟨⟨hmem, hlt'⟩, hseqno⟩

theorem Collects.union (h : Collects last l txs) (h' : Collects last l' txs')
    (hagree : ∀ seqno tx tx', txs.find? seqno = some tx → txs'.find? seqno = some tx' → tx = tx') :
    Collects last (l ++ l') (txs'.union txs) := by
  intro seqno tx
  have hlive : (Live last (l ++ l') tx ∧ tx.sequenceNumber = seqno) ↔
      txs.find? seqno = some tx ∨ txs'.find? seqno = some tx := by
    rw [h seqno tx, h' seqno tx, Live, Live, Live, List.mem_append]
    tauto
  rw [SortedMap.find?_union, hlive]
  cases hfind : txs.find? seqno with
  | none => simp
  | some tx₀ =>
    simp only [Option.some_or, Option.some.injEq]
    refine ⟨.inl, ?_⟩
    rintro (heq | hfind')
    · exact heq
    · exact hagree seqno tx₀ tx hfind hfind'

end Live

namespace AccountFilterEntry

/-- An entry that has only collected transactions. -/
def collected (account : AccountID) (minSeqNo : UInt64)
    (txs : SortedMap UInt64 SignedTransaction) : AccountFilterEntry :=
  { new account with minSeqNo := minSeqNo, txs := txs }

/-- What `min_seq_no` is after these transactions. -/
def lookedUp (last : UInt64) (l : List SignedTransaction) : UInt64 :=
  if l = [] then unknownSeqNo else last

/-- An entry that has seen the transactions of the list: it has collected the live ones, or has found
a conflict. -/
inductive Represents (account : AccountID) (last : UInt64) (l : List SignedTransaction) :
    AccountFilterEntry → Prop where
  | collected {txs : SortedMap UInt64 SignedTransaction} (hcollects : Collects last l txs) :
    Represents account last l (collected account (lookedUp last l) txs)
  | conflicting {e : AccountFilterEntry} (hconflict : Conflict last l)
    (hfound : e.foundBadDuplicate = true) (hunchecked : e.checkedReqsCached = false) :
    Represents account last l e

variable {account : AccountID} {last : UInt64} {l l' : List SignedTransaction}
  {tx : SignedTransaction} {e e' other : AccountFilterEntry} {db : MemoryDatabase} {u : UserAccount}

theorem foundError_of_badDuplicate (h : e.foundBadDuplicate = true) : e.foundError = true := by
  simp [foundError, h]

theorem represents_new : Represents account last [] (new account) := .collected .nil

/-- `add_tx` on an entry that has looked up its minimum. -/
theorem represents_recordTx {txs : SortedMap UInt64 SignedTransaction}
    (hcollects : Collects last l txs) :
    Represents account last (tx :: l) ((collected account last txs).recordTx tx) := by
  have hlookedUp : lookedUp last (tx :: l) = last := if_neg (List.cons_ne_nil tx l)
  unfold recordTx
  split
  · rename_i hlow
    have h : Represents account last (tx :: l) _ := .collected (hcollects.skip hlow)
    rwa [hlookedUp] at h
  rename_i hlow
  have hlt : last < tx.sequenceNumber := not_le.mp hlow
  split
  · rename_i txOld hfind
    split
    · rename_i hne
      refine .conflicting ⟨txOld, tx, ?_, ⟨List.mem_cons_self, hlt⟩, ?_, hne⟩ rfl rfl
      · exact ((hcollects _ _).mp hfind).1.mono (List.subset_cons_self tx l)
      · exact ((hcollects _ _).mp hfind).2
    · rename_i heq
      obtain rfl := not_not.mp heq
      have h : Represents account last (txOld :: l) _ := .collected (hcollects.again hfind)
      rwa [hlookedUp] at h
  · rename_i hfind
    have h : Represents account last (tx :: l) _ := .collected (hcollects.insert hlt hfind)
    rwa [hlookedUp] at h

theorem Represents.addTx (h : Represents account last l e) (hu : db.lookupAccount account = some u)
    (hlast : u.getLastCommittedSeqNumber = last) :
    Represents account last (tx :: l) (e.addTx db tx) := by
  cases h with
  | conflicting hconflict hfound hunchecked =>
    rw [AccountFilterEntry.addTx, if_pos (foundError_of_badDuplicate hfound)]
    exact .conflicting (hconflict.mono (List.subset_cons_self tx l)) hfound hunchecked
  | @collected txs hcollects =>
    have hrecord : Represents account last (tx :: l) _ := represents_recordTx hcollects
    rw [AccountFilterEntry.addTx, if_neg (by simp [foundError, AccountFilterEntry.collected, new])]
    split
    · -- the minimum is looked up now
      have haccount : (AccountFilterEntry.collected account (lookedUp last l) txs).account =
        account := rfl
      rw [haccount, hu]
      dsimp only
      rw [hlast]
      exact hrecord
    · rename_i hknown
      have hl : l ≠ [] := fun hl => hknown (if_pos hl)
      rwa [lookedUp, if_neg hl]

theorem lookedUp_append : lookedUp last (l ++ l') = min (lookedUp last l) (lookedUp last l') := by
  have hle : last ≤ unknownSeqNo := by
    have hlast := last.toNat_lt
    have hmax : unknownSeqNo.toNat = 2 ^ 64 - 1 := rfl
    rw [UInt64.le_iff_toNat_le]
    omega
  unfold lookedUp
  by_cases hl : l = [] <;> by_cases hl' : l' = [] <;> simp [hl, hl', hle]

/-- The loop of `merge_in` finds the first transaction that differs, if there is one. -/
theorem checkDuplicates_cases {rest : List (UInt64 × SignedTransaction)}
    (hfind : ∀ a ∈ rest, (e.txs.find? a.1).isSome) :
    (e.checkDuplicates rest = .ok e ∧ ∀ a ∈ rest, e.txs.find? a.1 = some a.2) ∨
      (e.checkDuplicates rest = .ok e.logBadDuplicate ∧
        ∃ a ∈ rest, ∃ txOld, e.txs.find? a.1 = some txOld ∧ txOld ≠ a.2) := by
  induction rest with
  | nil => exact .inl ⟨rfl, fun _ ha => absurd ha List.not_mem_nil⟩
  | cons a rest ih =>
    obtain ⟨seqno, tx⟩ := a
    obtain ⟨txOld, hold⟩ := Option.isSome_iff_exists.mp (hfind (seqno, tx) List.mem_cons_self)
    rw [checkDuplicates, hold]
    dsimp only
    split
    · rename_i hne
      exact .inr ⟨rfl, (seqno, tx), List.mem_cons_self, txOld, hold, hne⟩
    · rename_i heq
      rw [ne_eq, not_not] at heq
      subst heq
      rcases ih fun a ha => hfind a (List.mem_cons_of_mem _ ha) with ⟨hok, hall⟩ | ⟨hok, a, ha, hbad⟩
      · refine .inl ⟨hok, fun a ha => ?_⟩
        rcases List.mem_cons.mp ha with rfl | ha
        · exact hold
        · exact hall a ha
      · exact .inr ⟨hok, a, List.mem_cons_of_mem _ ha, hbad⟩

theorem Represents.mergeIn (h : Represents account last l e) (h' : Represents account last l' other) :
    ∃ merged, e.mergeIn other = .ok merged ∧ Represents account last (l ++ l') merged := by
  have hconflicting (hconflict : Conflict last (l ++ l'))
      (hfound : (e.foundBadDuplicate || other.foundBadDuplicate) = true)
      (hunchecked : e.checkedReqsCached = false) :
      ∃ merged, e.mergeIn other = .ok merged ∧ Represents account last (l ++ l') merged := by
    refine ⟨e.mergeFlags other, ?_, .conflicting hconflict hfound hunchecked⟩
    have herror : (e.mergeFlags other).foundError = true := foundError_of_badDuplicate hfound
    simp [AccountFilterEntry.mergeIn, herror]
  cases h with
  | conflicting hconflict hfound hunchecked =>
    exact hconflicting (hconflict.mono (List.subset_append_left l l')) (by simp [hfound]) hunchecked
  | @collected txs hcollects =>
  cases h' with
  | conflicting hconflict hfound hunchecked =>
    exact hconflicting (hconflict.mono (List.subset_append_right l l')) (by simp [hfound]) rfl
  | @collected txs' hcollects' =>
  clear hconflicting
  have hmerge : (AccountFilterEntry.collected account (lookedUp last l) txs).mergeIn
        (AccountFilterEntry.collected account (lookedUp last l') txs') =
      (AccountFilterEntry.collected account (lookedUp last (l ++ l'))
        (txs'.union txs)).checkDuplicates
          (txs'.filter fun seqno _ => txs.contains seqno).entries := by
    rw [lookedUp_append]
    simp [AccountFilterEntry.mergeIn, AccountFilterEntry.collected, new, mergeFlags, foundError,
      assertInitialized, ok_bind]
  have hleft : ∀ seqno tx', (seqno, tx') ∈ (txs'.filter fun seqno _ => txs.contains seqno).entries ↔
      txs'.find? seqno = some tx' ∧ (txs.find? seqno).isSome := by
    intro seqno tx'
    rw [SortedMap.mem_entries, SortedMap.find?_filter]
    simp [Option.filter_eq_some_iff, SortedMap.contains]
  rw [hmerge]
  have hpresent : ∀ a ∈ (txs'.filter fun seqno _ => txs.contains seqno).entries,
      ((AccountFilterEntry.collected account (lookedUp last (l ++ l'))
        (txs'.union txs)).txs.find? a.1).isSome := by
    intro a ha
    have hfind := ((hleft a.1 a.2).mp ha).1
    simp [AccountFilterEntry.collected, SortedMap.find?_union, hfind]
  rcases checkDuplicates_cases hpresent with ⟨hok, hall⟩ | ⟨hok, ⟨seqno, tx'⟩, ha, tx, hfind, hne⟩
  · refine ⟨_, hok, .collected (hcollects.union hcollects' fun seqno tx tx' hfind hfind' => ?_)⟩
    have hsame := hall (seqno, tx') ((hleft seqno tx').mpr ⟨hfind', by simp [hfind]⟩)
    simpa [AccountFilterEntry.collected, SortedMap.find?_union, hfind] using hsame
  · refine ⟨_, hok, .conflicting ?_ rfl rfl⟩
    obtain ⟨hfind', hsome⟩ := (hleft seqno tx').mp ha
    obtain ⟨tx₀, htx₀⟩ := Option.isSome_iff_exists.mp hsome
    have heq : tx₀ = tx := by
      simpa [AccountFilterEntry.collected, SortedMap.find?_union, htx₀] using hfind
    subst heq
    obtain ⟨hlive, hseqno⟩ := (hcollects _ _).mp htx₀
    obtain ⟨hlive', hseqno'⟩ := (hcollects' _ _).mp hfind'
    exact ⟨tx₀, tx', hlive.mono (List.subset_append_left l l'),
      hlive'.mono (List.subset_append_right l l'), hseqno.trans hseqno'.symm, hne⟩

/-- What computing the requirements leaves alone. -/
structure Frame (e e' : AccountFilterEntry) : Prop where
  account : e'.account = e.account
  badDuplicate : e'.foundBadDuplicate = e.foundBadDuplicate
  invalidReqs : e'.foundInvalidReqs = e.foundInvalidReqs
  accountNexist : e'.foundAccountNexist = e.foundAccountNexist
  unchecked : e'.checkedReqsCached = e.checkedReqsCached

theorem Frame.refl (e : AccountFilterEntry) : Frame e e := ⟨rfl, rfl, rfl, rfl, rfl⟩

theorem Frame.trans {e'' : AccountFilterEntry} (h : Frame e e') (h' : Frame e' e'') : Frame e e'' :=
  ⟨h'.account.trans h.account, h'.badDuplicate.trans h.badDuplicate,
    h'.invalidReqs.trans h.invalidReqs, h'.accountNexist.trans h.accountNexist,
    h'.unchecked.trans h.unchecked⟩

theorem addReq_frame (e : AccountFilterEntry) (asset : AssetID) (amount : Int64) :
    Frame e (e.addReq asset amount) := by
  unfold addReq
  split
  · exact .refl e
  split
  · exact .refl e
  split
  · exact ⟨rfl, rfl, rfl, rfl, rfl⟩
  · exact ⟨rfl, rfl, rfl, rfl, rfl⟩

theorem addCancelId_frame (e : AccountFilterEntry) (id : UInt64) : Frame e (e.addCancelId id) := by
  unfold addCancelId
  split
  · exact ⟨rfl, rfl, rfl, rfl, rfl⟩
  · exact ⟨rfl, rfl, rfl, rfl, rfl⟩

theorem computeOpReqs_frame (s : AccountFilterEntry × AccountCreationFilter) (op : Operation) :
    Frame s.1 (computeOpReqs s op).1 := by
  cases op with
  | CREATE_ACCOUNT op => exact addReq_frame ..
  | CREATE_SELL_OFFER op => exact addReq_frame ..
  | CANCEL_SELL_OFFER op => exact addCancelId_frame ..
  | PAYMENT op => exact addReq_frame ..
  | MONEY_PRINTER op => exact .refl s.1

theorem foldl_frame {α : Type}
    {f : AccountFilterEntry × AccountCreationFilter → α → AccountFilterEntry × AccountCreationFilter}
    (hf : ∀ s a, Frame s.1 (f s a).1) (l : List α) (s : AccountFilterEntry × AccountCreationFilter) :
    Frame s.1 (l.foldl f s).1 := by
  induction l generalizing s with
  | nil => exact .refl s.1
  | cons a l ih => exact (hf s a).trans (ih (f s a))

theorem computeTxReqs_frame (s : AccountFilterEntry × AccountCreationFilter)
    (tx : SignedTransaction) : Frame s.1 (computeTxReqs s tx).1 :=
  (foldl_frame computeOpReqs_frame tx.transaction.operations s).trans (addReq_frame ..)

theorem computeReqs_frame {accounts accounts' : AccountCreationFilter}
    (h : e.computeReqs accounts = .ok (e', accounts')) : Frame e e' := by
  unfold computeReqs at h
  split at h
  · cases h
  cases h
  exact (foldl_frame computeTxReqs_frame e.txs.values (e, accounts)).trans
    ⟨rfl, rfl, rfl, rfl, rfl⟩

/-- An entry of an account in the database gets a verdict. -/
theorem Represents.computeValidity (h : Represents account last l e)
    (hu : db.lookupAccount account = some u) (accounts : AccountCreationFilter) :
    ∃ e' accounts' r, e.computeValidity db accounts = .ok (e', accounts') ∧ e'.checkValid = .ok r ∧
      r ≠ .ACCOUNT_NEXIST ∧ (Conflict last l → r = .INVALID_DUPLICATE) := by
  cases h with
  | conflicting hconflict hfound hunchecked =>
    refine ⟨e.logReqsChecked, accounts, .INVALID_DUPLICATE, ?_, ?_, by decide, fun _ => rfl⟩
    · simp [AccountFilterEntry.computeValidity, hunchecked, foundError_of_badDuplicate hfound]
    · simp [checkValid, logReqsChecked, hfound]
  | @collected txs hcollects =>
    obtain ⟨⟨e₁, accounts₁⟩, hreqs⟩ : ∃ p, (AccountFilterEntry.collected account
        (lookedUp last l) txs).computeReqs accounts = .ok p := ⟨_, rfl⟩
    have hframe := computeReqs_frame hreqs
    have haccount : db.lookupAccount e₁.account = some u := by
      rw [hframe.account]
      exact hu
    have hdup : e₁.foundBadDuplicate = false := hframe.badDuplicate
    have hnexist : e₁.foundAccountNexist = false := hframe.accountNexist
    have hvalidity : (AccountFilterEntry.collected account (lookedUp last l) txs).computeValidity db
        accounts = .ok (if e₁.requiredAssets.entries.any
            fun a => u.lookupAvailableBalance a.1 < a.2 then (e₁.logReqsInvalid, accounts₁)
          else (e₁.logReqsChecked, accounts₁)) := by
      rw [AccountFilterEntry.computeValidity, if_neg (by simp [AccountFilterEntry.collected, new]),
        if_neg (by simp [foundError, AccountFilterEntry.collected, new]),
        show assertInitialized _ = .ok () from rfl, ok_bind, hreqs, ok_bind]
      dsimp only
      rw [haccount]
      dsimp only
      split <;> rfl
    rw [hvalidity]
    have hno : ¬ Conflict last l := hcollects.no_conflict
    split
    · refine ⟨_, _, .MISSING_REQUIREMENT, rfl, ?_, by decide, fun h => absurd h hno⟩
      simp [checkValid, logReqsInvalid, hdup, hnexist]
    · by_cases hinvalid : e₁.foundInvalidReqs = true
      · refine ⟨_, _, .MISSING_REQUIREMENT, rfl, ?_, by decide, fun h => absurd h hno⟩
        simp [checkValid, logReqsChecked, hdup, hnexist, hinvalid]
      · by_cases hoverflow : e₁.overflowReq = true
        · refine ⟨_, _, .OVERFLOW_REQ, rfl, ?_, by decide, fun h => absurd h hno⟩
          simp [checkValid, logReqsChecked, hdup, hnexist, hinvalid, hoverflow]
        · refine ⟨_, _, .VALID_HAS_TXS, rfl, ?_, by decide, fun h => absurd h hno⟩
          simp [checkValid, logReqsChecked, hdup, hnexist, hinvalid, hoverflow]

end AccountFilterEntry

/-! ### Any split -/

/-- Entries of one account, made by any calls of `add_tx` and any tree of calls of `merge_in`. -/
inductive Assembly where
  | new
  | addTx (a : Assembly) (tx : SignedTransaction)
  | mergeIn (a other : Assembly)

namespace Assembly

variable {account : AccountID} {db : MemoryDatabase} {u : UserAccount}

/-- The transactions that were added, to any of the entries. -/
def txs : Assembly → List SignedTransaction
  | new => []
  | addTx a tx => tx :: a.txs
  | mergeIn a other => a.txs ++ other.txs

/-- The entry that results. -/
def run (account : AccountID) (db : MemoryDatabase) : Assembly → Result AccountFilterEntry
  | new => .ok (.new account)
  | addTx a tx => do
    let e ← a.run account db
    return e.addTx db tx
  | mergeIn a other => do
    let e ← a.run account db
    let e' ← other.run account db
    e.mergeIn e'

/-- `compute_validity` on the result, followed by `check_valid`. -/
def verdict (account : AccountID) (db : MemoryDatabase) (accounts : AccountCreationFilter)
    (a : Assembly) : Result FilterResult := do
  let e ← a.run account db
  let (e, _) ← e.computeValidity db accounts
  e.checkValid

theorem run_represents (hu : db.lookupAccount account = some u) (a : Assembly) :
    ∃ e, a.run account db = .ok e ∧
      AccountFilterEntry.Represents account u.getLastCommittedSeqNumber a.txs e := by
  induction a with
  | new => exact ⟨_, rfl, AccountFilterEntry.represents_new⟩
  | addTx a tx ih =>
    obtain ⟨e, he, hrep⟩ := ih
    refine ⟨e.addTx db tx, ?_, hrep.addTx hu rfl⟩
    rw [run, he]
    rfl
  | mergeIn a other ih ih' =>
    obtain ⟨e, he, hrep⟩ := ih
    obtain ⟨e', he', hrep'⟩ := ih'
    obtain ⟨merged, hmerged, hrep''⟩ := hrep.mergeIn hrep'
    refine ⟨merged, ?_, hrep''⟩
    rw [run, he, he']
    exact hmerged

/-- Two ways of splitting the transactions of an account lead to one verdict. -/
theorem verdict_unique (account : AccountID) (db : MemoryDatabase) (accounts : AccountCreationFilter)
    (l : List SignedTransaction) (a a' : Assembly) (hexists : (db.lookupAccount account).isSome)
    (ha : a.txs.Perm l) (ha' : a'.txs.Perm l) :
    ∃ r, a.verdict account db accounts = .ok r ∧ a'.verdict account db accounts = .ok r := by
  obtain ⟨u, hu⟩ := Option.isSome_iff_exists.mp hexists
  obtain ⟨e, he, hrep⟩ := run_represents hu a
  obtain ⟨e', he', hrep'⟩ := run_represents hu a'
  have hperm : a.txs.Perm a'.txs := ha.trans ha'.symm
  obtain ⟨e₁, accounts₁, r, hvalidity, hcheck, -, hconflicting⟩ := hrep.computeValidity hu accounts
  obtain ⟨e₁', accounts₁', r', hvalidity', hcheck', -, hconflicting'⟩ :=
    hrep'.computeValidity hu accounts
  have hverdict : a.verdict account db accounts = .ok r := by
    simp [verdict, he, hvalidity, hcheck]
  have hverdict' : a'.verdict account db accounts = .ok r' := by
    simp [verdict, he', hvalidity', hcheck']
  suffices hsame : r = r' from ⟨r, hverdict, hsame ▸ hverdict'⟩
  cases hrep with
  | conflicting hconflict _ _ =>
    rw [hconflicting hconflict, hconflicting' (hconflict.mono hperm.subset)]
  | @collected txs hcollects =>
  cases hrep' with
  | conflicting hconflict _ _ =>
    rw [hconflicting (hconflict.mono hperm.symm.subset), hconflicting' hconflict]
  | @collected txs' hcollects' =>
  -- without a conflict the two entries are the same
  have htxs : txs = txs' := hcollects.unique hcollects' fun tx => hperm.mem_iff
  have hmin : AccountFilterEntry.lookedUp u.getLastCommittedSeqNumber a.txs =
      AccountFilterEntry.lookedUp u.getLastCommittedSeqNumber a'.txs := by
    have hnil : a.txs = [] ↔ a'.txs = [] := ⟨fun h => (h ▸ hperm).nil_eq.symm,
      fun h => (h ▸ hperm).eq_nil⟩
    simp [AccountFilterEntry.lookedUp, hnil]
  rw [htxs, hmin, hvalidity'] at hvalidity
  cases hvalidity
  exact Except.ok.inj (hcheck.symm.trans hcheck')

end Assembly

/-- A database with account 7, which has 100 native units. -/
def oneSenderDb : MemoryDatabase where
  database := [⟨[⟨100, 100⟩], [], ⟨0, 0⟩, 7, 0⟩]
  userIdToIdxMap := (∅ : SortedMap AccountID Nat).insert 7 0
  uncommittedDb := []
  reservedAccountIds := ∅
  commitmentTrie := (∅ : SortedMap AccountID AccountCommitment).insert 7 ⟨7, [⟨0, 100⟩], 0, 0⟩
  accountCreationThunks := []
  minPersistedRoundNumber := 0

/-- A transaction without operations. -/
def emptyTx (account : AccountID) (seqno : UInt64) (maxFee : UInt32) : SignedTransaction :=
  ⟨⟨⟨account, seqno⟩, [], by decide, maxFee⟩, 0⟩

/-- Two transactions that together cost too much, in one entry and in two. -/
theorem Assembly.verdict_unique_two :
    (oneSenderDb.lookupAccount 7).isSome ∧
    ∃ r, verdict 7 oneSenderDb ⟨∅⟩ ((new.addTx (emptyTx 7 256 60)).addTx (emptyTx 7 512 60)) = .ok r ∧
      verdict 7 oneSenderDb ⟨∅⟩
        ((new.addTx (emptyTx 7 512 60)).mergeIn (new.addTx (emptyTx 7 256 60))) = .ok r :=
  ⟨by decide, verdict_unique 7 oneSenderDb ⟨∅⟩ [emptyTx 7 512 60, emptyTx 7 256 60] _ _ (by decide)
    (.refl _) (.refl _)⟩

end Speedex
