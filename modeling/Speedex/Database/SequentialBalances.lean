import Speedex.Database.Credits

/-! One account's view as a ledger: a call succeeds where the balance covers it, the commit leaves
the balance that the calls come to, and unwinding the one before them. -/

namespace Speedex

open Lib

/-! ### Debits -/

namespace RevertableAsset

variable {x : Int64}

/-- A debit succeeds exactly where it is covered. -/
theorem conditionalTransferAvailable_iff (a : RevertableAsset) (hx : x < 0) :
    (a.conditionalTransferAvailable x).1 = true ↔ 0 ≤ a.available.toInt + x.toInt := by
  refine ⟨fun h => ((a.takes_conditionalTransferAvailable hx).of_true h).2.2, fun h => ?_⟩
  have hlt := a.available.toInt_lt
  rw [Int64.lt_iff_toInt_lt, Int64.toInt_zero] at hx
  have hsum : (a.available + x).toInt = a.available.toInt + x.toInt :=
    toInt_add_of_bounds (by omega) (by omega)
  have hpos : ¬ x > 0 := by
    rw [gt_iff_lt, Int64.lt_iff_toInt_lt, Int64.toInt_zero]
    omega
  have hover : ¬ addOverflows a.available x = true := by simp [addOverflows, hsum]
  have hneg : ¬ a.available + x < 0 := by
    rw [Int64.lt_iff_toInt_lt, Int64.toInt_zero, hsum]
    omega
  rw [conditionalTransferAvailable, if_neg hpos, if_neg hover, if_neg hneg]

theorem conditionalEscrow_iff (a : RevertableAsset) (hx : x < 0) :
    (a.conditionalEscrow (-x)).1 = true ↔ 0 ≤ a.available.toInt + x.toInt := by
  refine ⟨fun h => ((a.takes_conditionalEscrow hx).of_true h).2.2, fun h => ?_⟩
  have hlt := a.available.toInt_lt
  have hlow := x.le_toInt
  rw [Int64.lt_iff_toInt_lt, Int64.toInt_zero] at hx
  have hneg : (-x).toInt = -x.toInt := by
    rw [Int64.toInt_neg, Int.bmod_eq_of_le]
    · omega
    · omega
  have hmin : -x ≠ Int64.minValue := by
    rw [ne_eq, ← Int64.toInt_inj, hneg, Int64.toInt_minValue]
    omega
  have hpos : -x > 0 := by
    rw [gt_iff_lt, Int64.lt_iff_toInt_lt, Int64.toInt_zero, hneg]
    omega
  rw [conditionalEscrow, if_neg hmin, if_pos hpos, neg_neg]
  refine (a.conditionalTransferAvailable_iff ?_).mpr h
  rw [Int64.lt_iff_toInt_lt, Int64.toInt_zero]
  exact hx

end RevertableAsset

namespace MemoryDatabase

variable {db : MemoryDatabase} {i : Nat} {asset : AssetID} {x : Int64}

/-- Account `i` pays `-x` of an asset, if it has as much. -/
structure Debits (db : MemoryDatabase) (i : Nat) (asset : AssetID) (x : Int64)
    (taken : Bool × MemoryDatabase) : Prop where
  covered : taken.1 = true ↔ 0 ≤ (db.balanceAt i asset.toNat).toInt + x.toInt
  length : taken.2.database.length = db.database.length
  of_true : taken.1 = true → ∀ j n, taken.2.balanceAt j n =
    db.balanceAt j n + (Pi.single i (Pi.single asset.toNat x) : Nat → Nat → Int64) j n
  of_false : taken.1 = false → ∀ j n, taken.2.balanceAt j n = db.balanceAt j n

theorem debits_operateOnAsset (hi : i < db.database.length)
    {func : RevertableAsset → Bool × RevertableAsset}
    (h : ∀ a, RevertableAsset.Takes a x (func a))
    (hcovered : ∀ a, (func a).1 = true ↔ 0 ≤ a.available.toInt + x.toInt) (hx : x < 0) :
    db.Debits i asset x ((db.database[i]?.map fun u => (u.operateOnAsset asset func).1).getD false,
      db.modifyAccount i fun u => (u.operateOnAsset asset func).2) := by
  obtain ⟨u, hu⟩ : ∃ u, db.database[i]? = some u := ⟨_, List.getElem?_eq_getElem hi⟩
  have htakes : u.Takes asset.toNat x (u.operateOnAsset asset func) :=
    UserAccount.takes_operateOnAsset hx h
  have hbalance : db.balanceAt i asset.toNat = u.balance asset.toNat := by simp [balanceAt, hu]
  refine ⟨?_, by simp [modifyAccount], fun htrue j n => ?_, fun hfalse j n => ?_⟩
  · rw [hu, Option.map_some, Option.getD_some, UserAccount.operateOnAsset_eq, hbalance]
    exact hcovered _
  · rw [hu, Option.map_some, Option.getD_some] at htrue
    obtain ⟨hslots, heq, -⟩ := htakes.of_true htrue
    refine balanceAt_modifyAccount_add (fun hij => hij ▸ hi) fun u' hu' => ?_
    cases hu.symm.trans hu'
    rw [heq]
    exact UserAccount.balance_shift_single hslots x n
  · rw [hu, Option.map_some, Option.getD_some] at hfalse
    refine balanceAt_modifyAccount fun u' hu' => ?_
    cases hu.symm.trans hu'
    rw [htakes.of_false hfalse, UserAccount.balance_growTo]

theorem debits_conditionalTransferAvailable (hi : i < db.database.length) (hx : x < 0) :
    db.Debits i asset x (db.conditionalTransferAvailable i asset x) :=
  debits_operateOnAsset hi (fun a => a.takes_conditionalTransferAvailable hx)
    (fun a => a.conditionalTransferAvailable_iff hx) hx

theorem debits_conditionalEscrow (hi : i < db.database.length) (hx : x < 0) :
    db.Debits i asset x (db.conditionalEscrow i asset (-x)) :=
  debits_operateOnAsset hi (fun a => a.takes_conditionalEscrow hx)
    (fun a => a.conditionalEscrow_iff hx) hx

end MemoryDatabase

/-! ### Calls -/

/-- A call on the view of one account. -/
inductive ViewCall where
  | transferAvailable (asset : AssetID) (amount : Int64)
  | conditionalEscrow (asset : AssetID) (amount : Int64)

namespace ViewCall

def asset : ViewCall → AssetID
  | transferAvailable asset _ => asset
  | conditionalEscrow asset _ => asset

/-- The change that the call asks for. -/
def change : ViewCall → Int
  | transferAvailable _ amount => amount.toInt
  | conditionalEscrow _ amount => -amount.toInt

def run (c : ViewCall) (v : UserAccountView) (db : MemoryDatabase) (main : Nat) :
    TransactionProcessingStatus × MemoryDatabase × UserAccountView :=
  match c with
  | transferAvailable asset amount => v.transferAvailable db main asset amount
  | conditionalEscrow asset amount => v.conditionalEscrow db main asset amount

/-- The new buffer is within `int64_t`. -/
def Within (c : ViewCall) (v : UserAccountView) : Prop :=
  -2 ^ 63 ≤ (v.buffered c.asset).toInt + c.change ∧ (v.buffered c.asset).toInt + c.change < 2 ^ 63

instance decidableWithin (c : ViewCall) (v : UserAccountView) : Decidable (c.Within v) :=
  inferInstanceAs (Decidable (_ ∧ _))

end ViewCall

/-- What the calls so far come to for each asset. -/
inductive ViewRun (main : Nat) (db₀ : MemoryDatabase) :
    MemoryDatabase → UserAccountView → (AssetID → Int) → Prop where
  | start : ViewRun main db₀ db₀ .empty 0
  | success {db v net db' v'} {c : ViewCall} (before : ViewRun main db₀ db v net) (within : c.Within v)
      (call : c.run v db main = (.SUCCESS, db', v')) :
      ViewRun main db₀ db' v' (net + Pi.single c.asset c.change)
  | failure {db v net status db' v'} {c : ViewCall} (before : ViewRun main db₀ db v net) (within : c.Within v)
      (call : c.run v db main = (status, db', v')) (failed : status ≠ .SUCCESS) :
      ViewRun main db₀ db' v' net

namespace UserAccountView

variable {v : UserAccountView} {db db₀ : MemoryDatabase} {main : Nat} {c : ViewCall}
  {net : AssetID → Int}

/-- A call settles the buffer that it asks for, and an uncovered rest is a debit. -/
theorem run_eq_settle (hmain : main < db.database.length) (hwithin : c.Within v)
    (hbuffered : 0 ≤ (v.buffered c.asset).toInt) :
    ∃ newBuffer take, c.run v db main = v.settle db c.asset newBuffer take ∧
      newBuffer.toInt = (v.buffered c.asset).toInt + c.change ∧
      (newBuffer < 0 → db.Debits main c.asset newBuffer take) := by
  obtain ⟨hlo, hhi⟩ := hwithin
  cases c with
  | transferAvailable asset amount =>
    exact ⟨_, _, rfl, toInt_add_of_bounds hlo hhi,
      MemoryDatabase.debits_conditionalTransferAvailable hmain⟩
  | conditionalEscrow asset amount =>
    have hbuffer : (v.buffered asset - amount).toInt = (v.buffered asset).toInt - amount.toInt :=
      toInt_sub_of_bounds hlo hhi
    refine ⟨v.buffered asset - amount, db.conditionalEscrow main asset (-(v.buffered asset - amount)),
      ?_, hbuffer, MemoryDatabase.debits_conditionalEscrow hmain⟩
    simp only [ViewCall.run, UserAccountView.conditionalEscrow]
    split_ifs with hfree
    · simp only [ViewCall.asset] at hbuffered
      have hnonneg : ¬ v.buffered asset - amount < 0 := by
        rw [Int64.lt_iff_toInt_lt, Int64.toInt_zero] at hfree ⊢
        omega
      rw [settle, if_neg hnonneg]
      rfl
    · rfl

/-- The balances are those of `db₀` with what the view took, and `net` is what it took and what it
still holds back. -/
structure Balanced (main : Nat) (db₀ db : MemoryDatabase) (v : UserAccountView)
    (net : AssetID → Int) : Prop where
  length : db.database.length = db₀.database.length
  balance : ∀ j n, db.balanceAt j n =
    db₀.balanceAt j n + (Pi.single main v.taken : Nat → Nat → Int64) j n
  taken : ∀ a : AssetID, (db.balanceAt main a.toNat).toInt =
    (db₀.balanceAt main a.toNat).toInt + (v.taken a.toNat).toInt
  nonneg : ∀ a : AssetID, 0 ≤ (db₀.balanceAt main a.toNat).toInt →
    0 ≤ (db.balanceAt main a.toNat).toInt
  buffered : ∀ a, 0 ≤ (v.buffered a).toInt
  net : ∀ a, net a = (v.taken a.toNat).toInt + (v.buffered a).toInt

theorem balanced_start (main : Nat) (db₀ : MemoryDatabase) : Balanced main db₀ db₀ .empty 0 := by
  refine ⟨rfl, fun j n => ?_, fun a => ?_, fun a h => h, fun a => le_rfl, fun a => rfl⟩
  · rw [taken_empty, Pi.single_zero]
    exact (add_zero _).symm
  · rw [taken_empty]
    exact (add_zero _).symm

theorem taken_single (asset a : AssetID) (x : Int64) :
    (Pi.single asset.toNat x : Nat → Int64) a.toNat = if asset = a then x else 0 := by
  rw [Pi.single_apply]
  by_cases ha : asset = a
  · rw [if_pos ha, if_pos (by rw [ha])]
  · rw [if_neg ha, if_neg fun h => ha (UInt32.toNat_inj.mp h.symm)]

/-- A new buffer that is not negative is kept. -/
theorem Balanced.keep (h : Balanced main db₀ db v net) {asset : AssetID} {newBuffer : Int64}
    {change : Int} (hchange : newBuffer.toInt = (v.buffered asset).toInt + change)
    (hnonneg : 0 ≤ newBuffer.toInt) :
    Balanced main db₀ db (v.setBuffer asset newBuffer) (net + Pi.single asset change) := by
  refine ⟨h.length, h.balance, h.taken, h.nonneg, fun a => ?_, fun a => ?_⟩
  · rw [buffered_setBuffer]
    split_ifs
    · exact hnonneg
    · exact h.buffered a
  · have hnet := h.net a
    rw [buffered_setBuffer, taken_setBuffer, Pi.add_apply, Pi.single_apply]
    by_cases ha : asset = a
    · subst ha
      rw [if_pos rfl, if_pos rfl]
      omega
    · rw [if_neg (Ne.symm ha), if_neg ha, add_zero]
      exact hnet

/-- A debit uses the buffer up and takes the rest. -/
theorem Balanced.debit (h : Balanced main db₀ db v net) {asset : AssetID} {newBuffer : Int64}
    {change : Int} {take : Bool × MemoryDatabase}
    (hchange : newBuffer.toInt = (v.buffered asset).toInt + change) (hneg : newBuffer.toInt < 0)
    (htake : db.Debits main asset newBuffer take) (htrue : take.1 = true) :
    Balanced main db₀ take.2 ((v.addSideEffect asset newBuffer).setBuffer asset 0)
      (net + Pi.single asset change) := by
  have hcovered := htake.covered.mp htrue
  have hbalance := htake.of_true htrue
  have hlt := (db.balanceAt main asset.toNat).toInt_lt
  have hlt₀ := (db₀.balanceAt main asset.toNat).toInt_lt
  have htaken := h.taken asset
  have hlt₁ := (v.taken asset.toNat).toInt_lt
  have hnew : (db.balanceAt main asset.toNat + newBuffer).toInt =
      (db.balanceAt main asset.toNat).toInt + newBuffer.toInt :=
    toInt_add_of_bounds (by omega) (by omega)
  have hmore : (v.taken asset.toNat + newBuffer).toInt =
      (v.taken asset.toNat).toInt + newBuffer.toInt := toInt_add_of_bounds (by omega) (by omega)
  refine ⟨htake.length.trans h.length, fun j n => ?_, fun a => ?_, fun a hnonneg => ?_,
    fun a => ?_, fun a => ?_⟩
  · rw [hbalance, h.balance, taken_setBuffer, taken_addSideEffect, Pi.single_add, Pi.add_apply,
      Pi.add_apply, add_assoc]
  · rw [hbalance, Pi.single_eq_same, taken_setBuffer, taken_addSideEffect, Pi.add_apply,
      taken_single]
    have htaken' := h.taken a
    split_ifs with ha
    · subst ha
      rw [hnew, hmore]
      omega
    · rw [add_zero, add_zero]
      exact htaken'
  · have hnonneg' := h.nonneg a hnonneg
    rw [hbalance, Pi.single_eq_same, taken_single]
    split_ifs with ha
    · subst ha
      rw [hnew]
      exact hcovered
    · rw [add_zero]
      exact hnonneg'
  · rw [buffered_setBuffer]
    split_ifs
    · exact le_rfl
    · exact h.buffered a
  · have hnet := h.net a
    rw [buffered_setBuffer, taken_setBuffer, taken_addSideEffect, Pi.add_apply, Pi.add_apply,
      taken_single, Pi.single_apply]
    by_cases ha : asset = a
    · subst ha
      rw [if_pos rfl, if_pos rfl, if_pos rfl, hmore, Int64.toInt_zero]
      omega
    · rw [if_neg (Ne.symm ha), if_neg ha, if_neg ha, add_zero, add_zero]
      exact hnet

/-- What is left of the balances and the view after a call. -/
theorem Balanced.settle (h : Balanced main db₀ db v net) {asset : AssetID} {newBuffer : Int64}
    {change : Int} {take : Bool × MemoryDatabase}
    (hchange : newBuffer.toInt = (v.buffered asset).toInt + change)
    (htake : newBuffer < 0 → db.Debits main asset newBuffer take) :
    ∃ status db' v', v.settle db asset newBuffer take = (status, db', v') ∧
      (status = .SUCCESS ↔ 0 ≤ newBuffer.toInt ∨
        0 ≤ (db.balanceAt main asset.toNat).toInt + newBuffer.toInt) ∧
      (status = .SUCCESS → Balanced main db₀ db' v' (net + Pi.single asset change)) ∧
      (status ≠ .SUCCESS → Balanced main db₀ db' v' net ∧
        (∀ j n, db'.balanceAt j n = db.balanceAt j n) ∧ (∀ a, v'.buffered a = v.buffered a) ∧
        v'.taken = v.taken) := by
  rw [UserAccountView.settle]
  by_cases hneg : newBuffer < 0
  · have hdebits := htake hneg
    rw [Int64.lt_iff_toInt_lt, Int64.toInt_zero] at hneg
    rw [if_pos (by rw [Int64.lt_iff_toInt_lt, Int64.toInt_zero]; exact hneg)]
    have hcovered := hdebits.covered
    cases htrue : take.1 with
    | true =>
      refine ⟨_, _, _, rfl, ?_, fun _ => h.debit hchange hneg hdebits htrue,
        fun hfail => absurd rfl hfail⟩
      exact ⟨fun _ => .inr (hcovered.mp htrue), fun _ => rfl⟩
    | false =>
      have hbalance := hdebits.of_false htrue
      have hbuffered : ∀ a, (v.setBuffer asset (v.buffered asset)).buffered a = v.buffered a := by
        intro a
        rw [buffered_setBuffer]
        split_ifs with ha
        · rw [ha]
        · rfl
      refine ⟨_, _, _, rfl, ?_, ?_, fun _ => ⟨⟨?_, fun j n => ?_, fun a => ?_, fun a => ?_,
        fun a => ?_, fun a => ?_⟩, hbalance, hbuffered, rfl⟩⟩
      · refine ⟨fun hsuccess => (by cases hsuccess), fun hor => ?_⟩
        have hfalse : ¬ take.1 = true := by simp [htrue]
        rw [hcovered] at hfalse
        omega
      · intro hsuccess
        cases hsuccess
      · exact hdebits.length.trans h.length
      · rw [hbalance]
        exact h.balance j n
      · rw [hbalance]
        exact h.taken a
      · rw [hbalance]
        exact h.nonneg a
      · rw [hbuffered]
        exact h.buffered a
      · rw [hbuffered]
        exact h.net a
  · rw [if_neg hneg]
    rw [Int64.lt_iff_toInt_lt, Int64.toInt_zero] at hneg
    exact ⟨_, _, _, rfl, ⟨fun _ => .inl (by omega), fun _ => rfl⟩,
      fun _ => h.keep hchange (by omega), fun hfail => absurd rfl hfail⟩

/-- A call on a balanced view. -/
theorem Balanced.call (h : Balanced main db₀ db v net) (hmain : main < db₀.database.length)
    (hwithin : c.Within v) : ∃ status db' v', c.run v db main = (status, db', v') ∧
      (status = .SUCCESS ↔ 0 ≤ (v.buffered c.asset).toInt + c.change ∨
        0 ≤ (db.balanceAt main c.asset.toNat).toInt + ((v.buffered c.asset).toInt + c.change)) ∧
      (status = .SUCCESS → Balanced main db₀ db' v' (net + Pi.single c.asset c.change)) ∧
      (status ≠ .SUCCESS → Balanced main db₀ db' v' net ∧
        (∀ j n, db'.balanceAt j n = db.balanceAt j n) ∧ (∀ a, v'.buffered a = v.buffered a) ∧
        v'.taken = v.taken) := by
  obtain ⟨newBuffer, take, hrun, hchange, htake⟩ :=
    @run_eq_settle v db main c (h.length ▸ hmain) hwithin (h.buffered c.asset)
  rw [hrun, ← hchange]
  exact h.settle hchange htake

theorem balanced_of_run (hmain : main < db₀.database.length) (h : ViewRun main db₀ db v net) :
    Balanced main db₀ db v net := by
  induction h with
  | start => exact balanced_start main db₀
  | success before within call ih =>
    obtain ⟨status, db', v', hrun, -, hsuccess, -⟩ := ih.call hmain within
    cases call.symm.trans hrun
    exact hsuccess rfl
  | failure before within call failed ih =>
    obtain ⟨status, db', v', hrun, -, -, hfailure⟩ := ih.call hmain within
    cases call.symm.trans hrun
    exact (hfailure failed).1

/-- Unwinding the view of one account returns what it took. -/
theorem balanceAt_unwind {j : Nat} (hj : j < db.database.length) (n : Nat) :
    (v.unwind db main).balanceAt j n =
      db.balanceAt j n + (Pi.single main (-v.taken) : Nat → Nat → Int64) j n := by
  have hneg : ∀ l : List (AssetID × Int64), SortedMap.spreadList (fun a : AssetID => a.toNat)
      (fun x : Int64 => -x) l = -SortedMap.spreadList (fun a : AssetID => a.toNat) id l := by
    intro l
    induction l with
    | nil => exact neg_zero.symm
    | cons a l ih =>
      rw [SortedMap.spreadList_cons, SortedMap.spreadList_cons, ih, neg_add, ← Pi.single_neg]
      rfl
  rw [unwind, balanceAt_transfers (fun x => -x) _ hj n, hneg]
  rfl

/-- The view of an account with the calls on it: a call succeeds where the buffer or the balance
with the buffer covers it, and a call that fails leaves the balances and the view.  Its commit
leaves the balance that the successful calls come to, and unwinding it the balance before them. -/
theorem view_implements_balances (hmain : main < db₀.database.length)
    (h : ViewRun main db₀ db v net) :
    (∀ a : AssetID, (db.balanceAt main a.toNat).toInt + (v.buffered a).toInt =
      (db₀.balanceAt main a.toNat).toInt + net a) ∧
    (∀ c : ViewCall, c.Within v → ∃ status db' v', c.run v db main = (status, db', v') ∧
      (status = .SUCCESS ↔ 0 ≤ (v.buffered c.asset).toInt + c.change ∨
        0 ≤ (db.balanceAt main c.asset.toNat).toInt + (v.buffered c.asset).toInt + c.change) ∧
      (0 ≤ (db₀.balanceAt main c.asset.toNat).toInt → (status = .SUCCESS ↔
        0 ≤ (db.balanceAt main c.asset.toNat).toInt + (v.buffered c.asset).toInt + c.change)) ∧
      (status ≠ .SUCCESS → (∀ j n, db'.balanceAt j n = db.balanceAt j n) ∧
        (∀ a, v'.buffered a = v.buffered a) ∧ v'.taken = v.taken)) ∧
    (∀ a : AssetID, -2 ^ 63 ≤ (db₀.balanceAt main a.toNat).toInt + net a →
      (db₀.balanceAt main a.toNat).toInt + net a < 2 ^ 63 →
      ((v.commit db main).balanceAt main a.toNat).toInt =
        (db₀.balanceAt main a.toNat).toInt + net a) ∧
    (∀ n, (v.unwind db main).balanceAt main n = db₀.balanceAt main n) ∧
    (∀ j n, j ≠ main → j < db₀.database.length →
      (v.commit db main).balanceAt j n = db₀.balanceAt j n ∧
        (v.unwind db main).balanceAt j n = db₀.balanceAt j n) := by
  have hbalanced := balanced_of_run hmain h
  have hlength := hbalanced.length
  have hsum : ∀ a : AssetID, (db.balanceAt main a.toNat).toInt + (v.buffered a).toInt =
      (db₀.balanceAt main a.toNat).toInt + net a := by
    intro a
    rw [hbalanced.taken a, hbalanced.net a]
    omega
  refine ⟨hsum, fun c hwithin => ?_, fun a hlo hhi => ?_, fun n => ?_, fun j n hne hj => ⟨?_, ?_⟩⟩
  · obtain ⟨status, db', v', hrun, hstatus, -, hfailure⟩ := hbalanced.call hmain hwithin
    refine ⟨status, db', v', hrun, ?_, fun hnonneg => ?_, fun hfailed => (hfailure hfailed).2⟩
    · rw [hstatus, add_assoc]
    · have hnonneg' := hbalanced.nonneg c.asset hnonneg
      rw [hstatus]
      omega
  · rw [balanceAt_commit (by omega), Pi.single_eq_same, spread_buffer]
    rw [← hsum a] at hlo hhi ⊢
    exact toInt_add_of_bounds hlo hhi
  · rw [balanceAt_unwind (by omega), hbalanced.balance, Pi.single_eq_same, Pi.single_eq_same,
      Pi.neg_apply, add_assoc, add_neg_cancel, add_zero]
  · rw [balanceAt_commit (by omega), hbalanced.balance, Pi.single_eq_of_ne hne,
      Pi.single_eq_of_ne hne]
    exact (add_zero _).trans (add_zero _)
  · rw [balanceAt_unwind (by omega), hbalanced.balance, Pi.single_eq_of_ne hne,
      Pi.single_eq_of_ne hne]
    exact (add_zero _).trans (add_zero _)

/-- Account 7 with `available` of asset 0, and nothing else. -/
def oneAccount (available : Int64) : MemoryDatabase :=
  ⟨[⟨[.ofAmount available], [], .ofId 0, 7, 0⟩], (∅ : SortedMap AccountID Nat).insert 7 0, [], ∅, ∅,
    [], 0⟩

/-- A credit of 3, and a debit of 5 that the credit covers in part. -/
theorem view_implements_balances_spill : ∃ db v,
    ViewRun 0 (oneAccount 10) db v (0 + Pi.single 0 3 + Pi.single 0 (-5)) ∧
      ((v.commit db 0).balanceAt 0 0).toInt = 8 ∧
      (v.unwind db 0).balanceAt 0 0 = (oneAccount 10).balanceAt 0 0 := by
  have hcredit : ViewRun 0 (oneAccount 10) (oneAccount 10) (empty.setBuffer 0 3)
      (0 + Pi.single 0 3) :=
    .success (c := .transferAvailable 0 3) .start (by decide) rfl
  have hdebit := ViewRun.success (c := .conditionalEscrow 0 5) hcredit (by decide) rfl
  obtain ⟨-, -, hcommit, hunwind, -⟩ := view_implements_balances (by decide) hdebit
  exact ⟨_, _, hdebit, hcommit 0 (by decide) (by decide), hunwind 0⟩

/-- A credit of 3 succeeds on a balance of -5.  A debit of an asset without an entry fails and
leaves an entry. -/
theorem view_differs_from_balances :
    (ViewCall.transferAvailable 0 3).run .empty (oneAccount (-5)) 0 =
      (.SUCCESS, oneAccount (-5), empty.setBuffer 0 3) ∧
    ¬ 0 ≤ ((oneAccount (-5)).balanceAt 0 0).toInt + (empty.buffered 0).toInt + 3 ∧
    ((ViewCall.transferAvailable 1 (-1)).run .empty (oneAccount 10) 0).1 = .INSUFFICIENT_BALANCE ∧
    ((ViewCall.transferAvailable 1 (-1)).run .empty (oneAccount 10) 0).2.1 ≠ oneAccount 10 :=
  ⟨rfl, by decide, by decide, by decide⟩

end UserAccountView

end Speedex
