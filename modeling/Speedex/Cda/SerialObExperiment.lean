import Speedex.BlockProcessing.Transactions
import Speedex.Cda.RestingOffers
import Speedex.Database.SequentialBalances

/-! The serial auction of two assets (`cda/serial_ob_experiment.cc`): one offer is escrowed, trades
with the offers of the opposite category, and rests with what is left of it. -/

namespace Speedex

open Lib

/-- `SerialOrderbookExperiment`.  The book `aToB` is the one that offers from asset 0 to asset 1
trade with; it holds the offers of the opposite category. -/
structure SerialOrderbookExperiment where
  aToB : SerialOrderbook
  bToA : SerialOrderbook
  db : MemoryDatabase
deriving DecidableEq

/-! ### Balances of many accounts -/

namespace MemoryDatabase

variable {db db' : MemoryDatabase} {asset : AssetID} {credit debit : Nat → Nat}

/-- The balances of an asset, added up. -/
def balances (db : MemoryDatabase) (asset : AssetID) : Int :=
  ∑ i ∈ Finset.range db.database.length, (db.balanceAt i asset.toNat).toInt

/-- What the accounts hold of an asset; one with a negative balance holds nothing. -/
def holdings (db : MemoryDatabase) (asset : AssetID) : Nat :=
  ∑ i ∈ Finset.range db.database.length, (db.balanceAt i asset.toNat).toInt.toNat

/-- Every account gets its credit and pays its debit, which it holds. -/
structure Moves (db db' : MemoryDatabase) (asset : AssetID) (credit debit : Nat → Nat) : Prop where
  length : db'.database.length = db.database.length
  balance : ∀ i < db.database.length, (db'.balanceAt i asset.toNat).toInt + debit i =
    (db.balanceAt i asset.toNat).toInt + credit i
  covered : ∀ i < db.database.length, debit i ≤ (db.balanceAt i asset.toNat).toInt.toNat

theorem Moves.balances (h : db.Moves db' asset credit debit) :
    db'.balances asset + ∑ i ∈ Finset.range db.database.length, debit i =
      db.balances asset + ∑ i ∈ Finset.range db.database.length, credit i := by
  unfold MemoryDatabase.balances
  push_cast
  rw [h.length, ← Finset.sum_add_distrib, ← Finset.sum_add_distrib]
  apply Finset.sum_congr rfl
  intro i hi
  exact h.balance i (Finset.mem_range.mp hi)

theorem Moves.holdings (h : db.Moves db' asset credit debit) :
    db'.holdings asset + ∑ i ∈ Finset.range db.database.length, debit i ≤
      db.holdings asset + ∑ i ∈ Finset.range db.database.length, credit i := by
  unfold MemoryDatabase.holdings
  rw [h.length, ← Finset.sum_add_distrib, ← Finset.sum_add_distrib]
  apply Finset.sum_le_sum
  intro i hi
  have hbalance := h.balance i (Finset.mem_range.mp hi)
  have hcovered := h.covered i (Finset.mem_range.mp hi)
  omega

theorem balanceAt_le_holdings {i : Nat} (hi : i < db.database.length) (asset : AssetID) :
    (db.balanceAt i asset.toNat).toInt ≤ db.holdings asset := by
  have hle := Finset.single_le_sum (f := fun i => (db.balanceAt i asset.toNat).toInt.toNat)
    (fun _ _ => Nat.zero_le _) (Finset.mem_range.mpr hi)
  rw [MemoryDatabase.holdings]
  omega

end MemoryDatabase

namespace SerialOrderbookExperiment

def aToBCat : OfferCategory := ⟨0, 1, .SELL⟩

def bToACat : OfferCategory := ⟨1, 0, .SELL⟩

def new (db : MemoryDatabase) : SerialOrderbookExperiment := ⟨.new, .new, db⟩

/-- A branch of `exec_one_offer`: the offer trades with those in `opposite`, and what is left of it
is added to `own`. -/
def place (opposite own : SerialOrderbook) (buyAsset : AssetID) (maxPrice : Price) (offer : Offer)
    (user : Nat) (db : MemoryDatabase) (view : BufferedMemoryDatabaseView) :
    Result (SerialOrderbook × SerialOrderbook × MemoryDatabase × BufferedMemoryDatabaseView) := do
  let r ← opposite.tryExecute maxPrice offer.amount db view
  if r.sold > offer.amount then .error (.runtimeError "invalid")
  else
    let (_, db, view) := r.view.transferAvailable r.db (.main user) buyAsset r.bought.toInt64
    let toAdd := { offer with amount := offer.amount - r.sold }
    return (r.book, if toAdd.amount > 0 then own.addOffer toAdd else own, db, view)

/-- The sequence number of the transaction that created an offer. -/
def sequenceNumber (offer : Offer) : UInt64 := offer.offerId &&& 0xFFFFFFFFFFFFFF00

def execOneOffer (e : SerialOrderbookExperiment) (offer : Offer) :
    Result SerialOrderbookExperiment :=
  if offer.minPrice = 0 then .error .divisionByZero
  else
    let maxPrice : Price := .ofNat (2 ^ (2 * Price.radix) / offer.minPrice.toNat)
    -- the view is new, so that it looks up the accounts of the database only
    match e.db.lookupUser offer.owner with
    | none => .error (.runtimeError "wtf")
    | some user => do
      let (status, db, creation) ←
        AccountCreationView.empty.reserveSequenceNumber e.db user (sequenceNumber offer)
      if status ≠ .SUCCESS then .error (.runtimeError "should not happen in experiments")
      else
        let view : BufferedMemoryDatabaseView := ⟨creation, ∅⟩
        let (status, db, view) :=
          view.escrow db (.main user) offer.category.sellAsset offer.amount.toInt64
        if status ≠ .SUCCESS then
          let db ← view.unwind db
          return { e with db }
        else if offer.category = aToBCat then
          let (aToB, bToA, db, view) ←
            place e.aToB e.bToA aToBCat.buyAsset maxPrice offer user db view
          return ⟨aToB, bToA, view.commit db⟩
        else
          let (bToA, aToB, db, view) ←
            place e.bToA e.aToB bToACat.buyAsset maxPrice offer user db view
          return ⟨aToB, bToA, view.commit db⟩

def execOffers (e : SerialOrderbookExperiment) (offers : List Offer) :
    Result SerialOrderbookExperiment := offers.foldlM execOneOffer e

/-! ### The two sides -/

/-- The category of an offer of the experiment. -/
def Traded (category : OfferCategory) : Prop := category = aToBCat ∨ category = bToACat

/-- The opposite category. -/
def reverse (category : OfferCategory) : OfferCategory :=
  ⟨category.buyAsset, category.sellAsset, category.type⟩

/-- The book that an offer of the category trades with. -/
def opposite (e : SerialOrderbookExperiment) (category : OfferCategory) : SerialOrderbook :=
  if category = aToBCat then e.aToB else e.bToA

/-- The book that an offer of the category rests in. -/
def own (e : SerialOrderbookExperiment) (category : OfferCategory) : SerialOrderbook :=
  if category = aToBCat then e.bToA else e.aToB

/-- The experiment with these books for offers of the category. -/
def ofSides (category : OfferCategory) (opposite own : SerialOrderbook) (db : MemoryDatabase) :
    SerialOrderbookExperiment :=
  if category = aToBCat then ⟨opposite, own, db⟩ else ⟨own, opposite, db⟩

section Sides

variable {e : SerialOrderbookExperiment} {category : OfferCategory} {near far : SerialOrderbook}
  {db : MemoryDatabase}

@[simp] theorem opposite_ofSides : (ofSides category near far db).opposite category = near := by
  unfold ofSides opposite
  split_ifs <;> rfl

@[simp] theorem own_ofSides : (ofSides category near far db).own category = far := by
  unfold ofSides own
  split_ifs <;> rfl

@[simp] theorem db_ofSides : (ofSides category near far db).db = db := by
  unfold ofSides
  split_ifs <;> rfl

theorem Traded.reverse (h : Traded category) : Traded (reverse category) := by
  rcases h with rfl | rfl
  · exact .inr rfl
  · exact .inl rfl

theorem Traded.own_reverse (h : Traded category) : e.own (SerialOrderbookExperiment.reverse category) =
    e.opposite category := by
  rcases h with rfl | rfl
  · rfl
  · rfl

theorem Traded.sell_ne_buy (h : Traded category) : category.sellAsset ≠ category.buyAsset := by
  rcases h with rfl | rfl
  · decide
  · decide

end Sides

/-! ### The first part of `exec_one_offer` -/

section Escrow

variable {db db' : MemoryDatabase} {creation : AccountCreationView} {user : Nat} {n : UInt64}

/-- A reservation leaves the balances. -/
theorem reserved_spec (huser : user < db.database.length)
    (h : AccountCreationView.empty.reserveSequenceNumber db user n = .ok (.SUCCESS, db', creation)) :
    db.SameCommitted db' ∧ (∀ i m, db'.balanceAt i m = db.balanceAt i m) ∧
      creation.newAccounts = [] ∧ ∀ r ∈ creation.reservations, db'.Releasable r.account r.seqno := by
  obtain ⟨status, db₁, v, hreturns, hsame, hrelease⟩ :=
    AccountCreationView.reserveSequenceNumber_returns huser n
  cases h.symm.trans hreturns
  obtain ⟨⟨status', db₂⟩, hreserve, hview⟩ := bind_eq_ok.mp h
  dsimp only at hview
  split at hview
  · cases hview
    refine ⟨hsame, fun i m => ?_, rfl, hrelease⟩
    exact MemoryDatabase.balanceAt_reserveSequenceNumber hreserve
  · rename_i hstatus
    cases hview
    exact absurd rfl hstatus

/-- If the escrow fails, unwinding gives the balances back. -/
theorem unwound_spec (hnew : creation.newAccounts = [])
    (hrelease : ∀ r ∈ creation.reservations, db.Releasable r.account r.seqno) (asset : AssetID)
    {amount : Int64} (hamount : ¬ amount < 0)
    {status : TransactionProcessingStatus} {view : BufferedMemoryDatabaseView}
    (hescrow : BufferedMemoryDatabaseView.escrow ⟨creation, ∅⟩ db (.main user) asset amount =
      (status, db', view)) (hstatus : status ≠ .SUCCESS) :
    ∃ db'', view.unwind db' = .ok db'' ∧ db.SameCommitted db'' ∧
      ∀ i m, db''.balanceAt i m = db.balanceAt i m := by
  have hleads := (BufferedMemoryDatabaseView.buffers_begin hnew db).escrow (i := user) asset hamount
  rw [hescrow] at hleads
  obtain ⟨hcreation, ⟨hsuccess, -⟩ | ⟨-, -, hbuffers⟩⟩ := hleads
  · exact absurd hsuccess hstatus
  have happlies : db.Applies db' := by
    have hlawful :=
      LawfulView.escrow (⟨creation, ∅⟩ : BufferedMemoryDatabaseView) db (.main user) asset amount
    rwa [show DatabaseView.escrow (⟨creation, ∅⟩ : BufferedMemoryDatabaseView) db (.main user) asset
      amount = _ from hescrow] at hlawful
  have hreservations : view.reservations = creation.reservations :=
    congrArg AccountCreationView.reservations hcreation
  obtain ⟨db'', hunwind⟩ := @BufferedMemoryDatabaseView.unwind_returns view db' fun r hr =>
    (hrelease r (hreservations ▸ hr)).sameCommitted happlies.sameCommitted
  refine ⟨db'', hunwind, ?_, fun i m => ?_⟩
  · exact (happlies.trans (BufferedMemoryDatabaseView.unwind_applies hunwind)).sameCommitted
  · rw [hbuffers.unwind] at hunwind
    have hgrow := @MemoryDatabase.balanceAt_growAt db user i m (asset.toNat + 1)
    rw [← hgrow]
    refine foldlM_invariant (P := fun d => d.balanceAt i m =
      (db.growAt user (asset.toNat + 1)).balanceAt i m) ?_ rfl hunwind
    intro d r d' _ hd hstep
    rw [MemoryDatabase.balanceAt_releaseSequenceNumber hstep]
    exact hd

end Escrow

/-! ### A branch -/

open SerialOrderbook

/-- The book in which what is left of an offer rests. -/
def withRest (own : SerialOrderbook) (offer : Offer) (trades : List Trade) : SerialOrderbook :=
  if totalPaid trades < offer.amount.toNat then
    own.addOffer { offer with amount := offer.amount - .ofNat (totalPaid trades) }
  else own

/-- What an offer of account `user` gets for it, and what its trades get. -/
def received (db : MemoryDatabase) (user : Nat) (buyAsset : AssetID) (trades : List Trade) (i : Nat)
    (asset : AssetID) : Nat :=
  credits db trades i asset + if user = i ∧ buyAsset = asset then totalGiven trades else 0

theorem credits_eq_zero {db : MemoryDatabase} {trades : List Trade} {asset : AssetID}
    (h : ∀ t ∈ trades, t.offer.category.buyAsset ≠ asset) (i : Nat) :
    credits db trades i asset = 0 := by
  apply List.sum_eq_zero
  intro n hn
  obtain ⟨t, ht, rfl⟩ := List.mem_map.mp hn
  rw [if_neg fun hboth => h t ht hboth.2]

theorem place_spec {opposite own : SerialOrderbook} {db : MemoryDatabase} {earlier : List Offer}
    {category : OfferCategory} {buyAsset : AssetID} {maxPrice : Price} {offer : Offer} {user : Nat}
    {view : BufferedMemoryDatabaseView} {trades : List Trade}
    (hopposite : opposite.Holds db earlier category) (hbuy : category.buyAsset ≠ buyAsset)
    (hamount : offer.amount.toNat < 2 ^ 63) (hview : ∀ i asset, view.buffered i asset = 0)
    (htrades : trades = tradesWith maxPrice.toNat opposite.offers offer.amount.toNat)
    (hgiven : totalGiven trades < 2 ^ 63) :
    ∃ view', place opposite own buyAsset maxPrice offer user db view =
        .ok (opposite.settled trades, withRest own offer trades, db, view') ∧
      ∀ i asset, (view'.buffered i asset).toInt = received db user buyAsset trades i asset := by
  obtain ⟨r, hr, hsells⟩ := hopposite.tryExecute maxPrice hamount hview
  rw [← htrades] at hsells
  have hin : opposite.TradesIn trades := htrades ▸ hopposite.tradesIn _ _
  have hle : totalPaid trades ≤ offer.amount.toNat := htrades ▸ totalPaid_le
  have hcredits : credits db trades user buyAsset = 0 := by
    apply credits_eq_zero
    intro t ht
    obtain ⟨leaf, -, hoffer, hrests⟩ := hopposite.mem (hin.mem t ht)
    rw [← hoffer, hrests.category]
    exact hbuy
  have hbuffered : r.view.buffered user buyAsset = 0 := by
    rw [← Int64.toInt_inj, hsells.buffered, hview, hcredits]
    rfl
  have hbought : r.bought.toInt64.toInt = totalGiven trades := by
    have htoNat : (UInt64.ofNat (totalGiven trades)).toNat = totalGiven trades :=
      UInt64.toNat_ofNat_of_lt' (by rw [UInt64.size]; omega)
    rw [hsells.bought, toInt_toInt64_of_lt (by omega), htoNat]
  have hroomy : ¬ r.view.buffered user buyAsset + r.bought.toInt64 < 0 := by
    rw [hbuffered, zero_add, Int64.lt_iff_toInt_lt, hbought, Int64.toInt_zero]
    omega
  obtain ⟨view', hview', -, hbuffers⟩ :=
    @BufferedMemoryDatabaseView.transferAvailable_credits r.view r.db user _ _ hroomy
  have hsold : r.sold = .ofNat (totalPaid trades) := by rw [← hsells.sold, UInt64.ofNat_toNat]
  have hnot : ¬ r.sold > offer.amount := by
    rw [gt_iff_lt, UInt64.lt_iff_toNat_lt, hsells.sold]
    omega
  have hrest : (offer.amount - r.sold).toNat = offer.amount.toNat - totalPaid trades := by
    rw [UInt64.toNat_sub_of_le _ _ (UInt64.le_iff_toNat_le.mpr (by rw [hsells.sold]; exact hle)),
      hsells.sold]
  have hown : (if offer.amount - r.sold > 0 then
      own.addOffer { offer with amount := offer.amount - r.sold } else own) =
        withRest own offer trades := by
    have hiff : offer.amount - r.sold > 0 ↔ totalPaid trades < offer.amount.toNat := by
      rw [gt_iff_lt, UInt64.lt_iff_toNat_lt, hrest, UInt64.toNat_zero]
      omega
    rw [hsold] at hiff ⊢
    exact if_congr hiff rfl rfl
  refine ⟨view', ?_, fun i asset => ?_⟩
  · rw [place, hr, ok_bind, if_neg hnot, hview']
    dsimp only
    rw [hown, hsells.book, hsells.frame]
    rfl
  · rw [hbuffers, received]
    split_ifs with hthere
    · obtain ⟨rfl, rfl⟩ := hthere
      rw [hbuffered, zero_add, hbought, hcredits]
      omega
    · rw [add_zero, hsells.buffered, hview]
      simp

/-! ### One offer -/

section Exec

variable {e e' : SerialOrderbookExperiment} {offer : Offer} {user : Nat}

/-- The trades that an offer makes. -/
def tradesOf (e : SerialOrderbookExperiment) (offer : Offer) : List Trade :=
  tradesWith (2 ^ 48 / offer.minPrice.toNat) (e.opposite offer.category).offers offer.amount.toNat

/-- What is escrowed for an offer of account `user`. -/
def escrowed (user : Nat) (offer : Offer) (asset : AssetID) (i : Nat) : Nat :=
  if user = i ∧ offer.category.sellAsset = asset then offer.amount.toNat else 0

/-- The account does not hold the amount of the offer, and nothing moved. -/
structure Declined (e : SerialOrderbookExperiment) (user : Nat) (offer : Offer)
    (e' : SerialOrderbookExperiment) : Prop where
  unfunded : (e.db.balanceAt user offer.category.sellAsset.toNat).toInt < offer.amount.toNat
  aToB : e'.aToB = e.aToB
  bToA : e'.bToA = e.bToA
  ids : e.db.SameCommitted e'.db
  balance : ∀ i n, e'.db.balanceAt i n = e.db.balanceAt i n

/-- The offer was escrowed and made its trades, and the rest of it rests. -/
structure Placed (e : SerialOrderbookExperiment) (user : Nat) (offer : Offer)
    (e' : SerialOrderbookExperiment) : Prop where
  opposite : e'.opposite offer.category = (e.opposite offer.category).settled (e.tradesOf offer)
  own : e'.own offer.category = withRest (e.own offer.category) offer (e.tradesOf offer)
  ids : e.db.SameCommitted e'.db
  moves : ∀ asset, asset = offer.category.sellAsset ∨ asset = offer.category.buyAsset →
    e.db.Moves e'.db asset
      (fun i => received e.db user offer.category.buyAsset (e.tradesOf offer) i asset)
      (escrowed user offer asset)

theorem toNat_maxPrice :
    (UInt64.ofNat (2 ^ (2 * Price.radix) / offer.minPrice.toNat)).toNat =
      2 ^ 48 / offer.minPrice.toNat := by
  have hle := Nat.div_le_self (2 ^ 48) offer.minPrice.toNat
  exact UInt64.toNat_ofNat_of_lt' (lt_of_le_of_lt hle (by decide))

theorem sum_escrowed {n : Nat} (huser : user < n) (asset : AssetID) :
    ∑ i ∈ Finset.range n, escrowed user offer asset i =
      if offer.category.sellAsset = asset then offer.amount.toNat else 0 := by
  unfold escrowed
  split_ifs with hasset
  · simp only [hasset, and_true]
    rw [Finset.sum_ite_eq, if_pos (Finset.mem_range.mpr huser)]
  · simp [hasset]

theorem amount_nonneg (hamount : offer.amount.toNat < 2 ^ 63) : ¬ offer.amount.toInt64 < 0 := by
  rw [Int64.lt_iff_toInt_lt, toInt_toInt64_of_lt hamount, Int64.toInt_zero]
  omega

theorem toInt_neg_amount (hamount : offer.amount.toNat < 2 ^ 63) :
    (-offer.amount.toInt64).toInt = -offer.amount.toNat := by
  have hvalue : offer.amount.toInt64.toInt = offer.amount.toNat := toInt_toInt64_of_lt hamount
  rw [← zero_sub, toInt_sub_of_bounds]
  · rw [hvalue, Int64.toInt_zero, zero_sub]
  · rw [hvalue, Int64.toInt_zero]
    omega
  · rw [hvalue, Int64.toInt_zero]
    omega

theorem neg_amount_lt (hpos : 0 < offer.amount.toNat) (hamount : offer.amount.toNat < 2 ^ 63) :
    -offer.amount.toInt64 < 0 := by
  rw [Int64.lt_iff_toInt_lt, toInt_neg_amount hamount, Int64.toInt_zero]
  omega

/-- An escrow fails only on an account that does not hold the amount. -/
theorem unfunded_of_failed {db db' : MemoryDatabase} {creation : AccountCreationView}
    {status : TransactionProcessingStatus} {view : BufferedMemoryDatabaseView}
    (huser : user < db.database.length) (hpos : 0 < offer.amount.toNat)
    (hamount : offer.amount.toNat < 2 ^ 63)
    (hescrow : BufferedMemoryDatabaseView.escrow ⟨creation, ∅⟩ db (.main user)
      offer.category.sellAsset offer.amount.toInt64 = (status, db', view))
    (hstatus : status ≠ .SUCCESS) :
    (db.balanceAt user offer.category.sellAsset.toNat).toInt < offer.amount.toNat := by
  apply Int.lt_of_not_ge
  intro hcovered
  apply hstatus
  have hdebit := @toInt_neg_amount offer hamount
  have hnegative := neg_amount_lt hpos hamount
  have hdebits := @MemoryDatabase.debits_conditionalEscrow db user offer.category.sellAsset _ huser
    hnegative
  have htake := hdebits.covered.mpr (by omega)
  have hempty : UserAccountView.empty.buffered offer.category.sellAsset = 0 := rfl
  have hexisting : BufferedMemoryDatabaseView.getExistingAccount ⟨creation, ∅⟩ user = .empty := rfl
  simp only [BufferedMemoryDatabaseView.escrow, BufferedMemoryDatabaseView.onAccount, hexisting,
    UserAccountView.conditionalEscrow, if_neg (amount_nonneg hamount), hempty, UserAccountView.settle, zero_sub,
    if_pos hnegative, htake, if_true] at hescrow
  cases hescrow
  rfl

/-- An escrow that succeeds takes the amount from the account. -/
theorem escrowed_spec {db db' : MemoryDatabase} {creation : AccountCreationView}
    {view : BufferedMemoryDatabaseView} (hpos : 0 < offer.amount.toNat)
    (hamount : offer.amount.toNat < 2 ^ 63)
    (hescrow : BufferedMemoryDatabaseView.escrow ⟨creation, ∅⟩ db (.main user)
      offer.category.sellAsset offer.amount.toInt64 = (.SUCCESS, db', view)) :
    db.SameCommitted db' ∧ (∀ i asset, view.buffered i asset = 0) ∧
      ∀ asset, db.Moves db' asset (fun _ => 0) (escrowed user offer asset) := by
  have hvalue : offer.amount.toInt64.toInt = offer.amount.toNat := toInt_toInt64_of_lt hamount
  have hpositive : 0 < offer.amount.toInt64 := by
    rw [Int64.lt_iff_toInt_lt, hvalue, Int64.toInt_zero]
    omega
  have hdebit := @toInt_neg_amount offer hamount
  have hnegative := neg_amount_lt hpos hamount
  have htakes := (@BufferedMemoryDatabaseView.escrow_takes ⟨creation, ∅⟩ db user rfl
    offer.category.sellAsset _ hpositive).2
  rw [hescrow] at htakes
  obtain ⟨htrue, hdb, hbuffered⟩ := htakes rfl
  dsimp only at hdb hbuffered
  have hsame : db.SameCommitted db' := by
    have happly : db.apply (.conditionalEscrow user offer.category.sellAsset offer.amount.toInt64) =
      .ok db' := congrArg Except.ok hdb.symm
    exact MemoryDatabase.sameCommitted_apply happly
  rw [← neg_neg offer.amount.toInt64] at htrue hdb
  obtain ⟨hbalance, hsum, hcovered⟩ := MemoryDatabase.balanceAt_conditionalEscrow hnegative htrue
  rw [← hdb] at hbalance
  refine ⟨hsame, hbuffered, fun asset => ⟨hsame.length, fun i _ => ?_, fun i _ => ?_⟩⟩
  · rw [hbalance, escrowed]
    by_cases huser : user = i
    · subst huser
      rw [Pi.single_eq_same, UserAccountView.taken_single]
      by_cases hasset : offer.category.sellAsset = asset
      · rw [if_pos hasset, if_pos ⟨rfl, hasset⟩, ← hasset, hsum, hdebit]
        omega
      · rw [if_neg hasset, if_neg fun h => hasset h.2, add_zero]
    · rw [Pi.single_eq_of_ne (Ne.symm huser), if_neg fun h => huser h.1]
      simp
  · rw [escrowed]
    split_ifs with hthere
    · obtain ⟨rfl, rfl⟩ := hthere
      omega
    · exact Nat.zero_le _

/-- The commit pays the credits, if there is room for them. -/
theorem committed_moves {db₀ db : MemoryDatabase} {view : BufferedMemoryDatabaseView} {asset : AssetID}
    {credit debit : Nat → Nat} (hmoves : db₀.Moves db asset (fun _ => 0) debit)
    (hbuffered : ∀ i, (view.buffered i asset).toInt = credit i)
    (hroom : ∀ i, db.holdings asset + credit i < 2 ^ 63) :
    db₀.Moves (view.commit db) asset credit debit := by
  have hlength := (view.commit_applies db).sameCommitted.length
  refine ⟨hlength.trans hmoves.length, fun i hi => ?_, hmoves.covered⟩
  have hidb : i < db.database.length := by
    rw [hmoves.length]
    exact hi
  have hbalance := hmoves.balance i hi
  have hle := MemoryDatabase.balanceAt_le_holdings hidb asset
  have hfits := hroom i
  have hlow := (db.balanceAt i asset.toNat).le_toInt
  have hcredit := hbuffered i
  rw [BufferedMemoryDatabaseView.balanceAt_commit hidb, toInt_add_of_bounds (by omega) (by omega),
    hcredit]
  omega

theorem received_sell (htraded : Traded offer.category) (db : MemoryDatabase) (trades : List Trade)
    (i : Nat) : received db user offer.category.buyAsset trades i offer.category.sellAsset =
      credits db trades i offer.category.sellAsset := by
  rw [received, if_neg fun h => htraded.sell_ne_buy h.2.symm, add_zero]

variable {earlier : List Offer}

theorem received_buy (htraded : Traded offer.category)
    (hopposite : (e.opposite offer.category).Holds e.db earlier (reverse offer.category))
    (db : MemoryDatabase) (i : Nat) :
    received db user offer.category.buyAsset (e.tradesOf offer) i offer.category.buyAsset =
      if user = i then totalGiven (e.tradesOf offer) else 0 := by
  rw [received, credits_eq_zero, zero_add]
  · simp
  · intro t ht
    obtain ⟨leaf, -, hoffer, hrests⟩ := hopposite.mem ((hopposite.tradesIn _ _).mem t ht)
    rw [← hoffer, hrests.category]
    exact htraded.sell_ne_buy

theorem totalGiven_tradesOf_le
    (hopposite : (e.opposite offer.category).Holds e.db earlier (reverse offer.category)) :
    totalGiven (e.tradesOf offer) ≤ (e.opposite offer.category).ob.totalEndow := by
  have hgiven := hopposite.totalEndow_settled (hopposite.tradesIn (2 ^ 48 / offer.minPrice.toNat)
    offer.amount.toNat)
  rw [← hgiven]
  exact Nat.le_add_left ..

/-- After the escrow there is room for what an offer moves. -/
theorem received_room {db : MemoryDatabase} (htraded : Traded offer.category)
    (hopposite : (e.opposite offer.category).Holds e.db earlier (reverse offer.category))
    (huser : user < e.db.database.length)
    (hsell : e.db.holdings offer.category.sellAsset < 2 ^ 63)
    (hbuy : e.db.holdings offer.category.buyAsset +
      (e.opposite offer.category).ob.totalEndow < 2 ^ 63)
    (hmoves : ∀ asset, e.db.Moves db asset (fun _ => 0) (escrowed user offer asset))
    {asset : AssetID} (hasset : asset = offer.category.sellAsset ∨ asset = offer.category.buyAsset)
    (i : Nat) : db.holdings asset +
      received db user offer.category.buyAsset (e.tradesOf offer) i asset < 2 ^ 63 := by
  have hholdings := (hmoves asset).holdings
  rw [sum_escrowed huser, Finset.sum_const_zero] at hholdings
  rcases hasset with rfl | rfl
  · have hle := credits_le db (e.tradesOf offer) i offer.category.sellAsset
    have hpaid : totalPaid (e.tradesOf offer) ≤ offer.amount.toNat := totalPaid_le
    rw [if_pos rfl] at hholdings
    rw [received_sell htraded]
    omega
  · have hgiven := totalGiven_tradesOf_le hopposite
    rw [received_buy htraded hopposite]
    split_ifs <;> omega

theorem received_sameCommitted {db db' : MemoryDatabase} (hsame : db.SameCommitted db')
    (buyAsset : AssetID) (trades : List Trade) :
    received db' user buyAsset trades = received db user buyAsset trades := by
  funext i asset
  unfold received credits
  simp only [hsame.lookupUser]

/-- An offer that can be put in: its account is there and can reserve the sequence number. -/
structure Admitted (e : SerialOrderbookExperiment) (offer : Offer) (user : Nat) : Prop where
  traded : Traded offer.category
  price : offer.minPrice.isValidPrice = true
  amount : 0 < offer.amount.toNat
  lookup : e.db.lookupUser offer.owner = some user
  inside : user < e.db.database.length
  reserve : ∃ db creation, AccountCreationView.empty.reserveSequenceNumber e.db user
    (sequenceNumber offer) = .ok (.SUCCESS, db, creation)

/-- The branches are one on the sides of the offer. -/
theorem branch_eq (htraded : Traded offer.category) {near far : SerialOrderbook}
    {db db' : MemoryDatabase} {maxPrice : Price} {view view' : BufferedMemoryDatabaseView}
    (hplace : place (e.opposite offer.category) (e.own offer.category) offer.category.buyAsset
      maxPrice offer user db view = .ok (near, far, db', view')) :
    (if offer.category = aToBCat then do
      let (aToB, bToA, db, view) ← place e.aToB e.bToA aToBCat.buyAsset maxPrice offer user db view
      return ⟨aToB, bToA, view.commit db⟩
    else do
      let (bToA, aToB, db, view) ← place e.bToA e.aToB bToACat.buyAsset maxPrice offer user db view
      return ⟨aToB, bToA, view.commit db⟩) =
      (.ok (ofSides offer.category near far (view'.commit db')) : Result _) := by
  unfold opposite own at hplace
  rcases htraded with hcat | hcat
  · rw [hcat] at hplace ⊢
    rw [if_pos rfl, if_pos rfl] at hplace
    rw [if_pos rfl, hplace]
    rfl
  · have hne : ¬ bToACat = aToBCat := by decide
    rw [hcat] at hplace ⊢
    rw [if_neg hne, if_neg hne] at hplace
    rw [if_neg hne, hplace]
    rw [ofSides, if_neg hne]
    rfl

/-- `exec_one_offer` on an admitted offer, while the amounts of each asset fit. -/
theorem execOneOffer_spec (hadmitted : e.Admitted offer user) (hamount : offer.amount.toNat < 2 ^ 63)
    (hopposite : (e.opposite offer.category).Holds e.db earlier (reverse offer.category))
    (hsell : e.db.holdings offer.category.sellAsset < 2 ^ 63)
    (hbuy : e.db.holdings offer.category.buyAsset +
      (e.opposite offer.category).ob.totalEndow < 2 ^ 63) :
    ∃ e', e.execOneOffer offer = .ok e' ∧
      (e.Declined user offer e' ∨ e.Placed user offer e') := by
  obtain ⟨htraded, hprice, hpos, hlookup, huser, db₁, creation, hreserve⟩ := hadmitted
  obtain ⟨hsame₁, hbalance₁, hnew, hrelease⟩ := reserved_spec huser hreserve
  have hnonzero : ¬ offer.minPrice = 0 := by
    rw [Price.isValidPrice_iff] at hprice
    rw [← UInt64.toNat_inj, UInt64.toNat_zero]
    omega
  rw [execOneOffer, if_neg hnonzero, hlookup]
  dsimp only
  rw [hreserve, ok_bind]
  dsimp only
  rw [if_neg (not_not.mpr rfl)]
  rcases hescrow : BufferedMemoryDatabaseView.escrow ⟨creation, ∅⟩ db₁ (.main user)
    offer.category.sellAsset offer.amount.toInt64 with ⟨status, db₂, view⟩
  dsimp only
  by_cases hstatus : status = .SUCCESS
  · subst hstatus
    rw [if_neg (not_not.mpr rfl)]
    obtain ⟨hsame₂, hbuffered, hescrowed⟩ := escrowed_spec hpos hamount hescrow
    have hmoves : ∀ asset, e.db.Moves db₂ asset (fun _ => 0) (escrowed user offer asset) := by
      intro asset
      have hmove := hescrowed asset
      refine ⟨hmove.length.trans hsame₁.length, fun i hi => ?_, fun i hi => ?_⟩
      · rw [← hbalance₁]
        exact hmove.balance i (by rw [hsame₁.length]; exact hi)
      · rw [← hbalance₁]
        exact hmove.covered i (by rw [hsame₁.length]; exact hi)
    have hsame := hsame₁.trans hsame₂
    have hgiven := totalGiven_tradesOf_le hopposite
    have htrades : e.tradesOf offer = tradesWith
        (UInt64.ofNat (2 ^ (2 * Price.radix) / offer.minPrice.toNat)).toNat
        (e.opposite offer.category).offers offer.amount.toNat := by
      rw [toNat_maxPrice, tradesOf]
    obtain ⟨view', hplace, hcredits⟩ := @place_spec _ (e.own offer.category) db₂ _ _
      offer.category.buyAsset _ offer user view _ (hopposite.sameCommitted hsame offer)
      htraded.sell_ne_buy hamount hbuffered htrades (by omega)
    rw [branch_eq htraded hplace]
    refine ⟨_, rfl, .inr ⟨opposite_ofSides, own_ofSides, ?_, fun asset hasset => ?_⟩⟩
    · rw [db_ofSides]
      exact hsame.trans (view'.commit_applies db₂).sameCommitted
    · rw [db_ofSides, ← received_sameCommitted hsame]
      apply committed_moves (hmoves asset) (fun i => hcredits i asset)
      exact received_room htraded hopposite huser hsell hbuy hmoves hasset
  · rw [if_pos hstatus]
    obtain ⟨db₃, hunwind, hsame₃, hbalance₃⟩ :=
      unwound_spec hnew hrelease offer.category.sellAsset (amount_nonneg hamount) hescrow hstatus
    rw [hunwind]
    refine ⟨_, rfl, .inl ⟨?_, rfl, rfl, hsame₁.trans hsame₃, fun i n => ?_⟩⟩
    · rw [← hbalance₁]
      exact unfunded_of_failed (by rw [hsame₁.length]; exact huser) hpos hamount hescrow hstatus
    · rw [hbalance₃, hbalance₁]

end Exec

end SerialOrderbookExperiment

end Speedex
