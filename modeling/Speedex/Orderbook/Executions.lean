import Speedex.Orderbook.Manager

/-! What clearing in validation does: it executes offers, credits their owners and logs them.  What
is kept by one execution is kept by all of clearing. -/

namespace Speedex

open Lib

section Clearing

variable {checker : OrderbookStateCommitmentChecker} {P : ClearingState → Prop}
  {s s' : ClearingState} {sellPrice buyPrice : Price}

/-- The state after an execution for the account at `idx`. -/
def ClearingState.execute (s : ClearingState) (idx : Nat) (e : Execution) : ClearingState where
  db := s.db.transferAvailable idx e.offer.category.buyAsset e.buyAmount
  log := s.log
  executed := s.executed ++ [e]

/-- `P` does not depend on the log. -/
def IgnoresLog (P : ClearingState → Prop) : Prop :=
  ∀ s log, P s → P { s with log := log }

/-- `P` is kept by an execution. -/
def KeptByExecution (P : ClearingState → Prop) : Prop :=
  ∀ s idx e, s.db.lookupUser e.offer.owner = some idx → P s → P (s.execute idx e)

theorem applyClearing_invariant (hlog : IgnoresLog P) (hexecute : KeptByExecution P)
    {offers : List Offer}
    (h : applyClearing sellPrice buyPrice checker.taxRate s offers = .ok s') (hs : P s) : P s' := by
  refine foldlM_invariant (fun b offer b' _ hb hstep => ?_) hs h
  obtain ⟨-, -, idx, buyAmount, hidx, -, rfl⟩ := completeClearing_eq_ok.mp hstep
  exact hlog _ _ (hexecute b idx ⟨offer, offer.amount, buyAmount⟩ hidx hb)

theorem clearEverything_invariant (hlog : IgnoresLog P) (hexecute : KeptByExecution P)
    {ob ob' : Orderbook} {supply supply' : FractionalAsset}
    {commitment : SingleOrderbookStateCommitment} {res : Bool}
    (h : ob.clearEverything s supply commitment sellPrice buyPrice checker.taxRate =
      .ok (res, ob', s', supply')) (hs : P s) : P s' := by
  unfold Orderbook.clearEverything at h
  split at h
  · cases h
    exact hs
  split at h
  · cases h
    exact hs
  obtain ⟨s₁, hclear, h⟩ := bind_eq_ok.mp h
  obtain ⟨lmdb, -, h⟩ := bind_eq_ok.mp h
  cases h
  exact applyClearing_invariant hlog hexecute hclear hs

theorem clearBelowPartial_invariant (hlog : IgnoresLog P) (hexecute : KeptByExecution P)
    {ob ob' : Orderbook} {supply supply' : FractionalAsset}
    {commitment : SingleOrderbookStateCommitment} {endowBelow : Int64} {offer : Offer} {res : Bool}
    (h : ob.clearBelowPartial s supply commitment checker endowBelow offer sellPrice buyPrice =
      .ok (res, ob', s', supply')) (hs : P s) : P s' := by
  unfold Orderbook.clearBelowPartial at h
  dsimp only at h
  split at h
  · cases h
    exact hlog _ _ hs
  rename_i idx hidx
  obtain ⟨offerSell, -, h⟩ := bind_eq_ok.mp h
  obtain ⟨offerBuy, -, h⟩ := bind_eq_ok.mp h
  obtain ⟨⟨sellAmount, buyAmount, db⟩, hpartial, h⟩ := bind_eq_ok.mp h
  obtain ⟨buyAmount', -, hpartial⟩ := bind_eq_ok.mp hpartial
  cases hpartial
  have hs₁ := hlog _ (s.log.logSelfModification offer.owner offer.offerId)
    (hexecute s idx ⟨offer, (narrowToInt64 commitment.partialExecAmount.ceil).toUInt64, buyAmount⟩
      hidx hs)
  dsimp only at h
  split at h
  · cases h
    exact hs₁
  obtain ⟨lmdb, -, h⟩ := bind_eq_ok.mp h
  obtain ⟨s₂, hclear, h⟩ := bind_eq_ok.mp h
  have hs₂ := applyClearing_invariant hlog hexecute hclear hs₁
  cases h
  exact hs₂

theorem tentativeClear_invariant (hlog : IgnoresLog P) (hexecute : KeptByExecution P)
    {ob ob' : Orderbook} {supply supply' : FractionalAsset}
    {commitment : SingleOrderbookStateCommitment} {res : Bool}
    (h : ob.tentativeClearOffersForValidation s supply commitment checker =
      .ok (res, ob', s', supply')) (hs : P s) : P s' := by
  obtain ⟨sellPrice, -, h⟩ := bind_eq_ok.mp h
  obtain ⟨buyPrice, -, h⟩ := bind_eq_ok.mp h
  dsimp only at h
  split at h
  · exact clearEverything_invariant hlog hexecute h hs
  · exact clearBelowPartial_invariant hlog hexecute h hs

namespace TentativeClearing

variable {c c' : TentativeClearing} {res : Bool}

theorem clearBook_invariant (hlog : IgnoresLog P) (hexecute : KeptByExecution P) {i : Nat}
    (h : c.clearBook checker i = .ok (res, c')) (hc : P c.state) : P c'.state := by
  obtain ⟨ob, -, h⟩ := bind_eq_ok.mp h
  obtain ⟨commitment, -, h⟩ := bind_eq_ok.mp h
  obtain ⟨⟨res', ob', state, supply⟩, hclear, h⟩ := bind_eq_ok.mp h
  cases h
  exact tentativeClear_invariant hlog hexecute hclear hc

/-- What is kept by the clearing of an orderbook is kept by that of a range. -/
theorem clearRange_keeps {Q : TentativeClearing → Prop} {range : List Nat}
    (hbook : ∀ (c : TentativeClearing) (i : Nat) (res : Bool) (c' : TentativeClearing),
      c.clearBook checker i = .ok (res, c') → Q c → Q c')
    (h : clearRange checker range c = .ok (res, c')) (hc : Q c) : Q c' := by
  induction range generalizing c with
  | nil =>
    cases h
    exact hc
  | cons i range ih =>
    obtain ⟨⟨res', c₁⟩, hfirst, h⟩ := bind_eq_ok.mp h
    have hc₁ := hbook c i res' c₁ hfirst hc
    dsimp only at h
    split at h
    · cases h
      exact hc₁
    · exact ih h hc₁

theorem clearRanges_keeps {Q : TentativeClearing → Prop} {ranges : List (List Nat)}
    (hbook : ∀ (c : TentativeClearing) (i : Nat) (res : Bool) (c' : TentativeClearing),
      c.clearBook checker i = .ok (res, c') → Q c → Q c')
    (h : clearRanges checker c ranges = .ok (res, c')) (hc : Q c) : Q c' := by
  refine foldlM_invariant (P := fun acc : Bool × TentativeClearing => Q acc.2)
    (fun acc range acc' _ hacc hstep => ?_) hc h
  obtain ⟨⟨res', c₁⟩, hrange, hstep⟩ := bind_eq_ok.mp hstep
  cases hstep
  exact clearRange_keeps hbook hrange hacc

/-- What does not depend on the log and is kept by an execution is kept by clearing. -/
theorem clearRanges_invariant (hlog : IgnoresLog P) (hexecute : KeptByExecution P)
    {ranges : List (List Nat)} (h : clearRanges checker c ranges = .ok (res, c')) (hc : P c.state) :
    P c'.state :=
  clearRanges_keeps (Q := fun c => P c.state)
    (fun _ _ _ _ hbook hc => clearBook_invariant hlog hexecute hbook hc) h hc

end TentativeClearing

end Clearing

end Speedex
