import Speedex.Cda.SerialOb

/-! The trades of the serial auction as numbers: what a resting offer gives up and is paid, and the
sequence of trades that uses up an amount. -/

namespace Speedex

open Lib

namespace SerialOrderbook

/-- A trade with a resting offer, given as it was before the trade. -/
structure Trade where
  offer : Offer
  given : Nat
  paid : Nat
deriving DecidableEq

/-- The trade with an offer while `remaining` is left to sell. -/
def tradeWith (offer : Offer) (remaining : Nat) : Trade :=
  let consumed := min (offer.minPrice.toNat * offer.amount.toNat) (remaining * 2 ^ 24)
  ⟨offer, consumed / offer.minPrice.toNat, consumed ⌈/⌉ 2 ^ 24⟩

/-- The trades with offers, in their order, up to a limit price. -/
def tradesWith (maxPrice : Nat) : List Offer → Nat → List Trade
  | [], _ => []
  | offer :: offers, remaining =>
    if remaining = 0 ∨ maxPrice < offer.minPrice.toNat then []
    else
      let trade := tradeWith offer remaining
      trade :: tradesWith maxPrice offers (remaining - trade.paid)

def totalGiven (trades : List Trade) : Nat := (trades.map Trade.given).sum

def totalPaid (trades : List Trade) : Nat := (trades.map Trade.paid).sum

/-- The trade pays the limit price for what it takes, and takes no more than there is. -/
structure Trade.Fair (t : Trade) : Prop where
  price : t.given * t.offer.minPrice.toNat ⌈/⌉ 2 ^ 24 ≤ t.paid
  amount : t.given ≤ t.offer.amount.toNat

/-! ### One trade -/

section Trade

variable {offer : Offer} {remaining : Nat}

theorem paid_le : (tradeWith offer remaining).paid ≤ remaining := by
  simp only [tradeWith, ceilDiv_le_iff_le_mul (show 0 < 2 ^ 24 by omega)]
  omega

theorem tradeWith_fair (hprice : 0 < offer.minPrice.toNat) :
    (tradeWith offer remaining).Fair := by
  refine ⟨?_, ?_⟩
  · simp only [tradeWith]
    refine (gc_smul_ceilDiv (show 0 < 2 ^ 24 by omega)).monotone_l ?_
    exact Nat.div_mul_le_self _ _
  · simp only [tradeWith]
    exact (Nat.div_le_div_right (min_le_left _ _)).trans_eq (Nat.mul_div_cancel_left _ hprice)

/-- An offer that keeps something has taken all that was left. -/
theorem paid_eq_of_lt (hprice : 0 < offer.minPrice.toNat)
    (h : (tradeWith offer remaining).given < offer.amount.toNat) :
    (tradeWith offer remaining).paid = remaining := by
  simp only [tradeWith] at h ⊢
  have hmin : min (offer.minPrice.toNat * offer.amount.toNat) (remaining * 2 ^ 24) =
      remaining * 2 ^ 24 := by
    refine min_eq_right (Nat.le_of_not_lt fun hlt => ?_)
    rw [min_eq_left (by omega), Nat.mul_div_cancel_left _ hprice] at h
    omega
  rw [hmin, Nat.ceilDiv_eq_add_pred_div]
  omega

end Trade

/-! ### All trades -/

section Trades

variable {maxPrice : Nat} {offers : List Offer} {remaining : Nat}

theorem tradesWith_zero : tradesWith maxPrice offers 0 = [] := by
  cases offers <;> simp [tradesWith]

theorem totalPaid_le : totalPaid (tradesWith maxPrice offers remaining) ≤ remaining := by
  induction offers generalizing remaining with
  | nil => simp [tradesWith, totalPaid]
  | cons offer offers ih =>
    rw [tradesWith]
    split
    · simp [totalPaid]
    · have hfirst := @paid_le offer remaining
      have hrest := @ih (remaining - (tradeWith offer remaining).paid)
      simp only [totalPaid, List.map_cons, List.sum_cons] at hrest ⊢
      omega

theorem mem_tradesWith {t : Trade} (h : t ∈ tradesWith maxPrice offers remaining) :
    t.offer ∈ offers ∧ ∃ left, t = tradeWith t.offer left := by
  induction offers generalizing remaining with
  | nil => simp [tradesWith] at h
  | cons offer offers ih =>
    rw [tradesWith] at h
    split at h
    · simp at h
    · rcases List.mem_cons.mp h with rfl | h
      · exact ⟨List.mem_cons_self, _, rfl⟩
      · exact ⟨List.mem_cons_of_mem _ (ih h).1, (ih h).2⟩

/-- The trades are with the first offers, one with each. -/
theorem offers_tradesWith :
    (tradesWith maxPrice offers remaining).map Trade.offer <+: offers := by
  induction offers generalizing remaining with
  | nil => simp [tradesWith]
  | cons offer offers ih =>
    rw [tradesWith]
    split
    · simp
    · exact List.cons_prefix_cons.mpr ⟨rfl, ih⟩

/-- If something is left to sell, the offers up to the limit have sold everything. -/
theorem exists_trade (hsorted : offers.Pairwise (·.minPrice ≤ ·.minPrice))
    (hvalid : ∀ offer ∈ offers, 0 < offer.minPrice.toNat)
    (hleft : totalPaid (tradesWith maxPrice offers remaining) < remaining) {offer : Offer}
    (hmem : offer ∈ offers) (hprice : offer.minPrice.toNat ≤ maxPrice) :
    ∃ t ∈ tradesWith maxPrice offers remaining, t.offer = offer ∧
      t.given = offer.amount.toNat := by
  induction offers generalizing remaining with
  | nil => cases hmem
  | cons first offers ih =>
    rw [List.pairwise_cons] at hsorted
    have hfirst : first.minPrice.toNat ≤ maxPrice := by
      rcases List.mem_cons.mp hmem with rfl | hmem
      · exact hprice
      · exact (UInt64.le_iff_toNat_le.mp (hsorted.1 offer hmem)).trans hprice
    rw [tradesWith] at hleft ⊢
    split at hleft
    · rename_i hstop
      omega
    rename_i hgo
    rw [if_neg hgo]
    simp only [totalPaid, List.map_cons, List.sum_cons] at hleft
    rcases List.mem_cons.mp hmem with rfl | hmem
    · refine ⟨_, List.mem_cons_self, rfl, ?_⟩
      have hpos := hvalid offer List.mem_cons_self
      have hle := (@tradeWith_fair offer remaining hpos).amount
      refine Nat.le_antisymm hle (Nat.le_of_not_lt fun hlt => ?_)
      have := paid_eq_of_lt hpos hlt
      omega
    · have hlt : totalPaid (tradesWith maxPrice offers
          (remaining - (tradeWith first remaining).paid)) <
            remaining - (tradeWith first remaining).paid := by
        simp only [totalPaid]
        omega
      obtain ⟨t, ht, hoffer⟩ := ih hsorted.2
        (fun o ho => hvalid o (List.mem_cons_of_mem _ ho)) hlt hmem
      exact ⟨t, List.mem_cons_of_mem _ ht, hoffer⟩

end Trades

end SerialOrderbook

end Speedex
