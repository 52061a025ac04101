import Speedex.Orderbook.PriceOrder
import Speedex.Orderbook.Conservation
import Speedex.Database.Credits

/-! Clearing offers in full.  Whether it returns depends neither on the order of the offers nor on
what the accounts have, and the credits add up in any order. -/

namespace Speedex

open Lib

/-! ### Which offers clear -/

namespace Offer

/-- What `CompleteClearingFunc` asks of an offer. -/
structure Clears (db : MemoryDatabase) (sellPrice buyPrice : Price) (taxRate : UInt8)
    (offer : Offer) : Prop where
  price : Price.aOverBLtC sellPrice buyPrice offer.minPrice = false
  amount : offer.amount ≠ 0
  owner : (db.lookupUser offer.owner).isSome
  credit : ∃ b, fullBuyAmount offer sellPrice buyPrice taxRate = .ok b

/-- The execution of a whole offer. -/
def fullExecution (sellPrice buyPrice : Price) (taxRate : UInt8) (offer : Offer) : Execution :=
  ⟨offer, offer.amount, (fullBuyAmount offer sellPrice buyPrice taxRate).toOption.getD 0⟩

variable {db db' : MemoryDatabase} {sellPrice buyPrice : Price} {taxRate : UInt8} {offer : Offer}

theorem fullExecution_eq {b : Int64} (h : fullBuyAmount offer sellPrice buyPrice taxRate = .ok b) :
    offer.fullExecution sellPrice buyPrice taxRate = ⟨offer, offer.amount, b⟩ := by
  rw [fullExecution, h]
  rfl

theorem Clears.congr (h : offer.Clears db sellPrice buyPrice taxRate)
    (hids : db'.userIdToIdxMap = db.userIdToIdxMap) : offer.Clears db' sellPrice buyPrice taxRate := by
  refine ⟨h.price, h.amount, ?_, h.credit⟩
  rw [MemoryDatabase.lookupUser, hids]
  exact h.owner

end Offer

section Apply

variable {sellPrice buyPrice : Price} {taxRate : UInt8} {s s' : ClearingState} {offers : List Offer}

/-- What clearing a list of offers has done, when it returns. -/
theorem applyClearing_spec (h : applyClearing sellPrice buyPrice taxRate s offers = .ok s') :
    (∀ o ∈ offers, o.Clears s.db sellPrice buyPrice taxRate) ∧
      s'.executed = s.executed ++ offers.map (·.fullExecution sellPrice buyPrice taxRate) ∧
      s'.db = (offers.map (·.fullExecution sellPrice buyPrice taxRate)).foldl Execution.credit s.db ∧
      s'.db.userIdToIdxMap = s.db.userIdToIdxMap := by
  induction offers generalizing s with
  | nil =>
    cases h
    exact ⟨nofun, (List.append_nil _).symm, rfl, rfl⟩
  | cons o offers ih =>
    obtain ⟨s₁, hstep, h⟩ := foldlM_cons.mp h
    obtain ⟨hprice, hamount, idx, b, huser, hbuy, rfl⟩ := completeClearing_eq_ok.mp hstep
    obtain ⟨hclears, hexecuted, hdb, hids⟩ := ih h
    have hfirst := Offer.fullExecution_eq hbuy
    refine ⟨fun o' ho' => ?_, ?_, ?_, hids⟩
    · rcases List.mem_cons.mp ho' with rfl | ho'
      · exact ⟨hprice, hamount, Option.isSome_iff_exists.mpr ⟨idx, huser⟩, b, hbuy⟩
      · exact (hclears o' ho').congr rfl
    · rw [hexecuted, List.append_assoc, List.map_cons, hfirst]
      rfl
    · rw [hdb, List.map_cons, List.foldl_cons, hfirst]
      congr 1
      simp only [Execution.credit, huser]

/-- Offers that clear one by one clear together. -/
theorem applyClearing_of_clears (h : ∀ o ∈ offers, o.Clears s.db sellPrice buyPrice taxRate) :
    ∃ s', applyClearing sellPrice buyPrice taxRate s offers = .ok s' := by
  induction offers generalizing s with
  | nil => exact ⟨s, rfl⟩
  | cons o offers ih =>
    obtain ⟨hprice, hamount, howner, b, hb⟩ := h o List.mem_cons_self
    obtain ⟨idx, huser⟩ := Option.isSome_iff_exists.mp howner
    obtain ⟨s', hs'⟩ := ih
      (s := { db := s.db.transferAvailable idx o.category.buyAsset b
              log := s.log.logSelfModification o.owner o.offerId
              executed := s.executed ++ [⟨o, o.amount, b⟩] })
      (fun o' ho' => (h o' (List.mem_cons_of_mem o ho')).congr rfl)
    refine ⟨s', foldlM_cons.mpr ⟨_, ?_, hs'⟩⟩
    exact completeClearing_eq_ok.mpr ⟨hprice, hamount, idx, b, huser, hb, rfl⟩

end Apply

/-! ### Credits in any order -/

/-- What an execution adds to the balances. -/
def Execution.delta (ids : SortedMap AccountID Nat) (e : Execution) : Nat → Nat → Int64 :=
  match ids.find? e.offer.owner with
  | none => 0
  | some idx => Pi.single idx (Pi.single e.offer.category.buyAsset.toNat e.buyAmount)

namespace MemoryDatabase

variable {db db' : MemoryDatabase} {es es' : List Execution}

theorem credit_ids (e : Execution) : (e.credit db).userIdToIdxMap = db.userIdToIdxMap := by
  unfold Execution.credit
  split <;> rfl

theorem length_credit (e : Execution) : (e.credit db).database.length = db.database.length := by
  unfold Execution.credit
  split
  · rfl
  · exact length_transferAvailable

theorem balanceAt_credit (e : Execution) {j : Nat} (hj : j < db.database.length) (n : Nat) :
    (e.credit db).balanceAt j n = db.balanceAt j n + e.delta db.userIdToIdxMap j n := by
  unfold Execution.credit Execution.delta
  rw [lookupUser]
  cases db.userIdToIdxMap.find? e.offer.owner with
  | none => simp
  | some idx => exact balanceAt_transferAvailable hj

theorem credits_ids : (es.foldl Execution.credit db).userIdToIdxMap = db.userIdToIdxMap := by
  induction es generalizing db with
  | nil => rfl
  | cons e es ih => exact ih.trans (credit_ids e)

theorem length_credits :
    (es.foldl Execution.credit db).database.length = db.database.length := by
  induction es generalizing db with
  | nil => rfl
  | cons e es ih => exact ih.trans (length_credit e)

theorem balanceAt_credits {j : Nat} (hj : j < db.database.length) (n : Nat) :
    (es.foldl Execution.credit db).balanceAt j n =
      db.balanceAt j n + (es.map fun e => e.delta db.userIdToIdxMap j n).sum := by
  induction es generalizing db with
  | nil => simp
  | cons e es ih =>
    rw [List.foldl_cons, ih (by rwa [length_credit]), balanceAt_credit e hj, credit_ids,
      List.map_cons, List.sum_cons, add_assoc]

theorem balanceAt_of_length_le {j : Nat} (hj : db.database.length ≤ j) (n : Nat) :
    db.balanceAt j n = 0 := by
  rw [balanceAt, List.getElem?_eq_none hj]
  rfl

/-- The same accounts under the same ids, with the same balances. -/
structure SameBalances (db db' : MemoryDatabase) : Prop where
  ids : db'.userIdToIdxMap = db.userIdToIdxMap
  length : db'.database.length = db.database.length
  balance : ∀ j n, db'.balanceAt j n = db.balanceAt j n

theorem SameBalances.refl : SameBalances db db := ⟨rfl, rfl, fun _ _ => rfl⟩

theorem SameBalances.trans {db'' : MemoryDatabase} (h : SameBalances db db')
    (h' : SameBalances db' db'') : SameBalances db db'' :=
  ⟨h'.ids.trans h.ids, h'.length.trans h.length, fun j n => (h'.balance j n).trans (h.balance j n)⟩

/-- The order of the credits does not matter. -/
theorem SameBalances.credits (h : SameBalances db db') (hperm : es.Perm es') :
    SameBalances (es.foldl Execution.credit db) (es'.foldl Execution.credit db') := by
  refine ⟨?_, ?_, fun j n => ?_⟩
  · rw [credits_ids, credits_ids, h.ids]
  · rw [length_credits, length_credits, h.length]
  · rcases Nat.lt_or_ge j db.database.length with hj | hj
    · rw [balanceAt_credits (h.length ▸ hj), balanceAt_credits hj, h.balance, h.ids,
        (hperm.map fun e => e.delta db.userIdToIdxMap j n).sum_eq]
    · rw [balanceAt_of_length_le, balanceAt_of_length_le]
      · rwa [length_credits]
      · rwa [length_credits, h.length]

end MemoryDatabase

end Speedex
