import Speedex.Types
import Speedex.Lib.WrappingInt

/-! The space in a block that is being produced (`BlockProductionReduce` of
`block_processing/block_producer.cc`).  Workers reserve space for a chunk of the mempool before they
know how much of it they need: they subtract the size of the chunk, add back what there was not, and
after the chunk add back what they did not use. -/

namespace Speedex

namespace BlockProducer

/-- The size of a chunk, which fits into an `int64_t`. -/
abbrev ChunkSize := { n : Int64 // 0 ≤ n }

/-- A worker on a range of chunks, between two atomic steps. -/
inductive Worker where
  /-- before its next chunk -/
  | ready (chunks : List ChunkSize)
  /-- the reservation found less than the chunk needs -/
  | correcting (chunk : ChunkSize) (remainingSpace : Int64) (chunks : List ChunkSize)
  /-- in the loop over the first `chunkSz` transactions of a chunk -/
  | processing (chunkSz j eltsAddedToBlock : Int64) (chunks : List ChunkSize)
  /-- the unused space is returned, and the transactions are still to be counted -/
  | returned (eltsAddedToBlock postCheck : Int64) (chunks : List ChunkSize)
  | done

/-- The atomic variables, and how many transactions have been processed with `SUCCESS`. -/
structure Shared where
  remainingBlockSpace : Int64
  totalBlockSize : UInt64
  addedTxs : Nat

/-- One atomic step of a worker. -/
inductive WorkerStep : Shared → Worker → Shared → Worker → Prop where
  | finish {s : Shared} : WorkerStep s (.ready []) s .done
  | reserve {s : Shared} {chunk : ChunkSize} {chunks : List ChunkSize}
    (hspace : ¬ s.remainingBlockSpace < chunk.1) :
    WorkerStep s (.ready (chunk :: chunks))
      { s with remainingBlockSpace := s.remainingBlockSpace - chunk.1 }
      (.processing chunk.1 0 0 chunks)
  | reserveLess {s : Shared} {chunk : ChunkSize} {chunks : List ChunkSize}
    (hspace : s.remainingBlockSpace < chunk.1) :
    WorkerStep s (.ready (chunk :: chunks))
      { s with remainingBlockSpace := s.remainingBlockSpace - chunk.1 }
      (.correcting chunk s.remainingBlockSpace chunks)
  | correct {s : Shared} {chunk : ChunkSize} {remainingSpace : Int64} {chunks : List ChunkSize} :
    WorkerStep s (.correcting chunk remainingSpace chunks)
      { s with remainingBlockSpace := s.remainingBlockSpace + (chunk.1 - remainingSpace) }
      (if remainingSpace ≤ 0 then .done else .processing remainingSpace 0 0 chunks)
  | success {s : Shared} {chunkSz j added : Int64} {chunks : List ChunkSize} (hj : j < chunkSz) :
    WorkerStep s (.processing chunkSz j added chunks) { s with addedTxs := s.addedTxs + 1 }
      (.processing chunkSz (j + 1) (added + 1) chunks)
  | failure {s : Shared} {chunkSz j added : Int64} {chunks : List ChunkSize} (hj : j < chunkSz) :
    WorkerStep s (.processing chunkSz j added chunks) s (.processing chunkSz (j + 1) added chunks)
  | giveBack {s : Shared} {chunkSz j added : Int64} {chunks : List ChunkSize} (hj : ¬ j < chunkSz) :
    WorkerStep s (.processing chunkSz j added chunks)
      { s with remainingBlockSpace := s.remainingBlockSpace + (chunkSz - added) }
      (.returned added s.remainingBlockSpace chunks)
  | count {s : Shared} {added postCheck : Int64} {chunks : List ChunkSize} :
    WorkerStep s (.returned added postCheck chunks)
      { s with totalBlockSize := s.totalBlockSize + added.toUInt64 }
      (if postCheck ≤ 0 then .done else .ready chunks)

/-- `build_block` while the workers run. -/
structure Building where
  shared : Shared
  workers : List Worker

def start (maxBlockSize : Int64) (ranges : List (List ChunkSize)) : Building :=
  ⟨⟨maxBlockSize, 0, 0⟩, ranges.map Worker.ready⟩

/-- Runs in which every step of a worker meets `P`. -/
inductive Run (P : Shared → Worker → Prop) (b₀ : Building) : Building → Prop where
  | refl : Run P b₀ b₀
  | step {s s' : Shared} {w w' : Worker} {before after : List Worker}
    (hrun : Run P b₀ ⟨s, before ++ w :: after⟩) (hP : P s w) (h : WorkerStep s w s' w') :
    Run P b₀ ⟨s', before ++ w' :: after⟩

/-- A worker that is about to reserve space finds a remainder that is not negative. -/
def FindsSpace (s : Shared) : Worker → Prop
  | .ready (_ :: _) => 0 ≤ s.remainingBlockSpace
  | _ => True

/-! ### Where the space is -/

namespace Worker

/-- What a worker has yet to add back to correct its reservation. -/
def owed : Worker → Int
  | .correcting chunk remainingSpace _ => chunk.1.toInt - remainingSpace.toInt
  | _ => 0

/-- The space that a worker holds, for transactions or for none. -/
def held : Worker → Int
  | .correcting _ remainingSpace _ => remainingSpace.toInt
  | .processing chunkSz _ _ _ => chunkSz.toInt
  | .returned added _ _ => added.toInt
  | _ => 0

/-- The transactions that a worker has added and not counted. -/
def uncounted : Worker → Int
  | .processing _ _ added _ => added.toInt
  | .returned added _ _ => added.toInt
  | _ => 0

/-- A worker never adds more than it looks at. -/
def Sound : Worker → Prop
  | .correcting chunk remainingSpace _ => 0 ≤ remainingSpace.toInt ∧ remainingSpace.toInt ≤ chunk.1.toInt
  | .processing chunkSz j added _ =>
    0 ≤ added.toInt ∧ added.toInt ≤ j.toInt ∧ j.toInt ≤ chunkSz.toInt
  | .returned added _ _ => 0 ≤ added.toInt
  | _ => True

theorem Sound.uncounted_le {w : Worker} (h : w.Sound) : w.uncounted ≤ w.held := by
  cases w with
  | processing => exact h.2.1.trans h.2.2
  | returned => exact le_rfl
  | correcting => exact h.1
  | ready | done => exact le_rfl

theorem Sound.nonneg {w : Worker} (h : w.Sound) : 0 ≤ w.owed ∧ 0 ≤ w.held := by
  cases w with
  | processing => exact ⟨le_rfl, h.1.trans (h.2.1.trans h.2.2)⟩
  | returned => exact ⟨le_rfl, h⟩
  | correcting => exact ⟨sub_nonneg.mpr h.2, h.1⟩
  | ready | done => exact ⟨le_rfl, le_rfl⟩

end Worker

/-- The space of the block is what remains, what the workers owe and hold, and what is counted; what
remains and is owed is not negative. -/
structure Accounts (maxBlockSize : Int64) (s : Shared) (owed held uncounted : Int) : Prop where
  space : s.remainingBlockSpace.toInt + owed + held + s.totalBlockSize.toNat = maxBlockSize.toInt
  slack : min maxBlockSize.toInt 0 ≤ s.remainingBlockSpace.toInt + owed
  added : (s.addedTxs : Int) = s.totalBlockSize.toNat + uncounted

/-- One step moves space between what remains, a worker and the count. -/
theorem WorkerStep.accounts {s s' : Shared} {w w' : Worker} {maxBlockSize : Int64}
    {owed held uncounted : Int} (h : WorkerStep s w s' w') (hfinds : FindsSpace s w) (hw : w.Sound)
    (howed : 0 ≤ owed) (hheld : 0 ≤ held)
    (hs : Accounts maxBlockSize s (owed + w.owed) (held + w.held) (uncounted + w.uncounted)) :
    w'.Sound ∧
      Accounts maxBlockSize s' (owed + w'.owed) (held + w'.held) (uncounted + w'.uncounted) := by
  obtain ⟨hspace, hslack, hadded⟩ := hs
  have hmax := Lib.toInt_lt_pow maxBlockSize
  have hzero : (0 : Int64).toInt = 0 := rfl
  have hone : (1 : Int64).toInt = 1 := rfl
  cases h with
  | finish => exact ⟨trivial, hspace, hslack, hadded⟩
  | @reserve chunk _ hroom =>
    have hchunk := Int64.le_iff_toInt_le.mp chunk.2
    have hroom := Int64.le_iff_toInt_le.mp (Int64.not_lt.mp hroom)
    have hrest : (s.remainingBlockSpace - chunk.1).toInt =
        s.remainingBlockSpace.toInt - chunk.1.toInt := by
      have := Lib.toInt_lt_pow s.remainingBlockSpace
      exact Lib.toInt_sub_of_bounds (by omega) (by omega)
    refine ⟨⟨le_rfl, le_rfl, by omega⟩, ?_, ?_, ?_⟩
    · simp only [Worker.owed, Worker.held] at hspace ⊢
      omega
    · simp only [Worker.owed] at hslack ⊢
      omega
    · simpa [Worker.uncounted] using hadded
  | @reserveLess chunk _ hroom =>
    have hchunk := Int64.le_iff_toInt_le.mp chunk.2
    have hroom := Int64.lt_iff_toInt_lt.mp hroom
    have hfinds := Int64.le_iff_toInt_le.mp hfinds
    have hrest : (s.remainingBlockSpace - chunk.1).toInt =
        s.remainingBlockSpace.toInt - chunk.1.toInt := by
      have := Lib.toInt_lt_pow chunk.1
      exact Lib.toInt_sub_of_bounds (by omega) (by omega)
    refine ⟨⟨by omega, by omega⟩, ?_, ?_, ?_⟩
    · simp only [Worker.owed, Worker.held] at hspace ⊢
      omega
    · simp only [Worker.owed] at hslack ⊢
      omega
    · simpa [Worker.uncounted] using hadded
  | @correct chunk remainingSpace _ =>
    obtain ⟨hnonneg, hle⟩ := hw
    simp only [Worker.owed, Worker.held, Worker.uncounted] at hspace hslack hadded
    have hdiff : (chunk.1 - remainingSpace).toInt = chunk.1.toInt - remainingSpace.toInt := by
      have := Lib.toInt_lt_pow chunk.1
      exact Lib.toInt_sub_of_bounds (by omega) (by omega)
    have hrest : (s.remainingBlockSpace + (chunk.1 - remainingSpace)).toInt =
        s.remainingBlockSpace.toInt + (chunk.1.toInt - remainingSpace.toInt) := by
      have := Lib.neg_pow_le_toInt s.remainingBlockSpace
      rw [← hdiff]
      exact Lib.toInt_add_of_bounds (by omega) (by omega)
    -- a reservation that is not negative holds exactly what the subtraction found
    split
    · rename_i hstop
      have hstop := Int64.le_iff_toInt_le.mp hstop
      refine ⟨trivial, ?_, ?_, hadded⟩
      · simp only [Worker.owed, Worker.held]
        omega
      · simp only [Worker.owed]
        omega
    · refine ⟨⟨le_rfl, le_rfl, hnonneg⟩, ?_, ?_, hadded⟩
      · simp only [Worker.owed, Worker.held]
        omega
      · simp only [Worker.owed]
        omega
  | @success chunkSz j added _ hj =>
    obtain ⟨hnonneg, hle, hsz⟩ := hw
    have hj := Int64.lt_iff_toInt_lt.mp hj
    have hsz' := Lib.toInt_lt_pow chunkSz
    have hj' : (j + 1).toInt = j.toInt + 1 :=
      Lib.toInt_add_of_bounds (by omega) (by omega)
    have hadded' : (added + 1).toInt = added.toInt + 1 :=
      Lib.toInt_add_of_bounds (by omega) (by omega)
    refine ⟨⟨by omega, by omega, by omega⟩, hspace, hslack, ?_⟩
    simp only [Worker.uncounted] at hadded ⊢
    push_cast
    omega
  | @failure chunkSz j added _ hj =>
    obtain ⟨hnonneg, hle, hsz⟩ := hw
    have hj := Int64.lt_iff_toInt_lt.mp hj
    have hsz' := Lib.toInt_lt_pow chunkSz
    have hj' : (j + 1).toInt = j.toInt + 1 :=
      Lib.toInt_add_of_bounds (by omega) (by omega)
    exact ⟨⟨by omega, by omega, by omega⟩, hspace, hslack, hadded⟩
  | @giveBack chunkSz j added _ hj =>
    obtain ⟨hnonneg, hle, hsz⟩ := hw
    simp only [Worker.owed, Worker.held, Worker.uncounted] at hspace hslack hadded
    have hdiff : (chunkSz - added).toInt = chunkSz.toInt - added.toInt := by
      have := Lib.toInt_lt_pow chunkSz
      exact Lib.toInt_sub_of_bounds (by omega) (by omega)
    have hrest : (s.remainingBlockSpace + (chunkSz - added)).toInt =
        s.remainingBlockSpace.toInt + (chunkSz.toInt - added.toInt) := by
      have := Lib.neg_pow_le_toInt s.remainingBlockSpace
      rw [← hdiff]
      exact Lib.toInt_add_of_bounds (by omega) (by omega)
    refine ⟨hnonneg, ?_, ?_, hadded⟩
    · simp only [Worker.owed, Worker.held]
      omega
    · simp only [Worker.owed]
      omega
  | @count added postCheck _ =>
    simp only [Worker.owed, Worker.held, Worker.uncounted, Worker.Sound] at hspace hslack hadded hw
    have hcount : (s.totalBlockSize + added.toUInt64).toNat = s.totalBlockSize.toNat + added.toInt := by
      have hunsigned := Lib.toNat_toUInt64_of_nonneg hw
      rw [UInt64.toNat_add, Nat.mod_eq_of_lt (by omega)]
      omega
    split
    · refine ⟨trivial, ?_, hslack, ?_⟩
      · simp only [Worker.owed, Worker.held, hcount]
        omega
      · simp only [Worker.uncounted, hcount]
        omega
    · refine ⟨trivial, ?_, hslack, ?_⟩
      · simp only [Worker.owed, Worker.held, hcount]
        omega
      · simp only [Worker.uncounted, hcount]
        omega

theorem sum_nonneg {f : Worker → Int} {l : List Worker} (hf : ∀ w ∈ l, 0 ≤ f w) :
    0 ≤ (l.map f).sum := by
  refine List.sum_nonneg fun x hx => ?_
  obtain ⟨w, hw, rfl⟩ := List.mem_map.mp hx
  exact hf w hw

theorem sum_split (f : Worker → Int) (before after : List Worker) (w : Worker) :
    ((before ++ w :: after).map f).sum = ((before ++ after).map f).sum + f w := by
  simp only [List.map_append, List.map_cons, List.sum_append, List.sum_cons]
  ring

/-- The invariant of a run in which every reservation finds space. -/
structure Inv (maxBlockSize : Int64) (b : Building) : Prop where
  sound : ∀ w ∈ b.workers, w.Sound
  accounts : Accounts maxBlockSize b.shared (b.workers.map Worker.owed).sum
    (b.workers.map Worker.held).sum (b.workers.map Worker.uncounted).sum

theorem inv_start (maxBlockSize : Int64) (ranges : List (List ChunkSize)) :
    Inv maxBlockSize (start maxBlockSize ranges) := by
  have hsum : ∀ f : Worker → Int, (∀ chunks, f (.ready chunks) = 0) →
      ((ranges.map Worker.ready).map f).sum = 0 := by
    intro f hf
    rw [List.map_map]
    exact List.sum_eq_zero fun x hx => by
      obtain ⟨chunks, -, rfl⟩ := List.mem_map.mp hx
      exact hf chunks
  refine ⟨fun w hw => ?_, ?_, ?_, ?_⟩
  · obtain ⟨chunks, -, rfl⟩ := List.mem_map.mp hw
    trivial
  · simp only [start]
    rw [hsum _ fun _ => rfl, hsum _ fun _ => rfl]
    simp
  · simp only [start]
    rw [hsum _ fun _ => rfl]
    omega
  · simp only [start]
    rw [hsum _ fun _ => rfl]
    simp

theorem Run.inv {maxBlockSize : Int64} {ranges : List (List ChunkSize)} {b : Building}
    (h : Run FindsSpace (start maxBlockSize ranges) b) : Inv maxBlockSize b := by
  induction h with
  | refl => exact inv_start maxBlockSize ranges
  | @step s s' w w' before after _ hP hstep ih =>
    have hothers : ∀ v ∈ before ++ after, v.Sound := fun v hv =>
      ih.sound v (by simp only [List.mem_append, List.mem_cons] at hv ⊢; tauto)
    have haccounts := ih.accounts
    simp only [sum_split] at haccounts
    obtain ⟨hw', haccounts'⟩ := hstep.accounts hP (ih.sound w (by simp))
      (sum_nonneg fun v hv => (hothers v hv).nonneg.1)
      (sum_nonneg fun v hv => (hothers v hv).nonneg.2) haccounts
    refine ⟨fun v hv => ?_, by simpa only [sum_split] using haccounts'⟩
    rcases List.mem_append.mp hv with hv | hv
    · exact hothers v (List.mem_append_left after hv)
    · rcases List.mem_cons.mp hv with rfl | hv
      · exact hw'
      · exact hothers v (List.mem_append_right before hv)

/-- If no reservation finds a negative remainder, the block never gets more transactions than it may
have, in any interleaving. -/
theorem addedTxs_le (maxBlockSize : Int64) (ranges : List (List ChunkSize)) (b : Building)
    (h : Run FindsSpace (start maxBlockSize ranges) b) :
    b.shared.addedTxs ≤ maxBlockSize.toInt.toNat ∧
      b.shared.totalBlockSize.toNat ≤ maxBlockSize.toInt.toNat := by
  have hinv := h.inv
  obtain ⟨hspace, hslack, hadded⟩ := hinv.accounts
  have huncounted : (b.workers.map Worker.uncounted).sum ≤ (b.workers.map Worker.held).sum :=
    List.sum_le_sum fun w hw => (hinv.sound w hw).uncounted_le
  have hheld : 0 ≤ (b.workers.map Worker.held).sum :=
    sum_nonneg fun w hw => (hinv.sound w hw).nonneg.2
  omega

/-- Chunks of one and of two transactions. -/
def one : ChunkSize := ⟨1, by decide⟩
def two : ChunkSize := ⟨2, by decide⟩

/-- Room for one transaction.  The second worker reserves before the first has corrected its
reservation, and adds back what the first has yet to add back: the third worker finds room, and the
block gets two transactions. -/
theorem exceeds_limit :
    ∃ b, Run (fun _ _ => True) (start 1 [[two], [two], [one]]) b ∧ b.shared.addedTxs = 2 ∧
      b.shared.totalBlockSize = 2 := by
  have h₁ := @Run.step (fun _ _ => True) (start 1 [[two], [two], [one]]) _ _ _ _ []
    [.ready [two], .ready [one]] .refl trivial (.reserveLess (by decide))
  have h₂ := @Run.step _ _ _ _ _ _ [.correcting two 1 []] [.ready [one]] h₁ trivial
    (.reserveLess (by decide))
  have h₃ := @Run.step _ _ _ _ _ _ [.correcting two 1 []] [.ready [one]] h₂ trivial .correct
  have h₄ := @Run.step _ _ _ _ _ _ [] [.done, .ready [one]] h₃ trivial .correct
  have h₅ := @Run.step _ _ _ _ _ _ [.processing 1 0 0 [], .done] [] h₄ trivial
    (.reserve (by decide))
  have h₆ := @Run.step _ _ _ _ _ _ [] [.done, .processing 1 0 0 []] h₅ trivial
    (.success (by decide))
  have h₇ := @Run.step _ _ _ _ _ _ [.processing 1 1 1 [], .done] [] h₆ trivial
    (.success (by decide))
  have h₈ := @Run.step _ _ _ _ _ _ [] [.done, .processing 1 1 1 []] h₇ trivial
    (.giveBack (by decide))
  have h₉ := @Run.step _ _ _ _ _ _ [] [.done, .processing 1 1 1 []] h₈ trivial .count
  have h₁₀ := @Run.step _ _ _ _ _ _ [.done, .done] [] h₉ trivial (.giveBack (by decide))
  have h₁₁ := @Run.step _ _ _ _ _ _ [.done, .done] [] h₁₀ trivial .count
  exact ⟨_, h₁₁, rfl, rfl⟩

/-- When the first worker corrects its reservation first, the others find no room. -/
theorem addedTxs_le_one :
    ∃ b, Run FindsSpace (start 1 [[two], [one]]) b ∧ b.shared.addedTxs = 1 ∧
      b.shared.addedTxs ≤ 1 := by
  have h₁ := @Run.step FindsSpace (start 1 [[two], [one]]) _ _ _ _ [] [.ready [one]] .refl
    (show (0 : Int64) ≤ 1 by decide) (.reserveLess (by decide))
  have h₂ := @Run.step _ _ _ _ _ _ [] [.ready [one]] h₁ trivial .correct
  have h₃ := @Run.step _ _ _ _ _ _ [.processing 1 0 0 []] [] h₂
    (show (0 : Int64) ≤ 1 - 2 + (2 - 1) by decide) (.reserveLess (by decide))
  have h₄ := @Run.step _ _ _ _ _ _ [] [.correcting one 0 []] h₃ trivial (.success (by decide))
  exact ⟨_, h₄, rfl, (addedTxs_le 1 _ _ h₄).1⟩

end BlockProducer

end Speedex
