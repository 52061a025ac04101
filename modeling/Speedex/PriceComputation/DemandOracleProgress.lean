import Speedex.PriceComputation.DemandOracle

/-! When the caller puts the workers of a `ParallelDemandOracle` to sleep only after a query, as
`better_grid_search_tatonnement_query` does, no call of the oracle waits forever. -/

namespace Speedex

open Lib

/-! ### Sleeping and waking -/

namespace DemandOracleWorker

variable {numAssets : Nat} {q : DemandQuery} {w w' : DemandOracleWorker numAssets}

/-- The worker is asleep or about to be. -/
structure Sleepy (w : DemandOracleWorker numAssets) : Prop where
  roundStart : w.roundStart = false
  pc : w.pc = .asleep ∧ w.sleepFlag = false ∨ w.sleepFlag = true ∧
    (w.pc = .loadRoundFlag ∨ w.pc = .loadSleepFlag ∨ w.pc = .storeSleepFlag)

/-- The worker is awake or about to be, and will not fall asleep. -/
structure Awake (w : DemandOracleWorker numAssets) : Prop where
  sleepFlag : w.sleepFlag = false
  pc : w.pc ≠ .storeSleepFlag
  roundStart : w.pc = .asleep ↔ w.roundStart = true
  done : w.roundDoneFlag = true → w.pc ≠ .asleep

theorem Sleepy.step (hw : w.Sleepy) (hquiet : w.Quiet) (h : w.step = some w') : w'.Sleepy := by
  obtain ⟨hstart, ⟨hpc, hsleep⟩ | ⟨hsleep, hpc | hpc | hpc⟩⟩ := hw
  · simp [DemandOracleWorker.step, hpc, hstart] at h
  · simp only [DemandOracleWorker.step, hpc] at h
    cases h
    exact ⟨hstart, .inr ⟨hsleep, .inr (.inl (if_neg (by simp [hquiet.round])))⟩⟩
  · simp only [DemandOracleWorker.step, hpc] at h
    cases h
    exact ⟨hstart, .inr ⟨hsleep, .inr (.inr (if_pos hsleep))⟩⟩
  · simp only [DemandOracleWorker.step, hpc] at h
    cases h
    exact ⟨hstart, .inl ⟨rfl, rfl⟩⟩

theorem awake_of_up (hsleep : w.sleepFlag = false) (hstart : w.roundStart = false)
    (hup : w.pc ≠ .asleep) (hpc : w.pc ≠ .storeSleepFlag) : w.Awake ∧ w.pc ≠ .asleep := by
  refine ⟨⟨hsleep, hpc, ⟨fun hasleep => absurd hasleep hup, fun hset => ?_⟩, fun _ => hup⟩, hup⟩
  cases hstart.symm.trans hset

theorem Awake.roundStart_eq (hw : w.Awake) (hup : w.pc ≠ .asleep) : w.roundStart = false := by
  rw [Bool.eq_false_iff]
  exact fun hset => hup (hw.roundStart.mpr hset)

/-- An awake worker stays awake, and is up after a step. -/
theorem Awake.step (hw : w.Awake) (h : w.step = some w') : w'.Awake ∧ w'.pc ≠ .asleep := by
  have hsleep := hw.sleepFlag
  by_cases hasleep : w.pc = .asleep
  · simp only [DemandOracleWorker.step, hasleep] at h
    split at h
    · cases h
      exact awake_of_up hsleep rfl (by simp) (by simp)
    · cases h
  · have hstart := hw.roundStart_eq hasleep
    unfold DemandOracleWorker.step at h
    split at h
    · exact absurd ‹_› hasleep
    · cases h
      refine awake_of_up hsleep hstart ?_ ?_
      · by_cases hround : w.tatonnementRoundFlag = true <;> simp [hround]
      · by_cases hround : w.tatonnementRoundFlag = true <;> simp [hround]
    · cases h
      exact awake_of_up hsleep hstart (by simp) (by simp)
    · cases h
      exact awake_of_up hsleep hstart (by simp) (by simp)
    · split at h
      · split at h
        · cases h
          exact awake_of_up hsleep hstart (by simp) (by simp)
        · cases h
      · cases h
        exact awake_of_up hsleep hstart (by simp) (by simp)
    · cases h
      exact awake_of_up hsleep hstart (by simp) (by simp)
    · cases h
      refine awake_of_up hsleep hstart ?_ ?_
      · simp [hsleep]
      · simp [hsleep]
    · exact absurd ‹_› hw.pc

/-! ### Running one worker -/

/-- The worker takes some steps. -/
def Reaches (w w' : DemandOracleWorker numAssets) : Prop :=
  Relation.ReflTransGen (fun v v' => v.step = some v') w w'

/-- A sleepy worker falls asleep. -/
theorem Sleepy.reaches (hw : w.Sleepy) (hquiet : w.Quiet) : ∃ w', w.Reaches w' ∧ w'.pc = .asleep := by
  obtain ⟨-, ⟨hpc, -⟩ | ⟨hsleep, hpc⟩⟩ := hw
  · exact ⟨w, .refl, hpc⟩
  · have hstore : ∀ v : DemandOracleWorker numAssets, v.pc = .storeSleepFlag →
        ∃ w', v.Reaches w' ∧ w'.pc = .asleep :=
      fun v hv => ⟨_, .single (by rw [DemandOracleWorker.step, hv]), rfl⟩
    have hload : ∀ v : DemandOracleWorker numAssets, v.pc = .loadSleepFlag → v.sleepFlag = true →
        ∃ w', v.Reaches w' ∧ w'.pc = .asleep := by
      intro v hv hset
      obtain ⟨w', hreaches, hw'⟩ := hstore { v with pc := .storeSleepFlag } rfl
      refine ⟨w', hreaches.head ?_, hw'⟩
      simp [DemandOracleWorker.step, hv, hset]
    rcases hpc with hpc | hpc | hpc
    · obtain ⟨w', hreaches, hw'⟩ := hload { w with pc := .loadSleepFlag } rfl hsleep
      refine ⟨w', hreaches.head ?_, hw'⟩
      simp [DemandOracleWorker.step, hpc, hquiet.round]
    · exact hload w hpc hsleep
    · exact hstore w hpc

/-- How many steps the worker is away from the end of its round, at most. -/
def rank (w : DemandOracleWorker numAssets) : Nat :=
  match w.pc with
  | .asleep => w.endingWorkUnit - w.startingWorkUnit + 6
  | .loadSleepFlag => w.endingWorkUnit - w.startingWorkUnit + 6
  | .storeSleepFlag => w.endingWorkUnit - w.startingWorkUnit + 6
  | .loadRoundFlag => w.endingWorkUnit - w.startingWorkUnit + 5
  | .storeRoundFlag => w.endingWorkUnit - w.startingWorkUnit + 4
  | .clearWorkspaces => w.endingWorkUnit - w.startingWorkUnit + 3
  | .compute i => w.endingWorkUnit - i + 2
  | .storeDoneFlag => 1

/-- A worker that is given a round and is awake can take a step towards its end. -/
theorem InRound.advances (hw : w.InRound q) (hawake : w.Awake) (hdone : w.roundDoneFlag = false)
    (hreturns : ∀ (i : Nat) (v : DemandWorkspace numAssets), i < w.endingWorkUnit →
      ∃ v', q.demandFunc v i = .ok v') :
    ∃ w', w.step = some w' ∧ (w'.rank < w.rank ∨ w'.roundDoneFlag = true) := by
  cases hw with
  | posted hpc hround =>
    rcases hpc with (hpc | hpc | hpc | hpc) | hpc
    · refine ⟨{ w with roundStart := false, pc := .loadRoundFlag }, ?_, .inl (by simp [rank, hpc])⟩
      simp [DemandOracleWorker.step, hpc, hawake.roundStart.mp hpc]
    · refine ⟨{ w with pc := .storeRoundFlag }, ?_, .inl (by simp [rank, hpc])⟩
      simp [DemandOracleWorker.step, hpc, hround]
    · refine ⟨{ w with pc := .loadRoundFlag }, ?_, .inl (by simp [rank, hpc])⟩
      simp [DemandOracleWorker.step, hpc, hawake.sleepFlag]
    · exact absurd hpc hawake.pc
    · exact ⟨_, by rw [DemandOracleWorker.step, hpc], .inl (by simp [rank, hpc])⟩
  | clearing hpc => exact ⟨_, by rw [DemandOracleWorker.step, hpc], .inl (by simp [rank, hpc])⟩
  | computing i hpc _ _ hquery =>
    by_cases hi : i < w.endingWorkUnit
    · obtain ⟨v, hv⟩ := hreturns i w.results hi
      refine ⟨{ w with results := v, pc := .compute (i + 1) }, ?_, ?_⟩
      · simp [DemandOracleWorker.step, hpc, hi, hquery, hv]
      · left
        simp only [rank, hpc]
        omega
    · refine ⟨{ w with pc := .storeDoneFlag }, ?_, .inl (by simp [rank, hpc])⟩
      simp [DemandOracleWorker.step, hpc, hi]
  | signalling hpc => exact ⟨_, by rw [DemandOracleWorker.step, hpc], .inr rfl⟩
  | done _ _ hset => cases hdone.symm.trans hset

/-- A worker that is given a round and is awake computes it. -/
theorem InRound.reaches (hw : w.InRound q) (hawake : w.Awake)
    (hreturns : ∀ (i : Nat) (v : DemandWorkspace numAssets), i < w.endingWorkUnit →
      ∃ v', q.demandFunc v i = .ok v') :
    ∃ w', w.Reaches w' ∧ w'.roundDoneFlag = true := by
  induction hn : w.rank using Nat.strong_induction_on generalizing w with
  | _ n ih =>
    by_cases hdone : w.roundDoneFlag = true
    · exact ⟨w, .refl, hdone⟩
    · obtain ⟨v, hstep, hlt | hset⟩ :=
        hw.advances hawake (Bool.eq_false_iff.mpr hdone) hreturns
      · have hend := (step_range hstep).2
        obtain ⟨w', hreaches, hw'⟩ := ih v.rank (hn ▸ hlt) (hw.step hstep) (hawake.step hstep).1
          (fun i u hi => hreturns i u (hend ▸ hi)) rfl
        exact ⟨w', hreaches.head hstep, hw'⟩
      · exact ⟨v, .single hstep, hset⟩

end DemandOracleWorker

/-! ### Waking and putting to sleep -/

namespace ParallelDemandOracle

variable {numWorkers numAssets numWorkUnits : Nat} {o o' : ParallelDemandOracle numWorkers numAssets}

/-- Whether worker `i` is awake, given where the caller is. -/
def WokenAt (caller : CallerPc numAssets) (i : Nat) (w : DemandOracleWorker numAssets) : Prop :=
  match caller with
  | .idle => w.Sleepy
  | .activating j => if i < j then w.Awake else w.Sleepy
  | .active queried => w.Awake ∧ (queried = true → w.pc ≠ .asleep)
  | .signalling _ _ _ _ => w.Awake
  | .working _ _ _ _ => w.Awake
  | .gathering _ _ _ j taken => w.Awake ∧ (i < j ∨ i = j ∧ taken = true → w.pc ≠ .asleep)
  | .deactivating j => if i < j then w.Sleepy else w.Awake ∧ w.pc ≠ .asleep

def Woken (o : ParallelDemandOracle numWorkers numAssets) : Prop :=
  ∀ i : Fin numWorkers, WokenAt o.caller i (o.workers i)

/-- The workers are put to sleep only after a query. -/
def Disciplined : List (OracleAction numWorkers numAssets) → ParallelDemandOracle numWorkers numAssets → Prop
  | [], _ => True
  | a :: as, o => (a = .call .deactivateOracle → o.caller ≠ .active false) ∧
    ∀ o₁, o.step a = some o₁ → Disciplined as o₁

theorem woken_new (queries : Fin numWorkers → DemandQuery)
    (results : Fin numWorkers → DemandWorkspace numAssets) :
    Woken (new numWorkUnits queries results) :=
  fun _ => ⟨rfl, .inl ⟨rfl, rfl⟩⟩

theorem WokenAt.step {caller : CallerPc numAssets} {i : Nat} {w w' : DemandOracleWorker numAssets}
    (hw : WokenAt caller i w) (hat : WorkerAt caller i w) (h : w.step = some w') :
    WokenAt caller i w' := by
  cases caller with
  | idle => exact DemandOracleWorker.Sleepy.step hw hat h
  | activating j =>
    rw [WokenAt] at hw ⊢
    split at hw
    · rw [if_pos ‹_›]
      exact (hw.step h).1
    · rw [if_neg ‹_›]
      exact hw.step hat h
  | active queried =>
    obtain ⟨hawake, hup⟩ := hw.1.step h
    exact ⟨hawake, fun _ => hup⟩
  | signalling q initial j written => exact (DemandOracleWorker.Awake.step hw h).1
  | working q initial out i' => exact (DemandOracleWorker.Awake.step hw h).1
  | gathering q initial out j taken =>
    obtain ⟨hawake, hup⟩ := hw.1.step h
    exact ⟨hawake, fun _ => hup⟩
  | deactivating j =>
    rw [WokenAt] at hw ⊢
    split at hw
    · rw [if_pos ‹_›]
      exact hw.step hat h
    · rw [if_neg ‹_›]
      exact hw.1.step h

theorem Woken.workerStep (hw : Woken o) (ho : Inv numWorkUnits o) {j : Fin numWorkers}
    {w : DemandOracleWorker numAssets} (h : (o.workers j).step = some w) :
    Woken (o.setWorker j w) := by
  intro i
  rw [setWorker_workers]
  split
  · rename_i hi
    rw [hi]
    exact (hw j).step (ho.workers j) h
  · exact hw i

/-- After a step of the caller that changes at most worker `j`. -/
theorem woken_setWorker {j : Fin numWorkers} {w : DemandOracleWorker numAssets}
    {caller : CallerPc numAssets} (hj : WokenAt caller j w)
    (hothers : ∀ i : Fin numWorkers, i ≠ j → WokenAt caller i (o.workers i)) :
    Woken { o.setWorker j w with caller := caller } := by
  intro i
  rw [show ({ o.setWorker j w with caller := caller } : ParallelDemandOracle _ _).workers i =
    (o.setWorker j w).workers i from rfl, setWorker_workers]
  split
  · rename_i hi
    rw [hi]
    exact hj
  · rename_i hi
    exact hothers i hi

theorem Woken.beginCall (hw : Woken o) {c : OracleCall numAssets} (h : o.beginCall c = some o')
    (hqueried : c = .deactivateOracle → o.caller ≠ .active false) : Woken o' := by
  unfold Woken at hw
  cases c with
  | activateOracle =>
    simp only [ParallelDemandOracle.beginCall] at h
    split at h
    · rename_i hcaller
      cases h
      rw [hcaller] at hw
      exact hw
    · cases h
  | getSupplyDemand q initial =>
    simp only [ParallelDemandOracle.beginCall] at h
    split at h
    · rename_i hcaller
      cases h
      rw [hcaller] at hw
      exact fun i => (hw i).1
    · cases h
  | deactivateOracle =>
    simp only [ParallelDemandOracle.beginCall] at h
    split at h
    · rename_i queried hcaller
      cases h
      have hneq := hqueried rfl
      rw [hcaller] at hw hneq
      intro i
      obtain ⟨hawake, hup⟩ := hw i
      cases queried with
      | false => exact absurd rfl hneq
      | true => exact ⟨hawake, hup rfl⟩
    · cases h

theorem Woken.activateWorker (hw : Woken o) (ho : Inv numWorkUnits o) {j : Nat}
    (hcaller : o.caller = .activating j) (h : o.activateWorker j = some o') : Woken o' := by
  have hworkers := ho.workers
  unfold Woken at hw
  rw [hcaller] at hworkers hw
  unfold ParallelDemandOracle.activateWorker at h
  split at h
  · rename_i hj
    split at h
    · rename_i hasleep
      cases h
      have hquiet : (o.workers ⟨j, hj⟩).Quiet := hworkers ⟨j, hj⟩
      have hj' := hw ⟨j, hj⟩
      rw [WokenAt, if_neg (lt_irrefl j)] at hj'
      apply woken_setWorker
      · rw [WokenAt, if_pos (Nat.lt_succ_self j)]
        obtain ⟨-, hsleep⟩ | ⟨-, hpc | hpc | hpc⟩ := hj'.pc
        · refine ⟨hsleep, fun hpc => ?_, ⟨fun _ => rfl, fun _ => hasleep⟩, fun hdone => ?_⟩
          · cases hasleep.symm.trans hpc
          · cases hquiet.done.symm.trans hdone
        all_goals cases hasleep.symm.trans hpc
      · intro i hi
        have hwi := hw i
        have hne := ne_of_fin_ne hi
        rw [WokenAt] at hwi ⊢
        by_cases hlt : (i : Nat) < j
        · rw [if_pos hlt] at hwi
          rwa [if_pos (Nat.lt_succ_of_lt hlt)]
        · rw [if_neg hlt] at hwi
          rwa [if_neg (by omega)]
    · cases h
  · rename_i hj
    cases h
    intro i
    have hwi := hw i
    rw [WokenAt, if_pos (lt_of_lt_of_le i.isLt (not_lt.mp hj))] at hwi
    exact ⟨hwi, nofun⟩

theorem Woken.signalRoundStart (hw : Woken o) {q : DemandQuery} {initial : DemandWorkspace numAssets}
    {j : Nat} {written : Bool} (hcaller : o.caller = .signalling q initial j written)
    (h : o.signalRoundStart q initial j written = some o') : Woken o' := by
  unfold Woken at hw
  rw [hcaller] at hw
  unfold ParallelDemandOracle.signalRoundStart at h
  split at h
  · rename_i hj
    obtain ⟨hsleep, hpc, hstart, hdone⟩ := hw ⟨j, hj⟩
    split at h
    · cases h
      exact woken_setWorker ⟨hsleep, hpc, hstart, hdone⟩ fun i _ => hw i
    · cases h
      exact woken_setWorker ⟨hsleep, hpc, hstart, hdone⟩ fun i _ => hw i
  · cases h
    exact hw

theorem Woken.workInMainThread (hw : Woken o) {q : DemandQuery}
    {initial out : DemandWorkspace numAssets} {i : Nat}
    (hcaller : o.caller = .working q initial out i)
    (h : o.workInMainThread q initial out i = some o') : Woken o' := by
  unfold Woken at hw
  rw [hcaller] at hw
  unfold ParallelDemandOracle.workInMainThread at h
  split at h
  · split at h
    · cases h
      exact hw
    · cases h
  · cases h
    intro j
    refine ⟨hw j, fun hc => ?_⟩
    rcases hc with hc | ⟨-, hc⟩
    · exact absurd hc (Nat.not_lt_zero _)
    · cases hc

theorem Woken.waitForComputeDoneAndGetResults (hw : Woken o) {q : DemandQuery}
    {initial out : DemandWorkspace numAssets} {j : Nat} {taken : Bool}
    (hcaller : o.caller = .gathering q initial out j taken)
    (h : o.waitForComputeDoneAndGetResults q initial out j taken = some o') : Woken o' := by
  unfold Woken at hw
  rw [hcaller] at hw
  unfold ParallelDemandOracle.waitForComputeDoneAndGetResults at h
  split at h
  · rename_i hj
    split at h
    · rename_i htaken
      cases h
      intro i
      obtain ⟨hawake, hup⟩ := hw i
      refine ⟨hawake, fun hc => hup ?_⟩
      rcases hc with hlt | ⟨-, hc⟩
      · rcases Nat.lt_succ_iff_lt_or_eq.mp hlt with hlt | heq
        · exact .inl hlt
        · exact .inr ⟨heq, htaken⟩
      · cases hc
    · split at h
      · rename_i hdone
        cases h
        obtain ⟨⟨hsleep, hpc, hstart, hup⟩, -⟩ := hw ⟨j, hj⟩
        apply woken_setWorker
        · exact ⟨⟨hsleep, hpc, hstart, nofun⟩, fun _ => hup hdone⟩
        · intro i hi
          obtain ⟨hawake, hupi⟩ := hw i
          refine ⟨hawake, fun hc => hupi ?_⟩
          rcases hc with hlt | ⟨heq, -⟩
          · exact .inl hlt
          · exact absurd heq (ne_of_fin_ne hi)
      · cases h
        intro i
        rw [hcaller]
        exact hw i
  · rename_i hj
    cases h
    intro i
    obtain ⟨hawake, hup⟩ := hw i
    exact ⟨hawake, fun _ => hup (.inl (lt_of_lt_of_le i.isLt (not_lt.mp hj)))⟩

theorem Woken.deactivateWorker (hw : Woken o) (ho : Inv numWorkUnits o) {j : Nat}
    (hcaller : o.caller = .deactivating j) (h : o.deactivateWorker j = some o') : Woken o' := by
  have hworkers := ho.workers
  unfold Woken at hw
  rw [hcaller] at hworkers hw
  unfold ParallelDemandOracle.deactivateWorker at h
  split at h
  · rename_i hj
    cases h
    have hquiet : (o.workers ⟨j, hj⟩).Quiet := hworkers ⟨j, hj⟩
    have hj' := hw ⟨j, hj⟩
    rw [WokenAt, if_neg (lt_irrefl j)] at hj'
    apply woken_setWorker
    · rw [WokenAt, if_pos (Nat.lt_succ_self j)]
      refine ⟨hj'.1.roundStart_eq hj'.2, .inr ⟨rfl, ?_⟩⟩
      rcases hquiet.pc with hpc | hpc | hpc | hpc
      · exact absurd hpc hj'.2
      · exact .inl hpc
      · exact .inr (.inl hpc)
      · exact absurd hpc hj'.1.pc
    · intro i hi
      have hwi := hw i
      have hne := ne_of_fin_ne hi
      rw [WokenAt] at hwi ⊢
      by_cases hlt : (i : Nat) < j
      · rw [if_pos hlt] at hwi
        rwa [if_pos (Nat.lt_succ_of_lt hlt)]
      · rw [if_neg hlt] at hwi
        rwa [if_neg (by omega)]
  · rename_i hj
    cases h
    intro i
    have hwi := hw i
    rw [WokenAt, if_pos (lt_of_lt_of_le i.isLt (not_lt.mp hj))] at hwi
    exact hwi

theorem Woken.callerStep (hw : Woken o) (ho : Inv numWorkUnits o) (h : o.callerStep = some o') :
    Woken o' := by
  unfold ParallelDemandOracle.callerStep at h
  split at h
  · cases h
  · cases h
  · exact hw.activateWorker ho ‹_› h
  · exact hw.signalRoundStart ‹_› h
  · exact hw.workInMainThread ‹_› h
  · exact hw.waitForComputeDoneAndGetResults ‹_› h
  · exact hw.deactivateWorker ho ‹_› h

theorem Woken.step (hw : Woken o) (ho : Inv numWorkUnits o) {a : OracleAction numWorkers numAssets}
    (h : o.step a = some o') (hqueried : a = .call .deactivateOracle → o.caller ≠ .active false) :
    Woken o' := by
  cases a with
  | call c => exact hw.beginCall h fun hc => hqueried (congrArg _ hc)
  | caller => exact hw.callerStep ho h
  | worker j =>
    obtain ⟨w, hstep, rfl⟩ := Option.map_eq_some_iff.mp h
    exact hw.workerStep ho hstep

theorem Woken.run (hw : Woken o) (ho : Inv numWorkUnits o)
    {as : List (OracleAction numWorkers numAssets)} (hdisciplined : Disciplined as o)
    (h : o.run as = some o') : Woken o' := by
  induction as generalizing o with
  | nil =>
    cases h
    exact hw
  | cons a as ih =>
    obtain ⟨o₁, hstep, hrest⟩ := run_cons.mp h
    exact ih (hw.step ho hstep hdisciplined.1) (ho.step hstep) (hdisciplined.2 o₁ hstep) hrest

/-! ### Completing a call -/

/-- The threads go on, and the caller begins no call. -/
def CanReach (o o' : ParallelDemandOracle numWorkers numAssets) : Prop :=
  ∃ as, (∀ c, OracleAction.call c ∉ as) ∧ o.run as = some o'

theorem CanReach.refl (o : ParallelDemandOracle numWorkers numAssets) : CanReach o o :=
  ⟨[], fun _ => List.not_mem_nil, rfl⟩

theorem CanReach.head {o₁ : ParallelDemandOracle numWorkers numAssets}
    {a : OracleAction numWorkers numAssets} (hstep : o.step a = some o₁) (ha : ∀ c, a ≠ .call c)
    (h : CanReach o₁ o') : CanReach o o' := by
  obtain ⟨as, hcalls, hrun⟩ := h
  refine ⟨a :: as, fun c hc => ?_, run_cons.mpr ⟨o₁, hstep, hrun⟩⟩
  rcases List.mem_cons.mp hc with rfl | hc
  · exact ha c rfl
  · exact hcalls c hc

theorem CanReach.trans {o₁ : ParallelDemandOracle numWorkers numAssets} (h : CanReach o o₁)
    (h' : CanReach o₁ o') : CanReach o o' := by
  obtain ⟨as, hcalls, hrun⟩ := h
  induction as generalizing o with
  | nil =>
    cases hrun
    exact h'
  | cons a as ih =>
    obtain ⟨o₂, hstep, hrest⟩ := run_cons.mp hrun
    refine (ih (fun c hc => hcalls c (List.mem_cons_of_mem a hc)) hrest).head hstep fun c hc => ?_
    exact hcalls c (hc ▸ List.mem_cons_self)

theorem CanReach.callerStep (h : o.callerStep = some o') : CanReach o o' :=
  (CanReach.refl o').head (a := .caller) h fun _ => nofun

/-- Steps of one worker. -/
theorem CanReach.worker {j : Fin numWorkers} {w : DemandOracleWorker numAssets}
    (h : (o.workers j).Reaches w) : CanReach o (o.setWorker j w) := by
  induction h with
  | refl =>
    have hsame : o.setWorker j (o.workers j) = o := by
      rw [setWorker, Function.update_eq_self]
    rw [hsame]
    exact .refl o
  | @tail v v' _ hstep ih =>
    refine ih.trans ((CanReach.refl _).head (a := .worker j) ?_ fun _ => nofun)
    have hat : (o.setWorker j v).workers j = v := by simp
    rw [ParallelDemandOracle.step, hat, hstep]
    simp [setWorker]

theorem CanReach.inv (h : CanReach o o') (ho : Inv numWorkUnits o) : Inv numWorkUnits o' := by
  obtain ⟨as, -, hrun⟩ := h
  exact ho.run hrun

theorem disciplined_of_awake {as : List (OracleAction numWorkers numAssets)}
    (h : OracleAction.call .deactivateOracle ∉ as) : Disciplined as o := by
  induction as generalizing o with
  | nil => trivial
  | cons a as ih =>
    refine ⟨fun ha => absurd ?_ h, fun o₁ _ => ih fun hc => ?_⟩
    · rw [ha]
      exact List.mem_cons_self
    · exact h (List.mem_cons_of_mem a hc)

theorem CanReach.woken (h : CanReach o o') (ho : Inv numWorkUnits o) (hw : Woken o) : Woken o' := by
  obtain ⟨as, hcalls, hrun⟩ := h
  exact hw.run ho (disciplined_of_awake (hcalls _)) hrun

/-- How far the caller is from the end of its call. -/
def callerRank (numWorkers mainThreadEndIdx : Nat) : CallerPc numAssets → Nat
  | .idle => 0
  | .active _ => 0
  | .activating j => numWorkers - j + 1
  | .deactivating j => numWorkers - j + 1
  | .gathering _ _ _ j taken => 2 * (numWorkers - j) + (if taken then 1 else 2)
  | .working _ _ _ i => mainThreadEndIdx - i + 2 * numWorkers + 3
  | .signalling _ _ j written =>
    2 * (numWorkers - j) + (if written then 1 else 2) + mainThreadEndIdx + 2 * numWorkers + 3

/-- The query of every orderbook returns. -/
def Answers (numAssets numWorkUnits : Nat) (q : DemandQuery) : Prop :=
  ∀ i < numWorkUnits, ∃ w', q.demandFunc (0 : DemandWorkspace numAssets) i = .ok w'

/-- The caller can get closer to the end of its call. -/
def CanAdvance (numWorkUnits : Nat) (o : ParallelDemandOracle numWorkers numAssets) : Prop :=
  ∃ o', CanReach o o' ∧
    callerRank numWorkers (cut numWorkUnits (numWorkers + 1) 1) o'.caller <
      callerRank numWorkers (cut numWorkUnits (numWorkers + 1) 1) o.caller ∧
    (currentQuery o'.caller = none ∨ currentQuery o'.caller = currentQuery o.caller)

theorem CanReach.canAdvance {o₁ : ParallelDemandOracle numWorkers numAssets} (h : CanReach o o₁)
    (hstep : o₁.callerStep = some o')
    (hrank : callerRank numWorkers (cut numWorkUnits (numWorkers + 1) 1) o'.caller <
      callerRank numWorkers (cut numWorkUnits (numWorkers + 1) 1) o.caller)
    (hquery : currentQuery o'.caller = none ∨ currentQuery o'.caller = currentQuery o.caller) :
    CanAdvance numWorkUnits o :=
  ⟨o', h.trans (.callerStep hstep), hrank, hquery⟩

theorem canAdvance_activating (ho : Inv numWorkUnits o) (hw : Woken o) {j : Nat}
    (hcaller : o.caller = .activating j) : CanAdvance numWorkUnits o := by
  by_cases hj : j < numWorkers
  · have hworkers := ho.workers ⟨j, hj⟩
    have hwj := hw ⟨j, hj⟩
    rw [hcaller] at hworkers hwj
    rw [WokenAt, if_neg (lt_irrefl j)] at hwj
    obtain ⟨w, hreaches, hasleep⟩ := hwj.reaches hworkers
    have hat : (o.setWorker ⟨j, hj⟩ w).caller = .activating j := hcaller
    have hstep : (o.setWorker ⟨j, hj⟩ w).callerStep =
        some { (o.setWorker ⟨j, hj⟩ w).setWorker ⟨j, hj⟩ { w with roundStart := true } with
          caller := .activating (j + 1) } := by
      simp [ParallelDemandOracle.callerStep, hat, ParallelDemandOracle.activateWorker, hj, hasleep]
    apply (CanReach.worker hreaches).canAdvance hstep
    · simp only [callerRank, hcaller]
      omega
    · exact .inl rfl
  · have hstep : o.callerStep = some { o with caller := .active false } := by
      simp [ParallelDemandOracle.callerStep, hcaller, ParallelDemandOracle.activateWorker, hj]
    apply (CanReach.refl o).canAdvance hstep
    · simp [callerRank, hcaller]
    · exact .inl rfl

theorem canAdvance_signalling {q : DemandQuery} {initial : DemandWorkspace numAssets} {j : Nat}
    {written : Bool} (hcaller : o.caller = .signalling q initial j written) :
    CanAdvance numWorkUnits o := by
  have hcallerStep : o.callerStep = o.signalRoundStart q initial j written := by
    rw [ParallelDemandOracle.callerStep, hcaller]
  by_cases hj : j < numWorkers
  · by_cases hwritten : written = true
    · have hstep : o.callerStep =
          some { o.setWorker ⟨j, hj⟩ { o.workers ⟨j, hj⟩ with tatonnementRoundFlag := true } with
            caller := .signalling q initial (j + 1) false } := by
        rw [hcallerStep, ParallelDemandOracle.signalRoundStart, dif_pos hj, if_pos hwritten]
      apply (CanReach.refl o).canAdvance hstep
      · simp only [callerRank, hcaller, hwritten, if_true]
        rw [if_neg nofun]
        omega
      · exact .inr (congrArg currentQuery hcaller).symm
    · have hstep : o.callerStep =
          some { o.setWorker ⟨j, hj⟩ { o.workers ⟨j, hj⟩ with query := q } with
            caller := .signalling q initial j true } := by
        rw [hcallerStep, ParallelDemandOracle.signalRoundStart, dif_pos hj, if_neg hwritten]
      apply (CanReach.refl o).canAdvance hstep
      · simp only [callerRank, hcaller, hwritten, if_true]
        rw [if_neg nofun]
        omega
      · exact .inr (congrArg currentQuery hcaller).symm
  · have hstep : o.callerStep = some { o with caller := .working q initial initial 0 } := by
      rw [hcallerStep, ParallelDemandOracle.signalRoundStart, dif_neg hj]
    apply (CanReach.refl o).canAdvance hstep
    · simp only [callerRank, hcaller]
      split <;> omega
    · exact .inr (congrArg currentQuery hcaller).symm

theorem canAdvance_working (ho : Inv numWorkUnits o) {q : DemandQuery}
    {initial out : DemandWorkspace numAssets} {i : Nat}
    (hcaller : o.caller = .working q initial out i) (hanswers : Answers numAssets numWorkUnits q) :
    CanAdvance numWorkUnits o := by
  have hcallerStep : o.callerStep = o.workInMainThread q initial out i := by
    rw [ParallelDemandOracle.callerStep, hcaller]
  have hend := ho.mainThreadEndIdx
  by_cases hi : i < o.mainThreadEndIdx
  · have hlt : i < numWorkUnits := by
      rw [ParallelDemandOracle.mainThreadEndIdx, ho.size] at hi
      exact lt_of_lt_of_le hi (Nat.div_le_self _ _)
    obtain ⟨w', hzero⟩ := hanswers i hlt
    obtain ⟨out', hquery⟩ := DemandQuery.demandFunc_returns hzero out
    have hstep : o.callerStep = some { o with caller := .working q initial out' (i + 1) } := by
      rw [hcallerStep, ParallelDemandOracle.workInMainThread, if_pos hi, hquery]
    apply (CanReach.refl o).canAdvance hstep
    · simp only [callerRank, hcaller]
      omega
    · exact .inr (congrArg currentQuery hcaller).symm
  · have hstep : o.callerStep = some { o with caller := .gathering q initial out 0 false } := by
      rw [hcallerStep, ParallelDemandOracle.workInMainThread, if_neg hi]
    apply (CanReach.refl o).canAdvance hstep
    · simp [callerRank, hcaller]
    · exact .inr (congrArg currentQuery hcaller).symm

theorem cut_le {n k j : Nat} (h : j ≤ k) : cut n k j ≤ n :=
  Nat.div_le_of_le_mul (by rw [Nat.mul_comm]; exact Nat.mul_le_mul_right n h)

theorem canAdvance_gathering (ho : Inv numWorkUnits o) (hw : Woken o) {q : DemandQuery}
    {initial out : DemandWorkspace numAssets} {j : Nat} {taken : Bool}
    (hcaller : o.caller = .gathering q initial out j taken)
    (hanswers : Answers numAssets numWorkUnits q) : CanAdvance numWorkUnits o := by
  have hcallerStep : o.callerStep = o.waitForComputeDoneAndGetResults q initial out j taken := by
    rw [ParallelDemandOracle.callerStep, hcaller]
  by_cases hj : j < numWorkers
  · by_cases htaken : taken = true
    · have hstep : o.callerStep = some { o with
          caller := .gathering q initial (out + (o.workers ⟨j, hj⟩).results) (j + 1) false } := by
        rw [hcallerStep, waitForComputeDoneAndGetResults, dif_pos hj, if_pos htaken]
      apply (CanReach.refl o).canAdvance hstep
      · simp only [callerRank, hcaller, htaken, if_true]
        rw [if_neg nofun]
        omega
      · exact .inr (congrArg currentQuery hcaller).symm
    · -- the caller waits until worker `j` has computed its round
      have hworker := ho.workers ⟨j, hj⟩
      have hawake := hw ⟨j, hj⟩
      rw [hcaller] at hworker hawake
      rw [WorkerAt, if_neg (lt_irrefl j), if_neg (fun hc => htaken hc.2)] at hworker
      have hreturns : ∀ (i : Nat) (v : DemandWorkspace numAssets),
          i < (o.workers ⟨j, hj⟩).endingWorkUnit → ∃ v', q.demandFunc v i = .ok v' := by
        intro i v hi
        rw [(ho.ranges ⟨j, hj⟩).2] at hi
        have hle : cut numWorkUnits (numWorkers + 1) (j + 2) ≤ numWorkUnits := cut_le (by omega)
        obtain ⟨w', hzero⟩ := hanswers i (lt_of_lt_of_le hi hle)
        exact DemandQuery.demandFunc_returns hzero v
      obtain ⟨w, hreaches, hdone⟩ := hworker.reaches hawake.1 hreturns
      have hat : (o.setWorker ⟨j, hj⟩ w).caller = .gathering q initial out j taken := hcaller
      have hstep : (o.setWorker ⟨j, hj⟩ w).callerStep =
          some { (o.setWorker ⟨j, hj⟩ w).setWorker ⟨j, hj⟩ { w with roundDoneFlag := false } with
            caller := .gathering q initial out j true } := by
        rw [ParallelDemandOracle.callerStep, hat]
        simp [waitForComputeDoneAndGetResults, hj, htaken, hdone]
      apply (CanReach.worker hreaches).canAdvance hstep
      · simp only [callerRank, hcaller, htaken, if_true]
        rw [if_neg nofun]
        omega
      · exact .inr (congrArg currentQuery hcaller).symm
  · have hstep : o.callerStep =
        some { o with caller := .active true, returned := ⟨q, initial, out⟩ :: o.returned } := by
      rw [hcallerStep, waitForComputeDoneAndGetResults, dif_neg hj]
    apply (CanReach.refl o).canAdvance hstep
    · simp only [callerRank, hcaller]
      split <;> omega
    · exact .inl rfl

theorem canAdvance_deactivating {j : Nat} (hcaller : o.caller = .deactivating j) :
    CanAdvance numWorkUnits o := by
  have hcallerStep : o.callerStep = o.deactivateWorker j := by
    rw [ParallelDemandOracle.callerStep, hcaller]
  by_cases hj : j < numWorkers
  · have hstep : o.callerStep =
        some { o.setWorker ⟨j, hj⟩ { o.workers ⟨j, hj⟩ with sleepFlag := true } with
          caller := .deactivating (j + 1) } := by
      rw [hcallerStep, ParallelDemandOracle.deactivateWorker, dif_pos hj]
    apply (CanReach.refl o).canAdvance hstep
    · simp only [callerRank, hcaller]
      omega
    · exact .inl rfl
  · have hstep : o.callerStep = some { o with caller := .idle } := by
      rw [hcallerStep, ParallelDemandOracle.deactivateWorker, dif_neg hj]
    apply (CanReach.refl o).canAdvance hstep
    · simp [callerRank, hcaller]
    · exact .inl rfl

/-- The caller is outside of a call. -/
def CallDone (o : ParallelDemandOracle numWorkers numAssets) : Prop :=
  o.caller = .idle ∨ ∃ queried, o.caller = .active queried

theorem exists_callDone (ho : Inv numWorkUnits o) (hw : Woken o)
    (hanswers : ∀ q, currentQuery o.caller = some q → Answers numAssets numWorkUnits q) :
    ∃ o', CanReach o o' ∧ o'.CallDone := by
  induction hn : callerRank numWorkers (cut numWorkUnits (numWorkers + 1) 1) o.caller
    using Nat.strong_induction_on generalizing o with
  | _ n ih =>
    have hnext : CanAdvance numWorkUnits o → ∃ o', CanReach o o' ∧ o'.CallDone := by
      rintro ⟨o₁, hreach, hrank, hquery⟩
      have hanswers₁ : ∀ q, currentQuery o₁.caller = some q → Answers numAssets numWorkUnits q := by
        intro q hq
        rcases hquery with hnone | hsame
        · cases hnone.symm.trans hq
        · exact hanswers q (hsame.symm.trans hq)
      obtain ⟨o', hreach', hdone⟩ := ih _ (hn ▸ hrank) (hreach.inv ho) (hreach.woken ho hw) hanswers₁ rfl
      exact ⟨o', hreach.trans hreach', hdone⟩
    cases hcaller : o.caller with
    | idle => exact ⟨o, .refl o, .inl hcaller⟩
    | active queried => exact ⟨o, .refl o, .inr ⟨queried, hcaller⟩⟩
    | activating j => exact hnext (canAdvance_activating ho hw hcaller)
    | signalling q initial j written => exact hnext (canAdvance_signalling hcaller)
    | working q initial out i =>
      exact hnext (canAdvance_working ho hcaller (hanswers q (congrArg currentQuery hcaller)))
    | gathering q initial out j taken =>
      exact hnext (canAdvance_gathering ho hw hcaller (hanswers q (congrArg currentQuery hcaller)))
    | deactivating j => exact hnext (canAdvance_deactivating hcaller)

/-- In every state of a run in which the workers are put to sleep only after a query, the call that
the caller is in can still return, when the query of every orderbook does. -/
theorem call_can_return (numWorkUnits : Nat) (queries : Fin numWorkers → DemandQuery)
    (results : Fin numWorkers → DemandWorkspace numAssets)
    (as : List (OracleAction numWorkers numAssets)) (o : ParallelDemandOracle numWorkers numAssets)
    (h : (new numWorkUnits queries results).run as = some o)
    (hdisciplined : Disciplined as (new numWorkUnits queries results))
    (hanswers : ∀ q, currentQuery o.caller = some q → Answers numAssets numWorkUnits q) :
    ∃ as' o', (∀ c, OracleAction.call c ∉ as') ∧ o.run as' = some o' ∧ o'.CallDone := by
  have ho : Inv numWorkUnits o := (inv_new queries results).run h
  have hw : Woken o := (woken_new queries results).run (inv_new queries results) hdisciplined h
  obtain ⟨o', ⟨as', hcalls, hrun⟩, hdone⟩ := exists_callDone ho hw hanswers
  exact ⟨as', o', hcalls, hrun, hdone⟩

/-- The query of every orderbook returns, as a check. -/
def answersCheck (numAssets numWorkUnits : Nat) (q : DemandQuery) : Bool :=
  (List.range numWorkUnits).all fun i =>
    returns (q.demandFunc (0 : DemandWorkspace numAssets) i) fun _ => true

theorem answers_of_check {q : DemandQuery} (h : answersCheck numAssets numWorkUnits q = true) :
    Answers numAssets numWorkUnits q := by
  intro i hi
  obtain ⟨w', hw', -⟩ := returns_iff.mp (List.all_eq_true.mp h i (List.mem_range.mpr hi))
  exact ⟨w', hw'⟩

/-- One worker is done, the other one has just begun. -/
theorem call_can_return_twoWorkers :
    ∃ o, (new 3 (fun _ : Fin 2 => oneOfferQuery) (fun _ => 0)).run (twoWorkerSchedule.take 25) =
        some o ∧
      ∃ as' o', (∀ c, OracleAction.call c ∉ as') ∧ o.run as' = some o' ∧ o'.CallDone := by
  have hreached : ((new 3 (fun _ : Fin 2 => oneOfferQuery) (fun _ => 0)).run
      (twoWorkerSchedule.take 25)).map (fun o => (currentQuery o.caller).all (answersCheck 2 3)) =
        some true := by decide +kernel
  obtain ⟨o, hrun, hcheck⟩ := Option.map_eq_some_iff.mp hreached
  refine ⟨o, hrun, call_can_return 3 _ _ _ o hrun (disciplined_of_awake fun hc => ?_) fun q hq => ?_⟩
  · have hcall := List.mem_of_mem_take hc
    simp [twoWorkerSchedule] at hcall
  · rw [hq] at hcheck
    exact answers_of_check hcheck

end ParallelDemandOracle

end Speedex
