import Speedex.PriceComputation.DemandWorkspace

/-! `ParallelDemandOracle` of `price_computation/demand_oracle.h`.  The thread that runs a Tatonnement
query hands each demand query to worker threads and takes back what they computed, through atomic
flags alone.  One step of a thread is one access to a flag, or work on memory that no other thread
uses meanwhile. -/

namespace Speedex

open Lib

/-! ### Workers -/

/-- Where a worker thread is in `run`. -/
inductive WorkerPc where
  /-- in `cv.wait`, the only place where it does not hold its mutex -/
  | asleep
  | loadRoundFlag
  | storeRoundFlag
  | clearWorkspaces
  /-- in `get_supply_demand`, before orderbook `i` -/
  | compute (i : Nat)
  | storeDoneFlag
  | loadSleepFlag
  | storeSleepFlag
deriving DecidableEq

structure DemandOracleWorker (numAssets : Nat) where
  startingWorkUnit : Nat
  endingWorkUnit : Nat
  /-- `supplies` and `demands` -/
  results : DemandWorkspace numAssets
  roundStart : Bool
  tatonnementRoundFlag : Bool
  sleepFlag : Bool
  roundDoneFlag : Bool
  /-- `query_prices`, `query_work_units` and `query_smooth_mult` -/
  query : DemandQuery
  pc : WorkerPc

namespace DemandOracleWorker

variable {numAssets : Nat}

/-- A worker before its first round: its query and its results are uninitialised memory. -/
def init (startingWorkUnit endingWorkUnit : Nat) (query : DemandQuery)
    (results : DemandWorkspace numAssets) : DemandOracleWorker numAssets :=
  ⟨startingWorkUnit, endingWorkUnit, results, false, false, false, false, query, .asleep⟩

/-- The next step of the worker thread.  It has none while it sleeps and nobody wakes it, or when a
query throws, which ends the process. -/
def step (w : DemandOracleWorker numAssets) : Option (DemandOracleWorker numAssets) :=
  match w.pc with
  | .asleep => if w.roundStart then some { w with roundStart := false, pc := .loadRoundFlag } else none
  | .loadRoundFlag =>
    some { w with pc := if w.tatonnementRoundFlag then .storeRoundFlag else .loadSleepFlag }
  | .storeRoundFlag => some { w with tatonnementRoundFlag := false, pc := .clearWorkspaces }
  | .clearWorkspaces => some { w with results := 0, pc := .compute w.startingWorkUnit }
  | .compute i =>
    if i < w.endingWorkUnit then
      match w.query.demandFunc w.results i with
      | .ok results => some { w with results := results, pc := .compute (i + 1) }
      | .error _ => none
    else some { w with pc := .storeDoneFlag }
  | .storeDoneFlag => some { w with roundDoneFlag := true, pc := .loadRoundFlag }
  | .loadSleepFlag => some { w with pc := if w.sleepFlag then .storeSleepFlag else .loadRoundFlag }
  | .storeSleepFlag => some { w with sleepFlag := false, pc := .asleep }

/-- The orderbooks of the worker. -/
def workUnits (w : DemandOracleWorker numAssets) : List Nat :=
  List.range' w.startingWorkUnit (w.endingWorkUnit - w.startingWorkUnit)

end DemandOracleWorker

/-! ### The oracle -/

/-- Where the thread that calls the oracle is. -/
inductive CallerPc (numAssets : Nat) where
  /-- outside of a call, before `activate_oracle` -/
  | idle
  /-- in `activate_oracle`, before worker `j` -/
  | activating (j : Nat)
  /-- outside of a call, after `activate_oracle` and perhaps some queries -/
  | active (queried : Bool)
  /-- in the first loop of `get_supply_demand`: worker `j` has its query once `written` -/
  | signalling (q : DemandQuery) (initial : DemandWorkspace numAssets) (j : Nat) (written : Bool)
  /-- in the second loop of `get_supply_demand`, before orderbook `i` -/
  | working (q : DemandQuery) (initial out : DemandWorkspace numAssets) (i : Nat)
  /-- in the third loop of `get_supply_demand`: the flag of worker `j` is cleared once `taken` -/
  | gathering (q : DemandQuery) (initial out : DemandWorkspace numAssets) (j : Nat) (taken : Bool)
  /-- in `deactivate_oracle`, before worker `j` -/
  | deactivating (j : Nat)

/-- A call of `get_supply_demand` that returned: the workspaces were `initial` and became `out`. -/
structure ReturnedQuery (numAssets : Nat) where
  query : DemandQuery
  initial : DemandWorkspace numAssets
  out : DemandWorkspace numAssets

structure ParallelDemandOracle (numWorkers numAssets : Nat) where
  numWorkUnits : Nat
  workers : Fin numWorkers → DemandOracleWorker numAssets
  caller : CallerPc numAssets
  /-- the calls of `get_supply_demand` so far -/
  returned : List (ReturnedQuery numAssets)

/-- The calls of the oracle. -/
inductive OracleCall (numAssets : Nat) where
  | activateOracle
  | getSupplyDemand (q : DemandQuery) (initial : DemandWorkspace numAssets)
  | deactivateOracle

/-- What can happen next: the caller begins a call or goes on with it, or a worker goes on. -/
inductive OracleAction (numWorkers numAssets : Nat) where
  | call (c : OracleCall numAssets)
  | caller
  | worker (j : Fin numWorkers)

namespace ParallelDemandOracle

variable {numWorkers numAssets : Nat}

/-- The constructor, with the uninitialised memory of the workers. -/
def new (numWorkUnits : Nat) (queries : Fin numWorkers → DemandQuery)
    (results : Fin numWorkers → DemandWorkspace numAssets) :
    ParallelDemandOracle numWorkers numAssets :=
  let numShares := numWorkers + 1
  ⟨numWorkUnits, fun i => .init (numWorkUnits * (i + 1) / numShares)
    (numWorkUnits * (i + 2) / numShares) (queries i) (results i), .idle, []⟩

/-- The caller is responsible for the orderbooks before this one. -/
def mainThreadEndIdx (o : ParallelDemandOracle numWorkers numAssets) : Nat :=
  o.numWorkUnits / (numWorkers + 1)

def setWorker (o : ParallelDemandOracle numWorkers numAssets) (j : Fin numWorkers)
    (w : DemandOracleWorker numAssets) : ParallelDemandOracle numWorkers numAssets :=
  { o with workers := Function.update o.workers j w }

/-- A call begins. -/
def beginCall (o : ParallelDemandOracle numWorkers numAssets) :
    OracleCall numAssets → Option (ParallelDemandOracle numWorkers numAssets)
  | .activateOracle =>
    match o.caller with
    | .idle => some { o with caller := .activating 0 }
    | _ => none
  | .getSupplyDemand q initial =>
    match o.caller with
    | .active _ => some { o with caller := .signalling q initial 0 false }
    | _ => none
  | .deactivateOracle =>
    match o.caller with
    | .active _ => some { o with caller := .deactivating 0 }
    | _ => none

/-- `activate_worker` of worker `j`.  It takes the mutex of the worker, which is free when the worker is
asleep. -/
def activateWorker (o : ParallelDemandOracle numWorkers numAssets) (j : Nat) :
    Option (ParallelDemandOracle numWorkers numAssets) :=
  if h : j < numWorkers then
    if (o.workers ⟨j, h⟩).pc = .asleep then
      some { o.setWorker ⟨j, h⟩ { o.workers ⟨j, h⟩ with roundStart := true } with
        caller := .activating (j + 1) }
    else none
  else some { o with caller := .active false }

/-- `signal_round_start` of worker `j`: the query is written, then the flag is set. -/
def signalRoundStart (o : ParallelDemandOracle numWorkers numAssets) (q : DemandQuery)
    (initial : DemandWorkspace numAssets) (j : Nat) (written : Bool) :
    Option (ParallelDemandOracle numWorkers numAssets) :=
  if h : j < numWorkers then
    if written then
      some { o.setWorker ⟨j, h⟩ { o.workers ⟨j, h⟩ with tatonnementRoundFlag := true } with
        caller := .signalling q initial (j + 1) false }
    else
      some { o.setWorker ⟨j, h⟩ { o.workers ⟨j, h⟩ with query := q } with
        caller := .signalling q initial j true }
  else some { o with caller := .working q initial initial 0 }

/-- The work of the calling thread. -/
def workInMainThread (o : ParallelDemandOracle numWorkers numAssets) (q : DemandQuery)
    (initial out : DemandWorkspace numAssets) (i : Nat) :
    Option (ParallelDemandOracle numWorkers numAssets) :=
  if i < o.mainThreadEndIdx then
    match q.demandFunc out i with
    | .ok out => some { o with caller := .working q initial out (i + 1) }
    | .error _ => none
  else some { o with caller := .gathering q initial out 0 false }

/-- `wait_for_compute_done_and_get_results` of worker `j`. -/
def waitForComputeDoneAndGetResults (o : ParallelDemandOracle numWorkers numAssets) (q : DemandQuery)
    (initial out : DemandWorkspace numAssets) (j : Nat) (taken : Bool) :
    Option (ParallelDemandOracle numWorkers numAssets) :=
  if h : j < numWorkers then
    if taken then
      some { o with caller := .gathering q initial (out + (o.workers ⟨j, h⟩).results) (j + 1) false }
    else if (o.workers ⟨j, h⟩).roundDoneFlag then
      some { o.setWorker ⟨j, h⟩ { o.workers ⟨j, h⟩ with roundDoneFlag := false } with
        caller := .gathering q initial out j true }
    else some o
  else some { o with caller := .active true, returned := ⟨q, initial, out⟩ :: o.returned }

/-- `deactivate_worker` of worker `j`. -/
def deactivateWorker (o : ParallelDemandOracle numWorkers numAssets) (j : Nat) :
    Option (ParallelDemandOracle numWorkers numAssets) :=
  if h : j < numWorkers then
    some { o.setWorker ⟨j, h⟩ { o.workers ⟨j, h⟩ with sleepFlag := true } with
      caller := .deactivating (j + 1) }
  else some { o with caller := .idle }

/-- The next step of the thread that calls the oracle. -/
def callerStep (o : ParallelDemandOracle numWorkers numAssets) :
    Option (ParallelDemandOracle numWorkers numAssets) :=
  match o.caller with
  | .idle => none
  | .active _ => none
  | .activating j => o.activateWorker j
  | .signalling q initial j written => o.signalRoundStart q initial j written
  | .working q initial out i => o.workInMainThread q initial out i
  | .gathering q initial out j taken => o.waitForComputeDoneAndGetResults q initial out j taken
  | .deactivating j => o.deactivateWorker j

def step (o : ParallelDemandOracle numWorkers numAssets) :
    OracleAction numWorkers numAssets → Option (ParallelDemandOracle numWorkers numAssets)
  | .call c => o.beginCall c
  | .caller => o.callerStep
  | .worker j => (o.workers j).step.map (o.setWorker j)

/-- The threads take steps in any order. -/
def run (o : ParallelDemandOracle numWorkers numAssets) (as : List (OracleAction numWorkers numAssets)) :
    Option (ParallelDemandOracle numWorkers numAssets) :=
  as.foldlM step o

end ParallelDemandOracle

/-! ### Rounds of a worker -/

namespace DemandOracleWorker

variable {numAssets : Nat} {q : DemandQuery} {w w' : DemandOracleWorker numAssets}

/-- The worker is outside of a round. -/
def Between (w : DemandOracleWorker numAssets) : Prop :=
  w.pc = .asleep ∨ w.pc = .loadRoundFlag ∨ w.pc = .loadSleepFlag ∨ w.pc = .storeSleepFlag

/-- The worker has no round to compute or to report: it leaves its query and its results alone. -/
structure Quiet (w : DemandOracleWorker numAssets) : Prop where
  pc : w.Between
  round : w.tatonnementRoundFlag = false
  done : w.roundDoneFlag = false

/-- The results are what query `q` finds for the orderbooks of the worker. -/
def Holds (q : DemandQuery) (w : DemandOracleWorker numAssets) : Prop :=
  w.workUnits.foldlM q.demandFunc 0 = .ok w.results

/-- The worker is given round `q`, and the caller has not seen it done yet. -/
inductive InRound (q : DemandQuery) (w : DemandOracleWorker numAssets) : Prop
  | posted (hpc : w.Between ∨ w.pc = .storeRoundFlag) (hround : w.tatonnementRoundFlag = true)
      (hdone : w.roundDoneFlag = false) (hquery : w.query = q)
  | clearing (hpc : w.pc = .clearWorkspaces) (hround : w.tatonnementRoundFlag = false)
      (hdone : w.roundDoneFlag = false) (hquery : w.query = q)
  | computing (i : Nat) (hpc : w.pc = .compute i) (hround : w.tatonnementRoundFlag = false)
      (hdone : w.roundDoneFlag = false) (hquery : w.query = q) (hstart : w.startingWorkUnit ≤ i)
      (hend : i - w.startingWorkUnit ≤ w.endingWorkUnit - w.startingWorkUnit)
      (hresults : (List.range' w.startingWorkUnit (i - w.startingWorkUnit)).foldlM q.demandFunc 0 =
        .ok w.results)
  | signalling (hpc : w.pc = .storeDoneFlag) (hround : w.tatonnementRoundFlag = false)
      (hdone : w.roundDoneFlag = false) (hholds : w.Holds q)
  | done (hpc : w.Between) (hround : w.tatonnementRoundFlag = false)
      (hdone : w.roundDoneFlag = true) (hholds : w.Holds q)

theorem step_range (h : w.step = some w') :
    w'.startingWorkUnit = w.startingWorkUnit ∧ w'.endingWorkUnit = w.endingWorkUnit := by
  unfold step at h
  split at h
  case h_1 =>
    split at h
    · cases h
      exact ⟨rfl, rfl⟩
    · cases h
  case h_5 =>
    split at h
    · split at h
      · cases h
        exact ⟨rfl, rfl⟩
      · cases h
    · cases h
      exact ⟨rfl, rfl⟩
  all_goals
    cases h
    exact ⟨rfl, rfl⟩

/-- A worker outside of a round, and not about to begin one, stays outside and keeps its memory. -/
theorem Between.step (hpc : w.Between) (h : w.step = some w') :
    (w'.Between ∨ w'.pc = .storeRoundFlag ∧ w.tatonnementRoundFlag = true) ∧
      w'.tatonnementRoundFlag = w.tatonnementRoundFlag ∧ w'.roundDoneFlag = w.roundDoneFlag ∧
      w'.query = w.query ∧ w'.results = w.results := by
  unfold DemandOracleWorker.step at h
  rcases hpc with hpc | hpc | hpc | hpc <;> simp only [hpc] at h
  · split at h
    · cases h
      exact ⟨.inl (.inr (.inl rfl)), rfl, rfl, rfl, rfl⟩
    · cases h
  · cases h
    refine ⟨?_, rfl, rfl, rfl, rfl⟩
    by_cases hround : w.tatonnementRoundFlag = true
    · exact .inr ⟨if_pos hround, hround⟩
    · exact .inl (.inr (.inr (.inl (if_neg hround))))
  · cases h
    refine ⟨.inl ?_, rfl, rfl, rfl, rfl⟩
    by_cases hsleep : w.sleepFlag = true
    · exact .inr (.inr (.inr (if_pos hsleep)))
    · exact .inr (.inl (if_neg hsleep))
  · cases h
    exact ⟨.inl (.inl rfl), rfl, rfl, rfl, rfl⟩

theorem Quiet.step (hw : w.Quiet) (h : w.step = some w') :
    w'.Quiet ∧ w'.query = w.query ∧ w'.results = w.results := by
  obtain ⟨hpc, hround, hdone, hquery, hresults⟩ := hw.pc.step h
  refine ⟨⟨?_, hround.trans hw.round, hdone.trans hw.done⟩, hquery, hresults⟩
  rcases hpc with hpc | ⟨-, hset⟩
  · exact hpc
  · cases hw.round.symm.trans hset

theorem Holds.congr (hw : w.Holds q) (hstart : w'.startingWorkUnit = w.startingWorkUnit)
    (hend : w'.endingWorkUnit = w.endingWorkUnit) (hresults : w'.results = w.results) :
    w'.Holds q := by
  unfold Holds workUnits at hw ⊢
  rw [hstart, hend, hresults]
  exact hw

/-- A worker that is given a round works it off. -/
theorem InRound.step (hw : w.InRound q) (h : w.step = some w') : w'.InRound q := by
  obtain ⟨hstart', hend'⟩ := step_range h
  cases hw with
  | posted hpc hround hdone hquery =>
    rcases hpc with hpc | hpc
    · obtain ⟨hpc', hround', hdone', hquery', -⟩ := hpc.step h
      exact .posted (hpc'.imp_right And.left) (hround'.trans hround) (hdone'.trans hdone)
        (hquery'.trans hquery)
    · simp only [DemandOracleWorker.step, hpc] at h
      cases h
      exact .clearing rfl rfl hdone hquery
  | clearing hpc hround hdone hquery =>
    simp only [DemandOracleWorker.step, hpc] at h
    cases h
    refine .computing w.startingWorkUnit rfl hround hdone hquery le_rfl ?_ ?_
    · simp
    · simp [pure, Except.pure]
  | computing i hpc hround hdone hquery hstart hend hresults =>
    simp only [DemandOracleWorker.step, hpc] at h
    split at h
    · rename_i hlt
      split at h
      · rename_i results hquery'
        cases h
        refine .computing (i + 1) rfl hround hdone hquery (Nat.le_succ_of_le hstart) ?_ ?_
        · dsimp only
          omega
        · -- one more orderbook of the worker
          have hnext : i + 1 - w.startingWorkUnit = i - w.startingWorkUnit + 1 := by omega
          have hlast : w.startingWorkUnit + (i - w.startingWorkUnit) = i := by omega
          rw [hquery] at hquery'
          dsimp only
          rw [hnext, List.range'_1_concat, hlast]
          exact foldlM_append hresults (foldlM_cons.mpr ⟨results, hquery', rfl⟩)
      · cases h
    · cases h
      refine .signalling rfl hround hdone ?_
      have hall : i - w.startingWorkUnit = w.endingWorkUnit - w.startingWorkUnit := by omega
      rw [hall] at hresults
      exact hresults
  | signalling hpc hround hdone hholds =>
    simp only [DemandOracleWorker.step, hpc] at h
    cases h
    exact .done (.inr (.inl rfl)) hround rfl hholds
  | done hpc hround hdone hholds =>
    obtain ⟨hpc', hround', hdone', -, hresults'⟩ := hpc.step h
    refine .done ?_ (hround'.trans hround) (hdone'.trans hdone)
      (hholds.congr hstart' hend' hresults')
    rcases hpc' with hpc' | ⟨-, hset⟩
    · exact hpc'
    · cases hround.symm.trans hset

/-- A round that the caller sees done is computed. -/
theorem InRound.taken (hw : w.InRound q) (h : w.roundDoneFlag = true) :
    { w with roundDoneFlag := false }.Quiet ∧ { w with roundDoneFlag := false }.Holds q := by
  cases hw with
  | done hpc hround _ hholds => exact ⟨⟨hpc, hround, rfl⟩, hholds⟩
  | posted _ _ hdone => cases hdone.symm.trans h
  | clearing _ _ hdone => cases hdone.symm.trans h
  | computing _ _ _ hdone => cases hdone.symm.trans h
  | signalling _ _ hdone => cases hdone.symm.trans h

/-- The worker reads its query and changes its results. -/
def Computing (w : DemandOracleWorker numAssets) : Prop :=
  w.pc = .clearWorkspaces ∨ ∃ i, w.pc = .compute i

theorem Between.not_computing (hpc : w.Between) : ¬ w.Computing := by
  rintro (hc | ⟨i, hc⟩) <;> rcases hpc with hpc | hpc | hpc | hpc <;> cases hpc.symm.trans hc

theorem Quiet.not_computing (hw : w.Quiet) : ¬ w.Computing := hw.pc.not_computing

theorem InRound.query_eq (hw : w.InRound q) (h : w.Computing) : w.query = q := by
  cases hw with
  | posted _ _ _ hquery => exact hquery
  | clearing _ _ _ hquery => exact hquery
  | computing _ _ _ _ hquery => exact hquery
  | signalling hpc => rcases h with h | ⟨i, h⟩ <;> cases hpc.symm.trans h
  | done hpc => exact absurd h hpc.not_computing

end DemandOracleWorker

/-! ### The caller and its workers -/

namespace ParallelDemandOracle

variable {numWorkers numAssets : Nat}

/-- What worker `i` can be doing, given where the caller is. -/
def WorkerAt (caller : CallerPc numAssets) (i : Nat) (w : DemandOracleWorker numAssets) : Prop :=
  match caller with
  | .signalling q _ j written =>
    if i < j then w.InRound q else w.Quiet ∧ (i = j → written = true → w.query = q)
  | .working q _ _ _ => w.InRound q
  | .gathering q _ _ j taken =>
    if i < j then w.Quiet else if i = j ∧ taken = true then w.Quiet ∧ w.Holds q else w.InRound q
  | _ => w.Quiet

/-- What the caller has summed up of `numWorkUnits` orderbooks. -/
def CallerAt (numWorkUnits numWorkers : Nat) : CallerPc numAssets → Prop
  | .working q initial out i =>
    i ≤ cut numWorkUnits (numWorkers + 1) 1 ∧
      (List.range i).foldlM q.demandFunc initial = .ok out
  | .gathering q initial out j _ =>
    j ≤ numWorkers ∧ (List.range (cut numWorkUnits (numWorkers + 1) (j + 1))).foldlM q.demandFunc
      initial = .ok out
  | _ => True

/-- What the sequential query of all orderbooks would have done. -/
def Sequential (numWorkUnits : Nat) (r : ReturnedQuery numAssets) : Prop :=
  (List.range numWorkUnits).foldlM r.query.demandFunc r.initial = .ok r.out

/-- Holds in every reachable state. -/
structure Inv (numWorkUnits : Nat) (o : ParallelDemandOracle numWorkers numAssets) : Prop where
  size : o.numWorkUnits = numWorkUnits
  ranges : ∀ i : Fin numWorkers,
    (o.workers i).startingWorkUnit = cut numWorkUnits (numWorkers + 1) (i + 1) ∧
      (o.workers i).endingWorkUnit = cut numWorkUnits (numWorkers + 1) (i + 2)
  workers : ∀ i : Fin numWorkers, WorkerAt o.caller i (o.workers i)
  caller : CallerAt numWorkUnits numWorkers o.caller
  returned : ∀ r ∈ o.returned, Sequential numWorkUnits r

variable {numWorkUnits : Nat} {o o' : ParallelDemandOracle numWorkers numAssets}

theorem inv_new (queries : Fin numWorkers → DemandQuery)
    (results : Fin numWorkers → DemandWorkspace numAssets) :
    Inv numWorkUnits (new numWorkUnits queries results) :=
  ⟨rfl, fun _ => ⟨rfl, rfl⟩, fun _ => ⟨.inl rfl, rfl, rfl⟩, trivial, nofun⟩

/-- A step of a worker keeps what the caller relies on. -/
theorem WorkerAt.step {caller : CallerPc numAssets} {i : Nat} {w w' : DemandOracleWorker numAssets}
    (hw : WorkerAt caller i w) (h : w.step = some w') : WorkerAt caller i w' := by
  have hquiet : w.Quiet → w'.Quiet := fun hw => (hw.step h).1
  cases caller with
  | signalling q initial j written =>
    by_cases hi : i < j
    · rw [WorkerAt, if_pos hi] at hw ⊢
      exact hw.step h
    · rw [WorkerAt, if_neg hi] at hw ⊢
      obtain ⟨hw', hquery, -⟩ := hw.1.step h
      exact ⟨hw', fun hj hwritten => hquery.trans (hw.2 hj hwritten)⟩
  | working q initial out i' => exact DemandOracleWorker.InRound.step hw h
  | gathering q initial out j taken =>
    by_cases hi : i < j
    · rw [WorkerAt, if_pos hi] at hw ⊢
      exact hquiet hw
    · by_cases hj : i = j ∧ taken = true
      · rw [WorkerAt, if_neg hi, if_pos hj] at hw ⊢
        obtain ⟨hw', -, hresults⟩ := hw.1.step h
        obtain ⟨hstart, hend⟩ := DemandOracleWorker.step_range h
        exact ⟨hw', hw.2.congr hstart hend hresults⟩
      · rw [WorkerAt, if_neg hi, if_neg hj] at hw ⊢
        exact hw.step h
  | idle => exact hquiet hw
  | activating j => exact hquiet hw
  | active queried => exact hquiet hw
  | deactivating j => exact hquiet hw

@[simp] theorem setWorker_workers (o : ParallelDemandOracle numWorkers numAssets)
    (j : Fin numWorkers) (w : DemandOracleWorker numAssets) (i : Fin numWorkers) :
    (o.setWorker j w).workers i = if i = j then w else o.workers i :=
  Function.update_apply ..

theorem Inv.workerStep (ho : Inv numWorkUnits o) {j : Fin numWorkers}
    {w : DemandOracleWorker numAssets} (h : (o.workers j).step = some w) :
    Inv numWorkUnits (o.setWorker j w) := by
  obtain ⟨hstart, hend⟩ := DemandOracleWorker.step_range h
  refine ⟨ho.size, fun i => ?_, fun i => ?_, ho.caller, ho.returned⟩
  · rw [setWorker_workers]
    split
    · rename_i hi
      rw [hi, hstart, hend]
      exact ho.ranges j
    · exact ho.ranges i
  · rw [setWorker_workers]
    split
    · rename_i hi
      rw [hi]
      exact (ho.workers j).step h
    · exact ho.workers i

/-- The invariant after a step of the caller that changes at most worker `j`. -/
theorem Inv.setWorker (ho : Inv numWorkUnits o) {j : Fin numWorkers}
    {w : DemandOracleWorker numAssets} {caller : CallerPc numAssets}
    (hstart : w.startingWorkUnit = (o.workers j).startingWorkUnit)
    (hend : w.endingWorkUnit = (o.workers j).endingWorkUnit) (hw : WorkerAt caller j w)
    (hothers : ∀ i : Fin numWorkers, i ≠ j → WorkerAt caller i (o.workers i))
    (hcaller : CallerAt numWorkUnits numWorkers caller) :
    Inv numWorkUnits { o.setWorker j w with caller := caller } := by
  refine ⟨ho.size, fun i => ?_, fun i => ?_, hcaller, ho.returned⟩
  · rw [setWorker_workers]
    split
    · rename_i hi
      rw [hi, hstart, hend]
      exact ho.ranges j
    · exact ho.ranges i
  · rw [setWorker_workers]
    split
    · rename_i hi
      rw [hi]
      exact hw
    · rename_i hi
      exact hothers i hi

theorem Inv.goOn (ho : Inv numWorkUnits o) {caller : CallerPc numAssets}
    (hworkers : ∀ i : Fin numWorkers, WorkerAt caller i (o.workers i))
    (hcaller : CallerAt numWorkUnits numWorkers caller) :
    Inv numWorkUnits { o with caller := caller } :=
  ⟨ho.size, ho.ranges, hworkers, hcaller, ho.returned⟩

theorem Inv.beginCall (ho : Inv numWorkUnits o) {c : OracleCall numAssets}
    (h : o.beginCall c = some o') : Inv numWorkUnits o' := by
  have hworkers := ho.workers
  cases c with
  | activateOracle =>
    simp only [ParallelDemandOracle.beginCall] at h
    split at h
    · rename_i hcaller
      cases h
      rw [hcaller] at hworkers
      exact ho.goOn hworkers trivial
    · cases h
  | getSupplyDemand q initial =>
    simp only [ParallelDemandOracle.beginCall] at h
    split at h
    · rename_i hcaller
      cases h
      rw [hcaller] at hworkers
      refine ho.goOn (fun i => ?_) trivial
      exact ⟨hworkers i, fun _ => nofun⟩
    · cases h
  | deactivateOracle =>
    simp only [ParallelDemandOracle.beginCall] at h
    split at h
    · rename_i hcaller
      cases h
      rw [hcaller] at hworkers
      exact ho.goOn hworkers trivial
    · cases h

/-- The share of worker `j` comes after those of the caller and of the workers before. -/
theorem range_cut_succ (n k j : Nat) :
    List.range (cut n k (j + 1)) = List.range (cut n k j) ++ share n k j := by
  rw [← flatMap_share, ← flatMap_share, List.range_succ, List.flatMap_append,
    List.flatMap_singleton]

theorem Inv.workUnits (ho : Inv numWorkUnits o) (j : Fin numWorkers) :
    (o.workers j).workUnits = share numWorkUnits (numWorkers + 1) (j + 1) := by
  rw [DemandOracleWorker.workUnits, (ho.ranges j).1, (ho.ranges j).2]
  rfl

theorem Inv.mainThreadEndIdx (ho : Inv numWorkUnits o) :
    o.mainThreadEndIdx = cut numWorkUnits (numWorkers + 1) 1 := by
  rw [ParallelDemandOracle.mainThreadEndIdx, ho.size, cut, Nat.mul_one]

theorem ne_of_fin_ne {i : Fin numWorkers} {j : Nat} {hj : j < numWorkers} (h : i ≠ ⟨j, hj⟩) :
    (i : Nat) ≠ j :=
  fun heq => h (Fin.ext heq)

theorem Inv.activateWorker (ho : Inv numWorkUnits o) {j : Nat} (hcaller : o.caller = .activating j)
    (h : o.activateWorker j = some o') : Inv numWorkUnits o' := by
  have hworkers := ho.workers
  rw [hcaller] at hworkers
  unfold ParallelDemandOracle.activateWorker at h
  split at h
  · split at h
    · cases h
      have hw := hworkers ⟨j, ‹_›⟩
      exact ho.setWorker rfl rfl ⟨hw.pc, hw.round, hw.done⟩ (fun i _ => hworkers i) trivial
    · cases h
  · cases h
    exact ho.goOn hworkers trivial

theorem Inv.signalRoundStart (ho : Inv numWorkUnits o) {q : DemandQuery}
    {initial : DemandWorkspace numAssets} {j : Nat} {written : Bool}
    (hcaller : o.caller = .signalling q initial j written)
    (h : o.signalRoundStart q initial j written = some o') : Inv numWorkUnits o' := by
  have hworkers := ho.workers
  rw [hcaller] at hworkers
  unfold ParallelDemandOracle.signalRoundStart at h
  split at h
  · rename_i hj
    have hw := hworkers ⟨j, hj⟩
    rw [WorkerAt, if_neg (lt_irrefl j)] at hw
    split at h
    · -- the flag is set: worker `j` has its round
      rename_i hwritten
      cases h
      refine ho.setWorker rfl rfl ?_ (fun i hi => ?_) trivial
      · rw [WorkerAt, if_pos (Nat.lt_succ_self j)]
        exact .posted (.inl hw.1.pc) rfl hw.1.done (hw.2 rfl hwritten)
      · have hwi := hworkers i
        have hne := ne_of_fin_ne hi
        rw [WorkerAt] at hwi ⊢
        by_cases hlt : (i : Nat) < j
        · rw [if_pos hlt] at hwi
          rwa [if_pos (Nat.lt_succ_of_lt hlt)]
        · rw [if_neg hlt] at hwi
          rw [if_neg (by omega)]
          exact ⟨hwi.1, fun _ => nofun⟩
    · cases h
      refine ho.setWorker rfl rfl ?_ (fun i hi => ?_) trivial
      · rw [WorkerAt, if_neg (lt_irrefl j)]
        exact ⟨⟨hw.1.pc, hw.1.round, hw.1.done⟩, fun _ _ => rfl⟩
      · have hwi := hworkers i
        have hne := ne_of_fin_ne hi
        rw [WorkerAt] at hwi ⊢
        by_cases hlt : (i : Nat) < j
        · rw [if_pos hlt] at hwi ⊢
          exact hwi
        · rw [if_neg hlt] at hwi ⊢
          exact ⟨hwi.1, fun heq => absurd heq hne⟩
  · rename_i hj
    cases h
    refine ho.goOn (fun i => ?_) ⟨Nat.zero_le _, rfl⟩
    have hwi := hworkers i
    rw [WorkerAt, if_pos (lt_of_lt_of_le i.isLt (not_lt.mp hj))] at hwi
    exact hwi

theorem Inv.workInMainThread (ho : Inv numWorkUnits o) {q : DemandQuery}
    {initial out : DemandWorkspace numAssets} {i : Nat}
    (hcaller : o.caller = .working q initial out i)
    (h : o.workInMainThread q initial out i = some o') : Inv numWorkUnits o' := by
  have hworkers := ho.workers
  have hsums := ho.caller
  rw [hcaller] at hworkers hsums
  unfold ParallelDemandOracle.workInMainThread at h
  rw [ho.mainThreadEndIdx] at h
  split at h
  · rename_i hi
    split at h
    · rename_i out' hquery
      cases h
      refine ho.goOn hworkers ⟨hi, ?_⟩
      rw [List.range_succ]
      exact foldlM_append hsums.2 (foldlM_cons.mpr ⟨out', hquery, rfl⟩)
    · cases h
  · rename_i hi
    cases h
    refine ho.goOn (fun j => ?_) ⟨Nat.zero_le _, ?_⟩
    · rw [WorkerAt, if_neg (Nat.not_lt_zero _), if_neg (fun hc => nomatch hc.2)]
      exact hworkers j
    · have hall : i = cut numWorkUnits (numWorkers + 1) 1 := le_antisymm hsums.1 (not_lt.mp hi)
      rw [← hall]
      exact hsums.2

theorem Inv.waitForComputeDoneAndGetResults (ho : Inv numWorkUnits o) {q : DemandQuery}
    {initial out : DemandWorkspace numAssets} {j : Nat} {taken : Bool}
    (hcaller : o.caller = .gathering q initial out j taken)
    (h : o.waitForComputeDoneAndGetResults q initial out j taken = some o') :
    Inv numWorkUnits o' := by
  have hworkers := ho.workers
  have hsums := ho.caller
  rw [hcaller] at hworkers hsums
  unfold ParallelDemandOracle.waitForComputeDoneAndGetResults at h
  split at h
  · rename_i hj
    have hw := hworkers ⟨j, hj⟩
    rw [WorkerAt, if_neg (lt_irrefl j)] at hw
    split at h
    · rename_i htaken
      cases h
      rw [if_pos ⟨rfl, htaken⟩] at hw
      refine ho.goOn (fun i => ?_) ⟨hj, ?_⟩
      · have hwi := hworkers i
        rw [WorkerAt] at hwi ⊢
        by_cases hlt : (i : Nat) < j + 1
        · rw [if_pos hlt]
          rcases Nat.lt_succ_iff_lt_or_eq.mp hlt with hlt | heq
          · rw [if_pos hlt] at hwi
            exact hwi
          · rw [if_neg (by omega), if_pos ⟨heq, htaken⟩] at hwi
            exact hwi.1
        · rw [if_neg (by omega), if_neg (by omega)] at hwi
          rw [if_neg hlt, if_neg (fun hc => nomatch hc.2)]
          exact hwi
      · -- the results of the worker are added to what was gathered before
        rw [range_cut_succ]
        have hholds := hw.2
        rw [DemandOracleWorker.Holds, ho.workUnits] at hholds
        exact (DemandQuery.demandFunc_shifts q).add_share hsums.2 hholds
    · rename_i htaken
      rw [if_neg (fun hc => htaken hc.2)] at hw
      split at h
      · rename_i hdone
        cases h
        refine ho.setWorker rfl rfl ?_ (fun i hi => ?_) hsums
        · rw [WorkerAt, if_neg (lt_irrefl j), if_pos ⟨rfl, rfl⟩]
          exact hw.taken hdone
        · have hwi := hworkers i
          have hne := ne_of_fin_ne hi
          rw [WorkerAt] at hwi ⊢
          by_cases hlt : (i : Nat) < j
          · rw [if_pos hlt] at hwi ⊢
            exact hwi
          · rw [if_neg hlt, if_neg (fun hc => hne hc.1)] at hwi ⊢
            exact hwi
      · cases h
        exact ho
  · rename_i hj
    cases h
    have hlast : j = numWorkers := le_antisymm hsums.1 (not_lt.mp hj)
    refine ⟨ho.size, ho.ranges, fun i => ?_, trivial, fun r hr => ?_⟩
    · have hwi := hworkers i
      rw [WorkerAt, if_pos (lt_of_lt_of_eq i.isLt hlast.symm)] at hwi
      exact hwi
    · rcases List.mem_cons.mp hr with rfl | hr
      · have hgathered := hsums.2
        rw [hlast, cut_self _ (Nat.succ_pos _)] at hgathered
        exact hgathered
      · exact ho.returned r hr

theorem Inv.deactivateWorker (ho : Inv numWorkUnits o) {j : Nat}
    (hcaller : o.caller = .deactivating j) (h : o.deactivateWorker j = some o') :
    Inv numWorkUnits o' := by
  have hworkers := ho.workers
  rw [hcaller] at hworkers
  unfold ParallelDemandOracle.deactivateWorker at h
  split at h
  · cases h
    have hw := hworkers ⟨j, ‹_›⟩
    exact ho.setWorker rfl rfl ⟨hw.pc, hw.round, hw.done⟩ (fun i _ => hworkers i) trivial
  · cases h
    exact ho.goOn hworkers trivial

theorem Inv.callerStep (ho : Inv numWorkUnits o) (h : o.callerStep = some o') :
    Inv numWorkUnits o' := by
  unfold ParallelDemandOracle.callerStep at h
  split at h
  · cases h
  · cases h
  · exact ho.activateWorker ‹_› h
  · exact ho.signalRoundStart ‹_› h
  · exact ho.workInMainThread ‹_› h
  · exact ho.waitForComputeDoneAndGetResults ‹_› h
  · exact ho.deactivateWorker ‹_› h

theorem Inv.step (ho : Inv numWorkUnits o) {a : OracleAction numWorkers numAssets}
    (h : o.step a = some o') : Inv numWorkUnits o' := by
  cases a with
  | call c => exact ho.beginCall h
  | caller => exact ho.callerStep h
  | worker j =>
    obtain ⟨w, hw, rfl⟩ := Option.map_eq_some_iff.mp h
    exact ho.workerStep hw

theorem run_cons {a : OracleAction numWorkers numAssets}
    {as : List (OracleAction numWorkers numAssets)} :
    o.run (a :: as) = some o' ↔ ∃ o₁, o.step a = some o₁ ∧ o₁.run as = some o' := by
  rw [run, List.foldlM_cons]
  exact Option.bind_eq_some_iff

theorem Inv.run (ho : Inv numWorkUnits o) {as : List (OracleAction numWorkers numAssets)}
    (h : o.run as = some o') : Inv numWorkUnits o' := by
  induction as generalizing o with
  | nil =>
    cases h
    exact ho
  | cons a as ih =>
    obtain ⟨o₁, hstep, hrest⟩ := run_cons.mp h
    exact ih (ho.step hstep) hrest

/-- Whatever the order in which the threads go on, a call of `get_supply_demand` does what querying
all orderbooks one after the other would have done. -/
theorem getSupplyDemand_sequential (numWorkUnits : Nat) (queries : Fin numWorkers → DemandQuery)
    (results : Fin numWorkers → DemandWorkspace numAssets)
    (as : List (OracleAction numWorkers numAssets)) (o : ParallelDemandOracle numWorkers numAssets)
    (h : (new numWorkUnits queries results).run as = some o) :
    ∀ r ∈ o.returned,
      (List.range numWorkUnits).foldlM r.query.demandFunc r.initial = .ok r.out := by
  have ho : Inv numWorkUnits o := (inv_new queries results).run h
  intro r hr
  exact ho.returned r hr

/-- Whether the caller is about to write the query of worker `j` or to read its results. -/
def usesWorker (caller : CallerPc numAssets) (j : Nat) : Bool :=
  match caller with
  | .signalling _ _ i written => i = j && !written
  | .gathering _ _ _ i taken => i = j && taken
  | _ => false

/-- The query of the call that the caller is in. -/
def currentQuery : CallerPc numAssets → Option DemandQuery
  | .signalling q _ _ _ => some q
  | .working q _ _ _ => some q
  | .gathering q _ _ _ _ => some q
  | _ => none

/-- A worker that is computing computes the current query, and the caller leaves its query and its
results alone. -/
theorem WorkerAt.exclusive {caller : CallerPc numAssets} {i : Nat} {w : DemandOracleWorker numAssets}
    (hw : WorkerAt caller i w) (hcomputing : w.Computing) :
    currentQuery caller = some w.query ∧ usesWorker caller i = false := by
  cases caller with
  | signalling q initial j written =>
    rw [WorkerAt] at hw
    split at hw
    · rename_i hi
      have hne : j ≠ i := by omega
      exact ⟨congrArg some (hw.query_eq hcomputing).symm, by simp [usesWorker, hne]⟩
    · exact absurd hcomputing hw.1.not_computing
  | working q initial out i' => exact ⟨congrArg some (hw.query_eq hcomputing).symm, rfl⟩
  | gathering q initial out j taken =>
    rw [WorkerAt] at hw
    split at hw
    · exact absurd hcomputing hw.not_computing
    · split at hw
      · exact absurd hcomputing hw.1.not_computing
      · rename_i hnot
        refine ⟨congrArg some (hw.query_eq hcomputing).symm, ?_⟩
        rw [usesWorker, Bool.and_eq_false_iff, decide_eq_false_iff_not]
        by_cases hj : j = i
        · exact .inr (Bool.eq_false_iff.mpr fun htaken => hnot ⟨hj.symm, htaken⟩)
        · exact .inl hj
  | idle => exact absurd hcomputing hw.not_computing
  | activating j => exact absurd hcomputing hw.not_computing
  | active queried => exact absurd hcomputing hw.not_computing
  | deactivating j => exact absurd hcomputing hw.not_computing

/-- While a worker computes, no other thread writes what it reads or reads what it writes. -/
theorem computing_exclusive (numWorkUnits : Nat) (queries : Fin numWorkers → DemandQuery)
    (results : Fin numWorkers → DemandWorkspace numAssets)
    (as : List (OracleAction numWorkers numAssets)) (o : ParallelDemandOracle numWorkers numAssets)
    (h : (new numWorkUnits queries results).run as = some o) (j : Fin numWorkers)
    (hcomputing : (o.workers j).Computing) :
    currentQuery o.caller = some (o.workers j).query ∧ usesWorker o.caller j = false := by
  have ho : Inv numWorkUnits o := (inv_new queries results).run h
  exact (ho.workers j).exclusive hcomputing

/-! ### A run with two workers -/

/-- One offer of asset 0 for asset 1, and one the other way. -/
def oneOfferQuery : DemandQuery where
  prices := [1, 2]
  workUnits := [(Orderbook.listing [(100, 500)]).generateMetadataIndex,
    (Orderbook.listing [(200, 8388608)]).generateMetadataIndex,
    (Orderbook.listing [(300, 400)]).generateMetadataIndex]
  smoothMult := 10

/-- The second worker wakes late, and the first one is done before the caller has begun its share. -/
def twoWorkerSchedule : List (OracleAction 2 2) :=
  List.flatten [
    .call .activateOracle :: List.replicate 3 .caller,
    List.replicate 3 (.worker 0),
    .call (.getSupplyDemand oneOfferQuery 0) :: List.replicate 2 .caller,
    List.replicate 8 (.worker 0),
    List.replicate 3 .caller,
    List.replicate 4 (.worker 1),
    List.replicate 5 .caller,
    List.replicate 5 (.worker 1),
    List.replicate 3 .caller]

theorem getSupplyDemand_sequential_twoWorkers :
    ∃ o, (new 3 (fun _ : Fin 2 => oneOfferQuery) (fun _ => 0)).run twoWorkerSchedule = some o ∧
      o.returned ≠ [] ∧ ∀ r ∈ o.returned,
        (List.range 3).foldlM r.query.demandFunc r.initial = .ok r.out := by
  have hreturned : ((new 3 (fun _ : Fin 2 => oneOfferQuery) (fun _ => 0)).run
      twoWorkerSchedule).map (fun o => o.returned.length) = some 1 := by decide +kernel
  obtain ⟨o, hrun, hlength⟩ := Option.map_eq_some_iff.mp hreturned
  refine ⟨o, hrun, fun hnil => ?_, getSupplyDemand_sequential 3 _ _ _ o hrun⟩
  rw [hnil] at hlength
  cases hlength

theorem computing_exclusive_twoWorkers :
    ∃ o, (new 3 (fun _ : Fin 2 => oneOfferQuery) (fun _ => 0)).run (twoWorkerSchedule.take 25) =
        some o ∧ (o.workers 1).pc = .compute 2 ∧
      currentQuery o.caller = some (o.workers 1).query ∧ usesWorker o.caller 1 = false := by
  have hreached : ((new 3 (fun _ : Fin 2 => oneOfferQuery) (fun _ => 0)).run
      (twoWorkerSchedule.take 25)).map (fun o => (o.workers 1).pc) = some (.compute 2) := by
    decide +kernel
  obtain ⟨o, hrun, hpc⟩ := Option.map_eq_some_iff.mp hreached
  exact ⟨o, hrun, hpc, computing_exclusive 3 _ _ _ o hrun 1 (.inr ⟨2, hpc⟩)⟩

end ParallelDemandOracle

end Speedex
