import Gallus.Basic
import Gallus.Lib.Trans
import Mathlib.Data.Fintype.Card

/-!
# A pipeline stage and its workers (`pipeline_stage.c`, `pipeline_worker.c`)

A stage with the workers `ι`, and calls `κ` of `start`, `pause` (without a time limit), `resume`,
`schedule_maintenance` and a graceful `shutdown` from any threads. A step is what one of them does
while it holds a lock, or one access to a field that others read without a lock.

* `m_lock` and `m_pause_lock` have an owner, since both are held over several steps: a caller keeps
  `m_lock` while it waits on `m_pause_cond`, and a maintenance function runs under `m_pause_lock`.
* A condition wait may end spuriously at any time, so notifications need no record.
* The barrier is the workers that are in it: with all `m_n_workers` of them it lets them go, one as
  the master.
* `runs` counts the finished runs of each call's maintenance function. `quiet` is set when a pause
  returns `OK`, and cleared when the next resume or shutdown begins.
-/

namespace Gallus
namespace Pipeline

/-- `gallus_pipeline_stage_state_t`. -/
inductive StageState
  | unknown | initialized | setup | started | paused | maintenanceRequested | canceled | shutdown
  | finalized | destroying
  deriving DecidableEq, Repr

/-- `shutdown_grace_level_t`. -/
inductive ShutdownLevel
  | unknown | rightNow | gracefully
  deriving DecidableEq, Repr

/-- Where a worker is: in `WORKER_LOOP`, in one of the stage's procedures, in `s_worker_pause` or
in `s_worker_maintenance`. -/
inductive Point
  /-- The `while` test. -/
  | loop
  /-- About to read `m_pause_requested`. -/
  | test
  | fetch | main | throw
  /-- Has read `m_pause_requested == true`, about to read `m_maint_proc`. -/
  | pick
  /-- At the test of `m_maint_proc` in `s_worker_maintenance`. -/
  | maintEnter
  /-- In the barrier, for a maintenance or for a pause. -/
  | barrier (maint : Bool)
  /-- Out of the barrier, about to take `m_pause_lock`. -/
  | released (maint isMaster : Bool)
  | resumeWait | maintWait
  /-- In the maintenance function, and in the three steps after it. -/
  | maintRun | maintClear | maintStart
  | exited
  deriving DecidableEq, Repr

/-- A call on the stage. -/
inductive StageCall
  | start | pause | resume | scheduleMaintenance | shutdown
  deriving DecidableEq, Repr

/-- Where a call is. From `startStatus` to `cancelStop` it holds `m_lock`. -/
inductive CallerPoint
  | outside
  /-- In a start: with the workers running, and waiting for them after a failure. -/
  | startStatus | startWait
  | pauseSet | pauseWait
  /-- The wait of a pause has failed. -/
  | pauseGiveUp
  | resumeClear | resumeStatus
  | maintSet | maintRequest | maintWait
  /-- The stage is neither started nor in maintenance. -/
  | maintGiveUp | maintDrop
  | shutdownClear | shutdownStatus
  /-- In a shutdown right now. -/
  | cancelClear | cancelStatus | cancelStop
  | returned (c : StageCall) (ret : Result)
  deriving DecidableEq, Repr

/-- `gallus_pipeline_stage_record`, with its workers `ι` and the calls `κ` on it. -/
structure Stage (ι κ : Type) where
  /-- `m_fetch_proc != NULL`. -/
  hasFetch : Bool
  /-- `m_throw_proc != NULL`. -/
  hasThrow : Bool
  status : StageState
  doLoop : Bool
  sgLvl : ShutdownLevel
  pauseRequested : Bool
  /-- `m_maint_proc`, as the call that set it. -/
  maintProc : Option κ
  /-- The owner of `m_lock`. -/
  stageLock : Option κ
  /-- The owner of `m_pause_lock`: a worker or a caller. -/
  pauseLock : Option (ι ⊕ κ)
  point : ι → Point
  /-- `st` of a worker's loop. -/
  st : ι → Int
  caller : κ → CallerPoint
  runs : κ → Nat
  quiet : Bool

variable {ι κ : Type} [DecidableEq ι] [DecidableEq κ]

/-! ## Workers -/

/-- The worker `i` goes on to `p`. -/
def Stage.goto (s : Stage ι κ) (i : ι) (p : Point) : Stage ι κ :=
  { s with point := Function.update s.point i p }

/-- The worker `i` takes `result` from a procedure and goes on to `p`. -/
def Stage.took (s : Stage ι κ) (i : ι) (result : Int) (p : Point) : Stage ι κ :=
  { s with point := Function.update s.point i p, st := Function.update s.st i result }

/-- The `recheck` of `s_worker_pause`, under `m_pause_lock`. -/
def recheckResume (s : Stage ι κ) (i : ι) : Stage ι κ :=
  s.goto i (if s.pauseRequested then .resumeWait else .loop)

/-- The `recheck` of `s_worker_maintenance`, under `m_pause_lock`. -/
def recheckStarted (s : Stage ι κ) (i : ι) : Stage ι κ :=
  s.goto i (if s.status = .started then .loop else .maintWait)

/-- What a worker does with a positive result of a procedure, or with another one. -/
def after (result : Int) (next : Point) : Point :=
  if 0 < result then next else if result < 0 then .exited else .loop

/-- The next step of the worker `i`. `result` is what a procedure it is in returns. -/
def workerStep (s : Stage ι κ) (i : ι) (result : Int) : Option (Stage ι κ) :=
  match s.point i with
  | .loop =>
    some (s.goto i
      (if s.doLoop ∧ (0 < s.st i ∨ s.st i = 0 ∧ s.sgLvl = .unknown) then .test else .exited))
  | .test =>
    some (s.goto i
      (if s.pauseRequested = false then if s.hasFetch then .fetch else .main else .pick))
  | .fetch => some (s.took i result (after result .main))
  | .main => some (s.took i result (after result (if s.hasThrow then .throw else .loop)))
  | .throw => some (s.took i result (after result .loop))
  | .pick => some (s.goto i (if s.maintProc.isSome then .maintEnter else .barrier false))
  | .maintEnter => some (s.goto i (if s.maintProc.isSome then .barrier true else .loop))
  | .barrier _ => none
  | .released maint isMaster =>
    if s.pauseLock.isNone then
      match maint, isMaster with
      | false, true => some (recheckResume { s with status := .paused } i)
      | false, false => some (recheckResume s i)
      | true, true => some ({ s with pauseLock := some (.inl i) }.goto i .maintRun)
      | true, false => some (recheckStarted s i)
    else none
  | .resumeWait => if s.pauseLock.isNone then some (recheckResume s i) else none
  | .maintWait => if s.pauseLock.isNone then some (recheckStarted s i) else none
  | .maintRun =>
    -- The function returns, and `m_maint_proc` becomes `NULL`.
    match s.maintProc with
    | some k =>
      some ({ s with runs := Function.update s.runs k (s.runs k + 1), maintProc := none }.goto i
        .maintClear)
    | none => none
  | .maintClear => some ({ s with pauseRequested := false }.goto i .maintStart)
  | .maintStart => some ({ s with status := .started, pauseLock := none }.goto i .loop)
  | .exited => none

/-- Whether a worker is in the barrier. -/
def Point.inBarrier : Point → Bool
  | .barrier _ => true
  | _ => false

/-- The barrier, full with `m_n_workers` workers, lets them go with `master` as the master. -/
def releaseBarrier [Fintype ι] (s : Stage ι κ) (master : ι) : Option (Stage ι κ) :=
  if (Finset.univ.filter fun i => (s.point i).inBarrier).card = Fintype.card ι then
    some { s with
      point := fun i =>
        match s.point i with
        | .barrier maint => .released maint (decide (i = master))
        | p => p }
  else none

/-! ## Callers -/

/-- The caller `k` goes on to `p`. -/
def Stage.callerGoto (s : Stage ι κ) (k : κ) (p : CallerPoint) : Stage ι κ :=
  { s with caller := Function.update s.caller k p }

/-- The caller `k` gives `m_lock` back and returns. -/
def Stage.callerReturn (s : Stage ι κ) (k : κ) (c : StageCall) (ret : Result) : Stage ι κ :=
  { s with stageLock := none, caller := Function.update s.caller k (.returned c ret) }

/-- The first step of a call: it takes `m_lock` and looks at the state of the stage. -/
def callStart (s : Stage ι κ) (k : κ) (c : StageCall) : Option (Stage ι κ) :=
  if s.stageLock.isNone ∧ s.caller k = .outside then
    let s := { s with stageLock := some k }
    match c with
    | .start =>
      if s.status = .initialized ∨ s.status = .setup ∨ s.status = .finalized then
        some { s.callerGoto k .startStatus with
          maintProc := none, doLoop := true, point := fun _ => .loop, st := fun _ => 0 }
      else some (s.callerReturn k c Result.invalidStateTransition)
    | .pause =>
      if s.status = .started then some (s.callerGoto k .pauseSet)
      else if s.status = .paused then
        some { s.callerReturn k c Result.ok with quiet := true }
      else some (s.callerReturn k c Result.invalidStateTransition)
    | .resume =>
      if s.status = .paused then some { s.callerGoto k .resumeClear with quiet := false }
      else if s.status = .started then some (s.callerReturn k c Result.ok)
      else some (s.callerReturn k c Result.invalidStateTransition)
    | .scheduleMaintenance =>
      if s.status = .started then some (s.callerGoto k .maintSet)
      else some (s.callerReturn k c Result.invalidStateTransition)
    | .shutdown =>
      if s.status = .started then
        some { s.callerReturn k c Result.ok with sgLvl := .gracefully, quiet := false }
      else if s.status = .paused then some { s.callerGoto k .shutdownClear with quiet := false }
      else some (s.callerReturn k c Result.invalidStateTransition)
  else none

/-- The `recheck` of `gallus_pipeline_stage_pause`, under `m_pause_lock`. -/
def recheckPaused (s : Stage ι κ) (k : κ) : Stage ι κ :=
  if s.status ≠ .paused then s.callerGoto k .pauseWait
  else { s.callerReturn k .pause Result.ok with quiet := true }

/-- The `recheck` of `gallus_pipeline_stage_schedule_maintenance`, under `m_pause_lock`. -/
def recheckRequested (s : Stage ι κ) (k : κ) : Stage ι κ :=
  if s.status = .maintenanceRequested then s.callerGoto k .maintWait
  else if s.status = .started then s.callerReturn k .scheduleMaintenance Result.ok
  else s.callerGoto k .maintGiveUp

/-- The next step of the call `k`. -/
def callerStep (s : Stage ι κ) (k : κ) : Option (Stage ι κ) :=
  match s.caller k with
  | .outside | .returned _ _ => none
  | .startStatus => some ({ s with status := .started }.callerReturn k .start Result.ok)
  | .startWait => none
  | .pauseSet =>
    if s.pauseLock.isNone then some (recheckPaused { s with pauseRequested := true } k) else none
  | .pauseWait => if s.pauseLock.isNone then some (recheckPaused s k) else none
  | .pauseGiveUp =>
    some ({ s with pauseRequested := false }.callerReturn k .pause Result.posixApiError)
  | .resumeClear =>
    if s.pauseLock.isNone then
      some ({ s with pauseRequested := false }.callerGoto k .resumeStatus)
    else none
  | .resumeStatus => some ({ s with status := .started }.callerReturn k .resume Result.ok)
  | .maintSet =>
    if s.pauseLock.isNone then
      some ({ s with
        pauseLock := some (.inr k), status := .maintenanceRequested
        maintProc := some k }.callerGoto k .maintRequest)
    else none
  | .maintRequest =>
    some (recheckRequested { s with pauseRequested := true, pauseLock := none } k)
  | .maintWait => if s.pauseLock.isNone then some (recheckRequested s k) else none
  | .maintGiveUp => some ({ s with pauseRequested := false }.callerGoto k .maintDrop)
  | .maintDrop =>
    some ({ s with maintProc := none }.callerReturn k .scheduleMaintenance
      Result.invalidStateTransition)
  | .shutdownClear =>
    if s.pauseLock.isNone then
      some ({ s with pauseRequested := false }.callerGoto k .shutdownStatus)
    else none
  | .shutdownStatus =>
    some ({ s with status := .started, sgLvl := .gracefully }.callerReturn k .shutdown Result.ok)
  | .cancelClear =>
    if s.pauseLock.isNone then
      some ({ s with pauseRequested := false }.callerGoto k .cancelStatus)
    else none
  | .cancelStatus =>
    some ({ s with status := .started, sgLvl := .rightNow }.callerGoto k .cancelStop)
  | .cancelStop => some ({ s with doLoop := false }.callerReturn k .shutdown Result.ok)

/-! ## The system -/

/-- Who takes a step. -/
inductive StageEvent (ι κ : Type)
  | worker (i : ι) (result : Int)
  | release (master : ι)
  | call (k : κ) (c : StageCall)
  | caller (k : κ)

/-- One step. -/
def stageStep [Fintype ι] (s : Stage ι κ) : StageEvent ι κ → Option (Stage ι κ)
  | .worker i result => workerStep s i result
  | .release master => releaseBarrier s master
  | .call k c => callStart s k c
  | .caller k => callerStep s k

/-- A stage just started: its workers are at their loops, and nobody has called. -/
def Stage.init (hasFetch hasThrow : Bool) : Stage ι κ where
  hasFetch := hasFetch
  hasThrow := hasThrow
  status := .started
  doLoop := true
  sgLvl := .unknown
  pauseRequested := false
  maintProc := none
  stageLock := none
  pauseLock := none
  point := fun _ => .loop
  st := fun _ => 0
  caller := fun _ => .outside
  runs := fun _ => 0
  quiet := false

end Pipeline
end Gallus
