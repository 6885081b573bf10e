import Gallus.Basic
import Gallus.Lib.Trans
import Mathlib.Logic.Function.Basic

/-!
# A thread object and its runs (`thread.c`)

`gallus_thread_start` creates a POSIX thread that runs `s_pthd_entry_point`, and waits until it has
begun. The thread calls the main procedure, and `s_finalize` when that has returned or been
cancelled.

* `RunState`: one POSIX thread, which is a run of the object. `finalProcs` counts the calls of the
  finalization procedure by it.
* `ThreadRec`: the record, its runs and the calls on it. A run is known by its place in `runs`.
* A step is a region under `m_wait_lock`, or one of `s_finalize` and `gallus_thread_wait` under
  `m_finalize_lock`, which is kept over a region under the other one (`finalizeLock`).

`targets` of a wait are the runs that were under way when it began to wait. A call on an object that
is deleted under it is not modelled.
-/

namespace Gallus
namespace Thread

/-- Where a run is. -/
inductive RunPoint
  /-- Created by `pthread_create`. -/
  | spawned
  /-- It waits for the starter (`sync_done_check`). -/
  | acking
  /-- In the main procedure. -/
  | main
  /-- About to call `s_finalize`. -/
  | finalizing (isCanceled : Bool) (rcode : Result)
  /-- In `s_finalize`, with `m_finalize_lock`, before the finalization procedure. -/
  | locked (isCanceled : Bool)
  /-- After the finalization procedure. -/
  | notifying (doAutodelete : Bool)
  /-- About to call `gallus_thread_destroy`. -/
  | deleting
  /-- In `gallus_thread_destroy`, after the cancellation. -/
  | waiting
  | ended
  deriving DecidableEq

/-- A POSIX thread. -/
structure RunState where
  point : RunPoint
  /-- `pthread_cancel` has been called for it. -/
  cancel : Bool
  finalProcs : Nat

/-- How a main procedure ends. -/
inductive Exit
  | returned (ret : Result)
  /-- It acts on a cancellation. -/
  | canceled
  /-- It calls `pthread_exit`. -/
  | exited

inductive Call
  | start (autodelete : Bool)
  | cancel
  | wait (nsec : Chrono)

/-- Where a call is. -/
inductive Pc
  | outside
  /-- In `startcheck`. -/
  | starting
  /-- In `waitcheck`. -/
  | waiting (nsec : Chrono) (targets : List Nat)
  /-- After `waitcheck`, with the result of it. -/
  | checked (nsec : Chrono) (ret : Result) (targets : List Nat)
  /-- `m_is_started` was set; `m_finalize_lock` is next. -/
  | locking (nsec : Chrono) (ret : Result) (targets : List Nat)
  /-- In `finalcheck`. -/
  | finalWaiting (nsec : Chrono) (targets : List Nat)
  | returned (c : Call) (ret : Result) (targets : List Nat)

/-- `gallus_thread_record`. -/
structure ThreadRec (κ : Type) where
  /-- `m_final_proc != NULL`. -/
  hasFinalProc : Bool
  pthd : Option Nat
  resultCode : Result
  isStarted : Bool
  isActivated : Bool
  isCanceled : Bool
  isFinalized : Bool
  doAutodelete : Bool
  startupSyncDone : Bool
  nFinalizedCount : Nat
  /-- `s_is_thd` no longer holds. -/
  destroyed : Bool
  /-- Who has left `m_finalize_lock` locked. -/
  finalizeLock : Option Nat
  runs : List RunState
  pc : κ → Pc

/-- One step. -/
inductive Event (κ : Type)
  /-- A call; `created` tells whether `pthread_create` succeeds. -/
  | call (k : κ) (c : Call) (created : Bool)
  /-- A call's condition wait ends. -/
  | wake (k : κ) (ret : Result)
  /-- A wait goes on after `waitcheck`. -/
  | proceed (k : κ)
  /-- The run `r` enters `s_pthd_entry_point`. -/
  | enter (r : Nat)
  /-- Its condition wait ends. -/
  | ack (r : Nat) (ret : Result)
  /-- Its main procedure ends. -/
  | exit (r : Nat) (how : Exit)
  /-- Its next segment of `s_finalize` or of `gallus_thread_destroy`. -/
  | run (r : Nat)

variable {κ : Type}

/-- `s_initialize`. -/
def ThreadRec.init (hasFinalProc : Bool) : ThreadRec κ where
  hasFinalProc := hasFinalProc
  pthd := none
  resultCode := Result.notStarted
  isStarted := false
  isActivated := false
  isCanceled := false
  isFinalized := false
  doAutodelete := false
  startupSyncDone := false
  nFinalizedCount := 0
  destroyed := false
  finalizeLock := none
  runs := []
  pc _ := .outside

namespace ThreadRec

/-- The run `r` goes on to `point`. -/
def setRun (t : ThreadRec κ) (r : Nat) (s : RunState) : ThreadRec κ :=
  { t with runs := t.runs.set r s }

/-- The runs that have begun and have not been finalized. -/
def underWay (t : ThreadRec κ) : List Nat :=
  (List.range t.runs.length).filter fun r =>
    match t.runs[r]? with
    | some ⟨.acking, _, _⟩ | some ⟨.main, _, _⟩ | some ⟨.finalizing _ _, _, _⟩
    | some ⟨.locked _, _, _⟩ => true
    | _ => false

/-! ## The run -/

/-- `s_pthd_entry_point` up to the wait for the starter. -/
def enter (t : ThreadRec κ) (r : Nat) (s : RunState) : ThreadRec κ :=
  { t.setRun r { s with point := if t.startupSyncDone then .main else .acking } with
    isCanceled := false
    isFinalized := false
    isActivated := true
    isStarted := true }

/-- `gallus_thread_cancel`, from `m_wait_lock` on. -/
def cancel (t : ThreadRec κ) : ThreadRec κ :=
  if t.isActivated then
    match t.isCanceled, t.pthd with
    | false, some r =>
      match t.runs[r]? with
      | some s => t.setRun r { s with cancel := true }
      | none => t
    | _, _ => t
  else t

/-- The region of `s_finalize` under `m_wait_lock`. -/
def finalize (t : ThreadRec κ) (r : Nat) (s : RunState) : ThreadRec κ :=
  let finalProcs :=
    if t.hasFinalProc = true ∧ t.nFinalizedCount = 0 then s.finalProcs + 1 else s.finalProcs
  { t.setRun r { s with point := .notifying t.doAutodelete, finalProcs } with
    pthd := none
    isFinalized := true
    isActivated := false
    nFinalizedCount := t.nFinalizedCount + 1 }

/-- The wait without a time limit of `gallus_thread_destroy` is over. -/
def waitOver (t : ThreadRec κ) : Bool :=
  t.doAutodelete || !t.isActivated && (!t.isStarted || decide (t.nFinalizedCount ≠ 0))

/-- The segments of `s_finalize`, and of the `gallus_thread_destroy` that follows it. A record that
is gone is not found by `gallus_thread_is_valid`. -/
def runStep (t : ThreadRec κ) (r : Nat) (s : RunState) : Option (ThreadRec κ) :=
  match s.point with
  | .finalizing isCanceled rcode =>
    if t.destroyed then some (t.setRun r { s with point := .ended })
    else if t.finalizeLock = none then
      some { t.setRun r { s with point := .locked isCanceled } with
        finalizeLock := some r
        isCanceled := isCanceled
        resultCode := rcode }
    else none
  | .locked _ =>
    if t.destroyed then some (t.setRun r { s with point := .ended }) else some (t.finalize r s)
  | .notifying doAutodelete =>
    some { t.setRun r { s with point := if doAutodelete then .deleting else .ended } with
      finalizeLock := none }
  | .deleting =>
    if t.destroyed then some (t.setRun r { s with point := .ended })
    else some (t.cancel.setRun r { s with point := .waiting })
  | .waiting =>
    if t.destroyed then some (t.setRun r { s with point := .ended })
    else if t.waitOver then some { t.setRun r { s with point := .ended } with destroyed := true }
    else none
  | _ => none

/-! ## The calls -/

variable [DecidableEq κ]

def setPc (t : ThreadRec κ) (k : κ) (p : Pc) : ThreadRec κ :=
  { t with pc := Function.update t.pc k p }

/-- `gallus_thread_start` up to its wait. -/
def start (t : ThreadRec κ) (k : κ) (autodelete created : Bool) : ThreadRec κ :=
  if t.isActivated = false then
    if created then
      { t with
        doAutodelete := autodelete
        pthd := some t.runs.length
        runs := t.runs ++ [RunState.mk .spawned false 0]
        isActivated := false
        isFinalized := false
        isCanceled := false
        isStarted := false
        startupSyncDone := false
        nFinalizedCount := 0 }.setPc k .starting
    else
      { t with doAutodelete := autodelete, pthd := none }.setPc k
        (.returned (.start autodelete) Result.posixApiError [])
  else t.setPc k (.returned (.start autodelete) Result.alreadyExists [])

/-- The calls up to their first wait. -/
def call (t : ThreadRec κ) (k : κ) (created : Bool) : Call → ThreadRec κ
  | .start autodelete =>
    if t.destroyed then t.setPc k (.returned (.start autodelete) Result.invalidObject [])
    else t.start k autodelete created
  | .cancel =>
    if t.destroyed then t.setPc k (.returned .cancel Result.invalidObject [])
    else t.cancel.setPc k (.returned .cancel Result.ok [])
  | .wait nsec =>
    if t.destroyed then t.setPc k (.returned (.wait nsec) Result.invalidObject [])
    else if t.doAutodelete then t.setPc k (.returned (.wait nsec) Result.notOperational [])
    else if t.isActivated then t.setPc k (.waiting nsec t.underWay)
    else t.setPc k (.checked nsec Result.ok [])

/-- A call after the wait of result `ret`. -/
def wake (t : ThreadRec κ) (k : κ) (ret : Result) : Option (ThreadRec κ) :=
  match t.pc k with
  | .starting =>
    if condWaitResult (-1) ret then
      if ret = Result.ok then
        if t.isStarted then
          some ({ t with startupSyncDone := true }.setPc k
            (.returned (.start t.doAutodelete) ret []))
        else some t
      else some (t.setPc k (.returned (.start t.doAutodelete) ret []))
    else none
  | .waiting nsec targets =>
    if condWaitResult nsec ret then
      if ret = Result.ok ∧ t.isActivated = true then some t
      else some (t.setPc k (.checked nsec ret targets))
    else none
  | .finalWaiting nsec targets =>
    if condWaitResult nsec ret ∧ t.finalizeLock = none then
      if ret = Result.ok ∧ t.nFinalizedCount = 0 then some t
      else some (t.setPc k (.returned (.wait nsec) ret targets))
    else none
  | _ => none

/-- A wait between `waitcheck` and its end. -/
def proceed (t : ThreadRec κ) (k : κ) : Option (ThreadRec κ) :=
  match t.pc k with
  | .checked nsec ret targets =>
    if t.isStarted then some (t.setPc k (.locking nsec ret targets))
    else some (t.setPc k (.returned (.wait nsec) ret targets))
  | .locking nsec ret targets =>
    if t.finalizeLock = none then
      if t.nFinalizedCount = 0 then some (t.setPc k (.finalWaiting nsec targets))
      else some (t.setPc k (.returned (.wait nsec) ret targets))
    else none
  | _ => none

/-- One step. -/
def step (t : ThreadRec κ) : Event κ → Option (ThreadRec κ)
  | .call k c created =>
    match t.pc k with
    | .outside => some (t.call k created c)
    | _ => none
  | .wake k ret => if t.destroyed then none else t.wake k ret
  | .proceed k => if t.destroyed then none else t.proceed k
  | .enter r =>
    match t.runs[r]? with
    | some ⟨.spawned, cancel, n⟩ => some (t.enter r ⟨.spawned, cancel, n⟩)
    | _ => none
  | .ack r ret =>
    match t.runs[r]? with
    | some ⟨.acking, cancel, n⟩ =>
      if condWaitResult (-1) ret then
        if ret = Result.ok ∧ t.startupSyncDone = false then some t
        else some (t.setRun r ⟨.main, cancel, n⟩)
      else none
    | _ => none
  | .exit r how =>
    match t.runs[r]? with
    | some ⟨.main, cancel, n⟩ =>
      match how with
      | .returned ret => some (t.setRun r ⟨.finalizing false ret, cancel, n⟩)
      | .canceled =>
        if cancel then some (t.setRun r ⟨.finalizing true Result.interrupted, cancel, n⟩) else none
      | .exited => some (t.setRun r ⟨.finalizing true Result.interrupted, cancel, n⟩)
    | _ => none
  | .run r =>
    match t.runs[r]? with
    | some s => t.runStep r s
    | none => none

end ThreadRec
end Thread
end Gallus
