import Gallus.Basic
import Gallus.Lib.Trans
import Gallus.Lib.Ledger

/-!
# A pooled thread and its tasks (`task.c`, `pooled_thread.c`)

`gallus_task_run` puts a task into the slot `m_tsk` of a pooled thread, whose main loop executes
it and empties the slot. A thread that ends, or is cancelled, marks the task it finds there.

* `TaskRec`, `Runner ι κ`: a task's record; the thread's record, the tasks `ι`, and where the
  thread and the callers `κ` of `gallus_task_run` are.
* `Runner.step`: one segment of a caller, one of the thread, or something from outside (the
  start of the module, a shutdown, a cancellation, the pool).
* `ledger` is not in the source: it numbers the accepted tasks and knows which of them have been
  executed or marked. `cur` is the number of the task that the thread has picked.

A region under `m_lck` of the thread is one step, except in `gallus_task_run`: a cancelled thread
unlocks `m_lck` whoever holds it.
-/

namespace Gallus
namespace Pools

/-- `gallus_task_state_t`, the states that a task gets here. -/
inductive TaskState where
  | constructed
  | attached
  | running
  | cleanFinished
  | halted
  | cancelled
  | runnerShutdown
deriving DecidableEq, Repr

/-- `gallus_task_record`. -/
structure TaskRec where
  /-- `m_state`. -/
  state : TaskState
  /-- `m_flag`. -/
  flag : BitVec 32
  /-- `m_tr != NULL`. -/
  hasTr : Bool
  /-- `m_is_started`. -/
  isStarted : Bool
  /-- `m_is_clean_finished`. -/
  isCleanFinished : Bool
  /-- `m_is_runner_shutdown`. -/
  isRunnerShutdown : Bool
  /-- `m_is_cancelled`. -/
  isCancelled : Bool
  /-- `m_is_wait_done`. -/
  isWaitDone : Bool
  /-- `m_exit_code`. -/
  exitCode : Result
  /-- The record has been freed. -/
  freed : Bool
deriving DecidableEq

/-- `gallus_task_create`. -/
def TaskRec.created : TaskRec :=
  { state := .constructed, flag := 0, hasTr := false, isStarted := false, isCleanFinished := false,
    isRunnerShutdown := false, isCancelled := false, isWaitDone := false,
    exitCode := Result.notStarted, freed := false }

/-- `GALLUS_TASK_DELETE_CONTEXT_AFTER_EXEC`. -/
def TaskRec.doAutodelete (r : TaskRec) : Bool := r.flag &&& 1 ≠ 0

/-- `GALLUS_TASK_RELEASE_THREAD_AFTER_EXEC`. -/
def TaskRec.doAutorelease (r : TaskRec) : Bool := r.flag &&& 2 ≠ 0

/-- `gallus_task_runner_state_t`, the states of a thread that has been set up. -/
inductive RunnerState where
  | notAssigned
  | assigned
  | running
deriving DecidableEq, Repr

/-- Where the thread is; `t` is the local variable of `s_task_runner_main`. -/
inductive RunnerPoint (ι : Type) where
  /-- Waits for the module to be started. -/
  | opening
  /-- About to look at the slot, under the lock. -/
  | looking
  /-- Waits for a task. -/
  | waiting
  /-- Has looked, and is about to decide. -/
  | picked (t : Option ι) (doShutdown : Bool)
  /-- Has decided not to execute; `m_is_used` is read again. -/
  | declined (t : Option ι) (doShutdown : Bool)
  /-- About to mark the task as running. -/
  | starting (t : ι)
  /-- About to call `m_main`. -/
  | running (t : ι) (doAutodelete doAutorelease : Bool)
  /-- In `m_main`. -/
  | inMain (t : ι) (doAutodelete doAutorelease : Bool)
  /-- `m_main` has returned `ret`. -/
  | ran (t : ι) (doAutodelete doAutorelease : Bool) (ret : Result)
  /-- The slot has been emptied; `gallus_task_finalize` is next. -/
  | finished (t : ι) (doAutodelete doAutorelease : Bool)
  /-- After `gallus_task_finalize`. -/
  | finalized (t : ι) (doAutodelete doAutorelease : Bool)
  /-- The main loop has been left. -/
  | exiting
  /-- `s_task_runner_finalize`, before it looks at the slot. -/
  | finalizing (isCancelled : Bool)
  /-- It has found a task, and is about to mark it. -/
  | halting (t : ι) (isCancelled : Bool)
  /-- It has marked the task; `gallus_task_finalize` is next. -/
  | halted (t : ι) (isCancelled : Bool)
  /-- The thread has ended. -/
  | done
deriving DecidableEq

/-- Where a caller is in `gallus_task_run`. -/
inductive RunPoint (ι : Type) where
  | idle
  /-- Past the checks. -/
  | checked (t : ι) (flag : BitVec 32)
  /-- The task is attached; the caller has taken the lock. -/
  | attached (t : ι)
  /-- The task is in the slot; its flags are read once more. -/
  | handed (t : ι)
deriving DecidableEq

/-- `gallus_task_runner_thread_record` and the pool's `m_is_used`, with the tasks and the
callers. -/
structure Runner (ι κ : Type) where
  /-- `m_tsk`. -/
  tsk : Option ι
  /-- `m_is_got_a_task`. -/
  isGotATask : Bool
  /-- `m_is_shutdown_requested`. -/
  isShutdownRequested : Bool
  /-- `m_state`. -/
  state : RunnerState
  /-- `m_is_used` of the poolable. -/
  isUsed : Bool
  /-- Who has left `m_lck` locked. -/
  lck : Option κ
  point : RunnerPoint ι
  /-- The wait of the thread has been notified. -/
  woken : Bool
  /-- `pthread_cancel` has been called. -/
  cancelPending : Bool
  task : ι → TaskRec
  caller : κ → RunPoint ι
  /-- The result of a caller's last `gallus_task_run`. -/
  ret : κ → Result
  /-- `*tptr` after it: `NULL` for a task that is deleted after its execution. -/
  tptr : κ → Option ι
  /-- The number of the thread's `t` among the accepted tasks. -/
  cur : Option Nat
  ledger : Ledger

inductive RunEvent (ι κ : Type) where
  /-- `gallus_task_run` is called. -/
  | run (k : κ) (t : ι) (flag : BitVec 32)
  /-- The next segment of a call. -/
  | caller (k : κ)
  /-- The next segment of the thread; `m_main` returns `r`. -/
  | runner (r : Result)
  /-- `global_state_wait_for` returns. -/
  | opened (started : Bool)
  /-- The thread's wait ends unnotified. -/
  | spurious
  /-- The thread's wait ends with an error. -/
  | waitFails
  /-- The pool lends the thread out, or takes it back. -/
  | used (b : Bool)
  /-- `s_pooled_thread_shutdown`. -/
  | shutdown
  /-- `s_pooled_thread_cancel`. -/
  | cancel
  /-- The thread is cancelled at a cancellation point. -/
  | strike

variable {ι κ : Type} [DecidableEq ι] [DecidableEq κ]

/-- A thread that its pool has set up. -/
def Runner.setUp (isUsed : Bool) : Runner ι κ where
  tsk := none
  isGotATask := false
  isShutdownRequested := false
  state := .notAssigned
  isUsed := isUsed
  lck := none
  point := .opening
  woken := false
  cancelPending := false
  task := fun _ => .created
  caller := fun _ => .idle
  ret := fun _ => Result.ok
  tptr := fun _ => none
  cur := none
  ledger := .empty

/-! ## `gallus_task_run` -/

def Runner.setTask (s : Runner ι κ) (t : ι) (r : TaskRec) : Runner ι κ :=
  { s with task := Function.update s.task t r }

def Runner.setCaller (s : Runner ι κ) (k : κ) (p : RunPoint ι) : Runner ι κ :=
  { s with caller := Function.update s.caller k p }

def Runner.leave (s : Runner ι κ) (k : κ) (r : Result) : Runner ι κ :=
  { s.setCaller k .idle with ret := Function.update s.ret k r }

/-- `gallus_task_run`, the checks. -/
def Runner.run (s : Runner ι κ) (k : κ) (t : ι) (flag : BitVec 32) : Runner ι κ :=
  if (s.task t).hasTr then s.leave k Result.invalidArgs
  else if s.isUsed = false then s.leave k Result.invalidObject
  else s.setCaller k (.checked t flag)

/-- The first half of its region: `t->m_state`, `t->m_flag`. -/
def Runner.attach (s : Runner ι κ) (k : κ) (t : ι) (flag : BitVec 32) : Runner ι κ :=
  ({ s with lck := some k }.setTask t { s.task t with state := .attached, flag := flag }).setCaller
    k (.attached t)

/-- The second half: the task goes into the slot, whatever is there, and the thread is notified. -/
def Runner.hand (s : Runner ι κ) (k : κ) (t : ι) : Runner ι κ :=
  { s with
    tsk := some t
    isGotATask := true
    woken := s.woken || decide (s.point = RunnerPoint.waiting)
    lck := none
    ledger := s.ledger.accept }.setCaller k (.handed t)

/-- The return: `*tptr = NULL` if the task is deleted after its execution. -/
def Runner.handed (s : Runner ι κ) (k : κ) (t : ι) : Runner ι κ :=
  { s.leave k Result.ok with
    tptr := Function.update s.tptr k (if (s.task t).doAutodelete then none else some t) }

/-- The next segment of a call of `gallus_task_run`. -/
def Runner.callerStep (s : Runner ι κ) (k : κ) : Option (Runner ι κ) :=
  match s.caller k with
  | .idle => none
  | .checked t flag => if s.lck = none then some (s.attach k t flag) else none
  | .attached t => some (s.hand k t)
  | .handed t => some (s.handed k t)

/-! ## `s_task_runner_main` -/

/-- A round of the wait for a task, under the lock. -/
def Runner.look (s : Runner ι κ) : Runner ι κ :=
  match s.isGotATask, s.tsk with
  | true, some t =>
    { s with
      state := .assigned, cur := s.ledger.slot, point := .picked (some t) s.isShutdownRequested }
  | _, _ =>
    if s.isShutdownRequested then { s with cur := none, point := .picked none true }
    else { s with point := .waiting, woken := false }

/-- The condition for the execution. -/
def Runner.choose (s : Runner ι κ) (t : Option ι) (doShutdown : Bool) : Runner ι κ :=
  match t with
  | some t =>
    if s.state = .assigned ∧ doShutdown = false ∧ s.isUsed = true then
      { s with point := .starting t }
    else { s with point := .declined (some t) doShutdown }
  | none => { s with point := .declined none doShutdown }

/-- The `else` branch: shutdown, or a thread that nobody has acquired, or another round. -/
def Runner.decline (s : Runner ι κ) (t : Option ι) (doShutdown : Bool) : Runner ι κ :=
  if doShutdown then
    match t, s.cur with
    | some t, some n =>
      { s with point := .exiting, ledger := s.ledger.stop n }.setTask t
        { s.task t with
          exitCode := Result.notStarted, isRunnerShutdown := true, state := .runnerShutdown }
    | some t, none =>
      { s with point := .exiting }.setTask t
        { s.task t with
          exitCode := Result.notStarted, isRunnerShutdown := true, state := .runnerShutdown }
    | none, _ => { s with point := .exiting }
  else if s.isUsed = false then { s with point := .exiting }
  else { s with point := .looking }

/-- The task is marked as running. -/
def Runner.start (s : Runner ι κ) (t : ι) : Runner ι κ :=
  { s with
    state := .running
    point := .running t (s.task t).doAutodelete (s.task t).doAutorelease }.setTask t
      { s.task t with hasTr := true, isStarted := true, state := .running }

/-- `m_main` is called. -/
def Runner.callMain (s : Runner ι κ) (t : ι) (autodelete autorelease : Bool) : Runner ι κ :=
  match s.cur with
  | some n => { s with point := .inMain t autodelete autorelease, ledger := s.ledger.execute n }
  | none => { s with point := .inMain t autodelete autorelease }

/-- The slot is emptied, and the task is marked as finished. -/
def Runner.finish (s : Runner ι κ) (t : ι) (autodelete autorelease : Bool) (r : Result) :
    Runner ι κ :=
  { s with
    isGotATask := false
    tsk := none
    state := .notAssigned
    ledger := s.ledger.clear
    point := .finished t autodelete autorelease }.setTask t
      { s.task t with
        hasTr := false, exitCode := r, isCleanFinished := true, state := .cleanFinished }

/-- `gallus_task_finalize`: whoever waits for the task is woken. -/
def Runner.finalizeTask (s : Runner ι κ) (t : ι) : Runner ι κ :=
  s.setTask t { s.task t with isWaitDone := true }

/-- `gallus_task_destroy`. A running or cancelled task is left alone. -/
def Runner.destroyTask (s : Runner ι κ) (t : ι) : Runner ι κ :=
  if (s.task t).state ≠ .running ∧ (s.task t).state ≠ .cancelled then
    s.setTask t { s.task t with freed := true }
  else s

/-- The end of a round: the task may be destroyed, the thread given back to the pool. -/
def Runner.endRound (s : Runner ι κ) (t : ι) (autodelete autorelease : Bool) : Runner ι κ :=
  let s := if autodelete then s.destroyTask t else s
  { s with isUsed := if autorelease then false else s.isUsed, point := .looking }

/-! ## `s_task_runner_finalize` -/

/-- The thread looks for a task in the slot. A cancelled thread first unlocks the lock. -/
def Runner.lookBack (s : Runner ι κ) (isCancelled : Bool) : Runner ι κ :=
  { s with
    lck := if isCancelled then none else s.lck
    cur := s.ledger.slot
    point :=
      match s.tsk with
      | some t => .halting t isCancelled
      | none => .done }

/-- The task found is marked as cancelled or halted. -/
def Runner.halt (s : Runner ι κ) (t : ι) (isCancelled : Bool) : Runner ι κ :=
  { s with
    point := .halted t isCancelled
    ledger :=
      match s.cur with
      | some n => s.ledger.stop n
      | none => s.ledger }.setTask t
      { s.task t with
        isCancelled := isCancelled, state := if isCancelled then .cancelled else .halted }

/-- The next segment of the thread. -/
def Runner.runnerStep (s : Runner ι κ) (r : Result) : Option (Runner ι κ) :=
  match s.point with
  | .opening | .done => none
  | .looking => if s.lck = none then some s.look else none
  | .waiting => if s.woken = true ∧ s.lck = none then some s.look else none
  | .picked t sd => some (s.choose t sd)
  | .declined t sd => some (s.decline t sd)
  | .starting t => if s.lck = none then some (s.start t) else none
  | .running t ad ar => some (s.callMain t ad ar)
  | .inMain t ad ar => some { s with point := .ran t ad ar r }
  | .ran t ad ar r => if s.lck = none then some (s.finish t ad ar r) else none
  | .finished t ad ar => some ({ s with point := .finalized t ad ar }.finalizeTask t)
  | .finalized t ad ar => some (s.endRound t ad ar)
  | .exiting => some { s with point := .finalizing false }
  | .finalizing c => some (s.lookBack c)
  | .halting t c => some (s.halt t c)
  | .halted t _ => some ({ s with point := .done }.finalizeTask t)

/-- A cancelled thread goes to its finalizer from anywhere in its main function. -/
def RunnerPoint.cancellable : RunnerPoint ι → Bool
  | .finalizing _ | .halting _ _ | .halted _ _ | .done => false
  | _ => true

/-- One step. The task of a call has not been freed. -/
def Runner.step (s : Runner ι κ) : RunEvent ι κ → Option (Runner ι κ)
  | .run k t flag =>
    if s.caller k = .idle ∧ (s.task t).freed = false then some (s.run k t flag) else none
  | .caller k => s.callerStep k
  | .runner r => s.runnerStep r
  | .opened started =>
    if s.point = .opening then
      some { s with point := if started then .looking else .exiting }
    else none
  | .spurious => if s.point = .waiting then some { s with point := .looking } else none
  | .waitFails =>
    if s.point = .waiting ∧ s.lck = none then
      some { s with cur := none, point := .picked none false }
    else none
  | .used b => some { s with isUsed := b }
  | .shutdown =>
    if s.lck = none then
      some { s with
        isShutdownRequested := true, woken := s.woken || decide (s.point = RunnerPoint.waiting) }
    else none
  | .cancel => if s.lck = none then some { s with cancelPending := true } else none
  | .strike =>
    if s.cancelPending = true ∧ s.point.cancellable = true then
      some { s with point := .finalizing true }
    else none

end Pools
end Gallus
