import Gallus.Callout.Task
import Gallus.Lib.Trans

/-!
# Threads on the callout module (`callout.c`, `callout_task.c`, `callout_stage.c`)

A thread is a stack of calls (`Frame`), the running one on top; a task's procedure may call the
module again, on top of the execution that called it. A step is what the running call does up to
the next place where another thread can come between: one lock-held segment, or one access to a
field that is read without a lock.

* Locks are taken in the source's order and given back within a step, except where a step leaves
  a call inside them: `s_lck` over a destruction by an executor, the task lock over the task's
  procedure, and all three over a put that waits for room. Task locks are recursive.
* Any thread calls create, submit, cancel, the forced execution and the reset of the interval. One
  thread runs the main loop, an iteration at a time; the threads `workers` serve a queue each.
  Without workers the main loop runs the tasks itself.
* The worker queues are operational and nobody wakes their waiters, since they are shut down and
  woken only with the stage. What the main loop does between two iterations, the idle procedure and
  the wait, changes no task.
* Every step has its time, and a step that reads the clock reads it.
* `History` keeps, for each task, what the properties speak about and the source does not store.
-/

namespace Gallus
namespace Callout

/-! ## Calls -/

/-- `gallus_callout_submit_task`. -/
inductive SubmitPoint
  /-- About to look at the state of the task. -/
  | check
  | lock
  /-- In the put, holding the three locks, until there is room. -/
  | blocked
  deriving DecidableEq, Repr

/-- `s_cancel`. -/
inductive CancelPoint
  | check
  /-- Has read the state `st`, about to read `m_exec_ref_count`. -/
  | readExec (st : TaskState)
  /-- About to count itself. -/
  | count
  /-- At the test of the wait. -/
  | wait
  /-- Asleep since that many notifications. -/
  | asleep (since : Nat)
  | readStatus
  /-- About to count itself off. -/
  | uncount
  /-- The task does not run: about to take its lock. -/
  | mark (st : TaskState)
  deriving DecidableEq, Repr

/-- `s_exec_task`. -/
inductive ExecPoint
  | check
  /-- About to count itself. -/
  | count
  | recheck
  /-- In the task's procedure. -/
  | body
  | readCancel | readRepeat | resched
  /-- The task stays: about to count itself off. -/
  | leave
  /-- The task goes: about to read `m_cancel_ref_count` again. -/
  | readCancelDelete
  | leaveDelete
  /-- About to take `s_lck` for the destruction. -/
  | lockDelete
  /-- About to leave the destruction to the cancellers. -/
  | wakeup
  deriving DecidableEq, Repr

/-- `s_set_cancel_and_destroy_task_no_lock`, down to the end of `s_delete`. -/
inductive DestroyPoint
  | unsched | setTable | check | delete
  /-- The task is out of the table, about to free its record. -/
  | free
  deriving DecidableEq, Repr

/-- `gallus_callout_exec_task_forcibly`. -/
inductive ForcePoint
  | check | lock | run
  deriving DecidableEq, Repr

/-- A call, where it is, and what it has in its variables. -/
inductive Frame (ι : Type)
  | submit (t : ι) (initialDelay interval : Chrono) (p : SubmitPoint)
  | cancel (t : ι) (p : CancelPoint)
  | exec (t : ι) (p : ExecPoint)
  /-- `unlock`: the caller holds `s_lck`. -/
  | destroy (t : ι) (unlock : Bool) (p : DestroyPoint)
  | force (t : ι) (p : ForcePoint)
  /-- The main loop, about to fetch the urgent and the idle tasks. -/
  | fetch (now : Chrono)
  /-- The main loop, about to fetch the timed tasks. -/
  | fetchTimed (now : Chrono) (urgentTasks idleTasks : List ι)
  /-- `s_run_tasks_by_self`, with the tasks still to run. -/
  | runTasksBySelf (now : Chrono) (tasks : List ι)
  /-- The first loop of `s_submit_callout_stage`. -/
  | stamp (now : Chrono) (todo stamped : List ι)
  /-- The second one: `left` more of `tasks` go to the worker queue `q`. -/
  | put (stride q left : Nat) (tasks : List ι)
  /-- `s_callout_worker_main`, with the tasks still to execute. -/
  | worker (tasks : List ι)
  deriving DecidableEq, Repr

/-! ## The system -/

/-- What is kept of a task besides its record. -/
structure History where
  created : Bool
  /-- How often `m_freeproc` was called. -/
  freed : Nat
  /-- The record is freed. -/
  destroyed : Bool
  /-- A cancellation found the task queued or dequeued. -/
  cancelled : Bool
  /-- The task was run after that. -/
  ranCancelled : Bool
  /-- The time stamps of the runs, the latest first, each with the interval to the next one. -/
  runs : List (Chrono × Chrono)
  /-- Submission time plus delay, or the stamp of the latest run plus the interval. -/
  due : Chrono
  /-- The clock readings with which the scheduler took the task out of the timed queue, each with
  the due time. -/
  taken : List (Chrono × Chrono)
  deriving DecidableEq, Repr

/-- The module and its threads `θ`. -/
structure System (ι θ : Type) where
  w : Callout ι
  clock : Chrono
  /-- The owners of `s_lck`, `s_q_lck` and the task locks. -/
  lck : Option θ
  qLck : Option θ
  taskLck : ι → Option θ
  /-- The notifications on the condition variables of the tasks so far. -/
  condTask : ι → Nat
  mainLoop : θ
  workers : List θ
  /-- `m_qs`, by the worker that serves the queue. -/
  qs : θ → List ι
  /-- `m_last_q`. -/
  lastQ : Nat
  stack : θ → List (Frame ι)
  /-- What the last submission, forced execution or reset of a thread returned. -/
  ret : θ → Result
  hist : ι → History

variable {ι θ : Type} [DecidableEq ι] [DecidableEq θ]

namespace System

/-- Write to the record of a task. -/
def modTask (s : System ι θ) (t : ι) (f : Task → Task) : System ι θ :=
  { s with w := s.w.modTask t f }

/-- Note something about a task. -/
def note (s : System ι θ) (t : ι) (f : History → History) : System ι θ :=
  { s with hist := Function.update s.hist t (f (s.hist t)) }

/-- The thread `th` can take the lock of `t`. -/
def canLock (s : System ι θ) (th : θ) (t : ι) : Bool :=
  (s.taskLck t).isNone || decide (s.taskLck t = some th)

/-- `s_wakeup_task`. -/
def wakeupTask (s : System ι θ) (t : ι) : System ι θ :=
  { s with condTask := Function.update s.condTask t (s.condTask t + 1) }

/-- The call of `th` returns `r`. -/
def return_ (s : System ι θ) (th : θ) (r : Result) : System ι θ :=
  { s with ret := Function.update s.ret th r }

end System

/-- What a step leaves: the system, and the calls in the place of the running one. -/
abbrev After (ι θ : Type) := System ι θ × List (Frame ι)

/-- The value of a `size_t` counter after `d` is added to it. -/
def addCount (n : Nat) (d : Int) : Nat := sizeT (n + d)

/-- Add `d` to `m_exec_ref_count`. -/
def addExec (s : System ι θ) (t : ι) (d : Int) : System ι θ :=
  s.modTask t fun x => { x with execRefCount := addCount x.execRefCount d }

/-- Add `d` to `m_cancel_ref_count`. -/
def addCancel (s : System ι θ) (t : ι) (d : Int) : System ι θ :=
  s.modTask t fun x => { x with cancelRefCount := addCount x.cancelRefCount d }

/-! ## Submission -/

/-- The fields `s_submit_task` writes first. -/
def submitFields (w : Callout ι) (t : ι) (initialDelay interval : Chrono) : Callout ι :=
  w.modTask t fun x =>
    if 0 < interval then
      { x with initialDelayTime := initialDelay, intervalTime := interval, doRepeat := true }
    else { x with initialDelayTime := initialDelay }

/-- `gallus_bbq_put` on the urgent queue. -/
def putUrgent (w : Callout ι) (t : ι) : Callout ι :=
  { w with urgentTskQ := w.urgentTskQ ++ [t] }

/-- `gallus_bbq_put` on the idle queue. -/
def putIdle (w : Callout ι) (t : ι) : Callout ι :=
  { w with idleTskQ := w.idleTskQ ++ [t] }

/-- The state of a submitted task that is not in the timed queue. -/
def setEnqueued (w : Callout ι) (t : ι) : Callout ι :=
  if (w.task t).isInTimedQ = false then
    (w.setState t .enqueued).modTask t fun x => { x with isInBbq := true }
  else w

/-- The rest of `s_submit_task` under the locks, at the time `now`. There is none while the put
waits for room. -/
def submitPut (w : Callout ι) (t : ι) (initialDelay now : Chrono) : Option (Callout ι × Result) :=
  if initialDelay = 0 then
    if w.urgentTskQ.length < calloutTaskMax then
      some (setEnqueued (putUrgent w t) t, Result.ok)
    else none
  else if 0 < initialDelay then
    let (w, next) := doSched w t now
    if 0 < next then some (setEnqueued w t, Result.ok) else some (w, Result.anyFailures)
  else
    if w.idleTskQ.length < calloutTaskMax then
      some (setEnqueued (putIdle w t) t, Result.ok)
    else none

/-- The submission of `t` with the locks taken, at the time `now`. -/
def submitLocked (s : System ι θ) (th : θ) (t : ι) (initialDelay interval now : Chrono) :
    After ι θ :=
  match submitPut s.w t initialDelay now with
  | some (w, r) =>
    ({ s with w, lck := none, qLck := none, taskLck := Function.update s.taskLck t none }
      |>.note t (fun h => { h with due := now + initialDelay })
      |>.return_ th r, [])
  | none =>
    ({ s with lck := some th, qLck := some th, taskLck := Function.update s.taskLck t (some th) },
      [.submit t initialDelay interval .blocked])

def submitStep (s : System ι θ) (th : θ) (t : ι) (initialDelay interval now : Chrono) :
    SubmitPoint → Option (After ι θ)
  | .check =>
    if s.w.getStateInTable t = .created then
      if calloutTaskMinInterval ≤ interval ∨ interval = 0 then
        some (s, [.submit t initialDelay interval .lock])
      else some (s.return_ th Result.tooSmall, [])
    else if s.w.getStateInTable t = .unknown then some (s.return_ th Result.invalidObject, [])
    else some (s.return_ th Result.invalidStateTransition, [])
  | .lock =>
    if s.lck.isNone ∧ s.qLck.isNone ∧ (s.taskLck t).isNone then
      some (submitLocked { s with w := submitFields s.w t initialDelay interval } th t initialDelay
        interval now)
    else none
  | .blocked => some (submitLocked s th t initialDelay interval now)

/-! ## Destruction -/

/-- The locked part of `s_delete`. -/
def deleteLocked (s : System ι θ) (t : ι) : System ι θ × Bool :=
  let didDelete := decide ((s.w.task t).status ≠ .deleting)
  let s :=
    if didDelete then
      { s with w := (s.w.deleteInTable t).modTask t fun x => { x with status := .deleting } }
        |>.note t fun h =>
          if (s.w.task t).hasFreeproc ∧ (s.w.task t).hasArg then { h with freed := h.freed + 1 }
          else h
    else s
  ((s.modTask t fun x => { x with cancelRefCount := 0, execRefCount := 0 }).wakeupTask t, didDelete)

/-- The end of a destruction. -/
def destroyed (s : System ι θ) (unlock : Bool) : After ι θ :=
  (if unlock then { s with lck := none } else s, [])

def destroyStep (s : System ι θ) (th : θ) (t : ι) (unlock : Bool) :
    DestroyPoint → Option (After ι θ)
  | .unsched =>
    if s.qLck.isNone ∧ s.canLock th t then
      some ({ s with w := doUnsched s.w t }, [.destroy t unlock .setTable])
    else none
  | .setTable =>
    some ({ s with w := s.w.setStateInTable t .cancelled }, [.destroy t unlock .check])
  | .check =>
    if s.w.getStateInTable t = .cancelled then some (s, [.destroy t unlock .delete])
    else some (destroyed s unlock)
  | .delete =>
    if s.canLock th t then
      let (s, didDelete) := deleteLocked s t
      if didDelete then some (s, [.destroy t unlock .free]) else some (destroyed s unlock)
    else none
  | .free => some (destroyed (s.note t fun h => { h with destroyed := true }) unlock)

/-! ## Cancellation -/

/-- The cancel flag of a task that is queued or dequeued, in the table and in the record. -/
def setCancelled (s : System ι θ) (t : ι) : System ι θ :=
  { s with w := s.w.setState t .cancelled } |>.note t fun h => { h with cancelled := true }

def cancelStep (s : System ι θ) (th : θ) (t : ι) : CancelPoint → Option (After ι θ)
  | .check =>
    let st := s.w.getStateInTable t
    if st ≠ .unknown ∧ st ≠ .cancelled then some (s, [.cancel t (.readExec st)])
    else some (s, [])
  | .readExec st =>
    if (s.w.task t).execRefCount ≠ 0 then some (s, [.cancel t .count])
    else if st = .enqueued ∨ st = .dequeued then some (s, [.cancel t (.mark st)])
    else some (s, [])
  | .count => some (addCancel s t 1, [.cancel t .wait])
  | .wait =>
    if s.canLock th t then
      if (s.w.task t).execRefCount ≠ 0 then some (s, [.cancel t (.asleep (s.condTask t))])
      else some (s, [.cancel t .readStatus])
    else none
  | .asleep _ => none
  | .readStatus =>
    if (s.w.task t).status = .deleting then some (s, []) else some (s, [.cancel t .uncount])
  | .uncount =>
    some (addCancel s t (-1),
      -- Others that want to cancel the task too: the last one does.
      if 0 < addCount (s.w.task t).cancelRefCount (-1) then [] else [.destroy t false .unsched])
  | .mark st =>
    if s.canLock th t then
      if st = .enqueued ∧ (s.w.task t).isInTimedQ = true then
        some (s.note t fun h => { h with cancelled := true }, [.destroy t false .unsched])
      else some (setCancelled s t, [])
    else none

/-! ## Execution -/

/-- What `s_exec_task` does with a task that it finds in another state than `DEQUEUED`. -/
def notTheDequeuedState (t : ι) : TaskState → List (Frame ι)
  | .cancelled => [.exec t .lockDelete]
  | _ => []

/-- A task begins to run. -/
def execBegin (s : System ι θ) (th : θ) (t : ι) : System ι θ :=
  { s with
    w := (s.w.setState t .executing).modTask t fun x => { x with isFirst := false }
    taskLck := Function.update s.taskLck t (some th) }
    |>.note t fun h =>
      { h with
        runs := ((s.w.task t).lastAbstime, (s.w.task t).intervalTime) :: h.runs
        ranCancelled := h.ranCancelled || h.cancelled }

/-- The task's procedure has returned `r`. -/
def execEnd (s : System ι θ) (t : ι) (r : Result) : After ι θ :=
  let s' := { s with taskLck := Function.update s.taskLck t none }
  if r = Result.ok then (s', [.exec t .readCancel])
  else ({ s' with w := s.w.setState t .execFailed }, [.exec t .readCancelDelete])

/-- The latest run is followed by another after `interval`. -/
def History.followed (h : History) (interval : Chrono) : History :=
  match h.runs with
  | [] => h
  | (stamp, _) :: runs => { h with runs := (stamp, interval) :: runs, due := stamp + interval }

@[simp] theorem History.followed_created (h : History) (interval : Chrono) :
    (h.followed interval).created = h.created := by
  unfold followed
  split <;> rfl

/-- `s_schedule_timed_task` of the task that was run, at the time `now`. -/
def execResched (s : System ι θ) (t : ι) (now : Chrono) : After ι θ :=
  let s := s.note t fun h => h.followed (s.w.task t).intervalTime
  let (w, next) := doSched s.w t now
  ({ s with w }, [.exec t (if 0 ≤ next then .leave else .readCancelDelete)])

/-- `s_exec_task`. The program exits where the two states of the task differ: there is no step. -/
def execStep (s : System ι θ) (th : θ) (t : ι) (now : Chrono) : ExecPoint → Option (After ι θ)
  | .check =>
    if s.w.getStateInTable t = .dequeued then some (s, [.exec t .count])
    else some (s, notTheDequeuedState t (s.w.getStateInTable t))
  | .count =>
    some (addExec s t 1, [.exec t (if (s.w.task t).execRefCount = 0 then .recheck else .leave)])
  | .recheck =>
    if s.canLock th t then
      let st := s.w.getStateInTable t
      if st = .dequeued ∧ (s.w.task t).status = .dequeued then
        some (execBegin s th t, [.exec t .body])
      else if st = (s.w.task t).status then some (s, notTheDequeuedState t st)
      else none
    else none
  | .body => none
  | .readCancel =>
    some (s, [.exec t (if (s.w.task t).cancelRefCount = 0 then .readRepeat else .readCancelDelete)])
  | .readRepeat =>
    some (s, [.exec t (if (s.w.task t).doRepeat then .resched else .readCancelDelete)])
  | .resched =>
    if s.lck.isNone ∧ s.qLck.isNone ∧ s.canLock th t then some (execResched s t now) else none
  | .leave => some (addExec s t (-1), [])
  | .readCancelDelete =>
    some (s, [.exec t (if (s.w.task t).cancelRefCount = 0 then .leaveDelete else .wakeup)])
  | .leaveDelete => some (addExec s t (-1), [.exec t .lockDelete])
  | .lockDelete =>
    if s.lck.isNone then some ({ s with lck := some th }, [.destroy t true .unsched]) else none
  | .wakeup =>
    if s.canLock th t then
      some ((addExec s t (-1)).wakeupTask t, [])
    else none

/-! ## The main loop and the workers -/

/-- The frame of `s_final_task_sched_proc`. -/
def finalTaskSched (s : System ι θ) (now : Chrono) (tasks : List ι) : Frame ι :=
  if s.workers = [] then .runTasksBySelf now tasks else .stamp now tasks []

def forceStep (s : System ι θ) (th : θ) (t : ι) (now : Chrono) :
    ForcePoint → Option (After ι θ)
  | .check =>
    if s.w.getStateInTable t ≠ .unknown then some (s, [.force t .lock])
    else some (s.return_ th Result.invalidObject, [])
  | .lock =>
    if s.lck.isNone then
      let st := s.w.getStateInTable t
      if st = .created ∨ st = .enqueued then
        if (s.w.task t).execRefCount = 0 then
          if s.qLck.isNone ∧ s.canLock th t then
            if (s.w.task t).isInTimedQ = true then
              some ({ s with w := (doUnsched s.w t).setState t .dequeued }, [.force t .run])
            else some (s.return_ th Result.invalidState, [])
          else none
        else some (s.return_ th Result.ok, [])
      else some (s.return_ th Result.invalidState, [])
    else none
  | .run => some (s.return_ th Result.ok, [finalTaskSched s now [t]])

/-- The locked part of the loops of `s_run_tasks_by_self` and `s_submit_callout_stage`. -/
def stampTask (w : Callout ι) (t : ι) (startTime : Chrono) : Callout ι :=
  let w :=
    if (w.task t).status = .enqueued ∨ (w.task t).status = .created then w.setState t .dequeued
    else w
  w.modTask t fun x => { x with lastAbstime := startTime }

/-- The non-blocking `gallus_bbq_get_n` of the main loop, on the urgent and the idle queue. -/
def fetchStep (s : System ι θ) (now : Chrono) : Option (After ι θ) :=
  if s.lck.isNone then
    let urgent := s.w.urgentTskQ
    let idle := s.w.idleTskQ
    some ({ s with w :=
      { s.w with
        urgentTskQ := urgent.drop calloutTaskMax
        idleTskQ := idle.drop calloutTaskMax } },
      [.fetchTimed now (urgent.take calloutTaskMax) (idle.take calloutTaskMax)])
  else none

/-- `s_get_runnable_timed_task`, and the call of `s_final_task_sched_proc` if there is a task. -/
def fetchTimedStep (s : System ι θ) (now : Chrono) (urgentTasks idleTasks : List ι) :
    Option (After ι θ) :=
  if 0 < now then
    if s.lck.isNone ∧ s.qLck.isNone then
      let (w, timedTasks, _) := getRunnables s.w now calloutTaskMax
      if timedTasks.all fun t => (s.taskLck t).isNone then
        let s :=
          { s with
            w
            hist := fun t =>
              if t ∈ timedTasks then
                { s.hist t with taken := (now, (s.hist t).due) :: (s.hist t).taken }
              else s.hist t }
        some (s, runBatch s (timedTasks ++ urgentTasks ++ idleTasks))
      else none
    else none
  else some (s, runBatch s (urgentTasks ++ idleTasks))
where
  /-- An iteration without a task ends. -/
  runBatch (s : System ι θ) (tasks : List ι) : List (Frame ι) :=
    if tasks = [] then [] else [finalTaskSched s now tasks]

def runTasksBySelfStep (s : System ι θ) (th : θ) (now : Chrono) :
    List ι → Option (After ι θ)
  | [] => some (s, [])
  | t :: tasks =>
    if s.canLock th t then
      some ({ s with w := stampTask s.w t now }, [.exec t .check, .runTasksBySelf now tasks])
    else none

/-- The first loop of `s_submit_callout_stage`, and the choice of the first worker queue. -/
def stampStep (s : System ι θ) (th : θ) (now : Chrono) (stamped : List ι) :
    List ι → Option (After ι θ)
  | [] =>
    let nWorkers := s.workers.length
    let stride := if nWorkers = 1 then stamped.length else max 1 (stamped.length / nWorkers)
    some (s, [.put stride (s.lastQ % nWorkers) (min stride stamped.length) stamped])
  | t :: todo =>
    if s.canLock th t then
      some ({ s with w := stampTask s.w t now }, [.stamp now todo (stamped ++ [t])])
    else none

/-- One round of `gallus_bbq_put_n` on the worker queue `q`, or the choice of the next queue. -/
def putStep (s : System ι θ) (stride q left : Nat) (tasks : List ι) : Option (After ι θ) :=
  if tasks = [] then some (s, [])
  else if left = 0 then
    some (s, [.put stride (s.lastQ % s.workers.length) (min stride tasks.length) tasks])
  else
    match s.workers[q]? with
    | none => none
    | some i =>
      let n := min left (calloutTaskMax - (s.qs i).length)
      if n = 0 then none
      else
        let s := { s with qs := Function.update s.qs i (s.qs i ++ tasks.take n) }
        let s :=
          if left = n ∧ s.workers.length ≠ 1 then { s with lastQ := (s.lastQ + 1) % 2 ^ 64 } else s
        some (s, [.put stride q (left - n) (tasks.drop n)])

/-- `s_callout_worker_main`. -/
def workerStep (s : System ι θ) : List ι → Option (After ι θ)
  | [] => some (s, [])
  | t :: tasks => some (s, [.exec t .check, .worker tasks])

/-! ## Steps -/

/-- The next step of the call `f` of the thread `th`. -/
def frameStep (s : System ι θ) (th : θ) (now : Chrono) : Frame ι → Option (After ι θ)
  | .submit t initialDelay interval p => submitStep s th t initialDelay interval now p
  | .cancel t p => cancelStep s th t p
  | .exec t p => execStep s th t now p
  | .destroy t unlock p => destroyStep s th t unlock p
  | .force t p => forceStep s th t now p
  | .fetch start => fetchStep s start
  | .fetchTimed start urgentTasks idleTasks => fetchTimedStep s start urgentTasks idleTasks
  | .runTasksBySelf start tasks => runTasksBySelfStep s th start tasks
  | .stamp start todo stamped => stampStep s th start stamped todo
  | .put stride q left tasks => putStep s stride q left tasks
  | .worker tasks => workerStep s tasks

/-- A call from outside, or from a task's procedure. -/
inductive Op (ι : Type)
  | create (t : ι) (hasArg hasFreeproc : Bool)
  | submit (t : ι) (initialDelay interval : Chrono)
  | cancel (t : ι)
  | force (t : ι)
  | resetInterval (t : ι) (interval : Chrono)
  /-- One iteration of the main loop. -/
  | iterate
  /-- One round of a worker. -/
  | work

/-- What a thread does in a step. -/
inductive Act (ι : Type)
  | call (op : Op ι)
  /-- The next step of its running call. -/
  | go
  /-- The task's procedure that it is in returns. -/
  | finish (r : Result)
  /-- Its wait ends, by a notification or spuriously. -/
  | wake (spurious : Bool)

/-- A step of a thread at a time. -/
structure Event (ι θ : Type) where
  thread : θ
  now : Chrono
  act : Act ι

/-- Whether a thread with these calls can make another one: it is outside, or in a task's
procedure. -/
def canCall : List (Frame ι) → Bool
  | [] => true
  | .exec _ .body :: _ => true
  | _ => false

/-- The record of a new task. -/
def newTask (hasArg hasFreeproc : Bool) : Task where
  status := .created
  execRefCount := 0
  cancelRefCount := 0
  hasArg := hasArg
  hasFreeproc := hasFreeproc
  doRepeat := false
  isFirst := true
  isInTimedQ := false
  isInBbq := false
  initialDelayTime := -1
  intervalTime := -1
  lastAbstime := 0
  nextAbstime := 0

/-- `s_create_task`. A task is created once: a record in the memory of a freed one is another
task. -/
def createTask (s : System ι θ) (t : ι) (hasArg hasFreeproc : Bool) : Option (System ι θ) :=
  if s.lck.isNone ∧ (s.hist t).created = false then
    some ({ s with
        w := (s.w.modTask t fun _ => newTask hasArg hasFreeproc).setStateInTable t .created }
      |>.note t fun h => { h with created := true })
  else none

/-- `gallus_callout_task_reset_interval`. -/
def resetInterval (s : System ι θ) (th : θ) (t : ι) (interval : Chrono) : Option (System ι θ) :=
  if calloutTaskMinInterval ≤ interval then
    if s.canLock th t then
      if (s.w.task t).status = .executing then
        some ((s.modTask t fun x => { x with intervalTime := interval }).return_ th Result.ok)
      else some (s.return_ th Result.invalidStateTransition)
    else none
  else some (s.return_ th Result.tooSmall)

/-- The thread `th` begins a call. It has the pointer to a task after its creation only. -/
def callStep (s : System ι θ) (th : θ) (now : Chrono) : Op ι → Option (After ι θ)
  | .create t hasArg hasFreeproc => (createTask s t hasArg hasFreeproc).map fun s => (s, [])
  | .submit t initialDelay interval =>
    if (s.hist t).created then some (s, [.submit t initialDelay interval .check]) else none
  | .cancel t => if (s.hist t).created then some (s, [.cancel t .check]) else none
  | .force t => if (s.hist t).created then some (s, [.force t .check]) else none
  | .resetInterval t interval =>
    if (s.hist t).created then (resetInterval s th t interval).map fun s => (s, []) else none
  | .iterate => if th = s.mainLoop ∧ s.stack th = [] then some (s, [.fetch now]) else none
  | .work =>
    if th ∈ s.workers ∧ s.stack th = [] then
      some ({ s with qs := Function.update s.qs th ((s.qs th).drop calloutTaskMax) },
        [.worker ((s.qs th).take calloutTaskMax)])
    else none

/-- What the event does, and the calls of its thread after it. -/
def actStep (s : System ι θ) (th : θ) (now : Chrono) : Act ι → Option (After ι θ)
  | .call op =>
    if canCall (s.stack th) then
      (callStep s th now op).map fun (s', fs) => (s', fs ++ s.stack th)
    else none
  | .go =>
    match s.stack th with
    | [] => none
    | f :: fs => (frameStep s th now f).map fun (s', gs) => (s', gs ++ fs)
  | .finish r =>
    match s.stack th with
    | .exec t .body :: fs => some ((execEnd s t r).1, (execEnd s t r).2 ++ fs)
    | _ => none
  | .wake spurious =>
    match s.stack th with
    | .cancel t (.asleep since) :: fs =>
      if spurious ∨ since < s.condTask t then some (s, .cancel t .wait :: fs) else none
    | _ => none

/-- One step of the system. -/
def step (s : System ι θ) (e : Event ι θ) : Option (System ι θ) :=
  if s.clock ≤ e.now then
    (actStep s e.thread e.now e.act).map fun (s', fs) =>
      { s' with clock := e.now, stack := Function.update s.stack e.thread fs }
  else none

/-- No task yet. The record of a task is written before it is read. -/
def System.init (clock : Chrono) (mainLoop : θ) (workers : List θ) : System ι θ where
  w :=
    { task := fun _ => newTask false false
      tskTbl := fun _ => none
      urgentTskQ := []
      chronoTskQ := []
      idleTskQ := []
      wakeups := 0 }
  clock := clock
  lck := none
  qLck := none
  taskLck := fun _ => none
  condTask := fun _ => 0
  mainLoop := mainLoop
  workers := workers
  qs := fun _ => []
  lastQ := 0
  stack := fun _ => []
  ret := fun _ => Result.ok
  hist := fun _ =>
    { created := false, freed := 0, destroyed := false, cancelled := false, ranCancelled := false
      runs := [], due := 0, taken := [] }

end Callout
end Gallus
