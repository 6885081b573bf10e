import Gallus.Basic
import Gallus.Lib.StableQueue
import Mathlib.Logic.Function.Basic
import Mathlib.Data.Int.Order.Basic

/-!
# Callout tasks and their queues (`callout_task.c`, `callout_queue.c`)

The statics of the callout module are one record, `Callout ι`, over the identities `ι` of the
tasks (the source's pointers). Each function below is what the source does while it holds the
lock of the timed queue, the lock of the task, or the lock of the task table: an atomic segment.

* The task table is a partial map. `setStateInTable` adds an entry that is not there, as the
  source does; an allocation failure of the hash map is not modelled.
* The urgent and the idle queue are the lists their `gallus_bbq` refines; the timed queue is the
  intrusive list, front first.
* `wakeups` counts the `gallus_bbq_wakeup` calls on the urgent queue.
-/

namespace Gallus

/-- `callout_task_state_t`. -/
inductive TaskState
  | unknown | created | enqueued | dequeued | executing | executed | execFailed | cancelled
  | deleting
  deriving DecidableEq, Repr

/-- `gallus_callout_task_record`. -/
structure Task where
  status : TaskState
  execRefCount : Nat
  cancelRefCount : Nat
  /-- `m_arg != NULL`. -/
  hasArg : Bool
  /-- `m_freeproc != NULL`. -/
  hasFreeproc : Bool
  doRepeat : Bool
  isFirst : Bool
  isInTimedQ : Bool
  isInBbq : Bool
  initialDelayTime : Chrono
  intervalTime : Chrono
  lastAbstime : Chrono
  nextAbstime : Chrono
  deriving DecidableEq, Repr

/-- The statics of `callout.c`. -/
structure Callout (ι : Type) where
  task : ι → Task
  tskTbl : ι → Option TaskState
  urgentTskQ : List ι
  chronoTskQ : List ι
  idleTskQ : List ι
  wakeups : Nat

namespace Callout

/-- `CALLOUT_TASK_MAX`. -/
def calloutTaskMax : Nat := 1000

/-- `CALLOUT_TASK_SCHED_JITTER`: one microsecond. -/
def calloutTaskSchedJitter : Chrono := 1000

/-- `CALLOUT_TASK_MIN_INTERVAL`: ten microseconds. -/
def calloutTaskMinInterval : Chrono := 10 * 1000

variable {ι : Type}

/-! ## Fields -/

/-- Write the timed queue. -/
def setChronoTskQ (w : Callout ι) (q : List ι) : Callout ι :=
  { w with chronoTskQ := q }

/-- `gallus_bbq_wakeup` of the urgent queue. -/
def wakeupUrgentTskQ (w : Callout ι) : Callout ι :=
  { w with wakeups := w.wakeups + 1 }

@[simp] theorem setChronoTskQ_task (w : Callout ι) (q : List ι) :
    (w.setChronoTskQ q).task = w.task := rfl

@[simp] theorem setChronoTskQ_chronoTskQ (w : Callout ι) (q : List ι) :
    (w.setChronoTskQ q).chronoTskQ = q := rfl

@[simp] theorem wakeupUrgentTskQ_task (w : Callout ι) : w.wakeupUrgentTskQ.task = w.task := rfl

@[simp] theorem wakeupUrgentTskQ_chronoTskQ (w : Callout ι) :
    w.wakeupUrgentTskQ.chronoTskQ = w.chronoTskQ := rfl

/-- `s_get_task_state_in_table`. -/
def getStateInTable (w : Callout ι) (t : ι) : TaskState :=
  (w.tskTbl t).getD .unknown

variable [DecidableEq ι]

/-- Write some fields of the record of the task `t`. -/
def modTask (w : Callout ι) (t : ι) (f : Task → Task) : Callout ι :=
  { w with task := Function.update w.task t (f (w.task t)) }

/-- `s_set_task_state_in_table`. -/
def setStateInTable (w : Callout ι) (t : ι) (s : TaskState) : Callout ι :=
  { w with tskTbl := Function.update w.tskTbl t (some s) }

/-- `s_delete_task_in_table`. -/
def deleteInTable (w : Callout ι) (t : ι) : Callout ι :=
  { w with tskTbl := Function.update w.tskTbl t none }

/-- The state word in the table and then in the record, as the source writes the two with the
task locked. -/
def setState (w : Callout ι) (t : ι) (s : TaskState) : Callout ι :=
  (w.setStateInTable t s).modTask t fun x => { x with status := s }

section Fields

variable (w : Callout ι) (t e : ι) (f : Task → Task) (s : TaskState)

@[simp] theorem modTask_task_self : (w.modTask t f).task t = f (w.task t) := by
  simp [modTask]

@[simp] theorem modTask_task_ne (h : e ≠ t) : (w.modTask t f).task e = w.task e := by
  simp [modTask, h]

@[simp] theorem setStateInTable_task : (w.setStateInTable t s).task = w.task := rfl
@[simp] theorem deleteInTable_task : (w.deleteInTable t).task = w.task := rfl

@[simp] theorem setState_task_self :
    (w.setState t s).task t = { w.task t with status := s } := by
  simp [setState]

@[simp] theorem setState_task_ne (h : e ≠ t) : (w.setState t s).task e = w.task e := by
  simp [setState, h]

@[simp] theorem modTask_chronoTskQ : (w.modTask t f).chronoTskQ = w.chronoTskQ := rfl
@[simp] theorem setState_chronoTskQ : (w.setState t s).chronoTskQ = w.chronoTskQ := rfl

end Fields

/-! ## The timed queue -/

/-- The insertion of `s_do_sched`: before a later head, else where the loop over the tasks that
are not later stops. -/
def insertByTime (next : ι → Chrono) (t : ι) : List ι → List ι
  | [] => [t]
  | e :: q => if next t < next e then t :: e :: q else StableQueue.insertAfter next t (e :: q)

/-- The next execution time, as `s_do_sched` computes it at the clock reading `now`. -/
def computeNext (now : Chrono) (x : Task) : Task :=
  if x.isFirst = false ∧ x.doRepeat = true then
    { x with nextAbstime := i64 (x.lastAbstime + x.intervalTime) }
  else
    { x with lastAbstime := now, nextAbstime := i64 (now + x.initialDelayTime) }

/-- `s_do_sched` at the clock reading `now`. -/
def doSched (w : Callout ι) (t : ι) (now : Chrono) : Callout ι × Chrono :=
  if (w.task t).isInTimedQ = false then
    let w := w.modTask t (computeNext now)
    let w := w.setChronoTskQ (insertByTime (fun e => (w.task e).nextAbstime) t w.chronoTskQ)
    let w := w.setState t .enqueued
    let w := w.modTask t fun x => { x with isInTimedQ := true }
    (w.wakeupUrgentTskQ, (w.task t).nextAbstime)
  else (w, -1)

/-- `s_do_unsched`. -/
def doUnsched (w : Callout ι) (t : ι) : Callout ι :=
  if (w.task t).isInTimedQ = true then
    let w := w.setChronoTskQ (w.chronoTskQ.erase t)
    let w := if (w.task t).status = .enqueued then w.setState t .dequeued else w
    w.modTask t fun x => { x with isInTimedQ := false }
  else w

/-- The removal of the head `e` from the queue, in `s_get` and `s_get_runnables`. -/
def takeHead (w : Callout ι) (e : ι) : Callout ι :=
  let w := w.setChronoTskQ (w.chronoTskQ.erase e)
  let w := w.setState e .dequeued
  w.modTask e fun x => { x with isInTimedQ := false }

/-- `s_peek_current_wakeup_time`. -/
def peekCurrentWakeupTime (w : Callout ι) : Chrono :=
  match w.chronoTskQ with
  | [] => -1
  | e :: _ => (w.task e).nextAbstime

/-- `s_get`. -/
def get (w : Callout ι) : Callout ι × Option ι :=
  match w.chronoTskQ with
  | [] => (w, none)
  | e :: _ => (takeHead w e, some e)

/-- The loop of `s_get_runnables`: at most `n` tasks whose time is at most `theAbstime`. -/
def takeRunnables (theAbstime : Chrono) : Nat → Callout ι → Callout ι × List ι
  | 0, w => (w, [])
  | n + 1, w =>
    match w.chronoTskQ with
    | [] => (w, [])
    | e :: _ =>
      if (w.task e).nextAbstime ≤ theAbstime then
        let (w, tasks) := takeRunnables theAbstime n (takeHead w e)
        (w, e :: tasks)
      else (w, [])

/-- `s_get_runnables`: the tasks and the next wake-up time. -/
def getRunnables (w : Callout ι) (baseAbstime : Chrono) (n : Nat) : Callout ι × List ι × Chrono :=
  let theAbstime := i64 (baseAbstime + calloutTaskSchedJitter)
  let (w, tasks) := takeRunnables theAbstime n w
  (w, tasks, w.peekCurrentWakeupTime)

end Callout
end Gallus
