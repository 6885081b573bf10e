import Gallus.Callout.TimedQueue
import Gallus.Cbuffer.Calls

/-!
# The wait of the scheduler's main loop (`callout.c`)

The main loop runs what is due, takes the time of the first timed task and waits at the urgent
queue until then. Submissions put tasks into the queues meanwhile and wake it.

* `MainLoop ι`: the timed queue (`Stamped ι`), the urgent queue as the buffer it is, the clock, and
  where the loop is. What the tasks do while they are executed are events of their own.
* `MainLoop.step`: one segment of the loop, of a submission, or of the clock. `s_do_sched` wakes
  the loop with the lock of the timed queue still held; between the insertion and the wake-up the
  loop can fall asleep, so the two are separate steps.

The end of a wait is exact; the times that the loop computes run past the end of the type.
-/

namespace Gallus
namespace Callout

open Cbuffer

/-- `CALLOUT_IDLE_PROC_MIN_INTERVAL`: one millisecond. -/
def calloutIdleProcMinInterval : Chrono := 1000 * 1000

/-- `sizeof(gallus_callout_task_t)` on a 64-bit platform. -/
def sizeofTask : Nat := 8

/-- Who holds the lock of the timed queue from one step to the next. -/
inductive QLock (ι : Type) where
  | free
  /-- `s_do_sched` has inserted its task and is about to wake the loop. -/
  | waking
  /-- A submission waits for room in the urgent queue. -/
  | putting (t : ι) (since : Nat) (l : Local ι)

/-- Where the main loop is. -/
inductive LoopPoint (ι : Type) where
  /-- At the beginning of a round. -/
  | top
  /-- Has read the clock; about to fetch the urgent and the idle tasks. -/
  | fetching (now : Chrono)
  /-- About to take the timed tasks that are due. -/
  | collecting (now : Chrono)
  /-- Executes or submits the tasks; about to call the idle procedure. -/
  | idling (now : Chrono)
  /-- About to look at the head of the timed queue. -/
  | peeking (now : Chrono)
  /-- About to wait, or to begin the next round. -/
  | settling (now nextWakeup : Chrono)
  /-- Waits at the urgent queue, until `deadline` if there is one. `since` is the number of
  broadcasts when the wait began. -/
  | waiting (deadline : Option Chrono) (since : Nat) (nsec : Chrono) (l : Local ι)
  /-- The loop has been left. -/
  | stopped

/-- The statics of `callout.c` that the main loop reads, and the loop. -/
structure MainLoop (ι : Type) where
  /-- `s_idle_proc != NULL`. -/
  hasIdleProc : Bool
  /-- `s_idle_interval`. -/
  idleInterval : Chrono
  /-- `s_next_idle_abstime`. -/
  nextIdleAbstime : Chrono
  /-- `s_chrono_tsk_q` and the tasks. -/
  q : Stamped ι
  /-- `s_urgent_tsk_q`. -/
  urgent : Cbuffer ι
  /-- `s_q_lck`. -/
  qLck : QLock ι
  clock : Chrono
  point : LoopPoint ι

inductive LoopEvent (ι : Type) where
  /-- Time passes. -/
  | tick (d : Nat)
  /-- The next segment of the loop; `r` is what the idle procedure returns. -/
  | loop (r : Result)
  /-- The loop's wait ends. -/
  | wake (how : Wake)
  /-- `s_do_sched`, up to the wake-up. -/
  | sched (t : ι)
  /-- The wake-up of `s_do_sched`. -/
  | wakeup
  /-- `s_do_unsched`. -/
  | unsched (t : ι)
  /-- What the rest of the module writes into a task. -/
  | edit (t : ι) (status : TaskState) (doRepeat isFirst : Bool)
      (initialDelayTime intervalTime lastAbstime : Chrono)
  /-- A submission puts an urgent task. -/
  | put (t : ι)
  /-- The wait of that submission ends. -/
  | putWake (how : Wake)

/-- `gallus_callout_initialize_handler`, and the main loop is started. -/
def MainLoop.initializeHandler {ι : Type} (hasIdleProc : Bool) (interval clock : Chrono)
    (q : Stamped ι) (urgent : Cbuffer ι) : Option (MainLoop ι) :=
  if hasIdleProc = false ∨ calloutIdleProcMinInterval < interval then
    some
      { hasIdleProc := hasIdleProc, idleInterval := interval, nextIdleAbstime := -1, q := q
        urgent := urgent, qLck := .free, clock := clock, point := .top }
  else none

variable {ι : Type} [DecidableEq ι] [Zero ι]

/-! ## The loop -/

/-- The urgent queue after a segment that ends in a wait or at the return. -/
def park (seg : Segment ι) : Cbuffer ι :=
  match seg.next with
  | .wait cond _ _ => enterWait seg.cb cond
  | .done _ _ _ => seg.cb

/-- The idle procedure is called if it is due; otherwise than with success the loop stops. -/
def MainLoop.idle (s : MainLoop ι) (now : Chrono) (r : Result) : MainLoop ι :=
  if s.hasIdleProc = true ∧ s.nextIdleAbstime < i64 (now + calloutTaskSchedJitter) then
    if r = Result.ok then
      { s with nextIdleAbstime := i64 (now + s.idleInterval), point := .peeking now }
    else { s with point := .stopped }
  else { s with point := .peeking now }

/-- The time of the next round: that of the head, or of the idle procedure. -/
def MainLoop.peek (s : MainLoop ι) (now : Chrono) : MainLoop ι :=
  let nextWakeup := s.q.w.peekCurrentWakeupTime
  if nextWakeup ≤ 0 then
    let nextIdle :=
      if s.nextIdleAbstime ≤ 0 then i64 (now + s.idleInterval) else s.nextIdleAbstime
    { s with nextIdleAbstime := nextIdle, point := .settling now nextIdle }
  else { s with point := .settling now nextWakeup }

/-- After `gallus_bbq_wait_gettable` has returned `r`. -/
def MainLoop.waited (s : MainLoop ι) (r : Result) : MainLoop ι :=
  if r ≤ 0 ∧ r ≠ Result.timedout ∧ r ≠ Result.wakeupRequested then { s with point := .stopped }
  else { s with point := .top }

/-- The end of a wait of `nsec`: a negative time is no limit. -/
def deadline (clock nsec : Chrono) : Option Chrono := if nsec < 0 then none else some (clock + nsec)

/-- The timeout is computed from the clock reading at the beginning of the round; then the loop
waits, if it is positive. -/
def MainLoop.settle (s : MainLoop ι) (now nextWakeup : Chrono) : MainLoop ι :=
  let timeout := i64 (nextWakeup - now)
  if 0 < timeout then
    let timeout := if s.idleInterval < timeout then s.idleInterval else timeout
    let seg := start s.urgent (.waitGettable timeout) s.clock
    match seg.next with
    | .wait _ nsec l =>
      { s with
        urgent := park seg
        point := .waiting (deadline s.clock nsec) seg.cb.condGet nsec l }
    | .done r _ _ => { s with urgent := park seg }.waited r
  else { s with point := .top }

/-- The wait is over. -/
def MainLoop.wakeUp (s : MainLoop ι) (nsec : Chrono) (l : Local ι) (how : Wake) : MainLoop ι :=
  let seg := resume s.urgent (.waitGettable nsec) l how.result s.clock s.clock
  match seg.next with
  | .wait _ _ _ => s
  | .done r _ _ => { s with urgent := seg.cb }.waited r

/-- The next segment of the loop. -/
def MainLoop.loopStep (s : MainLoop ι) (r : Result) : Option (MainLoop ι) :=
  match s.point with
  | .top => some { s with point := .fetching s.clock }
  | .fetching now =>
    match s.qLck with
    -- The submission that waits also holds the global lock.
    | .putting _ _ _ => none
    | _ =>
      some { s with
        urgent := (getNow s.urgent calloutTaskMax sizeofTask true).1, point := .collecting now }
  | .collecting now =>
    match s.qLck with
    | .free =>
      some { s with
        q := if 0 < now then s.q.exec (.getRunnables now calloutTaskMax) else s.q
        point := .idling now }
    | _ => none
  | .idling now => some (s.idle now r)
  | .peeking now =>
    match s.qLck with
    | .free => some (s.peek now)
    | _ => none
  | .settling now nextWakeup => some (s.settle now nextWakeup)
  | .waiting _ _ _ _ | .stopped => none

/-! ## Submissions -/

/-- `s_do_sched` of a task that is not in the queue, before the wake-up. -/
def MainLoop.sched (s : MainLoop ι) (t : ι) : MainLoop ι :=
  if s.q.w.flag t = false then
    { s with q := s.q.exec (.sched t s.clock), qLck := .waking }
  else s

/-- A submission's put of an urgent task has run to its end or to a wait. -/
def MainLoop.putNext (s : MainLoop ι) (t : ι) (seg : Segment ι) : MainLoop ι :=
  { s with
    urgent := park seg
    qLck :=
      match seg.next with
      | .wait cond _ l => .putting t (broadcasts seg.cb cond) l
      | .done _ _ _ => .free }

/-- One step. -/
def MainLoop.step (s : MainLoop ι) : LoopEvent ι → Option (MainLoop ι)
  | .tick d => some { s with clock := s.clock + d }
  | .loop r => s.loopStep r
  | .wake how =>
    match s.point with
    | .waiting dl since nsec l =>
      match how with
      | .notified => if since < s.urgent.condGet then some (s.wakeUp nsec l .notified) else none
      | .spurious => some (s.wakeUp nsec l .spurious)
      | .timedout => if ∃ d ∈ dl, d ≤ s.clock then some (s.wakeUp nsec l .timedout) else none
    | _ => none
  | .sched t =>
    match s.qLck with
    | .free => some (s.sched t)
    | _ => none
  | .wakeup =>
    match s.qLck with
    | .waking =>
      some { s with urgent := (start s.urgent (.wakeup 0) s.clock).cb, qLck := .free }
    | _ => none
  | .unsched t =>
    match s.qLck with
    | .free => some { s with q := s.q.exec (.unsched t) }
    | _ => none
  | .edit t status doRepeat isFirst initialDelayTime intervalTime lastAbstime =>
    some { s with
      q := s.q.exec
        (.edit t status doRepeat isFirst initialDelayTime intervalTime lastAbstime) }
  | .put t =>
    match s.qLck with
    | .free => some (s.putNext t (start s.urgent (.putN [t] sizeofTask (-1)) s.clock))
    | _ => none
  | .putWake how =>
    match s.qLck with
    | .putting t since l =>
      match how with
      | .timedout => none
      | .notified =>
        if since < s.urgent.condPut then
          some (s.putNext t
            (resume s.urgent (.putN [t] sizeofTask (-1)) l Result.ok s.clock s.clock))
        else none
      | .spurious =>
        some (s.putNext t
          (resume s.urgent (.putN [t] sizeofTask (-1)) l Result.ok s.clock s.clock))
    | _ => none

end Callout
end Gallus
