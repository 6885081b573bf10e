import Gallus.Callout.Effects
import Gallus.Cbuffer.Single

/-!
# Calls that return an error (`callout.c`, `callout_task.c`)

`gallus_callout_submit_task` and `gallus_callout_exec_task_forcibly` from their entry to their
return, with nothing between. Both write to the task first, and then try a queue.

* `Setting`: what a call finds besides the task, the reply of the queue that it tries among it.
* `AsBefore t s s'`: the task `t` is in the same queue, with the same state, repetition and time.
* `Atomic`: an error leaves the task as before, and a task that was put in a queue gives no error.
* `perform_atomic_iff`: the condition `ApiCall.safe` on the task and the setting, for both calls.
* `perform_broken`: one call for each part of it.
-/

namespace Gallus
namespace Callout

variable {ι : Type}

/-! ## The calls -/

/-- How a put of one task with no time limit returns (`Cbuffer.single_reply`). -/
inductive PutReply
  /-- There is room, at once or after waits. -/
  | stored
  /-- The queue is not operational, or something else ended the wait for room. -/
  | failed (r : Result) (neg : r < 0)

/-- The module, and the queue of the worker that gets the next task. -/
structure Scene (ι : Type) where
  w : Callout ι
  workerQ : List ι

/-- What a call depends on besides its arguments and the module's tasks. -/
structure Setting (ι : Type) where
  isHandlerInited : Bool
  nWorkers : Nat
  /-- The reading of the clock in the call. -/
  now : Chrono
  /-- The reply of the queue that the call puts the task into. -/
  reply : PutReply
  /-- What an execution of a task does to the module. -/
  exec : Callout ι → ι → Callout ι

variable [DecidableEq ι]

/-- `s_submit_task`. -/
def submitTask (e : Setting ι) (w : Callout ι) (t : ι) (initialDelay interval : Chrono) :
    Callout ι × Result :=
  if calloutTaskMinInterval ≤ interval ∨ interval = 0 then
    let w := submitFields w t initialDelay interval
    if initialDelay = 0 then
      match e.reply with
      | .stored => (setEnqueued (putUrgent w t) t, Result.ok)
      | .failed r _ => (w, r)
    else if 0 < initialDelay then
      let (w, next) := doSched w t e.now
      if 0 < next then (setEnqueued w t, Result.ok) else (w, Result.anyFailures)
    else
      match e.reply with
      | .stored => (setEnqueued (putIdle w t) t, Result.ok)
      | .failed r _ => (w, r)
  else (w, Result.tooSmall)

/-- `s_final_task_sched_proc` with one task: `s_run_tasks_by_self`, or with workers
`s_submit_callout_stage`, which puts it into the queue of one of them. -/
def finalTaskSchedOne (e : Setting ι) (s : Scene ι) (t : ι) : Scene ι × Result :=
  let s := { s with w := stampTask s.w t e.now }
  if e.nWorkers = 0 then ({ s with w := e.exec s.w t }, 1)
  else
    match e.reply with
    | .stored => ({ s with workerQ := s.workerQ ++ [t] }, 1)
    | .failed r _ => (s, r)

/-- `s_force_schedule_task`. -/
def forceScheduleTask (e : Setting ι) (s : Scene ι) (t : ι) : Scene ι × Result :=
  let st := s.w.getStateInTable t
  if st = .created ∨ st = .enqueued then
    if (s.w.task t).execRefCount = 0 then
      if (s.w.task t).isInTimedQ = true then
        let s := { s with w := (doUnsched s.w t).setState t .dequeued }
        let (s, r) := finalTaskSchedOne e s t
        (s, if r = 1 then Result.ok else r)
      else (s, Result.invalidState)
    else (s, Result.ok)
  else (s, Result.invalidState)

/-- The two calls. -/
inductive ApiCall
  /-- `gallus_callout_submit_task`. -/
  | submit (delay interval : Chrono)
  /-- `gallus_callout_exec_task_forcibly`. -/
  | execForcibly

/-- A call with the task that `tptr` points to, if to any. -/
def ApiCall.perform (e : Setting ι) (s : Scene ι) (tptr : Option ι) : ApiCall → Scene ι × Result
  | .submit delay interval =>
    if e.isHandlerInited then
      match tptr with
      | some t =>
        if s.w.getStateInTable t = .created then
          let (w, r) := submitTask e s.w t delay interval
          ({ s with w }, r)
        else if s.w.getStateInTable t = .unknown then (s, Result.invalidObject)
        else (s, Result.invalidStateTransition)
      | none => (s, Result.invalidArgs)
    else (s, Result.notOperational)
  | .execForcibly =>
    if e.isHandlerInited then
      match tptr with
      | some t =>
        if s.w.getStateInTable t ≠ .unknown then forceScheduleTask e s t
        else (s, Result.invalidObject)
      | none => (s, Result.invalidArgs)
    else (s, Result.notOperational)

/-! ## What an error has to leave -/

/-- The task `t` is where it was, and as it was. -/
structure AsBefore (t : ι) (s s' : Scene ι) : Prop where
  urgent : s'.w.urgentTskQ = s.w.urgentTskQ
  idle : s'.w.idleTskQ = s.w.idleTskQ
  timed : s'.w.chronoTskQ = s.w.chronoTskQ
  worker : s'.workerQ = s.workerQ
  entry : s'.w.tskTbl t = s.w.tskTbl t
  status : (s'.w.task t).status = (s.w.task t).status
  doRepeat : (s'.w.task t).doRepeat = (s.w.task t).doRepeat
  interval : (s'.w.task t).intervalTime = (s.w.task t).intervalTime
  next : s'.w.next t = s.w.next t

/-- One of the queues has got the task `t`. -/
def PutIn (t : ι) (s s' : Scene ι) : Prop :=
  s.w.urgentTskQ.count t < s'.w.urgentTskQ.count t ∨ s.w.idleTskQ.count t < s'.w.idleTskQ.count t ∨
    s.w.chronoTskQ.count t < s'.w.chronoTskQ.count t ∨ s.workerQ.count t < s'.workerQ.count t

/-- What a call on the task `t` has done, against what it has returned. -/
def Atomic (t : ι) (s : Scene ι) (r : Scene ι × Result) : Prop :=
  (r.2 < 0 → AsBefore t s r.1) ∧ (PutIn t s r.1 → r.2 = Result.ok)

/-! ## The condition -/

/-- A submission with this interval leaves the repetition of the task as it is. -/
def sameRepeat (x : Task) (interval : Chrono) : Prop :=
  0 < interval → x.doRepeat = true ∧ x.intervalTime = interval

/-- The time at which a submitted task is due: counted from the clock, for a repeated task that ran
already from its latest run. -/
def dueTime (x : Task) (delay interval now : Chrono) : Chrono :=
  if x.isFirst = false ∧ (x.doRepeat = true ∨ 0 < interval) then
    x.lastAbstime + if 0 < interval then interval else x.intervalTime
  else now + delay

/-- The condition on a submission and on a forced execution of the task `t`. -/
def ApiCall.safe (e : Setting ι) (s : Scene ι) (t : ι) : ApiCall → Prop
  | .submit delay interval =>
    s.w.getStateInTable t = .created → calloutTaskMinInterval ≤ interval ∨ interval = 0 →
      if 0 < delay then
        if s.w.flag t = false then 0 < i64 (dueTime (s.w.task t) delay interval e.now)
        else sameRepeat (s.w.task t) interval
      else e.reply ≠ .stored → sameRepeat (s.w.task t) interval
  | .execForcibly =>
    s.w.getStateInTable t = .created ∨ s.w.getStateInTable t = .enqueued →
      (s.w.task t).execRefCount = 0 → s.w.flag t = true → 0 < e.nWorkers → e.reply = .stored

variable {e : Setting ι} {s s' : Scene ι} {w : Callout ι} {t : ι} {r : Scene ι × Result}

/-! ## Results -/

theorem PutIn.irrefl : ¬PutIn t s s := by
  unfold PutIn
  omega

omit [DecidableEq ι] in
theorem AsBefore.refl (t : ι) (s : Scene ι) : AsBefore t s s :=
  ⟨rfl, rfl, rfl, rfl, rfl, rfl, rfl, rfl, rfl⟩

/-- Nothing has happened. -/
theorem Atomic.same (ret : Result) : Atomic t s (s, ret) :=
  ⟨fun _ => .refl t s, fun h => absurd h PutIn.irrefl⟩

theorem Atomic.of_ok (h : r.2 = Result.ok) : Atomic t s r :=
  ⟨fun hneg => absurd (h ▸ hneg) (by decide), fun _ => h⟩

/-! ## Submission -/

/-- Where the put finds room, this is the submission of `submitPut`. -/
theorem submitTask_submitPut {delay interval : Chrono} {r : Callout ι × Result}
    (hinterval : calloutTaskMinInterval ≤ interval ∨ interval = 0) (hreply : e.reply = .stored)
    (h : submitPut (submitFields w t delay interval) t delay e.now = some r) :
    submitTask e w t delay interval = r := by
  unfold submitTask
  unfold submitPut at h
  simp only [if_pos hinterval, hreply]
  generalize doSched (submitFields w t delay interval) t e.now = d at h ⊢
  obtain ⟨w₁, next⟩ := d
  dsimp only at h ⊢
  split_ifs at h ⊢ <;> exact Option.some.inj h

theorem submitFields_task (w : Callout ι) (t : ι) (delay interval : Chrono) :
    (submitFields w t delay interval).task t =
      if 0 < interval then
        { w.task t with initialDelayTime := delay, intervalTime := interval, doRepeat := true }
      else { w.task t with initialDelayTime := delay } := by
  simp [submitFields]

/-- A put that fails after the fields are written. -/
theorem submitFields_atomic_iff {delay interval : Chrono} {ret : Result} (hneg : ret < 0) :
    Atomic t s ({ s with w := submitFields s.w t delay interval }, ret) ↔
      sameRepeat (s.w.task t) interval := by
  have htask := submitFields_task s.w t delay interval
  constructor
  · rintro ⟨herr, -⟩ hpos
    obtain ⟨-, -, -, -, -, -, hrepeat, hinterval, -⟩ := herr hneg
    dsimp only at hrepeat hinterval
    rw [htask, if_pos hpos] at hrepeat hinterval
    exact ⟨hrepeat.symm, hinterval.symm⟩
  · intro hsame
    refine ⟨fun _ => ⟨rfl, rfl, rfl, rfl, rfl, ?_, ?_, ?_, ?_⟩, fun h => absurd h PutIn.irrefl⟩
    all_goals dsimp only [Callout.next]
    all_goals rw [htask]
    all_goals split
    all_goals first | rfl | exact (hsame ‹_›).1.symm | exact (hsame ‹_›).2.symm

theorem submitFields_flag (w : Callout ι) (t : ι) (delay interval : Chrono) :
    (submitFields w t delay interval).flag t = w.flag t := by
  rw [flag, submitFields_task]
  split <;> rfl

theorem computeNext_submitFields (w : Callout ι) (t : ι) (delay interval now : Chrono) :
    (computeNext now ((submitFields w t delay interval).task t)).nextAbstime =
      i64 (dueTime (w.task t) delay interval now) := by
  rw [submitFields_task]
  unfold computeNext dueTime
  by_cases hpos : 0 < interval <;> by_cases hfirst : (w.task t).isFirst = false <;>
    by_cases hrepeat : (w.task t).doRepeat = true <;> simp [hpos, hfirst, hrepeat]

/-- The timed queue has got the task. -/
theorem Sched.putIn {now : Chrono} {w₀ w₁ : Callout ι} (h : Sched t now w₀ w₁)
    (hq : w₀.chronoTskQ = s.w.chronoTskQ) : PutIn t s { s with w := w₁ } := by
  refine .inr (.inr (.inl ?_))
  show s.w.chronoTskQ.count t < w₁.chronoTskQ.count t
  rw [h.timed.count_eq, List.count_cons_self, hq]
  exact Nat.lt_succ_self _

/-- A submission into the timed queue. -/
theorem submitTimed_atomic_iff {delay interval : Chrono} (hdelay : 0 < delay)
    (hinterval : calloutTaskMinInterval ≤ interval ∨ interval = 0) :
    Atomic t s ({ s with w := (submitTask e s.w t delay interval).1 },
        (submitTask e s.w t delay interval).2) ↔
      if s.w.flag t = false then 0 < i64 (dueTime (s.w.task t) delay interval e.now)
      else sameRepeat (s.w.task t) interval := by
  unfold submitTask
  rw [if_pos hinterval]
  simp only [if_neg (Int.ne_of_gt hdelay), if_pos hdelay]
  have hflag := submitFields_flag s.w t delay interval
  by_cases hf : s.w.flag t = false
  · obtain ⟨hsched, hnext⟩ := doSched_sched e.now (hflag.trans hf)
    rw [computeNext_submitFields] at hnext
    generalize doSched (submitFields s.w t delay interval) t e.now = d at hsched hnext ⊢
    obtain ⟨w₁, next⟩ := d
    dsimp only at hsched hnext ⊢
    rw [if_pos hf, ← hnext]
    by_cases hpos : 0 < next
    · simp only [if_pos hpos]
      exact iff_of_true (.of_ok rfl) hpos
    · simp only [if_neg hpos]
      refine iff_of_false (fun h => ?_) hpos
      have hne : Result.anyFailures ≠ Result.ok := by decide
      exact hne (h.2 (hsched.putIn rfl))
  · have hneg : Result.anyFailures < 0 := by decide
    rw [doSched_of_not _ _ (hflag ▸ hf), if_neg hf]
    exact submitFields_atomic_iff hneg

/-- A submission into the urgent or the idle queue. -/
theorem submitPut_atomic_iff {delay interval : Chrono} (hdelay : ¬0 < delay)
    (hinterval : calloutTaskMinInterval ≤ interval ∨ interval = 0) :
    Atomic t s ({ s with w := (submitTask e s.w t delay interval).1 },
        (submitTask e s.w t delay interval).2) ↔
      (e.reply ≠ .stored → sameRepeat (s.w.task t) interval) := by
  unfold submitTask
  rw [if_pos hinterval]
  simp only [if_neg hdelay]
  cases e.reply with
  | stored =>
    refine iff_of_true (.of_ok ?_) (fun h => absurd rfl h)
    split <;> rfl
  | failed r neg =>
    rw [ite_self]
    exact (submitFields_atomic_iff neg).trans ⟨fun h _ => h, fun h => h (by simp)⟩

/-! ## Forced execution -/

/-- A task that was forced out of the timed queue is not as before. -/
theorem forced_not_asBefore {workerQ : List ι} {st : TaskState} (hst : s.w.tskTbl t = some st)
    (hne : st ≠ .dequeued) (now : Chrono) :
    ¬AsBefore t s ⟨stampTask ((doUnsched s.w t).setState t .dequeued) t now, workerQ⟩ := by
  intro h
  have hentry := h.entry
  have hstamp : (stampTask ((doUnsched s.w t).setState t .dequeued) t now).tskTbl t =
      some .dequeued := by
    unfold stampTask
    simp [modTask, setState, setStateInTable]
  rw [hst] at hentry
  exact hne (Option.some.inj (hentry.symm.trans hstamp))

theorem forceScheduleTask_atomic_iff :
    Atomic t s (forceScheduleTask e s t) ↔ ApiCall.execForcibly.safe e s t := by
  unfold forceScheduleTask ApiCall.safe
  by_cases hst : s.w.getStateInTable t = .created ∨ s.w.getStateInTable t = .enqueued
  swap
  · simp only [if_neg hst]
    exact iff_of_true (.same _) fun h => absurd h hst
  by_cases hexec : (s.w.task t).execRefCount = 0
  swap
  · simp only [if_pos hst, if_neg hexec]
    exact iff_of_true (.same _) fun _ h => absurd h hexec
  by_cases hflag : (s.w.task t).isInTimedQ = true
  swap
  · simp only [if_pos hst, if_pos hexec, if_neg hflag]
    exact iff_of_true (.same _) fun _ _ h => absurd h hflag
  simp only [if_pos hst, if_pos hexec, if_pos hflag]
  unfold finalTaskSchedOne
  by_cases hworkers : e.nWorkers = 0
  · simp only [if_pos hworkers]
    exact iff_of_true (.of_ok rfl) fun _ _ _ h => absurd h (by omega)
  simp only [if_neg hworkers]
  cases e.reply with
  | stored => exact iff_of_true (.of_ok rfl) fun _ _ _ _ => rfl
  | failed r neg =>
    have hne : r ≠ 1 := by
      rintro rfl
      exact absurd neg (by decide)
    refine iff_of_false (fun h => ?_) fun h => ?_
    · obtain ⟨st, hentry, hst'⟩ : ∃ st, s.w.tskTbl t = some st ∧ st ≠ .dequeued := by
        unfold getStateInTable at hst
        cases hentry : s.w.tskTbl t with
        | none => simp [hentry] at hst
        | some st =>
          refine ⟨st, rfl, ?_⟩
          rintro rfl
          simp [hentry] at hst
      dsimp only at h
      rw [if_neg hne] at h
      exact forced_not_asBefore hentry hst' e.now (h.1 neg)
    · exact absurd (h hst hexec hflag (by omega)) (by simp)

/-! ## Both calls -/

/-- **Calls that fail.** A call that returns an error leaves the task as before, and one that put it
in a queue returns no error, if and only if, with the module in operation: a submission into the
timed queue makes the task due at a time that the type holds and that is positive; one into another
queue, or of a task that is in the timed queue already, is not refused after it has changed the
repetition; and a forced execution of a task in the timed queue finds a worker queue that takes
it. -/
theorem perform_atomic_iff (c : ApiCall) (e : Setting ι) (s : Scene ι) (tptr : Option ι) :
    (∀ t ∈ tptr, Atomic t s (c.perform e s tptr)) ↔
      (e.isHandlerInited = true → ∀ t ∈ tptr, c.safe e s t) := by
  cases tptr with
  | none => exact iff_of_true (by simp) (by simp)
  | some t =>
    simp only [Option.mem_some_iff, forall_eq']
    by_cases hinit : e.isHandlerInited = true
    swap
    · cases c <;> simp only [ApiCall.perform, if_neg hinit] <;>
        exact iff_of_true (.same _) fun h => absurd h hinit
    rw [forall_prop_of_true hinit]
    cases c with
    | submit delay interval =>
      simp only [ApiCall.perform, if_pos hinit, ApiCall.safe]
      by_cases hst : s.w.getStateInTable t = .created
      swap
      · simp only [if_neg hst]
        refine iff_of_true ?_ fun h => absurd h hst
        split <;> exact .same _
      simp only [if_pos hst]
      rw [forall_prop_of_true hst]
      by_cases hinterval : calloutTaskMinInterval ≤ interval ∨ interval = 0
      swap
      · unfold submitTask
        simp only [if_neg hinterval]
        exact iff_of_true (.same _) fun h => absurd h hinterval
      rw [forall_prop_of_true hinterval]
      by_cases hdelay : 0 < delay
      · rw [if_pos hdelay]
        exact submitTimed_atomic_iff hdelay hinterval
      · rw [if_neg hdelay]
        exact submitPut_atomic_iff hdelay hinterval
    | execForcibly =>
      simp only [ApiCall.perform, if_pos hinit]
      by_cases hst : s.w.getStateInTable t = .unknown
      · simp only [hst, ne_eq, not_true_eq_false, if_false]
        refine iff_of_true (.same _) ?_
        unfold ApiCall.safe
        simp [hst]
      · simp only [ne_eq, hst, not_false_eq_true, if_true]
        exact forceScheduleTask_atomic_iff

/-- One task, in the timed queue if its flag says so. -/
def oneTask (x : Task) : Scene Unit where
  w :=
    { task := fun _ => x
      tskTbl := fun _ => some x.status
      urgentTskQ := []
      chronoTskQ := if x.isInTimedQ then [()] else []
      idleTskQ := []
      wakeups := 0 }
  workerQ := []

/-- One worker, and a reading of the clock. -/
def oneWorker (now : Chrono) (reply : PutReply) : Setting Unit where
  isHandlerInited := true
  nWorkers := 1
  now := now
  reply := reply
  exec := fun w _ => w

/-- A new task with the largest delay is in the timed queue, with a time in the past, and the
submission returns an error. A wake-up ends the wait for room in the urgent queue, and the task
repeats. A worker queue refuses a task that was forced out of the timed queue, and the task is in no
queue. -/
theorem perform_broken :
    let new := newTask false false
    let timed := { new with status := .enqueued, isInTimedQ := true }
    let woken := PutReply.failed Result.wakeupRequested (by decide)
    let shut := PutReply.failed Result.notOperational (by decide)
    ¬Atomic () (oneTask new)
        ((ApiCall.submit (2 ^ 63 - 1) 0).perform (oneWorker 1 .stored) (oneTask new) (some ())) ∧
      ¬Atomic () (oneTask new)
        ((ApiCall.submit 0 10000).perform (oneWorker 1 woken) (oneTask new) (some ())) ∧
      ¬Atomic () (oneTask timed)
        (ApiCall.execForcibly.perform (oneWorker 1 shut) (oneTask timed) (some ())) := by
  refine ⟨fun h => ?_, fun h => ?_, fun h => ?_⟩
  · exact absurd (h.2 (.inr (.inr (.inl (by decide))))) (by decide)
  · exact absurd (h.1 (by decide)).doRepeat (by decide)
  · exact absurd (h.1 (by decide)).timed (by decide)

end Callout
end Gallus
