import Gallus.Callout.Threads
import Gallus.Callout.TimedQueue
import Mathlib.Data.List.Count

/-!
# What the functions do to a task

One structure for each function that moves a task between the queues, with everything that the
function changes of the task, and `SameTask` for what it leaves alone of the others.

* `Sched`, `Unsched`: `s_do_sched` and `s_do_unsched`, where they do something.
* `Submitted`: the three kinds of submission.
* `Taken`: what the fetch of the timed tasks does to one task.
-/

namespace Gallus
namespace Callout

variable {ι θ : Type} [DecidableEq ι] [DecidableEq θ]

/-! ## What the functions on the timed queue do -/

/-- What a task that is put into the timed queue becomes. -/
def scheduled (now : Chrono) (x : Task) : Task :=
  { computeNext now x with status := .enqueued, isInTimedQ := true }

/-- `doSched` on a task that is not in the queue. -/
structure Sched (t : ι) (now : Chrono) (w w' : Callout ι) : Prop where
  task_self : w'.task t = scheduled now (w.task t)
  task_ne : ∀ e, e ≠ t → w'.task e = w.task e
  tskTbl : w'.tskTbl = Function.update w.tskTbl t (some .enqueued)
  urgent : w'.urgentTskQ = w.urgentTskQ
  idle : w'.idleTskQ = w.idleTskQ
  timed : w'.chronoTskQ.Perm (t :: w.chronoTskQ)

theorem doSched_sched {t : ι} {w : Callout ι} (now : Chrono) (h : w.flag t = false) :
    Sched t now w (doSched w t now).1 ∧
      (doSched w t now).2 = (computeNext now (w.task t)).nextAbstime := by
  have hq := (doSched_queue w now h).1
  generalize hr : doSched w t now = r at hq ⊢
  unfold doSched at hr
  rw [if_pos h] at hr
  subst hr
  generalize hc : computeNext now = compute at hq ⊢
  refine ⟨⟨?_, fun e he => by simp [he], rfl, rfl, rfl, ?_⟩, by simp⟩
  · simp [scheduled, hc]
  · rw [hq]
    exact StableQueue.insertAfter_perm

/-- `doUnsched` on a task that is in the queue. -/
structure Unsched (t : ι) (w w' : Callout ι) : Prop where
  task_self : w'.task t =
    if (w.task t).status = .enqueued then
      { w.task t with status := .dequeued, isInTimedQ := false }
    else { w.task t with isInTimedQ := false }
  task_ne : ∀ e, e ≠ t → w'.task e = w.task e
  tskTbl_self : w'.tskTbl t =
    if (w.task t).status = .enqueued then some .dequeued else w.tskTbl t
  tskTbl_ne : ∀ e, e ≠ t → w'.tskTbl e = w.tskTbl e
  urgent : w'.urgentTskQ = w.urgentTskQ
  idle : w'.idleTskQ = w.idleTskQ
  timed : w'.chronoTskQ = w.chronoTskQ.erase t

theorem doUnsched_unsched {t : ι} {w : Callout ι} (h : w.flag t = true) :
    Unsched t w (doUnsched w t) := by
  unfold doUnsched
  rw [if_pos h]
  by_cases hs : (w.task t).status = .enqueued
  · simp only [setChronoTskQ_task, hs, if_true]
    exact ⟨by simp [hs], fun e he => by simp [he], by simp [setState, setStateInTable, modTask, hs],
      fun e he => by simp [setState, setStateInTable, modTask, setChronoTskQ, he], rfl, rfl, rfl⟩
  · simp only [setChronoTskQ_task, hs, if_false]
    exact ⟨by simp [hs], fun e he => by simp [he], by simp [modTask, setChronoTskQ, hs],
      fun e he => rfl, rfl, rfl, rfl⟩

/-! ## What a submission does -/

/-- The task after it was put into the urgent or the idle queue. -/
def queued (x : Task) : Task := { x with status := .enqueued, isInBbq := true }

/-- A submission of the task `t`, which was in no queue. -/
inductive Submitted (t : ι) (initialDelay now : Chrono) (w w' : Callout ι) : Prop
  | urgent (delay : initialDelay = 0) (task : w'.task t = queued (w.task t))
      (tskTbl : w'.tskTbl t = some .enqueued) (urgent : w'.urgentTskQ = w.urgentTskQ ++ [t])
      (idle : w'.idleTskQ = w.idleTskQ) (timed : w'.chronoTskQ = w.chronoTskQ)
  | idle (delay : initialDelay < 0) (task : w'.task t = queued (w.task t))
      (tskTbl : w'.tskTbl t = some .enqueued) (urgent : w'.urgentTskQ = w.urgentTskQ)
      (idle : w'.idleTskQ = w.idleTskQ ++ [t]) (timed : w'.chronoTskQ = w.chronoTskQ)
  | timed (delay : 0 < initialDelay) (sched : Sched t now w w')

theorem setEnqueued_of_not {t : ι} {w : Callout ι} (h : w.flag t = false) :
    (setEnqueued w t).task t = queued (w.task t) ∧
      (setEnqueued w t).tskTbl t = some .enqueued ∧
      (setEnqueued w t).urgentTskQ = w.urgentTskQ ∧ (setEnqueued w t).idleTskQ = w.idleTskQ ∧
      (setEnqueued w t).chronoTskQ = w.chronoTskQ := by
  unfold setEnqueued
  rw [if_pos h]
  exact ⟨by simp [queued], by simp [setState, setStateInTable, modTask], rfl, rfl, rfl⟩

theorem setEnqueued_of_flag {t : ι} {w : Callout ι} (h : w.flag t = true) :
    setEnqueued w t = w := by
  unfold setEnqueued
  rw [if_neg (by rw [show (w.task t).isInTimedQ = true from h]; decide)]

theorem submitPut_submitted {t : ι} {initialDelay now : Chrono} {w w' : Callout ι} {r : Result}
    (hf : w.flag t = false) (h : submitPut w t initialDelay now = some (w', r)) :
    Submitted t initialDelay now w w' := by
  obtain ⟨hsched, -⟩ := doSched_sched now hf
  unfold submitPut at h
  generalize doSched w t now = d at h hsched
  obtain ⟨w₁, next⟩ := d
  dsimp only at h hsched
  have hflag : setEnqueued w₁ t = w₁ :=
    setEnqueued_of_flag (by rw [flag, hsched.task_self, scheduled])
  rw [hflag] at h
  split_ifs at h with hzero hroom hpos hnext <;> cases h
  · obtain ⟨htask, htbl, hurgent, hidle, htimed⟩ := setEnqueued_of_not (w := putUrgent w t) hf
    exact .urgent hzero htask htbl hurgent hidle htimed
  · exact .timed hpos hsched
  · exact .timed hpos hsched
  · obtain ⟨htask, htbl, hurgent, hidle, htimed⟩ := setEnqueued_of_not (w := putIdle w t) hf
    exact .idle (lt_of_le_of_ne (not_lt.mp hpos) hzero) htask htbl hurgent hidle htimed

/-! ## The end of a destruction -/

omit [DecidableEq ι] [DecidableEq θ] in
/-- A destruction that ends leaves everything but the lock. -/
theorem destroyed_eq {s s' : System ι θ} {unlock : Bool} {gs : List (Frame ι)}
    (h : destroyed s unlock = (s', gs)) : (∃ o, s' = { s with lck := o }) ∧ gs = [] := by
  unfold destroyed at h
  cases h
  split_ifs
  · exact ⟨⟨none, rfl⟩, rfl⟩
  · exact ⟨⟨s.lck, rfl⟩, rfl⟩

/-! ## Functions on other tasks -/

/-- Nothing of the task `t` is changed. -/
structure SameTask (t : ι) (w w' : Callout ι) : Prop where
  task : w'.task t = w.task t
  tskTbl : w'.tskTbl t = w.tskTbl t
  urgent : w'.urgentTskQ.count t = w.urgentTskQ.count t
  idle : w'.idleTskQ.count t = w.idleTskQ.count t
  timed : w'.chronoTskQ.count t = w.chronoTskQ.count t

namespace SameTask

variable {t e : ι} {w w₁ w₂ : Callout ι}

theorem refl (t : ι) (w : Callout ι) : SameTask t w w := ⟨rfl, rfl, rfl, rfl, rfl⟩

theorem trans (h : SameTask t w w₁) (h' : SameTask t w₁ w₂) : SameTask t w w₂ :=
  ⟨h'.task.trans h.task, h'.tskTbl.trans h.tskTbl, h'.urgent.trans h.urgent,
    h'.idle.trans h.idle, h'.timed.trans h.timed⟩

theorem modTask (h : e ≠ t) (w : Callout ι) (f : Task → Task) : SameTask t w (w.modTask e f) :=
  ⟨modTask_task_ne w e t f h.symm, rfl, rfl, rfl, rfl⟩

theorem setStateInTable (h : e ≠ t) (w : Callout ι) (st : TaskState) :
    SameTask t w (w.setStateInTable e st) :=
  ⟨rfl, by simp [Callout.setStateInTable, h.symm], rfl, rfl, rfl⟩

theorem deleteInTable (h : e ≠ t) (w : Callout ι) : SameTask t w (w.deleteInTable e) :=
  ⟨rfl, by simp [Callout.deleteInTable, h.symm], rfl, rfl, rfl⟩

theorem setState (h : e ≠ t) (w : Callout ι) (st : TaskState) : SameTask t w (w.setState e st) :=
  (setStateInTable h w st).trans (modTask h _ _)

theorem setChronoTskQ {q : List ι} (h : q.count t = w.chronoTskQ.count t) :
    SameTask t w (w.setChronoTskQ q) := ⟨rfl, rfl, rfl, rfl, h⟩

theorem doSched (h : e ≠ t) (w : Callout ι) (now : Chrono) : SameTask t w (doSched w e now).1 := by
  by_cases hf : w.flag e = false
  · obtain ⟨hs, -⟩ := doSched_sched now hf
    refine ⟨hs.task_ne t h.symm, ?_, by rw [hs.urgent], by rw [hs.idle], ?_⟩
    · rw [hs.tskTbl, Function.update_of_ne h.symm]
    · rw [hs.timed.count_eq, List.count_cons_of_ne h]
  · rw [doSched_of_not w now hf]
    exact refl t w

theorem doUnsched (h : e ≠ t) (w : Callout ι) : SameTask t w (doUnsched w e) := by
  by_cases hf : w.flag e = true
  · have hs := doUnsched_unsched hf
    refine ⟨hs.task_ne t h.symm, hs.tskTbl_ne t h.symm, by rw [hs.urgent], by rw [hs.idle], ?_⟩
    rw [hs.timed, List.count_erase_of_ne h.symm]
  · rw [doUnsched_of_not w hf]
    exact refl t w

theorem submitFields (h : e ≠ t) (w : Callout ι) (initialDelay interval : Chrono) :
    SameTask t w (submitFields w e initialDelay interval) := modTask h w _

theorem setEnqueued (h : e ≠ t) (w : Callout ι) : SameTask t w (setEnqueued w e) := by
  unfold Callout.setEnqueued
  split_ifs
  · exact (setState h _ _).trans (modTask h _ _)
  · exact refl t w

theorem submitPut (h : e ≠ t) {now initialDelay : Chrono} {r : Result}
    (hw : submitPut w e initialDelay now = some (w₁, r)) : SameTask t w w₁ := by
  have hurgent : SameTask t w (putUrgent w e) := ⟨rfl, rfl, by simp [putUrgent, h], rfl, rfl⟩
  have hidle : SameTask t w (putIdle w e) := ⟨rfl, rfl, rfl, by simp [putIdle, h], rfl⟩
  unfold Callout.submitPut at hw
  have hsched := doSched h w now
  generalize Callout.doSched w e now = p at hw hsched
  obtain ⟨w', next⟩ := p
  dsimp only at hw hsched
  split_ifs at hw <;> cases hw
  · exact hurgent.trans (setEnqueued h _)
  · exact hsched.trans (setEnqueued h _)
  · exact hsched
  · exact hidle.trans (setEnqueued h _)

theorem stampTask (h : e ≠ t) (w : Callout ι) (start : Chrono) :
    SameTask t w (stampTask w e start) := by
  unfold Callout.stampTask
  split_ifs
  · exact (setState h _ _).trans (modTask h _ _)
  · exact modTask h _ _

/-- The head of the timed queue is another task. -/
theorem takeHead (h : e ≠ t) (w : Callout ι) : SameTask t w (takeHead w e) := by
  have herase : SameTask t w (w.setChronoTskQ (w.chronoTskQ.erase e)) :=
    setChronoTskQ (List.count_erase_of_ne h.symm)
  exact herase.trans ((setState h _ .dequeued).trans (modTask h _ fun x =>
    { x with isInTimedQ := false }))

end SameTask

/-! ## Tasks that are due -/

/-- The task after the scheduler took it out of the timed queue. -/
def takenOut (x : Task) : Task := { x with status := .dequeued, isInTimedQ := false }

/-- What `takeRunnables` does to the task `t`: it leaves it, or takes it out with its time come. -/
inductive Taken (t : ι) (theAbstime : Chrono) (w w' : Callout ι) (tasks : List ι) : Prop
  | left (same : SameTask t w w') (not_mem : tasks.count t = 0)
  | out (due : (w.task t).nextAbstime ≤ theAbstime) (task : w'.task t = takenOut (w.task t))
      (tskTbl : w'.tskTbl t = some .dequeued)
      (urgent : w'.urgentTskQ.count t = w.urgentTskQ.count t)
      (idle : w'.idleTskQ.count t = w.idleTskQ.count t)
      (timed : w.chronoTskQ.count t = w'.chronoTskQ.count t + tasks.count t)
      (mem : 0 < tasks.count t)

theorem takeHead_taken {t : ι} {w : Callout ι} {q : List ι} (hq : w.chronoTskQ = t :: q) :
    (takeHead w t).task t = takenOut (w.task t) ∧ (takeHead w t).tskTbl t = some .dequeued ∧
      (takeHead w t).urgentTskQ = w.urgentTskQ ∧ (takeHead w t).idleTskQ = w.idleTskQ ∧
      (takeHead w t).chronoTskQ = q := by
  unfold takeHead
  refine ⟨by simp [takenOut], by simp [setState, setStateInTable, modTask], rfl, rfl, ?_⟩
  simp [hq]

theorem getRunnables_eq (w : Callout ι) (baseAbstime : Chrono) (n : Nat) :
    getRunnables w baseAbstime n =
      ((takeRunnables (i64 (baseAbstime + calloutTaskSchedJitter)) n w).1,
        (takeRunnables (i64 (baseAbstime + calloutTaskSchedJitter)) n w).2,
        (takeRunnables (i64 (baseAbstime + calloutTaskSchedJitter)) n w).1.peekCurrentWakeupTime) :=
  rfl

theorem takeRunnables_taken (t : ι) (theAbstime : Chrono) (n : Nat) (w : Callout ι)
    (hone : w.chronoTskQ.count t ≤ 1) :
    Taken t theAbstime w (takeRunnables theAbstime n w).1 (takeRunnables theAbstime n w).2 := by
  induction n generalizing w with
  | zero => exact .left (SameTask.refl t w) rfl
  | succ n ih =>
    unfold takeRunnables
    split
    · exact .left (SameTask.refl t w) rfl
    · rename_i e q hq
      split_ifs with hdue
      · by_cases het : e = t
        · subst het
          obtain ⟨htask, htbl, hurgent, hidle, htimed⟩ := takeHead_taken hq
          rw [hq, List.count_cons_self] at hone
          have hzero : (takeHead w e).chronoTskQ.count e = 0 := by
            rw [htimed]
            omega
          rcases ih (takeHead w e) (by omega) with ⟨hsame, hnot⟩ | ⟨-, -, -, -, -, htimed', hmem⟩
          · refine .out hdue (hsame.task.trans htask) (hsame.tskTbl.trans htbl) ?_ ?_ ?_ ?_
            · rw [hsame.urgent, hurgent]
            · rw [hsame.idle, hidle]
            · simp only [hsame.timed, htimed, hq, List.count_cons_self, hnot]
            · simp
          · omega
        · have hsame := SameTask.takeHead het w
          rcases ih (takeHead w e) (by rw [hsame.timed]; exact hone) with
            ⟨hsame', hnot⟩ | ⟨hdue', htask, htbl, hurgent, hidle, htimed, hmem⟩
          · exact .left (hsame.trans hsame') (by simp [het, hnot])
          · refine .out (hsame.task ▸ hdue') (hsame.task ▸ htask) htbl (hurgent.trans hsame.urgent)
              (hidle.trans hsame.idle) ?_ ?_
            · rw [← hsame.timed, htimed]
              simp [het]
            · simpa [het] using hmem
      · exact .left (SameTask.refl t w) rfl

end Callout
end Gallus
