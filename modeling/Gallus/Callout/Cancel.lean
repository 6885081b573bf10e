import Gallus.Callout.Due
import Mathlib.Data.Fintype.Basic

/-!
# The two state words of a task

What the steps do to the state word in the table, to the one in the record and to the counters of
a task, and what follows for the re-check of an executor.

* `Touched`: the two state words are left alone or written together, and the counters are left
  alone. This is all that the main loop and the workers do to a task (`batchStep_aside`).
* `StatesAgree`: no executor finds the two state words different, if nobody writes one of them
  alone while the executor is between its look-up and its re-check (`never_mismatch`).
* `mismatch_cancelledTooLate`: a cancellation that meets the scheduler.
-/

namespace Gallus
namespace Callout

variable {ι θ : Type} [DecidableEq ι] [DecidableEq θ]

/-! ## The state words and the counters -/

/-- The state word in the table and the one in the record are left alone, or written together. -/
def Written (t : ι) (w w' : Callout ι) : Prop :=
  w'.tskTbl t = w.tskTbl t ∧ (w'.task t).status = (w.task t).status ∨
    ∃ st, w'.tskTbl t = some st ∧ (w'.task t).status = st

/-- What a function that does not count itself does to a task. -/
structure Touched (t : ι) (w w' : Callout ι) : Prop where
  written : Written t w w'
  exec : (w'.task t).execRefCount = (w.task t).execRefCount
  cancel : (w'.task t).cancelRefCount = (w.task t).cancelRefCount

variable {t e : ι} {w w' w₁ : Callout ι}

omit [DecidableEq ι] in
theorem Written.refl (t : ι) (w : Callout ι) : Written t w w := .inl ⟨rfl, rfl⟩

namespace Touched

omit [DecidableEq ι] in
theorem refl (t : ι) (w : Callout ι) : Touched t w w := ⟨.refl t w, rfl, rfl⟩

omit [DecidableEq ι] in
theorem trans (h : Touched t w w₁) (h' : Touched t w₁ w') : Touched t w w' := by
  refine ⟨?_, h'.exec.trans h.exec, h'.cancel.trans h.cancel⟩
  rcases h'.written with ⟨htbl', hstatus'⟩ | hboth
  · rcases h.written with ⟨htbl, hstatus⟩ | ⟨st, htbl, hstatus⟩
    · exact .inl ⟨htbl'.trans htbl, hstatus'.trans hstatus⟩
    · exact .inr ⟨st, htbl'.trans htbl, hstatus'.trans hstatus⟩
  · exact .inr hboth

theorem of_same (h : SameTask t w w') : Touched t w w' :=
  ⟨.inl ⟨h.tskTbl, by rw [h.task]⟩, by rw [h.task], by rw [h.task]⟩

theorem setState (t : ι) (w : Callout ι) (st : TaskState) : Touched t w (w.setState t st) :=
  ⟨.inr ⟨st, by simp [Callout.setState, setStateInTable, modTask], by simp⟩, by simp, by simp⟩

/-- A write to other fields of the record. -/
theorem modTask (t : ι) (w : Callout ι) {f : Task → Task} (hf : ∀ x, (f x).status = x.status ∧
    (f x).execRefCount = x.execRefCount ∧ (f x).cancelRefCount = x.cancelRefCount) :
    Touched t w (w.modTask t f) := by
  obtain ⟨hstatus, hexec, hcancel⟩ := hf (w.task t)
  exact ⟨.inl ⟨rfl, by simpa using hstatus⟩, by simpa using hexec, by simpa using hcancel⟩

/-- The same, of the record of any task. -/
theorem modAny (t e : ι) (w : Callout ι) {f : Task → Task} (hf : ∀ x, (f x).status = x.status ∧
    (f x).execRefCount = x.execRefCount ∧ (f x).cancelRefCount = x.cancelRefCount) :
    Touched t w (w.modTask e f) := by
  by_cases he : e = t
  · subst he
    exact modTask e w hf
  · exact of_same (.modTask he w f)

theorem setAny (t e : ι) (w : Callout ι) (st : TaskState) : Touched t w (w.setState e st) := by
  by_cases he : e = t
  · subst he
    exact setState e w st
  · exact of_same (.setState he w st)

theorem takeHead (t e : ι) (w : Callout ι) : Touched t w (takeHead w e) := by
  by_cases he : e = t
  · subst he
    have herase : Touched e w (w.setChronoTskQ (w.chronoTskQ.erase e)) :=
      ⟨.inl ⟨rfl, rfl⟩, rfl, rfl⟩
    exact (herase.trans (setState e _ .dequeued)).trans
      (modTask e _ (f := fun x => { x with isInTimedQ := false }) fun _ => ⟨rfl, rfl, rfl⟩)
  · exact of_same (.takeHead he w)

theorem takeRunnables (t : ι) (theAbstime : Chrono) (n : Nat) (w : Callout ι) :
    Touched t w (takeRunnables theAbstime n w).1 := by
  induction n generalizing w with
  | zero => exact refl t w
  | succ n ih =>
    unfold Callout.takeRunnables
    split
    · exact refl t w
    · rename_i e q _
      split_ifs
      · exact (takeHead t e w).trans (ih _)
      · exact refl t w

theorem stampTask (t e : ι) (w : Callout ι) (start : Chrono) :
    Touched t w (stampTask w e start) := by
  by_cases he : e = t
  · subst he
    unfold Callout.stampTask
    split_ifs
    · exact (setState e w .dequeued).trans (modTask e _ fun _ => ⟨rfl, rfl, rfl⟩)
    · exact modTask e w fun _ => ⟨rfl, rfl, rfl⟩
  · exact of_same (.stampTask he w start)

theorem doSched (t : ι) (w : Callout ι) (now : Chrono) : Touched t w (doSched w t now).1 := by
  by_cases hf : w.flag t = false
  · obtain ⟨hs, -⟩ := doSched_sched now hf
    have htbl : (Callout.doSched w t now).1.tskTbl t = some .enqueued := by simp [hs.tskTbl]
    refine ⟨.inr ⟨.enqueued, htbl, ?_⟩, ?_, ?_⟩
    · simp [hs.task_self, scheduled]
    · simp only [hs.task_self, scheduled, computeNext]
      split_ifs <;> rfl
    · simp only [hs.task_self, scheduled, computeNext]
      split_ifs <;> rfl
  · rw [doSched_of_not w now hf]
    exact refl t w

theorem doUnsched (t : ι) (w : Callout ι) : Touched t w (doUnsched w t) := by
  by_cases hf : w.flag t = true
  · have hs := doUnsched_unsched hf
    refine ⟨?_, ?_, ?_⟩
    · by_cases hst : (w.task t).status = .enqueued
      · exact .inr ⟨.dequeued, by rw [hs.tskTbl_self, if_pos hst], by rw [hs.task_self, if_pos hst]⟩
      · exact .inl ⟨by rw [hs.tskTbl_self, if_neg hst], by rw [hs.task_self, if_neg hst]⟩
    · rw [hs.task_self]
      split_ifs <;> rfl
    · rw [hs.task_self]
      split_ifs <;> rfl
  · rw [doUnsched_of_not w hf]
    exact refl t w

theorem setEnqueued (t : ι) (w : Callout ι) : Touched t w (setEnqueued w t) := by
  unfold Callout.setEnqueued
  split_ifs
  · exact (setState t w .enqueued).trans (modTask t _ fun _ => ⟨rfl, rfl, rfl⟩)
  · exact refl t w

theorem submitFields (t : ι) (w : Callout ι) (initialDelay interval : Chrono) :
    Touched t w (submitFields w t initialDelay interval) := by
  refine modTask t w fun x => ?_
  split_ifs <;> exact ⟨rfl, rfl, rfl⟩

theorem submitPut {initialDelay now : Chrono} {r : Result}
    (h : submitPut w t initialDelay now = some (w', r)) : Touched t w w' := by
  have hsched := doSched t w now
  unfold Callout.submitPut at h
  generalize Callout.doSched w t now = d at h hsched
  obtain ⟨w₂, next⟩ := d
  dsimp only at h hsched
  have hurgent : Touched t w (putUrgent w t) := ⟨.inl ⟨rfl, rfl⟩, rfl, rfl⟩
  have hidle : Touched t w (putIdle w t) := ⟨.inl ⟨rfl, rfl⟩, rfl, rfl⟩
  split_ifs at h <;> cases h
  · exact hurgent.trans (setEnqueued t _)
  · exact hsched.trans (setEnqueued t _)
  · exact hsched
  · exact hidle.trans (setEnqueued t _)

end Touched

/-- What a step that is not about the task does to it. -/
structure Aside (t : ι) (s s' : System ι θ) : Prop where
  touched : Touched t s.w s'.w
  condTask : s'.condTask t = s.condTask t
  created : (s'.hist t).created = (s.hist t).created

variable {s s' s₁ : System ι θ} {th : θ} {now : Chrono} {f : Frame ι} {fs gs : List (Frame ι)}

omit [DecidableEq θ] in
theorem Aside.of_same (h : SameSystem t s s') : Aside t s s' :=
  ⟨.of_same h.w, h.condTask, congrArg History.created h.hist⟩

omit [DecidableEq ι] [DecidableEq θ] in
theorem Aside.world (h : Touched t s.w w) : Aside t s { s with w } := ⟨h, rfl, rfl⟩

omit [DecidableEq θ] in
theorem execBegin_touched (t : ι) (th : θ) (s : System ι θ) :
    Touched t s.w (execBegin s th t).w :=
  (Touched.setState t s.w .executing).trans
    (.modTask t _ (f := fun x => { x with isFirst := false }) fun _ => ⟨rfl, rfl, rfl⟩)

omit [DecidableEq θ] in
/-- A re-submission leaves the executor with one of two ends. -/
theorem execResched_eq (h : execResched s t now = (s', gs)) :
    s'.w = (doSched s.w t now).1 ∧ s'.condTask = s.condTask ∧
      (s'.hist t).created = (s.hist t).created ∧
      (gs = [.exec t .leave] ∨ gs = [.exec t .readCancelDelete]) := by
  have hs : s' = (execResched s t now).1 := by rw [h]
  have hgs : gs = [.exec t (if 0 ≤ (doSched s.w t now).2 then .leave else .readCancelDelete)] := by
    rw [show gs = (execResched s t now).2 by rw [h]]
    rfl
  refine ⟨hs ▸ rfl, hs ▸ rfl, ?_, ?_⟩
  · rw [hs]
    simp [execResched, System.note]
  · rw [hgs]
    split_ifs
    · exact .inl rfl
    · exact .inr rfl

omit [DecidableEq ι] [DecidableEq θ] in
theorem finalTaskSched_about (s : System ι θ) (start : Chrono) (tasks : List ι) :
    (finalTaskSched s start tasks).about = none := by
  unfold finalTaskSched
  split_ifs <;> rfl

/-- A step of the main loop or of a worker. -/
theorem batchStep_aside (hf : f.about = none) (hr : frameStep s th now f = some (s', gs)) :
    Aside t s s' ∧ ∀ g ∈ gs, g.about = some t → g = .exec t .check := by
  have hfinal : ∀ {s : System ι θ} {start : Chrono} {tasks : List ι},
      ∀ g ∈ fetchTimedStep.runBatch start s tasks, g.about = some t → g = .exec t .check := by
    intro s start tasks
    unfold fetchTimedStep.runBatch
    split_ifs <;> simp [finalTaskSched_about]
  cases f <;> simp only [Frame.about, reduceCtorEq] at hf <;> simp only [frameStep] at hr
  case fetch start =>
    unfold fetchStep at hr
    split_ifs at hr
    cases hr
    exact ⟨.world ⟨.inl ⟨rfl, rfl⟩, rfl, rfl⟩, by simp [Frame.about]⟩
  case fetchTimed start urgentTasks idleTasks =>
    unfold fetchTimedStep at hr
    split_ifs at hr
    · have htouch := Touched.takeRunnables t (i64 (start + calloutTaskSchedJitter)) calloutTaskMax
        s.w
      rw [getRunnables_eq] at hr
      generalize takeRunnables (i64 (start + calloutTaskSchedJitter)) calloutTaskMax s.w = d
        at hr htouch
      obtain ⟨w, tasks⟩ := d
      dsimp only at hr htouch
      split_ifs at hr
      cases hr
      refine ⟨⟨htouch, rfl, ?_⟩, hfinal⟩
      dsimp only
      split_ifs <;> rfl
    · cases hr
      exact ⟨.of_same (.refl t s), hfinal⟩
  case runTasksBySelf start tasks =>
    cases tasks with
    | nil =>
      cases hr
      exact ⟨.of_same (.refl t s), by simp⟩
    | cons e tasks =>
      simp only [runTasksBySelfStep] at hr
      split_ifs at hr
      cases hr
      refine ⟨.world (.stampTask t e s.w start), ?_⟩
      simp +contextual [Frame.about]
  case stamp start todo stamped =>
    cases todo with
    | nil =>
      cases hr
      exact ⟨.of_same (.refl t s), by simp [Frame.about]⟩
    | cons e todo =>
      simp only [stampStep] at hr
      split_ifs at hr
      cases hr
      exact ⟨.world (.stampTask t e s.w start), by simp [Frame.about]⟩
  case put stride q left tasks =>
    unfold putStep at hr
    split_ifs at hr
    · cases hr
      exact ⟨.of_same (.refl t s), by simp⟩
    · cases hr
      exact ⟨.of_same (.refl t s), by simp [Frame.about]⟩
    · split at hr
      · contradiction
      · dsimp only at hr
        split_ifs at hr <;> cases hr <;>
          exact ⟨⟨.refl t s.w, rfl, rfl⟩, by simp [Frame.about]⟩
  case worker tasks =>
    cases tasks with
    | nil =>
      cases hr
      exact ⟨.of_same (.refl t s), by simp⟩
    | cons e tasks =>
      cases hr
      refine ⟨.of_same (.refl t s), ?_⟩
      simp +contextual [Frame.about]

/-- A step of a call that is not about the task. -/
theorem frameStep_aside (hf : f.about ≠ some t) (hr : frameStep s th now f = some (s', gs)) :
    Aside t s s' ∧ ∀ g ∈ gs, g.about = some t → g = .exec t .check := by
  cases ha : f.about with
  | none => exact batchStep_aside ha hr
  | some e =>
    have he : e ≠ t := fun het => hf (het ▸ ha)
    have hforeign := frameStep_foreign ha he hr
    exact ⟨.of_same hforeign.same, fun g hg hga => absurd hga (hforeign.about g hg)⟩

/-! ## The re-check of an executor -/

/-- An executor between its look-up and its re-check. -/
def Frame.rechecks (t : ι) : Frame ι → Bool
  | .exec e .count | .exec e .recheck => e = t
  | _ => false

/-- The next step of the call writes one of the two state words alone. -/
def Frame.writesAlone (t : ι) (w : Callout ι) : Frame ι → Bool
  | .destroy e _ .setTable => e = t && (w.task t).status ≠ .cancelled
  | .destroy e _ .delete => e = t && (w.task t).status ≠ .deleting
  | _ => false

/-- Nobody writes one of the state words alone while an executor is on its way to the re-check. -/
def leavesRecheck (t : ι) (s : System ι θ) (e : Event ι θ) : Prop :=
  ∀ f ∈ running s e, f.writesAlone t s.w = true → ∀ th, ∀ g ∈ s.stack th, g.rechecks t = false

/-- The two state words of a task agree, as far as the executors depend on it. -/
structure StatesAgree (t : ι) (s : System ι θ) : Prop where
  table : ∀ st, s.w.tskTbl t = some st → st ≠ .cancelled → (s.w.task t).status = st
  exec : ∀ th, ∀ f ∈ s.stack th, f.rechecks t = true →
    s.w.getStateInTable t = (s.w.task t).status

theorem submitStep_written {initialDelay interval : Chrono} {q : SubmitPoint}
    (hr : submitStep s th e initialDelay interval now q = some (s', gs)) :
    Written e s.w s'.w ∧ ∀ g ∈ gs, g.rechecks e = false := by
  have hlocked : ∀ s₁ : System ι θ, Touched e s.w s₁.w →
      submitLocked s₁ th e initialDelay interval now = (s', gs) →
      Written e s.w s'.w ∧ ∀ g ∈ gs, g.rechecks e = false := by
    intro s₁ hs₁ hl
    unfold submitLocked at hl
    split at hl
    · rename_i w r hw
      cases hl
      exact ⟨(hs₁.trans (.submitPut hw)).written, by simp⟩
    · cases hl
      exact ⟨hs₁.written, by simp [Frame.rechecks]⟩
  cases q <;> simp only [submitStep] at hr
  case check =>
    split_ifs at hr <;> cases hr
    · exact ⟨.refl e s.w, by simp [Frame.rechecks]⟩
    · exact ⟨.refl e s.w, by simp⟩
    · exact ⟨.refl e s.w, by simp⟩
    · exact ⟨.refl e s.w, by simp⟩
  case lock =>
    split_ifs at hr
    exact hlocked _ (.submitFields e s.w initialDelay interval) (Option.some.inj hr)
  case blocked => exact hlocked s (.refl e s.w) (Option.some.inj hr)

theorem cancelStep_written {q : CancelPoint} (hr : cancelStep s th e q = some (s', gs)) :
    Written e s.w s'.w ∧ ∀ g ∈ gs, g.rechecks e = false := by
  have hset : Written e s.w (setCancelled s e).w := (Touched.setState e s.w .cancelled).written
  cases q <;> simp only [cancelStep] at hr
  case asleep => contradiction
  case count =>
    cases hr
    exact ⟨.inl ⟨rfl, by simp [addCancel, System.modTask]⟩, by simp [Frame.rechecks]⟩
  case uncount =>
    cases hr
    refine ⟨.inl ⟨rfl, by simp [addCancel, System.modTask]⟩, ?_⟩
    split_ifs <;> simp [Frame.rechecks]
  case mark st =>
    split_ifs at hr <;> cases hr
    · exact ⟨.inl ⟨rfl, rfl⟩, by simp [Frame.rechecks]⟩
    · exact ⟨hset, by simp⟩
  all_goals
    split_ifs at hr <;> cases hr
    all_goals exact ⟨.refl e s.w, by simp [Frame.rechecks]⟩

/-- An executor comes to the re-check only from a look-up that finds the task dequeued. -/
theorem execStep_written {q : ExecPoint} (hr : execStep s th e now q = some (s', gs)) :
    Written e s.w s'.w ∧
      ∀ g ∈ gs, g.rechecks e = true →
        (Frame.exec e q).rechecks e = true ∨ s.w.tskTbl e = some .dequeued ∧ s'.w = s.w := by
  have hcount : ∀ d, Written e s.w (addExec s e d).w := fun d =>
    .inl ⟨rfl, by simp [addExec, System.modTask]⟩
  have hother : ∀ st, ∀ g ∈ notTheDequeuedState e st, g.rechecks e = false := by
    intro st
    unfold notTheDequeuedState
    split <;> simp [Frame.rechecks]
  cases q <;> simp only [execStep] at hr
  case check =>
    split_ifs at hr with hst <;> cases hr
    · refine ⟨.refl e s.w, fun g hg _ => .inr ⟨?_, rfl⟩⟩
      unfold getStateInTable at hst
      cases htbl : s.w.tskTbl e <;> simp_all
    · exact ⟨.refl e s.w, fun g hg hre => absurd hre (by simp [hother _ g hg])⟩
  case count =>
    cases hr
    exact ⟨hcount 1, fun _ _ _ => .inl (by simp [Frame.rechecks])⟩
  case recheck =>
    split_ifs at hr <;> cases hr
    · exact ⟨(execBegin_touched e th s).written, by simp [Frame.rechecks]⟩
    · exact ⟨.refl e s.w, fun _ _ _ => .inl (by simp [Frame.rechecks])⟩
  case body => contradiction
  case resched =>
    split_ifs at hr
    obtain ⟨hw, -, -, hgs⟩ := execResched_eq (Option.some.inj hr)
    refine ⟨hw ▸ (Touched.doSched e s.w now).written, ?_⟩
    rcases hgs with rfl | rfl <;> simp [Frame.rechecks]
  case leave =>
    cases hr
    exact ⟨hcount (-1), by simp⟩
  case leaveDelete =>
    cases hr
    exact ⟨hcount (-1), by simp [Frame.rechecks]⟩
  case lockDelete =>
    split_ifs at hr
    cases hr
    exact ⟨.refl e s.w, by simp [Frame.rechecks]⟩
  case wakeup =>
    split_ifs at hr
    cases hr
    exact ⟨hcount (-1), by simp⟩
  all_goals
    cases hr
    refine ⟨.refl e s.w, ?_⟩
    split_ifs <;> simp [Frame.rechecks]

theorem destroyStep_written {unlock : Bool} {q : DestroyPoint}
    (hf : (Frame.destroy e unlock q).writesAlone e s.w = false)
    (hr : destroyStep s th e unlock q = some (s', gs)) :
    Written e s.w s'.w ∧ ∀ g ∈ gs, g.rechecks e = false := by
  cases q <;> simp only [destroyStep] at hr
  case unsched =>
    split_ifs at hr
    cases hr
    exact ⟨(Touched.doUnsched e s.w).written, by simp [Frame.rechecks]⟩
  case setTable =>
    cases hr
    have hst : (s.w.task e).status = .cancelled := by simpa [Frame.writesAlone] using hf
    exact ⟨.inr ⟨.cancelled, by simp [setStateInTable], hst⟩, by simp [Frame.rechecks]⟩
  case check =>
    split_ifs at hr
    · cases hr
      exact ⟨.refl e s.w, by simp [Frame.rechecks]⟩
    · obtain ⟨⟨o, rfl⟩, rfl⟩ := destroyed_eq (Option.some.inj hr)
      exact ⟨.refl e s.w, by simp⟩
  case delete =>
    have hst : (s.w.task e).status = .deleting := by simpa [Frame.writesAlone] using hf
    have hdid : (deleteLocked s e).2 = false := by simp [deleteLocked, hst]
    have hw : Written e s.w (deleteLocked s e).1.w := by
      refine .inl ⟨?_, ?_⟩ <;> simp [deleteLocked, hst, System.modTask, System.wakeupTask]
      rfl
    generalize deleteLocked s e = d at hr hdid hw
    obtain ⟨s₁, didDelete⟩ := d
    dsimp only at hr hdid hw
    subst hdid
    simp only [Bool.false_eq_true, if_false] at hr
    split_ifs at hr
    obtain ⟨⟨o, rfl⟩, rfl⟩ := destroyed_eq (Option.some.inj hr)
    exact ⟨hw, by simp⟩
  case free =>
    obtain ⟨⟨o, rfl⟩, rfl⟩ := destroyed_eq (Option.some.inj hr)
    exact ⟨.refl e s.w, by simp⟩

theorem forceStep_written {q : ForcePoint} (hr : forceStep s th e now q = some (s', gs)) :
    Written e s.w s'.w ∧ ∀ g ∈ gs, g.rechecks e = false := by
  cases q <;> simp only [forceStep] at hr
  case lock =>
    split_ifs at hr <;> cases hr
    · exact ⟨((Touched.doUnsched e s.w).trans (.setState e _ .dequeued)).written,
        by simp [Frame.rechecks]⟩
    all_goals exact ⟨.refl e s.w, by simp⟩
  case check =>
    split_ifs at hr <;> cases hr
    all_goals exact ⟨.refl e s.w, by simp [Frame.rechecks]⟩
  case run =>
    cases hr
    refine ⟨.refl e s.w, fun g hg => Bool.eq_false_iff.mpr fun hre => ?_⟩
    have habout := finalTaskSched_about s now [e]
    rw [← List.mem_singleton.mp hg] at habout
    cases g <;> simp [Frame.rechecks, Frame.about] at hre habout

/-- A step of a call on the task, unless it writes one of the state words alone. -/
theorem ownStep_written (ha : f.about = some t) (hf : f.writesAlone t s.w = false)
    (hr : frameStep s th now f = some (s', gs)) :
    Written t s.w s'.w ∧
      ∀ g ∈ gs, g.rechecks t = true →
        f.rechecks t = true ∨ s.w.tskTbl t = some .dequeued ∧ s'.w = s.w := by
  have hnever : (Written t s.w s'.w ∧ ∀ g ∈ gs, g.rechecks t = false) →
      Written t s.w s'.w ∧ ∀ g ∈ gs, g.rechecks t = true →
        f.rechecks t = true ∨ s.w.tskTbl t = some .dequeued ∧ s'.w = s.w :=
    fun ⟨hw, hgs⟩ => ⟨hw, fun g hg hre => absurd hre (by simp [hgs g hg])⟩
  cases f <;> simp only [Frame.about, Option.some.injEq, reduceCtorEq] at ha <;> subst ha
  case submit e initialDelay interval q => exact hnever (submitStep_written hr)
  case cancel e q => exact hnever (cancelStep_written hr)
  case exec e q => exact execStep_written hr
  case destroy e unlock q => exact hnever (destroyStep_written hf hr)
  case force e q => exact hnever (forceStep_written hr)

/-- A write to one of the state words alone leaves `CANCELLED` in the table, or no entry. -/
theorem ownStep_alone (hf : f.writesAlone t s.w = true)
    (hr : frameStep s th now f = some (s', gs)) :
    (s'.w.tskTbl t = some .cancelled ∨ s'.w.tskTbl t = none) ∧ ∀ g ∈ gs, g.rechecks t = false := by
  cases f <;> simp only [Frame.writesAlone, Bool.false_eq_true] at hf
  rename_i e unlock q
  cases q <;> simp only [Bool.and_eq_true, decide_eq_true_eq, Bool.false_eq_true] at hf
  · obtain ⟨rfl, -⟩ := hf
    cases hr
    exact ⟨.inl (by simp [setStateInTable]), by simp [Frame.rechecks]⟩
  · obtain ⟨rfl, hst⟩ := hf
    simp only [frameStep, destroyStep] at hr
    have htbl : (deleteLocked s e).1.w.tskTbl e = none := by
      simp [deleteLocked, hst, System.modTask, System.wakeupTask, System.note, modTask,
        deleteInTable]
    have hdid : (deleteLocked s e).2 = true := by simp [deleteLocked, hst]
    generalize deleteLocked s e = d at hr hdid htbl
    obtain ⟨s₁, didDelete⟩ := d
    dsimp only at hr hdid htbl
    subst hdid
    simp only [if_true] at hr
    split_ifs at hr
    cases hr
    exact ⟨.inr htbl, by simp [Frame.rechecks]⟩

/-- What a step has to show. -/
theorem StatesAgree.after (h : StatesAgree t s) (hw : Written t s.w s'.w)
    (hgs : ∀ g ∈ gs, g.rechecks t = true → (∃ th, ∃ f ∈ s.stack th, f.rechecks t = true) ∨
      s.w.tskTbl t = some .dequeued ∧ s'.w = s.w)
    (hfs : ∀ g ∈ fs, g ∈ s.stack th) : StatesAgree t (s.after s' th now (gs ++ fs)) := by
  have hagree : s.w.getStateInTable t = (s.w.task t).status →
      s'.w.getStateInTable t = (s'.w.task t).status := by
    intro hold
    unfold getStateInTable at hold ⊢
    rcases hw with ⟨htbl, hstatus⟩ | ⟨st, htbl, hstatus⟩
    · rw [htbl, hstatus, hold]
    · rw [htbl, hstatus]
      rfl
  refine ⟨?_, ?_⟩
  · intro st hst hne
    rcases hw with ⟨htbl, hstatus⟩ | ⟨st', htbl, hstatus⟩
    · exact hstatus.trans (h.table st (htbl ▸ hst) hne)
    · have heq : st' = st := Option.some.inj (htbl.symm.trans hst)
      exact heq ▸ hstatus
  · refine mem_after (fun g hg hre => ?_) fun th' g hg hre => hagree (h.exec th' g hg hre)
    rcases List.mem_append.mp hg with hg | hg
    · rcases hgs g hg hre with ⟨th', f, hf, hfre⟩ | ⟨htbl, hsame⟩
      · exact hagree (h.exec th' f hf hfre)
      · apply hagree
        rw [h.table _ htbl (by simp), getStateInTable, htbl]
        rfl
    · exact hagree (h.exec th g (hfs g hg) hre)

theorem Frame.about_of_rechecks {g : Frame ι} (h : g.rechecks t = true) : g.about = some t := by
  cases g with
  | exec e q =>
    cases q with
    | count | recheck => exact congrArg some (of_decide_eq_true h)
    | _ => cases h
  | _ => cases h

theorem frameStep_agree (h : StatesAgree t s) (hs : s.stack th = f :: fs)
    (hok : f.writesAlone t s.w = true → ∀ th, ∀ g ∈ s.stack th, g.rechecks t = false)
    (hr : frameStep s th now f = some (s', gs)) : StatesAgree t (s.after s' th now (gs ++ fs)) := by
  have hfs : ∀ g ∈ fs, g ∈ s.stack th := fun g hg => hs ▸ List.mem_cons_of_mem _ hg
  by_cases ha : f.about = some t
  · cases halone : f.writesAlone t s.w with
    | true =>
      obtain ⟨htbl, hgs⟩ := ownStep_alone halone hr
      have hnone : ∀ th', ∀ g ∈ (s.after s' th now (gs ++ fs)).stack th', g.rechecks t = false := by
        refine mem_after (fun g hg => ?_) (hok halone)
        rcases List.mem_append.mp hg with hg | hg
        · exact hgs g hg
        · exact hok halone th g (hfs g hg)
      refine ⟨fun st hst hne => ?_, fun th' g hg hre => ?_⟩
      · rcases htbl with htbl | htbl
        · exact absurd (Option.some.inj (hst.symm.trans htbl)) hne
        · exact absurd (hst.symm.trans htbl) (by simp)
      · exact absurd hre (by simp [hnone th' g hg])
    | false =>
      obtain ⟨hw, hgs⟩ := ownStep_written ha halone hr
      refine h.after hw (fun g hg hre => ?_) hfs
      exact (hgs g hg hre).imp (fun hf => ⟨th, f, hs ▸ List.mem_cons_self, hf⟩) id
  · obtain ⟨haside, hgs⟩ := frameStep_aside ha hr
    refine h.after haside.touched.written (fun g hg hre => ?_) hfs
    rw [hgs g hg (Frame.about_of_rechecks hre)] at hre
    cases hre

theorem callStep_aside {op : Op ι} (hr : callStep s th now op = some (s', gs)) :
    Written t s.w s'.w ∧ ∀ g ∈ gs, g.rechecks t = false := by
  have hrefl : Written t s.w s.w := .inl ⟨rfl, rfl⟩
  cases op <;> simp only [callStep] at hr
  case create e hasArg hasFreeproc =>
    rw [Option.map_eq_some_iff] at hr
    obtain ⟨s₁, hcreate, heq⟩ := hr
    cases heq
    refine ⟨?_, by simp⟩
    by_cases he : e = t
    · subst he
      unfold createTask at hcreate
      split_ifs at hcreate
      cases hcreate
      exact .inr ⟨.created, by simp [System.note, setStateInTable], by simp [System.note, newTask]⟩
    · exact (Touched.of_same (createTask_foreign he hcreate).w).written
  case resetInterval e interval =>
    split_ifs at hr
    rw [Option.map_eq_some_iff] at hr
    obtain ⟨s₁, hreset, heq⟩ := hr
    cases heq
    unfold resetInterval at hreset
    split_ifs at hreset <;> cases hreset
    · have hany := Touched.modAny t e s.w (f := fun x => { x with intervalTime := interval })
        fun _ => ⟨rfl, rfl, rfl⟩
      exact ⟨hany.written, by simp⟩
    · exact ⟨hrefl, by simp⟩
    · exact ⟨hrefl, by simp⟩
  all_goals
    split_ifs at hr
    cases hr
    exact ⟨hrefl, by simp [Frame.rechecks]⟩

/-- A step keeps the state words in agreement. -/
theorem StatesAgree.step {e : Event ι θ} (h : StatesAgree t s) (hok : leavesRecheck t s e)
    (hstep : step s e = some s') : StatesAgree t s' := by
  cases step_cases hstep with
  | call hact hr =>
    obtain ⟨hw, hgs⟩ := callStep_aside (t := t) hr
    exact h.after hw (fun g hg hre => absurd hre (by simp [hgs g hg])) fun _ => id
  | go hact hs hr =>
    rename_i f fs gs s₁
    exact frameStep_agree h hs (hok f (by simp [running, hact, hs])) hr
  | finish hact hs =>
    rename_i e' r fs
    have hw : Written t s.w (execEnd s e' r).1.w ∧
        ∀ g ∈ (execEnd s e' r).2, g.rechecks t = false := by
      unfold execEnd
      split_ifs
      · exact ⟨.inl ⟨rfl, rfl⟩, by simp [Frame.rechecks]⟩
      · exact ⟨(Touched.setAny t e' s.w .execFailed).written, by simp [Frame.rechecks]⟩
    exact h.after hw.1 (fun g hg hre => absurd hre (by simp [hw.2 g hg])) fun g hg =>
      hs ▸ List.mem_cons_of_mem _ hg
  | wake hact hs hwoken =>
    refine h.after (.inl ⟨rfl, rfl⟩) ?_ fun g hg => hs ▸ List.mem_cons_of_mem _ hg
    simp [Frame.rechecks]

omit [DecidableEq θ] in
theorem StatesAgree.init (t : ι) (clock : Chrono) (mainLoop : θ) (workers : List θ) :
    StatesAgree t (System.init clock mainLoop workers : System ι θ) :=
  ⟨nofun, fun _ _ hf => absurd hf List.not_mem_nil⟩

/-- **No mismatch.** If nobody writes one of the two state words of a task alone while an executor
is on its way to the re-check, then an executor at the re-check finds them equal. -/
theorem never_mismatch {t : ι} {clock : Chrono} {mainLoop : θ} {workers : List θ}
    {es : List (Event ι θ)} {s : System ι θ}
    (h : Trans.Run step (leavesRecheck t) (System.init clock mainLoop workers) es s)
    {th : θ} {fs : List (Frame ι)} (hs : s.stack th = .exec t .recheck :: fs) :
    s.w.getStateInTable t = (s.w.task t).status := by
  have hinv : StatesAgree t s := h.inv (fun s e s' hs hok hstep => hs.step hok hstep)
    (.init t clock mainLoop workers)
  exact hinv.exec th _ (hs ▸ List.mem_cons_self) (by simp [Frame.rechecks])

instance [Fintype θ] (t : ι) (s : System ι θ) (e : Event ι θ) : Decidable (leavesRecheck t s e) :=
  inferInstanceAs (Decidable (∀ f ∈ running s e, f.writesAlone t s.w = true → _))

/-- A timed task is created and submitted, fetched, and executed down to the re-check, with a
canceller that waits. -/
def cancelledInTime : List (Event (Fin 1) (Fin 4)) :=
  [⟨3, 1, .call (.create 0 false false)⟩, ⟨3, 1, .call (.submit 0 10000 0)⟩] ++ steps 3 1 2 ++
    [⟨0, 10001, .call .iterate⟩] ++ steps 0 10001 6 ++ [⟨1, 10001, .call .work⟩] ++
    steps 1 10001 3 ++ [⟨3, 10001, .call (.cancel 0)⟩] ++ steps 3 10001 4

theorem never_mismatch_cancelledInTime :
    ∃ s, Trans.Run step (leavesRecheck 0) (System.init 1 0 [1]) cancelledInTime s ∧
      s.stack 1 = [.exec 0 .recheck, .worker []] ∧ s.stack 3 = [.cancel 0 (.asleep 0)] ∧
      s.w.getStateInTable 0 = (s.w.task 0).status := by
  have h : ((Trans.run (Trans.guarded step (leavesRecheck 0)) (System.init 1 0 [1])
      cancelledInTime).map fun s => (s.stack 1, s.stack 3)) =
      some ([.exec 0 .recheck, .worker []], [.cancel 0 (.asleep 0)]) := by decide +kernel
  obtain ⟨s, hrun, hs⟩ := Option.map_eq_some_iff.mp h
  simp only [Prod.mk.injEq] at hs
  obtain ⟨hstack, hasleep⟩ := hs
  exact ⟨s, .of_guarded hrun, hstack, hasleep, never_mismatch (.of_guarded hrun) hstack⟩

/-- The canceller has found the task in the timed queue, where the scheduler then takes it out. It
writes the state word in the table while the worker is at the re-check. -/
def cancelledTooLate : List (Event (Fin 1) (Fin 4)) :=
  [⟨3, 1, .call (.create 0 false false)⟩, ⟨3, 1, .call (.submit 0 10000 0)⟩] ++ steps 3 1 2 ++
    [⟨3, 10001, .call (.cancel 0)⟩] ++ steps 3 10001 3 ++ [⟨0, 10001, .call .iterate⟩] ++
    steps 0 10001 6 ++ [⟨1, 10001, .call .work⟩] ++ steps 1 10001 3 ++ steps 3 10001 2

theorem mismatch_cancelledTooLate :
    ∃ s, Trans.run step (System.init 1 0 [1]) cancelledTooLate = some s ∧
      s.stack 1 = [.exec 0 .recheck, .worker []] ∧ s.canLock 1 0 = true ∧
      s.w.getStateInTable 0 = .cancelled ∧ (s.w.task 0).status = .dequeued := by
  have h : ((Trans.run step (System.init 1 0 [1]) cancelledTooLate).map fun s =>
        (s.stack 1, s.canLock 1 0, s.w.getStateInTable 0, (s.w.task 0).status)) =
      some ([.exec 0 .recheck, .worker []], true, .cancelled, .dequeued) := by decide +kernel
  obtain ⟨s, hrun, hs⟩ := Option.map_eq_some_iff.mp h
  simp only [Prod.mk.injEq] at hs
  exact ⟨s, hrun, hs⟩

end Callout
end Gallus
