import Gallus.Callout.Owner

/-!
# A task that is not deleted

The other calls, the main loop and the workers, for the invariant of a task that is not deleted.

* `destroyStep_live`, `submitStep_live`, `forceStep_live`, `batchStep_live`: their steps.
* `Untouched`: what a step of a batch does that is without the task.
* `Live.step`: each step but a deletion keeps a task live, if no destruction is given up while no
  other one goes on.
-/

namespace Gallus
namespace Callout

variable {ι θ : Type} [DecidableEq ι] [DecidableEq θ]

variable {t e : ι} {p : Place θ} {s s' s₁ : System ι θ} {th : θ} {now : Chrono}
  {f : Frame ι} {fs gs l : List (Frame ι)}

/-! ## Destructions, submissions, forced executions -/

theorem destroyStep_live {unlock : Bool} {q : DestroyPoint} (h : Live t s)
    (hs : s.stack th = .destroy t unlock q :: fs) (hq : q ≠ .delete)
    (hcheck : q = .check → s.w.getStateInTable t = .cancelled)
    (hfit : Fit t (s.after s' th now (gs ++ fs)))
    (hr : destroyStep s th t unlock q = some (s', gs)) : Live t (s.after s' th now (gs ++ fs)) := by
  have hs' : s.stack th = [.destroy t unlock q] ++ fs := hs
  have hserves := destroyStep_serves hr
  cases q <;> simp only [destroyStep] at hr
  case delete => contradiction
  case unsched =>
    split_ifs at hr
    cases hr
    have htouch := Touched.doUnsched t s.w
    have hwords : (doUnsched s.w t).tskTbl t = s.w.tskTbl t ∧
        ((doUnsched s.w t).task t).status = (s.w.task t).status ∨
        (doUnsched s.w t).tskTbl t = some .dequeued ∧
          ((doUnsched s.w t).task t).status = .dequeued := Dequeues.doUnsched t s.w
    refine h.closing_after hs' ⟨rfl, rfl, rfl, ?_, ?_, ?_, ?_, ?_, ?_, ?_, by simp, hserves⟩ hfit
      (by simp [DestroyPoint.role])
    · rcases hwords with ⟨-, hst⟩ | ⟨-, hst⟩ <;> simp [hst]
    · rcases hwords with ⟨hst, -⟩ | ⟨hst, -⟩ <;> simp [hst]
    · simp [DestroyPoint.role]
    · simp [DestroyPoint.role, htouch.cancel]
    · simp [DestroyPoint.role, htouch.exec, Role.executes]
      omega
    · simp [DestroyPoint.role]
    · rcases hwords with ⟨hst, -⟩ | ⟨hst, -⟩ <;> simp [hst]
  case setTable =>
    cases hr
    refine h.closing_after hs' ⟨rfl, rfl, rfl, id, ?_, ?_, ?_, ?_, ?_, ?_, by simp, hserves⟩ hfit
      (by simp [DestroyPoint.role])
    all_goals simp [DestroyPoint.role, Role.executes, setStateInTable]
    omega
  case check =>
    rw [if_pos (hcheck rfl)] at hr
    cases hr
    refine h.closing_after hs' (.of_same hserves rfl rfl rfl ?_ ?_ ?_ ?_ ?_) hfit
      (by simp [DestroyPoint.role]) <;>
      simp [DestroyPoint.role, Role.executes]
  case free =>
    refine absurd ?_ h.unfreed
    exact .of_top hs' ⟨.frees, by simp [DestroyPoint.role], rfl⟩

/-- The state words are left alone, or both become a state of a task that is submitted. -/
def Rewritten (t : ι) (w w' : Callout ι) : Prop :=
  w'.tskTbl t = w.tskTbl t ∧ (w'.task t).status = (w.task t).status ∨
    ∃ st, st ≠ .deleting ∧ st ≠ .created ∧ w'.tskTbl t = some st ∧ (w'.task t).status = st

omit [DecidableEq ι] in
theorem Dequeues.rewritten {w w' : Callout ι} (h : Dequeues t w w') : Rewritten t w w' :=
  h.imp id fun ⟨htbl, hstatus⟩ => ⟨.dequeued, by simp, by simp, htbl, hstatus⟩

omit [DecidableEq θ] in
/-- The roles are not about the task, and the counters are left alone. -/
theorem Turn.aside (haside : Aside t s s') (hwords : Rewritten t s.w s'.w)
    (hfreed : (s'.hist t).freed = (s.hist t).freed)
    (hdestroyed : (s'.hist t).destroyed = (s.hist t).destroyed)
    (hpopped : ∀ f ∈ l, f.role t = .none) (hgs : ∀ g ∈ gs, g.role t = .none)
    (hserves : Serves t l s s' gs) : Turn t l gs s s' := by
  have hnone : ∀ {P : Role → Bool} {l : List (Frame ι)}, P .none = false →
      (∀ f ∈ l, f.role t = .none) → (roles t l).countP P = 0 := by
    intro P l hP hl
    refine List.countP_eq_zero.mpr fun r hr => ?_
    obtain ⟨f, hf, rfl⟩ := List.mem_map.mp hr
    simp [hl f hf, hP]
  have hmem : ∀ {r : Role} {l : List (Frame ι)}, (∀ f ∈ l, f.role t = .none) → r ∈ roles t l →
      r = .none := by
    intro r l hl hr
    obtain ⟨f, hf, rfl⟩ := List.mem_map.mp hr
    exact hl f hf
  have hcancel : ∀ q, q.role ≠ .none → .cancel t q ∉ gs := fun q hq hg =>
    hq ((role_cancel t q).symm.trans (hgs _ hg))
  refine ⟨haside.created, hfreed, hdestroyed, ?_, ?_, ?_, fun n => ?_, fun n => ?_, ?_, ?_, ?_,
    hserves⟩
  · rcases hwords with ⟨-, hst⟩ | ⟨st, hdel, -, -, hst⟩
    · simp [hst]
    · simp [hst, hdel]
  · rcases hwords with ⟨hst, -⟩ | ⟨st, -, -, hst, -⟩ <;> simp [hst]
  · intro r hr
    rw [hmem hgs hr]
    simp
  · rw [haside.touched.cancel, hnone rfl hpopped, hnone rfl hgs]
    exact id
  · rw [haside.touched.exec, hnone rfl hpopped, hnone rfl hgs]
    exact fun hlo hone => ⟨hlo, hone, .inl⟩
  · intro hd
    have := hmem hpopped hd
    contradiction
  · rcases hwords with ⟨hst, -⟩ | ⟨st, -, hnew, hst, -⟩
    · simp [hst]
    · simp [hst, hnew]
  · exact fun _ st => ⟨fun hg => absurd hg (hcancel _ (by simp [CancelPoint.role])),
      hcancel _ (by simp [CancelPoint.role])⟩

/-- A step without a role keeps the task live, if the task can still be found. -/
theorem Live.aside_after (h : Live t s) (hs : s.stack th = l ++ fs)
    (ht : Turn t l gs s s') (hpopped : ∀ f ∈ l, f.role t = .none)
    (hgs : ∀ g ∈ gs, g.role t = .none)
    (hfit : Fit t (s.after s' th now (gs ++ fs)))
    (htbl : s.w.tskTbl t = some .created → s'.w.tskTbl t = some .created ∨
      Somewhere t (s.after s' th now (gs ++ fs)))
    (hsome : Somewhere t s → Somewhere t (s.after s' th now (gs ++ fs))) :
    Live t (s.after s' th now (gs ++ fs)) := by
  have hmem : ∀ {r : Role} {l : List (Frame ι)}, (∀ f ∈ l, f.role t = .none) → r ∈ roles t l →
      r = .none := by
    intro r l hl hr
    obtain ⟨f, hf, rfl⟩ := List.mem_map.mp hr
    exact hl f hf
  refine h.after hs ht hfit (fun hborn hsub => ?_)
    (h.awake_after hs ht.serves ?_ ?_ (.inl ∘ hsome) ?_)
  · by_cases hc : s.w.tskTbl t = some .created
    · exact .inl ((htbl hc).resolve_left hsub)
    · refine (h.found hborn hc).imp hsome fun hcloses => hcloses.after hs ?_
      rintro ⟨r, hr, hP⟩
      rw [hmem hpopped hr] at hP
      contradiction
  · intro hl
    have := hmem hgs hl
    contradiction
  · intro n hn
    have := hgs _ hn
    simp [CancelPoint.role] at this
  · rintro ⟨r, hr, hP⟩
    rw [hmem hpopped hr] at hP
    contradiction

theorem submitStep_live {initialDelay interval : Chrono} {q : SubmitPoint} (h : Live t s)
    (hp : Placed t p s) (hs : s.stack th = .submit t initialDelay interval q :: fs)
    (hok : q ≠ .check → s.w.tskTbl t = some .created)
    (hfit : Fit t (s.after s' th now (gs ++ fs)))
    (hr : submitStep s th t initialDelay interval now q = some (s', gs)) :
    Live t (s.after s' th now (gs ++ fs)) := by
  have hs' : s.stack th = [.submit t initialDelay interval q] ++ fs := hs
  obtain ⟨haside, hasleep⟩ := submitStep_serves hr
  have hserves : Serves t [.submit t initialDelay interval q] s s' gs :=
    .of_aside haside (by simp [Frame.notifies]) hasleep
  have hpopped : ∀ f ∈ [Frame.submit t initialDelay interval q], f.role t = .none := by
    simp [Frame.role]
  have hsame : (∀ g ∈ gs, g.role t = .none) → s'.w.task t = s.w.task t →
      s'.w.tskTbl t = s.w.tskTbl t → s'.hist t = s.hist t → SameQueues t s s' →
      Live t (s.after s' th now (gs ++ fs)) := by
    intro hgs htask htbl hhist hq
    refine h.aside_after hs' ?_ hpopped hgs hfit (fun hc => .inl (htbl.trans hc)) fun hplace =>
      hplace.same hs' hq (by simp [Frame.count])
    exact .aside haside (.inl ⟨htbl, by rw [htask]⟩) (congrArg History.freed hhist)
      (congrArg History.destroyed hhist) hpopped hgs hserves
  have hlocked : ∀ s₁ : System ι θ, s.w.tskTbl t = some .created → SameQueues t s s₁ →
      s₁.w.tskTbl t = s.w.tskTbl t → (s₁.w.task t).status = (s.w.task t).status →
      s₁.hist t = s.hist t → submitLocked s₁ th t initialDelay interval now = (s', gs) →
      Live t (s.after s' th now (gs ++ fs)) := by
    intro s₁ hcreated hq₁ htbl hstatus hhist hl
    obtain rfl := hp.fresh hcreated
    have hflag : s₁.w.flag t = false := by
      have := hp.flag
      rw [hq₁.flag]
      simpa using this
    unfold submitLocked at hl
    split at hl
    · rename_i w r hw
      cases hl
      have hword : w.tskTbl t = some .enqueued ∧ (w.task t).status = .enqueued ∧
          (0 < w.urgentTskQ.count t ∨ 0 < w.idleTskQ.count t ∨ 0 < w.chronoTskQ.count t) := by
        rcases submitPut_submitted hflag hw with ⟨-, htask, htbl', hu, -, -⟩ |
          ⟨-, htask, htbl', -, hi, -⟩ | ⟨-, hsched⟩
        · exact ⟨htbl', congrArg Task.status htask, .inl (by simp [hu])⟩
        · exact ⟨htbl', congrArg Task.status htask, .inr (.inl (by simp [hi]))⟩
        · refine ⟨by simp [hsched.tskTbl], ?_, .inr (.inr (by simp [hsched.timed.count_eq]))⟩
          exact (congrArg Task.status hsched.task_self).trans (scheduled_view now _).1
      obtain ⟨htbl', hstatus', hin⟩ := hword
      refine h.aside_after hs' (.aside haside ?_ ?_ ?_ hpopped (by simp) hserves) hpopped (by simp)
        hfit (fun _ => .inr ?_) fun _ => ?_
      · exact .inr ⟨.enqueued, by simp, by simp, htbl', hstatus'⟩
      · simp [System.note, System.return_, hhist]
      · simp [System.note, System.return_, hhist]
      all_goals exact hin.imp id fun hin => hin.imp id .inl
    · cases hl
      refine h.aside_after hs' (.aside haside ?_ ?_ ?_ hpopped ?_ hserves) hpopped ?_ hfit
        (fun hc => .inl (htbl.trans hc)) fun hplace => hplace.same hs' ?_ ?_
      · exact .inl ⟨htbl, hstatus⟩
      · exact congrArg History.freed hhist
      · exact congrArg History.destroyed hhist
      · simp [Frame.role]
      · simp [Frame.role]
      · exact ⟨hq₁.urgent, hq₁.idle, hq₁.timed, hq₁.queue, hq₁.flag, hq₁.fresh, hq₁.created⟩
      · simp [Frame.count]
  cases q <;> simp only [submitStep] at hr
  case check =>
    split_ifs at hr <;> cases hr
    · exact hsame (by simp [Frame.role]) rfl rfl rfl (.refl t s)
    all_goals exact hsame (by simp) rfl rfl rfl (.of_same (.return_ ..))
  case lock =>
    split_ifs at hr
    refine hlocked _ (hok (by simp)) (submitFields_queues ..) rfl ?_ rfl (Option.some.inj hr)
    simp only [submitFields, modTask_task_self]
    split_ifs <;> rfl
  case blocked => exact hlocked s (hok (by simp)) (.refl t s) rfl rfl rfl (Option.some.inj hr)

omit [DecidableEq θ] in
theorem finalTaskSched_role (s : System ι θ) (start : Chrono) (tasks : List ι) :
    (finalTaskSched s start tasks).role t = .none := by
  unfold finalTaskSched
  split_ifs <;> rfl

theorem forceStep_live {q : ForcePoint} (h : Live t s) (hs : s.stack th = .force t q :: fs)
    (hfit : Fit t (s.after s' th now (gs ++ fs)))
    (hr : forceStep s th t now q = some (s', gs)) : Live t (s.after s' th now (gs ++ fs)) := by
  have hs' : s.stack th = [.force t q] ++ fs := hs
  obtain ⟨haside, hasleep⟩ := forceStep_aside hr
  have hserves : Serves t [.force t q] s s' gs :=
    .of_aside haside (by simp [Frame.notifies]) hasleep
  have hpopped : ∀ f ∈ [Frame.force t q], f.role t = .none := by simp [Frame.role]
  have hsame : (∀ g ∈ gs, g.role t = .none) → s'.w = s.w → s'.hist t = s.hist t →
      SameQueues t s s' → (Frame.force t q).count t ≤ held t gs →
      Live t (s.after s' th now (gs ++ fs)) := by
    intro hgs hw hhist hq hheld
    refine h.aside_after hs' ?_ hpopped hgs hfit (fun hc => .inl (by rwa [hw])) fun hplace =>
      hplace.same hs' hq (by simpa using hheld)
    exact .aside haside (.inl ⟨by rw [hw], by rw [hw]⟩) (congrArg History.freed hhist)
      (congrArg History.destroyed hhist) hpopped hgs hserves
  cases q <;> simp only [forceStep] at hr
  case check =>
    split_ifs at hr <;> cases hr
    · exact hsame (by simp [Frame.role]) rfl rfl (.refl t s) (by simp [Frame.count])
    · exact hsame (by simp) rfl rfl (.of_same (.return_ ..)) (by simp [Frame.count])
  case lock =>
    split_ifs at hr <;> cases hr
    · have hgs : ∀ g ∈ [Frame.force t .run], g.role t = .none := by simp [Frame.role]
      have hplace : Somewhere t (s.after { s with w := (doUnsched s.w t).setState t .dequeued } th
          now ([.force t .run] ++ fs)) := by
        refine .inr (.inr (.inr (.inr ⟨th, ?_⟩)))
        simp [System.after, Frame.count]
      refine h.aside_after hs' (.aside haside ?_ rfl rfl hpopped hgs hserves) hpopped hgs hfit
        (fun _ => .inr hplace) fun _ => hplace
      exact .inr ⟨.dequeued, by simp, by simp, by simp [setState, setStateInTable, modTask],
        by simp⟩
    all_goals exact hsame (by simp) rfl rfl (.of_same (.return_ ..)) (by simp [Frame.count])
  case run =>
    cases hr
    refine hsame (by simp [finalTaskSched_role]) rfl rfl (.of_same (.return_ ..)) ?_
    rw [held_cons, held_finalTaskSched]
    simp [Frame.count]

/-! ## The main loop and the workers -/

theorem role_of_aside (hgs : ∀ g ∈ gs, g.about = some t → g = .exec t .check) :
    ∀ g ∈ gs, g.role t = .none := by
  intro g hg
  by_cases ha : g.about = some t
  · rw [hgs g hg ha]
    simp [ExecPoint.role]
  · exact role_of_about ha

/-- The task is left alone in the table, and in no queue of the main loop that it was not in. -/
structure Untouched (t : ι) (w w' : Callout ι) : Prop where
  hasFreeproc : (w'.task t).hasFreeproc = (w.task t).hasFreeproc
  hasArg : (w'.task t).hasArg = (w.task t).hasArg
  tskTbl : w'.tskTbl t = w.tskTbl t
  urgent : t ∈ w'.urgentTskQ → t ∈ w.urgentTskQ
  idle : t ∈ w'.idleTskQ → t ∈ w.idleTskQ
  timed : t ∈ w'.chronoTskQ → t ∈ w.chronoTskQ

/-- What a step of a batch leaves alone. -/
theorem batchStep_words (ha : f.about = none) (hr : frameStep s th now f = some (s', gs)) :
    Dequeues t s.w s'.w ∧ (s'.hist t).freed = (s.hist t).freed ∧
      (s'.hist t).destroyed = (s.hist t).destroyed := by
  cases f <;> simp only [Frame.about, reduceCtorEq] at ha <;> simp only [frameStep] at hr
  case fetch start =>
    unfold fetchStep at hr
    split_ifs at hr
    cases hr
    exact ⟨.inl ⟨rfl, rfl⟩, rfl, rfl⟩
  case fetchTimed start urgentTasks idleTasks =>
    unfold fetchTimedStep at hr
    split_ifs at hr
    · have hdeq := Dequeues.takeRunnables t (i64 (start + calloutTaskSchedJitter)) calloutTaskMax
        s.w
      rw [getRunnables_eq] at hr
      generalize takeRunnables (i64 (start + calloutTaskSchedJitter)) calloutTaskMax s.w = d
        at hr hdeq
      obtain ⟨w, tasks⟩ := d
      dsimp only at hr hdeq
      split_ifs at hr
      cases hr
      refine ⟨hdeq, ?_, ?_⟩ <;> dsimp only <;> split_ifs <;> rfl
    · cases hr
      exact ⟨.refl t s.w, rfl, rfl⟩
  case runTasksBySelf start tasks =>
    cases tasks with
    | nil =>
      cases hr
      exact ⟨.refl t s.w, rfl, rfl⟩
    | cons e tasks =>
      simp only [runTasksBySelfStep] at hr
      split_ifs at hr
      cases hr
      exact ⟨.stampTask t e s.w start, rfl, rfl⟩
  case stamp start todo stamped =>
    cases todo with
    | nil =>
      cases hr
      exact ⟨.refl t s.w, rfl, rfl⟩
    | cons e todo =>
      simp only [stampStep] at hr
      split_ifs at hr
      cases hr
      exact ⟨.stampTask t e s.w start, rfl, rfl⟩
  case put stride q left tasks =>
    unfold putStep at hr
    split_ifs at hr
    · cases hr
      exact ⟨.refl t s.w, rfl, rfl⟩
    · cases hr
      exact ⟨.refl t s.w, rfl, rfl⟩
    · split at hr
      · contradiction
      · dsimp only at hr
        split_ifs at hr <;> cases hr <;> exact ⟨.refl t s.w, rfl, rfl⟩
  case worker tasks =>
    cases tasks <;> cases hr <;> exact ⟨.refl t s.w, rfl, rfl⟩

/-- A fetch takes the task out of an urgent or idle queue. -/
theorem fetchStep_somewhere {start : Chrono} (hs : s.stack th = .fetch start :: fs)
    (hr : fetchStep s start = some (s', gs)) (h : Somewhere t s) :
    Somewhere t (s.after s' th now (gs ++ fs)) := by
  unfold fetchStep at hr
  split_ifs at hr
  cases hr
  have hu := count_take_add_drop t calloutTaskMax s.w.urgentTskQ
  have hi := count_take_add_drop t calloutTaskMax s.w.idleTskQ
  have hheld : held t ([.fetchTimed start (s.w.urgentTskQ.take calloutTaskMax)
      (s.w.idleTskQ.take calloutTaskMax)] ++ fs) =
        (s.w.urgentTskQ.take calloutTaskMax).count t +
          (s.w.idleTskQ.take calloutTaskMax).count t + held t fs := by
    simp [Frame.count]
  refine h.after ?_ ?_ (Nat.le_add_right _ _) (fun _ => Nat.le_add_right _ _) (.inl ?_)
  · show _ ≤ (s.w.urgentTskQ.drop calloutTaskMax).count t + _
    omega
  · show _ ≤ (s.w.idleTskQ.drop calloutTaskMax).count t + _
    omega
  · rw [hheld, hs, held_cons]
    simp only [Frame.count]
    omega

/-- A fetch of the timed tasks takes the task out of their queue. -/
theorem fetchTimedStep_somewhere {start : Chrono} {urgentTasks idleTasks : List ι}
    (hone : s.w.chronoTskQ.count t ≤ 1)
    (hs : s.stack th = .fetchTimed start urgentTasks idleTasks :: fs)
    (hr : fetchTimedStep s start urgentTasks idleTasks = some (s', gs)) (h : Somewhere t s) :
    Somewhere t (s.after s' th now (gs ++ fs)) := by
  have hs' : s.stack th = [.fetchTimed start urgentTasks idleTasks] ++ fs := hs
  have hbatch : ∀ (s₁ : System ι θ) (tasks : List ι),
      held t (fetchTimedStep.runBatch start s₁ (tasks ++ urgentTasks ++ idleTasks) ++ fs) =
        tasks.count t + held t (s.stack th) := by
    intro s₁ tasks
    rw [hs, held_append, held_runBatch, held_cons, List.count_append, List.count_append]
    simp only [Frame.count]
    omega
  unfold fetchTimedStep at hr
  split_ifs at hr
  · have htaken := takeRunnables_taken t (i64 (start + calloutTaskSchedJitter)) calloutTaskMax
      s.w hone
    rw [getRunnables_eq] at hr
    generalize takeRunnables (i64 (start + calloutTaskSchedJitter)) calloutTaskMax s.w = d
      at hr htaken
    obtain ⟨w, tasks⟩ := d
    dsimp only at hr htaken
    split_ifs at hr
    cases hr
    have hsum : w.urgentTskQ.count t = s.w.urgentTskQ.count t ∧
        w.idleTskQ.count t = s.w.idleTskQ.count t ∧
        s.w.chronoTskQ.count t = w.chronoTskQ.count t + tasks.count t := by
      rcases htaken with ⟨hsame, hnot⟩ | ⟨-, -, -, hurgent, hidle, htimed, -⟩
      · exact ⟨hsame.urgent, hsame.idle, by rw [hsame.timed, hnot, Nat.add_zero]⟩
      · exact ⟨hurgent, hidle, htimed⟩
    obtain ⟨hurgent, hidle, htimed⟩ := hsum
    refine h.after ?_ ?_ ?_ (fun i => Nat.le_add_right _ _) (.inl ?_)
    · exact hurgent.ge.trans (Nat.le_add_right _ _)
    · exact hidle.ge.trans (Nat.le_add_right _ _)
    · rw [hbatch, htimed]
      exact Nat.add_le_add_left (Nat.le_add_right _ _) _
    · rw [hbatch]
      exact Nat.le_add_left _ _
  · cases hr
    refine h.same hs' (.refl t s) ?_
    rw [held_runBatch]
    simp [Frame.count]

/-- A put moves the task into a worker's queue. -/
theorem putStep_somewhere {stride q left : Nat} {tasks : List ι}
    (hs : s.stack th = .put stride q left tasks :: fs)
    (hr : putStep s stride q left tasks = some (s', gs)) (h : Somewhere t s) :
    Somewhere t (s.after s' th now (gs ++ fs)) := by
  have hs' : s.stack th = [.put stride q left tasks] ++ fs := hs
  unfold putStep at hr
  split_ifs at hr with hnil
  · cases hr
    exact h.same hs' (.refl t s) (by simp [Frame.count, hnil])
  · cases hr
    exact h.same hs' (.refl t s) (by simp [Frame.count])
  · split at hr
    · contradiction
    · rename_i i hi
      dsimp only at hr
      generalize min left (calloutTaskMax - (s.qs i).length) = n at hr
      have hsplit := count_take_add_drop t n tasks
      have hput : ∀ lastQ, Somewhere t (s.after
          { s with qs := Function.update s.qs i (s.qs i ++ tasks.take n), lastQ } th now
          ([.put stride q (left - n) (tasks.drop n)] ++ fs)) := by
        intro lastQ
        refine h.after (Nat.le_add_right _ _) (Nat.le_add_right _ _) (Nat.le_add_right _ _)
          (fun j => ?_) ?_
        · by_cases hj : j = i
          · subst hj
            simp only [Function.update_self, List.count_append]
            omega
          · simp [hj]
        · by_cases hz : (tasks.take n).count t = 0
          · left
            simp only [hs, held_cons, held_append, held_nil, Frame.count]
            omega
          · refine .inr ⟨i, ?_⟩
            simp only [Function.update_self, List.count_append]
            omega
      split_ifs at hr <;> cases hr
      · exact hput _
      · exact hput s.lastQ

/-- A batch hands the task on. -/
theorem batchStep_somewhere (hone : s.w.chronoTskQ.count t ≤ 1) (hs : s.stack th = f :: fs)
    (ha : f.about = none) (hr : frameStep s th now f = some (s', gs)) (h : Somewhere t s) :
    Somewhere t (s.after s' th now (gs ++ fs)) := by
  have hs' : s.stack th = [f] ++ fs := hs
  cases f <;> simp only [Frame.about, reduceCtorEq] at ha <;> simp only [frameStep] at hr
  case fetch start => exact fetchStep_somewhere hs hr h
  case fetchTimed start urgentTasks idleTasks => exact fetchTimedStep_somewhere hone hs hr h
  case runTasksBySelf start tasks =>
    cases tasks with
    | nil =>
      cases hr
      exact h.same hs' (.refl t s) (by simp [Frame.count])
    | cons e tasks =>
      simp only [runTasksBySelfStep] at hr
      split_ifs at hr
      cases hr
      refine h.same hs' (stampTask_queues e start s) ?_
      by_cases he : e = t
      · subst he
        simp only [held_cons, held_nil, Frame.count, ExecPoint.holds, List.count_cons_self,
          and_self, if_true]
        omega
      · simp [Frame.count, he]
  case stamp start todo stamped =>
    cases todo with
    | nil =>
      cases hr
      exact h.same hs' (.refl t s) (by simp [Frame.count])
    | cons e todo =>
      simp only [stampStep] at hr
      split_ifs at hr
      cases hr
      refine h.same hs' (stampTask_queues e start s) ?_
      simp only [held_cons, held_nil, Frame.count, List.count_append, List.count_cons,
        List.count_nil]
      omega
  case put stride q left tasks => exact putStep_somewhere hs hr h
  case worker tasks =>
    cases tasks with
    | nil =>
      cases hr
      exact h.same hs' (.refl t s) (by simp [Frame.count])
    | cons e tasks =>
      cases hr
      refine h.same hs' (.refl t s) ?_
      by_cases he : e = t
      · subst he
        simp only [held_cons, held_nil, Frame.count, ExecPoint.holds, List.count_cons_self,
          and_self, if_true]
        omega
      · simp [Frame.count, he]

omit [DecidableEq ι] in
theorem Untouched.refl (t : ι) (w : Callout ι) : Untouched t w w := ⟨rfl, rfl, rfl, id, id, id⟩

theorem Untouched.of_same {w w' : Callout ι} (h : SameTask t w w') : Untouched t w w' := by
  have hmem : ∀ {l l' : List ι}, l'.count t = l.count t → t ∈ l' → t ∈ l := fun hc hm => by
    rwa [← List.count_pos_iff, ← hc, List.count_pos_iff]
  exact ⟨congrArg Task.hasFreeproc h.task, congrArg Task.hasArg h.task, h.tskTbl, hmem h.urgent,
    hmem h.idle, hmem h.timed⟩

/-- A batch that is without the task leaves it alone. -/
theorem batchStep_untouched (ha : f.about = none) (hf : f.refers t = false)
    (htimed : t ∉ s.w.chronoTskQ) (hr : frameStep s th now f = some (s', gs)) :
    Untouched t s.w s'.w := by
  have hstamp : ∀ e start, e ≠ t → Untouched t s.w (stampTask s.w e start) := fun e start he =>
    .of_same (.stampTask he s.w start)
  cases f <;> simp only [Frame.about, reduceCtorEq] at ha <;> simp only [frameStep] at hr
  case fetch start =>
    unfold fetchStep at hr
    split_ifs at hr
    cases hr
    exact ⟨rfl, rfl, rfl, List.mem_of_mem_drop, List.mem_of_mem_drop, id⟩
  case fetchTimed start urgentTasks idleTasks =>
    unfold fetchTimedStep at hr
    split_ifs at hr
    · have hcount := List.count_eq_zero.mpr htimed
      have htaken := takeRunnables_taken t (i64 (start + calloutTaskSchedJitter)) calloutTaskMax
        s.w (by omega)
      rw [getRunnables_eq] at hr
      generalize takeRunnables (i64 (start + calloutTaskSchedJitter)) calloutTaskMax s.w = d
        at hr htaken
      obtain ⟨w, tasks⟩ := d
      dsimp only at hr htaken
      split_ifs at hr
      cases hr
      rcases htaken with ⟨hsame, -⟩ | ⟨-, -, -, -, -, hsum, hmem⟩
      · exact .of_same hsame
      · omega
    · cases hr
      exact .refl t s.w
  case runTasksBySelf start tasks =>
    cases tasks with
    | nil =>
      cases hr
      exact .refl t s.w
    | cons e tasks =>
      simp only [runTasksBySelfStep] at hr
      split_ifs at hr
      cases hr
      refine hstamp e start ?_
      rintro rfl
      simp [Frame.refers] at hf
  case stamp start todo stamped =>
    cases todo with
    | nil =>
      cases hr
      exact .refl t s.w
    | cons e todo =>
      simp only [stampStep] at hr
      split_ifs at hr
      cases hr
      refine hstamp e start ?_
      rintro rfl
      simp [Frame.refers] at hf
  case put stride q left tasks =>
    unfold putStep at hr
    split_ifs at hr
    · cases hr
      exact .refl t s.w
    · cases hr
      exact .refl t s.w
    · split at hr
      · contradiction
      · dsimp only at hr
        split_ifs at hr <;> cases hr <;> exact .refl t s.w
  case worker tasks =>
    cases tasks <;> cases hr <;> exact .refl t s.w

theorem batchStep_live (h : Live t s) (hp : Placed t p s) (hs : s.stack th = f :: fs)
    (ha : f.about = none) (hfit : Fit t (s.after s' th now (gs ++ fs)))
    (hr : frameStep s th now f = some (s', gs)) : Live t (s.after s' th now (gs ++ fs)) := by
  have hs' : s.stack th = [f] ++ fs := hs
  have hone : s.w.chronoTskQ.count t ≤ 1 := by
    rw [hp.timed]
    split_ifs <;> omega
  obtain ⟨haside, hgs⟩ := batchStep_aside (t := t) ha hr
  obtain ⟨hdeq, hfreed, hdestroyed⟩ := batchStep_words (t := t) ha hr
  have hroles := role_of_aside hgs
  have hpopped : ∀ g ∈ [f], g.role t = .none := by
    intro g hg
    rw [List.mem_singleton.mp hg]
    exact role_of_about (by simp [ha])
  have hturn : Turn t [f] gs s s' :=
    .aside haside hdeq.rewritten hfreed hdestroyed hpopped hroles (frameStep_serves hr)
  have hsome := batchStep_somewhere hone hs ha hr
  refine h.aside_after hs' hturn hpopped hroles hfit (fun hc => .inl ?_) hsome
  obtain rfl := hp.fresh hc
  have hzero : f.count t = 0 :=
    count_of_held (by simpa using hp.thread th) (hs ▸ List.mem_cons_self)
  have htimed : t ∉ s.w.chronoTskQ := List.count_eq_zero.mp (by simpa using hp.timed)
  have hf : f.refers t = false := not_refers (by simp [ha]) hzero
  exact (batchStep_untouched ha hf htimed hr).tskTbl.trans hc

theorem Live.foreign (h : Live t s) (hs : s.stack th = f :: fs) (ha : f.about = some e)
    (he : e ≠ t) (hfit : Fit t (s.after s' th now (gs ++ fs))) (hserves : Serves t [f] s s' gs)
    (hr : Foreign t s (s', gs)) : Live t (s.after s' th now (gs ++ fs)) := by
  have hs' : s.stack th = [f] ++ fs := hs
  have hsame : SameSystem t s s' := hr.same
  have hroles : ∀ g ∈ gs, g.role t = .none := fun g hg => role_of_about (hr.about g hg)
  have hpopped : ∀ g ∈ [f], g.role t = .none := by
    intro g hg
    rw [List.mem_singleton.mp hg]
    exact role_of_about (by simp [ha, he])
  refine h.aside_after hs' (.aside (.of_same hsame) (Dequeues.of_same hsame.w).rewritten ?_ ?_
    hpopped hroles hserves) hpopped hroles hfit (fun hc => .inl (hsame.w.tskTbl.trans hc))
    fun hplace => hplace.same hs' (.of_same hsame) ?_
  · exact congrArg History.freed hsame.hist
  · exact congrArg History.destroyed hsame.hist
  · simp [Frame.count_foreign ha he]

/-! ## All steps -/

theorem createTask_live {hasArg hasFreeproc : Bool} (h : Live t s) (hp : Placed t p s)
    (hr : createTask s t hasArg hasFreeproc = some s')
    (hfit : Fit t (s.after s' th now (s.stack th))) :
    Live t (s.after s' th now (s.stack th)) := by
  unfold createTask at hr
  split_ifs at hr with hnew
  cases hr
  obtain ⟨rfl, htbl, habout⟩ := hp.unborn hnew.2
  -- no call is about a task that is not created
  have hnone : ∀ th', ∀ f ∈ Function.update s.stack th (s.stack th) th', f.about ≠ some t := by
    intro th' f hf
    rw [Function.update_eq_self] at hf
    exact habout th' f hf
  have hroles : ∀ th', ∀ r ∈ roles t (Function.update s.stack th (s.stack th) th'), r = .none := by
    intro th' r hr
    obtain ⟨f, hf, rfl⟩ := List.mem_map.mp hr
    exact role_of_about (hnone th' f hf)
  have hzero : ∀ {P : Role → Bool}, P .none = false → ∀ th',
      (roles t (Function.update s.stack th (s.stack th) th')).countP P = 0 := by
    intro P hP th'
    refine List.countP_eq_zero.mpr fun r hr => ?_
    rw [hroles th' r hr, hP]
    exact Bool.false_ne_true
  have hhas : ∀ {P : Role → Bool}, P .none = false → ∀ th',
      ∀ r ∈ roles t (Function.update s.stack th (s.stack th) th'), P r = true → False := by
    intro P hP th' r hr hPr
    rw [hroles th' r hr, hP] at hPr
    contradiction
  refine ⟨?_, ?_, ?_, ?_, ?_, ?_, ⟨0, .zero (hzero rfl), ?_⟩, ⟨0, .zero (hzero rfl), ?_⟩, hfit,
    ?_, ?_, ?_⟩
  · simp [System.after, System.note, newTask]
  · simp [System.after, System.note, setStateInTable]
  · simpa [System.after, System.note] using h.freed
  · simpa [System.after, System.note] using h.destroyed
  · rintro ⟨th', r, hr, hP⟩
    exact hhas rfl th' r hr hP
  · exact fun th' n hn => absurd rfl (hnone th' _ hn)
  · simp [System.after, System.note, newTask, sizeT]
  · simp [System.after, System.note, newTask]
  · exact fun _ th' st => ⟨fun hn => absurd rfl (hnone th' _ hn), fun hn => hnone th' _ hn rfl⟩
  · intro _ hsub
    simp [System.after, System.note, setStateInTable] at hsub
  · rintro (⟨th', r, hr, hP⟩ | ⟨th', f, hf, hsleep⟩)
    · exact absurd hP fun hP => hhas rfl th' r hr hP
    · obtain ⟨n, rfl, -⟩ := Frame.sleeps_iff.mp hsleep
      exact absurd rfl (hnone th' _ hf)

theorem callStep_live {op : Op ι} (h : Live t s) (hp : Placed t p s)
    (hfit : Fit t (s.after s' th now (gs ++ s.stack th)))
    (hr : callStep s th now op = some (s', gs)) :
    Live t (s.after s' th now (gs ++ s.stack th)) := by
  by_cases hop : ∃ hasArg hasFreeproc, op = .create t hasArg hasFreeproc
  · obtain ⟨hasArg, hasFreeproc, rfl⟩ := hop
    obtain ⟨s₁, hcreate, heq⟩ := Option.map_eq_some_iff.mp hr
    cases heq
    exact createTask_live h hp hcreate hfit
  have hserves : Serves t [] s s' gs :=
    callStep_serves (fun hasArg hasFreeproc heq => hop ⟨_, _, heq⟩) hr
  have hgo : Aside t s s' → (s'.hist t).freed = (s.hist t).freed →
      (s'.hist t).destroyed = (s.hist t).destroyed → s'.w.tskTbl t = s.w.tskTbl t →
      (s'.w.task t).status = (s.w.task t).status → (∀ g ∈ gs, g.role t = .none) →
      (Somewhere t s → Somewhere t (s.after s' th now (gs ++ s.stack th))) →
      Live t (s.after s' th now (gs ++ s.stack th)) := by
    intro haside hfreed hdestroyed htbl hstatus hgs hsome
    exact h.aside_after rfl (.aside haside (.inl ⟨htbl, hstatus⟩) hfreed hdestroyed (by simp) hgs
      hserves) (by simp) hgs hfit (fun hc => .inl (htbl.trans hc)) hsome
  have hcall : ∀ g : Frame ι, g.role t = .none → s' = s → gs = [g] →
      Live t (s.after s' th now (gs ++ s.stack th)) := by
    rintro g hg rfl rfl
    refine hgo (.of_same (.refl t s')) rfl rfl rfl rfl (by simpa using hg) fun hplace => ?_
    exact hplace.same (l := []) rfl (.refl t s') (by simp)
  cases op <;> simp only [callStep] at hr
  case create e hasArg hasFreeproc =>
    obtain ⟨s₁, hcreate, heq⟩ := Option.map_eq_some_iff.mp hr
    cases heq
    have he : e ≠ t := fun he => hop ⟨hasArg, hasFreeproc, he ▸ rfl⟩
    have hsame := createTask_foreign he hcreate
    exact hgo (.of_same hsame) (congrArg History.freed hsame.hist)
      (congrArg History.destroyed hsame.hist) hsame.w.tskTbl (congrArg Task.status hsame.w.task)
      (by simp) fun hplace => hplace.same (l := []) rfl (.of_same hsame) (by simp)
  case resetInterval e interval =>
    split_ifs at hr
    rw [Option.map_eq_some_iff] at hr
    obtain ⟨s₁, hreset, heq⟩ := hr
    cases heq
    unfold resetInterval at hreset
    split_ifs at hreset <;> cases hreset
    · have hany := Touched.modAny t e s.w (f := fun x => { x with intervalTime := interval })
        fun _ => ⟨rfl, rfl, rfl⟩
      have htask : ((s.modTask e fun x => { x with intervalTime := interval }).w.task t).status =
          (s.w.task t).status ∧
          ((s.modTask e fun x => { x with intervalTime := interval }).w.task t).isInTimedQ =
          (s.w.task t).isInTimedQ := by
        by_cases he : t = e
        · subst he
          simp [System.modTask]
        · simp [System.modTask, he]
      refine hgo ⟨hany, rfl, rfl⟩ rfl rfl rfl htask.1 (by simp) fun hplace => ?_
      exact hplace.same (l := []) rfl ⟨rfl, rfl, rfl, fun _ => rfl, htask.2, id, rfl⟩ (by simp)
    all_goals
      exact hgo (.of_same (.return_ ..)) rfl rfl rfl rfl (by simp) fun hplace =>
        hplace.same (l := []) rfl (.of_same (.return_ ..)) (by simp)
  case work =>
    split_ifs at hr
    cases hr
    have hsplit := count_take_add_drop t calloutTaskMax (s.qs th)
    refine hgo ⟨.refl t s.w, rfl, rfl⟩ rfl rfl rfl rfl (by simp [Frame.role]) fun hplace => ?_
    refine hplace.after (Nat.le_add_right _ _) (Nat.le_add_right _ _) (Nat.le_add_right _ _)
      (fun i => ?_) (.inl (by simp))
    by_cases hi : i = th
    · subst hi
      simp only [Function.update_self, held_append, held_cons, held_nil, Frame.count]
      omega
    · simp only [ne_eq, hi, not_false_eq_true, Function.update_of_ne]
      exact Nat.le_add_right _ _
  case cancel e =>
    split_ifs at hr
    cases hr
    refine hcall _ ?_ rfl rfl
    simp only [Frame.role, CancelPoint.role]
    exact ite_self _
  all_goals
    split_ifs at hr
    cases hr
    exact hcall _ rfl rfl rfl

/-- A canceller wakes up, and is counted as before. -/
theorem wake_live {since : Nat} (h : Live t s) (hs : s.stack th = .cancel t (.asleep since) :: fs)
    (hserves : Serves t [.cancel t (.asleep since)] s s [.cancel t .wait])
    (hfit : Fit t (s.after s th now ([.cancel t .wait] ++ fs))) :
    Live t (s.after s th now ([.cancel t .wait] ++ fs)) := by
  have hs' : s.stack th = [.cancel t (.asleep since)] ++ fs := hs
  have hturn : Turn t [.cancel t (.asleep since)] [.cancel t .wait] s s := by
    refine .of_same hserves rfl rfl rfl ?_ ?_ ?_ ?_ ?_ <;>
      simp [CancelPoint.role, Role.isCounted, Role.executes]
  have hsome : Somewhere t s → Somewhere t (s.after s th now ([.cancel t .wait] ++ fs)) :=
    fun hplace => hplace.same hs' (.refl t s) (by simp [Frame.count])
  refine h.after hs' hturn hfit (h.found_after hs' id (.inl ∘ hsome) fun _ => ?_)
    (h.awake_after hs' hserves ?_ ?_ (.inl ∘ hsome) ?_)
  · exact .of_new ⟨.counted, by simp [CancelPoint.role], rfl⟩
  · simp [CancelPoint.role]
  · simp
  · simp [CancelPoint.role, Role.works]

/-- A destruction is given up, since the task is not `CANCELLED` any more. -/
def Frame.givesUp (t : ι) (w : Callout ι) : Frame ι → Bool
  | .destroy e _ .check => e = t && w.getStateInTable t ≠ .cancelled
  | _ => false

/-- Another executor than the one that executes the task is about to count itself. -/
def Frame.joins (t : ι) (w : Callout ι) : Frame ι → Bool
  | .exec e .count => e = t && (w.task t).execRefCount ≠ 0
  | _ => false

/-- A destruction is given up, and another one goes on. -/
theorem giveUp_live {unlock : Bool} {q : DestroyPoint} {o : Option θ} (h : Live t s)
    (hs : s.stack th = .destroy t unlock q :: fs) (hq : q.role = .destroys)
    (hother : HasOther Role.isDestroying t s th)
    (hfit : Fit t (s.after { s with lck := o } th now ([] ++ fs))) :
    Live t (s.after { s with lck := o } th now ([] ++ fs)) := by
  have hs' : s.stack th = [.destroy t unlock q] ++ fs := hs
  have hdestroys : Has Role.isDestroying t (s.after { s with lck := o } th now ([] ++ fs)) :=
    hother.after hs
  have hmem : ∀ th', ∀ g ∈ (s.after { s with lck := o } th now ([] ++ fs)).stack th',
      g ∈ s.stack th' := by
    intro th' g hg
    by_cases hth : th' = th
    · subst hth
      rw [hs]
      exact List.mem_cons_of_mem _ (by simpa [System.after] using hg)
    · simpa [System.after, hth] using hg
  have hcount : ∀ {P : Role → Bool} {n : Nat}, P .destroys = false → HasCount P t s n →
      HasCount P t (s.after { s with lck := o } th now ([] ++ fs)) n := by
    intro P n hP hn
    obtain ⟨m, hm, hsum⟩ : ∃ m,
        HasCount P t (s.after { s with lck := o } th now ([] ++ fs)) m ∧ _ := hn.after hs'
    obtain rfl : m = n := by simpa [hq, hP] using hsum
    exact hm
  refine ⟨h.status, h.listed, h.freed, h.destroyed, ?_, ?_, ?_, ?_, hfit, ?_, fun _ _ => .inr ?_,
    fun _ => .inr ?_⟩
  · intro hhas
    rcases hhas.before hs' with ⟨r, hr, -⟩ | hold
    · exact absurd hr List.not_mem_nil
    · exact h.unfreed hold
  · exact fun th' n hn => h.since th' n (hmem th' _ hn)
  · obtain ⟨n, hn, hsize⟩ := h.cancels
    exact ⟨n, hcount rfl hn, hsize⟩
  · obtain ⟨n, hn, hlo, hone, -⟩ := h.execs
    exact ⟨n, hcount rfl hn, hlo, hone, .inr hdestroys⟩
  · intro hc th' st
    obtain ⟨hread, hmark⟩ := h.asked hc th' st
    exact ⟨fun hg => hread (hmem th' _ hg), fun hg => hmark (hmem th' _ hg)⟩
  · exact hdestroys.imp (by simp +contextual [Role.isDestroying, Role.closes])
  · exact hdestroys.imp (by simp +contextual [Role.isDestroying, Role.works])

theorem frameStep_live (h : Live t s) (hp : Placed t p s) (hs : s.stack th = f :: fs)
    (hok : f.submits t = true → s.w.tskTbl t = some .created) (hjoins : f.joins t s.w = false)
    (hgives : f.givesUp t s.w = true → HasOther Role.isDestroying t s th)
    (hdel : f.deletes t = false)
    (hr : frameStep s th now f = some (s', gs)) : Live t (s.after s' th now (gs ++ fs)) := by
  have hfit : Fit t (s.after s' th now (gs ++ fs)) := frameStep_fit h.fit hp hs hok hdel hr
  cases ha : f.about with
  | some e =>
    by_cases he : e = t
    · subst he
      cases f <;> simp only [Frame.about, Option.some.injEq, reduceCtorEq] at ha <;> subst ha
      · exact submitStep_live h hp hs (fun hq => hok (by simpa [Frame.submits] using hq)) hfit hr
      · exact cancelStep_live h hs hfit hr
      · refine execStep_live h hp hs ?_ hfit hr
        rintro rfl
        simpa [Frame.joins] using hjoins
      · rename_i t unlock q
        by_cases hup : (Frame.destroy t unlock q).givesUp t s.w = true
        · unfold Frame.givesUp at hup
          split at hup
          · rename_i heq
            cases heq
            simp only [decide_true, Bool.true_and, decide_eq_true_eq] at hup
            simp only [frameStep, destroyStep, if_neg hup] at hr
            obtain ⟨⟨o, rfl⟩, rfl⟩ := destroyed_eq (Option.some.inj hr)
            exact giveUp_live h hs rfl (hgives (by simpa [Frame.givesUp] using hup)) hfit
          · contradiction
        · refine destroyStep_live h hs ?_ ?_ hfit hr
          · rintro rfl
            simp [Frame.deletes] at hdel
          · rintro rfl
            simpa [Frame.givesUp] using hup
      · exact forceStep_live h hs hfit hr
    · exact h.foreign hs ha he hfit (frameStep_serves hr) (frameStep_foreign ha he hr)
  | none => exact batchStep_live h hp hs ha hfit hr

/-- **A step that does not delete the task**, nor gives a destruction up. -/
theorem Live.step {ev : Event ι θ} (h : Live t s) (hp : Placed t p s) (hok : submitsOnce t s ev)
    (hjoins : ∀ f ∈ running s ev, f.joins t s.w = false)
    (hgives : ∀ f ∈ running s ev,
      f.givesUp t s.w = true → HasOther Role.isDestroying t s ev.thread)
    (hdel : ∀ f ∈ running s ev, f.deletes t = false) (hstep : step s ev = some s') :
    Live t s' := by
  have hfit := h.fit.step hp hok hdel hstep
  cases step_cases hstep with
  | call hact hr => exact callStep_live h hp hfit hr
  | go hact hs hr =>
    rename_i f fs gs s₁
    have hrun : f ∈ running s ev := by simp [running, hact, hs]
    exact frameStep_live h hp hs (hok f hrun) (hjoins f hrun) (hgives f hrun) (hdel f hrun) hr
  | finish hact hs =>
    rename_i t' r fs
    by_cases he : t' = t
    · subst he
      exact execEnd_live h hs hfit rfl
    · exact h.foreign hs rfl he hfit (execEnd_serves t' r) (execEnd_foreign he r)
  | wake hact hs hwoken =>
    rename_i spurious t' since fs
    have hserves : Serves t [.cancel t' (.asleep since)] s s [.cancel t' .wait] :=
      .of_aside (.of_same (.refl t s)) (by simp [Frame.notifies]) (by simp)
    by_cases he : t' = t
    · subst he
      exact wake_live h hs hserves hfit
    · refine h.foreign hs rfl he hfit hserves (foreign_one (.refl t s) rfl ?_)
      simpa [Frame.about] using he

omit [DecidableEq θ] in
theorem Live.init (t : ι) (clock : Chrono) (mainLoop : θ) (workers : List θ) :
    Live t (System.init clock mainLoop workers : System ι θ) where
  status := by simp [System.init, newTask]
  listed hc := by simp [System.init] at hc
  freed := rfl
  destroyed := rfl
  unfreed := by
    rintro ⟨th, r, hr, -⟩
    exact absurd hr List.not_mem_nil
  since th n hn := absurd hn List.not_mem_nil
  cancels := ⟨0, .zero fun _ => rfl, rfl⟩
  execs := ⟨0, .zero fun _ => rfl, le_rfl, Nat.zero_le _, .inl le_rfl⟩
  fit := .init t clock mainLoop workers
  asked hc := by simp [System.init] at hc
  found hc := by simp [System.init] at hc
  awake := by
    rintro (⟨th, r, hr, -⟩ | ⟨th, f, hf, -⟩)
    · exact absurd hr List.not_mem_nil
    · exact absurd hf List.not_mem_nil

end Callout
end Gallus
