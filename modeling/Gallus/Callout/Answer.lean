import Gallus.Callout.Undeleted

/-!
# A cancellation that goes on

A canceller that has found a task sees to it that the task is destroyed, or leaves that to somebody
else.

* `Answered t s`: somebody is at it, or the task is marked.
* `Answered.step`: each step but a deletion keeps this, if no canceller goes off without having done
  something, and nobody overwrites the mark.
-/

namespace Gallus
namespace Callout

variable {ι θ : Type} [DecidableEq ι] [DecidableEq θ]

/-- A canceller looks for what to do, or somebody will see to it that the task is destroyed. -/
def Role.answers (r : Role) : Bool := r.isAsking || r.closes

/-- The cancel flag is set, in the table and in the record. -/
def Marked (t : ι) (w : Callout ι) : Prop :=
  w.tskTbl t = some .cancelled ∧ (w.task t).status = .cancelled

instance (t : ι) (w : Callout ι) : Decidable (Marked t w) := inferInstanceAs (Decidable (_ ∧ _))

/-- Somebody goes on with the cancellation, or the task is marked. -/
def Answered (t : ι) (s : System ι θ) : Prop := Has Role.answers t s ∨ Marked t s.w

/-- A canceller that has found the task goes off: nobody is counted as its executor, and it was
neither queued nor dequeued when the canceller looked it up. -/
def Frame.misses (t : ι) (w : Callout ι) : Frame ι → Bool
  | .cancel e (.readExec st) =>
    e = t && (w.task t).execRefCount = 0 && st ≠ .enqueued && st ≠ .dequeued
  | _ => false

/-- The cancel flag is overwritten: by the re-submission of the task, or by the scheduler that takes
it out of the timed queue. -/
def Frame.unmarks (t : ι) (w : Callout ι) : Frame ι → Bool
  | .exec e .resched => e = t && Marked t w
  | .fetchTimed start _ _ =>
    0 < start && Marked t w && t ∈ (getRunnables w start calloutTaskMax).2.1
  | _ => false

variable {t e : ι} {p : Place θ} {s s' s₁ : System ι θ} {th : θ} {now : Chrono}
  {f : Frame ι} {fs gs l : List (Frame ι)}

/-- A call that goes on with the cancellation does something about it. -/
theorem frameStep_answers (h : Live t s) (hs : s.stack th = f :: fs)
    (hrole : (f.role t).answers = true)
    (hmisses : f.misses t s.w = true → HasOther Role.answers t s th ∨ Marked t s.w)
    (hgives : f.givesUp t s.w = true → HasOther Role.isDestroying t s th)
    (hdel : f.deletes t = false) (hr : frameStep s th now f = some (s', gs)) :
    Answered t (s.after s' th now (gs ++ fs)) := by
  have hone : ∀ {s' : System ι θ} {g : Frame ι}, (g.role t).answers = true →
      Answered t (s.after s' th now ([g] ++ fs)) := fun hg => .inl (.of_new ⟨_, by simp, hg⟩)
  have hcloses : ∀ {s' : System ι θ}, Has Role.closes t s' → Answered t s' := fun hcloses =>
    .inl (hcloses.imp fun r hr => by simp [Role.answers, hr])
  cases f <;> simp only [frameStep] at hr
  case cancel e q =>
    by_cases he : e = t
    swap
    · simp [Frame.role, he, Role.answers, Role.isAsking, Role.closes] at hrole
    subst he
    by_cases hq : q.role = .counted
    · exact hcloses (cancelStep_closes h hs hq hr)
    cases q <;> simp only [CancelPoint.role, not_true_eq_false] at hq <;>
      simp only [cancelStep] at hr
    case check => simp [CancelPoint.role, Role.answers, Role.isAsking, Role.closes] at hrole
    case readExec st =>
      split_ifs at hr with hexec hst <;> cases hr
      · exact hone (by simp [CancelPoint.role, Role.answers, Role.isAsking])
      · exact hone (by simp [CancelPoint.role, Role.answers, Role.isAsking])
      · simp only [ne_eq, not_not] at hexec
        simp only [not_or] at hst
        exact (hmisses (by simp [Frame.misses, hexec, hst])).imp (HasOther.after hs) id
    case count =>
      cases hr
      exact hone (by simp [CancelPoint.role, Role.answers, Role.closes])
    case mark st =>
      split_ifs at hr <;> cases hr
      · exact hone (by simp [DestroyPoint.role, Role.answers, Role.closes])
      · right
        simp [Marked, System.after, setCancelled, System.note, setState, setStateInTable, modTask]
  case exec e q =>
    by_cases he : e = t
    swap
    · simp [Frame.role, he, Role.answers, Role.isAsking, Role.closes] at hrole
    subst he
    cases q <;> simp [ExecPoint.role, Role.answers, Role.isAsking, Role.closes] at hrole <;>
      simp only [execStep] at hr
    case readCancelDelete =>
      cases hr
      by_cases hcancel : (s.w.task e).cancelRefCount = 0
      · rw [if_pos hcancel]
        exact hone (by simp [ExecPoint.role, Role.answers, Role.closes])
      · rw [if_neg hcancel]
        have hcounted : Has Role.isCounted e (s.after s th now ([.exec e .wakeup] ++ fs)) :=
          (h.counted hcancel).after hs (l := [_]) (by simp [ExecPoint.role, Role.isCounted])
        exact hcloses (hcounted.imp (by simp +contextual [Role.isCounted, Role.closes]))
    case leaveDelete =>
      cases hr
      exact hone (by simp [ExecPoint.role, Role.answers, Role.closes])
    case lockDelete =>
      split_ifs at hr
      cases hr
      exact hone (by simp [DestroyPoint.role, Role.answers, Role.closes])
  case destroy e unlock q =>
    by_cases he : e = t
    swap
    · simp [Frame.role, he, Role.answers, Role.isAsking, Role.closes] at hrole
    subst he
    cases q <;> simp only [destroyStep] at hr
    case unsched =>
      split_ifs at hr
      cases hr
      exact hone (by simp [DestroyPoint.role, Role.answers, Role.closes])
    case setTable =>
      cases hr
      exact hone (by simp [DestroyPoint.role, Role.answers, Role.closes])
    case check =>
      split_ifs at hr with hst
      · cases hr
        exact hone (by simp [DestroyPoint.role, Role.answers, Role.closes])
      · have hother : HasOther Role.isDestroying e s th :=
          hgives (by simpa [Frame.givesUp] using hst)
        refine hcloses ((hother.after hs).imp ?_)
        simp +contextual [Role.isDestroying, Role.closes]
    case delete => simp [Frame.deletes] at hdel
    case free =>
      simp [DestroyPoint.role, Role.answers, Role.isAsking, Role.closes] at hrole
  all_goals simp [Frame.role, Role.answers, Role.isAsking, Role.closes] at hrole

/-! ## The mark -/

theorem Marked.of_same {w w' : Callout ι} (h : Marked t w) (hsame : SameTask t w w') :
    Marked t w' := by
  refine ⟨hsame.tskTbl.trans h.1, ?_⟩
  rw [hsame.task]
  exact h.2

theorem Marked.stampTask {w : Callout ι} (h : Marked t w) (e : ι) (start : Chrono) :
    Marked t (stampTask w e start) := by
  by_cases he : e = t
  · subst he
    unfold Callout.stampTask
    rw [if_neg (by simp [h.2])]
    exact ⟨h.1, by simpa using h.2⟩
  · exact h.of_same (.stampTask he w start)

theorem batchStep_marked (h : Marked t s.w) (ha : f.about = none)
    (hunmarks : f.unmarks t s.w = false) (hr : frameStep s th now f = some (s', gs)) :
    Marked t s'.w := by
  cases f <;> simp only [Frame.about, reduceCtorEq] at ha <;> simp only [frameStep] at hr
  case fetch start =>
    unfold fetchStep at hr
    split_ifs at hr
    cases hr
    exact h
  case fetchTimed start urgentTasks idleTasks =>
    unfold fetchTimedStep at hr
    split_ifs at hr with hstart
    · have hnot : t ∉ (getRunnables s.w start calloutTaskMax).2.1 := by
        simpa [Frame.unmarks, hstart, h] using hunmarks
      rw [getRunnables_eq] at hr hnot
      have hsame := takeRunnables_same t _ _ _ hnot
      generalize takeRunnables (i64 (start + calloutTaskSchedJitter)) calloutTaskMax s.w = d
        at hr hsame
      obtain ⟨w, tasks⟩ := d
      dsimp only at hr hsame
      split_ifs at hr
      cases hr
      exact h.of_same hsame
    · cases hr
      exact h
  case runTasksBySelf start tasks =>
    cases tasks with
    | nil =>
      cases hr
      exact h
    | cons e tasks =>
      simp only [runTasksBySelfStep] at hr
      split_ifs at hr
      cases hr
      exact h.stampTask e start
  case stamp start todo stamped =>
    cases todo with
    | nil =>
      cases hr
      exact h
    | cons e todo =>
      simp only [stampStep] at hr
      split_ifs at hr
      cases hr
      exact h.stampTask e start
  case put stride q left tasks =>
    unfold putStep at hr
    split_ifs at hr
    · cases hr
      exact h
    · cases hr
      exact h
    · split at hr
      · contradiction
      · dsimp only at hr
        split_ifs at hr <;> cases hr <;> exact h
  case worker tasks =>
    cases tasks <;> cases hr <;> exact h

/-- The mark stays until the task is deleted, unless it is overwritten. -/
theorem frameStep_marked (h : Marked t s.w)
    (hok : f.submits t = true → s.w.tskTbl t = some .created)
    (hunmarks : f.unmarks t s.w = false) (hdel : f.deletes t = false)
    (hr : frameStep s th now f = some (s', gs)) : Marked t s'.w := by
  have htable : s.w.getStateInTable t = .cancelled := by simp [getStateInTable, h.1]
  have hmod : ∀ {g : Task → Task}, (∀ x, (g x).status = x.status) →
      Marked t (s.modTask t g).w := fun hg =>
    ⟨h.1, by simpa [System.modTask, hg] using h.2⟩
  cases ha : f.about with
  | some e =>
    by_cases he : e = t
    swap
    · exact h.of_same (frameStep_foreign ha he hr).same.w
    subst he
    cases f <;> simp only [Frame.about, Option.some.injEq, reduceCtorEq] at ha <;> subst ha <;>
      simp only [frameStep] at hr
    case submit initialDelay interval q =>
      cases q
      case check =>
        simp only [submitStep, htable, reduceCtorEq, if_false] at hr
        cases hr
        exact h
      all_goals
        have hc := hok (by simp [Frame.submits])
        rw [h.1] at hc
        contradiction
    case cancel q =>
      cases q <;> simp only [cancelStep] at hr
      case asleep => contradiction
      case count | uncount =>
        cases hr
        exact hmod fun _ => rfl
      case mark st =>
        split_ifs at hr <;> cases hr
        · exact h
        · simp [Marked, setCancelled, System.note, setState, setStateInTable, modTask]
      all_goals
        split_ifs at hr <;> cases hr <;> exact h
    case exec t q =>
      cases q <;> simp only [execStep] at hr
      case body => contradiction
      case check =>
        split_ifs at hr <;> cases hr <;> exact h
      case count | leave | leaveDelete =>
        cases hr
        exact hmod fun _ => rfl
      case recheck =>
        split_ifs at hr with hl hst heq
        · rw [htable] at hst
          simp at hst
        · cases hr
          exact h
      case resched => simp [Frame.unmarks, h] at hunmarks
      case lockDelete =>
        split_ifs at hr
        cases hr
        exact h
      case wakeup =>
        split_ifs at hr
        cases hr
        show Marked t (addExec s t (-1)).w
        exact hmod fun _ => rfl
      all_goals
        cases hr
        exact h
    case destroy t unlock q =>
      cases q <;> simp only [destroyStep] at hr
      case unsched =>
        split_ifs at hr
        cases hr
        by_cases hf : s.w.flag t = true
        · have hu := doUnsched_unsched hf
          have hst : (s.w.task t).status ≠ .enqueued := by simp [h.2]
          refine ⟨?_, ?_⟩
          · rw [show (doUnsched s.w t).tskTbl t = _ from hu.tskTbl_self, if_neg hst]
            exact h.1
          · show ((doUnsched s.w t).task t).status = _
            rw [hu.task_self, if_neg hst]
            exact h.2
        · rw [doUnsched_of_not s.w hf]
          exact h
      case setTable =>
        cases hr
        exact ⟨by simp [setStateInTable], h.2⟩
      case check =>
        rw [if_pos htable] at hr
        cases hr
        exact h
      case delete => simp [Frame.deletes] at hdel
      case free =>
        obtain ⟨⟨o, rfl⟩, rfl⟩ := destroyed_eq (Option.some.inj hr)
        exact h
    case force q =>
      cases q <;> simp only [forceStep] at hr
      case check =>
        split_ifs at hr <;> cases hr <;> exact h
      case lock =>
        simp only [htable, reduceCtorEq, or_self, if_false] at hr
        split_ifs at hr
        obtain ⟨rfl, -⟩ := Prod.mk.inj (Option.some.inj hr)
        exact h
      case run =>
        cases hr
        exact h
  | none => exact batchStep_marked h ha hunmarks hr

/-! ## All steps -/

theorem frameStep_answered (h : Live t s) (hs : s.stack th = f :: fs)
    (hok : f.submits t = true → s.w.tskTbl t = some .created)
    (hmisses : f.misses t s.w = true → HasOther Role.answers t s th ∨ Marked t s.w)
    (hunmarks : f.unmarks t s.w = true → Has Role.answers t s)
    (hgives : f.givesUp t s.w = true → HasOther Role.isDestroying t s th)
    (hdel : f.deletes t = false) (hanswered : Answered t s)
    (hr : frameStep s th now f = some (s', gs)) : Answered t (s.after s' th now (gs ++ fs)) := by
  by_cases hrole : (f.role t).answers = true
  · exact frameStep_answers h hs hrole hmisses hgives hdel hr
  have hkeep : Has Role.answers t s → Answered t (s.after s' th now (gs ++ fs)) := fun hhas =>
    .inl (hhas.after (l := [f]) hs (by simp [hrole]))
  rcases hanswered with hhas | hmarked
  · exact hkeep hhas
  by_cases hun : f.unmarks t s.w = true
  · exact hkeep (hunmarks hun)
  · have hmarked' : Marked t s'.w := frameStep_marked hmarked hok (by simpa using hun) hdel hr
    exact .inr hmarked'

theorem callStep_answered {op : Op ι} (hp : Placed t p s) (hanswered : Answered t s)
    (hr : callStep s th now op = some (s', gs)) :
    Answered t (s.after s' th now (gs ++ s.stack th)) := by
  rcases hanswered with hhas | hmarked
  · exact .inl (hhas.after (l := []) rfl (by simp))
  right
  cases op <;> simp only [callStep] at hr
  case create e hasArg hasFreeproc =>
    obtain ⟨s₁, hcreate, heq⟩ := Option.map_eq_some_iff.mp hr
    cases heq
    refine hmarked.of_same (createTask_foreign ?_ hcreate).w
    rintro rfl
    unfold createTask at hcreate
    split_ifs at hcreate with hnew
    have hnone := (hp.unborn hnew.2).2.1
    rw [hmarked.1] at hnone
    contradiction
  case resetInterval e interval =>
    split_ifs at hr
    rw [Option.map_eq_some_iff] at hr
    obtain ⟨s₁, hreset, heq⟩ := hr
    cases heq
    unfold resetInterval at hreset
    split_ifs at hreset <;> cases hreset
    · refine ⟨hmarked.1, ?_⟩
      by_cases he : t = e
      · subst he
        simpa [System.after, System.modTask, System.return_] using hmarked.2
      · simpa [System.after, System.modTask, System.return_, he] using hmarked.2
    all_goals exact hmarked
  case work =>
    split_ifs at hr
    cases hr
    exact hmarked
  all_goals
    split_ifs at hr
    cases hr
    exact hmarked

/-- **A step that does not delete the task.** A cancellation goes on. -/
theorem Answered.step {ev : Event ι θ} (hanswered : Answered t s) (h : Live t s) (hp : Placed t p s)
    (hok : submitsOnce t s ev)
    (hmisses : ∀ f ∈ running s ev,
      f.misses t s.w = true → HasOther Role.answers t s ev.thread ∨ Marked t s.w)
    (hunmarks : ∀ f ∈ running s ev, f.unmarks t s.w = true → Has Role.answers t s)
    (hgives : ∀ f ∈ running s ev,
      f.givesUp t s.w = true → HasOther Role.isDestroying t s ev.thread)
    (hdel : ∀ f ∈ running s ev, f.deletes t = false) (hstep : Callout.step s ev = some s') :
    Answered t s' := by
  cases step_cases hstep with
  | call hact hr => exact callStep_answered hp hanswered hr
  | go hact hs hr =>
    rename_i f fs gs s₁
    have hrun : f ∈ running s ev := by simp [running, hact, hs]
    exact frameStep_answered h hs (hok f hrun) (hmisses f hrun) (hunmarks f hrun) (hgives f hrun)
      (hdel f hrun) hanswered hr
  | finish hact hs =>
    rename_i t' r fs
    rcases hanswered with hhas | hmarked
    · left
      refine hhas.after (l := [.exec t' .body]) hs ?_
      by_cases he : t' = t
      · simp [he, ExecPoint.role, Role.answers, Role.isAsking, Role.closes]
      · simp [Frame.role, he, Role.answers, Role.isAsking, Role.closes]
    · unfold execEnd
      by_cases hr : r = Result.ok
      · rw [if_pos hr]
        exact .inr hmarked
      · rw [if_neg hr]
        by_cases he : t' = t
        · subst he
          exact .inl (.of_new ⟨.ends, by simp [ExecPoint.role], rfl⟩)
        · exact .inr (hmarked.of_same (.setState he s.w .execFailed))
  | wake hact hs hwoken =>
    rename_i spurious t' since fs
    rcases hanswered with hhas | hmarked
    · left
      by_cases he : t' = t
      · subst he
        exact .of_new ⟨.counted, by simp [CancelPoint.role], rfl⟩
      · refine hhas.after (l := [.cancel t' (.asleep since)]) hs ?_
        simp [Frame.role, he, Role.answers, Role.isAsking, Role.closes]
    · exact .inr hmarked

end Callout
end Gallus
