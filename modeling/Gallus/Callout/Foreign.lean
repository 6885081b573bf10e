import Gallus.Callout.Effects

/-!
# Steps of calls on other tasks

A call is about one task or about batches. `SameSystem t s s'` says that nothing of the task `t`
is changed between two systems, and `frameStep_foreign` that a step of a call about another task
is of that kind.
-/

namespace Gallus
namespace Callout

variable {ι θ : Type} [DecidableEq ι]

/-- The task a call is about. -/
def Frame.about : Frame ι → Option ι
  | .submit t _ _ _ | .cancel t _ | .exec t _ | .destroy t _ _ | .force t _ => some t
  | _ => none

/-- An execution up to the re-submission. -/
def ExecPoint.holds : ExecPoint → Bool
  | .check | .count | .recheck | .body | .readCancel | .readRepeat | .resched => true
  | _ => false

/-- How often a call has the task `t` in its hands. -/
def Frame.count (t : ι) : Frame ι → Nat
  | .exec e p => if e = t ∧ p.holds = true then 1 else 0
  | .force e .run => if e = t then 1 else 0
  | .fetchTimed _ urgentTasks idleTasks => urgentTasks.count t + idleTasks.count t
  | .runTasksBySelf _ tasks | .put _ _ _ tasks | .worker tasks => tasks.count t
  | .stamp _ todo stamped => todo.count t + stamped.count t
  | _ => 0

/-- Nothing of the task `t` is changed in the system, the calls of the threads apart. -/
structure SameSystem (t : ι) (s s' : System ι θ) : Prop where
  w : SameTask t s.w s'.w
  hist : s'.hist t = s.hist t
  taskLck : s'.taskLck t = s.taskLck t
  condTask : s'.condTask t = s.condTask t
  qs : s'.qs = s.qs
  workers : s'.workers = s.workers

namespace SameSystem

variable {t e : ι} {s s' s₁ s₂ : System ι θ} {th : θ} {gs : List (Frame ι)}

theorem refl (t : ι) (s : System ι θ) : SameSystem t s s :=
  ⟨.refl t s.w, rfl, rfl, rfl, rfl, rfl⟩

theorem trans (h : SameSystem t s s₁) (h' : SameSystem t s₁ s₂) : SameSystem t s s₂ :=
  ⟨h.w.trans h'.w, h'.hist.trans h.hist, h'.taskLck.trans h.taskLck,
    h'.condTask.trans h.condTask, h'.qs.trans h.qs, h'.workers.trans h.workers⟩

theorem world {w : Callout ι} (h : SameTask t s.w w) : SameSystem t s { s with w } :=
  ⟨h, rfl, rfl, rfl, rfl, rfl⟩

theorem modTask (h : e ≠ t) (s : System ι θ) (f : Task → Task) :
    SameSystem t s (s.modTask e f) := world (.modTask h _ _)

theorem note (h : e ≠ t) (s : System ι θ) (f : History → History) :
    SameSystem t s (s.note e f) :=
  ⟨.refl t s.w, by simp [System.note, h.symm], rfl, rfl, rfl, rfl⟩

theorem wakeupTask (h : e ≠ t) (s : System ι θ) : SameSystem t s (s.wakeupTask e) :=
  ⟨.refl t s.w, rfl, rfl, by simp [System.wakeupTask, h.symm], rfl, rfl⟩

theorem return_ [DecidableEq θ] (t : ι) (s : System ι θ) (th : θ) (r : Result) :
    SameSystem t s (s.return_ th r) := ⟨.refl t s.w, rfl, rfl, rfl, rfl, rfl⟩

theorem lck (t : ι) (s : System ι θ) (o : Option θ) : SameSystem t s { s with lck := o } :=
  ⟨.refl t s.w, rfl, rfl, rfl, rfl, rfl⟩

end SameSystem

/-- A call about another task changes nothing of `t`, and gets no hand on it. -/
structure Foreign (t : ι) (s : System ι θ) (r : After ι θ) : Prop where
  same : SameSystem t s r.1
  count : ∀ g ∈ r.2, g.count t = 0
  about : ∀ g ∈ r.2, g.about ≠ some t

section Foreign

open SameSystem (note wakeupTask)

variable {t e : ι} {s : System ι θ} {th : θ} {now : Chrono} {r : After ι θ}

theorem foreign_nil {s' : System ι θ} (h : SameSystem t s s') : Foreign t s (s', []) :=
  ⟨h, by simp, by simp⟩

theorem foreign_one {s' : System ι θ} {g : Frame ι} (h : SameSystem t s s') (hc : g.count t = 0)
    (ha : g.about ≠ some t) : Foreign t s (s', [g]) :=
  ⟨h, by simpa using hc, by simpa using ha⟩

theorem foreign_exec {s' : System ι θ} {p : ExecPoint} (h : SameSystem t s s') (he : e ≠ t) :
    Foreign t s (s', [.exec e p]) :=
  foreign_one h (by simp [Frame.count, he]) (by simpa [Frame.about] using he)

variable [DecidableEq θ]

theorem submitStep_foreign (he : e ≠ t) {initialDelay interval : Chrono} {p : SubmitPoint}
    (h : submitStep s th e initialDelay interval now p = some r) : Foreign t s r := by
  have hlocked : ∀ s₀ : System ι θ, SameSystem t s s₀ →
      Foreign t s (submitLocked s₀ th e initialDelay interval now) := by
    intro s₀ hs₀
    have htaskLck : ∀ o, Function.update s₀.taskLck e o t = s.taskLck t := fun o => by
      rw [Function.update_of_ne he.symm, hs₀.taskLck]
    unfold submitLocked
    split
    · rename_i w r hw
      refine foreign_nil ((?_ : SameSystem t s _).trans ((note he _ _).trans (.return_ ..)))
      exact ⟨hs₀.w.trans (.submitPut he hw), hs₀.hist, htaskLck _, hs₀.condTask, hs₀.qs,
        hs₀.workers⟩
    · exact foreign_one ⟨hs₀.w, hs₀.hist, htaskLck _, hs₀.condTask, hs₀.qs, hs₀.workers⟩ rfl
        (by simpa [Frame.about] using he)
  cases p with
  | check =>
    simp only [submitStep] at h
    split_ifs at h <;> cases h
    · exact foreign_one (.refl t s) rfl (by simpa [Frame.about] using he)
    all_goals exact foreign_nil (.return_ ..)
  | lock =>
    simp only [submitStep] at h
    split_ifs at h
    cases h
    exact hlocked _ (.world (.submitFields he ..))
  | blocked =>
    cases h
    exact hlocked _ (.refl t s)

theorem destroyStep_foreign (he : e ≠ t) {unlock : Bool} {p : DestroyPoint}
    (h : destroyStep s th e unlock p = some r) : Foreign t s r := by
  have hnext : ∀ {s' : System ι θ} {p : DestroyPoint}, SameSystem t s s' →
      Foreign t s (s', [.destroy e unlock p]) :=
    fun hs => foreign_one hs rfl (by simpa [Frame.about] using he)
  have hend : ∀ {s' : System ι θ}, SameSystem t s s' → Foreign t s (destroyed s' unlock) := by
    intro s' hs
    unfold destroyed
    split_ifs
    · exact foreign_nil (hs.trans (.lck ..))
    · exact foreign_nil hs
  have hdelete : SameSystem t s (deleteLocked s e).1 := by
    unfold deleteLocked
    refine SameSystem.trans ?_ ((SameSystem.modTask he _ _).trans (wakeupTask he _))
    have hdel : SameTask t s.w (s.w.deleteInTable e) := .deleteInTable he _
    split_ifs
    · exact SameSystem.trans (.world (hdel.trans (.modTask he _ _))) (note he _ _)
    · exact SameSystem.trans (.world (hdel.trans (.modTask he _ _))) (note he _ _)
    · exact .refl t s
  cases p with
  | unsched =>
    simp only [destroyStep] at h
    split_ifs at h
    cases h
    exact hnext (.world (.doUnsched he _))
  | setTable =>
    cases h
    exact hnext (.world (.setStateInTable he _ _))
  | check =>
    simp only [destroyStep] at h
    split_ifs at h <;> cases h
    · exact hnext (.refl t s)
    · exact hend (.refl t s)
  | delete =>
    simp only [destroyStep] at h
    generalize deleteLocked s e = d at h hdelete
    obtain ⟨s', didDelete⟩ := d
    dsimp only at h hdelete
    split_ifs at h <;> cases h
    · exact hnext hdelete
    · exact hend hdelete
  | free =>
    cases h
    exact hend (note he _ _)

theorem cancelStep_foreign (he : e ≠ t) {p : CancelPoint}
    (h : cancelStep s th e p = some r) : Foreign t s r := by
  have hnext : ∀ {s' : System ι θ} {p : CancelPoint}, SameSystem t s s' →
      Foreign t s (s', [.cancel e p]) :=
    fun hs => foreign_one hs rfl (by simpa [Frame.about] using he)
  have hdestroy : ∀ {s' : System ι θ}, SameSystem t s s' →
      Foreign t s (s', [.destroy e false .unsched]) :=
    fun hs => foreign_one hs rfl (by simpa [Frame.about] using he)
  cases p <;> simp only [cancelStep] at h
  case check =>
    split_ifs at h <;> cases h
    · exact hnext (.refl t s)
    · exact foreign_nil (.refl t s)
  case readExec st =>
    split_ifs at h <;> cases h
    · exact hnext (.refl t s)
    · exact hnext (.refl t s)
    · exact foreign_nil (.refl t s)
  case count =>
    cases h
    exact hnext (.modTask he _ _)
  case wait =>
    split_ifs at h <;> cases h
    · exact hnext (.refl t s)
    · exact hnext (.refl t s)
  case asleep => contradiction
  case readStatus =>
    split_ifs at h <;> cases h
    · exact foreign_nil (.refl t s)
    · exact hnext (.refl t s)
  case uncount =>
    cases h
    split_ifs
    · exact foreign_nil (.modTask he _ _)
    · exact hdestroy (.modTask he _ _)
  case mark st =>
    split_ifs at h <;> cases h
    · exact hdestroy (note he _ _)
    · exact foreign_nil ((SameSystem.world (.setState he _ _)).trans (note he _ _))

theorem execStep_foreign (he : e ≠ t) {p : ExecPoint}
    (h : execStep s th e now p = some r) : Foreign t s r := by
  have hnext : ∀ {s' : System ι θ} {p : ExecPoint}, SameSystem t s s' →
      Foreign t s (s', [.exec e p]) := fun hs => foreign_exec hs he
  have hother : ∀ st, Foreign t s (s, notTheDequeuedState e st) := by
    intro st
    unfold notTheDequeuedState
    split
    · exact hnext (.refl t s)
    · exact foreign_nil (.refl t s)
  have hbegin : SameSystem t s (execBegin s th e) := by
    have hstate := (SameTask.setState he s.w .executing).trans
      (.modTask he _ fun x => { x with isFirst := false })
    have hlck := Function.update_of_ne he.symm (some th) s.taskLck
    exact ⟨hstate, Function.update_of_ne he.symm _ _, hlck, rfl, rfl, rfl⟩
  cases p <;> simp only [execStep] at h
  case check =>
    split_ifs at h <;> cases h
    · exact hnext (.refl t s)
    · exact hother _
  case count =>
    cases h
    exact hnext (.modTask he _ _)
  case recheck =>
    split_ifs at h <;> cases h
    · exact hnext hbegin
    · exact hother _
  case body => contradiction
  case resched =>
    split_ifs at h
    cases h
    have hsched := SameTask.doSched he s.w now
    unfold execResched
    exact hnext ((note he s _).trans (.world hsched))
  case leave =>
    cases h
    exact foreign_nil (.modTask he _ _)
  case leaveDelete =>
    cases h
    exact hnext (.modTask he _ _)
  case lockDelete =>
    split_ifs at h
    cases h
    exact foreign_one (.lck ..) rfl (by simpa [Frame.about] using he)
  case wakeup =>
    split_ifs at h
    cases h
    exact foreign_nil ((SameSystem.modTask he _ _).trans (wakeupTask he _))
  all_goals
    cases h
    exact hnext (.refl t s)

theorem forceStep_foreign (he : e ≠ t) {p : ForcePoint}
    (h : forceStep s th e now p = some r) : Foreign t s r := by
  cases p <;> simp only [forceStep] at h
  case check =>
    split_ifs at h <;> cases h
    · exact foreign_one (.refl t s) rfl (by simpa [Frame.about] using he)
    · exact foreign_nil (.return_ ..)
  case lock =>
    split_ifs at h <;> cases h
    · exact foreign_one (.world ((SameTask.doUnsched he _).trans (.setState he _ _)))
        (by simp [Frame.count, he]) (by simpa [Frame.about] using he)
    all_goals exact foreign_nil (.return_ ..)
  case run =>
    cases h
    have hcount : ((finalTaskSched s now [e]).count t = 0) := by
      unfold finalTaskSched
      split_ifs <;> simp [Frame.count, he]
    have habout : (finalTaskSched s now [e]).about = none := by
      unfold finalTaskSched
      split_ifs <;> rfl
    exact foreign_one (.return_ ..) hcount (by simp [habout])

omit [DecidableEq θ] in
theorem execEnd_foreign (he : e ≠ t) (r : Result) : Foreign t s (execEnd s e r) := by
  have hlck := Function.update_of_ne he.symm none s.taskLck
  unfold execEnd
  split_ifs
  · exact foreign_exec ⟨.refl t s.w, rfl, hlck, rfl, rfl, rfl⟩ he
  · exact foreign_exec ⟨.setState he _ _, rfl, hlck, rfl, rfl, rfl⟩ he

theorem resetInterval_foreign (he : e ≠ t) {interval : Chrono} {s' : System ι θ}
    (h : resetInterval s th e interval = some s') : SameSystem t s s' := by
  unfold resetInterval at h
  split_ifs at h <;> cases h
  · exact (SameSystem.modTask he s _).trans (.return_ ..)
  · exact .return_ ..
  · exact .return_ ..

omit [DecidableEq θ] in
theorem createTask_foreign (he : e ≠ t) {hasArg hasFreeproc : Bool} {s' : System ι θ}
    (h : createTask s e hasArg hasFreeproc = some s') : SameSystem t s s' := by
  unfold createTask at h
  split_ifs at h
  cases h
  have hworld := (SameTask.modTask he s.w fun _ => newTask hasArg hasFreeproc).trans
    (.setStateInTable he _ .created)
  exact (SameSystem.world hworld).trans (.note he _ _)

/-- A step of a call about another task. -/
theorem frameStep_foreign {f : Frame ι} (hf : f.about = some e) (he : e ≠ t)
    (h : frameStep s th now f = some r) : Foreign t s r := by
  cases f <;> simp only [Frame.about, Option.some.injEq, reduceCtorEq] at hf <;> subst hf
  · exact submitStep_foreign he h
  · exact cancelStep_foreign he h
  · exact execStep_foreign he h
  · exact destroyStep_foreign he h
  · exact forceStep_foreign he h

end Foreign

end Callout
end Gallus
