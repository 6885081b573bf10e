import Gallus.Callout.Cancel

/-!
# The cancellers that wait

A canceller that finds a task in execution counts itself, and sleeps until nobody executes the
task any more. The last executor notifies it, or one that destroys the task.

* `NoLostWakeup`: somebody is counted, or will notify the cancellers that sleep.
* `no_lost_wakeup`: this holds if no executor is the last one to leave without a notification, and
  no destruction is given up, while a canceller sleeps.
* `lostWakeup_asleepForever`: an executor that leaves in between.
-/

namespace Gallus
namespace Callout

variable {ι θ : Type} [DecidableEq ι] [DecidableEq θ]

/-- A canceller that sleeps and was not notified. -/
def Frame.sleeps (t : ι) (notified : Nat) : Frame ι → Bool
  | .cancel e (.asleep since) => e = t && decide (notified ≤ since)
  | _ => false

/-- A call that is about to notify the cancellers of the task. -/
def Frame.notifies (t : ι) : Frame ι → Bool
  | .exec e .lockDelete | .exec e .wakeup => e = t
  | .destroy e _ .unsched | .destroy e _ .setTable | .destroy e _ .check | .destroy e _ .delete =>
    e = t
  | _ => false

/-- A canceller sleeps while nobody is counted, and nobody is about to notify it. -/
def lostWakeup (t : ι) (s : System ι θ) : Prop :=
  (s.w.task t).execRefCount = 0 ∧
    (∃ th, ∃ f ∈ s.stack th, f.sleeps t (s.condTask t) = true) ∧
    ∀ th, ∀ f ∈ s.stack th, f.notifies t = false

/-- The next step of the call may leave nobody who notifies: the last executor counts itself off
without a notification, the counter overflows, or a destruction is given up. -/
def Frame.leavesAsleep (t : ι) (w : Callout ι) : Frame ι → Bool
  | .exec e .leave => e = t && addCount (w.task t).execRefCount (-1) = 0
  | .exec e .count => e = t && addCount (w.task t).execRefCount 1 = 0
  | .destroy e _ .check =>
    e = t && w.getStateInTable t ≠ .cancelled && (w.task t).execRefCount = 0
  | _ => false

/-- No such step is taken while a canceller sleeps. -/
def leavesAwake (t : ι) (s : System ι θ) (e : Event ι θ) : Prop :=
  ∀ f ∈ running s e, f.leavesAsleep t s.w = true →
    ∀ th, ∀ g ∈ s.stack th, g.sleeps t (s.condTask t) = false

/-- A canceller that sleeps is notified by somebody. -/
structure NoLostWakeup (t : ι) (s : System ι θ) : Prop where
  since : ∀ th n, .cancel t (.asleep n) ∈ s.stack th → n ≤ s.condTask t
  served : (∃ th, ∃ f ∈ s.stack th, f.sleeps t (s.condTask t) = true) →
    (s.w.task t).execRefCount ≠ 0 ∨ ∃ th, ∃ f ∈ s.stack th, f.notifies t = true
  unborn : (s.hist t).created = false → Placed t .nowhere s

/-- What a step does for the cancellers of the task, with `gs` in the place of `popped`. -/
structure Serves (t : ι) (popped : List (Frame ι)) (s s' : System ι θ) (gs : List (Frame ι)) :
    Prop where
  created : (s.hist t).created = true → (s'.hist t).created = true
  cond : s.condTask t ≤ s'.condTask t
  asleep : ∀ n, .cancel t (.asleep n) ∈ gs →
    n = s.condTask t ∧ (s'.w.task t).execRefCount ≠ 0
  served : (∀ f ∈ popped, f.leavesAsleep t s.w = false) → s'.condTask t = s.condTask t →
    ((s.w.task t).execRefCount ≠ 0 ∨ ∃ f ∈ popped, f.notifies t = true) →
    (s'.w.task t).execRefCount ≠ 0 ∨ ∃ g ∈ gs, g.notifies t = true

variable {t e : ι} {s s' s₁ : System ι θ} {th : θ} {now : Chrono} {f : Frame ι}
  {fs gs : List (Frame ι)}

omit [DecidableEq θ] in
theorem Serves.of_aside {popped : List (Frame ι)} (h : Aside t s s')
    (hpop : ∀ f ∈ popped, f.notifies t = false) (hgs : ∀ n, .cancel t (.asleep n) ∉ gs) :
    Serves t popped s s' gs := by
  refine ⟨fun hc => h.created.trans hc, h.condTask.ge, fun n hn => absurd hn (hgs n),
    fun _ _ hold => .inl ?_⟩
  rw [h.touched.exec]
  rcases hold with hexec | ⟨f, hf, hnot⟩
  · exact hexec
  · exact absurd hnot (by simp [hpop f hf])

omit [DecidableEq θ] in
/-- A step that notifies. -/
theorem Serves.of_notified {popped : List (Frame ι)}
    (hcreated : (s'.hist t).created = (s.hist t).created) (h : s.condTask t < s'.condTask t)
    (hgs : ∀ n, .cancel t (.asleep n) ∉ gs) : Serves t popped s s' gs :=
  ⟨fun hc => hcreated.trans hc, h.le, fun n hn => absurd hn (hgs n),
    fun _ heq => absurd heq h.ne'⟩

omit [DecidableEq θ] in
/-- A step that keeps the counter or has a call that will notify. -/
theorem Serves.of_kept {popped : List (Frame ι)}
    (hcreated : (s'.hist t).created = (s.hist t).created) (h : s'.condTask t = s.condTask t)
    (hgs : ∀ n, .cancel t (.asleep n) ∉ gs)
    (hkept : (∀ f ∈ popped, f.leavesAsleep t s.w = false) →
      (s'.w.task t).execRefCount = (s.w.task t).execRefCount ∧
        (∀ f ∈ popped, f.notifies t = false) ∨
      (s'.w.task t).execRefCount ≠ 0 ∨ ∃ g ∈ gs, g.notifies t = true) :
    Serves t popped s s' gs := by
  refine ⟨fun hc => hcreated.trans hc, h.ge, fun n hn => absurd hn (hgs n), fun hf _ hold => ?_⟩
  rcases hkept hf with ⟨hexec, hpop⟩ | hnext
  · rcases hold with hcount | ⟨f, hf, hnot⟩
    · exact .inl (hexec ▸ hcount)
    · exact absurd hnot (by simp [hpop f hf])
  · exact hnext

theorem submitStep_serves {initialDelay interval : Chrono} {q : SubmitPoint}
    (hr : submitStep s th t initialDelay interval now q = some (s', gs)) :
    Aside t s s' ∧ ∀ n, .cancel t (.asleep n) ∉ gs := by
  have hlocked : ∀ s₁ : System ι θ, Aside t s s₁ →
      submitLocked s₁ th t initialDelay interval now = (s', gs) →
      Aside t s s' ∧ ∀ n, .cancel t (.asleep n) ∉ gs := by
    intro s₁ hs₁ hl
    unfold submitLocked at hl
    split at hl
    · rename_i w r hw
      cases hl
      exact ⟨⟨hs₁.touched.trans (.submitPut hw), hs₁.condTask,
        by simpa [System.note, System.return_] using hs₁.created⟩, by simp⟩
    · cases hl
      exact ⟨⟨hs₁.touched, hs₁.condTask, hs₁.created⟩, by simp⟩
  have hrefl : Aside t s s := .of_same (.refl t s)
  cases q <;> simp only [submitStep] at hr
  case check =>
    split_ifs at hr <;> cases hr
    · exact ⟨hrefl, by simp⟩
    all_goals exact ⟨.of_same (.return_ ..), by simp⟩
  case lock =>
    split_ifs at hr
    exact hlocked _ (.world (.submitFields t s.w initialDelay interval)) (Option.some.inj hr)
  case blocked => exact hlocked s hrefl (Option.some.inj hr)

theorem cancelStep_serves {q : CancelPoint} (hr : cancelStep s th t q = some (s', gs)) :
    Serves t [.cancel t q] s s' gs := by
  have hpop : ∀ f ∈ [Frame.cancel t q], f.notifies t = false := by simp [Frame.notifies]
  have haside : ∀ {s₁ : System ι θ} {gs : List (Frame ι)}, Aside t s s₁ →
      (∀ n, .cancel t (.asleep n) ∉ gs) → Serves t [.cancel t q] s s₁ gs := fun h hgs =>
    .of_aside h hpop hgs
  have hcount : ∀ {d : Int} {gs : List (Frame ι)}, (∀ n, .cancel t (.asleep n) ∉ gs) →
      Serves t [.cancel t q] s (addCancel s t d) gs := fun hgs =>
    .of_kept rfl rfl hgs fun _ =>
      .inl ⟨by simp [addCancel, System.modTask], hpop⟩
  cases q <;> simp only [cancelStep] at hr
  case asleep => contradiction
  case count =>
    cases hr
    exact hcount (by simp)
  case uncount =>
    cases hr
    apply hcount
    intro n
    split_ifs <;> simp
  case wait =>
    split_ifs at hr with hlock hexec <;> cases hr
    · refine ⟨id, le_rfl, fun n hn => ?_, fun _ _ _ => .inl hexec⟩
      simp only [List.mem_singleton, Frame.cancel.injEq, CancelPoint.asleep.injEq, true_and] at hn
      exact ⟨hn, hexec⟩
    · exact haside (.of_same (.refl t s)) (by simp)
  case mark st =>
    split_ifs at hr <;> cases hr
    · exact haside ⟨.refl t s.w, rfl, by simp [System.note]⟩ (by simp)
    · exact haside ⟨.setState t s.w .cancelled, rfl, by simp [setCancelled, System.note]⟩ (by simp)
  all_goals
    split_ifs at hr <;> cases hr <;> exact haside (.of_same (.refl t s)) (by simp)

theorem execStep_serves {q : ExecPoint}
    (hr : execStep s th t now q = some (s', gs)) : Serves t [.exec t q] s s' gs := by
  have hsame : ∀ {gs : List (Frame ι)}, (Frame.exec t q).notifies t = false →
      (∀ n, .cancel t (.asleep n) ∉ gs) → Serves t [.exec t q] s s gs := fun hpop hgs =>
    .of_aside (.of_same (.refl t s)) (by simpa using hpop) hgs
  have hother : ∀ st n, .cancel t (.asleep n) ∉ notTheDequeuedState t st := by
    intro st n
    unfold notTheDequeuedState
    split <;> simp
  cases q <;> simp only [execStep] at hr
  case check =>
    split_ifs at hr <;> cases hr
    · exact hsame rfl (by simp)
    · exact hsame rfl (hother _)
  case count =>
    cases hr
    refine .of_kept rfl rfl (by simp) fun hf => .inr (.inl ?_)
    simpa [addExec, System.modTask, Frame.leavesAsleep] using hf
  case recheck =>
    split_ifs at hr <;> cases hr
    · exact .of_kept (by simp [execBegin, System.note]) rfl (by simp)
        fun _ => .inl ⟨(execBegin_touched t th s).exec, by simp [Frame.notifies]⟩
    · exact hsame rfl (hother _)
  case body => contradiction
  case resched =>
    split_ifs at hr
    obtain ⟨hw, hcond, hcreated, hgs⟩ := execResched_eq (Option.some.inj hr)
    refine .of_kept hcreated (by rw [hcond]) ?_ fun _ => .inl ⟨?_, by simp [Frame.notifies]⟩
    · rcases hgs with rfl | rfl <;> simp
    · rw [hw]
      exact (Touched.doSched t s.w now).exec
  case leave =>
    cases hr
    refine .of_kept rfl rfl (by simp) fun hf => .inr (.inl ?_)
    simpa [addExec, System.modTask, Frame.leavesAsleep] using hf
  case leaveDelete =>
    cases hr
    exact .of_kept rfl rfl (by simp) fun _ =>
      .inr (.inr ⟨_, List.mem_singleton_self _, by simp [Frame.notifies]⟩)
  case lockDelete =>
    split_ifs at hr
    cases hr
    exact .of_kept rfl rfl (by simp) fun _ =>
      .inr (.inr ⟨_, List.mem_singleton_self _, by simp [Frame.notifies]⟩)
  case wakeup =>
    split_ifs at hr
    cases hr
    exact .of_notified rfl (by simp [System.wakeupTask, addExec, System.modTask]) (by simp)
  all_goals
    cases hr
    exact hsame rfl (by simp)

omit [DecidableEq θ] in
theorem deleteLocked_serves (s : System ι θ) (t : ι) :
    s.condTask t < (deleteLocked s t).1.condTask t ∧
      ((deleteLocked s t).1.hist t).created = (s.hist t).created := by
  by_cases hst : (s.w.task t).status = .deleting
  · simp [deleteLocked, hst, System.wakeupTask, System.modTask]
  · simp only [deleteLocked, hst, ne_eq, not_false_eq_true, decide_true, if_true,
      System.wakeupTask, System.modTask, System.note, Function.update_self]
    refine ⟨Nat.lt_succ_self _, ?_⟩
    split_ifs <;> rfl

theorem destroyStep_serves {unlock : Bool} {q : DestroyPoint}
    (hr : destroyStep s th t unlock q = some (s', gs)) :
    Serves t [.destroy t unlock q] s s' gs := by
  have hnext : ∀ {q : DestroyPoint}, (Frame.destroy t unlock q).notifies t = true →
      ∃ g ∈ [Frame.destroy t unlock q], g.notifies t = true := fun h =>
    ⟨_, List.mem_singleton_self _, h⟩
  cases q <;> simp only [destroyStep] at hr
  case unsched =>
    split_ifs at hr
    cases hr
    exact .of_kept rfl rfl (by simp) fun _ => .inr (.inr (hnext (by simp [Frame.notifies])))
  case setTable =>
    cases hr
    exact .of_kept rfl rfl (by simp) fun _ => .inr (.inr (hnext (by simp [Frame.notifies])))
  case check =>
    split_ifs at hr with hst
    · cases hr
      exact .of_kept rfl rfl (by simp) fun _ => .inr (.inr (hnext (by simp [Frame.notifies])))
    · obtain ⟨⟨o, rfl⟩, rfl⟩ := destroyed_eq (Option.some.inj hr)
      refine .of_kept rfl rfl (by simp) fun hf => .inr (.inl ?_)
      simpa [Frame.leavesAsleep, hst] using hf
  case delete =>
    obtain ⟨hcond, hcreated⟩ := deleteLocked_serves s t
    generalize deleteLocked s t = d at hr hcond hcreated
    obtain ⟨s₁, didDelete⟩ := d
    dsimp only at hr hcond hcreated
    split_ifs at hr
    · cases hr
      exact .of_notified hcreated hcond (by simp)
    · obtain ⟨⟨o, rfl⟩, rfl⟩ := destroyed_eq (Option.some.inj hr)
      exact .of_notified hcreated hcond (by simp)
  case free =>
    obtain ⟨⟨o, rfl⟩, rfl⟩ := destroyed_eq (Option.some.inj hr)
    refine .of_kept ?_ rfl (by simp) fun _ => .inl ⟨rfl, by simp [Frame.notifies]⟩
    simp [System.note]

theorem forceStep_aside {q : ForcePoint} (hr : forceStep s th t now q = some (s', gs)) :
    Aside t s s' ∧ ∀ n, .cancel t (.asleep n) ∉ gs := by
  cases q <;> simp only [forceStep] at hr
  case check =>
    split_ifs at hr <;> cases hr
    · exact ⟨.of_same (.refl t s), by simp⟩
    · exact ⟨.of_same (.return_ ..), by simp⟩
  case lock =>
    split_ifs at hr <;> cases hr
    · exact ⟨.world ((Touched.doUnsched t s.w).trans (.setState t _ .dequeued)), by simp⟩
    all_goals exact ⟨.of_same (.return_ ..), by simp⟩
  case run =>
    cases hr
    refine ⟨.of_same (.return_ ..), fun n hn => ?_⟩
    have habout := finalTaskSched_about s now [t]
    rw [← List.mem_singleton.mp hn] at habout
    simp [Frame.about] at habout

/-- A step of a call. -/
theorem frameStep_serves (hr : frameStep s th now f = some (s', gs)) : Serves t [f] s s' gs := by
  by_cases ha : f.about = some t
  · cases f <;> simp only [Frame.about, Option.some.injEq, reduceCtorEq] at ha <;> subst ha
    case submit =>
      obtain ⟨haside, hgs⟩ := submitStep_serves hr
      exact .of_aside haside (by simp [Frame.notifies]) hgs
    case cancel => exact cancelStep_serves hr
    case exec => exact execStep_serves hr
    case destroy => exact destroyStep_serves hr
    case force =>
      obtain ⟨haside, hgs⟩ := forceStep_aside hr
      exact .of_aside haside (by simp [Frame.notifies]) hgs
  · obtain ⟨haside, hgs⟩ := frameStep_aside ha hr
    refine .of_aside haside ?_ fun n hn => absurd (hgs _ hn rfl) (by simp)
    simp only [List.mem_singleton, forall_eq]
    unfold Frame.notifies
    unfold Frame.about at ha
    split <;> simp_all

theorem Frame.sleeps_iff {n : Nat} :
    f.sleeps t n = true ↔ ∃ since, f = .cancel t (.asleep since) ∧ n ≤ since := by
  constructor
  · intro h
    unfold Frame.sleeps at h
    split at h
    · rename_i e since
      simp only [Bool.and_eq_true, decide_eq_true_eq] at h
      exact ⟨since, by rw [h.1], h.2⟩
    · contradiction
  · rintro ⟨since, rfl, hle⟩
    simp [Frame.sleeps, hle]

/-- What a step has to show. -/
theorem NoLostWakeup.after {popped : List (Frame ι)} (h : NoLostWakeup t s)
    (hs : s.stack th = popped ++ fs) (hserves : Serves t popped s s' gs)
    (hok : (∃ th, ∃ g ∈ s.stack th, g.sleeps t (s.condTask t) = true) →
      ∀ f ∈ popped, f.leavesAsleep t s.w = false)
    (hunborn : (s'.hist t).created = false → Placed t .nowhere (s.after s' th now (gs ++ fs))) :
    NoLostWakeup t (s.after s' th now (gs ++ fs)) := by
  have hstack : (s.after s' th now (gs ++ fs)).stack = Function.update s.stack th (gs ++ fs) := rfl
  have hfs : ∀ g ∈ fs, g ∈ s.stack th := fun g hg => hs ▸ List.mem_append_right _ hg
  -- a canceller asleep after the step was asleep before it, or has seen the counter
  have hsleepers : ∀ th' n, .cancel t (.asleep n) ∈ (s.after s' th now (gs ++ fs)).stack th' →
      (∃ th', .cancel t (.asleep n) ∈ s.stack th') ∨
        n = s.condTask t ∧ (s'.w.task t).execRefCount ≠ 0 := by
    intro th' n hn
    rw [hstack] at hn
    by_cases hth : th' = th
    · subst hth
      rw [Function.update_self, List.mem_append] at hn
      rcases hn with hn | hn
      · exact .inr (hserves.asleep n hn)
      · exact .inl ⟨th', hfs _ hn⟩
    · rw [Function.update_of_ne hth] at hn
      exact .inl ⟨th', hn⟩
  refine ⟨fun th' n hn => ?_, ?_, hunborn⟩
  · rcases hsleepers th' n hn with ⟨th₀, hn₀⟩ | ⟨rfl, -⟩
    · exact (h.since th₀ n hn₀).trans hserves.cond
    · exact hserves.cond
  · rintro ⟨th', g, hg, hsleep⟩
    obtain ⟨n, rfl, hle⟩ := Frame.sleeps_iff.mp hsleep
    rcases hsleepers th' n hg with ⟨th₀, hn₀⟩ | ⟨-, hexec⟩
    · have hn := h.since th₀ n hn₀
      have hsame : s'.condTask t = s.condTask t := le_antisymm (hle.trans hn) hserves.cond
      have hold : ∃ th, ∃ g ∈ s.stack th, g.sleeps t (s.condTask t) = true :=
        ⟨th₀, _, hn₀, Frame.sleeps_iff.mpr ⟨n, rfl, hsame ▸ hle⟩⟩
      have hpop : ((s.w.task t).execRefCount ≠ 0 ∨ ∃ f ∈ popped, f.notifies t = true) →
          (s'.w.task t).execRefCount ≠ 0 ∨
            ∃ th₁, ∃ g ∈ (s.after s' th now (gs ++ fs)).stack th₁, g.notifies t = true := by
        intro hserved
        refine (hserves.served (hok hold) hsame hserved).imp id ?_
        rintro ⟨g, hg, hnot⟩
        exact ⟨th, g, by simp [hstack, hg], hnot⟩
      rcases h.served hold with hexec | ⟨th₁, f, hf, hnot⟩
      · exact hpop (.inl hexec)
      · by_cases hth : th₁ = th
        · subst hth
          rw [hs, List.mem_append] at hf
          rcases hf with hf | hf
          · exact hpop (.inr ⟨f, hf, hnot⟩)
          · exact .inr ⟨th₁, f, by simp [hstack, hf], hnot⟩
        · exact .inr ⟨th₁, f, by simpa [hstack, hth] using hf, hnot⟩
    · exact .inl hexec

theorem callStep_serves {op : Op ι} (hop : ∀ hasArg hasFreeproc, op ≠ .create t hasArg hasFreeproc)
    (hr : callStep s th now op = some (s', gs)) : Serves t [] s s' gs := by
  have haside : ∀ {s₁ : System ι θ} {gs : List (Frame ι)}, Aside t s s₁ →
      (∀ n, .cancel t (.asleep n) ∉ gs) → Serves t [] s s₁ gs := fun h hgs =>
    .of_aside h (by simp) hgs
  cases op <;> simp only [callStep] at hr
  case create e hasArg hasFreeproc =>
    rw [Option.map_eq_some_iff] at hr
    obtain ⟨s₁, hcreate, heq⟩ := hr
    cases heq
    have he : e ≠ t := fun he => hop hasArg hasFreeproc (he ▸ rfl)
    exact haside (.of_same (createTask_foreign he hcreate)) (by simp)
  case resetInterval e interval =>
    split_ifs at hr
    rw [Option.map_eq_some_iff] at hr
    obtain ⟨s₁, hreset, heq⟩ := hr
    cases heq
    unfold resetInterval at hreset
    split_ifs at hreset <;> cases hreset
    · have hany := Touched.modAny t e s.w (f := fun x => { x with intervalTime := interval })
        fun _ => ⟨rfl, rfl, rfl⟩
      exact haside ⟨hany, rfl, rfl⟩ (by simp)
    all_goals exact haside (.of_same (.return_ ..)) (by simp)
  case work =>
    split_ifs at hr
    cases hr
    exact haside ⟨.refl t s.w, rfl, rfl⟩ (by simp)
  all_goals
    split_ifs at hr
    cases hr
    exact haside (.of_same (.refl t s)) (by simp)

omit [DecidableEq θ] in
theorem execEnd_serves (e : ι) (r : Result) :
    Serves t [.exec e .body] s (execEnd s e r).1 (execEnd s e r).2 := by
  have hpop : ∀ f ∈ [Frame.exec e .body], f.notifies t = false := by simp [Frame.notifies]
  unfold execEnd
  split_ifs
  · exact .of_aside ⟨.refl t s.w, rfl, rfl⟩ hpop (by simp)
  · exact .of_aside ⟨.setAny t e s.w .execFailed, rfl, rfl⟩ hpop (by simp)

/-- Nobody knows a task that is not created. -/
theorem Placed.stays_unborn {e : Event ι θ} (h : Placed t .nowhere s)
    (hborn : (s.hist t).created = false) (hborn' : (s'.hist t).created = false)
    (hstep : Callout.step s e = some s') : Placed t .nowhere s' := by
  have honce : submitsOnce t s e := by
    intro f hf hsub
    have hmem : f ∈ s.stack e.thread := by
      unfold running at hf
      split at hf
      · exact List.mem_of_mem_head? hf
      · contradiction
    refine absurd ?_ ((h.unborn hborn).2.2 e.thread f hmem)
    unfold Frame.submits at hsub
    split at hsub <;> simp_all [Frame.about]
  obtain ⟨p, hp⟩ := h.step honce hstep
  exact (hp.unborn hborn').1 ▸ hp

/-- A new task has no cancellers. -/
theorem createTask_noLostWakeup {hasArg hasFreeproc : Bool} (h : NoLostWakeup t s)
    (hr : createTask s t hasArg hasFreeproc = some s') (th : θ) (now : Chrono) :
    NoLostWakeup t (s.after s' th now (s.stack th)) := by
  unfold createTask at hr
  split_ifs at hr with hnew
  cases hr
  have hnone : ∀ th' n, .cancel t (.asleep n) ∉ Function.update s.stack th (s.stack th) th' := by
    intro th' n hn
    rw [Function.update_eq_self] at hn
    exact ((h.unborn hnew.2).unborn hnew.2).2.2 th' _ hn rfl
  refine ⟨fun th' n hn => absurd hn (hnone th' n), ?_, ?_⟩
  · rintro ⟨th', g, hg, hsleep⟩
    obtain ⟨n, rfl, -⟩ := Frame.sleeps_iff.mp hsleep
    exact absurd hg (hnone th' n)
  · simp [System.after, System.note]

theorem NoLostWakeup.step {e : Event ι θ} (h : NoLostWakeup t s) (hok : leavesAwake t s e)
    (hstep : step s e = some s') : NoLostWakeup t s' := by
  have hunborn : ∀ {s₁ : System ι θ} {popped gs : List (Frame ι)}, Serves t popped s s₁ gs →
      s'.hist = s₁.hist → (s'.hist t).created = false → Placed t .nowhere s' := by
    intro s₁ popped gs hserves hhist hborn'
    have hborn : (s.hist t).created = false := by
      by_contra hc
      have hc' := hserves.created (by simpa using hc)
      rw [← hhist, hborn'] at hc'
      contradiction
    exact (h.unborn hborn).stays_unborn hborn hborn' hstep
  have hawake : ∀ {f : Frame ι}, running s e = some f →
      (∃ th, ∃ g ∈ s.stack th, g.sleeps t (s.condTask t) = true) →
      ∀ g ∈ [f], g.leavesAsleep t s.w = false := by
    rintro f hrun ⟨th, g, hg, hsleep⟩ f' hf'
    obtain rfl := List.mem_singleton.mp hf'
    by_contra hleaves
    have hnone := hok f' (by simp [hrun]) (by simpa using hleaves) th g hg
    rw [hsleep] at hnone
    contradiction
  have hstepped := step_cases hstep
  cases hstepped with
  | call hact hr =>
    rename_i op s₁ gs
    by_cases hop : ∃ hasArg hasFreeproc, op = .create t hasArg hasFreeproc
    · obtain ⟨hasArg, hasFreeproc, rfl⟩ := hop
      simp only [callStep, Option.map_eq_some_iff] at hr
      obtain ⟨s₂, hcreate, heq⟩ := hr
      cases heq
      exact createTask_noLostWakeup h hcreate e.thread e.now
    · have hserves := callStep_serves (fun hasArg hasFreeproc heq => hop ⟨_, _, heq⟩) hr
      exact h.after rfl hserves (by simp) (hunborn hserves rfl)
  | go hact hs hr =>
    have hserves := frameStep_serves (t := t) hr
    exact h.after hs hserves (hawake (by simp [running, hact, hs])) (hunborn hserves rfl)
  | finish hact hs =>
    rename_i e' r fs
    have hserves : Serves t [.exec e' .body] s (execEnd s e' r).1 (execEnd s e' r).2 :=
      execEnd_serves e' r
    exact h.after hs hserves (by simp [Frame.leavesAsleep]) (hunborn hserves rfl)
  | wake hact hs hwoken =>
    rename_i spurious e' since fs
    have hserves : Serves t [.cancel e' (.asleep since)] s s [.cancel e' .wait] :=
      .of_aside (.of_same (.refl t s)) (by simp [Frame.notifies]) (by simp)
    exact h.after hs hserves (by simp [Frame.leavesAsleep]) (hunborn hserves rfl)

theorem NoLostWakeup.init (t : ι) (clock : Chrono) (mainLoop : θ) (workers : List θ) :
    NoLostWakeup t (System.init clock mainLoop workers : System ι θ) where
  since _ _ hf := absurd hf List.not_mem_nil
  served := by
    rintro ⟨th, f, hf, -⟩
    exact absurd hf List.not_mem_nil
  unborn _ := .init t clock mainLoop workers

/-- **No lost wake-up.** If no executor is the last one to count himself off, and no destruction is
given up, while a canceller sleeps, then no canceller sleeps with nobody counted and nobody who
will notify it. -/
theorem no_lost_wakeup {t : ι} {clock : Chrono} {mainLoop : θ} {workers : List θ}
    {es : List (Event ι θ)} {s : System ι θ}
    (h : Trans.Run step (leavesAwake t) (System.init clock mainLoop workers) es s) :
    ¬ lostWakeup t s := by
  have hinv : NoLostWakeup t s := h.inv (fun s e s' hs hok hstep => hs.step hok hstep)
    (.init t clock mainLoop workers)
  rintro ⟨hexec, hsleep, hnone⟩
  rcases hinv.served hsleep with hcount | ⟨th, f, hf, hnot⟩
  · exact hcount hexec
  · rw [hnone th f hf] at hnot
    contradiction

instance [Fintype θ] (t : ι) (s : System ι θ) (e : Event ι θ) : Decidable (leavesAwake t s e) :=
  inferInstanceAs (Decidable (∀ f ∈ running s e, f.leavesAsleep t s.w = true → _))

/-- A canceller waits for an executor, who sees it and is about to notify it. -/
def cancelledWhileRunning : List (Event (Fin 1) (Fin 4)) :=
  [⟨3, 1, .call (.create 0 false false)⟩, ⟨3, 1, .call (.submit 0 0 10000)⟩] ++ steps 3 1 2 ++
    [⟨0, 1, .call .iterate⟩] ++ steps 0 1 6 ++ [⟨1, 1, .call .work⟩] ++ steps 1 1 4 ++
    [⟨3, 1, .call (.cancel 0)⟩] ++ steps 3 1 3 ++ [⟨1, 1, .finish Result.ok⟩] ++
    steps 3 1 1 ++ steps 1 1 2

theorem no_lost_wakeup_cancelledWhileRunning :
    ∃ s, Trans.Run step (leavesAwake 0) (System.init 1 0 [1]) cancelledWhileRunning s ∧
      s.stack 1 = [.exec 0 .wakeup, .worker []] ∧ s.stack 3 = [.cancel 0 (.asleep 0)] ∧
      ¬ lostWakeup 0 s := by
  have h : ((Trans.run (Trans.guarded step (leavesAwake 0)) (System.init 1 0 [1])
      cancelledWhileRunning).map fun s => (s.stack 1, s.stack 3)) =
      some ([.exec 0 .wakeup, .worker []], [.cancel 0 (.asleep 0)]) := by decide +kernel
  obtain ⟨s, hrun, hs⟩ := Option.map_eq_some_iff.mp h
  simp only [Prod.mk.injEq] at hs
  obtain ⟨hstack, hasleep⟩ := hs
  exact ⟨s, .of_guarded hrun, hstack, hasleep, no_lost_wakeup (.of_guarded hrun)⟩

/-- The first worker has submitted the task again, without having seen a canceller, and is late to
count itself off; the second one has fetched the task by then and drops it. Neither notifies the
canceller that came between, and the task is in no queue any more. -/
def asleepForever : List (Event (Fin 1) (Fin 4)) :=
  [⟨3, 1, .call (.create 0 false false)⟩, ⟨3, 1, .call (.submit 0 0 10000)⟩] ++ steps 3 1 2 ++
    [⟨0, 1, .call .iterate⟩] ++ steps 0 1 6 ++ [⟨1, 1, .call .work⟩] ++ steps 1 1 4 ++
    [⟨1, 1, .finish Result.ok⟩] ++ steps 1 1 3 ++ [⟨0, 10001, .call .iterate⟩] ++ steps 0 10001 6 ++
    [⟨2, 10001, .call .work⟩] ++ steps 2 10001 3 ++ [⟨3, 10001, .call (.cancel 0)⟩] ++
    steps 3 10001 4 ++ steps 2 10001 2 ++ steps 1 10001 2

theorem lostWakeup_asleepForever :
    ∃ s, Trans.run step (System.init 1 0 [1, 2]) asleepForever = some s ∧ lostWakeup 0 s ∧
      (∀ th, th ≠ 3 → s.stack th = []) ∧ s.stack 3 = [.cancel 0 (.asleep 0)] ∧
      s.w.urgentTskQ ++ s.w.idleTskQ ++ s.w.chronoTskQ = [] ∧ ∀ th, s.qs th = [] := by
  have h : ((Trans.run step (System.init 1 0 [1, 2]) asleepForever).map fun s =>
        (((s.w.task 0).execRefCount, s.condTask 0), s.stack 3,
          s.w.urgentTskQ ++ s.w.idleTskQ ++ s.w.chronoTskQ,
          decide (∀ th, (th ≠ 3 → s.stack th = []) ∧ s.qs th = []))) =
      some ((0, 0), [.cancel 0 (.asleep 0)], [], true) := by decide +kernel
  obtain ⟨s, hrun, hs⟩ := Option.map_eq_some_iff.mp h
  simp only [Prod.mk.injEq, decide_eq_true_eq] at hs
  obtain ⟨⟨hexec, hcond⟩, hstack, hqueues, hothers⟩ := hs
  refine ⟨s, hrun, ⟨hexec, ⟨3, _, hstack ▸ List.mem_singleton_self _, ?_⟩, ?_⟩,
    fun th => (hothers th).1, hstack, hqueues, fun th => (hothers th).2⟩
  · simp [Frame.sleeps, hcond]
  · intro th f hf
    by_cases hth : th = 3
    · subst hth
      rw [hstack, List.mem_singleton] at hf
      rw [hf]
      rfl
    · rw [(hothers th).1 hth] at hf
      exact absurd hf List.not_mem_nil

end Callout
end Gallus
