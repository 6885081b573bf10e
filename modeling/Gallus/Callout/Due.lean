import Gallus.Callout.Places
import Mathlib.Data.List.Chain

/-!
# Timed tasks are not run early

`Times` is what the timing of a task depends on, in its record and in its history. `OnTime t s`
says of the task `t`, wherever it is: when the scheduler can take it out of the timed queue, its due
time has come, up to the jitter; and when it can be run again, so has the interval since its last
run.

* A step that does not change the `Times` of a task keeps `OnTime` (`OnTime.keep`).
* The others are the submission, the fetch, the stamp, the run and the re-submission. There the
  task has one place only.
* `never_early`: no task is taken or run early, if each submission takes effect in the state
  `CREATED`. The state is looked at before the locks are taken, and `early_doubleSubmission` is
  what two submissions at once lead to.
-/

namespace Gallus
namespace Callout

variable {ι θ : Type} [DecidableEq ι]

/-- The time stamps of consecutive runs, the latest first, are the interval apart, up to the
jitter. -/
def spaced (runs : List (Chrono × Chrono)) : Prop :=
  runs.IsChain fun later earlier => earlier.1 + earlier.2 - calloutTaskSchedJitter ≤ later.1

/-- What the timing of a task depends on. -/
structure Times where
  lastAbstime : Chrono
  nextAbstime : Chrono
  isFirst : Bool
  doRepeat : Bool
  runs : List (Chrono × Chrono)
  due : Chrono
  taken : List (Chrono × Chrono)

/-- The timing of the task `t`. -/
def System.times (s : System ι θ) (t : ι) : Times where
  lastAbstime := (s.w.task t).lastAbstime
  nextAbstime := (s.w.task t).nextAbstime
  isFirst := (s.w.task t).isFirst
  doRepeat := (s.w.task t).doRepeat
  runs := (s.hist t).runs
  due := (s.hist t).due
  taken := (s.hist t).taken

/-- At the time stamp `start`, the task may run again. -/
def Times.mayRun (v : Times) (start : Chrono) : Prop :=
  ∀ r ∈ v.runs.head?, r.1 + r.2 - calloutTaskSchedJitter ≤ start

/-- The task in the timed queue. -/
def Times.queued (v : Times) : Prop :=
  v.due ≤ v.nextAbstime ∧ ∀ r ∈ v.runs.head?, r.1 + r.2 ≤ v.nextAbstime

/-- The task while it is run, and up to its re-submission. -/
def Times.running (v : Times) : Prop :=
  (∃ interval, v.runs.head? = some (v.lastAbstime, interval)) ∧ v.isFirst = false

/-- An execution of the task. -/
def ExecPoint.onTime (v : Times) : ExecPoint → Prop
  | .check | .count | .recheck => v.mayRun v.lastAbstime
  | .body | .readCancel | .readRepeat => v.running
  | .resched => v.running ∧ v.doRepeat = true
  | _ => True

/-- A call, as far as it has the task `t` in its hands. A forced execution of it is none. -/
def Frame.onTime (t : ι) (v : Times) : Frame ι → Prop
  | .exec e p => e = t → p.onTime v
  -- A submission with a delay does not wait for room.
  | .submit e initialDelay _ p => e = t → p = .blocked → initialDelay ≤ 0
  | .force e _ => e ≠ t
  | .fetchTimed _ urgentTasks idleTasks =>
    0 < urgentTasks.count t + idleTasks.count t → v.runs = []
  | .runTasksBySelf start tasks => 0 < tasks.count t → v.mayRun start
  | .stamp start todo stamped =>
    (0 < todo.count t → v.mayRun start) ∧ (0 < stamped.count t → v.mayRun v.lastAbstime)
  | .put _ _ _ tasks | .worker tasks => 0 < tasks.count t → v.mayRun v.lastAbstime
  | _ => True

/-- The task `t` is on time, wherever it is. -/
structure OnTime (t : ι) (s : System ι θ) : Prop where
  taken : ∀ d ∈ (s.times t).taken, d.2 - calloutTaskSchedJitter ≤ d.1
  runs : spaced (s.times t).runs
  fresh : (s.hist t).created = false ∨ s.w.tskTbl t = some .created →
    (s.times t).runs = [] ∧ (s.times t).isFirst = true ∧ (s.times t).taken = []
  urgent : 0 < s.w.urgentTskQ.count t → (s.times t).runs = []
  idle : 0 < s.w.idleTskQ.count t → (s.times t).runs = []
  timed : 0 < s.w.chronoTskQ.count t → (s.times t).queued
  queue : ∀ i, 0 < (s.qs i).count t → (s.times t).mayRun (s.times t).lastAbstime
  thread : ∀ th, ∀ f ∈ s.stack th, f.onTime t (s.times t)

/-- The timing of `t` is as before, and no place has it that had it not. -/
structure SameTimes (t : ι) (s s' : System ι θ) : Prop where
  times : s'.times t = s.times t
  created : (s'.hist t).created = (s.hist t).created
  fresh : s'.w.tskTbl t = some .created → s.w.tskTbl t = some .created
  urgent : s'.w.urgentTskQ.count t ≤ s.w.urgentTskQ.count t
  idle : s'.w.idleTskQ.count t ≤ s.w.idleTskQ.count t
  timed : s'.w.chronoTskQ.count t ≤ s.w.chronoTskQ.count t
  queue : ∀ i, (s'.qs i).count t ≤ (s.qs i).count t

variable {t : ι} {p : Place θ} {s s' s₁ : System ι θ} {th : θ} {now : Chrono}
  {f : Frame ι} {fs gs : List (Frame ι)} {v v' : Times}

namespace SameTimes

theorem refl (t : ι) (s : System ι θ) : SameTimes t s s :=
  ⟨rfl, rfl, id, le_rfl, le_rfl, le_rfl, fun _ => le_rfl⟩

theorem of_same (h : SameSystem t s s') : SameTimes t s s' :=
  ⟨by simp [System.times, h.w.task, h.hist], congrArg History.created h.hist,
    fun hf => h.w.tskTbl ▸ hf, h.w.urgent.le, h.w.idle.le, h.w.timed.le, fun i => by rw [h.qs]⟩

theorem of_queues (h : SameQueues t s s') (htimes : s'.times t = s.times t) : SameTimes t s s' :=
  ⟨htimes, h.created, h.fresh, h.urgent.le, h.idle.le, h.timed.le, fun i => (h.queue i).le⟩

end SameTimes

theorem Times.mayRun_of_notRun (h : v.runs = []) (start : Chrono) : v.mayRun start := by
  intro r hr
  rw [h] at hr
  contradiction

/-- A step that leaves the timing of the task alone. -/
theorem OnTime.keep [DecidableEq θ] (h : OnTime t s) (hsame : SameTimes t s s')
    (hfs : ∀ f ∈ fs, f.onTime t (s.times t)) : OnTime t (s.after s' th now fs) := by
  have htimes : (s.after s' th now fs).times t = s.times t := hsame.times
  refine ⟨?_, ?_, ?_, ?_, ?_, ?_, ?_, ?_⟩
  · rw [htimes]; exact h.taken
  · rw [htimes]; exact h.runs
  · rw [htimes]
    exact fun hf => h.fresh (hf.imp (hsame.created ▸ ·) hsame.fresh)
  · rw [htimes]; exact fun hc => h.urgent (hc.trans_le hsame.urgent)
  · rw [htimes]; exact fun hc => h.idle (hc.trans_le hsame.idle)
  · rw [htimes]; exact fun hc => h.timed (hc.trans_le hsame.timed)
  · rw [htimes]; exact fun i hc => h.queue i (hc.trans_le (hsame.queue i))
  · rw [htimes]; exact mem_after hfs h.thread

/-! ## Steps that leave the timing alone -/

theorem times_modTask {g : Task → Task} (hg : ∀ x, (g x).lastAbstime = x.lastAbstime ∧
    (g x).nextAbstime = x.nextAbstime ∧ (g x).isFirst = x.isFirst ∧
    (g x).doRepeat = x.doRepeat) : (s.modTask t g).times t = s.times t := by
  obtain ⟨h₁, h₂, h₃, h₄⟩ := hg (s.w.task t)
  simp [System.times, System.modTask, h₁, h₂, h₃, h₄]

theorem times_addExec (d : Int) : (addExec s t d).times t = s.times t :=
  times_modTask fun _ => ⟨rfl, rfl, rfl, rfl⟩

theorem times_addCancel (d : Int) : (addCancel s t d).times t = s.times t :=
  times_modTask fun _ => ⟨rfl, rfl, rfl, rfl⟩

/-- The calls below the running one. -/
theorem OnTime.rest (h : OnTime t s) (hs : s.stack th = f :: fs)
    (hgs : ∀ g ∈ gs, g.onTime t (s.times t)) : ∀ g ∈ gs ++ fs, g.onTime t (s.times t) := by
  intro g hg
  rcases List.mem_append.mp hg with hg | hg
  · exact hgs g hg
  · exact h.thread th g (hs ▸ List.mem_cons_of_mem _ hg)

variable [DecidableEq θ]

theorem OnTime.next (h : OnTime t s) (hs : s.stack th = f :: fs)
    (hsame : SameTimes t s s') (hgs : ∀ g ∈ gs, g.onTime t (s.times t)) :
    OnTime t (s.after s' th now (gs ++ fs)) :=
  h.keep hsame (h.rest hs hgs)

theorem cancelStep_onTime {q : CancelPoint} (h : OnTime t s)
    (hs : s.stack th = .cancel t q :: fs) (hr : cancelStep s th t q = some (s', gs)) :
    OnTime t (s.after s' th now (gs ++ fs)) := by
  have hkeep : ∀ {s' : System ι θ} {gs : List (Frame ι)}, SameTimes t s s' →
      (∀ g ∈ gs, g.onTime t (s.times t)) → OnTime t (s.after s' th now (gs ++ fs)) :=
    fun hs' hgs => h.next hs hs' hgs
  cases q <;> simp only [cancelStep] at hr
  case asleep => contradiction
  case count =>
    cases hr
    exact hkeep ⟨times_addCancel 1, rfl, id, le_rfl, le_rfl, le_rfl, fun _ => le_rfl⟩
      (by simp [Frame.onTime])
  case uncount =>
    cases hr
    refine hkeep ⟨times_addCancel (-1), rfl, id, le_rfl, le_rfl, le_rfl, fun _ => le_rfl⟩ ?_
    split_ifs <;> simp [Frame.onTime]
  case mark st =>
    split_ifs at hr <;> cases hr
    · refine hkeep ⟨?_, ?_, id, le_rfl, le_rfl, le_rfl, fun _ => le_rfl⟩ (by simp [Frame.onTime])
      · simp [System.times, System.note]
      · simp [System.note]
    · refine hkeep ⟨?_, ?_, ?_, le_rfl, le_rfl, le_rfl, fun _ => le_rfl⟩ (by simp)
      · simp [System.times, System.note, setCancelled]
      · simp [System.note, setCancelled]
      · simp [System.note, setCancelled, setState, setStateInTable, modTask]
  all_goals
    split_ifs at hr <;> cases hr
    all_goals exact hkeep (.refl t s) (by simp [Frame.onTime])

theorem destroyStep_onTime {unlock : Bool} {q : DestroyPoint} (h : OnTime t s)
    (hs : s.stack th = .destroy t unlock q :: fs)
    (hr : destroyStep s th t unlock q = some (s', gs)) :
    OnTime t (s.after s' th now (gs ++ fs)) := by
  have hkeep : ∀ {s' : System ι θ} {gs : List (Frame ι)}, SameTimes t s s' →
      (∀ g ∈ gs, g.onTime t (s.times t)) → OnTime t (s.after s' th now (gs ++ fs)) :=
    fun hs' hgs => h.next hs hs' hgs
  have hend : ∀ {s₁ : System ι θ}, SameTimes t s s₁ → destroyed s₁ unlock = (s', gs) →
      OnTime t (s.after s' th now (gs ++ fs)) := by
    intro s₁ hs₁ hd
    obtain ⟨⟨o, rfl⟩, rfl⟩ := destroyed_eq hd
    exact hkeep
      ⟨hs₁.times, hs₁.created, hs₁.fresh, hs₁.urgent, hs₁.idle, hs₁.timed, hs₁.queue⟩ (by simp)
  have hdelete : SameTimes t s (deleteLocked s t).1 := by
    unfold deleteLocked
    dsimp only
    split_ifs
    · refine ⟨?_, ?_, ?_, le_rfl, le_rfl, le_rfl, fun _ => le_rfl⟩ <;>
        simp [System.times, System.note, System.modTask, System.wakeupTask, deleteInTable, modTask]
    · refine ⟨?_, ?_, ?_, le_rfl, le_rfl, le_rfl, fun _ => le_rfl⟩ <;>
        simp [System.times, System.note, System.modTask, System.wakeupTask, deleteInTable, modTask]
    · refine ⟨?_, rfl, id, le_rfl, le_rfl, le_rfl, fun _ => le_rfl⟩
      simp [System.times, System.modTask, System.wakeupTask]
  cases q <;> simp only [destroyStep] at hr
  case unsched =>
    split_ifs at hr
    cases hr
    refine hkeep ?_ (by simp [Frame.onTime])
    by_cases hf : s.w.flag t = true
    · have hu := doUnsched_unsched hf
      refine ⟨?_, rfl, ?_, by simp [hu.urgent], by simp [hu.idle], ?_, fun _ => le_rfl⟩
      · simp only [System.times, hu.task_self]
        split_ifs <;> rfl
      · simp only [hu.tskTbl_self]
        split_ifs
        · simp
        · exact id
      · simp only [hu.timed]
        exact List.Sublist.count_le _ List.erase_sublist
    · rw [doUnsched_of_not s.w hf]
      exact .refl t s
  case setTable =>
    cases hr
    exact hkeep ⟨rfl, rfl, by simp [setStateInTable], le_rfl, le_rfl, le_rfl, fun _ => le_rfl⟩
      (by simp [Frame.onTime])
  case check =>
    split_ifs at hr
    · cases hr
      exact hkeep (.refl t s) (by simp [Frame.onTime])
    · exact hend (.refl t s) (Option.some.inj hr)
  case delete =>
    generalize deleteLocked s t = d at hr hdelete
    obtain ⟨s₁, didDelete⟩ := d
    dsimp only at hr hdelete
    split_ifs at hr
    · cases hr
      exact hkeep hdelete (by simp [Frame.onTime])
    · exact hend hdelete (Option.some.inj hr)
  case free =>
    have hnote : SameTimes t s (s.note t fun h => { h with destroyed := true }) := by
      refine ⟨?_, ?_, id, le_rfl, le_rfl, le_rfl, fun _ => le_rfl⟩ <;>
        simp [System.times, System.note]
    exact hend hnote (Option.some.inj hr)

/-! ## Steps of other calls -/

/-- A call that has no hand on the task. -/
theorem Frame.onTime_of_count (hc : f.count t = 0) (h : f.about = some t → f.onTime t v') :
    f.onTime t v := by
  cases f with
  | exec e q =>
    rintro rfl
    cases q <;> simp [Frame.count, ExecPoint.holds] at hc <;> trivial
  | submit e _ _ q =>
    rintro rfl
    exact h rfl rfl
  | force e q =>
    rintro rfl
    exact h rfl rfl
  | stamp start todo stamped =>
    simp only [Frame.count] at hc
    exact ⟨fun h => by omega, fun h => by omega⟩
  | fetchTimed _ _ _ | runTasksBySelf _ _ | put _ _ _ _ | worker _ =>
    simp only [Frame.count] at hc
    exact fun h => by omega
  | cancel | destroy | fetch => trivial

theorem OnTime.foreign (h : OnTime t s) (hs : s.stack th = f :: fs) (hr : Foreign t s (s', gs)) :
    OnTime t (s.after s' th now (gs ++ fs)) := by
  refine h.next hs (.of_same hr.same) fun g hg => ?_
  have hnot : g.about = some t → g.onTime t (s.times t) := fun ha => absurd ha (hr.about g hg)
  exact Frame.onTime_of_count (hr.count g hg) hnot

/-- The calls of all threads after a step of the thread that has the task in its hands. -/
theorem OnTime.threads (h : OnTime t s) (hfree : ∀ th', th' ≠ th → held t (s.stack th') = 0)
    (hsub : ∀ g ∈ fs, g ∈ s.stack th) (hfs : held t fs = 0) (hgs : ∀ g ∈ gs, g.onTime t v)
    (th' : θ) : ∀ g ∈ (s.after s' th now (gs ++ fs)).stack th', g.onTime t v := by
  have hold : ∀ {th'} {fs : List (Frame ι)}, held t fs = 0 → (∀ g ∈ fs, g ∈ s.stack th') →
      ∀ g ∈ fs, g.onTime t v := fun hz hmem g hg =>
    Frame.onTime_of_count (count_of_held hz hg) fun _ => h.thread _ g (hmem g hg)
  by_cases hth : th' = th
  · subst hth
    intro g hg
    simp only [System.after, Function.update_self, List.mem_append] at hg
    rcases hg with hg | hg
    · exact hgs g hg
    · exact hold hfs hsub g hg
  · simpa [System.after, hth] using hold (hfree th' hth) fun _ => id

/-- What is needed of a step that changes the timing of the task in the hands of its thread. -/
theorem OnTime.hands (h : OnTime t s) (hp : Placed t p s) (hs : s.stack th = f :: fs)
    (hcount : 0 < f.count t) (hq : SameQueues t s s')
    (htaken : (s'.times t).taken = (s.times t).taken)
    (hruns : spaced (s'.times t).runs)
    (hgs : ∀ g ∈ gs, g.onTime t (s'.times t)) : OnTime t (s.after s' th now (gs ++ fs)) := by
  have hborn := hp.born_of_count hs hcount
  obtain ⟨rfl, hzero, hfree⟩ := hp.hands hs hcount
  have hnone : ∀ {n : Nat} {P : Prop}, n = 0 → 0 < n → P := fun hz hpos => by omega
  refine ⟨fun d hd => h.taken d (htaken ▸ hd), hruns, ?_, ?_, ?_, ?_, ?_, ?_⟩
  · rintro (hc | hf)
    · exact absurd (hc.symm.trans (hq.created.trans hborn)) Bool.false_ne_true
    · exact absurd (hp.fresh (hq.fresh hf)) (by simp)
  · exact hnone (hq.urgent.trans hp.urgent)
  · exact hnone (hq.idle.trans hp.idle)
  · exact hnone (hq.timed.trans hp.timed)
  · exact fun i => hnone ((hq.queue i).trans (hp.queue i))
  · exact h.threads hfree (fun g hg => hs ▸ List.mem_cons_of_mem _ hg) hzero hgs

/-! ## Executions -/

omit [DecidableEq θ] in
theorem execBegin_times (t : ι) (th : θ) (s : System ι θ) :
    (execBegin s th t).times t =
      { s.times t with
        isFirst := false
        runs := ((s.times t).lastAbstime, (s.w.task t).intervalTime) :: (s.times t).runs } := by
  simp [execBegin, System.times, System.note]

/-- The task that has run is put into the timed queue again. -/
theorem OnTime.resched (h : OnTime t s) (hp : Placed t p s)
    (hs : s.stack th = .exec t .resched :: fs) (hq : ExecPoint.onTime (s.times t) .resched)
    (hsum : (s.w.task t).lastAbstime + (s.w.task t).intervalTime < 2 ^ 63)
    (hr : execResched s t now = (s', gs)) : OnTime t (s.after s' th now (gs ++ fs)) := by
  have hborn := hp.born_of_count hs (by simp [Frame.count, ExecPoint.holds])
  obtain ⟨rfl, hzero, hfree⟩ := hp.hands hs (by simp [Frame.count, ExecPoint.holds])
  obtain ⟨⟨hhead, hfirst⟩, hrep⟩ := hq
  obtain ⟨hsched, -⟩ := doSched_sched now (by simpa using hp.flag)
  unfold execResched at hr
  have hw : ∀ g : History → History, (s.note t g).w = s.w := fun _ => rfl
  simp only [hw] at hr
  generalize doSched s.w t now = d at hr hsched
  obtain ⟨w, next⟩ := d
  cases hr
  dsimp only at hsched
  obtain ⟨interval, hhead⟩ := hhead
  obtain ⟨runs, hruns⟩ := List.head?_eq_some_iff.mp hhead
  have hfollow : (s.hist t).followed (s.w.task t).intervalTime =
      { s.hist t with
        runs := ((s.w.task t).lastAbstime, (s.w.task t).intervalTime) :: runs
        due := (s.w.task t).lastAbstime + (s.w.task t).intervalTime } := by
    have hruns' : (s.hist t).runs = ((s.w.task t).lastAbstime, interval) :: runs := hruns
    unfold History.followed
    rw [hruns']
  have hspaced : spaced (((s.w.task t).lastAbstime, (s.w.task t).intervalTime) :: runs) := by
    have hold := h.runs
    rw [hruns] at hold
    unfold spaced at hold ⊢
    rw [List.isChain_cons] at hold ⊢
    exact hold
  have hnext := le_i64 hsum
  have hself : w.task t = { s.w.task t with
      nextAbstime := i64 ((s.w.task t).lastAbstime + (s.w.task t).intervalTime)
      status := .enqueued, isInTimedQ := true } := by
    rw [hsched.task_self, scheduled, computeNext, if_pos ⟨hfirst, hrep⟩]
  refine ⟨?_, ?_, ?_, ?_, ?_, ?_, ?_, ?_⟩
  · simpa [System.after, System.times, System.note, hfollow] using h.taken
  · simpa [System.after, System.times, System.note, hfollow] using hspaced
  · simp [System.after, System.note, hborn, hsched.tskTbl]
  · have := hp.urgent
    simp_all [System.after, hsched.urgent]
  · have := hp.idle
    simp_all [System.after, hsched.idle]
  · intro _
    simp [Times.queued, System.after, System.times, System.note, hself, hfollow, hnext]
  · intro i hc
    have := hp.queue i
    simp_all [System.after, System.note]
  · refine h.threads hfree (fun g hg => hs ▸ List.mem_cons_of_mem _ hg) hzero ?_
    split_ifs <;> simp [Frame.onTime, ExecPoint.onTime]

theorem execStep_onTime {q : ExecPoint} (h : OnTime t s) (hp : Placed t p s)
    (hs : s.stack th = .exec t q :: fs)
    (hsum : q = .resched → (s.w.task t).lastAbstime + (s.w.task t).intervalTime < 2 ^ 63)
    (hr : execStep s th t now q = some (s', gs)) : OnTime t (s.after s' th now (gs ++ fs)) := by
  have hq : q.onTime (s.times t) := h.thread th (.exec t q) (hs ▸ List.mem_cons_self) rfl
  have hkeep : ∀ {s' : System ι θ} {gs : List (Frame ι)}, SameTimes t s s' →
      (∀ g ∈ gs, g.onTime t (s.times t)) → OnTime t (s.after s' th now (gs ++ fs)) :=
    fun hs' hgs => h.next hs hs' hgs
  have hexec : ∀ d : Int, SameTimes t s (addExec s t d) := fun d =>
    ⟨times_addExec d, rfl, id, le_rfl, le_rfl, le_rfl, fun _ => le_rfl⟩
  have hother : ∀ st, ∀ g ∈ notTheDequeuedState t st, g.onTime t (s.times t) := by
    intro st
    unfold notTheDequeuedState
    split <;> simp [Frame.onTime, ExecPoint.onTime]
  have hone : ∀ {e : ExecPoint}, e.onTime (s.times t) →
      ∀ g ∈ [Frame.exec t e], g.onTime t (s.times t) := by
    intro e he g hg
    rw [List.mem_singleton.mp hg]
    exact fun _ => he
  cases q <;> simp only [execStep] at hr
  case check =>
    split_ifs at hr <;> cases hr
    · exact hkeep (.refl t s) (hone hq)
    · exact hkeep (.refl t s) (hother _)
  case count =>
    cases hr
    refine hkeep (hexec 1) (hone ?_)
    split_ifs
    · exact hq
    · trivial
  case recheck =>
    split_ifs at hr <;> cases hr
    · have htimes := execBegin_times t th s
      refine h.hands hp hs (by simp [Frame.count, ExecPoint.holds]) (execBegin_queues t th s)
        (by rw [htimes]) ?_ ?_
      · rw [htimes]
        exact List.isChain_cons.mpr ⟨hq, h.runs⟩
      · rw [htimes]
        simp [Frame.onTime, ExecPoint.onTime, Times.running]
    · exact hkeep (.refl t s) (hother _)
  case body => contradiction
  case readCancel =>
    cases hr
    refine hkeep (.refl t s) (hone ?_)
    split_ifs
    · exact hq
    · trivial
  case readRepeat =>
    cases hr
    refine hkeep (.refl t s) (hone ?_)
    split_ifs with hrep
    · exact ⟨hq, hrep⟩
    · trivial
  case resched =>
    split_ifs at hr
    exact h.resched hp hs hq (hsum rfl) (Option.some.inj hr)
  case leave =>
    cases hr
    exact hkeep (hexec (-1)) (by simp)
  case readCancelDelete =>
    cases hr
    refine hkeep (.refl t s) (hone ?_)
    split_ifs <;> trivial
  case leaveDelete =>
    cases hr
    exact hkeep (hexec (-1)) (hone trivial)
  case lockDelete =>
    split_ifs at hr
    cases hr
    exact hkeep (.of_same (.lck ..)) (by simp [Frame.onTime])
  case wakeup =>
    split_ifs at hr
    cases hr
    exact hkeep ⟨times_addExec (-1), rfl, id, le_rfl, le_rfl, le_rfl, fun _ => le_rfl⟩ (by simp)

theorem execEnd_onTime {ret : Result} (h : OnTime t s) (hs : s.stack th = .exec t .body :: fs)
    (hr : execEnd s t ret = (s', gs)) : OnTime t (s.after s' th now (gs ++ fs)) := by
  have hq : (s.times t).running := h.thread th (.exec t .body) (hs ▸ List.mem_cons_self) rfl
  unfold execEnd at hr
  split_ifs at hr <;> cases hr
  · refine h.next hs ⟨rfl, rfl, id, le_rfl, le_rfl, le_rfl, fun _ => le_rfl⟩ ?_
    simpa [Frame.onTime, ExecPoint.onTime] using hq
  · refine h.next hs ⟨?_, rfl, ?_, le_rfl, le_rfl, le_rfl, fun _ => le_rfl⟩ ?_
    · simp [System.times]
    · simp [setState, setStateInTable, modTask]
    · simp [Frame.onTime, ExecPoint.onTime]

/-! ## The main loop and the workers -/

theorem fetchStep_onTime {start : Chrono} (h : OnTime t s) (hs : s.stack th = .fetch start :: fs)
    (hr : fetchStep s start = some (s', gs)) : OnTime t (s.after s' th now (gs ++ fs)) := by
  unfold fetchStep at hr
  split_ifs at hr
  cases hr
  have hu := count_take_add_drop t calloutTaskMax s.w.urgentTskQ
  have hi := count_take_add_drop t calloutTaskMax s.w.idleTskQ
  refine h.next hs ⟨rfl, rfl, id, ?_, ?_, le_rfl, fun _ => le_rfl⟩ ?_
  · show (s.w.urgentTskQ.drop calloutTaskMax).count t ≤ _
    omega
  · show (s.w.idleTskQ.drop calloutTaskMax).count t ≤ _
    omega
  · intro g hg
    rw [List.mem_singleton.mp hg]
    intro hpos
    rcases Nat.eq_zero_or_pos ((s.w.urgentTskQ.take calloutTaskMax).count t) with hz | hpos'
    · exact h.idle (by omega)
    · exact h.urgent (by omega)

omit [DecidableEq θ] in
/-- The batch of an iteration. -/
theorem runBatch_onTime {start : Chrono} {tasks : List ι}
    (hrun : 0 < tasks.count t → v.mayRun start) :
    ∀ g ∈ fetchTimedStep.runBatch start s tasks, g.onTime t v := by
  unfold fetchTimedStep.runBatch finalTaskSched
  split_ifs
  · simp
  · simpa [Frame.onTime] using hrun
  · simpa [Frame.onTime] using hrun

theorem fetchTimedStep_onTime {start : Chrono} {urgentTasks idleTasks : List ι}
    (h : OnTime t s) (hp : Placed t p s)
    (hs : s.stack th = .fetchTimed start urgentTasks idleTasks :: fs)
    (hsum : start + calloutTaskSchedJitter < 2 ^ 63)
    (hr : fetchTimedStep s start urgentTasks idleTasks = some (s', gs)) :
    OnTime t (s.after s' th now (gs ++ fs)) := by
  have hruns : 0 < urgentTasks.count t + idleTasks.count t → (s.times t).runs = [] :=
    h.thread th (.fetchTimed start urgentTasks idleTasks) (hs ▸ List.mem_cons_self)
  have hmay : ∀ {v : Times}, v.runs = [] → v.mayRun start := fun hv =>
    Times.mayRun_of_notRun hv start
  unfold fetchTimedStep at hr
  have hone : s.w.chronoTskQ.count t ≤ 1 := by
    rw [hp.timed]
    split_ifs <;> omega
  split_ifs at hr with hstart
  · have htaken := takeRunnables_taken t (i64 (start + calloutTaskSchedJitter)) calloutTaskMax s.w
      hone
    have habs : i64 (start + calloutTaskSchedJitter) = start + calloutTaskSchedJitter := by
      have hpos : (0 : Int) < start := hstart
      have hjitter : (0 : Int) < calloutTaskSchedJitter := by decide
      exact i64_of_range (by omega) hsum
    rw [getRunnables_eq] at hr
    rw [habs] at hr htaken
    generalize takeRunnables (start + calloutTaskSchedJitter) calloutTaskMax s.w = d
      at hr htaken
    obtain ⟨w, tasks⟩ := d
    dsimp only at hr htaken
    split_ifs at hr
    cases hr
    rcases htaken with ⟨hsame, hnot⟩ | ⟨hdue, htask, htbl, hurgent, hidle, htimed, hmem⟩
    · have hmem : t ∉ tasks := List.count_eq_zero.mp hnot
      refine h.next hs ⟨?_, by simp [hmem], fun hf => hsame.tskTbl ▸ hf, hsame.urgent.le,
        hsame.idle.le, hsame.timed.le, fun _ => le_rfl⟩
        (runBatch_onTime fun hpos => hmay (hruns ?_))
      · simp [System.times, hmem, hsame.task]
      · simp only [List.count_append] at hpos
        omega
    · obtain rfl : p = .timed := by
        by_contra hne
        rw [hp.timed, if_neg hne] at htimed
        omega
      have hmem' : t ∈ tasks := List.count_pos_iff.mp hmem
      have hfree : ∀ th', held t (s.stack th') = 0 := fun th' => by rw [hp.thread, if_neg (by simp)]
      have hzero : held t fs = 0 := by
        have := hfree th
        rw [hs, held_cons] at this
        omega
      obtain ⟨hdue', hrun⟩ := h.timed (by omega)
      have htimed' : w.chronoTskQ.count t = 0 := by
        have := hp.timed
        rw [if_pos rfl] at this
        omega
      refine ⟨?_, ?_, ?_, ?_, ?_, ?_, ?_, ?_⟩
      · intro d hd
        simp only [System.after, System.times, hmem', if_true, List.mem_cons] at hd
        rcases hd with rfl | hd
        · exact Int.sub_right_le_of_le_add (hdue'.trans hdue)
        · exact h.taken d hd
      · simpa [System.after, System.times, hmem', htask, takenOut] using h.runs
      · simp [System.after, htbl, hmem', hp.born_of_place]
      · have := hp.urgent
        simp_all [System.after]
      · have := hp.idle
        simp_all [System.after]
      · intro hc
        exact absurd htimed' hc.ne'
      · intro i hc
        exact absurd (hp.queue i) hc.ne'
      · refine h.threads (fun th' _ => hfree th') (fun g hg => hs ▸ List.mem_cons_of_mem _ hg) hzero
          (runBatch_onTime fun _ r hr => ?_)
        have hr' : r.1 + r.2 ≤ (s.times t).nextAbstime :=
          hrun r (by simpa [System.times, System.after, hmem'] using hr)
        exact Int.sub_right_le_of_le_add (hr'.trans hdue)
  · cases hr
    refine h.next hs (.refl t s) (runBatch_onTime fun hpos => hmay (hruns ?_))
    simpa [List.count_append] using hpos

theorem stampTask_times (start : Chrono) (w : Callout ι) (t : ι) :
    ∃ st, (stampTask w t start).task t =
      { w.task t with status := st, lastAbstime := start } := by
  unfold stampTask
  dsimp only
  split_ifs
  · exact ⟨.dequeued, by simp⟩
  · exact ⟨(w.task t).status, by simp⟩

/-- A stamp of the task in the hands of its thread. -/
theorem OnTime.stamp {start : Chrono} (h : OnTime t s) (hp : Placed t p s)
    (hs : s.stack th = f :: fs) (hcount : 0 < f.count t)
    (hgs : ∀ g ∈ gs, g.onTime t { s.times t with lastAbstime := start }) :
    OnTime t (s.after { s with w := stampTask s.w t start } th now (gs ++ fs)) := by
  obtain ⟨st, hself⟩ := stampTask_times start s.w t
  have htimes : System.times ({ s with w := stampTask s.w t start } : System ι θ) t =
      { s.times t with lastAbstime := start } := by
    simp [System.times, hself]
  refine h.hands hp hs hcount (stampTask_queues t start s) (by rw [htimes]) ?_ (htimes ▸ hgs)
  rw [htimes]
  exact h.runs

theorem runTasksBySelfStep_onTime {start : Chrono} {tasks : List ι} (h : OnTime t s)
    (hp : Placed t p s) (hs : s.stack th = .runTasksBySelf start tasks :: fs)
    (hr : runTasksBySelfStep s th start tasks = some (s', gs)) :
    OnTime t (s.after s' th now (gs ++ fs)) := by
  have hmay : 0 < tasks.count t → (s.times t).mayRun start :=
    h.thread th (.runTasksBySelf start tasks) (hs ▸ List.mem_cons_self)
  cases tasks with
  | nil =>
    cases hr
    exact h.next hs (.refl t s) (by simp)
  | cons e tasks =>
    simp only [runTasksBySelfStep] at hr
    split_ifs at hr
    cases hr
    by_cases he : e = t
    · subst he
      have hrun := hmay (by simp)
      refine h.stamp hp hs (by simp [Frame.count]) ?_
      simpa [Frame.onTime, ExecPoint.onTime] using ⟨hrun, fun _ => hrun⟩
    · refine h.next hs (.of_same (.world (.stampTask he ..))) ?_
      simpa [Frame.onTime, he] using hmay

theorem stampStep_onTime {start : Chrono} {todo stamped : List ι} (h : OnTime t s)
    (hp : Placed t p s) (hs : s.stack th = .stamp start todo stamped :: fs)
    (hr : stampStep s th start stamped todo = some (s', gs)) :
    OnTime t (s.after s' th now (gs ++ fs)) := by
  obtain ⟨htodo, hstamped⟩ : (0 < todo.count t → (s.times t).mayRun start) ∧
      (0 < stamped.count t → (s.times t).mayRun (s.times t).lastAbstime) :=
    h.thread th (.stamp start todo stamped) (hs ▸ List.mem_cons_self)
  cases todo with
  | nil =>
    cases hr
    exact h.next hs (.refl t s) (by simpa [Frame.onTime] using hstamped)
  | cons e todo =>
    simp only [stampStep] at hr
    split_ifs at hr
    cases hr
    by_cases he : e = t
    · subst he
      have hrun := htodo (by simp)
      refine h.stamp hp hs (by simp only [Frame.count, List.count_cons_self]; omega) ?_
      simpa [Frame.onTime] using ⟨fun _ => hrun, hrun⟩
    · refine h.next hs (.of_same (.world (.stampTask he ..))) ?_
      simp only [List.count_cons_of_ne he] at htodo
      simpa [Frame.onTime, Ne.symm he] using ⟨by simpa using htodo, by simpa using hstamped⟩

theorem putStep_onTime {stride q left : Nat} {tasks : List ι} (h : OnTime t s)
    (hs : s.stack th = .put stride q left tasks :: fs)
    (hr : putStep s stride q left tasks = some (s', gs)) :
    OnTime t (s.after s' th now (gs ++ fs)) := by
  have hmay : 0 < tasks.count t → (s.times t).mayRun (s.times t).lastAbstime :=
    h.thread th (.put stride q left tasks) (hs ▸ List.mem_cons_self)
  unfold putStep at hr
  split_ifs at hr
  · cases hr
    exact h.next hs (.refl t s) (by simp)
  · cases hr
    exact h.next hs (.refl t s) (by simpa [Frame.onTime] using hmay)
  · split at hr
    · contradiction
    · rename_i i hi
      dsimp only at hr
      generalize min left (calloutTaskMax - (s.qs i).length) = n at hr
      have hsplit := count_take_add_drop t n tasks
      have hput : ∀ lastQ, OnTime t (s.after
          { s with qs := Function.update s.qs i (s.qs i ++ tasks.take n), lastQ } th now
          ([.put stride q (left - n) (tasks.drop n)] ++ fs)) := by
        intro lastQ
        by_cases hmoved : (tasks.take n).count t = 0
        · refine h.next hs ⟨rfl, rfl, id, le_rfl, le_rfl, le_rfl, fun j => ?_⟩ ?_
          · by_cases hj : j = i
            · subst hj
              simp [hmoved]
            · simp [hj]
          · intro g hg
            rw [List.mem_singleton.mp hg]
            exact fun hpos => hmay (by omega)
        · have hrun := hmay (by omega)
          refine ⟨h.taken, h.runs, h.fresh, h.urgent, h.idle, h.timed, fun _ _ => hrun, ?_⟩
          refine mem_after (h.rest hs fun g hg => ?_) h.thread
          rw [List.mem_singleton.mp hg]
          exact fun _ => hrun
      split_ifs at hr <;> cases hr
      · exact hput _
      · exact hput s.lastQ

theorem workerStep_onTime {tasks : List ι} (h : OnTime t s) (hs : s.stack th = .worker tasks :: fs)
    (hr : workerStep s tasks = some (s', gs)) : OnTime t (s.after s' th now (gs ++ fs)) := by
  have hmay : 0 < tasks.count t → (s.times t).mayRun (s.times t).lastAbstime :=
    h.thread th (.worker tasks) (hs ▸ List.mem_cons_self)
  cases tasks with
  | nil =>
    cases hr
    exact h.next hs (.refl t s) (by simp)
  | cons e tasks =>
    cases hr
    refine h.next hs (.refl t s) ?_
    by_cases he : e = t
    · subst he
      have hrun := hmay (by simp)
      simpa [Frame.onTime, ExecPoint.onTime] using ⟨hrun, fun _ => hrun⟩
    · simpa [Frame.onTime, he] using hmay

/-! ## Submissions -/

omit [DecidableEq θ] in
/-- A task that was not run yet. -/
theorem OnTime.of_notRun (hruns : (s.times t).runs = []) (htaken : (s.times t).taken = [])
    (hfirst : (s.hist t).created = false ∨ s.w.tskTbl t = some .created →
      (s.times t).isFirst = true)
    (htimed : 0 < s.w.chronoTskQ.count t → (s.times t).due ≤ (s.times t).nextAbstime)
    (hthread : ∀ th, ∀ f ∈ s.stack th, f.onTime t (s.times t)) : OnTime t s where
  taken := by simp [htaken]
  runs := by simp [hruns, spaced]
  fresh hf := ⟨hruns, hfirst hf, htaken⟩
  urgent _ := hruns
  idle _ := hruns
  timed hc := ⟨htimed hc, by simp [hruns]⟩
  queue _ _ := Times.mayRun_of_notRun hruns _
  thread := hthread

theorem submitLocked_onTime {initialDelay interval : Chrono} (h : OnTime t s) (hp : Placed t p s)
    (hs : s.stack th = f :: fs) (hcreated : s.w.tskTbl t = some .created)
    (hborn : (s.hist t).created = true) (hq : SameQueues t s s₁)
    (hruns : (s₁.times t).runs = []) (htaken : (s₁.times t).taken = [])
    (hfirst : (s₁.times t).isFirst = true)
    (hdelay : 0 < initialDelay → (s₁.w.task t).initialDelayTime = initialDelay)
    (hsum : now + initialDelay < 2 ^ 63)
    (hr : submitLocked s₁ th t initialDelay interval now = (s', gs)) :
    OnTime t (s.after s' th now (gs ++ fs)) := by
  obtain rfl := hp.fresh hcreated
  have hflag : s₁.w.flag t = false := by
    have := hp.flag
    rw [hq.flag]
    simpa using this
  have hfree : ∀ th', held t (s.stack th') = 0 := fun th' => by rw [hp.thread, if_neg (by simp)]
  have hzero : held t fs = 0 := by
    have := hfree th
    rw [hs, held_cons] at this
    omega
  have hthreads : ∀ {s' : System ι θ} {gs : List (Frame ι)}, (∀ g ∈ gs, g.onTime t (s'.times t)) →
      ∀ th', ∀ g ∈ (s.after s' th now (gs ++ fs)).stack th', g.onTime t (s'.times t) :=
    fun hgs => h.threads (fun th' _ => hfree th') (fun g hg => hs ▸ List.mem_cons_of_mem _ hg) hzero
      hgs
  have htimed : s₁.w.chronoTskQ.count t = 0 := hq.timed.trans hp.timed
  have hnew : (s₁.hist t).created = true := hq.created.trans hborn
  simp only [System.times] at hruns htaken hfirst
  unfold submitLocked at hr
  split at hr
  · rename_i w r hw
    cases hr
    rcases submitPut_submitted hflag hw with ⟨-, -, htbl, -, -, hc⟩ | ⟨-, -, htbl, -, -, hc⟩ |
      ⟨hpos, hsched⟩
    · refine .of_notRun ?_ ?_ ?_ ?_ (hthreads (by simp))
      · simpa [System.after, System.times, System.note, System.return_] using hruns
      · simpa [System.after, System.times, System.note, System.return_] using htaken
      · simp [System.after, System.note, System.return_, htbl, hnew]
      · simp only [System.after, System.note, System.return_, hc, htimed]
        exact fun h => absurd h (by simp)
    · refine .of_notRun ?_ ?_ ?_ ?_ (hthreads (by simp))
      · simpa [System.after, System.times, System.note, System.return_] using hruns
      · simpa [System.after, System.times, System.note, System.return_] using htaken
      · simp [System.after, System.note, System.return_, htbl, hnew]
      · simp only [System.after, System.note, System.return_, hc, htimed]
        exact fun h => absurd h (by simp)
    · refine .of_notRun ?_ ?_ ?_ (fun _ => ?_) (hthreads (by simp))
      · simpa [System.after, System.times, System.note, System.return_] using hruns
      · simpa [System.after, System.times, System.note, System.return_] using htaken
      · simp [System.after, System.note, System.return_, hsched.tskTbl, hnew]
      · have hnext : (w.task t).nextAbstime = i64 (now + initialDelay) := by
          simp [hsched.task_self, scheduled, computeNext, hfirst, hdelay hpos]
        have hle : now + initialDelay ≤ (w.task t).nextAbstime := hnext ▸ le_i64 hsum
        simpa [System.after, System.times, System.note, System.return_] using hle
  · rename_i hwait
    cases hr
    refine .of_notRun hruns htaken (fun _ => hfirst) ?_ (hthreads fun g hg => ?_)
    · intro hc
      exact absurd htimed hc.ne'
    · rw [List.mem_singleton.mp hg]
      intro _ _
      by_contra hpos
      unfold submitPut at hwait
      have hpos' : 0 < initialDelay := not_le.mp hpos
      rw [if_neg hpos'.ne', if_pos hpos'] at hwait
      generalize doSched s₁.w t now = d at hwait
      obtain ⟨w, next⟩ := d
      dsimp only at hwait
      split_ifs at hwait

theorem submitStep_onTime {initialDelay interval : Chrono} {q : SubmitPoint} (h : OnTime t s)
    (hp : Placed t p s) (hs : s.stack th = .submit t initialDelay interval q :: fs)
    (hok : q ≠ .check → s.w.tskTbl t = some .created) (hsum : now + initialDelay < 2 ^ 63)
    (hr : submitStep s th t initialDelay interval now q = some (s', gs)) :
    OnTime t (s.after s' th now (gs ++ fs)) := by
  have hborn : (s.hist t).created = true := hp.born (hs ▸ List.mem_cons_self) rfl
  have hwait : q = .blocked → initialDelay ≤ 0 :=
    h.thread th (.submit t initialDelay interval q) (hs ▸ List.mem_cons_self) rfl
  cases q <;> simp only [submitStep] at hr
  case check =>
    split_ifs at hr <;> cases hr
    · exact h.next hs (.refl t s) (by simp [Frame.onTime])
    all_goals exact h.next hs (.of_same (.return_ ..)) (by simp)
  case lock =>
    split_ifs at hr
    have hcreated := hok (by simp)
    obtain ⟨hruns, hfirst, htaken⟩ := h.fresh (.inr hcreated)
    refine submitLocked_onTime h hp hs hcreated hborn (submitFields_queues ..) hruns htaken ?_ ?_
      hsum (Option.some.inj hr)
    · simp only [System.times, submitFields, modTask_task_self]
      split_ifs <;> exact hfirst
    · intro _
      simp only [submitFields, modTask_task_self]
      split_ifs <;> rfl
  case blocked =>
    have hcreated := hok (by simp)
    obtain ⟨hruns, hfirst, htaken⟩ := h.fresh (.inr hcreated)
    exact submitLocked_onTime h hp hs hcreated hborn (.refl t s) hruns htaken hfirst
      (fun hpos => absurd (hwait rfl) (not_le.mpr hpos)) hsum (Option.some.inj hr)

/-! ## All steps -/

/-- The sum of times that the next step of a call makes. -/
def Frame.timeSum (w : Callout ι) (now : Chrono) : Frame ι → Option Chrono
  | .submit _ initialDelay _ _ => some (now + initialDelay)
  | .exec t .resched => some ((w.task t).lastAbstime + (w.task t).intervalTime)
  | .fetchTimed start _ _ => some (start + calloutTaskSchedJitter)
  | _ => none

/-- No sum of times reaches the end of the type. -/
def sumsFit (s : System ι θ) (e : Event ι θ) : Prop :=
  ∀ f ∈ running s e, ∀ x ∈ f.timeSum s.w e.now, x < 2 ^ 63

/-- The event begins no forced execution of the task. -/
def Act.notForced (t : ι) : Act ι → Bool
  | .call (.force e) => e ≠ t
  | _ => true

/-- The steps of the runs that are spoken about: no forced execution of the task, and the sums of
times below `2 ^ 63`. -/
def unforced (t : ι) (s : System ι θ) (e : Event ι θ) : Prop :=
  e.act.notForced t = true ∧ sumsFit s e

/-- In addition, no two threads submit the task at once: a submission takes effect on a task that
is still in the state `CREATED`. -/
def timely (t : ι) (s : System ι θ) (e : Event ι θ) : Prop :=
  unforced t s e ∧ submitsOnce t s e

instance (t : ι) (s : System ι θ) (e : Event ι θ) : Decidable (submitsOnce t s e) :=
  inferInstanceAs (Decidable (∀ f ∈ running s e, f.submits t = true → s.w.tskTbl t = some .created))

instance (s : System ι θ) (e : Event ι θ) : Decidable (sumsFit s e) :=
  inferInstanceAs (Decidable (∀ f ∈ running s e, ∀ x ∈ f.timeSum s.w e.now, x < 2 ^ 63))

instance (t : ι) (s : System ι θ) (e : Event ι θ) : Decidable (unforced t s e) :=
  inferInstanceAs (Decidable (_ ∧ _))

instance (t : ι) (s : System ι θ) (e : Event ι θ) : Decidable (timely t s e) :=
  inferInstanceAs (Decidable (_ ∧ _))

theorem frameStep_onTime (h : OnTime t s) (hp : Placed t p s) (hs : s.stack th = f :: fs)
    (hok : f.submits t = true → s.w.tskTbl t = some .created)
    (hsum : ∀ x ∈ f.timeSum s.w now, x < 2 ^ 63)
    (hr : frameStep s th now f = some (s', gs)) : OnTime t (s.after s' th now (gs ++ fs)) := by
  cases ha : f.about with
  | some e =>
    by_cases he : e = t
    · subst he
      cases f <;> simp only [Frame.about, Option.some.injEq, reduceCtorEq] at ha <;> subst ha
      · exact submitStep_onTime h hp hs (fun hq => hok (by simpa [Frame.submits] using hq))
          (hsum _ rfl) hr
      · exact cancelStep_onTime h hs hr
      · refine execStep_onTime h hp hs ?_ hr
        rintro rfl
        exact hsum _ rfl
      · exact destroyStep_onTime h hs hr
      · rename_i e q
        exact absurd rfl (h.thread th (.force e q) (hs ▸ List.mem_cons_self))
    · exact h.foreign hs (frameStep_foreign ha he hr)
  | none =>
    cases f <;> simp only [Frame.about, reduceCtorEq] at ha
    · exact fetchStep_onTime h hs hr
    · exact fetchTimedStep_onTime h hp hs (hsum _ rfl) hr
    · exact runTasksBySelfStep_onTime h hp hs hr
    · exact stampStep_onTime h hp hs hr
    · exact putStep_onTime h hs hr
    · exact workerStep_onTime h hs hr

theorem resetInterval_times {e : ι} {interval : Chrono}
    (h : resetInterval s th e interval = some s') : SameTimes t s s' := by
  refine .of_queues (resetInterval_queues h).1 ?_
  by_cases he : e = t
  · subst he
    unfold resetInterval at h
    split_ifs at h <;> cases h
    · simp [System.times, System.modTask, System.return_]
    · rfl
    · rfl
  · exact (SameTimes.of_same (resetInterval_foreign he h)).times

theorem callStep_onTime {op : Op ι} (h : OnTime t s) (hp : Placed t p s)
    (hok : (Act.call op).notForced t = true) (hr : callStep s th now op = some (s', gs)) :
    OnTime t (s.after s' th now (gs ++ s.stack th)) := by
  have hcall : ∀ {g : Frame ι}, g.onTime t (s.times t) →
      OnTime t (s.after s th now ([g] ++ s.stack th)) := by
    intro g hg
    refine h.keep (.refl t s) fun f hf => ?_
    rcases List.mem_cons.mp hf with rfl | hf
    · exact hg
    · exact h.thread th f hf
  cases op <;> simp only [callStep] at hr
  case create e hasArg hasFreeproc =>
    obtain ⟨s₁, hcreate, heq⟩ := Option.map_eq_some_iff.mp hr
    cases heq
    by_cases he : e = t
    · subst he
      unfold createTask at hcreate
      split_ifs at hcreate with hnew
      cases hcreate
      obtain ⟨rfl, -, -⟩ := hp.unborn hnew.2
      obtain ⟨hruns, -, htaken⟩ := h.fresh (.inl hnew.2)
      have hfree : ∀ th', held e (s.stack th') = 0 := fun th' => by
        rw [hp.thread, if_neg (by simp)]
      refine .of_notRun ?_ ?_ (fun _ => ?_) (fun hc => absurd hp.timed hc.ne') ?_
      · simpa [System.after, System.times, System.note] using hruns
      · simpa [System.after, System.times, System.note] using htaken
      · simp [System.after, System.times, System.note, newTask]
      · exact h.threads (fun th' _ => hfree th') (fun _ => id) (hfree th) fun g hg =>
          absurd hg List.not_mem_nil
    · exact h.keep (.of_same (createTask_foreign he hcreate)) (h.thread th)
  case submit e initialDelay interval =>
    split_ifs at hr
    cases hr
    exact hcall (by simp [Frame.onTime])
  case cancel e =>
    split_ifs at hr
    cases hr
    exact hcall trivial
  case force e =>
    split_ifs at hr
    cases hr
    exact hcall (by simpa [Frame.onTime, Act.notForced] using hok)
  case resetInterval e interval =>
    split_ifs at hr
    rw [Option.map_eq_some_iff] at hr
    obtain ⟨s₁, hreset, heq⟩ := hr
    cases heq
    exact h.keep (resetInterval_times hreset) (h.thread th)
  case iterate =>
    split_ifs at hr
    cases hr
    exact hcall trivial
  case work =>
    split_ifs at hr with hworker
    cases hr
    have hq := count_take_add_drop t calloutTaskMax (s.qs th)
    refine h.keep ⟨rfl, rfl, id, le_rfl, le_rfl, le_rfl, fun i => ?_⟩ ?_
    · by_cases hi : i = th
      · subst hi
        simp only [Function.update_self]
        omega
      · simp [hi]
    · intro g hg
      rw [hworker.2, List.append_nil, List.mem_singleton] at hg
      rw [hg]
      exact fun hpos => h.queue th (by omega)

/-- A step keeps a task on time. -/
theorem OnTime.step {e : Event ι θ} (h : OnTime t s) (hp : Placed t p s) (hok : timely t s e)
    (hstep : step s e = some s') : OnTime t s' := by
  obtain ⟨⟨hforced, hsum⟩, honce⟩ := hok
  cases step_cases hstep with
  | call hact hr => exact callStep_onTime h hp (hact ▸ hforced) hr
  | go hact hs hr =>
    rename_i f fs gs s₁
    have hrun : f ∈ running s e := by simp [running, hact, hs]
    exact frameStep_onTime h hp hs (honce f hrun) (hsum f hrun) hr
  | finish hact hs =>
    rename_i t' r fs
    by_cases he : t' = t
    · subst he
      exact execEnd_onTime h hs rfl
    · exact h.foreign hs (execEnd_foreign he r)
  | wake hact hs hwoken =>
    exact h.next hs (.refl t s) (by simp [Frame.onTime])

omit [DecidableEq θ] in
theorem OnTime.init (t : ι) (clock : Chrono) (mainLoop : θ) (workers : List θ) :
    OnTime t (System.init clock mainLoop workers : System ι θ) :=
  .of_notRun rfl rfl (fun _ => rfl) (fun hc => absurd hc (by simp [System.init]))
    fun _ _ hf => absurd hf List.not_mem_nil

/-- **Never early.** In a run without forced execution whose submissions take effect on a task in
the state `CREATED`, the scheduler takes a task out of the timed queue at its due time, up to the
jitter, and the time stamps of two consecutive runs of a task are the interval apart, up to the
jitter. -/
theorem never_early {t : ι} {clock : Chrono} {mainLoop : θ} {workers : List θ}
    {es : List (Event ι θ)} {s : System ι θ}
    (h : Trans.Run step (timely t) (System.init clock mainLoop workers) es s) :
    (∀ d ∈ (s.hist t).taken, d.2 - calloutTaskSchedJitter ≤ d.1) ∧ spaced (s.hist t).runs := by
  have hinv : OnTime t s ∧ ∃ p, Placed t p s := by
    refine h.inv (I := fun s => OnTime t s ∧ ∃ p, Placed t p s) ?_
      ⟨.init t clock mainLoop workers, .nowhere, .init t clock mainLoop workers⟩
    rintro s e s' ⟨htime, p, hp⟩ hok hstep
    exact ⟨htime.step hp hok hstep, hp.step hok.2 hstep⟩
  exact ⟨hinv.1.taken, hinv.1.runs⟩

/-- `n` steps of the running call of a thread. -/
def steps (th : θ) (now : Chrono) (n : Nat) : List (Event ι θ) :=
  List.replicate n ⟨th, now, .go⟩

/-- A repeating task with a delay, run twice by the main loop. -/
def twoRuns : List (Event Nat Nat) :=
  [⟨1, 1, .call (.create 0 false false)⟩, ⟨1, 1, .call (.submit 0 50000 1000000)⟩] ++ steps 1 1 2 ++
    [⟨0, 50001, .call .iterate⟩] ++ steps 0 50001 6 ++ [⟨0, 60000, .finish Result.ok⟩] ++
    steps 0 60000 5 ++ [⟨0, 1049500, .call .iterate⟩] ++ steps 0 1049500 6

theorem never_early_twoRuns :
    ∃ s, Trans.Run step (timely 0) (System.init 1 0 []) twoRuns s ∧
      (s.hist 0).runs = [(1049500, 1000000), (50001, 1000000)] ∧
      (∀ d ∈ (s.hist 0).taken, d.2 - calloutTaskSchedJitter ≤ d.1) ∧ spaced (s.hist 0).runs := by
  have h : ((Trans.run (Trans.guarded step (timely 0)) (System.init 1 0 []) twoRuns).map
      fun s => (s.hist 0).runs) = some [(1049500, 1000000), (50001, 1000000)] := by decide +kernel
  obtain ⟨s, hrun, hruns⟩ := Option.map_eq_some_iff.mp h
  exact ⟨s, .of_guarded hrun, hruns, never_early (.of_guarded hrun)⟩

/-- Two threads find the task in the state `CREATED`, and both put it into the urgent queue. The
main loop fetches it twice, runs it, submits it again with its interval, and runs it at once. -/
def doubleSubmission : List (Event Nat Nat) :=
  [⟨1, 1, .call (.create 0 false false)⟩, ⟨1, 1, .call (.submit 0 0 1000000)⟩] ++ steps 1 1 1 ++
    [⟨2, 1, .call (.submit 0 0 1000000)⟩] ++ steps 2 1 1 ++ steps 1 1 1 ++ steps 2 1 1 ++
    [⟨0, 1, .call .iterate⟩] ++ steps 0 1 6 ++ [⟨0, 1, .finish Result.ok⟩] ++ steps 0 1 8

theorem early_doubleSubmission :
    ∃ s, Trans.Run step (unforced 0) (System.init 1 0 []) doubleSubmission s ∧
      (s.hist 0).runs = [(1, 1000000), (1, 1000000)] ∧ ¬ spaced (s.hist 0).runs := by
  have h : ((Trans.run (Trans.guarded step (unforced 0)) (System.init 1 0 []) doubleSubmission).map
      fun s => (s.hist 0).runs) = some [(1, 1000000), (1, 1000000)] := by decide +kernel
  obtain ⟨s, hrun, hruns⟩ := Option.map_eq_some_iff.mp h
  refine ⟨s, .of_guarded hrun, hruns, ?_⟩
  rw [hruns]
  simp [spaced, calloutTaskSchedJitter]

end Callout
end Gallus
