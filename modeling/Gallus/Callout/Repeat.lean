import Gallus.Callout.Due

/-!
# Repeating tasks

A repeating task goes round: from a queue into a batch of the scheduler, through the queue of a
worker to an execution, and back into the timed queue. `Safe t s` says of the task `t` in what state
it is at each place of the round, and which calls can be about it while nobody cancels it.

* `NotLost t s`: the task is in a queue, or at a place where it will be run, or submitted again.
* `Safe.step`: each step keeps this, if an executor counts itself on a task that no other executor
  has left to count itself off, and no two threads submit the task at once.
* `lost_earlyFetch`: without the first condition a task is lost. An executor submits the task again
  before it counts itself off, and the next one drops the task in between.
-/

namespace Gallus
namespace Callout

variable {ι θ : Type} [DecidableEq ι] [DecidableEq θ]

/-! ## The round of a task -/

/-- What the round of a task depends on. -/
structure View where
  tskTbl : Option TaskState
  status : TaskState
  cancelRefCount : Nat
  doRepeat : Bool
  isFirst : Bool

def System.view (s : System ι θ) (t : ι) : View where
  tskTbl := s.w.tskTbl t
  status := (s.w.task t).status
  cancelRefCount := (s.w.task t).cancelRefCount
  doRepeat := (s.w.task t).doRepeat
  isFirst := (s.w.task t).isFirst

/-- The task is in the state `st`, in the table and in its record. -/
def View.is (v : View) (st : TaskState) : Prop := v.tskTbl = some st ∧ v.status = st

/-- The task is in a state that the scheduler makes `DEQUEUED`. -/
def View.waiting (v : View) : Prop := v.is .enqueued ∨ v.is .dequeued

/-- The task is run, and will be submitted again. -/
def View.repeats (v : View) : Prop :=
  v.is .executing ∧ v.cancelRefCount = 0 ∧ v.doRepeat = true ∧ v.isFirst = false

/-- An execution that will run the task, or submit it again. -/
def ExecPoint.keeps (v : View) : ExecPoint → Prop
  | .check | .count | .recheck => v.is .dequeued
  | .body | .readCancel | .readRepeat | .resched => v.repeats
  | _ => False

/-- A call that has the task in its hands, in a state in which it will be run. -/
def Frame.keeps (t : ι) (v : View) : Frame ι → Prop
  | .exec e p => e = t ∧ p.keeps v
  | .fetchTimed _ urgentTasks idleTasks => (t ∈ urgentTasks ∨ t ∈ idleTasks) ∧ v.waiting
  | .runTasksBySelf _ tasks => t ∈ tasks ∧ v.waiting
  | .stamp _ todo stamped => t ∈ todo ∧ v.waiting ∨ t ∈ stamped ∧ v.is .dequeued
  | .put _ _ _ tasks | .worker tasks => t ∈ tasks ∧ v.is .dequeued
  | _ => False

/-- The task is in a queue of the module, in the queue of a worker that will run it, or in the
hands of a thread that will run it or submit it again. -/
def NotLost (t : ι) (s : System ι θ) : Prop :=
  t ∈ s.w.urgentTskQ ∨ t ∈ s.w.idleTskQ ∨ t ∈ s.w.chronoTskQ ∨
    (∃ i ∈ s.workers, t ∈ s.qs i ∧ (s.view t).is .dequeued) ∨
    ∃ th, ∃ f ∈ s.stack th, f.keeps t (s.view t)

/-! ## The invariant -/

/-- A call, as far as it is about the task `t`. -/
def Frame.safe (t : ι) (v : View) : Frame ι → Prop
  | .submit e _ interval p => e = t → 0 < interval ∧ (p = .blocked → v.doRepeat = true)
  | .exec e p => e = t → p = .leave ∨ p.keeps v
  | .cancel e _ | .destroy e _ _ | .force e _ => e ≠ t
  | f => 0 < f.count t → f.keeps t v

/-- Some place has the task. -/
def Somewhere (t : ι) (s : System ι θ) : Prop :=
  0 < s.w.urgentTskQ.count t ∨ 0 < s.w.idleTskQ.count t ∨ 0 < s.w.chronoTskQ.count t ∨
    (∃ i, 0 < (s.qs i).count t) ∨ ∃ th, 0 < held t (s.stack th)

/-- The task `t` is on its round. -/
structure Safe (t : ι) (s : System ι θ) : Prop where
  urgent : 0 < s.w.urgentTskQ.count t → (s.view t).is .enqueued
  idle : 0 < s.w.idleTskQ.count t → (s.view t).is .enqueued
  timed : 0 < s.w.chronoTskQ.count t → (s.view t).is .enqueued
  queue : ∀ i, 0 < (s.qs i).count t → i ∈ s.workers ∧ (s.view t).is .dequeued
  thread : ∀ th, ∀ f ∈ s.stack th, f.safe t (s.view t)
  cancel : (s.view t).cancelRefCount = 0
  repeats : (s.hist t).created = true → s.w.tskTbl t ≠ some .created →
    (s.view t).doRepeat = true
  somewhere : (s.hist t).created = true → s.w.tskTbl t ≠ some .created → Somewhere t s

variable {t : ι} {p : Place θ} {s s' s₁ : System ι θ} {th : θ} {now : Chrono}
  {f : Frame ι} {fs gs : List (Frame ι)} {v v' : View}

/-- A call that has no hand on the task. -/
theorem Frame.safe_of_count (hc : f.count t = 0) (hrepeat : v.doRepeat = true → v'.doRepeat = true)
    (h : f.about = some t → f.safe t v) : f.safe t v' := by
  cases f with
  | exec e q =>
    rintro rfl
    rcases h rfl rfl with rfl | hk
    · exact .inl rfl
    · cases q <;> simp [Frame.count, ExecPoint.holds] at hc <;> contradiction
  | submit e _ _ q =>
    rintro rfl
    obtain ⟨hpos, hblocked⟩ := h rfl rfl
    exact ⟨hpos, hrepeat ∘ hblocked⟩
  | cancel e q | force e q | destroy e _ q =>
    rintro rfl
    exact h rfl rfl
  | fetch | fetchTimed | runTasksBySelf | stamp | put | worker =>
    intro hpos
    exact absurd hc hpos.ne'

/-- A call that has the task in its hands keeps it. -/
theorem Frame.keeps_of_safe (h : f.safe t v) (hc : 0 < f.count t) : f.keeps t v := by
  cases f with
  | exec e q =>
    by_cases he : e = t
    · rcases h he with rfl | hk
      · simp [Frame.count, ExecPoint.holds] at hc
      · exact ⟨he, hk⟩
    · simp [Frame.count, he] at hc
  | force e q =>
    have he : e ≠ t := h
    cases q <;> simp [Frame.count, he] at hc
  | submit | cancel | destroy | fetch => simp [Frame.count] at hc
  | fetchTimed | runTasksBySelf | stamp | put | worker => exact h hc

theorem exists_of_held (h : 0 < held t fs) : ∃ f ∈ fs, 0 < f.count t := by
  by_contra hne
  have hzero : held t fs = 0 := held_eq_zero fun f hf => by
    by_contra hc
    exact hne ⟨f, hf, Nat.pos_of_ne_zero hc⟩
  omega

omit [DecidableEq θ] in
/-- A task on its round is not lost. -/
theorem Safe.notLost (h : Safe t s) (hborn : (s.hist t).created = true)
    (hsub : s.w.tskTbl t ≠ some .created) : NotLost t s := by
  rcases h.somewhere hborn hsub with hc | hc | hc | ⟨i, hc⟩ | ⟨th, hc⟩
  · exact .inl (List.count_pos_iff.mp hc)
  · exact .inr (.inl (List.count_pos_iff.mp hc))
  · exact .inr (.inr (.inl (List.count_pos_iff.mp hc)))
  · obtain ⟨hi, hst⟩ := h.queue i hc
    exact .inr (.inr (.inr (.inl ⟨i, hi, List.count_pos_iff.mp hc, hst⟩)))
  · obtain ⟨f, hf, hcount⟩ := exists_of_held hc
    exact .inr (.inr (.inr (.inr ⟨th, f, hf, Frame.keeps_of_safe (h.thread th f hf) hcount⟩)))

/-! ## What the steps have to show -/

/-- The round of `t` is as before, and so are the queues. -/
structure SameRound (t : ι) (s s' : System ι θ) : Prop where
  view : s'.view t = s.view t
  created : (s'.hist t).created = (s.hist t).created
  workers : s'.workers = s.workers
  urgent : s'.w.urgentTskQ.count t = s.w.urgentTskQ.count t
  idle : s'.w.idleTskQ.count t = s.w.idleTskQ.count t
  timed : s'.w.chronoTskQ.count t = s.w.chronoTskQ.count t
  queue : ∀ i, (s'.qs i).count t = (s.qs i).count t

namespace SameRound

omit [DecidableEq θ] in
theorem refl (t : ι) (s : System ι θ) : SameRound t s s :=
  ⟨rfl, rfl, rfl, rfl, rfl, rfl, fun _ => rfl⟩

omit [DecidableEq θ] in
theorem of_same (h : SameSystem t s s') : SameRound t s s' :=
  ⟨by simp [System.view, h.w.task, h.w.tskTbl], congrArg History.created h.hist, h.workers,
    h.w.urgent, h.w.idle, h.w.timed, fun i => by rw [h.qs]⟩

end SameRound

/-- A step leaves the task where it is, or its thread takes it into its hands, or puts it into a
worker queue. -/
theorem Somewhere.after (h : Somewhere t s)
    (hurgent : s.w.urgentTskQ.count t ≤ s'.w.urgentTskQ.count t + held t fs)
    (hidle : s.w.idleTskQ.count t ≤ s'.w.idleTskQ.count t + held t fs)
    (htimed : s.w.chronoTskQ.count t ≤ s'.w.chronoTskQ.count t + held t fs)
    (hqueue : ∀ i, (s.qs i).count t ≤ (s'.qs i).count t + held t fs)
    (hthread : held t (s.stack th) ≤ held t fs ∨ ∃ i, 0 < (s'.qs i).count t) :
    Somewhere t (s.after s' th now fs) := by
  by_cases hz : held t fs = 0
  · rw [hz] at hurgent hidle htimed hthread
    simp only [hz] at hqueue
    rcases h with hc | hc | hc | ⟨i, hc⟩ | ⟨th', hc⟩
    · exact .inl (hc.trans_le hurgent)
    · exact .inr (.inl (hc.trans_le hidle))
    · exact .inr (.inr (.inl (hc.trans_le htimed)))
    · exact .inr (.inr (.inr (.inl ⟨i, hc.trans_le (hqueue i)⟩)))
    · by_cases hth : th' = th
      · subst hth
        rcases hthread with hle | hput
        · omega
        · exact .inr (.inr (.inr (.inl hput)))
      · refine .inr (.inr (.inr (.inr ⟨th', ?_⟩)))
        simpa [System.after, hth] using hc
  · refine .inr (.inr (.inr (.inr ⟨th, ?_⟩)))
    simp only [System.after, Function.update_self]
    omega

/-- A step that leaves the state of the task alone. -/
theorem Safe.same (h : Safe t s) (hview : s'.view t = s.view t)
    (hcreated : (s'.hist t).created = (s.hist t).created)
    (hurgent : s'.w.urgentTskQ.count t ≤ s.w.urgentTskQ.count t)
    (hidle : s'.w.idleTskQ.count t ≤ s.w.idleTskQ.count t)
    (htimed : s'.w.chronoTskQ.count t ≤ s.w.chronoTskQ.count t)
    (hqueue : ∀ i, 0 < (s'.qs i).count t → i ∈ s'.workers ∧ (s.view t).is .dequeued)
    (hfs : ∀ f ∈ fs, f.safe t (s.view t))
    (hsome : Somewhere t s → Somewhere t (s.after s' th now fs)) :
    Safe t (s.after s' th now fs) := by
  have hview' : (s.after s' th now fs).view t = s.view t := hview
  have htbl : s'.w.tskTbl t = s.w.tskTbl t := congrArg View.tskTbl hview
  refine ⟨?_, ?_, ?_, ?_, ?_, ?_, ?_, ?_⟩
  · rw [hview']; exact fun hc => h.urgent (hc.trans_le hurgent)
  · rw [hview']; exact fun hc => h.idle (hc.trans_le hidle)
  · rw [hview']; exact fun hc => h.timed (hc.trans_le htimed)
  · rw [hview']; exact hqueue
  · rw [hview']; exact mem_after hfs h.thread
  · rw [hview']; exact h.cancel
  · rw [hview']; exact fun hb hs => h.repeats (hcreated ▸ hb) (htbl ▸ hs)
  · exact fun hb hs => hsome (h.somewhere (hcreated ▸ hb) (htbl ▸ hs))

/-- A step that leaves the task where it is. -/
theorem Safe.keep (h : Safe t s) (hsame : SameRound t s s') (hfs : ∀ f ∈ fs, f.safe t (s.view t))
    (hheld : held t (s.stack th) ≤ held t fs) : Safe t (s.after s' th now fs) := by
  refine h.same hsame.view hsame.created hsame.urgent.le hsame.idle.le hsame.timed.le
    (fun i hc => ?_) hfs ?_
  · rw [hsame.workers]
    exact h.queue i (hsame.queue i ▸ hc)
  · intro hsome
    refine hsome.after ?_ ?_ ?_ (fun i => ?_) (.inl hheld)
    · rw [hsame.urgent]; omega
    · rw [hsame.idle]; omega
    · rw [hsame.timed]; omega
    · rw [hsame.queue i]; omega

omit [DecidableEq θ] in
theorem Safe.rest (h : Safe t s) (hs : s.stack th = f :: fs)
    (hgs : ∀ g ∈ gs, g.safe t (s.view t)) : ∀ g ∈ gs ++ fs, g.safe t (s.view t) := by
  intro g hg
  rcases List.mem_append.mp hg with hg | hg
  · exact hgs g hg
  · exact h.thread th g (hs ▸ List.mem_cons_of_mem _ hg)

theorem Safe.next (h : Safe t s) (hs : s.stack th = f :: fs) (hsame : SameRound t s s')
    (hgs : ∀ g ∈ gs, g.safe t (s.view t)) (hheld : f.count t ≤ held t gs) :
    Safe t (s.after s' th now (gs ++ fs)) := by
  refine h.keep hsame (h.rest hs hgs) ?_
  rw [hs, held_cons, held_append]
  omega

/-- The calls of all threads after a step of the thread that has the task in its hands. -/
theorem Safe.threads (h : Safe t s) (hfree : ∀ th', th' ≠ th → held t (s.stack th') = 0)
    (hsub : ∀ g ∈ fs, g ∈ s.stack th) (hfs : held t fs = 0)
    (hrepeat : (s.view t).doRepeat = true → v.doRepeat = true) (hgs : ∀ g ∈ gs, g.safe t v)
    (th' : θ) : ∀ g ∈ (s.after s' th now (gs ++ fs)).stack th', g.safe t v := by
  have hold : ∀ {th'} {fs : List (Frame ι)}, held t fs = 0 → (∀ g ∈ fs, g ∈ s.stack th') →
      ∀ g ∈ fs, g.safe t v := fun hz hmem g hg =>
    Frame.safe_of_count (count_of_held hz hg) hrepeat fun _ => h.thread _ g (hmem g hg)
  by_cases hth : th' = th
  · subst hth
    intro g hg
    simp only [System.after, Function.update_self, List.mem_append] at hg
    rcases hg with hg | hg
    · exact hgs g hg
    · exact hold hfs hsub g hg
  · simpa [System.after, hth] using hold (hfree th' hth) fun _ => id

/-- The state of the task in the hands of a thread is changed. -/
theorem Safe.hands (h : Safe t s) (hp : Placed t p s) (hs : s.stack th = f :: fs)
    (hcount : 0 < f.count t) (hq : SameQueues t s s')
    (hcancel : (s'.view t).cancelRefCount = (s.view t).cancelRefCount)
    (hrepeat : (s'.view t).doRepeat = (s.view t).doRepeat)
    (hgs : ∀ g ∈ gs, g.safe t (s'.view t)) (hheld : 0 < held t gs) :
    Safe t (s.after s' th now (gs ++ fs)) := by
  obtain ⟨rfl, hzero, hfree⟩ := hp.hands hs hcount
  have hborn := hp.born_of_count hs hcount
  have hsub : s.w.tskTbl t ≠ some .created := fun hf => by simpa using hp.fresh hf
  have hnone : ∀ {n : Nat} {P : Prop}, n = 0 → 0 < n → P := fun hz hpos => by omega
  refine ⟨?_, ?_, ?_, ?_, ?_, hcancel.trans h.cancel, ?_, ?_⟩
  · exact hnone (hq.urgent.trans hp.urgent)
  · exact hnone (hq.idle.trans hp.idle)
  · exact hnone (hq.timed.trans hp.timed)
  · exact fun i => hnone ((hq.queue i).trans (hp.queue i))
  · exact h.threads hfree (fun g hg => hs ▸ List.mem_cons_of_mem _ hg) hzero (hrepeat ▸ id) hgs
  · exact fun _ _ => hrepeat.trans (h.repeats hborn hsub)
  · refine fun _ _ => .inr (.inr (.inr (.inr ⟨th, ?_⟩)))
    simp only [System.after, Function.update_self, held_append]
    omega

omit [DecidableEq θ] in
/-- The task is put into a queue. -/
theorem Safe.enqueued (hst : (s.view t).is .enqueued) (hqueue : ∀ i, (s.qs i).count t = 0)
    (hthread : ∀ th, ∀ f ∈ s.stack th, f.safe t (s.view t))
    (hcancel : (s.view t).cancelRefCount = 0) (hrepeat : (s.view t).doRepeat = true)
    (hsome : Somewhere t s) : Safe t s where
  urgent _ := hst
  idle _ := hst
  timed _ := hst
  queue i hc := absurd (hqueue i) hc.ne'
  thread := hthread
  cancel := hcancel
  repeats _ _ := hrepeat
  somewhere _ _ := hsome

theorem Safe.foreign (h : Safe t s) (hs : s.stack th = f :: fs) (hf : f.count t = 0)
    (hr : Foreign t s (s', gs)) : Safe t (s.after s' th now (gs ++ fs)) := by
  refine h.next hs (.of_same hr.same) (fun g hg => ?_) (by omega)
  have hnot : g.about = some t → g.safe t (s.view t) := fun ha => absurd ha (hr.about g hg)
  exact Frame.safe_of_count (hr.count g hg) id hnot

/-! ## Submissions -/

theorem scheduled_view (now : Chrono) (x : Task) :
    (scheduled now x).status = .enqueued ∧ (scheduled now x).cancelRefCount = x.cancelRefCount ∧
      (scheduled now x).doRepeat = x.doRepeat := by
  unfold scheduled computeNext
  split_ifs <;> exact ⟨rfl, rfl, rfl⟩

theorem submitLocked_safe {initialDelay interval : Chrono} (h : Safe t s) (hp : Placed t p s)
    (hs : s.stack th = f :: fs) (hcreated : s.w.tskTbl t = some .created) (hq : SameQueues t s s₁)
    (htbl : s₁.w.tskTbl t = some .created) (hcancel : (s₁.w.task t).cancelRefCount = 0)
    (hrepeat : (s₁.w.task t).doRepeat = true) (hinterval : 0 < interval)
    (hr : submitLocked s₁ th t initialDelay interval now = (s', gs)) :
    Safe t (s.after s' th now (gs ++ fs)) := by
  obtain rfl := hp.fresh hcreated
  have hflag : s₁.w.flag t = false := by
    have := hp.flag
    rw [hq.flag]
    simpa using this
  have hfree : ∀ th', held t (s.stack th') = 0 := fun th' => by rw [hp.thread, if_neg (by simp)]
  have hzero : held t fs = 0 := by
    have := hfree th
    rw [hs, held_cons] at this
    omega
  have hthreads : ∀ {s' : System ι θ} {gs : List (Frame ι)}, (s'.view t).doRepeat = true →
      (∀ g ∈ gs, g.safe t (s'.view t)) →
      ∀ th', ∀ g ∈ (s.after s' th now (gs ++ fs)).stack th', g.safe t (s'.view t) :=
    fun hrep hgs => h.threads (fun th' _ => hfree th') (fun g hg => hs ▸ List.mem_cons_of_mem _ hg)
      hzero (fun _ => hrep) hgs
  have hqueue : ∀ i, (s₁.qs i).count t = 0 := fun i => (hq.queue i).trans (hp.queue i)
  unfold submitLocked at hr
  split at hr
  · rename_i w r hw
    cases hr
    rcases submitPut_submitted hflag hw with ⟨-, htask, htbl', hu, -, -⟩ |
      ⟨-, htask, htbl', -, hi, -⟩ | ⟨-, hsched⟩
    · refine .enqueued ⟨htbl', ?_⟩ hqueue (hthreads ?_ (by simp)) ?_ ?_ (.inl ?_)
      · exact congrArg Task.status htask
      · exact (congrArg Task.doRepeat htask).trans hrepeat
      · exact (congrArg Task.cancelRefCount htask).trans hcancel
      · exact (congrArg Task.doRepeat htask).trans hrepeat
      · simp [System.after, System.note, System.return_, hu]
    · refine .enqueued ⟨htbl', ?_⟩ hqueue (hthreads ?_ (by simp)) ?_ ?_ (.inr (.inl ?_))
      · exact congrArg Task.status htask
      · exact (congrArg Task.doRepeat htask).trans hrepeat
      · exact (congrArg Task.cancelRefCount htask).trans hcancel
      · exact (congrArg Task.doRepeat htask).trans hrepeat
      · simp [System.after, System.note, System.return_, hi]
    · obtain ⟨hstatus, hc, hrep⟩ := scheduled_view now (s₁.w.task t)
      have htask := hsched.task_self
      refine .enqueued ⟨?_, ?_⟩ hqueue (hthreads ?_ (by simp)) ?_ ?_ (.inr (.inr (.inl ?_)))
      · simp [System.view, System.after, System.note, System.return_, hsched.tskTbl]
      · exact (congrArg Task.status htask).trans hstatus
      · exact (congrArg Task.doRepeat htask).trans (hrep.trans hrepeat)
      · exact (congrArg Task.cancelRefCount htask).trans (hc.trans hcancel)
      · exact (congrArg Task.doRepeat htask).trans (hrep.trans hrepeat)
      · simp [System.after, System.note, System.return_, hsched.timed.count_eq]
  · cases hr
    have hnone : ∀ {n : Nat} {P : Prop}, n = 0 → 0 < n → P := fun hz hpos => by omega
    refine ⟨?_, ?_, ?_, ?_, hthreads hrepeat fun g hg => ?_, hcancel, fun _ hsub => ?_,
      fun _ hsub => ?_⟩
    · exact hnone (hq.urgent.trans hp.urgent)
    · exact hnone (hq.idle.trans hp.idle)
    · exact hnone (hq.timed.trans hp.timed)
    · exact fun i => hnone (hqueue i)
    · rw [List.mem_singleton.mp hg]
      exact fun _ => ⟨hinterval, fun _ => hrepeat⟩
    · exact absurd htbl hsub
    · exact absurd htbl hsub

theorem submitStep_safe {initialDelay interval : Chrono} {q : SubmitPoint} (h : Safe t s)
    (hp : Placed t p s) (hs : s.stack th = .submit t initialDelay interval q :: fs)
    (hok : q ≠ .check → s.w.tskTbl t = some .created)
    (hr : submitStep s th t initialDelay interval now q = some (s', gs)) :
    Safe t (s.after s' th now (gs ++ fs)) := by
  obtain ⟨hinterval, hblocked⟩ : 0 < interval ∧ (q = .blocked → (s.w.task t).doRepeat = true) :=
    h.thread th (.submit t initialDelay interval q) (hs ▸ List.mem_cons_self) rfl
  cases q <;> simp only [submitStep] at hr
  case check =>
    split_ifs at hr <;> cases hr
    · exact h.next hs (.refl t s) (by simp [Frame.safe, hinterval]) (Nat.zero_le _)
    all_goals exact h.next hs (.of_same (.return_ ..)) (by simp) (Nat.zero_le _)
  case lock =>
    split_ifs at hr
    have hcreated := hok (by simp)
    refine submitLocked_safe h hp hs hcreated (submitFields_queues ..) hcreated ?_ ?_ hinterval
      (Option.some.inj hr)
    · simp only [submitFields, modTask_task_self, if_pos hinterval]
      exact h.cancel
    · simp only [submitFields, modTask_task_self, if_pos hinterval]
  case blocked =>
    have hcreated := hok (by simp)
    exact submitLocked_safe h hp hs hcreated (.refl t s) hcreated h.cancel (hblocked rfl) hinterval
      (Option.some.inj hr)

/-! ## Executions -/

theorem execStep_safe {q : ExecPoint} (h : Safe t s) (hp : Placed t p s)
    (hs : s.stack th = .exec t q :: fs)
    (hcount : q = .count → (s.w.task t).execRefCount = 0)
    (hnext : q = .resched → 0 ≤ i64 ((s.w.task t).lastAbstime + (s.w.task t).intervalTime))
    (hr : execStep s th t now q = some (s', gs)) : Safe t (s.after s' th now (gs ++ fs)) := by
  have hq : q ≠ .leave → q.keeps (s.view t) :=
    (h.thread th (.exec t q) (hs ▸ List.mem_cons_self) rfl).resolve_left
  have hone : ∀ {v : View} {e : ExecPoint}, e.keeps v → ∀ g ∈ [Frame.exec t e], g.safe t v := by
    intro v e he g hg
    rw [List.mem_singleton.mp hg]
    exact fun _ => .inr he
  have hexec : ∀ d : Int, SameRound t s (addExec s t d) := fun d =>
    ⟨by simp [System.view, addExec, System.modTask, modTask], rfl, rfl, rfl, rfl, rfl, fun _ => rfl⟩
  cases q <;> simp only [execStep] at hr
  case check =>
    have hst : (s.view t).is .dequeued := hq (by simp)
    have htbl : s.w.tskTbl t = some .dequeued := hst.1
    have hstate : s.w.getStateInTable t = .dequeued := by simp [getStateInTable, htbl]
    rw [if_pos hstate] at hr
    cases hr
    exact h.next hs (.refl t s) (hone hst) (by simp [Frame.count, ExecPoint.holds])
  case count =>
    have hst : (s.view t).is .dequeued := hq (by simp)
    rw [if_pos (hcount rfl)] at hr
    cases hr
    exact h.next hs (hexec 1) (hone hst) (by simp [Frame.count, ExecPoint.holds])
  case recheck =>
    obtain ⟨htbl, hstatus⟩ : (s.view t).is .dequeued := hq (by simp)
    have htbl' : s.w.tskTbl t = some .dequeued := htbl
    have hstate : s.w.getStateInTable t = .dequeued := by simp [getStateInTable, htbl']
    have hborn := hp.born_of_count hs (by simp [Frame.count, ExecPoint.holds])
    have hrepeat := h.repeats hborn (by simp [htbl'])
    rw [if_pos (⟨hstate, hstatus⟩ : _ ∧ (s.w.task t).status = .dequeued)] at hr
    split_ifs at hr
    cases hr
    refine h.hands hp hs (by simp [Frame.count, ExecPoint.holds]) (execBegin_queues t th s) ?_ ?_
      (hone ⟨⟨?_, ?_⟩, ?_, ?_, ?_⟩) (by simp [Frame.count, ExecPoint.holds])
    · simp [System.view, execBegin, System.note]
    · simp [System.view, execBegin, System.note]
    · simp [System.view, execBegin, System.note, modTask, setState, setStateInTable]
    · simp [System.view, execBegin, System.note]
    · simpa [System.view, execBegin, System.note] using h.cancel
    · simpa [System.view, execBegin, System.note] using hrepeat
    · simp [System.view, execBegin, System.note]
  case body => contradiction
  case readCancel =>
    have hst : (s.view t).repeats := hq (by simp)
    have hcancel : (s.w.task t).cancelRefCount = 0 := hst.2.1
    rw [if_pos hcancel] at hr
    cases hr
    exact h.next hs (.refl t s) (hone hst) (by simp [Frame.count, ExecPoint.holds])
  case readRepeat =>
    have hst : (s.view t).repeats := hq (by simp)
    have hrepeat : (s.w.task t).doRepeat = true := hst.2.2.1
    rw [if_pos hrepeat] at hr
    cases hr
    exact h.next hs (.refl t s) (hone hst) (by simp [Frame.count, ExecPoint.holds])
  case resched =>
    obtain ⟨-, hcancel, hrepeat, hfirst⟩ : (s.view t).repeats := hq (by simp)
    split_ifs at hr
    obtain ⟨rfl, hzero, hfree⟩ := hp.hands hs (by simp [Frame.count, ExecPoint.holds])
    obtain ⟨hsched, hret⟩ := doSched_sched now (by simpa using hp.flag)
    have hcompute : (computeNext now (s.w.task t)).nextAbstime =
        i64 ((s.w.task t).lastAbstime + (s.w.task t).intervalTime) := by
      rw [computeNext, if_pos ⟨hfirst, hrepeat⟩]
    unfold execResched at hr
    have hw : ∀ g : History → History, (s.note t g).w = s.w := fun _ => rfl
    simp only [hw] at hr
    generalize doSched s.w t now = d at hr hsched hret
    obtain ⟨w, next⟩ := d
    dsimp only at hsched hret hr
    rw [hret, hcompute, if_pos (hnext rfl)] at hr
    cases hr
    obtain ⟨hstatus, hc, hrep⟩ := scheduled_view now (s.w.task t)
    have htask := hsched.task_self
    have hrepeat' : (w.task t).doRepeat = true :=
      (congrArg Task.doRepeat htask).trans (hrep.trans hrepeat)
    refine .enqueued ⟨?_, ?_⟩ hp.queue ?_ ?_ hrepeat' (.inr (.inr (.inl ?_)))
    · simp [System.view, System.after, hsched.tskTbl]
    · exact (congrArg Task.status htask).trans hstatus
    · refine h.threads hfree (fun g hg => hs ▸ List.mem_cons_of_mem _ hg) hzero
        (fun _ => hrepeat') (by simp [Frame.safe])
    · exact (congrArg Task.cancelRefCount htask).trans (hc.trans hcancel)
    · simp [System.after, hsched.timed.count_eq]
  case leave =>
    cases hr
    exact h.next hs (hexec (-1)) (by simp) (by simp [Frame.count, ExecPoint.holds])
  all_goals exact (hq (by simp)).elim

theorem execEnd_safe (h : Safe t s) (hs : s.stack th = .exec t .body :: fs)
    (hr : execEnd s t Result.ok = (s', gs)) : Safe t (s.after s' th now (gs ++ fs)) := by
  have hst : (s.view t).repeats :=
    (h.thread th (.exec t .body) (hs ▸ List.mem_cons_self) rfl).resolve_left (by simp)
  unfold execEnd at hr
  rw [if_pos rfl] at hr
  cases hr
  refine h.next hs ⟨rfl, rfl, rfl, rfl, rfl, rfl, fun _ => rfl⟩ ?_
    (by simp [Frame.count, ExecPoint.holds])
  intro g hg
  rw [List.mem_singleton.mp hg]
  exact fun _ => .inr hst

/-! ## The main loop and the workers -/

theorem fetchStep_safe {start : Chrono} (h : Safe t s) (hs : s.stack th = .fetch start :: fs)
    (hr : fetchStep s start = some (s', gs)) : Safe t (s.after s' th now (gs ++ fs)) := by
  unfold fetchStep at hr
  split_ifs at hr
  cases hr
  have hu := count_take_add_drop t calloutTaskMax s.w.urgentTskQ
  have hi := count_take_add_drop t calloutTaskMax s.w.idleTskQ
  refine h.same rfl rfl ?_ ?_ le_rfl h.queue (h.rest hs fun g hg => ?_) ?_
  · show (s.w.urgentTskQ.drop calloutTaskMax).count t ≤ _
    omega
  · show (s.w.idleTskQ.drop calloutTaskMax).count t ≤ _
    omega
  · rw [List.mem_singleton.mp hg]
    intro hpos
    simp only [Frame.count] at hpos
    have hmem : t ∈ s.w.urgentTskQ.take calloutTaskMax ∨ t ∈ s.w.idleTskQ.take calloutTaskMax := by
      simp only [← List.count_pos_iff]
      omega
    refine ⟨hmem, .inl ?_⟩
    rcases hmem with hm | hm
    · exact h.urgent (List.count_pos_iff.mpr (List.mem_of_mem_take hm))
    · exact h.idle (List.count_pos_iff.mpr (List.mem_of_mem_take hm))
  · intro hsome
    have hheld : held t ([.fetchTimed start (s.w.urgentTskQ.take calloutTaskMax)
        (s.w.idleTskQ.take calloutTaskMax)] ++ fs) =
          (s.w.urgentTskQ.take calloutTaskMax).count t +
            (s.w.idleTskQ.take calloutTaskMax).count t + held t fs := by
      simp [Frame.count]
    refine hsome.after ?_ ?_ (Nat.le_add_right _ _) (fun _ => Nat.le_add_right _ _) (.inl ?_)
    · show _ ≤ (s.w.urgentTskQ.drop calloutTaskMax).count t + _
      omega
    · show _ ≤ (s.w.idleTskQ.drop calloutTaskMax).count t + _
      omega
    · rw [hheld, hs, held_cons]
      simp only [Frame.count]
      omega

omit [DecidableEq θ] in
/-- The batch of an iteration. -/
theorem runBatch_safe {start : Chrono} {tasks : List ι} (hwait : 0 < tasks.count t → v.waiting) :
    ∀ g ∈ fetchTimedStep.runBatch start s tasks, g.safe t v := by
  have hkeep : 0 < tasks.count t → t ∈ tasks ∧ v.waiting := fun hc =>
    ⟨List.count_pos_iff.mp hc, hwait hc⟩
  unfold fetchTimedStep.runBatch finalTaskSched
  split_ifs
  · simp
  · simpa [Frame.safe, Frame.keeps, Frame.count] using hkeep
  · simpa [Frame.safe, Frame.keeps, Frame.count] using hkeep

theorem fetchTimedStep_safe {start : Chrono} {urgentTasks idleTasks : List ι}
    (h : Safe t s) (hp : Placed t p s)
    (hs : s.stack th = .fetchTimed start urgentTasks idleTasks :: fs)
    (hr : fetchTimedStep s start urgentTasks idleTasks = some (s', gs)) :
    Safe t (s.after s' th now (gs ++ fs)) := by
  have hwait : 0 < urgentTasks.count t + idleTasks.count t → (s.view t).waiting := fun hc =>
    (h.thread th (.fetchTimed start urgentTasks idleTasks) (hs ▸ List.mem_cons_self) hc).2
  unfold fetchTimedStep at hr
  have hone : s.w.chronoTskQ.count t ≤ 1 := by
    rw [hp.timed]
    split_ifs <;> omega
  split_ifs at hr
  · have htaken := takeRunnables_taken t (i64 (start + calloutTaskSchedJitter)) calloutTaskMax s.w
      hone
    rw [getRunnables_eq] at hr
    generalize takeRunnables (i64 (start + calloutTaskSchedJitter)) calloutTaskMax s.w = d
      at hr htaken
    obtain ⟨w, tasks⟩ := d
    dsimp only at hr htaken
    split_ifs at hr
    cases hr
    rcases htaken with ⟨hsame, hnot⟩ | ⟨-, htask, htbl, hurgent, hidle, htimed, hmem⟩
    · have hmem : t ∉ tasks := List.count_eq_zero.mp hnot
      refine h.next hs ⟨?_, by simp [hmem], rfl, hsame.urgent, hsame.idle, hsame.timed,
        fun _ => rfl⟩ (runBatch_safe fun hpos => hwait ?_) ?_
      · simp [System.view, hsame.task, hsame.tskTbl]
      · simp only [List.count_append] at hpos
        omega
      · rw [held_runBatch]
        simp [Frame.count, hnot]
    · obtain rfl : p = .timed := by
        by_contra hne
        rw [hp.timed, if_neg hne] at htimed
        omega
      have hfree : ∀ th', held t (s.stack th') = 0 := fun th' => by rw [hp.thread, if_neg (by simp)]
      have hzero : held t fs = 0 := by
        have := hfree th
        rw [hs, held_cons] at this
        omega
      have hborn := hp.born_of_place (by simp)
      have hsub : s.w.tskTbl t ≠ some .created := fun hf => by simpa using hp.fresh hf
      have htimed' : w.chronoTskQ.count t = 0 := by
        have := hp.timed
        rw [if_pos rfl] at this
        omega
      have hnone : ∀ {n : Nat} {P : Prop}, n = 0 → 0 < n → P := fun hz hpos => by omega
      refine ⟨hnone (hurgent.trans hp.urgent), hnone (hidle.trans hp.idle), hnone htimed',
        fun i => hnone (hp.queue i), ?_, ?_, fun _ _ => ?_, fun _ _ => ?_⟩
      · refine h.threads (fun th' _ => hfree th') (fun g hg => hs ▸ List.mem_cons_of_mem _ hg)
          hzero ?_ (runBatch_safe fun _ => .inr ⟨htbl, ?_⟩)
        · exact fun hrep => (congrArg Task.doRepeat htask).trans hrep
        · exact congrArg Task.status htask
      · exact (congrArg Task.cancelRefCount htask).trans h.cancel
      · exact (congrArg Task.doRepeat htask).trans (h.repeats hborn hsub)
      · refine .inr (.inr (.inr (.inr ⟨th, ?_⟩)))
        simp only [System.after, Function.update_self, held_append, held_runBatch,
          List.count_append]
        omega
  · cases hr
    refine h.next hs (.refl t s) (runBatch_safe fun hpos => hwait ?_) ?_
    · rwa [List.count_append] at hpos
    · rw [held_runBatch]
      simp [Frame.count]

/-- A stamp of a waiting task in the hands of its thread. -/
theorem Safe.stamp {start : Chrono} (h : Safe t s) (hp : Placed t p s)
    (hs : s.stack th = f :: fs) (hcount : 0 < f.count t) (hwait : (s.view t).waiting)
    (hgs : ∀ v : View, v.is .dequeued → ∀ g ∈ gs, g.safe t v) (hheld : 0 < held t gs) :
    Safe t (s.after { s with w := stampTask s.w t start } th now (gs ++ fs)) := by
  obtain ⟨st, hself⟩ := stampTask_times start s.w t
  have hst :
      System.view ({ s with w := stampTask s.w t start } : System ι θ) t |>.is .dequeued := by
    unfold stampTask
    rcases hwait with ⟨htbl, hstatus⟩ | ⟨htbl, hstatus⟩
    · have hstatus' : (s.w.task t).status = .enqueued := hstatus
      constructor <;> simp [System.view, hstatus', setState, setStateInTable, modTask]
    · have hstatus' : (s.w.task t).status = .dequeued := hstatus
      have htbl' : s.w.tskTbl t = some .dequeued := htbl
      constructor <;> simp [System.view, hstatus', htbl', modTask]
  refine h.hands hp hs hcount (stampTask_queues t start s) ?_ ?_ (hgs _ hst) hheld
  · simp [System.view, hself]
  · simp [System.view, hself]

theorem runTasksBySelfStep_safe {start : Chrono} {tasks : List ι} (h : Safe t s)
    (hp : Placed t p s) (hs : s.stack th = .runTasksBySelf start tasks :: fs)
    (hr : runTasksBySelfStep s th start tasks = some (s', gs)) :
    Safe t (s.after s' th now (gs ++ fs)) := by
  have hkeep : 0 < tasks.count t → t ∈ tasks ∧ (s.view t).waiting :=
    h.thread th (.runTasksBySelf start tasks) (hs ▸ List.mem_cons_self)
  cases tasks with
  | nil =>
    cases hr
    exact h.next hs (.refl t s) (by simp) (by simp [Frame.count])
  | cons e tasks =>
    simp only [runTasksBySelfStep] at hr
    split_ifs at hr
    cases hr
    by_cases he : e = t
    · subst he
      obtain ⟨-, hwait⟩ := hkeep (by simp)
      refine h.stamp hp hs (by simp [Frame.count]) hwait (fun v hv g hg => ?_)
        (by simp only [held_cons, Frame.count, ExecPoint.holds, and_self, if_true]; omega)
      rcases List.mem_cons.mp hg with rfl | hg
      · exact fun _ => .inr hv
      · rw [List.mem_singleton.mp hg]
        exact fun hc => ⟨List.count_pos_iff.mp hc, .inr hv⟩
    · refine h.next hs (.of_same (.world (.stampTask he ..))) (fun g hg => ?_)
        (by simp [Frame.count, he])
      rcases List.mem_cons.mp hg with rfl | hg
      · exact fun het => absurd het he
      · rw [List.mem_singleton.mp hg]
        exact fun hc => ⟨List.count_pos_iff.mp hc,
          (hkeep (by rwa [List.count_cons_of_ne he])).2⟩

theorem stampStep_safe {start : Chrono} {todo stamped : List ι} (h : Safe t s)
    (hp : Placed t p s) (hs : s.stack th = .stamp start todo stamped :: fs)
    (hr : stampStep s th start stamped todo = some (s', gs)) :
    Safe t (s.after s' th now (gs ++ fs)) := by
  have hkeep : 0 < todo.count t + stamped.count t →
      t ∈ todo ∧ (s.view t).waiting ∨ t ∈ stamped ∧ (s.view t).is .dequeued :=
    h.thread th (.stamp start todo stamped) (hs ▸ List.mem_cons_self)
  have hwait : 0 < todo.count t + stamped.count t → (s.view t).waiting := fun hc =>
    (hkeep hc).elim And.right fun hd => .inr hd.2
  cases todo with
  | nil =>
    cases hr
    refine h.next hs (.refl t s) (fun g hg => ?_) (by simp [Frame.count])
    rw [List.mem_singleton.mp hg]
    intro hc
    rcases hkeep (hc.trans_le (Nat.le_add_left _ _)) with ⟨hm, -⟩ | hd
    · exact absurd hm List.not_mem_nil
    · exact hd
  | cons e todo =>
    simp only [stampStep] at hr
    split_ifs at hr
    cases hr
    by_cases he : e = t
    · subst he
      refine h.stamp hp hs (by simp only [Frame.count, List.count_cons_self]; omega)
        (hwait (by simp only [List.count_cons_self]; omega)) (fun v hv g hg => ?_) ?_
      · rw [List.mem_singleton.mp hg]
        exact fun _ => .inr ⟨by simp, hv⟩
      · simp only [held_cons, Frame.count, List.count_append, List.count_singleton_self]
        omega
    · refine h.next hs (.of_same (.world (.stampTask he ..))) (fun g hg => ?_)
        (by simp [Frame.count, he])
      rw [List.mem_singleton.mp hg]
      intro hc
      have hc' : 0 < (e :: todo).count t + stamped.count t := by
        simpa [Frame.count, he] using hc
      rcases hkeep hc' with ⟨hm, hv⟩ | ⟨hm, hv⟩
      · exact .inl ⟨by simpa [Ne.symm he] using hm, hv⟩
      · exact .inr ⟨List.mem_append_left _ hm, hv⟩

theorem putStep_safe {stride q left : Nat} {tasks : List ι} (h : Safe t s)
    (hs : s.stack th = .put stride q left tasks :: fs)
    (hr : putStep s stride q left tasks = some (s', gs)) :
    Safe t (s.after s' th now (gs ++ fs)) := by
  have hkeep : 0 < tasks.count t → t ∈ tasks ∧ (s.view t).is .dequeued :=
    h.thread th (.put stride q left tasks) (hs ▸ List.mem_cons_self)
  unfold putStep at hr
  split_ifs at hr with hnil
  · cases hr
    exact h.next hs (.refl t s) (by simp) (by simp [Frame.count, hnil])
  · cases hr
    refine h.next hs (.refl t s) (fun g hg => ?_) (by simp [Frame.count])
    rw [List.mem_singleton.mp hg]
    exact hkeep
  · split at hr
    · contradiction
    · rename_i i hi
      dsimp only at hr
      generalize min left (calloutTaskMax - (s.qs i).length) = n at hr
      have hsplit := count_take_add_drop t n tasks
      have hput : ∀ lastQ, Safe t (s.after
          { s with qs := Function.update s.qs i (s.qs i ++ tasks.take n), lastQ } th now
          ([.put stride q (left - n) (tasks.drop n)] ++ fs)) := by
        intro lastQ
        refine h.same rfl rfl le_rfl le_rfl le_rfl (fun j hc => ?_) (h.rest hs fun g hg => ?_) ?_
        · by_cases hj : j = i
          · subst hj
            simp only [Function.update_self, List.count_append] at hc
            refine ⟨List.mem_of_getElem? hi, ?_⟩
            by_cases hz : (s.qs j).count t = 0
            · exact (hkeep (by omega)).2
            · exact (h.queue j (Nat.pos_of_ne_zero hz)).2
          · simp only [ne_eq, hj, not_false_eq_true, Function.update_of_ne] at hc
            exact h.queue j hc
        · rw [List.mem_singleton.mp hg]
          intro hc
          exact ⟨List.count_pos_iff.mp hc, (hkeep (by simp only [Frame.count] at hc; omega)).2⟩
        · intro hsome
          refine hsome.after (Nat.le_add_right _ _) (Nat.le_add_right _ _) (Nat.le_add_right _ _)
            (fun j => ?_) ?_
          · by_cases hj : j = i
            · subst hj
              simp only [Function.update_self, List.count_append]
              omega
            · simp [hj]
          · by_cases hz : (tasks.take n).count t = 0
            · left
              simp only [hs, held_cons, held_append, held_nil, Frame.count]
              omega
            · refine .inr ⟨i, ?_⟩
              simp only [Function.update_self, List.count_append]
              omega
      split_ifs at hr <;> cases hr
      · exact hput _
      · exact hput s.lastQ

theorem workerStep_safe {tasks : List ι} (h : Safe t s) (hs : s.stack th = .worker tasks :: fs)
    (hr : workerStep s tasks = some (s', gs)) : Safe t (s.after s' th now (gs ++ fs)) := by
  have hkeep : 0 < tasks.count t → t ∈ tasks ∧ (s.view t).is .dequeued :=
    h.thread th (.worker tasks) (hs ▸ List.mem_cons_self)
  cases tasks with
  | nil =>
    cases hr
    exact h.next hs (.refl t s) (by simp) (by simp [Frame.count])
  | cons e tasks =>
    cases hr
    refine h.next hs (.refl t s) (fun g hg => ?_) ?_
    · rcases List.mem_cons.mp hg with rfl | hg
      · rintro rfl
        exact .inr (hkeep (by simp)).2
      · rw [List.mem_singleton.mp hg]
        intro hc
        refine ⟨List.count_pos_iff.mp hc, (hkeep ?_).2⟩
        exact hc.trans_le (List.count_le_count_cons)
    · by_cases he : e = t
      · subst he
        simp only [held_cons, held_nil, Frame.count, ExecPoint.holds, List.count_cons_self,
          and_self, if_true]
        omega
      · simp [Frame.count, he]

/-! ## All steps -/

/-- The event leaves the task on its round: it neither cancels it nor runs it by force, and a
submission of it repeats it. -/
def Act.leaves (t : ι) : Act ι → Bool
  | .call (.submit e _ interval) => e ≠ t || decide (0 < interval)
  | .call (.cancel e) | .call (.force e) => e ≠ t
  | _ => true

/-- The task's procedure returns another result than `GALLUS_RESULT_OK`. -/
def fails (t : ι) (s : System ι θ) (e : Event ι θ) : Bool :=
  match e.act, s.stack e.thread with
  | .finish r, .exec e' .body :: _ => e' = t && r ≠ Result.ok
  | _, _ => false

/-- The steps of the runs that are spoken about: `t` is a repeating task that nobody cancels and
whose executions return `GALLUS_RESULT_OK`. -/
def repeating (t : ι) (s : System ι θ) (e : Event ι θ) : Prop :=
  e.act.leaves t = true ∧ fails t s e = false

/-- An executor counts itself on a task that no other is counted on, and the next execution time
of the task is in the range of the type. -/
def Frame.undisturbed (t : ι) (w : Callout ι) : Frame ι → Bool
  | .exec e .count => e ≠ t || (w.task t).execRefCount = 0
  | .exec e .resched => e ≠ t || 0 ≤ i64 ((w.task t).lastAbstime + (w.task t).intervalTime)
  | _ => true

/-- In addition, no two executors and no two submitters of the task meet. -/
def undisturbed (t : ι) (s : System ι θ) (e : Event ι θ) : Prop :=
  repeating t s e ∧ submitsOnce t s e ∧ ∀ f ∈ running s e, f.undisturbed t s.w = true

instance (t : ι) (s : System ι θ) (e : Event ι θ) : Decidable (repeating t s e) :=
  inferInstanceAs (Decidable (_ ∧ _))

instance (t : ι) (s : System ι θ) (e : Event ι θ) : Decidable (undisturbed t s e) :=
  inferInstanceAs (Decidable (_ ∧ _ ∧ ∀ f ∈ running s e, f.undisturbed t s.w = true))

theorem frameStep_safe (h : Safe t s) (hp : Placed t p s) (hs : s.stack th = f :: fs)
    (hok : f.submits t = true → s.w.tskTbl t = some .created)
    (hfree : f.undisturbed t s.w = true) (hr : frameStep s th now f = some (s', gs)) :
    Safe t (s.after s' th now (gs ++ fs)) := by
  have hsafe : f.safe t (s.view t) := h.thread th f (hs ▸ List.mem_cons_self)
  cases ha : f.about with
  | some e =>
    by_cases he : e = t
    · subst he
      cases f <;> simp only [Frame.about, Option.some.injEq, reduceCtorEq] at ha <;> subst ha
      · exact submitStep_safe h hp hs (fun hq => hok (by simpa [Frame.submits] using hq)) hr
      · exact absurd rfl hsafe
      · refine execStep_safe h hp hs ?_ ?_ hr
        · rintro rfl
          simpa [Frame.undisturbed] using hfree
        · rintro rfl
          simpa [Frame.undisturbed] using hfree
      · exact absurd rfl hsafe
      · exact absurd rfl hsafe
    · exact h.foreign hs (Frame.count_foreign ha he) (frameStep_foreign ha he hr)
  | none =>
    cases f <;> simp only [Frame.about, reduceCtorEq] at ha
    · exact fetchStep_safe h hs hr
    · exact fetchTimedStep_safe h hp hs hr
    · exact runTasksBySelfStep_safe h hp hs hr
    · exact stampStep_safe h hp hs hr
    · exact putStep_safe h hs hr
    · exact workerStep_safe h hs hr

theorem resetInterval_round {e : ι} {interval : Chrono}
    (h : resetInterval s th e interval = some s') : SameRound t s s' := by
  by_cases he : e = t
  · subst he
    unfold resetInterval at h
    split_ifs at h <;> cases h
    · refine ⟨?_, rfl, rfl, rfl, rfl, rfl, fun _ => rfl⟩
      simp [System.view, System.modTask, System.return_, modTask]
    · exact .of_same (.return_ ..)
    · exact .of_same (.return_ ..)
  · exact .of_same (resetInterval_foreign he h)

theorem callStep_safe {op : Op ι} (h : Safe t s) (hp : Placed t p s)
    (hok : (Act.call op).leaves t = true) (hr : callStep s th now op = some (s', gs)) :
    Safe t (s.after s' th now (gs ++ s.stack th)) := by
  have hcall : ∀ {g : Frame ι}, g.safe t (s.view t) →
      Safe t (s.after s th now ([g] ++ s.stack th)) := by
    intro g hg
    refine h.keep (.refl t s) (fun f hf => ?_) (by simp)
    rcases List.mem_cons.mp hf with rfl | hf
    · exact hg
    · exact h.thread th f hf
  cases op <;> simp only [callStep] at hr
  case create e hasArg hasFreeproc =>
    obtain ⟨s₁, hcreate, heq⟩ := Option.map_eq_some_iff.mp hr
    cases heq
    by_cases he : e = t
    · subst he
      unfold createTask at hcreate
      split_ifs at hcreate with hnew
      cases hcreate
      obtain ⟨rfl, -, habout⟩ := hp.unborn hnew.2
      have hnone : ∀ {n : Nat} {P : Prop}, n = 0 → 0 < n → P := fun hz hpos => by omega
      have hfree : ∀ th', held e (s.stack th') = 0 := fun th' => by
        rw [hp.thread, if_neg (by simp)]
      have hthread : ∀ v th', ∀ g ∈ s.stack th', g.safe e v := fun v th' g hg =>
        have hnot : g.about = some e → g.safe e v := fun ha => absurd ha (habout th' g hg)
        Frame.safe_of_count (count_of_held (hfree th') hg) id hnot
      refine ⟨hnone hp.urgent, hnone hp.idle, hnone hp.timed, fun i => hnone (hp.queue i),
        mem_after (hthread _ th) (hthread _), ?_, fun _ hsub => ?_, fun _ hsub => ?_⟩
      · simp [System.view, System.after, System.note, newTask]
      · exact absurd (by simp [System.after, System.note, setStateInTable]) hsub
      · exact absurd (by simp [System.after, System.note, setStateInTable]) hsub
    · exact h.keep (.of_same (createTask_foreign he hcreate)) (h.thread th) le_rfl
  case submit e initialDelay interval =>
    split_ifs at hr
    cases hr
    refine hcall fun he => ⟨?_, by simp⟩
    simpa [Act.leaves, he] using hok
  case cancel e =>
    split_ifs at hr
    cases hr
    exact hcall (by simpa [Frame.safe, Act.leaves] using hok)
  case force e =>
    split_ifs at hr
    cases hr
    exact hcall (by simpa [Frame.safe, Act.leaves] using hok)
  case resetInterval e interval =>
    split_ifs at hr
    rw [Option.map_eq_some_iff] at hr
    obtain ⟨s₁, hreset, heq⟩ := hr
    cases heq
    exact h.keep (resetInterval_round hreset) (h.thread th) le_rfl
  case iterate =>
    split_ifs at hr
    cases hr
    exact hcall (by simp [Frame.safe, Frame.count])
  case work =>
    split_ifs at hr with hworker
    cases hr
    have hq := count_take_add_drop t calloutTaskMax (s.qs th)
    refine h.same rfl rfl le_rfl le_rfl le_rfl (fun i hc => ?_) (fun g hg => ?_) fun hsome => ?_
    · by_cases hi : i = th
      · subst hi
        simp only [Function.update_self] at hc
        exact h.queue i (by omega)
      · simp only [ne_eq, hi, not_false_eq_true, Function.update_of_ne] at hc
        exact h.queue i hc
    · rw [hworker.2, List.append_nil, List.mem_singleton] at hg
      rw [hg]
      intro hc
      exact ⟨List.count_pos_iff.mp hc, (h.queue th (by simp only [Frame.count] at hc; omega)).2⟩
    · refine hsome.after (Nat.le_add_right _ _) (Nat.le_add_right _ _) (Nat.le_add_right _ _)
        (fun i => ?_) (.inl ?_)
      · by_cases hi : i = th
        · subst hi
          simp only [Function.update_self, held_append, held_cons, Frame.count]
          omega
        · simp [hi]
      · simp

/-- A step keeps a task on its round. -/
theorem Safe.step {e : Event ι θ} (h : Safe t s) (hp : Placed t p s) (hok : undisturbed t s e)
    (hstep : step s e = some s') : Safe t s' := by
  obtain ⟨⟨hleaves, hfails⟩, honce, hfree⟩ := hok
  cases step_cases hstep with
  | call hact hr => exact callStep_safe h hp (hact ▸ hleaves) hr
  | go hact hs hr =>
    rename_i f fs gs s₁
    have hrun : f ∈ running s e := by simp [running, hact, hs]
    exact frameStep_safe h hp hs (honce f hrun) (hfree f hrun) hr
  | finish hact hs =>
    rename_i t' r fs
    by_cases he : t' = t
    · subst he
      have hret : r = Result.ok := by simpa [fails, hact, hs] using hfails
      subst hret
      exact execEnd_safe h hs rfl
    · exact h.foreign hs (Frame.count_foreign rfl he) (execEnd_foreign he r)
  | wake hact hs hwoken =>
    refine h.next hs (.refl t s) (fun g hg => ?_) (Nat.zero_le _)
    rw [List.mem_singleton.mp hg]
    exact h.thread e.thread (.cancel _ (.asleep _)) (hs ▸ List.mem_cons_self)

omit [DecidableEq θ] in
theorem Safe.init (t : ι) (clock : Chrono) (mainLoop : θ) (workers : List θ) :
    Safe t (System.init clock mainLoop workers : System ι θ) where
  urgent hc := absurd hc (by simp [System.init])
  idle hc := absurd hc (by simp [System.init])
  timed hc := absurd hc (by simp [System.init])
  queue _ hc := absurd hc (by simp [System.init])
  thread _ _ hf := absurd hf List.not_mem_nil
  cancel := rfl
  repeats hb := absurd hb (by simp [System.init])
  somewhere hb := absurd hb (by simp [System.init])

/-- **Not lost.** In an undisturbed run, a repeating task that was submitted is in a queue, or at a
place where it will be run or submitted again. -/
theorem repeating_notLost {t : ι} {clock : Chrono} {mainLoop : θ} {workers : List θ}
    {es : List (Event ι θ)} {s : System ι θ}
    (h : Trans.Run step (undisturbed t) (System.init clock mainLoop workers) es s)
    (hborn : (s.hist t).created = true) (hsub : s.w.tskTbl t ≠ some .created) : NotLost t s := by
  have hinv : Safe t s ∧ ∃ p, Placed t p s := by
    refine h.inv (I := fun s => Safe t s ∧ ∃ p, Placed t p s) ?_
      ⟨.init t clock mainLoop workers, .nowhere, .init t clock mainLoop workers⟩
    rintro s e s' ⟨hsafe, p, hp⟩ hok hstep
    exact ⟨hsafe.step hp hok hstep, hp.step hok.2.1 hstep⟩
  exact hinv.1.notLost hborn hsub

/-- A repeating task that two workers run, one after the other. -/
def oneAfterTheOther : List (Event (Fin 1) (Fin 4)) :=
  [⟨3, 1, .call (.create 0 false false)⟩, ⟨3, 1, .call (.submit 0 0 10000)⟩] ++ steps 3 1 2 ++
    [⟨0, 1, .call .iterate⟩] ++ steps 0 1 6 ++ [⟨1, 1, .call .work⟩] ++ steps 1 1 4 ++
    [⟨1, 1, .finish Result.ok⟩] ++ steps 1 1 5 ++ [⟨0, 10001, .call .iterate⟩] ++ steps 0 10001 6 ++
    [⟨2, 10001, .call .work⟩] ++ steps 2 10001 3

theorem repeating_notLost_oneAfterTheOther :
    ∃ s, Trans.Run step (undisturbed 0) (System.init 1 0 [1, 2]) oneAfterTheOther s ∧
      s.stack 2 = [.exec 0 .recheck, .worker []] ∧ NotLost 0 s := by
  have h : ((Trans.run (Trans.guarded step (undisturbed 0)) (System.init 1 0 [1, 2])
      oneAfterTheOther).map fun s =>
        (s.stack 2, (s.hist 0).created, decide (s.w.tskTbl 0 ≠ some .created))) =
      some ([.exec 0 .recheck, .worker []], true, true) := by decide +kernel
  obtain ⟨s, hrun, hs⟩ := Option.map_eq_some_iff.mp h
  simp only [Prod.mk.injEq, decide_eq_true_eq] at hs
  obtain ⟨hstack, hborn, hsub⟩ := hs
  exact ⟨s, .of_guarded hrun, hstack, repeating_notLost (.of_guarded hrun) hborn hsub⟩

/-- The first worker submits the task again and is late to count itself off; the second one has
fetched the task by then, finds the other still counted, and drops the task. -/
def earlyFetch : List (Event (Fin 1) (Fin 4)) :=
  [⟨3, 1, .call (.create 0 false false)⟩, ⟨3, 1, .call (.submit 0 0 10000)⟩] ++ steps 3 1 2 ++
    [⟨0, 1, .call .iterate⟩] ++ steps 0 1 6 ++ [⟨1, 1, .call .work⟩] ++ steps 1 1 4 ++
    [⟨1, 1, .finish Result.ok⟩] ++ steps 1 1 3 ++ [⟨0, 10001, .call .iterate⟩] ++ steps 0 10001 6 ++
    [⟨2, 10001, .call .work⟩] ++ steps 2 10001 5 ++ steps 1 10001 2

theorem lost_earlyFetch :
    ∃ s, Trans.Run step (repeating 0) (System.init 1 0 [1, 2]) earlyFetch s ∧
      (s.hist 0).created = true ∧ (s.view 0).is .dequeued ∧ ¬ NotLost 0 s := by
  have h : ((Trans.run (Trans.guarded step (repeating 0)) (System.init 1 0 [1, 2])
      earlyFetch).map fun s =>
        ((s.hist 0).created, s.w.tskTbl 0, (s.w.task 0).status,
          s.w.urgentTskQ ++ s.w.idleTskQ ++ s.w.chronoTskQ,
          decide (∀ th, s.qs th = [] ∧ s.stack th = []))) =
      some (true, some .dequeued, .dequeued, [], true) := by decide +kernel
  obtain ⟨s, hrun, hs⟩ := Option.map_eq_some_iff.mp h
  simp only [Prod.mk.injEq, List.append_eq_nil_iff, decide_eq_true_eq] at hs
  obtain ⟨hborn, htbl, hstatus, ⟨⟨hurgent, hidle⟩, htimed⟩, hthreads⟩ := hs
  refine ⟨s, .of_guarded hrun, hborn, ⟨htbl, hstatus⟩, ?_⟩
  rintro (hm | hm | hm | ⟨i, -, hm, -⟩ | ⟨th, f, hm, -⟩)
  · simp [hurgent] at hm
  · simp [hidle] at hm
  · simp [htimed] at hm
  · simp [(hthreads i).1] at hm
  · simp [(hthreads th).2] at hm

end Callout
end Gallus
