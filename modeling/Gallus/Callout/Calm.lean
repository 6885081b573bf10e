import Gallus.Callout.Places

/-!
# A task in the hands of a single thread

Without workers the main loop's thread runs the tasks itself. If it is the only thread, a call goes
on from step to step without another one between, except below a task's procedure.

* `Calm t`: what holds of the task `t` whenever no call about it is under way but its execution.
  `Own t f`: what holds while the running call `f` is about it.
* `Stuck`: a task's procedure has come to the cancellation of a task that is being executed, and
  waits for its own thread. Nothing happens any more then.
* `submitStep_sound`, `cancelStep_sound`, `execStep_sound`, `destroyStep_sound` and
  `forceStep_sound`: what a step of a call about the task leaves.
-/

namespace Gallus
namespace Callout

variable {ι θ : Type} [DecidableEq ι] [DecidableEq θ]

/-! ## The invariant -/

/-- A call below another one: an execution in the task's procedure, or the batch it is of. -/
def Frame.under : Frame ι → Bool
  | .exec _ .body | .runTasksBySelf _ _ => true
  | _ => false

/-- A call that is made without workers. -/
def Frame.alone : Frame ι → Bool
  | .stamp _ _ _ | .put _ _ _ _ | .worker _ => false
  | _ => true

/-- A task in the table, whose cancellations are counted off and whose record is not freed. -/
structure Alive (t : ι) (w : Callout ι) (h : History) (execs : Nat) : Prop where
  table : w.tskTbl t = some (w.task t).status
  execs : (w.task t).execRefCount = execs
  cancels : (w.task t).cancelRefCount = 0
  freed : h.freed = 0

/-- How often the task is in a queue or in the hands of these calls. -/
def somewhere (t : ι) (w : Callout ι) (fs : List (Frame ι)) : Nat :=
  w.urgentTskQ.count t + w.idleTskQ.count t + w.chronoTskQ.count t + held t fs

/-- Where a task of this state can be. -/
def fits (t : ι) (w : Callout ι) (fs : List (Frame ι)) : TaskState → Prop
  | .created => True
  | .enqueued => somewhere t w fs ≠ 0
  | .dequeued => held t fs ≠ 0
  | .executing => .exec t .body ∈ fs
  | .cancelled => w.chronoTskQ.count t = 0 ∧ somewhere t w fs ≠ 0
  | .unknown | .executed | .execFailed | .deleting => False

/-- A task that is created and not destroyed. -/
structure Rest (t : ι) (w : Callout ι) (h : History) (fs : List (Frame ι)) : Prop where
  alive : Alive t w h (if (w.task t).status = .executing then 1 else 0)
  fits : fits t w fs (w.task t).status
  body : .exec t .body ∈ fs → (w.task t).status = .executing
  cancelled : h.cancelled = true → (w.task t).status = .cancelled

/-- A task that has left the table. -/
structure Gone (t : ι) (w : Callout ι) (h : History) (fs : List (Frame ι)) : Prop where
  table : w.tskTbl t = none
  freed : h.freed = if (w.task t).hasFreeproc ∧ (w.task t).hasArg then 1 else 0
  nowhere : somewhere t w fs = 0

/-- The state of a task between the steps of the calls about it. -/
inductive Calm (t : ι) (w : Callout ι) (h : History) (fs : List (Frame ι)) : Prop
  | unborn (hnew : h.created = false) (hfreed : h.freed = 0) (hcancelled : h.cancelled = false)
  | rest (hborn : h.created = true) (hrest : Rest t w h fs)
  | gone (hborn : h.created = true) (hgone : Gone t w h fs)

/-- A task on its way out of the table: in no queue but the timed one, and in nobody's hands. -/
structure Doomed (t : ι) (w : Callout ι) (h : History) (fs : List (Frame ι)) (execs : Nat) :
    Prop where
  table : w.tskTbl t ≠ none
  status : (w.task t).status ≠ .deleting
  execs : (w.task t).execRefCount = execs
  freed : h.freed = 0
  urgent : w.urgentTskQ.count t = 0
  idle : w.idleTskQ.count t = 0
  held : held t fs = 0

/-- A task that is executed, up to its procedure and after it. -/
structure Running (t : ι) (w : Callout ι) (h : History) (execs : Nat) (st : TaskState) : Prop where
  alive : Alive t w h execs
  status : (w.task t).status = st
  cancelled : h.cancelled = true → st = .cancelled

/-- What holds of the task `t` while the running call is about it. -/
def Own (t : ι) (w : Callout ι) (h : History) (fs : List (Frame ι)) : Frame ι → Prop
  | .submit _ _ _ .check | .cancel _ .check | .force _ .check | .force _ .lock | .exec _ .body =>
    Calm t w h fs
  | .submit _ _ _ .lock | .submit _ _ _ .blocked => Calm t w h fs ∧ w.tskTbl t = some .created
  | .cancel _ (.readExec st) => Calm t w h fs ∧ w.tskTbl t = some st ∧ st ≠ .cancelled
  | .cancel _ .count => (w.task t).execRefCount ≠ 0
  | .cancel _ (.mark st) =>
    Calm t w h fs ∧ w.tskTbl t = some st ∧ (w.task t).execRefCount = 0 ∧
      (st = .enqueued ∨ st = .dequeued)
  | .cancel _ _ => False
  | .force _ .run => Running t w h 0 .dequeued
  | .exec _ .check => Running t w h 0 .dequeued ∨ Running t w h 0 .cancelled
  | .exec _ .count => Running t w h 0 .dequeued
  | .exec _ .recheck => Running t w h 1 .dequeued
  | .exec _ .readCancel | .exec _ .readRepeat | .exec _ .resched => Running t w h 1 .executing
  | .exec _ .leave => Running t w h 1 .enqueued ∧ w.chronoTskQ.count t ≠ 0
  | .exec _ .readCancelDelete | .exec _ .leaveDelete =>
    Doomed t w h fs 1 ∧ (w.task t).cancelRefCount = 0
  | .exec _ .lockDelete | .destroy _ _ .unsched => Doomed t w h fs 0
  | .exec _ .wakeup => False
  | .destroy _ _ .setTable => Doomed t w h fs 0 ∧ w.chronoTskQ.count t = 0
  | .destroy _ _ .check | .destroy _ _ .delete =>
    Doomed t w h fs 0 ∧ w.chronoTskQ.count t = 0 ∧ w.tskTbl t = some .cancelled
  | .destroy _ _ .free => Gone t w h fs
  | _ => False

/-- What holds of the task `t` with these calls of the thread. -/
def Fine (t : ι) (w : Callout ι) (h : History) (fs : List (Frame ι)) : Prop :=
  match fs with
  | [] => Calm t w h []
  | f :: fs => if f.about = some t then Own t w h (f :: fs) f else Calm t w h (f :: fs)

/-- The calls of the only thread. -/
def Nested (fs : List (Frame ι)) : Prop :=
  (∀ f ∈ fs, f.alone = true) ∧ ∀ f ∈ fs.tail, f.under = true

/-- The thread waits for itself. -/
def Stuck (w : Callout ι) (fs : List (Frame ι)) : Prop :=
  ∃ t rest, (fs = .cancel t .wait :: rest ∨ ∃ since, fs = .cancel t (.asleep since) :: rest) ∧
    (w.task t).execRefCount ≠ 0

/-- What holds of the task `t` with these calls of the thread. -/
structure Sound (t : ι) (s : System ι θ) (fs : List (Frame ι)) : Prop where
  fine : Fine t s.w (s.hist t) fs
  neverRun : (s.hist t).ranCancelled = false

/-! ## From one list of calls to another -/

section Transfer

variable {t : ι} {w w' : Callout ι} {h h' : History} {fs gs fs' : List (Frame ι)} {f : Frame ι}

/-- Nothing of the record is changed that the invariant speaks about. -/
structure SameRecord (t : ι) (w w' : Callout ι) : Prop where
  status : (w'.task t).status = (w.task t).status
  execs : (w'.task t).execRefCount = (w.task t).execRefCount
  cancels : (w'.task t).cancelRefCount = (w.task t).cancelRefCount
  hasArg : (w'.task t).hasArg = (w.task t).hasArg
  hasFreeproc : (w'.task t).hasFreeproc = (w.task t).hasFreeproc
  table : w'.tskTbl t = w.tskTbl t

/-- Nor is anything of the queues. -/
structure Kept (t : ι) (w w' : Callout ι) : Prop extends SameRecord t w w' where
  urgent : w'.urgentTskQ.count t = w.urgentTskQ.count t
  idle : w'.idleTskQ.count t = w.idleTskQ.count t
  timed : w'.chronoTskQ.count t = w.chronoTskQ.count t

theorem SameTask.kept (hw : SameTask t w w') : Kept t w w' := by
  refine ⟨⟨?_, ?_, ?_, ?_, ?_, hw.tskTbl⟩, hw.urgent, hw.idle, hw.timed⟩ <;> rw [hw.task]

theorem Kept.refl (t : ι) (w : Callout ι) : Kept t w w := (SameTask.refl t w).kept

omit [DecidableEq ι] in
theorem SameRecord.alive {n : Nat} (hw : SameRecord t w w') (ha : Alive t w h n) :
    Alive t w' h n := by
  refine ⟨?_, hw.execs.trans ha.execs, hw.cancels.trans ha.cancels, ha.freed⟩
  rw [hw.table, hw.status]
  exact ha.table

/-- The task goes from one place to another. -/
theorem Calm.move (hc : Calm t w h fs) (hw : SameRecord t w w')
    (hsome : somewhere t w' fs' = somewhere t w fs)
    (htimed : w'.chronoTskQ.count t = w.chronoTskQ.count t)
    (hheld : held t fs ≠ 0 → held t fs' ≠ 0)
    (hbody : .exec t .body ∈ fs' ↔ .exec t .body ∈ fs) : Calm t w' h fs' := by
  cases hc with
  | unborn hnew hfreed hcancelled => exact .unborn hnew hfreed hcancelled
  | rest hborn hrest =>
    refine .rest hborn ⟨?_, ?_, ?_, ?_⟩
    · rw [hw.status]
      exact hw.alive hrest.alive
    · have hfits := hrest.fits
      rw [hw.status]
      unfold Callout.fits at hfits ⊢
      cases hst : (w.task t).status <;> simp only [hst] at hfits ⊢
      · rwa [hsome]
      · exact hheld hfits
      · exact hbody.mpr hfits
      · rwa [hsome, htimed]
    · rw [hw.status]
      exact fun hmem => hrest.body (hbody.mp hmem)
    · rw [hw.status]
      exact hrest.cancelled
  | gone hborn hgone =>
    refine .gone hborn ⟨?_, ?_, ?_⟩
    · rw [hw.table]
      exact hgone.table
    · rw [hw.hasFreeproc, hw.hasArg]
      exact hgone.freed
    · rw [hsome]
      exact hgone.nowhere

/-- Calls come and go that have the task in their hands as before. -/
theorem Calm.same (hc : Calm t w h fs) (hw : Kept t w w') (hheld : held t fs' = held t fs)
    (hbody : .exec t .body ∈ fs' ↔ .exec t .body ∈ fs) : Calm t w' h fs' := by
  refine hc.move hw.toSameRecord ?_ hw.timed (fun hpos => hheld ▸ hpos) hbody
  unfold somewhere
  rw [hw.urgent, hw.idle, hw.timed, hheld]

/-- The calls below are in a calm state. -/
theorem Calm.fine (hc : Calm t w h fs) (hunder : ∀ f ∈ fs, f.under = true) : Fine t w h fs := by
  cases fs with
  | nil => exact hc
  | cons f fs =>
    show if f.about = some t then _ else _
    have hu := hunder f List.mem_cons_self
    unfold Frame.under at hu
    split at hu
    · split_ifs
      · next ha =>
        cases ha
        exact hc
      · exact hc
    · exact hc
    · cases hu

/-- A call that is not about the task. -/
theorem Fine.calm (hf : Fine t w h (f :: fs)) (ha : f.about ≠ some t) : Calm t w h (f :: fs) := by
  have hf : if f.about = some t then Own t w h (f :: fs) f else Calm t w h (f :: fs) := hf
  rwa [if_neg ha] at hf

theorem Fine.own (hf : Fine t w h (f :: fs)) (ha : f.about = some t) : Own t w h (f :: fs) f := by
  have hf : if f.about = some t then Own t w h (f :: fs) f else Calm t w h (f :: fs) := hf
  rwa [if_pos ha] at hf

theorem Own.fine (ho : Own t w h (f :: fs) f) (ha : f.about = some t) : Fine t w h (f :: fs) := by
  show if f.about = some t then _ else _
  rwa [if_pos ha]

/-- The running call is not about the task. -/
theorem Calm.top (hc : Calm t w h (f :: fs)) (ha : f.about ≠ some t) : Fine t w h (f :: fs) := by
  show if f.about = some t then _ else _
  rwa [if_neg ha]

/-- The running call is not about the task, or the calls below it go on. -/
theorem Calm.above (hc : Calm t w h (gs ++ fs)) (hgs : ∀ g ∈ gs, g.about ≠ some t)
    (hunder : ∀ f ∈ fs, f.under = true) : Fine t w h (gs ++ fs) := by
  cases gs with
  | nil => exact hc.fine hunder
  | cons g gs => exact hc.top (hgs g List.mem_cons_self)

/-- A step of a call that is not about the task, and changes nothing of it. -/
theorem Calm.step (hc : Calm t w h (f :: fs)) (hw : Kept t w w')
    (hheld : held t gs = f.count t) (hf : f ≠ .exec t .body)
    (hgs : ∀ g ∈ gs, g.about ≠ some t) (hunder : ∀ f ∈ fs, f.under = true) :
    Fine t w' h (gs ++ fs) := by
  refine Calm.above (hc.same hw (by simp [hheld]) ?_) hgs hunder
  have hnot : .exec t .body ∉ gs := fun hmem => hgs _ hmem rfl
  simp [hnot, Ne.symm hf]

end Transfer

/-! ## Steps of calls on the task itself -/

section Own

variable {t : ι} {p : Place θ} {s s' : System ι θ} {th : θ} {now : Chrono}
  {fs gs : List (Frame ι)} {f : Frame ι}

/-- A task in the hands of a thread is in no queue. -/
theorem Placed.no_queue (h : Placed t p s) (hpos : held t (s.stack th) ≠ 0) :
    s.w.urgentTskQ.count t = 0 ∧ s.w.idleTskQ.count t = 0 ∧ s.w.chronoTskQ.count t = 0 ∧
      s.w.flag t = false := by
  obtain rfl := h.place (Nat.pos_of_ne_zero hpos)
  refine ⟨?_, ?_, ?_, ?_⟩
  · simpa using h.urgent
  · simpa using h.idle
  · simpa using h.timed
  · simpa using h.flag

/-- A task whose procedure is not entered below. -/
theorem body_not_mem (hzero : held t fs = 0) : .exec t .body ∉ fs := fun hmem => by
  have := count_of_held hzero hmem
  simp [Frame.count, ExecPoint.holds] at this

/-- A task that is created and in the table. -/
theorem Calm.of_table {w : Callout ι} {h : History} {st : TaskState} (hc : Calm t w h fs)
    (hborn : h.created = true) (htbl : w.tskTbl t = some st) :
    Rest t w h fs ∧ (w.task t).status = st := by
  cases hc with
  | unborn hnew =>
    rw [hborn] at hnew
    contradiction
  | rest _ hrest =>
    have := hrest.alive.table
    rw [htbl] at this
    exact ⟨hrest, (Option.some.inj this).symm⟩
  | gone _ hgone =>
    rw [hgone.table] at htbl
    contradiction

/-- A call about the task goes on to another point. -/
theorem Calm.next {w : Callout ι} {h : History} {g : Frame ι} (hc : Calm t w h (f :: fs))
    (hf : f.count t = 0) (hg : g.count t = 0) : Calm t w h (g :: fs) := by
  refine hc.same (.refl t w) (by simp [hf, hg]) ?_
  have hne : ∀ e : Frame ι, e.count t = 0 → .exec t .body ≠ e := by
    rintro _ hz rfl
    simp [Frame.count, ExecPoint.holds] at hz
  simp [hne f hf, hne g hg]

/-- A call about the task returns. -/
theorem Calm.ret {w : Callout ι} {h : History} (hc : Calm t w h (f :: fs)) (hf : f.count t = 0)
    (hunder : ∀ f ∈ fs, f.under = true) : Fine t w h fs := by
  refine (hc.same (.refl t w) (by simp [hf]) ?_).fine hunder
  have hne : .exec t .body ≠ f := by
    rintro rfl
    simp [Frame.count, ExecPoint.holds] at hf
  simp [hne]

omit [DecidableEq θ] in
/-- The locked part of `s_delete`. -/
theorem deleteLocked_gone {n : Nat} (hd : Doomed t s.w (s.hist t) fs n)
    (htimed : s.w.chronoTskQ.count t = 0) :
    (deleteLocked s t).2 = true ∧
      Gone t (deleteLocked s t).1.w ((deleteLocked s t).1.hist t) fs ∧
      ((deleteLocked s t).1.hist t).ranCancelled = (s.hist t).ranCancelled := by
  have hfreed := hd.freed
  simp only [deleteLocked, hd.status, ne_eq, not_false_eq_true, decide_true, if_true]
  refine ⟨trivial, ⟨?_, ?_, ?_⟩, ?_⟩
  · simp [System.modTask, System.wakeupTask, System.note, deleteInTable, modTask]
  · simp only [System.note, System.modTask, System.wakeupTask, Function.update_self,
      modTask_task_self, deleteInTable_task]
    split_ifs <;> simp [hfreed]
  · show s.w.urgentTskQ.count t + s.w.idleTskQ.count t + s.w.chronoTskQ.count t + held t fs = 0
    rw [hd.urgent, hd.idle, hd.held, htimed]
  · simp only [System.note, System.modTask, System.wakeupTask, Function.update_self]
    split_ifs <;> rfl

theorem destroyStep_sound {unlock : Bool} {q : DestroyPoint} (h : Placed t p s)
    (hs : s.stack th = .destroy t unlock q :: fs) (hunder : ∀ f ∈ fs, f.under = true)
    (hsound : Sound t s (.destroy t unlock q :: fs))
    (hr : destroyStep s th t unlock q = some (s', gs)) : Sound t s' (gs ++ fs) := by
  have hborn : (s.hist t).created = true := h.born (hs ▸ List.mem_cons_self) rfl
  have hnever := hsound.neverRun
  have hown := hsound.fine.own rfl
  cases q <;> simp only [destroyStep] at hr
  case unsched =>
    split_ifs at hr
    cases hr
    have hd : Doomed t s.w (s.hist t) (.destroy t unlock .unsched :: fs) 0 := hown
    refine ⟨Own.fine (f := .destroy t unlock .setTable) ?_ rfl, hnever⟩
    have hheld : held t (.destroy t unlock .setTable :: fs) = 0 := by
      simpa [Frame.count] using hd.held
    by_cases hf : s.w.flag t = true
    · obtain rfl := h.flag.mp hf
      have hu := doUnsched_unsched hf
      have hone := h.timed
      refine ⟨⟨?_, ?_, ?_, hd.freed, hu.urgent ▸ hd.urgent, hu.idle ▸ hd.idle, hheld⟩, ?_⟩
      · rw [hu.tskTbl_self]
        split_ifs
        · simp
        · exact hd.table
      · rw [hu.task_self]
        split_ifs
        · simp
        · exact hd.status
      · rw [hu.task_self]
        split_ifs <;> exact hd.execs
      · rw [hu.timed, List.count_erase_self, hone]
        rfl
    · have hp : p ≠ .timed := fun hp => hf (h.flag.mpr hp)
      rw [doUnsched_of_not s.w hf]
      exact ⟨⟨hd.table, hd.status, hd.execs, hd.freed, hd.urgent, hd.idle, hheld⟩,
        h.timed.trans (if_neg hp)⟩
  case setTable =>
    cases hr
    obtain ⟨hd, htimed⟩ : Doomed t s.w (s.hist t) (.destroy t unlock .setTable :: fs) 0 ∧
      s.w.chronoTskQ.count t = 0 := hown
    refine ⟨Own.fine (f := .destroy t unlock .check) ⟨⟨?_, hd.status, hd.execs, hd.freed, hd.urgent,
      hd.idle, ?_⟩, htimed, ?_⟩ rfl, hnever⟩
    · simp [setStateInTable]
    · simpa [Frame.count] using hd.held
    · simp [setStateInTable]
  case check =>
    obtain ⟨hd, htimed, htbl⟩ : Doomed t s.w (s.hist t) (.destroy t unlock .check :: fs) 0 ∧
      s.w.chronoTskQ.count t = 0 ∧ s.w.tskTbl t = some .cancelled := hown
    rw [if_pos (by simp [getStateInTable, htbl])] at hr
    cases hr
    refine ⟨Own.fine (f := .destroy t unlock .delete) ⟨⟨hd.table, hd.status, hd.execs, hd.freed,
      hd.urgent, hd.idle, ?_⟩, htimed, htbl⟩ rfl, hnever⟩
    simpa [Frame.count] using hd.held
  case delete =>
    obtain ⟨hd, htimed, htbl⟩ : Doomed t s.w (s.hist t) (.destroy t unlock .delete :: fs) 0 ∧
      s.w.chronoTskQ.count t = 0 ∧ s.w.tskTbl t = some .cancelled := hown
    obtain ⟨hdid, hgone, hran⟩ := deleteLocked_gone hd htimed
    generalize deleteLocked s t = d at hr hdid hgone hran
    obtain ⟨s₁, didDelete⟩ := d
    dsimp only at hr hdid hgone hran
    rw [if_pos hdid] at hr
    split_ifs at hr
    cases hr
    refine ⟨Own.fine (f := .destroy t unlock .free) ⟨hgone.table, hgone.freed, ?_⟩ rfl,
      hran.trans hnever⟩
    exact hgone.nowhere
  case free =>
    have hg : Gone t s.w (s.hist t) (.destroy t unlock .free :: fs) := hown
    have hnoted : Gone t s.w ((s.note t fun h => { h with destroyed := true }).hist t)
        (.destroy t unlock .free :: fs) :=
      ⟨hg.table, by simpa [System.note] using hg.freed, hg.nowhere⟩
    have hfine := (Calm.gone (by simpa [System.note] using hborn) hnoted).ret rfl hunder
    unfold destroyed at hr
    cases hr
    cases unlock <;> exact ⟨hfine, by simpa [System.note] using hnever⟩

omit [DecidableEq θ] in
/-- A call about the task returns, with a result. -/
theorem Sound.ret {unlocked : System ι θ} (hc : Calm t s.w (s.hist t) (f :: fs))
    (hf : f.count t = 0) (hunder : ∀ f ∈ fs, f.under = true)
    (hnever : (s.hist t).ranCancelled = false) (hw : unlocked.w = s.w)
    (hh : unlocked.hist = s.hist) : Sound t unlocked ([] ++ fs) := by
  rw [List.nil_append]
  refine ⟨?_, ?_⟩
  · rw [hw, hh]
    exact hc.ret hf hunder
  · rw [hh]
    exact hnever

theorem setCancelled_rest (h : Placed t p s) {q : CancelPoint} (hs : s.stack th = .cancel t q :: fs)
    (hrest : Rest t s.w (s.hist t) (.cancel t q :: fs))
    (hexecs : (s.w.task t).execRefCount = 0) (hst : (s.w.task t).status = .enqueued ∨
      (s.w.task t).status = .dequeued)
    (htimed : ¬((s.w.task t).status = .enqueued ∧ (s.w.task t).isInTimedQ = true)) :
    Rest t (setCancelled s t).w ((setCancelled s t).hist t) fs := by
  have hfits := hrest.fits
  have hbody : .exec t .body ∉ fs := fun hmem => by
    have := hrest.body (List.mem_cons_of_mem _ hmem)
    rcases hst with hst | hst <;> rw [hst] at this <;> contradiction
  have hplace : s.w.chronoTskQ.count t = 0 ∧ somewhere t s.w (.cancel t q :: fs) ≠ 0 := by
    rcases hst with hst | hst <;> rw [hst] at hfits
    · have hf : s.w.flag t ≠ true := fun hf => htimed ⟨hst, hf⟩
      exact ⟨h.timed.trans (if_neg fun hp => hf (h.flag.mpr hp)), hfits⟩
    · have hpos : held t (.cancel t q :: fs) ≠ 0 := hfits
      refine ⟨(h.no_queue (hs ▸ hpos)).2.2.1, ?_⟩
      unfold somewhere
      omega
  refine ⟨⟨?_, ?_, ?_, ?_⟩, ?_, fun hmem => absurd hmem hbody, fun _ => ?_⟩
  · simp [setCancelled, System.note, setState, setStateInTable, modTask]
  · simp [setCancelled, System.note, hexecs]
  · simpa [setCancelled, System.note] using hrest.alive.cancels
  · simpa [setCancelled, System.note] using hrest.alive.freed
  · have hcalls : held t fs = held t (.cancel t q :: fs) := by simp [Frame.count]
    have hsome : somewhere t (setCancelled s t).w fs = somewhere t s.w (.cancel t q :: fs) := by
      unfold somewhere
      rw [hcalls]
      rfl
    simp only [setCancelled, System.note, setState_task_self]
    exact ⟨hplace.1, hsome ▸ hplace.2⟩
  · simp [setCancelled, System.note]

/-- A cancellation goes on, or it has come to wait for its own thread. -/
theorem cancelStep_sound {q : CancelPoint} (h : Placed t p s)
    (hs : s.stack th = .cancel t q :: fs) (hunder : ∀ f ∈ fs, f.under = true)
    (hsound : Sound t s (.cancel t q :: fs)) (hr : cancelStep s th t q = some (s', gs)) :
    Stuck s'.w (gs ++ fs) ∧ s'.hist = s.hist ∨ Sound t s' (gs ++ fs) := by
  have hborn : (s.hist t).created = true := h.born (hs ▸ List.mem_cons_self) rfl
  have hnever := hsound.neverRun
  have hown := hsound.fine.own rfl
  cases q <;> simp only [cancelStep] at hr
  case check =>
    have hc : Calm t s.w (s.hist t) (.cancel t .check :: fs) := hown
    right
    split_ifs at hr with hst <;> cases hr
    · refine ⟨Own.fine (f := .cancel t (.readExec _)) ⟨hc.next rfl rfl, ?_, hst.2⟩ rfl, hnever⟩
      have hknown := hst.1
      unfold getStateInTable at hknown ⊢
      cases htbl : s.w.tskTbl t with
      | none => simp [htbl] at hknown
      | some st => rfl
    · exact .ret hc rfl hunder hnever rfl rfl
  case readExec st =>
    obtain ⟨hc, htbl, hne⟩ : Calm t s.w (s.hist t) (.cancel t (.readExec st) :: fs) ∧
      s.w.tskTbl t = some st ∧ st ≠ .cancelled := hown
    right
    split_ifs at hr with hexec hst <;> cases hr
    · exact ⟨Own.fine (f := .cancel t .count) hexec rfl, hnever⟩
    · exact ⟨Own.fine (f := .cancel t (.mark st))
        ⟨hc.next rfl rfl, htbl, not_not.mp hexec, hst⟩ rfl, hnever⟩
    · exact .ret hc rfl hunder hnever rfl rfl
  case count =>
    have hexec : (s.w.task t).execRefCount ≠ 0 := hown
    left
    cases hr
    refine ⟨⟨t, fs, .inl rfl, ?_⟩, rfl⟩
    simpa [addCancel, System.modTask] using hexec
  case mark st =>
    obtain ⟨hc, htbl, hexec, hst⟩ : Calm t s.w (s.hist t) (.cancel t (.mark st) :: fs) ∧
      s.w.tskTbl t = some st ∧ (s.w.task t).execRefCount = 0 ∧
        (st = .enqueued ∨ st = .dequeued) := hown
    obtain ⟨hrest, hstatus⟩ := hc.of_table hborn htbl
    subst hstatus
    right
    split_ifs at hr with hcan htimed <;> cases hr
    · have hf : s.w.flag t = true := htimed.2
      obtain rfl := h.flag.mp hf
      have hheld : held t fs = 0 := by
        have := h.thread th
        rw [hs, held_cons] at this
        simpa [Frame.count] using this
      refine ⟨Own.fine (f := .destroy t false .unsched)
        ⟨?_, ?_, hexec, ?_, h.urgent, h.idle, ?_⟩ rfl, ?_⟩
      · show s.w.tskTbl t ≠ none
        rw [htbl]
        simp
      · show (s.w.task t).status ≠ .deleting
        rw [htimed.1]
        simp
      · simpa [System.note] using hrest.alive.freed
      · simpa [Frame.count] using hheld
      · simpa [System.note] using hnever
    · have hnew : ((setCancelled s t).hist t).created = true := by
        simpa [setCancelled, System.note] using hborn
      have hcalm := Calm.rest hnew (setCancelled_rest h hs hrest hexec hst htimed)
      exact ⟨hcalm.fine hunder, by simpa [setCancelled, System.note] using hnever⟩
  all_goals exact absurd hown id

/-- A submission of a created task. -/
theorem Submitted.rest {initialDelay : Chrono} {w w' : Callout ι} {hist hist' : History}
    (hsub : Submitted t initialDelay now w w') (hrest : Rest t w hist fs)
    (hst : (w.task t).status = .created) (hfreed : hist'.freed = hist.freed)
    (hcancelled : hist'.cancelled = hist.cancelled) : Rest t w' hist' fs := by
  have hexecs := hrest.alive.execs
  simp only [hst, reduceCtorEq, if_false] at hexecs
  have hbody : .exec t .body ∉ fs := fun hmem => by
    have := hrest.body hmem
    rw [hst] at this
    contradiction
  have hnot : hist'.cancelled ≠ true := fun hc => by
    have := hrest.cancelled (hcancelled ▸ hc)
    rw [hst] at this
    contradiction
  have hnew : ∀ x : Task, (w'.task t) = x → x.status = .enqueued → x.execRefCount = 0 →
      x.cancelRefCount = 0 → w'.tskTbl t = some .enqueued → somewhere t w' fs ≠ 0 →
      Rest t w' hist' fs := by
    rintro x rfl hstatus hexec hcancel htbl hsome
    refine ⟨⟨?_, ?_, hcancel, hfreed.trans hrest.alive.freed⟩, ?_, fun hmem => absurd hmem hbody,
      fun hc => absurd hc hnot⟩
    · rw [htbl, hstatus]
    · simp [hstatus, hexec]
    · rw [hstatus]
      exact hsome
  cases hsub with
  | urgent _ htask htbl hurgent hidle htimed =>
    refine hnew _ htask rfl hexecs hrest.alive.cancels htbl ?_
    simp [somewhere, hurgent]
  | idle _ htask htbl hurgent hidle htimed =>
    refine hnew _ htask rfl hexecs hrest.alive.cancels htbl ?_
    simp [somewhere, hidle]
  | timed _ hsched =>
    refine hnew _ hsched.task_self rfl ?_ ?_ ?_ ?_
    · unfold scheduled computeNext
      split_ifs <;> exact hexecs
    · unfold scheduled computeNext
      split_ifs <;> exact hrest.alive.cancels
    · simp [hsched.tskTbl]
    · simp [somewhere, hsched.timed.count_eq]

theorem submitLocked_sound {s₁ : System ι θ} {initialDelay interval : Chrono} {q : SubmitPoint}
    (hc : Calm t s.w (s.hist t) (.submit t initialDelay interval q :: fs))
    (hborn : (s.hist t).created = true) (htbl : s.w.tskTbl t = some .created)
    (hflag : s.w.flag t = false) (hunder : ∀ f ∈ fs, f.under = true)
    (hnever : (s.hist t).ranCancelled = false) (hw : Kept t s.w s₁.w)
    (hflag₁ : s₁.w.flag t = s.w.flag t) (hh : s₁.hist = s.hist)
    (hr : submitLocked s₁ th t initialDelay interval now = (s', gs)) : Sound t s' (gs ++ fs) := by
  have hkept : Calm t s₁.w (s.hist t) (.submit t initialDelay interval q :: fs) :=
    hc.same hw rfl Iff.rfl
  have htbl₁ : s₁.w.tskTbl t = some .created := hw.table.trans htbl
  unfold submitLocked at hr
  split at hr
  · rename_i w r hput
    cases hr
    have hsub := submitPut_submitted (hflag₁.trans hflag) hput
    have hcalm : Calm t s₁.w (s.hist t) fs :=
      hkept.same (.refl t _) (by simp [Frame.count]) (by simp)
    obtain ⟨hrest, hst⟩ := hcalm.of_table hborn htbl₁
    have hnew : ((s₁.hist t)).created = true := hh ▸ hborn
    refine ⟨Calm.fine (.rest ?_ (hsub.rest hrest hst ?_ ?_)) hunder, ?_⟩
    all_goals simp [System.note, System.return_, hh, hborn, hnever]
  · cases hr
    refine ⟨Own.fine (f := .submit t initialDelay interval .blocked) ⟨?_, htbl₁⟩ rfl, ?_⟩
    · simp only [hh]
      exact hkept.next rfl rfl
    · simpa [hh] using hnever

theorem submitFields_kept (t : ι) (initialDelay interval : Chrono) (w : Callout ι) :
    Kept t w (submitFields w t initialDelay interval) := by
  unfold submitFields
  refine ⟨⟨?_, ?_, ?_, ?_, ?_, rfl⟩, rfl, rfl, rfl⟩ <;> rw [modTask_task_self] <;> split_ifs <;> rfl

theorem submitStep_sound {initialDelay interval : Chrono} {q : SubmitPoint} (h : Placed t p s)
    (hs : s.stack th = .submit t initialDelay interval q :: fs)
    (hunder : ∀ f ∈ fs, f.under = true)
    (hsound : Sound t s (.submit t initialDelay interval q :: fs))
    (hr : submitStep s th t initialDelay interval now q = some (s', gs)) :
    Sound t s' (gs ++ fs) := by
  have hborn : (s.hist t).created = true := h.born (hs ▸ List.mem_cons_self) rfl
  have hnever := hsound.neverRun
  have hown := hsound.fine.own rfl
  have hunflagged : s.w.tskTbl t = some .created → s.w.flag t = false := by
    intro htbl
    have := h.flag
    rw [h.fresh htbl] at this
    simpa using this
  cases q <;> simp only [submitStep] at hr
  case check =>
    have hc : Calm t s.w (s.hist t) (.submit t initialDelay interval .check :: fs) := hown
    split_ifs at hr with hst <;> cases hr
    · refine ⟨Own.fine (f := .submit t initialDelay interval .lock)
        ⟨hc.next rfl rfl, ?_⟩ rfl, hnever⟩
      unfold getStateInTable at hst
      cases htbl : s.w.tskTbl t with
      | none => simp [htbl] at hst
      | some st =>
        rw [htbl] at hst
        exact congrArg some hst
    all_goals exact .ret hc rfl hunder hnever rfl rfl
  case lock =>
    obtain ⟨hc, htbl⟩ : Calm t s.w (s.hist t) (.submit t initialDelay interval .lock :: fs) ∧
      s.w.tskTbl t = some .created := hown
    split_ifs at hr
    refine submitLocked_sound hc hborn htbl (hunflagged htbl) hunder hnever ?_ ?_ ?_
      (Option.some.inj hr)
    · exact submitFields_kept ..
    · exact (submitFields_queues t initialDelay interval s).flag
    · rfl
  case blocked =>
    obtain ⟨hc, htbl⟩ : Calm t s.w (s.hist t) (.submit t initialDelay interval .blocked :: fs) ∧
      s.w.tskTbl t = some .created := hown
    exact submitLocked_sound hc hborn htbl (hunflagged htbl) hunder hnever (.refl t s.w) rfl rfl
      (Option.some.inj hr)

/-- A task that comes into the hands of the thread to be run. -/
theorem unsched_running {w : Callout ι} {hist : History} (hrest : Rest t w hist fs)
    (hexecs : (w.task t).execRefCount = 0)
    (hst : (w.task t).status = .created ∨ (w.task t).status = .enqueued)
    (hf : w.flag t = true) : Running t ((doUnsched w t).setState t .dequeued) hist 0 .dequeued := by
  have hu := doUnsched_unsched hf
  refine ⟨⟨?_, ?_, ?_, hrest.alive.freed⟩, ?_, fun hc => ?_⟩
  · simp [setState, setStateInTable, modTask]
  · rw [setState_task_self, hu.task_self]
    split_ifs <;> exact hexecs
  · rw [setState_task_self, hu.task_self]
    split_ifs <;> exact hrest.alive.cancels
  · simp
  · have := hrest.cancelled hc
    rcases hst with hst | hst <;> rw [hst] at this <;> contradiction

theorem forceStep_sound {q : ForcePoint} (h : Placed t p s) (hs : s.stack th = .force t q :: fs)
    (hunder : ∀ f ∈ fs, f.under = true) (halone : s.workers = [])
    (hsound : Sound t s (.force t q :: fs)) (hr : forceStep s th t now q = some (s', gs)) :
    Sound t s' (gs ++ fs) := by
  have hborn : (s.hist t).created = true := h.born (hs ▸ List.mem_cons_self) rfl
  have hnever := hsound.neverRun
  have hown := hsound.fine.own rfl
  cases q <;> simp only [forceStep] at hr
  case check =>
    have hc : Calm t s.w (s.hist t) (.force t .check :: fs) := hown
    split_ifs at hr <;> cases hr
    · exact ⟨Own.fine (f := .force t .lock) (hc.next rfl rfl) rfl, hnever⟩
    · exact .ret hc rfl hunder hnever rfl rfl
  case lock =>
    have hc : Calm t s.w (s.hist t) (.force t .lock :: fs) := hown
    split_ifs at hr with hl hst hexec hcan hq <;> cases hr
    · have htbl : s.w.tskTbl t = some .created ∨ s.w.tskTbl t = some .enqueued := by
        unfold getStateInTable at hst
        cases htbl : s.w.tskTbl t with
        | none => simp [htbl] at hst
        | some st => simpa [htbl] using hst
      have hstatus : Rest t s.w (s.hist t) (.force t .lock :: fs) ∧
          ((s.w.task t).status = .created ∨ (s.w.task t).status = .enqueued) := by
        rcases htbl with htbl | htbl
        · exact (hc.of_table hborn htbl).imp id .inl
        · exact (hc.of_table hborn htbl).imp id .inr
      have hrun := unsched_running hstatus.1 hexec hstatus.2 hq
      exact ⟨Own.fine (f := .force t .run) hrun rfl, hnever⟩
    all_goals exact .ret hc rfl hunder hnever rfl rfl
  case run =>
    have hrun : Running t s.w (s.hist t) 0 .dequeued := hown
    cases hr
    have hzero : held t fs = 0 := (h.hands hs (by simp [Frame.count])).2.1
    have hframe : finalTaskSched s now [t] = .runTasksBySelf now [t] := by
      unfold finalTaskSched
      rw [if_pos halone]
    rw [hframe]
    refine ⟨Calm.top (.rest hborn ⟨?_, ?_, fun hmem => ?_, fun hc => ?_⟩) (by simp [Frame.about]),
      hnever⟩
    · have := hrun.alive
      simpa [System.return_, hrun.status] using this
    · simp [System.return_, hrun.status, fits, Frame.count]
    · exact absurd (List.mem_of_ne_of_mem (by simp) hmem) (body_not_mem hzero)
    · have := hrun.cancelled hc
      contradiction

/-- A task whose execution is over, but for its destruction. -/
theorem Running.doomed {n : Nat} {st : TaskState} {g : Frame ι} (h : Placed t p s)
    (hs : s.stack th = f :: fs) (hf : 0 < f.count t) (hg : g.count t = 0)
    (hrun : Running t s.w (s.hist t) n st) (hst : st ≠ .deleting) :
    Doomed t s.w (s.hist t) (g :: fs) n := by
  have hhands : held t (s.stack th) ≠ 0 := by
    rw [hs, held_cons]
    omega
  obtain ⟨hurgent, hidle, -, -⟩ := h.no_queue hhands
  refine ⟨?_, ?_, hrun.alive.execs, hrun.alive.freed, hurgent, hidle, ?_⟩
  · rw [hrun.alive.table]
    simp
  · rw [hrun.status]
    exact hst
  · rw [held_cons, hg, (h.hands hs hf).2.1]

omit [DecidableEq θ] in
theorem addExec_running {n m : Nat} {d : Int} {st : TaskState}
    (hrun : Running t s.w (s.hist t) n st) (hm : addCount n d = m) :
    Running t (addExec s t d).w ((addExec s t d).hist t) m st := by
  have halive := hrun.alive
  refine ⟨⟨?_, ?_, ?_, halive.freed⟩, ?_, hrun.cancelled⟩
  · simpa [addExec, System.modTask, modTask] using halive.table
  · simp [addExec, System.modTask, halive.execs, hm]
  · simpa [addExec, System.modTask] using halive.cancels
  · simpa [addExec, System.modTask] using hrun.status

omit [DecidableEq θ] in
theorem addExec_doomed {n m : Nat} {d : Int} (hd : Doomed t s.w (s.hist t) fs n)
    (hm : addCount n d = m) : Doomed t (addExec s t d).w ((addExec s t d).hist t) fs m := by
  refine ⟨hd.table, ?_, ?_, hd.freed, hd.urgent, hd.idle, hd.held⟩
  · simpa [addExec, System.modTask] using hd.status
  · simp [addExec, System.modTask, hd.execs, hm]

omit [DecidableEq ι] in
/-- A task that is to run is not cancelled. -/
theorem Running.not_cancelled {w : Callout ι} {h : History} {n : Nat} {st : TaskState}
    (hrun : Running t w h n st) (hst : st ≠ .cancelled) : h.cancelled = false := by
  cases hc : h.cancelled with
  | false => rfl
  | true => exact absurd (hrun.cancelled hc) hst

omit [DecidableEq θ] in
/-- The task's procedure is entered. -/
theorem execBegin_sound (hborn : (s.hist t).created = true)
    (hnever : (s.hist t).ranCancelled = false) (hrun : Running t s.w (s.hist t) 1 .dequeued) :
    Sound t (execBegin s th t) (.exec t .body :: fs) := by
  have hnot := hrun.not_cancelled (by simp)
  have halive := hrun.alive
  refine ⟨Own.fine (f := .exec t .body) (Calm.rest ?_ ⟨⟨?_, ?_, ?_, ?_⟩, ?_, ?_, ?_⟩) rfl, ?_⟩
  · simpa [execBegin, System.note] using hborn
  · simp [execBegin, System.note, setState, setStateInTable, modTask]
  · simp [execBegin, System.note, halive.execs]
  · simpa [execBegin, System.note] using halive.cancels
  · simpa [execBegin, System.note] using halive.freed
  · simp [execBegin, System.note, fits]
  · simp [execBegin, System.note]
  · simp [execBegin, System.note, hnot]
  · simp [execBegin, System.note, hnot, hnever]

/-- A repeating task is put into the timed queue again. -/
theorem execResched_sound (h : Placed t p s) (hs : s.stack th = .exec t .resched :: fs)
    (hnever : (s.hist t).ranCancelled = false) (hrun : Running t s.w (s.hist t) 1 .executing)
    (hr : execResched s t now = (s', gs)) : Sound t s' (gs ++ fs) := by
  have hpos : 0 < (Frame.exec t .resched).count t := by simp [Frame.count, ExecPoint.holds]
  have hhands : 0 < (Frame.exec t .resched).count t → held t (s.stack th) ≠ 0 := by
    rw [hs, held_cons]
    omega
  obtain ⟨hurgent, hidle, -, hflag⟩ := h.no_queue (hhands hpos)
  have hzero : held t fs = 0 := (h.hands hs hpos).2.1
  obtain ⟨hsched, -⟩ := doSched_sched now hflag
  have hnot := hrun.not_cancelled (by simp)
  have hfollowed : ∀ i, ((s.hist t).followed i).freed = (s.hist t).freed ∧
      ((s.hist t).followed i).cancelled = (s.hist t).cancelled ∧
      ((s.hist t).followed i).ranCancelled = (s.hist t).ranCancelled := by
    intro i
    unfold History.followed
    split <;> exact ⟨rfl, rfl, rfl⟩
  have hw : ∀ g : History → History, (s.note t g).w = s.w := fun _ => rfl
  unfold execResched at hr
  simp only [hw] at hr
  generalize doSched s.w t now = d at hr hsched
  obtain ⟨w, next⟩ := d
  cases hr
  dsimp only at hsched
  have hexecs : (w.task t).execRefCount = 1 ∧ (w.task t).cancelRefCount = 0 ∧
      (w.task t).status = .enqueued := by
    rw [hsched.task_self]
    unfold scheduled computeNext
    split_ifs <;> exact ⟨hrun.alive.execs, hrun.alive.cancels, rfl⟩
  have htbl : w.tskTbl t = some .enqueued := by simp [hsched.tskTbl]
  refine ⟨?_, by simpa [System.note, hfollowed] using hnever⟩
  split_ifs with hnext
  · refine Own.fine (f := .exec t .leave) ⟨⟨⟨?_, hexecs.1, hexecs.2.1, ?_⟩, hexecs.2.2, ?_⟩, ?_⟩ rfl
    · simp [htbl, hexecs.2.2]
    · simpa [System.note, hfollowed] using hrun.alive.freed
    · simp [System.note, hfollowed, hnot]
    · simp [hsched.timed.count_eq]
  · refine Own.fine (f := .exec t .readCancelDelete)
      ⟨⟨?_, ?_, hexecs.1, ?_, ?_, ?_, ?_⟩, hexecs.2.1⟩ rfl
    · simp [htbl]
    · simp [hexecs.2.2]
    · simpa [System.note, hfollowed] using hrun.alive.freed
    · rw [hsched.urgent, hurgent]
    · rw [hsched.idle, hidle]
    · simp [Frame.count, ExecPoint.holds, hzero]

theorem execStep_sound {q : ExecPoint} (h : Placed t p s) (hs : s.stack th = .exec t q :: fs)
    (hunder : ∀ f ∈ fs, f.under = true) (hsound : Sound t s (.exec t q :: fs))
    (hr : execStep s th t now q = some (s', gs)) : Sound t s' (gs ++ fs) := by
  have hborn : (s.hist t).created = true := h.born (hs ▸ List.mem_cons_self) rfl
  have hnever := hsound.neverRun
  have hown := hsound.fine.own rfl
  have hnext : ∀ {r : ExecPoint}, Own t s.w (s.hist t) (.exec t r :: fs) (.exec t r) →
      Sound t s ([.exec t r] ++ fs) := fun ho => ⟨Own.fine ho rfl, hnever⟩
  have hholds : q.holds = true → 0 < (Frame.exec t q).count t := by
    intro hq
    simp [Frame.count, hq]
  cases q <;> simp only [execStep] at hr
  case check =>
    have hrun : Running t s.w (s.hist t) 0 .dequeued ∨ Running t s.w (s.hist t) 0 .cancelled := hown
    rcases hrun with hrun | hrun
    · have htbl : s.w.getStateInTable t = .dequeued := by
        simp [getStateInTable, hrun.alive.table, hrun.status]
      rw [if_pos htbl] at hr
      cases hr
      exact hnext (r := .count) hrun
    · have htbl : s.w.getStateInTable t = .cancelled := by
        simp [getStateInTable, hrun.alive.table, hrun.status]
      rw [htbl, if_neg (by simp)] at hr
      cases hr
      exact hnext (r := .lockDelete) (hrun.doomed h hs (hholds rfl)
        (by simp [Frame.count, ExecPoint.holds]) (by simp))
  case count =>
    have hrun : Running t s.w (s.hist t) 0 .dequeued := hown
    rw [if_pos hrun.alive.execs] at hr
    cases hr
    exact ⟨Own.fine (f := .exec t .recheck) (addExec_running hrun (by decide)) rfl, hnever⟩
  case recheck =>
    have hrun : Running t s.w (s.hist t) 1 .dequeued := hown
    have htbl : s.w.getStateInTable t = .dequeued := by
      simp [getStateInTable, hrun.alive.table, hrun.status]
    split_ifs at hr with hcan hst <;> cases hr
    · exact execBegin_sound hborn hnever hrun
    · exact absurd ⟨htbl, hrun.status⟩ hst
  case body => contradiction
  case readCancel =>
    have hrun : Running t s.w (s.hist t) 1 .executing := hown
    rw [if_pos hrun.alive.cancels] at hr
    cases hr
    exact hnext (r := .readRepeat) hrun
  case readRepeat =>
    have hrun : Running t s.w (s.hist t) 1 .executing := hown
    cases hr
    split_ifs
    · exact hnext (r := .resched) hrun
    · exact hnext (r := .readCancelDelete) ⟨hrun.doomed h hs (hholds rfl)
        (by simp [Frame.count, ExecPoint.holds]) (by simp), hrun.alive.cancels⟩
  case resched =>
    have hrun : Running t s.w (s.hist t) 1 .executing := hown
    split_ifs at hr
    exact execResched_sound h hs hnever hrun (Option.some.inj hr)
  case leave =>
    obtain ⟨hrun, htimed⟩ : Running t s.w (s.hist t) 1 .enqueued ∧
      s.w.chronoTskQ.count t ≠ 0 := hown
    cases hr
    have hleft := addExec_running hrun (d := -1) (m := 0) (by decide)
    obtain rfl : p = .timed := by
      by_contra hne
      exact htimed (h.timed.trans (if_neg hne))
    have hzero : held t fs = 0 := by
      have := h.thread th
      rw [hs, held_cons] at this
      simpa [Frame.count, ExecPoint.holds] using this
    refine ⟨Calm.fine (.rest hborn ⟨?_, ?_, fun hmem => ?_, fun hc => ?_⟩) hunder, hnever⟩
    · simpa [hleft.status] using hleft.alive
    · rw [hleft.status]
      show s.w.urgentTskQ.count t + s.w.idleTskQ.count t + s.w.chronoTskQ.count t + held t fs ≠ 0
      omega
    · exact absurd hmem (body_not_mem hzero)
    · have := hleft.cancelled hc
      contradiction
  case readCancelDelete =>
    obtain ⟨hd, hcancels⟩ : Doomed t s.w (s.hist t) (.exec t .readCancelDelete :: fs) 1 ∧
      (s.w.task t).cancelRefCount = 0 := hown
    rw [if_pos hcancels] at hr
    cases hr
    refine hnext (r := .leaveDelete) ⟨⟨hd.table, hd.status, hd.execs, hd.freed, hd.urgent, hd.idle,
      ?_⟩, hcancels⟩
    simpa [Frame.count, ExecPoint.holds] using hd.held
  case leaveDelete =>
    obtain ⟨hd, hcancels⟩ : Doomed t s.w (s.hist t) (.exec t .leaveDelete :: fs) 1 ∧
      (s.w.task t).cancelRefCount = 0 := hown
    cases hr
    have hleft := addExec_doomed hd (d := -1) (m := 0) (by decide)
    refine ⟨Own.fine (f := .exec t .lockDelete) ⟨hleft.table, hleft.status, hleft.execs,
      hleft.freed, hleft.urgent, hleft.idle, ?_⟩ rfl, hnever⟩
    simpa [Frame.count, ExecPoint.holds] using hd.held
  case lockDelete =>
    have hd : Doomed t s.w (s.hist t) (.exec t .lockDelete :: fs) 0 := hown
    split_ifs at hr
    cases hr
    refine ⟨Own.fine (f := .destroy t true .unsched) ⟨hd.table, hd.status, hd.execs, hd.freed,
      hd.urgent, hd.idle, ?_⟩ rfl, hnever⟩
    simpa [Frame.count, ExecPoint.holds] using hd.held
  case wakeup => exact absurd hown id

/-- The task's procedure has returned. -/
theorem execEnd_sound {r : Result} (h : Placed t p s) (hs : s.stack th = .exec t .body :: fs)
    (hsound : Sound t s (.exec t .body :: fs)) :
    Sound t (execEnd s t r).1 ((execEnd s t r).2 ++ fs) := by
  have hborn : (s.hist t).created = true := h.born (hs ▸ List.mem_cons_self) rfl
  have hc : Calm t s.w (s.hist t) (.exec t .body :: fs) := hsound.fine.own rfl
  have hpos : 0 < (Frame.exec t .body).count t := by simp [Frame.count, ExecPoint.holds]
  have hrest : Rest t s.w (s.hist t) (.exec t .body :: fs) := by
    cases hc with
    | unborn hnew =>
      rw [hborn] at hnew
      contradiction
    | rest _ hrest => exact hrest
    | gone _ hgone =>
      have := hgone.nowhere
      unfold somewhere at this
      rw [held_cons] at this
      omega
  have hst := hrest.body List.mem_cons_self
  have hexecs := hrest.alive.execs
  rw [if_pos hst] at hexecs
  have hrun : Running t s.w (s.hist t) 1 .executing := by
    refine ⟨⟨hrest.alive.table, hexecs, hrest.alive.cancels, hrest.alive.freed⟩, hst,
      fun hcan => ?_⟩
    exact hst ▸ hrest.cancelled hcan
  unfold execEnd
  split_ifs
  · exact ⟨Own.fine (f := .exec t .readCancel) hrun rfl, hsound.neverRun⟩
  · have hd := hrun.doomed (g := .exec t .readCancelDelete) h hs hpos
      (by simp [Frame.count, ExecPoint.holds]) (by simp)
    refine ⟨Own.fine (f := .exec t .readCancelDelete) ⟨⟨?_, ?_, ?_, hd.freed, hd.urgent, hd.idle,
      hd.held⟩, ?_⟩ rfl, hsound.neverRun⟩
    · simp [setState, setStateInTable, modTask]
    · simp
    · simpa using hd.execs
    · simpa using hrun.alive.cancels

end Own

end Callout
end Gallus
