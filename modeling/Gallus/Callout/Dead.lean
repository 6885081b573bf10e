import Gallus.Callout.Undeleted

/-!
# A task that is deleted

A destruction deletes the task, and then frees its record. In between other calls may still go on
with the record.

* `Dying t s`: the task is deleted, its `m_freeproc` was called, and one call will free the record.
* `Live.delete`: what a deletion leaves. `Dying.step`: a step but the one that frees the record, if
  it does not bring the task back.
* `Dead t s`: the record is freed, and nobody goes on with it.
* `Dying.free`: what the end of the destruction leaves, if nobody else goes on with the record.
  `Dead.step`: each step keeps this.
-/

namespace Gallus
namespace Callout

variable {ι θ : Type} [DecidableEq ι] [DecidableEq θ]

/-- `m_freeproc` was called once, if there is one and it has an argument. -/
def freedOnce (t : ι) (s : System ι θ) : Prop :=
  (s.hist t).freed = if (s.w.task t).hasFreeproc ∧ (s.w.task t).hasArg then 1 else 0

/-- The task is deleted, its record is not yet freed. -/
structure Dying (t : ι) (s : System ι θ) : Prop where
  created : (s.hist t).created = true
  tskTbl : s.w.tskTbl t = none
  status : (s.w.task t).status = .deleting
  freed : freedOnce t s
  destroyed : (s.hist t).destroyed = false
  frees : HasCount Role.isFreeing t s 1

/-- The record of the task is freed. -/
structure Dead (t : ι) (s : System ι θ) : Prop where
  created : (s.hist t).created = true
  tskTbl : s.w.tskTbl t = none
  urgent : t ∉ s.w.urgentTskQ
  idle : t ∉ s.w.idleTskQ
  timed : t ∉ s.w.chronoTskQ
  freed : freedOnce t s
  destroyed : (s.hist t).destroyed = true
  refers : ∀ th, ∀ f ∈ s.stack th, f.refers t = false

variable {t e : ι} {p : Place θ} {s s' s₁ : System ι θ} {th : θ} {now : Chrono}
  {f : Frame ι} {fs gs l : List (Frame ι)}

/-! ## Deletions -/

/-- The call is about to delete the task. -/
theorem Frame.deletes_iff : f.deletes t = true ↔ ∃ unlock, f = .destroy t unlock .delete := by
  constructor
  · intro h
    unfold Frame.deletes at h
    split at h
    · rename_i e unlock
      exact ⟨unlock, by rw [of_decide_eq_true h]⟩
    · contradiction
  · rintro ⟨unlock, rfl⟩
    simp [Frame.deletes]

omit [DecidableEq θ] in
/-- The first deletion of a task. -/
theorem deleteLocked_live (h : Live t s) :
    (deleteLocked s t).2 = true ∧ (deleteLocked s t).1.w.tskTbl t = none ∧
      ((deleteLocked s t).1.w.task t).status = .deleting ∧
      ((deleteLocked s t).1.w.task t).hasFreeproc = (s.w.task t).hasFreeproc ∧
      ((deleteLocked s t).1.w.task t).hasArg = (s.w.task t).hasArg ∧
      ((deleteLocked s t).1.hist t).created = (s.hist t).created ∧
      ((deleteLocked s t).1.hist t).destroyed = (s.hist t).destroyed ∧
      ((deleteLocked s t).1.hist t).freed =
        if (s.w.task t).hasFreeproc ∧ (s.w.task t).hasArg then 1 else 0 := by
  have hfreed := h.freed
  simp only [deleteLocked, h.status, ne_eq, not_false_eq_true, decide_true, if_true,
    System.wakeupTask, System.modTask, System.note, Function.update_self, modTask_task_self]
  refine ⟨trivial, ?_, trivial, rfl, rfl, ?_, ?_, ?_⟩
  · simp [deleteInTable, modTask]
  · split_ifs <;> rfl
  · split_ifs <;> rfl
  · split_ifs <;> simp [hfreed]

/-- **A deletion.** The one who deletes the task will free it. -/
theorem Live.delete {ev : Event ι θ} (h : Live t s) (hp : Placed t p s)
    (hdel : ∃ f ∈ running s ev, f.deletes t = true) (hstep : Callout.step s ev = some s') :
    Dying t s' := by
  obtain ⟨f, hrun, hdel⟩ := hdel
  obtain ⟨unlock, rfl⟩ := Frame.deletes_iff.mp hdel
  cases step_cases hstep with
  | call hact | finish hact | wake hact => simp [running, hact] at hrun
  | go hact hs hr =>
    rename_i f fs gs s₁
    obtain rfl : f = .destroy t unlock .delete := by simpa [running, hact, hs] using hrun
    have hborn : (s.hist t).created = true := hp.born (hs ▸ List.mem_cons_self) rfl
    obtain ⟨hdid, htbl, hstatus, hfree, harg, hcreated, hdestroyed, hfreed⟩ := deleteLocked_live h
    simp only [frameStep, destroyStep] at hr
    generalize deleteLocked s t = d at hr hdid htbl hstatus hfree harg hcreated hdestroyed hfreed
    obtain ⟨s₂, didDelete⟩ := d
    dsimp only at hr hdid htbl hstatus hfree harg hcreated hdestroyed hfreed
    subst hdid
    rw [if_pos rfl] at hr
    split_ifs at hr
    cases hr
    refine ⟨hcreated.trans hborn, htbl, hstatus, ?_, hdestroyed.trans h.destroyed, ?_⟩
    · show (s₁.hist t).freed = if (s₁.w.task t).hasFreeproc ∧ (s₁.w.task t).hasArg then 1 else 0
      rw [hfree, harg]
      exact hfreed
    · have hnone : HasCount Role.isFreeing t s 0 :=
        .zero fun th' => List.countP_eq_zero.mpr fun r hr hP => h.unfreed ⟨th', r, hr, hP⟩
      obtain ⟨m, hm, hsum⟩ : ∃ m, HasCount Role.isFreeing t
          (s.after s₁ ev.thread ev.now ([.destroy t unlock .free] ++ fs)) m ∧ _ :=
        hnone.after (l := [_]) hs
      obtain rfl : m = 1 := by simpa [DestroyPoint.role, Role.isFreeing] using hsum
      exact hm

/-! ## Until the record is freed -/

/-- The step writes the state of a task that is deleted. -/
def Frame.revives (t : ι) (w : Callout ι) : Frame ι → Bool
  | .cancel e (.mark st) => e = t && !(st = .enqueued && (w.task t).isInTimedQ)
  | .exec e .resched | .destroy e _ .setTable => e = t
  | .fetchTimed start _ _ => 0 < start && t ∈ (getRunnables w start calloutTaskMax).2.1
  | _ => false

/-- The step frees the record. -/
def Frame.frees (t : ι) : Frame ι → Bool
  | .destroy e _ .free => e = t
  | _ => false

/-- What a step does to a task that is deleted. -/
structure Idles (t : ι) (s s' : System ι θ) : Prop where
  tskTbl : s'.w.tskTbl t = s.w.tskTbl t
  status : (s'.w.task t).status = (s.w.task t).status
  hasFreeproc : (s'.w.task t).hasFreeproc = (s.w.task t).hasFreeproc
  hasArg : (s'.w.task t).hasArg = (s.w.task t).hasArg
  created : (s'.hist t).created = (s.hist t).created
  freed : (s'.hist t).freed = (s.hist t).freed
  destroyed : (s'.hist t).destroyed = (s.hist t).destroyed

namespace Idles

omit [DecidableEq θ]

omit [DecidableEq ι] in
theorem refl (t : ι) (s : System ι θ) : Idles t s s := ⟨rfl, rfl, rfl, rfl, rfl, rfl, rfl⟩

omit [DecidableEq ι] in
theorem trans (h : Idles t s s₁) (h' : Idles t s₁ s') : Idles t s s' :=
  ⟨h'.tskTbl.trans h.tskTbl, h'.status.trans h.status, h'.hasFreeproc.trans h.hasFreeproc,
    h'.hasArg.trans h.hasArg, h'.created.trans h.created, h'.freed.trans h.freed,
    h'.destroyed.trans h.destroyed⟩

theorem of_same (h : SameTask t s.w s'.w) (hcreated : (s'.hist t).created = (s.hist t).created)
    (hfreed : (s'.hist t).freed = (s.hist t).freed)
    (hdestroyed : (s'.hist t).destroyed = (s.hist t).destroyed) : Idles t s s' :=
  ⟨h.tskTbl, congrArg Task.status h.task, congrArg Task.hasFreeproc h.task,
    congrArg Task.hasArg h.task, hcreated, hfreed, hdestroyed⟩

theorem of_system (h : SameSystem t s s') : Idles t s s' :=
  of_same h.w (congrArg History.created h.hist) (congrArg History.freed h.hist)
    (congrArg History.destroyed h.hist)

/-- A write to other fields of the record. -/
theorem modTask {g : Task → Task} (hg : ∀ x, (g x).status = x.status ∧
    (g x).hasFreeproc = x.hasFreeproc ∧ (g x).hasArg = x.hasArg) : Idles t s (s.modTask e g) := by
  by_cases he : e = t
  · subst he
    obtain ⟨hstatus, hfree, harg⟩ := hg (s.w.task e)
    refine ⟨rfl, ?_, ?_, ?_, rfl, rfl, rfl⟩ <;> simpa [System.modTask]
  · exact of_system (.modTask he s g)

theorem wakeupTask (h : Idles t s s') : Idles t s (s'.wakeupTask e) :=
  ⟨h.tskTbl, h.status, h.hasFreeproc, h.hasArg, h.created, h.freed, h.destroyed⟩

end Idles

theorem Dying.after (h : Dying t s) (hs : s.stack th = l ++ fs) (hi : Idles t s s')
    (hpopped : .frees ∉ roles t l) (hgs : .frees ∉ roles t gs) :
    Dying t (s.after s' th now (gs ++ fs)) where
  created := hi.created.trans h.created
  tskTbl := hi.tskTbl.trans h.tskTbl
  status := hi.status.trans h.status
  freed := by
    show (s'.hist t).freed = if (s'.w.task t).hasFreeproc ∧ (s'.w.task t).hasArg then 1 else 0
    rw [hi.hasFreeproc, hi.hasArg]
    exact hi.freed.trans h.freed
  destroyed := hi.destroyed.trans h.destroyed
  frees := by
    obtain ⟨m, hm, hsum⟩ : ∃ m, HasCount Role.isFreeing t (s.after s' th now (gs ++ fs)) m ∧ _ :=
      h.frees.after hs
    have hzero : ∀ {l : List (Frame ι)}, .frees ∉ roles t l →
        (roles t l).countP Role.isFreeing = 0 := by
      intro l hl
      refine List.countP_eq_zero.mpr fun r hr hP => hl ?_
      obtain rfl : r = .frees := by simpa [Role.isFreeing] using hP
      exact hr
    rw [hzero hpopped, hzero hgs] at hsum
    obtain rfl : m = 1 := hsum
    exact hm

theorem stampTask_deleting {w : Callout ι} (h : (w.task t).status = .deleting) (e : ι)
    (start : Chrono) : (stampTask w e start).tskTbl t = w.tskTbl t ∧
      ((stampTask w e start).task t).status = (w.task t).status ∧
      ((stampTask w e start).task t).hasFreeproc = (w.task t).hasFreeproc ∧
      ((stampTask w e start).task t).hasArg = (w.task t).hasArg := by
  by_cases he : e = t
  · subst he
    unfold stampTask
    rw [if_neg (by simp [h])]
    exact ⟨rfl, by simp, by simp, by simp⟩
  · have hsame := SameTask.stampTask he w start
    exact ⟨hsame.tskTbl, congrArg Task.status hsame.task, congrArg Task.hasFreeproc hsame.task,
      congrArg Task.hasArg hsame.task⟩

theorem batchStep_idles (h : Dying t s) (ha : f.about = none) (hrevives : f.revives t s.w = false)
    (hr : frameStep s th now f = some (s', gs)) : Idles t s s' := by
  obtain ⟨haside, -⟩ := batchStep_aside (t := t) ha hr
  obtain ⟨-, hfreed, hdestroyed⟩ := batchStep_words (t := t) ha hr
  have hstamp : ∀ e start, s'.w = stampTask s.w e start → Idles t s s' := by
    intro e start hw
    obtain ⟨htbl, hstatus, hfree, harg⟩ := stampTask_deleting h.status e start
    rw [← hw] at htbl hstatus hfree harg
    exact ⟨htbl, hstatus, hfree, harg, haside.created, hfreed, hdestroyed⟩
  have hsame : SameTask t s.w s'.w → Idles t s s' := fun hw =>
    .of_same hw haside.created hfreed hdestroyed
  cases f <;> simp only [Frame.about, reduceCtorEq] at ha <;> simp only [frameStep] at hr
  case fetch start =>
    unfold fetchStep at hr
    split_ifs at hr
    cases hr
    exact ⟨rfl, rfl, rfl, rfl, rfl, rfl, rfl⟩
  case fetchTimed start urgentTasks idleTasks =>
    unfold fetchTimedStep at hr
    split_ifs at hr with hstart
    · have hnot : t ∉ (getRunnables s.w start calloutTaskMax).2.1 := by
        simpa [Frame.revives, hstart] using hrevives
      rw [getRunnables_eq] at hr hnot
      have hw := takeRunnables_same t _ _ _ hnot
      generalize takeRunnables (i64 (start + calloutTaskSchedJitter)) calloutTaskMax s.w = d
        at hr hw
      obtain ⟨w, tasks⟩ := d
      dsimp only at hr hw
      split_ifs at hr
      cases hr
      exact hsame hw
    · cases hr
      exact .refl t s
  case runTasksBySelf start tasks =>
    cases tasks with
    | nil =>
      cases hr
      exact .refl t s
    | cons e tasks =>
      simp only [runTasksBySelfStep] at hr
      split_ifs at hr
      cases hr
      exact hstamp e start rfl
  case stamp start todo stamped =>
    cases todo with
    | nil =>
      cases hr
      exact .refl t s
    | cons e todo =>
      simp only [stampStep] at hr
      split_ifs at hr
      cases hr
      exact hstamp e start rfl
  case put stride q left tasks =>
    unfold putStep at hr
    split_ifs at hr
    · cases hr
      exact .refl t s
    · cases hr
      exact .refl t s
    · split at hr
      · contradiction
      · dsimp only at hr
        split_ifs at hr <;> cases hr <;> exact hsame (.refl t s.w)
  case worker tasks =>
    cases tasks <;> cases hr <;> exact .refl t s

omit [DecidableEq θ] in
theorem Dying.unknown (h : Dying t s) : s.w.getStateInTable t = .unknown := by
  simp [getStateInTable, h.tskTbl]

theorem Idles.returns (r : Result) : Idles t s (s.return_ th r) := .of_system (.return_ ..)

theorem cancelStep_idles {q : CancelPoint} (hrevives : (Frame.cancel t q).revives t s.w = false)
    (hr : cancelStep s th t q = some (s', gs)) : Idles t s s' ∧ .frees ∉ roles t gs := by
  cases q <;> simp only [cancelStep] at hr
  case asleep => contradiction
  case count =>
    cases hr
    exact ⟨.modTask fun _ => ⟨rfl, rfl, rfl⟩, by simp [CancelPoint.role]⟩
  case uncount =>
    cases hr
    refine ⟨.modTask fun _ => ⟨rfl, rfl, rfl⟩, ?_⟩
    split_ifs <;> simp [DestroyPoint.role]
  case mark st =>
    split_ifs at hr with hl hst <;> cases hr
    · refine ⟨⟨rfl, rfl, rfl, rfl, ?_, ?_, ?_⟩, by simp [DestroyPoint.role]⟩ <;>
        simp [System.note]
    · simp [Frame.revives] at hrevives
      exact absurd hrevives hst
  all_goals
    split_ifs at hr <;> cases hr <;> exact ⟨.refl t s, by simp [CancelPoint.role]⟩

theorem execStep_idles {q : ExecPoint} (h : Dying t s)
    (hrevives : (Frame.exec t q).revives t s.w = false)
    (hr : execStep s th t now q = some (s', gs)) : Idles t s s' ∧ .frees ∉ roles t gs := by
  cases q <;> simp only [execStep] at hr
  case body => contradiction
  case check =>
    simp only [h.unknown, reduceCtorEq, if_false, notTheDequeuedState] at hr
    cases hr
    exact ⟨.refl t s, by simp⟩
  case count | leave | leaveDelete =>
    cases hr
    refine ⟨.modTask fun _ => ⟨rfl, rfl, rfl⟩, ?_⟩
    try split_ifs
    all_goals simp [ExecPoint.role]
  case recheck =>
    simp only [h.unknown, h.status, reduceCtorEq, false_and, if_false] at hr
    split_ifs at hr
  case resched => simp [Frame.revives] at hrevives
  case lockDelete =>
    split_ifs at hr
    cases hr
    exact ⟨.of_system (.lck ..), by simp [DestroyPoint.role]⟩
  case wakeup =>
    split_ifs at hr
    cases hr
    have hidles : Idles t s (addExec s t (-1)) := .modTask fun _ => ⟨rfl, rfl, rfl⟩
    exact ⟨hidles.wakeupTask, by simp⟩
  all_goals
    cases hr
    refine ⟨.refl t s, ?_⟩
    split_ifs <;> simp [ExecPoint.role]

theorem destroyStep_idles {unlock : Bool} {q : DestroyPoint} (h : Dying t s)
    (hrevives : (Frame.destroy t unlock q).revives t s.w = false)
    (hfrees : (Frame.destroy t unlock q).frees t = false)
    (hr : destroyStep s th t unlock q = some (s', gs)) : Idles t s s' ∧ .frees ∉ roles t gs := by
  cases q <;> simp only [destroyStep] at hr
  case unsched =>
    split_ifs at hr
    cases hr
    refine ⟨?_, by simp [DestroyPoint.role]⟩
    by_cases hf : s.w.flag t = true
    · have hu := doUnsched_unsched hf
      have hst : (s.w.task t).status ≠ .enqueued := by simp [h.status]
      refine ⟨?_, ?_, ?_, ?_, rfl, rfl, rfl⟩
      · rw [show (doUnsched s.w t).tskTbl t = _ from hu.tskTbl_self, if_neg hst]
      all_goals simp [hu.task_self, hst]
    · rw [doUnsched_of_not s.w hf]
      exact .refl t s
  case setTable => simp [Frame.revives] at hrevives
  case check =>
    simp only [h.unknown, reduceCtorEq, if_false] at hr
    obtain ⟨⟨o, rfl⟩, rfl⟩ := destroyed_eq (Option.some.inj hr)
    exact ⟨.of_system (.lck ..), by simp⟩
  case delete =>
    have hlocked : (deleteLocked s t).2 = false ∧ Idles t s (deleteLocked s t).1 := by
      have hreset : Idles t s
          (s.modTask t fun x => { x with cancelRefCount := 0, execRefCount := 0 }) :=
        .modTask fun _ => ⟨rfl, rfl, rfl⟩
      simp only [deleteLocked, h.status, ne_eq, not_true_eq_false, decide_false, if_false,
        Bool.false_eq_true]
      exact ⟨trivial, hreset.wakeupTask⟩
    generalize deleteLocked s t = d at hr hlocked
    obtain ⟨s₁, didDelete⟩ := d
    dsimp only at hr hlocked
    obtain ⟨rfl, hidles⟩ := hlocked
    simp only [Bool.false_eq_true, if_false] at hr
    split_ifs at hr
    obtain ⟨⟨o, rfl⟩, rfl⟩ := destroyed_eq (Option.some.inj hr)
    exact ⟨hidles.trans (.of_system (.lck ..)), by simp⟩
  case free => simp [Frame.frees] at hfrees

theorem forceStep_idles {q : ForcePoint} (h : Dying t s)
    (hr : forceStep s th t now q = some (s', gs)) : Idles t s s' ∧ .frees ∉ roles t gs := by
  cases q <;> simp only [forceStep] at hr
  case check =>
    simp only [h.unknown, ne_eq, not_true_eq_false, if_false] at hr
    cases hr
    exact ⟨Idles.returns _, by simp⟩
  case lock =>
    simp only [h.unknown, reduceCtorEq, or_self, if_false] at hr
    split_ifs at hr
    cases hr
    exact ⟨Idles.returns _, by simp⟩
  case run =>
    cases hr
    refine ⟨Idles.returns _, ?_⟩
    simp [finalTaskSched_role]

/-- A step of a call about a task that is deleted. -/
theorem ownStep_idles (h : Dying t s) (ha : f.about = some t)
    (hok : f.submits t = true → s.w.tskTbl t = some .created)
    (hrevives : f.revives t s.w = false) (hfrees : f.frees t = false)
    (hr : frameStep s th now f = some (s', gs)) : Idles t s s' ∧ .frees ∉ roles t gs := by
  cases f <;> simp only [Frame.about, Option.some.injEq, reduceCtorEq] at ha <;> subst ha <;>
    simp only [frameStep] at hr
  case submit t initialDelay interval q =>
    cases q
    case check =>
      simp only [submitStep, h.unknown, reduceCtorEq, if_false, if_true] at hr
      cases hr
      exact ⟨Idles.returns _, by simp⟩
    all_goals
      have hc := hok (by simp [Frame.submits])
      rw [h.tskTbl] at hc
      contradiction
  case cancel t q => exact cancelStep_idles hrevives hr
  case exec t q => exact execStep_idles h hrevives hr
  case destroy t unlock q => exact destroyStep_idles h hrevives hfrees hr
  case force t q => exact forceStep_idles h hr

theorem not_freeing (hgs : ∀ g ∈ gs, g.role t = .none) : .frees ∉ roles t gs := by
  intro hr
  obtain ⟨g, hg, hrole⟩ := List.mem_map.mp hr
  rw [hgs g hg] at hrole
  contradiction

theorem role_of_not_frees (hfrees : f.frees t = false) : .frees ∉ roles t [f] := by
  rw [roles_cons, roles_nil, List.mem_singleton]
  intro hrole
  cases f with
  | destroy e unlock q =>
    by_cases he : e = t
    · subst he
      cases q <;> simp [DestroyPoint.role, Frame.frees] at hrole hfrees
    · simp [Frame.role, he] at hrole
  | cancel e q =>
    by_cases he : e = t
    · subst he
      cases q <;> simp [CancelPoint.role] at hrole
    · simp [Frame.role, he] at hrole
  | exec e q =>
    by_cases he : e = t
    · subst he
      cases q <;> simp [ExecPoint.role] at hrole
    · simp [Frame.role, he] at hrole
  | _ => simp [Frame.role] at hrole

theorem frameStep_dying (h : Dying t s) (hs : s.stack th = f :: fs)
    (hok : f.submits t = true → s.w.tskTbl t = some .created)
    (hrevives : f.revives t s.w = false) (hfrees : f.frees t = false)
    (hr : frameStep s th now f = some (s', gs)) : Dying t (s.after s' th now (gs ++ fs)) := by
  have hs' : s.stack th = [f] ++ fs := hs
  have hpopped := role_of_not_frees hfrees
  cases ha : f.about with
  | some e =>
    by_cases he : e = t
    · subst he
      obtain ⟨hidles, hgs⟩ := ownStep_idles h ha hok hrevives hfrees hr
      exact h.after hs' hidles hpopped hgs
    · have hforeign := frameStep_foreign ha he hr
      exact h.after hs' (.of_system hforeign.same) hpopped
        (not_freeing fun g hg => role_of_about (hforeign.about g hg))
  | none =>
    exact h.after hs' (batchStep_idles h ha hrevives hr) hpopped
      (not_freeing (role_of_aside (batchStep_aside ha hr).2))

theorem callStep_dying {op : Op ι} (h : Dying t s) (hr : callStep s th now op = some (s', gs)) :
    Dying t (s.after s' th now (gs ++ s.stack th)) := by
  have hgo : ∀ {s' : System ι θ} {gs : List (Frame ι)}, Idles t s s' →
      (∀ g ∈ gs, g.role t = .none) → Dying t (s.after s' th now (gs ++ s.stack th)) :=
    fun hidles hgs => h.after (l := []) rfl hidles (by simp) (not_freeing hgs)
  cases op <;> simp only [callStep] at hr
  case create e hasArg hasFreeproc =>
    obtain ⟨s₁, hcreate, heq⟩ := Option.map_eq_some_iff.mp hr
    cases heq
    refine hgo (.of_system (createTask_foreign ?_ hcreate)) (by simp)
    rintro rfl
    unfold createTask at hcreate
    rw [if_neg (by simp [h.created])] at hcreate
    contradiction
  case resetInterval e interval =>
    split_ifs at hr
    rw [Option.map_eq_some_iff] at hr
    obtain ⟨s₁, hreset, heq⟩ := hr
    cases heq
    unfold resetInterval at hreset
    split_ifs at hreset <;> cases hreset
    · have hidles : Idles t s (s.modTask e fun x => { x with intervalTime := interval }) :=
        .modTask fun _ => ⟨rfl, rfl, rfl⟩
      exact hgo ⟨hidles.tskTbl, hidles.status, hidles.hasFreeproc, hidles.hasArg, rfl, rfl, rfl⟩
        (by simp)
    all_goals exact hgo (.of_system (.return_ ..)) (by simp)
  case work =>
    split_ifs at hr
    cases hr
    exact hgo ⟨rfl, rfl, rfl, rfl, rfl, rfl, rfl⟩ (by simp [Frame.role])
  case cancel e =>
    split_ifs at hr
    cases hr
    refine hgo (.refl t s) ?_
    simp only [List.mem_singleton, forall_eq, Frame.role, CancelPoint.role]
    exact ite_self _
  all_goals
    split_ifs at hr
    cases hr
    exact hgo (.refl t s) (by simp [Frame.role])

/-- **A step of a task that is deleted** but neither freed nor brought back. -/
theorem Dying.step {ev : Event ι θ} (h : Dying t s) (hok : submitsOnce t s ev)
    (hrevives : ∀ f ∈ running s ev, f.revives t s.w = false) (hfails : fails t s ev = false)
    (hfrees : ∀ f ∈ running s ev, f.frees t = false) (hstep : Callout.step s ev = some s') :
    Dying t s' := by
  cases step_cases hstep with
  | call hact hr => exact callStep_dying h hr
  | go hact hs hr =>
    rename_i f fs gs s₁
    have hrun : f ∈ running s ev := by simp [running, hact, hs]
    exact frameStep_dying h hs (hok f hrun) (hrevives f hrun) (hfrees f hrun) hr
  | finish hact hs =>
    rename_i t' r fs
    by_cases he : t' = t
    · subst he
      have hr : r = Result.ok := by simpa [fails, hact, hs] using hfails
      refine h.after (l := [.exec t' .body]) hs ?_ (by simp [ExecPoint.role]) ?_ <;>
        simp only [execEnd, hr, if_true]
      · exact ⟨rfl, rfl, rfl, rfl, rfl, rfl, rfl⟩
      · simp [ExecPoint.role]
    · have hforeign : Foreign t s (execEnd s t' r) := execEnd_foreign he r
      exact h.after (l := [.exec t' .body]) hs (.of_system hforeign.same)
        (by simp [Frame.role, he])
        (not_freeing fun g hg => role_of_about (hforeign.about g hg))
  | wake hact hs hwoken =>
    rename_i spurious t' since fs
    refine h.after (l := [.cancel t' (.asleep since)]) hs (.refl t s)
      (role_of_not_frees rfl) (role_of_not_frees rfl)

/-! ## After the record is freed -/

/-- The record of the task is freed while it is in no queue of the main loop, and no other call goes
on with it. -/
def freesAlone (t : ι) (s : System ι θ) (e : Event ι θ) : Prop :=
  ∀ f ∈ running s e, f.frees t = true →
    t ∉ s.w.urgentTskQ ++ s.w.idleTskQ ++ s.w.chronoTskQ ∧
      ∀ th, ∀ g ∈ s.others e.thread th, g.refers t = false

/-- **The end of the destruction.** The record is freed. -/
theorem Dying.free {ev : Event ι θ} (h : Dying t s) (hfrees : ∃ f ∈ running s ev, f.frees t = true)
    (halone : freesAlone t s ev) (hstep : Callout.step s ev = some s') : Dead t s' := by
  obtain ⟨f, hrun, hfrees⟩ := hfrees
  obtain ⟨hqueues, hothers⟩ := halone f hrun hfrees
  simp only [List.mem_append, not_or] at hqueues
  obtain ⟨⟨hurgent, hidle⟩, htimed⟩ := hqueues
  cases step_cases hstep with
  | call hact | finish hact | wake hact => simp [running, hact] at hrun
  | go hact hs hr =>
    rename_i f' fs gs s₁
    obtain rfl : f' = f := by simpa [running, hact, hs] using hrun
    unfold Frame.frees at hfrees
    split at hfrees
    swap
    · contradiction
    rename_i e unlock
    obtain rfl : e = t := of_decide_eq_true hfrees
    obtain ⟨⟨o, rfl⟩, rfl⟩ := destroyed_eq (Option.some.inj hr)
    have hrefers : ∀ th', ∀ g ∈ s.others ev.thread th', g.refers e = false := hothers
    refine ⟨?_, h.tskTbl, hurgent, hidle, htimed, ?_, ?_, fun th' g hg => hrefers th' g ?_⟩
    · simpa [System.after, System.note] using h.created
    · have hfreed : ((s.note e fun h => { h with destroyed := true }).hist e).freed =
          (s.hist e).freed := by simp [System.note]
      exact hfreed.trans h.freed
    · simp [System.after, System.note]
    · by_cases hth : th' = ev.thread
      · subst hth
        simpa [System.after, System.others, hs] using hg
      · simpa [System.after, System.others, hth] using hg

/-- A step that leaves the task alone, with calls that look the task up at most. -/
theorem Dead.after (h : Dead t s) (hs : s.stack th = l ++ fs) (hw : Untouched t s.w s'.w)
    (hcreated : (s'.hist t).created = (s.hist t).created)
    (hfreed : (s'.hist t).freed = (s.hist t).freed)
    (hdestroyed : (s'.hist t).destroyed = (s.hist t).destroyed)
    (hgs : ∀ g ∈ gs, g.refers t = false) : Dead t (s.after s' th now (gs ++ fs)) where
  created := hcreated.trans h.created
  tskTbl := hw.tskTbl.trans h.tskTbl
  urgent hm := h.urgent (hw.urgent hm)
  idle hm := h.idle (hw.idle hm)
  timed hm := h.timed (hw.timed hm)
  freed := by
    show (s'.hist t).freed = if (s'.w.task t).hasFreeproc ∧ (s'.w.task t).hasArg then 1 else 0
    rw [hw.hasFreeproc, hw.hasArg]
    exact hfreed.trans h.freed
  destroyed := hdestroyed.trans h.destroyed
  refers := by
    refine mem_after (fun g hg => ?_) h.refers
    rcases List.mem_append.mp hg with hg | hg
    · exact hgs g hg
    · exact h.refers th g (hs ▸ List.mem_append_right _ hg)

/-- A batch that is without the task does not get it. -/
theorem batchStep_refers (ha : f.about = none) (hf : f.refers t = false)
    (hurgent : t ∉ s.w.urgentTskQ) (hidle : t ∉ s.w.idleTskQ) (htimed : t ∉ s.w.chronoTskQ)
    (hr : frameStep s th now f = some (s', gs)) : ∀ g ∈ gs, g.refers t = false := by
  have hfinal : ∀ (s₁ : System ι θ) {start : Chrono} {tasks : List ι}, t ∉ tasks →
      ∀ g ∈ fetchTimedStep.runBatch start s₁ tasks, g.refers t = false := by
    intro s₁ start tasks hnot
    unfold fetchTimedStep.runBatch finalTaskSched
    split_ifs <;> simp [Frame.refers, hnot]
  cases f <;> simp only [Frame.about, reduceCtorEq] at ha <;> simp only [frameStep] at hr
  case fetch start =>
    unfold fetchStep at hr
    split_ifs at hr
    cases hr
    have hu : t ∉ s.w.urgentTskQ.take calloutTaskMax := fun hm => hurgent (List.mem_of_mem_take hm)
    have hi : t ∉ s.w.idleTskQ.take calloutTaskMax := fun hm => hidle (List.mem_of_mem_take hm)
    simpa [Frame.refers] using ⟨hu, hi⟩
  case fetchTimed start urgentTasks idleTasks =>
    have hlists : t ∉ urgentTasks ++ idleTasks := by simpa [Frame.refers] using hf
    unfold fetchTimedStep at hr
    split_ifs at hr
    · have hcount := List.count_eq_zero.mpr htimed
      have htaken := takeRunnables_taken t (i64 (start + calloutTaskSchedJitter)) calloutTaskMax
        s.w (by omega)
      rw [getRunnables_eq] at hr
      generalize takeRunnables (i64 (start + calloutTaskSchedJitter)) calloutTaskMax s.w = d
        at hr htaken
      obtain ⟨w, tasks⟩ := d
      dsimp only at hr htaken
      split_ifs at hr
      cases hr
      have hnot : t ∉ tasks := by
        rcases htaken with ⟨-, hnot⟩ | ⟨-, -, -, -, -, hsum, hmem⟩
        · exact List.count_eq_zero.mp hnot
        · omega
      refine hfinal _ ?_
      rw [List.append_assoc, List.mem_append]
      exact not_or.mpr ⟨hnot, hlists⟩
    · cases hr
      exact hfinal s hlists
  case runTasksBySelf start tasks =>
    cases tasks with
    | nil =>
      cases hr
      simp
    | cons e tasks =>
      simp only [runTasksBySelfStep] at hr
      split_ifs at hr
      cases hr
      simp_all [Frame.refers]
  case stamp start todo stamped =>
    cases todo with
    | nil =>
      cases hr
      simpa [Frame.refers] using hf
    | cons e todo =>
      simp only [stampStep] at hr
      split_ifs at hr
      cases hr
      simp_all [Frame.refers]
  case put stride q left tasks =>
    have hnot : t ∉ tasks := by simpa [Frame.refers] using hf
    unfold putStep at hr
    split_ifs at hr
    · cases hr
      simp
    · cases hr
      simpa [Frame.refers] using hnot
    · split at hr
      · contradiction
      · dsimp only at hr
        have hrest : ∀ n, t ∉ tasks.drop n := fun n hm => hnot (List.mem_of_mem_drop hm)
        split_ifs at hr <;> cases hr <;> simpa [Frame.refers] using hrest _
  case worker tasks => cases tasks <;> cases hr <;> simp [Frame.refers]

/-- A call that looks the task up returns. -/
theorem Dead.lookUp (h : Dead t s) (hs : s.stack th = f :: fs) (ha : f.about = some t)
    (hf : f.refers t = false) (hr : frameStep s th now f = some (s', gs)) :
    Dead t (s.after s' th now (gs ++ fs)) := by
  have hs' : s.stack th = [f] ++ fs := hs
  have hunknown : s.w.getStateInTable t = .unknown := by simp [getStateInTable, h.tskTbl]
  have hsame : Dead t (s.after s th now ([] ++ fs)) :=
    h.after hs' (.refl t s.w) rfl rfl rfl (by simp)
  have hreturn : ∀ r, Dead t (s.after (s.return_ th r) th now ([] ++ fs)) := fun r =>
    h.after hs' (.refl t s.w) rfl rfl rfl (by simp)
  cases f <;> simp only [Frame.about, Option.some.injEq, reduceCtorEq] at ha <;> subst ha
  case submit initialDelay interval q =>
    cases q <;> simp [Frame.refers] at hf
    simp only [frameStep, submitStep, hunknown, reduceCtorEq, if_false, if_true] at hr
    cases hr
    exact hreturn _
  case cancel q =>
    cases q <;> simp [Frame.refers] at hf
    simp only [frameStep, cancelStep, hunknown, ne_eq, not_true_eq_false, false_and, if_false] at hr
    cases hr
    exact hsame
  case exec q =>
    cases q <;> simp [Frame.refers] at hf
    simp only [frameStep, execStep, hunknown, reduceCtorEq, if_false, notTheDequeuedState] at hr
    cases hr
    exact hsame
  case destroy unlock q => simp [Frame.refers] at hf
  case force q =>
    cases q <;> simp [Frame.refers] at hf
    · simp only [frameStep, forceStep, hunknown, ne_eq, not_true_eq_false, if_false] at hr
      cases hr
      exact hreturn _
    · simp only [frameStep, forceStep, hunknown, reduceCtorEq, or_self, if_false] at hr
      split_ifs at hr
      cases hr
      exact hreturn _

theorem frameStep_dead (h : Dead t s) (hs : s.stack th = f :: fs)
    (hr : frameStep s th now f = some (s', gs)) : Dead t (s.after s' th now (gs ++ fs)) := by
  have hs' : s.stack th = [f] ++ fs := hs
  have hf : f.refers t = false := h.refers th f (hs ▸ List.mem_cons_self)
  cases ha : f.about with
  | some e =>
    by_cases he : e = t
    · subst he
      exact h.lookUp hs ha hf hr
    · have hforeign := frameStep_foreign ha he hr
      have hhist : s'.hist t = s.hist t := hforeign.same.hist
      exact h.after hs' (.of_same hforeign.same.w) (congrArg History.created hhist)
        (congrArg History.freed hhist) (congrArg History.destroyed hhist)
        fun g hg => not_refers (hforeign.about g hg) (hforeign.count g hg)
  | none =>
    obtain ⟨haside, -⟩ := batchStep_aside (t := t) ha hr
    obtain ⟨-, hfreed, hdestroyed⟩ := batchStep_words (t := t) ha hr
    exact h.after hs' (batchStep_untouched ha hf h.timed hr) haside.created hfreed hdestroyed
      (batchStep_refers ha hf h.urgent h.idle h.timed hr)

theorem callStep_dead {op : Op ι} (h : Dead t s) (hr : callStep s th now op = some (s', gs)) :
    Dead t (s.after s' th now (gs ++ s.stack th)) := by
  have hcall : ∀ {g : Frame ι}, g.refers t = false →
      Dead t (s.after s th now ([g] ++ s.stack th)) := fun hg =>
    h.after (l := []) rfl (.refl t s.w) rfl rfl rfl (by simpa using hg)
  have hsame : ∀ {s₁ : System ι θ}, SameSystem t s s₁ →
      Dead t (s.after s₁ th now ([] ++ s.stack th)) := fun hsame =>
    h.after (l := []) rfl (.of_same hsame.w) (congrArg History.created hsame.hist)
      (congrArg History.freed hsame.hist) (congrArg History.destroyed hsame.hist) (by simp)
  cases op <;> simp only [callStep] at hr
  case create e hasArg hasFreeproc =>
    obtain ⟨s₁, hcreate, heq⟩ := Option.map_eq_some_iff.mp hr
    cases heq
    refine hsame (createTask_foreign ?_ hcreate)
    rintro rfl
    unfold createTask at hcreate
    rw [if_neg (by simp [h.created])] at hcreate
    contradiction
  case resetInterval e interval =>
    split_ifs at hr
    rw [Option.map_eq_some_iff] at hr
    obtain ⟨s₁, hreset, heq⟩ := hr
    cases heq
    by_cases he : e = t
    · subst he
      unfold resetInterval at hreset
      split_ifs at hreset <;> cases hreset
      · refine h.after (l := []) rfl ⟨?_, ?_, rfl, id, id, id⟩ rfl rfl rfl (by simp)
          <;> simp [System.modTask, System.return_]
      · exact hsame (.return_ ..)
      · exact hsame (.return_ ..)
    · exact hsame (resetInterval_foreign he hreset)
  case work =>
    split_ifs at hr
    cases hr
    exact h.after (l := []) rfl (.refl t s.w) rfl rfl rfl (by simp [Frame.refers])
  all_goals
    split_ifs at hr
    cases hr
    exact hcall (by simp [Frame.refers])

/-- **A step of a dead task.** It stays dead. -/
theorem Dead.step {ev : Event ι θ} (h : Dead t s) (hstep : step s ev = some s') : Dead t s' := by
  cases step_cases hstep with
  | call hact hr => exact callStep_dead h hr
  | go hact hs hr => exact frameStep_dead h hs hr
  | finish hact hs =>
    rename_i t' r fs
    have he : t' ≠ t := by
      rintro rfl
      have hnot := h.refers ev.thread _ (hs ▸ List.mem_cons_self)
      simp [Frame.refers] at hnot
    have hforeign : Foreign t s (execEnd s t' r) := execEnd_foreign he r
    have hhist := hforeign.same.hist
    exact h.after (l := [.exec t' .body]) hs (.of_same hforeign.same.w)
      (congrArg History.created hhist) (congrArg History.freed hhist)
      (congrArg History.destroyed hhist)
      fun g hg => not_refers (hforeign.about g hg) (hforeign.count g hg)
  | wake hact hs hwoken =>
    rename_i spurious t' since fs
    have he : t' ≠ t := by
      rintro rfl
      have hnot := h.refers ev.thread _ (hs ▸ List.mem_cons_self)
      simp [Frame.refers] at hnot
    exact h.after (l := [.cancel t' (.asleep since)]) hs (.refl t s.w) rfl rfl rfl
      (by simp [Frame.refers, he])

end Callout
end Gallus
