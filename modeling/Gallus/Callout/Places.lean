import Gallus.Callout.Foreign

/-!
# Where a task is

At any time a task is in one place: in one of the three queues, in the queue of a worker, in the
hands of a thread, or nowhere. A thread has it in its hands while it holds it in a batch, and while
it executes it up to the re-submission.

* `Placed t p s`: the task `t` is in the place `p` and in no other.
* `Placed.step`: each step keeps a task in one place, if a submission takes effect on a task in
  the state `CREATED` only.
-/

namespace Gallus
namespace Callout

variable {ι θ : Type} [DecidableEq ι] [DecidableEq θ]

/-- A place of a task. -/
inductive Place (θ : Type)
  | nowhere | urgent | idle | timed
  | thread (th : θ)
  | queue (worker : θ)
  deriving DecidableEq

/-- How often the calls of a thread have the task in their hands. -/
def held (t : ι) (fs : List (Frame ι)) : Nat := (fs.map (Frame.count t)).sum

@[simp] theorem held_nil (t : ι) : held t ([] : List (Frame ι)) = 0 := rfl

@[simp] theorem held_cons (t : ι) (f : Frame ι) (fs : List (Frame ι)) :
    held t (f :: fs) = f.count t + held t fs := by
  simp [held]

@[simp] theorem held_append (t : ι) (fs gs : List (Frame ι)) :
    held t (fs ++ gs) = held t fs + held t gs := by
  simp [held]

theorem held_eq_zero {t : ι} {fs : List (Frame ι)} (h : ∀ f ∈ fs, f.count t = 0) :
    held t fs = 0 := by
  induction fs with
  | nil => rfl
  | cons f fs ih =>
    rw [held_cons, h f List.mem_cons_self, ih fun g hg => h g (List.mem_cons_of_mem _ hg)]

theorem count_of_held {t : ι} {f : Frame ι} {fs : List (Frame ι)} (h : held t fs = 0)
    (hf : f ∈ fs) : f.count t = 0 := by
  obtain ⟨l, l', rfl⟩ := List.append_of_mem hf
  simp only [held_append, held_cons] at h
  omega

/-- The task `t` is in the place `p`, and in no other. -/
structure Placed (t : ι) (p : Place θ) (s : System ι θ) : Prop where
  urgent : s.w.urgentTskQ.count t = if p = .urgent then 1 else 0
  idle : s.w.idleTskQ.count t = if p = .idle then 1 else 0
  timed : s.w.chronoTskQ.count t = if p = .timed then 1 else 0
  queue : ∀ i, (s.qs i).count t = if p = .queue i then 1 else 0
  thread : ∀ th, held t (s.stack th) = if p = .thread th then 1 else 0
  flag : s.w.flag t = true ↔ p = .timed
  /-- A task that is not yet submitted is nowhere. -/
  fresh : s.w.tskTbl t = some .created → p = .nowhere
  unborn : (s.hist t).created = false →
    p = .nowhere ∧ s.w.tskTbl t = none ∧ ∀ th, ∀ f ∈ s.stack th, f.about ≠ some t

/-- The queues have the task as before, and it is not newly created. -/
structure SameQueues (t : ι) (s s' : System ι θ) : Prop where
  urgent : s'.w.urgentTskQ.count t = s.w.urgentTskQ.count t
  idle : s'.w.idleTskQ.count t = s.w.idleTskQ.count t
  timed : s'.w.chronoTskQ.count t = s.w.chronoTskQ.count t
  queue : ∀ i, (s'.qs i).count t = (s.qs i).count t
  flag : s'.w.flag t = s.w.flag t
  fresh : s'.w.tskTbl t = some .created → s.w.tskTbl t = some .created
  created : (s'.hist t).created = (s.hist t).created

variable {t : ι} {p p' : Place θ} {s s' s₁ : System ι θ} {th : θ} {now : Chrono}
  {f : Frame ι} {fs gs : List (Frame ι)}

namespace SameQueues

omit [DecidableEq θ]

theorem refl (t : ι) (s : System ι θ) : SameQueues t s s :=
  ⟨rfl, rfl, rfl, fun _ => rfl, rfl, id, rfl⟩

theorem trans (h : SameQueues t s s₁) (h' : SameQueues t s₁ s') : SameQueues t s s' :=
  ⟨h'.urgent.trans h.urgent, h'.idle.trans h.idle, h'.timed.trans h.timed,
    fun i => (h'.queue i).trans (h.queue i), h'.flag.trans h.flag, h.fresh ∘ h'.fresh,
    h'.created.trans h.created⟩

theorem of_same (h : SameSystem t s s') : SameQueues t s s' :=
  ⟨h.w.urgent, h.w.idle, h.w.timed, fun i => by rw [h.qs], congrArg Task.isInTimedQ h.w.task,
    fun hf => by rwa [← h.w.tskTbl], congrArg History.created h.hist⟩

theorem modTask {f : Task → Task} (hf : ∀ x, (f x).isInTimedQ = x.isInTimedQ) :
    SameQueues t s (s.modTask t f) :=
  ⟨rfl, rfl, rfl, fun _ => rfl, by simp [System.modTask, Callout.flag, hf], id, rfl⟩

theorem setState {st : TaskState} (hst : st ≠ .created) :
    SameQueues t s { s with w := s.w.setState t st } := by
  refine ⟨rfl, rfl, rfl, fun _ => rfl, by simp [Callout.flag], fun hf => ?_, rfl⟩
  simp [Callout.setState, Callout.modTask, Callout.setStateInTable, hst] at hf

theorem note {f : History → History} (hf : ∀ h, (f h).created = h.created) :
    SameQueues t s (s.note t f) :=
  ⟨rfl, rfl, rfl, fun _ => rfl, rfl, id, by simp [System.note, hf]⟩

end SameQueues

/-- The system after a step. -/
def System.after (s s' : System ι θ) (th : θ) (now : Chrono) (fs : List (Frame ι)) : System ι θ :=
  { s' with clock := now, stack := Function.update s.stack th fs }

omit [DecidableEq ι] in
/-- The calls of all threads after a step. -/
theorem mem_after {P : Frame ι → Prop} (hfs : ∀ f ∈ fs, P f)
    (hold : ∀ th', ∀ f ∈ s.stack th', P f) (th' : θ) :
    ∀ f ∈ (s.after s' th now fs).stack th', P f := by
  by_cases hth : th' = th
  · subst hth
    simpa [System.after] using hfs
  · simpa [System.after, hth] using hold th'

/-- What a thread does in a step. -/
inductive Stepped (s : System ι θ) (e : Event ι θ) : System ι θ → Prop
  | call {op : Op ι} {s₁ : System ι θ} {gs : List (Frame ι)} (hact : e.act = .call op)
      (hr : callStep s e.thread e.now op = some (s₁, gs)) :
      Stepped s e (s.after s₁ e.thread e.now (gs ++ s.stack e.thread))
  | go {f : Frame ι} {fs gs : List (Frame ι)} {s₁ : System ι θ} (hact : e.act = .go)
      (hs : s.stack e.thread = f :: fs) (hr : frameStep s e.thread e.now f = some (s₁, gs)) :
      Stepped s e (s.after s₁ e.thread e.now (gs ++ fs))
  | finish {t : ι} {r : Result} {fs : List (Frame ι)} (hact : e.act = .finish r)
      (hs : s.stack e.thread = .exec t .body :: fs) :
      Stepped s e (s.after (execEnd s t r).1 e.thread e.now ((execEnd s t r).2 ++ fs))
  | wake {spurious : Bool} {t : ι} {since : Nat} {fs : List (Frame ι)}
      (hact : e.act = .wake spurious) (hs : s.stack e.thread = .cancel t (.asleep since) :: fs)
      (hwoken : spurious = true ∨ since < s.condTask t) :
      Stepped s e (s.after s e.thread e.now ([.cancel t .wait] ++ fs))

theorem step_cases {e : Event ι θ} (h : step s e = some s') : Stepped s e s' := by
  unfold step at h
  split_ifs at h
  rw [Option.map_eq_some_iff] at h
  obtain ⟨⟨s₁, fs⟩, hact, rfl⟩ := h
  show Stepped s e (s.after s₁ e.thread e.now fs)
  unfold actStep at hact
  split at hact
  · rename_i op hop
    split_ifs at hact
    rw [Option.map_eq_some_iff] at hact
    obtain ⟨⟨s₂, gs⟩, hcall, heq⟩ := hact
    cases heq
    exact .call hop hcall
  · rename_i hgo
    split at hact
    · contradiction
    · rename_i f fs' hs
      rw [Option.map_eq_some_iff] at hact
      obtain ⟨⟨s₂, gs⟩, hframe, heq⟩ := hact
      cases heq
      exact .go hgo hs hframe
  · rename_i r hfin
    split at hact
    · rename_i t fs' hs
      cases hact
      exact .finish hfin hs
    · contradiction
  · rename_i spurious hwake
    split at hact
    · rename_i t since fs' hs
      split_ifs at hact with hwoken
      cases hact
      exact .wake hwake hs hwoken
    · contradiction

/-- The hands of a thread after a step. -/
theorem held_after {n : Nat} (h : ∀ th', held t (s.stack th') = if p = .thread th' then 1 else 0)
    (hfs : held t fs = n) (hn : n = if p' = .thread th then 1 else 0)
    (hother : ∀ th', th' ≠ th → (p' = .thread th' ↔ p = .thread th')) (th' : θ) :
    held t ((s.after s' th now fs).stack th') = if p' = .thread th' then 1 else 0 := by
  by_cases hth : th' = th
  · subst hth
    simp only [System.after, Function.update_self]
    exact hfs.trans hn
  · simp only [System.after, ne_eq, hth, not_false_eq_true, Function.update_of_ne, h,
      hother th' hth]

/-- A thread that has a task in its hands. -/
theorem Placed.place (h : Placed t p s) (hpos : 0 < held t (s.stack th)) : p = .thread th := by
  have := h.thread th
  by_contra hne
  rw [if_neg hne] at this
  omega

/-- A call about a task was made after its creation. -/
theorem Placed.born (h : Placed t p s) (hf : f ∈ s.stack th) (ha : f.about = some t) :
    (s.hist t).created = true := by
  by_contra hc
  exact (h.unborn (by simpa using hc)).2.2 th f hf ha

/-- The task stays where it is. -/
theorem Placed.stay (h : Placed t p s) (hq : SameQueues t s s')
    (hheld : held t fs = held t (s.stack th))
    (hunborn : (s.hist t).created = false →
      s'.w.tskTbl t = none ∧ ∀ f ∈ fs, f.about ≠ some t) :
    Placed t p (s.after s' th now fs) where
  urgent := hq.urgent.trans h.urgent
  idle := hq.idle.trans h.idle
  timed := hq.timed.trans h.timed
  queue i := (hq.queue i).trans (h.queue i)
  thread := held_after h.thread hheld (h.thread th) fun _ _ => Iff.rfl
  flag := by
    rw [← h.flag]
    exact hq.flag ▸ Iff.rfl
  fresh hf := h.fresh (hq.fresh hf)
  unborn hc := by
    have hc' : (s.hist t).created = false := hq.created.symm.trans hc
    refine ⟨(h.unborn hc').1, (hunborn hc').1, fun th' f hf => ?_⟩
    by_cases hth : th' = th
    · subst hth
      simp only [System.after, Function.update_self] at hf
      exact (hunborn hc').2 f hf
    · simp only [System.after, ne_eq, hth, not_false_eq_true, Function.update_of_ne] at hf
      exact (h.unborn hc').2.2 th' f hf

/-- The task, which is created, stays where it is. -/
theorem Placed.keep (h : Placed t p s) (hborn : (s.hist t).created = true)
    (hq : SameQueues t s s') (hheld : held t fs = held t (s.stack th)) :
    Placed t p (s.after s' th now fs) :=
  h.stay hq hheld fun hc => absurd (hc.symm.trans hborn) Bool.false_ne_true

/-- A task that is somewhere is created. -/
theorem Placed.born_of_place (h : Placed t p s) (hp : p ≠ .nowhere) :
    (s.hist t).created = true := by
  by_contra hc
  exact hp (h.unborn (by simpa using hc)).1

/-- The thread takes the task into its hands. -/
theorem Placed.take (h : Placed t p s) (hp : p ≠ .nowhere) (hp' : ∀ th', p ≠ .thread th')
    (hurgent : s'.w.urgentTskQ.count t = 0) (hidle : s'.w.idleTskQ.count t = 0)
    (htimed : s'.w.chronoTskQ.count t = 0) (hqueue : ∀ i, (s'.qs i).count t = 0)
    (hflag : s'.w.flag t = false) (hfresh : s'.w.tskTbl t ≠ some .created)
    (hcreated : (s'.hist t).created = (s.hist t).created) (hheld : held t fs = 1) :
    Placed t (.thread th) (s.after s' th now fs) where
  urgent := hurgent
  idle := hidle
  timed := htimed
  queue := hqueue
  thread := held_after h.thread hheld (by simp) fun th' hth => by simp [hth.symm, hp']
  flag := by simpa [System.after] using hflag
  fresh hf := absurd hf hfresh
  unborn hc :=
    absurd (hc.symm.trans (hcreated.trans (h.born_of_place hp))) Bool.false_ne_true

/-- The thread lets the task go. -/
theorem Placed.drop (h : Placed t (.thread th) s) (hborn : (s.hist t).created = true)
    (hq : SameQueues t s s') (hheld : held t fs = 0) :
    Placed t .nowhere (s.after s' th now fs) where
  urgent := hq.urgent.trans h.urgent
  idle := hq.idle.trans h.idle
  timed := hq.timed.trans h.timed
  queue i := (hq.queue i).trans (h.queue i)
  thread := held_after h.thread hheld rfl fun th' hth => by simp [hth.symm]
  flag := by
    have := h.flag
    simpa [System.after, hq.flag] using this
  fresh _ := rfl
  unborn hc := absurd (hc.symm.trans (hq.created.trans hborn)) Bool.false_ne_true

/-! ## Steps of calls on the task itself -/

section Own

theorem submitLocked_placed {initialDelay interval : Chrono} (h : Placed t p s)
    (hborn : (s.hist t).created = true) (hs₁ : SameQueues t s s₁) (hheld : held t fs = 0)
    (hcreated : s.w.tskTbl t = some .created)
    (hr : submitLocked s₁ th t initialDelay interval now = (s', gs)) :
    ∃ p', Placed t p' (s.after s' th now (gs ++ fs)) := by
  obtain rfl := h.fresh hcreated
  have hflag : s₁.w.flag t = false := by
    have := h.flag
    rw [hs₁.flag]
    simpa using this
  have hnew : (s₁.hist t).created = true := hs₁.created.trans hborn
  have hurgent : s₁.w.urgentTskQ.count t = 0 := hs₁.urgent.trans h.urgent
  have hidle : s₁.w.idleTskQ.count t = 0 := hs₁.idle.trans h.idle
  have htimed : s₁.w.chronoTskQ.count t = 0 := hs₁.timed.trans h.timed
  have hqueue : ∀ i, (s₁.qs i).count t = 0 := fun i => (hs₁.queue i).trans (h.queue i)
  unfold submitLocked at hr
  split at hr
  · rename_i w r hw
    cases hr
    have hzero : held t ([] ++ fs) = 0 := hheld
    rcases submitPut_submitted hflag hw with ⟨-, htask, htbl, hu, hi, hc⟩ |
      ⟨-, htask, htbl, hu, hi, hc⟩ | ⟨-, hsched⟩
    · refine ⟨.urgent, ?_, ?_, ?_, hqueue, held_after h.thread hzero rfl (by simp), ?_, ?_, ?_⟩
      · simp [System.after, System.note, System.return_, hu, hurgent]
      · simp [System.after, System.note, System.return_, hi, hidle]
      · simp [System.after, System.note, System.return_, hc, htimed]
      · simpa [System.after, System.note, System.return_, flag, htask, queued] using hflag
      · simp [System.after, System.note, System.return_, htbl]
      · simp [System.after, System.note, System.return_, hnew]
    · refine ⟨.idle, ?_, ?_, ?_, hqueue, held_after h.thread hzero rfl (by simp), ?_, ?_, ?_⟩
      · simp [System.after, System.note, System.return_, hu, hurgent]
      · simp [System.after, System.note, System.return_, hi, hidle]
      · simp [System.after, System.note, System.return_, hc, htimed]
      · simpa [System.after, System.note, System.return_, flag, htask, queued] using hflag
      · simp [System.after, System.note, System.return_, htbl]
      · simp [System.after, System.note, System.return_, hnew]
    · refine ⟨.timed, ?_, ?_, ?_, hqueue, held_after h.thread hzero rfl (by simp), ?_, ?_, ?_⟩
      · simp [System.after, System.note, System.return_, hsched.urgent, hurgent]
      · simp [System.after, System.note, System.return_, hsched.idle, hidle]
      · simp [System.after, System.note, System.return_, hsched.timed.count_eq, htimed]
      · simp [System.after, System.note, System.return_, flag, hsched.task_self, scheduled]
      · simp [System.after, System.note, System.return_, hsched.tskTbl]
      · simp [System.after, System.note, System.return_, hnew]
  · cases hr
    refine ⟨.nowhere, h.keep hborn ?_ ?_⟩
    · exact ⟨hs₁.urgent, hs₁.idle, hs₁.timed, hs₁.queue, hs₁.flag, hs₁.fresh, hs₁.created⟩
    · have := h.thread th
      simpa [Frame.count, hheld] using this.symm

omit [DecidableEq θ] in
theorem submitFields_queues (t : ι) (initialDelay interval : Chrono) (s : System ι θ) :
    SameQueues t s { s with w := submitFields s.w t initialDelay interval } := by
  refine .modTask fun x => ?_
  split_ifs <;> rfl

theorem submitStep_placed {initialDelay interval : Chrono} {q : SubmitPoint}
    (h : Placed t p s) (hs : s.stack th = .submit t initialDelay interval q :: fs)
    (hok : q ≠ .check → s.w.tskTbl t = some .created)
    (hr : submitStep s th t initialDelay interval now q = some (s', gs)) :
    ∃ p', Placed t p' (s.after s' th now (gs ++ fs)) := by
  have hborn : (s.hist t).created = true := h.born (hs ▸ List.mem_cons_self) rfl
  have hheld : held t (s.stack th) = held t fs := by simp [hs, Frame.count]
  have hzero : q ≠ .check → held t fs = 0 := by
    intro hq
    have := h.thread th
    rw [h.fresh (hok hq), hheld] at this
    simpa using this
  cases q <;> simp only [submitStep] at hr
  case check =>
    split_ifs at hr <;> cases hr
    · exact ⟨p, h.keep hborn (.refl t s) (by simp [hheld, Frame.count])⟩
    all_goals exact ⟨p, h.keep hborn (.of_same (.return_ ..)) (by simp [hheld])⟩
  case lock =>
    split_ifs at hr
    exact submitLocked_placed h hborn (submitFields_queues ..) (hzero (by simp)) (hok (by simp))
      (Option.some.inj hr)
  case blocked =>
    exact submitLocked_placed h hborn (.refl t s) (hzero (by simp)) (hok (by simp))
      (Option.some.inj hr)

theorem doUnsched_placed (h : Placed t p s) (hborn : (s.hist t).created = true)
    (hheld : held t fs = held t (s.stack th)) :
    ∃ p', Placed t p' (s.after { s with w := doUnsched s.w t } th now fs) := by
  by_cases hf : s.w.flag t = true
  · obtain rfl := h.flag.mp hf
    have hu := doUnsched_unsched hf
    refine ⟨.nowhere, ?_, ?_, ?_, h.queue, held_after h.thread (hheld.trans (h.thread th)) rfl
      (by simp), ?_, fun _ => rfl, ?_⟩
    · simpa [System.after, hu.urgent] using h.urgent
    · simpa [System.after, hu.idle] using h.idle
    · have := h.timed
      simp_all [System.after, hu.timed]
    · simp only [System.after, flag, hu.task_self]
      split_ifs <;> simp
    · simp [System.after, hborn]
  · rw [doUnsched_of_not s.w hf]
    exact ⟨p, h.keep hborn (.refl t s) hheld⟩

theorem destroyStep_placed {unlock : Bool} {q : DestroyPoint} (h : Placed t p s)
    (hs : s.stack th = .destroy t unlock q :: fs)
    (hr : destroyStep s th t unlock q = some (s', gs)) :
    ∃ p', Placed t p' (s.after s' th now (gs ++ fs)) := by
  have hborn : (s.hist t).created = true := h.born (hs ▸ List.mem_cons_self) rfl
  have hheld : held t (s.stack th) = held t fs := by simp [hs, Frame.count]
  have hkeep : ∀ {s' : System ι θ} {gs : List (Frame ι)}, SameQueues t s s' → held t gs = 0 →
      ∃ p', Placed t p' (s.after s' th now (gs ++ fs)) :=
    fun hs' hgs => ⟨p, h.keep hborn hs' (by simp [hheld, hgs])⟩
  have hend : ∀ {s₁ : System ι θ}, SameQueues t s s₁ → destroyed s₁ unlock = (s', gs) →
      ∃ p', Placed t p' (s.after s' th now (gs ++ fs)) := by
    intro s₁ hs₁ hd
    obtain ⟨⟨o, rfl⟩, rfl⟩ := destroyed_eq hd
    exact hkeep (hs₁.trans (.of_same (.lck ..))) rfl
  have hdelete : SameQueues t s (deleteLocked s t).1 := by
    have hreset : ∀ s₁ : System ι θ, SameQueues t s₁ ((s₁.modTask t fun x =>
        { x with cancelRefCount := 0, execRefCount := 0 }).wakeupTask t) := fun s₁ =>
      ⟨rfl, rfl, rfl, fun _ => rfl, by simp [System.modTask, System.wakeupTask, flag], id, rfl⟩
    unfold deleteLocked
    refine SameQueues.trans ?_ (hreset _)
    split_ifs
    · exact ⟨rfl, rfl, rfl, fun _ => rfl, by simp [System.note, flag],
        by simp [System.note, deleteInTable, modTask], by simp [System.note]⟩
    · exact ⟨rfl, rfl, rfl, fun _ => rfl, by simp [System.note, flag],
        by simp [System.note, deleteInTable, modTask], by simp [System.note]⟩
    · exact .refl t s
  cases q <;> simp only [destroyStep] at hr
  case unsched =>
    split_ifs at hr
    cases hr
    exact doUnsched_placed h hborn (by simp [hheld, Frame.count])
  case setTable =>
    cases hr
    exact hkeep ⟨rfl, rfl, rfl, fun _ => rfl, rfl, by simp [setStateInTable], rfl⟩ rfl
  case check =>
    split_ifs at hr
    · cases hr
      exact hkeep (.refl t s) rfl
    · exact hend (.refl t s) (Option.some.inj hr)
  case delete =>
    generalize deleteLocked s t = d at hr hdelete
    obtain ⟨s₁, didDelete⟩ := d
    dsimp only at hr hdelete
    split_ifs at hr
    · cases hr
      exact hkeep hdelete rfl
    · exact hend hdelete (Option.some.inj hr)
  case free =>
    have hnote : SameQueues t s (s.note t fun h => { h with destroyed := true }) :=
      .note fun _ => rfl
    exact hend hnote (Option.some.inj hr)

theorem cancelStep_placed {q : CancelPoint} (h : Placed t p s)
    (hs : s.stack th = .cancel t q :: fs) (hr : cancelStep s th t q = some (s', gs)) :
    ∃ p', Placed t p' (s.after s' th now (gs ++ fs)) := by
  have hborn : (s.hist t).created = true := h.born (hs ▸ List.mem_cons_self) rfl
  have hheld : held t (s.stack th) = held t fs := by simp [hs, Frame.count]
  have hkeep : ∀ {s' : System ι θ} {gs : List (Frame ι)}, SameQueues t s s' → held t gs = 0 →
      ∃ p', Placed t p' (s.after s' th now (gs ++ fs)) :=
    fun hs' hgs => ⟨p, h.keep hborn hs' (by simp [hheld, hgs])⟩
  cases q <;> simp only [cancelStep] at hr
  case asleep => contradiction
  case count =>
    cases hr
    exact hkeep (.modTask fun _ => rfl) rfl
  case uncount =>
    cases hr
    exact hkeep (.modTask fun _ => rfl) (by split_ifs <;> rfl)
  case mark st =>
    have hflag : SameQueues t s (setCancelled s t) :=
      ⟨rfl, rfl, rfl, fun _ => rfl, by simp [setCancelled, System.note, flag],
        by simp [setCancelled, System.note, setState, setStateInTable, modTask],
        by simp [setCancelled, System.note]⟩
    split_ifs at hr <;> cases hr
    · exact hkeep (.note fun _ => rfl) rfl
    · exact hkeep hflag rfl
  all_goals
    split_ifs at hr <;> cases hr
    all_goals exact hkeep (.refl t s) rfl

omit [DecidableEq θ] in
theorem execBegin_queues (t : ι) (th : θ) (s : System ι θ) :
    SameQueues t s (execBegin s th t) :=
  ⟨rfl, rfl, rfl, fun _ => rfl, by simp [execBegin, System.note, flag],
    by simp [execBegin, System.note, setState, setStateInTable, modTask],
    by simp [execBegin, System.note]⟩

theorem execStep_placed {q : ExecPoint} (h : Placed t p s)
    (hs : s.stack th = .exec t q :: fs) (hr : execStep s th t now q = some (s', gs)) :
    ∃ p', Placed t p' (s.after s' th now (gs ++ fs)) := by
  have hborn : (s.hist t).created = true := h.born (hs ▸ List.mem_cons_self) rfl
  have hheld : held t (s.stack th) = (if q.holds then 1 else 0) + held t fs := by
    simp [hs, Frame.count]
  have hplace : q.holds = true → p = .thread th ∧ held t fs = 0 := by
    intro hq
    rw [if_pos hq] at hheld
    have hp := h.place (by rw [hheld]; omega)
    have := h.thread th
    rw [if_pos hp] at this
    exact ⟨hp, by omega⟩
  -- A step from a point that holds the task to one that does, or that does not.
  have hkeep : ∀ {s' : System ι θ} {gs : List (Frame ι)}, SameQueues t s s' →
      held t gs = (if q.holds then 1 else 0) → ∃ p', Placed t p' (s.after s' th now (gs ++ fs)) :=
    fun hs' hgs => ⟨p, h.keep hborn hs' (by simp [hheld, hgs])⟩
  have hdrop : ∀ {s' : System ι θ} {gs : List (Frame ι)}, SameQueues t s s' → q.holds = true →
      held t gs = 0 → ∃ p', Placed t p' (s.after s' th now (gs ++ fs)) := by
    intro s' gs hs' hq hgs
    obtain ⟨rfl, hzero⟩ := hplace hq
    exact ⟨.nowhere, h.drop hborn hs' (by simp [hgs, hzero])⟩
  have hother : ∀ st, held t (notTheDequeuedState t st) = 0 := by
    intro st
    unfold notTheDequeuedState
    split <;> simp [Frame.count, ExecPoint.holds]
  cases q <;> simp only [execStep] at hr
  case check =>
    split_ifs at hr <;> cases hr
    · exact hkeep (.refl t s) (by simp [Frame.count, ExecPoint.holds])
    · exact hdrop (.refl t s) rfl (hother _)
  case count =>
    cases hr
    split_ifs
    · exact hkeep (.modTask fun _ => rfl) (by simp [Frame.count, ExecPoint.holds])
    · exact hdrop (.modTask fun _ => rfl) rfl (by simp [Frame.count, ExecPoint.holds])
  case recheck =>
    split_ifs at hr <;> cases hr
    · exact hkeep (execBegin_queues t th s) (by simp [Frame.count, ExecPoint.holds])
    · exact hdrop (.refl t s) rfl (hother _)
  case body => contradiction
  case readCancel =>
    cases hr
    split_ifs
    · exact hkeep (.refl t s) (by simp [Frame.count, ExecPoint.holds])
    · exact hdrop (.refl t s) rfl (by simp [Frame.count, ExecPoint.holds])
  case readRepeat =>
    cases hr
    split_ifs
    · exact hkeep (.refl t s) (by simp [Frame.count, ExecPoint.holds])
    · exact hdrop (.refl t s) rfl (by simp [Frame.count, ExecPoint.holds])
  case resched =>
    split_ifs at hr
    obtain ⟨rfl, hzero⟩ := hplace rfl
    have hf : s.w.flag t = false := by simpa using h.flag
    obtain ⟨hsched, -⟩ := doSched_sched now hf
    unfold execResched at hr
    have hw : ∀ g : History → History, (s.note t g).w = s.w := fun _ => rfl
    simp only [hw] at hr
    generalize doSched s.w t now = d at hr hsched
    obtain ⟨w, next⟩ := d
    cases hr
    dsimp only at hsched
    refine ⟨.timed, ?_, ?_, ?_, h.queue, held_after (n := 0) h.thread ?_ rfl ?_, ?_, ?_, ?_⟩
    · simpa [System.after, System.note, hsched.urgent] using h.urgent
    · simpa [System.after, System.note, hsched.idle] using h.idle
    · have := h.timed
      simp_all [System.after, System.note, hsched.timed.count_eq]
    · split_ifs <;> simp [Frame.count, ExecPoint.holds, hzero]
    · intro th' hth
      simp [hth.symm]
    · simp [System.after, System.note, flag, hsched.task_self, scheduled]
    · simp [System.after, System.note, hsched.tskTbl]
    · simp [System.after, System.note, hborn]
  case leave =>
    cases hr
    exact hkeep (.modTask fun _ => rfl) rfl
  case readCancelDelete =>
    cases hr
    refine hkeep (.refl t s) ?_
    by_cases hc : (s.w.task t).cancelRefCount = 0 <;> simp [Frame.count, ExecPoint.holds, hc]
  case leaveDelete =>
    cases hr
    exact hkeep (.modTask fun _ => rfl) (by simp [Frame.count, ExecPoint.holds])
  case lockDelete =>
    split_ifs at hr
    cases hr
    exact hkeep (.of_same (.lck ..)) rfl
  case wakeup =>
    split_ifs at hr
    cases hr
    refine hkeep ⟨rfl, rfl, rfl, fun _ => rfl, ?_, id, rfl⟩ rfl
    simp [System.wakeupTask, addExec, System.modTask, flag]

/-- A return of the task's procedure. -/
theorem execEnd_placed {ret : Result} (h : Placed t p s) (hs : s.stack th = .exec t .body :: fs)
    (hr : execEnd s t ret = (s', gs)) : ∃ p', Placed t p' (s.after s' th now (gs ++ fs)) := by
  have hborn : (s.hist t).created = true := h.born (hs ▸ List.mem_cons_self) rfl
  have hheld : held t (s.stack th) = 1 + held t fs := by
    simp [hs, Frame.count, ExecPoint.holds]
  unfold execEnd at hr
  split_ifs at hr <;> cases hr
  · exact ⟨p, h.keep hborn ⟨rfl, rfl, rfl, fun _ => rfl, rfl, id, rfl⟩
      (by simp [hheld, Frame.count, ExecPoint.holds])⟩
  · obtain rfl := h.place (by rw [hheld]; omega)
    have hzero : held t fs = 0 := by
      have := h.thread th
      rw [if_pos rfl] at this
      omega
    refine ⟨.nowhere, h.drop hborn ⟨rfl, rfl, rfl, fun _ => rfl, by simp [flag], ?_, rfl⟩ ?_⟩
    · simp [setState, setStateInTable, modTask]
    · simp [Frame.count, ExecPoint.holds, hzero]

omit [DecidableEq θ] in
theorem held_finalTaskSched (s : System ι θ) (start : Chrono) (tasks : List ι) :
    (finalTaskSched s start tasks).count t = tasks.count t := by
  unfold finalTaskSched
  split_ifs <;> simp [Frame.count]

theorem forceStep_placed {q : ForcePoint} (h : Placed t p s)
    (hs : s.stack th = .force t q :: fs) (hr : forceStep s th t now q = some (s', gs)) :
    ∃ p', Placed t p' (s.after s' th now (gs ++ fs)) := by
  have hborn : (s.hist t).created = true := h.born (hs ▸ List.mem_cons_self) rfl
  cases q <;> simp only [forceStep] at hr
  case check =>
    have hheld : held t (s.stack th) = held t fs := by simp [hs, Frame.count]
    split_ifs at hr <;> cases hr
    · exact ⟨p, h.keep hborn (.refl t s) (by simp [hheld, Frame.count])⟩
    · exact ⟨p, h.keep hborn (.of_same (.return_ ..)) (by simp [hheld])⟩
  case lock =>
    have hheld : held t (s.stack th) = held t fs := by simp [hs, Frame.count]
    split_ifs at hr with hl hst hexec hcan hq <;> cases hr
    · have hf : s.w.flag t = true := hq
      obtain rfl := h.flag.mp hf
      have hu := doUnsched_unsched hf
      have hzero : held t fs = 0 := by
        rw [← hheld]
        simpa using h.thread th
      refine ⟨.thread th, ?_, ?_, ?_, ?_, held_after h.thread rfl ?_ ?_, ?_, ?_, ?_⟩
      · simpa [System.after, setState, setStateInTable, modTask, hu.urgent] using h.urgent
      · simpa [System.after, setState, setStateInTable, modTask, hu.idle] using h.idle
      · have := h.timed
        simp_all [System.after, hu.timed]
      · intro i
        simpa [System.after] using h.queue i
      · simp [Frame.count, hzero]
      · intro th' hth
        simp [hth.symm]
      · simp only [System.after, flag, setState_task_self, hu.task_self]
        split_ifs <;> simp
      · simp [System.after, setState, setStateInTable, modTask]
      · simp [System.after, hborn]
    all_goals exact ⟨p, h.keep hborn (.of_same (.return_ ..)) (by simp [hheld])⟩
  case run =>
    cases hr
    refine ⟨p, h.keep hborn (.of_same (.return_ ..)) ?_⟩
    rw [hs, List.singleton_append, held_cons, held_cons, held_finalTaskSched]
    simp [Frame.count]

end Own

/-! ## Steps of the main loop and the workers -/

section Batches

theorem count_take_add_drop (t : ι) (n : Nat) (l : List ι) :
    (l.take n).count t + (l.drop n).count t = l.count t := by
  rw [← List.count_append, List.take_append_drop]

/-- The calls below a call are not about a task that is not yet created. -/
theorem Placed.unborn_rest (h : Placed t p s) (hs : s.stack th = f :: fs) {g : Frame ι}
    (hc : (s.hist t).created = false) (hg : g ∈ fs) : g.about ≠ some t :=
  (h.unborn hc).2.2 th g (hs ▸ List.mem_cons_of_mem _ hg)

/-- A task that is not in the hands of the thread is not touched by a step of it. -/
theorem Placed.pass (h : Placed t p s) (hs : s.stack th = f :: fs) (hsame : SameQueues t s s')
    (htbl : s'.w.tskTbl t = s.w.tskTbl t) (hheld : held t gs = f.count t)
    (hgs : (s.hist t).created = false → ∀ g ∈ gs, g.about ≠ some t) :
    Placed t p (s.after s' th now (gs ++ fs)) := by
  refine h.stay hsame (by simp [hs, hheld]) fun hc => ⟨htbl.trans (h.unborn hc).2.1, fun g hg => ?_⟩
  rcases List.mem_append.mp hg with hg | hg
  · exact hgs hc g hg
  · exact h.unborn_rest hs hc hg

theorem fetchStep_placed {start : Chrono} (h : Placed t p s)
    (hs : s.stack th = .fetch start :: fs) (hr : fetchStep s start = some (s', gs)) :
    ∃ p', Placed t p' (s.after s' th now (gs ++ fs)) := by
  unfold fetchStep at hr
  split_ifs at hr
  cases hr
  have hheld : held t (s.stack th) = held t fs := by simp [hs, Frame.count]
  have hu := count_take_add_drop t calloutTaskMax s.w.urgentTskQ
  have hi := count_take_add_drop t calloutTaskMax s.w.idleTskQ
  by_cases hmoved : (s.w.urgentTskQ.take calloutTaskMax).count t +
      (s.w.idleTskQ.take calloutTaskMax).count t = 0
  · refine ⟨p, h.pass hs ⟨?_, ?_, rfl, fun _ => rfl, rfl, id, rfl⟩ rfl ?_ ?_⟩
    · show (s.w.urgentTskQ.drop calloutTaskMax).count t = _
      omega
    · show (s.w.idleTskQ.drop calloutTaskMax).count t = _
      omega
    · simpa [Frame.count] using hmoved
    · simp [Frame.about]
  · rw [h.urgent] at hu
    rw [h.idle] at hi
    have hplace : p = .urgent ∨ p = .idle := by
      by_contra hne
      rw [not_or] at hne
      rw [if_neg hne.1] at hu
      rw [if_neg hne.2] at hi
      omega
    have hone : (s.w.urgentTskQ.take calloutTaskMax).count t +
        (s.w.idleTskQ.take calloutTaskMax).count t = 1 ∧
        (s.w.urgentTskQ.drop calloutTaskMax).count t = 0 ∧
        (s.w.idleTskQ.drop calloutTaskMax).count t = 0 := by
      rcases hplace with rfl | rfl <;> simp only [if_true, reduceCtorEq, if_false] at hu hi <;>
        omega
    have hp : p ≠ .nowhere ∧ p ≠ .timed ∧ (∀ i, p ≠ .queue i) ∧ ∀ th', p ≠ .thread th' := by
      rcases hplace with rfl | rfl <;> simp
    have hzero : held t fs = 0 := by rw [← hheld, h.thread, if_neg (hp.2.2.2 th)]
    refine ⟨.thread th, h.take hp.1 hp.2.2.2 hone.2.1 hone.2.2 ?_ (fun i => ?_) ?_
      (fun hc => hp.1 (h.fresh hc)) rfl ?_⟩
    · exact h.timed.trans (if_neg hp.2.1)
    · exact (h.queue i).trans (if_neg (hp.2.2.1 i))
    · have := h.flag
      simpa [hp.2.1] using this
    · simp [Frame.count, hone.1, hzero]

omit [DecidableEq θ] in
theorem held_runBatch (s : System ι θ) (start : Chrono) (tasks : List ι) :
    held t (fetchTimedStep.runBatch start s tasks) = tasks.count t := by
  unfold fetchTimedStep.runBatch
  split_ifs with he
  · simp [he]
  · simp [held_finalTaskSched]

omit [DecidableEq ι] [DecidableEq θ] in
theorem about_runBatch (s : System ι θ) (start : Chrono) (tasks : List ι) :
    ∀ g ∈ fetchTimedStep.runBatch start s tasks, g.about ≠ some t := by
  unfold fetchTimedStep.runBatch finalTaskSched
  split_ifs <;> simp [Frame.about]

theorem fetchTimedStep_placed {start : Chrono} {urgentTasks idleTasks : List ι}
    (h : Placed t p s) (hs : s.stack th = .fetchTimed start urgentTasks idleTasks :: fs)
    (hr : fetchTimedStep s start urgentTasks idleTasks = some (s', gs)) :
    ∃ p', Placed t p' (s.after s' th now (gs ++ fs)) := by
  unfold fetchTimedStep at hr
  have hone : s.w.chronoTskQ.count t ≤ 1 := by
    rw [h.timed]
    split_ifs <;> omega
  split_ifs at hr
  · have htaken := takeRunnables_taken t (i64 (start + calloutTaskSchedJitter)) calloutTaskMax s.w
      hone
    rw [getRunnables_eq] at hr
    generalize takeRunnables (i64 (start + calloutTaskSchedJitter)) calloutTaskMax s.w = d
      at hr htaken
    obtain ⟨w, tasks⟩ := d
    dsimp only at hr htaken
    split_ifs at hr
    cases hr
    rcases htaken with ⟨hsame, hnot⟩ | ⟨-, htask, htbl, hurgent, hidle, htimed, hmem⟩
    · have hmem : t ∉ tasks := List.count_eq_zero.mp hnot
      refine ⟨p, h.pass hs ⟨hsame.urgent, hsame.idle, hsame.timed, fun _ => rfl,
        congrArg Task.isInTimedQ hsame.task, fun hf => ?_, by simp [hmem]⟩ hsame.tskTbl ?_ ?_⟩
      · exact hsame.tskTbl ▸ hf
      · rw [held_runBatch]
        simp [Frame.count, hnot]
      · exact fun _ => about_runBatch _ _ _
    · obtain rfl : p = .timed := by
        by_contra hne
        rw [h.timed, if_neg hne] at htimed
        omega
      have hzero : held t (s.stack th) = 0 := by rw [h.thread, if_neg (by simp)]
      rw [hs, held_cons] at hzero
      have hcount := h.timed
      rw [if_pos rfl] at hcount
      refine ⟨.thread th, h.take (by simp) (by simp) (hurgent.trans h.urgent)
        (hidle.trans h.idle) ?_ h.queue ?_ ?_ ?_ ?_⟩
      · show w.chronoTskQ.count t = 0
        omega
      · simp [flag, htask, takenOut]
      · simp [htbl]
      · dsimp only
        split_ifs <;> rfl
      · rw [held_append, held_runBatch, List.count_append, List.count_append]
        simp only [Frame.count] at hzero
        omega
  · cases hr
    refine ⟨p, h.pass hs (.refl t s) rfl ?_ fun _ => about_runBatch _ _ _⟩
    rw [held_runBatch]
    simp [Frame.count]

omit [DecidableEq θ] in
/-- The stamp of a batch. -/
theorem stampTask_queues (e : ι) (start : Chrono) (s : System ι θ) :
    SameQueues t s { s with w := stampTask s.w e start } := by
  by_cases he : e = t
  · subst he
    unfold stampTask
    split_ifs
    · exact ⟨rfl, rfl, rfl, fun _ => rfl, by simp [flag],
        by simp [modTask, setState, setStateInTable], rfl⟩
    · exact ⟨rfl, rfl, rfl, fun _ => rfl, by simp [flag], id, rfl⟩
  · exact .of_same (.world (.stampTask he _ _))

omit [DecidableEq θ] in
theorem stampTask_tskTbl {e : ι} {start : Chrono} (he : e ≠ t) :
    (stampTask s.w e start).tskTbl t = s.w.tskTbl t := (SameTask.stampTask he s.w start).tskTbl

/-- A thread that has a task in its hands has one that is created. -/
theorem Placed.born_of_count (h : Placed t p s) (hs : s.stack th = f :: fs) (hc : 0 < f.count t) :
    (s.hist t).created = true := by
  refine h.born_of_place fun hp => ?_
  have := h.thread th
  rw [hs, held_cons, hp] at this
  simp only [reduceCtorEq, if_false] at this
  omega

/-- The task is in the hands of the running call, and of no other. -/
theorem Placed.hands (h : Placed t p s) (hs : s.stack th = f :: fs) (hc : 0 < f.count t) :
    p = .thread th ∧ held t fs = 0 ∧ ∀ th', th' ≠ th → held t (s.stack th') = 0 := by
  have hpos : 0 < held t (s.stack th) := by
    rw [hs, held_cons]
    omega
  obtain rfl := h.place hpos
  have hone := h.thread th
  rw [hs, held_cons, if_pos rfl] at hone
  refine ⟨rfl, by omega, fun th' hth => ?_⟩
  rw [h.thread th', if_neg]
  simpa using hth.symm

theorem runTasksBySelfStep_placed {start : Chrono} {tasks : List ι} (h : Placed t p s)
    (hs : s.stack th = .runTasksBySelf start tasks :: fs)
    (hr : runTasksBySelfStep s th start tasks = some (s', gs)) :
    ∃ p', Placed t p' (s.after s' th now (gs ++ fs)) := by
  cases tasks with
  | nil =>
    cases hr
    exact ⟨p, h.pass hs (.refl t s) rfl (by simp [Frame.count]) (by simp)⟩
  | cons e tasks =>
    simp only [runTasksBySelfStep] at hr
    split_ifs at hr
    cases hr
    by_cases he : e = t
    · subst he
      refine ⟨p, h.keep (h.born_of_count hs (by simp [Frame.count])) (stampTask_queues ..) ?_⟩
      simp [hs, Frame.count, ExecPoint.holds]
      omega
    · exact ⟨p, h.pass hs (stampTask_queues ..) (stampTask_tskTbl he)
        (by simp [Frame.count, he]) (by simp [Frame.about, he])⟩

theorem stampStep_placed {start : Chrono} {todo stamped : List ι} (h : Placed t p s)
    (hs : s.stack th = .stamp start todo stamped :: fs)
    (hr : stampStep s th start stamped todo = some (s', gs)) :
    ∃ p', Placed t p' (s.after s' th now (gs ++ fs)) := by
  cases todo with
  | nil =>
    cases hr
    exact ⟨p, h.pass hs (.refl t s) rfl (by simp [Frame.count]) (by simp [Frame.about])⟩
  | cons e todo =>
    simp only [stampStep] at hr
    split_ifs at hr
    cases hr
    by_cases he : e = t
    · subst he
      have hpos : 0 < (Frame.stamp start (e :: todo) stamped).count e := by
        simp only [Frame.count, List.count_cons_self]
        omega
      refine ⟨p, h.keep (h.born_of_count hs hpos) (stampTask_queues ..) ?_⟩
      simp [hs, Frame.count]
      omega
    · exact ⟨p, h.pass hs (stampTask_queues ..) (stampTask_tskTbl he)
        (by simp [Frame.count, he]) (by simp [Frame.about])⟩

theorem workerStep_placed {tasks : List ι} (h : Placed t p s)
    (hs : s.stack th = .worker tasks :: fs) (hr : workerStep s tasks = some (s', gs)) :
    ∃ p', Placed t p' (s.after s' th now (gs ++ fs)) := by
  cases tasks with
  | nil =>
    cases hr
    exact ⟨p, h.pass hs (.refl t s) rfl (by simp [Frame.count]) (by simp)⟩
  | cons e tasks =>
    cases hr
    by_cases he : e = t
    · subst he
      refine ⟨p, h.keep (h.born_of_count hs (by simp [Frame.count])) (.refl _ s) ?_⟩
      simp [hs, Frame.count, ExecPoint.holds]
      omega
    · exact ⟨p, h.pass hs (.refl t s) rfl (by simp [Frame.count, he]) (by simp [Frame.about, he])⟩

theorem putStep_placed {stride q left : Nat} {tasks : List ι} (h : Placed t p s)
    (hs : s.stack th = .put stride q left tasks :: fs)
    (hr : putStep s stride q left tasks = some (s', gs)) :
    ∃ p', Placed t p' (s.after s' th now (gs ++ fs)) := by
  unfold putStep at hr
  split_ifs at hr with hnil hleft
  · cases hr
    exact ⟨p, h.pass hs (.refl t s) rfl (by simp [Frame.count, hnil]) (by simp)⟩
  · cases hr
    exact ⟨p, h.pass hs (.refl t s) rfl (by simp [Frame.count]) (by simp [Frame.about])⟩
  · split at hr
    · contradiction
    · rename_i i hi
      dsimp only at hr
      generalize hn : min left (calloutTaskMax - (s.qs i).length) = n at hr
      have hsplit := count_take_add_drop t n tasks
      have hs' : n ≠ 0 → ∀ lastQ,
          ∃ p', Placed t p' (s.after
            { s with qs := Function.update s.qs i (s.qs i ++ tasks.take n), lastQ } th now
            ([.put stride q (left - n) (tasks.drop n)] ++ fs)) := by
        intro hz lastQ
        by_cases hmoved : (tasks.take n).count t = 0
        · refine ⟨p, h.pass hs ⟨rfl, rfl, rfl, fun j => ?_, rfl, id, rfl⟩ rfl ?_
            (by simp [Frame.about])⟩
          · by_cases hj : j = i
            · subst hj
              simp [hmoved]
            · simp [hj]
          · simp only [held_cons, held_nil, Frame.count]
            omega
        · have hpos : 0 < held t (s.stack th) := by
            rw [hs, held_cons]
            simp only [Frame.count]
            omega
          obtain rfl := h.place hpos
          have hborn := h.born_of_place (by simp)
          have hone := h.thread th
          rw [hs, held_cons, if_pos rfl] at hone
          simp only [Frame.count] at hone
          refine ⟨.queue i, h.urgent, h.idle, h.timed, fun j => ?_, held_after (n := 0) h.thread ?_
            rfl ?_, ?_, fun hf => ?_, fun hc => absurd (hc.symm.trans hborn) Bool.false_ne_true⟩
          · have hq := h.queue j
            by_cases hj : j = i
            · subst hj
              simp [System.after] at hq ⊢
              omega
            · simpa [System.after, hj, Ne.symm hj] using hq
          · simp only [List.singleton_append, held_cons, Frame.count]
            omega
          · intro th' hth
            simp [hth.symm]
          · have := h.flag
            simpa [System.after] using this
          · have := h.fresh hf
            contradiction
      split_ifs at hr with hz <;> cases hr
      · exact hs' hz _
      · exact hs' hz s.lastQ

end Batches

/-! ## All steps -/

/-- The call that an event is a step of. -/
def running (s : System ι θ) (e : Event ι θ) : Option (Frame ι) :=
  match e.act with
  | .go => (s.stack e.thread).head?
  | _ => none

/-- The next step of the call is the effect of a submission of `t`. -/
def Frame.submits (t : ι) : Frame ι → Bool
  | .submit e _ _ q => e = t && q ≠ .check
  | _ => false

/-- A submission of `t` takes effect in the state `CREATED` only. -/
def submitsOnce (t : ι) (s : System ι θ) (e : Event ι θ) : Prop :=
  ∀ f ∈ running s e, f.submits t = true → s.w.tskTbl t = some .created

/-- A call about another task has no hand on the task. -/
theorem Frame.count_foreign {e : ι} (ha : f.about = some e) (he : e ≠ t) : f.count t = 0 := by
  cases f <;> simp only [Frame.about, Option.some.injEq, reduceCtorEq] at ha <;> subst ha <;>
    simp only [Frame.count, he, false_and, if_false]
  rename_i q
  cases q <;> simp [he]

/-- A step of a call about another task leaves the task where it is. -/
theorem Placed.foreign {e : ι} (h : Placed t p s) (hs : s.stack th = f :: fs)
    (ha : f.about = some e) (he : e ≠ t) (hr : Foreign t s (s', gs)) :
    Placed t p (s.after s' th now (gs ++ fs)) := by
  refine h.pass hs (.of_same hr.same) hr.same.w.tskTbl ?_ fun _ => hr.about
  rw [Frame.count_foreign ha he]
  exact held_eq_zero hr.count

/-- A step of the running call. -/
theorem frameStep_placed (h : Placed t p s) (hs : s.stack th = f :: fs)
    (hok : f.submits t = true → s.w.tskTbl t = some .created)
    (hr : frameStep s th now f = some (s', gs)) :
    ∃ p', Placed t p' (s.after s' th now (gs ++ fs)) := by
  cases ha : f.about with
  | some e =>
    by_cases he : e = t
    · subst he
      cases f <;> simp only [Frame.about, Option.some.injEq, reduceCtorEq] at ha <;> subst ha
      · exact submitStep_placed h hs (fun hq => hok (by simpa [Frame.submits] using hq)) hr
      · exact cancelStep_placed h hs hr
      · exact execStep_placed h hs hr
      · exact destroyStep_placed h hs hr
      · exact forceStep_placed h hs hr
    · exact ⟨p, h.foreign hs ha he (frameStep_foreign ha he hr)⟩
  | none =>
    cases f <;> simp only [Frame.about, reduceCtorEq] at ha
    · exact fetchStep_placed h hs hr
    · exact fetchTimedStep_placed h hs hr
    · exact runTasksBySelfStep_placed h hs hr
    · exact stampStep_placed h hs hr
    · exact putStep_placed h hs hr
    · exact workerStep_placed h hs hr

theorem resetInterval_queues {e : ι} {interval : Chrono}
    (h : resetInterval s th e interval = some s') :
    SameQueues t s s' ∧ s'.w.tskTbl t = s.w.tskTbl t := by
  by_cases he : e = t
  · subst he
    unfold resetInterval at h
    split_ifs at h <;> cases h
    · have hmod : SameQueues e s (s.modTask e fun x => { x with intervalTime := interval }) :=
        .modTask fun _ => rfl
      exact ⟨hmod.trans (.of_same (.return_ ..)), rfl⟩
    · exact ⟨.of_same (.return_ ..), rfl⟩
    · exact ⟨.of_same (.return_ ..), rfl⟩
  · have hsame := resetInterval_foreign he h
    exact ⟨.of_same hsame, hsame.w.tskTbl⟩

/-- The beginning of a call. -/
theorem callStep_placed {op : Op ι} (h : Placed t p s)
    (hr : callStep s th now op = some (s', gs)) :
    ∃ p', Placed t p' (s.after s' th now (gs ++ s.stack th)) := by
  have hcall : ∀ {e : ι} {g : Frame ι}, (s.hist e).created = true → g.about = some e →
      g.count t = 0 → ∃ p', Placed t p' (s.after s th now ([g] ++ s.stack th)) := by
    intro e g hborn hg hcount
    refine ⟨p, h.stay (.refl t s) (by simp [hcount]) fun hc => ⟨(h.unborn hc).2.1, ?_⟩⟩
    intro f hf
    rcases List.mem_cons.mp hf with rfl | hf
    · rw [hg]
      rintro ⟨⟩
      rw [hc] at hborn
      contradiction
    · exact (h.unborn hc).2.2 th f hf
  cases op <;> simp only [callStep] at hr
  case create e hasArg hasFreeproc =>
    obtain ⟨s₁, hcreate, heq⟩ := Option.map_eq_some_iff.mp hr
    cases heq
    by_cases he : e = t
    · subst he
      unfold createTask at hcreate
      split_ifs at hcreate with hnew
      cases hcreate
      obtain ⟨rfl, -, -⟩ := h.unborn hnew.2
      refine ⟨.nowhere, h.urgent, h.idle, h.timed, h.queue,
        held_after h.thread (h.thread th) rfl fun _ _ => Iff.rfl, ?_, fun _ => rfl, ?_⟩
      · simp [System.after, System.note, flag, setStateInTable, modTask, newTask]
      · simp [System.after, System.note]
    · have hsame := createTask_foreign he hcreate
      exact ⟨p, h.stay (.of_same hsame) rfl fun hc =>
        ⟨hsame.w.tskTbl.trans (h.unborn hc).2.1, (h.unborn hc).2.2 th⟩⟩
  case submit e initialDelay interval =>
    split_ifs at hr with hborn
    cases hr
    exact hcall hborn rfl rfl
  case cancel e =>
    split_ifs at hr with hborn
    cases hr
    exact hcall hborn rfl rfl
  case force e =>
    split_ifs at hr with hborn
    cases hr
    exact hcall hborn rfl rfl
  case resetInterval e interval =>
    split_ifs at hr with hborn
    rw [Option.map_eq_some_iff] at hr
    obtain ⟨s₁, hreset, heq⟩ := hr
    cases heq
    obtain ⟨hq, htbl⟩ := resetInterval_queues (t := t) hreset
    exact ⟨p, h.stay hq rfl fun hc => ⟨htbl.trans (h.unborn hc).2.1, (h.unborn hc).2.2 th⟩⟩
  case iterate =>
    split_ifs at hr with hmain
    cases hr
    refine ⟨p, h.stay (.refl t s) (by simp [Frame.count]) fun hc => ⟨(h.unborn hc).2.1, ?_⟩⟩
    intro f hf
    rw [hmain.2] at hf
    simp only [List.append_nil, List.mem_singleton] at hf
    subst hf
    simp [Frame.about]
  case work =>
    split_ifs at hr with hworker
    cases hr
    have hq := count_take_add_drop t calloutTaskMax (s.qs th)
    by_cases hmoved : ((s.qs th).take calloutTaskMax).count t = 0
    · refine ⟨p, h.stay ⟨rfl, rfl, rfl, fun i => ?_, rfl, id, rfl⟩ (by simp [Frame.count, hmoved])
        fun hc => ⟨(h.unborn hc).2.1, fun f hf => ?_⟩⟩
      · by_cases hi : i = th
        · subst hi
          simp only [Function.update_self]
          omega
        · simp [hi]
      · rw [hworker.2] at hf
        simp only [List.append_nil, List.mem_singleton] at hf
        subst hf
        simp [Frame.about]
    · obtain rfl : p = .queue th := by
        by_contra hne
        have := h.queue th
        rw [if_neg hne] at this
        omega
      have hone := h.queue th
      rw [if_pos rfl] at hone
      refine ⟨.thread th, h.take (by simp) (by simp) h.urgent h.idle h.timed (fun i => ?_) ?_
        (fun hf => by have := h.fresh hf; contradiction) rfl ?_⟩
      · by_cases hi : i = th
        · subst hi
          simp only [Function.update_self]
          omega
        · have := h.queue i
          simpa [hi, Ne.symm hi] using this
      · simpa using h.flag
      · rw [hworker.2]
        simp only [List.append_nil, held_cons, held_nil, Frame.count]
        omega

/-- **One place.** A step keeps a task in one place. -/
theorem Placed.step {e : Event ι θ} (h : Placed t p s) (hok : submitsOnce t s e)
    (hstep : step s e = some s') : ∃ p', Placed t p' s' := by
  cases step_cases hstep with
  | call hact hr => exact callStep_placed h hr
  | go hact hs hr =>
    rename_i f fs gs s₁
    exact frameStep_placed h hs (hok f (by simp [running, hact, hs])) hr
  | finish hact hs =>
    rename_i t' r fs
    by_cases he : t' = t
    · subst he
      exact execEnd_placed h hs rfl
    · exact ⟨p, h.foreign hs rfl he (execEnd_foreign he r)⟩
  | wake hact hs hwoken =>
    rename_i spurious t' since fs
    refine ⟨p, h.pass hs (.refl t s) rfl rfl fun hc g hg => ?_⟩
    rw [List.mem_singleton.mp hg]
    exact (h.unborn hc).2.2 e.thread (.cancel t' (.asleep since)) (hs ▸ List.mem_cons_self)

/-- At the start a task is nowhere. -/
theorem Placed.init (t : ι) (clock : Chrono) (mainLoop : θ) (workers : List θ) :
    Placed t .nowhere (System.init clock mainLoop workers : System ι θ) :=
  ⟨rfl, rfl, rfl, fun _ => rfl, fun _ => rfl, by simp [System.init, newTask], nofun,
    fun _ => ⟨rfl, rfl, fun _ _ hf => absurd hf List.not_mem_nil⟩⟩

end Callout
end Gallus
