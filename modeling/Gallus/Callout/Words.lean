import Gallus.Callout.Wakeup
import Gallus.Callout.Repeat

/-!
# The state words of a task and its place

At each place of its round a task has to be in a state in which the next party goes on with it. The
states are written by the parties and by the cancellers, the latter from outside.

* `Keeps`: what a step that has no hand on the task does to the state words.
* `Fit t s`: the state words of the task fit the place where it is.
* `Fit.step`: each step but a deletion keeps this.
-/

namespace Gallus
namespace Callout

variable {ι θ : Type}

/-! ## State words -/

/-- An executor will run the task, or destroy it. -/
def Ready (t : ι) (w : Callout ι) : Prop :=
  w.tskTbl t = some .dequeued ∨ w.tskTbl t = some .cancelled

/-- The stamp makes the task ready, or leaves it so. -/
def Stampable (t : ι) (w : Callout ι) : Prop := (w.task t).status = .enqueued ∨ Ready t w

/-- The state words are left alone, or the task is `DEQUEUED` then. -/
def Dequeues (t : ι) (w w' : Callout ι) : Prop :=
  w'.tskTbl t = w.tskTbl t ∧ (w'.task t).status = (w.task t).status ∨
    w'.tskTbl t = some .dequeued ∧ (w'.task t).status = .dequeued

/-- What fits before a step fits after it. -/
structure Keeps (t : ι) (w w' : Callout ι) : Prop where
  ready : Ready t w → Ready t w'
  stampable : Stampable t w → Stampable t w'

variable {t e : ι} {w w' w₁ : Callout ι}

namespace Dequeues

theorem refl (t : ι) (w : Callout ι) : Dequeues t w w := .inl ⟨rfl, rfl⟩

theorem trans (h : Dequeues t w w₁) (h' : Dequeues t w₁ w') : Dequeues t w w' := by
  rcases h' with ⟨htbl', hstatus'⟩ | h'
  · rcases h with ⟨htbl, hstatus⟩ | ⟨htbl, hstatus⟩
    · exact .inl ⟨htbl'.trans htbl, hstatus'.trans hstatus⟩
    · exact .inr ⟨htbl'.trans htbl, hstatus'.trans hstatus⟩
  · exact .inr h'

theorem keeps (h : Dequeues t w w') : Keeps t w w' := by
  rcases h with ⟨htbl, hstatus⟩ | ⟨htbl, -⟩
  · refine ⟨?_, ?_⟩
    · unfold Ready
      rw [htbl]
      exact id
    · unfold Stampable Ready
      rw [htbl, hstatus]
      exact id
  · exact ⟨fun _ => .inl htbl, fun _ => .inr (.inl htbl)⟩

variable [DecidableEq ι]

theorem of_same (h : SameTask t w w') : Dequeues t w w' := .inl ⟨h.tskTbl, by rw [h.task]⟩

theorem takeHead_self (t : ι) (w : Callout ι) :
    (takeHead w t).tskTbl t = some .dequeued ∧ ((takeHead w t).task t).status = .dequeued := by
  unfold takeHead
  exact ⟨by simp [setState, setStateInTable, modTask], by simp⟩

theorem takeHead (t e : ι) (w : Callout ι) : Dequeues t w (takeHead w e) := by
  by_cases he : e = t
  · subst he
    exact .inr (takeHead_self e w)
  · exact of_same (.takeHead he w)

theorem takeRunnables (t : ι) (theAbstime : Chrono) (n : Nat) (w : Callout ι) :
    Dequeues t w (takeRunnables theAbstime n w).1 := by
  induction n generalizing w with
  | zero => exact refl t w
  | succ n ih =>
    unfold Callout.takeRunnables
    split
    · exact refl t w
    · rename_i e q _
      split_ifs
      · exact (takeHead t e w).trans (ih _)
      · exact refl t w

theorem stampTask (t e : ι) (w : Callout ι) (start : Chrono) :
    Dequeues t w (stampTask w e start) := by
  by_cases he : e = t
  · subst he
    unfold Callout.stampTask
    split_ifs
    · exact .inr ⟨by simp [setState, setStateInTable, modTask], by simp⟩
    · exact .inl ⟨rfl, by simp⟩
  · exact of_same (.stampTask he w start)

theorem doUnsched (t : ι) (w : Callout ι) : Dequeues t w (doUnsched w t) := by
  by_cases hf : w.flag t = true
  · have hs := doUnsched_unsched hf
    by_cases hst : (w.task t).status = .enqueued
    · exact .inr ⟨by rw [hs.tskTbl_self, if_pos hst], by rw [hs.task_self, if_pos hst]⟩
    · exact .inl ⟨by rw [hs.tskTbl_self, if_neg hst], by rw [hs.task_self, if_neg hst]⟩
  · rw [doUnsched_of_not w hf]
    exact refl t w

end Dequeues

namespace Keeps

theorem refl (t : ι) (w : Callout ι) : Keeps t w w := ⟨id, id⟩

theorem trans (h : Keeps t w w₁) (h' : Keeps t w₁ w') : Keeps t w w' :=
  ⟨h'.ready ∘ h.ready, h'.stampable ∘ h.stampable⟩

/-- The task is ready after the step. -/
theorem of_ready (h : Ready t w') : Keeps t w w' := ⟨fun _ => h, fun _ => .inr h⟩

theorem of_same (htbl : w'.tskTbl t = w.tskTbl t)
    (hstatus : (w'.task t).status = (w.task t).status) : Keeps t w w' :=
  Dequeues.keeps (.inl ⟨htbl, hstatus⟩)

end Keeps

variable [DecidableEq ι] [DecidableEq θ]

/-- The stamp of a task that fits the batch. -/
theorem Stampable.stamp (h : Stampable t w) (start : Chrono) : Ready t (stampTask w t start) := by
  unfold stampTask
  split_ifs with hst
  · exact .inl (by simp [setState, setStateInTable, modTask])
  · rcases h with hq | hready
    · exact absurd (.inl hq) hst
    · exact hready

/-- A task that the scheduler takes out of the timed queue. -/
theorem takeRunnables_ready (t : ι) (theAbstime : Chrono) (n : Nat) (w : Callout ι)
    (h : t ∈ (takeRunnables theAbstime n w).2) : Ready t (takeRunnables theAbstime n w).1 := by
  induction n generalizing w with
  | zero => exact absurd h List.not_mem_nil
  | succ n ih =>
    unfold takeRunnables at h ⊢
    split at h
    · exact absurd h List.not_mem_nil
    · rename_i e q hq
      split_ifs at h ⊢ with hdue
      · rcases List.mem_cons.mp h with rfl | h
        · exact (Dequeues.takeRunnables t theAbstime n _).keeps.ready
            (.inl (Dequeues.takeHead_self t w).1)
        · exact ih _ h
      · exact absurd h List.not_mem_nil

/-- A task that the scheduler does not take. -/
theorem takeRunnables_same (t : ι) (theAbstime : Chrono) (n : Nat) (w : Callout ι)
    (h : t ∉ (takeRunnables theAbstime n w).2) :
    SameTask t w (takeRunnables theAbstime n w).1 := by
  induction n generalizing w with
  | zero => exact .refl t w
  | succ n ih =>
    unfold takeRunnables at h ⊢
    split at h
    · exact .refl t w
    · rename_i e q hq
      split_ifs at h ⊢ with hdue
      · simp only [List.mem_cons, not_or] at h
        exact (SameTask.takeHead (Ne.symm h.1) w).trans (ih _ h.2)
      · exact .refl t w

theorem takeRunnables_queues (theAbstime : Chrono) (n : Nat) (w : Callout ι) :
    (takeRunnables theAbstime n w).1.urgentTskQ = w.urgentTskQ ∧
      (takeRunnables theAbstime n w).1.idleTskQ = w.idleTskQ := by
  induction n generalizing w with
  | zero => exact ⟨rfl, rfl⟩
  | succ n ih =>
    unfold takeRunnables
    split
    · exact ⟨rfl, rfl⟩
    · rename_i e q _
      split_ifs
      · exact ih (takeHead w e)
      · exact ⟨rfl, rfl⟩

theorem stampTask_lists (w : Callout ι) (e : ι) (start : Chrono) :
    (stampTask w e start).urgentTskQ = w.urgentTskQ ∧
      (stampTask w e start).idleTskQ = w.idleTskQ := by
  unfold stampTask
  split_ifs <;> exact ⟨rfl, rfl⟩

/-! ## Places -/

/-- The state words fit a call that has the task in its hands. -/
def Frame.fits (t : ι) (w : Callout ι) : Frame ι → Prop
  | .exec e .check | .exec e .count | .exec e .recheck => e = t → Ready t w
  | .force e .run => e = t → Stampable t w
  | .fetchTimed _ urgentTasks idleTasks => t ∈ urgentTasks ++ idleTasks → Stampable t w
  | .runTasksBySelf _ tasks => t ∈ tasks → Stampable t w
  | .stamp _ todo stamped => (t ∈ todo → Stampable t w) ∧ (t ∈ stamped → Ready t w)
  | .put _ _ _ tasks | .worker tasks => t ∈ tasks → Ready t w
  | _ => True

/-- The state words of a task fit the place where it is. -/
structure Fit (t : ι) (s : System ι θ) : Prop where
  urgent : t ∈ s.w.urgentTskQ → Stampable t s.w
  idle : t ∈ s.w.idleTskQ → Stampable t s.w
  queue : ∀ i, t ∈ s.qs i → Ready t s.w
  thread : ∀ th, ∀ f ∈ s.stack th, f.fits t s.w

variable {p p' : Place θ} {s s' s₁ : System ι θ} {th : θ} {now : Chrono} {f : Frame ι}
  {fs gs : List (Frame ι)}

theorem Frame.fits_of_count (h : f.count t = 0) : f.fits t w := by
  cases f with
  | exec e q =>
    cases q <;> simp only [Frame.count, ExecPoint.holds, and_true, ite_eq_right_iff,
      one_ne_zero, imp_false] at h <;> simp [Frame.fits, h]
  | force e q =>
    cases q <;> simp only [Frame.count, ite_eq_right_iff, one_ne_zero, imp_false] at h <;>
      simp [Frame.fits, h]
  | fetchTimed | runTasksBySelf | put | worker =>
    simp_all [Frame.count, Frame.fits, List.count_eq_zero]
  | stamp _ todo stamped =>
    simp only [Frame.count, Nat.add_eq_zero_iff, List.count_eq_zero] at h
    exact ⟨fun hm => absurd hm h.1, fun hm => absurd hm h.2⟩
  | submit | cancel | destroy | fetch => trivial

omit [DecidableEq ι] in
theorem Frame.fits.keep (h : f.fits t w) (hk : Keeps t w w') : f.fits t w' := by
  cases f with
  | exec e q => cases q <;> first | trivial | exact fun he => hk.ready (h he)
  | force e q => cases q <;> first | trivial | exact fun he => hk.stampable (h he)
  | fetchTimed | runTasksBySelf => exact fun hm => hk.stampable (h hm)
  | put | worker => exact fun hm => hk.ready (h hm)
  | stamp => exact ⟨fun hm => hk.stampable (h.1 hm), fun hm => hk.ready (h.2 hm)⟩
  | submit | cancel | destroy | fetch => trivial

omit [DecidableEq ι] in
/-- A step that keeps what fits, with what it newly puts into the queues. -/
theorem Fit.keep (h : Fit t s) (popped : List (Frame ι)) (hs : s.stack th = popped ++ fs)
    (hk : Keeps t s.w s'.w)
    (hurgent : t ∈ s'.w.urgentTskQ → t ∈ s.w.urgentTskQ ∨ Stampable t s'.w)
    (hidle : t ∈ s'.w.idleTskQ → t ∈ s.w.idleTskQ ∨ Stampable t s'.w)
    (hqueue : ∀ i, t ∈ s'.qs i → t ∈ s.qs i ∨ Ready t s'.w) (hgs : ∀ g ∈ gs, g.fits t s'.w) :
    Fit t (s.after s' th now (gs ++ fs)) where
  urgent hm := (hurgent hm).elim (fun hm => hk.stampable (h.urgent hm)) id
  idle hm := (hidle hm).elim (fun hm => hk.stampable (h.idle hm)) id
  queue i hm := (hqueue i hm).elim (fun hm => hk.ready (h.queue i hm)) id
  thread := by
    refine mem_after (P := fun g => g.fits t s'.w) (fun g hg => ?_) fun th' g hg =>
      (h.thread th' g hg).keep hk
    rcases List.mem_append.mp hg with hg | hg
    · exact hgs g hg
    · exact (h.thread th g (hs ▸ List.mem_append_right _ hg)).keep hk

omit [DecidableEq ι] in
/-- A step that leaves the queues alone. -/
theorem Fit.stay (h : Fit t s) (popped : List (Frame ι)) (hs : s.stack th = popped ++ fs)
    (hk : Keeps t s.w s'.w)
    (hurgent : s'.w.urgentTskQ = s.w.urgentTskQ) (hidle : s'.w.idleTskQ = s.w.idleTskQ)
    (hqueue : s'.qs = s.qs) (hgs : ∀ g ∈ gs, g.fits t s'.w) :
    Fit t (s.after s' th now (gs ++ fs)) :=
  h.keep popped hs hk (fun hm => .inl (hurgent ▸ hm)) (fun hm => .inl (hidle ▸ hm))
    (fun i hm => .inl (by rwa [hqueue] at hm)) hgs

/-- A task that is in no queue of the fetch or of a worker, and in the hands of the new calls
alone. -/
theorem Fit.alone (hurgent : t ∉ s'.w.urgentTskQ) (hidle : t ∉ s'.w.idleTskQ)
    (hqueue : ∀ i, t ∉ s'.qs i) (hother : ∀ th', th' ≠ th → held t (s.stack th') = 0)
    (hfs : held t fs = 0) (hgs : ∀ g ∈ gs, g.fits t s'.w) :
    Fit t (s.after s' th now (gs ++ fs)) where
  urgent hm := absurd hm hurgent
  idle hm := absurd hm hidle
  queue i hm := absurd hm (hqueue i)
  thread th' f hf := by
    by_cases hth : th' = th
    · subst hth
      simp only [System.after, Function.update_self, List.mem_append] at hf
      rcases hf with hf | hf
      · exact hgs f hf
      · exact Frame.fits_of_count (count_of_held hfs hf)
    · simp only [System.after, ne_eq, hth, not_false_eq_true, Function.update_of_ne] at hf
      exact Frame.fits_of_count (count_of_held (hother th' hth) hf)

/-- A step that is about another task. -/
theorem Fit.foreign (h : Fit t s) (hs : s.stack th = f :: fs) (hr : Foreign t s (s', gs)) :
    Fit t (s.after s' th now (gs ++ fs)) := by
  have hw := hr.same.w
  have hmem : ∀ {l l' : List ι}, l'.count t = l.count t → t ∈ l' → t ∈ l := fun hc hm => by
    rwa [← List.count_pos_iff, ← hc, List.count_pos_iff]
  refine h.keep [f] hs (Dequeues.of_same hw).keeps (fun hm => .inl (hmem hw.urgent hm))
    (fun hm => .inl (hmem hw.idle hm)) (fun i hm => .inl ?_) fun g hg =>
      Frame.fits_of_count (hr.count g hg)
  exact hmem (by rw [hr.same.qs]) hm

/-! ## Calls on the task -/

theorem cancelStep_fit {q : CancelPoint} (h : Fit t s) (hs : s.stack th = .cancel t q :: fs)
    (hr : cancelStep s th t q = some (s', gs)) : Fit t (s.after s' th now (gs ++ fs)) := by
  have hkeep : ∀ {s' : System ι θ} {gs : List (Frame ι)}, Keeps t s.w s'.w →
      s'.w.urgentTskQ = s.w.urgentTskQ → s'.w.idleTskQ = s.w.idleTskQ → s'.qs = s.qs →
      (∀ g ∈ gs, g.fits t s'.w) → Fit t (s.after s' th now (gs ++ fs)) :=
    fun hk => h.stay [.cancel t q] hs hk
  cases q <;> simp only [cancelStep] at hr
  case asleep => contradiction
  case count =>
    cases hr
    exact hkeep (.of_same rfl (by simp [addCancel, System.modTask])) rfl rfl rfl
      (by simp [Frame.fits])
  case uncount =>
    cases hr
    refine hkeep (.of_same rfl (by simp [addCancel, System.modTask])) rfl rfl rfl ?_
    split_ifs <;> simp [Frame.fits]
  case mark st =>
    split_ifs at hr <;> cases hr
    · exact hkeep (.refl t s.w) rfl rfl rfl (by simp [Frame.fits])
    · refine hkeep (.of_ready (.inr ?_)) rfl rfl rfl (by simp)
      simp [setCancelled, System.note, setState, setStateInTable, modTask]
  all_goals
    split_ifs at hr <;> cases hr
    all_goals exact hkeep (.refl t s.w) rfl rfl rfl (by simp [Frame.fits])

theorem destroyStep_fit {unlock : Bool} {q : DestroyPoint} (h : Fit t s)
    (hs : s.stack th = .destroy t unlock q :: fs) (hq : q ≠ .delete)
    (hr : destroyStep s th t unlock q = some (s', gs)) : Fit t (s.after s' th now (gs ++ fs)) := by
  have hkeep : ∀ {s' : System ι θ} {gs : List (Frame ι)}, Keeps t s.w s'.w →
      s'.w.urgentTskQ = s.w.urgentTskQ → s'.w.idleTskQ = s.w.idleTskQ → s'.qs = s.qs →
      (∀ g ∈ gs, g.fits t s'.w) → Fit t (s.after s' th now (gs ++ fs)) :=
    fun hk => h.stay [.destroy t unlock q] hs hk
  cases q <;> simp only [destroyStep] at hr
  case delete => contradiction
  case unsched =>
    split_ifs at hr
    cases hr
    have hqueues : (doUnsched s.w t).urgentTskQ = s.w.urgentTskQ ∧
        (doUnsched s.w t).idleTskQ = s.w.idleTskQ := by
      by_cases hf : s.w.flag t = true
      · have hu := doUnsched_unsched hf
        exact ⟨hu.urgent, hu.idle⟩
      · rw [doUnsched_of_not s.w hf]
        exact ⟨rfl, rfl⟩
    exact hkeep (Dequeues.doUnsched t s.w).keeps hqueues.1 hqueues.2 rfl (by simp [Frame.fits])
  case setTable =>
    cases hr
    exact hkeep (.of_ready (.inr (by simp [setStateInTable]))) rfl rfl rfl (by simp [Frame.fits])
  case check =>
    split_ifs at hr
    · cases hr
      exact hkeep (.refl t s.w) rfl rfl rfl (by simp [Frame.fits])
    · obtain ⟨⟨o, rfl⟩, rfl⟩ := destroyed_eq (Option.some.inj hr)
      exact hkeep (.refl t s.w) rfl rfl rfl (by simp)
  case free =>
    obtain ⟨⟨o, rfl⟩, rfl⟩ := destroyed_eq (Option.some.inj hr)
    exact hkeep (.refl t s.w) rfl rfl rfl (by simp)

omit [DecidableEq ι] [DecidableEq θ] in
theorem finalTaskSched_fits (s : System ι θ) (start : Chrono) {tasks : List ι}
    (h : t ∈ tasks → Stampable t w) : (finalTaskSched s start tasks).fits t w := by
  unfold finalTaskSched
  split_ifs
  · exact h
  · exact ⟨h, fun hm => absurd hm List.not_mem_nil⟩

theorem forceStep_fit {q : ForcePoint} (h : Fit t s) (hs : s.stack th = .force t q :: fs)
    (hr : forceStep s th t now q = some (s', gs)) : Fit t (s.after s' th now (gs ++ fs)) := by
  have hkeep : ∀ {s' : System ι θ} {gs : List (Frame ι)}, Keeps t s.w s'.w →
      s'.w.urgentTskQ = s.w.urgentTskQ → s'.w.idleTskQ = s.w.idleTskQ → s'.qs = s.qs →
      (∀ g ∈ gs, g.fits t s'.w) → Fit t (s.after s' th now (gs ++ fs)) :=
    fun hk => h.stay [.force t q] hs hk
  cases q <;> simp only [forceStep] at hr
  case check =>
    split_ifs at hr <;> cases hr
    · exact hkeep (.refl t s.w) rfl rfl rfl (by simp [Frame.fits])
    · exact hkeep (.refl t s.w) rfl rfl rfl (by simp)
  case lock =>
    split_ifs at hr with hl hst hexec hcan hq <;> cases hr
    · have hu := doUnsched_unsched (show s.w.flag t = true from hq)
      have hready : Ready t ((doUnsched s.w t).setState t .dequeued) :=
        .inl (by simp [setState, setStateInTable, modTask])
      refine hkeep (.of_ready hready) hu.urgent hu.idle rfl fun g hg => ?_
      rw [List.mem_singleton.mp hg]
      exact fun _ => .inr hready
    all_goals exact hkeep (.refl t s.w) rfl rfl rfl (by simp)
  case run =>
    cases hr
    refine hkeep (.refl t s.w) rfl rfl rfl fun g hg => ?_
    rw [List.mem_singleton.mp hg]
    exact finalTaskSched_fits s now fun _ =>
      h.thread th (.force t .run) (hs ▸ List.mem_cons_self) rfl

theorem submitStep_fit {initialDelay interval : Chrono} {q : SubmitPoint} (h : Fit t s)
    (hp : Placed t p s) (hs : s.stack th = .submit t initialDelay interval q :: fs)
    (hok : q ≠ .check → s.w.tskTbl t = some .created)
    (hr : submitStep s th t initialDelay interval now q = some (s', gs)) :
    Fit t (s.after s' th now (gs ++ fs)) := by
  have hkeep : ∀ {s' : System ι θ} {gs : List (Frame ι)}, Keeps t s.w s'.w →
      (t ∈ s'.w.urgentTskQ → t ∈ s.w.urgentTskQ ∨ Stampable t s'.w) →
      (t ∈ s'.w.idleTskQ → t ∈ s.w.idleTskQ ∨ Stampable t s'.w) → s'.qs = s.qs →
      (∀ g ∈ gs, g.fits t s'.w) → Fit t (s.after s' th now (gs ++ fs)) :=
    fun hk hu hi hqs => h.keep [.submit t initialDelay interval q] hs hk hu hi
      fun i hm => .inl (by rwa [hqs] at hm)
  have hlocked : ∀ s₁ : System ι θ, s.w.tskTbl t = some .created → SameQueues t s s₁ →
      s₁.w.tskTbl t = s.w.tskTbl t → (s₁.w.task t).status = (s.w.task t).status →
      s₁.w.urgentTskQ = s.w.urgentTskQ → s₁.w.idleTskQ = s.w.idleTskQ → s₁.qs = s.qs →
      submitLocked s₁ th t initialDelay interval now = (s', gs) →
      Fit t (s.after s' th now (gs ++ fs)) := by
    intro s₁ hcreated hsame htbl hstatus hu₁ hi₁ hqs hl
    obtain rfl := hp.fresh hcreated
    have hflag : s₁.w.flag t = false := by
      have := hp.flag
      rw [hsame.flag]
      simpa using this
    -- the task is ENQUEUED after the submission
    have henqueued : ∀ {w' : Callout ι}, (w'.task t).status = .enqueued → Keeps t s.w w' := by
      intro w' hst
      refine ⟨fun hready => ?_, fun _ => .inl hst⟩
      rcases hready with hd | hc <;> rw [hcreated] at * <;> contradiction
    unfold submitLocked at hl
    split at hl
    · rename_i w r hw
      cases hl
      have hst : (w.task t).status = .enqueued := by
        rcases submitPut_submitted hflag hw with ⟨-, htask, -, -, -, -⟩ | ⟨-, htask, -, -, -, -⟩ |
          ⟨-, hsched⟩
        · exact congrArg Task.status htask
        · exact congrArg Task.status htask
        · exact (congrArg Task.status hsched.task_self).trans (scheduled_view now _).1
      exact hkeep (henqueued hst) (fun _ => .inr (.inl hst)) (fun _ => .inr (.inl hst)) hqs
        (by simp)
    · cases hl
      exact hkeep (.of_same htbl hstatus) (fun hm => .inl (hu₁ ▸ hm)) (fun hm => .inl (hi₁ ▸ hm))
        hqs (by simp [Frame.fits])
  cases q <;> simp only [submitStep] at hr
  case check =>
    split_ifs at hr <;> cases hr
    · exact hkeep (.refl t s.w) .inl .inl rfl (by simp [Frame.fits])
    all_goals exact hkeep (.refl t s.w) .inl .inl rfl (by simp)
  case lock =>
    split_ifs at hr
    refine hlocked _ (hok (by simp)) (submitFields_queues ..) rfl ?_ rfl rfl rfl
      (Option.some.inj hr)
    simp only [submitFields, modTask_task_self]
    split_ifs <;> rfl
  case blocked =>
    exact hlocked s (hok (by simp)) (.refl t s) rfl rfl rfl rfl rfl (Option.some.inj hr)

/-- The new state words of a task in the hands of the thread have to fit the new calls alone. -/
theorem Fit.hands (hp : Placed t p s) (hs : s.stack th = f :: fs) (hcount : 0 < f.count t)
    (hurgent : s'.w.urgentTskQ = s.w.urgentTskQ) (hidle : s'.w.idleTskQ = s.w.idleTskQ)
    (hqueue : s'.qs = s.qs) (hgs : ∀ g ∈ gs, g.fits t s'.w) :
    Fit t (s.after s' th now (gs ++ fs)) := by
  obtain ⟨rfl, hzero, hother⟩ := hp.hands hs hcount
  have hout : ∀ {l : List ι}, l.count t = 0 → t ∉ l := List.count_eq_zero.mp
  refine Fit.alone ?_ ?_ (fun i => ?_) hother hzero hgs
  · rw [hurgent]
    exact hout hp.urgent
  · rw [hidle]
    exact hout hp.idle
  · rw [hqueue]
    exact hout (hp.queue i)

theorem execStep_fit {q : ExecPoint} (h : Fit t s) (hp : Placed t p s)
    (hs : s.stack th = .exec t q :: fs) (hr : execStep s th t now q = some (s', gs)) :
    Fit t (s.after s' th now (gs ++ fs)) := by
  have hq : (Frame.exec t q).fits t s.w := h.thread th _ (hs ▸ List.mem_cons_self)
  have hkeep : ∀ {s' : System ι θ} {gs : List (Frame ι)}, Keeps t s.w s'.w →
      s'.w.urgentTskQ = s.w.urgentTskQ → s'.w.idleTskQ = s.w.idleTskQ → s'.qs = s.qs →
      (∀ g ∈ gs, g.fits t s'.w) → Fit t (s.after s' th now (gs ++ fs)) :=
    fun hk => h.stay [.exec t q] hs hk
  have hexec : ∀ d : Int, Keeps t s.w (addExec s t d).w := fun d =>
    .of_same rfl (by simp [addExec, System.modTask])
  have hother : ∀ {w : Callout ι} st, ∀ g ∈ notTheDequeuedState t st, g.fits t w := by
    intro w st
    unfold notTheDequeuedState
    split <;> simp [Frame.fits]
  cases q <;> simp only [execStep] at hr
  case check =>
    split_ifs at hr <;> cases hr
    · refine hkeep (.refl t s.w) rfl rfl rfl fun g hg => ?_
      rw [List.mem_singleton.mp hg]
      exact hq
    · exact hkeep (.refl t s.w) rfl rfl rfl (hother _)
  case count =>
    cases hr
    refine hkeep (hexec 1) rfl rfl rfl fun g hg => ?_
    rw [List.mem_singleton.mp hg]
    split_ifs
    · exact fun _ => (hexec 1).ready (hq rfl)
    · trivial
  case recheck =>
    split_ifs at hr <;> cases hr
    · exact .hands hp hs (by simp [Frame.count, ExecPoint.holds]) rfl rfl rfl (by simp [Frame.fits])
    · exact hkeep (.refl t s.w) rfl rfl rfl (hother _)
  case body => contradiction
  case resched =>
    split_ifs at hr
    have hcount : 0 < (Frame.exec t .resched).count t := by simp [Frame.count, ExecPoint.holds]
    obtain ⟨rfl, -, -⟩ := hp.hands hs hcount
    obtain ⟨hsched, -⟩ := doSched_sched now (by simpa using hp.flag)
    unfold execResched at hr
    have hw : ∀ g : History → History, (s.note t g).w = s.w := fun _ => rfl
    simp only [hw] at hr
    generalize doSched s.w t now = d at hr hsched
    obtain ⟨w, next⟩ := d
    cases hr
    refine .hands hp hs hcount hsched.urgent hsched.idle rfl fun g hg => ?_
    rw [List.mem_singleton.mp hg]
    split_ifs <;> trivial
  case leave =>
    cases hr
    exact hkeep (hexec (-1)) rfl rfl rfl (by simp)
  case leaveDelete =>
    cases hr
    exact hkeep (hexec (-1)) rfl rfl rfl (by simp [Frame.fits])
  case lockDelete =>
    split_ifs at hr
    cases hr
    exact hkeep (.refl t s.w) rfl rfl rfl (by simp [Frame.fits])
  case wakeup =>
    split_ifs at hr
    cases hr
    exact hkeep (hexec (-1)) rfl rfl rfl (by simp)
  all_goals
    cases hr
    refine hkeep (.refl t s.w) rfl rfl rfl fun g hg => ?_
    rw [List.mem_singleton.mp hg]
    split_ifs <;> trivial

theorem execEnd_fit {r : Result} (h : Fit t s) (hp : Placed t p s)
    (hs : s.stack th = .exec t .body :: fs) (hr : execEnd s t r = (s', gs)) :
    Fit t (s.after s' th now (gs ++ fs)) := by
  unfold execEnd at hr
  split_ifs at hr <;> cases hr
  · exact h.stay [.exec t .body] hs (.refl t s.w) rfl rfl rfl (by simp [Frame.fits])
  · exact .hands hp hs (by simp [Frame.count, ExecPoint.holds]) rfl rfl rfl (by simp [Frame.fits])

/-! ## The main loop and the workers -/

omit [DecidableEq ι] in
theorem fetchStep_fit {start : Chrono} (h : Fit t s) (hs : s.stack th = .fetch start :: fs)
    (hr : fetchStep s start = some (s', gs)) : Fit t (s.after s' th now (gs ++ fs)) := by
  unfold fetchStep at hr
  split_ifs at hr
  cases hr
  refine h.keep [.fetch start] hs (.of_same rfl rfl)
    (fun hm => .inl (List.mem_of_mem_drop hm)) (fun hm => .inl (List.mem_of_mem_drop hm))
    (fun _ => .inl) fun g hg => ?_
  rw [List.mem_singleton.mp hg]
  intro hm
  rcases List.mem_append.mp hm with hm | hm
  · exact h.urgent (List.mem_of_mem_take hm)
  · exact h.idle (List.mem_of_mem_take hm)

omit [DecidableEq ι] [DecidableEq θ] in
theorem runBatch_fits (s : System ι θ) (start : Chrono) {tasks : List ι}
    (h : t ∈ tasks → Stampable t w) : ∀ g ∈ fetchTimedStep.runBatch start s tasks, g.fits t w := by
  unfold fetchTimedStep.runBatch
  split_ifs
  · simp
  · intro g hg
    rw [List.mem_singleton.mp hg]
    exact finalTaskSched_fits s start h

theorem fetchTimedStep_fit {start : Chrono} {urgentTasks idleTasks : List ι} (h : Fit t s)
    (hs : s.stack th = .fetchTimed start urgentTasks idleTasks :: fs)
    (hr : fetchTimedStep s start urgentTasks idleTasks = some (s', gs)) :
    Fit t (s.after s' th now (gs ++ fs)) := by
  have hbatch : t ∈ urgentTasks ++ idleTasks → Stampable t s.w :=
    h.thread th (.fetchTimed start urgentTasks idleTasks) (hs ▸ List.mem_cons_self)
  unfold fetchTimedStep at hr
  split_ifs at hr
  · have hdeq := Dequeues.takeRunnables t (i64 (start + calloutTaskSchedJitter)) calloutTaskMax s.w
    have hready := takeRunnables_ready t (i64 (start + calloutTaskSchedJitter)) calloutTaskMax s.w
    have hqueues := takeRunnables_queues (i64 (start + calloutTaskSchedJitter)) calloutTaskMax s.w
    rw [getRunnables_eq] at hr
    generalize takeRunnables (i64 (start + calloutTaskSchedJitter)) calloutTaskMax s.w = d
      at hr hdeq hready hqueues
    obtain ⟨w, tasks⟩ := d
    dsimp only at hr hdeq hready hqueues
    split_ifs at hr
    cases hr
    refine h.keep [.fetchTimed start urgentTasks idleTasks] hs hdeq.keeps
      (fun hm => .inl (hqueues.1 ▸ hm)) (fun hm => .inl (hqueues.2 ▸ hm)) (fun _ => .inl)
      (runBatch_fits _ start fun hm => ?_)
    rw [List.append_assoc, List.mem_append] at hm
    rcases hm with hm | hm
    · exact .inr (hready hm)
    · exact hdeq.keeps.stampable (hbatch hm)
  · cases hr
    exact h.stay [.fetchTimed start urgentTasks idleTasks] hs (.refl t s.w) rfl rfl rfl
      (runBatch_fits _ start hbatch)

theorem runTasksBySelfStep_fit {start : Chrono} {tasks : List ι} (h : Fit t s)
    (hs : s.stack th = .runTasksBySelf start tasks :: fs)
    (hr : runTasksBySelfStep s th start tasks = some (s', gs)) :
    Fit t (s.after s' th now (gs ++ fs)) := by
  have hbatch : t ∈ tasks → Stampable t s.w :=
    h.thread th (.runTasksBySelf start tasks) (hs ▸ List.mem_cons_self)
  cases tasks with
  | nil =>
    cases hr
    exact h.stay [.runTasksBySelf start []] hs (.refl t s.w) rfl rfl rfl (by simp)
  | cons e tasks =>
    simp only [runTasksBySelfStep] at hr
    split_ifs at hr
    cases hr
    have hk := (Dequeues.stampTask t e s.w start).keeps
    refine h.stay [.runTasksBySelf start (e :: tasks)] hs hk ?_ ?_ rfl fun g hg => ?_
    · exact (stampTask_lists s.w e start).1
    · exact (stampTask_lists s.w e start).2
    rcases List.mem_cons.mp hg with rfl | hg
    · rintro rfl
      exact (hbatch List.mem_cons_self).stamp start
    · rw [List.mem_singleton.mp hg]
      exact fun hm => hk.stampable (hbatch (List.mem_cons_of_mem _ hm))

theorem stampStep_fit {start : Chrono} {todo stamped : List ι} (h : Fit t s)
    (hs : s.stack th = .stamp start todo stamped :: fs)
    (hr : stampStep s th start stamped todo = some (s', gs)) :
    Fit t (s.after s' th now (gs ++ fs)) := by
  obtain ⟨htodo, hstamped⟩ : (t ∈ todo → Stampable t s.w) ∧ (t ∈ stamped → Ready t s.w) :=
    h.thread th (.stamp start todo stamped) (hs ▸ List.mem_cons_self)
  cases todo with
  | nil =>
    cases hr
    refine h.stay [.stamp start [] stamped] hs (.refl t s.w) rfl rfl rfl fun g hg => ?_
    rw [List.mem_singleton.mp hg]
    exact hstamped
  | cons e todo =>
    simp only [stampStep] at hr
    split_ifs at hr
    cases hr
    have hk := (Dequeues.stampTask t e s.w start).keeps
    refine h.stay [.stamp start (e :: todo) stamped] hs hk ?_ ?_ rfl fun g hg => ?_
    · exact (stampTask_lists s.w e start).1
    · exact (stampTask_lists s.w e start).2
    rw [List.mem_singleton.mp hg]
    refine ⟨fun hm => hk.stampable (htodo (List.mem_cons_of_mem _ hm)), fun hm => ?_⟩
    rcases List.mem_append.mp hm with hm | hm
    · exact hk.ready (hstamped hm)
    · obtain rfl := List.mem_singleton.mp hm
      exact (htodo List.mem_cons_self).stamp start

omit [DecidableEq ι] in
theorem putStep_fit {stride q left : Nat} {tasks : List ι} (h : Fit t s)
    (hs : s.stack th = .put stride q left tasks :: fs)
    (hr : putStep s stride q left tasks = some (s', gs)) :
    Fit t (s.after s' th now (gs ++ fs)) := by
  have hbatch : t ∈ tasks → Ready t s.w :=
    h.thread th (.put stride q left tasks) (hs ▸ List.mem_cons_self)
  have hput : ∀ {qs : θ → List ι} {gs : List (Frame ι)} {lastQ : Nat},
      (∀ i, t ∈ qs i → t ∈ s.qs i ∨ t ∈ tasks) → (∀ g ∈ gs, g.fits t s.w) →
      Fit t (s.after { s with qs, lastQ } th now (gs ++ fs)) := fun hqs hgs =>
    h.keep [.put stride q left tasks] hs (.refl t s.w) .inl .inl
      (fun i hm => (hqs i hm).imp id hbatch) hgs
  unfold putStep at hr
  split_ifs at hr
  · cases hr
    exact hput (fun _ => .inl) (by simp)
  · cases hr
    exact hput (fun _ => .inl) (by simpa [Frame.fits] using hbatch)
  · split at hr
    · contradiction
    · rename_i i hi
      dsimp only at hr
      generalize min left (calloutTaskMax - (s.qs i).length) = n at hr
      have hqs : ∀ j, t ∈ Function.update s.qs i (s.qs i ++ tasks.take n) j →
          t ∈ s.qs j ∨ t ∈ tasks := by
        intro j hm
        by_cases hj : j = i
        · subst hj
          rw [Function.update_self, List.mem_append] at hm
          exact hm.imp id List.mem_of_mem_take
        · rw [Function.update_of_ne hj] at hm
          exact .inl hm
      have hrest : ∀ g ∈ [Frame.put stride q (left - n) (tasks.drop n)], g.fits t s.w := by
        intro g hg
        rw [List.mem_singleton.mp hg]
        exact fun hm => hbatch (List.mem_of_mem_drop hm)
      split_ifs at hr <;> cases hr
      · exact hput hqs hrest
      · exact hput hqs hrest

omit [DecidableEq ι] in
theorem workerStep_fit {tasks : List ι} (h : Fit t s) (hs : s.stack th = .worker tasks :: fs)
    (hr : workerStep s tasks = some (s', gs)) : Fit t (s.after s' th now (gs ++ fs)) := by
  have hbatch : t ∈ tasks → Ready t s.w := h.thread th (.worker tasks) (hs ▸ List.mem_cons_self)
  cases tasks with
  | nil =>
    cases hr
    exact h.stay [.worker []] hs (.refl t s.w) rfl rfl rfl (by simp)
  | cons e tasks =>
    cases hr
    refine h.stay [.worker (e :: tasks)] hs (.refl t s.w) rfl rfl rfl fun g hg => ?_
    rcases List.mem_cons.mp hg with rfl | hg
    · rintro rfl
      exact hbatch List.mem_cons_self
    · rw [List.mem_singleton.mp hg]
      exact fun hm => hbatch (List.mem_cons_of_mem _ hm)

/-! ## All steps -/

/-- The next step of the call is the locked part of a deletion of the task. -/
def Frame.deletes (t : ι) : Frame ι → Bool
  | .destroy e _ .delete => e = t
  | _ => false

theorem frameStep_fit (h : Fit t s) (hp : Placed t p s) (hs : s.stack th = f :: fs)
    (hok : f.submits t = true → s.w.tskTbl t = some .created) (hdel : f.deletes t = false)
    (hr : frameStep s th now f = some (s', gs)) : Fit t (s.after s' th now (gs ++ fs)) := by
  cases ha : f.about with
  | some e =>
    by_cases he : e = t
    · subst he
      cases f <;> simp only [Frame.about, Option.some.injEq, reduceCtorEq] at ha <;> subst ha
      · exact submitStep_fit h hp hs (fun hq => hok (by simpa [Frame.submits] using hq)) hr
      · exact cancelStep_fit h hs hr
      · exact execStep_fit h hp hs hr
      · refine destroyStep_fit h hs ?_ hr
        rintro rfl
        simp [Frame.deletes] at hdel
      · exact forceStep_fit h hs hr
    · exact h.foreign hs (frameStep_foreign ha he hr)
  | none =>
    cases f <;> simp only [Frame.about, reduceCtorEq] at ha
    · exact fetchStep_fit h hs hr
    · exact fetchTimedStep_fit h hs hr
    · exact runTasksBySelfStep_fit h hs hr
    · exact stampStep_fit h hs hr
    · exact putStep_fit h hs hr
    · exact workerStep_fit h hs hr

theorem callStep_fit {op : Op ι} (h : Fit t s) (hp : Placed t p s)
    (hr : callStep s th now op = some (s', gs)) :
    Fit t (s.after s' th now (gs ++ s.stack th)) := by
  have hcall : ∀ {g : Frame ι}, g.fits t s.w → Fit t (s.after s th now ([g] ++ s.stack th)) :=
    fun hg => h.stay [] rfl (.refl t s.w) rfl rfl rfl (by simpa using hg)
  cases op <;> simp only [callStep] at hr
  case create e hasArg hasFreeproc =>
    obtain ⟨s₁, hcreate, heq⟩ := Option.map_eq_some_iff.mp hr
    cases heq
    unfold createTask at hcreate
    split_ifs at hcreate with hnew
    cases hcreate
    by_cases he : e = t
    · subst he
      obtain ⟨rfl, -, -⟩ := hp.unborn hnew.2
      have hout : ∀ {l : List ι}, l.count e = 0 → e ∉ l := List.count_eq_zero.mp
      exact .alone (hout hp.urgent) (hout hp.idle) (fun i => hout (hp.queue i))
        (fun th' _ => hp.thread th') (hp.thread th) (by simp)
    · refine h.stay [] rfl (.of_same ?_ ?_) rfl rfl rfl (by simp)
      · simp [System.note, setStateInTable, modTask, Ne.symm he]
      · simp [System.note, Ne.symm he]
  case resetInterval e interval =>
    split_ifs at hr
    rw [Option.map_eq_some_iff] at hr
    obtain ⟨s₁, hreset, heq⟩ := hr
    cases heq
    unfold resetInterval at hreset
    split_ifs at hreset <;> cases hreset
    · refine h.stay [] rfl (.of_same rfl ?_) rfl rfl rfl (by simp)
      by_cases he : t = e
      · subst he
        simp [System.modTask, System.return_]
      · simp [System.modTask, System.return_, he]
    · exact h.stay [] rfl (.refl t s.w) rfl rfl rfl (by simp)
    · exact h.stay [] rfl (.refl t s.w) rfl rfl rfl (by simp)
  case work =>
    split_ifs at hr
    cases hr
    refine h.keep [] rfl (.refl t s.w) .inl .inl (fun i hm => .inl ?_) fun g hg => ?_
    · by_cases hi : i = th
      · subst hi
        simp only [Function.update_self] at hm
        exact List.mem_of_mem_drop hm
      · simpa only [Function.update_of_ne hi] using hm
    · rw [List.mem_singleton.mp hg]
      exact fun hm => h.queue th (List.mem_of_mem_take hm)
  all_goals
    split_ifs at hr
    cases hr
    exact hcall trivial

/-- A step that does not delete the task keeps its state words fit. -/
theorem Fit.step {ev : Event ι θ} (h : Fit t s) (hp : Placed t p s) (hok : submitsOnce t s ev)
    (hdel : ∀ f ∈ running s ev, f.deletes t = false) (hstep : step s ev = some s') : Fit t s' := by
  cases step_cases hstep with
  | call hact hr => exact callStep_fit h hp hr
  | go hact hs hr =>
    rename_i f fs gs s₁
    have hrun : f ∈ running s ev := by simp [running, hact, hs]
    exact frameStep_fit h hp hs (hok f hrun) (hdel f hrun) hr
  | finish hact hs =>
    rename_i t' r fs
    by_cases he : t' = t
    · subst he
      exact execEnd_fit h hp hs rfl
    · exact h.foreign hs (execEnd_foreign he r)
  | wake hact hs hwoken =>
    rename_i spurious t' since fs
    exact h.stay [.cancel t' (.asleep since)] hs (.refl t s.w) rfl rfl rfl
      (by simp [Frame.fits])

omit [DecidableEq ι] [DecidableEq θ] in
theorem Fit.init (t : ι) (clock : Chrono) (mainLoop : θ) (workers : List θ) :
    Fit t (System.init clock mainLoop workers : System ι θ) where
  urgent hm := absurd hm List.not_mem_nil
  idle hm := absurd hm List.not_mem_nil
  queue _ hm := absurd hm List.not_mem_nil
  thread _ _ hf := absurd hf List.not_mem_nil

end Callout
end Gallus
