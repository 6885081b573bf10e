import Gallus.Callout.Words
import Gallus.Lib.Tally

/-!
# What the calls do about the end of a task

Any number of cancellers and an executor have to find out who destroys the task.

* `Role`: what a call is about to do about the end of the task. A canceller looks for what to do, or
  it is counted; an executor is counted, and may be about to leave, to wake the cancellers or to
  destroy the task; a destruction deletes the task and frees its record.
* `Has P t s`, `HasCount P t s n`: some call, or so many calls, have a role of the kind `P`.
* `HasOther P t s th`: some call has such a role, besides the running one of the thread.
* `Frame.refers`: the call goes on with the record of the task. The others look the task up in the
  table first.
-/

namespace Gallus
namespace Callout

variable {ι θ : Type} [DecidableEq ι] [DecidableEq θ]

/-- What a call does about the end of a task. -/
inductive Role
  /-- Nothing, or nothing yet. -/
  | none
  /-- A canceller that looks for what to do. -/
  | asks
  /-- A canceller that is counted. -/
  | counted
  /-- An executor that is counted and has the task. -/
  | runs
  /-- It has submitted the task again. -/
  | leaves
  /-- It leaves the end to the cancellers, and wakes them. -/
  | wakes
  /-- It is about to destroy the task, but still counted. -/
  | ends
  /-- About to delete the task. -/
  | destroys
  /-- The task is deleted, its record is not yet freed. -/
  | frees
  deriving DecidableEq

namespace Role

def isAsking (r : Role) : Bool := r = asks
def isCounted (r : Role) : Bool := r = counted
def isLeaving (r : Role) : Bool := r = leaves
def isDestroying (r : Role) : Bool := r = destroys
def isFreeing (r : Role) : Bool := r = frees

/-- Counted in `m_exec_ref_count`. -/
def executes : Role → Bool
  | runs | leaves | wakes | ends => true
  | _ => false

/-- Will see to it that the task is destroyed. -/
def closes : Role → Bool
  | counted | ends | destroys => true
  | _ => false

/-- Will notify the cancellers that sleep. -/
def works : Role → Bool
  | wakes | ends | destroys => true
  | _ => false

end Role

def CancelPoint.role : CancelPoint → Role
  | .check => .none
  | .readExec _ | .count | .mark _ => .asks
  | .wait | .asleep _ | .readStatus | .uncount => .counted

def ExecPoint.role : ExecPoint → Role
  | .check | .count => .none
  | .recheck | .body | .readCancel | .readRepeat | .resched => .runs
  | .leave => .leaves
  | .readCancelDelete | .leaveDelete => .ends
  | .lockDelete => .destroys
  | .wakeup => .wakes

def DestroyPoint.role : DestroyPoint → Role
  | .unsched | .setTable | .check | .delete => .destroys
  | .free => .frees

/-- The role of a call for the task `t`. -/
def Frame.role (t : ι) : Frame ι → Role
  | .cancel e p => if e = t then p.role else .none
  | .exec e p => if e = t then p.role else .none
  | .destroy e _ p => if e = t then p.role else .none
  | _ => .none

/-- The roles of the calls of a thread. -/
def roles (t : ι) (fs : List (Frame ι)) : List Role := fs.map (Frame.role t)

/-- Some call has a role of the kind `P`. -/
def Has (P : Role → Bool) (t : ι) (s : System ι θ) : Prop :=
  ∃ th, ∃ r ∈ roles t (s.stack th), P r = true

/-- So many calls have a role of the kind `P`. -/
def HasCount (P : Role → Bool) (t : ι) (s : System ι θ) (n : Nat) : Prop :=
  Tally (fun th => (roles t (s.stack th)).countP P) n

/-- A canceller sleeps that was not notified. -/
def Sleeper (t : ι) (s : System ι θ) : Prop :=
  ∃ th, ∃ f ∈ s.stack th, f.sleeps t (s.condTask t) = true

/-- The calls under way, but for the running one of the thread. -/
def System.others (s : System ι θ) (th : θ) : θ → List (Frame ι) :=
  Function.update s.stack th (s.stack th).tail

/-- Some call has a role of the kind `P`, besides the running one of the thread. -/
def HasOther (P : Role → Bool) (t : ι) (s : System ι θ) (th : θ) : Prop :=
  ∃ th', ∃ g ∈ s.others th th', P (g.role t) = true

/-- The call goes on with the record of the task, or puts it into a queue. -/
def Frame.refers (t : ι) : Frame ι → Bool
  | .submit e _ _ p => e = t && p ≠ .check
  | .cancel e p => e = t && p ≠ .check
  | .exec e p => e = t && p ≠ .check
  | .destroy e _ _ => e = t
  | .force e p => e = t && p = .run
  | .fetchTimed _ urgentTasks idleTasks => t ∈ urgentTasks ++ idleTasks
  | .runTasksBySelf _ tasks | .put _ _ _ tasks => t ∈ tasks
  | .stamp _ todo stamped => t ∈ todo ++ stamped
  | .fetch _ | .worker _ => false

variable {t e : ι} {s s' s₁ : System ι θ} {th : θ} {now : Chrono} {f : Frame ι}
  {fs gs l : List (Frame ι)} {P Q : Role → Bool} {n m : Nat}

@[simp] theorem roles_nil : roles t ([] : List (Frame ι)) = [] := rfl

@[simp] theorem roles_cons : roles t (f :: fs) = f.role t :: roles t fs := rfl

@[simp] theorem roles_append : roles t (fs ++ gs) = roles t fs ++ roles t gs := List.map_append

@[simp] theorem role_cancel (t : ι) (q : CancelPoint) : (Frame.cancel t q).role t = q.role :=
  if_pos rfl

@[simp] theorem role_exec (t : ι) (q : ExecPoint) : (Frame.exec t q).role t = q.role := if_pos rfl

@[simp] theorem role_destroy (t : ι) (unlock : Bool) (q : DestroyPoint) :
    (Frame.destroy t unlock q).role t = q.role := if_pos rfl

theorem role_of_about (h : f.about ≠ some t) : f.role t = .none := by
  cases f <;> simp only [Frame.about, ne_eq, Option.some.injEq] at h <;> simp [Frame.role, h]

/-- An executor that has the task has it in its hands. -/
theorem count_of_runs (h : f.role t = .runs) : 0 < f.count t := by
  cases f with
  | exec e q =>
    by_cases he : e = t
    · subst he
      cases q <;> simp_all [ExecPoint.role, Frame.count, ExecPoint.holds]
    · simp [Frame.role, he] at h
  | cancel e q =>
    by_cases he : e = t
    · subst he
      cases q <;> simp_all [CancelPoint.role]
    · simp [Frame.role, he] at h
  | destroy e unlock q =>
    by_cases he : e = t
    · subst he
      cases q <;> simp_all [DestroyPoint.role]
    · simp [Frame.role, he] at h
  | _ => simp [Frame.role] at h

theorem not_refers (ha : f.about ≠ some t) (hc : f.count t = 0) : f.refers t = false := by
  cases f <;> simp only [Frame.about, ne_eq, Option.some.injEq] at ha <;>
    simp_all [Frame.refers, Frame.count, List.count_eq_zero]

/-! ## Kinds of roles -/

omit [DecidableEq θ] in
theorem Has.imp (h : Has P t s) (hPQ : ∀ r, P r = true → Q r = true) : Has Q t s := by
  obtain ⟨th, r, hr, hP⟩ := h
  exact ⟨th, r, hr, hPQ r hP⟩

omit [DecidableEq θ] in
theorem Has.of_top (hs : s.stack th = l ++ fs) (h : ∃ r ∈ roles t l, P r = true) :
    Has P t s := by
  obtain ⟨r, hr, hP⟩ := h
  refine ⟨th, r, ?_, hP⟩
  rw [hs, roles_append]
  exact List.mem_append_left _ hr

/-- The calls that take the place of the popped ones. -/
theorem Has.of_new (h : ∃ r ∈ roles t gs, P r = true) : Has P t (s.after s' th now (gs ++ fs)) := by
  obtain ⟨r, hr, hP⟩ := h
  exact ⟨th, r, by simp [System.after, hr], hP⟩

omit [DecidableEq θ] in
theorem HasCount.has (h : HasCount P t s n) (hn : 0 < n) : Has P t s := by
  obtain ⟨th, hth⟩ := h.exists_pos hn
  obtain ⟨r, hr, hP⟩ := List.countP_pos_iff.mp hth
  exact ⟨th, r, hr, hP⟩

omit [DecidableEq θ] in
theorem HasCount.pos (h : HasCount P t s n) (hhas : Has P t s) : 0 < n := by
  obtain ⟨th, r, hr, hP⟩ := hhas
  exact (List.countP_pos_iff.mpr ⟨r, hr, hP⟩).trans_le (h.le th)

theorem HasOther.after {f : Frame ι} (hs : s.stack th = f :: fs) (h : HasOther P t s th) :
    Has P t (s.after s' th now (gs ++ fs)) := by
  obtain ⟨th', g, hg, hP⟩ := h
  refine ⟨th', _, List.mem_map.mpr ⟨g, ?_, rfl⟩, hP⟩
  by_cases hth : th' = th
  · subst hth
    have hg' : g ∈ fs := by simpa [System.others, hs] using hg
    simp [System.after, hg']
  · simpa [System.after, System.others, hth] using hg

section After

variable (hs : s.stack th = l ++ fs)
include hs

/-- A role that a call had before the step, if its call is not popped. -/
theorem Has.after (h : Has P t s)
    (hpop : (∃ r ∈ roles t l, P r = true) → Has P t (s.after s' th now (gs ++ fs))) :
    Has P t (s.after s' th now (gs ++ fs)) := by
  obtain ⟨th', r, hr, hP⟩ := h
  by_cases hth : th' = th
  · subst hth
    rw [hs, roles_append, List.mem_append] at hr
    rcases hr with hr | hr
    · exact hpop ⟨r, hr, hP⟩
    · refine ⟨th', r, ?_, hP⟩
      simp [System.after, hr]
  · exact ⟨th', r, by simpa [System.after, hth] using hr, hP⟩

theorem Has.before (h : Has P t (s.after s' th now (gs ++ fs))) :
    (∃ r ∈ roles t gs, P r = true) ∨ Has P t s := by
  obtain ⟨th', r, hr, hP⟩ := h
  by_cases hth : th' = th
  · subst hth
    simp only [System.after, Function.update_self, roles_append, List.mem_append] at hr
    rcases hr with hr | hr
    · exact .inl ⟨r, hr, hP⟩
    · exact .inr ⟨th', r, by rw [hs, roles_append]; exact List.mem_append_right _ hr, hP⟩
  · exact .inr ⟨th', r, by simpa [System.after, hth] using hr, hP⟩

theorem HasCount.after (h : HasCount P t s n) :
    ∃ m, HasCount P t (s.after s' th now (gs ++ fs)) m ∧
      m + (roles t l).countP P = n + (roles t gs).countP P := by
  have hle := h.le th
  simp only [hs, roles_append, List.countP_append] at hle
  refine ⟨_, (h.update th ((roles t (gs ++ fs)).countP P)).congr fun th' => ?_, ?_⟩
  · by_cases hth : th' = th
    · subst hth
      simp [System.after]
    · simp [System.after, hth]
  · simp only [hs, roles_append, List.countP_append]
    omega

end After

end Callout
end Gallus
