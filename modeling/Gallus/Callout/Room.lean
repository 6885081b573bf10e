import Gallus.Callout.Places

/-!
# Submitters that wait for room

`s_submit_task` puts an urgent or idle task into its queue with no time limit, and with the locks
taken. When the queue is full it waits for the main loop, which takes the first of these locks
before it fetches.

* `waitsForRoom s th`: the thread waits so.
* `never_waits_iff`: in a run nobody comes to wait so if and only if each submission finds room.
* `waits_fullQueue`: `CALLOUT_TASK_MAX` urgent tasks and one more.
-/

namespace Gallus
namespace Callout

variable {ι θ : Type} [DecidableEq ι] [DecidableEq θ]

/-- The thread waits for room in a queue, with the lock that the main loop takes before it
fetches. -/
def waitsForRoom (s : System ι θ) (th : θ) : Prop :=
  s.lck = some th ∧ ∃ t initialDelay interval fs,
    s.stack th = .submit t initialDelay interval .blocked :: fs

/-- A submission that is about to take the locks finds room for its task. -/
def Frame.hasRoom (w : Callout ι) : Frame ι → Bool
  | .submit _ initialDelay _ .lock =>
    if initialDelay = 0 then w.urgentTskQ.length < calloutTaskMax
    else 0 < initialDelay || decide (w.idleTskQ.length < calloutTaskMax)
  | _ => true

/-- Each submission finds room. -/
def hasRoom (s : System ι θ) (e : Event ι θ) : Prop :=
  ∀ f ∈ running s e, f.hasRoom s.w = true

def Frame.isBlocked : Frame ι → Bool
  | .submit _ _ _ .blocked => true
  | _ => false

/-- Nobody waits for room. -/
def NoneBlocked (s : System ι θ) : Prop := ∀ th, ∀ f ∈ s.stack th, f.isBlocked = false

variable {s s' s₁ : System ι θ} {th : θ} {now : Chrono} {t : ι} {f : Frame ι}
  {fs gs : List (Frame ι)}

/-! ## The put -/

theorem submitPut_isSome (w : Callout ι) (t : ι) (initialDelay interval now : Chrono) :
    (submitPut w t initialDelay now).isSome =
      (Frame.submit t initialDelay interval .lock).hasRoom w := by
  unfold submitPut Frame.hasRoom
  dsimp only
  split_ifs <;> simp_all

theorem submitLocked_blocked {initialDelay interval : Chrono}
    (hr : submitLocked s th t initialDelay interval now = (s', gs)) :
    (submitPut s.w t initialDelay now).isSome = true ∧ gs = [] ∨
      submitPut s.w t initialDelay now = none ∧ s'.lck = some th ∧
        gs = [.submit t initialDelay interval .blocked] := by
  unfold submitLocked at hr
  split at hr
  · rename_i w r hw
    cases hr
    exact .inl ⟨by simp [hw], rfl⟩
  · rename_i hw
    cases hr
    exact .inr ⟨hw, rfl, rfl⟩

/-- A submission at the locks. -/
theorem submitStep_blocked {initialDelay interval : Chrono} {q : SubmitPoint}
    (hf : (Frame.submit t initialDelay interval q).isBlocked = false)
    (hr : submitStep s th t initialDelay interval now q = some (s', gs)) :
    ((Frame.submit t initialDelay interval q).hasRoom s.w = true ∧
        ∀ g ∈ gs, g.isBlocked = false) ∨
      (Frame.submit t initialDelay interval q).hasRoom s.w = false ∧ s'.lck = some th ∧
        gs = [.submit t initialDelay interval .blocked] := by
  cases q <;> simp only [submitStep] at hr
  case check =>
    left
    split_ifs at hr <;> cases hr <;> simp [Frame.hasRoom, Frame.isBlocked]
  case lock =>
    split_ifs at hr
    have hroom : (submitPut (submitFields s.w t initialDelay interval) t initialDelay now).isSome =
        (Frame.submit t initialDelay interval .lock).hasRoom s.w :=
      submitPut_isSome (submitFields s.w t initialDelay interval) t initialDelay interval now
    rcases submitLocked_blocked (Option.some.inj hr) with ⟨hput, rfl⟩ | ⟨hput, hlck, rfl⟩
    · exact .inl ⟨hroom ▸ hput, by simp⟩
    · rw [show submitPut _ t initialDelay now = none from hput] at hroom
      exact .inr ⟨hroom.symm, hlck, rfl⟩
  case blocked => simp [Frame.isBlocked] at hf

/-! ## The other calls -/

theorem cancelStep_blocked {q : CancelPoint} (hr : cancelStep s th t q = some (s', gs)) :
    ∀ g ∈ gs, g.isBlocked = false := by
  cases q <;> simp only [cancelStep] at hr <;> (try split_ifs at hr) <;> cases hr
  all_goals simp [Frame.isBlocked]

theorem execStep_blocked {q : ExecPoint} (hr : execStep s th t now q = some (s', gs)) :
    ∀ g ∈ gs, g.isBlocked = false := by
  have hother : ∀ st, ∀ g ∈ notTheDequeuedState t st, g.isBlocked = false := by
    intro st
    unfold notTheDequeuedState
    split <;> simp [Frame.isBlocked]
  cases q <;> simp only [execStep, execResched] at hr <;> (try split_ifs at hr) <;>
    cases hr <;> first | exact hother _ | simp [Frame.isBlocked]

theorem destroyStep_blocked {unlock : Bool} {q : DestroyPoint}
    (hr : destroyStep s th t unlock q = some (s', gs)) : ∀ g ∈ gs, g.isBlocked = false := by
  cases q <;> simp only [destroyStep] at hr <;> (try split_ifs at hr) <;> cases hr <;>
    simp [Frame.isBlocked]

omit [DecidableEq ι] [DecidableEq θ] in
theorem finalTaskSched_blocked (s : System ι θ) (start : Chrono) (tasks : List ι) :
    (finalTaskSched s start tasks).isBlocked = false := by
  unfold finalTaskSched
  split_ifs <;> rfl

theorem forceStep_blocked {q : ForcePoint} (hr : forceStep s th t now q = some (s', gs)) :
    ∀ g ∈ gs, g.isBlocked = false := by
  cases q with
  | run =>
    cases hr
    simpa using finalTaskSched_blocked _ now [t]
  | check | lock =>
    simp only [forceStep] at hr
    split_ifs at hr <;> cases hr <;> simp [Frame.isBlocked]

/-! ## Batches -/

omit [DecidableEq θ] in
theorem fetchTimedStep_blocked {start : Chrono} {urgentTasks idleTasks : List ι}
    (hr : fetchTimedStep s start urgentTasks idleTasks = some (s', gs)) :
    ∀ g ∈ gs, g.isBlocked = false := by
  have hbatch : ∀ (s : System ι θ) (tasks : List ι),
      ∀ g ∈ fetchTimedStep.runBatch start s tasks, g.isBlocked = false := by
    intro s tasks
    unfold fetchTimedStep.runBatch
    split_ifs <;> simp [finalTaskSched_blocked]
  unfold fetchTimedStep at hr
  split_ifs at hr
  · dsimp only at hr
    split_ifs at hr
    cases hr
    exact hbatch _ _
  · cases hr
    exact hbatch _ _

omit [DecidableEq ι] in
theorem putStep_blocked {stride q left : Nat} {tasks : List ι}
    (hr : putStep s stride q left tasks = some (s', gs)) : ∀ g ∈ gs, g.isBlocked = false := by
  unfold putStep at hr
  split_ifs at hr
  · cases hr
    simp
  · cases hr
    simp [Frame.isBlocked]
  · split at hr
    · contradiction
    · dsimp only at hr
      split_ifs at hr <;> cases hr <;> simp [Frame.isBlocked]

/-! ## All steps -/

theorem frameStep_blocked (hf : f.isBlocked = false) (hr : frameStep s th now f = some (s', gs)) :
    (f.hasRoom s.w = true ∧ ∀ g ∈ gs, g.isBlocked = false) ∨
      f.hasRoom s.w = false ∧ s'.lck = some th ∧
        ∃ t initialDelay interval, gs = [.submit t initialDelay interval .blocked] := by
  cases f with
  | submit t initialDelay interval q =>
    rcases submitStep_blocked hf hr with h | ⟨hroom, hlck, hgs⟩
    · exact .inl h
    · exact .inr ⟨hroom, hlck, t, initialDelay, interval, hgs⟩
  | cancel t q => exact .inl ⟨rfl, cancelStep_blocked hr⟩
  | exec t q => exact .inl ⟨rfl, execStep_blocked hr⟩
  | destroy t unlock q => exact .inl ⟨rfl, destroyStep_blocked hr⟩
  | force t q => exact .inl ⟨rfl, forceStep_blocked hr⟩
  | fetch start =>
    simp only [frameStep, fetchStep] at hr
    split_ifs at hr
    cases hr
    exact .inl ⟨rfl, by simp [Frame.isBlocked]⟩
  | fetchTimed start urgentTasks idleTasks => exact .inl ⟨rfl, fetchTimedStep_blocked hr⟩
  | runTasksBySelf start tasks =>
    refine .inl ⟨rfl, ?_⟩
    cases tasks <;> simp only [frameStep, runTasksBySelfStep] at hr <;> (try split_ifs at hr) <;>
      cases hr <;> simp [Frame.isBlocked]
  | stamp start todo stamped =>
    refine .inl ⟨rfl, ?_⟩
    cases todo <;> simp only [frameStep, stampStep] at hr <;> (try split_ifs at hr) <;>
      cases hr <;> simp [Frame.isBlocked]
  | put stride q left tasks => exact .inl ⟨rfl, putStep_blocked hr⟩
  | worker tasks =>
    refine .inl ⟨rfl, ?_⟩
    cases tasks <;> cases hr <;> simp [Frame.isBlocked]

theorem callStep_blocked {op : Op ι} (hr : callStep s th now op = some (s', gs)) :
    ∀ g ∈ gs, g.isBlocked = false := by
  cases op <;> simp only [callStep] at hr
  case create =>
    obtain ⟨s₁, -, heq⟩ := Option.map_eq_some_iff.mp hr
    cases heq
    simp
  case resetInterval =>
    split_ifs at hr
    obtain ⟨s₁, -, heq⟩ := Option.map_eq_some_iff.mp hr
    cases heq
    simp
  all_goals
    split_ifs at hr
    cases hr
    simp [Frame.isBlocked]

omit [DecidableEq ι] in
/-- The calls of all threads after a step. -/
theorem NoneBlocked.after (h : NoneBlocked s) (hgs : ∀ g ∈ gs, g.isBlocked = false)
    (hfs : ∀ g ∈ fs, g ∈ s.stack th) : NoneBlocked (s.after s' th now (gs ++ fs)) := by
  refine mem_after (fun g hg => ?_) h
  rcases List.mem_append.mp hg with hg | hg
  · exact hgs g hg
  · exact h th g (hfs g hg)

/-- A step leads nobody into the wait exactly if it finds room. -/
theorem step_blocked {e : Event ι θ} (hstep : step s e = some s') :
    hasRoom s e ∧ (NoneBlocked s → NoneBlocked s') ∨
      ¬ hasRoom s e ∧ waitsForRoom s' e.thread := by
  cases step_cases hstep with
  | call hact hr =>
    exact .inl ⟨by simp [hasRoom, running, hact],
      fun h => h.after (callStep_blocked hr) fun _ => id⟩
  | go hact hs hr =>
    rename_i f fs gs s₁
    have hrun : running s e = some f := by simp [running, hact, hs]
    have hfs : ∀ g ∈ fs, g ∈ s.stack e.thread := fun g hg => hs ▸ List.mem_cons_of_mem _ hg
    cases hf : f.isBlocked with
    | true =>
      refine .inl ⟨?_, fun h => ?_⟩
      · cases f <;> simp only [Frame.isBlocked, Bool.false_eq_true] at hf
        rename_i q
        cases q <;> simp at hf
        simp [hasRoom, hrun, Frame.hasRoom]
      · exact absurd (h _ f (hs ▸ List.mem_cons_self)) (by simp [hf])
    | false =>
      rcases frameStep_blocked hf hr with
        ⟨hroom, hgs⟩ | ⟨hroom, hlck, t, initialDelay, interval, rfl⟩
      · exact .inl ⟨by simpa [hasRoom, hrun] using hroom, fun h => h.after hgs hfs⟩
      · refine .inr ⟨by simp [hasRoom, hrun, hroom], hlck, t, initialDelay, interval, fs, ?_⟩
        simp [System.after]
  | finish hact hs =>
    refine .inl ⟨by simp [hasRoom, running, hact], fun h => h.after ?_ fun g hg => ?_⟩
    · unfold execEnd
      split_ifs <;> simp [Frame.isBlocked]
    · exact hs ▸ List.mem_cons_of_mem _ hg
  | wake hact hs hwoken =>
    exact .inl ⟨by simp [hasRoom, running, hact],
      fun h => h.after (by simp [Frame.isBlocked]) fun g hg => hs ▸ List.mem_cons_of_mem _ hg⟩

omit [DecidableEq ι] [DecidableEq θ] in
theorem not_waitsForRoom (h : NoneBlocked s) (th : θ) : ¬ waitsForRoom s th := by
  rintro ⟨-, t, initialDelay, interval, fs, hs⟩
  exact absurd (h th _ (hs ▸ List.mem_cons_self)) (by simp [Frame.isBlocked])

omit [DecidableEq ι] [DecidableEq θ] in
theorem NoneBlocked.init (clock : Chrono) (mainLoop : θ) (workers : List θ) :
    NoneBlocked (System.init clock mainLoop workers : System ι θ) :=
  fun _ _ hf => absurd hf List.not_mem_nil

/-- **No wait for room.** In the states of a run nobody waits for room in a queue with the lock that
the main loop needs, if and only if each submission of the run finds room. -/
theorem never_waits_iff {clock : Chrono} {mainLoop : θ} {workers : List θ}
    {es : List (Event ι θ)} {s : System ι θ}
    (h : Trans.run step (System.init clock mainLoop workers) es = some s) :
    (∀ es₁ s₁, es₁ <+: es → Trans.run step (System.init clock mainLoop workers) es₁ = some s₁ →
        ∀ th, ¬ waitsForRoom s₁ th) ↔
      Trans.Run step hasRoom (System.init clock mainLoop workers) es s := by
  refine Trans.Run.iff_states (I := NoneBlocked) ?_ ?_ (fun _ hs => not_waitsForRoom hs)
    (NoneBlocked.init clock mainLoop workers) h
  · intro s e s' hs hok hstep
    rcases step_blocked hstep with ⟨-, hnext⟩ | ⟨hno, -⟩
    · exact hnext hs
    · exact absurd hok hno
  · intro s e s' _ hstep hnone
    rcases step_blocked hstep with ⟨hroom, -⟩ | ⟨-, hwait⟩
    · exact hroom
    · exact absurd hwait (hnone e.thread)

instance (s : System ι θ) (e : Event ι θ) : Decidable (hasRoom s e) :=
  inferInstanceAs (Decidable (∀ f ∈ running s e, f.hasRoom s.w = true))

/-- A task is created and submitted as an urgent one. -/
def submitNew (t : Nat) : List (Event Nat Nat) :=
  [⟨1, 0, .call (.create t false false)⟩, ⟨1, 0, .call (.submit t 0 0)⟩, ⟨1, 0, .go⟩, ⟨1, 0, .go⟩]

theorem never_waits_submitNew :
    ∃ s, Trans.run step (System.init 0 0 []) (submitNew 0) = some s ∧ s.w.urgentTskQ = [0] ∧
      ∀ es₁ s₁, es₁ <+: submitNew 0 → Trans.run step (System.init 0 0 []) es₁ = some s₁ →
        ∀ th, ¬ waitsForRoom s₁ th := by
  have h : ((Trans.run (Trans.guarded step hasRoom) (System.init 0 0 []) (submitNew 0)).map
      fun s => s.w.urgentTskQ) = some [0] := by decide +kernel
  obtain ⟨s, hrun, hs⟩ := Option.map_eq_some_iff.mp h
  have hroom := Trans.Run.of_guarded hrun
  exact ⟨s, hroom.run_eq, hs, (never_waits_iff hroom.run_eq).mpr hroom⟩

/-- The thread `1` has submitted the urgent tasks `0, ..., n - 1`. -/
structure Filled (n : Nat) (s : System Nat Nat) : Prop where
  clock : s.clock = 0
  lck : s.lck = none
  qLck : s.qLck = none
  stack : s.stack 1 = []
  urgent : s.w.urgentTskQ.length = n
  new : ∀ t, n ≤ t → (s.hist t).created = false ∧ s.taskLck t = none

theorem step_go (hclock : s.clock ≤ now) (hs : s.stack th = f :: fs)
    (hr : frameStep s th now f = some (s', gs)) :
    step s ⟨th, now, .go⟩ = some (s.after s' th now (gs ++ fs)) := by
  simp only [step, if_pos hclock, actStep, hs, hr]
  rfl

/-- One more task. It waits where `CALLOUT_TASK_MAX` are there already. -/
theorem Filled.submit {n : Nat} {s : System Nat Nat} (h : Filled n s) :
    ∃ s', Trans.run step s (submitNew n) = some s' ∧ (n < calloutTaskMax → Filled (n + 1) s') ∧
      (¬ n < calloutTaskMax → waitsForRoom s' 1) := by
  obtain ⟨hnew, htask⟩ := h.new n le_rfl
  have hrun : ∃ s₁, Trans.run step s ((submitNew n).take 3) = some s₁ ∧ s₁.clock = 0 ∧
      s₁.stack 1 = [.submit n 0 0 .lock] ∧ s₁.lck = none ∧ s₁.qLck = none ∧
      s₁.taskLck = s.taskLck ∧ s₁.w.urgentTskQ = s.w.urgentTskQ ∧
      ∀ t, t ≠ n → s₁.hist t = s.hist t := by
    simp +contextual [submitNew, Trans.run, step, actStep, h.clock, h.stack, canCall, callStep,
      createTask, h.lck, h.qLck, hnew, frameStep, submitStep, System.note, getStateInTable,
      setStateInTable, newTask, modTask]
  obtain ⟨s₁, hrun, hclock, hstack, hlck, hqLck, htaskLck, hurgent, hhist⟩ := hrun
  have hsplit : submitNew n = (submitNew n).take 3 ++ [⟨1, 0, .go⟩] := rfl
  have hlen : s₁.w.urgentTskQ.length = n := hurgent ▸ h.urgent
  have hframe : frameStep s₁ 1 0 (.submit n 0 0 .lock) =
      some (submitLocked { s₁ with w := submitFields s₁.w n 0 0 } 1 n 0 0 0) := by
    simp [frameStep, submitStep, hlck, hqLck, htaskLck, htask]
  generalize hr : submitLocked { s₁ with w := submitFields s₁.w n 0 0 } 1 n 0 0 0 = r at hframe
  obtain ⟨s₂, gs⟩ := r
  refine ⟨s₁.after s₂ 1 0 (gs ++ []), ?_, fun hn => ?_, fun hn => ?_⟩
  · rw [hsplit, Trans.run_append, hrun, Option.bind_some, Trans.run_cons,
      step_go (Int.le_of_eq hclock) hstack hframe]
    rfl
  · have hput : submitPut (submitFields s₁.w n 0 0) n 0 0 =
        some (setEnqueued (putUrgent (submitFields s₁.w n 0 0) n) n, Result.ok) := by
      simp [submitPut, submitFields, modTask, hlen, hn]
    have hq : (setEnqueued (putUrgent (submitFields s₁.w n 0 0) n) n).urgentTskQ =
        s₁.w.urgentTskQ ++ [n] := by
      unfold setEnqueued
      split_ifs <;> rfl
    unfold submitLocked at hr
    simp only [hput] at hr
    cases hr
    refine ⟨rfl, rfl, rfl, by simp [System.after], ?_, fun t ht => ?_⟩
    · simp [System.after, System.note, System.return_, hq, hlen]
    · have hne : t ≠ n := by omega
      simpa [System.after, System.note, System.return_, hne, htaskLck, hhist] using
        h.new t (by omega)
  · have hput : submitPut (submitFields s₁.w n 0 0) n 0 0 = none := by
      simp [submitPut, submitFields, modTask, hlen, hn]
    unfold submitLocked at hr
    simp only [hput] at hr
    cases hr
    exact ⟨rfl, n, 0, 0, [], by simp [System.after]⟩

theorem Filled.reach {n : Nat} (hn : n ≤ calloutTaskMax) :
    ∃ es s, Trans.run step (System.init 0 0 []) es = some s ∧ Filled n s := by
  induction n with
  | zero => exact ⟨[], _, rfl, rfl, rfl, rfl, rfl, rfl, fun _ _ => ⟨rfl, rfl⟩⟩
  | succ n ih =>
    obtain ⟨es, s, hrun, hfill⟩ := ih (by omega)
    obtain ⟨s', hrun', hnext, -⟩ := hfill.submit
    refine ⟨es ++ submitNew n, s', ?_, hnext (by omega)⟩
    rw [Trans.run_append, hrun]
    exact hrun'

/-- `CALLOUT_TASK_MAX` urgent tasks, and one more before the main loop has fetched. -/
theorem waits_fullQueue :
    ∃ es s, Trans.run step (System.init 0 0 [] : System Nat Nat) es = some s ∧
      waitsForRoom s 1 := by
  obtain ⟨es, s, hrun, hfill⟩ := Filled.reach le_rfl
  obtain ⟨s', hrun', -, hwait⟩ := hfill.submit
  refine ⟨es ++ submitNew calloutTaskMax, s', ?_, hwait (lt_irrefl _)⟩
  rw [Trans.run_append, hrun]
  exact hrun'

end Callout
end Gallus
