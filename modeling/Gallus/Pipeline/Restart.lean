import Gallus.Pipeline.Stage

/-!
# A start that fails (`pipeline_stage.c`, `pipeline_worker.c`)

`gallus_pipeline_stage_start` starts the workers one by one. If one of them cannot be started, those
that run are cancelled by `s_cancel_stage`, as in a shutdown right now, and waited for. The stage
can be started again.

* `StartStage`: the stage and its workers. A step is what a call does while nobody looks, or one
  access of a worker to the stage. What a pause has to wait for is left out; see `Stage`.
* `Stuck`: no worker gets through the test of its loop. `Stuck.step`: nothing but a shutdown changes
  that.
* `failedStart_stuck`: a failed start leaves the stage so, and `failedStart_not_runsNormally`: the
  next start is in vain.
* `looping_of_noFailure`: before a start fails, the workers keep looping.
-/

namespace Gallus
namespace StageStart

open Pipeline (StageState ShutdownLevel)

/-- A worker, with `st` of its loop. -/
inductive WorkerState
  /-- Not started. -/
  | none
  /-- At the `while` test. -/
  | looping (st : Result)
  /-- In the procedures of the stage. -/
  | busy
  | paused (st : Result)
  /-- Behind the loop. -/
  | left (st : Result)
  | canceled
  deriving DecidableEq, Repr

/-- The worker has come to its end. -/
def WorkerState.ended : WorkerState → Bool
  | .none | .left _ | .canceled => true
  | _ => false

/-- Where the start that holds `m_lock` is. -/
inductive Phase
  | idle
  /-- The worker `i` is the next one. -/
  | starting (i : Nat)
  /-- In `s_wait_stage`, for the first `n` workers. -/
  | waiting (n : Nat)
  deriving DecidableEq, Repr

/-- `gallus_pipeline_stage_record`. -/
structure StartStage where
  nWorkers : Nat
  status : StageState
  doLoop : Bool
  sgLvl : ShutdownLevel
  pauseRequested : Bool
  phase : Phase
  worker : Nat → WorkerState

/-- One step. A call that is rejected changes nothing, and is no step. -/
inductive Event
  /-- `gallus_pipeline_stage_setup`, with a setup procedure that succeeds. -/
  | setup
  | start
  | startWorker (ok : Bool)
  | started
  | rolledBack
  /-- The `while` test of a worker, and the one of `m_pause_requested` behind it. -/
  | test (i : Nat)
  | wake (i : Nat)
  /-- The body of its loop ends. -/
  | finish (i : Nat) (result : Result)
  | cancel (i : Nat)
  | pause | paused | resume
  | shutdown (lvl : ShutdownLevel)
  /-- `gallus_pipeline_stage_wait`. -/
  | waited
  deriving DecidableEq, Repr

/-- What a worker does. -/
def Event.ofWorker : Event → Bool
  | .test _ | .wake _ | .finish _ _ | .cancel _ => true
  | _ => false

def Event.isShutdown : Event → Bool
  | .shutdown _ => true
  | _ => false

namespace StartStage

/-- `gallus_pipeline_stage_create`. -/
def created (nWorkers : Nat) : StartStage where
  nWorkers := nWorkers
  status := .initialized
  doLoop := false
  sgLvl := .unknown
  pauseRequested := false
  phase := .idle
  worker _ := .none

def setWorker (s : StartStage) (i : Nat) (w : WorkerState) : StartStage :=
  { s with worker := Function.update s.worker i w }

/-- The stage can be started. -/
def startable (s : StartStage) : Prop :=
  s.status = .initialized ∨ s.status = .setup ∨ s.status = .finalized

instance (s : StartStage) : Decidable s.startable := inferInstanceAs (Decidable (_ ∨ _ ∨ _))

/-- `s_cancel_stage`, but for `pthread_cancel`. -/
def cancelStage (s : StartStage) : StartStage := { s with sgLvl := .rightNow, doLoop := false }

/-- `gallus_pipeline_stage_shutdown`, of a stage that is not paused. -/
def shutdown (s : StartStage) (lvl : ShutdownLevel) : StartStage :=
  if lvl = .rightNow then { s with sgLvl := lvl }.cancelStage else { s with sgLvl := lvl }

/-- The test of a worker. -/
def test (s : StartStage) (i : Nat) (st : Result) : StartStage :=
  if s.doLoop = true ∧ (0 < st ∨ st = 0 ∧ s.sgLvl = .unknown) then
    s.setWorker i (if s.pauseRequested then .paused st else .busy)
  else s.setWorker i (.left st)

/-- What a worker does next. -/
def workerStep (s : StartStage) (i : Nat) : Event → Option StartStage
  | .test _ =>
    match s.worker i with
    | .looping st => some (s.test i st)
    | _ => none
  | .wake _ =>
    match s.worker i with
    | .paused st => if s.pauseRequested then none else some (s.setWorker i (.looping st))
    | _ => none
  | .finish _ result =>
    match s.worker i with
    | .busy => some (s.setWorker i (if result < 0 then .left result else .looping result))
    | _ => none
  | .cancel _ =>
    if s.doLoop = false ∧ s.sgLvl = .rightNow then
      match s.worker i with
      | .busy | .paused _ => some (s.setWorker i .canceled)
      | _ => none
    else none
  | _ => none

/-- `gallus_pipeline_stage_start`, from one step to the next. -/
def startStep (s : StartStage) : Event → Option StartStage
  | .start =>
    if s.phase = .idle ∧ s.startable then
      some { s with doLoop := true, phase := .starting 0, worker := fun _ => .none }
    else none
  | .startWorker ok =>
    match s.phase with
    | .starting i =>
      if i < s.nWorkers then
        if ok then some { s.setWorker i (.looping 0) with phase := .starting (i + 1) }
        -- `i` has been counted up when the loop ends.
        else some { s.cancelStage with phase := .waiting (i + 1) }
      else none
    | _ => none
  | .started =>
    if s.phase = .starting s.nWorkers then some { s with status := .started, phase := .idle }
    else none
  | .rolledBack =>
    match s.phase with
    | .waiting n =>
      if ∀ i < n, (s.worker i).ended = true then some { s with phase := .idle } else none
    | _ => none
  | _ => none

/-- The other calls, which `m_lock` keeps apart from a start. -/
def callStep (s : StartStage) : Event → Option StartStage
  | .setup => if s.status = .initialized then some { s with status := .setup } else none
  | .pause => if s.status = .started then some { s with pauseRequested := true } else none
  | .paused =>
    if s.status = .started ∧ s.pauseRequested = true then some { s with status := .paused }
    else none
  | .resume =>
    if s.status = .paused then some { s with pauseRequested := false, status := .started } else none
  | .shutdown lvl =>
    if s.status = .started then some (s.shutdown lvl)
    else if s.status = .paused then
      some ({ s with pauseRequested := false, status := .started }.shutdown lvl)
    else none
  | .waited =>
    if s.status = .started ∧ ∀ i < s.nWorkers, (s.worker i).ended = true then
      some { s with
        status := if ∃ i < s.nWorkers, s.worker i = .canceled then .canceled else .shutdown
        doLoop := false }
    else none
  | _ => none

/-- One step. -/
def step (s : StartStage) (e : Event) : Option StartStage :=
  match e with
  | .test i | .wake i | .finish i _ | .cancel i => s.workerStep i e
  | .start | .startWorker _ | .started | .rolledBack => s.startStep e
  | _ => if s.phase = .idle then s.callStep e else none

end StartStage

variable {s s' s₁ : StartStage} {e : Event} {i k : Nat}

/-! ## What a step can do -/

/-- A worker's step: the test of its loop, or anything else it does where it is. -/
theorem workerStep_cases (h : s.workerStep i e = some s') :
    (∃ st, s.worker i = .looping st ∧ s' = s.test i st) ∨
    (∃ st, s.worker i = .paused st ∧ s' = s.setWorker i (.looping st)) ∨
    (∃ result, s.worker i = .busy ∧
      s' = s.setWorker i (if result < 0 then .left result else .looping result)) ∨
    (s.sgLvl = .rightNow ∧ s.worker i ≠ .none ∧ s' = s.setWorker i .canceled) := by
  cases e <;> simp only [StartStage.workerStep, reduceCtorEq] at h
  · split at h
    · next st hw =>
      cases h
      exact .inl ⟨st, hw, rfl⟩
    · cases h
  · split at h
    · next st hw =>
      split_ifs at h
      cases h
      exact .inr (.inl ⟨st, hw, rfl⟩)
    · cases h
  · split at h
    · next hw =>
      cases h
      exact .inr (.inr (.inl ⟨_, hw, rfl⟩))
    · cases h
  · split_ifs at h with hcan
    split at h
    · next hw =>
      cases h
      exact .inr (.inr (.inr ⟨hcan.2, by simp [hw], rfl⟩))
    · next hw =>
      cases h
      exact .inr (.inr (.inr ⟨hcan.2, by simp [hw], rfl⟩))
    · cases h

/-- Nothing but the worker changes, and it has been started. -/
theorem workerStep_setWorker (h : s.workerStep i e = some s') :
    s.worker i ≠ .none ∧ ∃ w, s' = s.setWorker i w := by
  rcases workerStep_cases h with ⟨st, hw, rfl⟩ | ⟨st, hw, rfl⟩ | ⟨result, hw, rfl⟩ | ⟨-, hw, rfl⟩
  · refine ⟨by simp [hw], ?_⟩
    unfold StartStage.test
    split_ifs
    · exact ⟨_, rfl⟩
    · exact ⟨_, rfl⟩
    · exact ⟨_, rfl⟩
  · exact ⟨by simp [hw], _, rfl⟩
  · exact ⟨by simp [hw], _, rfl⟩
  · exact ⟨hw, _, rfl⟩

/-- A step of a start. -/
theorem startStep_cases (h : s.startStep e = some s') :
    (s.phase = .idle ∧ s.startable ∧
      s' = { s with doLoop := true, phase := .starting 0, worker := fun _ => .none }) ∨
    (∃ i, s.phase = .starting i ∧ i < s.nWorkers ∧
      s' = { s.setWorker i (.looping 0) with phase := .starting (i + 1) }) ∨
    (∃ i, s.phase = .starting i ∧ i < s.nWorkers ∧ e = .startWorker false ∧
      s' = { s.cancelStage with phase := .waiting (i + 1) }) ∨
    (s.phase = .starting s.nWorkers ∧ s' = { s with status := .started, phase := .idle }) ∨
    (∃ n, s.phase = .waiting n ∧ (∀ i < n, (s.worker i).ended = true) ∧
      s' = { s with phase := .idle }) := by
  cases e <;> simp only [StartStage.startStep, reduceCtorEq] at h
  · split_ifs at h with hidle
    cases h
    exact .inl ⟨hidle.1, hidle.2, rfl⟩
  · split at h
    · next i hi =>
      split_ifs at h with hlt hok
      · cases h
        exact .inr (.inl ⟨i, hi, hlt, rfl⟩)
      · cases h
        exact .inr (.inr (.inl ⟨i, hi, hlt, by simpa using hok, rfl⟩))
    · cases h
  · split_ifs at h with hn
    cases h
    exact .inr (.inr (.inr (.inl ⟨hn, rfl⟩)))
  · split at h
    · next n hn =>
      split_ifs at h with hall
      cases h
      exact .inr (.inr (.inr (.inr ⟨n, hn, hall, rfl⟩)))
    · cases h

/-- Another call changes no worker. It changes the level only if it is a shutdown, and stops the
loop only then or when all the workers have ended. -/
theorem callStep_cases (h : s.callStep e = some s') :
    s'.worker = s.worker ∧ s'.phase = s.phase ∧ s'.nWorkers = s.nWorkers ∧
      (e.isShutdown = false → s'.sgLvl = s.sgLvl ∧
        (s'.doLoop = s.doLoop ∨ ∀ i < s.nWorkers, (s.worker i).ended = true)) := by
  cases e <;> simp only [StartStage.callStep, reduceCtorEq] at h
  · split_ifs at h
    cases h
    exact ⟨rfl, rfl, rfl, fun _ => ⟨rfl, .inl rfl⟩⟩
  · split_ifs at h
    cases h
    exact ⟨rfl, rfl, rfl, fun _ => ⟨rfl, .inl rfl⟩⟩
  · split_ifs at h
    cases h
    exact ⟨rfl, rfl, rfl, fun _ => ⟨rfl, .inl rfl⟩⟩
  · split_ifs at h
    cases h
    exact ⟨rfl, rfl, rfl, fun _ => ⟨rfl, .inl rfl⟩⟩
  · unfold StartStage.shutdown at h
    split_ifs at h <;> cases h <;> exact ⟨rfl, rfl, rfl, nofun⟩
  · split_ifs at h with hall <;> cases h <;>
      exact ⟨rfl, rfl, rfl, fun _ => ⟨rfl, .inr hall.2⟩⟩

theorem startStep_ofWorker (he : e.ofWorker = true) : s.startStep e = none := by
  cases e <;> first | rfl | cases he

theorem callStep_ofWorker (he : e.ofWorker = true) : s.callStep e = none := by
  cases e <;> first | rfl | cases he

/-- Every step is of a worker, of a start or of another call. -/
theorem step_cases (h : s.step e = some s') :
    (e.ofWorker = true ∧ ∃ i, s.workerStep i e = some s') ∨
    s.startStep e = some s' ∨
    (s.phase = .idle ∧ s.callStep e = some s') := by
  unfold StartStage.step at h
  split at h
  · exact .inl ⟨rfl, _, h⟩
  · exact .inl ⟨rfl, _, h⟩
  · exact .inl ⟨rfl, _, h⟩
  · exact .inl ⟨rfl, _, h⟩
  · exact .inr (.inl h)
  · exact .inr (.inl h)
  · exact .inr (.inl h)
  · exact .inr (.inl h)
  · split_ifs at h with hidle
    exact .inr (.inr ⟨hidle, h⟩)

/-! ## Starts -/

/-- The worker that is the next one to be started, or to be waited for. -/
def Phase.next : Phase → Option Nat
  | .idle => .none
  | .starting i | .waiting i => some i

/-- What holds in every state of a stage with `n` workers. -/
structure InStart (n : Nat) (s : StartStage) : Prop where
  nWorkers : s.nWorkers = n
  /-- A start begins where the stage can be started, and changes that at its end only. -/
  startable : s.phase ≠ .idle → s.startable
  /-- The workers from the next one on have not been started. -/
  rest : ∀ m ∈ s.phase.next, ∀ j, m ≤ j → s.worker j = .none
  beyond : ∀ j, n ≤ j → s.worker j = .none

theorem InStart.created (n : Nat) : InStart n (.created n) :=
  ⟨rfl, fun h => absurd rfl h, nofun, fun _ _ => rfl⟩

theorem setWorker_of_none {j : Nat} {w : WorkerState} (hi : s.worker i ≠ .none)
    (hj : s.worker j = .none) : (s.setWorker i w).worker j = .none := by
  have hne : j ≠ i := fun h => hi (h ▸ hj)
  show Function.update s.worker i w j = .none
  rw [Function.update_of_ne hne, hj]

theorem InStart.step {n : Nat} (h : InStart n s) (hs : s.step e = some s') : InStart n s' := by
  rcases step_cases hs with ⟨-, i, hw⟩ | hstart | ⟨hidle, hcall⟩
  · obtain ⟨hi, w, rfl⟩ := workerStep_setWorker hw
    exact ⟨h.nWorkers, h.startable, fun m hm j hj => setWorker_of_none hi (h.rest m hm j hj),
      fun j hj => setWorker_of_none hi (h.beyond j hj)⟩
  · obtain ⟨hidle, hcan, rfl⟩ | ⟨i, hi, hlt, rfl⟩ | ⟨i, hi, hlt, -, rfl⟩ | ⟨hn, rfl⟩ |
      ⟨n, hn, hall, rfl⟩ := startStep_cases hstart
    · exact ⟨h.nWorkers, fun _ => hcan, fun _ _ _ _ => rfl, fun _ _ => rfl⟩
    · have hrest := h.rest i (by rw [hi]; rfl)
      have hset : ∀ j, i + 1 ≤ j → Function.update s.worker i (.looping 0) j = .none := by
        intro j hj
        rw [Function.update_of_ne (by omega)]
        exact hrest j (by omega)
      refine ⟨h.nWorkers, fun _ => h.startable (by rw [hi]; nofun), ?_, ?_⟩
      · rintro m hm j hj
        cases hm
        exact hset j hj
      · intro j hj
        rw [← h.nWorkers] at hj
        exact hset j (by omega)
    · have hrest := h.rest i (by rw [hi]; rfl)
      refine ⟨h.nWorkers, fun _ => h.startable (by rw [hi]; nofun), ?_, h.beyond⟩
      rintro m hm j hj
      cases hm
      exact hrest j (by omega)
    · exact ⟨h.nWorkers, fun hne => absurd rfl hne, nofun, h.beyond⟩
    · exact ⟨h.nWorkers, fun hne => absurd rfl hne, nofun, h.beyond⟩
  · obtain ⟨hworker, hphase, hn, -⟩ := callStep_cases hcall
    refine ⟨hn.trans h.nWorkers, fun hne => absurd (hphase.trans hidle) hne, ?_, ?_⟩
    · rw [hphase, hworker]
      exact h.rest
    · rw [hworker]
      exact h.beyond

theorem InStart.run {n : Nat} {es : List Event}
    (hrun : Trans.run StartStage.step (.created n) es = some s) : InStart n s :=
  Trans.Run.inv (fun _ _ _ h _ hs => h.step hs) (Trans.Run.all_iff.mpr hrun) (.created n)

/-! ## A stage on which nothing can run -/

/-- No worker has got through the test of its loop, and none will. -/
structure Stuck (s : StartStage) : Prop where
  sgLvl : s.sgLvl = .rightNow
  workers : ∀ i, (s.worker i).ended = true ∨ s.worker i = .looping 0

theorem Stuck.setWorker (h : Stuck s) {w : WorkerState} (hw : w.ended = true ∨ w = .looping 0) :
    Stuck (s.setWorker i w) := by
  refine ⟨h.sgLvl, fun j => ?_⟩
  show (Function.update s.worker i w j).ended = true ∨ Function.update s.worker i w j = .looping 0
  by_cases hj : j = i
  · subst hj
    rwa [Function.update_self]
  · rw [Function.update_of_ne hj]
    exact h.workers j

/-- A worker at its test leaves. -/
theorem Stuck.test (h : Stuck s) : s.test i 0 = s.setWorker i (.left 0) := by
  unfold StartStage.test
  rw [if_neg]
  rintro ⟨-, hpos | ⟨-, hlvl⟩⟩
  · exact lt_irrefl 0 hpos
  · rw [h.sgLvl] at hlvl
    cases hlvl

/-- **Nothing but a shutdown** gets the stage out of it: not another start either. -/
theorem Stuck.step (h : Stuck s) (he : e.isShutdown = false) (hs : s.step e = some s') :
    Stuck s' := by
  rcases step_cases hs with ⟨-, i, hworker⟩ | hstart | ⟨-, hcall⟩
  · have hi := h.workers i
    obtain ⟨st, hw, rfl⟩ | ⟨st, hw, rfl⟩ | ⟨result, hw, rfl⟩ | ⟨-, -, rfl⟩ :=
      workerStep_cases hworker
    · rw [hw] at hi
      rcases hi with hended | hst
      · cases hended
      · cases hst
        rw [h.test]
        exact h.setWorker (.inl rfl)
    · rw [hw] at hi
      rcases hi with hended | hst
      · cases hended
      · cases hst
    · rw [hw] at hi
      rcases hi with hended | hst
      · cases hended
      · cases hst
    · exact h.setWorker (.inl rfl)
  · obtain ⟨-, -, rfl⟩ | ⟨i, -, -, rfl⟩ | ⟨i, -, -, -, rfl⟩ | ⟨-, rfl⟩ | ⟨n, -, -, rfl⟩ :=
      startStep_cases hstart
    · exact ⟨h.sgLvl, fun _ => .inl rfl⟩
    · have hset := h.setWorker (i := i) (w := .looping 0) (.inr rfl)
      exact ⟨hset.sgLvl, hset.workers⟩
    · exact ⟨rfl, h.workers⟩
    · exact ⟨h.sgLvl, h.workers⟩
    · exact ⟨h.sgLvl, h.workers⟩
  · obtain ⟨hworker, -, -, hlvl⟩ := callStep_cases hcall
    refine ⟨(hlvl he).1.trans h.sgLvl, ?_⟩
    rw [hworker]
    exact h.workers

theorem Stuck.run (h : Stuck s) {es : List Event} (hes : ∀ e ∈ es, e.isShutdown = false)
    (hrun : Trans.run StartStage.step s es = some s') : Stuck s' :=
  have hok : Trans.Run StartStage.step (fun _ e => e.isShutdown = false) s es s' :=
    Trans.Run.of_run (fun e he _ => hes e he) hrun
  hok.inv (fun _ _ _ h he hs => h.step he hs) h

/-! ## A failed start -/

/-- The start of the worker `k` fails, and the roll-back goes from `s` to `s'`, while the workers do
anything. -/
def FailsAt (k : Nat) (s s' : StartStage) : Prop :=
  s.phase = .starting k ∧ ∃ ws : List Event, (∀ e ∈ ws, e.ofWorker = true) ∧
    Trans.run StartStage.step s (.startWorker false :: (ws ++ [.rolledBack])) = some s'

/-- The roll-back of `n` workers, before its last step. -/
structure RollingBack (n m : Nat) (s : StartStage) : Prop where
  phase : s.phase = .waiting m
  sgLvl : s.sgLvl = .rightNow
  inStart : InStart n s

theorem RollingBack.worker {n m : Nat} (h : RollingBack n m s) (he : e.ofWorker = true)
    (hs : s.step e = some s') : RollingBack n m s' := by
  rcases step_cases hs with ⟨-, i, hworker⟩ | hstart | ⟨-, hcall⟩
  · obtain ⟨-, w, rfl⟩ := workerStep_setWorker hworker
    exact ⟨h.phase, h.sgLvl, h.inStart.step hs⟩
  · rw [startStep_ofWorker he] at hstart
    cases hstart
  · rw [callStep_ofWorker he] at hcall
    cases hcall

/-- **A failed start** leaves a stage that can be started and on which nothing can run. -/
theorem failedStart_stuck {n : Nat} (h : InStart n s) (hfails : FailsAt k s s') :
    k < n ∧ s'.phase = .idle ∧ s'.startable ∧ s'.nWorkers = n ∧ Stuck s' := by
  obtain ⟨hphase, ws, hws, hrun⟩ := hfails
  rw [Trans.run_cons, Option.bind_eq_some_iff] at hrun
  obtain ⟨s₁, hfirst, hrun⟩ := hrun
  rw [Trans.run_append, Option.bind_eq_some_iff] at hrun
  obtain ⟨s₂, hwait, hlast⟩ := hrun
  have hs₁ := h.step hfirst
  have hbegin : k < n ∧ RollingBack n (k + 1) s₁ := by
    simp only [StartStage.step, StartStage.startStep, hphase, Bool.false_eq_true,
      if_false] at hfirst
    split_ifs at hfirst with hlt
    cases hfirst
    exact ⟨h.nWorkers ▸ hlt, rfl, rfl, hs₁⟩
  have hok : Trans.Run StartStage.step (fun _ e => e.ofWorker = true) s₁ ws s₂ :=
    Trans.Run.of_run (fun e he _ => hws e he) hwait
  have hback : RollingBack n (k + 1) s₂ :=
    hok.inv (fun _ _ _ h he hs => h.worker he hs) hbegin.2
  have hs' : s₂.step .rolledBack = some s' := by
    rw [Trans.run_cons, Option.bind_eq_some_iff] at hlast
    obtain ⟨s₃, hstep, hnil⟩ := hlast
    cases hnil
    exact hstep
  simp only [StartStage.step, StartStage.startStep, hback.phase] at hs'
  split_ifs at hs' with hall
  cases hs'
  refine ⟨hbegin.1, rfl, hback.inStart.startable (by rw [hback.phase]; nofun),
    hback.inStart.nWorkers, hback.sgLvl, fun i => ?_⟩
  by_cases hi : i < k + 1
  · exact .inl (hall i hi)
  · have hnone := hback.inStart.rest (k + 1) (by rw [hback.phase]; rfl) i (by omega)
    exact .inl (by show (s₂.worker i).ended = true; rw [hnone]; rfl)

/-- The start of the workers from `i` on. -/
theorem run_startWorkers {j : Nat} (hphase : s.phase = .starting i) (hj : i + j ≤ s.nWorkers) :
    Trans.run StartStage.step s (List.replicate j (.startWorker true)) = some { s with
      phase := .starting (i + j)
      worker := fun m => if i ≤ m ∧ m < i + j then .looping 0 else s.worker m } := by
  induction j generalizing s i with
  | zero =>
    have hnone : (fun m => if i ≤ m ∧ m < i + 0 then WorkerState.looping 0 else s.worker m) =
        s.worker := funext fun m => if_neg (by omega)
    rw [List.replicate_zero, Trans.run_nil, hnone, Nat.add_zero, ← hphase]
  | succ j ih =>
    have hstep : s.step (.startWorker true) =
        some { s.setWorker i (.looping 0) with phase := .starting (i + 1) } := by
      simp only [StartStage.step, StartStage.startStep, hphase]
      rw [if_pos (by omega)]
      rfl
    rw [List.replicate_succ, Trans.run_cons, hstep, Option.bind_some,
      ih rfl (by show i + 1 + j ≤ s.nWorkers; omega)]
    congr 2
    · rw [Nat.add_right_comm, Nat.add_assoc]
    · funext m
      by_cases hm : m = i
      · subst hm
        rw [if_neg (by omega), if_pos (by omega)]
        exact Function.update_self ..
      · simp only [StartStage.setWorker, Function.update_of_ne hm]
        congr 1
        rw [eq_iff_iff]
        omega

/-- A start that succeeds. -/
theorem run_start (hidle : s.phase = .idle) (hcan : s.startable) :
    Trans.run StartStage.step s
        (.start :: (List.replicate s.nWorkers (.startWorker true) ++ [.started])) =
      some { s with
        status := .started
        doLoop := true
        worker := fun m => if m < s.nWorkers then .looping 0 else .none } := by
  have hstep : s.step .start =
      some { s with doLoop := true, phase := .starting 0, worker := fun _ => .none } := by
    simp only [StartStage.step, StartStage.startStep]
    rw [if_pos ⟨hidle, hcan⟩]
  rw [Trans.run_cons, hstep, Option.bind_some, Trans.run_append,
    run_startWorkers (i := 0) rfl (by simp), Option.bind_some, Trans.run_cons]
  simp only [StartStage.step, StartStage.startStep, Nat.zero_add, if_true, Option.bind_some,
    Trans.run_nil, Nat.zero_le, true_and, ← hidle]

/-- What is to follow a start: until a shutdown is requested, a worker of a started stage leaves its
loop only because of a negative result. -/
def RunsNormally (s : StartStage) : Prop :=
  ∀ es s', Trans.run StartStage.step s es = some s' → (∀ e ∈ es, e.isShutdown = false) →
    s'.status = .started → ∀ i st, s'.worker i = .left st → st < 0

/-- **No failed start is without consequence.** In any run of any stage, whichever worker cannot be
started: when the stage is started again, a worker leaves its loop at the first test. -/
theorem failedStart_not_runsNormally {n : Nat} {es : List Event}
    (hrun : Trans.run StartStage.step (.created n) es = some s) (hfails : FailsAt k s s') :
    ¬RunsNormally s' := by
  obtain ⟨hk, hidle, hcan, hn, hstuck⟩ := failedStart_stuck (.run hrun) hfails
  intro hnormal
  have hstart := run_start hidle hcan
  generalize hs₁ : ({ s' with
    status := .started
    doLoop := true
    worker := fun m => if m < s'.nWorkers then WorkerState.looping 0 else .none } : StartStage) = s₁
    at hstart
  have hes : ∀ e ∈ Event.start :: (List.replicate s'.nWorkers (.startWorker true) ++ [.started]),
      e.isShutdown = false := by
    intro e he
    simp only [List.mem_cons, List.mem_append, List.mem_replicate, List.not_mem_nil, or_false] at he
    rcases he with rfl | ⟨-, rfl⟩ | rfl <;> rfl
  have hstuck₁ : Stuck s₁ := hstuck.run hes hstart
  have hfirst : s₁.worker 0 = .looping 0 := by
    rw [← hs₁]
    exact if_pos (by omega)
  have htest : s₁.step (.test 0) = some (s₁.setWorker 0 (.left 0)) := by
    simp only [StartStage.step, StartStage.workerStep, hfirst, hstuck₁.test]
  refine absurd (hnormal
    (Event.start :: (List.replicate s'.nWorkers (.startWorker true) ++ [.started]) ++ [.test 0])
    (s₁.setWorker 0 (.left 0)) ?_ ?_ ?_ 0 0 ?_) (lt_irrefl 0)
  · rw [Trans.run_append, hstart, Option.bind_some, Trans.run_cons, htest]
    rfl
  · intro e he
    rcases List.mem_append.mp he with he | he
    · exact hes e he
    · rw [List.mem_singleton.mp he]
      rfl
  · rw [← hs₁]
    rfl
  · show Function.update s₁.worker 0 (.left 0) 0 = .left 0
    rw [Function.update_self]

/-- The third of three workers cannot be started while the first one is at work. -/
def startThree : List Event :=
  [.setup, .start, .startWorker true, .test 0, .startWorker true]

/-- The workers that run get to their ends. -/
def endTwo : List Event := [.cancel 0, .test 1]

theorem failedStart_not_runsNormally_three :
    ∃ s s', Trans.run StartStage.step (.created 3) startThree = some s ∧ FailsAt 2 s s' ∧
      s'.worker 0 = .canceled ∧ ¬RunsNormally s' := by
  obtain ⟨s, hs, heq⟩ := Option.map_eq_some_iff.mp
    (show (Trans.run StartStage.step (.created 3) startThree).map (·.phase) =
      some (.starting 2) by decide)
  obtain ⟨s', hs', hworker⟩ := Option.map_eq_some_iff.mp
    (show (Trans.run StartStage.step (.created 3)
        (startThree ++ .startWorker false :: (endTwo ++ [.rolledBack]))).map (·.worker 0) =
      some .canceled by decide)
  rw [Trans.run_append, hs, Option.bind_some] at hs'
  have hfails : FailsAt 2 s s' := ⟨heq, endTwo, by decide, hs'⟩
  exact ⟨s, s', hs, hfails, hworker, failedStart_not_runsNormally hs hfails⟩

/-- The only worker cannot be started, and the second start leaves a started stage without a worker.
-/
theorem failedStart_oneWorker :
    (Trans.run StartStage.step (.created 1) [.start, .startWorker false, .rolledBack, .start,
        .startWorker true, .started, .test 0]).map (fun s => (s.status, s.sgLvl, s.worker 0)) =
      some (.started, .rightNow, .left 0) := by
  decide

/-! ## Without a failure -/

/-- A worker that has not been told to stop. -/
def WorkerState.sound : WorkerState → Prop
  | .looping st | .paused st => 0 ≤ st
  | .left st => st < 0
  | _ => True

/-- No start has failed, and no shutdown has been requested. -/
structure Fresh (s : StartStage) : Prop where
  sgLvl : s.sgLvl = .unknown
  phase : ∀ m, s.phase ≠ .waiting m
  starting : ∀ i, s.phase = .starting i → s.doLoop = true
  running : ∀ i, (s.worker i).ended = false → s.doLoop = true
  sound : ∀ i, (s.worker i).sound
  beyond : ∀ j, s.nWorkers ≤ j → s.worker j = .none

/-- Neither a failure nor a shutdown. -/
def Event.smooth (e : Event) : Bool := !e.isShutdown && e != .startWorker false

theorem Fresh.setWorker (h : Fresh s) {w : WorkerState} (hi : (s.worker i).ended = false)
    (hw : w.sound) : Fresh (s.setWorker i w) := by
  have hloop := h.running i hi
  refine ⟨h.sgLvl, h.phase, h.starting, fun _ _ => hloop, fun j => ?_, fun j hj => ?_⟩
  · show (Function.update s.worker i w j).sound
    by_cases hj : j = i
    · subst hj
      rwa [Function.update_self]
    · rw [Function.update_of_ne hj]
      exact h.sound j
  · refine setWorker_of_none (fun hnone => ?_) (h.beyond j hj)
    rw [hnone] at hi
    cases hi

theorem Fresh.worker (h : Fresh s) (hs : s.workerStep i e = some s') : Fresh s' := by
  have hi := h.sound i
  have hrun := h.running i
  obtain ⟨st, hw, rfl⟩ | ⟨st, hw, rfl⟩ | ⟨result, hw, rfl⟩ | ⟨hlvl, -⟩ := workerStep_cases hs
  · rw [hw] at hi hrun
    have hended : (s.worker i).ended = false := by rw [hw]; rfl
    unfold StartStage.test
    have hgoes : s.doLoop = true ∧ (0 < st ∨ st = 0 ∧ s.sgLvl = .unknown) := by
      refine ⟨hrun rfl, ?_⟩
      rcases lt_or_eq_of_le hi with hpos | hzero
      · exact .inl hpos
      · exact .inr ⟨hzero.symm, h.sgLvl⟩
    rw [if_pos hgoes]
    refine h.setWorker hended ?_
    split_ifs
    · exact hi
    · trivial
  · rw [hw] at hi
    exact h.setWorker (by rw [hw]; rfl) hi
  · refine h.setWorker (by rw [hw]; rfl) ?_
    split_ifs with hneg
    · exact hneg
    · exact not_lt.mp hneg
  · rw [h.sgLvl] at hlvl
    cases hlvl

/-- **One step.** -/
theorem Fresh.step (h : Fresh s) (he : e.smooth = true) (hs : s.step e = some s') : Fresh s' := by
  unfold Event.smooth at he
  rw [Bool.and_eq_true, Bool.not_eq_true', bne_iff_ne] at he
  rcases step_cases hs with ⟨-, i, hworker⟩ | hstart | ⟨hidle, hcall⟩
  · exact h.worker hworker
  · obtain ⟨-, -, rfl⟩ | ⟨i, hi, hlt, rfl⟩ | ⟨i, -, -, hfails, -⟩ | ⟨-, rfl⟩ | ⟨n, hn, -, -⟩ :=
      startStep_cases hstart
    · exact ⟨h.sgLvl, nofun, fun _ _ => rfl, nofun, fun _ => trivial, fun _ _ => rfl⟩
    · have hloop := h.starting i hi
      refine ⟨h.sgLvl, nofun, fun _ _ => hloop, fun _ _ => hloop, fun j => ?_, fun j hj => ?_⟩
      · show (Function.update s.worker i (.looping 0) j).sound
        by_cases hj : j = i
        · subst hj
          rw [Function.update_self]
          exact le_rfl
        · rw [Function.update_of_ne hj]
          exact h.sound j
      · show Function.update s.worker i (.looping 0) j = .none
        have hbeyond : s.nWorkers ≤ j := hj
        rw [Function.update_of_ne (by omega)]
        exact h.beyond j hbeyond
    · exact absurd hfails he.2
    · exact ⟨h.sgLvl, nofun, nofun, h.running, h.sound, h.beyond⟩
    · exact absurd hn (h.phase n)
  · obtain ⟨hworker, hphase, hn, hkeeps⟩ := callStep_cases hcall
    obtain ⟨hlvl, hloop⟩ := hkeeps he.1
    refine ⟨hlvl.trans h.sgLvl, ?_, ?_, ?_, ?_, ?_⟩
    · rw [hphase]
      exact h.phase
    · rw [hphase, hidle]
      nofun
    · rw [hworker]
      intro i hi
      rcases hloop with hsame | hall
      · exact hsame.trans (h.running i hi)
      · by_cases hlt : i < s.nWorkers
        · rw [hall i hlt] at hi
          cases hi
        · rw [h.beyond i (not_lt.mp hlt)] at hi
          cases hi
    · rw [hworker]
      exact h.sound
    · rw [hworker, hn]
      exact h.beyond

/-- **The workers keep looping**, in a run in which no start has failed and no shutdown has been
requested: what has left its loop has got a negative result. -/
theorem looping_of_noFailure {n : Nat} {es : List Event} (hes : ∀ e ∈ es, e.smooth = true)
    (hrun : Trans.run StartStage.step (.created n) es = some s) {st : Result}
    (hleft : s.worker i = .left st) : st < 0 := by
  have hok : Trans.Run StartStage.step (fun _ e => e.smooth = true) (.created n) es s :=
    Trans.Run.of_run (fun e he _ => hes e he) hrun
  have hfresh : Fresh s := hok.inv (fun _ _ _ h he hs => h.step he hs)
    ⟨rfl, nofun, nofun, nofun, fun _ => trivial, fun _ _ => rfl⟩
  have hsound := hfresh.sound i
  rw [hleft] at hsound
  exact hsound

end StageStart
end Gallus
