import Gallus.Pipeline.Quiescence

/-!
# The life of a stage (`pipeline_stage.c`, `pipeline_worker.c`)

The steps that `stageStep` leaves out: a pause with a time limit that expires or whose wait fails,
a start that fails, and a shutdown right now, which cancels the workers.

* A pause that has no time limit is one that never takes the step `expire`.
* `die`: `pthread_cancel` reaches a worker in a procedure of the stage, or in a condition wait. Its
  finalizer unlocks `m_pause_lock`, held or not. Assumed: the unlock by a worker that does not hold
  the lock does nothing, as an error-checking mutex has it. POSIX leaves it undefined for the plain
  mutex that `m_pause_lock` is.
* `HeldBy`: a call between its first and last step holds `m_lock`.
-/

namespace Gallus
namespace Pipeline

variable {ι κ : Type} [DecidableEq ι] [DecidableEq κ]

/-- Who takes a step in the life of a stage. -/
inductive LifeEvent (ι κ : Type)
  | step (e : StageEvent ι κ)
  /-- The wait of the pause `k` ends with `TIMEDOUT`, or fails. -/
  | expire (k : κ)
  | fail (k : κ)
  /-- The start `k` cannot start a worker, and waits for the others. -/
  | startFails (k : κ)
  | startReturns (k : κ)
  /-- A shutdown right now begins. -/
  | shutdownNow (k : κ)
  /-- The worker `i` is cancelled. -/
  | die (i : ι)

/-- `gallus_pipeline_stage_shutdown` with `SHUTDOWN_RIGHT_NOW`, its first step. -/
def shutdownNow (s : Stage ι κ) (k : κ) : Option (Stage ι κ) :=
  if s.stageLock.isNone ∧ s.caller k = .outside then
    let s := { s with stageLock := some k }
    if s.status = .started then
      some { s.callerGoto k .cancelStop with sgLvl := .rightNow, quiet := false }
    else if s.status = .paused then some { s.callerGoto k .cancelClear with quiet := false }
    else some (s.callerReturn k .shutdown Result.invalidStateTransition)
  else none

/-- The worker `i` ends at a cancellation point. -/
def die (s : Stage ι κ) (i : ι) : Option (Stage ι κ) :=
  if s.sgLvl = .rightNow then
    match s.point i with
    | .fetch | .main | .throw => some (s.goto i .exited)
    | .resumeWait | .maintWait => if s.pauseLock.isNone then some (s.goto i .exited) else none
    | .maintRun => some ({ s with pauseLock := none }.goto i .exited)
    | _ => none
  else none

/-- One step in the life of a stage. -/
def lifeStep [Fintype ι] (s : Stage ι κ) : LifeEvent ι κ → Option (Stage ι κ)
  | .step e => stageStep s e
  | .expire k =>
    if s.caller k = .pauseWait ∧ s.pauseLock.isNone then
      some (s.callerReturn k .pause Result.timedout)
    else none
  | .fail k =>
    if s.caller k = .pauseWait ∧ s.pauseLock.isNone then some (s.callerGoto k .pauseGiveUp)
    else none
  | .startFails k =>
    if s.caller k = .startStatus then
      some ({ s with sgLvl := .rightNow, doLoop := false }.callerGoto k .startWait)
    else none
  | .startReturns k =>
    if s.caller k = .startWait ∧ ∀ i, s.point i = .exited then
      some (s.callerReturn k .start Result.anyFailures)
    else none
  | .shutdownNow k => shutdownNow s k
  | .die i => die s i

/-- A stage that has been set up: no worker runs. -/
def Stage.created (hasFetch hasThrow : Bool) : Stage ι κ :=
  { Stage.init hasFetch hasThrow with
    status := .setup, doLoop := false, point := fun _ => .exited }

/-! ## The holder of `m_lock` -/

/-- Where the call that holds `m_lock` is. -/
def Stage.holder (s : Stage ι κ) : CallerPoint :=
  match s.stageLock with
  | none => .outside
  | some k => s.caller k

/-- A call between its first step and its last holds `m_lock`. -/
def HeldBy (s : Stage ι κ) : Prop := ∀ k, s.stageLock ≠ some k → (s.caller k).away = true

variable {s s' : Stage ι κ} {i : ι} {k : κ} {c : StageCall} {ret : Result} {p : CallerPoint}

section Holder

omit [DecidableEq ι]

omit [DecidableEq κ] in
theorem HeldBy.lock (h : HeldBy s) (hp : (s.caller k).away = false) : s.stageLock = some k := by
  by_contra hn
  rw [h k hn] at hp
  contradiction

omit [DecidableEq κ] in
theorem HeldBy.holder (h : HeldBy s) (hk : s.caller k = p) (hp : p.away = false) :
    s.holder = p := by
  have hl := h.lock (by rw [hk]; exact hp)
  rw [Stage.holder, hl]
  exact hk

/-- The call `k` goes on with `m_lock`. -/
theorem HeldBy.goto (h : HeldBy s) (hk : s.stageLock = some k ∨ s.stageLock = none)
    (hl : s'.stageLock = some k) (hc : s'.caller = Function.update s.caller k p) {P : Prop}
    (hP : s'.holder = p → P) : HeldBy s' ∧ P := by
  refine ⟨fun j hj => ?_, hP (by simp [Stage.holder, hl, hc])⟩
  have hjk : j ≠ k := fun hjk => hj (hjk ▸ hl)
  rw [hc, Function.update_of_ne hjk]
  refine h j fun hs => ?_
  rcases hk with hk | hk <;> rw [hk] at hs
  · exact hjk (Option.some.inj hs).symm
  · contradiction

/-- The call `k` returns, and gives `m_lock` back. -/
theorem HeldBy.returns (h : HeldBy s) (hk : s.stageLock = some k ∨ s.stageLock = none)
    (hl : s'.stageLock = none) (hc : s'.caller = Function.update s.caller k (.returned c ret))
    {P : Prop} (hP : s'.holder = .outside → P) : HeldBy s' ∧ P := by
  refine ⟨fun j _ => ?_, hP (by simp [Stage.holder, hl])⟩
  rw [hc]
  by_cases hjk : j = k
  · subst hjk
    rw [Function.update_self]
    rfl
  · rw [Function.update_of_ne hjk]
    refine h j fun hs => ?_
    rcases hk with hk | hk <;> rw [hk] at hs
    · exact hjk (Option.some.inj hs).symm
    · contradiction

end Holder

/-! ## What a step can do -/

/-- The fields that calls and workers tell each other things by. -/
structure SameWords (s s' : Stage ι κ) : Prop where
  status : s'.status = s.status
  pauseRequested : s'.pauseRequested = s.pauseRequested
  maintProc : s'.maintProc = s.maintProc
  pauseLock : s'.pauseLock = s.pauseLock

/-- At `p`, a worker can fall asleep before it comes to the barrier again. -/
def Stage.asleepBefore (s : Stage ι κ) (p : Point) : Prop :=
  p = .resumeWait ∨ p = .maintWait ∨ (∃ isMaster, p = .released false isMaster) ∨
    p = .released true false ∧ s.status ≠ .started

/-- A worker goes from `q` to `p` and changes no word. -/
structure Quietly (s : Stage ι κ) (q p : Point) : Prop where
  noMaster : q.ofMaster = false ∧ p.ofMaster = false
  free : s.pauseRequested = false → q.free = true ∨ q = .resumeWait → p.free = true
  rests : q = .resumeWait → p = .resumeWait ∨ p = .exited ∨ s.pauseRequested = false
  asleep : s.asleepBefore p → s.asleepBefore q
  there : q ≠ .exited

/-- The worker `i` goes on to `p`. -/
inductive WorkerMove (s : Stage ι κ) (i : ι) (p : Point) (s' : Stage ι κ) : Prop
  | quietly (hw : SameWords s s') (hp : Quietly s (s.point i) p)
  | pauses (hat : s.point i = .released false true) (hfree : s.pauseLock = none)
      (hw : SameWords { s with status := .paused } s')
      (hp : p = if s.pauseRequested then .resumeWait else .loop)
  | locks (hat : s.point i = .released true true) (hfree : s.pauseLock = none)
      (hw : SameWords { s with pauseLock := some (.inl i) } s') (hp : p = .maintRun)
  | runs (hat : s.point i = .maintRun) (hproc : s.maintProc.isSome)
      (hw : SameWords { s with maintProc := none } s') (hp : p = .maintClear)
  | dies (hat : s.point i = .maintRun) (hw : SameWords { s with pauseLock := none } s')
      (hp : p = .exited)
  | clears (hat : s.point i = .maintClear) (hw : SameWords { s with pauseRequested := false } s')
      (hp : p = .maintStart)
  | starts (hat : s.point i = .maintStart)
      (hw : SameWords { s with status := .started, pauseLock := none } s') (hp : p = .loop)

/-- The call that holds `m_lock`, or takes it, goes on from `s` to `s'`. -/
inductive HolderMove (s s' : Stage ι κ) : Prop
  | begins (hat : s.holder = .outside) (hw : SameWords s s') (hpoint : s'.point = s.point)
      (hto : s'.holder = .outside ∨
        s.status = .started ∧ (s'.holder = .pauseSet ∨ s'.holder = .maintSet ∨
          s'.holder = .cancelStop) ∨
        s.status = .paused ∧ (s'.holder = .resumeClear ∨ s'.holder = .shutdownClear ∨
          s'.holder = .cancelClear))
  | launches (hat : s.holder = .outside)
      (hstatus : s.status = .initialized ∨ s.status = .setup ∨ s.status = .finalized)
      (hw : SameWords { s with maintProc := none } s') (hpoint : s'.point = fun _ => .loop)
      (hto : s'.holder = .startStatus)
  | starts (hat : s.holder = .startStatus) (hw : SameWords { s with status := .started } s')
      (hpoint : s'.point = s.point) (hto : s'.holder = .outside)
  | startFails (hat : s.holder = .startStatus ∨ s.holder = .startWait) (hw : SameWords s s')
      (hpoint : s'.point = s.point) (hto : s'.holder = .startWait ∨ s'.holder = .outside)
  | requests (hat : s.holder = .pauseSet) (hfree : s.pauseLock = none)
      (hw : SameWords { s with pauseRequested := true } s') (hpoint : s'.point = s.point)
      (hto : s'.holder = if s.status = .paused then .outside else .pauseWait)
  | waits (hat : s.holder = .pauseWait) (hw : SameWords s s') (hpoint : s'.point = s.point)
      (hto : s'.holder = .pauseWait ∨ s'.holder = .pauseGiveUp ∨
        s.status = .paused ∧ s'.holder = .outside)
  | clears (hat : s.holder = .pauseGiveUp ∧ s'.holder = .outside ∨
        s.holder = .resumeClear ∧ s'.holder = .resumeStatus ∨
        s.holder = .shutdownClear ∧ s'.holder = .shutdownStatus ∨
        s.holder = .cancelClear ∧ s'.holder = .cancelStatus ∨
        s.holder = .maintGiveUp ∧ s'.holder = .maintDrop)
      (hw : SameWords { s with pauseRequested := false } s') (hpoint : s'.point = s.point)
  | resumes (hat : s.holder = .resumeStatus ∨ s.holder = .shutdownStatus ∨
        s.holder = .cancelStatus)
      (hw : SameWords { s with status := .started } s') (hpoint : s'.point = s.point)
      (hto : s'.holder = .outside ∨ s'.holder = .cancelStop)
  | stops (hat : s.holder = .cancelStop) (hw : SameWords s s') (hpoint : s'.point = s.point)
      (hto : s'.holder = .outside)
  | asks (k : κ) (hat : s.holder = .maintSet) (hfree : s.pauseLock = none)
      (hw : SameWords { s with
        pauseLock := some (.inr k), status := .maintenanceRequested, maintProc := some k } s')
      (hpoint : s'.point = s.point) (hto : s'.holder = .maintRequest)
  | flags (hat : s.holder = .maintRequest)
      (hw : SameWords { s with pauseRequested := true, pauseLock := none } s')
      (hpoint : s'.point = s.point)
      (hto : s'.holder = if s.status = .maintenanceRequested then .maintWait
        else if s.status = .started then .outside else .maintGiveUp)
  | looks (hat : s.holder = .maintWait) (hw : SameWords s s') (hpoint : s'.point = s.point)
      (hto : s'.holder = if s.status = .maintenanceRequested then .maintWait
        else if s.status = .started then .outside else .maintGiveUp)
  | drops (hat : s.holder = .maintDrop) (hw : SameWords { s with maintProc := none } s')
      (hpoint : s'.point = s.point) (hto : s'.holder = .outside)

/-- A worker moves, and no call does. -/
structure Worked (s : Stage ι κ) (i : ι) (p : Point) (s' : Stage ι κ) : Prop where
  stageLock : s'.stageLock = s.stageLock
  caller : s'.caller = s.caller
  point : s'.point = Function.update s.point i p
  move : WorkerMove s i p s'

omit [DecidableEq κ] in
theorem Worked.goto {q : Point} (h : Quietly s (s.point i) q) : Worked s i q (s.goto i q) :=
  ⟨rfl, rfl, rfl, .quietly ⟨rfl, rfl, rfl, rfl⟩ h⟩

omit [DecidableEq κ] in
theorem Worked.took {q : Point} {result : Int} (h : Quietly s (s.point i) q) :
    Worked s i q (s.took i result q) :=
  ⟨rfl, rfl, rfl, .quietly ⟨rfl, rfl, rfl, rfl⟩ h⟩

namespace Quietly

omit [DecidableEq ι] [DecidableEq κ]

/-- From a free point to a free one. -/
theorem free_free {q p : Point} (hq : q.free = true) (hp : p.free = true)
    (hne : q ≠ .exited) : Quietly s q p where
  noMaster := by cases q <;> cases p <;> first | contradiction | exact ⟨rfl, rfl⟩
  free := fun _ _ => hp
  rests := by rintro rfl; contradiction
  asleep := by rintro (rfl | rfl | ⟨_, rfl⟩ | ⟨rfl, _⟩) <;> contradiction
  there := hne

/-- On the way to the barrier, or back from it. -/
theorem entering {q p : Point}
    (hq : q = .pick ∨ q = .maintEnter ∨ q = .test ∧ s.pauseRequested = true)
    (hp : p = .pick ∨ p = .maintEnter ∨ p = .loop ∨ ∃ maint, p = .barrier maint) :
    Quietly s q p where
  noMaster := by
    rcases hq with rfl | rfl | ⟨rfl, -⟩ <;> rcases hp with rfl | rfl | rfl | ⟨m, rfl⟩ <;>
      exact ⟨rfl, rfl⟩
  free := by
    rintro hf (hfree | rfl)
    · rcases hq with rfl | rfl | ⟨rfl, ht⟩
      · contradiction
      · contradiction
      · rw [hf] at ht
        contradiction
    · rcases hq with hq | hq | ⟨hq, -⟩ <;> cases hq
  rests := by
    rintro rfl
    rcases hq with hq | hq | ⟨hq, -⟩ <;> cases hq
  asleep := by
    rintro (rfl | rfl | ⟨m, rfl⟩ | ⟨rfl, -⟩) <;>
      rcases hp with hp | hp | hp | ⟨m, hp⟩ <;> cases hp
  there := by rcases hq with rfl | rfl | ⟨rfl, -⟩ <;> simp

/-- At the recheck of a pause. -/
theorem resting {q : Point} (hq : q.resting = true) :
    Quietly s q (if s.pauseRequested then .resumeWait else .loop) where
  noMaster := by
    rcases Point.resting_iff.mp hq with rfl | rfl <;> refine ⟨rfl, ?_⟩ <;> split_ifs <;> rfl
  free := by
    intro hf _
    rw [hf]
    rfl
  rests := by
    rintro rfl
    split_ifs with hf
    · exact .inl rfl
    · exact .inr (.inr (Bool.eq_false_iff.mpr hf))
  asleep := fun _ => by
    rcases Point.resting_iff.mp hq with rfl | rfl
    · exact .inr (.inr (.inl ⟨false, rfl⟩))
    · exact .inl rfl
  there := by rcases Point.resting_iff.mp hq with rfl | rfl <;> simp

/-- At the recheck of a maintenance. -/
theorem parked {q : Point} (hq : q.parked = true) :
    Quietly s q (if s.status = .started then .loop else .maintWait) where
  noMaster := by
    rcases Point.parked_iff.mp hq with rfl | rfl <;> refine ⟨rfl, ?_⟩ <;> split_ifs <;> rfl
  free := by
    rintro - (hfree | rfl)
    · rcases Point.parked_iff.mp hq with rfl | rfl <;> contradiction
    · contradiction
  rests := by
    rintro rfl
    contradiction
  asleep := by
    split_ifs with hst
    · rintro (h | h | ⟨_, h⟩ | ⟨h, -⟩) <;> cases h
    · intro _
      rcases Point.parked_iff.mp hq with rfl | rfl
      · exact .inr (.inr (.inr ⟨rfl, hst⟩))
      · exact .inr (.inl rfl)
  there := by rcases Point.parked_iff.mp hq with rfl | rfl <;> simp

/-- A worker that is cancelled. -/
theorem dying {q : Point} (hm : q.ofMaster = false) (hq : q ≠ .exited) :
    Quietly s q .exited where
  noMaster := ⟨hm, rfl⟩
  free := fun _ _ => rfl
  rests := fun _ => .inr (.inl rfl)
  asleep := by rintro (h | h | ⟨_, h⟩ | ⟨h, -⟩) <;> cases h
  there := hq

end Quietly

/-- What a step of a worker does. -/
theorem workerStep_worked {result : Int} (h : workerStep s i result = some s') :
    ∃ p, Worked s i p s' := by
  have hafter : ∀ q : Point, q.free = true → (after result q).free = true := by
    intro q hq
    unfold after
    split_ifs <;> first | exact hq | rfl
  unfold workerStep at h
  split at h
  next hp =>
    cases h
    exact ⟨_, .goto (by rw [hp]; exact .free_free rfl (by split_ifs <;> rfl) (by simp))⟩
  next hp =>
    cases h
    refine ⟨_, .goto ?_⟩
    rw [hp]
    by_cases hf : s.pauseRequested = false
    · rw [if_pos hf]
      exact .free_free rfl (by split_ifs <;> rfl) (by simp)
    · rw [if_neg hf]
      exact .entering (.inr (.inr ⟨rfl, Bool.not_eq_false _ ▸ hf⟩)) (.inl rfl)
  next hp =>
    cases h
    exact ⟨_, .took (by rw [hp]; exact .free_free rfl (hafter _ rfl) (by simp))⟩
  next hp =>
    cases h
    exact ⟨_, .took (by rw [hp]; exact .free_free rfl (hafter _ (by split_ifs <;> rfl)) (by simp))⟩
  next hp =>
    cases h
    exact ⟨_, .took (by rw [hp]; exact .free_free rfl (hafter _ rfl) (by simp))⟩
  next hp =>
    cases h
    exact ⟨_, .goto (by rw [hp]; exact .entering (.inl rfl) (by split_ifs <;> simp))⟩
  next hp =>
    cases h
    exact ⟨_, .goto (by rw [hp]; exact .entering (.inr (.inl rfl)) (by split_ifs <;> simp))⟩
  next => contradiction
  next maint isMaster hp =>
    split_ifs at h with hl
    rw [Option.isNone_iff_eq_none] at hl
    cases maint <;> cases isMaster <;> cases h
    · exact ⟨_, .goto (by rw [hp]; exact .resting rfl)⟩
    · exact ⟨_, rfl, rfl, rfl, .pauses hp hl ⟨rfl, rfl, rfl, rfl⟩ rfl⟩
    · exact ⟨_, .goto (by rw [hp]; exact .parked rfl)⟩
    · exact ⟨_, rfl, rfl, rfl, .locks hp hl ⟨rfl, rfl, rfl, rfl⟩ rfl⟩
  next hp =>
    split_ifs at h
    cases h
    exact ⟨_, .goto (by rw [hp]; exact .resting rfl)⟩
  next hp =>
    split_ifs at h
    cases h
    exact ⟨_, .goto (by rw [hp]; exact .parked rfl)⟩
  next hp =>
    split at h
    next k hk =>
      cases h
      exact ⟨_, rfl, rfl, rfl, .runs hp (by rw [hk]; rfl) ⟨rfl, rfl, rfl, rfl⟩ rfl⟩
    next => contradiction
  next hp =>
    cases h
    exact ⟨_, rfl, rfl, rfl, .clears hp ⟨rfl, rfl, rfl, rfl⟩ rfl⟩
  next hp =>
    cases h
    exact ⟨_, rfl, rfl, rfl, .starts hp ⟨rfl, rfl, rfl, rfl⟩ rfl⟩
  next => contradiction

omit [DecidableEq κ] in
theorem die_worked (h : die s i = some s') : ∃ p, Worked s i p s' := by
  unfold die at h
  by_cases hnow : s.sgLvl = .rightNow
  case neg =>
    rw [if_neg hnow] at h
    contradiction
  rw [if_pos hnow] at h
  split at h
  next hp =>
    cases h
    exact ⟨_, .goto (by rw [hp]; exact .dying rfl (by simp))⟩
  next hp =>
    cases h
    exact ⟨_, .goto (by rw [hp]; exact .dying rfl (by simp))⟩
  next hp =>
    cases h
    exact ⟨_, .goto (by rw [hp]; exact .dying rfl (by simp))⟩
  next hp =>
    split_ifs at h
    cases h
    exact ⟨_, .goto (by rw [hp]; exact .dying rfl (by simp))⟩
  next hp =>
    split_ifs at h
    cases h
    exact ⟨_, .goto (by rw [hp]; exact .dying rfl (by simp))⟩
  next hp =>
    cases h
    exact ⟨_, rfl, rfl, rfl, .dies hp ⟨rfl, rfl, rfl, rfl⟩ rfl⟩
  next => contradiction

omit [DecidableEq κ] in
/-- What the barrier does. -/
theorem releaseBarrier_eq [Fintype ι] {master : ι} (h : releaseBarrier s master = some s') :
    (∀ i, ∃ maint, s.point i = .barrier maint ∧
      s'.point i = .released maint (decide (i = master))) ∧
    SameWords s s' ∧ s'.stageLock = s.stageLock ∧ s'.caller = s.caller := by
  unfold releaseBarrier at h
  split_ifs at h with hc
  cases h
  refine ⟨fun i => ?_, ⟨rfl, rfl, rfl, rfl⟩, rfl, rfl⟩
  obtain ⟨maint, hi⟩ := all_inBarrier hc i
  exact ⟨maint, hi, by simp [hi]⟩

section Calls

omit [DecidableEq ι]

/-- What the first step of a call does. -/
theorem callStart_move (hs : HeldBy s) (h : callStart s k c = some s') :
    HeldBy s' ∧ HolderMove s s' := by
  unfold callStart at h
  split_ifs at h with hfree
  have hnone : s.stageLock = none := Option.isNone_iff_eq_none.mp hfree.1
  have hat : s.holder = .outside := by rw [Stage.holder, hnone]
  cases c <;> dsimp only at h
  case start =>
    split_ifs at h with hst <;> cases h
    · exact hs.goto (.inr hnone) rfl rfl fun hto =>
        .launches hat hst ⟨rfl, rfl, rfl, rfl⟩ rfl hto
    · exact hs.returns (.inr hnone) rfl rfl fun hto =>
        .begins hat ⟨rfl, rfl, rfl, rfl⟩ rfl (.inl hto)
  case pause =>
    split_ifs at h with hst hst <;> cases h
    · exact hs.goto (.inr hnone) rfl rfl fun hto =>
        .begins hat ⟨rfl, rfl, rfl, rfl⟩ rfl (.inr (.inl ⟨hst, .inl hto⟩))
    · exact hs.returns (.inr hnone) rfl rfl fun hto =>
        .begins hat ⟨rfl, rfl, rfl, rfl⟩ rfl (.inl hto)
    · exact hs.returns (.inr hnone) rfl rfl fun hto =>
        .begins hat ⟨rfl, rfl, rfl, rfl⟩ rfl (.inl hto)
  case resume =>
    split_ifs at h with hst hst <;> cases h
    · exact hs.goto (.inr hnone) rfl rfl fun hto =>
        .begins hat ⟨rfl, rfl, rfl, rfl⟩ rfl (.inr (.inr ⟨hst, .inl hto⟩))
    · exact hs.returns (.inr hnone) rfl rfl fun hto =>
        .begins hat ⟨rfl, rfl, rfl, rfl⟩ rfl (.inl hto)
    · exact hs.returns (.inr hnone) rfl rfl fun hto =>
        .begins hat ⟨rfl, rfl, rfl, rfl⟩ rfl (.inl hto)
  case scheduleMaintenance =>
    split_ifs at h with hst <;> cases h
    · exact hs.goto (.inr hnone) rfl rfl fun hto =>
        .begins hat ⟨rfl, rfl, rfl, rfl⟩ rfl (.inr (.inl ⟨hst, .inr (.inl hto)⟩))
    · exact hs.returns (.inr hnone) rfl rfl fun hto =>
        .begins hat ⟨rfl, rfl, rfl, rfl⟩ rfl (.inl hto)
  case shutdown =>
    split_ifs at h with hst hst <;> cases h
    · exact hs.returns (.inr hnone) rfl rfl fun hto =>
        .begins hat ⟨rfl, rfl, rfl, rfl⟩ rfl (.inl hto)
    · exact hs.goto (.inr hnone) rfl rfl fun hto =>
        .begins hat ⟨rfl, rfl, rfl, rfl⟩ rfl (.inr (.inr ⟨hst, .inr (.inl hto)⟩))
    · exact hs.returns (.inr hnone) rfl rfl fun hto =>
        .begins hat ⟨rfl, rfl, rfl, rfl⟩ rfl (.inl hto)

/-- What the first step of a shutdown right now does. -/
theorem shutdownNow_move (hs : HeldBy s) (h : shutdownNow s k = some s') :
    HeldBy s' ∧ HolderMove s s' := by
  unfold shutdownNow at h
  split_ifs at h with hfree
  have hnone : s.stageLock = none := Option.isNone_iff_eq_none.mp hfree.1
  have hat : s.holder = .outside := by rw [Stage.holder, hnone]
  dsimp only at h
  split_ifs at h with hst hst <;> cases h
  · exact hs.goto (.inr hnone) rfl rfl fun hto =>
      .begins hat ⟨rfl, rfl, rfl, rfl⟩ rfl (.inr (.inl ⟨hst, .inr (.inr hto)⟩))
  · exact hs.goto (.inr hnone) rfl rfl fun hto =>
      .begins hat ⟨rfl, rfl, rfl, rfl⟩ rfl (.inr (.inr ⟨hst, .inr (.inr hto)⟩))
  · exact hs.returns (.inr hnone) rfl rfl fun hto =>
      .begins hat ⟨rfl, rfl, rfl, rfl⟩ rfl (.inl hto)

/-- A maintenance looks at the state word, and goes on from there. -/
theorem HeldBy.recheckRequested {s₀ : Stage ι κ} (hs : HeldBy s₀) (hk : s₀.stageLock = some k)
    (hl : s.stageLock = some k) (hc : s.caller = s₀.caller) {P : Prop}
    (hP : SameWords s (recheckRequested s k) → (recheckRequested s k).point = s.point →
      (recheckRequested s k).holder = (if s.status = .maintenanceRequested then .maintWait
        else if s.status = .started then .outside else .maintGiveUp) → P) :
    HeldBy (recheckRequested s k) ∧ P := by
  unfold Pipeline.recheckRequested at hP ⊢
  split_ifs at hP ⊢
  · exact hs.goto (.inl hk) (by exact hl) (congrArg (Function.update · k .maintWait) hc)
      fun hto => hP ⟨rfl, rfl, rfl, rfl⟩ rfl hto
  · exact hs.returns (.inl hk) rfl
      (congrArg (Function.update · k (.returned .scheduleMaintenance Result.ok)) hc)
      fun hto => hP ⟨rfl, rfl, rfl, rfl⟩ rfl hto
  · exact hs.goto (.inl hk) (by exact hl) (congrArg (Function.update · k .maintGiveUp) hc)
      fun hto => hP ⟨rfl, rfl, rfl, rfl⟩ rfl hto

/-- A pause looks at the state word, and goes on from there. -/
theorem HeldBy.recheckPaused {s₀ : Stage ι κ} (hs : HeldBy s₀) (hk : s₀.stageLock = some k)
    (hl : s.stageLock = some k) (hc : s.caller = s₀.caller) {P : Prop}
    (hP : SameWords s (recheckPaused s k) → (recheckPaused s k).point = s.point →
      (recheckPaused s k).holder = (if s.status = .paused then .outside else .pauseWait) → P) :
    HeldBy (recheckPaused s k) ∧ P := by
  unfold Pipeline.recheckPaused at hP ⊢
  by_cases hst : s.status = .paused
  · rw [if_neg (not_not.mpr hst), if_pos hst] at hP
    rw [if_neg (not_not.mpr hst)]
    exact hs.returns (.inl hk) rfl
      (congrArg (Function.update · k (.returned .pause Result.ok)) hc)
      fun hto => hP ⟨rfl, rfl, rfl, rfl⟩ rfl hto
  · rw [if_pos hst, if_neg hst] at hP
    rw [if_pos hst]
    exact hs.goto (.inl hk) (by exact hl) (congrArg (Function.update · k .pauseWait) hc)
      fun hto => hP ⟨rfl, rfl, rfl, rfl⟩ rfl hto

/-- What a further step of a call does. -/
theorem callerStep_move (hs : HeldBy s) (h : callerStep s k = some s') :
    HeldBy s' ∧ HolderMove s s' := by
  have hheld : ∀ p, s.caller k = p → p.away = false → s.stageLock = some k ∧ s.holder = p :=
    fun p hp ha => ⟨hs.lock (by rw [hp]; exact ha), hs.holder hp ha⟩
  unfold callerStep at h
  split at h
  next => contradiction
  next => contradiction
  next hp =>
    -- startStatus
    cases h
    obtain ⟨hk, hat⟩ := hheld _ hp rfl
    exact hs.returns (.inl hk) rfl rfl fun hto => .starts hat ⟨rfl, rfl, rfl, rfl⟩ rfl hto
  next => contradiction
  next hp =>
    -- pauseSet
    split_ifs at h with hl
    cases h
    obtain ⟨hk, hat⟩ := hheld _ hp rfl
    exact hs.recheckPaused hk (by exact hk) (by rfl) fun hw hpoint hto =>
      .requests hat (Option.isNone_iff_eq_none.mp hl) hw hpoint hto
  next hp =>
    -- pauseWait
    split_ifs at h
    cases h
    obtain ⟨hk, hat⟩ := hheld _ hp rfl
    refine hs.recheckPaused hk (by exact hk) (by rfl) fun hw hpoint hto => .waits hat hw hpoint ?_
    split_ifs at hto with hst
    · exact .inr (.inr ⟨hst, hto⟩)
    · exact .inl hto
  next hp =>
    -- pauseGiveUp
    cases h
    obtain ⟨hk, hat⟩ := hheld _ hp rfl
    exact hs.returns (.inl hk) rfl rfl fun hto =>
      .clears (.inl ⟨hat, hto⟩) ⟨rfl, rfl, rfl, rfl⟩ rfl
  next hp =>
    -- resumeClear
    split_ifs at h
    cases h
    obtain ⟨hk, hat⟩ := hheld _ hp rfl
    exact hs.goto (.inl hk) (by exact hk) rfl fun hto =>
      .clears (.inr (.inl ⟨hat, hto⟩)) ⟨rfl, rfl, rfl, rfl⟩ rfl
  next hp =>
    -- resumeStatus
    cases h
    obtain ⟨hk, hat⟩ := hheld _ hp rfl
    exact hs.returns (.inl hk) rfl rfl fun hto =>
      .resumes (.inl hat) ⟨rfl, rfl, rfl, rfl⟩ rfl (.inl hto)
  next hp =>
    -- maintSet
    split_ifs at h with hl
    cases h
    obtain ⟨hk, hat⟩ := hheld _ hp rfl
    exact hs.goto (.inl hk) (by exact hk) rfl fun hto =>
      .asks k hat (Option.isNone_iff_eq_none.mp hl) ⟨rfl, rfl, rfl, rfl⟩ rfl hto
  next hp =>
    -- maintRequest
    cases h
    obtain ⟨hk, hat⟩ := hheld _ hp rfl
    exact hs.recheckRequested hk (by exact hk) (by rfl) fun hw hpoint hto =>
      .flags hat hw hpoint hto
  next hp =>
    -- maintWait
    split_ifs at h
    cases h
    obtain ⟨hk, hat⟩ := hheld _ hp rfl
    exact hs.recheckRequested hk (by exact hk) (by rfl) fun hw hpoint hto =>
      .looks hat hw hpoint hto
  next hp =>
    -- maintGiveUp
    cases h
    obtain ⟨hk, hat⟩ := hheld _ hp rfl
    exact hs.goto (.inl hk) (by exact hk) rfl fun hto =>
      .clears (.inr (.inr (.inr (.inr ⟨hat, hto⟩)))) ⟨rfl, rfl, rfl, rfl⟩ rfl
  next hp =>
    -- maintDrop
    cases h
    obtain ⟨hk, hat⟩ := hheld _ hp rfl
    exact hs.returns (.inl hk) rfl rfl fun hto => .drops hat ⟨rfl, rfl, rfl, rfl⟩ rfl hto
  next hp =>
    -- shutdownClear
    split_ifs at h
    cases h
    obtain ⟨hk, hat⟩ := hheld _ hp rfl
    exact hs.goto (.inl hk) (by exact hk) rfl fun hto =>
      .clears (.inr (.inr (.inl ⟨hat, hto⟩))) ⟨rfl, rfl, rfl, rfl⟩ rfl
  next hp =>
    -- shutdownStatus
    cases h
    obtain ⟨hk, hat⟩ := hheld _ hp rfl
    exact hs.returns (.inl hk) rfl rfl fun hto =>
      .resumes (.inr (.inl hat)) ⟨rfl, rfl, rfl, rfl⟩ rfl (.inl hto)
  next hp =>
    -- cancelClear
    split_ifs at h
    cases h
    obtain ⟨hk, hat⟩ := hheld _ hp rfl
    exact hs.goto (.inl hk) (by exact hk) rfl fun hto =>
      .clears (.inr (.inr (.inr (.inl ⟨hat, hto⟩)))) ⟨rfl, rfl, rfl, rfl⟩ rfl
  next hp =>
    -- cancelStatus
    cases h
    obtain ⟨hk, hat⟩ := hheld _ hp rfl
    exact hs.goto (.inl hk) (by exact hk) rfl fun hto =>
      .resumes (.inr (.inr hat)) ⟨rfl, rfl, rfl, rfl⟩ rfl (.inr hto)
  next hp =>
    -- cancelStop
    cases h
    obtain ⟨hk, hat⟩ := hheld _ hp rfl
    exact hs.returns (.inl hk) rfl rfl fun hto => .stops hat ⟨rfl, rfl, rfl, rfl⟩ rfl hto

end Calls

/-- A pause returns from a stage that is not paused. -/
structure Expired (s s' : Stage ι κ) : Prop where
  held : HeldBy s'
  status : s.status ≠ .paused
  words : SameWords s s'
  point : s'.point = s.point
  holder : s'.holder = .outside

/-- **What a step can do.** A worker moves, the barrier lets the workers go, or the call that holds
`m_lock` goes on or, if it is a pause, expires. -/
theorem lifeStep_cases [Fintype ι] {e : LifeEvent ι κ} (hs : HeldBy s)
    (h : lifeStep s e = some s') :
    (∃ i p, (e = .die i ∨ ∃ result, e = .step (.worker i result)) ∧ Worked s i p s') ∨
      (∃ master, e = .step (.release master) ∧ releaseBarrier s master = some s') ∨
      ((∀ master, e ≠ .step (.release master)) ∧ HeldBy s' ∧ HolderMove s s') ∨
      ∃ k, e = .expire k ∧ Expired s s' := by
  cases e with
  | step e =>
    cases e with
    | worker i result =>
      obtain ⟨p, hp⟩ := workerStep_worked h
      exact .inl ⟨i, p, .inr ⟨result, rfl⟩, hp⟩
    | release master => exact .inr (.inl ⟨master, rfl, h⟩)
    | call k c => exact .inr (.inr (.inl ⟨by simp, callStart_move hs h⟩))
    | caller k => exact .inr (.inr (.inl ⟨by simp, callerStep_move hs h⟩))
  | expire k =>
    simp only [lifeStep] at h
    split_ifs at h with hp
    cases h
    have hk := hs.lock (k := k) (by rw [hp.1]; rfl)
    by_cases hst : s.status = .paused
    · exact .inr (.inr (.inl ⟨by simp, hs.returns (.inl hk) rfl rfl fun hto =>
        .waits (hs.holder hp.1 rfl) ⟨rfl, rfl, rfl, rfl⟩ rfl (.inr (.inr ⟨hst, hto⟩))⟩))
    · have hret : HeldBy (s.callerReturn k .pause Result.timedout) ∧
          (s.callerReturn k .pause Result.timedout).holder = .outside :=
        hs.returns (.inl hk) rfl rfl id
      obtain ⟨hs', hto⟩ := hret
      exact .inr (.inr (.inr ⟨k, rfl, hs', hst, ⟨rfl, rfl, rfl, rfl⟩, rfl, hto⟩))
  | fail k =>
    simp only [lifeStep] at h
    split_ifs at h with hp
    cases h
    have hk := hs.lock (k := k) (by rw [hp.1]; rfl)
    exact .inr (.inr (.inl ⟨by simp, hs.goto (.inl hk) (by exact hk) rfl fun hto =>
      .waits (hs.holder hp.1 rfl) ⟨rfl, rfl, rfl, rfl⟩ rfl (.inr (.inl hto))⟩))
  | startFails k =>
    simp only [lifeStep] at h
    split_ifs at h with hp
    cases h
    have hk := hs.lock (k := k) (by rw [hp]; rfl)
    exact .inr (.inr (.inl ⟨by simp, hs.goto (.inl hk) (by exact hk) rfl fun hto =>
      .startFails (.inl (hs.holder hp rfl)) ⟨rfl, rfl, rfl, rfl⟩ rfl (.inl hto)⟩))
  | startReturns k =>
    simp only [lifeStep] at h
    split_ifs at h with hp
    cases h
    have hk := hs.lock (k := k) (by rw [hp.1]; rfl)
    exact .inr (.inr (.inl ⟨by simp, hs.returns (.inl hk) rfl rfl fun hto =>
      .startFails (.inr (hs.holder hp.1 rfl)) ⟨rfl, rfl, rfl, rfl⟩ rfl (.inr hto)⟩))
  | shutdownNow k => exact .inr (.inr (.inl ⟨by simp, shutdownNow_move hs h⟩))
  | die i =>
    obtain ⟨p, hp⟩ := die_worked h
    exact .inl ⟨i, p, .inl rfl, hp⟩

end Pipeline
end Gallus
