import Gallus.Pipeline.Stage

/-!
# Pauses and maintenance are quiescent

Between two calls and their effects a stage goes through rounds. `Round` is the abstract state of
this protocol: the state word, the request flag, the maintenance function and the owner of
`m_pause_lock` are functions of the round, and the round says where each worker can be
(`Round.allows`) and where the caller that holds `m_lock` is (`Round.holds`).

* `Inv s`: the stage is in some round. Each step keeps it, and so does every run.
* `quiescence`: while a stage is paused, and while a maintenance function runs, no worker is inside
  a fetch, main or throw procedure, and a maintenance that returned `OK` ran once.
-/

namespace Gallus
namespace Pipeline

variable {ι κ : Type}

/-! ## Rounds -/

/-- The rounds of a stage. `released m` and `elected k m` are the rounds right after the barrier,
with the master `m`; `k` is the call whose maintenance function is to run. -/
inductive Round (ι κ : Type)
  | idle
  | pausing | released (m : ι) | paused | resuming
  | requested (k : κ) | pending (k : κ) | elected (k : κ) (m : ι) | running (k : κ) (m : ι)
  | cleared (m : ι) | restarting (m : ι)

namespace Round

/-- The state word. -/
def status : Round ι κ → StageState
  | idle | pausing | released _ => .started
  | paused | resuming => .paused
  | requested _ | pending _ | elected _ _ | running _ _ | cleared _ | restarting _ =>
    .maintenanceRequested

/-- The request flag. -/
def pauseRequested : Round ι κ → Bool
  | idle | resuming | requested _ | restarting _ => false
  | pausing | released _ | paused | pending _ | elected _ _ | running _ _ | cleared _ => true

/-- The maintenance function. -/
def maintProc : Round ι κ → Option κ
  | requested k | pending k | elected k _ | running k _ => some k
  | _ => none

/-- The owner of `m_pause_lock`. -/
def pauseLock : Round ι κ → Option (ι ⊕ κ)
  | requested k => some (.inr k)
  | running _ m | cleared m | restarting m => some (.inl m)
  | _ => none

/-- Nobody needs to hold `m_lock`. -/
def unlocked : Round ι κ → Bool
  | idle | paused => true
  | _ => false

/-- The pause is complete. -/
def isPaused : Round ι κ → Bool
  | paused => true
  | _ => false

/-- The master of the round and where it is. -/
def turn : Round ι κ → Option (ι × Point)
  | released m => some (m, .released false true)
  | elected _ m => some (m, .released true true)
  | running _ m => some (m, .maintRun)
  | cleared m => some (m, .maintClear)
  | restarting m => some (m, .maintStart)
  | _ => none

end Round

/-- Outside the rounds: in the loop, in a procedure, or gone. -/
def Point.free : Point → Bool
  | .loop | .test | .fetch | .main | .throw | .exited => true
  | _ => false

/-- In a procedure of the stage. -/
def Point.inProc : Point → Bool
  | .fetch | .main | .throw => true
  | _ => false

/-- Still in the pause of a round, not as its master. -/
def Point.resting : Point → Bool
  | .released false false | .resumeWait => true
  | _ => false

/-- Still in the maintenance of a round, not as its master. -/
def Point.parked : Point → Bool
  | .released true false | .maintWait => true
  | _ => false

/-- The master of a round, after the barrier. -/
def Point.ofMaster : Point → Bool
  | .released _ true | .maintRun | .maintClear | .maintStart => true
  | _ => false

theorem Point.resting_iff {p : Point} :
    p.resting = true ↔ p = .released false false ∨ p = .resumeWait := by
  unfold Point.resting
  split <;> simp_all

theorem Point.parked_iff {p : Point} :
    p.parked = true ↔ p = .released true false ∨ p = .maintWait := by
  unfold Point.parked
  split <;> simp_all

theorem Point.ofMaster_iff {p : Point} :
    p.ofMaster = true ↔ p = .released false true ∨ p = .released true true ∨ p = .maintRun ∨
      p = .maintClear ∨ p = .maintStart := by
  unfold Point.ofMaster
  split <;> simp_all

/-- Outside the current round: free, or not yet out of an earlier one. -/
def Point.apart (p : Point) : Bool := p.free || p.resting || p.parked

theorem Point.apart_of_resting {p : Point} (h : p.resting = true) : p.apart = true := by
  rw [Point.apart, h, Bool.or_true, Bool.true_or]

variable [DecidableEq ι] [DecidableEq κ]

/-- Where the worker `i` can be in a round. -/
def Round.allows (r : Round ι κ) (i : ι) (p : Point) : Bool :=
  match r with
  | idle | resuming | requested _ => p.apart
  | pausing => p.apart || p == .pick || p == .barrier false
  | released m => if i = m then p == .released false true else p.resting
  | paused => p.resting
  | pending _ => p.apart || p == .pick || p == .maintEnter || p == .barrier true
  | elected _ m => if i = m then p == .released true true else p.parked
  | running _ m => if i = m then p == .maintRun else p.parked
  | cleared m => if i = m then p == .maintClear else p.parked
  | restarting m => if i = m then p == .maintStart else p.parked

/-- Where the owner `k` of `m_lock` can be in a round. -/
def Round.holds (r : Round ι κ) (k : κ) (p : CallerPoint) : Bool :=
  match r with
  | idle => p == .pauseSet || p == .maintSet || p == .maintWait
  | pausing | released _ => p == .pauseWait
  | paused => p == .pauseWait || p == .resumeClear || p == .shutdownClear
  | resuming => p == .resumeStatus || p == .shutdownStatus
  | requested k' => p == .maintRequest && decide (k' = k)
  | pending k' | elected k' _ | running k' _ => p == .maintWait && decide (k' = k)
  | cleared _ | restarting _ => p == .maintWait

/-- A call that does not hold `m_lock`. -/
def CallerPoint.away : CallerPoint → Bool
  | .outside | .returned _ _ => true
  | _ => false

/-- How often the function of the call that waits for its maintenance has run. -/
def Round.served : Round ι κ → Nat
  | cleared _ | restarting _ | idle => 1
  | _ => 0

/-- How often the function of a maintenance call has run, by where the call is. -/
def CallerPoint.ranOk (served n : Nat) : CallerPoint → Prop
  | .outside | .maintSet | .maintRequest => n = 0
  | .maintWait => n = served
  | .returned .scheduleMaintenance ret => ret = Result.ok → n = 1
  | _ => True

/-! ## The invariant -/

/-- The stage is in the round `r`. -/
structure InRound (r : Round ι κ) (s : Stage ι κ) : Prop where
  status : s.status = r.status
  pauseRequested : s.pauseRequested = r.pauseRequested
  maintProc : s.maintProc = r.maintProc
  pauseLock : s.pauseLock = r.pauseLock
  workers : ∀ i, r.allows i (s.point i) = true
  holder : ∀ k, s.stageLock = some k → r.holds k (s.caller k) = true
  nobody : s.stageLock = none → r.unlocked = true
  away : ∀ k, s.stageLock ≠ some k → (s.caller k).away = true
  ran : ∀ k, (s.caller k).ranOk r.served (s.runs k)
  quiet : s.quiet = true →
    r.isPaused = true ∧ ∀ k, s.caller k ≠ .resumeClear ∧ s.caller k ≠ .shutdownClear

/-- The stage is in some round. -/
def Inv (s : Stage ι κ) : Prop := ∃ r, InRound r s

variable {r : Round ι κ} {s s' : Stage ι κ} {i : ι} {k : κ}

/-- In a round that is not unlocked, somebody holds `m_lock`. -/
theorem InRound.owner (h : InRound r s) (hu : r.unlocked = false) :
    ∃ k, s.stageLock = some k ∧ r.holds k (s.caller k) = true := by
  cases hk : s.stageLock with
  | none =>
    have := h.nobody hk
    rw [hu] at this
    contradiction
  | some k => exact ⟨k, rfl, h.holder k hk⟩

omit [DecidableEq ι] [DecidableEq κ] in
/-- The round does not matter to a call that does not hold `m_lock`. -/
theorem CallerPoint.ranOk_away {a b n : Nat} {c : CallerPoint} (hc : c.away = true)
    (h : c.ranOk a n) : c.ranOk b n := by
  cases c with
  | outside => exact h
  | returned c ret => cases c <;> exact h
  | _ => contradiction

/-! ## Workers -/

/-- A worker moves on inside a round. -/
theorem InRound.goto (h : InRound r s) {p : Point} (hp : r.allows i p = true) :
    InRound r (s.goto i p) :=
  { h with
    workers := fun j => by
      by_cases hj : j = i
      · subst hj
        simpa [Stage.goto] using hp
      · simpa [Stage.goto, hj] using h.workers j }

/-- What a procedure returned does not matter to a round. -/
theorem InRound.took (h : InRound r s) {p : Point} {result : Int} (hp : r.allows i p = true) :
    InRound r (s.took i result p) :=
  { h.goto hp with }

omit [DecidableEq κ] in
/-- A free worker may go to any free point. -/
theorem Round.allows_free {p q : Point} (hp : p.free = true) (h : r.allows i p = true)
    (hq : q.free = true) : r.allows i q = true := by
  have hapart : q.apart = true := by
    rw [Point.apart, hq]
    rfl
  have hresting : p.resting = false := by cases p <;> first | rfl | cases hp
  have hparked : p.parked = false := by cases p <;> first | rfl | cases hp
  -- In a round that has a master, a free worker has no place.
  have hmaster : ∀ {m : ι} {x : Point} {b : Bool}, x.free = false → b = false →
      (if i = m then p == x else b) = true → r.allows i q = true := by
    intro m x b hx hb hplace
    split_ifs at hplace
    · rw [eq_of_beq hplace, hx] at hp
      cases hp
    · rw [hb] at hplace
      cases hplace
  cases r with
  | idle | resuming | requested _ => exact hapart
  | pausing | pending _ => simp only [Round.allows, hapart, Bool.true_or]
  | paused => exact Bool.noConfusion (hresting.symm.trans h)
  | released _ => exact hmaster rfl hresting h
  | elected _ _ | running _ _ | cleared _ | restarting _ => exact hmaster rfl hparked h

omit [DecidableEq κ] in
theorem Round.allows_pausing {p : Point} (hp : p.apart = true) :
    (Round.pausing : Round ι κ).allows i p = true := by
  rw [Round.allows, hp]
  rfl

omit [DecidableEq κ] in
theorem Round.allows_pending {p : Point} (hp : p.apart = true) :
    (Round.pending k : Round ι κ).allows i p = true := by
  rw [Round.allows, hp]
  rfl

/-- The owner of `m_lock` stays in a round with it while a worker takes the stage to the next
round `r'`. -/
theorem InRound.advance {r' : Round ι κ} (h : InRound r s) (hu : r.unlocked = false)
    (hstatus : s'.status = r'.status) (hpause : s'.pauseRequested = r'.pauseRequested)
    (hmaint : s'.maintProc = r'.maintProc) (hlock : s'.pauseLock = r'.pauseLock)
    (hworkers : ∀ i, r'.allows i (s'.point i) = true)
    (hholds : ∀ k p, r.holds k p = true → r'.holds k p = true)
    (hstage : s'.stageLock = s.stageLock) (hcaller : s'.caller = s.caller)
    (hran : ∀ k, (s.caller k).ranOk r'.served (s'.runs k)) (hquiet : s'.quiet = s.quiet) :
    InRound r' s' where
  status := hstatus
  pauseRequested := hpause
  maintProc := hmaint
  pauseLock := hlock
  workers := hworkers
  holder := fun k hk => by
    rw [hcaller]
    exact hholds k _ (h.holder k (hstage ▸ hk))
  nobody := fun hn => by
    have := h.nobody (hstage ▸ hn)
    rw [hu] at this
    contradiction
  away := fun k hk => by
    rw [hcaller]
    exact h.away k (hstage ▸ hk)
  ran := fun k => hcaller ▸ hran k
  quiet := fun hq => by
    have := (h.quiet (hquiet ▸ hq)).1
    cases r <;> simp_all [Round.isPaused, Round.unlocked]

/-- The test of `m_pause_requested`. -/
theorem InRound.test (h : InRound r s) (hp : s.point i = .test) {q : Point}
    (hq : q.free = true) :
    InRound r (s.goto i (if s.pauseRequested = false then q else .pick)) := by
  have hw := h.workers i
  rw [hp] at hw
  rw [h.pauseRequested]
  refine h.goto ?_
  by_cases hr : r.pauseRequested = false
  · rw [if_pos hr]
    exact Round.allows_free rfl hw hq
  · rw [if_neg hr]
    cases r <;> simp_all [Round.allows, Round.pauseRequested, Point.apart, Point.free,
      Point.resting, Point.parked]

/-- A worker that saw the request picks its part by the maintenance function. -/
theorem InRound.pick (h : InRound r s) (hp : s.point i = .pick) :
    InRound r (s.goto i (if s.maintProc.isSome then .maintEnter else .barrier false)) := by
  have hw := h.workers i
  rw [hp] at hw
  rw [h.maintProc]
  refine h.goto ?_
  cases r <;> simp_all [Round.allows, Round.maintProc, Point.apart, Point.free, Point.resting,
    Point.parked]

theorem InRound.maintEnter (h : InRound r s) (hp : s.point i = .maintEnter) :
    InRound r (s.goto i (if s.maintProc.isSome then .barrier true else .loop)) := by
  have hw := h.workers i
  rw [hp] at hw
  rw [h.maintProc]
  refine h.goto ?_
  cases r <;> simp_all [Round.allows, Round.maintProc, Point.apart, Point.free, Point.resting,
    Point.parked]

/-- A worker that rests goes on when the request is gone. -/
theorem InRound.recheckResume (h : InRound r s) (hp : (s.point i).resting = true) :
    InRound r (recheckResume s i) := by
  have hw := h.workers i
  unfold Pipeline.recheckResume
  rw [h.pauseRequested]
  refine h.goto ?_
  generalize s.point i = p at *
  rcases Point.resting_iff.mp hp with rfl | rfl <;> cases r <;>
    simp_all [Round.allows, Round.pauseRequested, Point.apart, Point.free, Point.resting,
      Point.parked]

/-- A worker that is parked goes on when the stage is started. -/
theorem InRound.recheckStarted (h : InRound r s) (hp : (s.point i).parked = true) :
    InRound r (recheckStarted s i) := by
  have hw := h.workers i
  unfold Pipeline.recheckStarted
  rw [h.status]
  refine h.goto ?_
  generalize s.point i = p at *
  rcases Point.parked_iff.mp hp with rfl | rfl <;> cases r <;>
    simp_all [Round.allows, Round.status, Point.apart, Point.free, Point.resting, Point.parked]

/-! ## The master -/

/-- At a point of the master, a worker is the master of the round. -/
theorem InRound.turn (h : InRound r s) {p : Point} (hp : s.point i = p)
    (hm : p.ofMaster = true) : r.turn = some (i, p) := by
  have hw := h.workers i
  rw [hp] at hw
  rcases Point.ofMaster_iff.mp hm with rfl | rfl | rfl | rfl | rfl <;> cases r <;>
    simp_all [Round.allows, Round.turn, Point.apart, Point.free, Point.resting, Point.parked]

/-- The master leaves `p` for `q`, and the others are in the next round too. -/
theorem InRound.leave {r' : Round ι κ} (h : InRound r s) {q : Point} (hq : r'.allows i q = true)
    (hothers : ∀ j, j ≠ i → ∀ p, r.allows j p = true → r'.allows j p = true) (j : ι) :
    r'.allows j ((s.goto i q).point j) = true := by
  by_cases hj : j = i
  · subst hj
    simpa [Stage.goto] using hq
  · simpa [Stage.goto, hj] using hothers j hj _ (h.workers j)

/-- The master of a pause sets the state word. -/
theorem InRound.masterPauses (h : InRound r s) (hp : s.point i = .released false true) :
    InRound .paused (Pipeline.recheckResume { s with status := .paused } i) := by
  have hturn := h.turn hp rfl
  obtain rfl : r = .released i := by cases r <;> simp_all [Round.turn]
  have hpause : s.pauseRequested = true := h.pauseRequested
  simp only [Pipeline.recheckResume, hpause, if_true]
  refine h.advance rfl rfl rfl h.maintProc h.pauseLock (h.leave rfl ?_) ?_ rfl rfl
    h.ran rfl
  · intro j hj p
    simp [Round.allows, hj]
  · simp [Round.holds]

/-- The master of a maintenance takes `m_pause_lock`, and runs the function. -/
theorem InRound.masterRuns (h : InRound r s) (hp : s.point i = .released true true) :
    Inv ({ s with pauseLock := some (.inl i) }.goto i .maintRun) := by
  have hturn := h.turn hp rfl
  obtain ⟨k, rfl⟩ : ∃ k, r = .elected k i := by cases r <;> simp_all [Round.turn]
  refine ⟨.running k i, h.advance rfl h.status h.pauseRequested h.maintProc rfl
    (h.leave (by simp [Round.allows]) ?_) (fun _ _ hk => hk) rfl rfl
    h.ran rfl⟩
  intro j hj p
  simp [Round.allows, hj]

/-- The function has returned: this was its only run. -/
theorem InRound.masterClears (h : InRound r s) (hp : s.point i = .maintRun)
    (hproc : s.maintProc = some k) :
    Inv ({ s with runs := Function.update s.runs k (s.runs k + 1), maintProc := none }.goto i
      .maintClear) := by
  have hturn := h.turn hp rfl
  obtain ⟨k', rfl⟩ : ∃ k, r = .running k i := by cases r <;> simp_all [Round.turn]
  obtain rfl : k' = k := Option.some.inj (h.maintProc.symm.trans hproc)
  refine ⟨.cleared i, h.advance rfl h.status h.pauseRequested rfl h.pauseLock
    (h.leave (by simp [Round.allows]) ?_) ?_ rfl rfl (fun k => ?_) rfl⟩
  · intro j hj p
    simp [Round.allows, hj]
  · simp [Round.holds]
  · obtain ⟨k₀, hlock, hholds⟩ := h.owner rfl
    simp only [Round.holds, Bool.and_eq_true, beq_iff_eq, decide_eq_true_eq] at hholds
    obtain ⟨hwait, rfl⟩ := hholds
    have hran := h.ran k
    by_cases hk : k = k'
    · subst hk
      rw [hwait] at hran ⊢
      have hzero : s.runs k = 0 := hran
      simp [CallerPoint.ranOk, Round.served, Stage.goto, hzero]
    · have haway := h.away k (by rw [hlock]; grind)
      simpa [Stage.goto, hk] using CallerPoint.ranOk_away haway hran

/-- The master takes the request back. -/
theorem InRound.masterTakesBack (h : InRound r s) (hp : s.point i = .maintClear) :
    Inv ({ s with pauseRequested := false }.goto i .maintStart) := by
  have hturn := h.turn hp rfl
  obtain rfl : r = .cleared i := by cases r <;> simp_all [Round.turn]
  refine ⟨.restarting i, h.advance rfl h.status rfl h.maintProc h.pauseLock
    (h.leave (by simp [Round.allows]) ?_) (fun _ _ hk => hk) rfl rfl
    h.ran rfl⟩
  intro j hj p
  simp [Round.allows, hj]

/-- The master starts the stage again. -/
theorem InRound.masterStarts (h : InRound r s) (hp : s.point i = .maintStart) :
    Inv ({ s with status := .started, pauseLock := none }.goto i .loop) := by
  have hturn := h.turn hp rfl
  obtain rfl : r = .restarting i := by cases r <;> simp_all [Round.turn]
  refine ⟨.idle, h.advance rfl rfl h.pauseRequested h.maintProc rfl (h.leave rfl ?_) ?_ rfl rfl
    h.ran rfl⟩
  · intro j hj p hpark
    simp_all [Round.allows, Point.apart]
  · simp [Round.holds]

/-- Every step of a worker keeps the invariant. -/
theorem InRound.workerStep (h : InRound r s) {result : Int}
    (hw : Pipeline.workerStep s i result = some s') : Inv s' := by
  unfold Pipeline.workerStep at hw
  have hfree : ∀ p q, s.point i = p → p.free = true → q.free = true → r.allows i q = true :=
    fun p q hp hpf hqf => Round.allows_free hpf (hp ▸ h.workers i) hqf
  have hafter : ∀ q : Point, q.free = true → (after result q).free = true := by
    intro q hq
    unfold after
    split_ifs <;> first | exact hq | rfl
  split at hw
  next hp =>
    cases hw
    exact ⟨r, h.goto (hfree _ _ hp rfl (by split_ifs <;> rfl))⟩
  next hp =>
    cases hw
    exact ⟨r, h.test hp (by split_ifs <;> rfl)⟩
  next hp =>
    cases hw
    exact ⟨r, h.took (hfree _ _ hp rfl (hafter _ rfl))⟩
  next hp =>
    cases hw
    exact ⟨r, h.took (hfree _ _ hp rfl (hafter _ (by split_ifs <;> rfl)))⟩
  next hp =>
    cases hw
    exact ⟨r, h.took (hfree _ _ hp rfl (hafter _ rfl))⟩
  next hp =>
    cases hw
    exact ⟨r, h.pick hp⟩
  next hp =>
    cases hw
    exact ⟨r, h.maintEnter hp⟩
  next => contradiction
  next maint isMaster hp =>
    split_ifs at hw with hl
    cases maint <;> cases isMaster <;> cases hw
    · exact ⟨r, h.recheckResume (by rw [hp]; rfl)⟩
    · exact ⟨.paused, h.masterPauses hp⟩
    · exact ⟨r, h.recheckStarted (by rw [hp]; rfl)⟩
    · exact h.masterRuns hp
  next hp =>
    split_ifs at hw
    cases hw
    exact ⟨r, h.recheckResume (by rw [hp]; rfl)⟩
  next hp =>
    split_ifs at hw
    cases hw
    exact ⟨r, h.recheckStarted (by rw [hp]; rfl)⟩
  next hp =>
    split at hw
    next k hk =>
      cases hw
      exact h.masterClears hp hk
    next => contradiction
  next hp =>
    cases hw
    exact h.masterTakesBack hp
  next hp =>
    cases hw
    exact h.masterStarts hp
  next => contradiction

/-! ## The barrier -/

omit [DecidableEq ι] [DecidableEq κ] in
/-- All the workers are in the barrier when it lets them go. -/
theorem all_inBarrier [Fintype ι] {s : Stage ι κ}
    (hc : (Finset.univ.filter fun i => (s.point i).inBarrier).card = Fintype.card ι) (i : ι) :
    ∃ maint, s.point i = .barrier maint := by
  have hall := (Finset.card_eq_iff_eq_univ _).mp hc
  have hi : (s.point i).inBarrier = true := by
    have : i ∈ Finset.univ.filter fun i => (s.point i).inBarrier := by
      rw [hall]
      exact Finset.mem_univ i
    simpa using this
  cases hp : s.point i with
  | barrier maint => exact ⟨maint, rfl⟩
  | _ =>
    rw [hp] at hi
    cases hi

/-- The barrier is full only in a pause that is being made, or in a maintenance. -/
theorem InRound.releaseBarrier [Fintype ι] (h : InRound r s) {master : ι}
    (hw : Pipeline.releaseBarrier s master = some s') : Inv s' := by
  unfold Pipeline.releaseBarrier at hw
  split_ifs at hw with hc
  cases hw
  have hall := all_inBarrier hc
  have hmaster := h.workers master
  obtain ⟨maint, hm⟩ := hall master
  rw [hm] at hmaster
  have hround : r = .pausing ∨ ∃ k, r = .pending k := by
    cases r <;> simp_all [Round.allows, Point.apart, Point.free, Point.resting, Point.parked]
  rcases hround with rfl | ⟨k, rfl⟩
  · refine ⟨.released master, h.advance rfl h.status h.pauseRequested h.maintProc h.pauseLock
      (fun i => ?_) (fun _ _ hk => hk) rfl rfl h.ran rfl⟩
    obtain ⟨maint, hp⟩ := hall i
    have hi := h.workers i
    rw [hp] at hi
    cases maint
    · by_cases him : i = master
      · subst him
        simp [hp, Round.allows]
      · simp [hp, him, Round.allows, Point.resting]
    · simp [Round.allows, Point.apart, Point.free, Point.resting, Point.parked] at hi
  · refine ⟨.elected k master, h.advance rfl h.status h.pauseRequested h.maintProc h.pauseLock
      (fun i => ?_) (fun _ _ hk => hk) rfl rfl h.ran rfl⟩
    obtain ⟨maint, hp⟩ := hall i
    have hi := h.workers i
    rw [hp] at hi
    cases maint
    · simp [Round.allows, Point.apart, Point.free, Point.resting, Point.parked] at hi
    · by_cases him : i = master
      · subst him
        simp [hp, Round.allows]
      · simp [hp, him, Round.allows, Point.parked]

/-! ## Callers -/

/-- Every other call is away while `k` holds `m_lock`, or takes it. -/
theorem InRound.others (h : InRound r s) (hk : s.stageLock = some k ∨ s.stageLock = none) {j : κ}
    (hj : j ≠ k) : (s.caller j).away = true :=
  h.away j (by rcases hk with hk | hk <;> rw [hk] <;> grind)

/-- The caller `k` keeps `m_lock`, goes on to `p`, and takes the stage to the round `r'`. -/
theorem InRound.callerGoto {r' : Round ι κ} (h : InRound r s)
    (hothers : ∀ j, j ≠ k → (s.caller j).away = true) {p : CallerPoint}
    (hstatus : s'.status = r'.status) (hpause : s'.pauseRequested = r'.pauseRequested)
    (hmaint : s'.maintProc = r'.maintProc) (hlock : s'.pauseLock = r'.pauseLock)
    (hpoint : s'.point = s.point) (hcaller : s'.caller = Function.update s.caller k p)
    (hruns : s'.runs = s.runs)
    (hworkers : ∀ i p, r.allows i p = true → r'.allows i p = true)
    (hheld : s'.stageLock = some k ∧ r'.holds k p = true ∨
      s'.stageLock = none ∧ r'.unlocked = true ∧ p.away = true)
    (hran : p.ranOk r'.served (s.runs k))
    (hquiet : s'.quiet = true → r'.isPaused = true ∧ p ≠ .resumeClear ∧ p ≠ .shutdownClear) :
    InRound r' s' where
  status := hstatus
  pauseRequested := hpause
  maintProc := hmaint
  pauseLock := hlock
  workers := fun i => by
    rw [hpoint]
    exact hworkers i _ (h.workers i)
  holder := fun j hj => by
    rcases hheld with ⟨hl, hp⟩ | ⟨hl, -⟩
    · obtain rfl : k = j := Option.some.inj (hl.symm.trans hj)
      simpa [hcaller] using hp
    · rw [hl] at hj
      contradiction
  nobody := fun hn => by
    rcases hheld with ⟨hl, -⟩ | ⟨-, hu, -⟩
    · rw [hl] at hn
      contradiction
    · exact hu
  away := fun j hj => by
    rw [hcaller]
    by_cases hjk : j = k
    · subst hjk
      rcases hheld with ⟨hl, -⟩ | ⟨-, -, hp⟩
      · exact absurd hl hj
      · simpa using hp
    · simpa [hjk] using hothers j hjk
  ran := fun j => by
    rw [hcaller, hruns]
    by_cases hjk : j = k
    · subst hjk
      simpa using hran
    · simpa [hjk] using CallerPoint.ranOk_away (hothers j hjk) (h.ran j)
  quiet := fun hq => by
    refine ⟨(hquiet hq).1, fun j => ?_⟩
    rw [hcaller]
    by_cases hjk : j = k
    · subst hjk
      simpa using (hquiet hq).2
    · have := hothers j hjk
      simp only [ne_eq, hjk, not_false_eq_true, Function.update_of_ne]
      constructor <;> intro hc <;> rw [hc] at this <;> contradiction

/-- A call begins in an unlocked round. -/
theorem InRound.callStart (h : InRound r s) {c : StageCall}
    (hw : Pipeline.callStart s k c = some s') : Inv s' := by
  unfold Pipeline.callStart at hw
  split_ifs at hw with hfree
  obtain ⟨hnone, hout⟩ := hfree
  rw [Option.isNone_iff_eq_none] at hnone
  have hothers : ∀ j, j ≠ k → (s.caller j).away = true := fun j hj => h.others (.inr hnone) hj
  have hzero : s.runs k = 0 := by simpa [hout, CallerPoint.ranOk] using h.ran k
  have hround : r = .idle ∨ r = .paused := by
    have hunlocked := h.nobody hnone
    cases r with
    | idle => exact .inl rfl
    | paused => exact .inr rfl
    | _ => cases hunlocked
  rcases hround with rfl | rfl
  · have hst : s.status = .started := h.status
    have hq : s.quiet = true → False := fun hq => Bool.false_ne_true (h.quiet hq).1
    cases c <;>
      simp only [hst, reduceCtorEq, or_self, if_true, if_false, Option.some.injEq] at hw <;>
      subst hw
    · exact ⟨.idle, h.callerGoto hothers rfl h.pauseRequested h.maintProc h.pauseLock rfl rfl
        rfl (fun _ _ hp => hp) (.inr ⟨rfl, rfl, rfl⟩) trivial fun h => (hq h).elim⟩
    · exact ⟨.idle, h.callerGoto hothers rfl h.pauseRequested h.maintProc h.pauseLock rfl rfl
        rfl (fun _ _ hp => hp) (.inl ⟨rfl, rfl⟩) trivial fun h => (hq h).elim⟩
    · exact ⟨.idle, h.callerGoto hothers rfl h.pauseRequested h.maintProc h.pauseLock rfl rfl
        rfl (fun _ _ hp => hp) (.inr ⟨rfl, rfl, rfl⟩) trivial fun h => (hq h).elim⟩
    · exact ⟨.idle, h.callerGoto hothers rfl h.pauseRequested h.maintProc h.pauseLock rfl rfl
        rfl (fun _ _ hp => hp) (.inl ⟨rfl, rfl⟩) hzero fun h => (hq h).elim⟩
    · exact ⟨.idle, h.callerGoto hothers rfl h.pauseRequested h.maintProc h.pauseLock rfl rfl
        rfl (fun _ _ hp => hp) (.inr ⟨rfl, rfl, rfl⟩) trivial fun h => (Bool.false_ne_true h).elim⟩
  · have hst : s.status = .paused := h.status
    cases c <;>
      simp only [hst, reduceCtorEq, or_self, if_true, if_false, Option.some.injEq] at hw <;>
      subst hw
    · exact ⟨.paused, h.callerGoto hothers rfl h.pauseRequested h.maintProc h.pauseLock rfl rfl
        rfl (fun _ _ hp => hp) (.inr ⟨rfl, rfl, rfl⟩) trivial fun _ => ⟨rfl, by simp, by simp⟩⟩
    · exact ⟨.paused, h.callerGoto hothers rfl h.pauseRequested h.maintProc h.pauseLock rfl rfl
        rfl (fun _ _ hp => hp) (.inr ⟨rfl, rfl, rfl⟩) trivial fun _ => ⟨rfl, by simp, by simp⟩⟩
    · exact ⟨.paused, h.callerGoto hothers rfl h.pauseRequested h.maintProc h.pauseLock rfl rfl
        rfl (fun _ _ hp => hp) (.inl ⟨rfl, rfl⟩) trivial fun h => (Bool.false_ne_true h).elim⟩
    · exact ⟨.paused, h.callerGoto hothers rfl h.pauseRequested h.maintProc h.pauseLock rfl rfl
        rfl (fun _ _ hp => hp) (.inr ⟨rfl, rfl, rfl⟩) (fun hret => absurd hret (by decide))
        fun _ => ⟨rfl, by simp, by simp⟩⟩
    · exact ⟨.paused, h.callerGoto hothers rfl h.pauseRequested h.maintProc h.pauseLock rfl rfl
        rfl (fun _ _ hp => hp) (.inl ⟨rfl, rfl⟩) trivial fun h => (Bool.false_ne_true h).elim⟩

/-- The round that the owner `k` of `m_lock` is in, where its place tells. -/
def Round.ofOwner (k : κ) : CallerPoint → Option (Round ι κ)
  | .pauseSet | .maintSet => some .idle
  | .resumeClear | .shutdownClear => some .paused
  | .resumeStatus | .shutdownStatus => some .resuming
  | .maintRequest => some (.requested k)
  | _ => none

omit [DecidableEq ι] in
theorem Round.eq_of_ofOwner {r' : Round ι κ} {p : CallerPoint} (h : r.holds k p = true)
    (hp : Round.ofOwner k p = some r') : r = r' := by
  cases p <;> cases hp <;> cases r <;> simp_all [Round.holds]

/-- The caller at a point of its own holds `m_lock`. -/
theorem InRound.holding (h : InRound r s) {p : CallerPoint} (hp : s.caller k = p)
    (haway : p.away = false) : s.stageLock = some k ∧ r.holds k p = true := by
  have hlock : s.stageLock = some k := by
    by_contra hn
    have := h.away k hn
    rw [hp, haway] at this
    contradiction
  exact ⟨hlock, hp ▸ h.holder k hlock⟩

/-- No caller is at a point where no round has one. -/
theorem InRound.notHere (h : InRound r s) {p : CallerPoint} (hp : s.caller k = p)
    (haway : p.away = false) (hno : ∀ r : Round ι κ, r.holds k p = false) : False :=
  Bool.false_ne_true ((hno r).symm.trans (h.holding hp haway).2)

/-- Where a caller in a round is not paused, no pause counts. -/
theorem InRound.notQuiet (h : InRound r s) (hr : r.isPaused = false) : s.quiet ≠ true :=
  fun hq => by
    have := (h.quiet hq).1
    rw [hr] at this
    contradiction

/-- A pause looks at the state word. -/
theorem InRound.recheckPaused (h : InRound r s) (hk : s.stageLock = some k)
    (hr : r = .pausing ∨ (∃ m, r = .released m) ∨ r = .paused) : Inv (recheckPaused s k) := by
  have hothers : ∀ j, j ≠ k → (s.caller j).away = true := fun j hj => h.others (.inl hk) hj
  unfold Pipeline.recheckPaused
  rw [h.status]
  rcases hr with rfl | ⟨m, rfl⟩ | rfl
  · exact ⟨.pausing, h.callerGoto hothers h.status h.pauseRequested h.maintProc h.pauseLock rfl
      rfl rfl (fun _ _ hp => hp) (.inl ⟨hk, rfl⟩) trivial fun hq => (h.notQuiet rfl hq).elim⟩
  · exact ⟨.released m, h.callerGoto hothers h.status h.pauseRequested h.maintProc h.pauseLock rfl
      rfl rfl (fun _ _ hp => hp) (.inl ⟨hk, rfl⟩) trivial fun hq => (h.notQuiet rfl hq).elim⟩
  · exact ⟨.paused, h.callerGoto hothers h.status h.pauseRequested h.maintProc h.pauseLock rfl
      rfl rfl (fun _ _ hp => hp) (.inr ⟨rfl, rfl, rfl⟩) trivial fun _ => ⟨rfl, by simp, by simp⟩⟩

/-- A maintenance call looks at the state word. -/
theorem InRound.recheckRequested (h : InRound r s) (hk : s.stageLock = some k)
    (hwait : s.caller k = .maintWait) : Inv (recheckRequested s k) := by
  have hothers : ∀ j, j ≠ k → (s.caller j).away = true := fun j hj => h.others (.inl hk) hj
  have hholds := h.holder k hk
  have hran := h.ran k
  rw [hwait] at hholds hran
  have hq : r.isPaused = false := by cases r <;> simp_all [Round.holds, Round.isPaused]
  unfold Pipeline.recheckRequested
  by_cases hst : r.status = .maintenanceRequested
  · rw [if_pos (h.status.trans hst)]
    exact ⟨r, h.callerGoto hothers h.status h.pauseRequested h.maintProc h.pauseLock rfl rfl rfl
      (fun _ _ hp => hp) (.inl ⟨hk, hholds⟩) hran fun hs => (h.notQuiet hq hs).elim⟩
  · have hidle : r = .idle := by cases r <;> simp_all [Round.holds, Round.status]
    subst hidle
    have hstarted : s.status = .started := h.status
    rw [if_neg (by rw [hstarted]; decide), if_pos hstarted]
    exact ⟨.idle, h.callerGoto hothers h.status h.pauseRequested h.maintProc h.pauseLock rfl rfl
      rfl (fun _ _ hp => hp) (.inr ⟨rfl, rfl, rfl⟩) (fun _ => hran) fun hs =>
        (h.notQuiet hq hs).elim⟩

/-- Every step of a caller keeps the invariant. -/
theorem InRound.callerStep (h : InRound r s) (hw : Pipeline.callerStep s k = some s') :
    Inv s' := by
  unfold Pipeline.callerStep at hw
  have hothers : s.stageLock = some k → ∀ j, j ≠ k → (s.caller j).away = true :=
    fun hk j hj => h.others (.inl hk) hj
  split at hw
  next => contradiction
  next => contradiction
  next hp => exact (h.notHere hp rfl fun r => by cases r <;> rfl).elim
  next => contradiction
  next hp =>
    -- pauseSet: the request of a pause
    split_ifs at hw
    cases hw
    obtain ⟨hk, hr⟩ := h.holding hp rfl
    obtain rfl := Round.eq_of_ofOwner hr rfl
    have hst : s.status ≠ .paused := by rw [h.status]; simp [Round.status]
    rw [Pipeline.recheckPaused, if_pos hst]
    exact ⟨.pausing, h.callerGoto (hothers hk) h.status rfl h.maintProc h.pauseLock rfl rfl rfl
      (fun i p hi => Round.allows_pausing hi) (.inl ⟨hk, rfl⟩) trivial
      fun hq => (h.notQuiet rfl hq).elim⟩
  next hp =>
    -- pauseWait
    split_ifs at hw
    cases hw
    obtain ⟨hk, hr⟩ := h.holding hp rfl
    refine h.recheckPaused hk ?_
    cases r <;> simp_all [Round.holds]
  next hp => exact (h.notHere hp rfl fun r => by cases r <;> rfl).elim
  next hp =>
    -- resumeClear
    split_ifs at hw
    cases hw
    obtain ⟨hk, hr⟩ := h.holding hp rfl
    obtain rfl := Round.eq_of_ofOwner hr rfl
    exact ⟨.resuming, h.callerGoto (hothers hk) h.status rfl h.maintProc h.pauseLock rfl rfl rfl
      (fun i p hi => Point.apart_of_resting hi) (.inl ⟨hk, rfl⟩) trivial
      fun hq => absurd hp ((h.quiet hq).2 k).1⟩
  next hp =>
    -- resumeStatus
    cases hw
    obtain ⟨hk, hr⟩ := h.holding hp rfl
    obtain rfl := Round.eq_of_ofOwner hr rfl
    exact ⟨.idle, h.callerGoto (hothers hk) rfl h.pauseRequested h.maintProc h.pauseLock rfl rfl
      rfl (fun _ _ hi => hi) (.inr ⟨rfl, rfl, rfl⟩) trivial fun hq => (h.notQuiet rfl hq).elim⟩
  next hp =>
    -- maintSet
    split_ifs at hw
    cases hw
    obtain ⟨hk, hr⟩ := h.holding hp rfl
    obtain rfl := Round.eq_of_ofOwner hr rfl
    have hran := h.ran k
    rw [hp] at hran
    exact ⟨.requested k, h.callerGoto (hothers hk) rfl h.pauseRequested rfl rfl rfl rfl rfl
      (fun _ _ hi => hi) (.inl ⟨hk, by simp [Round.holds]⟩) hran
      fun hq => (h.notQuiet rfl hq).elim⟩
  next hp =>
    -- maintRequest
    cases hw
    obtain ⟨hk, hr⟩ := h.holding hp rfl
    obtain rfl := Round.eq_of_ofOwner hr rfl
    have hst : s.status = .maintenanceRequested := h.status
    have hran := h.ran k
    rw [hp] at hran
    rw [Pipeline.recheckRequested, if_pos hst]
    exact ⟨.pending k, h.callerGoto (hothers hk) h.status rfl h.maintProc rfl rfl rfl rfl
      (fun i p hi => Round.allows_pending hi) (.inl ⟨hk, by simp [Round.holds]⟩) hran
      fun hq => (h.notQuiet rfl hq).elim⟩
  next hp =>
    -- maintWait
    split_ifs at hw
    cases hw
    exact h.recheckRequested (h.holding hp rfl).1 hp
  next hp => exact (h.notHere hp rfl fun r => by cases r <;> rfl).elim
  next hp => exact (h.notHere hp rfl fun r => by cases r <;> rfl).elim
  next hp =>
    -- shutdownClear
    split_ifs at hw
    cases hw
    obtain ⟨hk, hr⟩ := h.holding hp rfl
    obtain rfl := Round.eq_of_ofOwner hr rfl
    exact ⟨.resuming, h.callerGoto (hothers hk) h.status rfl h.maintProc h.pauseLock rfl rfl rfl
      (fun i p hi => Point.apart_of_resting hi) (.inl ⟨hk, rfl⟩) trivial
      fun hq => absurd hp ((h.quiet hq).2 k).2⟩
  next hp =>
    -- shutdownStatus
    cases hw
    obtain ⟨hk, hr⟩ := h.holding hp rfl
    obtain rfl := Round.eq_of_ofOwner hr rfl
    exact ⟨.idle, h.callerGoto (hothers hk) rfl h.pauseRequested h.maintProc h.pauseLock rfl rfl
      rfl (fun _ _ hi => hi) (.inr ⟨rfl, rfl, rfl⟩) trivial fun hq => (h.notQuiet rfl hq).elim⟩
  next hp => exact (h.notHere hp rfl fun r => by cases r <;> rfl).elim
  next hp => exact (h.notHere hp rfl fun r => by cases r <;> rfl).elim
  next hp => exact (h.notHere hp rfl fun r => by cases r <;> rfl).elim

/-! ## Runs -/

/-- One step keeps the invariant. -/
theorem Inv.step [Fintype ι] {e : StageEvent ι κ} (h : Inv s) (hw : stageStep s e = some s') :
    Inv s' := by
  obtain ⟨r, hr⟩ := h
  cases e with
  | worker i result => exact hr.workerStep hw
  | release master => exact hr.releaseBarrier hw
  | call k c => exact hr.callStart hw
  | caller k => exact hr.callerStep hw

/-- A stage just started is idle. -/
theorem Inv.init (hasFetch hasThrow : Bool) : Inv (Stage.init hasFetch hasThrow : Stage ι κ) :=
  ⟨.idle,
    { status := rfl
      pauseRequested := rfl
      maintProc := rfl
      pauseLock := rfl
      workers := fun _ => rfl
      holder := fun _ hk => by contradiction
      nobody := fun _ => rfl
      away := fun _ _ => rfl
      ran := fun _ => rfl
      quiet := fun hq => by contradiction }⟩

/-- In a pause that counts, and while a maintenance function runs, no worker is in a procedure;
a maintenance that returned `OK` ran once. -/
theorem Inv.quiescent (h : Inv s) :
    (s.quiet = true → ∀ i, (s.point i).inProc = false) ∧
      (∀ m, s.point m = .maintRun → ∀ i, (s.point i).inProc = false) ∧
      ∀ k, s.caller k = .returned .scheduleMaintenance Result.ok → s.runs k = 1 := by
  obtain ⟨r, hr⟩ := h
  refine ⟨fun hq i => ?_, fun m hm i => ?_, fun k hk => ?_⟩
  · have hp := (hr.quiet hq).1
    obtain rfl : r = .paused := by cases r <;> simp_all [Round.isPaused]
    rcases Point.resting_iff.mp (hr.workers i) with hi | hi <;> rw [hi] <;> rfl
  · have hturn := hr.turn hm rfl
    obtain ⟨k, rfl⟩ : ∃ k, r = .running k m := by cases r <;> simp_all [Round.turn]
    by_cases him : i = m
    · rw [him, hm]; rfl
    · have hi := hr.workers i
      rw [Round.allows, if_neg him] at hi
      rcases Point.parked_iff.mp hi with hi | hi <;> rw [hi] <;> rfl
  · have hran := hr.ran k
    rw [hk] at hran
    exact hran rfl

/-- **Quiescence.** In every run of a started stage, with any number of workers and calls: from
the return of a pause until the next resume or shutdown, and while a maintenance function runs, no
worker is in a fetch, main or throw procedure; and the function of a `schedule_maintenance` that
returned `OK` has run exactly once. -/
theorem quiescence [Fintype ι] {hasFetch hasThrow : Bool} {es : List (StageEvent ι κ)}
    {s : Stage ι κ} (h : Trans.run stageStep (Stage.init hasFetch hasThrow) es = some s) :
    (s.quiet = true → ∀ i, (s.point i).inProc = false) ∧
      (∀ m, s.point m = .maintRun → ∀ i, (s.point i).inProc = false) ∧
      ∀ k, s.caller k = .returned .scheduleMaintenance Result.ok → s.runs k = 1 :=
  Inv.quiescent <|
    (Trans.Run.all_iff.mpr h).inv (fun _ _ _ hs _ hst => hs.step hst) (Inv.init _ _)

/-- Two workers: a maintenance that ends, and then a pause. -/
def maintenanceThenPause : List (StageEvent (Fin 2) (Fin 2)) :=
  [.call 0 .scheduleMaintenance, .caller 0, .caller 0,
    .worker 0 0, .worker 0 0, .worker 0 0, .worker 0 0,
    .worker 1 0, .worker 1 0, .worker 1 0, .worker 1 0,
    .release 1, .worker 1 0, .worker 1 0, .worker 1 0, .worker 1 0, .worker 0 0, .caller 0,
    .worker 1 0, .worker 1 0, .call 1 .pause, .caller 1, .worker 1 0,
    .worker 0 0, .worker 0 0, .worker 0 0, .worker 1 0, .worker 1 0, .worker 1 0,
    .release 0, .worker 0 0, .caller 1]

theorem quiescence_two : ∃ s, Trans.run stageStep (.init true true) maintenanceThenPause = some s ∧
    s.quiet = true ∧ (∀ i, (s.point i).inProc = false) ∧ s.runs 0 = 1 := by
  have hrun : ∃ s, Trans.run stageStep (.init true true) maintenanceThenPause = some s ∧
      s.quiet = true ∧ s.caller 0 = .returned .scheduleMaintenance Result.ok :=
    ⟨_, rfl, rfl, rfl⟩
  obtain ⟨s, hs, hq, hc⟩ := hrun
  exact ⟨s, hs, hq, (quiescence hs).1 hq, (quiescence hs).2.2 0 hc⟩

end Pipeline
end Gallus
