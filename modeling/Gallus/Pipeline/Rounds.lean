import Gallus.Pipeline.Life

/-!
# Workers that miss the end of a round

A worker leaves the wait of a pause or a maintenance when it looks at the request flag or at the
state word, and the next round sets both back. `Rounds` counts the rounds of a stage and knows the
round in which each worker left the barrier last.

* `never_oversleeps`: where a round is opened only once every worker is out of the wait of the
  earlier rounds, no request waits for a worker that sleeps in an earlier round.
* `oversleeps_secondPause`: otherwise one worker and two pauses are enough.
-/

namespace Gallus
namespace Pipeline

variable {ι κ : Type} [DecidableEq ι] [DecidableEq κ]

/-- A stage, and how its workers stand to the rounds of pauses and maintenance. -/
structure Rounds (ι κ : Type) where
  stage : Stage ι κ
  /-- The rounds that have been opened. -/
  round : Nat
  /-- The round in which a worker left the barrier last. -/
  joined : ι → Nat

/-- The call `k` opens a round: it requests a maintenance, or a pause of a stage that is not paused
yet. -/
def Stage.opens (s : Stage ι κ) (k : κ) : Prop :=
  s.caller k = .maintSet ∨ s.caller k = .pauseSet ∧ s.status ≠ .paused

instance (s : Stage ι κ) (k : κ) : Decidable (s.opens k) :=
  inferInstanceAs (Decidable (_ ∨ _))

/-- The rounds opened when `e` has happened. -/
def Rounds.next (r : Rounds ι κ) : LifeEvent ι κ → Nat
  | .step (.caller k) => if r.stage.opens k then r.round + 1 else r.round
  | _ => r.round

/-- The workers that have left the barrier when `e` has happened. -/
def Rounds.nextJoined (r : Rounds ι κ) : LifeEvent ι κ → ι → Nat
  | .step (.release _) => fun _ => r.round
  | _ => r.joined

/-- One step. -/
def roundsStep [Fintype ι] (r : Rounds ι κ) (e : LifeEvent ι κ) : Option (Rounds ι κ) :=
  (lifeStep r.stage e).map fun s => { stage := s, round := r.next e, joined := r.nextJoined e }

def Rounds.created (hasFetch hasThrow : Bool) : Rounds ι κ where
  stage := .created hasFetch hasThrow
  round := 0
  joined := fun _ => 0

/-- A pause or a maintenance waits for its barrier, and a worker sleeps in an earlier round. -/
def Rounds.oversleeps (r : Rounds ι κ) : Prop :=
  (∃ k, r.stage.caller k = .pauseWait ∨ r.stage.caller k = .maintWait) ∧
    ∃ i, (r.stage.point i = .resumeWait ∨ r.stage.point i = .maintWait) ∧ r.joined i < r.round

/-- At `p`, a worker of an earlier round can still fall asleep in it: the next round is a
maintenance or a pause. -/
def Point.late (maint : Bool) : Point → Bool
  | .resumeWait | .maintWait | .released false _ => true
  | .released true false => maint
  | _ => false

/-- A round is opened only once no worker is late. -/
def caughtUp (r : Rounds ι κ) : LifeEvent ι κ → Prop
  | .step (.caller k) => r.stage.opens k →
      ∀ i, (r.stage.point i).late (decide (r.stage.caller k = .maintSet)) = false
  | _ => True

instance [Fintype ι] (r : Rounds ι κ) (e : LifeEvent ι κ) : Decidable (caughtUp r e) :=
  match e with
  | .step (.caller _) => inferInstanceAs (Decidable (_ → _))
  | .step (.worker _ _) | .step (.release _) | .step (.call _ _) | .expire _ | .fail _
  | .startFails _ | .startReturns _ | .shutdownNow _ | .die _ => .isTrue trivial

variable {s s' : Stage ι κ} {i : ι} {p : Point} {e : LifeEvent ι κ}

/-! ## The invariant -/

/-- Waits for its barrier, or is about to. -/
def CallerPoint.waiting : CallerPoint → Bool
  | .pauseWait | .maintRequest | .maintWait => true
  | _ => false

/-- While a call waits, either every worker has been in the barrier of its round, or none can fall
asleep before it comes to that. -/
structure Timely (r : Rounds ι κ) : Prop where
  held : HeldBy r.stage
  joined : r.stage.holder.waiting = true →
    (∀ i, r.joined i = r.round) ∨ ∀ i, ¬r.stage.asleepBefore (r.stage.point i)
  pausing : r.stage.holder = .pauseSet → r.stage.status = .started ∨ r.stage.status = .paused

omit [DecidableEq ι] [DecidableEq κ] in
/-- At points that are not late, no worker can fall asleep before its barrier. -/
theorem not_asleepBefore {maint : Bool} (hlate : p.late maint = false)
    (hst : maint = false → s.status = .started) : ¬s.asleepBefore p := by
  rintro (rfl | rfl | ⟨_, rfl⟩ | ⟨rfl, hne⟩)
  · contradiction
  · contradiction
  · contradiction
  · exact hne (hst hlate)

omit [DecidableEq κ] in
/-- A step of a worker takes no worker that cannot fall asleep to where it can. -/
theorem Worked.asleepBefore (h : Worked s i p s') (hs : ∀ j, ¬s.asleepBefore (s.point j)) (j : ι) :
    ¬s'.asleepBefore (s'.point j) := by
  obtain ⟨-, -, hpoint, hmove⟩ := h
  have hkeep : ∀ q, s'.status = s.status ∨ s'.status = .started → s'.asleepBefore q →
      s.asleepBefore q := by
    rintro q hst (hq | hq | hq | ⟨hq, hne⟩)
    · exact .inl hq
    · exact .inr (.inl hq)
    · exact .inr (.inr (.inl hq))
    · rcases hst with hst | hst
      · exact .inr (.inr (.inr ⟨hq, hst ▸ hne⟩))
      · exact absurd hst hne
  have hmoved : ∀ {q}, (s'.status = s.status ∨ s'.status = .started) → p = q →
      ¬s.asleepBefore q → ¬s'.asleepBefore (s'.point j) := by
    rintro q hst rfl hp ha
    have := hkeep _ hst ha
    rw [hpoint] at this
    by_cases hj : j = i
    · subst hj
      rw [Function.update_self] at this
      exact hp this
    · rw [Function.update_of_ne hj] at this
      exact hs j this
  have hawake : ∀ q : Point, q = .maintRun ∨ q = .maintClear ∨ q = .maintStart ∨ q = .loop ∨
      q = .exited → ¬s.asleepBefore q := by
    rintro q (rfl | rfl | rfl | rfl | rfl) (h | h | ⟨_, h⟩ | ⟨h, -⟩) <;> cases h
  cases hmove with
  | quietly hw hp => exact hmoved (.inl hw.status) rfl fun ha => hs i (hp.asleep ha)
  | pauses hat hfree hw hp => exact absurd (.inr (.inr (.inl ⟨true, hat⟩))) (hs i)
  | locks hat hfree hw hp => exact hmoved (.inl hw.status) hp (hawake _ (by simp))
  | runs hat hproc hw hp => exact hmoved (.inl hw.status) hp (hawake _ (by simp))
  | dies hat hw hp => exact hmoved (.inl hw.status) hp (hawake _ (by simp))
  | clears hat hw hp => exact hmoved (.inl hw.status) hp (hawake _ (by simp))
  | starts hat hw hp => exact hmoved (.inr hw.status) hp (hawake _ (by simp))

omit [DecidableEq κ] in
/-- A step of a worker sets the state word to nothing but started or paused. -/
theorem Worked.status (h : Worked s i p s') :
    s'.status = s.status ∨ s'.status = .started ∨ s'.status = .paused := by
  cases h.move with
  | pauses hat hfree hw hp => exact .inr (.inr hw.status)
  | starts hat hw hp => exact .inr (.inl hw.status)
  | quietly hw hp => exact .inl hw.status
  | locks hat hfree hw hp => exact .inl hw.status
  | runs hat hproc hw hp => exact .inl hw.status
  | dies hat hw hp => exact .inl hw.status
  | clears hat hw hp => exact .inl hw.status

/-- Only a step of the call that holds `m_lock` itself takes it on from where it opens a round. -/
theorem opening_event [Fintype ι] (hs : HeldBy s)
    (hat : s.holder = .pauseSet ∨ s.holder = .maintSet) (h : lifeStep s e = some s')
    (hne : s'.holder ≠ s.holder) : ∃ k, e = .step (.caller k) ∧ s.caller k = s.holder := by
  have hsame : s'.stageLock = s.stageLock ∧ s'.caller = s.caller → False := fun ⟨hl, hc⟩ =>
    hne (by rw [Stage.holder, Stage.holder, hl, hc])
  have hout : s.stageLock.isNone = true → False := fun hl => by
    rw [Option.isNone_iff_eq_none] at hl
    rcases hat with hat | hat <;> rw [Stage.holder, hl] at hat <;> contradiction
  have hnot : ∀ {k q}, s.caller k = q → q.away = false → q ≠ .pauseSet → q ≠ .maintSet → False :=
    fun hk ha h₁ h₂ => by
      rw [hs.holder hk ha] at hat
      rcases hat with hat | hat
      · exact h₁ hat
      · exact h₂ hat
  cases e with
  | step e =>
    cases e with
    | worker i result =>
      obtain ⟨p, hp⟩ := workerStep_worked h
      exact (hsame ⟨hp.stageLock, hp.caller⟩).elim
    | release master =>
      obtain ⟨-, -, hl, hc⟩ := releaseBarrier_eq h
      exact (hsame ⟨hl, hc⟩).elim
    | call k c =>
      simp only [lifeStep, stageStep, callStart] at h
      by_cases hfree : s.stageLock.isNone ∧ s.caller k = .outside
      · exact (hout hfree.1).elim
      · rw [if_neg hfree] at h
        contradiction
    | caller k =>
      refine ⟨k, rfl, (hs.holder rfl ?_).symm⟩
      simp only [lifeStep, stageStep, callerStep] at h
      split at h
      next => contradiction
      next => contradiction
      all_goals
        next hk => rw [hk]; rfl
  | expire k =>
    simp only [lifeStep] at h
    split_ifs at h with hk
    exact (hnot hk.1 rfl (by simp) (by simp)).elim
  | fail k =>
    simp only [lifeStep] at h
    split_ifs at h with hk
    exact (hnot hk.1 rfl (by simp) (by simp)).elim
  | startFails k =>
    simp only [lifeStep] at h
    split_ifs at h with hk
    exact (hnot hk rfl (by simp) (by simp)).elim
  | startReturns k =>
    simp only [lifeStep] at h
    split_ifs at h with hk
    exact (hnot hk.1 rfl (by simp) (by simp)).elim
  | shutdownNow k =>
    simp only [lifeStep, shutdownNow] at h
    by_cases hfree : s.stageLock.isNone ∧ s.caller k = .outside
    · exact (hout hfree.1).elim
    · rw [if_neg hfree] at h
      contradiction
  | die i =>
    obtain ⟨p, hp⟩ := die_worked h
    exact (hsame ⟨hp.stageLock, hp.caller⟩).elim

omit [DecidableEq ι] [DecidableEq κ] in
/-- Where no call is about to open a round, none is opened. -/
theorem Rounds.next_eq {r : Rounds ι κ} (hs : HeldBy r.stage) (hp : r.stage.holder ≠ .pauseSet)
    (hm : r.stage.holder ≠ .maintSet) : r.next e = r.round := by
  unfold Rounds.next
  split
  next k =>
    refine if_neg ?_
    rintro (hk | ⟨hk, -⟩)
    · exact hm (hs.holder hk rfl)
    · exact hp (hs.holder hk rfl)
  next => rfl

omit [DecidableEq ι] [DecidableEq κ] in
theorem Rounds.nextJoined_eq {r : Rounds ι κ} (he : ∀ master, e ≠ .step (.release master)) :
    r.nextJoined e = r.joined := by
  unfold Rounds.nextJoined
  split
  next master => exact absurd rfl (he master)
  next => rfl

omit [DecidableEq ι] [DecidableEq κ] in
/-- Only the first step of a pause takes it to its request. -/
theorem HolderMove.pausing (h : HolderMove s s') (hp : s'.holder = .pauseSet) :
    s'.status = .started := by
  cases h with
  | begins hat hw hpoint hto =>
    rcases hto with hto | ⟨hst, -⟩ | ⟨-, hto | hto | hto⟩
    · rw [hto] at hp
      contradiction
    · exact hw.status.trans hst
    all_goals
      rw [hto] at hp
      contradiction
  | starts hat hw hpoint hto => exact hw.status
  | resumes hat hw hpoint hto => exact hw.status
  | clears hat hw hpoint => rcases hat with h | h | h | h | h <;> rw [h.2] at hp <;> contradiction
  | startFails hat hw hpoint hto => rcases hto with hto | hto <;> rw [hto] at hp <;> contradiction
  | waits hat hw hpoint hto =>
    rcases hto with hto | hto | ⟨-, hto⟩ <;> rw [hto] at hp <;> contradiction
  | launches hat hstatus hw hpoint hto =>
    rw [hto] at hp
    contradiction
  | stops hat hw hpoint hto =>
    rw [hto] at hp
    contradiction
  | drops hat hw hpoint hto =>
    rw [hto] at hp
    contradiction
  | asks k hat hfree hw hpoint hto =>
    rw [hto] at hp
    contradiction
  | requests hat hfree hw hpoint hto => split_ifs at hto <;> rw [hto] at hp <;> contradiction
  | flags hat hw hpoint hto => split_ifs at hto <;> rw [hto] at hp <;> contradiction
  | looks hat hw hpoint hto => split_ifs at hto <;> rw [hto] at hp <;> contradiction

/-- Each step that opens no round too early keeps the invariant. -/
theorem Timely.step [Fintype ι] {r r' : Rounds ι κ} (h : Timely r) (hok : caughtUp r e)
    (hstep : roundsStep r e = some r') : Timely r' := by
  unfold roundsStep at hstep
  rw [Option.map_eq_some_iff] at hstep
  obtain ⟨s', hstep, rfl⟩ := hstep
  rcases lifeStep_cases h.held hstep with ⟨i, p, he, hi⟩ | ⟨m, rfl, hm⟩ | ⟨he, hheld, hmove⟩ |
    ⟨k, rfl, hk⟩
  · -- a worker
    have hholder : s'.holder = r.stage.holder := by
      rw [Stage.holder, Stage.holder, hi.stageLock, hi.caller]
    have hnext : r.next e = r.round ∧ r.nextJoined e = r.joined := by
      rcases he with rfl | ⟨result, rfl⟩ <;> exact ⟨rfl, rfl⟩
    refine ⟨fun k hk => ?_, fun hwait => ?_, fun hp => ?_⟩
    · rw [hi.caller]
      exact h.held k (by rwa [← hi.stageLock])
    · dsimp only
      rw [hnext.1, hnext.2]
      exact (h.joined (hholder ▸ hwait)).imp id hi.asleepBefore
    · rcases hi.status with hst | hst | hst
      · rw [hst]
        exact h.pausing (hholder ▸ hp)
      · exact .inl hst
      · exact .inr hst
  · -- the barrier
    obtain ⟨-, hsame, hl, hc⟩ := releaseBarrier_eq hm
    have hholder : s'.holder = r.stage.holder := by rw [Stage.holder, Stage.holder, hl, hc]
    refine ⟨fun k hk => ?_, fun _ => .inl fun _ => rfl, fun hp => ?_⟩
    · rw [hc]
      exact h.held k (by rwa [← hl])
    · rw [hsame.status]
      exact h.pausing (hholder ▸ hp)
  · -- a call
    have hstays : r.stage.holder.waiting = true → s'.status = r.stage.status →
        s'.point = r.stage.point →
        (∀ i, r.nextJoined e i = r.next e) ∨ ∀ i, ¬s'.asleepBefore (s'.point i) := by
      intro hwait hst hpoint
      rw [Rounds.next_eq h.held (fun hp => by rw [hp] at hwait; contradiction)
        (fun hp => by rw [hp] at hwait; contradiction), Rounds.nextJoined_eq he]
      refine (h.joined hwait).imp id fun hs i ha => hs i ?_
      rw [hpoint] at ha
      simpa only [Stage.asleepBefore, hst] using ha
    refine ⟨hheld, fun hwait => ?_, fun hp => ?_⟩ <;> dsimp only at *
    · cases hmove with
      | begins hat hw hpoint hto =>
        rcases hto with hto | ⟨-, hto | hto | hto⟩ | ⟨-, hto | hto | hto⟩ <;>
          rw [hto] at hwait <;> contradiction
      | launches hat hstatus hw hpoint hto =>
        rw [hto] at hwait
        contradiction
      | starts hat hw hpoint hto =>
        rw [hto] at hwait
        contradiction
      | startFails hat hw hpoint hto =>
        rcases hto with hto | hto <;> rw [hto] at hwait <;> contradiction
      | requests hat hfree hw hpoint hto =>
        have hne : r.stage.status ≠ .paused := fun hst => by
          rw [if_pos hst] at hto
          rw [hto] at hwait
          contradiction
        rw [if_neg hne] at hto
        obtain ⟨k, rfl, hk⟩ := opening_event h.held (.inl hat) hstep (by rw [hto, hat]; simp)
        rw [hat] at hk
        have hlate := hok (.inr ⟨hk, hne⟩)
        have hst : r.stage.status = .started := (h.pausing hat).resolve_right hne
        refine .inr fun i => not_asleepBefore (hpoint ▸ hlate i) fun _ => ?_
        rw [hw.status]
        exact hst
      | waits hat hw hpoint hto => exact hstays (by rw [hat]; rfl) hw.status hpoint
      | clears hat hw hpoint =>
        rcases hat with ⟨-, hto⟩ | ⟨-, hto⟩ | ⟨-, hto⟩ | ⟨-, hto⟩ | ⟨-, hto⟩ <;>
          rw [hto] at hwait <;> contradiction
      | resumes hat hw hpoint hto =>
        rcases hto with hto | hto <;> rw [hto] at hwait <;> contradiction
      | stops hat hw hpoint hto =>
        rw [hto] at hwait
        contradiction
      | asks k hat hfree hw hpoint hto =>
        obtain ⟨k, rfl, hk⟩ := opening_event h.held (.inr hat) hstep (by rw [hto, hat]; simp)
        rw [hat] at hk
        have hlate := hok (.inl hk)
        rw [decide_eq_true hk] at hlate
        exact .inr fun i => not_asleepBefore (hpoint ▸ hlate i) fun hf => by contradiction
      | flags hat hw hpoint hto => exact hstays (by rw [hat]; rfl) hw.status hpoint
      | looks hat hw hpoint hto => exact hstays (by rw [hat]; rfl) hw.status hpoint
      | drops hat hw hpoint hto =>
        rw [hto] at hwait
        contradiction
    · exact .inl (hmove.pausing hp)
  · -- a pause that expires
    refine ⟨hk.held, fun hwait => ?_, fun hp => ?_⟩ <;> dsimp only at *
    · rw [hk.holder] at hwait
      contradiction
    · rw [hk.holder] at hp
      contradiction

omit [DecidableEq ι] [DecidableEq κ] in
theorem Timely.created (hasFetch hasThrow : Bool) :
    Timely (Rounds.created hasFetch hasThrow : Rounds ι κ) where
  held := fun _ _ => rfl
  joined := fun hwait => by contradiction
  pausing := fun hp => by contradiction

omit [DecidableEq ι] [DecidableEq κ] in
theorem Timely.not_oversleeps {r : Rounds ι κ} (h : Timely r) : ¬r.oversleeps := by
  rintro ⟨⟨k, hk⟩, i, hi, hlt⟩
  have hwait : r.stage.holder.waiting = true := by
    rcases hk with hk | hk <;> rw [h.held.holder hk rfl] <;> rfl
  rcases h.joined hwait with hall | hawake
  · have := hall i
    omega
  · exact hawake i (hi.imp id .inl)

/-- **No worker oversleeps a round.** In every run in which each pause and each maintenance opens
its round only once no worker can still fall asleep, or sleep, in an earlier one: no pause and no
maintenance waits for its barrier while a worker sleeps in an earlier round. -/
theorem never_oversleeps [Fintype ι] {hasFetch hasThrow : Bool} {es : List (LifeEvent ι κ)}
    {r : Rounds ι κ}
    (h : Trans.Run roundsStep caughtUp (Rounds.created hasFetch hasThrow) es r) : ¬r.oversleeps :=
  have hr : Timely r :=
    h.inv (fun _ _ _ (hr : Timely _) hok hw => hr.step hok hw) (.created hasFetch hasThrow)
  hr.not_oversleeps

/-- A pause of a stage with one worker, and a resume. -/
def pauseAndResume : List (LifeEvent (Fin 1) (Fin 5)) :=
  [.step (.call 0 .start), .step (.caller 0), .step (.call 1 .pause), .step (.caller 1),
    .step (.worker 0 0), .step (.worker 0 0), .step (.worker 0 0), .step (.release 0),
    .step (.worker 0 0), .step (.caller 1), .step (.call 2 .resume), .step (.caller 2),
    .step (.caller 2)]

/-- The worker leaves its wait, and then comes a maintenance. -/
def workerFirst : List (LifeEvent (Fin 1) (Fin 5)) :=
  pauseAndResume ++ [.step (.worker 0 0), .step (.call 3 .scheduleMaintenance), .step (.caller 3),
    .step (.caller 3), .step (.worker 0 0), .step (.worker 0 0), .step (.worker 0 0),
    .step (.worker 0 0), .step (.release 0)]

theorem never_oversleeps_workerFirst :
    ∃ r, Trans.run roundsStep (Rounds.created true true) workerFirst = some r ∧
      r.stage.caller 3 = .maintWait ∧ r.round = 2 ∧ ¬r.oversleeps := by
  have hrun : ∃ r, Trans.run (Trans.guarded roundsStep caughtUp) (Rounds.created true true)
      workerFirst = some r ∧ r.stage.caller 3 = .maintWait ∧ r.round = 2 :=
    ⟨_, rfl, rfl, rfl⟩
  obtain ⟨r, hr, hk, hround⟩ := hrun
  have hok := Trans.Run.of_guarded hr
  exact ⟨r, hok.run_eq, hk, hround, never_oversleeps hok⟩

/-- The worker is still asleep when the next pause begins, and goes on sleeping however often it
is woken. -/
theorem oversleeps_secondPause :
    ∃ r, Trans.run roundsStep (Rounds.created true true : Rounds (Fin 1) (Fin 5))
        (pauseAndResume ++ [.step (.call 3 .pause), .step (.caller 3), .step (.worker 0 0),
          .step (.caller 3), .step (.worker 0 0)]) = some r ∧ r.oversleeps :=
  ⟨_, rfl, ⟨3, .inl rfl⟩, 0, .inl rfl, by decide⟩

end Pipeline
end Gallus
