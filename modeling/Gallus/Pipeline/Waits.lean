import Gallus.Pipeline.Stage

/-!
# The wait for the workers of a stage (`pipeline_stage.c`)

`gallus_pipeline_stage_wait` waits for the workers one after the other, and takes the stage for shut
down if all of these waits succeed. With a limit, the time that one wait has taken is what the next
one gets.

* `Wait`: what the wait for one worker would come to, whatever limit it gets.
* `Paced`: the waits that a budget of time fits.
* `waitLoop_iff`: these are the ones in which the loop keeps to the budget and misses no worker.
* `stageWait_keeps_iff`: with them and no others, the call keeps its promises.
-/

namespace Gallus
namespace StageWait

open Pipeline (StageState ShutdownLevel)

/-- The wait for one worker. -/
structure Wait where
  /-- `w_end - w_begin`. -/
  duration : Chrono
  ret : Result
  /-- The worker has exited when its stage counts, even if nobody has waited for it. -/
  exited : Bool
  deriving DecidableEq, Repr

/-- A call of one of the procedures of the stage. -/
inductive ProcCall
  | final (isCanceled : Bool)
  | shutdown (lvl : ShutdownLevel)
  deriving DecidableEq, Repr

/-- `gallus_pipeline_stage_record`. -/
structure Stage where
  /-- `s_is_stage`. -/
  isStage : Bool
  status : StageState
  doLoop : Bool
  sgLvl : ShutdownLevel
  nCanceled : Nat
  /-- `m_final_proc != NULL`. -/
  hasFinal : Bool
  /-- `m_shutdown_proc != NULL`. -/
  hasShutdown : Bool
  calls : List ProcCall
  deriving DecidableEq, Repr

/-! ## The source -/

/-- The loop with a limit, with `w` left for the next worker: the result, and the limits given to
the workers. -/
def waitLoop : Chrono → List Wait → Result × List Chrono
  | _, [] => (Result.ok, [])
  | w, x :: workers =>
    if 0 < w then
      if x.ret = Result.ok then
        ((waitLoop x.duration workers).1, w :: (waitLoop x.duration workers).2)
      else (x.ret, [w])
    else (Result.ok, [])

/-- `s_wait_stage`. -/
def waitStage (workers : List Wait) (nsec : Chrono) (isInDestroy : Bool) : Result × List Chrono :=
  if isInDestroy = false ∧ 0 < nsec then waitLoop nsec workers
  else (Result.ok, workers.map fun _ => -1)

/-- `m_n_shutdown_workers`, with the first `nWaited` workers waited for. A worker counts itself
before a wait for it can succeed. -/
def nShutdown (workers : List Wait) (nWaited : Nat) : Nat :=
  ((workers.take nWaited).countP fun x => x.ret = Result.ok ∨ x.exited = true) +
    (workers.drop nWaited).countP (·.exited)

/-- How a call ends. -/
structure Outcome where
  /-- There is no result behind `gallus_exit_fatal`. -/
  ret : Option Result
  stage : Stage
  /-- The limits given to the workers. -/
  limits : List Chrono
  deriving DecidableEq, Repr

/-- The stage, with all its workers shut down. -/
def Stage.shutDown (ps : Stage) : Stage :=
  { ps with
    status := if 0 < ps.nCanceled then .canceled else .shutdown
    doLoop := false
    calls := ps.calls ++ (if ps.hasFinal then [.final (decide (0 < ps.nCanceled))] else []) ++
      if ps.hasShutdown then [.shutdown ps.sgLvl] else [] }

/-- `gallus_pipeline_stage_wait`, on a stage with these workers. -/
def stageWait (ps : Stage) (workers : List Wait) (nsec : Chrono) : Outcome :=
  if ps.isStage then
    if ps.status = .started then
      match waitStage workers nsec false with
      | (ret, limits) =>
        if ret = Result.ok then
          if nShutdown workers limits.length = workers.length then ⟨some ret, ps.shutDown, limits⟩
          else ⟨none, ps, limits⟩
        else ⟨some ret, ps, limits⟩
    else ⟨some Result.invalidStateTransition, ps, []⟩
  else ⟨some Result.invalidObject, ps, []⟩

/-! ## The loop -/

/-- Every worker has been waited for, successfully. -/
def Complete (workers : List Wait) (nWaited : Nat) : Prop :=
  nWaited = workers.length ∧ ∀ x ∈ workers, x.ret = Result.ok

/-- No limit is more than is left of `budget` when it is given. -/
def InBudget (budget : Chrono) (workers : List Wait) (limits : List Chrono) : Prop :=
  ∀ i w, limits[i]? = some w → w ≤ budget - ((workers.take i).map Wait.duration).sum

/-- With `left` of the budget: each successful wait but the last takes some time, and leaves as much
as it has taken. -/
def Paced : Chrono → List Wait → Prop
  | left, x :: y :: workers => x.ret = Result.ok → 0 < x.duration ∧
      x.duration ≤ left - x.duration ∧ Paced (left - x.duration) (y :: workers)
  | _, _ => True

instance Paced.decidable : ∀ left workers, Decidable (Paced left workers)
  | _, [] | _, [_] => .isTrue trivial
  | left, x :: y :: workers =>
    have := Paced.decidable (left - x.duration) (y :: workers)
    inferInstanceAs (Decidable (_ → _ ∧ _ ∧ _))

section Loop

variable {left w : Chrono} {x : Wait} {workers : List Wait} {limits : List Chrono}

theorem inBudget_singleton : InBudget left workers [w] ↔ w ≤ left := by
  constructor
  · intro h
    simpa using h 0 w rfl
  · rintro h (_ | i) w' hw
    · cases hw
      simpa using h
    · cases hw

/-- The first limit, and the others with what is left behind the first wait. -/
theorem inBudget_cons : InBudget left (x :: workers) (w :: limits) ↔
    w ≤ left ∧ InBudget (left - x.duration) workers limits := by
  constructor
  · intro h
    refine ⟨by simpa using h 0 w rfl, fun i w' hw => ?_⟩
    have hlater := h (i + 1) w' hw
    rwa [List.take_succ_cons, List.map_cons, List.sum_cons, ← Int.sub_sub] at hlater
  · rintro ⟨hfirst, hrest⟩ (_ | i) w' hw
    · cases hw
      simpa using hfirst
    · rw [List.take_succ_cons, List.map_cons, List.sum_cons, ← Int.sub_sub]
      exact hrest i w' hw

/-- **The loop.** It keeps to what is left and misses no worker, exactly if its first limit does and
the waits are paced. -/
theorem waitLoop_iff (hw : 0 < w) :
    ((waitLoop w (x :: workers)).1 = Result.ok →
        Complete (x :: workers) (waitLoop w (x :: workers)).2.length) ∧
      InBudget left (x :: workers) (waitLoop w (x :: workers)).2 ↔
    w ≤ left ∧ Paced left (x :: workers) := by
  induction workers generalizing left w x with
  | nil =>
    unfold waitLoop
    rw [if_pos hw]
    by_cases hx : x.ret = Result.ok
    · rw [if_pos hx]
      simp [waitLoop, Complete, Paced, hx, inBudget_singleton]
    · rw [if_neg hx]
      simp [hx, Paced, inBudget_singleton]
  | cons y workers ih =>
    rw [waitLoop, if_pos hw]
    by_cases hx : x.ret = Result.ok
    · rw [if_pos hx]
      dsimp only
      rw [inBudget_cons, List.length_cons]
      have hpaced : Paced left (x :: y :: workers) ↔ 0 < x.duration ∧
          x.duration ≤ left - x.duration ∧ Paced (left - x.duration) (y :: workers) := by
        rw [Paced]
        exact ⟨fun h => h hx, fun h _ => h⟩
      have hcomplete : ∀ n, Complete (x :: y :: workers) (n + 1) ↔ Complete (y :: workers) n := by
        intro n
        simp [Complete, hx]
      rw [hpaced, hcomplete]
      by_cases hd : 0 < x.duration
      · rw [and_left_comm, ih hd]
        simp only [hd, true_and]
      · -- No time is left for the next worker, and the loop ends with `OK`.
        have hends : waitLoop x.duration (y :: workers) = (Result.ok, []) := by
          rw [waitLoop, if_neg hd]
        rw [hends]
        simp [Complete, hd]
    · rw [if_neg hx]
      simp [hx, Paced, inBudget_singleton]

end Loop

/-! ## The call -/

section Call

variable {ps : Stage} {workers : List Wait} {nsec : Chrono}

/-- All the workers count if all of them have been waited for. -/
theorem Complete.nShutdown {n : Nat} (h : Complete workers n) :
    nShutdown workers n = workers.length := by
  obtain ⟨rfl, hok⟩ := h
  unfold StageWait.nShutdown
  rw [List.take_length, List.drop_length, List.countP_nil, Nat.add_zero, List.countP_eq_length]
  intro x hx
  simp [hok x hx]

/-- What is promised of a wait: an `OK` is about every worker, a limit is within the budget, and the
process goes on. -/
structure Keeps (ps : Stage) (workers : List Wait) (nsec : Chrono) : Prop where
  complete : (stageWait ps workers nsec).ret = some Result.ok →
    Complete workers (stageWait ps workers nsec).limits.length
  inBudget : 0 < nsec → InBudget nsec workers (stageWait ps workers nsec).limits
  notFatal : (stageWait ps workers nsec).ret ≠ none

/-- The waits that the call can keep its promises with. -/
def WellPaced (workers : List Wait) (nsec : Chrono) : Prop :=
  if 0 < nsec then Paced nsec workers else ∀ x ∈ workers, x.ret = Result.ok

instance : Decidable (WellPaced workers nsec) := by
  unfold WellPaced
  split_ifs <;> infer_instance

/-- The promises, of a started stage. -/
theorem keeps_iff (hstage : ps.isStage = true) (hst : ps.status = .started) :
    Keeps ps workers nsec ↔
      ((waitStage workers nsec false).1 = Result.ok →
        Complete workers (waitStage workers nsec false).2.length) ∧
      (0 < nsec → InBudget nsec workers (waitStage workers nsec false).2) := by
  have hlimits : (stageWait ps workers nsec).limits = (waitStage workers nsec false).2 := by
    unfold stageWait
    rw [if_pos hstage, if_pos hst]
    dsimp only
    split_ifs <;> rfl
  have hret : (waitStage workers nsec false).1 ≠ Result.ok →
      (stageWait ps workers nsec).ret = some (waitStage workers nsec false).1 := by
    intro hne
    unfold stageWait
    rw [if_pos hstage, if_pos hst]
    dsimp only
    rw [if_neg hne]
  have hok : (waitStage workers nsec false).1 = Result.ok →
      (stageWait ps workers nsec).ret =
        if nShutdown workers (waitStage workers nsec false).2.length = workers.length then
          some Result.ok
        else none := by
    intro heq
    unfold stageWait
    rw [if_pos hstage, if_pos hst]
    dsimp only
    rw [if_pos heq, heq]
    split_ifs <;> rfl
  constructor
  · intro h
    refine ⟨fun heq => ?_, hlimits ▸ h.inBudget⟩
    have hkept := h.complete
    have hfatal := h.notFatal
    rw [hok heq] at hkept hfatal
    rw [← hlimits]
    split_ifs at hkept hfatal
    · exact hkept rfl
    · exact absurd rfl hfatal
  · rintro ⟨hcomplete, hbudget⟩
    by_cases heq : (waitStage workers nsec false).1 = Result.ok
    · refine ⟨fun _ => hlimits ▸ hcomplete heq, hlimits ▸ hbudget, ?_⟩
      rw [hok heq, if_pos (hcomplete heq).nShutdown]
      exact Option.some_ne_none _
    · refine ⟨fun h => ?_, hlimits ▸ hbudget, ?_⟩
      · rw [hret heq] at h
        exact absurd (Option.some.inj h) heq
      · rw [hret heq]
        exact Option.some_ne_none _

/-- **The wait.** It keeps its promises exactly if it is not on a started stage, or the waits for
its workers are well paced. -/
theorem stageWait_keeps_iff (ps : Stage) (workers : List Wait) (nsec : Chrono) :
    Keeps ps workers nsec ↔
      (ps.isStage = true → ps.status = .started → WellPaced workers nsec) := by
  by_cases hstage : ps.isStage = true
  swap
  · have heq : stageWait ps workers nsec = ⟨some Result.invalidObject, ps, []⟩ := by
      unfold stageWait
      rw [if_neg hstage]
    refine iff_of_true ⟨fun h => ?_, fun _ i w h => ?_, ?_⟩ fun h => absurd h hstage
    · rw [heq] at h
      cases h
    · rw [heq] at h
      cases h
    · rw [heq]
      exact Option.some_ne_none _
  by_cases hst : ps.status = .started
  swap
  · have heq : stageWait ps workers nsec = ⟨some Result.invalidStateTransition, ps, []⟩ := by
      unfold stageWait
      rw [if_pos hstage, if_neg hst]
    refine iff_of_true ⟨fun h => ?_, fun _ i w h => ?_, ?_⟩ fun _ h => absurd h hst
    · rw [heq] at h
      cases h
    · rw [heq] at h
      cases h
    · rw [heq]
      exact Option.some_ne_none _
  rw [keeps_iff hstage hst]
  simp only [hstage, hst, true_implies]
  unfold WellPaced waitStage
  by_cases hpos : 0 < nsec
  · simp only [hpos, and_self, if_true, true_implies]
    cases workers with
    | nil => simp [waitLoop, Complete, InBudget, Paced]
    | cons x workers => rw [waitLoop_iff hpos, and_iff_right le_rfl]
  · simp [hpos, Complete]

end Call

/-- A started stage. -/
def startedStage : Stage := ⟨true, .started, true, .gracefully, 0, true, true, []⟩

/-- Three waits, each of which leaves more than it takes. -/
theorem stageWait_keeps_iff_three :
    (startedStage.isStage = true → startedStage.status = .started →
        WellPaced [⟨100, Result.ok, true⟩, ⟨200, Result.ok, true⟩, ⟨150, Result.ok, true⟩] 1000) ∧
      Keeps startedStage
        [⟨100, Result.ok, true⟩, ⟨200, Result.ok, true⟩, ⟨150, Result.ok, true⟩] 1000 := by
  have h : WellPaced
      [⟨100, Result.ok, true⟩, ⟨200, Result.ok, true⟩, ⟨150, Result.ok, true⟩] 1000 := by decide
  exact ⟨fun _ _ => h, (stageWait_keeps_iff ..).mpr fun _ _ => h⟩

/-- The first of two workers has exited, and the clock says that the wait for it has taken no time:
the second one is taken for shut down too, and the process ends. If the clock says more than the
half, the second one gets more than is left. -/
theorem stageWait_broken :
    stageWait startedStage [⟨0, Result.ok, true⟩, ⟨0, Result.timedout, false⟩] 1000 =
        ⟨none, startedStage, [1000]⟩ ∧
      (stageWait startedStage [⟨600, Result.ok, true⟩, ⟨600, Result.ok, true⟩] 1000).limits =
        [1000, 600] := by
  decide

end StageWait
end Gallus
