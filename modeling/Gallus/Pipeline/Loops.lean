import Gallus.Pipeline.Stage

/-!
# The loops of the workers (`pipeline_worker.c`)

`WORKER_LOOP` is the loop of every worker, with one of four bodies: for a stage with or without a
fetch and a throw procedure. A procedure is any function of what the program's data is (`σ`), so
that its results may be any sequence.

* `opsFetchMainThrow`, `opsFetchMain`, `opsMainThrow`, `opsMain`: the four bodies. `Pass` is what
  one is up to, with the procedures it has called.
* `Reading`: what one pass of the loop reads of the stage, which other threads may change at any
  time. `loopPass`: `WORKER_LOOP`, one pass.
* `loopPass_agrees`: bodies that agree but for the procedures that one of them lacks make loops that
  do.
* `loops_agree`: the three shorter loops, and how a worker leaves its loop.
* `stageStep_pass`: the steps of a worker in `Stage` are those of its body.
-/

namespace Gallus
namespace WorkerLoop

open Pipeline (ShutdownLevel)

/-- A procedure of the stage, with the number of events it is given. -/
abbrev Proc (σ : Type) := σ → Nat → Result × σ

/-- What a worker does. -/
inductive Action
  | fetch (nEvs : Nat) (ret : Result)
  | main (nEvs : Nat) (ret : Result)
  | throw (nEvs : Nat) (ret : Result)
  | pause | maintenance
  deriving DecidableEq, Repr

/-- One run of a body. -/
structure Pass (σ : Type) where
  st : Result
  /-- The data of the program. -/
  user : σ
  actions : List Action
  /-- It ends with `break`. -/
  breaks : Bool

/-- What one pass of the loop reads of the stage. -/
structure Reading (σ : Type) where
  doLoop : Bool
  sgLvl : ShutdownLevel
  pauseRequested : Bool
  /-- `m_maint_proc != NULL`. -/
  maint : Bool
  /-- What becomes of the data of the program in a pause or a maintenance. -/
  meanwhile : σ → σ
  /-- `m_sg_lvl` behind the loop. -/
  lastLvl : ShutdownLevel

/-- A worker in its loop, or with what the loop has returned. -/
structure Worker (σ : Type) where
  st : Result
  user : σ
  actions : List Action
  /-- The results of the passes of the body. -/
  results : List Result
  ret : Option Result

variable {σ : Type}

/-! ## The bodies -/

/-- `if (st < 0) { break; }`. -/
def Pass.stop (st : Result) (user : σ) (actions : List Action) : Pass σ :=
  ⟨st, user, actions, decide (st < 0)⟩

/-- `continue;`. -/
def Pass.goOn (st : Result) (user : σ) (actions : List Action) : Pass σ :=
  ⟨st, user, actions, false⟩

/-- The body of `s_worker_f_m_t`. -/
def opsFetchMainThrow (fetch main throw : Proc σ) (maxNEvs : Nat) (u : σ) : Pass σ :=
  match fetch u maxNEvs with
  | (st, u) =>
    let actions := [Action.fetch maxNEvs st]
    if 0 < st then
      let nEvs := st.toNat
      match main u nEvs with
      | (st, u) =>
        let actions := actions ++ [Action.main nEvs st]
        if 0 < st then
          let nEvs := st.toNat
          match throw u nEvs with
          | (st, u) =>
            let actions := actions ++ [Action.throw nEvs st]
            if 0 < st then .goOn st u actions else .stop st u actions
        else .stop st u actions
    else .stop st u actions

/-- The body of `s_worker_f_m`. -/
def opsFetchMain (fetch main : Proc σ) (maxNEvs : Nat) (u : σ) : Pass σ :=
  match fetch u maxNEvs with
  | (st, u) =>
    let actions := [Action.fetch maxNEvs st]
    if 0 < st then
      let nEvs := st.toNat
      match main u nEvs with
      | (st, u) =>
        let actions := actions ++ [Action.main nEvs st]
        if 0 < st then .goOn st u actions else .stop st u actions
    else .stop st u actions

/-- The body of `s_worker_m_t`. -/
def opsMainThrow (main throw : Proc σ) (maxNEvs : Nat) (u : σ) : Pass σ :=
  match main u maxNEvs with
  | (st, u) =>
    let actions := [Action.main maxNEvs st]
    if 0 < st then
      let nEvs := st.toNat
      match throw u nEvs with
      | (st, u) =>
        let actions := actions ++ [Action.throw nEvs st]
        if 0 < st then .goOn st u actions else .stop st u actions
    else .stop st u actions

/-- The body of `s_worker_m`. -/
def opsMain (main : Proc σ) (maxNEvs : Nat) (u : σ) : Pass σ :=
  match main u maxNEvs with
  | (st, u) =>
    let actions := [Action.main maxNEvs st]
    if 0 < st then .goOn st u actions else .stop st u actions

/-- `s_find_worker_proc`. -/
def findWorkerProc (fetch main throw : Option (Proc σ)) : Option (Nat → σ → Pass σ) :=
  match fetch, main, throw with
  | some fetch, some main, some throw => some (opsFetchMainThrow fetch main throw)
  | some fetch, some main, none => some (opsFetchMain fetch main)
  | none, some main, some throw => some (opsMainThrow main throw)
  | none, some main, none => some (opsMain main)
  | _, none, _ => none

/-! ## The loop -/

/-- Behind the loop. -/
def Worker.leave (w : Worker σ) (lvl : ShutdownLevel) : Worker σ :=
  { w with
    ret := some (if (lvl = .rightNow ∨ lvl = .gracefully) ∧ 0 < w.st then Result.ok else w.st) }

/-- `WORKER_LOOP`, one pass. -/
def loopPass (ops : σ → Pass σ) (w : Worker σ) (r : Reading σ) : Worker σ :=
  if w.ret.isSome then w
  else if r.doLoop = true ∧ (0 < w.st ∨ w.st = 0 ∧ r.sgLvl = .unknown) then
    if r.pauseRequested = false then
      let p := ops w.user
      let w := { w with
        st := p.st
        user := p.user
        actions := w.actions ++ p.actions
        results := w.results ++ [p.st] }
      if p.breaks then w.leave r.lastLvl else w
    else
      { w with
        user := r.meanwhile w.user
        actions := w.actions ++ [if r.maint then .maintenance else .pause] }
  else w.leave r.lastLvl

/-- Before the loop. -/
def Worker.enter (u : σ) : Worker σ := ⟨0, u, [], [], none⟩

/-- The loop, over the passes that these readings are for. -/
def workerLoop (ops : σ → Pass σ) (u : σ) (rs : List (Reading σ)) : Worker σ :=
  rs.foldl (loopPass ops) (.enter u)

/-! ## Loops that agree -/

/-- The same, but for the procedures that the first one lacks. -/
structure Pass.Agrees (has : Action → Bool) (p p' : Pass σ) : Prop where
  st : p.st = p'.st
  user : p.user = p'.user
  actions : p.actions = p'.actions.filter has
  breaks : p.breaks = p'.breaks

/-- The same, but for the procedures that the first one lacks. -/
structure Agrees (has : Action → Bool) (w w' : Worker σ) : Prop where
  st : w.st = w'.st
  user : w.user = w'.user
  actions : w.actions = w'.actions.filter has
  results : w.results = w'.results
  ret : w.ret = w'.ret

section Agree

variable {has : Action → Bool} {ops ops' : σ → Pass σ} {w w' : Worker σ}

theorem Agrees.leave (h : Agrees has w w') (lvl : ShutdownLevel) :
    Agrees has (w.leave lvl) (w'.leave lvl) := by
  refine ⟨h.st, h.user, h.actions, h.results, ?_⟩
  unfold Worker.leave
  rw [h.st]

/-- **One pass.** -/
theorem loopPass_agrees (hpause : has .pause = true) (hmaint : has .maintenance = true)
    (hops : ∀ u, (ops u).Agrees has (ops' u)) (h : Agrees has w w') (r : Reading σ) :
    Agrees has (loopPass ops w r) (loopPass ops' w' r) := by
  obtain ⟨st, u, actions, results, ret⟩ := w
  obtain ⟨rfl, rfl, hactions, rfl, rfl⟩ := h
  dsimp only at hactions
  have h : Agrees has ⟨w'.st, w'.user, actions, w'.results, w'.ret⟩ w' :=
    ⟨rfl, rfl, hactions, rfl, rfl⟩
  unfold loopPass
  dsimp only
  by_cases hleft : w'.ret.isSome
  · rw [if_pos hleft, if_pos hleft]
    exact h
  rw [if_neg hleft, if_neg hleft]
  by_cases hloop : r.doLoop = true ∧ (0 < w'.st ∨ w'.st = 0 ∧ r.sgLvl = .unknown)
  swap
  · rw [if_neg hloop, if_neg hloop]
    exact h.leave r.lastLvl
  rw [if_pos hloop, if_pos hloop]
  by_cases hpaused : r.pauseRequested = false
  · rw [if_pos hpaused, if_pos hpaused]
    have hp := hops w'.user
    have hnext : Agrees has
        ⟨(ops w'.user).st, (ops w'.user).user, actions ++ (ops w'.user).actions,
          w'.results ++ [(ops w'.user).st], w'.ret⟩
        ⟨(ops' w'.user).st, (ops' w'.user).user, w'.actions ++ (ops' w'.user).actions,
          w'.results ++ [(ops' w'.user).st], w'.ret⟩ := by
      refine ⟨hp.st, hp.user, ?_, ?_, rfl⟩
      · dsimp only
        rw [List.filter_append, hactions, hp.actions]
      · dsimp only
        rw [hp.st]
    rw [hp.breaks]
    split_ifs
    · exact hnext.leave r.lastLvl
    · exact hnext
  · rw [if_neg hpaused, if_neg hpaused]
    refine ⟨rfl, rfl, ?_, rfl, rfl⟩
    dsimp only
    rw [List.filter_append, hactions]
    cases r.maint
    · rw [if_neg Bool.false_ne_true, List.filter_singleton, hpause]
      rfl
    · rw [if_pos rfl, List.filter_singleton, hmaint]
      rfl

/-- **The loop**, over any passes. -/
theorem workerLoop_agrees (hpause : has .pause = true) (hmaint : has .maintenance = true)
    (hops : ∀ u, (ops u).Agrees has (ops' u)) (u : σ) (rs : List (Reading σ)) :
    Agrees has (workerLoop ops u rs) (workerLoop ops' u rs) := by
  have hrun : ∀ w w' : Worker σ, Agrees has w w' →
      Agrees has (rs.foldl (loopPass ops) w) (rs.foldl (loopPass ops') w') := by
    induction rs with
    | nil => exact fun _ _ h => h
    | cons r rs ih => exact fun w w' h => ih _ _ (loopPass_agrees hpause hmaint hops h r)
  exact hrun _ _ ⟨rfl, rfl, rfl, rfl, rfl⟩

end Agree

/-! ## The shorter bodies -/

/-- A throw that returns its input count. -/
def throwAll : Proc σ := fun u nEvs => ((nEvs : Result), u)

/-- A fetch that always returns the maximum batch size. -/
def fetchMax : Proc σ := fun u maxNEvs => ((maxNEvs : Result), u)

def Action.isFetch : Action → Bool
  | .fetch _ _ => true
  | _ => false

def Action.isThrow : Action → Bool
  | .throw _ _ => true
  | _ => false

section Bodies

variable {fetch main throw : Proc σ} {maxNEvs : Nat}

theorem opsFetchMain_agrees (u : σ) : (opsFetchMain fetch main maxNEvs u).Agrees
    (fun a => !a.isThrow) (opsFetchMainThrow fetch main throwAll maxNEvs u) := by
  unfold opsFetchMain opsFetchMainThrow throwAll
  rcases fetch u maxNEvs with ⟨st, u⟩
  dsimp only
  by_cases hfetch : 0 < st
  · rw [if_pos hfetch, if_pos hfetch]
    rcases main u st.toNat with ⟨st', u⟩
    dsimp only
    by_cases hmain : 0 < st'
    · rw [if_pos hmain, if_pos hmain, Int.toNat_of_nonneg hmain.le, if_pos hmain]
      exact ⟨rfl, rfl, rfl, rfl⟩
    · rw [if_neg hmain, if_neg hmain]
      exact ⟨rfl, rfl, rfl, rfl⟩
  · rw [if_neg hfetch, if_neg hfetch]
    exact ⟨rfl, rfl, rfl, rfl⟩

theorem opsMainThrow_agrees (hmax : 0 < maxNEvs) (u : σ) :
    (opsMainThrow main throw maxNEvs u).Agrees (fun a => !a.isFetch)
      (opsFetchMainThrow fetchMax main throw maxNEvs u) := by
  unfold opsMainThrow opsFetchMainThrow fetchMax
  dsimp only
  rw [if_pos (Int.natCast_pos.mpr hmax), Int.toNat_natCast]
  rcases main u maxNEvs with ⟨st, u⟩
  dsimp only
  by_cases hmain : 0 < st
  · rw [if_pos hmain, if_pos hmain]
    rcases throw u st.toNat with ⟨st', u⟩
    dsimp only
    split_ifs <;> exact ⟨rfl, rfl, rfl, rfl⟩
  · rw [if_neg hmain, if_neg hmain]
    exact ⟨rfl, rfl, rfl, rfl⟩

theorem opsMain_agrees (u : σ) : (opsMain main maxNEvs u).Agrees (fun a => !a.isThrow)
    (opsMainThrow main throwAll maxNEvs u) := by
  unfold opsMain opsMainThrow throwAll
  rcases main u maxNEvs with ⟨st, u⟩
  dsimp only
  by_cases hmain : 0 < st
  · rw [if_pos hmain, if_pos hmain, Int.toNat_of_nonneg hmain.le, if_pos hmain]
    exact ⟨rfl, rfl, rfl, rfl⟩
  · rw [if_neg hmain, if_neg hmain]
    exact ⟨rfl, rfl, rfl, rfl⟩

/-- Of what lacks one procedure, and what then lacks another one. -/
theorem Pass.Agrees.trans {has has' : Action → Bool} {p p' p'' : Pass σ} (h : p.Agrees has p')
    (h' : p'.Agrees has' p'') : p.Agrees (fun a => has a && has' a) p'' := by
  refine ⟨h.st.trans h'.st, h.user.trans h'.user, ?_, h.breaks.trans h'.breaks⟩
  rw [h.actions, h'.actions, List.filter_filter]

/-- A body breaks off with a negative result only. -/
def Pass.Stops (p : Pass σ) : Prop := p.breaks = true → p.st < 0

theorem Pass.stop_stops (st : Result) (u : σ) (actions : List Action) :
    (Pass.stop st u actions).Stops :=
  of_decide_eq_true

theorem Pass.goOn_stops (st : Result) (u : σ) (actions : List Action) :
    (Pass.goOn st u actions).Stops :=
  fun h => absurd h Bool.false_ne_true

theorem opsFetchMainThrow_stops (u : σ) :
    (opsFetchMainThrow fetch main throw maxNEvs u).Stops := by
  unfold opsFetchMainThrow
  dsimp only
  split_ifs
  · exact Pass.goOn_stops _ _ _
  · exact Pass.stop_stops _ _ _
  · exact Pass.stop_stops _ _ _
  · exact Pass.stop_stops _ _ _

/-- What agrees with such a body is such a body. -/
theorem Pass.Agrees.stops {has : Action → Bool} {p p' : Pass σ} (h : p.Agrees has p')
    (h' : p'.Stops) : p.Stops := by
  intro hb
  rw [h.st]
  exact h' (h.breaks ▸ hb)

end Bodies

/-! ## The loops of the source -/

/-- The last pass of the body that was completed has not returned a positive number, if any was. -/
def Worker.Drained (w : Worker σ) : Prop := ∀ st ∈ w.results.getLast?, st ≤ 0

/-- A worker knows its last result, and leaves a loop that nobody has stopped with nothing to do. -/
structure Orderly (w : Worker σ) : Prop where
  st : w.st = w.results.getLast?.getD 0
  drained : w.ret.isSome = true → w.Drained

theorem Orderly.enter (u : σ) : Orderly (Worker.enter u) := ⟨rfl, nofun⟩

theorem Orderly.leave {w : Worker σ} (h : Orderly w) (hst : w.st ≤ 0) (lvl : ShutdownLevel) :
    Orderly (w.leave lvl) := by
  refine ⟨h.st, fun _ st hlast => ?_⟩
  have hlast' : w.results.getLast? = some st := hlast
  have heq := h.st
  rw [hlast', Option.getD_some] at heq
  rwa [heq] at hst

/-- One pass of a loop that nobody stops. -/
theorem Orderly.loopPass {ops : σ → Pass σ} {w : Worker σ} {r : Reading σ} (h : Orderly w)
    (hops : ∀ u, (ops u).Stops) (hr : r.doLoop = true) : Orderly (loopPass ops w r) := by
  unfold WorkerLoop.loopPass
  by_cases hleft : w.ret.isSome
  · rw [if_pos hleft]
    exact h
  rw [if_neg hleft]
  by_cases hloop : r.doLoop = true ∧ (0 < w.st ∨ w.st = 0 ∧ r.sgLvl = .unknown)
  swap
  · rw [if_neg hloop]
    refine h.leave (not_lt.mp fun hpos => hloop ⟨hr, .inl hpos⟩) r.lastLvl
  rw [if_pos hloop]
  by_cases hpaused : r.pauseRequested = false
  · rw [if_pos hpaused]
    dsimp only
    have hnext : Orderly
        { w with
          st := (ops w.user).st
          user := (ops w.user).user
          actions := w.actions ++ (ops w.user).actions
          results := w.results ++ [(ops w.user).st] } := by
      refine ⟨?_, fun hsome => absurd hsome hleft⟩
      dsimp only
      rw [List.getLast?_append_of_ne_nil _ (by simp), List.getLast?_singleton, Option.getD_some]
    split_ifs with hbreaks
    · exact hnext.leave (hops w.user hbreaks).le r.lastLvl
    · exact hnext
  · rw [if_neg hpaused]
    exact ⟨h.st, fun hsome => absurd hsome hleft⟩

/-- **A graceful shutdown.** A worker leaves its loop only when there was nothing to do. -/
theorem workerLoop_drained {ops : σ → Pass σ} (hops : ∀ u, (ops u).Stops) {u : σ}
    {rs : List (Reading σ)} (hrs : ∀ r ∈ rs, r.doLoop = true)
    (hleft : (workerLoop ops u rs).ret.isSome = true) : (workerLoop ops u rs).Drained := by
  have hrun : ∀ w : Worker σ, Orderly w → Orderly (rs.foldl (loopPass ops) w) := by
    clear hleft
    induction rs with
    | nil => exact fun _ h => h
    | cons r rs ih =>
      intro w h
      exact ih (fun r' hr' => hrs r' (List.mem_cons_of_mem _ hr')) _
        (h.loopPass hops (hrs r List.mem_cons_self))
  exact (hrun _ (.enter u)).drained hleft

/-- The body of any worker. -/
theorem findWorkerProc_stops {fetch throw : Option (Proc σ)} {main : Proc σ}
    {ops : Nat → σ → Pass σ} {maxNEvs : Nat} (hmax : 0 < maxNEvs)
    (hops : findWorkerProc fetch (some main) throw = some ops) (u : σ) : (ops maxNEvs u).Stops := by
  rcases fetch with _ | fetch <;> rcases throw with _ | throw <;> cases hops
  · exact (opsMain_agrees u).stops ((opsMainThrow_agrees hmax u).stops (opsFetchMainThrow_stops u))
  · exact (opsMainThrow_agrees hmax u).stops (opsFetchMainThrow_stops u)
  · exact (opsFetchMain_agrees u).stops (opsFetchMainThrow_stops u)
  · exact opsFetchMainThrow_stops u

/-- **The four loops agree**, over any passes: without a throw, as with one that returns its input
count; without a fetch, as with one that always returns the maximum batch size; without both, as
with both. While nobody stops the loop, a worker of any of them leaves it only when drained. -/
theorem loops_agree (fetch main throw : Proc σ) {maxNEvs : Nat} (hmax : 0 < maxNEvs) (u : σ)
    (rs : List (Reading σ)) :
    Agrees (fun a => !a.isThrow) (workerLoop (opsFetchMain fetch main maxNEvs) u rs)
        (workerLoop (opsFetchMainThrow fetch main throwAll maxNEvs) u rs) ∧
      Agrees (fun a => !a.isFetch) (workerLoop (opsMainThrow main throw maxNEvs) u rs)
        (workerLoop (opsFetchMainThrow fetchMax main throw maxNEvs) u rs) ∧
      Agrees (fun a => !a.isThrow && !a.isFetch) (workerLoop (opsMain main maxNEvs) u rs)
        (workerLoop (opsFetchMainThrow fetchMax main throwAll maxNEvs) u rs) ∧
      ∀ fetch throw ops, findWorkerProc fetch (some main) throw = some ops →
        (∀ r ∈ rs, r.doLoop = true) → (workerLoop (ops maxNEvs) u rs).ret.isSome = true →
          (workerLoop (ops maxNEvs) u rs).Drained := by
  refine ⟨?_, ?_, ?_, ?_⟩
  · exact workerLoop_agrees rfl rfl opsFetchMain_agrees u rs
  · exact workerLoop_agrees rfl rfl (opsMainThrow_agrees hmax) u rs
  · exact workerLoop_agrees rfl rfl
      (fun u => (opsMain_agrees u).trans (opsMainThrow_agrees hmax u)) u rs
  · intro fetch throw ops hops hrs hleft
    exact workerLoop_drained (findWorkerProc_stops hmax hops) hrs hleft

/-- A main procedure that has work for two batches. -/
def twoBatches : Proc Nat := fun done nEvs => (if done < 2 then (nEvs : Result) else 0, done + 1)

/-- A pass with nothing but the level. -/
def passAt (lvl : ShutdownLevel) : Reading Nat := ⟨true, lvl, false, false, id, lvl⟩

/-- It gets a graceful shutdown while it is at work. -/
def shutDownAtWork : List (Reading Nat) :=
  [passAt .unknown, passAt .gracefully, passAt .gracefully, passAt .gracefully]

theorem loops_agree_twoBatches :
    0 < 4 ∧ (workerLoop (opsMain twoBatches 4) 0 shutDownAtWork).results = [4, 4, 0] ∧
      (workerLoop (opsMain twoBatches 4) 0 shutDownAtWork).ret = some 0 ∧
      Agrees (fun a => !a.isThrow && !a.isFetch)
        (workerLoop (opsMain twoBatches 4) 0 shutDownAtWork)
        (workerLoop (opsFetchMainThrow fetchMax twoBatches throwAll 4) 0 shutDownAtWork) ∧
      (workerLoop (opsMain twoBatches 4) 0 shutDownAtWork).Drained := by
  have hleft : (workerLoop (opsMain twoBatches 4) 0 shutDownAtWork).ret = some 0 := by decide
  obtain ⟨-, -, hagree, hdrained⟩ :=
    loops_agree fetchMax twoBatches throwAll (by decide : 0 < 4) 0 shutDownAtWork
  exact ⟨by decide, by decide, hleft, hagree,
    hdrained none none _ rfl (by decide) (by rw [hleft]; rfl)⟩

/-! ## The workers of a stage -/

section Steps

open Pipeline (Stage StageEvent stageStep Point after)

variable {ι κ : Type} [DecidableEq ι] [DecidableEq κ] [Fintype ι] {s : Stage ι κ} {i : ι}

/-- The result of a procedure. -/
def Action.ret : Action → Result
  | .fetch _ ret | .main _ ret | .throw _ ret => ret
  | .pause | .maintenance => Result.ok

omit [DecidableEq κ] [Fintype ι] in
@[simp] theorem took_took (s : Stage ι κ) (r r' : Result) (p p' : Point) :
    (s.took i r p).took i r' p' = s.took i r' p' := by
  simp only [Stage.took, Function.update_idem]

omit [DecidableEq κ] [Fintype ι] in
@[simp] theorem took_point (s : Stage ι κ) (r : Result) (p : Point) :
    (s.took i r p).point i = p :=
  Function.update_self ..

/-- Where a body leaves the worker. -/
def Pass.exit (p : Pass σ) : Point := if p.breaks then .exited else .loop

theorem Pass.exit_goOn {st : Result} {u : σ} {actions : List Action} (h : 0 < st) :
    (Pass.goOn st u actions).exit = after st .loop := by
  simp [Pass.exit, Pass.goOn, after, h]

theorem Pass.exit_stop {st : Result} {u : σ} {actions : List Action} (next : Point)
    (h : ¬0 < st) : (Pass.stop st u actions).exit = after st next := by
  simp [Pass.exit, Pass.stop, after, h]

variable {r : Result} {es : List (StageEvent ι κ)}

theorem run_fetch (hp : s.point i = .fetch) : Trans.run stageStep s (.worker i r :: es) =
    Trans.run stageStep (s.took i r (after r .main)) es := by
  rw [Trans.run_cons]
  simp [stageStep, Pipeline.workerStep, hp]

theorem run_main (hp : s.point i = .main) : Trans.run stageStep s (.worker i r :: es) =
    Trans.run stageStep (s.took i r (after r (if s.hasThrow then .throw else .loop))) es := by
  rw [Trans.run_cons]
  simp [stageStep, Pipeline.workerStep, hp]

theorem run_throw (hp : s.point i = .throw) : Trans.run stageStep s (.worker i r :: es) =
    Trans.run stageStep (s.took i r (after r .loop)) es := by
  rw [Trans.run_cons]
  simp [stageStep, Pipeline.workerStep, hp]

theorem after_pos {next : Point} (h : 0 < r) : after r next = next := if_pos h

/-- A main procedure with something to throw. -/
theorem run_mainThrow {r' : Result} (hp : s.point i = .main) (hthrow : s.hasThrow = true)
    (hr : 0 < r) : Trans.run stageStep s [.worker i r, .worker i r'] =
      some (s.took i r' (after r' .loop)) := by
  rw [run_main hp, hthrow, if_pos rfl, after_pos hr, run_throw (took_point ..), took_took]
  rfl

/-- The actions of a pass take the worker to where the pass leaves it. -/
def Pass.Steps (p : Pass σ) (s : Stage ι κ) (i : ι) : Prop :=
  Trans.run stageStep s (p.actions.map fun a => .worker i a.ret) = some (s.took i p.st p.exit)

/-- The last procedure of a body, however it ends. -/
theorem Pass.steps_last {u : σ} {actions : List Action}
    (h : Trans.run stageStep s (actions.map fun a => .worker i a.ret) =
      some (s.took i r (after r .loop))) :
    Pass.Steps (if 0 < r then .goOn r u actions else .stop r u actions) s i := by
  unfold Pass.Steps
  split_ifs with hr
  · rw [Pass.exit_goOn hr]
    exact h
  · rw [Pass.exit_stop .loop hr]
    exact h

/-- A procedure that ends the body. -/
theorem Pass.steps_stop {u : σ} {actions : List Action} {next : Point} (hr : ¬0 < r)
    (h : Trans.run stageStep s (actions.map fun a => .worker i a.ret) =
      some (s.took i r (after r next))) : (Pass.stop r u actions).Steps s i := by
  unfold Pass.Steps
  rw [Pass.exit_stop next hr]
  exact h

/-- A main procedure with nothing to throw. -/
theorem run_mainOnly (hp : s.point i = .main) (hthrow : s.hasThrow = false) :
    Trans.run stageStep s [.worker i r] = some (s.took i r (after r .loop)) := by
  rw [run_main hp, hthrow]
  rfl

/-- A main procedure that has nothing for the throw procedure. -/
theorem run_mainStops (hp : s.point i = .main) (hthrow : s.hasThrow = true) :
    Trans.run stageStep s [.worker i r] = some (s.took i r (after r .throw)) := by
  rw [run_main hp, hthrow]
  rfl

/-- **The steps of a worker** in its body are the actions of the body, and leave the worker with its
result. -/
theorem stageStep_pass {fetch throw : Option (Proc σ)} {main : Proc σ} {ops : Nat → σ → Pass σ}
    (hops : findWorkerProc fetch (some main) throw = some ops) (hfetch : s.hasFetch = fetch.isSome)
    (hthrow : s.hasThrow = throw.isSome) (hp : s.point i = if s.hasFetch then .fetch else .main)
    (maxNEvs : Nat) (u : σ) : (ops maxNEvs u).Steps s i := by
  rw [hfetch] at hp
  rcases fetch with _ | fetch <;> rcases throw with _ | throw <;> cases hops
  · unfold opsMain
    rcases main u maxNEvs with ⟨st, u⟩
    exact Pass.steps_last (run_mainOnly hp hthrow)
  · unfold opsMainThrow
    rcases main u maxNEvs with ⟨st, u⟩
    dsimp only
    by_cases hmain : 0 < st
    · rcases throw u st.toNat with ⟨st', u⟩
      rw [if_pos hmain]
      exact Pass.steps_last (run_mainThrow hp hthrow hmain)
    · rw [if_neg hmain]
      exact Pass.steps_stop hmain (run_mainStops hp hthrow)
  · unfold opsFetchMain
    rcases fetch u maxNEvs with ⟨st, u⟩
    dsimp only
    by_cases hfetched : 0 < st
    · rcases main u st.toNat with ⟨st', u⟩
      rw [if_pos hfetched]
      refine Pass.steps_last ?_
      show Trans.run stageStep s [.worker i st, .worker i st'] = _
      rw [run_fetch hp, after_pos hfetched, run_mainOnly (took_point ..) hthrow, took_took]
    · rw [if_neg hfetched]
      exact Pass.steps_stop hfetched (run_fetch hp)
  · unfold opsFetchMainThrow
    rcases fetch u maxNEvs with ⟨st, u⟩
    dsimp only
    by_cases hfetched : 0 < st
    · rcases main u st.toNat with ⟨st', u⟩
      rw [if_pos hfetched]
      by_cases hmain : 0 < st'
      · rcases throw u st'.toNat with ⟨st'', u⟩
        dsimp only
        rw [if_pos hmain]
        refine Pass.steps_last ?_
        show Trans.run stageStep s [.worker i st, .worker i st', .worker i st''] = _
        rw [run_fetch hp, after_pos hfetched, run_mainThrow (took_point ..) hthrow hmain,
          took_took]
      · dsimp only
        rw [if_neg hmain]
        have hrun : Trans.run stageStep s [.worker i st, .worker i st'] =
            some (s.took i st' (after st' .throw)) := by
          rw [run_fetch hp, after_pos hfetched, run_mainStops (took_point ..) hthrow, took_took]
        exact Pass.steps_stop hmain hrun
    · rw [if_neg hfetched]
      exact Pass.steps_stop hfetched (run_fetch hp)

end Steps

end WorkerLoop
end Gallus
