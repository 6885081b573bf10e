import Gallus.Modules.Ends

/-!
# The life of a process (`mainloop.c`)

`s_default_mainloop` and `s_callout_mainloop` take all modules from their initialization to their
finalization, with the main loop in between; the signal thread and other threads ask for the end.

* `Pc`, `mainStep`: the thread of the main loop, with `s_prologue` and `s_epilogue` in their places.
  A pass over the modules is one step, and so is each look at `s_do_abort` and at the global state.
* `handle`: `s_term_handler`, which acts on the global state that it has read before.
* `Pipe`: what the forked child tells its parent. `System`, `step`: all of them together.
* `At`: what holds at each place. `Inv.step`: every step keeps it.
* `life_cycle`: no module is finalized twice, and a main loop that returns `OK` has ended and
  finalized each of them; `gallus_module_is_finalized_cleanly` tells so, but for a process whose
  modules were never initialized.

Left out: `s_atexit_handler`, which finalizes the modules, or requests a shutdown, when one of the
procedures called here calls `exit`. A run ends there.
-/

namespace Gallus
namespace Mainloop

open Gstate Modules

/-- The options of `s_do_mainloop`, and what the process has set. -/
structure Config where
  /-- `s_callout_mainloop` -/
  callout : Bool
  /-- `do_fork`: the process is the child, with its end of the pipe. -/
  fork : Bool
  /-- `do_thread` -/
  thread : Bool
  /-- `pre_hook != NULL` -/
  preHook : Bool
  /-- `post_hook != NULL` -/
  postHook : Bool
  /-- `s_idle_proc_interval` -/
  interval : Chrono

/-- Where the thread of the main loop is. `acc` is what the loop has returned, and `ret` is `ret`.
-/
inductive Pc
  /-- The first look at `s_do_abort`. -/
  | begin
  /-- `gallus_callout_initialize_handler` -/
  | initHandler
  /-- The look at `s_do_abort` after it. -/
  | look
  | setInitializing | initializeAll | preHook | setStarting | startAll | setStarted | postHook
  /-- `done` in `s_prologue` -/
  | report (ret : Result)
  /-- The last look at `s_do_abort`. -/
  | enter (ret : Result)
  /-- In the loop of `s_default_mainloop`. -/
  | idle
  | accept
  /-- In `gallus_callout_start_main_loop`. -/
  | calloutLoop
  /-- In `s_callout_idle_proc`, with the request. -/
  | calloutAccept
  /-- `gallus_callout_stop_main_loop` -/
  | stopLoop (acc : Result)
  | epilogue (acc : Result)
  | shutdownAll (acc : Result)
  | waitAll (acc : Result)
  | stopAll (acc : Result)
  /-- The wait after `gallus_module_stop_all`. -/
  | waitAgain (acc : Result)
  | finalizeAll (acc ret : Result)
  /-- `gallus_callout_finalize_handler` -/
  | finalizeHandler (ret : Result)
  | returned (ret : Result)
  deriving DecidableEq

/-- What the parent can read. -/
inductive Pipe
  | empty
  /-- `st` -/
  | told (st : Int)
  /-- The child has closed its end without a word. -/
  | closed
  deriving DecidableEq

/-- The process, and its parent if it has been forked. -/
structure System where
  pc : Pc
  /-- `s_gs` and `s_gl` of the global state -/
  pair : Pair
  doAbort : Bool
  /-- `s_gl` of the main loop -/
  gl : Int
  table : Table
  pipe : Pipe
  /-- What `gallus_mainloop` has returned in the parent. -/
  parent : Option Result
  /-- What `s_start_mainloop_thd` has returned. -/
  starter : Option Result
  /-- `s_term_handler` is at work on a signal, and has read this state. -/
  handler : Option (Nat × Int)
  /-- It has dealt with a signal to end. -/
  handled : Bool
  /-- The main loop has been entered. -/
  entered : Bool

/-- What a step of the main loop's thread meets. -/
structure Meets where
  /-- The result of a hook, of a callout function, or of a wait. -/
  ret : Result
  /-- The results for the modules. -/
  outcomes : Nat → Outcome
  /-- The report goes through. -/
  written : Bool

/-! ## The thread of the main loop -/

/-- After `s_prologue` and without a main loop, or after it. -/
def leave (c : Config) (ret : Result) : Pc :=
  if c.callout then .finalizeHandler ret else .returned ret

/-- `s_epilogue` after the pass of result `ret`. -/
def afterShutdown (acc ret : Result) : Pc :=
  if ret = Result.ok then .waitAll acc
  else if ret = Result.timedout then .stopAll acc else .finalizeAll acc ret

def afterWait (acc ret : Result) : Pc :=
  if ret = Result.timedout then .stopAll acc else .finalizeAll acc ret

def afterStop (acc ret : Result) : Pc :=
  if ret = Result.ok then .waitAgain acc else .finalizeAll acc ret

/-- What `done` tells the parent. -/
def told (ret : Result) (m : Meets) : Pipe :=
  if m.written then .told (if ret = Result.ok then 0 else 1) else .closed

/-- One turn of `while ((ret = s_default_idle_proc()) == GALLUS_RESULT_TIMEDOUT)`. -/
def idleTurn (c : Config) (s : System) (m : Meets) : Option System :=
  match waitForCheck s.pair requestShutdownState c.interval with
  | .wait nsec =>
    if condWaitResult nsec m.ret then
      some { s with
        pc := if m.ret = Result.ok ∨ m.ret = Result.timedout then .idle else .epilogue Result.ok }
    else none
  | .done ret cur =>
    some { s with
      gl := (cur.map Pair.gl).getD s.gl
      pc := if ret = Result.ok then .accept else .epilogue Result.ok }

/-- `s_callout_idle_proc`, called by the callout's main loop. -/
def idleProc (s : System) (m : Meets) : Option System :=
  match waitForCheck s.pair requestShutdownState 0 with
  | .wait nsec => if condWaitResult nsec m.ret then some s else none
  | .done ret cur =>
    if ret = Result.ok then
      some { s with gl := (cur.map Pair.gl).getD s.gl, pc := .calloutAccept }
    else some s

/-- `global_state_set` by the main loop's thread, which goes on at `pc`. -/
def setTo (s : System) (gs : Int) (pc : Pc) : System :=
  { s with pair := (setState s.pair gs).1, pc := pc }

/-- One step. -/
def mainStep (c : Config) (s : System) (m : Meets) : Option System :=
  match s.pc with
  | .begin => some { s with
      pc := if s.doAbort then .returned Result.anyFailures
        else if c.callout then .initHandler else .setInitializing }
  | .initHandler =>
    some { s with pc := if m.ret = Result.ok then .look else .returned m.ret }
  | .look =>
    some { s with pc := if s.doAbort then .finalizeHandler Result.ok else .setInitializing }
  | .setInitializing => some (setTo s initializing .initializeAll)
  | .initializeAll =>
    let r := s.table.initializeAll m.outcomes
    some { s with table := r.1, pc := if r.2 = Result.ok then .preHook else .report r.2 }
  | .preHook => some { s with
      pc := if c.preHook = true ∧ m.ret ≠ Result.ok then .report m.ret else .setStarting }
  | .setStarting => some (setTo s starting .startAll)
  | .startAll =>
    let r := s.table.startAll m.outcomes
    some { s with table := r.1, pc := if r.2 = Result.ok then .setStarted else .report r.2 }
  | .setStarted => some (setTo s started .postHook)
  | .postHook => some { s with pc := .report (if c.postHook then m.ret else Result.ok) }
  | .report ret =>
    -- Whatever `s_wait_parent_exit` returns, `ret` is `OK` after it.
    if c.fork then some { s with pipe := told ret m, pc := .enter Result.ok }
    else some { s with pc := .enter ret }
  | .enter ret =>
    if ret = Result.ok ∧ s.doAbort = false then
      some { s with entered := true, pc := if c.callout then .calloutLoop else .idle }
    else some { s with pc := leave c ret }
  | .idle => idleTurn c s m
  | .accept => some (setTo s acceptShutdown (.epilogue Result.ok))
  | .calloutLoop => some { s with pc := .stopLoop m.ret }
  | .calloutAccept => some (setTo s acceptShutdown .calloutLoop)
  | .stopLoop acc => some { s with pc := .epilogue (if acc = Result.ok then m.ret else acc) }
  | .epilogue acc => some (setTo s acceptShutdown (.shutdownAll acc))
  | .shutdownAll acc =>
    let r := s.table.shutdownAll m.outcomes s.gl
    some { s with table := r.1, pc := afterShutdown acc r.2 }
  | .waitAll acc =>
    let r := s.table.waitAll m.outcomes
    some { s with table := r.1, pc := afterWait acc r.2 }
  | .stopAll acc =>
    let r := s.table.stopAll m.outcomes
    some { s with table := r.1, pc := afterStop acc r.2 }
  | .waitAgain acc =>
    let r := s.table.waitAll m.outcomes
    some { s with table := r.1, pc := .finalizeAll acc r.2 }
  | .finalizeAll acc ret => some { s with
      table := s.table.finalizeAll
      pc := leave c (if acc = Result.ok then ret else acc) }
  | .finalizeHandler ret => some { s with pc := .returned ret }
  | .returned _ => none

/-! ## The other threads -/

def sigint : Nat := 2
def sigquit : Nat := 3
def sigterm : Nat := 15

/-- A signal to end. -/
def isToEnd (sig : Nat) : Bool :=
  decide (sig = sigterm) || decide (sig = sigint) || decide (sig = sigquit)

/-- The shutdown level for a signal. -/
def levelOf (sig : Nat) : Int :=
  if sig = sigterm ∨ sig = sigint then shutdownGracefully
  else if sig = sigquit then shutdownRightNow else shutdownUnknown

/-- `s_term_handler` with the state `gs` that `global_state_get` has given it. It returns as soon as
its request has been made; that it waits for the acceptance changes nothing else. -/
def handle (s : System) (sig : Nat) (gs : Int) : System :=
  if gs = started then
    if isValidShutdown (levelOf sig) then
      { s with pair := (requestShutdown s.pair (levelOf sig)).1, handler := none, handled := true }
    else { s with handler := none }
  else if gs < started then
    if isToEnd sig then { s with doAbort := true, handler := none, handled := true }
    else { s with handler := none }
  else { s with handler := none, handled := s.handled || isToEnd sig }

/-- The parent in `read`. -/
def parentRead (s : System) (fails : Bool) : Option Result :=
  if fails then some Result.posixApiError
  else match s.pipe with
    | .empty => none
    | .told st => some (if st = 0 then Result.ok else Result.anyFailures)
    | .closed => some Result.posixApiError

/-- `s_start_mainloop_thd` in `global_state_wait_for`, after a wait of result `ret`. -/
def starterTurn (s : System) (ret : Result) : Option System :=
  match waitForCheck s.pair started (-1) with
  | .wait nsec =>
    if condWaitResult nsec ret then
      some { s with starter := if ret = Result.ok then none else some ret }
    else none
  | .done ret cur =>
    some { s with
      starter := some (if ret = Result.ok then
        if (cur.map Pair.gs).getD stateUnknown = started then Result.ok else Result.invalidState
        else ret) }

inductive Event
  | main (m : Meets)
  | idleProc (m : Meets)
  /-- The handler is called and reads the global state. -/
  | signal (sig : Nat)
  | handle
  /-- `gallus_abort_before_mainloop` by another thread -/
  | abort
  /-- `global_state_request_shutdown` by another thread -/
  | request (l : Int)
  | parent (fails : Bool)
  | starter (ret : Result)
  /-- The process exits after the main loop. -/
  | exit

/-- One step of one of them. -/
def step (c : Config) (s : System) : Event → Option System
  | .main m => mainStep c s m
  | .idleProc m =>
    match s.pc with
    | .calloutLoop => idleProc s m
    | _ => none
  | .signal sig =>
    match s.handler with
    | none => some { s with handler := some (sig, s.pair.gs) }
    | some _ => none
  | .handle =>
    match s.handler with
    | none => none
    | some (sig, gs) => some (handle s sig gs)
  | .abort => some { s with doAbort := true }
  | .request l => some { s with pair := (requestShutdown s.pair l).1 }
  | .parent fails =>
    if c.fork = true ∧ s.parent = none then
      (parentRead s fails).map fun ret => { s with parent := some ret }
    else none
  | .starter ret => if c.thread = true ∧ s.starter = none then starterTurn s ret else none
  | .exit =>
    match s.pc, s.pipe with
    | .returned _, .empty => some { s with pipe := .closed }
    | _, _ => none

/-- The process at the call of `s_do_mainloop`, with these modules. -/
def init (t : Table) : System where
  pc := .begin
  pair := ⟨stateUnknown, shutdownUnknown⟩
  doAbort := false
  gl := shutdownUnknown
  table := t
  pipe := .empty
  parent := none
  starter := none
  handler := none
  handled := false
  entered := false

/-! ## What holds at each place -/

/-- The modules were not merely said to be started: there is no parent, or it has been told. -/
def Meant (c : Config) (s : System) : Prop := c.fork = false ∨ s.pipe = .told 0

def At (c : Config) (s : System) : Pc → Prop
  | .begin | .initHandler | .look | .setInitializing | .initializeAll | .preHook | .setStarting
  | .startAll => s.entered = false ∧ Fresh s.table ∧ s.pipe = .empty
  | .setStarted | .postHook =>
    s.entered = false ∧ Fresh s.table ∧ s.pipe = .empty ∧ s.table.Started
  | .report ret =>
    s.entered = false ∧ Fresh s.table ∧ s.pipe = .empty ∧ (ret = Result.ok → s.table.Started)
  | .enter ret =>
    s.entered = false ∧ Fresh s.table ∧ (Meant c s → ret = Result.ok → s.table.Started)
  | .idle | .accept | .calloutLoop | .calloutAccept | .stopLoop _ | .epilogue _ | .shutdownAll _ =>
    s.entered = true ∧ Fresh s.table ∧ (Meant c s → s.table.Started)
  | .waitAll _ | .stopAll _ | .waitAgain _ => s.entered = true ∧ Fresh s.table
  | .finalizeAll _ ret =>
    s.entered = true ∧ Fresh s.table ∧ (ret = Result.ok → s.table.HasEnded)
  | .finalizeHandler ret | .returned ret =>
    s.entered = false ∧ Fresh s.table ∨
    s.entered = true ∧ Counted s.table ∧ (ret = Result.ok →
      s.table.HasEnded ∧ ∀ m ∈ s.table.modules, m.finalizeCalls = 1)

/-- The invariant. -/
structure Inv (c : Config) (s : System) : Prop where
  here : At c s s.pc
  /-- What tells that the modules have been started. -/
  started : s.pipe = .told 0 ∨ s.pair.gs = Gstate.started ∨ s.starter = some Result.ok →
    s.table.HasStarted
  parent : s.parent = some Result.ok → s.pipe = .told 0

section Steps

variable {c : Config} {s s' : System} {m : Meets} {e : Event}

theorem setState_gs (g : Pair) (gs : Int) :
    (setState g gs).1.gs = g.gs ∨ (setState g gs).1.gs = gs := by
  unfold setState
  split_ifs
  · exact .inr rfl
  · exact .inl rfl
  · exact .inl rfl

/-- A request does not set the state to `STARTED`. -/
theorem requestShutdown_gs (g : Pair) (l : Int) (h : (requestShutdown g l).1.gs = Gstate.started) :
    g.gs = Gstate.started := by
  unfold requestShutdown at h
  split_ifs at h
  · cases h
  · exact h
  · exact h
  · exact h

theorem Inv.setTo (h : Inv c s) {gs : Int} (hgs : gs ≠ Gstate.started) {pc : Pc}
    (hat : At c s pc) : Inv c (setTo s gs pc) where
  here := hat
  started := by
    rintro (hp | hg | hs)
    · exact h.started (.inl hp)
    · rcases setState_gs s.pair gs with heq | heq
      · exact h.started (.inr (.inl (heq.symm.trans hg)))
      · exact absurd (heq.symm.trans hg) hgs
    · exact h.started (.inr (.inr hs))
  parent := h.parent

/-- A pass, which keeps what has been started. -/
theorem Inv.pass (h : Inv c s) {t : Table} {pc : Pc} (ht : s.table.HasStarted → t.HasStarted)
    (hat : At c { s with table := t, pc := pc } pc) :
    Inv c { s with table := t, pc := pc } where
  here := hat
  started hsaid := ht (h.started hsaid)
  parent := h.parent

/-- A move of the main loop's thread alone. -/
theorem Inv.move (h : Inv c s) {pc : Pc} (hat : At c s pc) : Inv c { s with pc := pc } where
  here := hat
  started := h.started
  parent := h.parent

theorem At.leave {ret : Result} (h : At c s (.returned ret)) : At c s (leave c ret) := by
  unfold Mainloop.leave
  split
  · exact h
  · exact h

theorem Inv.idleTurn (h : Inv c s) (hpc : s.pc = .idle) (hs : idleTurn c s m = some s') :
    Inv c s' := by
  have hat : At c s .idle := hpc ▸ h.here
  unfold Mainloop.idleTurn at hs
  split at hs
  · split_ifs at hs
    · cases hs
      exact h.move hat
    · cases hs
      exact h.move hat
  · cases hs
    refine ⟨?_, h.started, h.parent⟩
    dsimp only
    split
    · exact hat
    · exact hat

theorem Inv.idleProc (h : Inv c s) (hpc : s.pc = .calloutLoop) (hs : idleProc s m = some s') :
    Inv c s' := by
  have hat : At c s .calloutLoop := hpc ▸ h.here
  unfold Mainloop.idleProc at hs
  split at hs
  · split_ifs at hs
    cases hs
    exact h
  · split_ifs at hs
    · cases hs
      exact ⟨hat, h.started, h.parent⟩
    · cases hs
      exact h

/-- **The step lemma for the thread of the main loop**, one case for each place. -/
theorem Inv.main (h : Inv c s) (hs : mainStep c s m = some s') : Inv c s' := by
  have hat := h.here
  unfold mainStep at hs
  cases hpc : s.pc with
  | begin =>
    simp only [hpc] at hs hat
    cases hs
    refine h.move ?_
    split
    · exact .inl ⟨hat.1, hat.2.1⟩
    · split
      · exact hat
      · exact hat
  | initHandler =>
    simp only [hpc] at hs hat
    cases hs
    refine h.move ?_
    split
    · exact hat
    · exact .inl ⟨hat.1, hat.2.1⟩
  | look =>
    simp only [hpc] at hs hat
    cases hs
    refine h.move ?_
    split
    · exact .inl ⟨hat.1, hat.2.1⟩
    · exact hat
  | setInitializing =>
    simp only [hpc] at hs hat
    cases hs
    exact h.setTo (by decide) hat
  | initializeAll =>
    simp only [hpc] at hs hat
    cases hs
    obtain ⟨hout, hfresh, hpipe⟩ := hat
    refine h.pass Table.HasStarted.initializeAll ?_
    split
    · exact ⟨hout, hfresh.initializeAll, hpipe⟩
    · next hne => exact ⟨hout, hfresh.initializeAll, hpipe, fun heq => absurd heq hne⟩
  | preHook =>
    simp only [hpc] at hs hat
    cases hs
    refine h.move ?_
    split
    · next hne => exact ⟨hat.1, hat.2.1, hat.2.2, fun heq => absurd heq hne.2⟩
    · exact hat
  | setStarting =>
    simp only [hpc] at hs hat
    cases hs
    exact h.setTo (by decide) hat
  | startAll =>
    simp only [hpc] at hs hat
    cases hs
    obtain ⟨hout, hfresh, hpipe⟩ := hat
    have hfresh' : Fresh (s.table.startAll m.outcomes).1 := hfresh.walkWhile startModule_calls
    refine h.pass (passWhile_keeps startModule_hasStarted 0) ?_
    split
    · next hok => exact ⟨hout, hfresh', hpipe, startAll_ok hok⟩
    · next hne => exact ⟨hout, hfresh', hpipe, fun heq => absurd heq hne⟩
  | setStarted =>
    simp only [hpc] at hs hat
    cases hs
    exact ⟨hat, fun _ => hat.2.2.2.hasStarted, h.parent⟩
  | postHook =>
    simp only [hpc] at hs hat
    cases hs
    exact h.move ⟨hat.1, hat.2.1, hat.2.2.1, fun _ => hat.2.2.2⟩
  | report ret =>
    simp only [hpc] at hs hat
    obtain ⟨hout, hfresh, hpipe, hstarted⟩ := hat
    split at hs
    · next hfork =>
      cases hs
      have htold : told ret m = .told 0 → s.table.Started := by
        intro heq
        unfold told at heq
        split_ifs at heq with _ hret
        · exact hstarted hret
        · cases heq
      refine ⟨⟨hout, hfresh, ?_⟩, ?_, ?_⟩
      · rintro (hno | heq) -
        · rw [hfork] at hno
          cases hno
        · exact htold heq
      · rintro (heq | hg | hs)
        · exact (htold heq).hasStarted
        · exact h.started (.inr (.inl hg))
        · exact h.started (.inr (.inr hs))
      · intro hp
        have hp := h.parent hp
        rw [hpipe] at hp
        cases hp
    · cases hs
      exact h.move ⟨hout, hfresh, fun _ => hstarted⟩
  | enter ret =>
    simp only [hpc] at hs hat
    split at hs
    · next hgo =>
      cases hs
      refine ⟨?_, h.started, h.parent⟩
      dsimp only
      split
      · exact ⟨rfl, hat.2.1, fun hm => hat.2.2 hm hgo.1⟩
      · exact ⟨rfl, hat.2.1, fun hm => hat.2.2 hm hgo.1⟩
    · cases hs
      exact h.move (At.leave (.inl ⟨hat.1, hat.2.1⟩))
  | idle =>
    simp only [hpc] at hs
    exact h.idleTurn hpc hs
  | accept | calloutAccept | epilogue acc =>
    simp only [hpc] at hs hat
    cases hs
    exact h.setTo (by decide) hat
  | calloutLoop | stopLoop acc =>
    simp only [hpc] at hs hat
    cases hs
    exact h.move hat
  | shutdownAll acc =>
    simp only [hpc] at hs hat
    cases hs
    have hfresh := hat.2.1.shutdownAll (o := m.outcomes) s.gl
    refine h.pass (fun hst => hst.shutdownAll s.gl) ?_
    unfold afterShutdown
    split_ifs with hok
    · exact ⟨hat.1, hfresh⟩
    · exact ⟨hat.1, hfresh⟩
    · exact ⟨hat.1, hfresh, fun heq => absurd heq hok⟩
  | waitAll acc =>
    simp only [hpc] at hs hat
    cases hs
    refine h.pass (passAll_keeps waitModule_hasStarted 0) ?_
    unfold afterWait
    split
    · exact ⟨hat.1, hat.2.walkAll waitModule_calls⟩
    · exact ⟨hat.1, hat.2.walkAll waitModule_calls, waitAll_ok⟩
  | stopAll acc =>
    simp only [hpc] at hs hat
    cases hs
    refine h.pass (passAll_keeps stopModule_hasStarted 0) ?_
    unfold afterStop
    split
    · exact ⟨hat.1, hat.2.walkAll stopModule_calls⟩
    · next hne =>
      exact ⟨hat.1, hat.2.walkAll stopModule_calls, fun heq => absurd heq hne⟩
  | waitAgain acc =>
    simp only [hpc] at hs hat
    cases hs
    exact h.pass (passAll_keeps waitModule_hasStarted 0)
      ⟨hat.1, hat.2.walkAll waitModule_calls, waitAll_ok⟩
  | finalizeAll acc ret =>
    simp only [hpc] at hs hat
    cases hs
    obtain ⟨hin, hfresh, hend⟩ := hat
    obtain ⟨hcounted, hall⟩ := hfresh.finalizeAll
    refine h.pass Table.HasStarted.finalizeAll (At.leave (.inr ⟨hin, hcounted, fun hret => ?_⟩))
    split_ifs at hret
    · exact hall (hend hret)
    · contradiction
  | finalizeHandler ret =>
    simp only [hpc] at hs hat
    cases hs
    exact h.move hat
  | returned ret =>
    simp only [hpc] at hs
    cases hs

/-- The signal thread changes the pair and the flags only. -/
theorem Inv.handle (h : Inv c s) (sig : Nat) (gs : Int) : Inv c (handle s sig gs) := by
  unfold Mainloop.handle
  split_ifs
  · refine ⟨h.here, ?_, h.parent⟩
    rintro (hp | hg | hs)
    · exact h.started (.inl hp)
    · exact h.started (.inr (.inl (requestShutdown_gs _ _ hg)))
    · exact h.started (.inr (.inr hs))
  · exact ⟨h.here, h.started, h.parent⟩
  · exact ⟨h.here, h.started, h.parent⟩
  · exact ⟨h.here, h.started, h.parent⟩
  · exact ⟨h.here, h.started, h.parent⟩

/-- A parent that is told that all is well. -/
theorem parentRead_ok {fails : Bool} (h : parentRead s fails = some Result.ok) :
    s.pipe = .told 0 := by
  unfold parentRead at h
  split at h
  · cases h
  · split at h
    · cases h
    · next st hp =>
      split at h
      · next hst => rw [hp, hst]
      · cases h
    · cases h

theorem waitForCheck_cur {g : Pair} {gs : Int} {nsec : Chrono} {ret : Result} {cur : Option Pair}
    (h : waitForCheck g gs nsec = .done ret cur) : cur = some g := by
  unfold waitForCheck at h
  split_ifs at h
  · cases h
    rfl
  · cases h
    rfl
  · cases h
    rfl

theorem Inv.starterTurn (h : Inv c s) {ret : Result} (hs : starterTurn s ret = some s') :
    Inv c s' := by
  unfold Mainloop.starterTurn at hs
  split at hs
  · split_ifs at hs with _ hok
    · cases hs
      refine ⟨h.here, ?_, h.parent⟩
      rintro (hp | hg | hst)
      · exact h.started (.inl hp)
      · exact h.started (.inr (.inl hg))
      · cases hst
    · cases hs
      refine ⟨h.here, ?_, h.parent⟩
      rintro (hp | hg | hst)
      · exact h.started (.inl hp)
      · exact h.started (.inr (.inl hg))
      · exact absurd (Option.some.inj hst) hok
  · next ret' cur hcheck =>
    obtain rfl := waitForCheck_cur hcheck
    cases hs
    refine ⟨h.here, ?_, h.parent⟩
    rintro (hp | hg | hst)
    · exact h.started (.inl hp)
    · exact h.started (.inr (.inl hg))
    · have hst := Option.some.inj hst
      split_ifs at hst with hret hgs
      · exact h.started (.inr (.inl hgs))
      · cases hst
      · exact absurd hst hret

/-- **The step lemma.** -/
theorem Inv.step (h : Inv c s) (hs : step c s e = some s') : Inv c s' := by
  cases e with
  | main m => exact h.main hs
  | idleProc m =>
    simp only [Mainloop.step] at hs
    split at hs
    · next hpc => exact h.idleProc hpc hs
    · cases hs
  | signal sig =>
    simp only [Mainloop.step] at hs
    split at hs
    · cases hs
      exact ⟨h.here, h.started, h.parent⟩
    · cases hs
  | handle =>
    simp only [Mainloop.step] at hs
    split at hs
    · cases hs
    · cases hs
      exact h.handle _ _
  | abort =>
    cases hs
    exact ⟨h.here, h.started, h.parent⟩
  | request l =>
    cases hs
    refine ⟨h.here, ?_, h.parent⟩
    rintro (hp | hg | hst)
    · exact h.started (.inl hp)
    · exact h.started (.inr (.inl (requestShutdown_gs _ _ hg)))
    · exact h.started (.inr (.inr hst))
  | parent fails =>
    simp only [Mainloop.step] at hs
    split_ifs at hs
    obtain ⟨ret, hread, rfl⟩ := Option.map_eq_some_iff.mp hs
    refine ⟨h.here, h.started, fun heq => ?_⟩
    obtain rfl := Option.some.inj heq
    exact parentRead_ok hread
  | starter ret =>
    simp only [Mainloop.step] at hs
    split_ifs at hs
    exact h.starterTurn hs
  | exit =>
    simp only [Mainloop.step] at hs
    split at hs
    · next ret hpc hpipe =>
      cases hs
      have hat := h.here
      rw [hpc] at hat
      refine ⟨?_, ?_, ?_⟩
      · show At c { s with pipe := .closed } s.pc
        rw [hpc]
        exact hat
      · rintro (hp | hg | hst)
        · cases hp
        · exact h.started (.inr (.inl hg))
        · exact h.started (.inr (.inr hst))
      · intro hp
        have hp := h.parent hp
        rw [hpipe] at hp
        cases hp
    · cases hs

theorem init_inv {t : Table} (h : Fresh t) : Inv c (init t) where
  here := ⟨rfl, h, rfl⟩
  started := by
    rintro (hp | hg | hst)
    · cases hp
    · cases hg
    · cases hst
  parent := nofun

end Steps

/-! ## What a run shows -/

section Results

variable {c : Config} {rs : List Registration} {t : Table} {es : List Event} {s : System}

theorem run_inv (hreg : Trans.run Table.registerStep .empty rs = some t)
    (hrun : Trans.run (step c) (init t) es = some s) : Inv c s :=
  (Trans.Run.all_iff.mpr hrun).inv (fun _ _ _ h _ hs => h.step hs) (init_inv (.registered hreg))

/-- The finalizations at each place. -/
theorem Inv.counted (h : Inv c s) : Counted s.table ∧ (s.entered = false → Fresh s.table) ∧
    (s.pc = .returned Result.ok → s.entered = true →
      s.table.HasEnded ∧ ∀ m ∈ s.table.modules, m.finalizeCalls = 1) := by
  have hat := h.here
  cases hpc : s.pc with
  | begin | initHandler | look | setInitializing | initializeAll | preHook | setStarting | startAll
  | setStarted | postHook | report _ | enter _ | idle | accept | calloutLoop | calloutAccept
  | stopLoop _ | epilogue _ | shutdownAll _ | finalizeAll _ _ =>
    rw [hpc] at hat
    exact ⟨hat.2.1.counted, fun _ => hat.2.1, nofun⟩
  | waitAll _ | stopAll _ | waitAgain _ =>
    rw [hpc] at hat
    exact ⟨hat.2.counted, fun _ => hat.2, nofun⟩
  | finalizeHandler ret =>
    rw [hpc] at hat
    rcases hat with ⟨-, hfresh⟩ | ⟨hin, hcounted, -⟩
    · exact ⟨hfresh.counted, fun _ => hfresh, nofun⟩
    · exact ⟨hcounted, fun hout => absurd (hin.symm.trans hout) (by decide), nofun⟩
  | returned ret =>
    rw [hpc] at hat
    rcases hat with ⟨hout, hfresh⟩ | ⟨hin, hcounted, hend⟩
    · refine ⟨hfresh.counted, fun _ => hfresh, fun _ hin => ?_⟩
      rw [hout] at hin
      cases hin
    · refine ⟨hcounted, fun hout => ?_, ?_⟩
      · rw [hout] at hin
        cases hin
      · rintro ⟨⟩ -
        exact hend rfl

/-- **From the first module's initialization to the last one's finalization.** With any modules, in
every run of the process with its signals, requests and aborts, and with any results of what is
called, as long as no procedure calls `exit`: no module is finalized twice, or while it runs, or
without the main loop; a main loop that returns `OK` has ended and finalized each of them; and
`gallus_module_is_finalized_cleanly` tells whether each has been finalized, unless the modules were
not initialized. -/
theorem life_cycle (hreg : Trans.run Table.registerStep .empty rs = some t)
    (hrun : Trans.run (step c) (init t) es = some s) :
    (∀ m ∈ s.table.modules, m.finalizeCalls ≤ 1 ∧ (m.finalizeCalls = 1 → m.isReady = true) ∧
      (s.entered = false → m.finalizeCalls = 0)) ∧
    (s.pc = .returned Result.ok → s.entered = true →
      ∀ m ∈ s.table.modules, m.hasEnded ∧ m.finalizeCalls = 1) ∧
    (s.table.isFinalizedCleanly = true ↔
      s.table.isModsInited = false ∨ ∀ m ∈ s.table.modules, m.finalizeCalls = 1) := by
  obtain ⟨hcounted, hout, hend⟩ := (run_inv hreg hrun).counted
  refine ⟨fun m hm => ⟨hcounted.once m hm, hcounted.ready m hm, fun h => (hout h).calls m hm⟩, ?_,
    hcounted.cleanly⟩
  intro hpc hin m hm
  obtain ⟨hended, hone⟩ := hend hpc hin
  exact ⟨hended m hm, hone m hm⟩

/-- All goes well. -/
def fine : Meets := ⟨Result.ok, succeed, true⟩

def plain : Config := ⟨false, false, false, true, true, 1000000000⟩

/-- From the start to the end, by a signal. -/
def wholeLife : List Event :=
  List.replicate 12 (.main fine) ++ [.signal sigterm, .handle] ++ List.replicate 6 (.main fine)

theorem life_cycle_wholeLife :
    ∃ s, Trans.run (step plain) (init twoRegistered) wholeLife = some s ∧
      ∀ m ∈ s.table.modules, m.hasEnded ∧ m.finalizeCalls = 1 := by
  obtain ⟨s, hrun, heq⟩ := Option.map_eq_some_iff.mp
    (show (Trans.run (step plain) (init twoRegistered) wholeLife).map
      (fun s => (s.entered, s.pc)) = some (true, .returned Result.ok) by decide)
  obtain ⟨hin, hpc⟩ := Prod.mk.inj heq
  exact ⟨s, hrun, (life_cycle twoRegistered_eq hrun).2.1 hpc hin⟩

/-- **What is said to be started has been started**, whatever else goes on: when `gallus_mainloop`
returns `OK` in the parent, or to the thread that has started the main loop's thread, every module
has been started; and so it is in the main loop itself, unless the child has told its parent
otherwise. -/
theorem started_as_told (hreg : Trans.run Table.registerStep .empty rs = some t)
    (hrun : Trans.run (step c) (init t) es = some s) :
    (s.parent = some Result.ok ∨ s.starter = some Result.ok → s.table.HasStarted) ∧
    (s.pc = .idle ∨ s.pc = .calloutLoop → c.fork = false ∨ s.pipe = .told 0 → s.table.Started) := by
  have h := run_inv hreg hrun
  refine ⟨?_, ?_⟩
  · rintro (hparent | hstarter)
    · exact h.started (.inl (h.parent hparent))
    · exact h.started (.inr (.inr hstarter))
  · have hat := h.here
    rintro (hpc | hpc) hm
    · rw [hpc] at hat
      exact hat.2.2 hm
    · rw [hpc] at hat
      exact hat.2.2 hm

/-- A child tells its parent, while the thread of its main loop does its work. -/
def toldParent : List Event :=
  List.replicate 9 (.main fine) ++ [.starter Result.ok, .parent false, .main fine]

theorem started_as_told_toldParent :
    ∃ s, Trans.run (step { plain with fork := true, thread := true }) (init twoRegistered)
      toldParent = some s ∧ s.parent = some Result.ok ∧ s.table.Started := by
  obtain ⟨s, hrun, heq⟩ := Option.map_eq_some_iff.mp
    (show (Trans.run (step { plain with fork := true, thread := true }) (init twoRegistered)
      toldParent).map (fun s => (s.parent, s.pc, s.pipe)) =
        some (some Result.ok, .idle, .told 0) by decide)
  obtain ⟨hparent, hrest⟩ := Prod.mk.inj heq
  obtain ⟨hpc, hpipe⟩ := Prod.mk.inj hrest
  exact ⟨s, hrun, hparent, (started_as_told twoRegistered_eq hrun).2 (.inl hpc) (.inr hpipe)⟩

end Results

end Mainloop
end Gallus
