import Gallus.Mainloop.LifeCycle

/-!
# The signals to end (`mainloop.c`)

`s_term_handler` reads the global state and then acts on it: before `STARTED` it stores
`s_do_abort`, which the main loop's thread looks at before it enters its loop, and from then on it
requests the shutdown.

* `Seen`: the invariant. A signal that has been dealt with shows in the flag, as long as the flag
  will be looked at, or in the global state.
* `OnTime`: the handler does not store the flag after the last look at it, or a shutdown has been
  requested anyway.
* `signal_honoured_iff`: no signal is lost exactly if no store is late; and a main loop takes the
  request at its next turn.
* `starter_waits`: a process that has failed to start leaves the thread that has started the main
  loop's thread in its wait.
-/

namespace Gallus
namespace Mainloop

open Gstate Modules

variable {c : Config} {s s' : System} {m : Meets} {e : Event} {t : Table} {es : List Event}

/-! ## The global state -/

theorem setState_le (g : Pair) (gs : Int) : g.gs ≤ (setState g gs).1.gs := by
  rcases start_cases g (.set gs) with heq | ⟨hle, -⟩ | ⟨l, hset, -⟩
  · exact Int.le_of_eq (congrArg Pair.gs heq).symm
  · exact hle
  · cases hset

theorem requestShutdown_le (g : Pair) (l : Int) : g.gs ≤ (requestShutdown g l).1.gs := by
  rcases start_cases g (.requestShutdown l) with heq | ⟨hle, -⟩ | ⟨l', -, -, hlt, heq⟩
  · exact Int.le_of_eq (congrArg Pair.gs heq).symm
  · exact hle
  · have heq : (requestShutdown g l).1 = ⟨requestShutdownState, l'⟩ := heq
    rw [heq]
    exact Int.le_of_lt hlt

/-- From `STARTED` on, a valid request is made, or one has been made. -/
theorem requestShutdown_asks {g : Pair} {l : Int} (hl : isValidShutdown l = true) :
    requestShutdownState ≤ (requestShutdown g l).1.gs := by
  unfold requestShutdown
  rw [if_pos hl]
  split_ifs with hcond hvalid
  · exact Int.le_refl _
  · have hlt : ¬g.gs ≤ requestShutdownState := fun hle => hvalid (decide_eq_true hle)
    exact Int.le_of_lt (Int.not_le.mp hlt)
  · have hshut : isGlobalStateShutdown g.gs = true ∨ g.gs = requestShutdownState := by
      by_contra hno
      obtain ⟨hno, hne⟩ := not_or.mp hno
      exact hcond ⟨Bool.eq_false_iff.mpr hno, hne⟩
    rcases hshut with hshut | heq
    · have hle : acceptShutdown ≤ g.gs := of_decide_eq_true hshut
      exact Int.le_trans (by decide) hle
    · exact Int.le_of_eq heq.symm

/-- What the thread of the main loop leaves alone. -/
theorem mainStep_frame (hs : mainStep c s m = some s') :
    s'.handler = s.handler ∧ s'.handled = s.handled ∧ s'.doAbort = s.doAbort ∧
      s'.starter = s.starter ∧ s.pair.gs ≤ s'.pair.gs ∧
      (s'.entered = s.entered ∨ s.doAbort = false) := by
  unfold mainStep at hs
  cases hpc : s.pc with
  | begin | initHandler | look | initializeAll | preHook | startAll | postHook | calloutLoop
  | stopLoop _ | shutdownAll _ | waitAll _ | stopAll _ | waitAgain _ | finalizeAll _ _
  | finalizeHandler _ =>
    simp only [hpc] at hs
    cases hs
    exact ⟨rfl, rfl, rfl, rfl, Int.le_refl _, .inl rfl⟩
  | setInitializing | setStarting | setStarted | accept | calloutAccept | epilogue _ =>
    simp only [hpc] at hs
    cases hs
    exact ⟨rfl, rfl, rfl, rfl, setState_le _ _, .inl rfl⟩
  | report ret =>
    simp only [hpc] at hs
    split at hs
    · cases hs
      exact ⟨rfl, rfl, rfl, rfl, Int.le_refl _, .inl rfl⟩
    · cases hs
      exact ⟨rfl, rfl, rfl, rfl, Int.le_refl _, .inl rfl⟩
  | enter ret =>
    simp only [hpc] at hs
    split at hs
    · next hgo =>
      cases hs
      exact ⟨rfl, rfl, rfl, rfl, Int.le_refl _, .inr hgo.2⟩
    · cases hs
      exact ⟨rfl, rfl, rfl, rfl, Int.le_refl _, .inl rfl⟩
  | idle =>
    simp only [hpc, idleTurn] at hs
    split at hs
    · split_ifs at hs
      · cases hs
        exact ⟨rfl, rfl, rfl, rfl, Int.le_refl _, .inl rfl⟩
      · cases hs
        exact ⟨rfl, rfl, rfl, rfl, Int.le_refl _, .inl rfl⟩
    · cases hs
      exact ⟨rfl, rfl, rfl, rfl, Int.le_refl _, .inl rfl⟩
  | returned ret =>
    simp only [hpc] at hs
    cases hs

theorem idleProc_frame (hs : idleProc s m = some s') :
    s'.handler = s.handler ∧ s'.handled = s.handled ∧ s'.doAbort = s.doAbort ∧
      s'.starter = s.starter ∧ s'.pair = s.pair ∧ s'.entered = s.entered := by
  unfold idleProc at hs
  split at hs
  · split_ifs at hs
    cases hs
    exact ⟨rfl, rfl, rfl, rfl, rfl, rfl⟩
  · split_ifs at hs
    · cases hs
      exact ⟨rfl, rfl, rfl, rfl, rfl, rfl⟩
    · cases hs
      exact ⟨rfl, rfl, rfl, rfl, rfl, rfl⟩

theorem starterTurn_frame {ret : Result} (hs : starterTurn s ret = some s') :
    s'.handler = s.handler ∧ s'.handled = s.handled ∧ s'.doAbort = s.doAbort ∧ s'.pc = s.pc ∧
      s'.pair = s.pair ∧ s'.entered = s.entered := by
  unfold starterTurn at hs
  split at hs
  · split_ifs at hs
    · cases hs
      exact ⟨rfl, rfl, rfl, rfl, rfl, rfl⟩
    · cases hs
      exact ⟨rfl, rfl, rfl, rfl, rfl, rfl⟩
  · cases hs
    exact ⟨rfl, rfl, rfl, rfl, rfl, rfl⟩

/-- A step that leaves the handler alone. -/
structure Aside (s s' : System) : Prop where
  handler : s'.handler = s.handler
  handled : s'.handled = s.handled
  gs : s.pair.gs ≤ s'.pair.gs
  abort : s.doAbort = true → s'.doAbort = true ∧ s'.entered = s.entered

/-- **What a step does to the handler.** -/
theorem step_cases (hs : step c s e = some s') :
    (∃ sig gs, e = .handle ∧ s.handler = some (sig, gs) ∧ s' = handle s sig gs) ∨
    (∃ sig, s.handler = none ∧ s' = { s with handler := some (sig, s.pair.gs) }) ∨
    Aside s s' := by
  cases e with
  | main m =>
    obtain ⟨hhandler, hhandled, hab, -, hgs, hent⟩ := mainStep_frame hs
    refine .inr (.inr ⟨hhandler, hhandled, hgs, fun habort => ⟨hab.trans habort, ?_⟩⟩)
    rcases hent with hent | hno
    · exact hent
    · rw [habort] at hno
      cases hno
  | idleProc m =>
    simp only [step] at hs
    split at hs
    · obtain ⟨hhandler, hhandled, hab, -, hpair, hent⟩ := idleProc_frame hs
      exact .inr (.inr ⟨hhandler, hhandled, Int.le_of_eq (congrArg Pair.gs hpair).symm,
        fun habort => ⟨hab.trans habort, hent⟩⟩)
    · cases hs
  | signal sig =>
    simp only [step] at hs
    split at hs
    · next hnone =>
      cases hs
      exact .inr (.inl ⟨sig, hnone, rfl⟩)
    · cases hs
  | handle =>
    simp only [step] at hs
    split at hs
    · cases hs
    · next sig gs hhandler =>
      cases hs
      exact .inl ⟨sig, gs, rfl, hhandler, rfl⟩
  | abort =>
    cases hs
    exact .inr (.inr ⟨rfl, rfl, Int.le_refl _, fun _ => ⟨rfl, rfl⟩⟩)
  | request l =>
    cases hs
    exact .inr (.inr ⟨rfl, rfl, requestShutdown_le _ _, fun habort => ⟨habort, rfl⟩⟩)
  | parent fails =>
    simp only [step] at hs
    split_ifs at hs
    obtain ⟨ret, -, rfl⟩ := Option.map_eq_some_iff.mp hs
    exact .inr (.inr ⟨rfl, rfl, Int.le_refl _, fun habort => ⟨habort, rfl⟩⟩)
  | starter ret =>
    simp only [step] at hs
    split_ifs at hs
    obtain ⟨hhandler, hhandled, hab, -, hpair, hent⟩ := starterTurn_frame hs
    exact .inr (.inr ⟨hhandler, hhandled, Int.le_of_eq (congrArg Pair.gs hpair).symm,
      fun habort => ⟨hab.trans habort, hent⟩⟩)
  | exit =>
    simp only [step] at hs
    split at hs
    · cases hs
      exact .inr (.inr ⟨rfl, rfl, Int.le_refl _, fun habort => ⟨habort, rfl⟩⟩)
    · cases hs

theorem handle_handler (s : System) (sig : Nat) (gs : Int) : (handle s sig gs).handler = none := by
  unfold handle
  split_ifs
  · rfl
  · rfl
  · rfl
  · rfl
  · rfl

/-- What the handler has read is past. -/
theorem handler_le (hrun : Trans.run (step c) (init t) es = some s) {sig : Nat} {gs : Int}
    (hhandler : s.handler = some (sig, gs)) : gs ≤ s.pair.gs := by
  refine (Trans.Run.all_iff.mpr hrun).inv
    (I := fun u => ∀ sig gs, u.handler = some (sig, gs) → gs ≤ u.pair.gs) ?_ nofun sig gs hhandler
  intro u e u' h _ hs sig gs heq
  rcases step_cases hs with ⟨sig', gs', -, -, rfl⟩ | ⟨sig', -, rfl⟩ | haside
  · rw [handle_handler] at heq
    cases heq
  · cases heq
    exact Int.le_refl _
  · rw [haside.handler] at heq
    exact Int.le_trans (h sig gs heq) haside.gs

/-! ## No signal is lost -/

/-- The invariant of the steps on time. -/
structure Seen (s : System) : Prop where
  /-- What the handler has read is past. -/
  handler : ∀ sig gs, s.handler = some (sig, gs) → gs ≤ s.pair.gs
  handled : s.handled = true →
    s.doAbort = true ∧ s.entered = false ∨ requestShutdownState ≤ s.pair.gs

/-- The condition on the steps: if the handler is to store the flag, the main loop has not been
entered, or its end has been requested anyway. -/
def OnTime (s : System) : Event → Prop
  | .handle => ∀ sig gs, s.handler = some (sig, gs) → isToEnd sig = true → gs < started →
      s.entered = true → requestShutdownState ≤ s.pair.gs
  | _ => True

/-- A signal to end ends the main loop. -/
def Honoured (s : System) : Prop :=
  s.handled = true → s.entered = true → requestShutdownState ≤ s.pair.gs

theorem Seen.honoured (h : Seen s) : Honoured s := by
  intro hh hin
  rcases h.handled hh with ⟨-, hout⟩ | hle
  · rw [hin] at hout
    cases hout
  · exact hle

theorem Seen.handle (h : Seen s) {sig : Nat} {gs : Int} (hhandler : s.handler = some (sig, gs))
    (hok : OnTime s .handle) : Seen (handle s sig gs) := by
  unfold Mainloop.handle
  split_ifs with heq hl hlt hend
  · exact ⟨nofun, fun _ => .inr (requestShutdown_asks hl)⟩
  · exact ⟨nofun, h.handled⟩
  · refine ⟨nofun, fun _ => ?_⟩
    by_cases hin : s.entered = true
    · exact .inr (hok sig gs hhandler hend hlt hin)
    · exact .inl ⟨rfl, Bool.eq_false_iff.mpr hin⟩
  · exact ⟨nofun, h.handled⟩
  · refine ⟨nofun, fun _ => .inr ?_⟩
    have hle := h.handler sig gs hhandler
    have hgt : started < gs := by omega
    exact Int.le_trans hgt hle

/-- **The step lemma.** -/
theorem Seen.step (h : Seen s) (hok : OnTime s e) (hs : step c s e = some s') : Seen s' := by
  rcases step_cases hs with ⟨sig, gs, rfl, hhandler, rfl⟩ | ⟨sig, -, rfl⟩ | haside
  · exact h.handle hhandler hok
  · refine ⟨?_, h.handled⟩
    rintro _ _ ⟨⟩
    exact Int.le_refl _
  · refine ⟨fun sig gs heq => ?_, fun hh => ?_⟩
    · rw [haside.handler] at heq
      exact Int.le_trans (h.handler sig gs heq) haside.gs
    · rw [haside.handled] at hh
      rcases h.handled hh with ⟨hab, hout⟩ | hle
      · obtain ⟨hab', hent⟩ := haside.abort hab
        exact .inl ⟨hab', hent.trans hout⟩
      · exact .inr (Int.le_trans hle haside.gs)

/-- A late store is lost at once. -/
theorem onTime_of_honoured (hs : step c s e = some s') (hP : Honoured s') : OnTime s e := by
  cases e with
  | handle =>
    intro sig gs hhandler hend hlt hin
    simp only [step, hhandler] at hs
    cases hs
    have hne : gs ≠ started := Int.ne_of_lt hlt
    unfold handle at hP
    rw [if_neg hne, if_pos hlt, if_pos hend] at hP
    exact hP rfl hin
  | main _ | idleProc _ | signal _ | abort | request _ | parent _ | starter _ | exit => trivial

/-- With the request, both main loops go on to their end. -/
theorem takes_request (hgs : requestShutdownState ≤ s.pair.gs) (m : Meets) :
    (s.pc = .idle → ∃ s', step c s (.main m) = some s' ∧ s'.pc = .accept ∧ s'.gl = s.pair.gl) ∧
    (s.pc = .calloutLoop →
      ∃ s', step c s (.idleProc m) = some s' ∧ s'.pc = .calloutAccept ∧ s'.gl = s.pair.gl) := by
  have hcheck : ∀ nsec, waitForCheck s.pair requestShutdownState nsec =
      .done Result.ok (some s.pair) := by
    intro nsec
    unfold waitForCheck
    rw [if_neg fun hno => absurd hno.1 (Int.not_lt.mpr hgs), if_pos hgs]
  refine ⟨fun hpc => ?_, fun hpc => ?_⟩
  · refine ⟨{ s with gl := s.pair.gl, pc := .accept }, ?_, rfl, rfl⟩
    simp only [step, mainStep, hpc, idleTurn, hcheck]
    rfl
  · refine ⟨{ s with gl := s.pair.gl, pc := .calloutAccept }, ?_, rfl, rfl⟩
    simp only [step, hpc, idleProc, hcheck]
    rfl

/-- **No signal to end is lost, exactly if no store is late.** In every run, each main loop that
goes on after the handler has dealt with `SIGTERM`, `SIGINT` or `SIGQUIT` has been requested to shut
down, and takes the request at its next turn; or the handler has read a state before `STARTED` and
stores its flag only after the last look at it, while no shutdown is requested. -/
theorem signal_honoured_iff (hrun : Trans.run (step c) (init t) es = some s) :
    ((∀ es₁ s₁, es₁ <+: es → Trans.run (step c) (init t) es₁ = some s₁ → s₁.handled = true →
        s₁.entered = true → requestShutdownState ≤ s₁.pair.gs ∧ ∀ m,
          (s₁.pc = .idle → ∃ s', step c s₁ (.main m) = some s' ∧ s'.pc = .accept) ∧
          (s₁.pc = .calloutLoop → ∃ s', step c s₁ (.idleProc m) = some s' ∧
            s'.pc = .calloutAccept)) ↔
      Trans.Run (step c) OnTime (init t) es s) := by
  have hiff := Trans.Run.iff_states (P := Honoured) (I := Seen)
    (fun _ _ _ h hok hs => h.step hok hs) (fun _ _ _ _ hs hP => onTime_of_honoured hs hP)
    (fun _ h => h.honoured) (s := init t) ⟨nofun, nofun⟩ hrun
  refine Iff.trans ⟨fun hall es₁ s₁ hpre h₁ hh hin => (hall es₁ s₁ hpre h₁ hh hin).1,
    fun hall es₁ s₁ hpre h₁ hh hin => ?_⟩ hiff
  have hgs := hall es₁ s₁ hpre h₁ hh hin
  refine ⟨hgs, fun m => ⟨fun hpc => ?_, fun hpc => ?_⟩⟩
  · obtain ⟨s', hs', hpc', -⟩ := (takes_request (c := c) hgs m).1 hpc
    exact ⟨s', hs', hpc'⟩
  · obtain ⟨s', hs', hpc', -⟩ := (takes_request (c := c) hgs m).2 hpc
    exact ⟨s', hs', hpc'⟩

instance (s : System) (e : Event) : Decidable (OnTime s e) :=
  match e with
  | .handle =>
    match hh : s.handler with
    | none => .isTrue fun sig gs heq => by cases hh.symm.trans heq
    | some (sig, gs) => decidable_of_iff
        (isToEnd sig = true → gs < started → s.entered = true → requestShutdownState ≤ s.pair.gs)
        ⟨fun h sig' gs' heq => by cases hh.symm.trans heq; exact h, fun h => h sig gs hh⟩
  | .main _ | .idleProc _ | .signal _ | .abort | .request _ | .parent _ | .starter _ | .exit =>
    .isTrue trivial

theorem signal_honoured_iff_wholeLife :
    ∃ s, Trans.run (step plain) (init twoRegistered) wholeLife = some s ∧ s.handled = true ∧
      ∀ es₁ s₁, es₁ <+: wholeLife → Trans.run (step plain) (init twoRegistered) es₁ = some s₁ →
        s₁.handled = true → s₁.entered = true → requestShutdownState ≤ s₁.pair.gs := by
  obtain ⟨s, hguarded, hhandled⟩ := Option.map_eq_some_iff.mp
    (show (Trans.run (Trans.guarded (step plain) OnTime) (init twoRegistered) wholeLife).map
      System.handled = some true by decide)
  have hrun := Trans.Run.of_guarded hguarded
  refine ⟨s, hrun.run_eq, hhandled, fun es₁ s₁ hpre h₁ hh hin => ?_⟩
  exact ((signal_honoured_iff hrun.run_eq).mpr hrun es₁ s₁ hpre h₁ hh hin).1

/-- The handler reads `STARTING`, and stores the flag when the main loop has been entered. -/
theorem signal_lost : ∃ s, Trans.run (step plain) (init twoRegistered)
    (List.replicate 5 (.main fine) ++ [.signal sigterm] ++ List.replicate 5 (.main fine) ++
      [.handle]) = some s ∧ s.handled = true ∧ s.pc = .idle ∧ s.pair.gs = started := by
  obtain ⟨s, hrun, heq⟩ := Option.map_eq_some_iff.mp
    (show (Trans.run (step plain) (init twoRegistered) (List.replicate 5 (.main fine) ++
      [.signal sigterm] ++ List.replicate 5 (.main fine) ++ [.handle])).map
        (fun s => (s.handled, s.pc, s.pair.gs)) = some (true, .idle, started) by decide)
  obtain ⟨hhandled, hrest⟩ := Prod.mk.inj heq
  exact ⟨s, hrun, hhandled, Prod.mk.inj hrest⟩

/-! ## The thread that has started the main loop's thread -/

/-- The thread of the main loop has returned before `STARTED`, and the starter waits. -/
structure Failed (s : System) : Prop where
  pc : ∃ ret, s.pc = .returned ret
  gs : s.pair.gs < started
  handler : ∀ sig gs, s.handler = some (sig, gs) → gs < started
  starter : s.starter = none

/-- Nobody requests a shutdown, and the starter's waits do not fail. -/
def Patient : Event → Prop
  | .request _ => False
  | .starter ret => ret = Result.ok
  | _ => True

theorem Failed.starterTurn (h : Failed s) (hs : starterTurn s Result.ok = some s') : s' = s := by
  have hno : isGlobalStateShutdown s.pair.gs = false := by
    have := h.gs
    unfold isGlobalStateShutdown
    refine decide_eq_false fun hle => ?_
    have hle : (6 : Int) ≤ s.pair.gs := hle
    have hlt : s.pair.gs < 4 := this
    omega
  unfold Mainloop.starterTurn waitForCheck at hs
  rw [if_pos ⟨h.gs, hno⟩] at hs
  dsimp only at hs
  rw [if_pos (.inl rfl), if_pos rfl] at hs
  rw [← Option.some.inj hs, ← h.starter]

theorem Failed.step (h : Failed s) (hok : Patient e) (hs : step c s e = some s') : Failed s' := by
  obtain ⟨ret, hpc⟩ := h.pc
  cases e with
  | main m =>
    simp only [Mainloop.step, mainStep, hpc] at hs
    cases hs
  | idleProc m =>
    simp only [Mainloop.step, hpc] at hs
    cases hs
  | signal sig =>
    simp only [Mainloop.step] at hs
    split at hs
    · cases hs
      refine ⟨h.pc, h.gs, ?_, h.starter⟩
      rintro _ _ ⟨⟩
      exact h.gs
    · cases hs
  | handle =>
    simp only [Mainloop.step] at hs
    split at hs
    · cases hs
    · next sig gs hhandler =>
      cases hs
      have hlt := h.handler sig gs hhandler
      unfold handle
      rw [if_neg (Int.ne_of_lt hlt), if_pos hlt]
      split
      · refine ⟨h.pc, h.gs, ?_, h.starter⟩
        rintro _ _ ⟨⟩
      · refine ⟨h.pc, h.gs, ?_, h.starter⟩
        rintro _ _ ⟨⟩
  | abort =>
    cases hs
    exact ⟨h.pc, h.gs, h.handler, h.starter⟩
  | request l => exact hok.elim
  | parent fails =>
    simp only [Mainloop.step] at hs
    split_ifs at hs
    obtain ⟨ret', -, rfl⟩ := Option.map_eq_some_iff.mp hs
    exact ⟨h.pc, h.gs, h.handler, h.starter⟩
  | starter ret' =>
    obtain rfl : ret' = Result.ok := hok
    simp only [Mainloop.step] at hs
    split_ifs at hs
    rw [h.starterTurn hs]
    exact h
  | exit =>
    simp only [Mainloop.step] at hs
    split at hs
    · cases hs
      exact ⟨h.pc, h.gs, h.handler, h.starter⟩
    · cases hs

/-- **A start that fails leaves its caller waiting.** If the thread of the main loop has returned
before the state was `STARTED`, then `s_start_mainloop_thd` stays in its wait for it in every run,
as long as nobody else requests a shutdown and the wait itself does not fail. -/
theorem starter_waits {es' : List Event} {ret : Result}
    (hrun : Trans.run (step c) (init t) es = some s) (hpc : s.pc = .returned ret)
    (hgs : s.pair.gs < started) (hstarter : s.starter = none)
    (hrun' : Trans.run (step c) s es' = some s') (hpatient : ∀ e ∈ es', Patient e) :
    s'.starter = none := by
  have h : Failed s :=
    ⟨⟨ret, hpc⟩, hgs, fun sig gs hh => Int.lt_of_le_of_lt (handler_le hrun hh) hgs, hstarter⟩
  have hrun' := (Trans.Run.iff_forall_mem hrun').mpr hpatient
  exact (hrun'.inv (I := Failed) (fun _ _ _ h hok hs => h.step hok hs) h).starter

/-- The first module cannot be started. -/
def startFails : List Event :=
  List.replicate 5 (.main fine) ++ [.main { fine with outcomes := fun _ => ⟨Result.noMemory, false,
    false⟩ }] ++ List.replicate 2 (.main fine)

theorem starter_waits_startFails :
    ∃ s, Trans.run (step { plain with thread := true }) (init twoRegistered) startFails = some s ∧
      ∀ s', Trans.run (step { plain with thread := true }) s
        [.starter Result.ok, .signal sigterm, .handle, .starter Result.ok] = some s' →
          s'.starter = none := by
  obtain ⟨s, hrun, heq⟩ := Option.map_eq_some_iff.mp
    (show (Trans.run (step { plain with thread := true }) (init twoRegistered) startFails).map
      (fun s => (s.pc, s.pair.gs, s.starter)) =
        some (.returned Result.noMemory, starting, none) by decide)
  obtain ⟨hpc, hrest⟩ := Prod.mk.inj heq
  obtain ⟨hgs, hstarter⟩ := Prod.mk.inj hrest
  refine ⟨s, hrun, fun s' hrun' => starter_waits hrun hpc (hgs ▸ by decide) hstarter hrun' ?_⟩
  intro e he
  simp only [List.mem_cons, List.not_mem_nil, or_false] at he
  rcases he with rfl | rfl | rfl | rfl
  · rfl
  · trivial
  · trivial
  · rfl

end Mainloop
end Gallus
