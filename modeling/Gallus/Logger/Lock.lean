import Gallus.Logger.Calls

/-!
# The mutex of the logger

* `Quiet`: what neither takes nor releases the mutex, nor changes `s_is_fd_locked`. All changes of
  the settings are such.
* `lock_wp`, `unlock_wp`: a message whose three tests pass holds the mutex and the lock of the file
  between the two. One of them failing, the message comes to `unlock` without the mutex.
* `Call.prog_returns`: a thread begins and ends each call without the mutex.
* `Disciplined`: the mutex has been released by its holder alone, and `s_is_fd_locked` is set only
  while it is held. `disciplined_iff`: it stays so exactly where all the tests pass.
-/

namespace Gallus
namespace Logger

open Mutex

/-- Every test is to pass. -/
def pass (_ : Gate) (b : Bool) : Bool := b

/-- The file is not locked. -/
def Unlocked (g : Log) : Prop := g.isFdLocked = false

/-- `s_is_fd_locked` stays. -/
def SameFlag (g g' : Log) : Prop := g'.isFdLocked = g.isFdLocked

/-- It leaves the mutex and `s_is_fd_locked` alone. -/
abbrev Quiet {α : Type} (p : LogM α) : Prop := Within pass Unlocked SameFlag p

section Rules

variable {α β : Type} {p : LogM α} {f : α → LogM β}

theorem SameFlag.refl (g : Log) : SameFlag g g := rfl

theorem Quiet.pure (a : α) : Quiet (Pure.pure a) := Within.pure SameFlag.refl a

theorem Quiet.get (u : Log → α) : Quiet (Prog.get u) := Within.get SameFlag.refl u

theorem Quiet.change {u : Log → Log} (h : ∀ g, SameFlag g (u g)) : Quiet (Prog.change u) :=
  Within.change h

theorem Quiet.when {p : LogM Unit} (c : Bool) (h : Quiet p) : Quiet (Prog.when c p) :=
  Within.when SameFlag.refl c h

theorem Quiet.bind (hp : Quiet p) (hf : ∀ a, Quiet (f a)) : Quiet (p >>= f) :=
  Within.bind (fun _ _ _ h h' => h'.trans h) hp hf

theorem lockFd_quiet (cmd : Bool) : Quiet (lockFd cmd) :=
  (Quiet.get _).bind fun _ => .when _ (.change fun _ => rfl)

theorem emitTo_quiet (l : Level) (date : Bool) (msg : String) (dst : Destination) :
    Quiet (emitTo l date msg dst) := by
  have hwrite : ∀ line, Quiet (writeLine line) := fun line => .change fun _ => rfl
  have hstream : Quiet stream := (Quiet.get _).bind fun opened => by
    cases opened with
    | false => exact .pure _
    | true => exact .get _
  cases dst with
  | unknown | file => exact hstream.bind fun _ => hwrite _
  | syslog => exact hwrite _

theorem logFinal_quiet (full : Bool) : Quiet (logFinal full) := by
  refine (Quiet.get _).bind fun dst =>
    Quiet.bind (.when _ ?_) fun _ => .when _ (.change fun _ => rfl)
  exact (Quiet.get _).bind fun opened =>
    .when _ ((lockFd_quiet false).bind fun _ => .change fun _ => rfl)

theorem setArg_quiet : ∀ arg : Arg, Quiet (setArg arg)
  | .text (some _) => .when _ (.change fun _ => rfl)
  | .text none => .pure ()
  | .own => .pure ()

theorem isValid_quiet : ∀ arg : Arg, Quiet arg.isValid
  | .text _ => .pure _
  | .own => .get _

theorem openLog_quiet (opened : Opened) : Quiet (openLog opened) := by
  cases opened with
  | noFile => exact .pure _
  | noStream | stream fd =>
    refine Quiet.bind (.change ?_) fun _ => .pure _
    exact fun _ => rfl

theorem openDst_quiet (dst : Destination) (arg : Arg) (full : Bool) (files : Files) :
    Quiet (openDst dst arg full files) := by
  have hfile : ∀ toFile, Quiet (openFile toFile arg files) := by
    rintro (_ | _)
    · refine Quiet.bind (.change ?_) fun _ => .pure _
      exact fun _ => rfl
    · exact (setArg_quiet arg).bind fun _ => openLog_quiet _
  have hsyslog : ∀ valid, Quiet (openSyslog valid arg) := by
    rintro (_ | _)
    · exact .pure _
    · exact (logFinal_quiet true).bind fun _ => (setArg_quiet arg).bind fun _ => .pure _
  cases dst with
  | unknown | file =>
    exact (logFinal_quiet full).bind fun _ => (isValid_quiet arg).bind fun _ => hfile _
  | syslog => exact (isValid_quiet arg).bind fun _ => hsyslog _

theorem setLog_quiet (ret : Bool) (dst : Destination) (multiProcess emitDate : Bool)
    (debugLevel : Nat) : Quiet (setLog ret dst multiProcess emitDate debugLevel) := by
  cases ret with
  | false => exact .change fun _ => rfl
  | true =>
    refine Quiet.bind (.change ?_) fun _ => Quiet.bind (.change ?_) fun _ =>
      Quiet.bind (.change ?_) fun _ => .change ?_
    all_goals exact fun _ => rfl

theorem logInit_quiet (dst : Destination) (arg : Arg) (multiProcess emitDate : Bool)
    (debugLevel : Nat) (full : Bool) (files : Files) :
    Quiet (logInit dst arg multiProcess emitDate debugLevel full files) :=
  (openDst_quiet dst arg full files).bind fun _ => (setLog_quiet _ _ _ _ _).bind fun _ => .pure _

theorem logReinit_quiet (full : Bool) (files : Files) : Quiet (logReinit full files) :=
  (Quiet.get _).bind fun _ => (Quiet.get _).bind fun _ => (Quiet.get _).bind fun _ =>
    (Quiet.get _).bind fun _ => (Quiet.get _).bind fun _ => logInit_quiet _ _ _ _ _ _ _

end Rules

/-! ## A message -/

/-- One of the three tests. -/
theorem gate_wp {gate : Gate} {c : Log → Bool} {p : LogM Unit} {Q : Mode Log → Unit → Prop}
    (hp : wp pass Unlocked p Q .free) (hstrayed : Q .strayed ()) :
    wp pass Unlocked (do let b ← Prog.check gate c; Prog.when b p) Q .free := by
  refine wp_bind fun b => ?_
  cases b with
  | false => exact hstrayed
  | true => exact hp

/-- A message takes the mutex and the lock of the file, or it strays. -/
theorem lock_wp {Q : Mode Log → Unit → Prop} (hheld : ∀ g, g.isFdLocked = true → Q (.held g) ())
    (hstrayed : Q .strayed ()) : wp pass Unlocked lock Q .free := by
  refine gate_wp (gate_wp (gate_wp ?_ hstrayed) hstrayed) hstrayed
  refine wp_bind fun g hg => wp_bind ?_
  show wp pass Unlocked (Prog.when (!g.isFdLocked) _) Q (.held g)
  rw [show g.isFdLocked = false from hg]
  exact wp_bind ((lockFd_quiet true).held g _ fun g' _ _ => hheld _ rfl)

/-- It gives them back. -/
theorem unlock_wp {Q : Mode Log → Unit → Prop} (g : Log) (hfree : Q .free ()) :
    wp pass Unlocked unlock Q (.held g) := by
  refine wp_bind ?_
  show wp pass Unlocked (Prog.when g.isFdLocked _ >>= _) Q (.held g)
  cases hflag : g.isFdLocked with
  | false => exact wp_bind ⟨hflag, hfree⟩
  | true =>
    exact wp_bind (wp_bind ((lockFd_quiet false).held g _ fun g' _ _ => ⟨rfl, hfree⟩))

/-- A message that has strayed releases the mutex of another thread. -/
theorem unlock_strayed {Q : Mode Log → Unit → Prop} : wp pass Unlocked unlock Q .strayed := by
  refine wp_bind fun g => wp_bind ?_
  show wp pass Unlocked (Prog.when g.isFdLocked _) _ .strayed
  cases g.isFdLocked with
  | false => trivial
  | true => exact wp_bind ((lockFd_quiet false).strayed _ fun _ => trivial)

theorem doLog_returns (l : Level) (date : Bool) (msg : String) :
    Returns pass Unlocked (doLog l date msg) := by
  have hrest : ∀ dst, Quiet (emitTo l date msg dst) := emitTo_quiet l date msg
  refine wp_bind (lock_wp (fun g _ => ?_) ?_)
  · exact wp_bind (wp_bind ((hrest g.logDst).held g _ fun g' _ _ => unlock_wp g' rfl))
  · exact wp_bind fun g => wp_bind ((hrest g.logDst).strayed _ fun _ => unlock_strayed)

theorem logEmit_returns (lv : Level) (debugLevel : Nat) (msg : String) :
    Returns pass Unlocked (logEmit lv debugLevel msg) := by
  have hemits : Returns pass Unlocked (emits lv debugLevel) := by
    unfold emits
    split
    · exact .pure _
    · exact .get _
  exact hemits.bind fun _ => .when _ ((Returns.get _).bind fun _ => doLog_returns _ _ _)

/-! ## The calls -/

theorem locked_returns {p : LogM Unit} (hp : Quiet p) : Returns pass Unlocked (locked p) := by
  refine wp_bind fun g hg => wp_bind (hp.held g _ fun g' _ h => ?_)
  exact ⟨h.trans hg, rfl⟩

theorem lockedResult_returns {p : LogM Bool} (hp : Quiet p) :
    Returns pass Unlocked (lockedResult p) :=
  Returns.locked (fun _ _ hg h => h.trans hg) hp fun _ => .pure _

/-- A thread begins and ends a call without the mutex. -/
theorem Call.prog_returns (c : Call) : Returns pass Unlocked c.prog := by
  cases c with
  | emit lv debugLevel msg => exact logEmit_returns lv debugLevel msg
  | init dst arg multiProcess emitDate debugLevel files =>
    exact (lockedResult_returns (logInit_quiet _ _ _ _ _ _ _)).bind fun _ => .pure _
  | reinit files =>
    refine Returns.bind ((logEmit_returns _ _ _).bind fun _ => ?_) fun _ => .pure _
    exact lockedResult_returns (logReinit_quiet _ _)
  | final => exact (logEmit_returns _ _ _).bind fun _ => locked_returns (logFinal_quiet true)
  | syncForFork =>
    exact (logEmit_returns _ _ _).bind fun _ => locked_returns (logFinal_quiet false)
  | setDebugLevel l => exact locked_returns (.change fun _ => rfl)
  | setMultiProcess v =>
    exact (Returns.get _).bind fun _ =>
      .when _ ((locked_returns (.change fun _ => rfl)).bind fun _ => logEmit_returns _ _ _)

/-! ## Any threads -/

/-- The threads, each with the calls that it makes, before the first step. -/
def start {τ : Type} (g : Log) (calls : τ → List Call) : Threads Log Gate Unit τ :=
  ⟨g, none, false, fun i => (calls i).forM Call.prog⟩

/-- No thread has released the mutex that did not hold it, and `s_is_fd_locked` is set only while it
is held. -/
def Disciplined {τ : Type} (s : Threads Log Gate Unit τ) : Prop :=
  s.stray = false ∧ (s.mem.isFdLocked = true → s.holder ≠ none)

theorem start_sound {τ : Type} {g : Log} (hg : g.isFdLocked = false) (calls : τ → List Call) :
    Sound pass Unlocked (start g calls) :=
  sound_start hg fun _ => .forM Call.prog_returns

theorem disciplined_of_sound {τ : Type} {s : Threads Log Gate Unit τ} (h : Sound pass Unlocked s) :
    Disciplined s := by
  refine ⟨h.stray, fun hflag hnone => ?_⟩
  rw [show s.mem.isFdLocked = false from h.free hnone] at hflag
  exact absurd hflag nofun

/-- **The discipline of the mutex.** Whatever the settings are, and whatever calls the threads make:
as long as every test of `s_lock` passes, the mutex is released by its holder alone and
`s_is_fd_locked` is set only while it is held. Once all calls have come to their end, it was so all
the time exactly if every test has passed. -/
theorem disciplined_iff {τ : Type} [DecidableEq τ] {g : Log} (hg : g.isFdLocked = false)
    {calls : τ → List Call} {is : List τ} {t : Threads Log Gate Unit τ}
    (h : Trans.run step (start g calls) is = some t) :
    (Trans.Run step (Passes pass) (start g calls) is t →
      ∀ is₁ s₁, is₁ <+: is → Trans.run step (start g calls) is₁ = some s₁ → Disciplined s₁) ∧
    ((∀ i, ∃ a, t.prog i = .done a) →
      ((∀ is₁ s₁, is₁ <+: is → Trans.run step (start g calls) is₁ = some s₁ → Disciplined s₁) ↔
        Trans.Run step (Passes pass) (start g calls) is t)) := by
  have hsound := start_sound hg calls
  have hkeeps : Trans.Run step (Passes pass) (start g calls) is t →
      ∀ is₁ s₁, is₁ <+: is → Trans.run step (start g calls) is₁ = some s₁ → Disciplined s₁ :=
    fun hrun is₁ s₁ hpre h₁ => disciplined_of_sound
      ((hrun.of_prefix hpre h₁).inv (fun _ _ _ hs hok hst => step_sound hs hok hst) hsound)
  refine ⟨hkeeps, fun hend => ⟨fun hall => ?_, hkeeps⟩⟩
  exact (run_passes_iff hsound h hend).mp fun is₁ s₁ hpre h₁ => (hall is₁ s₁ hpre h₁).1

/-- A file of several processes. -/
def fileLog : Log := ⟨some 3, .file, [], true, false, 0, false, false, []⟩

/-- Two threads with a message each, one of which ends the logger after it, and one that sets the
level. -/
def fileCalls : Nat → List Call
  | 0 => [.emit .info 0 "a"]
  | 1 => [.emit .error 0 "b", .final]
  | 2 => [.setDebugLevel 3]
  | _ => []

theorem disciplined_iff_file : ∃ is t, Trans.run step (start fileLog fileCalls) is = some t ∧
    t.mem.lines.map (fun line => line.msg) = ["a", "b"] ∧ t.mem.logDst = .unknown ∧
    ∀ is₁ s₁, is₁ <+: is → Trans.run step (start fileLog fileCalls) is₁ = some s₁ →
      Disciplined s₁ := by
  obtain ⟨t, ht, hmem⟩ := Option.map_eq_some_iff.mp (show
    (Trans.run (Trans.guarded step (Passes pass)) (start fileLog fileCalls)
      ([0, 1, 2, 0, 1, 2, 0, 1, 2, 0, 1] ++ List.replicate 14 0 ++ List.replicate 23 1)).map
        (fun t => (t.mem.lines.map (fun line => line.msg), t.mem.logDst)) =
      some (["a", "b"], .unknown) by decide +kernel)
  have hrun := Trans.Run.of_guarded ht
  obtain ⟨hlines, hdst⟩ := Prod.mk.inj hmem
  exact ⟨_, t, hrun.run_eq, hlines, hdst, (disciplined_iff rfl hrun.run_eq).1 hrun⟩

/-- The settings that the program begins with. -/
def stderrLog : Log := ⟨none, .unknown, [], false, true, 0, false, false, []⟩

def stderrCalls : Nat → List Call
  | 0 => [.final]
  | 1 => [.emit .info 0 "a", .setDebugLevel 1]
  | _ => []

/-- One thread ends the logger. While it holds the mutex, another one has a message, which releases
the mutex; so it can take it for its next call. -/
theorem disciplined_stderr : ∃ s t u : Threads Log Gate Unit Nat,
    Trans.run step (start stderrLog stderrCalls) [0, 0] = some s ∧ s.holder = some 0 ∧
    Trans.run step s (List.replicate 7 1) = some t ∧ t.holder = none ∧ t.stray = true ∧
    step t 1 = some u ∧ u.holder = some 1 ∧ u.prog 0 = s.prog 0 ∧ ¬Disciplined t :=
  ⟨_, _, _, rfl, rfl, rfl, rfl, rfl, rfl, rfl, rfl, fun h => absurd h.1 (by decide)⟩

end Logger
end Gallus
