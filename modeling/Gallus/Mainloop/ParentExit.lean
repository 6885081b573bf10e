import Gallus.Basic
import Mathlib.Data.Nat.Find

/-!
# The wait for the parent's exit (`mainloop.c`)

The forked child waits until its parent has exited: it looks for the process with `kill`, and waits
on a condition variable for what the handler of `SIGUSR1` says. The signal thread runs the handler,
which takes the lock that the loop holds but for its waits.

* `iterate`: one iteration of the loop of `s_wait_parent_exit`. `World.after`: the loop after some
  iterations, `waitParentExit`: what the function returns.
* `World.Seen`: an iteration before the stop time in which the parent is found to be gone.
  `Quiet`: the loop as long as there is none.
* `ends_iff`: the loop ends exactly if there is such an iteration. The branch for the time being
  over has no `break`: from the stop time on, the loop never gives the lock away.
-/

namespace Gallus
namespace ParentExit

/-- How `kill(ppid, 0)` ends. -/
inductive Probe
  | alive
  /-- It fails with `ESRCH`. -/
  | noProcess
  /-- It fails with another error. -/
  | failed
  deriving DecidableEq, Repr

/-- What one iteration meets. -/
structure Meets where
  /-- `WHAT_TIME_IS_IT_NOW_IN_NSEC(now)` -/
  now : Chrono
  probe : Probe
  /-- `gallus_cond_wait` returns this. -/
  waited : Result
  /-- `SIGUSR1` comes to the signal thread. -/
  signal : Bool
  /-- The handler gets the lock while the loop waits, if it is blocked on it. -/
  served : Bool

/-- What the loop and the handler share. -/
structure Sync where
  /-- The loop holds `s_parent_sync_lck`. -/
  locked : Bool
  isParentExit : Bool
  /-- The handler is blocked on the lock. -/
  blocked : Bool

def sigusr1 : Nat := 10

/-- `s_temp_USR1_handler`: it does not get the lock, or it sets the flag. -/
def tempUsr1Handler (sig : Nat) (s : Sync) : Option Sync :=
  if sig = sigusr1 then
    if s.locked = true then none else some { s with isParentExit := true, blocked := false }
  else some s

/-- The call of the handler, from the signal thread. -/
def deliver (s : Sync) : Sync := (tempUsr1Handler sigusr1 s).getD { s with blocked := true }

/-- Whether or not there is a signal. -/
def arrive (m : Meets) (s : Sync) : Sync := if m.signal = true then deliver s else s

/-- `gallus_cond_wait(&s_parent_sync_cnd, &s_parent_sync_lck, …)`: the lock is free meanwhile. -/
def condWait (m : Meets) (s : Sync) : Result × Sync :=
  let s : Sync := { s with locked := false }
  let s : Sync := if s.blocked = true ∧ m.served = true then deliver s else s
  (m.waited, { s with locked := true })

/-- The loop, with `ret`. -/
inductive Loop
  | running (ret : Result) (s : Sync)
  | left (ret : Result) (s : Sync)

def Loop.isLeft : Loop → Bool
  | .running _ _ => false
  | .left _ _ => true

/-- One iteration of `while (s_is_parent_exit == false)`. -/
def iterate (stop : Chrono) (m : Meets) (ret : Result) (s : Sync) : Loop :=
  let s := arrive m s
  if s.isParentExit = false then
    if m.now < stop then
      match m.probe with
      | .alive => .running (condWait m s).1 (condWait m s).2
      | .noProcess => .left Result.ok s
      | .failed => .left Result.posixApiError s
    else .running ret s
  else .left ret s

/-- `PARENT_EXIT_WAIT_TIMEOUT` -/
def parentExitWaitTimeout : Chrono := 1000 * 1000 * 1000

/-- What a call meets: the first reading of the clock, the flag when it has taken the lock, and what
its iterations meet. -/
structure World where
  begin : Chrono
  exited : Bool
  meets : Nat → Meets

namespace World

def stop (w : World) : Chrono := i64 (w.begin + parentExitWaitTimeout)

/-- The loop after `n` iterations. -/
def after (w : World) : Nat → Loop
  | 0 => .running Result.anyFailures ⟨true, w.exited, false⟩
  | n + 1 =>
    match w.after n with
    | .running ret s => iterate w.stop (w.meets n) ret s
    | .left ret s => .left ret s

end World

/-- `s_wait_parent_exit`, if its loop ends within `n` iterations. -/
def waitParentExit (w : World) (n : Nat) : Option (Result × Sync) :=
  match w.after n with
  | .running _ _ => none
  | .left ret s => some (ret, { s with locked := false })

/-! ## What the loop is to do -/

namespace World

variable (w : World)

/-- The loop has ended after `n` iterations. -/
def Ended (n : Nat) : Prop := (w.after n).isLeft = true

/-- The iteration `n` waits on the condition variable, without the lock. -/
def Waits (n : Nat) : Prop :=
  ∃ ret s, w.after n = .running ret s ∧ s.isParentExit = false ∧ (w.meets n).now < w.stop ∧
    (w.meets n).probe = .alive

/-- The iteration `n` finds the flag set, or no parent. -/
def Observes (n : Nat) : Prop :=
  ∃ ret s, w.after n = .running ret s ∧ (s.isParentExit = true ∨
    ((w.meets n).now < w.stop ∧ (w.meets n).probe = .noProcess))

/-- The loop ends: past the stop time, at the latest, and when the parent's exit is observed; and
each iteration that it goes on after has waited. -/
structure Ends : Prop where
  ends : ∃ n, w.Ended n
  timed : ∀ n, w.stop ≤ (w.meets n).now → w.Ended (n + 1)
  observed : ∀ n, w.Observes n → w.Ended (n + 1)
  waits : ∀ n, ¬w.Ended (n + 1) → w.Waits n

/-- Before the stop time, `kill` fails, or the handler gets the lock. -/
def Seen (n : Nat) : Prop :=
  (w.meets n).now < w.stop ∧ ((w.meets n).probe ≠ .alive ∨
    ((w.meets n).served = true ∧ ∃ k, k ≤ n ∧ (w.meets k).signal = true))

end World

/-! ## The iterations -/

/-- The loop goes on with the lock and without the flag; the handler is blocked if there has been a
signal. -/
structure Quiet (w : World) (n : Nat) (s : Sync) : Prop where
  locked : s.locked = true
  isParentExit : s.isParentExit = false
  blocked : s.blocked = true ↔ ∃ k, k < n ∧ (w.meets k).signal = true

section Iterations

variable {w : World} {m : Meets} {n n' : Nat} {ret : Result} {s : Sync}

theorem deliver_locked (h : s.locked = true) : deliver s = { s with blocked := true } := by
  simp [deliver, tempUsr1Handler, h]

theorem deliver_free (h : s.locked = false) :
    deliver s = { s with isParentExit := true, blocked := false } := by
  simp [deliver, tempUsr1Handler, h]

/-- The handler sets the flag in a wait, and only there. -/
theorem condWait_snd (m : Meets) (s : Sync) :
    (condWait m s).2 = if s.blocked = true ∧ m.served = true then ⟨true, true, false⟩
      else { s with locked := true } := by
  unfold condWait
  dsimp only
  split_ifs with h
  · rw [deliver_free rfl]
  · rfl

theorem after_succ (h : w.after n = .running ret s) :
    w.after (n + 1) = iterate w.stop (w.meets n) ret s := by
  rw [World.after, h]

/-- The loop does not go on. -/
theorem World.Ended.mono (h : w.Ended n) (hle : n ≤ n') : w.Ended n' := by
  induction hle with
  | refl => exact h
  | @step m _ ih =>
    unfold World.Ended at *
    rw [World.after]
    cases hm : w.after m with
    | running ret s =>
      rw [hm] at ih
      exact absurd ih nofun
    | left ret s => rfl

/-- The flag ends the loop. -/
theorem ended_of_flag (h : w.after n = .running ret s) (hs : s.isParentExit = true) :
    w.Ended (n + 1) := by
  have harrive : (arrive (w.meets n) s).isParentExit = true := by
    unfold arrive deliver tempUsr1Handler
    split_ifs <;> simp [hs]
  unfold World.Ended
  rw [after_succ h, iterate, if_neg (by simp [harrive])]
  rfl

/-- What an iteration that finds no flag goes on with. -/
theorem Quiet.arrive (h : Quiet w n s) : Quiet w (n + 1) (arrive (w.meets n) s) := by
  have hblocked := h.blocked
  unfold ParentExit.arrive
  split_ifs with hsig
  · rw [deliver_locked h.locked]
    exact ⟨h.locked, h.isParentExit, iff_of_true rfl ⟨n, Nat.lt_succ_self n, hsig⟩⟩
  · refine ⟨h.locked, h.isParentExit, hblocked.trans ⟨?_, ?_⟩⟩
    · rintro ⟨k, hk, hk'⟩
      exact ⟨k, Nat.lt_succ_of_lt hk, hk'⟩
    · rintro ⟨k, hk, hk'⟩
      have hne : k ≠ n := fun heq => hsig (heq ▸ hk')
      exact ⟨k, by omega, hk'⟩

/-- An iteration that does not find the parent gone. -/
theorem Quiet.goes_on (h : Quiet w n s) (hrun : w.after n = .running ret s) (hno : ¬w.Seen n) :
    ∃ ret' s', w.after (n + 1) = .running ret' s' ∧ Quiet w (n + 1) s' := by
  have hq := h.arrive
  rw [after_succ hrun, iterate, if_pos hq.isParentExit]
  split_ifs with hnow
  · have halive : (w.meets n).probe = .alive := by
      by_contra hne
      exact hno ⟨hnow, .inl hne⟩
    rw [halive]
    refine ⟨_, _, rfl, ?_⟩
    rw [condWait_snd, if_neg]
    · exact ⟨rfl, hq.isParentExit, hq.blocked⟩
    · rintro ⟨hb, hserved⟩
      obtain ⟨k, hk, hsig⟩ := hq.blocked.mp hb
      exact hno ⟨hnow, .inr ⟨hserved, k, by omega, hsig⟩⟩
  · exact ⟨_, _, rfl, hq⟩

/-- The first iteration that finds the parent gone. -/
theorem Quiet.ends (h : Quiet w n s) (hrun : w.after n = .running ret s) (hseen : w.Seen n) :
    w.Ended (n + 2) := by
  have hq := h.arrive
  obtain ⟨hnow, hgone⟩ := hseen
  have hnext := after_succ hrun
  rw [iterate, if_pos hq.isParentExit, if_pos hnow] at hnext
  cases hprobe : (w.meets n).probe with
  | alive =>
    rw [hprobe] at hnext hgone
    obtain ⟨hserved, k, hk, hsig⟩ := hgone.resolve_left (fun hne => hne rfl)
    refine ended_of_flag hnext ?_
    rw [condWait_snd, if_pos ⟨hq.blocked.mpr ⟨k, by omega, hsig⟩, hserved⟩]
  | noProcess | failed =>
    rw [hprobe] at hnext
    have hended : w.Ended (n + 1) := by
      unfold World.Ended
      rw [hnext]
      rfl
    exact hended.mono (Nat.le_succ _)

end Iterations

/-! ## The whole loop -/

variable {w : World}

/-- Until the parent is found to be gone, the loop goes on with the lock. -/
theorem quiet_of_none (hexited : w.exited = false) {n : Nat} (hnone : ∀ k, k < n → ¬w.Seen k) :
    ∃ ret s, w.after n = .running ret s ∧ Quiet w n s := by
  induction n with
  | zero =>
    refine ⟨_, _, rfl, rfl, hexited, iff_of_false nofun ?_⟩
    rintro ⟨k, hk, -⟩
    exact absurd hk (Nat.not_lt_zero k)
  | succ n ih =>
    obtain ⟨ret, s, hrun, hq⟩ := ih fun k hk => hnone k (Nat.lt_succ_of_lt hk)
    exact hq.goes_on hrun (hnone n (Nat.lt_succ_self n))

/-- Without such an iteration, the loop never ends. -/
theorem not_ended (hexited : w.exited = false) (hnone : ∀ n, ¬w.Seen n) (n : Nat) : ¬w.Ended n := by
  obtain ⟨ret, s, hrun, -⟩ := quiet_of_none (n := n) hexited fun k _ => hnone k
  unfold World.Ended
  rw [hrun]
  exact nofun

/-- The loop ends within two iterations of the first that finds the parent gone. -/
theorem ended_of_seen {n : Nat} (hseen : w.Seen n) : w.Ended (n + 2) := by
  classical
  cases hexited : w.exited with
  | true => exact (ended_of_flag (w := w) (n := 0) rfl hexited).mono (by omega)
  | false =>
    have hex : ∃ k, w.Seen k := ⟨n, hseen⟩
    obtain ⟨ret, s, hrun, hq⟩ := quiet_of_none hexited fun k hk => Nat.find_min hex hk
    refine (hq.ends hrun (Nat.find_spec hex)).mono ?_
    have hle := Nat.find_min' hex hseen
    omega

/-- An iteration before the stop time ends the loop, or it waits. -/
theorem ended_or_waits {n : Nat} (hrun : ¬w.Ended (n + 1)) (hnow : (w.meets n).now < w.stop) :
    w.Waits n := by
  cases hn : w.after n with
  | left ret s =>
    refine absurd (World.Ended.mono ?_ (Nat.le_succ n)) hrun
    unfold World.Ended
    rw [hn]
    rfl
  | running ret s =>
    have hflag : s.isParentExit = false := by
      by_contra hne
      exact hrun (ended_of_flag hn (by simpa using hne))
    refine ⟨ret, s, hn, hflag, hnow, ?_⟩
    by_contra hne
    apply hrun
    unfold World.Ended
    rw [after_succ hn, iterate]
    split_ifs <;> cases hprobe : (w.meets n).probe <;> simp_all [Loop.isLeft]

/-- The parent's exit ends the loop in the iteration that observes it. -/
theorem ended_of_observes {n : Nat} (h : w.Observes n) : w.Ended (n + 1) := by
  obtain ⟨ret, s, hrun, hflag | ⟨hnow, hprobe⟩⟩ := h
  · exact ended_of_flag hrun hflag
  · by_contra hnot
    obtain ⟨_, _, -, -, -, halive⟩ := ended_or_waits hnot hnow
    exact absurd (hprobe.symm.trans halive) (by decide)

/-- **The end of the wait.** With a clock that does not go back, the loop ends as it is to exactly
if the parent is found to be gone before the stop time, or was so before the first iteration. -/
theorem ends_iff (hclock : ∀ k n, k ≤ n → (w.meets k).now ≤ (w.meets n).now) :
    w.Ends ↔ w.exited = true ∨ ∃ n, w.Seen n := by
  constructor
  · rintro ⟨⟨n, hn⟩, -, -, -⟩
    by_contra hnot
    obtain ⟨hexited, hnone⟩ := not_or.mp hnot
    exact not_ended (by simpa using hexited) (not_exists.mp hnone) n hn
  · intro h
    have htimed : ∀ n, w.stop ≤ (w.meets n).now → w.Ended (n + 1) := by
      intro n hn
      rcases h with hexited | ⟨k, hseen⟩
      · exact (ended_of_flag (w := w) (n := 0) rfl hexited).mono (by omega)
      · have hlt : k < n := by
          by_contra hge
          have hle := hclock n k (Nat.not_lt.mp hge)
          exact Int.not_le.mpr (Int.lt_of_lt_of_le hseen.1 hn) hle
        exact (ended_of_seen hseen).mono (by omega)
    refine ⟨?_, htimed, fun n => ended_of_observes, fun n hn => ?_⟩
    · rcases h with hexited | ⟨n, hseen⟩
      · exact ⟨1, ended_of_flag (n := 0) rfl hexited⟩
      · exact ⟨n + 2, ended_of_seen hseen⟩
    · refine ended_or_waits hn ?_
      by_contra hge
      exact hn (htimed n (Int.not_lt.mp hge))

/-- The parent is gone in the third iteration. -/
def leaving : World where
  begin := 0
  exited := false
  meets n := ⟨n * 250000000, if n < 2 then .alive else .noProcess, Result.timedout, false, false⟩

theorem ends_iff_leaving : leaving.Ends :=
  (ends_iff fun a b hab => show (a * 250000000 : Int) ≤ b * 250000000 by omega).mpr
    (.inr ⟨2, by decide, .inl (by decide)⟩)

/-- The parent exits when the second iteration has waited, at the stop time, and the handler is
called for it. -/
def staying : World where
  begin := 0
  exited := false
  meets n := ⟨n * 500000000, .alive, Result.timedout, decide (2 ≤ n), true⟩

theorem ends_staying : (∀ k n, k ≤ n → (staying.meets k).now ≤ (staying.meets n).now) ∧
    (∀ n, 2 ≤ n → staying.stop ≤ (staying.meets n).now ∧ (staying.meets n).signal = true) ∧
    (∀ n, ¬staying.Ended n) ∧ ¬staying.Ends := by
  have hstop : staying.stop = 1000000000 := by decide
  have hnone : ∀ n, ¬staying.Seen n := by
    rintro n ⟨hnow, hne | ⟨-, k, hk, hsig⟩⟩
    · exact hne rfl
    · have hnow' : (n * 500000000 : Int) < 1000000000 := hstop ▸ hnow
      have hk' : 2 ≤ k := of_decide_eq_true hsig
      omega
  have hnot := not_ended rfl hnone
  refine ⟨fun a b hab => ?_, fun n hn => ⟨?_, decide_eq_true hn⟩, hnot, fun h => ?_⟩
  · show (a * 500000000 : Int) ≤ b * 500000000
    omega
  · rw [hstop]
    show (1000000000 : Int) ≤ n * 500000000
    omega
  · obtain ⟨n, hn⟩ := h.ends
    exact hnot n hn

end ParentExit
end Gallus
