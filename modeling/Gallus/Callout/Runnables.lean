import Gallus.Callout.Effects

/-!
# The tasks that the scheduler fetches (`callout_queue.c`)

`s_get_runnables` looks at the head of the timed queue, takes it while it is due and the array has
room, and then looks up when to wake up next.

* `due w theAbstime`: the number of tasks in the queue that are due at `theAbstime`.
* `Fetched k w w' tasks`: the first `k` tasks of the queue have been taken, and nothing else.
* `getRunnables_due`: what a fetch takes from a sorted queue, and the wake-up time it reports.
-/

namespace Gallus
namespace Callout

open StableQueue

variable {ι : Type}

/-- The number of tasks in the timed queue whose time has come at `theAbstime`. -/
def due (w : Callout ι) (theAbstime : Chrono) : Nat :=
  w.chronoTskQ.countP fun e => decide (w.next e ≤ theAbstime)

/-- The first `k` tasks of the timed queue were taken out of it and stand in `tasks`. The other
tasks and the other queues are as before. -/
structure Fetched (k : Nat) (w w' : Callout ι) (tasks : List ι) : Prop where
  first : tasks = w.chronoTskQ.take k
  timed : w'.chronoTskQ = w.chronoTskQ.drop k
  taken : ∀ e ∈ tasks, w'.task e = takenOut (w.task e) ∧ w'.tskTbl e = some .dequeued
  other : ∀ e ∉ tasks, w'.task e = w.task e ∧ w'.tskTbl e = w.tskTbl e
  urgent : w'.urgentTskQ = w.urgentTskQ
  idle : w'.idleTskQ = w.idleTskQ
  wakeups : w'.wakeups = w.wakeups

variable {w w' : Callout ι} {tasks q : List ι} {t : ι}

theorem Fetched.nothing (w : Callout ι) : Fetched 0 w w [] :=
  ⟨rfl, rfl, fun _ he => absurd he List.not_mem_nil, fun _ _ => ⟨rfl, rfl⟩, rfl, rfl, rfl⟩

variable [DecidableEq ι]

theorem takeHead_next (w : Callout ι) (t : ι) : (takeHead w t).next = w.next := by
  obtain ⟨-, -, hself, hne⟩ := takeHead_queue w t
  funext e
  by_cases he : e = t
  · subst he
    exact hself
  · rw [next, hne e he]

theorem takeHead_tskTbl_ne {e : ι} (w : Callout ι) (he : e ≠ t) :
    (takeHead w t).tskTbl e = w.tskTbl e := by
  unfold takeHead
  simp [setState, setStateInTable, modTask, setChronoTskQ, he]

/-- The head, and then what the rest of the loop takes. -/
theorem Fetched.cons {k : Nat} (hq : w.chronoTskQ = t :: q)
    (h : Fetched k (takeHead w t) w' tasks) : Fetched (k + 1) w w' (t :: tasks) := by
  obtain ⟨htask, htbl, hurgent, hidle, htimed⟩ := takeHead_taken hq
  obtain ⟨-, -, -, hne⟩ := takeHead_queue w t
  refine ⟨?_, ?_, fun e he => ?_, fun e he => ?_, h.urgent.trans hurgent, h.idle.trans hidle, ?_⟩
  · rw [h.first, htimed, hq, List.take_succ_cons]
  · rw [h.timed, htimed, hq, List.drop_succ_cons]
  · by_cases hmem : e ∈ tasks
    · obtain ⟨hout, hentry⟩ := h.taken e hmem
      refine ⟨?_, hentry⟩
      by_cases het : e = t
      · -- taken twice, which a record does not show
        subst het
        rw [hout, htask]
        rfl
      · rw [hout, hne e het]
    · obtain rfl : e = t := (List.mem_cons.mp he).resolve_right hmem
      obtain ⟨hsame, hentry⟩ := h.other e hmem
      exact ⟨hsame.trans htask, hentry.trans htbl⟩
  · obtain ⟨het, hmem⟩ := not_or.mp fun h => he (List.mem_cons.mpr h)
    obtain ⟨hsame, hentry⟩ := h.other e hmem
    exact ⟨hsame.trans (hne e het), hentry.trans (takeHead_tskTbl_ne w het)⟩
  · exact h.wakeups

/-! ## The loop -/

/-- The loop takes as many tasks as are due and fit. -/
theorem takeRunnables_fetched (theAbstime : Chrono) (n : Nat) (w : Callout ι)
    (hsorted : w.chronoTskQ.Pairwise fun a b => w.next a ≤ w.next b) :
    Fetched (min n (w.due theAbstime)) w (takeRunnables theAbstime n w).1
      (takeRunnables theAbstime n w).2 := by
  induction n generalizing w with
  | zero =>
    rw [Nat.zero_min]
    exact .nothing w
  | succ n ih =>
    unfold takeRunnables
    split
    · next hq =>
      have hdue : w.due theAbstime = 0 := by simp [due, hq]
      rw [hdue, Nat.min_zero]
      exact .nothing w
    · next e q hq =>
      have htimed := (takeHead_taken hq).2.2.2.2
      rw [hq] at hsorted
      split
      · next hle =>
        have hdue : w.due theAbstime = (takeHead w e).due theAbstime + 1 := by
          unfold due
          rw [hq, htimed, takeHead_next]
          exact List.countP_cons_of_pos (decide_eq_true hle)
        rw [hdue, Nat.add_min_add_right]
        refine Fetched.cons hq (ih (takeHead w e) ?_)
        rw [htimed, takeHead_next]
        exact hsorted.of_cons
      · next hle =>
        have hdue : w.due theAbstime = 0 := by
          unfold due
          rw [hq]
          exact countP_le_of_head_lt hsorted (lt_of_not_ge hle)
        rw [hdue, Nat.min_zero]
        exact .nothing w

omit [DecidableEq ι] in
/-- The time of the new head, or `-1`. -/
theorem peekCurrentWakeupTime_eq (w : Callout ι) :
    w.peekCurrentWakeupTime = (w.chronoTskQ.head?.map w.next).getD (-1) := by
  unfold peekCurrentWakeupTime
  cases w.chronoTskQ <;> rfl

theorem takeRunnables_next (theAbstime : Chrono) (n : Nat) (w : Callout ι) :
    (takeRunnables theAbstime n w).1.next = w.next := by
  induction n generalizing w with
  | zero => rfl
  | succ n ih =>
    unfold takeRunnables
    split
    · rfl
    · next e q hq =>
      split
      · exact (ih (takeHead w e)).trans (takeHead_next w e)
      · rfl

/-- **The fetch of the due tasks.** From a sorted queue `s_get_runnables` takes the first tasks, as
many as are due and fit, and leaves the others in their order. The reported wake-up time is the time
of the new head, or `-1` with the queue empty. -/
theorem getRunnables_due (w : Callout ι) (baseAbstime : Chrono) (n : Nat)
    (hsorted : w.chronoTskQ.Pairwise fun a b => w.next a ≤ w.next b) (hbase : 0 < baseAbstime)
    (hfit : baseAbstime + calloutTaskSchedJitter < 2 ^ 63) :
    let r := getRunnables w baseAbstime n
    let k := min n (w.due (baseAbstime + calloutTaskSchedJitter))
    Fetched k w r.1 r.2.1 ∧
      r.2.2 = match w.chronoTskQ.drop k with
        | [] => -1
        | e :: _ => w.next e := by
  have hi : i64 (baseAbstime + calloutTaskSchedJitter) = baseAbstime + calloutTaskSchedJitter := by
    have hjitter : 0 ≤ calloutTaskSchedJitter := by decide
    have hpos := Int.add_nonneg (Int.le_of_lt hbase) hjitter
    exact i64_of_range (Int.le_trans (by decide) hpos) hfit
  rw [getRunnables_eq, hi]
  have hfetched := takeRunnables_fetched (baseAbstime + calloutTaskSchedJitter) n w hsorted
  have hnext := takeRunnables_next (baseAbstime + calloutTaskSchedJitter) n w
  refine ⟨hfetched, ?_⟩
  dsimp only
  rw [peekCurrentWakeupTime_eq, hfetched.timed, hnext]
  cases w.chronoTskQ.drop _ <;> rfl

/-- Three tasks due and room for two: the third waits at the head. -/
theorem getRunnables_due_room :
    let task : Task :=
      { status := .enqueued, execRefCount := 0, cancelRefCount := 0, hasArg := false
        hasFreeproc := false, doRepeat := false, isFirst := true, isInTimedQ := true
        isInBbq := false, initialDelayTime := 10, intervalTime := -1, lastAbstime := 0
        nextAbstime := 0 }
    let w : Callout (Fin 4) :=
      { task := fun e => { task with nextAbstime := 500 * (e.val + 2) }
        tskTbl := fun _ => some .enqueued, urgentTskQ := [], chronoTskQ := [0, 1, 2, 3]
        idleTskQ := [], wakeups := 0 }
    w.due 2000 = 3 ∧ (getRunnables w 1000 2).2 = ([0, 1], 2000) ∧
      (getRunnables w 1000 9).2 = ([0, 1, 2], 2500) ∧
      Fetched (min 2 (w.due (1000 + calloutTaskSchedJitter))) w (getRunnables w 1000 2).1
        (getRunnables w 1000 2).2.1 :=
  ⟨by decide, by decide, by decide,
    (getRunnables_due _ 1000 2 (by decide) (by decide) (by decide)).1⟩

end Callout
end Gallus
