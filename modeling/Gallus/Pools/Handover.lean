import Gallus.Pools.Runner

/-!
# No accepted task is lost

`gallus_task_run` looks neither at the slot nor at whether the thread still runs, and the thread
empties the slot without a look at what is in it.

* `timely`: a task is put into an empty slot, and before the finalizer of the thread has looked at
  it.
* `nothing_lost`: in a run of timely steps no accepted task is executed twice, one that is neither
  executed nor marked is in the slot, where the thread finds it, and when the thread rests, there
  is none.
* `lost`: otherwise a task is overwritten before the thread has picked it, erased with its
  predecessor, or put before a thread that has ended.
-/

namespace Gallus
namespace Pools

variable {ι κ : Type} [DecidableEq ι] [DecidableEq κ]

/-- The thread looks at the slot again, at the latest in its finalizer. -/
def RunnerPoint.looksAgain : RunnerPoint ι → Bool
  | .halting _ _ | .halted _ _ | .done => false
  | _ => true

/-- A task is put into an empty slot that the thread looks at again. -/
def timely (s : Runner ι κ) : RunEvent ι κ → Prop
  | .caller k =>
    match s.caller k with
    | .attached _ => s.tsk = none ∧ s.point.looksAgain = true
    | _ => True
  | _ => True

instance (s : Runner ι κ) (e : RunEvent ι κ) : Decidable (timely s e) := by
  unfold timely
  split
  · split <;> infer_instance
  · infer_instance

/-- The thread has ended, or sleeps and nobody has notified it. -/
def Runner.resting (s : Runner ι κ) : Prop :=
  s.point = .done ∨ s.point = .waiting ∧ s.woken = false

instance (s : Runner ι κ) : Decidable s.resting := inferInstanceAs (Decidable (_ ∨ _))

variable {s s' : Runner ι κ} {k : κ} {t : ι}

/-! ## The invariant -/

/-- What holds of the slot where the thread is. -/
def RunnerPoint.Fits (tsk : Option ι) (cur : Option Nat) (l : Ledger) (woken : Bool) :
    RunnerPoint ι → Prop
  | .opening | .looking | .finished _ _ _ | .finalized _ _ _ => l.Untouched
  | .waiting => l.Untouched ∧ (woken = false → tsk = none)
  | .picked t _ | .declined t _ =>
    l.Untouched ∧ ∀ u, t = some u → tsk = some u ∧ cur = l.slot
  | .starting t | .running t _ _ => l.Untouched ∧ tsk = some t ∧ cur = l.slot
  | .inMain t _ _ | .ran t _ _ _ => tsk = some t ∧ ∀ n, l.slot = some n → l.executed n = 1
  | .exiting | .finalizing _ => True
  | .halting _ _ => cur = l.slot
  | .halted _ _ | .done => ∀ n, l.slot = some n → l.Settled n

/-- The ledger is kept, and the slot is as the thread expects it. -/
structure Handed (s : Runner ι κ) : Prop where
  kept : s.ledger.Kept
  got : s.isGotATask = s.tsk.isSome
  slot : s.ledger.slot.isSome = s.tsk.isSome
  fits : s.point.Fits s.tsk s.cur s.ledger s.woken

omit [DecidableEq ι] [DecidableEq κ] in
theorem Handed.slot_of_tsk (h : Handed s) (ht : s.tsk = some t) : ∃ n, s.ledger.slot = some n := by
  have := h.slot
  rw [ht] at this
  exact Option.isSome_iff_exists.mp this

omit [DecidableEq ι] [DecidableEq κ] in
theorem Handed.slot_none (h : Handed s) (ht : s.tsk = none) : s.ledger.slot = none := by
  have := h.slot
  rw [ht] at this
  exact Option.isSome_eq_false_iff.mp this |> Option.isNone_iff_eq_none.mp

/-! ## Calls of `gallus_task_run` -/

theorem Handed.hand (h : Handed s) (ht : s.tsk = none) (hp : s.point.looksAgain = true) :
    Handed (s.hand k t) := by
  have hnew := h.kept.untouched_accept
  have hfits := h.fits
  refine ⟨h.kept.accept (h.slot_none ht), rfl, rfl, ?_⟩
  show s.point.Fits (some t) s.cur s.ledger.accept
    (s.woken || decide (s.point = RunnerPoint.waiting))
  -- At a point with a task in hand the slot would not be empty.
  cases hpt : s.point with
  | opening => exact hnew
  | looking => exact hnew
  | waiting => exact ⟨hnew, by simp⟩
  | picked u _ =>
    rw [hpt] at hfits
    refine ⟨hnew, fun v hv => ?_⟩
    have := (hfits.2 v hv).1
    rw [ht] at this
    cases this
  | declined u _ =>
    rw [hpt] at hfits
    refine ⟨hnew, fun v hv => ?_⟩
    have := (hfits.2 v hv).1
    rw [ht] at this
    cases this
  | starting u =>
    rw [hpt, ht] at hfits
    cases hfits.2.1
  | running u _ _ =>
    rw [hpt, ht] at hfits
    cases hfits.2.1
  | inMain u _ _ =>
    rw [hpt, ht] at hfits
    cases hfits.1
  | ran u _ _ _ =>
    rw [hpt, ht] at hfits
    cases hfits.1
  | finished u _ _ => exact hnew
  | finalized u _ _ => exact hnew
  | exiting => trivial
  | finalizing _ => trivial
  | halting _ _ =>
    rw [hpt] at hp
    cases hp
  | halted _ _ =>
    rw [hpt] at hp
    cases hp
  | done =>
    rw [hpt] at hp
    cases hp

theorem Handed.callerStep (h : Handed s) (hok : timely s (.caller k))
    (hstep : s.callerStep k = some s') : Handed s' := by
  unfold Runner.callerStep at hstep
  simp only [timely] at hok
  split at hstep
  · cases hstep
  · split_ifs at hstep
    cases hstep
    exact ⟨h.kept, h.got, h.slot, h.fits⟩
  · next t hc =>
    cases hstep
    rw [hc] at hok
    exact h.hand hok.1 hok.2
  · cases hstep
    exact ⟨h.kept, h.got, h.slot, h.fits⟩

/-! ## The thread -/

omit [DecidableEq ι] [DecidableEq κ] in
/-- The thread goes on without touching the slot. -/
theorem Handed.move {p : RunnerPoint ι} {cur : Option Nat} {w : Bool} (h : Handed s)
    (hp : p.Fits s.tsk cur s.ledger w) :
    Handed { s with point := p, cur := cur, woken := w } :=
  ⟨h.kept, h.got, h.slot, hp⟩

omit [DecidableEq ι] [DecidableEq κ] in
theorem Handed.look (h : Handed s) (hu : s.ledger.Untouched) : Handed s.look := by
  unfold Runner.look
  split
  · next t hgot htsk =>
    refine ⟨h.kept, h.got, h.slot, hu, fun u hu' => ?_⟩
    cases hu'
    exact ⟨htsk, rfl⟩
  · next hnot =>
    split_ifs
    · exact ⟨h.kept, h.got, h.slot, hu, nofun⟩
    · refine ⟨h.kept, h.got, h.slot, hu, fun _ => ?_⟩
      -- The flag says whether the slot is empty.
      cases htsk : s.tsk with
      | none => rfl
      | some t =>
        have hgot := h.got
        rw [htsk] at hgot
        exact absurd htsk (hnot t hgot)

omit [DecidableEq ι] [DecidableEq κ] in
theorem Handed.choose {o : Option ι} {sd : Bool} (h : Handed s) (hpt : s.point = .picked o sd) :
    Handed (s.choose o sd) := by
  have hfits := h.fits
  rw [hpt] at hfits
  unfold Runner.choose
  split
  · next t =>
    split_ifs
    · exact ⟨h.kept, h.got, h.slot, hfits.1, hfits.2 t rfl⟩
    · exact ⟨h.kept, h.got, h.slot, hfits⟩
  · exact ⟨h.kept, h.got, h.slot, hfits⟩

omit [DecidableEq κ] in
theorem Handed.decline {o : Option ι} {sd : Bool} (h : Handed s)
    (hpt : s.point = .declined o sd) : Handed (s.decline o sd) := by
  have hfits := h.fits
  rw [hpt] at hfits
  unfold Runner.decline
  split_ifs
  · split
    · exact ⟨h.kept.stop, h.got, h.slot, trivial⟩
    · exact ⟨h.kept, h.got, h.slot, trivial⟩
    · exact ⟨h.kept, h.got, h.slot, trivial⟩
  · exact ⟨h.kept, h.got, h.slot, trivial⟩
  · exact ⟨h.kept, h.got, h.slot, hfits.1⟩

omit [DecidableEq ι] [DecidableEq κ] in
theorem Handed.callMain {ad ar : Bool} (h : Handed s) (hpt : s.point = .running t ad ar) :
    Handed (s.callMain t ad ar) := by
  have hfits := h.fits
  rw [hpt] at hfits
  obtain ⟨hu, htsk, hcur⟩ := hfits
  obtain ⟨n, hn⟩ := h.slot_of_tsk htsk
  unfold Runner.callMain
  rw [hcur, hn]
  refine ⟨h.kept.execute hn (hu n hn), h.got, h.slot, htsk, fun m hm => ?_⟩
  obtain rfl : n = m := Option.some.inj (hn.symm.trans hm)
  show Function.update s.ledger.executed n (s.ledger.executed n + 1) n = 1
  rw [Function.update_self, hu n hn]

omit [DecidableEq κ] in
theorem Handed.finish {ad ar : Bool} {r : Result} (h : Handed s)
    (hpt : s.point = .ran t ad ar r) : Handed (s.finish t ad ar r) := by
  have hfits := h.fits
  rw [hpt] at hfits
  exact ⟨h.kept.clear fun n hn => .inl (hfits.2 n hn), rfl, rfl, nofun⟩

omit [DecidableEq κ] in
theorem Handed.endRound {ad ar : Bool} (h : Handed s) (hpt : s.point = .finalized t ad ar) :
    Handed (s.endRound t ad ar) := by
  have hfits := h.fits
  rw [hpt] at hfits
  unfold Runner.endRound Runner.destroyTask
  split_ifs <;> exact ⟨h.kept, h.got, h.slot, hfits⟩

omit [DecidableEq ι] [DecidableEq κ] in
theorem Handed.lookBack (h : Handed s) (c : Bool) : Handed (s.lookBack c) := by
  refine ⟨h.kept, h.got, h.slot, ?_⟩
  unfold Runner.lookBack
  cases htsk : s.tsk with
  | some t => exact rfl
  | none =>
    intro n hn
    exact absurd ((h.slot_none htsk).symm.trans hn) nofun

omit [DecidableEq κ] in
theorem Handed.halt {c : Bool} (h : Handed s) (hpt : s.point = .halting t c) :
    Handed (s.halt t c) := by
  have hfits := h.fits
  rw [hpt] at hfits
  change s.cur = s.ledger.slot at hfits
  unfold Runner.halt
  rw [hfits]
  cases hn : s.ledger.slot with
  | none => exact ⟨h.kept, h.got, h.slot, fun n hn' => absurd (hn.symm.trans hn') nofun⟩
  | some n =>
    refine ⟨h.kept.stop, h.got, h.slot, fun m hm => ?_⟩
    obtain rfl : n = m := Option.some.inj (hn.symm.trans hm)
    exact Ledger.settled_stop

omit [DecidableEq κ] in
theorem Handed.runnerStep {r : Result} (h : Handed s) (hstep : s.runnerStep r = some s') :
    Handed s' := by
  unfold Runner.runnerStep at hstep
  have hfits := h.fits
  split at hstep
  · cases hstep
  · cases hstep
  · next hpt =>
    split_ifs at hstep
    cases hstep
    rw [hpt] at hfits
    exact h.look hfits
  · next hpt =>
    split_ifs at hstep
    cases hstep
    rw [hpt] at hfits
    exact h.look hfits.1
  · next o sd hpt =>
    cases hstep
    exact h.choose hpt
  · next o sd hpt =>
    cases hstep
    exact h.decline hpt
  · next t hpt =>
    split_ifs at hstep
    cases hstep
    rw [hpt] at hfits
    exact ⟨h.kept, h.got, h.slot, hfits⟩
  · next t ad ar hpt =>
    cases hstep
    exact h.callMain hpt
  · next t ad ar hpt =>
    cases hstep
    rw [hpt] at hfits
    exact h.move hfits
  · next t ad ar r hpt =>
    split_ifs at hstep
    cases hstep
    exact h.finish hpt
  · next t ad ar hpt =>
    cases hstep
    rw [hpt] at hfits
    exact ⟨h.kept, h.got, h.slot, hfits⟩
  · next t ad ar hpt =>
    cases hstep
    exact h.endRound hpt
  · cases hstep
    exact h.move trivial
  · next c hpt =>
    cases hstep
    exact h.lookBack c
  · next t c hpt =>
    cases hstep
    exact h.halt hpt
  · next t c hpt =>
    cases hstep
    rw [hpt] at hfits
    exact ⟨h.kept, h.got, h.slot, hfits⟩

/-! ## Steps and runs -/

/-- **A timely step loses nothing.** -/
theorem Handed.step {e : RunEvent ι κ} (h : Handed s) (hok : timely s e)
    (hstep : s.step e = some s') : Handed s' := by
  unfold Runner.step at hstep
  have hfits := h.fits
  split at hstep
  · split_ifs at hstep
    cases hstep
    unfold Runner.run
    split_ifs <;> exact ⟨h.kept, h.got, h.slot, hfits⟩
  · exact h.callerStep hok hstep
  · exact h.runnerStep hstep
  · split_ifs at hstep with hpt
    · cases hstep
      rw [hpt] at hfits
      exact h.move hfits
    · cases hstep
      exact h.move trivial
  · split_ifs at hstep with hpt
    cases hstep
    rw [hpt] at hfits
    exact h.move hfits.1
  · split_ifs at hstep with hpt
    cases hstep
    rw [hpt.1] at hfits
    exact h.move ⟨hfits.1, nofun⟩
  · cases hstep
    exact ⟨h.kept, h.got, h.slot, hfits⟩
  · split_ifs at hstep
    cases hstep
    refine ⟨h.kept, h.got, h.slot, ?_⟩
    show s.point.Fits s.tsk s.cur s.ledger _
    by_cases hpt : s.point = RunnerPoint.waiting
    · rw [hpt] at hfits ⊢
      exact ⟨hfits.1, by simp⟩
    · simpa [hpt] using hfits
  · split_ifs at hstep
    cases hstep
    exact ⟨h.kept, h.got, h.slot, hfits⟩
  · split_ifs at hstep
    cases hstep
    exact h.move trivial

omit [DecidableEq ι] [DecidableEq κ] in
theorem handed_setUp (b : Bool) : Handed (Runner.setUp b : Runner ι κ) :=
  ⟨Ledger.kept_empty, rfl, rfl, nofun⟩

omit [DecidableEq ι] [DecidableEq κ] in
/-- What the thread has left unsettled is in the slot, where it looks again. -/
theorem Handed.slot_of_unsettled {n : Nat} (h : Handed s) (hn : n < s.ledger.accepted)
    (hun : ¬s.ledger.Settled n) :
    s.ledger.slot = some n ∧ (s.point.looksAgain = true ∨ ∃ t c, s.point = .halting t c) := by
  have hslot : s.ledger.slot = some n := by
    by_contra hne
    exact hun (h.kept.settled n hn hne)
  have hfits := h.fits
  refine ⟨hslot, ?_⟩
  cases hpt : s.point with
  | halting t c => exact .inr ⟨t, c, rfl⟩
  | halted t c =>
    rw [hpt] at hfits
    exact absurd (hfits n hslot) hun
  | done =>
    rw [hpt] at hfits
    exact absurd (hfits n hslot) hun
  | _ => exact .inl rfl

omit [DecidableEq κ] in
/-- A thread that does not rest goes on, once no caller is in its region. -/
theorem Runner.goes_on (hrest : ¬s.resting) (hlck : s.lck = none) :
    s.point = .opening ∨ ∀ r, (s.runnerStep r).isSome = true := by
  by_cases hopen : s.point = .opening
  · exact .inl hopen
  · refine .inr fun r => ?_
    unfold Runner.runnerStep
    cases hpt : s.point with
    | opening => exact absurd hpt hopen
    | done => exact absurd (.inl hpt) hrest
    | waiting =>
      have hw : s.woken = true := by
        by_contra hne
        exact hrest (.inr ⟨hpt, by simpa using hne⟩)
      simp [hw, hlck]
    | _ => simp [hlck]

/-- **No accepted task is lost.** Where each task is put into an empty slot before the finalizer of
the thread has looked there, no accepted task is executed twice. One that has neither been executed
nor been marked as shut down, cancelled or halted is in the slot, and the thread will find it. When
the thread rests, there is none; until then it goes on. -/
theorem nothing_lost {b : Bool} {es : List (RunEvent ι κ)}
    (hrun : Trans.Run Runner.step timely (Runner.setUp b) es s) :
    (∀ n, s.ledger.executed n ≤ 1) ∧
      (∀ n, n < s.ledger.accepted → ¬s.ledger.Settled n →
        s.ledger.slot = some n ∧ (s.point.looksAgain = true ∨ ∃ t c, s.point = .halting t c)) ∧
      (s.resting → ∀ n, n < s.ledger.accepted → s.ledger.Settled n) ∧
      (¬s.resting → s.lck = none →
        s.point = .opening ∨ ∀ r, (s.runnerStep r).isSome = true) := by
  have h : Handed s := hrun.inv (fun _ _ _ hs hok hst => hs.step hok hst) (handed_setUp b)
  refine ⟨h.kept.once, fun n hn hun => h.slot_of_unsettled hn hun, fun hrest n hn => ?_,
    Runner.goes_on⟩
  by_contra hun
  obtain ⟨hslot, hagain⟩ := h.slot_of_unsettled hn hun
  rcases hrest with hpt | ⟨hpt, hw⟩
  · rw [hpt] at hagain
    rcases hagain with hagain | ⟨t, c, hagain⟩
    · cases hagain
    · cases hagain
  · have hfits := h.fits
    rw [hpt, hw] at hfits
    rw [h.slot_none (hfits.2 rfl)] at hslot
    cases hslot

/-- `k` hands the task `t` over, from the call to the return. -/
def handOver {ι κ : Type} (k : κ) (t : ι) : List (RunEvent ι κ) :=
  [.run k t 0, .caller k, .caller k, .caller k]

/-- The next `n` segments of the thread. -/
def goOn {ι κ : Type} (n : Nat) : List (RunEvent ι κ) := List.replicate n (.runner Result.ok)

/-- A task is executed, then another comes together with a shutdown. -/
def oneThenShutdown : List (RunEvent (Fin 2) (Fin 1)) :=
  .opened true :: handOver 0 0 ++ goOn 9 ++ handOver 0 1 ++ .shutdown :: goOn 7

/-- The first has been executed once, the second is marked as halted. -/
theorem nothing_lost_oneThenShutdown :
    ∃ s, Trans.run Runner.step (Runner.setUp true) oneThenShutdown = some s ∧
      s.ledger.accepted = 2 ∧ s.ledger.executed 0 = 1 ∧ (s.task 1).state = .halted ∧
      s.resting ∧ ∀ n, n < 2 → s.ledger.Settled n := by
  have hrun : ∃ s, Trans.run (Trans.guarded Runner.step timely) (Runner.setUp true)
      oneThenShutdown = some s ∧ s.ledger.accepted = 2 ∧ s.ledger.executed 0 = 1 ∧
      (s.task 1).state = .halted ∧ s.resting := ⟨_, rfl, rfl, rfl, rfl, .inl rfl⟩
  obtain ⟨s, hs, hacc, hexec, hst, hrest⟩ := hrun
  have hok := Trans.Run.of_guarded hs
  refine ⟨s, hok.run_eq, hacc, hexec, hst, hrest, fun n hn => ?_⟩
  exact (nothing_lost hok).2.2.1 hrest n (hacc.symm ▸ hn)

/-- A task that is accepted and then attached for ever: the next call overwrites it before the
thread has picked it; it comes while the thread executes another task, and is erased with that one;
it comes when the thread has ended. -/
theorem lost :
    (∃ s, Trans.run Runner.step (Runner.setUp true : Runner (Fin 2) (Fin 1))
        (handOver 0 0 ++ handOver 0 1 ++ .opened true :: goOn 9) = some s ∧
      s.resting ∧ s.ret 0 = Result.ok ∧ (s.task 0).state = .attached ∧ ¬s.ledger.Settled 0) ∧
    (∃ s, Trans.run Runner.step (Runner.setUp true : Runner (Fin 2) (Fin 1))
        (.opened true :: handOver 0 0 ++ goOn 4 ++ handOver 0 1 ++ goOn 5) = some s ∧
      s.resting ∧ s.ret 0 = Result.ok ∧ (s.task 1).state = .attached ∧ ¬s.ledger.Settled 1) ∧
    ∃ s, Trans.run Runner.step (Runner.setUp true : Runner (Fin 2) (Fin 1))
        (.opened true :: .shutdown :: goOn 5 ++ handOver 0 0) = some s ∧
      s.resting ∧ s.ret 0 = Result.ok ∧ (s.task 0).state = .attached ∧ ¬s.ledger.Settled 0 :=
  ⟨⟨_, rfl, .inr ⟨rfl, rfl⟩, rfl, rfl, by decide⟩, ⟨_, rfl, .inr ⟨rfl, rfl⟩, rfl, rfl, by decide⟩,
    ⟨_, rfl, .inl rfl, rfl, rfl, by decide⟩⟩

end Pools
end Gallus
