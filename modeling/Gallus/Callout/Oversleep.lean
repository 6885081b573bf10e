import Gallus.Callout.MainLoop
import Gallus.Cbuffer.Awakened

/-!
# When the main loop oversleeps

The loop computes its timeout from a clock reading at the beginning of its round and from a look at
the timed queue, and a wake-up reaches it only once it waits.

* `MainLoop.oversleeps`: the loop waits, the wait ends after the time of the first timed task or
  never, and no wake-up is pending that ends it.
* `punctual`: what a step must find for the loop not to oversleep. The loop falls asleep with an
  idle interval that is not negative, and `MainLoop.inTime` for the head of the queue; and the flag
  `m_is_awakened` of an earlier wake-up is not left when a task comes before the end of the wait.
* `never_oversleeps_punctual`: a run is free of oversleeping exactly if its steps are punctual.
* `oversleeps_each`: one run for each part of `punctual`.
-/

namespace Gallus
namespace Callout

open Cbuffer StableQueue

variable {ι : Type} [DecidableEq ι] [Zero ι]

/-- A wake-up that will end the wait: the loop has been notified since the wait began, or a
submission is about to wake it, and will not find it already awakened. -/
def MainLoop.wakePending (s : MainLoop ι) (since : Nat) : Prop :=
  since < s.urgent.condGet ∨ s.qLck = .waking ∧ s.urgent.isAwakened = false

/-- The loop waits past the time of the first timed task. -/
def MainLoop.oversleeps (s : MainLoop ι) : Prop :=
  ∃ dl since nsec l e, s.point = .waiting dl since nsec l ∧ s.q.w.chronoTskQ.head? = some e ∧
    (∀ d, dl = some d → s.q.w.next e < d) ∧ ¬s.wakePending since

/-- The loop falls asleep in time for `e`: the idle interval is over before, or the time from the
reading of the clock to the time that the loop has looked up. -/
def MainLoop.inTime (s : MainLoop ι) (now nextWakeup : Chrono) (e : ι) : Prop :=
  0 ≤ s.idleInterval ∧
    (s.clock + s.idleInterval ≤ s.q.w.next e ∨ s.clock + i64 (nextWakeup - now) ≤ s.q.w.next e)

/-- Where the loop falls asleep, it does so in time for the head of the queue, unless a submission
is about to wake it. -/
def MainLoop.sleepsInTime (s : MainLoop ι) : LoopPoint ι → Prop
  | .settling now nextWakeup =>
    0 < i64 (nextWakeup - now) → s.idleInterval ≠ 0 → s.urgent.nElements ≤ 0 →
      (∀ e ∈ s.q.w.chronoTskQ.head?, s.inTime now nextWakeup e) ∨
        s.qLck = .waking ∧ s.urgent.isAwakened = false
  | _ => True

/-- A submission of `t` that has to end the loop's wait does not find the loop already awakened. -/
def MainLoop.findsAsleep (s : MainLoop ι) (t : ι) : LoopPoint ι → Prop
  | .waiting dl since _ _ =>
    s.urgent.condGet ≤ since → s.q.w.flag t = false →
      (∀ d ∈ dl, (s.q.exec (.sched t s.clock)).w.next t < d) → s.urgent.isAwakened = false
  | _ => True

/-- The condition on the steps. -/
def punctual (s : MainLoop ι) : LoopEvent ι → Prop
  | .loop _ => s.sleepsInTime s.point
  | .sched t => s.findsAsleep t s.point
  | _ => True

variable {s s' : MainLoop ι} {t : ι}

/-! ## The timed queue -/

section Timed

omit [Zero ι]

variable {q q' : Stamped ι} {dl : Option Chrono} {e : ι}

/-- No task is due before the end of the wait. -/
def Rests (q : Stamped ι) (dl : Option Chrono) : Prop :=
  ∀ e ∈ q.w.chronoTskQ, ∃ d ∈ dl, d ≤ q.w.next e

/-- Tasks have left the queue at most, and the times of the others are unchanged. -/
def Shrunk (q q' : Stamped ι) : Prop :=
  ∀ e ∈ q'.w.chronoTskQ, e ∈ q.w.chronoTskQ ∧ q'.w.next e = q.w.next e

omit [DecidableEq ι] in
theorem Rests.shrunk (h : Rests q dl) (hs : Shrunk q q') : Rests q' dl := by
  intro e he
  obtain ⟨hmem, hnext⟩ := hs e he
  rw [hnext]
  exact h e hmem

omit [DecidableEq ι] in
theorem SortedQ.head_le {a : ι} (h : SortedQ q) (ha : q.w.chronoTskQ.head? = some a)
    (he : e ∈ q.w.chronoTskQ) : q.w.next a ≤ q.w.next e := by
  obtain ⟨rest, hq⟩ := List.head?_eq_some_iff.mp ha
  have hord := h.ordered
  rw [hq] at he hord
  rcases List.mem_cons.mp he with rfl | he
  · exact le_refl _
  · rcases (List.pairwise_cons.mp hord).1 e he with hlt | ⟨heq, -⟩
    · exact le_of_lt hlt
    · exact le_of_eq heq

omit [DecidableEq ι] in
/-- The head decides. -/
theorem SortedQ.rests_iff (h : SortedQ q) :
    Rests q dl ↔ ∀ e ∈ q.w.chronoTskQ.head?, ∃ d ∈ dl, d ≤ q.w.next e := by
  constructor
  · exact fun hr e he => hr e (List.mem_of_mem_head? he)
  · intro hr e he
    cases ha : q.w.chronoTskQ.head? with
    | none =>
      rw [List.head?_eq_none_iff.mp ha] at he
      cases he
    | some a =>
      obtain ⟨d, hd, hle⟩ := hr a ha
      exact ⟨d, hd, le_trans hle (h.head_le ha he)⟩

theorem shrunk_erase {w : Callout ι} {t : ι} (hnodup : q.w.chronoTskQ.Nodup)
    (hq : w.chronoTskQ = q.w.chronoTskQ.erase t) (ht : ∀ e ≠ t, w.task e = q.w.task e) :
    Shrunk q { q with w := w } := by
  intro e he
  change e ∈ w.chronoTskQ at he
  rw [hq] at he
  obtain ⟨hne, hmem⟩ := hnodup.mem_erase_iff.mp he
  refine ⟨hmem, ?_⟩
  show (w.task e).nextAbstime = (q.w.task e).nextAbstime
  rw [ht e hne]

theorem SortedQ.shrunk_unsched (h : SortedQ q) (t : ι) : Shrunk q (q.exec (.unsched t)) := by
  by_cases hf : q.w.flag t = true
  · obtain ⟨hq, -, -, ht⟩ := doUnsched_queue q.w hf
    exact shrunk_erase h.nodup hq ht
  · show Shrunk q { q with w := doUnsched q.w t }
    rw [doUnsched_of_not q.w hf]
    exact fun e he => ⟨he, rfl⟩

theorem shrunk_edit {t : ι} {status : TaskState} {doRepeat isFirst : Bool}
    {initialDelayTime intervalTime lastAbstime : Chrono} :
    Shrunk q (q.exec
      (.edit t status doRepeat isFirst initialDelayTime intervalTime lastAbstime)) := by
  intro e he
  refine ⟨he, ?_⟩
  unfold Stamped.exec next
  by_cases het : e = t
  · subst het
    simp
  · simp [het]

theorem exec_sched_of {t : ι} {now : Chrono} (hf : q.w.flag t = false) :
    (q.exec (.sched t now)).w = (doSched q.w t now).1 := by
  show (if q.w.flag t = false then _ else _ : Stamped ι).w = _
  rw [if_pos hf]

/-- The task is in the queue then; the others are as before. -/
theorem mem_exec_sched {t : ι} {now : Chrono} (hf : q.w.flag t = false) :
    e ∈ (q.exec (.sched t now)).w.chronoTskQ ↔ e = t ∨ e ∈ q.w.chronoTskQ := by
  obtain ⟨hq, -⟩ := doSched_queue q.w now hf
  rw [exec_sched_of hf, hq, mem_insertAfter]

theorem rests_sched {t : ι} {now : Chrono} (hf : q.w.flag t = false) (h : Rests q dl)
    (ht : ∃ d ∈ dl, d ≤ (q.exec (.sched t now)).w.next t) : Rests (q.exec (.sched t now)) dl := by
  intro e he
  by_cases hne : e = t
  · exact hne ▸ ht
  · obtain ⟨-, -, hsame⟩ := doSched_queue q.w now hf
    have hnext : (q.exec (.sched t now)).w.next e = q.w.next e := by
      rw [exec_sched_of hf]
      exact congrArg Task.nextAbstime (hsame e hne)
    rw [hnext]
    exact h e (((mem_exec_sched hf).mp he).resolve_left hne)

end Timed

/-! ## The invariant -/

section Alert

omit [DecidableEq ι] [Zero ι]

/-- Whether the loop is a waiter of the urgent queue. -/
def LoopPoint.waiters : LoopPoint ι → Nat
  | .waiting _ _ _ _ => 1
  | _ => 0

/-- Whether a submission is. -/
def QLock.waiters : QLock ι → Nat
  | .putting _ _ _ => 1
  | _ => 0

/-- The loop does not oversleep, and what that rests on. -/
structure Alert (s : MainLoop ι) : Prop where
  sorted : SortedQ s.q
  operational : s.urgent.isOperational = true
  waiters : s.urgent.nWaiters = s.point.waiters + s.qLck.waiters
  rests : ∀ dl since nsec l, s.point = .waiting dl since nsec l →
    since ≤ s.urgent.condGet ∧ (s.wakePending since ∨ Rests s.q dl)

theorem Alert.not_oversleeps (h : Alert s) : ¬s.oversleeps := by
  rintro ⟨dl, since, nsec, l, e, hpoint, he, hlate, hpending⟩
  obtain ⟨-, hrests⟩ := h.rests dl since nsec l hpoint
  obtain ⟨d, hd, hle⟩ := (hrests.resolve_left hpending) e (List.mem_of_mem_head? he)
  exact absurd (hlate d hd) (not_lt_of_ge hle)

/-- A loop that does not wait. -/
theorem Alert.of_awake (hsorted : SortedQ s.q) (hop : s.urgent.isOperational = true)
    (hpoint : s.point.waiters = 0) (hw : s.urgent.nWaiters = s.qLck.waiters) : Alert s := by
  refine ⟨hsorted, hop, by rw [hpoint, hw, Nat.zero_add], fun dl since nsec l h => ?_⟩
  rw [h] at hpoint
  cases hpoint

theorem Alert.waiters_awake (h : Alert s) (hpoint : s.point.waiters = 0) :
    s.urgent.nWaiters = s.qLck.waiters := by
  rw [h.waiters, hpoint, Nat.zero_add]

/-! ### The loop -/

/-- After its wait the loop goes on or stops. -/
theorem waited_eq (s : MainLoop ι) (r : Result) :
    ∃ p : LoopPoint ι, p.waiters = 0 ∧ s.waited r = { s with point := p } := by
  unfold MainLoop.waited
  split_ifs
  · exact ⟨.stopped, rfl, rfl⟩
  · exact ⟨.top, rfl, rfl⟩

/-- The time the loop waits. -/
def MainLoop.timeout (s : MainLoop ι) (now nextWakeup : Chrono) : Chrono :=
  if s.idleInterval < i64 (nextWakeup - now) then s.idleInterval else i64 (nextWakeup - now)

/-- The wait ends in time for `e`. -/
theorem inTime_iff {now nextWakeup : Chrono} {e : ι} (hlt : 0 < i64 (nextWakeup - now)) :
    s.inTime now nextWakeup e ↔
      ∃ d ∈ deadline s.clock (s.timeout now nextWakeup), d ≤ s.q.w.next e := by
  unfold MainLoop.inTime deadline MainLoop.timeout
  generalize i64 (nextWakeup - now) = left at hlt ⊢
  by_cases hneg : s.idleInterval < 0
  · have hidle : s.idleInterval < left := lt_trans hneg hlt
    rw [if_pos hidle, if_pos hneg]
    constructor
    · rintro ⟨hnonneg, -⟩
      exact absurd hneg (not_lt_of_ge hnonneg)
    · rintro ⟨d, hd, -⟩
      cases hd
  · have htimeout : ¬(if s.idleInterval < left then s.idleInterval else left) < 0 := by
      split_ifs <;> grind
    rw [if_neg htimeout]
    simp only [Option.mem_some_iff, exists_eq_left']
    split_ifs <;> grind

/-- The loop falls asleep. -/
def MainLoop.asleep (s : MainLoop ι) (now nextWakeup : Chrono) : MainLoop ι :=
  { s with
    urgent := enterWait s.urgent .get
    point := .waiting (deadline s.clock (s.timeout now nextWakeup)) s.urgent.condGet
      (s.timeout now nextWakeup) (.init (s.timeout now nextWakeup) s.clock) }

theorem timeout_eq_zero {now nextWakeup : Chrono} (hlt : 0 < i64 (nextWakeup - now)) :
    s.timeout now nextWakeup = 0 ↔ s.idleInterval = 0 := by
  unfold MainLoop.timeout
  split_ifs <;> grind

theorem settle_asleep [Zero ι] {now nextWakeup : Chrono} (hlt : 0 < i64 (nextWakeup - now))
    (hidle : s.idleInterval ≠ 0) (hempty : s.urgent.nElements ≤ 0) :
    s.settle now nextWakeup = s.asleep now nextWakeup := by
  have hwait : ¬(0 < s.urgent.nElements ∨ s.timeout now nextWakeup = 0) := by
    rintro (hpos | hzero)
    · exact absurd hpos (not_lt.mpr hempty)
    · exact hidle ((timeout_eq_zero hlt).mp hzero)
  have hstart : start s.urgent (.waitGettable (s.timeout now nextWakeup)) s.clock =
      .quiet s.urgent (.wait .get (s.timeout now nextWakeup)
        (.init (s.timeout now nextWakeup) s.clock)) := if_neg hwait
  unfold MainLoop.settle MainLoop.asleep
  rw [if_pos hlt]
  simp only [MainLoop.timeout] at hstart ⊢
  simp only [hstart]
  rfl

theorem settle_awake [Zero ι] {now nextWakeup : Chrono}
    (hnot : ¬(0 < i64 (nextWakeup - now) ∧ s.idleInterval ≠ 0 ∧ s.urgent.nElements ≤ 0)) :
    ∃ p : LoopPoint ι, p.waiters = 0 ∧ s.settle now nextWakeup = { s with point := p } := by
  unfold MainLoop.settle
  by_cases hlt : 0 < i64 (nextWakeup - now)
  · rw [if_pos hlt]
    have hdone : 0 < s.urgent.nElements ∨ s.timeout now nextWakeup = 0 := by
      by_cases hpos : 0 < s.urgent.nElements
      · exact .inl hpos
      · refine .inr ((timeout_eq_zero hlt).mpr ?_)
        exact of_not_not fun hidle => hnot ⟨hlt, hidle, not_lt.mp hpos⟩
    have hstart : start s.urgent (.waitGettable (s.timeout now nextWakeup)) s.clock =
        .quiet s.urgent (.done s.urgent.nElements 0 []) := if_pos hdone
    simp only [MainLoop.timeout] at hstart
    simp only [hstart]
    exact waited_eq _ _
  · rw [if_neg hlt]
    exact ⟨.top, rfl, rfl⟩

theorem Alert.settle [DecidableEq ι] [Zero ι] {now nextWakeup : Chrono} {r : Result} (h : Alert s)
    (hpoint : s.point = .settling now nextWakeup) (hok : punctual s (.loop r)) :
    Alert (s.settle now nextWakeup) := by
  have hw := h.waiters_awake (by rw [hpoint]; rfl)
  by_cases hsleep : 0 < i64 (nextWakeup - now) ∧ s.idleInterval ≠ 0 ∧ s.urgent.nElements ≤ 0
  · obtain ⟨hlt, hidle, hempty⟩ := hsleep
    rw [settle_asleep hlt hidle hempty]
    refine ⟨h.sorted, h.operational, ?_, ?_⟩
    · show s.urgent.nWaiters + 1 = 1 + s.qLck.waiters
      rw [hw, Nat.add_comm]
    · rintro dl since nsec l ⟨⟩
      refine ⟨Nat.le_refl _, ?_⟩
      unfold punctual at hok
      rw [hpoint] at hok
      rcases hok hlt hidle hempty with hhead | hpending
      · exact .inr (h.sorted.rests_iff.mpr fun e he => (inTime_iff hlt).mp (hhead e he))
      · exact .inl (.inr hpending)
  · obtain ⟨p, hp, heq⟩ := settle_awake hsleep
    rw [heq]
    exact .of_awake h.sorted h.operational hp hw

theorem Alert.idle {now : Chrono} {r : Result} (h : Alert s) (hpoint : s.point = .idling now) :
    Alert (s.idle now r) := by
  have hw := h.waiters_awake (by rw [hpoint]; rfl)
  unfold MainLoop.idle
  split_ifs <;> exact .of_awake h.sorted h.operational rfl hw

theorem Alert.peek {now : Chrono} (h : Alert s) (hpoint : s.point = .peeking now) :
    Alert (s.peek now) := by
  have hw := h.waiters_awake (by rw [hpoint]; rfl)
  unfold MainLoop.peek
  dsimp only
  split_ifs <;> exact .of_awake h.sorted h.operational rfl hw

/-- A segment of the loop. -/
theorem Alert.loopStep [DecidableEq ι] [Zero ι] {r : Result} (h : Alert s)
    (hok : punctual s (.loop r)) (hs : s.loopStep r = some s') : Alert s' := by
  unfold MainLoop.loopStep at hs
  split at hs
  · next hpoint =>
    cases hs
    exact .of_awake h.sorted h.operational rfl (h.waiters_awake (by rw [hpoint]; rfl))
  · next now hpoint =>
    split at hs
    · cases hs
    · cases hs
      have hserved := served_getNow s.urgent calloutTaskMax sizeofTask true
      refine .of_awake h.sorted (hserved.isOperational.trans h.operational) rfl ?_
      exact hserved.nWaiters.trans (h.waiters_awake (by rw [hpoint]; rfl))
  · next now hpoint =>
    split at hs
    · cases hs
      refine .of_awake ?_ h.operational rfl (h.waiters_awake (by rw [hpoint]; rfl))
      show SortedQ (if 0 < now then s.q.exec (.getRunnables now calloutTaskMax) else s.q)
      split_ifs
      · exact h.sorted.exec _
      · exact h.sorted
    · cases hs
  · next now hpoint =>
    cases hs
    exact h.idle hpoint
  · next now hpoint =>
    split at hs
    · cases hs
      exact h.peek hpoint
    · cases hs
  · next now nextWakeup hpoint =>
    cases hs
    exact h.settle hpoint hok
  · cases hs
  · cases hs

/-- The end of the loop's wait. -/
theorem Alert.wakeUp {dl : Option Chrono} {since : Nat} {nsec : Chrono} {l : Local ι} {how : Wake}
    (h : Alert s) (hpoint : s.point = .waiting dl since nsec l) : Alert (s.wakeUp nsec l how) := by
  obtain ⟨hop, hw, -⟩ := leaveWait_words s.urgent how.result
  have hwaiters : s.urgent.nWaiters = 1 + s.qLck.waiters := by
    rw [h.waiters, hpoint]
    rfl
  unfold MainLoop.wakeUp resume
  dsimp only
  generalize leaveWait s.urgent how.result = out at hop hw
  obtain ⟨cb, ret⟩ := out
  obtain ⟨p, hp, heq⟩ := waited_eq { s with urgent := cb }
    (if ret = Result.ok then cb.nElements else ret)
  simp only [Segment.quiet]
  rw [heq]
  refine .of_awake h.sorted (hop.trans h.operational) hp ?_
  show cb.nWaiters = s.qLck.waiters
  rw [hw, hwaiters, Nat.add_sub_cancel_left]

/-! ### The submissions -/

/-- Tasks leave the timed queue. -/
theorem Alert.shrunk {q : Stamped ι} (h : Alert s) (hq : SortedQ q) (hs : Shrunk s.q q) :
    Alert { s with q := q } := by
  refine ⟨hq, h.operational, h.waiters, fun dl since nsec l hpoint => ?_⟩
  obtain ⟨hsince, hrests⟩ := h.rests dl since nsec l hpoint
  exact ⟨hsince, hrests.imp id fun hr => hr.shrunk hs⟩

/-- The urgent queue is used while nobody is about to wake the loop. -/
theorem Alert.urgent {cb : Cbuffer ι} {lck : QLock ι} (h : Alert s) (hlck : s.qLck ≠ .waking)
    (hop : cb.isOperational = true) (hget : s.urgent.condGet ≤ cb.condGet)
    (hw : cb.nWaiters + s.qLck.waiters = s.urgent.nWaiters + lck.waiters) :
    Alert { s with urgent := cb, qLck := lck } := by
  refine ⟨h.sorted, hop, ?_, fun dl since nsec l hpoint => ?_⟩
  · have hwaiters := h.waiters
    show cb.nWaiters = s.point.waiters + lck.waiters
    omega
  · obtain ⟨hsince, hrests⟩ := h.rests dl since nsec l hpoint
    refine ⟨Nat.le_trans hsince hget, hrests.imp (fun hpending => ?_) id⟩
    rcases hpending with hlt | ⟨hwaking, -⟩
    · exact .inl (Nat.lt_of_lt_of_le hlt hget)
    · exact absurd hwaking hlck

theorem Alert.sched [DecidableEq ι] (h : Alert s) (hfree : s.qLck = .free)
    (hok : punctual s (.sched t)) : Alert (s.sched t) := by
  unfold MainLoop.sched
  by_cases hf : s.q.w.flag t = false
  · rw [if_pos hf]
    refine ⟨h.sorted.sched t s.clock, h.operational, ?_, fun dl since nsec l hpoint => ?_⟩
    · have hw := h.waiters
      rw [hfree] at hw
      exact hw
    · replace hpoint : s.point = .waiting dl since nsec l := hpoint
      obtain ⟨hsince, hrests⟩ := h.rests dl since nsec l hpoint
      refine ⟨hsince, ?_⟩
      by_cases hlt : since < s.urgent.condGet
      · exact .inl (.inl hlt)
      · have hr : Rests s.q dl := by
          rcases hrests with (hlt' | ⟨hwaking, -⟩) | hr
          · exact absurd hlt' hlt
          · rw [hfree] at hwaking
            cases hwaking
          · exact hr
        by_cases hearly : ∃ d ∈ dl, d ≤ (s.q.exec (.sched t s.clock)).w.next t
        · exact .inr (rests_sched hf hr hearly)
        · -- The task is due before the end of the wait, so it must find the flag clear.
          unfold punctual at hok
          rw [hpoint] at hok
          refine .inl (.inr ⟨rfl, hok (not_lt.mp hlt) hf fun d hd => ?_⟩)
          exact lt_of_not_ge fun hle => hearly ⟨d, hd, hle⟩
  · rw [if_neg hf]
    exact h

theorem Alert.wakeup [Zero ι] (h : Alert s) (hwaking : s.qLck = .waking) :
    Alert { s with urgent := (start s.urgent (.wakeup 0) s.clock).cb, qLck := .free } := by
  obtain ⟨hop, hw, hle, hlt⟩ := wakeup_words s.urgent s.clock
  have hwaiters : s.urgent.nWaiters = s.point.waiters := by
    rw [h.waiters, hwaking]
    rfl
  refine ⟨h.sorted, hop.trans h.operational, hw.trans hwaiters, fun dl since nsec l hpoint => ?_⟩
  replace hpoint : s.point = .waiting dl since nsec l := hpoint
  obtain ⟨hsince, hrests⟩ := h.rests dl since nsec l hpoint
  refine ⟨Nat.le_trans hsince hle, ?_⟩
  rcases hrests with (hnotified | ⟨-, hawakened⟩) | hr
  · exact .inl (.inl (Nat.lt_of_lt_of_le hnotified hle))
  · have hpos : 0 < s.urgent.nWaiters := by
      rw [hwaiters, hpoint]
      exact Nat.one_pos
    exact .inl (.inl (Nat.lt_of_le_of_lt hsince (hlt hpos h.operational hawakened)))
  · exact .inr hr

/-- A submission's put of an urgent task, from the queue `cb` on, where the submission does not
count among the waiters. -/
theorem Alert.putNext {cb : Cbuffer ι} {seg : Segment ι} (h : Alert s) (hlck : s.qLck ≠ .waking)
    (hop : cb.isOperational = s.urgent.isOperational) (hget : cb.condGet = s.urgent.condGet)
    (hw : cb.nWaiters + s.qLck.waiters = s.urgent.nWaiters) (hseg : IoOk cb seg) :
    Alert (s.putNext t seg) := by
  obtain ⟨⟨hop', -, hw', hget', -⟩, hcond⟩ := hseg
  unfold MainLoop.putNext park
  cases hnext : seg.next with
  | wait cond nsec l =>
    have hcond := hcond cond nsec l hnext
    cases cond with
    | awakened => exact absurd rfl hcond
    | put =>
      refine h.urgent hlck (hop'.trans (hop.trans h.operational)) (hget ▸ hget') ?_
      show seg.cb.nWaiters + 1 + s.qLck.waiters = s.urgent.nWaiters + 1
      omega
    | get =>
      refine h.urgent hlck (hop'.trans (hop.trans h.operational)) (hget ▸ hget') ?_
      show seg.cb.nWaiters + 1 + s.qLck.waiters = s.urgent.nWaiters + 1
      omega
  | done r n vals =>
    refine h.urgent hlck ?_ ?_ ?_
    · exact hop'.trans (hop.trans h.operational)
    · exact hget ▸ hget'
    · show seg.cb.nWaiters + s.qLck.waiters = s.urgent.nWaiters + 0
      omega

theorem Alert.put [Zero ι] (h : Alert s) (hfree : s.qLck = .free) :
    Alert (s.putNext t (start s.urgent (.putN [t] sizeofTask (-1)) s.clock)) := by
  refine h.putNext (by simp [hfree]) rfl rfl ?_ (start_putN_io _ _ _ _ _)
  rw [hfree]
  rfl

theorem Alert.putWake {t' : ι} {since : Nat} {l : Local ι} (h : Alert s)
    (hputting : s.qLck = .putting t' since l) :
    Alert (s.putNext t
      (resume s.urgent (.putN [t] sizeofTask (-1)) l Result.ok s.clock s.clock)) := by
  obtain ⟨hop, hw, hget, -⟩ := leaveWait_words s.urgent Result.ok
  refine h.putNext (by simp [hputting]) hop hget ?_ (resume_io _ _ _ _ _ rfl).1
  have hwaiters : s.urgent.nWaiters = s.point.waiters + 1 := by
    rw [h.waiters, hputting]
    rfl
  rw [hw, hputting]
  show s.urgent.nWaiters - 1 + 1 = s.urgent.nWaiters
  omega

end Alert

/-! ## Runs -/

/-- **The step lemma.** -/
theorem Alert.step {ev : LoopEvent ι} (h : Alert s) (hok : punctual s ev)
    (hs : s.step ev = some s') : Alert s' := by
  cases ev with
  | tick d =>
    cases hs
    exact ⟨h.sorted, h.operational, h.waiters, h.rests⟩
  | loop r => exact h.loopStep hok hs
  | wake how =>
    simp only [MainLoop.step] at hs
    split at hs
    · next dl since nsec l hpoint =>
      cases how with
      | notified =>
        dsimp only at hs
        split_ifs at hs
        cases hs
        exact h.wakeUp hpoint
      | spurious =>
        cases hs
        exact h.wakeUp hpoint
      | timedout =>
        dsimp only at hs
        split_ifs at hs
        cases hs
        exact h.wakeUp hpoint
    · cases hs
  | sched t =>
    simp only [MainLoop.step] at hs
    split at hs
    · next hfree =>
      cases hs
      exact h.sched hfree hok
    · cases hs
  | wakeup =>
    simp only [MainLoop.step] at hs
    split at hs
    · next hwaking =>
      cases hs
      exact h.wakeup hwaking
    · cases hs
  | unsched t =>
    simp only [MainLoop.step] at hs
    split at hs
    · cases hs
      exact h.shrunk (h.sorted.unsched t) (h.sorted.shrunk_unsched t)
    · cases hs
  | edit t status doRepeat isFirst initialDelayTime intervalTime lastAbstime =>
    cases hs
    exact h.shrunk (h.sorted.exec _) shrunk_edit
  | put t =>
    simp only [MainLoop.step] at hs
    split at hs
    · next hfree =>
      cases hs
      exact h.put hfree
    · cases hs
  | putWake how =>
    simp only [MainLoop.step] at hs
    split at hs
    · next t since l hputting =>
      cases how with
      | notified =>
        dsimp only at hs
        split_ifs at hs
        cases hs
        exact h.putWake hputting
      | spurious =>
        cases hs
        exact h.putWake hputting
      | timedout => cases hs
    · cases hs

/-- Only a punctual step leaves the loop alert. -/
theorem Alert.punctual_of {ev : LoopEvent ι} (h : Alert s) (hs : s.step ev = some s')
    (hsafe : ¬s'.oversleeps) : punctual s ev := by
  cases ev with
  | loop r =>
    unfold punctual MainLoop.sleepsInTime
    dsimp only
    split
    · next now nextWakeup hpoint =>
      intro hlt hidle hempty
      simp only [MainLoop.step, MainLoop.loopStep, hpoint, settle_asleep hlt hidle hempty] at hs
      cases hs
      by_contra hlate
      obtain ⟨hhead, hpending⟩ := not_or.mp hlate
      simp only [not_forall] at hhead
      obtain ⟨e, he, hnot⟩ := hhead
      refine hsafe ⟨_, _, _, _, e, rfl, he, fun d hd => ?_, ?_⟩
      · exact lt_of_not_ge fun hle => hnot ((inTime_iff hlt).mpr ⟨d, hd, hle⟩)
      · rintro (hlt' | hwaking)
        · exact absurd hlt' (Nat.lt_irrefl _)
        · exact hpending hwaking
    · trivial
  | sched t =>
    unfold punctual MainLoop.findsAsleep
    dsimp only
    split
    · next dl since nsec l hpoint =>
      intro hsince hf hlate
      simp only [MainLoop.step] at hs
      split at hs
      · cases hs
        by_contra hawakened
        have hsorted := h.sorted.sched t s.clock
        have ht : t ∈ (s.q.exec (.sched t s.clock)).w.chronoTskQ :=
          (mem_exec_sched hf).mpr (.inl rfl)
        have hsched : s.sched t = { s with q := s.q.exec (.sched t s.clock), qLck := .waking } := by
          unfold MainLoop.sched
          rw [if_pos hf]
        rw [hsched] at hsafe
        cases ha : (s.q.exec (.sched t s.clock)).w.chronoTskQ.head? with
        | none =>
          rw [List.head?_eq_none_iff.mp ha] at ht
          cases ht
        | some a =>
          refine hsafe ⟨dl, since, nsec, l, a, hpoint, ha, fun d hd => ?_, ?_⟩
          · exact lt_of_le_of_lt (hsorted.head_le ha ht) (hlate d hd)
          · rintro (hlt | ⟨-, hclear⟩)
            · exact absurd hlt (Nat.not_lt.mpr hsince)
            · exact hawakened hclear
      · cases hs
    · trivial
  | _ => trivial

/-- **The main loop oversleeps exactly where a step is not punctual.** For every configuration that
`gallus_callout_initialize_handler` accepts and every interleaving: the loop never waits past the
time of the first timed task without a wake-up pending if and only if every step is punctual. -/
theorem never_oversleeps_punctual {mallocOk : Nat → Bool} {junk : Nat → ι} {urgent : Cbuffer ι}
    {es : List (LoopEvent ι)} (hasIdleProc : Bool) (interval clock : Chrono) (q : Stamped ι)
    (hempty : q.w.chronoTskQ = []) (hflags : ∀ t, q.w.flag t = false)
    (hurgent : createWithSize mallocOk junk sizeofTask calloutTaskMax true =
      (Result.ok, some urgent))
    (hinit : MainLoop.initializeHandler hasIdleProc interval clock q urgent = some s)
    (hrun : Trans.run MainLoop.step s es = some s') :
    (∀ es₁ s₁, es₁ <+: es → Trans.run MainLoop.step s es₁ = some s₁ → ¬s₁.oversleeps) ↔
      Trans.Run MainLoop.step punctual s es s' := by
  have hs : Alert s := by
    have hsorted : SortedQ q :=
      ⟨⟨by simp [hempty], fun t => by simp [hempty, hflags]⟩, by simp [hempty, Ordered],
        by simp [hempty]⟩
    unfold MainLoop.initializeHandler at hinit
    split_ifs at hinit
    cases hinit
    obtain ⟨hop, -, hw⟩ := createWithSize_words hurgent
    exact .of_awake hsorted hop rfl hw
  exact Trans.Run.iff_states (I := Alert) (fun _ _ _ h hok hst => h.step hok hst)
    (fun _ _ _ h hst hsafe => h.punctual_of hst hsafe) (fun _ h => h.not_oversleeps) hs hrun

/-! ## Fixed runs -/

instance (lck : QLock ι) : Decidable (lck = .waking) :=
  match lck with
  | .waking => .isTrue rfl
  | .free | .putting _ _ _ => .isFalse nofun

instance (s : MainLoop ι) (p : LoopPoint ι) : Decidable (s.sleepsInTime p) :=
  match p with
  | .settling now nextWakeup =>
    inferInstanceAs (Decidable (0 < i64 (nextWakeup - now) → s.idleInterval ≠ 0 →
      s.urgent.nElements ≤ 0 →
      (∀ e ∈ s.q.w.chronoTskQ.head?, 0 ≤ s.idleInterval ∧
        (s.clock + s.idleInterval ≤ s.q.w.next e ∨
          s.clock + i64 (nextWakeup - now) ≤ s.q.w.next e)) ∨
        s.qLck = .waking ∧ s.urgent.isAwakened = false))
  | .top | .fetching _ | .collecting _ | .idling _ | .peeking _ | .waiting _ _ _ _ | .stopped =>
    .isTrue trivial

instance (s : MainLoop ι) (t : ι) (p : LoopPoint ι) : Decidable (s.findsAsleep t p) :=
  match p with
  | .waiting dl since _ _ =>
    inferInstanceAs (Decidable (s.urgent.condGet ≤ since → s.q.w.flag t = false →
      (∀ d ∈ dl, (s.q.exec (.sched t s.clock)).w.next t < d) → s.urgent.isAwakened = false))
  | .top | .fetching _ | .collecting _ | .idling _ | .peeking _ | .settling _ _ | .stopped =>
    .isTrue trivial

instance (s : MainLoop ι) (ev : LoopEvent ι) : Decidable (punctual s ev) :=
  match ev with
  | .loop _ => inferInstanceAs (Decidable (s.sleepsInTime s.point))
  | .sched t => inferInstanceAs (Decidable (s.findsAsleep t s.point))
  | .tick _ | .wake _ | .wakeup | .unsched _ | .edit _ _ _ _ _ _ _ | .put _ | .putWake _ =>
    .isTrue trivial

/-- Before any submission; the task `t` has a delay of `t` nanoseconds. -/
def unused : Stamped Nat where
  w :=
    { task := fun t =>
        { status := .created, execRefCount := 0, cancelRefCount := 0, hasArg := false
          hasFreeproc := false, doRepeat := false, isFirst := true, isInTimedQ := false
          isInBbq := false, initialDelayTime := t, intervalTime := -1, lastAbstime := 0
          nextAbstime := 0 }
      tskTbl := fun _ => some .created, urgentTskQ := [], chronoTskQ := [], idleTskQ := []
      wakeups := 0 }
  stamp := fun _ => 0
  count := 0

/-- A run without an idle procedure from the time 5 on. -/
def outcome (interval : Chrono) (es : List (LoopEvent Nat)) : Option (MainLoop Nat) :=
  (createWithSize (fun _ => true) (fun _ => 0) sizeofTask calloutTaskMax true).2.bind fun urgent =>
    (MainLoop.initializeHandler false interval 5 unused urgent).bind fun s =>
      Trans.run MainLoop.step s es

def second : Nat := 1000000000

/-- The loop, from the beginning of a round to where it has looked up the time of the next one. -/
def lookUp : List (LoopEvent Nat) := List.replicate 5 (.loop Result.ok)

/-- A task is submitted while the loop waits; the loop wakes and waits for it. -/
def submitAsleep : List (LoopEvent Nat) :=
  lookUp ++ [.loop Result.ok, .sched second, .wakeup, .wake .notified] ++ lookUp ++
    [.loop Result.ok]

theorem never_oversleeps_submitAsleep :
    ∃ urgent s s', createWithSize (fun _ => true) (fun _ => 0) sizeofTask calloutTaskMax true =
        (Result.ok, some urgent) ∧
      MainLoop.initializeHandler false (5 * second) 5 unused urgent = some s ∧
      Trans.run MainLoop.step s submitAsleep = some s' ∧ s'.q.w.chronoTskQ = [second] ∧
      ∀ es₁ s₁, es₁ <+: submitAsleep → Trans.run MainLoop.step s es₁ = some s₁ →
        ¬s₁.oversleeps := by
  have hurgent : createWithSize (fun _ => true) (fun _ => 0) sizeofTask calloutTaskMax true =
      (Result.ok, some _) := rfl
  refine ⟨_, _, _, hurgent, rfl, rfl, rfl, ?_⟩
  exact (never_oversleeps_punctual false (5 * second) 5 unused rfl (fun _ => rfl) hurgent rfl
    rfl).mpr (.of_guarded rfl)

/-- No time limit for a negative idle interval; a submission between the look at the queue and the
wait; time that passes before the wait; a flag that a wait which timed out has left. -/
theorem oversleeps_each :
    (∃ s, outcome (-1) ([.sched second, .wakeup] ++ lookUp ++ [.loop Result.ok]) = some s ∧
      s.oversleeps) ∧
    (∃ s, outcome (5 * second) (lookUp ++ [.sched second, .wakeup, .loop Result.ok]) = some s ∧
      s.oversleeps) ∧
    (∃ s, outcome (5 * second)
        ([.sched second, .wakeup] ++ lookUp ++ [.tick 50, .loop Result.ok]) = some s ∧
      s.oversleeps) ∧
    ∃ s, outcome (5 * second)
        (lookUp ++
          [.loop Result.ok, .tick (5 * second), .sched (9 * second), .wakeup, .wake .timedout] ++
          lookUp ++ [.loop Result.ok, .sched second, .wakeup]) = some s ∧
      s.oversleeps := by
  refine ⟨⟨_, rfl, _, _, _, _, _, rfl, rfl, ?_, ?_⟩, ⟨_, rfl, _, _, _, _, _, rfl, rfl, ?_, ?_⟩,
    ⟨_, rfl, _, _, _, _, _, rfl, rfl, ?_, ?_⟩, ⟨_, rfl, _, _, _, _, _, rfl, rfl, ?_, ?_⟩⟩
  · exact nofun
  · unfold MainLoop.wakePending
    decide
  · rintro d ⟨⟩
    decide
  · unfold MainLoop.wakePending
    decide
  · rintro d ⟨⟩
    decide
  · unfold MainLoop.wakePending
    decide
  · rintro d ⟨⟩
    decide
  · unfold MainLoop.wakePending
    decide

end Callout
end Gallus
