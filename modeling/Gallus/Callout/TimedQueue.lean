import Gallus.Callout.Task

/-!
# The timed queue stays sorted (`callout_queue.c`)

`TimedQ w` is the invariant of the timed queue: no task is in it twice, and the flag
`m_is_in_timed_q` tells exactly which tasks are. Each operation keeps it.

The order of insertions is not in the source's state, so `Stamped` adds it: every insertion gives
its task the next number. `timedQ_sorted` is the result over all runs: the queue is ordered by
`m_next_abstime`, tasks of equal times in the order of their insertions.
-/

namespace Gallus
namespace Callout

open StableQueue

variable {ι : Type} [DecidableEq ι] {w w' : Callout ι} {t e : ι}

/-! ## What the operations do to the queue -/

/-- The time of a task. -/
abbrev next (w : Callout ι) (e : ι) : Chrono := (w.task e).nextAbstime

/-- The flag of a task. -/
abbrev flag (w : Callout ι) (e : ι) : Bool := (w.task e).isInTimedQ

omit [DecidableEq ι] in
theorem insertByTime_eq (next : ι → Chrono) (t : ι) (q : List ι) :
    insertByTime next t q = insertAfter next t q := by
  cases q with
  | nil => rfl
  | cons e q =>
    simp only [insertByTime]
    split
    · rename_i hlt
      rw [insertAfter, if_neg (not_le_of_gt hlt)]
    · rfl

/-- A task that is not in the queue gets its time and a place; the others keep theirs. -/
theorem doSched_queue (w : Callout ι) (now : Chrono) (h : w.flag t = false) :
    let w' := (doSched w t now).1
    w'.chronoTskQ = insertAfter w'.next t w.chronoTskQ ∧ w'.flag t = true ∧
    ∀ e ≠ t, w'.task e = w.task e := by
  unfold doSched
  rw [if_pos h]
  dsimp only
  refine ⟨?_, by simp [flag], fun e he => by simp [he]⟩
  have hnext : ∀ w₁ w₂ : Callout ι, (∀ e, (w₁.task e).nextAbstime = (w₂.task e).nextAbstime) →
      insertAfter (fun e => (w₁.task e).nextAbstime) t w.chronoTskQ =
        insertAfter w₂.next t w.chronoTskQ :=
    fun w₁ w₂ he => congrArg (insertAfter · t w.chronoTskQ) (funext he)
  rw [insertByTime_eq]
  refine hnext _ _ fun e => ?_
  by_cases he : e = t
  · simp [he]
  · simp [he]

/-- A task that is in the queue stays where it is. -/
theorem doSched_of_not (w : Callout ι) (now : Chrono) (h : ¬ w.flag t = false) :
    doSched w t now = (w, -1) := by
  unfold doSched
  rw [if_neg h]

theorem doUnsched_of_not (w : Callout ι) (h : ¬ w.flag t = true) : doUnsched w t = w := by
  unfold doUnsched
  rw [if_neg h]

theorem doUnsched_queue (w : Callout ι) (h : w.flag t = true) :
    let w' := doUnsched w t
    w'.chronoTskQ = w.chronoTskQ.erase t ∧ w'.flag t = false ∧ w'.next t = w.next t ∧
    ∀ e ≠ t, w'.task e = w.task e := by
  unfold doUnsched
  rw [if_pos h]
  dsimp only
  split
  · exact ⟨rfl, by simp [flag], by simp [next], fun e he => by simp [he]⟩
  · exact ⟨rfl, by simp [flag], by simp [next], fun e he => by simp [he]⟩

theorem takeHead_queue (w : Callout ι) (t : ι) :
    let w' := takeHead w t
    w'.chronoTskQ = w.chronoTskQ.erase t ∧ w'.flag t = false ∧ w'.next t = w.next t ∧
    ∀ e ≠ t, w'.task e = w.task e := by
  unfold takeHead
  exact ⟨rfl, by simp [flag], by simp [next], fun e he => by simp [he]⟩

/-! ## The invariant -/

/-- No task is in the timed queue twice, and the flags tell which are in it. -/
structure TimedQ (w : Callout ι) : Prop where
  nodup : w.chronoTskQ.Nodup
  flag_iff : ∀ t, w.flag t = true ↔ t ∈ w.chronoTskQ

omit [DecidableEq ι] in
theorem TimedQ.flag_false (h : TimedQ w) : w.flag t = false ↔ t ∉ w.chronoTskQ := by
  rw [← h.flag_iff, Bool.not_eq_true]

/-- Removing one task, whatever else happens to its record. -/
theorem TimedQ.erase (h : TimedQ w) (hq : w'.chronoTskQ = w.chronoTskQ.erase t)
    (hf : w'.flag t = false) (ht : ∀ e ≠ t, w'.task e = w.task e) : TimedQ w' := by
  refine ⟨hq ▸ h.nodup.erase t, fun e => ?_⟩
  by_cases he : e = t
  · subst he
    simp [hf, hq, h.nodup.mem_erase_iff]
  · rw [flag, ht e he, hq, h.nodup.mem_erase_iff]
    exact (h.flag_iff e).trans ⟨fun hm => ⟨he, hm⟩, And.right⟩

theorem TimedQ.doSched (h : TimedQ w) (t : ι) (now : Chrono) : TimedQ (doSched w t now).1 := by
  by_cases hf : w.flag t = false
  · obtain ⟨hq, hf', ht⟩ := doSched_queue w now hf
    refine ⟨hq ▸ nodup_insertAfter (h.flag_false.mp hf) h.nodup, fun e => ?_⟩
    rw [hq, mem_insertAfter]
    by_cases he : e = t
    · simp [he, hf']
    · rw [flag, ht e he]
      exact (h.flag_iff e).trans ⟨.inr, fun hm => hm.resolve_left he⟩
  · rw [doSched_of_not w now hf]
    exact h

theorem TimedQ.doUnsched (h : TimedQ w) (t : ι) : TimedQ (doUnsched w t) := by
  by_cases hf : w.flag t = true
  · obtain ⟨hq, hf', -, ht⟩ := doUnsched_queue w hf
    exact h.erase hq hf' ht
  · rw [doUnsched_of_not w hf]
    exact h

theorem TimedQ.takeHead (h : TimedQ w) (t : ι) : TimedQ (takeHead w t) := by
  obtain ⟨hq, hf, -, ht⟩ := takeHead_queue w t
  exact h.erase hq hf ht

/-! ## Runs -/

/-- The module state with the insertions into the timed queue numbered. -/
structure Stamped (ι : Type) where
  w : Callout ι
  /-- The number of a task's last insertion. -/
  stamp : ι → Nat
  /-- The number of insertions so far. -/
  count : Nat

/-- A call on the timed queue. `edit` stands for what the rest of the source writes into a task
between the calls: everything the queue reads but the time and the flag, which only it writes. -/
inductive QueueOp (ι : Type)
  | sched (t : ι) (now : Chrono)
  | unsched (t : ι)
  | get
  | getRunnables (baseAbstime : Chrono) (n : Nat)
  | edit (t : ι) (status : TaskState) (doRepeat isFirst : Bool)
      (initialDelayTime intervalTime lastAbstime : Chrono)

/-- A call, which numbers the insertion it makes. -/
def Stamped.exec (s : Stamped ι) : QueueOp ι → Stamped ι
  | .sched t now =>
    if s.w.flag t = false then
      { w := (doSched s.w t now).1, stamp := Function.update s.stamp t s.count
        count := s.count + 1 }
    else { s with w := (doSched s.w t now).1 }
  | .unsched t => { s with w := doUnsched s.w t }
  | .get => { s with w := s.w.get.1 }
  | .getRunnables baseAbstime n => { s with w := (s.w.getRunnables baseAbstime n).1 }
  | .edit t status doRepeat isFirst initialDelayTime intervalTime lastAbstime =>
    { s with w := s.w.modTask t fun x =>
      { x with status, doRepeat, isFirst, initialDelayTime, intervalTime, lastAbstime } }

/-- The invariant of the timed queue with its order. -/
structure SortedQ (s : Stamped ι) : Prop extends TimedQ s.w where
  ordered : Ordered s.w.next s.stamp s.w.chronoTskQ
  older : ∀ e ∈ s.w.chronoTskQ, s.stamp e < s.count

variable {s : Stamped ι}

theorem SortedQ.erase (h : SortedQ s) (hq : w'.chronoTskQ = s.w.chronoTskQ.erase t)
    (hf : w'.flag t = false) (ht : ∀ e ≠ t, w'.task e = s.w.task e) :
    SortedQ { s with w := w' } := by
  refine ⟨h.toTimedQ.erase hq hf ht, ?_, fun e he => ?_⟩
  · show Ordered w'.next s.stamp w'.chronoTskQ
    rw [hq]
    refine (h.ordered.sublist List.erase_sublist).congr (fun e he => ?_) fun _ _ => rfl
    simp only [next, ht e (h.nodup.mem_erase_iff.mp he).1]
  · rw [hq] at he
    exact h.older e (List.mem_of_mem_erase he)

theorem SortedQ.sched (h : SortedQ s) (t : ι) (now : Chrono) : SortedQ (s.exec (.sched t now)) := by
  unfold Stamped.exec
  dsimp only
  split
  · rename_i hf
    obtain ⟨hq, -, ht⟩ := doSched_queue s.w now hf
    have hnot : t ∉ s.w.chronoTskQ := h.flag_false.mp hf
    have hne : ∀ e ∈ s.w.chronoTskQ, e ≠ t := fun e he het => hnot (het ▸ he)
    have hstamp : ∀ e ∈ s.w.chronoTskQ, Function.update s.stamp t s.count e = s.stamp e :=
      fun e he => Function.update_of_ne (hne e he) _ _
    refine ⟨h.doSched t now, ?_, fun e he => ?_⟩
    · show Ordered _ (Function.update s.stamp t s.count) (doSched s.w t now).1.chronoTskQ
      rw [hq]
      refine Ordered.insertAfter (h.ordered.congr (fun e he => ?_) hstamp) fun e he => ?_
      · simp only [next, ht e (hne e he)]
      · rw [hstamp e he, Function.update_self]
        exact h.older e he
    · rw [hq, mem_insertAfter] at he
      show Function.update s.stamp t s.count e < s.count + 1
      rcases he with rfl | he
      · rw [Function.update_self]
        exact Nat.lt_succ_self _
      · rw [hstamp e he]
        exact Nat.lt_succ_of_lt (h.older e he)
  · rename_i hf
    rw [doSched_of_not s.w now hf]
    exact h

theorem SortedQ.unsched (h : SortedQ s) (t : ι) : SortedQ (s.exec (.unsched t)) := by
  by_cases hf : s.w.flag t = true
  · obtain ⟨hq, hf', -, ht⟩ := doUnsched_queue s.w hf
    exact h.erase hq hf' ht
  · show SortedQ { s with w := doUnsched s.w t }
    rw [doUnsched_of_not s.w hf]
    exact h

theorem SortedQ.takeHead (h : SortedQ s) (t : ι) : SortedQ { s with w := takeHead s.w t } := by
  obtain ⟨hq, hf, -, ht⟩ := takeHead_queue s.w t
  exact h.erase hq hf ht

theorem SortedQ.takeRunnables (h : SortedQ s) (theAbstime : Chrono) (n : Nat) :
    SortedQ { s with w := (takeRunnables theAbstime n s.w).1 } := by
  induction n generalizing s with
  | zero => exact h
  | succ n ih =>
    unfold Callout.takeRunnables
    split
    · exact h
    · rename_i e q hq
      split
      · exact ih (h.takeHead e)
      · exact h

/-- Each call keeps the invariant. -/
theorem SortedQ.exec (h : SortedQ s) (op : QueueOp ι) : SortedQ (s.exec op) := by
  cases op with
  | sched t now => exact h.sched t now
  | unsched t => exact h.unsched t
  | get =>
    unfold Stamped.exec Callout.get
    dsimp only
    split
    · exact h
    · rename_i e q hq
      exact h.takeHead e
  | getRunnables baseAbstime n => exact h.takeRunnables _ n
  | edit t status doRepeat isFirst initialDelayTime intervalTime lastAbstime =>
    unfold Stamped.exec
    dsimp only
    generalize hf : (fun x : Task => { x with
      status, doRepeat, isFirst, initialDelayTime, intervalTime, lastAbstime }) = f
    have hfix : ∀ x, (f x).nextAbstime = x.nextAbstime ∧ (f x).isInTimedQ = x.isInTimedQ := by
      intro x
      subst hf
      exact ⟨rfl, rfl⟩
    have hsame : ∀ e, (s.w.modTask t f).next e = s.w.next e ∧
        (s.w.modTask t f).flag e = s.w.flag e := by
      intro e
      by_cases he : e = t
      · subst he
        simpa [next, flag] using hfix (s.w.task e)
      · simp [next, flag, he]
    refine ⟨⟨h.nodup, fun e => ?_⟩, ?_, h.older⟩
    · rw [(hsame e).2]
      exact h.flag_iff e
    · exact h.ordered.congr (fun e _ => (hsame e).1) fun _ _ => rfl

/-- **The timed queue.** After any calls on an empty queue, with any times: the queue is ordered by
`m_next_abstime` with equal times in the order of their insertions, no task is in it twice, and
`m_is_in_timed_q` holds of exactly the tasks in it. -/
theorem timedQ_sorted (s : Stamped ι) (hempty : s.w.chronoTskQ = [])
    (hflags : ∀ t, s.w.flag t = false) (ops : List (QueueOp ι)) :
    let s' := ops.foldl Stamped.exec s
    Ordered s'.w.next s'.stamp s'.w.chronoTskQ ∧ s'.w.chronoTskQ.Nodup ∧
    ∀ t, s'.w.flag t = true ↔ t ∈ s'.w.chronoTskQ := by
  have hinit : SortedQ s :=
    ⟨⟨by simp [hempty], fun t => by simp [hempty, hflags]⟩, by simp [hempty, Ordered],
      by simp [hempty]⟩
  have h : SortedQ (ops.foldl Stamped.exec s) :=
    List.foldlRecOn ops _ hinit fun _ h op _ => h.exec op
  exact ⟨h.ordered, h.nodup, h.flag_iff⟩

/-- Three tasks, two of them due at one time, and a task taken out and put back. -/
theorem timedQ_sorted_three :
    let task : Task :=
      { status := .created, execRefCount := 0, cancelRefCount := 0, hasArg := false
        hasFreeproc := false, doRepeat := false, isFirst := true, isInTimedQ := false
        isInBbq := false, initialDelayTime := 10, intervalTime := -1, lastAbstime := 0
        nextAbstime := 0 }
    let w : Callout (Fin 3) :=
      { task := fun _ => task, tskTbl := fun _ => some .created, urgentTskQ := []
        chronoTskQ := [], idleTskQ := [], wakeups := 0 }
    let ops : List (QueueOp (Fin 3)) :=
      [.sched 0 5, .sched 1 3, .sched 2 5, .unsched 0, .sched 0 5, .getRunnables (-987) 3]
    let s' := ops.foldl Stamped.exec ⟨w, fun _ => 0, 0⟩
    s'.w.chronoTskQ = [2, 0] ∧ Ordered s'.w.next s'.stamp s'.w.chronoTskQ :=
  ⟨by decide, (timedQ_sorted _ rfl (fun _ => rfl) _).1⟩

end Callout
end Gallus
