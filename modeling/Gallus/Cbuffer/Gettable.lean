import Gallus.Cbuffer.Fatal

/-!
# What a wait for elements or room returns

`gallus_cbuffer_wait_gettable` and `gallus_cbuffer_wait_puttable` wait once and then report what the
buffer holds. Unlike the loops of `s_put_n` and `s_get_n` they do not look again.

* `Promised`: the result is an error, or the positive number of elements or rooms that are there.
* `foundReady`: who leaves its wait well finds something. `run_promised_iff`: the runs whose calls
  return as promised are the runs whose steps meet that.
* `returns_zero`: an element that another getter took first.
-/

namespace Gallus
namespace Cbuffer

variable {α : Type} {cb : Cbuffer α} {c : Call α}

/-- A wait for elements or room that is not told to return at once. -/
def Call.awaits : Call α → Bool
  | .waitGettable nsec | .waitPuttable nsec => decide (nsec ≠ 0)
  | _ => false

/-- What such a call waits for. -/
def Call.available (cb : Cbuffer α) : Call α → Int
  | .waitGettable _ => cb.nElements
  | .waitPuttable _ => cb.nMaxElements - cb.nElements
  | _ => 0

/-- An error, or the positive number of what is there. -/
def Promised (cb : Cbuffer α) (c : Call α) (ret : Result) : Prop :=
  ret < 0 ∨ 0 < ret ∧ ret = c.available cb

/-- A wait that ended otherwise than well ends in an error. -/
theorem leaveWait_neg (cb : Cbuffer α) (how : Wake)
    (h : (leaveWait cb how.result).2 ≠ Result.ok) : (leaveWait cb how.result).2 < 0 := by
  unfold leaveWait at *
  dsimp only at *
  split
  · split
    · exact (by decide : Result.wakeupRequested < 0)
    · exact (by decide : Result.notOperational < 0)
  · next hnot =>
    rw [if_neg hnot] at h
    cases how with
    | timedout => exact (by decide : Result.timedout < 0)
    | notified => exact absurd rfl h
    | spurious => exact absurd rfl h

/-- The first segment of such a call returns at once only if something is there. -/
theorem start_awaits [Zero α] (cb : Cbuffer α) (now : Chrono) (hc : c.awaits = true) :
    (start cb c now).cb = cb ∧
      ((0 < c.available cb ∧ (start cb c now).next = .done (c.available cb) 0 []) ∨
        ∃ cond t l, (start cb c now).next = .wait cond t l) := by
  cases c with
  | waitGettable nsec =>
    have hnsec : nsec ≠ 0 := of_decide_eq_true hc
    unfold start
    dsimp only
    by_cases hready : 0 < cb.nElements
    · rw [if_pos (.inl hready)]
      exact ⟨rfl, .inl ⟨hready, rfl⟩⟩
    · rw [if_neg (not_or.mpr ⟨hready, hnsec⟩)]
      exact ⟨rfl, .inr ⟨_, _, _, rfl⟩⟩
  | waitPuttable nsec =>
    have hnsec : nsec ≠ 0 := of_decide_eq_true hc
    unfold start
    dsimp only
    by_cases hready : 0 < cb.nMaxElements - cb.nElements
    · rw [if_pos (.inl hready)]
      exact ⟨rfl, .inl ⟨hready, rfl⟩⟩
    · rw [if_neg (not_or.mpr ⟨hready, hnsec⟩)]
      exact ⟨rfl, .inr ⟨_, _, _, rfl⟩⟩
  | _ => cases hc

/-- After its wait such a call returns, with what is there or with the error of the wait. -/
theorem resume_awaits (cb : Cbuffer α) (l : Local α) (ret : Result) (waitEnd now : Chrono)
    (hc : c.awaits = true) :
    (resume cb c l ret waitEnd now).next =
        .done (if (leaveWait cb ret).2 = Result.ok then c.available cb else (leaveWait cb ret).2)
          0 [] ∧
      c.available (resume cb c l ret waitEnd now).cb = c.available cb := by
  obtain ⟨n, b, k, heq⟩ := leaveWait_eq cb ret
  cases c with
  | waitGettable nsec =>
    unfold resume
    dsimp only [Segment.quiet, Call.available]
    rw [heq]
    exact ⟨rfl, rfl⟩
  | waitPuttable nsec =>
    unfold resume
    dsimp only [Segment.quiet, Call.available]
    rw [heq]
    exact ⟨rfl, rfl⟩
  | _ => cases hc

/-! ## The system -/

variable {κ : Type} {s s' : Calls κ α} {e : Event κ α} {es : List (Event κ α)}

/-- The call whose segment an event is. -/
def Event.caller : Event κ α → κ
  | .call k _ _ => k
  | .wake k _ _ _ => k

/-- The condition on the steps: a wait that ends well, with the flag of a wake-up clear, finds
something to get, or room to put. -/
def foundReady (s : Calls κ α) : Event κ α → Prop
  | .call _ _ _ => True
  | .wake k how _ _ => ∀ c cond since t l, s.pc k = .waiting c cond since t l → c.awaits = true →
      how.possible s.cb cond since t = true → how.result = Result.ok → s.cb.isAwakened = false →
      0 < c.available s.cb

variable [DecidableEq κ] [Zero α]

/-- A call that returns in this step returns as promised. -/
def returnsPromised (s : Calls κ α) (e : Event κ α) : Prop :=
  ∀ s' c ret n buf, step s e = some s' → s'.pc e.caller = .returned c ret n buf →
    c.awaits = true → Promised s'.cb c ret

omit [Zero α] in
theorem commit_returned {k : κ} {seg : Segment α} {c' : Call α} {ret : Result} {n : Nat}
    {buf : List α} (h : (commit s k c seg).pc k = .returned c' ret n buf) :
    c' = c ∧ seg.next = .done ret n buf := by
  unfold commit at h
  dsimp only at h
  rw [Function.update_self] at h
  split at h
  · cases h
  · next hnext =>
    cases h
    exact ⟨rfl, hnext⟩

omit [Zero α] in
theorem commit_available (s : Calls κ α) (k : κ) (c c' : Call α) (seg : Segment α) :
    c'.available (commit s k c seg).cb = c'.available seg.cb := by
  obtain ⟨n, hcb⟩ := commit_cb s k c seg
  rw [hcb]
  cases c' <;> rfl

omit [Zero α] [DecidableEq κ] in
theorem Bounded.available (h : Bounded s.cb) (c : Call α) : 0 ≤ c.available s.cb := by
  cases c with
  | waitGettable nsec => exact h.1
  | waitPuttable nsec => exact Int.sub_nonneg_of_le h.2
  | _ => exact Int.le_refl 0

/-- **A step returns as promised exactly if it meets the condition.** -/
theorem returnsPromised_iff (h : Bounded s.cb) (e : Event κ α) :
    returnsPromised s e ↔ foundReady s e := by
  cases e with
  | call k c now =>
    refine ⟨fun _ => trivial, fun _ => ?_⟩
    intro s' c' ret n buf hs hret hc
    obtain ⟨_, _, _, heq, -, rfl⟩ | ⟨_, _, _, _, _, _, _, _, _, heq, -⟩ := step_cases hs
    · cases heq
      obtain ⟨rfl, hnext⟩ := commit_returned hret
      obtain ⟨hcb, ⟨hpos, hdone⟩ | ⟨_, _, _, hwait⟩⟩ := start_awaits s.cb now hc
      · rw [hdone] at hnext
        cases hnext
        refine .inr ⟨hpos, ?_⟩
        rw [commit_available, hcb]
      · rw [hwait] at hnext
        cases hnext
    · cases heq
  | wake k how waitEnd now =>
    constructor
    · intro hprom c cond since t l hpc hc hhow hok hflag
      have hs : step s (.wake k how waitEnd now) =
          some (commit s k c (resume s.cb c l how.result waitEnd now)) := by
        unfold step
        dsimp only
        rw [hpc]
        dsimp only
        rw [if_pos hhow]
      obtain ⟨hnext, -⟩ := resume_awaits s.cb l how.result waitEnd now hc
      rw [if_pos ((leaveWait_ok_iff s.cb how.result).mpr ⟨hok, hflag⟩)] at hnext
      have hret : (commit s k c (resume s.cb c l how.result waitEnd now)).pc k =
          .returned c (c.available s.cb) 0 [] := by
        unfold commit
        dsimp only
        rw [Function.update_self, hnext]
      rcases hprom _ _ _ _ _ hs hret hc with hneg | ⟨hpos, -⟩
      · exact absurd hneg (Int.not_lt.mpr (h.available c))
      · exact hpos
    · intro hready s' c' ret n buf hs hret hc
      obtain ⟨_, _, _, heq, -⟩ |
        ⟨k, c, cond, since, t, l, how, waitEnd, now, heq, hpc, hhow, rfl⟩ := step_cases hs
      · cases heq
      · cases heq
        obtain ⟨rfl, hnext⟩ := commit_returned hret
        obtain ⟨hdone, hsame⟩ := resume_awaits s.cb l how.result waitEnd now hc
        rw [hdone] at hnext
        cases hnext
        rw [Promised, commit_available, hsame]
        by_cases hok : (leaveWait s.cb how.result).2 = Result.ok
        · rw [if_pos hok]
          obtain ⟨hret', hflag⟩ := (leaveWait_ok_iff s.cb how.result).mp hok
          exact .inr ⟨hready c' cond since t l hpc hc hhow hret' hflag, rfl⟩
        · rw [if_neg hok]
          exact .inl (leaveWait_neg s.cb how hok)

/-- **The waits of a run return as promised exactly if each of them that ends well finds
something.** A fresh buffer of any capacity, and any calls in any interleaving. -/
theorem run_promised_iff {mallocOk : Nat → Bool} {junk : Nat → α} {elemsize : Nat} {maxelems : Int}
    {hasDelProc : Bool}
    (hcreate : createWithSize mallocOk junk elemsize maxelems hasDelProc = (Result.ok, some cb)) :
    Trans.Run step returnsPromised (Calls.init cb : Calls κ α) es s ↔
      Trans.Run step foundReady (Calls.init cb) es s :=
  Trans.Run.iff_of_steps (I := fun s => Bounded s.cb)
    (fun _ _ _ h _ hs => (counted_step hs).2 h) (fun _ e h => returnsPromised_iff h e)
    (bounded_createWithSize hcreate)

omit [Zero α] [DecidableEq κ] in
/-- A getter that waits, and the put that ends its wait. -/
theorem run_promised_iff_put :
    ∃ (cb : Cbuffer Nat) (s : Calls (Fin 2) Nat),
      createWithSize (fun _ => true) (fun _ => 0) 8 4 false = (Result.ok, some cb) ∧
      Trans.Run step returnsPromised (Calls.init cb)
        [.call 0 (.waitGettable (-1)) 0, .call 1 (.putN [7] 8 0) 1, .wake 0 .notified 2 2] s ∧
      s.pc 0 = .returned (.waitGettable (-1)) 1 0 [] := by
  obtain ⟨cb, s, hcreate, hready, hpc⟩ : ∃ (cb : Cbuffer Nat) (s : Calls (Fin 2) Nat),
      createWithSize (fun _ => true) (fun _ => 0) 8 4 false = (Result.ok, some cb) ∧
      Trans.Run step foundReady (Calls.init cb)
        [.call 0 (.waitGettable (-1)) 0, .call 1 (.putN [7] 8 0) 1, .wake 0 .notified 2 2] s ∧
      s.pc 0 = .returned (.waitGettable (-1)) 1 0 [] := by
    refine ⟨_, _, rfl, .cons trivial rfl (.cons trivial rfl (.cons ?_ rfl (.nil _))), rfl⟩
    intro c cond since t l hpc hc hhow hok hflag
    cases hpc
    decide
  exact ⟨cb, s, hcreate, (run_promised_iff hcreate).mpr hready, hpc⟩

omit [Zero α] [DecidableEq κ] in
/-- The element that ends a wait is taken by another getter before the waiter runs. -/
theorem returns_zero :
    ∃ (cb : Cbuffer Nat) (s : Calls (Fin 3) Nat),
      createWithSize (fun _ => true) (fun _ => 0) 8 4 false = (Result.ok, some cb) ∧
      Trans.run step (Calls.init cb)
        [.call 0 (.waitGettable (-1)) 0, .call 1 (.putN [7] 8 0) 1,
          .call 2 (.getN 1 1 8 0 true) 2, .wake 0 .notified 3 3] = some s ∧
      s.pc 0 = .returned (.waitGettable (-1)) 0 0 [] ∧
      ¬Promised s.cb (.waitGettable (-1)) 0 := by
  refine ⟨_, _, rfl, rfl, rfl, ?_⟩
  rintro (hneg | ⟨hpos, -⟩)
  · exact absurd hneg (by decide)
  · exact absurd hpos (by decide)

end Cbuffer
end Gallus
