import Gallus.Cbuffer.Awakened

/-!
# One move a segment

A lock-held segment touches the elements at most once: it puts, gets or peeks, clears or shuts
down, and beside that only keeps the books of the waiters.

* `Quiet` says that only these books differ.
* `Move` is the one thing, `Moved` that it is all that happened. `step_moved`: so it is with each
  segment, and a clear or a shutdown is one of the call of that name.
-/

namespace Gallus
namespace Cbuffer

variable {α : Type} {cb cb' cb'' : Cbuffer α}

/-! ## The books of the waiters -/

/-- Only the waiters, the flag and the notifications of condition variables differ. -/
def Quiet (cb cb' : Cbuffer α) : Prop :=
  ∃ n b p g a, cb' =
    { cb with nWaiters := n, isAwakened := b, condPut := p, condGet := g, condAwakened := a }

theorem Quiet.refl (cb : Cbuffer α) : Quiet cb cb := ⟨_, _, _, _, _, rfl⟩

theorem Quiet.trans (h : Quiet cb cb') (h' : Quiet cb' cb'') : Quiet cb cb'' := by
  obtain ⟨_, _, _, _, _, rfl⟩ := h
  obtain ⟨_, _, _, _, _, rfl⟩ := h'
  exact ⟨_, _, _, _, _, rfl⟩

theorem quiet_leaveWait (cb : Cbuffer α) (ret : Result) : Quiet cb (leaveWait cb ret).1 := by
  obtain ⟨n, b, k, heq⟩ := leaveWait_eq cb ret
  rw [heq]
  exact ⟨_, _, _, _, _, rfl⟩

theorem quiet_notifyWaiters (cb : Cbuffer α) : Quiet cb (notifyWaiters cb) :=
  ⟨_, _, _, _, _, rfl⟩

/-! ## The moves -/

/-- What a segment does to the elements. -/
inductive Move (α : Type)
  | none
  | copyin (vals : List α)
  | copyout (n : Nat) (doIncr : Bool)
  | clear (freeValues : Bool)
  | shutdown (freeValues : Bool)

/-- The record `cb'` after a move. Elements are put and got while the buffer is operational
only. -/
inductive Makes [Zero α] (cb : Cbuffer α) : Move α → Cbuffer α → Prop
  | none : Makes cb .none cb
  | copyin (vals : List α) (ho : cb.isOperational = true) :
    Makes cb (.copyin vals) (Cbuffer.copyin cb vals).1
  | copyout (n : Nat) (doIncr : Bool) (ho : cb.isOperational = true) :
    Makes cb (.copyout n doIncr) (Cbuffer.copyout cb n doIncr).1
  | clear (freeValues : Bool) : Makes cb (.clear freeValues) (Cbuffer.clear cb freeValues).1
  | shutdown (freeValues : Bool) : Makes cb (.shutdown freeValues) (Cbuffer.shutdown cb freeValues)

/-- The clear or the shutdown that a call is. -/
def Call.disposes : Call α → Option Bool × Option Bool
  | .clear freeValues => (some freeValues, none)
  | .shutdown freeValues => (none, some freeValues)
  | _ => (none, none)

def Move.disposes : Move α → Option Bool × Option Bool
  | .clear freeValues => (some freeValues, Option.none)
  | .shutdown freeValues => (Option.none, some freeValues)
  | _ => (Option.none, Option.none)

/-- The segment is the move `m` and keeps books. -/
def Moved [Zero α] (m : Move α) (cb cb' : Cbuffer α) : Prop :=
  ∃ cb₀ cb₁, Quiet cb cb₀ ∧ Makes cb₀ m cb₁ ∧ Quiet cb₁ cb'

variable [Zero α] {m : Move α}

theorem Moved.of_quiet (h : Quiet cb cb') : Moved .none cb cb' := ⟨cb', cb', h, .none, .refl cb'⟩

theorem Makes.moved (h : Makes cb m cb') : Moved m cb cb' := ⟨cb, cb', .refl cb, h, .refl cb'⟩

theorem Moved.after (h : Moved m cb' cb'') (hq : Quiet cb cb') : Moved m cb cb'' := by
  obtain ⟨cb₀, cb₁, hq₀, hmakes, hq₁⟩ := h
  exact ⟨cb₀, cb₁, hq.trans hq₀, hmakes, hq₁⟩

theorem Moved.before (h : Moved m cb cb') (hq : Quiet cb' cb'') : Moved m cb cb'' := by
  obtain ⟨cb₀, cb₁, hq₀, hmakes, hq₁⟩ := h
  exact ⟨cb₀, cb₁, hq₀, hmakes, hq₁.trans hq⟩

/-- A put, a get or a peek, or nothing. -/
def Transfers (cb cb' : Cbuffer α) : Prop := ∃ m : Move α, m.disposes = (Option.none, Option.none) ∧
  Moved m cb cb'

theorem Transfers.of_quiet (h : Quiet cb cb') : Transfers cb cb' := ⟨.none, rfl, .of_quiet h⟩

theorem Transfers.after (h : Transfers cb' cb'') (hq : Quiet cb cb') : Transfers cb cb'' := by
  obtain ⟨m, hm, hmoved⟩ := h
  exact ⟨m, hm, hmoved.after hq⟩

/-! ## The segments -/

theorem putRound_transfers (cb : Cbuffer α) (vals : List α) (l : Local α) (now : Chrono) :
    Transfers cb (putRound cb vals l now).cb := by
  cases hr : copyin cb (vals.drop (sizeT l.nCopy)) with
  | mk cb' n =>
    rw [putRound, hr]
    split_ifs with ho
    · have hmoved := (Makes.copyin (vals.drop (sizeT l.nCopy)) ho).moved
      rw [hr] at hmoved
      exact ⟨_, rfl, hmoved⟩
    · exact .of_quiet (.refl cb)

theorem getRound_transfers (cb : Cbuffer α) (nValsMax need : Nat) (b : Bool) (l : Local α)
    (now : Chrono) : Transfers cb (getRound cb nValsMax need b l now).cb := by
  unfold getRound
  split
  · next ho =>
    have hmoved := (Makes.copyout (sizeT (nValsMax - l.nCopy)) b ho).moved
    generalize copyout cb (sizeT (nValsMax - l.nCopy)) b = r at hmoved ⊢
    exact ⟨_, rfl, hmoved⟩
  · exact .of_quiet (.refl cb)

theorem putNow_transfers (cb : Cbuffer α) (vals : List α) (valsz : Nat) :
    Transfers cb (putNow cb vals valsz).1 := by
  cases hr : copyin cb vals with
  | mk cb' n =>
    rw [putNow, hr]
    split_ifs with _ _ ho
    · have hmoved := (Makes.copyin vals ho).moved
      rw [hr] at hmoved
      exact ⟨_, rfl, hmoved⟩
    · exact .of_quiet (.refl cb)
    · exact .of_quiet (.refl cb)
    · exact .of_quiet (.refl cb)

theorem getNow_transfers (cb : Cbuffer α) (nValsMax valsz : Nat) (b : Bool) :
    Transfers cb (getNow cb nValsMax valsz b).1 := by
  unfold getNow
  split_ifs with _ _ ho
  · exact ⟨_, rfl, (Makes.copyout nValsMax b ho).moved⟩
  · exact .of_quiet (.refl cb)
  · exact .of_quiet (.refl cb)
  · exact .of_quiet (.refl cb)

variable {c : Call α} {l : Local α}

theorem start_moved (cb : Cbuffer α) (c : Call α) (now : Chrono) :
    ∃ m : Move α, m.disposes = c.disposes ∧ Moved m cb (start cb c now).cb := by
  cases c with
  | putN vals valsz nsec =>
    by_cases hloop : valsz = cb.elementSize ∧ 0 < vals.length ∧ nsec ≠ 0
    · rw [start_putN_loop hloop]
      exact putRound_transfers _ _ _ _
    · rw [start_putN_now hloop]
      exact putNow_transfers cb vals valsz
  | getN nValsMax nAtLeast valsz nsec doIncr =>
    by_cases hloop : valsz = cb.elementSize ∧ 0 < nValsMax ∧ nsec ≠ 0
    · rw [start_getN_loop hloop]
      exact getRound_transfers _ _ _ _ _ _
    · rw [start_getN_now hloop]
      exact getNow_transfers cb nValsMax valsz doIncr
  | waitGettable nsec =>
    unfold start
    dsimp only
    split <;> exact Transfers.of_quiet (.refl cb)
  | waitPuttable nsec =>
    unfold start
    dsimp only
    split <;> exact Transfers.of_quiet (.refl cb)
  | wakeup nsec =>
    rw [(start_wakeup cb nsec now).1]
    split
    · exact Transfers.of_quiet (quiet_notifyWaiters cb)
    · exact Transfers.of_quiet (.refl cb)
  | clear freeValues => exact ⟨_, rfl, (Makes.clear freeValues).moved⟩
  | shutdown freeValues => exact ⟨_, rfl, (Makes.shutdown freeValues).moved⟩

theorem resume_transfers (cb : Cbuffer α) (c : Call α) (l : Local α) (ret : Result)
    (waitEnd now : Chrono) : Transfers cb (resume cb c l ret waitEnd now).cb := by
  have hquiet := quiet_leaveWait cb ret
  have hleave : Transfers cb (leaveWait cb ret).1 := .of_quiet hquiet
  cases c with
  | putN vals valsz nsec =>
    rw [resume_putN]
    split
    · split
      · exact (putRound_transfers _ _ _ _).after hquiet
      · exact hleave
    · exact hleave
  | getN nValsMax nAtLeast valsz nsec doIncr =>
    rw [resume_getN]
    split
    · split
      · exact (getRound_transfers _ _ _ _ _ _).after hquiet
      · exact hleave
    · exact hleave
  | waitGettable nsec => exact hleave
  | waitPuttable nsec => exact hleave
  | wakeup nsec =>
    unfold resume
    dsimp only
    split
    · rw [(wakeupRound_words cb nsec now).1]
      exact .of_quiet (.refl cb)
    · exact .of_quiet (.refl cb)
  | clear freeValues => exact .of_quiet (.refl cb)
  | shutdown freeValues => exact .of_quiet (.refl cb)

variable {κ : Type} [DecidableEq κ] {s s' : Calls κ α} {e : Event κ α}

/-- The clear or the shutdown that an event starts. -/
def Event.disposes : Event κ α → Option Bool × Option Bool
  | .call _ c _ => c.disposes
  | .wake _ _ _ _ => (none, none)

/-- **Each segment is one move**, a clear or a shutdown exactly in the call of that name. -/
theorem step_moved (hs : step s e = some s') :
    ∃ m : Move α, m.disposes = e.disposes ∧ Moved m s.cb s'.cb := by
  have hcommit : ∀ k c (seg : Segment α), Quiet seg.cb (commit s k c seg).cb := by
    intro k c seg
    obtain ⟨n, hcb⟩ := commit_cb s k c seg
    rw [hcb]
    exact ⟨_, _, _, _, _, rfl⟩
  obtain ⟨k, c, now, rfl, -, rfl⟩ |
    ⟨k, c, cond, since, nsec, l, how, waitEnd, now, rfl, -, -, rfl⟩ := step_cases hs
  · obtain ⟨m, hm, hmoved⟩ := start_moved s.cb c now
    exact ⟨m, hm, hmoved.before (hcommit k c _)⟩
  · obtain ⟨m, hm, hmoved⟩ := resume_transfers s.cb c l how.result waitEnd now
    exact ⟨m, hm, hmoved.before (hcommit k c _)⟩

end Cbuffer
end Gallus
