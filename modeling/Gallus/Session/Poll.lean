import Gallus.Basic

/-!
# Polling sessions (`session.c`)

`session_poll` does not call `poll(2)` if it finds a session with unread bytes in its buffer. The
kernel is a parameter.

* `Kernel`, `Kernel.Documented`: `poll(2)`, and what it promises.
* `sessionPoll`: the function, on an array of different sessions.
* `ready`: what a call finds out about each session. `sessionPoll_iff`: the flags after the call are
  these, and a positive result is their number, exactly if the flags of the sessions that the call
  does not look at were `0`. `staleFlag`: a flag of an earlier poll.
-/

namespace Gallus
namespace Session

/-- `POLLIN`. -/
def pollin : UInt16 := 1

/-- `MAX_EVENTS`. -/
def maxEvents : Nat := 1024

/-- What `session_poll` uses of a session: `unread` are the bytes between `rbuf.rp` and `rbuf.ep`.
-/
structure Polled where
  sock : Int
  events : UInt16
  revents : UInt16
  unread : List UInt8
  deriving DecidableEq

/-- `struct pollfd`, on its way into `poll(2)`: its `revents` are `0`. -/
structure Pollfd where
  fd : Int
  events : UInt16
  deriving DecidableEq

/-- What `poll(2)` does: its result, whether `errno` is `EINTR`, and the `revents`. -/
structure Outcome where
  ret : Int
  interrupted : Bool
  revents : List UInt16

/-- `poll(2)`, with the entries and the time-out. -/
abbrev Kernel := List Pollfd → Int → Outcome

/-- A positive result of `poll(2)` is the number of the entries whose `revents` are not `0`. -/
structure Kernel.Documented (poll : Kernel) : Prop where
  length : ∀ fds timeout, (poll fds timeout).revents.length = fds.length
  count : ∀ fds timeout, 0 < (poll fds timeout).ret →
    (poll fds timeout).ret = (poll fds timeout).revents.countP (· ≠ 0)

/-- The session waits for input, and there is some in its buffer. -/
def Polled.buffered (s : Polled) : Bool := s.events &&& pollin ≠ 0 && decide (0 < s.unread.length)

variable (poll : Kernel)

/-- `session_poll`. -/
def sessionPoll (s : List Polled) (timeout : Int) : Result × List Polled :=
  if s.length > maxEvents then (Result.invalidArgs, s)
  else if 0 < s.countP Polled.buffered then
    (s.countP Polled.buffered,
      s.map fun x => if x.buffered then { x with revents := pollin } else x)
  else
    let o := poll (s.map fun x => ⟨x.sock, x.events⟩) timeout
    (if o.ret = 0 then Result.timedout
      else if o.ret < 0 then
        if o.interrupted then Result.interrupted else Result.posixApiError
      else o.ret,
      s.zipWith (fun x revents => { x with revents := revents }) o.revents)

/-! ## What a call finds out -/

/-- The call does not look at the session: it is refused, or another session has unread bytes. -/
def passedOver (s : List Polled) (x : Polled) : Prop :=
  s.length > maxEvents ∨ 0 < s.countP Polled.buffered ∧ x.buffered = false

instance (s : List Polled) (x : Polled) : Decidable (passedOver s x) :=
  inferInstanceAs (Decidable (_ ∨ _ ∧ _))

/-- What the call finds out about each session, and nothing about those it does not look at. -/
def ready (s : List Polled) (timeout : Int) : List UInt16 :=
  if s.length > maxEvents then s.map fun _ => 0
  else if 0 < s.countP Polled.buffered then s.map fun x => if x.buffered then pollin else 0
  else (poll (s.map fun x => ⟨x.sock, x.events⟩) timeout).revents

/-- The flags are those of this call, and a positive result is their number. -/
structure Reports (s : List Polled) (timeout : Int) (r : Result × List Polled) : Prop where
  flags : r.2.map Polled.revents = ready poll s timeout
  count : 0 < r.1 → r.1 = r.2.countP fun x => x.revents ≠ 0

variable {poll} {s : List Polled} {timeout : Int}

/-- The flags after the call, where it gets as far as `poll(2)`. -/
theorem zipWith_revents (s : List Polled) (revents : List UInt16) (h : revents.length = s.length) :
    (s.zipWith (fun x revents => { x with revents := revents }) revents).map Polled.revents =
      revents := by
  rw [List.map_zipWith]
  refine List.ext_getElem (by simp [h]) fun i h₁ h₂ => ?_
  simp

/-- A session that the call does not look at keeps its flags. -/
theorem sessionPoll_flags (hdoc : poll.Documented) (s : List Polled) (timeout : Int) :
    (sessionPoll poll s timeout).2.map Polled.revents = ready poll s timeout ↔
      ∀ x ∈ s, passedOver s x → x.revents = 0 := by
  unfold sessionPoll ready passedOver
  split_ifs with hlen hbuf
  · simp only [hlen, true_or, forall_const]
    exact List.map_inj_left
  · simp only [hlen, hbuf, false_or, true_and, List.map_map]
    rw [List.map_inj_left]
    refine forall₂_congr fun x _ => ?_
    cases hx : x.buffered <;> simp [hx]
  · refine iff_of_true (zipWith_revents _ _ ?_) ?_
    · rw [hdoc.length, List.length_map]
    · simp [hlen, hbuf]

/-- The result is the number of the sessions that the call finds ready. -/
theorem sessionPoll_count (hdoc : poll.Documented) (h : 0 < (sessionPoll poll s timeout).1) :
    (sessionPoll poll s timeout).1 = (ready poll s timeout).countP (· ≠ 0) := by
  unfold sessionPoll ready at *
  split_ifs at * with hlen hbuf
  · simp [Result.invalidArgs] at h
  · rw [List.countP_map]
    refine congrArg Nat.cast (List.countP_congr fun x _ => ?_)
    cases hx : x.buffered <;> simp [hx, pollin]
  · dsimp only at h ⊢
    split_ifs at h ⊢ with h0 hneg hintr
    · simp [Result.timedout] at h
    · simp [Result.interrupted] at h
    · simp [Result.posixApiError] at h
    · exact hdoc.count _ _ h

/-- **The flags.** They are those of this call, and a positive result is their number, exactly if
the sessions that the call does not look at have no flags of an earlier poll. -/
theorem sessionPoll_iff (hdoc : poll.Documented) (s : List Polled) (timeout : Int) :
    Reports poll s timeout (sessionPoll poll s timeout) ↔
      ∀ x ∈ s, passedOver s x → x.revents = 0 := by
  rw [← sessionPoll_flags hdoc s timeout]
  refine ⟨fun h => h.flags, fun hflags => ⟨hflags, fun hpos => ?_⟩⟩
  rw [sessionPoll_count hdoc hpos, ← hflags, List.countP_map]
  rfl

/-- A kernel that has input for the descriptors below `4`. -/
def lowReadable : Kernel := fun fds _ =>
  let revents := fds.map fun x => if x.fd < 4 then x.events &&& pollin else 0
  ⟨revents.countP (· ≠ 0), false, revents⟩

theorem lowReadable_documented : lowReadable.Documented :=
  ⟨fun _ _ => by simp [lowReadable], fun _ _ _ => rfl⟩

/-- Two sessions without unread bytes: the flags of earlier polls do no harm. -/
theorem sessionPoll_iff_two : Reports lowReadable [⟨3, 1, 4, []⟩, ⟨5, 1, 1, []⟩] 0
    (sessionPoll lowReadable [⟨3, 1, 4, []⟩, ⟨5, 1, 1, []⟩] 0) :=
  (sessionPoll_iff lowReadable_documented _ 0).mpr (by decide)

/-- The first session has an unread byte, and the second one was readable in an earlier poll: the
result is `1`, and both are readable now. -/
theorem staleFlag :
    (sessionPoll lowReadable [⟨3, 1, 0, [7]⟩, ⟨5, 1, 1, []⟩] 0).1 = 1 ∧
    (sessionPoll lowReadable [⟨3, 1, 0, [7]⟩, ⟨5, 1, 1, []⟩] 0).2.map Polled.revents = [1, 1] ∧
    ¬ Reports lowReadable [⟨3, 1, 0, [7]⟩, ⟨5, 1, 1, []⟩] 0
      (sessionPoll lowReadable [⟨3, 1, 0, [7]⟩, ⟨5, 1, 1, []⟩] 0) := by
  refine ⟨by decide, by decide, fun h => ?_⟩
  have := h.count
  revert this
  decide

end Session
end Gallus
