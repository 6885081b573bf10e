import Gallus.Cbuffer.Record
import Gallus.Lib.Trans
import Mathlib.Logic.Function.Basic

/-!
# Calls on one buffer from many threads (`cbuffer.c`)

A call takes the lock, runs, and gives the lock back only where it returns and where it waits on a
condition variable. `start` is what it does up to the first of these places, `resume` what it does
from the end of a wait to the next one: its lock-held segments. The step function `step` runs one
segment of one call; the order of the events is the interleaving.

* A call is a process of its own. A thread is a sequence of calls, so each interleaving of threads
  is one of calls.
* A wait ends by a notification, spuriously, or, if it has a time limit, by time-out. The two clock
  readings of an event are those of `WHAT_TIME_IS_IT_NOW_IN_NSEC` in the segment.
* `inserted` and `removed` are the elements that went into and out of the buffer so far, each with
  the call that moved it.
-/

namespace Gallus
namespace Cbuffer

/-- A call with its arguments. -/
inductive Call (α : Type)
  | putN (vals : List α) (valsz : Nat) (nsec : Chrono)
  | getN (nValsMax nAtLeast valsz : Nat) (nsec : Chrono) (doIncr : Bool)
  | waitGettable (nsec : Chrono)
  | waitPuttable (nsec : Chrono)
  | wakeup (nsec : Chrono)
  | clear (freeValues : Bool)
  | shutdown (freeValues : Bool)

/-- The condition variables. -/
inductive Cond
  | put | get | awakened
  deriving DecidableEq

/-- What a call keeps over a wait. -/
structure Local (α : Type) where
  /-- `n_copyin` or `n_copyout`. -/
  nCopy : Int
  /-- The caller's buffer, as far as a get has filled it. -/
  buf : List α
  ret : Result
  /-- `to`, what is left of the time limit. -/
  timeout : Chrono
  copyStart : Chrono

/-- Where a segment ends: in a wait of `nsec`, or at the return, with the result and what the call
stores through `n_actual_put` or `n_actual_get`. -/
inductive Next (α : Type)
  | wait (cond : Cond) (nsec : Chrono) (l : Local α)
  | done (ret : Result) (nActual : Nat) (buf : List α)

/-- What a segment did: the record after it, and the elements it inserted and removed. -/
structure Segment (α : Type) where
  cb : Cbuffer α
  ins : List α
  rem : List α
  next : Next α

variable {α : Type}

/-- A segment that moves nothing. -/
def Segment.quiet (cb : Cbuffer α) (next : Next α) : Segment α := ⟨cb, [], [], next⟩

/-! ## Waiting -/

/-- The broadcasts on a condition variable so far. -/
def broadcasts (cb : Cbuffer α) : Cond → Nat
  | .put => cb.condPut
  | .get => cb.condGet
  | .awakened => cb.condAwakened

/-- `s_wait_io_ready` up to the wait. The waker's own wait does not count. -/
def enterWait (cb : Cbuffer α) : Cond → Cbuffer α
  | .awakened => cb
  | .put | .get => { cb with nWaiters := cb.nWaiters + 1 }

/-- The hand-over of a waiter to the waker: the flag off, the waker notified. -/
def awaken (cb : Cbuffer α) : Cbuffer α :=
  { cb with isAwakened := false, condAwakened := cb.condAwakened + 1 }

/-- `s_wait_io_ready` from the end of the wait on, whose result is `ret`. -/
def leaveWait (cb : Cbuffer α) (ret : Result) : Cbuffer α × Result :=
  let cb : Cbuffer α := { cb with nWaiters := cb.nWaiters - 1 }
  if ret = Result.ok ∧ cb.isAwakened = true then
    if cb.isOperational then
      (if cb.nWaiters = 0 then awaken cb else cb, Result.wakeupRequested)
    else (awaken cb, Result.notOperational)
  else (cb, ret)

/-! ## The loops of `s_put_n` and `s_get_n` -/

/-- What follows the copy in a round of the put loop: wait for room, or return. -/
def putNext (cb : Cbuffer α) (vals : List α) (l : Local α) : Next α :=
  if sizeT l.nCopy < vals.length then
    if cb.nMaxElements ≤ cb.nElements then .wait .put l.timeout l
    else .done l.ret (sizeT l.nCopy) l.buf
  else .done l.nCopy (sizeT l.nCopy) l.buf

/-- One round of the put loop (`check_inf`, `check_to`), at the clock reading `now`. -/
def putRound (cb : Cbuffer α) (vals : List α) (l : Local α) (now : Chrono) : Segment α :=
  if cb.isOperational then
    let (cb, n) := copyin cb (vals.drop (sizeT l.nCopy))
    ⟨cb, (vals.drop (sizeT l.nCopy)).take n.toNat, [],
      putNext cb vals { l with nCopy := l.nCopy + n, copyStart := now }⟩
  else .quiet cb (.done Result.notOperational (sizeT l.nCopy) l.buf)

/-- What follows the copy in a round of the get loop that ends with `need` elements: wait for data,
or return. -/
def getNext (cb : Cbuffer α) (need : Nat) (l : Local α) : Next α :=
  if sizeT l.nCopy < need then
    if cb.nElements < 1 then .wait .get l.timeout l
    else .done l.ret (sizeT l.nCopy) l.buf
  else .done l.nCopy (sizeT l.nCopy) l.buf

/-- One round of the get loop, at the clock reading `now`. -/
def getRound (cb : Cbuffer α) (nValsMax need : Nat) (doIncr : Bool) (l : Local α) (now : Chrono) :
    Segment α :=
  if cb.isOperational then
    let (cb, vals, n) := copyout cb (sizeT (nValsMax - l.nCopy)) doIncr
    ⟨cb, [], if doIncr then vals else [],
      getNext cb need { l with nCopy := l.nCopy + n, buf := l.buf ++ vals, copyStart := now }⟩
  else .quiet cb (.done Result.notOperational (sizeT l.nCopy) l.buf)

/-- The time that is left of a loop's limit after a wait; a loop without one goes on. -/
def timeLeft (nsec : Chrono) (l : Local α) (waitEnd : Chrono) : Option Chrono :=
  if nsec < 0 then some l.timeout
  else
    let timeout := l.timeout - (waitEnd - l.copyStart)
    if 0 < timeout then some timeout else none

/-- The locals at the entry of a loop. -/
def Local.init (nsec now : Chrono) : Local α :=
  { nCopy := 0, buf := [], ret := Result.anyFailures, timeout := if nsec < 0 then -1 else nsec
    copyStart := now }

/-- The bound of the get loop: all the values without a time limit, `n_at_least` with one. -/
def needed (nValsMax nAtLeast : Nat) (nsec : Chrono) : Nat :=
  if nsec < 0 then nValsMax else nAtLeast

/-- The loop of `gallus_cbuffer_wakeup` (`recheck`). -/
def wakeupRound (cb : Cbuffer α) (nsec now : Chrono) : Segment α :=
  if cb.isOperational then
    if cb.isAwakened then .quiet cb (.wait .awakened nsec (.init nsec now))
    else .quiet cb (.done Result.ok 0 [])
  else .quiet cb (.done Result.notOperational 0 [])

/-! ## The segments of a call -/

/-- The first segment of a call, at the clock reading `now`. -/
def start [Zero α] (cb : Cbuffer α) (c : Call α) (now : Chrono) : Segment α :=
  match c with
  | .putN vals valsz nsec =>
    if valsz = cb.elementSize ∧ 0 < vals.length ∧ nsec ≠ 0 then
      putRound cb vals (.init nsec now) now
    else
      let (cb, ret, n) := putNow cb vals valsz
      ⟨cb, vals.take ret.toNat, [], .done ret n []⟩
  | .getN nValsMax nAtLeast valsz nsec doIncr =>
    if valsz = cb.elementSize ∧ 0 < nValsMax ∧ nsec ≠ 0 then
      getRound cb nValsMax (needed nValsMax nAtLeast nsec) doIncr (.init nsec now) now
    else
      let (cb, ret, n, vals) := getNow cb nValsMax valsz doIncr
      ⟨cb, [], if doIncr then vals else [], .done ret n vals⟩
  | .waitGettable nsec =>
    if 0 < cb.nElements ∨ nsec = 0 then .quiet cb (.done cb.nElements 0 [])
    else .quiet cb (.wait .get nsec (.init nsec now))
  | .waitPuttable nsec =>
    let remains := cb.nMaxElements - cb.nElements
    if 0 < remains ∨ nsec = 0 then .quiet cb (.done remains 0 [])
    else .quiet cb (.wait .put nsec (.init nsec now))
  | .wakeup nsec =>
    if 0 < cb.nWaiters then
      if cb.isOperational then
        if cb.isAwakened = false then
          let cb :=
            { cb with isAwakened := true, condGet := cb.condGet + 1, condPut := cb.condPut + 1 }
          if nsec ≠ 0 then wakeupRound cb nsec now else .quiet cb (.done Result.ok 0 [])
        else .quiet cb (.done Result.ok 0 [])
      else .quiet cb (.done Result.notOperational 0 [])
    else .quiet cb (.done Result.ok 0 [])
  | .clear freeValues =>
    let (cb, ret) := Cbuffer.clear cb freeValues
    .quiet cb (.done ret 0 [])
  | .shutdown freeValues => .quiet (Cbuffer.shutdown cb freeValues) (.done Result.ok 0 [])

/-- The segment of a call after a wait of result `ret`, at the clock readings `waitEnd` and
`now`. -/
def resume (cb : Cbuffer α) (c : Call α) (l : Local α) (ret : Result) (waitEnd now : Chrono) :
    Segment α :=
  match c with
  | .putN vals _ nsec =>
    let (cb, ret) := leaveWait cb ret
    if ret = Result.ok then
      match timeLeft nsec l waitEnd with
      | some timeout => putRound cb vals { l with ret, timeout } now
      | none => .quiet cb (.done Result.timedout (sizeT l.nCopy) l.buf)
    else .quiet cb (.done ret (sizeT l.nCopy) l.buf)
  | .getN nValsMax nAtLeast _ nsec doIncr =>
    let (cb, ret) := leaveWait cb ret
    if ret = Result.ok then
      match timeLeft nsec l waitEnd with
      | some timeout =>
        getRound cb nValsMax (needed nValsMax nAtLeast nsec) doIncr { l with ret, timeout } now
      | none => .quiet cb (.done Result.timedout (sizeT l.nCopy) l.buf)
    else .quiet cb (.done ret (sizeT l.nCopy) l.buf)
  | .waitGettable _ =>
    let (cb, ret) := leaveWait cb ret
    .quiet cb (.done (if ret = Result.ok then cb.nElements else ret) 0 [])
  | .waitPuttable _ =>
    let (cb, ret) := leaveWait cb ret
    .quiet cb (.done (if ret = Result.ok then cb.nMaxElements - cb.nElements else ret) 0 [])
  | .wakeup nsec =>
    if ret = Result.ok then wakeupRound cb nsec now else .quiet cb (.done ret 0 [])
  | .clear _ | .shutdown _ => .quiet cb (.done ret 0 [])

/-! ## The system -/

/-- Where a call is. `since` is the number of broadcasts when its wait began. -/
inductive Pc (α : Type)
  | outside
  | waiting (c : Call α) (cond : Cond) (since : Nat) (nsec : Chrono) (l : Local α)
  | returned (c : Call α) (ret : Result) (nActual : Nat) (buf : List α)

/-- A buffer and the calls on it. -/
structure Calls (κ α : Type) where
  cb : Cbuffer α
  pc : κ → Pc α
  inserted : List (κ × α)
  removed : List (κ × α)

/-- How a wait ends. -/
inductive Wake
  | notified | spurious | timedout

/-- One segment of the call `k`: its first one, or the one after its wait. -/
inductive Event (κ α : Type)
  | call (k : κ) (c : Call α) (now : Chrono)
  | wake (k : κ) (how : Wake) (waitEnd now : Chrono)

/-- Whether a wait can end that way. -/
def Wake.possible (cb : Cbuffer α) (cond : Cond) (since : Nat) (nsec : Chrono) : Wake → Bool
  | .notified => decide (since < broadcasts cb cond)
  | .spurious => true
  | .timedout => decide (0 ≤ nsec)

/-- What `gallus_cond_wait` returns. -/
def Wake.result : Wake → Result
  | .notified | .spurious => Result.ok
  | .timedout => Result.timedout

variable {κ : Type} [DecidableEq κ]

/-- The state after a segment of the call `k`. -/
def commit (s : Calls κ α) (k : κ) (c : Call α) (seg : Segment α) : Calls κ α where
  cb :=
    match seg.next with
    | .wait cond _ _ => enterWait seg.cb cond
    | .done _ _ _ => seg.cb
  pc := Function.update s.pc k
    (match seg.next with
    | .wait cond nsec l => .waiting c cond (broadcasts seg.cb cond) nsec l
    | .done ret nActual buf => .returned c ret nActual buf)
  inserted := s.inserted ++ seg.ins.map (Prod.mk k)
  removed := s.removed ++ seg.rem.map (Prod.mk k)

/-- One lock-held segment. -/
def step [Zero α] (s : Calls κ α) : Event κ α → Option (Calls κ α)
  | .call k c now =>
    match s.pc k with
    | .outside => some (commit s k c (start s.cb c now))
    | _ => none
  | .wake k how waitEnd now =>
    match s.pc k with
    | .waiting c cond since nsec l =>
      if how.possible s.cb cond since nsec then
        some (commit s k c (resume s.cb c l how.result waitEnd now))
      else none
    | _ => none

/-- Before any call. -/
def Calls.init (cb : Cbuffer α) : Calls κ α := ⟨cb, fun _ => .outside, [], []⟩

end Cbuffer
end Gallus
