import Gallus.Cbuffer.Calls

/-!
# Polling many queues (`qmuxer.c`)

A queue muxer waits until one of an array of queues is readable or writable. `gallus_qmuxer_poll`
makes passes over the array: a first pass, `is_pre`, that registers the muxer with each queue that
has to be waited for, and a second one, after the wait, that unregisters it.

* `setupForQmuxer` is `cbuffer_setup_for_qmuxer`, with the queue's lock held.
* `Muxer` is one muxer, its caller's poll objects and all queues with the calls on them. A step is
  one iteration of the loop of `s_qmx_setup_for_poll`, which holds the lock of one queue, the end of
  the condition wait, a segment of a call on a queue, or another muxer's setup of a queue.
* `met` is for statements only: a queue of the first pass had to be waited for.

A call without a muxer sleeps and touches no queue, and is left out.
-/

namespace Gallus
namespace Qmuxer

open Cbuffer

/-- `gallus_qmuxer_poll_record`. -/
structure Poll (β : Type) where
  bbq : Option β
  type : PollEvent
  qSize : Int
  qRemCapacity : Int

variable {α β κ : Type}

/-- What has to be waited for on a queue of `qSize` elements and room for `qRemCapacity`. -/
def needWait (type : PollEvent) (qSize qRemCapacity : Int) : PollEvent :=
  if needWaitReadable type = true ∧ qSize = 0 then pollReadable
  else if needWaitWritable type = true ∧ qRemCapacity = 0 then pollWritable
  else pollUnknown

/-- `cbuffer_setup_for_qmuxer`: the queue and the poll object after it, and the result. -/
def setupForQmuxer (cb : Cbuffer α) (qmx : Nat) (p : Poll β) (isPre : Bool) :
    Cbuffer α × Poll β × Result :=
  if cb.isOperational then
    let p := { p with
      qSize := cb.nElements
      qRemCapacity := cb.nMaxElements - cb.nElements }
    let ret := needWait p.type p.qSize p.qRemCapacity
    if isPre = true ∧ 0 < ret then ({ cb with qmuxer := some qmx, type := ret }, p, ret)
    else ({ cb with qmuxer := none, type := pollUnknown }, p, ret)
  else (cb, p, Result.notOperational)

/-- Where `gallus_qmuxer_poll` is. -/
inductive PollPoint
  /-- No call is under way. -/
  | idle
  /-- In a pass of `s_qmx_setup_for_poll`, before the poll object `i`. -/
  | setup (isPre : Bool) (i nNulls nev : Nat)
  /-- At the wait between the passes. -/
  | waiting
  /-- At the wait of a call without poll objects. -/
  | sleeping
  /-- `gallus_qmuxer_destroy` has returned. -/
  | destroyed
  deriving DecidableEq

/-- A muxer, the poll objects of its caller, and the queues. -/
structure Muxer (β κ α : Type) where
  qmx : Nat
  queues : β → Calls κ α
  polls : List (Option (Poll β))
  nsec : Chrono
  point : PollPoint
  /-- What the last call returned. -/
  ret : Result
  /-- A queue of the pass had to be waited for. -/
  met : Bool

namespace Muxer

/-- The call returns. -/
def done (s : Muxer β κ α) (ret : Result) : Muxer β κ α := { s with point := .idle, ret }

/-- A first pass, with its queues still to come (`recheck`). -/
def preWait (s : Muxer β κ α) : Muxer β κ α := { s with point := .setup true 0 0 0, met := false }

/-- The end of a pass: return, wait, or begin again. -/
def setupEnd (s : Muxer β κ α) (isPre : Bool) (nNulls nev : Nat) : Muxer β κ α :=
  let ret : Result := if nNulls = s.polls.length then Result.invalidArgs else nev
  if ret ≠ 0 then s.done ret
  else if isPre then { s with point := .waiting }
  else s.preWait

/-- The head of the loop. -/
def setupNext (s : Muxer β κ α) (isPre : Bool) (i nNulls nev : Nat) : Muxer β κ α :=
  if i < s.polls.length then { s with point := .setup isPre i nNulls nev }
  else s.setupEnd isPre nNulls nev

variable [DecidableEq β]

/-- The setup of a queue, with what it writes to the record. -/
def setQueue (s : Muxer β κ α) (b : β) (cb : Cbuffer α) : Muxer β κ α :=
  { s with queues := Function.update s.queues b { s.queues b with cb } }

/-- The body of the loop of `s_qmx_setup_for_poll`. -/
def setupPoll (s : Muxer β κ α) (isPre : Bool) (i nNulls nev : Nat) : Muxer β κ α :=
  match s.polls[i]? with
  | some (some p) =>
    match p.bbq with
    | some b =>
      let (cb, p, st) := setupForQmuxer (s.queues b).cb s.qmx p isPre
      let s := { s.setQueue b cb with
        polls := s.polls.set i (some p)
        met := s.met || decide (0 < st) }
      if isPre = true ∧ st < 0 then s.done st
      else s.setupNext isPre (i + 1) nNulls (if st = 0 then nev + 1 else nev)
    | none =>
      { s with polls := s.polls.set i (some { p with qSize := 0, qRemCapacity := 0 }) }.setupNext
        isPre (i + 1) (nNulls + 1) nev
  | some none =>
    if isPre then s.done Result.invalidArgs else s.setupNext isPre (i + 1) nNulls nev
  | none => s

/-- The entry of `gallus_qmuxer_poll`. -/
def poll (s : Muxer β κ α) (polls : List (Option (Poll β))) (nsec : Chrono) : Muxer β κ α :=
  let s := { s with polls, nsec }
  if 0 < polls.length then s.preWait
  else if 0 < nsec then { s with point := .sleeping }
  else s.done Result.invalidArgs

end Muxer

/-- A step. -/
inductive MuxEvent (β κ α : Type)
  /-- `gallus_qmuxer_poll` is called. -/
  | poll (polls : List (Option (Poll β))) (nsec : Chrono)
  /-- An iteration of the loop of `s_qmx_setup_for_poll`. -/
  | setup
  /-- The condition wait ends. -/
  | wakeUp (ret : Result)
  /-- A segment of a call on a queue. -/
  | queue (b : β) (e : Event κ α)
  /-- The setup of a queue by a poll of the muxer `q`. -/
  | other (b : β) (q : Nat) (type : PollEvent) (isPre : Bool)
  /-- `gallus_qmuxer_destroy`. -/
  | destroy

variable [DecidableEq β] [DecidableEq κ] [Zero α]

/-- One step. -/
def Muxer.step (s : Muxer β κ α) : MuxEvent β κ α → Option (Muxer β κ α)
  | .poll polls nsec => if s.point = .idle then some (s.poll polls nsec) else none
  | .setup =>
    match s.point with
    | .setup isPre i nNulls nev => some (s.setupPoll isPre i nNulls nev)
    | _ => none
  | .wakeUp ret =>
    if condWaitResult s.nsec ret then
      match s.point with
      | .waiting =>
        some (if ret = Result.ok then { s with point := .setup false 0 0 0 } else s.done ret)
      | .sleeping => some (s.done ret)
      | _ => none
    else none
  | .queue b e =>
    (Cbuffer.step (s.queues b) e).map fun c => { s with queues := Function.update s.queues b c }
  | .other b q type isPre =>
    if q ≠ s.qmx then
      some (s.setQueue b (setupForQmuxer (s.queues b).cb q ⟨some b, type, 0, 0⟩ isPre).1)
    else none
  | .destroy => if s.point = .idle then some { s with point := .destroyed } else none

end Qmuxer
end Gallus
