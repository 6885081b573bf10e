import Gallus.Basic
import Gallus.Lib.Trans
import Mathlib.Logic.Function.Basic

/-!
# The signal thread (`signal.c`)

One thread waits for the signals of the process and calls their handlers. `gallus_signal` changes
what it waits for, and sends `SIGUSR2` to make it look again.

* `Record`: what the thread and its callers share. The callers change it under the lock; the thread
  takes the lock only to add `SIGUSR2` to the set, and reads everything else without it.
* `oldHandler`, `newSet`, `newProcs`: the body of `gallus_signal`. Its writes are steps of their
  own.
* `sigaddset`, `sigdelset`: they refuse the signals of the C library, and nobody looks at that.
* `State`, `step`: the thread, its callers, and the signals that are pending. `s_once_final_proc` is
  a call too, and destroys the thread when it has ended.

A set of signals is a function to `Bool`, and an assignment to one is atomic. Of `m_sigprocs` the
thread reads an element once for each signal. A call that is in its section when the thread is
destroyed has lost its record, and a run with one ends there.
-/

namespace Gallus
namespace Signal

/-- `NSIG` -/
def nsig : Nat := 65

/-- `SIGUSR2` -/
def sigusr2 : Nat := 12

/-- The signals that the C library keeps for itself, `SIGCANCEL` and `SIGSETXID`. -/
def isInternalSignal (sig : Nat) : Prop := sig = 32 ∨ sig = 33

instance (sig : Nat) : Decidable (isInternalSignal sig) := inferInstanceAs (Decidable (_ ∨ _))

/-- `sigaddset` -/
def sigaddset (set : Nat → Bool) (sig : Nat) : Nat → Bool :=
  if isInternalSignal sig then set else Function.update set sig true

/-- `sigdelset` -/
def sigdelset (set : Nat → Bool) (sig : Nat) : Nat → Bool :=
  if isInternalSignal sig then set else Function.update set sig false

/-- A `sighandler_t`: `SIG_DFL`, `SIG_IGN`, `SIG_CUR`, or a function. -/
inductive Handler (η : Type)
  | dfl
  | ign
  | cur
  | fn (h : η)
deriving DecidableEq

/-- `signal_thread_record`. A function in `sigprocs` is not `NULL`. -/
structure Record (η : Type) where
  sigprocs : Nat → Option η
  sigset : Nat → Bool
  doLoop : Bool

variable {ι η : Type}

/-- What `gallus_signal` stores through `oldptr`. -/
def oldHandler (r : Record η) (signum : Nat) : Handler η :=
  if r.sigset signum = true then
    match r.sigprocs signum with
    | none => .ign
    | some h => .fn h
  else .dfl

/-- `cur_sigset` after the `switch`. -/
def newSet (cur : Nat → Bool) (signum : Nat) : Handler η → Nat → Bool
  | .dfl => if signum ≠ sigusr2 then sigdelset cur signum else cur
  | .ign => sigaddset cur signum
  | .cur => cur
  | .fn _ => sigaddset cur signum

/-- `m_sigprocs` after the `switch`. -/
def newProcs (procs : Nat → Option η) (signum : Nat) : Handler η → Nat → Option η
  | .dfl => Function.update procs signum none
  | .ign => Function.update procs signum none
  | .cur => procs
  | .fn h => Function.update procs signum (some h)

/-- The arguments of `gallus_signal`. -/
structure Call (η : Type) where
  signum : Nat
  new : Handler η

/-- Where a caller is. In the first four places of each call it has the lock. -/
inductive Caller (η : Type)
  | idle
  /-- `*oldptr` is stored. -/
  | read (c : Call η) (cur : Nat → Bool) (old : Handler η)
  /-- The `switch` is done. -/
  | switched (c : Call η) (set : Nat → Bool) (old : Handler η)
  /-- `m_sigset` is assigned, and `SIGUSR2` not sent. -/
  | assigned (c : Call η) (old : Handler η)
  /-- At the end of the section. -/
  | ready (c : Call η) (old : Handler η)
  /-- `s_once_final_proc` has set `SIGUSR2` to be ignored. -/
  | finalIgnored
  /-- It has the lock. -/
  | finalLocked
  /-- It has stopped the loop. -/
  | finalStopped
  /-- It has given the lock back, and `SIGUSR2` is not sent. -/
  | finalUnlocked
  /-- It waits for the thread. -/
  | finalWaiting

/-- Where the thread is in `s_main`. -/
inductive Main
  /-- At the condition of the loop. -/
  | top
  /-- Before the section in which it adds `SIGUSR2`. -/
  | enter
  /-- Before `sigwait`. -/
  | wait
  /-- In `sigwait`, with the set that it has read. -/
  | waiting (set : Nat → Bool)
  /-- `sigwait` has returned. -/
  | got (sig : Nat)
  /-- Out of the loop. -/
  | done

/-- A call that has returned. If it has failed, `*oldptr` is not stored. -/
structure Returned (η : Type) where
  call : Call η
  ret : Result
  old : Handler η

structure State (ι η : Type) where
  shared : Record η
  lock : Option ι
  callers : ι → Caller η
  main : Main
  pending : Nat → Bool
  /-- `s_sigthd` is not `NULL`. -/
  thread : Bool
  /-- `s_once_final_proc` has begun, and whether in the thread itself. -/
  final : Option Bool
  /-- The handlers that have been called. -/
  handled : List (Nat × η)
  /-- The calls that have returned. -/
  returned : List (Returned η)

/-- `s_create` and `gallus_thread_start`, with neither a set nor handlers. -/
def init (ι η : Type) : State ι η :=
  ⟨⟨fun _ => none, fun _ => false, true⟩, none, fun _ => .idle, .top, fun _ => false, true, none,
    [], []⟩

inductive Event (ι η : Type)
  /-- A caller begins a call of `gallus_signal`. -/
  | call (i : ι) (c : Call η)
  /-- A caller begins `s_once_final_proc`; `own` if it is a handler, in the thread itself. -/
  | final (i : ι) (own : Bool)
  /-- A caller goes on. -/
  | caller (i : ι)
  /-- The thread goes on. -/
  | main
  /-- `sigwait` returns. -/
  | deliver (sig : Nat)
  /-- A signal is sent to the process. -/
  | post (sig : Nat)

variable [DecidableEq ι]

/-- The handler that the thread calls for a signal. -/
def handlerOf (r : Record η) (sig : Nat) : Option η :=
  if 0 < sig ∧ sig < nsig then r.sigprocs sig else none

/-- The next step of a caller. -/
def callerStep (s : State ι η) (i : ι) : Option (State ι η) :=
  match s.callers i with
  | .idle => none
  | .read c cur old =>
    some { s with
      shared := { s.shared with sigprocs := newProcs s.shared.sigprocs c.signum c.new }
      callers := Function.update s.callers i (match c.new with
        | .cur => .ready c old
        | _ => .switched c (newSet cur c.signum c.new) old) }
  | .switched c set old =>
    some { s with
      shared := { s.shared with sigset := set }
      callers := Function.update s.callers i (.assigned c old) }
  | .assigned c old =>
    some { s with
      pending := Function.update s.pending sigusr2 true
      callers := Function.update s.callers i (.ready c old) }
  | .ready c old =>
    some { s with
      lock := none
      callers := Function.update s.callers i .idle
      returned := s.returned ++ [⟨c, Result.ok, old⟩] }
  | .finalIgnored =>
    if s.lock.isNone then
      some { s with lock := some i, callers := Function.update s.callers i .finalLocked }
    else none
  | .finalLocked =>
    some { s with
      shared := { s.shared with doLoop := false }
      callers := Function.update s.callers i .finalStopped }
  | .finalStopped =>
    some { s with lock := none, callers := Function.update s.callers i .finalUnlocked }
  | .finalUnlocked =>
    some { s with
      pending := Function.update s.pending sigusr2 true
      callers := Function.update s.callers i
        (if s.final = some true then .idle else .finalWaiting) }
  | .finalWaiting =>
    match s.main with
    | .done =>
      if s.lock.isNone then
        some { s with thread := false, callers := Function.update s.callers i .idle }
      else none
    | _ => none

/-- The next step of the thread, but for the return of `sigwait`. -/
def mainStep (s : State ι η) : Option (State ι η) :=
  match s.main with
  | .top => some { s with main := if s.shared.doLoop = true then .enter else .done }
  | .enter =>
    if s.lock.isNone then
      some { s with
        shared := { s.shared with sigset := sigaddset s.shared.sigset sigusr2 }
        main := .wait }
    else none
  | .wait => some { s with main := .waiting s.shared.sigset }
  | .waiting _ => none
  | .got sig =>
    some { s with
      main := .top
      handled := s.handled ++ (handlerOf s.shared sig).toList.map fun h => (sig, h) }
  | .done => none

/-- `sigwait` returns a signal that is pending and in its set. -/
def deliver (s : State ι η) (sig : Nat) : Option (State ι η) :=
  match s.main with
  | .waiting set =>
    if set sig = true ∧ s.pending sig = true then
      some { s with main := .got sig, pending := Function.update s.pending sig false }
    else none
  | _ => none

/-- A caller that is idle begins `gallus_signal`; without the thread, or with a wrong number, it
returns at once. -/
def begin (s : State ι η) (i : ι) (c : Call η) : Option (State ι η) :=
  match s.callers i with
  | .idle =>
    if s.thread = true then
      if 0 < c.signum ∧ c.signum < nsig then
        if s.lock.isNone then
          some { s with
            lock := some i
            callers := Function.update s.callers i
              (.read c s.shared.sigset (oldHandler s.shared c.signum)) }
        else none
      else some { s with returned := s.returned ++ [⟨c, Result.invalidArgs, .dfl⟩] }
    else some { s with returned := s.returned ++ [⟨c, Result.notOperational, .dfl⟩] }
  | _ => none

/-- A caller that is idle begins `s_once_final_proc`, which `pthread_once` runs once. To have
`SIGUSR2` ignored drops it, if it is pending. -/
def beginFinal (s : State ι η) (i : ι) (own : Bool) : Option (State ι η) :=
  match s.callers i, s.final with
  | .idle, none =>
    some { s with
      pending := Function.update s.pending sigusr2 false
      callers := Function.update s.callers i .finalIgnored
      final := some own }
  | _, _ => none

def step (s : State ι η) : Event ι η → Option (State ι η)
  | .call i c => begin s i c
  | .final i own => beginFinal s i own
  | .caller i => callerStep s i
  | .main => mainStep s
  | .deliver sig => deliver s sig
  | .post sig => some { s with pending := Function.update s.pending sig true }

end Signal
end Gallus
