import Gallus.Lib.RecLock
import Gallus.Pools.Pool

/-!
# The functions of a pool, and its lock (`pool.c`)

Each function of `pool.c` as a computation of its caller, with `m_lck` as a recursive lock, for
both types of pool and in every state of the record. What the functions that they call come to, and
what other threads do while they wait, are arguments. A condition wait comes back with the lock as
deep as before.

* `PoolRec`: what the functions read of the record. `Shared`: what they leave behind besides it,
  that is, the poolables whose own function they have called, and the table `s_pools` of names.
* `sweep`, `waitRound`: the loops over the slots. `shutdown`, `cancel`, `wait` hand each slot below
  `m_obj_idx` to the poolable's own function, which refuses `NULL`.
* `create`, `destroy`: a pool and its name.
-/

namespace Gallus
namespace Pools

open Locks

/-- `gallus_pool_state_t`. -/
inductive PoolState where
  | unknown | constructed | operational | shuttingdown | notOperational
  deriving DecidableEq

/-- What the functions read of `gallus_pool_record`. -/
structure PoolRec where
  type : PoolType
  state : PoolState
  isCancelled : Bool
  nMax : Nat
  objIdx : Nat
  nFree : Nat
  objs : Nat → Option Nat

/-- What the functions leave behind. Pools are numbered in the order they are made in. -/
structure Shared (ν : Type) where
  /-- The poolables whose own function has been called. -/
  calls : List Nat
  /-- `s_pools`. -/
  pools : ν → Option Nat
  /-- The pools that have not been destroyed. -/
  alive : Nat → Bool
  made : Nat

variable {ν : Type}

/-- A call of one of the functions. -/
abbrev Call (ν α : Type) := Locks (Shared ν) α

/-! ## The functions for one poolable -/

/-- A turn of a waiting loop: a poolable is free, or else how the wait ends, and `m_is_awakened`. -/
structure Turn where
  free : Bool
  wait : Result
  isAwakened : Bool

/-- The loop of the two functions that acquire a poolable of an `index` pool: the result, and
whether it was woken up. -/
def acquireLoop : List Turn → Call ν (Result × Bool)
  | [] => failure
  | t :: ts =>
    if t.free then pure (Result.ok, false)
    else if t.wait = Result.ok ∧ t.isAwakened then pure (Result.ok, true)
    else if t.wait ≠ Result.ok then pure (t.wait, false)
    else acquireLoop ts

/-- `gallus_pool_add_poolable_by_index`; `made` is what making the poolable comes to. -/
def addPoolableByIndex (p : Option PoolRec) (index : Nat) (made : Result) : Call ν Result :=
  match p with
  | none => return Result.invalidArgs
  | some p =>
    if p.state = .operational ∧ p.type = .index ∧ index < p.nMax ∧ p.objs index = none then do
      lock
      let ret ← pure made
      unlock
      return ret
    else if p.state ≠ .constructed then return Result.notOperational
    else if p.nMax ≤ index then return Result.tooLarge
    else if p.objs index ≠ none then return Result.alreadyExists
    else return Result.anyFailures

/-- `gallus_pool_acquire_poolable_by_index`. -/
def acquirePoolableByIndex (p : Option PoolRec) (index : Nat) (turns : List Turn) :
    Call ν Result :=
  match p with
  | none => return Result.invalidArgs
  | some p =>
    if p.state = .operational ∧ p.type = .index ∧ index ≤ p.objIdx ∧ p.objs index ≠ none then do
      lock
      let r ← acquireLoop turns
      unlock
      return if r.2 then Result.wakeupRequested else r.1
    else if p.state ≠ .constructed then return Result.notOperational
    else if p.nMax ≤ index then return Result.tooLarge
    else if p.objs index = none then return Result.notFound
    else return Result.anyFailures

/-- What happens around an acquirer in a `queue` pool. -/
structure Supply where
  /-- `gallus_bbq_size` in the first region. -/
  size : Int
  /-- `gallus_bbq_get` in the first region. -/
  get : Result
  /-- What making a poolable comes to. -/
  made : Result
  /-- `gallus_bbq_get` between the regions, and whether it brings a poolable. -/
  late : Result
  brings : Bool

/-- The first critical region: whether a poolable is found. -/
def firstCritical (p : PoolRec) (s : Supply) : Bool × Result :=
  if 0 < s.size then (s.get = Result.ok, s.get)
  else if s.size = 0 ∧ p.objIdx < p.nMax then (s.made = Result.ok, s.made)
  else (false, Result.anyFailures)

/-- The second critical region, if a poolable comes later. -/
def lateCritical (s : Supply) : Call ν Result :=
  if s.late = Result.ok ∧ s.brings then do
    lock
    let ret ← pure s.late
    unlock
    return ret
  else return s.late

/-- `gallus_pool_acquire_poolable`. -/
def acquirePoolable (p : Option PoolRec) (turns : List Turn) (s : Supply) : Call ν Result :=
  match p with
  | none => return Result.invalidArgs
  | some p =>
    if p.state = .operational then
      match p.type with
      | .index => do
        lock
        let r ← acquireLoop turns
        unlock
        return if r.2 then Result.wakeupRequested else r.1
      | .queue => do
        lock
        let r ← pure (firstCritical p s)
        unlock
        if r.1 then return r.2 else lateCritical s
    else return Result.notOperational

/-- `gallus_pool_release_poolable`: the poolable is in its slot, `m_is_used`, and what the
notification or `gallus_bbq_put` comes to. -/
def releasePoolable (p : Option PoolRec) (inSlot isUsed : Bool) (given : Result) : Call ν Result :=
  match p with
  | none => return Result.invalidArgs
  | some p =>
    if p.state = .operational then
      match p.type with
      | .index =>
        if inSlot then do
          lock
          let ret ← pure (if isUsed then given else Result.invalidObject)
          unlock
          return ret
        else return Result.invalidState
      | .queue => do
        lock
        let ret ← pure given
        unlock
        return ret
    else return Result.notOperational

/-- `gallus_pool_get_outstanding_obj_num`. -/
def getOutstandingObjNum (p : Option PoolRec) : Call ν Result :=
  match p with
  | none => return Result.invalidArgs
  | some p => do
    lock
    let ret ← pure (i64 p.nFree)
    unlock
    return ret

/-! ## The functions for the whole pool -/

/-- What happens around `gallus_pool_wakeup`. -/
structure Waking where
  notify : Result
  nWaiters : Nat
  /-- The wait for the last waiter. -/
  ack : Result
  /-- `gallus_bbq_wakeup`. -/
  queue : Result

/-- `gallus_pool_wakeup`. The region of an `index` pool ends with another `gallus_mutex_lock`. -/
def wakeup (p : Option PoolRec) (w : Waking) : Call ν Result :=
  match p with
  | none => return Result.invalidArgs
  | some p =>
    if p.state = .operational ∨ p.state = .shuttingdown then
      match p.type with
      | .index => do
        lock
        let ret ← pure (if w.notify = Result.ok ∧ 0 < w.nWaiters then w.ack else w.notify)
        lock
        return ret
      | .queue => return w.queue
    else return Result.notOperational

/-- A poolable's own function, which returns `ret`. -/
def individually (ret : Nat → Result) : Option Nat → Call ν Result
  | none => return Result.invalidArgs
  | some pobj => do
    change fun s => { s with calls := s.calls ++ [pobj] }
    return ret pobj

/-- What a loop over the slots has come to. -/
structure Sweep where
  ret : Result
  gotErr : Bool
  firstErr : Result

def Sweep.note (s : Sweep) (ret : Result) : Sweep :=
  if ret = Result.ok then { s with ret }
  else
    { ret
      gotErr := true
      firstErr := if s.firstErr = Result.anyFailures then ret else s.firstErr }

/-- The loop of `gallus_pool_shutdown` and `gallus_pool_cancel`. -/
def sweep (objs : Nat → Option Nat) (ret : Nat → Result) : List Nat → Sweep → Call ν Sweep
  | [], s => return s
  | i :: is, s => do
    let r ← individually ret (objs i)
    sweep objs ret is (s.note r)

/-- The result after the loop. -/
def Sweep.result (s : Sweep) : Result := if s.gotErr then s.firstErr else s.ret

/-- The region of `gallus_pool_shutdown`. -/
def shutdownRegion (p : PoolRec) (w : Waking) (ret : Nat → Result) : Call ν Sweep := do
  let r ← wakeup (some { p with state := .shuttingdown }) w
  if r = Result.ok then sweep p.objs ret (List.range p.objIdx) ⟨r, false, Result.anyFailures⟩
  else return ⟨r, false, Result.anyFailures⟩

/-- `gallus_pool_shutdown`. -/
def shutdown (p : Option PoolRec) (w : Waking) (ret : Nat → Result) : Call ν Result :=
  match p with
  | none => return Result.invalidArgs
  | some p =>
    if p.state = .operational then do
      lock
      let s ← shutdownRegion p w ret
      unlock
      return s.result
    else return Result.notOperational

/-- `gallus_pool_cancel`. -/
def cancel (p : Option PoolRec) (ret : Nat → Result) : Call ν Result :=
  match p with
  | none => return Result.invalidArgs
  | some p =>
    if p.isCancelled = false ∧ (p.state = .operational ∨ p.state = .shuttingdown) then do
      lock
      let s ← sweep p.objs ret (List.range p.objIdx)
        ⟨Result.anyFailures, false, Result.anyFailures⟩
      unlock
      return s.result
    else if p.isCancelled then return Result.ok
    else return Result.notOperational

/-- A round of `gallus_pool_wait`: the last result, and the number of errors. -/
def waitRound (objs : Nat → Option Nat) (ret : Nat → Result) :
    List Nat → Result × Nat → Call ν (Result × Nat)
  | [], s => return s
  | i :: is, s => do
    let r ← individually ret (objs i)
    waitRound objs ret is (r, if r = Result.ok then s.2 else s.2 + 1)

/-- What happens around `gallus_pool_wait`: the clock at the beginning and in each round, what the
poolables' waits return in each round, and how many rounds there may be. -/
structure Waiting where
  clock : Nat → Int
  ret : Nat → Nat → Result
  rounds : Nat

/-- The rounds of `gallus_pool_wait` from the round `k` on: the last result, the errors in the last
round, and the clock. A call that needs more than the rounds there are does not return. -/
def waitRounds (p : PoolRec) (timeout : Int) (w : Waiting) :
    Nat → Nat → Result → Call ν (Result × Nat × Int)
  | 0, _, _ => failure
  | rounds + 1, k, ret => do
    let r ← waitRound p.objs (w.ret k) (List.range p.objIdx) (ret, 0)
    if r.2 ≠ 0 ∧ (timeout < 0 ∨ w.clock (k + 1) < w.clock 0 + timeout) then
      waitRounds p timeout w rounds (k + 1) r.1
    else return (r.1, r.2, w.clock (k + 1))

/-- The result of `gallus_pool_wait` after its rounds. -/
def waitResult (timeout start : Int) (r : Result × Nat × Int) : Result :=
  if 0 ≤ timeout then
    if r.2.1 = 0 then Result.ok else if start + timeout ≤ r.2.2 then Result.timedout else r.1
  else r.1

/-- `gallus_pool_wait`. -/
def wait (p : Option PoolRec) (timeout : Int) (w : Waiting) : Call ν Result :=
  match p with
  | none => return Result.invalidArgs
  | some p =>
    if p.state = .shuttingdown then do
      lock
      let r ← waitRounds p timeout w w.rounds 0 Result.anyFailures
      unlock
      return waitResult timeout (w.clock 0) r
    else if p.state ≠ .operational then return Result.notOperational
    else return Result.invalidArgs

/-! ## A pool and its name -/

/-- `gallus_pool_get_pool`: the result, and the pool. -/
def getPool (name : Option ν) : Call ν (Result × Option Nat) :=
  match name with
  | none => return (Result.invalidArgs, none)
  | some name => do
    let h ← get
    match h.own.pools name with
    | some id => return (Result.ok, some id)
    | none => return (Result.notFound, none)

variable [DecidableEq ν]

/-- A pool as far as it has been built: its number, `m_name`, `m_objs`, and whether it has its lock.
-/
structure Built (ν : Type) where
  id : Nat
  name : Option ν
  lck : Bool
  objs : Option (List (Option Nat))

/-- The destruction of the poolables. -/
def destroyPoolables : List (Option Nat) → Call ν Unit
  | [] => return ()
  | none :: objs => destroyPoolables objs
  | some pobj :: objs => do
    let _ ← individually (fun _ => Result.ok) (some pobj)
    destroyPoolables objs

/-- `gallus_pool_destroy`: its name. -/
def Built.unregister (p : Built ν) (s : Shared ν) : Shared ν :=
  match p.name with
  | some name => { s with pools := Function.update s.pools name none }
  | none => s

/-- `gallus_pool_destroy`: its poolables. -/
def Built.empty (p : Built ν) : Call ν Unit :=
  match p.objs with
  | some objs =>
    if p.lck then do
      lock
      let r ← destroyPoolables objs
      unlock
      return r
    else destroyPoolables objs
  | none => return ()

/-- `gallus_pool_destroy`. -/
def destroy (p : Built ν) : Call ν Unit := do
  change p.unregister
  p.empty
  change fun s => { s with alive := Function.update s.alive p.id false }

/-- The arguments of `gallus_pool_create`, which are given a place for the pool: `name` if it is a
valid string, `type` if it is one, and whether the place has memory for the pool. Assumed: this
memory is not that of a pool that is still there, which `memset` would clear. -/
structure CreateArgs (ν : Type) where
  name : Option ν
  type : Option PoolType
  hasMemory : Bool
  nMax : Nat
  hasMethods : Bool

/-- What the allocations of `gallus_pool_create` come to, in their order. -/
structure Allocations where
  malloc : Bool
  strdup : Bool
  lck : Result
  objs : Bool
  cnd : Result
  awakenedCnd : Result
  freeQ : Result
  /-- A new entry of `s_pools`. -/
  entry : Bool

/-- The part of `gallus_pool_create` behind `malloc` and before the name is registered. -/
def construct (id : Nat) (name : ν) (type : PoolType) (nMax : Nat) (o : Allocations) :
    Result × Built ν :=
  if o.strdup = false then (Result.noMemory, ⟨id, none, false, none⟩)
  else if o.lck ≠ Result.ok then (o.lck, ⟨id, some name, false, none⟩)
  else if o.objs = false then (Result.noMemory, ⟨id, some name, true, none⟩)
  else
    let built := ⟨id, some name, true, some (List.replicate nMax none)⟩
    match type with
    | .index => (if o.cnd = Result.ok then o.awakenedCnd else o.cnd, built)
    | .queue => (o.freeQ, built)

/-- `gallus_hashmap_add` to `s_pools`, which overwrites nothing: the result, and the table. -/
def register (pools : ν → Option Nat) (name : ν) (id : Nat) (entry : Bool) :
    Result × (ν → Option Nat) :=
  if pools name ≠ none then (Result.alreadyExists, pools)
  else if entry = false then (Result.noMemory, pools)
  else (Result.ok, Function.update pools name (some id))

/-- The end of `gallus_pool_create`: a pool that has not come about is destroyed. -/
def finish (p : Built ν) (ret : Result) : Call ν Result :=
  if ret = Result.ok then return ret
  else do
    destroy p
    return ret

/-- `gallus_pool_create` with memory for the pool. -/
def build (name : ν) (type : PoolType) (nMax : Nat) (o : Allocations) : Call ν Result := do
  let h ← get
  change fun s => { s with made := s.made + 1, alive := Function.update s.alive s.made true }
  let p := construct h.own.made name type nMax o
  let r := register h.own.pools name h.own.made o.entry
  if p.1 = Result.ok then do
    change fun s => { s with pools := r.2 }
    finish p.2 r.1
  else finish p.2 p.1

/-- `gallus_pool_create`. -/
def create (a : CreateArgs ν) (o : Allocations) : Call ν Result :=
  match a.name, a.type with
  | some name, some type =>
    if 0 < a.nMax ∧ a.hasMethods then
      if a.hasMemory ∨ o.malloc then build name type a.nMax o else return Result.noMemory
    else return Result.invalidArgs
  | _, _ => return Result.invalidArgs

end Pools
end Gallus
