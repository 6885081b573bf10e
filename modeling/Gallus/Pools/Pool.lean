import Gallus.Basic
import Gallus.Lib.Trans
import Gallus.Lib.Lease

/-!
# Pools (`pool.c`)

A pool lends its poolables to acquirers. In a pool of type `queue` the free poolables wait in a
bounded blocking queue and new ones are made on demand; in one of type `index` the caller adds
each poolable to a slot and `m_is_used` says which are free.

* `Pool τ`: the record, the poolables' own words, and where each acquirer `τ` is in its call.
  `holders` is not in the source: it says who has acquired a poolable and not given it back.
* `Pool.step`: one segment of a call. The checks at the head of a call run without `m_lck`; a
  segment under the lock is one step, except where the free queue, which has a lock of its own, lets
  others in between.
* A poolable is a number below `made`; the slot arrays are functions.

The pool is operational throughout: nothing here shuts it down, cancels it or wakes its waiters.
-/

namespace Gallus
namespace Pools

/-- `gallus_pool_type_t`. -/
inductive PoolType where
  | queue
  | index
deriving DecidableEq, Repr

/-- Where an acquirer is in its call. -/
inductive Point where
  /-- In no call. -/
  | idle
  /-- `add_poolable_by_index` past its checks, before the lock. -/
  | adding (index : Nat)
  /-- `acquire_poolable_by_index`: waits until the poolable it has looked up is free. -/
  | byIndex (p : Nat)
  /-- `acquire_poolable` of an `index` pool: looks for a free poolable, or waits for one. -/
  | scanning
  /-- `acquire_poolable` of a `queue` pool, before the first critical region. -/
  | entering
  /-- In that region, with the lock: the free queue was not empty. -/
  | trying
  /-- Between the regions: waits at the free queue. -/
  | waiting
  /-- Has got a poolable from the free queue, before the second critical region. -/
  | taking (p : Nat)
  /-- `release_poolable` past its checks, before the lock. -/
  | releasing (p : Nat)
  /-- In `release_poolable`, with the lock: puts the poolable into the free queue. -/
  | putting (p : Nat)
  /-- `poolable_destroy` of a poolable whose setup has failed, with the lock: it waits without limit
  for a teardown that nobody does. -/
  | destroying
deriving DecidableEq, Repr

/-- What making a poolable comes to: `poolable_create` and `poolable_setup`. -/
inductive Making where
  | done
  | createFails (ret : Result)
  | setupFails

/-- `gallus_pool_record`, the words of its poolables, and its callers. -/
structure Pool (τ : Type) where
  /-- `m_type`. -/
  type : PoolType
  /-- `m_n_max`. -/
  nMax : Nat
  /-- `m_objs`. -/
  objs : Nat → Option Nat
  /-- `m_obj_idx`: the poolables made so far, or the last slot that was filled. -/
  objIdx : Nat
  /-- `m_n_cur`. -/
  nCur : Nat
  /-- `m_n_free`. -/
  nFree : Nat
  /-- `m_free_q`. -/
  freeQ : List Nat
  /-- Each poolable's `m_is_used`. -/
  isUsed : Nat → Bool
  /-- Each poolable's `m_obj_idx`. -/
  slot : Nat → Nat
  /-- The poolables that have been made. -/
  made : Nat
  /-- `m_lck`, while it is held from one step to the next. -/
  lck : Option τ
  point : τ → Point
  /-- The result of an acquirer's last call. -/
  ret : τ → Result
  /-- `*pobjptr` after an acquirer's last acquisition. -/
  out : τ → Option Nat
  /-- Who holds a poolable. -/
  holders : Nat → List τ
  /-- A `NULL` pointer has been dereferenced. -/
  crashed : Bool

inductive Event (τ : Type) where
  | add (t : τ) (index : Nat)
  | acquire (t : τ)
  | acquireByIndex (t : τ) (index : Nat)
  | release (t : τ) (p : Nat)
  /-- The next segment of the call of `t`; `m` is what making a poolable in it comes to. -/
  | go (t : τ) (m : Making)
  /-- A wait of `t` ends with nothing: time-out, error, or the free queue's success without an
  element when the time to wait is `0`. -/
  | giveUp (t : τ) (r : Result)

/-- The capacity of the free queue: `(int64_t)(n_max_objs + 1)`. -/
def freeQMax (nMax : Nat) : Int := i64 (sizeT (nMax + 1))

/-- `gallus_pool_create`. A queue of no positive capacity is refused. -/
def Pool.create {τ : Type} (type : PoolType) (nMax : Nat) : Option (Pool τ) :=
  if 0 < nMax ∧ nMax < 2 ^ 64 ∧ (type = .queue → 0 < freeQMax nMax) then
    some
      { type := type, nMax := nMax, objs := fun _ => none, objIdx := 0, nCur := 0, nFree := nMax,
        freeQ := [], isUsed := fun _ => false, slot := fun _ => 0, made := 0, lck := none,
        point := fun _ => .idle, ret := fun _ => Result.ok, out := fun _ => none,
        holders := fun _ => [], crashed := false }
  else none

variable {τ : Type} [DecidableEq τ]

/-! ## What the segments do -/

def Pool.moveTo (s : Pool τ) (t : τ) (q : Point) : Pool τ :=
  { s with point := Function.update s.point t q }

/-- `return r`. -/
def Pool.leave (s : Pool τ) (t : τ) (r : Result) : Pool τ :=
  { s with point := Function.update s.point t .idle, ret := Function.update s.ret t r }

/-- A new poolable is made and put into the slot `index`. -/
def Pool.make (s : Pool τ) (index : Nat) : Pool τ :=
  { s with
    objs := Function.update s.objs index (some s.made)
    slot := Function.update s.slot s.made index
    isUsed := Function.update s.isUsed s.made false
    made := s.made + 1 }

/-- `*pobjptr = pobj; pobj->m_is_used = true; p->m_n_free--`, and the call returns. -/
def Pool.handOut (s : Pool τ) (t : τ) (p : Nat) : Pool τ :=
  { s with
    isUsed := Function.update s.isUsed p true
    nFree := sizeT (s.nFree - 1)
    out := Function.update s.out t (some p)
    holders := Lease.take s.holders p t
    point := Function.update s.point t .idle
    ret := Function.update s.ret t Result.ok }

/-- `p->m_n_free++` at the end of a release, and the call returns. -/
def Pool.giveBack (s : Pool τ) (t : τ) (p : Nat) : Pool τ :=
  { s with
    nFree := sizeT (s.nFree + 1)
    holders := Lease.drop s.holders p t
    point := Function.update s.point t .idle
    ret := Function.update s.ret t Result.ok }

/-- The scan of `gallus_pool_acquire_poolable`: the first free poolable below `m_obj_idx`. -/
def Pool.firstFree (s : Pool τ) : Option Nat :=
  (List.range s.objIdx).findSome? fun i => (s.objs i).filter fun p => !s.isUsed p

/-! ## The heads of the calls -/

/-- `gallus_pool_add_poolable_by_index`, its checks. -/
def Pool.add (s : Pool τ) (t : τ) (index : Nat) : Pool τ :=
  if s.type = .index ∧ index < s.nMax ∧ s.objs index = none then s.moveTo t (.adding index)
  else s.leave t Result.notOperational

/-- `gallus_pool_acquire_poolable`, its checks. -/
def Pool.acquire (s : Pool τ) (t : τ) : Pool τ :=
  { s with out := Function.update s.out t none }.moveTo t
    (match s.type with
      | .index => .scanning
      | .queue => .entering)

/-- `gallus_pool_acquire_poolable_by_index`, its checks. -/
def Pool.acquireByIndex (s : Pool τ) (t : τ) (index : Nat) : Pool τ :=
  if s.type = .index ∧ index ≤ s.objIdx then
    match s.objs index with
    | some p => { s with out := Function.update s.out t none }.moveTo t (.byIndex p)
    | none => s.leave t Result.notOperational
  else s.leave t Result.notOperational

/-- `gallus_pool_release_poolable`, its checks. -/
def Pool.release (s : Pool τ) (t : τ) (p : Nat) : Pool τ :=
  match s.type with
  | .index =>
    if s.objs (s.slot p) = some p then s.moveTo t (.releasing p)
    else s.leave t Result.invalidState
  | .queue => s.moveTo t (.releasing p)

/-! ## The regions -/

/-- The locked region of `gallus_pool_add_poolable_by_index`. The slot is not looked at again. -/
def Pool.addRegion (s : Pool τ) (t : τ) (index : Nat) : Making → Pool τ
  | .done =>
    { s.make index with objIdx := max s.objIdx index, nCur := sizeT (s.nCur + 1) }.leave t Result.ok
  | .createFails r => s.leave t r
  | .setupFails => { s with lck := some t }.moveTo t .destroying

/-- The first critical region of `gallus_pool_acquire_poolable`. -/
def Pool.firstRegion (s : Pool τ) (t : τ) (m : Making) : Pool τ :=
  if 0 < s.freeQ.length then { s with lck := some t }.moveTo t .trying
  else if s.objIdx < s.nMax then
    match m with
    | .done =>
      { s.make s.objIdx with objIdx := s.objIdx + 1, nCur := s.objIdx + 1 }.handOut t s.made
    | .createFails _ => s.moveTo t .waiting
    | .setupFails => { s with lck := some t }.moveTo t .destroying
  else s.moveTo t .waiting

/-- `gallus_bbq_get` with no time to wait, in the first region. On an emptied queue it returns
`GALLUS_RESULT_OK` and leaves `pobj` at `NULL`, which is dereferenced. -/
def Pool.tryGet (s : Pool τ) (t : τ) : Pool τ :=
  match s.freeQ with
  | p :: q => { s with freeQ := q, lck := none }.handOut t p
  | [] => { s with crashed := true }

/-- The locked region of `gallus_pool_release_poolable`, up to `gallus_bbq_put` in a `queue` pool.
-/
def Pool.releaseRegion (s : Pool τ) (t : τ) (p : Nat) : Pool τ :=
  match s.type with
  | .index =>
    if s.isUsed p then { s with isUsed := Function.update s.isUsed p false }.giveBack t p
    else s.leave t Result.invalidObject
  | .queue =>
    { s with isUsed := Function.update s.isUsed p false, lck := some t }.moveTo t (.putting p)

/-- The next segment of the call of `t`, if it is not held up. -/
def Pool.go (s : Pool τ) (t : τ) (m : Making) : Option (Pool τ) :=
  match s.point t with
  | .idle | .destroying => none
  | .adding index => if s.lck = none then some (s.addRegion t index m) else none
  | .byIndex p => if s.lck = none ∧ s.isUsed p = false then some (s.handOut t p) else none
  | .scanning => if s.lck = none then s.firstFree.map (s.handOut t) else none
  | .entering => if s.lck = none then some (s.firstRegion t m) else none
  | .trying => some (s.tryGet t)
  | .waiting =>
    match s.freeQ with
    | p :: q => some ({ s with freeQ := q }.moveTo t (.taking p))
    | [] => none
  | .taking p => if s.lck = none then some (s.handOut t p) else none
  | .releasing p => if s.lck = none then some (s.releaseRegion t p) else none
  | .putting p =>
    if s.freeQ.length < freeQMax s.nMax then
      some ({ s with freeQ := s.freeQ ++ [p], lck := none }.giveBack t p)
    else none

/-- The points of a wait that can end with nothing. -/
def Point.waits : Point → Bool
  | .byIndex _ | .scanning | .waiting => true
  | _ => false

/-- One step of the pool. A poolable that is released has been made. -/
def Pool.step (s : Pool τ) (e : Event τ) : Option (Pool τ) :=
  if s.crashed then none
  else match e with
    | .add t index => if s.point t = .idle then some (s.add t index) else none
    | .acquire t => if s.point t = .idle then some (s.acquire t) else none
    | .acquireByIndex t index =>
      if s.point t = .idle then some (s.acquireByIndex t index) else none
    | .release t p => if s.point t = .idle ∧ p < s.made then some (s.release t p) else none
    | .go t m => s.go t m
    | .giveUp t r => if (s.point t).waits then some (s.leave t r) else none

/-! ## What the pool is about -/

/-- The poolables that somebody holds. -/
def Pool.held (s : Pool τ) : Finset Nat := Lease.held (Finset.range s.made) s.holders

/-- No call is in progress. -/
def Pool.quiet (s : Pool τ) : Prop := ∀ t, s.point t = .idle

instance [Fintype τ] (s : Pool τ) : Decidable s.quiet :=
  inferInstanceAs (Decidable (∀ t, s.point t = .idle))

end Pools
end Gallus
