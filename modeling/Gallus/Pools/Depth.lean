import Gallus.Pools.Whole

/-!
# The lock of a pool after a call

* `Api`: a call of any function of `pool.c`, with all that happens around it; `Api.run` is the call.
* One lemma per function says how much deeper the caller holds `m_lck` when it returns.
* `depth_iff_leavesLock`: exactly the calls that wake up the waiters of an `index` pool, alone or in
  a shutdown, do not leave the lock as they find it. `wakeup_locks`: such a call.
-/

namespace Gallus
namespace Pools

open Locks

variable {ν : Type}

/-! ## The functions for one poolable -/

theorem acquireLoop_adds (turns : List Turn) : Adds 0 (acquireLoop turns : Call ν _) := by
  induction turns with
  | nil => exact .failure
  | cons t ts ih =>
    unfold acquireLoop
    split_ifs
    · exact .pure _
    · exact .pure _
    · exact .pure _
    · exact ih

theorem addPoolableByIndex_adds (p : Option PoolRec) (index : Nat) (made : Result) :
    Adds 0 (addPoolableByIndex p index made : Call ν _) := by
  unfold addPoolableByIndex
  split
  · exact .pure _
  · split_ifs
    · exact .locked (.pure _)
    all_goals exact .pure _

theorem acquirePoolableByIndex_adds (p : Option PoolRec) (index : Nat) (turns : List Turn) :
    Adds 0 (acquirePoolableByIndex p index turns : Call ν _) := by
  unfold acquirePoolableByIndex
  split
  · exact .pure _
  · split_ifs
    · exact .locked (acquireLoop_adds turns)
    all_goals exact .pure _

theorem lateCritical_adds (s : Supply) : Adds 0 (lateCritical s : Call ν _) := by
  unfold lateCritical
  split_ifs
  · exact .locked (.pure _)
  · exact .pure _

theorem acquirePoolable_adds (p : Option PoolRec) (turns : List Turn) (s : Supply) :
    Adds 0 (acquirePoolable p turns s : Call ν _) := by
  unfold acquirePoolable
  split
  · exact .pure _
  · split_ifs
    · split
      · exact .locked (acquireLoop_adds turns)
      · refine Adds.region (.pure _) fun r => ?_
        split_ifs
        · exact .pure _
        · exact lateCritical_adds s
    · exact .pure _

theorem releasePoolable_adds (p : Option PoolRec) (inSlot isUsed : Bool) (given : Result) :
    Adds 0 (releasePoolable p inSlot isUsed given : Call ν _) := by
  unfold releasePoolable
  split
  · exact .pure _
  · split
    · split
      · split
        · exact .locked (.pure _)
        · exact .pure _
      · exact .locked (.pure _)
    · exact .pure _

theorem getOutstandingObjNum_adds (p : Option PoolRec) :
    Adds 0 (getOutstandingObjNum p : Call ν _) := by
  unfold getOutstandingObjNum
  split
  · exact .pure _
  · exact .locked (.pure _)

/-! ## The functions for the whole pool -/

/-- The pool is of type `index`, and awake or shutting down: `gallus_pool_wakeup` takes its lock. -/
def PoolRec.locksOnWakeup (p : PoolRec) : Prop :=
  p.type = .index ∧ (p.state = .operational ∨ p.state = .shuttingdown)

instance (p : PoolRec) : Decidable p.locksOnWakeup := inferInstanceAs (Decidable (_ ∧ _))

theorem wakeup_adds (p : PoolRec) (w : Waking) :
    Adds (if p.locksOnWakeup then 2 else 0) (wakeup (some p) w : Call ν _) := by
  unfold wakeup PoolRec.locksOnWakeup
  dsimp only
  by_cases hstate : p.state = .operational ∨ p.state = .shuttingdown
  · simp only [hstate, and_true, if_true]
    cases p.type with
    | index =>
      exact Adds.lock.bind (k := 1) fun _ => (Adds.pure _).seq fun _ =>
        Adds.lock.bind (k := 0) fun _ => .pure _
    | queue => exact .pure _
  · simp only [hstate, and_false, if_false]
    exact .pure _

theorem individually_adds (ret : Nat → Result) (pobj : Option Nat) :
    Adds 0 (individually ret pobj : Call ν _) := by
  cases pobj with
  | none => exact .pure _
  | some p => exact (Adds.change _).seq fun _ => .pure _

theorem sweep_adds (objs : Nat → Option Nat) (ret : Nat → Result) (slots : List Nat) (s : Sweep) :
    Adds 0 (sweep objs ret slots s : Call ν _) := by
  induction slots generalizing s with
  | nil => exact .pure _
  | cons i slots ih => exact (individually_adds ret (objs i)).seq fun r => ih _

theorem shutdownRegion_adds (p : PoolRec) (w : Waking) (ret : Nat → Result) :
    Adds (if p.type = .index then 2 else 0) (shutdownRegion p w ret : Call ν _) := by
  have hwakeup := wakeup_adds (ν := ν) { p with state := .shuttingdown } w
  have hlocks : ({ p with state := .shuttingdown } : PoolRec).locksOnWakeup ↔ p.type = .index := by
    simp [PoolRec.locksOnWakeup]
  rw [if_congr hlocks rfl rfl] at hwakeup
  have h := hwakeup.bind (k := 0) (f := fun r =>
    if r = Result.ok then sweep p.objs ret (List.range p.objIdx) ⟨r, false, Result.anyFailures⟩
    else pure ⟨r, false, Result.anyFailures⟩) fun r => by
      split
      · exact sweep_adds _ _ _ _
      · exact .pure _
  rw [Int.add_zero] at h
  exact h

theorem shutdown_adds (p : PoolRec) (w : Waking) (ret : Nat → Result) :
    Adds (if p.type = .index ∧ p.state = .operational then 2 else 0)
      (shutdown (some p) w ret : Call ν _) := by
  unfold shutdown
  dsimp only
  by_cases hstate : p.state = .operational
  · simp only [hstate, and_true, if_true]
    exact .locked (shutdownRegion_adds p w ret)
  · simp only [hstate, and_false, if_false]
    exact .pure _

theorem cancel_adds (p : Option PoolRec) (ret : Nat → Result) :
    Adds 0 (cancel p ret : Call ν _) := by
  unfold cancel
  split
  · exact .pure _
  · split_ifs
    · exact .locked (sweep_adds _ _ _ _)
    all_goals exact .pure _

theorem waitRound_adds (objs : Nat → Option Nat) (ret : Nat → Result) (slots : List Nat)
    (s : Result × Nat) : Adds 0 (waitRound objs ret slots s : Call ν _) := by
  induction slots generalizing s with
  | nil => exact .pure _
  | cons i slots ih => exact (individually_adds ret (objs i)).seq fun r => ih _

theorem waitRounds_adds (p : PoolRec) (timeout : Int) (w : Waiting) (rounds k : Nat)
    (ret : Result) : Adds 0 (waitRounds p timeout w rounds k ret : Call ν _) := by
  induction rounds generalizing k ret with
  | zero => exact .failure
  | succ rounds ih =>
    refine (waitRound_adds _ _ _ _).seq fun r => ?_
    split_ifs
    · exact ih _ _
    · exact .pure _

theorem wait_adds (p : Option PoolRec) (timeout : Int) (w : Waiting) :
    Adds 0 (wait p timeout w : Call ν _) := by
  unfold wait
  split
  · exact .pure _
  · split_ifs
    · exact .locked (waitRounds_adds _ _ _ _ _ _)
    all_goals exact .pure _

/-! ## A pool and its name -/

theorem getPool_adds (name : Option ν) : Adds 0 (getPool name) := by
  unfold getPool
  split
  · exact .pure _
  · refine Adds.get.seq fun h => ?_
    split <;> exact .pure _

variable [DecidableEq ν]

omit [DecidableEq ν] in
theorem destroyPoolables_adds (objs : List (Option Nat)) :
    Adds 0 (destroyPoolables objs : Call ν _) := by
  induction objs with
  | nil => exact .pure _
  | cons pobj objs ih =>
    cases pobj with
    | none => exact ih
    | some p => exact (individually_adds _ _).seq fun _ => ih

theorem destroy_adds (p : Built ν) : Adds 0 (destroy p) := by
  refine (Adds.change _).seq fun _ => Adds.seq ?_ fun _ => .change _
  unfold Built.empty
  split
  · split
    · exact .locked (destroyPoolables_adds _)
    · exact destroyPoolables_adds _
  · exact .pure _

theorem finish_adds (p : Built ν) (ret : Result) : Adds 0 (finish p ret) := by
  unfold finish
  split
  · exact .pure _
  · exact (destroy_adds p).seq fun _ => .pure _

theorem build_adds (name : ν) (type : PoolType) (nMax : Nat) (o : Allocations) :
    Adds 0 (build name type nMax o) := by
  refine Adds.get.seq fun h => (Adds.change _).seq fun _ => ?_
  dsimp only
  split
  · exact (Adds.change _).seq fun _ => finish_adds _ _
  · exact finish_adds _ _

theorem create_adds (a : CreateArgs ν) (o : Allocations) : Adds 0 (create a o) := by
  unfold create
  split
  · split
    · split
      · exact build_adds _ _ _ _
      · exact .pure _
    · exact .pure _
  · exact .pure _

/-! ## All functions -/

/-- A call of a function of `pool.c`, with what happens around it. -/
inductive Api (ν : Type) where
  | create (a : CreateArgs ν) (o : Allocations)
  | destroy (p : Option (Built ν))
  | getPool (name : Option ν)
  | addPoolableByIndex (p : Option PoolRec) (index : Nat) (made : Result)
  | acquirePoolableByIndex (p : Option PoolRec) (index : Nat) (turns : List Turn)
  | acquirePoolable (p : Option PoolRec) (turns : List Turn) (s : Supply)
  | releasePoolable (p : Option PoolRec) (inSlot isUsed : Bool) (given : Result)
  | getOutstandingObjNum (p : Option PoolRec)
  | wakeup (p : Option PoolRec) (w : Waking)
  | shutdown (p : Option PoolRec) (w : Waking) (ret : Nat → Result)
  | cancel (p : Option PoolRec) (ret : Nat → Result)
  | wait (p : Option PoolRec) (timeout : Int) (w : Waiting)

/-- The call. -/
def Api.run : Api ν → Call ν Result
  | .create a o => Pools.create a o
  | .destroy none => return Result.ok
  | .destroy (some p) => do
    Pools.destroy p
    return Result.ok
  | .getPool name => do
    let r ← Pools.getPool name
    return r.1
  | .addPoolableByIndex p index made => Pools.addPoolableByIndex p index made
  | .acquirePoolableByIndex p index turns => Pools.acquirePoolableByIndex p index turns
  | .acquirePoolable p turns s => Pools.acquirePoolable p turns s
  | .releasePoolable p inSlot isUsed given => Pools.releasePoolable p inSlot isUsed given
  | .getOutstandingObjNum p => Pools.getOutstandingObjNum p
  | .wakeup p w => Pools.wakeup p w
  | .shutdown p w ret => Pools.shutdown p w ret
  | .cancel p ret => Pools.cancel p ret
  | .wait p timeout w => Pools.wait p timeout w

/-- The call wakes up the waiters of an `index` pool. -/
def Api.wakesIndexPool : Api ν → Bool
  | .wakeup (some p) _ => p.type = .index ∧ (p.state = .operational ∨ p.state = .shuttingdown)
  | .shutdown (some p) _ _ => p.type = .index ∧ p.state = .operational
  | _ => false

/-- What a call adds to the depth. -/
theorem Api.run_adds (c : Api ν) : Adds (if c.wakesIndexPool then 2 else 0) c.run := by
  cases c with
  | create a o => exact create_adds a o
  | destroy p =>
    cases p with
    | none => exact .pure _
    | some p => exact (destroy_adds p).seq fun _ => .pure _
  | getPool name => exact (getPool_adds name).seq fun _ => .pure _
  | addPoolableByIndex p index made => exact addPoolableByIndex_adds p index made
  | acquirePoolableByIndex p index turns => exact acquirePoolableByIndex_adds p index turns
  | acquirePoolable p turns s => exact acquirePoolable_adds p turns s
  | releasePoolable p inSlot isUsed given => exact releasePoolable_adds p inSlot isUsed given
  | getOutstandingObjNum p => exact getOutstandingObjNum_adds p
  | wakeup p w =>
    cases p with
    | none => exact .pure _
    | some p =>
      have hc : (Api.wakeup (some p) w : Api ν).wakesIndexPool = true ↔ p.locksOnWakeup := by
        simp [Api.wakesIndexPool, PoolRec.locksOnWakeup]
      rw [if_congr hc rfl rfl]
      exact wakeup_adds p w
  | shutdown p w ret =>
    cases p with
    | none => exact .pure _
    | some p =>
      have hc : (Api.shutdown (some p) w ret : Api ν).wakesIndexPool = true ↔
          p.type = .index ∧ p.state = .operational := by
        simp [Api.wakesIndexPool]
      rw [if_congr hc rfl rfl]
      exact shutdown_adds p w ret
  | cancel p ret => exact cancel_adds p ret
  | wait p timeout w => exact wait_adds p timeout w

/-- **The depth of the lock.** Whatever a call comes to, its caller holds `m_lck` as deep as before,
exactly if the call does not wake up the waiters of an `index` pool. -/
theorem depth_iff_leavesLock (c : Api ν) {h h' : Held (Shared ν)} {r : Result}
    (hrun : c.run.run h = some (r, h')) : h'.depth = h.depth ↔ c.wakesIndexPool = false := by
  have hadds := c.run_adds h r h' hrun
  cases hc : c.wakesIndexPool <;> simp only [hc, if_true, if_false, Bool.false_eq_true] at hadds <;>
    simp only [reduceCtorEq, iff_true, iff_false] <;> omega

/-- An operational pool of one slot. -/
def onePool (type : PoolType) : PoolRec := ⟨type, .operational, false, 1, 0, 1, fun _ => none⟩

/-- Nothing has been called yet, and the lock is not held. -/
def fresh : Held (Shared Nat) := ⟨0, [], fun _ => none, fun _ => false, 0⟩

/-- A shutdown of a `queue` pool. -/
def shutdownQueue : Api Nat :=
  .shutdown (some (onePool .queue)) ⟨Result.ok, 0, Result.ok, Result.ok⟩ fun _ => Result.ok

theorem depth_iff_leavesLock_queue : ∃ h', shutdownQueue.run.run fresh = some (Result.ok, h') ∧
    h'.depth = fresh.depth := by
  have hrun : shutdownQueue.run.run fresh = some (Result.ok, fresh) := rfl
  exact ⟨fresh, hrun, (depth_iff_leavesLock shutdownQueue hrun).mpr rfl⟩

/-- A wakeup of an `index` pool without waiters returns, and its caller holds the lock twice. -/
theorem wakeup_locks : ∃ h',
    (Api.wakeup (some (onePool .index)) ⟨Result.ok, 0, Result.ok, Result.ok⟩).run.run fresh =
      some (Result.ok, h') ∧ h'.depth = 2 ∧ h'.depth ≠ fresh.depth :=
  ⟨{ fresh with depth := 2 }, rfl, rfl, by decide⟩

end Pools
end Gallus
