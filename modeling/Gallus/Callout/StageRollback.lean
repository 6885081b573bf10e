import Gallus.Basic
import Mathlib.Data.List.Range
import Mathlib.Logic.Function.Basic

/-!
# The queues of a new callout stage (`callout_stage.c`)

`s_create_callout_stage` creates a queue for each worker, and then the pipeline stage that they are
the workers of. If one of these fails, it destroys the queues in all the slots of its array.

* `cbufferCreate`, `cbufferDestroy`: a slot before and after. A queue that cannot be created leaves
  `NULL` in its slot, and `NULL` is not destroyed.
* `createLoop_fails`, `createLoop_ok`: the queues that are there when the loop ends, `Env.created`
  of them (`created_cases`).
* `foldl_destroy`: the slots of these queues are emptied in order.
* `rollsBack_iff`: the size given to `memset` is that of a `size_t`, so that only the first slot is
  `NULL` before the loop. The roll-back is right exactly if it does not come to another one that the
  loop has not.
-/

namespace Gallus
namespace CalloutStage

/-- `qs[i]`. -/
inductive Slot
  /-- As `malloc` has left it. -/
  | unset
  | null
  | queue (i : Nat)
  deriving DecidableEq, Repr

/-- How the sub-steps of one `gallus_cbuffer_create_with_size` end: `malloc`, and the mutex and the
conditions. -/
structure Making where
  memory : Bool
  lock : Result
  condPut : Result
  condGet : Result
  condAwakened : Result

/-- What it returns. -/
def Making.ret (m : Making) : Result :=
  if m.memory = true then
    if m.lock = Result.ok then
      if m.condPut = Result.ok then
        if m.condGet = Result.ok then m.condAwakened else m.condGet
      else m.condPut
    else m.lock
  else Result.noMemory

/-- `qs`, what has been done to its slots, and `s_cs`. -/
structure State where
  qs : Nat → Slot
  /-- `qs != NULL`, and it is not freed. -/
  allocated : Bool
  /-- The queues destroyed, in order. -/
  destroyed : List Nat
  /-- A slot without a value has been read, or one that is not there. -/
  crashed : Bool
  /-- The pipeline stage is created. -/
  stage : Bool
  isInitialized : Bool
  nWorkers : Nat
  /-- `s_cs.m_qs == qs`. -/
  kept : Bool

/-- Before the call: `s_cs` is zero. -/
def State.zero : State where
  qs _ := .unset
  allocated := false
  destroyed := []
  crashed := false
  stage := false
  isInitialized := false
  nWorkers := 0
  kept := false

def State.setSlot (s : State) (i : Nat) (v : Slot) : State :=
  { s with qs := Function.update s.qs i v }

/-- `gallus_bbq_create` on the slot `i`. -/
def cbufferCreate (s : State) (i : Nat) (m : Making) : Result × State :=
  let s := s.setSlot i .null
  if m.ret = Result.ok then (m.ret, s.setSlot i (.queue i)) else (m.ret, s)

/-- `gallus_bbq_destroy` on the slot `i`: of `NULL`, only `&(qs[0])` is `NULL`. -/
def cbufferDestroy (s : State) (i : Nat) : State :=
  if s.crashed then s
  else if s.allocated = true then
    match s.qs i with
    | .queue j => { s.setSlot i .null with destroyed := s.destroyed ++ [j] }
    | .null => s
    | .unset => { s with crashed := true }
  else if i = 0 then s
  else { s with crashed := true }

/-- The loop over the workers, with how many are `left`, from `i` on. -/
def createLoop (queue : Nat → Making) : Nat → Nat → Result → State → Result × State
  | 0, _, ret, s => (ret, s)
  | left + 1, i, _, s =>
    match cbufferCreate s i (queue i) with
    | (ret, s) => if ret ≠ Result.ok then (ret, s) else createLoop queue left (i + 1) ret s

/-- What `s_create_callout_stage` meets. -/
structure Env where
  /-- The `malloc` of `qs`. -/
  memory : Bool
  queue : Nat → Making
  /-- What `gallus_pipeline_stage_create` returns. -/
  stage : Result

/-- `malloc` and `memset`. -/
def allocQueues (s : State) : State :=
  -- `sizeof(sizeof(gallus_bbq_t) * n_workers)` bytes are those of one pointer.
  { s with allocated := true, qs := Function.update (fun _ => .unset) 0 .null }

/-- The part under `qs != NULL`. -/
def createQueues (nWorkers : Nat) (env : Env) (s : State) : Result × State :=
  match createLoop env.queue nWorkers 0 Result.anyFailures (allocQueues s) with
  | (ret, s) =>
    if ret = Result.ok then
      if env.stage = Result.ok then
        (env.stage, { s with stage := true, isInitialized := true, nWorkers, kept := true })
      else (env.stage, s)
    else (ret, s)

/-- `s_create_callout_stage`. -/
def createCalloutStage (nWorkers : Nat) (env : Env) : Result × State :=
  if nWorkers > 0 then
    match if env.memory then createQueues nWorkers env .zero
      else (Result.anyFailures, .zero) with
    | (ret, s) =>
      if ret ≠ Result.ok then
        let s := (List.range nWorkers).foldl cbufferDestroy s
        (ret, if s.crashed then s else { s with allocated := false })
      else (ret, s)
  else (Result.anyFailures, .zero)

/-! ## What has been created -/

/-- The first queue that cannot be created. -/
def Env.failing (env : Env) (nWorkers : Nat) : Option Nat :=
  (List.range nWorkers).find? fun i => decide ((env.queue i).ret ≠ Result.ok)

/-- How many queues are created. -/
def Env.created (env : Env) (nWorkers : Nat) : Nat :=
  if env.memory = true then (env.failing nWorkers).getD nWorkers else 0

/-- The result of the first thing that fails, or `OK`. -/
def Env.error (env : Env) (nWorkers : Nat) : Result :=
  if nWorkers = 0 ∨ env.memory = false then Result.anyFailures
  else if env.created nWorkers < nWorkers then (env.queue (env.created nWorkers)).ret
  else env.stage

section Created

variable {env : Env} {n : Nat}

theorem created_le : env.created n ≤ n := by
  unfold Env.created
  split_ifs
  · cases hf : env.failing n with
    | some k => exact Nat.le_of_lt (List.mem_range.mp (List.find?_range_eq_some.mp hf).2.1)
    | none => exact le_rfl
  · exact Nat.zero_le n

theorem created_of_no_memory (h : env.memory = false) : env.created n = 0 := by
  simp [Env.created, h]

/-- A queue fails and all those before it are created, or none fails. -/
theorem created_cases (h : env.memory = true) :
    (∃ k, env.created n = k ∧ k < n ∧ (env.queue k).ret ≠ Result.ok ∧
      ∀ j < k, (env.queue j).ret = Result.ok) ∨
    (env.created n = n ∧ ∀ j < n, (env.queue j).ret = Result.ok) := by
  unfold Env.created
  rw [if_pos h]
  cases hf : env.failing n with
  | some k =>
    obtain ⟨hk, hlt, hall⟩ := List.find?_range_eq_some.mp hf
    exact .inl ⟨k, rfl, List.mem_range.mp hlt, by simpa using hk,
      fun j hj => by simpa using hall j hj⟩
  | none =>
    have hall := List.find?_range_eq_none.mp hf
    exact .inr ⟨rfl, fun j hj => by simpa using hall j hj⟩

end Created

/-! ## The loop -/

/-- The array with its first `i` queues. -/
def State.filled (i : Nat) : State :=
  { State.zero with
    allocated := true
    qs j := if j < i then .queue j else if j = 0 then .null else .unset }

theorem allocQueues_zero : allocQueues .zero = .filled 0 := by
  unfold allocQueues State.filled
  simp only [State.zero, Nat.not_lt_zero, if_false, State.mk.injEq, and_true]
  funext j
  simp [Function.update_apply]

section Loop

variable {queue : Nat → Making} {i k : Nat}

theorem cbufferCreate_ok (h : (queue i).ret = Result.ok) :
    cbufferCreate (.filled i) i (queue i) = (Result.ok, .filled (i + 1)) := by
  unfold cbufferCreate State.setSlot
  rw [if_pos h, h, Prod.mk.injEq]
  refine ⟨rfl, ?_⟩
  simp only [Function.update_idem, State.filled, State.mk.injEq, and_true]
  funext j
  by_cases hj : j = i
  · subst hj
    simp
  · rw [Function.update_of_ne hj]
    simp only [show j < i + 1 ↔ j < i by omega]

theorem cbufferCreate_fails (h : (queue i).ret ≠ Result.ok) :
    cbufferCreate (.filled i) i (queue i) =
      ((queue i).ret, (State.filled i).setSlot i .null) :=
  if_neg h

/-- The loop, up to the first queue that cannot be created. -/
theorem createLoop_fails (left : Nat) (ret : Result)
    (hok : ∀ j, i ≤ j → j < k → (queue j).ret = Result.ok)
    (hfails : (queue k).ret ≠ Result.ok) (hi : i ≤ k) (hk : k < i + left) :
    createLoop queue left i ret (.filled i) =
      ((queue k).ret, (State.filled k).setSlot k .null) := by
  induction left generalizing i ret with
  | zero => omega
  | succ left ih =>
    unfold createLoop
    by_cases hik : i = k
    · subst hik
      rw [cbufferCreate_fails hfails]
      exact if_pos hfails
    · rw [cbufferCreate_ok (hok i le_rfl (by omega))]
      exact ih _ (fun j hj => hok j (by omega)) (by omega) (by omega)

/-- The loop, if no queue fails. -/
theorem createLoop_ok (left : Nat) (ret : Result)
    (hok : ∀ j, i ≤ j → j < i + (left + 1) → (queue j).ret = Result.ok) :
    createLoop queue (left + 1) i ret (.filled i) = (Result.ok, .filled (i + (left + 1))) := by
  induction left generalizing i ret with
  | zero =>
    unfold createLoop
    rw [cbufferCreate_ok (hok i le_rfl (by omega))]
    rfl
  | succ left ih =>
    unfold createLoop
    rw [cbufferCreate_ok (hok i le_rfl (by omega))]
    dsimp only
    rw [if_neg (by simp), ih _ fun j hj hlt => hok j (by omega) (by omega),
      show i + 1 + (left + 1) = i + (left + 1 + 1) by omega]

end Loop

/-! ## The roll-back -/

/-- The slots of the queues that are there are emptied, each once. -/
theorem foldl_destroy {s : State} (hsound : s.crashed = false) (halloc : s.allocated = true)
    (hnone : s.destroyed = []) {k : Nat} (hqs : ∀ i < k, s.qs i = .queue i) :
    (List.range k).foldl cbufferDestroy s =
      { s with qs := fun i => if i < k then .null else s.qs i, destroyed := List.range k } := by
  induction k with
  | zero =>
    simp only [List.range_zero, List.foldl_nil, Nat.not_lt_zero, if_false]
    rw [← hnone]
  | succ k ih =>
    rw [List.range_succ, List.foldl_append, ih fun i hi => hqs i (by omega)]
    have hslot : s.qs k = .queue k := hqs k (Nat.lt_succ_self k)
    simp only [List.foldl_cons, List.foldl_nil, cbufferDestroy, hsound, halloc, hslot,
      Nat.lt_irrefl, if_false, if_true, Bool.false_eq_true, State.setSlot, State.mk.injEq, and_true]
    funext i
    by_cases hi : i = k
    · subst hi
      simp
    · rw [Function.update_of_ne hi]
      simp only [show i < k + 1 ↔ i < k by omega]

/-- A slot without a value is read. -/
theorem cbufferDestroy_unset {s : State} {i : Nat} (halloc : s.allocated = true)
    (hslot : s.qs i = .unset) : (cbufferDestroy s i).crashed = true := by
  unfold cbufferDestroy
  split_ifs with hcrash
  · exact hcrash
  · rw [hslot]

/-- After a crash nothing else happens. -/
theorem foldl_crashed {s : State} (h : s.crashed = true) (l : List Nat) :
    l.foldl cbufferDestroy s = s := by
  induction l with
  | nil => rfl
  | cons i l ih =>
    rw [List.foldl_cons, show cbufferDestroy s i = s from if_pos h, ih]

/-- A crash at the slot `i`. -/
theorem foldl_destroy_crashes {s : State} {i n : Nat} (hi : i < n)
    (h : (cbufferDestroy ((List.range i).foldl cbufferDestroy s) i).crashed = true) :
    ((List.range n).foldl cbufferDestroy s).crashed = true := by
  obtain ⟨m, rfl⟩ : ∃ m, n = i + 1 + m := ⟨n - (i + 1), by omega⟩
  rw [List.range_add, List.foldl_append, List.range_succ, List.foldl_append, List.foldl_cons,
    List.foldl_nil, foldl_crashed h]
  exact h

/-- The call has come to an error, and nothing of what it has made is left. -/
structure RolledBack (nWorkers : Nat) (env : Env) (out : Result × State) : Prop where
  ret : out.1 = env.error nWorkers
  destroyed : out.2.destroyed = List.range (env.created nWorkers)
  sound : out.2.crashed = false
  noQueues : out.2.allocated = false
  noStage : out.2.stage = false
  noRecord : out.2.isInitialized = false ∧ out.2.nWorkers = 0 ∧ out.2.kept = false

/-- The roll-back of what is in `s`. -/
def rollBack (nWorkers : Nat) (s : State) : State :=
  let s := (List.range nWorkers).foldl cbufferDestroy s
  if s.crashed then s else { s with allocated := false }

theorem rollBack_crashed {nWorkers : Nat} {s : State}
    (h : ((List.range nWorkers).foldl cbufferDestroy s).crashed = true) :
    (rollBack nWorkers s).crashed = true := by
  unfold rollBack
  rw [if_pos h]
  exact h

section Calls

variable {n k : Nat} {env : Env}

theorem createCalloutStage_of_no_memory (hn : 0 < n) (h : env.memory = false) :
    createCalloutStage n env = (Result.anyFailures, rollBack n .zero) := by
  unfold createCalloutStage
  rw [if_pos hn, h]
  rfl

theorem createCalloutStage_of_fails (h : env.memory = true) (hk : k < n)
    (hok : ∀ j < k, (env.queue j).ret = Result.ok) (hfails : (env.queue k).ret ≠ Result.ok) :
    createCalloutStage n env =
      ((env.queue k).ret, rollBack n ((State.filled k).setSlot k .null)) := by
  have hloop := createLoop_fails n Result.anyFailures (fun j _ => hok j) hfails (Nat.zero_le k)
    (by simpa using hk)
  unfold createCalloutStage createQueues
  rw [if_pos (by omega), h, if_pos rfl, allocQueues_zero, hloop]
  dsimp only
  rw [if_neg hfails]
  exact if_pos hfails

theorem createCalloutStage_of_ok (h : env.memory = true) (hn : 0 < n)
    (hok : ∀ j < n, (env.queue j).ret = Result.ok) (hstage : env.stage ≠ Result.ok) :
    createCalloutStage n env = (env.stage, rollBack n (.filled n)) := by
  obtain ⟨m, rfl⟩ : ∃ m, n = m + 1 := ⟨n - 1, by omega⟩
  have hloop := createLoop_ok (i := 0) m Result.anyFailures fun j _ hj =>
    hok j (by simpa using hj)
  unfold createCalloutStage createQueues
  rw [if_pos hn, h, if_pos rfl, allocQueues_zero, hloop]
  dsimp only
  rw [if_pos rfl, if_neg hstage, Nat.zero_add]
  exact if_pos hstage

/-- The slots up to `k` of the array whose queue `k` has failed. -/
theorem foldl_destroy_fails :
    (List.range (k + 1)).foldl cbufferDestroy ((State.filled k).setSlot k .null) =
      { (State.filled k).setSlot k .null with
        qs := fun i => if i < k then .null else ((State.filled k).setSlot k .null).qs i
        destroyed := List.range k } := by
  rw [List.range_succ, List.foldl_append, foldl_destroy rfl rfl rfl fun i hi => ?_]
  · simp [cbufferDestroy, State.setSlot, State.filled, State.zero]
  · simp [State.setSlot, State.filled, hi, Function.update_of_ne (Nat.ne_of_lt hi)]

/-- The slots after `k` have no value. -/
theorem rollBack_fails_crashes (hk : k + 1 < n) :
    (rollBack n ((State.filled k).setSlot k .null)).crashed = true := by
  refine rollBack_crashed (foldl_destroy_crashes hk ?_)
  rw [foldl_destroy_fails]
  refine cbufferDestroy_unset rfl ?_
  dsimp only
  rw [if_neg (by omega), State.setSlot, State.filled]
  dsimp only
  rw [Function.update_of_ne (by omega), if_neg (by omega), if_neg (by omega)]

end Calls

section Errors

variable {n : Nat} {env : Env}

theorem rolledBack_fails {k : Nat} (hret : env.error (k + 1) = (env.queue k).ret)
    (hcreated : env.created (k + 1) = k) :
    RolledBack (k + 1) env
      ((env.queue k).ret, rollBack (k + 1) ((State.filled k).setSlot k .null)) := by
  unfold rollBack
  rw [foldl_destroy_fails]
  exact ⟨hret.symm, by rw [hcreated]; rfl, rfl, rfl, rfl, rfl, rfl, rfl⟩

theorem rolledBack_filled (hret : env.error n = env.stage) (hcreated : env.created n = n) :
    RolledBack n env (env.stage, rollBack n (.filled n)) := by
  unfold rollBack
  rw [foldl_destroy rfl rfl rfl fun i hi => if_pos hi]
  exact ⟨hret.symm, by rw [hcreated]; rfl, rfl, rfl, rfl, rfl, rfl, rfl⟩

/-- Of an array that is not there only the first slot is passed over. -/
theorem rollBack_zero_crashes (hn : 1 < n) : (rollBack n .zero).crashed = true :=
  rollBack_crashed (foldl_destroy_crashes hn rfl)

theorem rolledBack_no_memory (hn : n ≤ 1) (h : n = 0 ∨ env.memory = false) :
    RolledBack n env (Result.anyFailures, rollBack n .zero) := by
  have hcreated : env.created n = 0 := by
    rcases h with rfl | h
    · have hle : env.created 0 ≤ 0 := created_le
      omega
    · exact created_of_no_memory h
  have hroll : rollBack n .zero = .zero := by
    match n, hn with
    | 0, _ => rfl
    | 1, _ => rfl
  rw [hroll]
  exact ⟨(if_pos h).symm, by rw [hcreated]; rfl, rfl, rfl, rfl, rfl, rfl, rfl⟩

end Errors

/-- **The roll-back.** Whatever fails, the queues created are destroyed, each once, nothing else is
touched and nothing is left, exactly if at most one queue is missing: the last one, or the only one
of an array that there is no memory for. -/
theorem rollsBack_iff (n : Nat) (env : Env) :
    (env.error n ≠ Result.ok → RolledBack n env (createCalloutStage n env)) ↔
      n ≤ env.created n + 1 := by
  rcases Nat.eq_zero_or_pos n with rfl | hn
  · exact ⟨fun _ => Nat.zero_le _, fun _ _ => rolledBack_no_memory (Nat.zero_le 1) (.inl rfl)⟩
  cases hmem : env.memory with
  | false =>
    have herror : env.error n ≠ Result.ok := by
      rw [Env.error, if_pos (.inr hmem)]
      decide
    rw [createCalloutStage_of_no_memory hn hmem, created_of_no_memory hmem]
    refine ⟨fun h => ?_, fun h _ => rolledBack_no_memory h (.inr hmem)⟩
    by_contra hlt
    have hcrash := rollBack_zero_crashes (n := n) (by omega)
    exact absurd ((h herror).sound.symm.trans hcrash) Bool.false_ne_true
  | true =>
    have hnot : ¬(n = 0 ∨ env.memory = false) := by
      simp only [hmem, Bool.true_eq_false, or_false]
      omega
    rcases created_cases (n := n) hmem with ⟨k, hcreated, hk, hfails, hok⟩ | ⟨hcreated, hok⟩
    · have herror : env.error n = (env.queue k).ret := by
        rw [Env.error, if_neg hnot, hcreated, if_pos hk]
      rw [createCalloutStage_of_fails hmem hk hok hfails, hcreated]
      refine ⟨fun h => ?_, fun h _ => ?_⟩
      · by_contra hlt
        have hcrash := rollBack_fails_crashes (n := n) (k := k) (by omega)
        exact absurd ((h (herror ▸ hfails)).sound.symm.trans hcrash) Bool.false_ne_true
      · obtain rfl : n = k + 1 := by omega
        exact rolledBack_fails herror hcreated
    · have herror : env.error n = env.stage := by
        rw [Env.error, if_neg hnot, hcreated, if_neg (Nat.lt_irrefl n)]
      refine ⟨fun _ => by omega, fun _ hne => ?_⟩
      rw [createCalloutStage_of_ok hmem hn hok (herror ▸ hne)]
      exact rolledBack_filled herror hcreated

/-- Only the first of two queues fails: the slot of the other one is read. -/
theorem rollsBack_two :
    let env : Env :=
      { memory := true
        queue := fun i => ⟨i ≠ 0, Result.ok, Result.ok, Result.ok, Result.ok⟩
        stage := Result.ok }
    env.created 2 = 0 ∧ env.error 2 = Result.noMemory ∧
      (createCalloutStage 2 env).2.crashed = true ∧
      ¬RolledBack 2 env (createCalloutStage 2 env) := by
  refine ⟨by decide, by decide, by decide, fun h => ?_⟩
  exact absurd h.sound (by decide)

end CalloutStage
end Gallus
