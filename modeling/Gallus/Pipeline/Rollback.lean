import Gallus.Basic
import Mathlib.Data.List.Range
import Mathlib.Logic.Function.Basic

/-!
# The workers of a new stage (`pipeline_stage.c`, `pipeline_worker.c`)

`s_init_stage` creates the workers one by one, and destroys what it has created if one of them
fails.

* `workerCreate`: `s_worker_create`, with a clean-up of its own for each of its sub-steps.
* `createLoop_fails`: the workers before the one that fails are there, and nothing of that one.
* `initStage_rollback`: `i` has been counted up once more when the loop ends, so that the roll-back
  runs on into the slot of the worker that has failed.
* `initStage_not_rollsBack`: it never is the roll-back of the workers created.
-/

namespace Gallus
namespace StageInit

/-- What `s_worker_create` allocates for the worker `i`. -/
inductive Block
  | record (i : Nat)
  | buffer (i : Nat)
  deriving DecidableEq, Repr

/-- Whose block it is. -/
def Block.owner : Block → Nat
  | .record i | .buffer i => i

/-- `m_workers[i]`. -/
inductive Slot
  /-- As `malloc` has left it. -/
  | unset
  | null
  | worker (i : Nat)
  deriving DecidableEq, Repr

/-- How the sub-steps of one `s_worker_create` end: the two `malloc`s, and
`gallus_thread_create`, which leaves the memory it is given to its caller if it fails. -/
structure Creation where
  record : Bool
  buffer : Bool
  thread : Result
  deriving DecidableEq

/-- All the sub-steps succeed. -/
def Creation.succeeds (c : Creation) : Prop :=
  c.record = true ∧ c.buffer = true ∧ c.thread = Result.ok

instance (c : Creation) : Decidable c.succeeds := inferInstanceAs (Decidable (_ ∧ _ ∧ _))

/-- `gallus_pipeline_stage_record`, and the memory of its workers. -/
structure Stage where
  /-- `m_workers`. -/
  slots : Nat → Slot
  nWorkers : Nat
  /-- Allocated, and not freed. -/
  live : Block → Bool
  /-- The workers given to `gallus_thread_destroy`, in order. -/
  destroyed : List Nat
  /-- The slots that `s_worker_destroy` has been called with, in order. -/
  touched : List Nat
  /-- A pointer to no object has been followed or freed. -/
  crashed : Bool

/-- As `memset` leaves it, with `m_workers` from `malloc`. -/
def Stage.zero : Stage where
  slots _ := .unset
  nWorkers := 0
  live _ := false
  destroyed := []
  touched := []
  crashed := false

namespace Stage

def alloc (s : Stage) (b : Block) : Stage := { s with live := Function.update s.live b true }

def free (s : Stage) (b : Block) : Stage :=
  if s.live b then { s with live := Function.update s.live b false } else { s with crashed := true }

def setSlot (s : Stage) (i : Nat) (v : Slot) : Stage :=
  { s with slots := Function.update s.slots i v }

end Stage

/-- `s_worker_create`. -/
def workerCreate (s : Stage) (i : Nat) (c : Creation) : Result × Stage :=
  let s := s.setSlot i .null
  let s := if c.record then s.alloc (.record i) else s
  let s := if c.buffer then s.alloc (.buffer i) else s
  let ret := if c.record ∧ c.buffer then c.thread else Result.noMemory
  if ret = Result.ok then (ret, s.setSlot i (.worker i))
  else
    -- `free(NULL)` does nothing.
    let s := if c.record then s.free (.record i) else s
    let s := if c.buffer then s.free (.buffer i) else s
    (ret, s)

/-- `s_worker_destroy`: the record is freed by `gallus_thread_destroy`, which leaves `NULL` in the
slot. -/
def workerDestroy (s : Stage) (slot : Nat) : Stage :=
  if s.crashed then s
  else
    let s := { s with touched := s.touched ++ [slot] }
    match s.slots slot with
    | .worker i =>
      let s := s.free (.buffer i)
      { (s.free (.record i)).setSlot slot .null with destroyed := s.destroyed ++ [i] }
    | .unset | .null => { s with crashed := true }

/-- The loop over the workers, with how many are `left`, from `i` on: `ret`, and `i` behind the
loop. -/
def createLoop (creations : Nat → Creation) : Nat → Nat → Stage → Result × Nat × Stage
  | 0, i, s => (Result.ok, i, s)
  | left + 1, i, s =>
    match workerCreate s i (creations i) with
    | (ret, s) => if ret = Result.ok then createLoop creations left (i + 1) s else (ret, i + 1, s)

/-- What `s_init_stage` meets. -/
structure Env where
  /-- `s_find_worker_proc` finds a loop for the procedures. -/
  proc : Bool
  /-- The first of its locks, conditions and barriers that cannot be created, else `OK`. -/
  locks : Result
  /-- The two `malloc`s. -/
  name : Bool
  workers : Bool
  creations : Nat → Creation

/-- `s_init_stage`, on a stage of its caller. -/
def initStage (nWorkers : Nat) (env : Env) : Result × Stage :=
  if env.proc then
    if env.locks = Result.ok then
      if env.name ∧ env.workers then
        match createLoop env.creations nWorkers 0 .zero with
        | (ret, i, s) =>
          if ret = Result.ok then (Result.ok, { s with nWorkers })
          else (ret, (List.range i).foldl workerDestroy s)
      else (Result.noMemory, .zero)
    else (env.locks, .zero)
  else (Result.invalidArgs, .zero)

/-! ## The loop -/

/-- The stage with its first `i` workers. -/
def Stage.filled (i : Nat) : Stage where
  slots j := if j < i then .worker j else .unset
  nWorkers := 0
  live b := decide (b.owner < i)
  destroyed := []
  touched := []
  crashed := false

theorem Stage.filled_zero : Stage.filled 0 = .zero := by
  simp [Stage.filled, Stage.zero]

namespace Stage

variable {s : Stage} {b b' : Block}

/-- What has been allocated is freed again. -/
theorem free_alloc (h : s.live b = false) : (s.alloc b).free b = s := by
  unfold alloc free
  simp only [Function.update_self, if_true, Function.update_idem, ← h, Function.update_eq_self]

theorem free_alloc_alloc (h : s.live b = false) (hb : b ≠ b') :
    ((s.alloc b).alloc b').free b = s.alloc b' := by
  have hcomm : (s.alloc b).alloc b' = (s.alloc b').alloc b := by
    unfold alloc
    dsimp only
    rw [Function.update_comm hb]
  rw [hcomm]
  refine free_alloc ?_
  unfold alloc
  dsimp only
  rwa [Function.update_of_ne hb]

end Stage

section Loop

variable {c : Creation} {i : Nat}

/-- A worker more. -/
theorem workerCreate_succeeds (hc : c.succeeds) :
    workerCreate (.filled i) i c = (Result.ok, .filled (i + 1)) := by
  obtain ⟨hrecord, hbuffer, hthread⟩ := hc
  unfold workerCreate
  simp only [hrecord, hbuffer, hthread, and_self, if_true, Prod.mk.injEq, true_and]
  unfold Stage.filled Stage.setSlot Stage.alloc
  simp only [Function.update_idem, Stage.mk.injEq, and_true, true_and]
  have hlt : ∀ j, j ≠ i → decide (j < i) = decide (j < i + 1) := fun j hj => by
    rw [decide_eq_decide]
    omega
  constructor
  · funext j
    by_cases hj : j = i
    · subst hj
      simp
    · rw [Function.update_of_ne hj]
      simp only [show j < i + 1 ↔ j < i by omega]
  · funext b
    cases b with
    | record j =>
      by_cases hj : j = i
      · subst hj
        simp [Block.owner]
      · rw [Function.update_of_ne (by simp), Function.update_of_ne (by simpa using hj)]
        exact hlt j hj
    | buffer j =>
      by_cases hj : j = i
      · subst hj
        simp [Block.owner]
      · rw [Function.update_of_ne (by simpa using hj), Function.update_of_ne (by simp)]
        exact hlt j hj

/-- A failure, in any sub-step, leaves `NULL` in the slot and no memory. -/
theorem workerCreate_fails (hc : ¬c.succeeds) :
    ∃ ret, ret ≠ Result.ok ∧
      workerCreate (.filled i) i c = (ret, (Stage.filled i).setSlot i .null) := by
  have hret : (if c.record ∧ c.buffer then c.thread else Result.noMemory) ≠ Result.ok := by
    split_ifs with hmem
    · exact fun hthread => hc ⟨hmem.1, hmem.2, hthread⟩
    · decide
  refine ⟨_, hret, ?_⟩
  unfold workerCreate
  dsimp only
  rw [if_neg hret, Prod.mk.injEq]
  refine ⟨rfl, ?_⟩
  have hlive : ∀ b : Block, b.owner = i → ((Stage.filled i).setSlot i .null).live b = false := by
    rintro b rfl
    simp [Stage.filled, Stage.setSlot]
  have hrecord := hlive (.record i) rfl
  have hbuffer := hlive (.buffer i) rfl
  cases c.record <;> cases c.buffer
  · rfl
  · exact Stage.free_alloc hbuffer
  · exact Stage.free_alloc hrecord
  · simp only [if_true]
    rw [Stage.free_alloc_alloc hrecord (by simp), Stage.free_alloc hbuffer]

variable {creations : Nat → Creation} {k : Nat}

/-- The loop, up to the first worker that cannot be created. -/
theorem createLoop_fails (left : Nat) (hsucceeds : ∀ j, i ≤ j → j < k → (creations j).succeeds)
    (hfails : ¬(creations k).succeeds) (hi : i ≤ k) (hk : k < i + left) :
    ∃ ret, ret ≠ Result.ok ∧ createLoop creations left i (.filled i) =
      (ret, k + 1, (Stage.filled k).setSlot k .null) := by
  induction left generalizing i with
  | zero => omega
  | succ left ih =>
    unfold createLoop
    by_cases hik : i = k
    · subst hik
      obtain ⟨ret, hret, heq⟩ := workerCreate_fails hfails
      refine ⟨ret, hret, ?_⟩
      rw [heq]
      dsimp only
      rw [if_neg hret]
    · rw [workerCreate_succeeds (hsucceeds i le_rfl (by omega))]
      exact ih (fun j hj => hsucceeds j (by omega)) (by omega) (by omega)

/-- The loop, if no worker fails. -/
theorem createLoop_succeeds (left : Nat) (h : ∀ j, i ≤ j → j < i + left → (creations j).succeeds) :
    createLoop creations left i (.filled i) = (Result.ok, i + left, .filled (i + left)) := by
  induction left generalizing i with
  | zero => rfl
  | succ left ih =>
    unfold createLoop
    rw [workerCreate_succeeds (h i le_rfl (by omega))]
    dsimp only
    rw [if_pos rfl, ih fun j hj hlt => h j (by omega) (by omega)]
    rw [show i + 1 + left = i + (left + 1) by omega]

end Loop

/-! ## The roll-back -/

/-- The roll-back of `k` workers, after `j` of them. -/
def Stage.rolledBack (k j : Nat) : Stage where
  slots i := if i < j then .null else if i < k then .worker i else if i = k then .null else .unset
  nWorkers := 0
  live b := decide (j ≤ b.owner ∧ b.owner < k)
  destroyed := List.range j
  touched := List.range j
  crashed := false

/-- The slot of a worker that has been destroyed. -/
theorem setSlot_rolledBack {k j : Nat} (hj : j < k) :
    Function.update (Stage.rolledBack k j).slots j .null = (Stage.rolledBack k (j + 1)).slots := by
  unfold Stage.rolledBack
  dsimp only
  funext i
  by_cases hi : i = j
  · subst hi
    rw [Function.update_self, if_pos i.lt_succ_self]
  · rw [Function.update_of_ne hi]
    simp only [show i < j ↔ i < j + 1 by omega]

theorem workerDestroy_rolledBack {k j : Nat} (hj : j < k) :
    workerDestroy (.rolledBack k j) j = .rolledBack k (j + 1) := by
  have hslot : (Stage.rolledBack k j).slots j = .worker j := by
    unfold Stage.rolledBack
    dsimp only
    rw [if_neg (lt_irrefl j), if_pos hj]
  have hlive : ∀ b : Block, b.owner = j → (Stage.rolledBack k j).live b = true := by
    rintro b rfl
    simp [Stage.rolledBack, hj]
  have hbuffer := hlive (.buffer j) rfl
  have hrecord := hlive (.record j) rfl
  unfold workerDestroy
  rw [if_neg (by exact Bool.false_ne_true)]
  dsimp only
  rw [hslot]
  unfold Stage.free
  dsimp only
  rw [if_pos hbuffer]
  dsimp only
  rw [if_pos (by rw [Function.update_of_ne (by simp)]; exact hrecord)]
  unfold Stage.rolledBack Stage.setSlot
  simp only [Stage.mk.injEq, and_true, true_and, List.range_succ]
  refine ⟨setSlot_rolledBack hj, ?_⟩
  funext b
  cases b with
  | record i =>
    by_cases hi : i = j
    · subst hi
      rw [Function.update_self, eq_comm, decide_eq_false_iff_not]
      simp only [Block.owner]
      omega
    · rw [Function.update_of_ne (by simpa using hi), Function.update_of_ne (by simp),
        decide_eq_decide]
      simp only [Block.owner]
      omega
  | buffer i =>
    by_cases hi : i = j
    · subst hi
      rw [Function.update_of_ne (by simp), Function.update_self, eq_comm, decide_eq_false_iff_not]
      simp only [Block.owner]
      omega
    · rw [Function.update_of_ne (by simp), Function.update_of_ne (by simpa using hi),
        decide_eq_decide]
      simp only [Block.owner]
      omega

/-- The workers that are there are destroyed, each of them once. -/
theorem foldl_workerDestroy {k j : Nat} (hj : j ≤ k) :
    (List.range j).foldl workerDestroy (.rolledBack k 0) = .rolledBack k j := by
  induction j with
  | zero => rfl
  | succ j ih =>
    rw [List.range_succ, List.foldl_append, ih (by omega)]
    exact workerDestroy_rolledBack hj

/-- The creation of the worker `k` is the first one that fails. -/
structure Env.failsAt (env : Env) (nWorkers k : Nat) : Prop where
  proc : env.proc = true
  locks : env.locks = Result.ok
  name : env.name = true
  workers : env.workers = true
  lt : k < nWorkers
  succeeds : ∀ j < k, (env.creations j).succeeds
  fails : ¬(env.creations k).succeeds

/-- **The roll-back.** All the workers before the one that has failed are destroyed and no memory of
any worker is left, but then `s_worker_destroy` follows the `NULL` in the slot of that worker. -/
theorem initStage_rollback {nWorkers k : Nat} {env : Env} (h : env.failsAt nWorkers k) :
    (initStage nWorkers env).2 =
      { Stage.rolledBack k k with touched := List.range (k + 1), crashed := true } := by
  obtain ⟨ret, hret, hloop⟩ := createLoop_fails (i := 0) nWorkers
    (fun j _ => h.succeeds j) h.fails (Nat.zero_le k) (by simpa using h.lt)
  unfold initStage
  rw [if_pos h.proc, if_pos h.locks, if_pos ⟨h.name, h.workers⟩, ← Stage.filled_zero, hloop]
  dsimp only
  rw [if_neg hret]
  have hbegin : (Stage.filled k).setSlot k .null = .rolledBack k 0 := by
    unfold Stage.filled Stage.setSlot Stage.rolledBack
    simp only [Stage.mk.injEq, Nat.zero_le, true_and, List.range_zero, and_true]
    funext i
    by_cases hi : i = k
    · subst hi
      simp
    · rw [Function.update_of_ne hi]
      simp [hi]
  rw [hbegin, List.range_succ, List.foldl_append, foldl_workerDestroy le_rfl]
  show workerDestroy (.rolledBack k k) k = _
  have hslot : (Stage.rolledBack k k).slots k = .null := by
    unfold Stage.rolledBack
    dsimp only
    rw [if_neg (lt_irrefl k), if_neg (lt_irrefl k), if_pos rfl]
  unfold workerDestroy
  rw [if_neg (by exact Bool.false_ne_true)]
  dsimp only
  rw [hslot]
  rfl

/-- The workers `0` to `k - 1` are destroyed, each once, and nothing else is touched. -/
structure RollsBack (k : Nat) (s : Stage) : Prop where
  destroyed : s.destroyed.Perm (List.range k)
  touched : ∀ i ∈ s.touched, i < k
  noWorkers : s.nWorkers = 0
  sound : s.crashed = false

/-- **No failure is rolled back.** For any number of workers, whichever worker cannot be created for
whatever reason, the roll-back also touches the slot of that worker. -/
theorem initStage_not_rollsBack {nWorkers k : Nat} {env : Env} (h : env.failsAt nWorkers k) :
    ¬RollsBack k (initStage nWorkers env).2 := by
  rw [initStage_rollback h]
  intro hback
  exact absurd (hback.touched k (List.mem_range.mpr k.lt_succ_self)) (lt_irrefl k)

/-- Everything is there but the thread of the worker `k`. -/
def threadFails (k : Nat) : Env where
  proc := true
  locks := Result.ok
  name := true
  workers := true
  creations i := ⟨true, true, if i = k then Result.posixApiError else Result.ok⟩

theorem threadFails_failsAt {nWorkers k : Nat} (h : k < nWorkers) :
    (threadFails k).failsAt nWorkers k where
  proc := rfl
  locks := rfl
  name := rfl
  workers := rfl
  lt := h
  succeeds j hj := ⟨rfl, rfl, if_neg (Nat.ne_of_lt hj)⟩
  fails hk := absurd ((if_pos rfl).symm.trans hk.2.2) (by decide)

/-- The last one of four workers. -/
theorem initStage_not_rollsBack_last :
    (threadFails 3).failsAt 4 3 ∧ ¬RollsBack 3 (initStage 4 (threadFails 3)).2 :=
  ⟨threadFails_failsAt (by decide), initStage_not_rollsBack (threadFails_failsAt (by decide))⟩

/-- The only worker. -/
theorem initStage_crashes :
    (initStage 1 (threadFails 0)).1 = Result.posixApiError ∧
      (initStage 1 (threadFails 0)).2.touched = [0] ∧
      (initStage 1 (threadFails 0)).2.destroyed = [] ∧
      (initStage 1 (threadFails 0)).2.crashed = true := by
  decide

/-- Without a failure, all the workers are there. -/
theorem initStage_ok {nWorkers : Nat} {env : Env} (hproc : env.proc = true)
    (hlocks : env.locks = Result.ok) (hmem : env.name = true ∧ env.workers = true)
    (h : ∀ j < nWorkers, (env.creations j).succeeds) :
    initStage nWorkers env = (Result.ok, { Stage.filled nWorkers with nWorkers }) := by
  have hloop := createLoop_succeeds (i := 0) nWorkers fun j _ hj => h j (by omega)
  rw [Stage.filled_zero, Nat.zero_add] at hloop
  unfold initStage
  rw [if_pos hproc, if_pos hlocks, if_pos hmem, hloop]
  rfl

end StageInit
end Gallus
