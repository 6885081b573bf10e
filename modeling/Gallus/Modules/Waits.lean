import Gallus.Modules.Passes
import Mathlib.Algebra.BigOperators.Group.Finset.Basic
import Mathlib.Algebra.Order.BigOperators.Group.Finset

/-!
# The time of `gallus_module_wait_all` (`module.c`)

`gallus_module_wait_all` waits for the modules one after the other, from the last one on, and hands
each of them a time-out. The clock is read before and after each wait.

* `Turn`: one iteration, with what the clock shows. `waitLoop`, `waitAll`: the function.
  `waitAll_modules`: on the table it is the pass of `Table.passStep`.
* `handed`: the time-outs. Each is what the wait right before it has left of the whole time.
* `keepsBudget_iff`: no module gets more than all waits before have left exactly if at most the last
  of them has taken any time, and no more than there is. `budgetSpent`: three modules.
-/

namespace Gallus
namespace Modules

/-- One iteration: the outcome of the wait, and the clock before and after it, in nanoseconds. -/
structure Turn where
  outcome : Outcome
  wBegin : Int
  wEnd : Int
  le : wBegin ≤ wEnd

/-- The time the wait takes. -/
def Turn.duration (t : Turn) : Int := t.wEnd - t.wBegin

/-- A module after its wait, with the result and the time-out it was handed. -/
structure Waited where
  module : AModule
  ret : Result
  timeout : Int

/-- `s_wait_module` with a time-out. -/
def waitFor (timeout : Int) (m : AModule) (t : Turn) : Waited :=
  ⟨(m.waitModule t.outcome).1, (m.waitModule t.outcome).2, timeout⟩

/-- The loop with a limit, where `w` is the time-out of the next module. -/
def waitLoop (nsec : Int) : Int → List (AModule × Turn) → List Waited
  | _, [] => []
  | w, (m, t) :: rest =>
    let left := nsec - (t.wEnd - t.wBegin)
    waitFor w m t :: waitLoop nsec (if left < 0 then 0 else left) rest

/-- The first error of the waits. -/
def firstErr : List Waited → Result
  | [] => Result.ok
  | w :: ws => if w.ret = Result.ok then firstErr ws else w.ret

/-- `gallus_module_wait_all`: the modules in the order of the waits, and the result. -/
def waitAll (t : Table) (nsec : Int) (turns : Nat → Turn) : List Waited × Result :=
  let rows := t.modules.reverse.zipIdx.map fun (m, i) => (m, turns i)
  let waited :=
    if nsec < 0 then rows.map fun (m, turn) => waitFor (-1) m turn else waitLoop nsec nsec rows
  (waited, firstErr waited)

/-! ## The pass over the table -/

/-- The time-outs make no difference to the modules. -/
theorem waitLoop_modules (nsec w : Int) (rows : List (AModule × Turn)) :
    (waitLoop nsec w rows).map (fun x => (x.module, x.ret)) =
      rows.map fun (m, t) => m.waitModule t.outcome := by
  induction rows generalizing w with
  | nil => rfl
  | cons row rows ih =>
    obtain ⟨m, t⟩ := row
    simp only [waitLoop, List.map_cons, ih, waitFor]

/-- The modules after a pass, each by its own outcome. -/
theorem passAll_zipIdx (f : AModule → Outcome → AModule × Result) (o : Nat → Outcome) (i : Nat)
    (ms : List AModule) : (passAll f o i ms).1 = (ms.zipIdx i).map fun (m, j) => (f m (o j)).1 := by
  induction ms generalizing i with
  | nil => rfl
  | cons m ms ih => simp only [passAll, List.zipIdx_cons, List.map_cons, ih]

/-- The modules after the waits, each by its own outcome. -/
theorem waitAll_fst (t : Table) (nsec : Int) (turns : Nat → Turn) :
    (waitAll t nsec turns).1.map Waited.module =
      t.modules.reverse.zipIdx.map fun (m, i) => (m.waitModule (turns i).outcome).1 := by
  unfold waitAll
  dsimp only
  split_ifs
  · simp only [List.map_map]
    rfl
  · rw [show Waited.module = Prod.fst ∘ fun x : Waited => (x.module, x.ret) from rfl,
      ← List.map_map, waitLoop_modules]
    simp only [List.map_map]
    rfl

/-- On the table `gallus_module_wait_all` is a pass, with the outcomes in the order of the waits. -/
theorem waitAll_modules (t : Table) (nsec : Int) (turns : Nat → Turn) :
    ((waitAll t nsec turns).1.map Waited.module).reverse =
      (t.walkAll AModule.waitModule
        fun j => (turns (t.modules.length - 1 - j)).outcome).modules := by
  rw [waitAll_fst]
  refine (List.ext_getElem (by simp) fun j h₁ h₂ => ?_).trans (passAll_zipIdx _ _ 0 _).symm
  have hj : j < t.modules.length := by simpa using h₂
  simp only [List.getElem_reverse, List.getElem_map, List.getElem_zipIdx, List.length_map,
    List.length_zipIdx, List.length_reverse, Nat.zero_add]
  congr 2
  exact getElem_congr_idx (by omega)

/-! ## The time-outs -/

/-- The time-out of the module `i`: what the wait before it has left of the whole time. -/
def handed (nsec : Int) (turns : Nat → Turn) : Nat → Int
  | 0 => nsec
  | i + 1 => max 0 (nsec - (turns i).duration)

theorem waitLoop_timeouts (nsec : Int) (turns : Nat → Turn) (ms : List AModule) (i : Nat) :
    (waitLoop nsec (handed nsec turns i) ((ms.zipIdx i).map fun (m, j) => (m, turns j))).map
      Waited.timeout = (List.range' i ms.length).map (handed nsec turns) := by
  induction ms generalizing i with
  | nil => rfl
  | cons m ms ih =>
    have hnext : (if nsec - ((turns i).wEnd - (turns i).wBegin) < 0 then 0
        else nsec - ((turns i).wEnd - (turns i).wBegin)) = handed nsec turns (i + 1) := by
      simp only [handed, Turn.duration]
      split_ifs <;> omega
    simp only [List.zipIdx_cons, List.map_cons, waitLoop, hnext, ih, waitFor, List.length_cons,
      List.range'_succ]

/-- The time-outs of the waits. -/
theorem waitAll_timeouts (t : Table) {nsec : Int} (hnsec : 0 ≤ nsec) (turns : Nat → Turn) :
    (waitAll t nsec turns).1.map Waited.timeout =
      (List.range t.modules.length).map (handed nsec turns) := by
  rw [waitAll, if_neg (by omega), List.range_eq_range']
  have h := waitLoop_timeouts nsec turns t.modules.reverse 0
  rwa [List.length_reverse] at h

/-- The time the first `k` waits use. -/
def used (turns : Nat → Turn) (k : Nat) : Int := ∑ i ∈ Finset.range k, (turns i).duration

theorem used_succ (turns : Nat → Turn) (k : Nat) :
    used turns (k + 1) = used turns k + (turns k).duration := Finset.sum_range_succ _ k

theorem used_nonneg (turns : Nat → Turn) (k : Nat) : 0 ≤ used turns k :=
  Finset.sum_nonneg fun i _ => Int.sub_nonneg_of_le (turns i).le

theorem used_mono (turns : Nat → Turn) {k l : Nat} (h : k ≤ l) : used turns k ≤ used turns l :=
  Finset.sum_le_sum_of_subset_of_nonneg (Finset.range_mono h)
    fun i _ _ => Int.sub_nonneg_of_le (turns i).le

/-- No module is handed more than the waits before it have left, and if each wait respects its
time-out, all of them take no longer than `nsec`. -/
structure KeepsBudget (nsec : Int) (turns : Nat → Turn) (waited : List Waited) : Prop where
  left : ∀ i (h : i < waited.length), (waited[i]).timeout ≤ nsec - used turns i
  total : (∀ i (h : i < waited.length), (turns i).duration ≤ (waited[i]).timeout) →
    used turns waited.length ≤ nsec

/-- The second part follows from the first. -/
theorem KeepsBudget.of_left {nsec : Int} (hnsec : 0 ≤ nsec) {turns : Nat → Turn}
    {waited : List Waited}
    (h : ∀ i (h : i < waited.length), (waited[i]).timeout ≤ nsec - used turns i) :
    KeepsBudget nsec turns waited := by
  refine ⟨h, fun hrespects => ?_⟩
  cases hn : waited.length with
  | zero => exact hnsec
  | succ n =>
    have hlt : n < waited.length := by omega
    have := h n hlt
    have := hrespects n hlt
    rw [used_succ]
    omega

/-- **The whole time.** No module is handed more than all waits before it have left exactly if the
waits but the last two take no time, and the last but one no more than there is. -/
theorem keepsBudget_iff (t : Table) {nsec : Int} (hnsec : 0 ≤ nsec) (turns : Nat → Turn) :
    KeepsBudget nsec turns (waitAll t nsec turns).1 ↔
      used turns (t.modules.length - 2) = 0 ∧ used turns (t.modules.length - 1) ≤ nsec := by
  have htimeouts := waitAll_timeouts t hnsec turns
  generalize (waitAll t nsec turns).1 = waited at *
  generalize t.modules.length = n at *
  have hlen : waited.length = n := by simpa using congrArg List.length htimeouts
  have hget : ∀ i (h : i < waited.length), (waited[i]).timeout = handed nsec turns i := by
    intro i h
    have := List.getElem_of_eq htimeouts (i := i) (by simpa using h)
    simpa using this
  constructor
  · rintro ⟨hleft, -⟩
    rcases n with _ | _ | n
    · exact ⟨rfl, hnsec⟩
    · exact ⟨rfl, hnsec⟩
    · have h := hleft (n + 1) (by omega)
      rw [hget] at h
      have hn := used_nonneg turns n
      have hsucc := used_succ turns n
      simp only [handed, show n + 1 + 1 - 1 = n + 1 by omega,
        show n + 1 + 1 - 2 = n by omega] at h ⊢
      constructor <;> omega
  · rintro ⟨hnone, hle⟩
    refine .of_left hnsec fun i hi => ?_
    rw [hget]
    cases i with
    | zero =>
      simp [handed, used]
    | succ i =>
      have hi0 : used turns i ≤ used turns (n - 2) := used_mono turns (by omega)
      have hi1 : used turns (i + 1) ≤ used turns (n - 1) := used_mono turns (by omega)
      have hsucc := used_succ turns i
      have := used_nonneg turns i
      simp only [handed]
      omega

/-- Modules that are started and have a thread each. -/
def running (n : Nat) (h : n ≤ maxModules) : Table where
  modules := List.replicate n
    { given := ⟨[109], by decide⟩, name := ⟨[109], by decide⟩, name_eq := rfl, thd := true,
      stopProc := true, status := .started, finalizeCalls := 0 }
  fits := by rwa [List.length_replicate]
  nFinalizedModules := 0
  isModsInited := true

/-- Waits that take `d i` nanoseconds each and end well. -/
def lasting (d : Nat → Nat) (i : Nat) : Turn where
  outcome := ⟨Result.ok, true, false⟩
  wBegin := 100 * i
  wEnd := 100 * i + d i
  le := by omega

/-- Three modules; the first wait takes no time. -/
theorem keepsBudget_iff_three : KeepsBudget 10 (lasting fun i => if i = 0 then 0 else 7)
    (waitAll (running 3 (by decide)) 10 (lasting fun i => if i = 0 then 0 else 7)).1 :=
  (keepsBudget_iff (running 3 (by decide)) (by decide) _).mpr (by decide)

/-- Three modules and 10 nanoseconds: the waits take 6, 4 and 6, each no longer than it may. -/
theorem budgetSpent :
    (waitAll (running 3 (by decide)) 10 (lasting fun i => if i = 1 then 4 else 6)).1.map
      Waited.timeout = [10, 4, 6] ∧
    used (lasting fun i => if i = 1 then 4 else 6) 3 = 16 ∧
    ¬ KeepsBudget 10 (lasting fun i => if i = 1 then 4 else 6)
      (waitAll (running 3 (by decide)) 10 (lasting fun i => if i = 1 then 4 else 6)).1 := by
  refine ⟨by decide, by decide, fun h => ?_⟩
  have := h.left 2 (by decide)
  revert this
  decide

end Modules
end Gallus
