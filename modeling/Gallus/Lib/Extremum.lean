import Mathlib.Logic.Function.Basic
import Mathlib.Order.Defs.Unbundled

/-!
# A cell that many threads push to one side

A shared cell, and the loop by which a thread puts its value into the cell if it goes before what
is there: read the cell, compare, swap if the cell has not changed, else compare again. What goes
before what is a preorder `r`, so the same holds of a minimum and of a maximum.

* `Phase`: where a thread is in the loop.
* `Move`: what a thread does next. `Bounds`: the invariant, which each move keeps (`Bounds.step`).
* `Bounds.least`: when all are through, the cell goes before all values, and is one of them.
-/

namespace Gallus
namespace Extremum

/-- Where a thread is in the loop. -/
inductive Phase (α : Type*) where
  | before
  /-- At the swap, if the cell still holds `seen`. -/
  | swapping (seen : α)
  | after

/-- The values go behind what the threads compared them with, and the cell goes before the values of
the threads that are through. -/
structure Bounds {ι α : Type*} (r : α → α → Prop) (val : ι → α) (init cell : α)
    (phase : ι → Phase α) : Prop where
  seen : ∀ i v, phase i = .swapping v → r (val i) v
  held : cell = init ∨ ∃ i, cell = val i
  before : ∀ i, phase i = .after → r cell (val i)

variable {ι α : Type*} {r : α → α → Prop} {val : ι → α} {init cell : α} {phase : ι → Phase α}
  {i : ι} {p : Phase α}

theorem Bounds.start (h : ∀ i, phase i = .before) : Bounds r val init init phase := by
  refine ⟨fun i v hi => ?_, .inl rfl, fun i hi => ?_⟩ <;>
  · rw [h i] at hi
    contradiction

/-- When all threads are through, the cell goes before all values and is one of them. -/
theorem Bounds.least [Nonempty ι] (h : Bounds r val init cell phase) (hend : ∀ i, phase i = .after)
    (hinit : ∀ i, r init (val i) → init = val i) :
    (∃ i, cell = val i) ∧ ∀ i, r cell (val i) := by
  refine ⟨?_, fun i => h.before i (hend i)⟩
  rcases h.held with rfl | hheld
  · obtain ⟨i⟩ := ‹Nonempty ι›
    exact ⟨i, hinit i (h.before i (hend i))⟩
  · exact hheld

/-- What a thread with the value `v` does next to the cell, and in the loop. -/
inductive Move (r : α → α → Prop) (v : α) : α → Phase α → α → Phase α → Prop
  | stay (cell : α) (p : Phase α) : Move r v cell p cell p
  /-- It compares what it has read, and its value goes before that. -/
  | compare {cell : α} (p : Phase α) (h : r v cell) : Move r v cell p cell (.swapping cell)
  /-- Its value does not. -/
  | pass {cell : α} (p : Phase α) (h : r cell v) : Move r v cell p cell .after
  | swap (cell : α) : Move r v cell (.swapping cell) v .after

variable [DecidableEq ι]

/-- A thread goes on, and the cell stays. -/
theorem Bounds.move (h : Bounds r val init cell phase) (hseen : ∀ v, p = .swapping v → r (val i) v)
    (hafter : p = .after → r cell (val i)) :
    Bounds r val init cell (Function.update phase i p) := by
  refine ⟨fun j v hj => ?_, h.held, fun j hj => ?_⟩ <;> by_cases hji : j = i
  · subst hji
    rw [Function.update_self] at hj
    exact hseen v hj
  · rw [Function.update_of_ne hji] at hj
    exact h.seen j v hj
  · subst hji
    rw [Function.update_self] at hj
    exact hafter hj
  · rw [Function.update_of_ne hji] at hj
    exact h.before j hj

/-- A thread swaps its value for what it has seen. -/
theorem Bounds.swap [Std.Refl r] [IsTrans α r] (h : Bounds r val init cell phase)
    (hi : phase i = .swapping cell) :
    Bounds r val init (val i) (Function.update phase i .after) := by
  have hle := h.seen i cell hi
  refine ⟨fun j v hj => ?_, .inr ⟨i, rfl⟩, fun j hj => ?_⟩ <;> by_cases hji : j = i
  · subst hji
    rw [Function.update_self] at hj
    contradiction
  · rw [Function.update_of_ne hji] at hj
    exact h.seen j v hj
  · subst hji
    exact refl_of r _
  · rw [Function.update_of_ne hji] at hj
    exact trans_of r hle (h.before j hj)

/-- Each move of a thread keeps the invariant. -/
theorem Bounds.step [Std.Refl r] [IsTrans α r] {cell' : α} (h : Bounds r val init cell phase)
    (hm : Move r (val i) cell (phase i) cell' p) :
    Bounds r val init cell' (Function.update phase i p) := by
  generalize hp : phase i = p₀ at hm
  cases hm with
  | stay => exact h.move (fun v hv => h.seen i v (hp.trans hv)) fun hafter =>
      h.before i (hp.trans hafter)
  | compare _ hle =>
    refine h.move (fun v hv => ?_) fun hafter => by contradiction
    cases hv
    exact hle
  | pass _ hle => exact h.move (fun v hv => by contradiction) fun _ => hle
  | swap => exact h.swap hp

end Extremum
end Gallus
