import Mathlib.Data.List.Basic

/-!
# Machines that answer

A machine is given by its step function `f : σ → ε → ρ × σ`: what it answers to a call, and its
state after it.

* `answers f s es`: the answers to the calls `es`, and the state after them.
* `answers_simulates`: two machines whose states are related before and after each call, with the
  same answer to it, give the same answers to all.
* `answers_track`: a part of the state that each call changes by itself is, after the calls, the
  fold of these changes.
-/

namespace Gallus
namespace Answers

variable {σ τ ε ρ α : Type*}

/-- The answers to the calls `es`, one after the other, and the state after them. -/
def answers (f : σ → ε → ρ × σ) : σ → List ε → List ρ × σ
  | s, [] => ([], s)
  | s, e :: es => ((f s e).1 :: (answers f (f s e).2 es).1, (answers f (f s e).2 es).2)

variable {f : σ → ε → ρ × σ} {g : τ → ε → ρ × τ} {R : σ → τ → Prop} {s : σ} {t : τ}

/-- **The simulation rule.** -/
theorem answers_simulates
    (hstep : ∀ s t e, R s t → (f s e).1 = (g t e).1 ∧ R (f s e).2 (g t e).2) (h : R s t)
    (es : List ε) :
    (answers f s es).1 = (answers g t es).1 ∧ R (answers f s es).2 (answers g t es).2 := by
  induction es generalizing s t with
  | nil => exact ⟨rfl, h⟩
  | cons e es ih =>
    obtain ⟨hans, hR⟩ := hstep s t e h
    obtain ⟨hrest, hend⟩ := ih hR
    exact ⟨congrArg₂ List.cons hans hrest, hend⟩

/-- A part of the state that each call changes by itself. -/
theorem answers_track {v : σ → α} {next : α → ε → α} (hstep : ∀ s e, v (f s e).2 = next (v s) e)
    (s : σ) (es : List ε) : v (answers f s es).2 = es.foldl next (v s) := by
  induction es generalizing s with
  | nil => rfl
  | cons e es ih =>
    rw [List.foldl_cons, ← hstep]
    exact ih (f s e).2

end Answers
end Gallus
