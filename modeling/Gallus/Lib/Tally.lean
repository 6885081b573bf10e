import Mathlib.Algebra.BigOperators.Group.Finset.Basic
import Mathlib.Algebra.BigOperators.Group.Finset.Piecewise
import Mathlib.Algebra.Order.BigOperators.Group.Finset

/-!
# Sums over unboundedly many places

A number at each place of `τ`, of which only finitely many are not zero.

* `Tally f n`: the numbers `f` sum up to `n`.
* `Tally.update`: how the sum changes with one of the numbers.
-/

namespace Gallus

variable {τ : Type*} {f : τ → Nat} {n m : Nat} {x : τ}

/-- Finitely many of the numbers are not zero, and they sum up to `n`. -/
def Tally (f : τ → Nat) (n : Nat) : Prop :=
  ∃ places : Finset τ, (∀ x, x ∉ places → f x = 0) ∧ ∑ x ∈ places, f x = n

namespace Tally

theorem zero (h : ∀ x, f x = 0) : Tally f 0 :=
  ⟨∅, fun x _ => h x, rfl⟩

theorem congr {g : τ → Nat} (h : Tally f n) (hfg : ∀ x, g x = f x) : Tally g n := by
  obtain rfl : g = f := funext hfg
  exact h

theorem le (h : Tally f n) (x : τ) : f x ≤ n := by
  obtain ⟨places, hout, rfl⟩ := h
  by_cases hx : x ∈ places
  · exact Finset.single_le_sum (fun _ _ => Nat.zero_le _) hx
  · rw [hout x hx]
    exact Nat.zero_le _

theorem exists_pos (h : Tally f n) (hn : 0 < n) : ∃ x, 0 < f x := by
  obtain ⟨places, -, rfl⟩ := h
  obtain ⟨x, -, hx⟩ := Finset.exists_ne_zero_of_sum_ne_zero hn.ne'
  exact ⟨x, Nat.pos_of_ne_zero hx⟩

variable [DecidableEq τ]

/-- The sum after one of the numbers is changed. -/
theorem update (h : Tally f n) (x : τ) (k : Nat) :
    Tally (Function.update f x k) (n - f x + k) := by
  obtain ⟨places, hout, rfl⟩ := h
  refine ⟨insert x places, fun y hy => ?_, ?_⟩
  · rw [Finset.mem_insert, not_or] at hy
    rw [Function.update_of_ne hy.1]
    exact hout y hy.2
  · have hins : ∑ y ∈ insert x places, f y = ∑ y ∈ places, f y :=
      Finset.sum_insert_of_eq_zero_if_notMem (hout x)
    have hmem := Finset.mem_insert_self x places
    have herase : f x + ∑ y ∈ (insert x places).erase x, f y = ∑ y ∈ insert x places, f y :=
      Finset.add_sum_erase _ _ hmem
    rw [Finset.sum_update_of_mem hmem, Finset.sdiff_singleton_eq_erase, ← hins, ← herase]
    omega

end Tally
end Gallus
