import Mathlib.Algebra.Group.Int.Defs
import Mathlib.Data.Int.Order.Basic

/-!
# Signed arithmetic that must not overflow

A signed operation whose exact result is outside of its type has no defined value.

* `Fits`: the values of a signed type. `checked`: the value of an operation, `none` past the end.
* `checked_of_fits`: an operation whose result fits has it as its value.
* `tdiv_spec`: a quotient that truncates towards zero, by a positive divisor, between its bounds.
* `tdiv_mul_fits`, `tmod_fits`: neither the part that the divisor divides nor the remainder leaves
  the type of the dividend.
-/

namespace Gallus
namespace Checked

/-- A value of the signed type of `bits` bits. -/
def Fits (bits : Nat) (x : Int) : Prop := -2 ^ (bits - 1) ≤ x ∧ x < 2 ^ (bits - 1)

instance (bits : Nat) (x : Int) : Decidable (Fits bits x) := inferInstanceAs (Decidable (_ ∧ _))

/-- The value of a signed operation with the exact result `x`. -/
def checked (bits : Nat) (x : Int) : Option Int := if Fits bits x then some x else none

variable {bits : Nat} {x n d : Int}

theorem checked_of_fits (h : Fits bits x) : checked bits x = some x := if_pos h

/-- The quotient of a truncating division, on either side of zero. -/
theorem tdiv_spec (n : Int) (hd : 0 < d) :
    (0 ≤ n ∧ 0 ≤ n.tdiv d ∧ d * n.tdiv d ≤ n ∧ n < d * n.tdiv d + d) ∨
      (n < 0 ∧ n.tdiv d ≤ 0 ∧ n ≤ d * n.tdiv d ∧ d * n.tdiv d - d < n) := by
  have hsum := Int.mul_tdiv_add_tmod n d
  rcases lt_or_ge n 0 with hn | hn
  · have hle : 0 ≤ (-n).tmod d := Int.tmod_nonneg d (by omega)
    have hq : 0 ≤ (-n).tdiv d := Int.tdiv_nonneg (by omega) (by omega)
    have hlt : -d < n.tmod d := Int.lt_tmod_of_pos n hd
    rw [Int.neg_tmod] at hle
    rw [Int.neg_tdiv] at hq
    exact .inr ⟨hn, by omega, by omega, by omega⟩
  · have hge : 0 ≤ n.tmod d := Int.tmod_nonneg d hn
    have hlt : n.tmod d < d := Int.tmod_lt_of_pos n hd
    exact .inl ⟨hn, Int.tdiv_nonneg hn (by omega), by omega, by omega⟩

/-- What the divisor divides of `n` is between zero and `n`. -/
theorem mul_tdiv_between (n : Int) (hd : 0 < d) :
    (0 ≤ d * n.tdiv d ∧ d * n.tdiv d ≤ n) ∨ (d * n.tdiv d ≤ 0 ∧ n ≤ d * n.tdiv d) := by
  rcases tdiv_spec n hd with ⟨-, hq, hle, -⟩ | ⟨-, hq, hle, -⟩
  · exact .inl ⟨Int.mul_nonneg (by omega) hq, hle⟩
  · have hneg := Int.mul_nonneg (a := d) (b := -n.tdiv d) (by omega) (by omega)
    rw [Int.mul_neg] at hneg
    exact .inr ⟨by omega, hle⟩

theorem tdiv_mul_fits (hd : 0 < d) (h : Fits bits n) : Fits bits (n.tdiv d * d) := by
  have hpow : (0 : Int) < 2 ^ (bits - 1) := Int.pow_pos (by decide)
  have hq := mul_tdiv_between n hd
  rw [Int.mul_comm]
  unfold Fits at *
  omega

theorem tmod_fits (hd : 0 < d) (h : Fits bits n) : Fits bits (n.tmod d) := by
  have hpow : (0 : Int) < 2 ^ (bits - 1) := Int.pow_pos (by decide)
  have hq := mul_tdiv_between n hd
  have hsum := Int.mul_tdiv_add_tmod n d
  unfold Fits at *
  omega

end Checked
end Gallus
