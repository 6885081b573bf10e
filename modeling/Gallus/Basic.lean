import Mathlib.Algebra.Group.Int.Defs
import Mathlib.Algebra.Group.Nat.Defs
import Mathlib.Algebra.GroupWithZero.Nat
import Mathlib.Algebra.Ring.Int.Defs
import Mathlib.Data.Int.Basic

/-!
# Integers and results of the C sources

The framework's `gallus_result_t`, `gallus_chrono_t` and the indices of the queues are `int64_t`,
its counts are `size_t`. Both are exact integers here; a conversion between the two, or a sum that
the source lets run past the end of the type, goes through `i64` or `sizeT`.

The result codes are those `mk/ecode.def` lists, numbered downward from `0`.
-/

namespace Gallus

/-- `(int64_t)x`: the signed 64-bit value congruent to `x`. -/
def i64 (x : Int) : Int := x.bmod (2 ^ 64)

/-- `(size_t)x`: the unsigned 64-bit value congruent to `x`. -/
def sizeT (x : Int) : Nat := (x % 2 ^ 64).toNat

/-- `(int)x`: the signed 32-bit value congruent to `x`. -/
def i32 (x : Int) : Int := x.bmod (2 ^ 32)

/-- A value of the range of `int64_t` is unchanged. -/
theorem i64_of_range {x : Int} (hlo : -2 ^ 63 ≤ x) (hhi : x < 2 ^ 63) : i64 x = x := by
  unfold i64
  rw [Int.bmod_eq_of_le] <;> omega

/-- A sum that is not past the end of the type is at most what the type holds of it. -/
theorem le_i64 {x : Int} (h : x < 2 ^ 63) : x ≤ i64 x := by
  unfold i64
  have := Int.bmod_eq_of_le (n := x) (m := 2 ^ 64)
  have := Int.le_bmod (x := x) (m := 2 ^ 64) (by decide)
  omega

theorem i64_natCast {n : Nat} (h : n < 2 ^ 63) : i64 n = n :=
  i64_of_range (by omega) (by omega)

/-- From `2 ^ 63` on, a count becomes a negative `int64_t`. -/
theorem i64_natCast_neg {n : Nat} (hlo : 2 ^ 63 ≤ n) (hhi : n < 2 ^ 64) : i64 n < 0 := by
  unfold i64
  have h : (n : Int).bmod (2 ^ 64) = n - 2 ^ 64 := by
    rw [Int.bmod_def]
    split <;> omega
  omega

/-- A count that comes out negative has wrapped once. -/
theorem i64_wraps {n : Nat} (h : n < 2 ^ 64) (hneg : i64 n < 0) : i64 n + 2 ^ 64 = n := by
  unfold i64 at *
  rw [Int.bmod_def] at *
  split at hneg <;> split <;> omega

/-- The cast of a count is no larger than the count. -/
theorem i64_natCast_le (n : Nat) : i64 n ≤ n := by
  unfold i64
  rw [Int.bmod_def]
  split <;> omega

theorem i64_lt (x : Int) : i64 x < 2 ^ 63 := by
  unfold i64
  have := Int.bmod_lt (x := x) (m := 2 ^ 64) (by decide)
  omega

/-- A sum of two values of the range that does not come out negative is in the range. -/
theorem lt_of_i64_nonneg {x : Int} (hlo : 0 ≤ x) (hhi : x < 2 ^ 64) (h : 0 ≤ i64 x) :
    x < 2 ^ 63 := by
  by_contra hge
  obtain ⟨n, rfl⟩ := Int.eq_ofNat_of_zero_le hlo
  have := i64_natCast_neg (n := n) (by omega) (by omega)
  omega

theorem sizeT_natCast {n : Nat} (h : n < 2 ^ 64) : sizeT n = n := by
  unfold sizeT
  omega

theorem sizeT_of_range {x : Int} (hlo : 0 ≤ x) (hhi : x < 2 ^ 64) : (sizeT x : Int) = x := by
  unfold sizeT
  omega

/-- A count that was stored as a signed value comes back. -/
theorem sizeT_i64 {n : Nat} (h : n < 2 ^ 64) : sizeT (i64 n) = n := by
  unfold sizeT i64
  rw [Int.bmod_def]
  split <;> omega

/-! ## Result codes -/

/-- `gallus_result_t`. A result `≥ 0` is a success, often with a count; the codes below are the
errors. -/
abbrev Result := Int

namespace Result

def ok : Result := 0
def anyFailures : Result := -1
def posixApiError : Result := -2
def noMemory : Result := -3
def notFound : Result := -4
def alreadyExists : Result := -5
def notOperational : Result := -6
def invalidArgs : Result := -7
def notStarted : Result := -9
def timedout : Result := -10
def iterationHalted : Result := -11
def outOfRange : Result := -12
def invalidObject : Result := -15
def invalidStateTransition : Result := -16
def quoteNotClosed : Result := -23
def notAllowed : Result := -24
def wakeupRequested : Result := -26
def tooLarge : Result := -30
def tooSmall : Result := -31
def invalidState : Result := -35
def interrupted : Result := -37

end Result

/-- `gallus_chrono_t`: nanoseconds. -/
abbrev Chrono := Int

/-- What `gallus_cond_wait` can return: a wait ends by a notification or spuriously, by time-out if
it has a limit, or with an error of the library. -/
def condWaitResult (nsec : Chrono) (ret : Result) : Prop :=
  ret = Result.ok ∨ ret = Result.timedout ∧ 0 ≤ nsec ∨ ret = Result.posixApiError

instance (nsec : Chrono) (ret : Result) : Decidable (condWaitResult nsec ret) :=
  inferInstanceAs (Decidable (_ ∨ _ ∧ _ ∨ _))

/-! ## Names of threads -/

-- Concrete runs name their threads, tasks and queues by literals of `Fin 1`, …, `Fin 6`. A named
-- instance for each size keeps such a literal the same term in every module.
instance neZero_one : NeZero 1 := ⟨by decide⟩
instance neZero_two : NeZero 2 := ⟨by decide⟩
instance neZero_three : NeZero 3 := ⟨by decide⟩
instance neZero_four : NeZero 4 := ⟨by decide⟩
instance neZero_five : NeZero 5 := ⟨by decide⟩
instance neZero_six : NeZero 6 := ⟨by decide⟩

end Gallus
