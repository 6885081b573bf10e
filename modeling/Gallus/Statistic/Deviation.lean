import Gallus.Statistic.Record
import Mathlib.Algebra.BigOperators.Fin
import Mathlib.Algebra.Order.Chebyshev
import Mathlib.Algebra.Order.Field.Rat
import Mathlib.Tactic.FieldSimp
import Mathlib.Tactic.Linarith
import Mathlib.Tactic.Ring

/-!
# The standard deviation (`statistic.c`)

`m_sum` and `m_sum2` are `int64_t`, and so is the square that `s_record_stat` adds.

* `recordStat`: a call that nobody disturbs (`recordStat_run`). `recordAll`: one after another.
* `getSdStat`: the argument of the square root in `s_get_sd_stat`, as an exact rational.
* `exact_iff_fits`: the sums are the exact ones exactly if these fit in an `int64_t`, and then
  the argument is not negative (`sq_sum_le`, the inequality of Cauchy and Schwarz).
* `squareLost`: a value whose square does not fit.
-/

namespace Gallus
namespace Statistic

/-- `s_record_stat`, by a thread that nobody disturbs. -/
def recordStat (s : Stat) (val : Int) : Stat where
  n := sizeT (s.n + 1)
  sum := i64 (s.sum + val)
  sum2 := i64 (s.sum2 + i64 (val * val))
  min := if updateCmp llongMax (fun tmp val => decide (tmp > val)) val s.min then val else s.min
  max := if updateCmp llongMin (fun tmp val => decide (tmp < val)) val s.max then val else s.max

/-- The calls that record `xs`, one after another. -/
def recordAll (xs : List Value) : Stat := xs.foldl (fun s x => recordStat s x) resetStat

/-- The argument of `sqrt` in `s_get_sd_stat`. It returns `0.0` without a root for `none`. -/
def getSdStat (s : Stat) (isSsd : Bool) : Option Rat :=
  let n := i64 s.n
  if n = 0 then none
  else
    let sum : Rat := s.sum
    let sum2 : Rat := s.sum2
    let avg := sum / n
    let ssum := sum2 - 2 * avg * sum + avg * avg * n
    if isSsd = true then
      if n ≥ 2 then some (ssum / (n - 1 : Int)) else none
    else
      if n ≥ 1 then some (ssum / n) else none

/-! ## The steps of an undisturbed call -/

section Alone

variable {ι : Type} [DecidableEq ι] (val : ι → Value) (pt : ι → Point) (i : ι)

/-- The call `i` alone gets from `s` and `p` to `s'` and `p'`. -/
def Alone (s : Stat) (p : Point) (s' : Stat) (p' : Point) : Prop :=
  ∃ k, Trans.run (step val) ⟨s, Function.update pt i p⟩ (List.replicate k i) =
    some ⟨s', Function.update pt i p'⟩

variable {val pt i} {s s₁ s' : Stat} {p p₁ p' : Point}

theorem Alone.step (ha : advance (val i) s p = some (s₁, p₁)) (h : Alone val pt i s₁ p₁ s' p') :
    Alone val pt i s p s' p' := by
  obtain ⟨k, hk⟩ := h
  refine ⟨k + 1, ?_⟩
  have hstep : Statistic.step val ⟨s, Function.update pt i p⟩ i =
      some ⟨s₁, Function.update pt i p₁⟩ := by
    simp only [Statistic.step, Function.update_self, ha, Option.map_some, Function.update_idem]
  rw [List.replicate_succ, Trans.run_cons, hstep]
  exact hk

/-- The loop on `m_min`. -/
theorem Alone.min (h : Alone val pt i { s with min := (recordStat s (val i)).min } .readMax s' p') :
    Alone val pt i s .readMin s' p' := by
  simp only [recordStat] at h
  refine .step rfl ?_
  unfold updateMin
  split_ifs at h ⊢
  · exact .step (if_pos rfl) h
  · exact h

/-- The loop on `m_max`. -/
theorem Alone.max (h : { s with max := (recordStat s (val i)).max } = s') :
    Alone val pt i s .readMax s' .returned := by
  subst h
  simp only [recordStat]
  refine .step rfl ?_
  unfold updateMax
  split_ifs
  · exact .step (if_pos rfl) ⟨0, rfl⟩
  · exact ⟨0, rfl⟩

/-- `recordStat` is what the steps of a call come to that nobody disturbs. -/
theorem recordStat_run (val : ι → Value) (pt : ι → Point) (i : ι) (s : Stat) :
    Alone val pt i s .addN (recordStat s (val i)) .returned :=
  .step rfl <| .step rfl <| .step rfl <| .min <| .max rfl

end Alone

/-! ## The sums -/

/-- The exact sum. -/
def total (xs : List Value) : Int := (xs.map fun x => x.1).sum

/-- The exact sum of squares. -/
def total2 (xs : List Value) : Int := (xs.map fun x => x.1 * x.1).sum

/-- The counters are the exact sums, as far as the types hold them. -/
theorem recordAll_sums (xs : List Value) :
    (recordAll xs).n = xs.length % 2 ^ 64 ∧ (recordAll xs).sum = i64 (total xs) ∧
      (recordAll xs).sum2 = i64 (total2 xs) := by
  induction xs using List.reverseRecOn with
  | nil => exact ⟨rfl, rfl, rfl⟩
  | append_singleton xs x ih =>
    obtain ⟨hn, hsum, hsum2⟩ := ih
    have hlast : recordAll (xs ++ [x]) = recordStat (recordAll xs) x := by
      simp [recordAll]
    rw [hlast]
    refine ⟨?_, ?_, ?_⟩
    · simp only [recordStat, hn, sizeT, List.length_append, List.length_singleton]
      omega
    · simp only [recordStat, hsum, i64_add]
      simp [total]
    · simp only [recordStat, hsum2, i64_add_i64, i64_add]
      simp [total2]

/-- The inequality of Cauchy and Schwarz. -/
theorem sq_sum_le (xs : List Value) : total xs ^ 2 ≤ xs.length * total2 xs := by
  have h := sq_sum_le_card_mul_sum_sq (s := Finset.univ) (f := fun i : Fin xs.length => (xs[i.1]).1)
  rw [Finset.card_univ, Fintype.card_fin] at h
  rw [Fin.sum_univ_fun_getElem xs (fun x => x.1),
    Fin.sum_univ_fun_getElem xs (fun x => x.1 ^ 2)] at h
  simpa only [total, total2, sq] using h

theorem total2_nonneg (xs : List Value) : 0 ≤ total2 xs := by
  refine List.sum_nonneg fun y hy => ?_
  obtain ⟨x, -, rfl⟩ := List.mem_map.mp hy
  exact mul_self_nonneg _

/-! ## Exact counters -/

/-- The counters `s` are the exact sums of `xs`, and the roots are taken of nothing negative. -/
structure Exact (xs : List Value) (s : Stat) : Prop where
  sum : s.sum = total xs
  sum2 : s.sum2 = total2 xs
  nonneg : 0 ≤ (s.n : Int) * s.sum2 - s.sum ^ 2
  root : ∀ isSsd q, getSdStat s isSsd = some q → 0 ≤ q

/-- The sums fit in an `int64_t`; and if the number of values does not fit in a `size_t`, what is
left of it is enough for the inequality. -/
def fits (xs : List Value) : Prop :=
  llongMin ≤ total xs ∧ total xs ≤ llongMax ∧ total2 xs ≤ llongMax ∧
    (xs.length < 2 ^ 64 ∨ total xs ^ 2 ≤ (xs.length % 2 ^ 64 : Nat) * total2 xs)

/-- The sum of the squared distances from the mean. -/
theorem ssum_eq {n sum sum2 : Rat} (hn : 0 < n) :
    sum2 - 2 * (sum / n) * sum + sum / n * (sum / n) * n = (n * sum2 - sum ^ 2) / n := by
  field_simp
  ring

/-- With the inequality, the root is taken of nothing negative. -/
theorem getSdStat_nonneg {s : Stat} (hn : s.n < 2 ^ 64)
    (h : 0 ≤ (s.n : Int) * s.sum2 - s.sum ^ 2) {isSsd : Bool} {q : Rat}
    (hq : getSdStat s isSsd = some q) : 0 ≤ q := by
  have hi : 0 < i64 s.n → i64 s.n = s.n := fun hpos => by
    refine i64_natCast ?_
    by_contra hge
    have := i64_natCast_neg (not_lt.mp hge) hn
    omega
  have hh : (0 : Rat) ≤ (s.n : Int) * s.sum2 - s.sum ^ 2 := by exact_mod_cast h
  simp only [getSdStat] at hq
  generalize i64 s.n = n at hq hi
  -- the divisor is the count, or one less
  have hquot : ∀ d : Int, 1 ≤ n → 0 ≤ d → (0 : Rat) ≤ ((s.sum2 : Rat) -
      2 * (s.sum / n) * s.sum + s.sum / n * (s.sum / n) * n) / d := by
    intro d hpos hd
    have hpos' : (0 : Rat) < n := by exact_mod_cast hpos
    rw [ssum_eq hpos', hi hpos]
    refine div_nonneg (div_nonneg hh ?_) ?_ <;> positivity
  split_ifs at hq with h0 hssd h2 h1 <;> cases hq
  · exact hquot (n - 1) (by omega) (by omega)
  · exact hquot n h1 (by omega)

/-- **Exact sums.** The counters are exact and the deviation is defined exactly if the sum of the
values and the sum of their squares fit in an `int64_t`. -/
theorem exact_iff_fits (xs : List Value) : Exact xs (recordAll xs) ↔ fits xs := by
  obtain ⟨hn, hsum, hsum2⟩ := recordAll_sums xs
  constructor
  · rintro ⟨he, he2, hnonneg, -⟩
    have hrange := i64_lt (total xs)
    have hrange2 := i64_lt (total2 xs)
    have hlow : llongMin ≤ i64 (total xs) := Int.le_bmod (by decide)
    rw [he, he2, hn] at hnonneg
    rw [← hsum, he] at hrange hlow
    rw [← hsum2, he2] at hrange2
    refine ⟨hlow, by unfold llongMax; omega, by unfold llongMax; omega, .inr ?_⟩
    linarith
  · rintro ⟨hlow, hhigh, hhigh2, hcount⟩
    have hsq := total2_nonneg xs
    have he : (recordAll xs).sum = total xs := by
      rw [hsum, i64_of_range hlow (by unfold llongMax at hhigh; omega)]
    have he2 : (recordAll xs).sum2 = total2 xs := by
      rw [hsum2, i64_of_range (by omega) (by unfold llongMax at hhigh2; omega)]
    have hnonneg : 0 ≤ ((recordAll xs).n : Int) * (recordAll xs).sum2 - (recordAll xs).sum ^ 2 := by
      rw [he, he2, hn]
      rcases hcount with hlt | hle
      · rw [Nat.mod_eq_of_lt hlt]
        have := sq_sum_le xs
        linarith
      · linarith
    exact ⟨he, he2, hnonneg, fun _ _ => getSdStat_nonneg (by rw [hn]; omega) hnonneg⟩

/-- The square of `2 ^ 32` does not fit: `m_sum2` stays `0`, and the root is one of a negative
number. -/
theorem squareLost : ∃ xs : List Value, xs = [⟨2 ^ 32, by decide⟩] ∧
    (recordAll xs).sum2 = 0 ∧ getSdStat (recordAll xs) false = some (-2 ^ 64) ∧
    ¬ Exact xs (recordAll xs) := by
  refine ⟨_, rfl, by decide +kernel, by decide +kernel, fun h => ?_⟩
  have := h.sum2
  revert this
  decide +kernel

end Statistic
end Gallus
