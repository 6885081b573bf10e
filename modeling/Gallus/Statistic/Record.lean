import Gallus.Basic
import Gallus.Lib.Extremum
import Gallus.Lib.Trans
import Mathlib.Algebra.BigOperators.Group.Finset.Basic
import Mathlib.Data.Fintype.BigOperators
import Mathlib.Order.Bounds.Basic

/-!
# Recording values (`statistic.c`)

`s_record_stat` takes no lock. It is three atomic additions and two loops of atomic reads and
compare-and-swaps (`gallus_macros.h`), and the steps of any number of calls may come in any order.

* `Point`: where a call is. `advance`: its next atomic step; `step`: any call makes its next one.
* `Totals`: the counters hold the values that were added so far. `minPhase`, `maxPhase`: the two
  loops are loops that push a cell to one side (`Extremum.Bounds`).
* `recorded`: when all calls have returned, the statistic holds all values, for every order of the
  steps.
-/

namespace Gallus
namespace Statistic

/-- `LLONG_MAX`. -/
def llongMax : Int := 2 ^ 63 - 1

/-- `LLONG_MIN`. -/
def llongMin : Int := -2 ^ 63

/-- A value of `int64_t`. -/
abbrev Value := { x : Int // llongMin ≤ x ∧ x ≤ llongMax }

/-- `gallus_statistic_struct`. -/
structure Stat where
  n : Nat
  min : Int
  max : Int
  sum : Int
  sum2 : Int

/-- `s_reset_stat`. -/
def resetStat : Stat where
  n := 0
  min := llongMax
  max := llongMin
  sum := 0
  sum2 := 0

/-- Where a call of `s_record_stat` is: its next atomic step. -/
inductive Point where
  | addN
  | addSum
  | addSum2
  | readMin
  | swapMin (tmp : Int)
  | readMax
  | swapMax (tmp : Int)
  | returned
  deriving DecidableEq

/-- The test in the loop of `gallus_atomic_update_cmp`: a value `tmp` is swapped for `val`. -/
def updateCmp (init : Int) (cmp : Int → Int → Bool) (val tmp : Int) : Bool :=
  tmp == init || cmp tmp val

/-- `gallus_atomic_update_min`, with the value `tmp` read. -/
def updateMin (val tmp : Int) : Point :=
  if updateCmp llongMax (fun tmp val => decide (tmp > val)) val tmp then .swapMin tmp else .readMax

/-- `gallus_atomic_update_max`, with the value `tmp` read. -/
def updateMax (val tmp : Int) : Point :=
  if updateCmp llongMin (fun tmp val => decide (tmp < val)) val tmp then .swapMax tmp else .returned

/-- The next atomic step of a call that records `val`. -/
def advance (val : Int) (s : Stat) : Point → Option (Stat × Point)
  | .addN => some ({ s with n := sizeT (s.n + 1) }, .addSum)
  | .addSum => some ({ s with sum := i64 (s.sum + val) }, .addSum2)
  | .addSum2 => some ({ s with sum2 := i64 (s.sum2 + i64 (val * val)) }, .readMin)
  | .readMin => some (s, updateMin val s.min)
  | .swapMin tmp =>
    if s.min = tmp then some ({ s with min := val }, .readMax) else some (s, updateMin val s.min)
  | .readMax => some (s, updateMax val s.max)
  | .swapMax tmp =>
    if s.max = tmp then some ({ s with max := val }, .returned) else some (s, updateMax val s.max)
  | .returned => none

/-- The statistic and the calls. -/
structure Recording (ι : Type) where
  stat : Stat
  pt : ι → Point

/-- Nobody has made a step since the reset. -/
def Recording.start (ι : Type) : Recording ι := ⟨resetStat, fun _ => .addN⟩

variable {ι : Type} [DecidableEq ι]

/-- The call `i`, which records `val i`, makes a step. -/
def step (val : ι → Value) (s : Recording ι) (i : ι) : Option (Recording ι) :=
  (advance (val i) s.stat (s.pt i)).map fun (stat, p) => ⟨stat, Function.update s.pt i p⟩

theorem step_cases {val : ι → Value} {s s' : Recording ι} {i : ι} (h : step val s i = some s') :
    ∃ stat p, advance (val i) s.stat (s.pt i) = some (stat, p) ∧
      s' = ⟨stat, Function.update s.pt i p⟩ := by
  obtain ⟨⟨stat, p⟩, ha, rfl⟩ := Option.map_eq_some_iff.mp h
  exact ⟨stat, p, ha, rfl⟩

/-! ## The sums -/

/-- What a call at a point has added to `m_n`. -/
def Point.counted : Point → Nat
  | .addN => 0
  | _ => 1

/-- What it has added to `m_sum`. -/
def Point.summed (val : Int) : Point → Int
  | .addN | .addSum => 0
  | _ => val

/-- What it has added to `m_sum2`. -/
def Point.squared (val : Int) : Point → Int
  | .addN | .addSum | .addSum2 => 0
  | _ => val * val

theorem sizeT_add (x y : Int) : sizeT (sizeT x + y) = sizeT (x + y) := by
  unfold sizeT
  omega

theorem i64_add (x y : Int) : i64 (i64 x + y) = i64 (x + y) := by
  unfold i64
  exact Int.bmod_add_bmod

theorem i64_add_i64 (x y : Int) : i64 (x + i64 y) = i64 (x + y) := by
  unfold i64
  exact Int.add_bmod_bmod

/-- The points of the loops come behind the additions. -/
theorem updateMin_added (val tmp : Int) :
    (updateMin val tmp).counted = 1 ∧ (updateMin val tmp).summed val = val ∧
      (updateMin val tmp).squared val = val * val := by
  unfold updateMin
  split_ifs <;> exact ⟨rfl, rfl, rfl⟩

theorem updateMax_added (val tmp : Int) :
    (updateMax val tmp).counted = 1 ∧ (updateMax val tmp).summed val = val ∧
      (updateMax val tmp).squared val = val * val := by
  unfold updateMax
  split_ifs <;> exact ⟨rfl, rfl, rfl⟩

/-- The sums hold what the call has added, and the rest `x`, `y`, `z` of the other calls. -/
structure Holds (s : Stat) (val : Int) (p : Point) (x y z : Int) : Prop where
  n : s.n = sizeT (x + p.counted)
  sum : s.sum = i64 (y + p.summed val)
  sum2 : s.sum2 = i64 (z + p.squared val)

/-- A step of a call leaves the rest as it is. -/
theorem advance_holds {val : Int} {s s' : Stat} {p p' : Point} {x y z : Int}
    (h : advance val s p = some (s', p')) (hs : Holds s val p x y z) : Holds s' val p' x y z := by
  obtain ⟨hn, hsum, hsum2⟩ := hs
  obtain ⟨hmin, hmin', hmin''⟩ := updateMin_added val s.min
  obtain ⟨hmax, hmax', hmax''⟩ := updateMax_added val s.max
  cases p with
  | addN =>
    cases h
    refine ⟨?_, hsum, hsum2⟩
    rw [hn, sizeT_add]
    simp [Point.counted]
  | addSum =>
    cases h
    refine ⟨hn, ?_, hsum2⟩
    rw [hsum, i64_add]
    simp [Point.summed]
  | addSum2 =>
    cases h
    refine ⟨hn, hsum, ?_⟩
    rw [hsum2, i64_add_i64, i64_add]
    simp [Point.squared]
  | readMin =>
    cases h
    exact ⟨by rw [hn, hmin]; rfl, by rw [hsum, hmin']; rfl, by rw [hsum2, hmin'']; rfl⟩
  | swapMin tmp =>
    simp only [advance] at h
    split_ifs at h <;> cases h
    · exact ⟨hn, hsum, hsum2⟩
    · exact ⟨by rw [hn, hmin]; rfl, by rw [hsum, hmin']; rfl, by rw [hsum2, hmin'']; rfl⟩
  | readMax =>
    cases h
    exact ⟨by rw [hn, hmax]; rfl, by rw [hsum, hmax']; rfl, by rw [hsum2, hmax'']; rfl⟩
  | swapMax tmp =>
    simp only [advance] at h
    split_ifs at h <;> cases h
    · exact ⟨hn, hsum, hsum2⟩
    · exact ⟨by rw [hn, hmax]; rfl, by rw [hsum, hmax']; rfl, by rw [hsum2, hmax'']; rfl⟩
  | returned => contradiction

variable [Fintype ι] {val : ι → Value} {s s' : Recording ι} {i : ι}

/-- The sums hold what all calls have added. -/
structure Totals (val : ι → Value) (s : Recording ι) : Prop where
  n : s.stat.n = sizeT (∑ i, (s.pt i).counted : Nat)
  sum : s.stat.sum = i64 (∑ i, (s.pt i).summed (val i))
  sum2 : s.stat.sum2 = i64 (∑ i, (s.pt i).squared (val i))

omit [DecidableEq ι] in
theorem Totals.start (val : ι → Value) : Totals val (Recording.start ι) := by
  refine ⟨?_, ?_, ?_⟩ <;>
    simp [Recording.start, resetStat, Point.counted, Point.summed, Point.squared, sizeT, i64]

/-- A sum over all calls, by the call `i` and the rest. -/
theorem sum_split {M : Type} [AddCommMonoid M] (f : ι → Point → M) (pt : ι → Point) (i : ι)
    (p : Point) : ∑ j, f j (Function.update pt i p j) =
      (∑ j ∈ Finset.univ.erase i, f j (pt j)) + f i p := by
  rw [← Finset.sum_erase_add _ _ (Finset.mem_univ i), Function.update_self]
  congr 1
  refine Finset.sum_congr rfl fun j hj => ?_
  rw [Function.update_of_ne (Finset.ne_of_mem_erase hj)]

theorem Totals.step (h : Totals val s) (hstep : step val s i = some s') : Totals val s' := by
  obtain ⟨stat, p, ha, rfl⟩ := step_cases hstep
  have hsplit := fun {M : Type} [AddCommMonoid M] (f : ι → Point → M) => sum_split f s.pt i
  have hself : ∀ {M : Type} [AddCommMonoid M] (f : ι → Point → M), ∑ j, f j (s.pt j) =
      (∑ j ∈ Finset.univ.erase i, f j (s.pt j)) + f i (s.pt i) := fun f =>
    (Finset.sum_erase_add _ _ (Finset.mem_univ i)).symm
  have hholds : Holds s.stat (val i) (s.pt i)
      (∑ j ∈ Finset.univ.erase i, (s.pt j).counted : Nat)
      (∑ j ∈ Finset.univ.erase i, (s.pt j).summed (val j))
      (∑ j ∈ Finset.univ.erase i, (s.pt j).squared (val j)) := by
    refine ⟨?_, ?_, ?_⟩
    · rw [h.n, hself fun _ p => p.counted, Int.natCast_add]
    · rw [h.sum, hself fun j p => p.summed (val j)]
    · rw [h.sum2, hself fun j p => p.squared (val j)]
  obtain ⟨hn, hsum, hsum2⟩ := advance_holds ha hholds
  refine ⟨?_, ?_, ?_⟩
  · rw [hsplit fun _ p => p.counted, Int.natCast_add]
    exact hn
  · rw [hsplit fun j p => p.summed (val j)]
    exact hsum
  · rw [hsplit fun j p => p.squared (val j)]
    exact hsum2

/-! ## The minimum and the maximum -/

open Extremum

/-- Where a call is in the loop on `m_min`. -/
def minPhase : Point → Phase Int
  | .addN | .addSum | .addSum2 | .readMin => .before
  | .swapMin tmp => .swapping tmp
  | _ => .after

/-- Where a call is in the loop on `m_max`. -/
def maxPhase : Point → Phase Int
  | .swapMax tmp => .swapping tmp
  | .returned => .after
  | _ => .before

/-- The test of `gallus_atomic_update_min` compares, since no value is above `LLONG_MAX`. -/
theorem updateMin_cases (v : Value) (tmp : Int) :
    v ≤ tmp ∧ updateMin v tmp = .swapMin tmp ∨ tmp ≤ v ∧ updateMin v tmp = .readMax := by
  have hv := v.2
  unfold updateMin updateCmp
  split_ifs with h <;> simp only [Bool.or_eq_true, beq_iff_eq, decide_eq_true_eq] at h
  · exact .inl ⟨by omega, rfl⟩
  · exact .inr ⟨by omega, rfl⟩

theorem updateMax_cases (v : Value) (tmp : Int) :
    tmp ≤ v ∧ updateMax v tmp = .swapMax tmp ∨ v ≤ tmp ∧ updateMax v tmp = .returned := by
  have hv := v.2
  unfold updateMax updateCmp
  split_ifs with h <;> simp only [Bool.or_eq_true, beq_iff_eq, decide_eq_true_eq] at h
  · exact .inl ⟨by omega, rfl⟩
  · exact .inr ⟨by omega, rfl⟩

/-- A step of a call, as a move in the loop on `m_min`. -/
theorem advance_min {v : Value} {s s' : Stat} {p p' : Point}
    (h : advance v s p = some (s', p')) :
    Move (· ≤ ·) v.1 s.min (minPhase p) s'.min (minPhase p') := by
  have hcompare : Move (· ≤ ·) v.1 s.min (minPhase p) s.min (minPhase (updateMin v s.min)) := by
    rcases updateMin_cases v s.min with ⟨hle, hp⟩ | ⟨hle, hp⟩ <;> rw [hp]
    · exact .compare _ hle
    · exact .pass _ hle
  have hafter : minPhase (updateMax v s.max) = .after := by
    rcases updateMax_cases v s.max with ⟨-, hp⟩ | ⟨-, hp⟩ <;> rw [hp] <;> rfl
  cases p with
  | addN | addSum | addSum2 =>
    cases h
    exact .stay _ _
  | readMin =>
    cases h
    exact hcompare
  | swapMin tmp =>
    simp only [advance] at h
    split_ifs at h with htmp <;> cases h
    · subst htmp
      exact .swap _
    · exact hcompare
  | readMax =>
    cases h
    rw [hafter]
    exact .stay _ _
  | swapMax tmp =>
    simp only [advance] at h
    split_ifs at h <;> cases h
    · exact .stay _ _
    · rw [hafter]
      exact .stay _ _
  | returned => contradiction

/-- A step of a call, as a move in the loop on `m_max`. -/
theorem advance_max {v : Value} {s s' : Stat} {p p' : Point}
    (h : advance v s p = some (s', p')) :
    Move (· ≥ ·) v.1 s.max (maxPhase p) s'.max (maxPhase p') := by
  have hcompare : Move (· ≥ ·) v.1 s.max (maxPhase p) s.max (maxPhase (updateMax v s.max)) := by
    rcases updateMax_cases v s.max with ⟨hle, hp⟩ | ⟨hle, hp⟩ <;> rw [hp]
    · exact .compare _ hle
    · exact .pass _ hle
  have hbefore : maxPhase (updateMin v s.min) = .before := by
    rcases updateMin_cases v s.min with ⟨-, hp⟩ | ⟨-, hp⟩ <;> rw [hp] <;> rfl
  cases p with
  | addN | addSum | addSum2 =>
    cases h
    exact .stay _ _
  | readMin =>
    cases h
    rw [hbefore]
    exact .stay _ _
  | swapMin tmp =>
    simp only [advance] at h
    split_ifs at h <;> cases h
    · exact .stay _ _
    · rw [hbefore]
      exact .stay _ _
  | readMax =>
    cases h
    exact hcompare
  | swapMax tmp =>
    simp only [advance] at h
    split_ifs at h with htmp <;> cases h
    · subst htmp
      exact .swap _
    · exact hcompare
  | returned => contradiction

/-! ## Whole runs -/

/-- The invariant: the sums, and the two loops. -/
structure Inv (val : ι → Value) (s : Recording ι) : Prop where
  totals : Totals val s
  least : Bounds (· ≤ ·) (fun i => (val i).1) llongMax s.stat.min (minPhase ∘ s.pt)
  greatest : Bounds (· ≥ ·) (fun i => (val i).1) llongMin s.stat.max (maxPhase ∘ s.pt)

omit [DecidableEq ι] in
theorem Inv.start (val : ι → Value) : Inv val (Recording.start ι) :=
  ⟨.start val, .start fun _ => rfl, .start fun _ => rfl⟩

theorem Inv.step (h : Inv val s) (hstep : step val s i = some s') : Inv val s' := by
  refine ⟨h.totals.step hstep, ?_, ?_⟩ <;> obtain ⟨stat, p, ha, rfl⟩ := step_cases hstep <;>
    rw [Function.comp_update]
  · exact h.least.step (advance_min ha)
  · exact h.greatest.step (advance_max ha)

/-- The statistic holds the values `val`. -/
structure Recorded (val : ι → Value) (s : Stat) : Prop where
  count : s.n = Fintype.card ι % 2 ^ 64
  count_eq : Fintype.card ι < 2 ^ 64 → s.n = Fintype.card ι
  sum : s.sum = i64 (∑ i, (val i).1)
  sum2 : s.sum2 = i64 (∑ i, (val i).1 * (val i).1)
  min : Nonempty ι → IsLeast (Set.range fun i => (val i).1) s.min
  max : Nonempty ι → IsGreatest (Set.range fun i => (val i).1) s.max

/-- **All values are recorded.** When all calls have returned, the statistic holds their values,
whatever the order of their steps was. -/
theorem recorded {es : List ι} (h : Trans.run (step val) (Recording.start ι) es = some s)
    (hend : ∀ i, s.pt i = .returned) : Recorded val s.stat := by
  have hinv : Inv val s := (Trans.Run.all_iff.mpr h).inv
    (fun _ _ _ hs _ hstep => Inv.step hs hstep) (Inv.start val)
  have hcount : s.stat.n = Fintype.card ι % 2 ^ 64 := by
    have hcard : ∑ i, (s.pt i).counted = Fintype.card ι := by simp [hend, Point.counted]
    rw [hinv.totals.n, hcard, sizeT]
    omega
  refine ⟨hcount, fun hlt => hcount.trans (Nat.mod_eq_of_lt hlt), ?_, ?_, fun hne => ?_,
    fun hne => ?_⟩
  · rw [hinv.totals.sum]
    simp [hend, Point.summed]
  · rw [hinv.totals.sum2]
    simp [hend, Point.squared]
  · obtain ⟨⟨i, hi⟩, hle⟩ := hinv.least.least (fun i => by simp [hend, minPhase])
      fun i hle => le_antisymm hle (val i).2.2
    exact ⟨⟨i, hi.symm⟩, fun _ ⟨j, hj⟩ => hj ▸ hle j⟩
  · obtain ⟨⟨i, hi⟩, hge⟩ := hinv.greatest.least (fun i => by simp [hend, maxPhase])
      fun i hge => le_antisymm (val i).2.1 hge
    exact ⟨⟨i, hi.symm⟩, fun _ ⟨j, hj⟩ => hj ▸ hge j⟩

/-- Two calls that read both cells before the other one swaps. -/
def twoCalls (i : Fin 2) : Value := if i = 0 then ⟨5, by decide⟩ else ⟨3, by decide⟩

theorem recorded_twoCalls : ∃ s : Recording (Fin 2),
    Trans.run (step twoCalls) (Recording.start (Fin 2)) [0, 0, 0, 0, 1, 1, 1, 1, 1, 0, 0, 1, 0, 1] =
      some s ∧ Recorded twoCalls s.stat := by
  have h : (Trans.run (step twoCalls) (Recording.start (Fin 2))
      [0, 0, 0, 0, 1, 1, 1, 1, 1, 0, 0, 1, 0, 1]).map (fun s => decide (∀ i, s.pt i = .returned)) =
        some true := by decide +kernel
  obtain ⟨s, hrun, hend⟩ := Option.map_eq_some_iff.mp h
  exact ⟨s, hrun, recorded hrun (of_decide_eq_true hend)⟩

end Statistic
end Gallus
