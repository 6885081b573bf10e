import Mathlib.Order.Lattice
import Mathlib.Data.List.Perm.Basic

/-!
# Lists of rules, and the first one that applies

A rule either gives a verdict or does not apply. Rules have a rank, and a list of rules is searched
from the highest rank down.

* `firstMatch_eq_some_iff`: where rules with different verdicts have different ranks, the first
  verdict is that of the highest rank.
* `firstMatch_perm`: two sorted lists of the same rules give the same one.
-/

namespace Gallus
namespace Rules

variable {α β κ : Type*} [LinearOrder κ]

/-- The verdict of the first rule that applies. -/
def firstMatch (verdict : α → Option β) : List α → Option β
  | [] => none
  | a :: rules => (verdict a).or (firstMatch verdict rules)

/-- Higher ranks come first. -/
def Descending (rank : α → κ) (rules : List α) : Prop :=
  rules.Pairwise fun a b => rank b ≤ rank a

/-- Rules with different verdicts have different ranks. -/
def Separated (verdict : α → Option β) (rank : α → κ) (rules : List α) : Prop :=
  ∀ a ∈ rules, ∀ b ∈ rules, ∀ v v', verdict a = some v → verdict b = some v' → v ≠ v' →
    rank a ≠ rank b

/-- A rule with the verdict `v` has a higher rank than every rule with another one. -/
def Top (verdict : α → Option β) (rank : α → κ) (rules : List α) (v : β) : Prop :=
  ∃ a ∈ rules, verdict a = some v ∧
    ∀ b ∈ rules, ∀ v', verdict b = some v' → v' ≠ v → rank b < rank a

variable {verdict : α → Option β} {rank : α → κ} {rules rules' : List α} {a : α} {v : β}

theorem firstMatch_cons_of_none (h : verdict a = none) :
    firstMatch verdict (a :: rules) = firstMatch verdict rules := by
  rw [firstMatch, h, Option.none_or]

theorem firstMatch_cons_of_some (h : verdict a = some v) :
    firstMatch verdict (a :: rules) = some v := by
  rw [firstMatch, h, Option.some_or]

theorem firstMatch_eq_none : firstMatch verdict rules = none ↔ ∀ a ∈ rules, verdict a = none := by
  induction rules with
  | nil => simp [firstMatch]
  | cons a rules ih => simp [firstMatch, ih]

/-- The verdict that overrides the others comes first. -/
theorem firstMatch_of_top (hsorted : Descending rank rules) (h : Top verdict rank rules v) :
    firstMatch verdict rules = some v := by
  obtain ⟨b, hb, hbv, hover⟩ := h
  induction rules with
  | nil => contradiction
  | cons a rules ih =>
    obtain ⟨hhead, htail⟩ := List.pairwise_cons.mp hsorted
    cases ha : verdict a with
    | none =>
      have hrest : b ∈ rules := by
        rcases List.mem_cons.mp hb with rfl | hb
        · rw [ha] at hbv
          contradiction
        · exact hb
      rw [firstMatch_cons_of_none ha]
      exact ih htail hrest fun c hc => hover c (List.mem_cons_of_mem _ hc)
    | some v' =>
      rw [firstMatch_cons_of_some ha]
      by_contra hne
      have hlt : rank a < rank b := hover a List.mem_cons_self v' ha fun heq => hne (heq ▸ rfl)
      rcases List.mem_cons.mp hb with rfl | hb
      · exact lt_irrefl _ hlt
      · exact absurd (hhead b hb) (not_le.mpr hlt)

theorem top_of_firstMatch (hsorted : Descending rank rules) (hsep : Separated verdict rank rules)
    (h : firstMatch verdict rules = some v) : Top verdict rank rules v := by
  induction rules with
  | nil => cases h
  | cons a rules ih =>
    obtain ⟨hhead, htail⟩ := List.pairwise_cons.mp hsorted
    cases ha : verdict a with
    | none =>
      rw [firstMatch_cons_of_none ha] at h
      have hsep' : Separated verdict rank rules := fun b hb c hc =>
        hsep b (List.mem_cons_of_mem _ hb) c (List.mem_cons_of_mem _ hc)
      obtain ⟨b, hb, hbv, hover⟩ := ih htail hsep' h
      refine ⟨b, List.mem_cons_of_mem _ hb, hbv, fun c hc v' hcv hne => ?_⟩
      rcases List.mem_cons.mp hc with rfl | hc
      · rw [ha] at hcv
        contradiction
      · exact hover c hc v' hcv hne
    | some v' =>
      rw [firstMatch_cons_of_some ha] at h
      cases h
      refine ⟨a, List.mem_cons_self, ha, fun c hc v' hcv hne => ?_⟩
      rcases List.mem_cons.mp hc with rfl | hc'
      · rw [ha] at hcv
        exact absurd (Option.some.inj hcv).symm hne
      · have hrank := hsep a List.mem_cons_self c hc v v' ha hcv hne.symm
        exact lt_of_le_of_ne (hhead c hc') hrank.symm

/-- The first verdict of a sorted list is that of the highest rank. -/
theorem firstMatch_eq_some_iff (hsorted : Descending rank rules)
    (hsep : Separated verdict rank rules) :
    firstMatch verdict rules = some v ↔ Top verdict rank rules v :=
  ⟨top_of_firstMatch hsorted hsep, firstMatch_of_top hsorted⟩

theorem Top.perm (hperm : rules.Perm rules') (h : Top verdict rank rules v) :
    Top verdict rank rules' v := by
  obtain ⟨a, ha, hv, hover⟩ := h
  exact ⟨a, hperm.mem_iff.mp ha, hv, fun b hb => hover b (hperm.mem_iff.mpr hb)⟩

/-- The order of the rules makes no difference, as long as they are sorted. -/
theorem firstMatch_perm (hsorted : Descending rank rules) (hsorted' : Descending rank rules')
    (hperm : rules.Perm rules') (hsep : Separated verdict rank rules) :
    firstMatch verdict rules = firstMatch verdict rules' := by
  cases h : firstMatch verdict rules with
  | none =>
    rw [firstMatch_eq_none] at h
    exact (firstMatch_eq_none.mpr fun a ha => h a (hperm.mem_iff.mpr ha)).symm
  | some v =>
    exact (firstMatch_of_top hsorted' ((top_of_firstMatch hsorted hsep h).perm hperm)).symm

end Rules
end Gallus
