import Mathlib.Data.List.Nodup
import Mathlib.Data.List.Count
import Mathlib.Order.Lattice

/-!
# Queues ordered by a key, first come first served

A list whose elements have a key in a linear order and a stamp, the number of their insertion.

* `insertAfter key t q` puts `t` behind the elements whose keys are not greater.
* `Ordered key stamp q`: the keys ascend, and elements of equal keys stand in the order of their
  stamps. `Ordered.insertAfter` keeps it for a stamp newer than all in the list, and a sublist of
  an ordered list is ordered.
* `countP_le_of_head_lt`: a head above a bound, in a list of ascending keys, speaks for all.
-/

namespace Gallus
namespace StableQueue

variable {ι κ : Type*} [LinearOrder κ]

/-- Past the elements whose keys are not greater, and there `t`. -/
def insertAfter (key : ι → κ) (t : ι) : List ι → List ι
  | [] => [t]
  | e :: q => if key e ≤ key t then e :: insertAfter key t q else t :: e :: q

/-- `a` stands before `b`: it has the smaller key, or the same key and the older stamp. -/
def Before (key : ι → κ) (stamp : ι → Nat) (a b : ι) : Prop :=
  key a < key b ∨ key a = key b ∧ stamp a < stamp b

/-- Each element stands before all behind it. -/
def Ordered (key : ι → κ) (stamp : ι → Nat) (q : List ι) : Prop :=
  q.Pairwise (Before key stamp)

variable {key key' : ι → κ} {stamp stamp' : ι → Nat} {t : ι} {q : List ι}

theorem insertAfter_perm : (insertAfter key t q).Perm (t :: q) := by
  induction q with
  | nil => exact .refl _
  | cons e q ih =>
    unfold insertAfter
    split
    · exact (ih.cons e).trans (.swap t e q)
    · exact .refl _

theorem mem_insertAfter {e : ι} : e ∈ insertAfter key t q ↔ e = t ∨ e ∈ q :=
  insertAfter_perm.mem_iff.trans List.mem_cons

theorem nodup_insertAfter (ht : t ∉ q) (hq : q.Nodup) : (insertAfter key t q).Nodup :=
  insertAfter_perm.nodup_iff.mpr (List.nodup_cons.mpr ⟨ht, hq⟩)

theorem Before.trans {a b c : ι} (h₁ : Before key stamp a b) (h₂ : Before key stamp b c) :
    Before key stamp a c := by
  rcases h₁ with h₁ | ⟨e₁, s₁⟩ <;> rcases h₂ with h₂ | ⟨e₂, s₂⟩
  · exact .inl (lt_trans h₁ h₂)
  · exact .inl (e₂ ▸ h₁)
  · exact .inl (e₁ ▸ h₂)
  · exact .inr ⟨e₁.trans e₂, Nat.lt_trans s₁ s₂⟩

theorem Ordered.sublist {q' : List ι} (h : Ordered key stamp q) (hs : q'.Sublist q) :
    Ordered key stamp q' :=
  List.Pairwise.sublist hs h

/-- Only the keys and stamps of the elements matter. -/
theorem Ordered.congr (h : Ordered key stamp q) (hk : ∀ e ∈ q, key' e = key e)
    (hs : ∀ e ∈ q, stamp' e = stamp e) : Ordered key' stamp' q := by
  refine List.Pairwise.imp_of_mem (fun {a b} ha hb hab => ?_) h
  unfold Before at hab ⊢
  rwa [hk a ha, hk b hb, hs a ha, hs b hb]

/-- An insertion with a stamp newer than all others. -/
theorem Ordered.insertAfter (h : Ordered key stamp q) (hnew : ∀ e ∈ q, stamp e < stamp t) :
    Ordered key stamp (insertAfter key t q) := by
  induction q with
  | nil => exact List.pairwise_singleton _ _
  | cons e q ih =>
    obtain ⟨hfirst, hrest⟩ := List.pairwise_cons.mp h
    unfold StableQueue.insertAfter
    split
    · rename_i hle
      refine List.pairwise_cons.mpr ⟨fun a ha => ?_, ih hrest fun a ha => ?_⟩
      · rcases mem_insertAfter.mp ha with rfl | ha
        · rcases lt_or_eq_of_le hle with hlt | heq
          · exact .inl hlt
          · exact .inr ⟨heq, hnew e List.mem_cons_self⟩
        · exact hfirst a ha
      · exact hnew a (List.mem_cons_of_mem _ ha)
    · rename_i hlt
      have hte : Before key stamp t e := .inl (lt_of_not_ge hlt)
      refine List.pairwise_cons.mpr ⟨fun a ha => ?_, h⟩
      rcases List.mem_cons.mp ha with rfl | ha
      · exact hte
      · exact hte.trans (hfirst a ha)

/-- The keys of an ordered list ascend. -/
theorem Ordered.sorted (h : Ordered key stamp q) : q.Pairwise fun a b => key a ≤ key b :=
  List.Pairwise.imp (fun {_ _} hab => hab.elim le_of_lt fun he => le_of_eq he.1) h

/-- A list with ascending keys whose head is above the bound has nothing below it. -/
theorem countP_le_of_head_lt {bound : κ} {e : ι} (h : (e :: q).Pairwise fun a b => key a ≤ key b)
    (hlt : bound < key e) : (e :: q).countP (fun a => decide (key a ≤ bound)) = 0 := by
  obtain ⟨hhead, -⟩ := List.pairwise_cons.mp h
  rw [List.countP_eq_zero]
  intro a ha hle
  refine absurd (of_decide_eq_true hle) (not_le_of_gt ?_)
  rcases List.mem_cons.mp ha with rfl | ha
  · exact hlt
  · exact lt_of_lt_of_le hlt (hhead a ha)

end StableQueue
end Gallus
