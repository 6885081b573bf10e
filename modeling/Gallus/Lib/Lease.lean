import Mathlib.Data.Finset.Card
import Mathlib.Data.Finset.Range
import Mathlib.Logic.Function.Basic

/-!
# Leases

Resources `ρ` that are lent to holders `τ`. `holders r` lists who holds `r`.

* `take`, `drop`: a holder gets a resource, or gives it back.
* `Exclusive`: no resource has two holders.
* `held rs holders`: the resources of `rs` that somebody holds; `card_held_take` and
  `card_held_drop` are how their number changes.
-/

namespace Gallus
namespace Lease

variable {ρ τ : Type*} [DecidableEq ρ]

def take (holders : ρ → List τ) (r : ρ) (t : τ) : ρ → List τ :=
  Function.update holders r (holders r ++ [t])

def drop [DecidableEq τ] (holders : ρ → List τ) (r : ρ) (t : τ) : ρ → List τ :=
  Function.update holders r ((holders r).erase t)

def Exclusive (holders : ρ → List τ) : Prop := ∀ r, (holders r).length ≤ 1

/-- The resources of `rs` that are held. -/
def held (rs : Finset ρ) (holders : ρ → List τ) : Finset ρ :=
  rs.filter fun r => (holders r).length ≠ 0

variable {holders : ρ → List τ} {rs : Finset ρ} {r : ρ} {t : τ}

@[simp] theorem take_self : take holders r t r = holders r ++ [t] := Function.update_self ..

theorem take_of_ne {q : ρ} (h : q ≠ r) : take holders r t q = holders q :=
  Function.update_of_ne h ..

@[simp] theorem drop_self [DecidableEq τ] : drop holders r t r = (holders r).erase t :=
  Function.update_self ..

theorem drop_of_ne [DecidableEq τ] {q : ρ} (h : q ≠ r) : drop holders r t q = holders q :=
  Function.update_of_ne h ..

/-! ## No two holders -/

theorem Exclusive.take (h : Exclusive holders) (hr : holders r = []) :
    Exclusive (take holders r t) := by
  intro q
  by_cases hq : q = r
  · subst hq
    simp [hr]
  · rw [take_of_ne hq]
    exact h q

theorem Exclusive.drop [DecidableEq τ] (h : Exclusive holders) : Exclusive (drop holders r t) := by
  intro q
  by_cases hq : q = r
  · subst hq
    rw [drop_self]
    exact le_trans List.length_erase_le (h q)
  · rw [drop_of_ne hq]
    exact h q

omit [DecidableEq ρ] in
/-- Who holds a resource that is lent once is its only holder. -/
theorem Exclusive.eq_singleton (h : Exclusive holders) (ht : t ∈ holders r) : holders r = [t] := by
  have hlen := h r
  rcases hr : holders r with _ | ⟨u, us⟩
  · rw [hr] at ht
    cases ht
  · rw [hr] at ht hlen
    have hus : us = [] := by
      rw [List.length_cons] at hlen
      exact List.length_eq_zero_iff.mp (by omega)
    subst hus
    rw [List.mem_singleton.mp ht]

omit [DecidableEq ρ] in
theorem Exclusive.eq_of_mem {u : τ} (h : Exclusive holders) (ht : t ∈ holders r)
    (hu : u ∈ holders r) : u = t := by
  rw [h.eq_singleton ht] at hu
  exact List.mem_singleton.mp hu

/-- The last holder leaves nobody behind. -/
theorem Exclusive.drop_eq_nil [DecidableEq τ] (h : Exclusive holders) (ht : t ∈ holders r) :
    Lease.drop holders r t r = [] := by
  rw [drop_self, h.eq_singleton ht]
  simp

/-! ## How many are held -/

omit [DecidableEq ρ] in
theorem mem_held : r ∈ held rs holders ↔ r ∈ rs ∧ holders r ≠ [] := by
  simp [held]

theorem held_take (hmem : r ∈ rs) : held rs (take holders r t) = insert r (held rs holders) := by
  ext q
  rw [Finset.mem_insert, mem_held, mem_held]
  by_cases hq : q = r
  · subst hq
    simp [hmem]
  · rw [take_of_ne hq]
    simp [hq]

theorem held_drop [DecidableEq τ] (h : Exclusive holders) (ht : t ∈ holders r) :
    held rs (drop holders r t) = (held rs holders).erase r := by
  ext q
  rw [Finset.mem_erase, mem_held, mem_held]
  by_cases hq : q = r
  · subst hq
    rw [h.drop_eq_nil ht]
    simp
  · rw [drop_of_ne hq]
    simp [hq]

/-- One more resource is held. -/
theorem card_held_take (hmem : r ∈ rs) (hr : holders r = []) :
    (held rs (take holders r t)).card = (held rs holders).card + 1 := by
  rw [held_take hmem]
  refine Finset.card_insert_of_notMem fun hin => ?_
  exact (mem_held.mp hin).2 hr

/-- One resource less is held. -/
theorem card_held_drop [DecidableEq τ] (h : Exclusive holders) (hmem : r ∈ rs)
    (ht : t ∈ holders r) :
    (held rs (drop holders r t)).card + 1 = (held rs holders).card := by
  rw [held_drop h ht]
  exact Finset.card_erase_add_one (mem_held.mpr ⟨hmem, List.ne_nil_of_mem ht⟩)

/-- A new resource that nobody holds. -/
theorem held_insert (hr : holders r = []) : held (insert r rs) holders = held rs holders := by
  ext q
  rw [mem_held, mem_held, Finset.mem_insert]
  constructor
  · rintro ⟨rfl | hq, hne⟩
    · exact absurd hr hne
    · exact ⟨hq, hne⟩
  · rintro ⟨hq, hne⟩
    exact ⟨.inr hq, hne⟩

/-- Where every held resource and `r` have a place of their own among `n`, fewer than `n` are
held. -/
theorem card_held_lt {n : Nat} (place : ρ → Nat) (hr : holders r = [])
    (hlt : ∀ q, holders q ≠ [] ∨ q = r → place q < n)
    (hinj : ∀ p q, holders p ≠ [] ∨ p = r → holders q ≠ [] ∨ q = r → place p = place q → p = q) :
    (held rs holders).card < n := by
  have hnot : r ∉ held rs holders := fun hin => (mem_held.mp hin).2 hr
  have hmem : ∀ q, q ∈ insert r (held rs holders) → holders q ≠ [] ∨ q = r := by
    intro q hq
    rcases Finset.mem_insert.mp hq with rfl | hq
    · exact .inr rfl
    · exact .inl (mem_held.mp hq).2
  have hcard : (insert r (held rs holders)).card ≤ (Finset.range n).card := by
    apply Finset.card_le_card_of_injOn place
    · intro q hq
      exact Finset.mem_coe.mpr (Finset.mem_range.mpr (hlt q (hmem q hq)))
    · intro p hp q hq heq
      exact hinj p q (hmem p hp) (hmem q hq) heq
  rw [Finset.card_insert_of_notMem hnot, Finset.card_range] at hcard
  omega

end Lease
end Gallus
