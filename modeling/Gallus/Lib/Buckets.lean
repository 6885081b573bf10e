import Mathlib.Data.List.Flatten
import Mathlib.Data.List.Nodup
import Mathlib.Data.List.Perm.Basic

/-!
# Lists in buckets

A table of chains: what is in it is in the chain that an index function gives.

* `flatten_eq_of_getElem?`, `flatten_set`: the chains before and after one of them;
  `flatten_set_cons` and `flatten_set_erase`: what is put into a chain or taken out of it is put
  into the table or taken out of it.
* `Placed`: each element is in the chain of its index. `Placed.find?_eq`: a search that looks for
  elements of one index finds in the chain of that index what is in the table.
-/

namespace Gallus
namespace Buckets

variable {α : Type*} {L : List (List α)} {i : Nat} {c : List α}

/-- The chains before and after the `i`-th. -/
theorem flatten_eq_of_getElem? (h : L[i]? = some c) :
    L.flatten = (L.take i).flatten ++ (c ++ (L.drop (i + 1)).flatten) := by
  obtain ⟨hi, rfl⟩ := List.getElem?_eq_some_iff.mp h
  conv_lhs => rw [← List.take_append_drop i L, List.drop_eq_getElem_cons hi]
  rw [List.flatten_append, List.flatten_cons]

theorem flatten_set (h : L[i]? = some c) (c' : List α) :
    (L.set i c').flatten = (L.take i).flatten ++ (c' ++ (L.drop (i + 1)).flatten) := by
  obtain ⟨hi, -⟩ := List.getElem?_eq_some_iff.mp h
  have hset : (L.set i c')[i]? = some c' := by
    rw [List.getElem?_set_self hi]
  rw [flatten_eq_of_getElem? hset, List.take_set_of_le (Nat.le_refl i),
    List.drop_set_of_lt (Nat.lt_succ_self i)]

/-- An element put at the head of a chain. -/
theorem flatten_set_cons (h : L[i]? = some c) (x : α) :
    ((L.set i (x :: c)).flatten).Perm (x :: L.flatten) := by
  rw [flatten_set h, flatten_eq_of_getElem? h, List.cons_append]
  exact List.perm_middle

/-- An element taken out of a chain. -/
theorem flatten_set_erase {l₁ l₂ : List α} {x : α} (h : L[i]? = some (l₁ ++ x :: l₂)) :
    (L.flatten).Perm (x :: (L.set i (l₁ ++ l₂)).flatten) := by
  rw [flatten_set h, flatten_eq_of_getElem? h]
  simp only [List.append_assoc, List.cons_append]
  rw [← List.append_assoc, ← List.append_assoc]
  exact List.perm_middle

theorem mem_flatten_of_getElem? (h : L[i]? = some c) {x : α} (hx : x ∈ c) : x ∈ L.flatten :=
  List.mem_flatten_of_mem (List.mem_of_getElem? h) hx

/-- Each element is in the chain of its index. -/
def Placed (idx : α → Nat) (L : List (List α)) : Prop :=
  ∀ i c, L[i]? = some c → ∀ x ∈ c, idx x = i

variable {idx : α → Nat}

theorem placed_replicate (n : Nat) : Placed idx (List.replicate n []) := by
  intro i c h x hx
  obtain ⟨-, rfl⟩ := List.mem_replicate.mp (List.mem_of_getElem? h)
  exact absurd hx List.not_mem_nil

theorem Placed.set (hL : Placed idx L) (hc : ∀ x ∈ c, idx x = i) : Placed idx (L.set i c) := by
  intro j c' h x hx
  rw [List.getElem?_set] at h
  split_ifs at h with hij hlt
  · cases h
    exact (hc x hx).trans hij
  · exact hL j c' h x hx

/-- An element of the table is in the chain of its index. -/
theorem Placed.mem (hL : Placed idx L) {x : α} (hx : x ∈ L.flatten) (h : L[idx x]? = some c) :
    x ∈ c := by
  obtain ⟨c', hc', hxc⟩ := List.mem_flatten.mp hx
  obtain ⟨j, hj⟩ := List.mem_iff_getElem?.mp hc'
  have := hL j c' hj x hxc
  subst this
  rw [h] at hj
  cases hj
  exact hxc

/-- A search for elements of one index. -/
theorem Placed.find?_eq (hL : Placed idx L) (h : L[i]? = some c) {p : α → Bool}
    (hp : ∀ x, p x = true → idx x = i) : L.flatten.find? p = c.find? p := by
  have hout : ∀ j c', L[j]? = some c' → j ≠ i → c'.find? p = none := by
    intro j c' hj hne
    rw [List.find?_eq_none]
    intro x hx hpx
    exact hne ((hL j c' hj x hx).symm.trans (hp x hpx))
  have hnone : ∀ L' : List (List α), (∀ c' ∈ L', c'.find? p = none) →
      L'.flatten.find? p = none := by
    intro L' hL'
    rw [List.find?_flatten, List.findSome?_eq_none_iff]
    exact hL'
  rw [flatten_eq_of_getElem? h, List.find?_append, List.find?_append, hnone (L.take i),
    hnone (L.drop (i + 1)), Option.none_or, Option.or_none]
  · intro c' hc'
    obtain ⟨j, hj⟩ := List.mem_iff_getElem?.mp hc'
    rw [List.getElem?_drop] at hj
    exact hout _ c' hj (by omega)
  · intro c' hc'
    obtain ⟨j, hj⟩ := List.mem_iff_getElem?.mp hc'
    rw [List.getElem?_take] at hj
    split_ifs at hj with hlt
    exact hout _ c' hj (by omega)

end Buckets
end Gallus
