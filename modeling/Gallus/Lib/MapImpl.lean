import Mathlib.Data.Finmap

/-!
# Implementations of finite maps

A table in which keys are looked up, entered, changed and deleted, and whose entries can be gone
through.

* `MapImpl κ ν`: the operations, with what makes them those of a correct map. The order of the
  entries is not fixed.
* `MapImpl.abs`: the finite map that a table is; `abs_init`, `abs_set`, `abs_create`, `abs_delete`:
  each operation is that of the finite map.
* `card_insert_of_some`, `card_insert_of_none`, `card_erase_of_some`: the number of keys beside the
  operations.
* `MapImpl.ofAList`: a table that is a list of entries.
-/

namespace Gallus

/-- A correct map from `κ` to `ν`. -/
structure MapImpl (κ ν : Type) where
  Table : Type
  /-- A new table, of some kind. -/
  init : Nat → Table
  find : Table → κ → Option ν
  /-- A new entry, for a key that has none. -/
  create : Table → κ → Table
  /-- Another value for a key that has an entry. -/
  set : Table → κ → ν → Table
  delete : Table → κ → Table
  /-- The entries, in the order in which the table is gone through. -/
  entries : Table → List (Σ _ : κ, ν)
  find_init : ∀ n k, find (init n) k = none
  find_create : ∀ t k, find t k = none → find (create t k) k ≠ none
  find_create_ne : ∀ t k k', k' ≠ k → find (create t k) k' = find t k'
  find_set : ∀ t k v, find t k ≠ none → find (set t k v) k = some v
  find_set_ne : ∀ t k k' v, k' ≠ k → find (set t k v) k' = find t k'
  find_delete : ∀ t k, find (delete t k) k = none
  find_delete_ne : ∀ t k k', k' ≠ k → find (delete t k) k' = find t k'
  nodupKeys : ∀ t, (entries t).NodupKeys
  mem_entries : ∀ t k v, ⟨k, v⟩ ∈ entries t ↔ find t k = some v

namespace MapImpl

variable {κ ν : Type}

/-- The finite map that a table is. -/
def abs (T : MapImpl κ ν) (t : T.Table) : Finmap fun _ : κ => ν :=
  ⟨T.entries t, Multiset.coe_nodupKeys.mpr (T.nodupKeys t)⟩

variable [DecidableEq κ] {T : MapImpl κ ν} {t : T.Table} {k : κ} {v : ν}

@[simp] theorem lookup_abs (t : T.Table) (k : κ) : (T.abs t).lookup k = T.find t k := by
  refine Option.ext fun v => ?_
  rw [← T.mem_entries, Finmap.lookup_eq_some_iff]
  rfl

theorem abs_init (n : Nat) : T.abs (T.init n) = ∅ := by
  refine Finmap.ext_lookup fun k => ?_
  rw [lookup_abs, T.find_init, Finmap.lookup_empty]

theorem abs_set (h : T.find t k ≠ none) : T.abs (T.set t k v) = (T.abs t).insert k v := by
  refine Finmap.ext_lookup fun k' => ?_
  rw [lookup_abs]
  by_cases hk : k' = k
  · subst hk
    rw [T.find_set t k' v h, Finmap.lookup_insert]
  · rw [T.find_set_ne t k k' v hk, Finmap.lookup_insert_of_ne _ hk, lookup_abs]

/-- A new entry and its value. -/
theorem abs_create (h : T.find t k = none) :
    T.abs (T.set (T.create t k) k v) = (T.abs t).insert k v := by
  rw [abs_set (T.find_create t k h)]
  refine Finmap.ext_lookup fun k' => ?_
  by_cases hk : k' = k
  · subst hk
    rw [Finmap.lookup_insert, Finmap.lookup_insert]
  · rw [Finmap.lookup_insert_of_ne _ hk, Finmap.lookup_insert_of_ne _ hk, lookup_abs, lookup_abs,
      T.find_create_ne t k k' hk]

theorem abs_delete (t : T.Table) (k : κ) : T.abs (T.delete t k) = (T.abs t).erase k := by
  refine Finmap.ext_lookup fun k' => ?_
  rw [lookup_abs]
  by_cases hk : k' = k
  · subst hk
    rw [T.find_delete, Finmap.lookup_erase]
  · rw [T.find_delete_ne t k k' hk, Finmap.lookup_erase_ne hk, lookup_abs]

/-! ## The number of keys -/

variable {m : Finmap fun _ : κ => ν}

theorem keys_insert (m : Finmap fun _ : κ => ν) (k : κ) (v : ν) :
    (m.insert k v).keys = insert k m.keys := by
  ext k'
  rw [Finmap.mem_keys, Finmap.mem_insert, Finset.mem_insert, Finmap.mem_keys]

/-- A key has a value, or it is not one of the keys. -/
theorem mem_keys_iff : k ∈ m.keys ↔ m.lookup k ≠ none := by
  rw [Finmap.mem_keys, Ne, Finmap.lookup_eq_none, not_not]

theorem card_insert_of_some (h : m.lookup k ≠ none) (v : ν) :
    (m.insert k v).keys.card = m.keys.card := by
  rw [keys_insert, Finset.insert_eq_of_mem (mem_keys_iff.mpr h)]

theorem card_insert_of_none (h : m.lookup k = none) (v : ν) :
    (m.insert k v).keys.card = m.keys.card + 1 := by
  rw [keys_insert, Finset.card_insert_of_notMem fun hk => mem_keys_iff.mp hk h]

theorem card_erase_of_some (h : m.lookup k ≠ none) :
    (m.erase k).keys.card + 1 = m.keys.card := by
  rw [Finmap.keys_erase, Finset.card_erase_add_one (mem_keys_iff.mpr h)]

theorem erase_of_none (h : m.lookup k = none) : m.erase k = m := by
  refine Finmap.ext_lookup fun k' => ?_
  by_cases hk : k' = k
  · subst hk
    rw [Finmap.lookup_erase, h]
  · rw [Finmap.lookup_erase_ne hk]

/-! ## A list of entries -/

/-- The entries in a list, a new one with the value `v₀`. -/
def ofAList (v₀ : ν) : MapImpl κ ν where
  Table := AList fun _ : κ => ν
  init _ := ∅
  find t k := t.lookup k
  create t k := t.insert k v₀
  set t k v := t.insert k v
  delete t k := t.erase k
  entries t := t.entries
  find_init _ k := AList.lookup_empty k
  find_create t k _ := by simp
  find_create_ne t k k' hk := AList.lookup_insert_ne hk
  find_set t k v _ := AList.lookup_insert t
  find_set_ne t k k' v hk := AList.lookup_insert_ne hk
  find_delete t k := AList.lookup_erase k t
  find_delete_ne t k k' hk := AList.lookup_erase_ne hk
  nodupKeys t := t.nodupKeys
  mem_entries t k v := AList.mem_lookup_iff.symm

end MapImpl
end Gallus
