import Gallus.Hashmap.Ops
import Gallus.Lib.Answers

/-!
# The hash map is a finite map

* `Store`: a finite map, with the values that its owner has been asked to free. `Store.call`: the
  same calls on it.
* `Refines`: the table is the map, `m_n_entries` the number of its keys, and `m_del_proc` has been
  called for the values that were to be freed, once for each. `call_refines`: every call keeps it
  and is answered as by the map.
* `register`: what the calls do to one key. `lookup_register`: a map is a register for each key.
* `hashmap_refines`: the answers and the state after any calls.
-/

namespace Gallus
namespace Hashmap

variable {κ β : Type}

/-- The values of the entries, but for `NULL`. -/
def values (m : Finmap fun _ : κ => Option β) : Multiset β := m.entries.filterMap fun e => e.2

/-- A finite map; whether its owner has a procedure to free a value, and the values freed by it. -/
structure Store (κ β : Type) where
  map : Finmap fun _ : κ => Option β
  delProc : Bool
  freed : Multiset β

/-- The values freed, with those that are removed. -/
def Store.freedAfter (s : Store κ β) (free : Bool) (removed : Multiset β) : Multiset β :=
  if free = true ∧ s.delProc = true then s.freed + removed else s.freed

/-- An operational hash map that is the finite map. -/
structure Refines {T : HashTable κ β} (hm : Hashmap T) (s : Store κ β) : Prop where
  operational : hm.isOperational = true
  map : T.abs hm.hashtable = s.map
  nEntries : hm.nEntries = s.map.keys.card
  delProc : hm.delProc = s.delProc
  freed : (hm.freed : Multiset β) = s.freed

section Memory

variable {T : HashTable κ β} {hm : Hashmap T} {s : Store κ β}

/-- The calls of `m_del_proc`, if there is one and it is asked for. -/
theorem Refines.freedAfter (h : Refines hm s) (free : Bool) (vs : List β) :
    ((if free = true ∧ hm.delProc = true then hm.freed ++ vs else hm.freed : List β) :
        Multiset β) = s.freedAfter free vs := by
  unfold Store.freedAfter
  rw [← h.delProc, ← h.freed]
  split_ifs
  · exact (Multiset.coe_add hm.freed vs).symm
  · rfl

theorem Refines.values (h : Refines hm s) :
    values s.map =
      ((T.entries hm.hashtable).filterMap fun e => e.2 : List β) := by
  rw [← h.map]
  rfl

end Memory

variable [DecidableEq κ]

/-- The value of a key, if it has one that is not `NULL`. -/
def valueAt (m : Finmap fun _ : κ => Option β) (key : κ) : Option β := (m.lookup key).join

namespace Store

def add (s : Store κ β) (key : κ) (val : Option β) (allowOverwrite entry : Bool) :
    Reply β × Store κ β :=
  match s.map.lookup key with
  | some old =>
    if allowOverwrite = true then
      ((Result.ok, some old), { s with map := s.map.insert key val })
    else ((Result.alreadyExists, some old), s)
  | none =>
    if entry = true then ((Result.ok, some none), { s with map := s.map.insert key val })
    else ((Result.noMemory, some none), s)

/-- The calls on a finite map. -/
def call (s : Store κ β) : Op κ β → Reply β × Store κ β
  | .find key true =>
    match s.map.lookup key with
    | some val => ((Result.ok, some val), s)
    | none => ((Result.notFound, some none), s)
  | .add key (some val) allowOverwrite entry => s.add key val allowOverwrite entry
  | .find _ false | .add _ none _ _ => ((Result.invalidArgs, none), s)
  | .delete key valptr freeValue =>
    ((Result.ok, if valptr = true then some (valueAt s.map key) else none),
      { s with
        map := s.map.erase key
        freed := s.freedAfter freeValue (valueAt s.map key).toList })
  | .clear freeValues =>
    ((Result.ok, none), { s with map := ∅, freed := s.freedAfter freeValues (values s.map) })
  | .size => ((s.map.keys.card, none), s)

end Store

section Calls

variable {T : HashTable κ β} {hm : Hashmap T} {s : Store κ β} {key : κ} {val : Option β}

theorem Refines.lookup (h : Refines hm s) (key : κ) :
    T.find hm.hashtable key = s.map.lookup key := by
  rw [← h.map, MapImpl.lookup_abs]

theorem add_refines (h : Refines hm s) (allowOverwrite entry : Bool) :
    ((hm.add key val allowOverwrite entry).1, some (hm.add key val allowOverwrite entry).2.1) =
        (s.add key val allowOverwrite entry).1 ∧
      Refines (hm.add key val allowOverwrite entry).2.2 (s.add key val allowOverwrite entry).2 := by
  have hlookup := h.lookup key
  unfold add Store.add
  rw [if_pos h.operational, hlookup]
  cases hs : s.map.lookup key with
  | some old =>
    have hfind : T.find hm.hashtable key ≠ none := by simp [hlookup, hs]
    cases allowOverwrite with
    | false => exact ⟨rfl, h⟩
    | true =>
      refine ⟨rfl, h.operational, ?_, ?_, h.delProc, h.freed⟩
      · exact (MapImpl.abs_set hfind).trans (congrArg _ h.map)
      · show hm.nEntries = (s.map.insert key val).keys.card
        rw [h.nEntries, MapImpl.card_insert_of_some (by simp [hs])]
  | none =>
    cases entry with
    | false => exact ⟨rfl, h⟩
    | true =>
      refine ⟨rfl, h.operational, ?_, ?_, h.delProc, h.freed⟩
      · exact (MapImpl.abs_create (hlookup.trans hs)).trans (congrArg _ h.map)
      · show hm.nEntries + 1 = (s.map.insert key val).keys.card
        rw [h.nEntries, MapImpl.card_insert_of_none hs]
        rfl

theorem delete_refines (h : Refines hm s) (valptr freeValue : Bool) :
    (hm.call (.delete key valptr freeValue)).1 = (s.call (.delete key valptr freeValue)).1 ∧
      Refines (hm.call (.delete key valptr freeValue)).2
        (s.call (.delete key valptr freeValue)).2 := by
  have hlookup := h.lookup key
  simp only [call, Store.call, delete, if_pos h.operational, hlookup, valueAt, delValue_eq]
  cases hs : s.map.lookup key with
  | none =>
    refine ⟨rfl, h.operational, h.map.trans (MapImpl.erase_of_none hs).symm, ?_, h.delProc,
      ?_⟩
    · exact h.nEntries.trans (by rw [MapImpl.erase_of_none hs])
    · exact h.freed.trans (by simp [Store.freedAfter])
  | some val =>
    have hcard := MapImpl.card_erase_of_some (m := s.map) (k := key) (by simp [hs])
    have hn := h.nEntries
    refine ⟨rfl, h.operational, ?_, ?_, h.delProc,
      h.freedAfter freeValue val.toList⟩
    · exact (MapImpl.abs_delete _ key).trans (congrArg _ h.map)
    · show hm.nEntries - 1 = (s.map.erase key).keys.card
      omega

theorem clear_refines (h : Refines hm s) (freeValues : Bool) :
    (hm.call (.clear freeValues)).1 = (s.call (.clear freeValues)).1 ∧
      Refines (hm.call (.clear freeValues)).2 (s.call (.clear freeValues)).2 := by
  simp only [call, Store.call, clear, if_pos h.operational, reinit_eq]
  refine ⟨trivial, rfl, MapImpl.abs_init _, rfl, h.delProc, ?_⟩
  rw [h.values]
  exact h.freedAfter freeValues _

/-- One call. -/
theorem call_refines (hm : Hashmap T) (s : Store κ β) (op : Op κ β) (h : Refines hm s) :
    (hm.call op).1 = (s.call op).1 ∧ Refines (hm.call op).2 (s.call op).2 := by
  cases op with
  | find key valptr =>
    cases valptr with
    | false => exact ⟨rfl, h⟩
    | true =>
      simp only [call, Store.call, find, if_pos h.operational, h.lookup key]
      cases s.map.lookup key <;> exact ⟨rfl, h⟩
  | add key valptr allowOverwrite entry =>
    cases valptr with
    | none => exact ⟨rfl, h⟩
    | some val => exact add_refines h allowOverwrite entry
  | delete key valptr freeValue => exact delete_refines h valptr freeValue
  | clear freeValues => exact clear_refines h freeValues
  | size => exact ⟨by simp only [call, Store.call, size, if_pos h.operational, h.nEntries], h⟩

end Calls

/-! ## One key -/

/-- What a call does to a key: its value, if it has one. -/
def register (key : κ) (cur : Option (Option β)) : Op κ β → Option (Option β)
  | .add key' (some val) allowOverwrite entry =>
    if key' = key then
      match cur with
      | some old => if allowOverwrite = true then some val else some old
      | none => if entry = true then some val else none
    else cur
  | .delete key' _ _ => if key' = key then none else cur
  | .clear _ => none
  | .find _ _ | .add _ none _ _ | .size => cur

/-- A map is a register for each key. -/
theorem lookup_register (key : κ) (s : Store κ β) (op : Op κ β) :
    (s.call op).2.map.lookup key = register key (s.map.lookup key) op := by
  cases op with
  | find key' valptr =>
    cases valptr with
    | false => rfl
    | true =>
      simp only [Store.call]
      cases s.map.lookup key' <;> rfl
  | add key' valptr allowOverwrite entry =>
    cases valptr with
    | none => rfl
    | some val =>
      simp only [Store.call, Store.add, register]
      by_cases hk : key' = key
      · subst hk
        cases hs : s.map.lookup key' <;> cases allowOverwrite <;> cases entry <;> simp [hs]
      · have hne : key ≠ key' := Ne.symm hk
        cases s.map.lookup key' <;> cases allowOverwrite <;> cases entry <;>
          simp [hk, Finmap.lookup_insert_of_ne _ hne]
  | delete key' valptr freeValue =>
    simp only [Store.call, register]
    split_ifs with hk
    · rw [hk, Finmap.lookup_erase]
    · exact Finmap.lookup_erase_ne (Ne.symm hk)
  | clear freeValues => exact Finmap.lookup_empty key
  | size => rfl

/-! ## Any calls -/

/-- **The hash map refines a finite map.** Any calls on an operational hash map are answered as by
the finite map that it is, and leave it the finite map that is left; a key then has the value that
was stored last, unless it has been deleted since. `m_n_entries` is the number of the keys, and
`m_del_proc` has been called once for each value that was removed to be freed. -/
theorem hashmap_refines {T : HashTable κ β} {hm : Hashmap T} {s : Store κ β} (h : Refines hm s)
    (ops : List (Op κ β)) :
    (Answers.answers call hm ops).1 = (Answers.answers Store.call s ops).1 ∧
      Refines (Answers.answers call hm ops).2 (Answers.answers Store.call s ops).2 ∧
      ∀ key, T.find (Answers.answers call hm ops).2.hashtable key =
        ops.foldl (register key) (T.find hm.hashtable key) := by
  obtain ⟨hanswers, hend⟩ := Answers.answers_simulates (R := Refines (T := T)) call_refines h ops
  refine ⟨hanswers, hend, fun key => ?_⟩
  rw [hend.lookup, h.lookup]
  exact Answers.answers_track (v := fun s => s.map.lookup key) (lookup_register key) s ops

/-- A new hash map is the empty map. -/
theorem create_refines (T : HashTable κ β) (type : Nat) (delProc : Bool) :
    ∃ hm, create T true Result.ok type delProc = (Result.ok, some hm) ∧
      Refines hm ⟨∅, delProc, 0⟩ := by
  refine ⟨_, rfl, rfl, MapImpl.abs_init type, ?_, rfl, rfl⟩
  show (0 : Int) = ((∅ : Finmap fun _ : κ => Option β).keys.card : Int)
  rw [Finmap.keys_empty]
  rfl

/-- A value under two keys, refused for one of them a second time; one of the two is deleted, and
the other one cleared. -/
def twice : List (Op Nat Nat) :=
  [.add 1 (some (some 7)) false true, .add 2 (some (some 7)) false true,
    .add 1 (some (some 8)) false true, .add 3 (some none) true true, .size, .delete 1 true true,
    .delete 1 true true, .find 2 true, .size, .clear true, .size]

theorem hashmap_refines_twice :
    ∃ hm : Hashmap (MapImpl.ofAList none : HashTable Nat Nat),
      create (MapImpl.ofAList none) true Result.ok 0 true = (Result.ok, some hm) ∧
      (Answers.answers call hm twice).1 =
        [(0, some none), (0, some none), (Result.alreadyExists, some (some 7)), (0, some none),
          (3, none), (0, some (some 7)), (0, some none), (0, some (some 7)), (2, none), (0, none),
          (0, none)] ∧
      (Answers.answers call hm twice).2.freed = [7, 7] ∧
      Refines (Answers.answers call hm twice).2
        (Answers.answers Store.call ⟨∅, true, 0⟩ twice).2 := by
  obtain ⟨hm, hcreate, h⟩ := create_refines (MapImpl.ofAList none : HashTable Nat Nat) 0 true
  refine ⟨hm, hcreate, ?_, ?_, (hashmap_refines h twice).2.1⟩
  · cases hcreate
    decide +kernel
  · cases hcreate
    decide +kernel

end Hashmap
end Gallus
