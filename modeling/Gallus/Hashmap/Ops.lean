import Gallus.Basic
import Gallus.Lib.MapImpl

/-!
# The hash map (`hashmap.c`)

A map from keys to values, over the table of `hash.h`: the number of the entries and the procedure
that frees a value are kept beside the table. A value is a pointer, `none` for `NULL`.

* `HashTable`: what `hash.h` offers. `doIterate`: the entries of a table, one after the other.
* `Hashmap`, with `find`, `add`, `delete`, `clear` and `size`: what the functions do under the lock.
  `Hashmap.freed` records the calls of `m_del_proc`.
* `Op`, `call`: the functions with their checks. Those with `_no_lock` make the same checks.
* `doIterate_freeupProc`: going through the entries frees each value that is not `NULL`.
  `delValue_eq` and `reinit_eq` say what that leaves of the map.
-/

namespace Gallus

/-- `HashTable`: its keys have values that may be `NULL`. -/
abbrev HashTable (κ β : Type) := MapImpl κ (Option β)

variable {κ β σ : Type}

/-- `s_do_iterate`: the procedure has a state of its own, and `false` ends the iteration. -/
def doIterate (proc : κ → Option β → σ → Bool × σ) :
    List (Σ _ : κ, Option β) → Bool → σ → Bool × σ
  | [], ret, s => (ret, s)
  | ⟨k, v⟩ :: es, _, s =>
    let r := proc k v s
    if r.1 = false then r else doIterate proc es r.1 r.2

/-- `s_freeup_proc`: `delProc` is whether there is a `m_del_proc`, and `freed` are its calls. -/
def freeupProc (delProc : Bool) (_key : κ) (val : Option β) (freed : List β) : Bool × List β :=
  if delProc = true then
    match val with
    | some v => (true, freed ++ [v])
    | none => (true, freed)
  else (false, freed)

/-- `gallus_hashmap_record` -/
structure Hashmap (T : HashTable κ β) where
  type : Nat
  hashtable : T.Table
  /-- `m_del_proc != NULL` -/
  delProc : Bool
  nEntries : Int
  isOperational : Bool
  /-- The values that `m_del_proc` has been called for. -/
  freed : List β

namespace Hashmap

variable {T : HashTable κ β}

/-- `s_freeup_all_values` -/
def freeupAllValues (hm : Hashmap T) : Hashmap T :=
  { hm with freed := (doIterate (freeupProc hm.delProc) (T.entries hm.hashtable) false hm.freed).2 }

/-- `s_reinit`: what `s_clean` does, and a new table. -/
def reinit (hm : Hashmap T) (freeValues : Bool) : Hashmap T :=
  let hm := if freeValues = true then hm.freeupAllValues else hm
  { hm with nEntries := 0, hashtable := T.init hm.type }

/-- `gallus_hashmap_create`: `memory` is whether there is some, and `lock` what
`gallus_rwlock_create` returns. -/
def create (T : HashTable κ β) (memory : Bool) (lock : Result) (type : Nat) (delProc : Bool) :
    Result × Option (Hashmap T) :=
  if memory = true then
    if lock = Result.ok then (Result.ok, some ⟨type, T.init type, delProc, 0, true, []⟩)
    else (lock, none)
  else (Result.noMemory, none)

/-- `s_clear` -/
def clear (hm : Hashmap T) (freeValues : Bool) : Result × Hashmap T :=
  if hm.isOperational = true then
    let hm := { hm with isOperational := false }.reinit freeValues
    (Result.ok, { hm with isOperational := true })
  else (Result.notOperational, hm)

/-- `s_find`, with what it stores for the caller. -/
def find (hm : Hashmap T) (key : κ) : Result × Option β :=
  if hm.isOperational = true then
    match T.find hm.hashtable key with
    | some val => (Result.ok, val)
    | none => (Result.notFound, none)
  else (Result.notOperational, none)

/-- `s_add`: `val` is what the caller passes, and the second result what it gets back. `entry` is
whether `CreateHashEntry` makes one. -/
def add (hm : Hashmap T) (key : κ) (val : Option β) (allowOverwrite entry : Bool) :
    Result × Option β × Hashmap T :=
  if hm.isOperational = true then
    match T.find hm.hashtable key with
    | some oldval =>
      if allowOverwrite = true then
        (Result.ok, oldval, { hm with hashtable := T.set hm.hashtable key val })
      else (Result.alreadyExists, oldval, hm)
    | none =>
      if entry = true then
        (Result.ok, none, { hm with
          hashtable := T.set (T.create hm.hashtable key) key val
          nEntries := hm.nEntries + 1 })
      else (Result.noMemory, none, hm)
  else (Result.notOperational, val, hm)

/-- The call of `m_del_proc` for a value. -/
def delValue (hm : Hashmap T) (freeValue : Bool) : Option β → Hashmap T
  | some v =>
    if freeValue = true ∧ hm.delProc = true then { hm with freed := hm.freed ++ [v] } else hm
  | none => hm

/-- `s_delete` -/
def delete (hm : Hashmap T) (key : κ) (freeValue : Bool) : Result × Option β × Hashmap T :=
  if hm.isOperational = true then
    match T.find hm.hashtable key with
    | some val =>
      let hm := hm.delValue freeValue val
      (Result.ok, val, { hm with
        hashtable := T.delete hm.hashtable key
        nEntries := hm.nEntries - 1 })
    | none => (Result.ok, none, hm)
  else (Result.notOperational, none, hm)

/-- `gallus_hashmap_size` -/
def size (hm : Hashmap T) : Result :=
  if hm.isOperational = true then hm.nEntries else Result.notOperational

end Hashmap

/-- A call. A `valptr` is `none` for `NULL`; where the function only stores through it, it is
whether it is not `NULL`. -/
inductive Hashmap.Op (κ β : Type)
  | find (key : κ) (valptr : Bool)
  /-- `entry`: whether `CreateHashEntry` makes one. -/
  | add (key : κ) (valptr : Option (Option β)) (allowOverwrite entry : Bool)
  | delete (key : κ) (valptr : Bool) (freeValue : Bool)
  | clear (freeValues : Bool)
  | size

/-- What a call returns, and what `valptr` points to after it. -/
abbrev Hashmap.Reply (β : Type) := Result × Option (Option β)

/-- The calls, for a map that there is. -/
def Hashmap.call {T : HashTable κ β} (hm : Hashmap T) : Op κ β → Reply β × Hashmap T
  | .find key true => (((hm.find key).1, some (hm.find key).2), hm)
  | .find _ false => ((Result.invalidArgs, none), hm)
  | .add key (some val) allowOverwrite entry =>
    let r := hm.add key val allowOverwrite entry
    ((r.1, some r.2.1), r.2.2)
  | .add _ none _ _ => ((Result.invalidArgs, none), hm)
  | .delete key valptr freeValue =>
    let r := hm.delete key freeValue
    ((r.1, if valptr = true then some r.2.1 else none), r.2.2)
  | .clear freeValues =>
    let r := hm.clear freeValues
    ((r.1, none), r.2)
  | .size => ((hm.size, none), hm)

/-- Each value that is not `NULL` is freed once, or none is. -/
theorem doIterate_freeupProc (delProc : Bool) (es : List (Σ _ : κ, Option β)) (ret : Bool)
    (freed : List β) : (doIterate (freeupProc delProc) es ret freed).2 =
      if delProc = true then freed ++ es.filterMap fun e => e.2 else freed := by
  induction es generalizing ret freed with
  | nil => simp [doIterate]
  | cons e es ih =>
    obtain ⟨k, val⟩ := e
    cases delProc with
    | false => rfl
    | true =>
      cases val with
      | none => simp [doIterate, freeupProc, ih]
      | some v => simp [doIterate, freeupProc, ih]

namespace Hashmap

variable {T : HashTable κ β}

theorem delValue_eq (hm : Hashmap T) (freeValue : Bool) (val : Option β) :
    hm.delValue freeValue val = { hm with
      freed := if freeValue = true ∧ hm.delProc = true then hm.freed ++ val.toList
        else hm.freed } := by
  cases val with
  | none => simp [delValue]
  | some v =>
    unfold delValue
    split_ifs <;> rfl

theorem reinit_eq (hm : Hashmap T) (freeValues : Bool) :
    hm.reinit freeValues = { hm with
      nEntries := 0
      hashtable := T.init hm.type
      freed := if freeValues = true ∧ hm.delProc = true then
        hm.freed ++ (T.entries hm.hashtable).filterMap fun e => e.2 else hm.freed } := by
  cases freeValues with
  | false => simp [reinit]
  | true => simp [reinit, freeupAllValues, doIterate_freeupProc]

end Hashmap
end Gallus
