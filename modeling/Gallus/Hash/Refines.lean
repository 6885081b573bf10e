import Gallus.Hash.WellFormed
import Gallus.Lib.Answers

/-!
# The hash table is an association list

* `Op`, `call`: finding, creating, changing and deleting entries, for a caller that has the
  addresses of entries. `calls`: one after the other, up to a fault.
* `Items.call`: the same on a list of items. `Allowed`: what a caller may ask for. The addresses it
  passes are those of entries, `malloc` returns none of these, and a table has less than
  `maxEntries` entries.
* `hash_refines`: the calls do not fault, and they are answered as by the list. The table stays
  well-formed.
-/

namespace Gallus
namespace Hash

/-- A call. For a new entry, `malloc` is what it returns. -/
inductive Op (κ β : Type)
  | find (key : κ)
  | create (key : κ) (malloc : Option Nat)
  | setValue (addr : Nat) (value : Option β)
  | delete (addr : Nat)

/-- What a caller gets: an entry, the value in it, and whether it is new. -/
structure Reply (β : Type) where
  addr : Option Nat
  value : Option β
  isNew : Bool
deriving DecidableEq

variable {kt : KeyType} {β : Type}

/-- `FindHashEntry` with `GetHashValue`, `CreateHashEntry`, `SetHashValue` and `DeleteHashEntry`.
There is memory for each bucket array. -/
def call (t : Table kt β) : Op kt.Key β → Option (Reply β × Table kt β)
  | .find key => (findHashEntry t key).map fun found =>
      (⟨found.map Entry.addr, found.bind Entry.clientData, false⟩, t)
  | .create key malloc => (createHashEntry t key malloc true).map fun r =>
      (⟨r.1.1, none, r.1.2⟩, r.2)
  | .setValue addr value => (setHashValue t addr value).map fun t => (⟨none, none, false⟩, t)
  | .delete addr => (deleteHashEntry t addr).map fun t => (⟨none, none, false⟩, t)

/-- Calls, one after the other. -/
def calls : Table kt β → List (Op kt.Key β) → Option (List (Reply β) × Table kt β)
  | t, [] => some ([], t)
  | t, op :: ops => (call t op).bind fun r => (calls r.2 ops).map fun rs => (r.1 :: rs.1, rs.2)

namespace Items

variable {κ : Type} [DecidableEq κ]

/-- The calls on a list of items. -/
def call (items : List (Item κ β)) : Op κ β → Reply β × List (Item κ β)
  | .find key =>
    let found := items.find? fun c => c.key = key
    (⟨found.map Item.addr, found.bind Item.value, false⟩, items)
  | .create key malloc =>
    match items.find? (fun c => c.key = key), malloc with
    | some c, _ => (⟨some c.addr, none, false⟩, items)
    | none, some addr => (⟨some addr, none, true⟩, ⟨addr, key, none⟩ :: items)
    | none, none => (⟨none, none, false⟩, items)
  | .setValue addr value => (⟨none, none, false⟩, items.map (Item.setValue addr value))
  | .delete addr => (⟨none, none, false⟩, items.filter fun c => c.addr ≠ addr)

/-- What a caller may ask for. -/
def allowed (items : List (Item κ β)) : Op κ β → Prop
  | .find _ => True
  | .create _ malloc =>
    (∀ addr ∈ malloc, addr ∉ items.map Item.addr) ∧ items.length + 1 < maxEntries
  | .setValue addr _ => addr ∈ items.map Item.addr
  | .delete addr => addr ∈ items.map Item.addr

instance decidableAllowed (items : List (Item κ β)) :
    (op : Op κ β) → Decidable (allowed items op)
  | .find _ => instDecidableTrue
  | .create _ malloc => inferInstanceAs (Decidable
      ((∀ addr ∈ malloc, addr ∉ items.map Item.addr) ∧ items.length + 1 < maxEntries))
  | .setValue addr _ => inferInstanceAs (Decidable (addr ∈ items.map Item.addr))
  | .delete addr => inferInstanceAs (Decidable (addr ∈ items.map Item.addr))

/-- Each call is one that the caller may make when it comes to it. -/
def Allowed : List (Item κ β) → List (Op κ β) → Prop
  | _, [] => True
  | items, op :: ops => allowed items op ∧ Allowed (call items op).2 ops

instance decidableAllAllowed :
    (items : List (Item κ β)) → (ops : List (Op κ β)) → Decidable (Allowed items ops)
  | _, [] => instDecidableTrue
  | items, op :: ops =>
    have := decidableAllAllowed (call items op).2 ops
    inferInstanceAs (Decidable (allowed items op ∧ Allowed (call items op).2 ops))

end Items

/-! ## One call -/

/-- A table that holds the items, in some order. -/
def Holds (t : Table kt β) (items : List (Item kt.Key β)) : Prop :=
  WellFormed t ∧ t.items.Perm items

/-- What one element at most has is found in any order. -/
theorem find?_perm {α : Type} {l₁ l₂ : List α} {p : α → Bool} (h : l₁.Perm l₂)
    (huniq : ∀ x ∈ l₁, ∀ y ∈ l₁, p x = true → p y = true → x = y) :
    l₁.find? p = l₂.find? p := by
  cases h₁ : l₁.find? p with
  | none =>
    symm
    rw [List.find?_eq_none] at h₁ ⊢
    exact fun x hx => h₁ x (h.mem_iff.mpr hx)
  | some x =>
    have hx := List.mem_of_find?_eq_some h₁
    have hpx := List.find?_some h₁
    cases h₂ : l₂.find? p with
    | none => exact absurd hpx (List.find?_eq_none.mp h₂ x (h.mem_iff.mp hx))
    | some y =>
      have hy := h.mem_iff.mpr (List.mem_of_find?_eq_some h₂)
      rw [huniq x hx y hy hpx (List.find?_some h₂)]

theorem Holds.find? {t : Table kt β} {items : List (Item kt.Key β)} (h : Holds t items)
    (key : kt.Key) :
    (t.items.find? fun c => c.key = key) = items.find? fun c => c.key = key := by
  refine find?_perm h.2 fun x hx y hy hpx hpy => ?_
  exact List.inj_on_of_nodup_map h.1.keys hx hy
    ((of_decide_eq_true hpx).trans (of_decide_eq_true hpy).symm)

theorem Holds.mem_addrs {t : Table kt β} {items : List (Item kt.Key β)} (h : Holds t items)
    {addr : Nat} : addr ∈ t.items.map Item.addr ↔ addr ∈ items.map Item.addr :=
  (h.2.map Item.addr).mem_iff

/-- One item less, by its address. -/
theorem filter_addr {c : Item kt.Key β} {items : List (Item kt.Key β)}
    (hnodup : ((c :: items).map Item.addr).Nodup) :
    ((c :: items).filter fun c' => c'.addr ≠ c.addr) = items := by
  obtain ⟨hnot, -⟩ := List.nodup_cons.mp hnodup
  rw [List.filter_cons_of_neg (by simp), List.filter_eq_self]
  intro c' hc'
  have hne : c'.addr ≠ c.addr := fun heq => hnot (heq ▸ List.mem_map_of_mem hc')
  simpa using hne

theorem call_refines {t : Table kt β} {items : List (Item kt.Key β)} (h : Holds t items)
    (op : Op kt.Key β) (hop : Items.allowed items op) :
    ∃ t', call t op = some ((Items.call items op).1, t') ∧ Holds t' (Items.call items op).2 := by
  cases op with
  | find key =>
    obtain ⟨found, hsearch, hitem⟩ := h.1.search key
    rw [h.find? key] at hitem
    refine ⟨t, ?_, h⟩
    rw [call, findHashEntry_eq, hsearch, Items.call, ← hitem]
    cases found <;> rfl
  | create key malloc =>
    obtain ⟨hfresh, hroom⟩ := hop
    have hcount : t.numEntries + 1 < maxEntries := by
      rw [h.1.numEntries, h.2.length_eq]
      exact hroom
    obtain ⟨reply, t', hcreate, hwf, hcreated⟩ := h.1.create key malloc
      (fun addr ha => fun hmem => hfresh addr ha (h.mem_addrs.mp hmem)) hcount
    unfold Created at hcreated
    rw [h.find? key] at hcreated
    refine ⟨t', ?_⟩
    simp only [call, hcreate, Option.map_some, Items.call]
    cases hfind : items.find? fun c => c.key = key with
    | some c =>
      rw [hfind] at hcreated
      obtain ⟨rfl, rfl⟩ := hcreated
      exact ⟨rfl, h⟩
    | none =>
      rw [hfind] at hcreated
      cases malloc with
      | none =>
        obtain ⟨rfl, rfl⟩ := hcreated
        exact ⟨rfl, h⟩
      | some addr =>
        obtain ⟨rfl, hperm⟩ := hcreated
        exact ⟨rfl, hwf, hperm.trans (h.2.cons _)⟩
  | setValue addr value =>
    obtain ⟨c, hc, rfl⟩ := List.mem_map.mp (h.mem_addrs.mpr hop)
    obtain ⟨t', hset, hwf, hitems⟩ := h.1.setHashValue hc value
    refine ⟨t', ?_, hwf, ?_⟩
    · simp only [call, hset, Option.map_some, Items.call]
    · rw [hitems]
      exact h.2.map _
  | delete addr =>
    obtain ⟨c, hc, rfl⟩ := List.mem_map.mp (h.mem_addrs.mpr hop)
    obtain ⟨t', hdelete, hwf, hperm⟩ := h.1.deleteHashEntry hc
    refine ⟨t', ?_, hwf, ?_⟩
    · simp only [call, hdelete, Option.map_some, Items.call]
    · have hnodup := ((hperm.map Item.addr).nodup_iff.mp h.1.addrs)
      have hfilter := (hperm.symm.trans h.2).filter fun c' => c'.addr ≠ c.addr
      rw [filter_addr hnodup] at hfilter
      exact hfilter

/-! ## All calls -/

theorem calls_refines {t : Table kt β} {items : List (Item kt.Key β)} (h : Holds t items)
    (ops : List (Op kt.Key β)) (hops : Items.Allowed items ops) :
    ∃ t', calls t ops = some ((Answers.answers Items.call items ops).1, t') ∧
      Holds t' (Answers.answers Items.call items ops).2 := by
  induction ops generalizing t items with
  | nil => exact ⟨t, rfl, h⟩
  | cons op ops ih =>
    obtain ⟨hop, hops⟩ := hops
    obtain ⟨t₁, hcall, h₁⟩ := call_refines h op hop
    obtain ⟨t', hcalls, h'⟩ := ih h₁ hops
    refine ⟨t', ?_, h'⟩
    rw [calls, hcall, Option.bind_some, hcalls]
    rfl

/-- **The hash table is an association list.** From a new table of any kind, the calls that a caller
may make do not fault; they are answered as by a list of items, and the table has these items in the
buckets of their keys. -/
theorem hash_refines (keyLen : Nat) (ops : List (Op (keyType keyLen).Key β))
    (hops : Items.Allowed [] ops) :
    ∃ t', calls (initHashTable (keyType keyLen) β) ops =
        some ((Answers.answers Items.call [] ops).1, t') ∧
      WellFormed t' ∧ t'.items.Perm (Answers.answers Items.call [] ops).2 :=
  calls_refines ⟨wellFormed_init, List.Perm.refl _⟩ ops hops

/-- Two words: the value of one is set, and the other is deleted. -/
def words : List (Op (keyType 8).Key Nat) :=
  [.create (7 : UInt64) (some 100), .setValue 100 (some 1), .create (9 : UInt64) (some 200),
    .create (7 : UInt64) (some 300), .find (7 : UInt64), .delete 200, .find (9 : UInt64)]

theorem words_allowed : Items.Allowed [] words := by decide

theorem hash_refines_words : ∃ t', calls (initHashTable (keyType 8) Nat) words =
      some ([⟨some 100, none, true⟩, ⟨none, none, false⟩, ⟨some 200, none, true⟩,
        ⟨some 100, none, false⟩, ⟨some 100, some 1, false⟩, ⟨none, none, false⟩,
        ⟨none, none, false⟩], t') ∧ WellFormed t' ∧
      t'.items.Perm [⟨100, (7 : UInt64), some 1⟩] :=
  hash_refines 8 words words_allowed

end Hash
end Gallus
