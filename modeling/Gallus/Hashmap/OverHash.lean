import Gallus.Hash.Enumerate
import Gallus.Hashmap.Refines

/-!
# The hash map over the hash table (`hashmap.c`, `hash.c`)

The functions of the hash map, with the table that they run on in place of a table that is given by
its laws. A result that is `none` is a fault of the table.

* `Record`, with `find`, `add`, `delete`, `clear`, `size` and `iterate`. `doIterate` goes through
  the table with `FirstHashEntry` and `NextHashEntry`, and the procedure may set the value of an
  entry.
* `Holds`: the table is a finite map. `record_refines`: calls do not fault, and are answered as by
  that map.
* `iterate_visits`: an iteration visits the pairs of the map, each once, until the procedure returns
  `false`.
-/

namespace Gallus
namespace Hashmap

open Hash

variable {kt : KeyType} {β σ : Type}

/-- `gallus_hashmap_record` -/
structure Record (kt : KeyType) (β : Type) where
  hashtable : Table kt β
  /-- `m_del_proc != NULL` -/
  delProc : Bool
  nEntries : Int
  isOperational : Bool
  /-- The values that `m_del_proc` has been called for. -/
  freed : List β

/-- What a procedure does with a pair: what it returns, the value that it gives the entry with
`gallus_hashmap_set_value`, if any, and its own state. -/
abbrev Proc (κ β σ : Type) := κ → Option β → σ → Bool × Option (Option β) × σ

/-- `gallus_hashmap_set_value`, if the procedure calls it. -/
def setIf (t : Table kt β) (addr : Nat) : Option (Option β) → Option (Table kt β)
  | some value => setHashValue t addr value
  | none => some t

/-- The loop of `s_do_iterate`, for at most `n` entries and the end. -/
def doIterateFrom (proc : Proc kt.Key β σ) :
    Nat → Table kt β → Option (Entry kt.Key β) × Search → Bool → σ →
      Option (Bool × Table kt β × σ)
  | _, t, (none, _), ret, a => some (ret, t, a)
  | 0, _, (some _, _), _, _ => none
  | n + 1, t, (some he, s), _, a =>
    let r := proc he.key he.clientData a
    (setIf t he.addr r.2.1).bind fun t =>
      if r.1 = false then some (r.1, t, r.2.2)
      else (nextHashEntry t s).bind fun next => doIterateFrom proc n t next r.1 r.2.2

/-- `s_do_iterate` -/
def doIterateTable (proc : Proc kt.Key β σ) (t : Table kt β) (a : σ) :
    Option (Bool × Table kt β × σ) :=
  (firstHashEntry t).bind fun first => doIterateFrom proc t.numEntries t first false a

/-- `s_freeup_proc`, as a procedure that sets no value. -/
def freeupEntry (delProc : Bool) : Proc kt.Key β (List β) := fun key val freed =>
  ((freeupProc delProc key val freed).1, none, (freeupProc delProc key val freed).2)

namespace Record

/-- `gallus_hashmap_create` -/
def create (keyLen : Nat) (β : Type) (delProc : Bool) : Record (keyType keyLen) β :=
  ⟨initHashTable (keyType keyLen) β, delProc, 0, true, []⟩

/-- `s_reinit`: `s_clean` and a new table. -/
def reinit (hm : Record kt β) (freeValues : Bool) : Option (Record kt β) :=
  let new (freed : List β) : Record kt β :=
    { hm with hashtable := initHashTable kt β, nEntries := 0, freed := freed }
  if freeValues = true then
    (doIterateTable (freeupEntry hm.delProc) hm.hashtable hm.freed).map fun r => new r.2.2
  else some (new hm.freed)

/-- `s_clear` -/
def clear (hm : Record kt β) (freeValues : Bool) : Option (Result × Record kt β) :=
  if hm.isOperational = true then
    (reinit { hm with isOperational := false } freeValues).map fun hm =>
      (Result.ok, { hm with isOperational := true })
  else some (Result.notOperational, hm)

/-- `s_find` -/
def find (hm : Record kt β) (key : kt.Key) : Option (Result × Option β) :=
  if hm.isOperational = true then
    (findHashEntry hm.hashtable key).map fun he =>
      match he with
      | some he => (Result.ok, he.clientData)
      | none => (Result.notFound, none)
  else some (Result.notOperational, none)

/-- `s_add`: `malloc` is what it returns if there is to be a new entry. -/
def add (hm : Record kt β) (key : kt.Key) (val : Option β) (allowOverwrite : Bool)
    (malloc : Option Nat) : Option (Result × Option β × Record kt β) :=
  if hm.isOperational = true then
    (findHashEntry hm.hashtable key).bind fun he =>
      match he with
      | some he =>
        if allowOverwrite = true then
          (setHashValue hm.hashtable he.addr val).map fun t =>
            (Result.ok, he.clientData, { hm with hashtable := t })
        else some (Result.alreadyExists, he.clientData, hm)
      | none =>
        (createHashEntry hm.hashtable key malloc true).bind fun r =>
          match r.1.1 with
          | some addr => (setHashValue r.2 addr val).map fun t =>
              (Result.ok, none, { hm with hashtable := t, nEntries := hm.nEntries + 1 })
          | none => some (Result.noMemory, none, { hm with hashtable := r.2 })
  else some (Result.notOperational, val, hm)

/-- `s_delete` -/
def delete (hm : Record kt β) (key : kt.Key) (freeValue : Bool) :
    Option (Result × Option β × Record kt β) :=
  if hm.isOperational = true then
    (findHashEntry hm.hashtable key).bind fun he =>
      match he with
      | some he =>
        let freed := if freeValue = true ∧ hm.delProc = true then
          hm.freed ++ he.clientData.toList else hm.freed
        (deleteHashEntry hm.hashtable he.addr).map fun t =>
          (Result.ok, he.clientData,
            { hm with hashtable := t, nEntries := hm.nEntries - 1, freed := freed })
      | none => some (Result.ok, none, hm)
  else some (Result.notOperational, none, hm)

/-- `s_iterate` -/
def iterate (hm : Record kt β) (proc : Proc kt.Key β σ) (a : σ) :
    Option (Result × Record kt β × σ) :=
  if hm.isOperational = true then
    (doIterateTable proc hm.hashtable a).map fun r =>
      (if r.1 = true then Result.ok else Result.iterationHalted,
        { hm with hashtable := r.2.1 }, r.2.2)
  else some (Result.notOperational, hm, a)

/-- `gallus_hashmap_size` -/
def size (hm : Record kt β) : Result :=
  if hm.isOperational = true then hm.nEntries else Result.notOperational

/-- The calls, with the address that `malloc` returns if it returns one. -/
def call (hm : Record kt β) : Op kt.Key β × Nat → Option (Reply β × Record kt β)
  | (.find key true, _) => (hm.find key).map fun r => ((r.1, some r.2), hm)
  | (.find _ false, _) => some ((Result.invalidArgs, none), hm)
  | (.add key (some val) allowOverwrite entry, addr) =>
    (hm.add key val allowOverwrite (if entry = true then some addr else none)).map fun r =>
      ((r.1, some r.2.1), r.2.2)
  | (.add _ none _ _, _) => some ((Result.invalidArgs, none), hm)
  | (.delete key valptr freeValue, _) => (hm.delete key freeValue).map fun r =>
      ((r.1, if valptr = true then some r.2.1 else none), r.2.2)
  | (.clear freeValues, _) => (hm.clear freeValues).map fun r => ((r.1, none), r.2)
  | (.size, _) => some ((hm.size, none), hm)

/-- Calls, one after the other. -/
def calls : Record kt β → List (Op kt.Key β × Nat) → Option (List (Reply β) × Record kt β)
  | hm, [] => some ([], hm)
  | hm, op :: ops => (hm.call op).bind fun r => (calls r.2 ops).map fun rs => (r.1 :: rs.1, rs.2)

/-- What `malloc` and the caller see to: a new entry is at an address of its own, and there is room
for it. -/
def mayCall (hm : Record kt β) : Op kt.Key β × Nat → Prop
  | (.add _ (some _) _ _, addr) =>
    addr ∉ hm.hashtable.items.map Item.addr ∧ hm.hashtable.items.length + 1 < maxEntries
  | _ => True

instance decidableMayCall (hm : Record kt β) :
    (op : Op kt.Key β × Nat) → Decidable (hm.mayCall op)
  | (.add _ (some _) _ _, addr) => inferInstanceAs (Decidable
      (addr ∉ hm.hashtable.items.map Item.addr ∧ hm.hashtable.items.length + 1 < maxEntries))
  | (.add _ none _ _, _) => instDecidableTrue
  | (.find _ _, _) => instDecidableTrue
  | (.delete _ _ _, _) => instDecidableTrue
  | (.clear _, _) => instDecidableTrue
  | (.size, _) => instDecidableTrue

/-- Each call is one that can be made when it comes to it. -/
def MayCall : Record kt β → List (Op kt.Key β × Nat) → Prop
  | _, [] => True
  | hm, op :: ops => hm.mayCall op ∧ (hm.call op).elim True fun r => MayCall r.2 ops

instance decidableElim {α : Type} {p : α → Prop} [∀ x, Decidable (p x)] :
    (o : Option α) → Decidable (o.elim True p)
  | none => instDecidableTrue
  | some x => inferInstanceAs (Decidable (p x))

instance decidableAllMayCall :
    (hm : Record kt β) → (ops : List (Op kt.Key β × Nat)) → Decidable (hm.MayCall ops)
  | _, [] => instDecidableTrue
  | hm, op :: ops =>
    have (r : Reply β × Record kt β) := decidableAllMayCall r.2 ops
    inferInstanceAs (Decidable
      (hm.mayCall op ∧ (hm.call op).elim True fun r => MayCall r.2 ops))

end Record

/-! ## The finite map -/

/-- A key and its value. -/
def pair {κ : Type} (c : Item κ β) : Σ _ : κ, Option β := ⟨c.key, c.value⟩

theorem nodupKeys {t : Table kt β} (h : WellFormed t) : (t.items.map pair).NodupKeys := by
  unfold List.NodupKeys List.keys
  rw [List.map_map]
  exact h.keys

/-- The finite map that a table is. -/
def abs (t : Table kt β) (h : WellFormed t) : Finmap fun _ : kt.Key => Option β :=
  ⟨t.items.map pair, Multiset.coe_nodupKeys.mpr (nodupKeys h)⟩

/-- A search for a key finds its item. -/
theorem find?_key_iff {t : Table kt β} (h : WellFormed t) {key : kt.Key} {c : Item kt.Key β} :
    (t.items.find? fun c => c.key = key) = some c ↔ c ∈ t.items ∧ c.key = key := by
  constructor
  · intro hfind
    have hkey := List.find?_some hfind
    exact ⟨List.mem_of_find?_eq_some hfind, of_decide_eq_true hkey⟩
  · rintro ⟨hc, rfl⟩
    cases hfind : t.items.find? fun c' => c'.key = c.key with
    | none => exact absurd (List.mem_map_of_mem hc) (find?_eq_none_iff.mp hfind)
    | some c' =>
      have hkey := List.find?_some hfind
      rw [List.inj_on_of_nodup_map h.keys (List.mem_of_find?_eq_some hfind) hc
        (of_decide_eq_true hkey)]

theorem lookup_eq {t : Table kt β} (h : WellFormed t) (key : kt.Key) :
    (abs t h).lookup key = (t.items.find? fun c => c.key = key).map Item.value := by
  refine Option.ext fun v => ?_
  rw [Finmap.lookup_eq_some_iff, Option.map_eq_some_iff]
  show (⟨key, v⟩ : Σ _ : kt.Key, Option β) ∈ t.items.map pair ↔ _
  rw [List.mem_map]
  constructor
  · rintro ⟨c, hc, heq⟩
    cases heq
    exact ⟨c, (find?_key_iff h).mpr ⟨hc, rfl⟩, rfl⟩
  · rintro ⟨c, hfind, rfl⟩
    obtain ⟨hc, rfl⟩ := (find?_key_iff h).mp hfind
    exact ⟨c, hc, rfl⟩

theorem card_abs {t : Table kt β} (h : WellFormed t) : (abs t h).keys.card = t.items.length := by
  show ((t.items.map pair : Multiset (Σ _ : kt.Key, Option β)).map Sigma.fst).card = _
  simp

/-- A table with an item more. -/
theorem abs_cons {t t' : Table kt β} (h : WellFormed t) (h' : WellFormed t') {c : Item kt.Key β}
    (hperm : t'.items.Perm (c :: t.items)) : abs t' h' = (abs t h).insert c.key c.value := by
  have hnot : c.key ∉ t.items.map Item.key :=
    (List.nodup_cons.mp ((hperm.map Item.key).nodup_iff.mp h'.keys)).1
  refine Finmap.ext ?_
  rw [Finmap.entries_insert_of_notMem]
  · exact Multiset.coe_eq_coe.mpr (hperm.map pair)
  · rw [← Finmap.lookup_eq_none, lookup_eq, find?_eq_none_iff.mpr hnot]
    rfl

/-- A table with an item less. -/
theorem abs_erase {t t' : Table kt β} (h : WellFormed t) (h' : WellFormed t') {c : Item kt.Key β}
    (hperm : t.items.Perm (c :: t'.items)) : abs t' h' = (abs t h).erase c.key := by
  have hnot : c.key ∉ t'.items.map Item.key :=
    (List.nodup_cons.mp ((hperm.map Item.key).nodup_iff.mp h.keys)).1
  rw [abs_cons h' h hperm]
  refine Finmap.ext_lookup fun key => ?_
  by_cases hkey : key = c.key
  · subst hkey
    rw [Finmap.lookup_erase, lookup_eq, find?_eq_none_iff.mpr hnot]
    rfl
  · rw [Finmap.lookup_erase_ne hkey, Finmap.lookup_insert_of_ne _ hkey]

/-- A table with another value. -/
theorem abs_setValue {t t' : Table kt β} (h : WellFormed t) (h' : WellFormed t')
    {c : Item kt.Key β} (hc : c ∈ t.items) {value : Option β}
    (hitems : t'.items = t.items.map (Item.setValue c.addr value)) :
    abs t' h' = (abs t h).insert c.key value := by
  have hfind : ∀ key, (t'.items.find? fun c' => c'.key = key) =
      (t.items.find? fun c' => c'.key = key).map (Item.setValue c.addr value) := by
    intro key
    rw [hitems, List.find?_map]
    refine congrArg _ (congrArg (fun p => t.items.find? p) (funext fun c' => ?_))
    simp only [Function.comp_apply, Item.setValue_key]
  refine Finmap.ext_lookup fun key => ?_
  rw [lookup_eq, hfind]
  by_cases hkey : key = c.key
  · subst hkey
    have hself : (t.items.find? fun c' => c'.key = c.key) = some c :=
      (find?_key_iff h).mpr ⟨hc, rfl⟩
    rw [Finmap.lookup_insert, hself]
    simp [Item.setValue]
  · rw [Finmap.lookup_insert_of_ne _ hkey, lookup_eq]
    cases hother : t.items.find? fun c' => c'.key = key with
    | none => rfl
    | some c' =>
      obtain ⟨hc', rfl⟩ := (find?_key_iff h).mp hother
      have hne : c'.addr ≠ c.addr := fun heq =>
        hkey (congrArg Item.key (List.inj_on_of_nodup_map h.addrs hc' hc heq))
      simp [Item.setValue, hne]

/-! ## Going through the entries -/

/-- The value that a procedure leaves. -/
def newValue (value : Option β) : Option (Option β) → Option β
  | some value => value
  | none => value

/-- A procedure visits pairs, one after the other, until it returns `false`: what it returns last,
the pairs as it leaves them, and its state. -/
def visit {κ : Type} (proc : Proc κ β σ) :
    List (Σ _ : κ, Option β) → Bool → σ → Bool × List (Σ _ : κ, Option β) × σ
  | [], ret, a => (ret, [], a)
  | ⟨key, value⟩ :: ps, _, a =>
    let r := proc key value a
    let p : Σ _ : κ, Option β := ⟨key, newValue value r.2.1⟩
    if r.1 = false then (r.1, p :: ps, r.2.2)
    else
      let q := visit proc ps r.1 r.2.2
      (q.1, p :: q.2.1, q.2.2)

theorem visit_keys {κ : Type} (proc : Proc κ β σ) (ps : List (Σ _ : κ, Option β)) (ret : Bool)
    (a : σ) : (visit proc ps ret a).2.1.map Sigma.fst = ps.map Sigma.fst := by
  induction ps generalizing ret a with
  | nil => rfl
  | cons p ps ih =>
    obtain ⟨key, value⟩ := p
    unfold visit
    by_cases hret : (proc key value a).1 = false
    · rw [if_pos hret]
      rfl
    · rw [if_neg hret]
      exact congrArg (key :: ·) (ih _ _)

/-- `s_freeup_proc` sets no value. -/
theorem visit_freeupEntry {κ : Type} (delProc : Bool) (ps : List (Σ _ : κ, Option β)) (ret : Bool)
    (freed : List β) :
    (visit (fun key val freed => ((freeupProc delProc key val freed).1, none,
        (freeupProc delProc key val freed).2)) ps ret freed).2.2 =
      (doIterate (freeupProc delProc) ps ret freed).2 := by
  induction ps generalizing ret freed with
  | nil => rfl
  | cons p ps ih =>
    obtain ⟨key, value⟩ := p
    unfold visit doIterate
    by_cases hret : (freeupProc delProc key value freed).1 = false
    · simp only [if_pos hret]
    · simp only [if_neg hret]
      exact ih _ _

theorem map_eq_self {α : Type} {f : α → α} {l : List α} (h : ∀ x ∈ l, f x = x) : l.map f = l :=
  (List.map_congr_left h).trans (List.map_id l)

/-- A value set, if the procedure sets one. -/
theorem setIf_spec {t : Table kt β} (h : WellFormed t) {s : Search} {pre : List (Item kt.Key β)}
    {e : Entry kt.Key β} {l : List (Entry kt.Key β)} (hpending : Pending t s l)
    (hitems : t.items = pre ++ e.item :: l.map Entry.item) (value : Option (Option β)) :
    ∃ t', setIf t e.addr value = some t' ∧ WellFormed t' ∧ Pending t' s l ∧
      t'.items = pre ++ ⟨e.addr, e.key, newValue e.clientData value⟩ :: l.map Entry.item := by
  cases value with
  | none => exact ⟨t, rfl, h, hpending, hitems⟩
  | some value =>
    have hc : e.item ∈ t.items := by
      rw [hitems]
      simp
    obtain ⟨t', hset, hwf, hitems'⟩ := h.setHashValue hc value
    have hitems' : t'.items = t.items.map (Item.setValue e.addr value) := hitems'
    obtain ⟨e', he', -⟩ := h.entry hc
    have hbuckets : t'.buckets = t.buckets.map (List.map (Entry.setValue e.addr value)) := by
      have hset' := setHashValue_eq he' value
      rw [hset] at hset'
      rw [Option.some.inj hset']
      rfl
    have hnodup := h.addrs
    rw [hitems, List.map_append, List.map_cons] at hnodup
    obtain ⟨-, hrest, hdisj⟩ := List.nodup_append.mp hnodup
    obtain ⟨hnot, -⟩ := List.nodup_cons.mp hrest
    have hpre : pre.map (Item.setValue e.addr value) = pre :=
      map_eq_self fun c hc => if_neg fun heq =>
        hdisj _ (List.mem_map_of_mem hc) _ List.mem_cons_self heq
    have hl : l.map (Entry.setValue e.addr value) = l :=
      map_eq_self fun c hc => if_neg fun heq =>
        hnot (List.mem_map.mpr ⟨c.item, List.mem_map_of_mem hc, heq⟩)
    have hl' : (l.map Entry.item).map (Item.setValue e.addr value) = l.map Entry.item :=
      map_eq_self fun c hc => if_neg fun heq => hnot (List.mem_map.mpr ⟨c, hc, heq⟩)
    have hpending' := hpending.setValue hbuckets
    rw [hl] at hpending'
    refine ⟨t', hset, hwf, hpending', ?_⟩
    rw [hitems', hitems, List.map_append, List.map_cons, hpre, hl']
    have hself : e.item.setValue e.addr value = ⟨e.addr, e.key, value⟩ := if_pos rfl
    rw [hself]
    rfl

/-- The loop of `s_do_iterate`. -/
theorem doIterateFrom_eq (proc : Proc kt.Key β σ) (l : List (Entry kt.Key β)) {n : Nat}
    (hn : l.length ≤ n) {t : Table kt β} (h : WellFormed t) (pre : List (Item kt.Key β))
    {s : Search} (hpending : Pending t s l.tail) (hitems : t.items = pre ++ l.map Entry.item)
    (ret : Bool) (a : σ) :
    ∃ t', doIterateFrom proc n t (l.head?, s) ret a =
        some ((visit proc (l.map fun e => pair e.item) ret a).1, t',
          (visit proc (l.map fun e => pair e.item) ret a).2.2) ∧
      WellFormed t' ∧ t'.items.map pair =
        pre.map pair ++ (visit proc (l.map fun e => pair e.item) ret a).2.1 := by
  induction l generalizing n t pre s ret a with
  | nil =>
    refine ⟨t, ?_, h, ?_⟩
    · cases n <;> rfl
    · rw [hitems, List.map_append]
      rfl
  | cons e l ih =>
    obtain ⟨n, rfl⟩ : ∃ m, n = m + 1 := Nat.exists_eq_succ_of_ne_zero (by
      rw [List.length_cons] at hn
      omega)
    obtain ⟨t₁, hset, hwf₁, hpending₁, hitems₁⟩ :=
      setIf_spec h hpending hitems (proc e.key e.clientData a).2.1
    simp only [List.head?_cons, doIterateFrom, hset, Option.bind_some, List.map_cons, pair,
      Entry.item, visit]
    by_cases hret : (proc e.key e.clientData a).1 = false
    · simp only [if_pos hret]
      refine ⟨t₁, rfl, hwf₁, ?_⟩
      rw [hitems₁, List.map_append, List.map_cons, List.map_map]
      rfl
    · simp only [if_neg hret]
      obtain ⟨s', hnext, hpending'⟩ := hpending₁.next hwf₁
      obtain ⟨t', hloop, hwf', hitems'⟩ := ih (n := n) (by simpa using hn) hwf₁
        (pre ++ [⟨e.addr, e.key, newValue e.clientData (proc e.key e.clientData a).2.1⟩])
        hpending' (by rw [hitems₁, List.append_assoc]; rfl) (proc e.key e.clientData a).1
        (proc e.key e.clientData a).2.2
      refine ⟨t', ?_, hwf', ?_⟩
      · show (nextHashEntry t₁ s).bind _ = _
        rw [hnext]
        exact hloop
      · rw [hitems', List.map_append, List.append_assoc]
        rfl

/-- `s_do_iterate` visits the entries in the order of the table. -/
theorem doIterateTable_eq (proc : Proc kt.Key β σ) {t : Table kt β} (h : WellFormed t) (a : σ) :
    ∃ t', doIterateTable proc t a = some ((visit proc (t.items.map pair) false a).1, t',
          (visit proc (t.items.map pair) false a).2.2) ∧
      WellFormed t' ∧ t'.items.map pair = (visit proc (t.items.map pair) false a).2.1 := by
  obtain ⟨s, hfirst, hpending⟩ := (pending_first t).next h
  have hlen : t.buckets.flatten.length ≤ t.numEntries := by
    rw [h.numEntries, Table.items, List.length_map]
  obtain ⟨t', hloop, hwf', hitems'⟩ := doIterateFrom_eq proc t.buckets.flatten hlen h []
    hpending rfl false a
  have hpairs : t.items.map pair = t.buckets.flatten.map fun e => pair e.item := by
    rw [Table.items, List.map_map]
    rfl
  rw [hpairs]
  refine ⟨t', ?_, hwf', hitems'⟩
  rw [doIterateTable, firstHashEntry, hfirst]
  exact hloop

/-! ## The calls -/

/-- An operational hash map whose table is the finite map. -/
structure Holds (hm : Record kt β) (s : Store kt.Key β) : Prop where
  operational : hm.isOperational = true
  table : ∃ h : WellFormed hm.hashtable, abs hm.hashtable h = s.map
  nEntries : hm.nEntries = s.map.keys.card
  delProc : hm.delProc = s.delProc
  freed : (hm.freed : Multiset β) = s.freed

variable {hm : Record kt β} {s : Store kt.Key β}

theorem create_holds (keyLen : Nat) (delProc : Bool) :
    Holds (Record.create keyLen β delProc) ⟨∅, delProc, 0⟩ where
  operational := rfl
  table := ⟨wellFormed_init, rfl⟩
  nEntries := rfl
  delProc := rfl
  freed := rfl

/-- What `FindHashEntry` finds. -/
theorem Holds.find (h : Holds hm s) (key : kt.Key) :
    ∃ he, findHashEntry hm.hashtable key = some he ∧
      (he.map fun he => he.clientData) = s.map.lookup key ∧
      ∀ e, he = some e → e.item ∈ hm.hashtable.items ∧ e.key = key := by
  obtain ⟨hwf, habs⟩ := h.table
  obtain ⟨found, hsearch, hitem⟩ := hwf.search key
  refine ⟨found, by rw [findHashEntry_eq, hsearch], ?_, ?_⟩
  · rw [← habs, lookup_eq, ← hitem, Option.map_map]
    rfl
  · rintro e rfl
    exact (find?_key_iff hwf).mp hitem.symm

/-- The calls of `m_del_proc`, if there is one and it is asked for. -/
theorem freedAfter_eq {delProc : Bool} {freed : List β} (hdel : delProc = s.delProc)
    (hfreed : (freed : Multiset β) = s.freed) (free : Bool) (vs : List β) :
    ((if free = true ∧ delProc = true then freed ++ vs else freed : List β) : Multiset β) =
      s.freedAfter free vs := by
  unfold Store.freedAfter
  rw [← hdel, ← hfreed]
  split_ifs
  · exact (Multiset.coe_add freed vs).symm
  · rfl

theorem Holds.add (h : Holds hm s) {key : kt.Key} {val : Option β} {allowOverwrite entry : Bool}
    {addr : Nat} (hcall : hm.mayCall (.add key (some val) allowOverwrite entry, addr)) :
    ∃ hm', hm.call (.add key (some val) allowOverwrite entry, addr) =
        some ((s.add key val allowOverwrite entry).1, hm') ∧
      Holds hm' (s.add key val allowOverwrite entry).2 := by
  obtain ⟨hfresh, hroom⟩ := hcall
  obtain ⟨hwf, habs⟩ := h.table
  obtain ⟨he, hfind, hlookup, hmem⟩ := h.find key
  simp only [Record.call, Record.add, Store.add, if_pos h.operational, hfind, Option.bind_some]
  rw [← hlookup]
  cases he with
  | some e =>
    obtain ⟨hc, rfl⟩ := hmem e rfl
    cases allowOverwrite with
    | false => exact ⟨hm, rfl, h⟩
    | true =>
      obtain ⟨t', hset, hwf', hitems⟩ := hwf.setHashValue hc val
      have hset : setHashValue hm.hashtable e.addr val = some t' := hset
      refine ⟨{ hm with hashtable := t' }, ?_, h.operational, ⟨hwf', ?_⟩, ?_, h.delProc, h.freed⟩
      · simp only [if_true, hset]
        rfl
      · exact (abs_setValue hwf hwf' hc hitems).trans (congrArg _ habs)
      · refine h.nEntries.trans (congrArg _ ?_)
        exact (MapImpl.card_insert_of_some (by rw [← hlookup]; exact Option.some_ne_none _) _).symm
  | none =>
    have hnone : (hm.hashtable.items.find? fun c => c.key = key) = none := by
      rw [← Option.map_eq_none_iff (f := Item.value), ← lookup_eq hwf, habs, ← hlookup]
      rfl
    cases entry with
    | false =>
      obtain ⟨reply, t', hcreate, hwf', hcreated⟩ := hwf.create key none
        (fun _ ha => by cases ha) (by rw [hwf.numEntries]; exact hroom)
      rw [Created, hnone] at hcreated
      obtain ⟨rfl, rfl⟩ := hcreated
      refine ⟨hm, ?_, h⟩
      simp only [Option.map_none, Bool.false_eq_true, if_false, hcreate, Option.bind_some,
        Option.map_some]
    | true =>
      obtain ⟨reply, t₁, hcreate, hwf₁, hcreated⟩ := hwf.create key (some addr)
        (fun a ha => by cases ha; exact hfresh) (by rw [hwf.numEntries]; exact hroom)
      rw [Created, hnone] at hcreated
      obtain ⟨rfl, hperm⟩ := hcreated
      have hc : (⟨addr, key, none⟩ : Item kt.Key β) ∈ t₁.items :=
        hperm.mem_iff.mpr List.mem_cons_self
      obtain ⟨t', hset, hwf', hitems⟩ := hwf₁.setHashValue hc val
      have hset : setHashValue t₁ addr val = some t' := hset
      refine ⟨{ hm with hashtable := t', nEntries := hm.nEntries + 1 }, ?_, h.operational,
        ⟨hwf', ?_⟩, ?_, h.delProc, h.freed⟩
      · simp only [Option.map_none, if_true, hcreate, Option.bind_some, hset, Option.map_some]
      · rw [abs_setValue hwf₁ hwf' hc hitems, abs_cons hwf hwf₁ hperm, habs,
          Finmap.insert_insert]
        rfl
      · show hm.nEntries + 1 = (s.map.insert key val).keys.card
        rw [h.nEntries, MapImpl.card_insert_of_none hlookup.symm]
        rfl

theorem Holds.delete (h : Holds hm s) (key : kt.Key) (valptr freeValue : Bool) (addr : Nat) :
    ∃ hm', hm.call (.delete key valptr freeValue, addr) =
        some ((s.call (.delete key valptr freeValue)).1, hm') ∧
      Holds hm' (s.call (.delete key valptr freeValue)).2 := by
  obtain ⟨hwf, habs⟩ := h.table
  obtain ⟨he, hfind, hlookup, hmem⟩ := h.find key
  simp only [Record.call, Record.delete, Store.call, if_pos h.operational, hfind, Option.bind_some,
    valueAt]
  rw [← hlookup]
  cases he with
  | none =>
    have hnone : s.map.lookup key = none := hlookup.symm
    refine ⟨hm, rfl, h.operational, ⟨hwf, ?_⟩, ?_, h.delProc, ?_⟩
    · exact habs.trans (MapImpl.erase_of_none hnone).symm
    · exact h.nEntries.trans (by rw [MapImpl.erase_of_none hnone])
    · exact h.freed.trans (by simp [Store.freedAfter])
  | some e =>
    obtain ⟨hc, rfl⟩ := hmem e rfl
    obtain ⟨t', hdelete, hwf', hperm⟩ := hwf.deleteHashEntry hc
    have hdelete : deleteHashEntry hm.hashtable e.addr = some t' := hdelete
    have hcard := MapImpl.card_erase_of_some (m := s.map) (k := e.key)
      (by rw [← hlookup]; exact Option.some_ne_none _)
    have hn := h.nEntries
    refine ⟨{ hm with
      hashtable := t'
      nEntries := hm.nEntries - 1
      freed := if freeValue = true ∧ hm.delProc = true then hm.freed ++ e.clientData.toList
        else hm.freed }, by simp only [hdelete, Option.map_some]; rfl, h.operational,
      ⟨hwf', ?_⟩, ?_, h.delProc, ?_⟩
    · exact (abs_erase hwf hwf' hperm).trans (congrArg _ habs)
    · show hm.nEntries - 1 = (s.map.erase e.key).keys.card
      omega
    · exact freedAfter_eq h.delProc h.freed freeValue e.clientData.toList

theorem Holds.clear (h : Holds hm s) (freeValues : Bool) (addr : Nat) :
    ∃ hm', hm.call (.clear freeValues, addr) = some ((s.call (.clear freeValues)).1, hm') ∧
      Holds hm' (s.call (.clear freeValues)).2 := by
  obtain ⟨hwf, habs⟩ := h.table
  have hvalues : values s.map =
      ((hm.hashtable.items.map pair).filterMap fun e => e.2 : List β) := by
    rw [← habs]
    rfl
  obtain ⟨t', hiterate, -, -⟩ := doIterateTable_eq (freeupEntry hm.delProc) hwf hm.freed
  have hfreed : (visit (freeupEntry hm.delProc) (hm.hashtable.items.map pair) false hm.freed).2.2 =
      if hm.delProc = true then
        hm.freed ++ (hm.hashtable.items.map pair).filterMap fun e => e.2 else hm.freed := by
    rw [← doIterate_freeupProc hm.delProc (hm.hashtable.items.map pair) false hm.freed]
    exact visit_freeupEntry hm.delProc _ false hm.freed
  rw [hfreed] at hiterate
  simp only [Record.call, Record.clear, Store.call, if_pos h.operational, Record.reinit]
  cases freeValues with
  | false =>
    refine ⟨_, rfl, rfl, ⟨wellFormed_init, rfl⟩, rfl, h.delProc, ?_⟩
    exact h.freed.trans (by simp [Store.freedAfter])
  | true =>
    simp only [if_true, hiterate, Option.map_some]
    refine ⟨_, rfl, rfl, ⟨wellFormed_init, rfl⟩, rfl, h.delProc, ?_⟩
    have := freedAfter_eq h.delProc h.freed true
      ((hm.hashtable.items.map pair).filterMap fun e => e.2)
    simp only [true_and, ← hvalues] at this
    exact this

theorem record_call (h : Holds hm s) (op : Op kt.Key β) (addr : Nat)
    (hcall : hm.mayCall (op, addr)) :
    ∃ hm', hm.call (op, addr) = some ((s.call op).1, hm') ∧ Holds hm' (s.call op).2 := by
  cases op with
  | find key valptr =>
    cases valptr with
    | false => exact ⟨hm, rfl, h⟩
    | true =>
      obtain ⟨he, hfind, hlookup, -⟩ := h.find key
      refine ⟨hm, ?_, ?_⟩
      · simp only [Record.call, Record.find, if_pos h.operational, hfind, Option.map_some,
          Store.call, ← hlookup]
        cases he <;> rfl
      · simp only [Store.call]
        cases s.map.lookup key <;> exact h
  | add key valptr allowOverwrite entry =>
    cases valptr with
    | none => exact ⟨hm, rfl, h⟩
    | some val => exact h.add hcall
  | delete key valptr freeValue => exact h.delete key valptr freeValue addr
  | clear freeValues => exact h.clear freeValues addr
  | size =>
    refine ⟨hm, ?_, h⟩
    simp only [Record.call, Record.size, if_pos h.operational, Store.call, h.nEntries]

/-- **The hash map over the hash table is a finite map.** For keys of any kind, as long as there is
room in the table, calls do not fault and are answered as by a finite map; the table is that map
after them, `m_n_entries` is the number of its keys, and `m_del_proc` has been called once for each
value that was removed to be freed. -/
theorem record_refines (h : Holds hm s) (ops : List (Op kt.Key β × Nat)) (hops : hm.MayCall ops) :
    ∃ hm', hm.calls ops =
        some ((Answers.answers Store.call s (ops.map Prod.fst)).1, hm') ∧
      Holds hm' (Answers.answers Store.call s (ops.map Prod.fst)).2 := by
  induction ops generalizing hm s with
  | nil => exact ⟨hm, rfl, h⟩
  | cons op ops ih =>
    obtain ⟨hcall, hrest⟩ := hops
    obtain ⟨hm₁, hstep, h₁⟩ := record_call h op.1 op.2 hcall
    rw [hstep] at hrest
    obtain ⟨hm', hcalls, h'⟩ := ih h₁ hrest
    refine ⟨hm', ?_, h'⟩
    rw [Record.calls, hstep, Option.bind_some, hcalls]
    rfl

/-- A value under two words, refused for one of them a second time; one of the two is deleted. -/
def wordCalls : List (Op (keyType 8).Key Nat × Nat) :=
  [(.add (1 : UInt64) (some (some 7)) false true, 100),
    (.add (2 : UInt64) (some (some 7)) false true, 200),
    (.add (1 : UInt64) (some (some 8)) false true, 300), (.delete (1 : UInt64) true true, 0),
    (.find (2 : UInt64) true, 0), (.size, 0)]

theorem wordCalls_may : (Record.create 8 Nat true).MayCall wordCalls := by decide

theorem record_refines_words : ∃ hm', (Record.create 8 Nat true).calls wordCalls =
      some ([(0, some none), (0, some none), (Result.alreadyExists, some (some 7)),
        (0, some (some 7)), (0, some (some 7)), (1, none)], hm') ∧
      Holds hm' (Answers.answers Store.call ⟨∅, true, 0⟩ (wordCalls.map Prod.fst)).2 := by
  obtain ⟨hm', hcalls, h'⟩ := record_refines (create_holds 8 true) wordCalls wordCalls_may
  refine ⟨hm', hcalls.trans ?_, h'⟩
  have : (Answers.answers Store.call (⟨∅, true, 0⟩ : Store (keyType 8).Key Nat)
      (wordCalls.map Prod.fst)).1 =
      [(0, some none), (0, some none), (Result.alreadyExists, some (some 7)),
        (0, some (some 7)), (0, some (some 7)), (1, none)] := by decide +kernel
  rw [this]

/-- **An iteration.** The procedure visits the pairs of the map in some order, each once, until it
returns `false`; the values that it sets are those of the map. The result is `ITERATION_HALTED` if
the procedure has returned `false`, and also if the map is empty. -/
theorem iterate_visits (h : Holds hm s) (proc : Proc kt.Key β σ) (a : σ) :
    ∃ (ps : List (Σ _ : kt.Key, Option β)) (hm' : Record kt β)
      (m : Finmap fun _ : kt.Key => Option β),
      (ps : Multiset (Σ _ : kt.Key, Option β)) = s.map.entries ∧
      hm.iterate proc a =
        some (if (visit proc ps false a).1 = true then Result.ok else Result.iterationHalted,
          hm', (visit proc ps false a).2.2) ∧
      m.entries = ((visit proc ps false a).2.1 : Multiset (Σ _ : kt.Key, Option β)) ∧
      Holds hm' { s with map := m } := by
  obtain ⟨hwf, habs⟩ := h.table
  obtain ⟨t', hiterate, hwf', hitems⟩ := doIterateTable_eq proc hwf a
  refine ⟨hm.hashtable.items.map pair, { hm with hashtable := t' }, abs t' hwf', ?_, ?_, ?_,
    h.operational, ⟨hwf', rfl⟩, ?_, h.delProc, h.freed⟩
  · rw [← habs]
    rfl
  · rw [Record.iterate, if_pos h.operational, hiterate]
    rfl
  · exact congrArg _ hitems
  · have hlen := congrArg List.length (visit_keys proc (hm.hashtable.items.map pair) false a)
    rw [← hitems] at hlen
    simp only [List.length_map] at hlen
    show hm.nEntries = ((abs t' hwf').keys.card : Int)
    rw [h.nEntries, ← habs, card_abs, card_abs, hlen]

/-- A procedure that collects the values and doubles each, up to a large one. -/
def double : Proc (keyType 8).Key Nat (List Nat) := fun _ value a =>
  match value with
  | some v => (decide (v < 10), some (some (v * 2)), a ++ [v])
  | none => (true, none, a)

/-- The map that has one pair. -/
def onePair : Store (keyType 8).Key Nat :=
  ⟨(∅ : Finmap fun _ : (keyType 8).Key => Option Nat).insert (1 : UInt64) (some 7), true, 0⟩

theorem iterate_visits_onePair : ∃ (hm hm' : Record (keyType 8) Nat)
      (m : Finmap fun _ : (keyType 8).Key => Option Nat),
    Holds hm onePair ∧ hm.iterate double [] = some (Result.ok, hm', [7]) ∧
      m.entries = {⟨(1 : UInt64), some 14⟩} ∧ Holds hm' { onePair with map := m } := by
  obtain ⟨hm, -, h⟩ := record_call (create_holds 8 true)
    (.add (1 : UInt64) (some (some 7)) false true) 100 (by decide)
  have h : Holds hm onePair := h
  obtain ⟨ps, hm', m, hps, hiterate, hm, h'⟩ := iterate_visits h double []
  obtain rfl : ps = [⟨(1 : UInt64), some 7⟩] := Multiset.coe_eq_singleton.mp hps
  exact ⟨_, hm', m, h, hiterate, hm, h'⟩

end Hashmap
end Gallus
