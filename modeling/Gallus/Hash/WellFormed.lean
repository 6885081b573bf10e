import Gallus.Hash.Table
import Gallus.Lib.Buckets

/-!
# What keeps the hash table in order

* `Item`, `Table.items`: what is in a table, in the order of its chains.
* `Sized`: the numbers of a table that has been rebuilt `n` times. Up to the fourteenth time they
  are within an `unsigned int`, so a table has room for `maxEntries` entries.
* `WellFormed`: the entries are in the buckets of their keys, their `bucketPtr`s are right, keys and
  addresses are distinct, and `numEntries` is their number.
* `wellFormed_init`, `WellFormed.create`, `WellFormed.setHashValue`, `WellFormed.deleteHashEntry`:
  what each procedure does to the items of a well-formed table. It faults in none of them.
-/

namespace Gallus
namespace Hash

/-- What an entry holds, for the caller. -/
structure Item (κ β : Type) where
  addr : Nat
  key : κ
  value : Option β
deriving DecidableEq

variable {kt : KeyType} {β : Type}

def Entry.item {κ : Type} (e : Entry κ β) : Item κ β := ⟨e.addr, e.key, e.clientData⟩

/-- What is in the table. -/
def Table.items (t : Table kt β) : List (Item kt.Key β) := t.buckets.flatten.map Entry.item

/-- The number of entries at which a table is rebuilt for the fifteenth time. -/
def maxEntries : Nat := 3 * 4 ^ 15

/-- The numbers of a table that has been rebuilt `n` times. -/
structure Sized (n : Nat) (t : Table kt β) : Prop where
  le : n ≤ 14
  numBuckets : t.numBuckets = 4 ^ (n + 1)
  rebuildSize : t.rebuildSize = 3 * 4 ^ (n + 1)
  downShift : t.downShift + 2 * n = 28
  mask : t.mask + 1 = 4 ^ (n + 1)
  buckets : t.buckets.length = t.numBuckets

structure WellFormed (t : Table kt β) : Prop where
  sized : ∃ n, Sized n t
  index : Buckets.Placed (fun e => t.index e.key) t.buckets
  bucket : Buckets.Placed Entry.bucket t.buckets
  keys : (t.items.map Item.key).Nodup
  addrs : (t.items.map Item.addr).Nodup
  numEntries : t.numEntries = t.items.length
  notFull : t.numEntries < t.rebuildSize

/-! ## The numbers -/

theorem four_pow_le {n : Nat} (h : n ≤ 14) : 4 ^ (n + 1) ≤ 4 ^ 15 :=
  Nat.pow_le_pow_right (by omega) (by omega)

theorem u32_of_lt {x : Nat} (h : x < 2 ^ 32) : u32 x = x := Nat.mod_eq_of_lt h

/-- The index of a key depends on `downShift` and `mask` alone. -/
theorem index_congr {t t' : Table kt β} (hshift : t.downShift = t'.downShift)
    (hmask : t.mask = t'.mask) (key : kt.Key) : t.index key = t'.index key := by
  cases kt with
  | string => exact congrArg (hashString key &&& ·) hmask
  | oneWord => simp only [Table.index, Table.oneWordIndex, Table.randomIndex, hshift, hmask]
  | array keyLen => simp only [Table.index, Table.arrayIndex, Table.randomIndex, hshift, hmask]

theorem placed_congr {t t' : Table kt β} {L : List (List (Entry kt.Key β))}
    (h : Buckets.Placed (fun e => t.index e.key) L) (hshift : t.downShift = t'.downShift)
    (hmask : t.mask = t'.mask) : Buckets.Placed (fun e => t'.index e.key) L := by
  intro i chain hchain e he
  exact (index_congr hshift hmask e.key).symm.trans (h i chain hchain e he)

theorem index_le_mask (t : Table kt β) (key : kt.Key) : t.index key ≤ t.mask := by
  cases kt <;> exact Nat.and_le_right

/-- The index of a key is that of a bucket. -/
theorem Sized.chain {n : Nat} {t : Table kt β} (h : Sized n t) (key : kt.Key) :
    ∃ chain, t.buckets[t.index key]? = some chain := by
  have hle := index_le_mask t key
  have hmask := h.mask
  have hlen : t.buckets.length = 4 ^ (n + 1) := h.buckets.trans h.numBuckets
  exact ⟨_, List.getElem?_eq_getElem (by omega)⟩

theorem Sized.enlarged {n : Nat} {t : Table kt β} (h : Sized n t) (hn : n < 14) :
    Sized (n + 1) t.enlarged := by
  have hpow : (4 : Nat) ^ (n + 1 + 1) = 4 ^ (n + 1) * 4 := Nat.pow_succ ..
  have hle : (4 : Nat) ^ (n + 1 + 1) ≤ 4 ^ 15 := four_pow_le (n := n + 1) (by omega)
  obtain ⟨-, hbuckets, hrebuild, hshift, hmask, -⟩ := h
  have hshl : t.mask <<< 2 = t.mask * 4 := Nat.shiftLeft_eq t.mask 2
  refine ⟨by omega, ?_, ?_, ?_, ?_, List.length_replicate⟩
  · show u32 (t.numBuckets * 4) = _
    rw [u32_of_lt] <;> omega
  · show u32 (t.rebuildSize * 4) = _
    rw [u32_of_lt] <;> omega
  · show u32 (t.downShift + (2 ^ 32 - 2)) + _ = _
    unfold u32
    omega
  · show u32 (u32 (t.mask <<< 2) + 3) + 1 = _
    rw [hshl, u32_of_lt (x := t.mask * 4), u32_of_lt] <;> omega

/-! ## A new table -/

theorem items_replicate {t : Table kt β} {n : Nat} (h : t.buckets = List.replicate n []) :
    t.items = [] := by
  unfold Table.items
  rw [h, List.flatten_replicate_nil, List.map_nil]

theorem sized_init : Sized 0 (initHashTable kt β) :=
  ⟨by decide, rfl, rfl, rfl, rfl, rfl⟩

theorem wellFormed_init : WellFormed (initHashTable kt β) where
  sized := ⟨0, sized_init⟩
  index := Buckets.placed_replicate _
  bucket := Buckets.placed_replicate _
  keys := List.nodup_nil
  addrs := List.nodup_nil
  numEntries := rfl
  notFull := Nat.zero_lt_succ 11

/-! ## Searching -/

/-- A search finds the item of the key. -/
theorem WellFormed.search {t : Table kt β} (h : WellFormed t) (key : kt.Key) :
    ∃ found, t.search (t.index key) key = some found ∧
      found.map Entry.item = t.items.find? fun c => c.key = key := by
  obtain ⟨n, hsized⟩ := h.sized
  obtain ⟨chain, hchain⟩ := hsized.chain key
  refine ⟨chain.find? fun e => e.key = key, by rw [Table.search, hchain]; rfl, ?_⟩
  rw [← Buckets.Placed.find?_eq h.index hchain, Table.items, List.find?_map]
  · rfl
  · intro e he
    exact congrArg t.index (of_decide_eq_true he)

/-! ## Moving entries -/

theorem place_eq {t : Table kt β} {idx : Nat} {chain : List (Entry kt.Key β)}
    (h : t.buckets[idx]? = some chain) (e : Entry kt.Key β) :
    t.place e idx = some { t with
      buckets := t.buckets.set idx ({ e with bucket := idx } :: chain) } := by
  rw [Table.place, h]
  rfl

/-- The table after an entry is put at the head of a chain. -/
theorem Sized.place {n : Nat} {t : Table kt β} (h : Sized n t)
    (hindex : Buckets.Placed (fun e => t.index e.key) t.buckets)
    (hbucket : Buckets.Placed Entry.bucket t.buckets) (e : Entry kt.Key β) :
    ∃ t', t.place e (t.index e.key) = some t' ∧ Sized n t' ∧
      Buckets.Placed (fun e => t'.index e.key) t'.buckets ∧
      Buckets.Placed Entry.bucket t'.buckets ∧ t'.items.Perm (e.item :: t.items) ∧
      t'.numEntries = t.numEntries := by
  obtain ⟨chain, hchain⟩ := h.chain e.key
  refine ⟨_, place_eq hchain e, ?_, ?_, ?_, ?_, rfl⟩
  · exact ⟨h.le, h.numBuckets, h.rebuildSize, h.downShift, h.mask,
      List.length_set.trans h.buckets⟩
  · refine placed_congr (Buckets.Placed.set hindex fun x hx => ?_) rfl rfl
    rcases List.mem_cons.mp hx with rfl | hx
    · rfl
    · exact hindex _ _ hchain x hx
  · refine Buckets.Placed.set hbucket fun x hx => ?_
    rcases List.mem_cons.mp hx with rfl | hx
    · rfl
    · exact hbucket _ _ hchain x hx
  · exact (Buckets.flatten_set_cons hchain _).map Entry.item

/-- The loops of `RebuildTable`: each entry that moves is in the new table. -/
theorem Sized.rehash {n : Nat} (es : List (Entry kt.Key β)) {t : Table kt β} (h : Sized n t)
    (hindex : Buckets.Placed (fun e => t.index e.key) t.buckets)
    (hbucket : Buckets.Placed Entry.bucket t.buckets) :
    ∃ t', rehash t es = some t' ∧ Sized n t' ∧
      Buckets.Placed (fun e => t'.index e.key) t'.buckets ∧
      Buckets.Placed Entry.bucket t'.buckets ∧ t'.items.Perm (es.map Entry.item ++ t.items) ∧
      t'.numEntries = t.numEntries := by
  induction es generalizing t with
  | nil => exact ⟨t, rfl, h, hindex, hbucket, List.Perm.refl _, rfl⟩
  | cons e es ih =>
    obtain ⟨t₁, hplace, hsized₁, hindex₁, hbucket₁, hitems₁, hcount₁⟩ :=
      h.place hindex hbucket e
    obtain ⟨t', hrest, hsized', hindex', hbucket', hitems', hcount'⟩ :=
      ih hsized₁ hindex₁ hbucket₁
    refine ⟨t', ?_, hsized', hindex', hbucket', ?_, hcount'.trans hcount₁⟩
    · rw [Hash.rehash, hplace]
      exact hrest
    · refine hitems'.trans ((hitems₁.append_left _).trans ?_)
      exact List.perm_middle

/-- `RebuildTable` keeps the items. -/
theorem Sized.rebuildTable {n : Nat} {t : Table kt β} (h : Sized n t) (hn : n < 14) :
    ∃ t', rebuildTable t true = some t' ∧ Sized (n + 1) t' ∧
      Buckets.Placed (fun e => t'.index e.key) t'.buckets ∧
      Buckets.Placed Entry.bucket t'.buckets ∧ t'.items.Perm t.items ∧
      t'.numEntries = t.numEntries := by
  obtain ⟨t', hrehash, hsized, hindex, hbucket, hitems, hcount⟩ :=
    (h.enlarged hn).rehash t.buckets.flatten (Buckets.placed_replicate _)
      (Buckets.placed_replicate _)
  refine ⟨t', ?_, hsized, hindex, hbucket, ?_, hcount⟩
  · rw [Hash.rebuildTable, if_neg (by simp)]
    exact hrehash
  · rw [items_replicate (t := t.enlarged) rfl, List.append_nil] at hitems
    exact hitems

/-! ## The procedures -/

/-- What is linked into a table is in it, also if the table is rebuilt. -/
theorem WellFormed.link {t : Table kt β} (h : WellFormed t) {addr : Nat} {key : kt.Key}
    (hkey : key ∉ t.items.map Item.key) (haddr : addr ∉ t.items.map Item.addr)
    (hroom : t.numEntries + 1 < maxEntries) :
    ∃ t', t.link (t.index key) addr key true = some t' ∧ WellFormed t' ∧
      t'.items.Perm (⟨addr, key, none⟩ :: t.items) := by
  obtain ⟨n, hsized⟩ := h.sized
  have hmax : maxEntries = 3221225472 := by decide
  obtain ⟨t₁, hplace, hsized₁, hindex₁, hbucket₁, hitems₁, hcount₁⟩ :=
    hsized.place h.index h.bucket ⟨addr, t.index key, none, key⟩
  have hkeys : ((⟨addr, key, none⟩ :: t.items : List (Item kt.Key β)).map Item.key).Nodup :=
    List.nodup_cons.mpr ⟨hkey, h.keys⟩
  have haddrs : ((⟨addr, key, none⟩ :: t.items : List (Item kt.Key β)).map Item.addr).Nodup :=
    List.nodup_cons.mpr ⟨haddr, h.addrs⟩
  have hnum : u32 (t₁.numEntries + 1) = t.items.length + 1 := by
    rw [hcount₁, h.numEntries, u32_of_lt]
    rw [← h.numEntries]
    omega
  -- the table with the new entry, before it is looked at whether it is full
  let t₂ : Table kt β := { t₁ with numEntries := u32 (t₁.numEntries + 1) }
  have hlink : t.link (t.index key) addr key true =
      if t₂.numEntries ≥ t₂.rebuildSize then rebuildTable t₂ true else some t₂ := by
    rw [Table.link, hplace]
    rfl
  have hsized₂ : Sized n t₂ := ⟨hsized₁.le, hsized₁.numBuckets, hsized₁.rebuildSize,
    hsized₁.downShift, hsized₁.mask, hsized₁.buckets⟩
  have hindex₂ : Buckets.Placed (fun e => t₂.index e.key) t₂.buckets :=
    placed_congr hindex₁ rfl rfl
  have hfull := h.notFull
  have hnumEntries := h.numEntries
  have hsize := hsized.rebuildSize
  have hsize₁ := hsized₁.rebuildSize
  by_cases hge : t₂.numEntries ≥ t₂.rebuildSize
  · have hlt : n < 14 := by
      by_contra hnlt
      have hn : n = 14 := Nat.le_antisymm hsized.le (by omega)
      subst hn
      have hge' : u32 (t₁.numEntries + 1) ≥ t₁.rebuildSize := hge
      have : (4 : Nat) ^ 15 = 1073741824 := by decide
      omega
    obtain ⟨t', hrebuild, hsized', hindex', hbucket', hitems', hcount'⟩ :=
      hsized₂.rebuildTable hlt
    have hperm : t'.items.Perm (⟨addr, key, none⟩ :: t.items) := hitems'.trans hitems₁
    have hcount : t'.numEntries = t.items.length + 1 := hcount'.trans hnum
    refine ⟨t', ?_, ⟨⟨n + 1, hsized'⟩, hindex', hbucket', ?_, ?_, ?_, ?_⟩, hperm⟩
    · rw [hlink, if_pos hge]
      exact hrebuild
    · exact (hperm.map Item.key).nodup_iff.mpr hkeys
    · exact (hperm.map Item.addr).nodup_iff.mpr haddrs
    · rw [hcount, hperm.length_eq]
      rfl
    · have hpow : (4 : Nat) ^ (n + 1 + 1) = 4 ^ (n + 1) * 4 := Nat.pow_succ ..
      have hpos : 0 < (4 : Nat) ^ (n + 1) := Nat.pow_pos (by omega)
      rw [hsized'.rebuildSize]
      omega
  · refine ⟨t₂, ?_, ⟨⟨n, hsized₂⟩, hindex₂, hbucket₁, ?_, ?_, ?_, by omega⟩, hitems₁⟩
    · rw [hlink, if_neg hge]
    · exact (hitems₁.map Item.key).nodup_iff.mpr hkeys
    · exact (hitems₁.map Item.addr).nodup_iff.mpr haddrs
    · show u32 (t₁.numEntries + 1) = t₁.items.length
      rw [hnum, hitems₁.length_eq]
      rfl

/-- A search that finds nothing: the key has no item. -/
theorem find?_eq_none_iff {items : List (Item kt.Key β)} {key : kt.Key} :
    (items.find? fun c => c.key = key) = none ↔ key ∉ items.map Item.key := by
  rw [List.find?_eq_none, List.mem_map]
  constructor
  · rintro h ⟨c, hc, rfl⟩
    exact h c hc (decide_eq_true rfl)
  · intro h c hc hkey
    exact h ⟨c, hc, of_decide_eq_true hkey⟩

/-- What `CreateHashEntry` does: nothing, if the key has an entry or there is no memory for one. -/
def Created (t : Table kt β) (key : kt.Key) (malloc : Option Nat) (reply : Option Nat × Bool)
    (t' : Table kt β) : Prop :=
  match t.items.find? (fun c => c.key = key) with
  | some c => reply = (some c.addr, false) ∧ t' = t
  | none =>
    match malloc with
    | some addr => reply = (some addr, true) ∧ t'.items.Perm (⟨addr, key, none⟩ :: t.items)
    | none => reply = (none, false) ∧ t' = t

theorem WellFormed.create {t : Table kt β} (h : WellFormed t) (key : kt.Key) (malloc : Option Nat)
    (hfresh : ∀ addr ∈ malloc, addr ∉ t.items.map Item.addr)
    (hroom : t.numEntries + 1 < maxEntries) :
    ∃ reply t', createHashEntry t key malloc true = some (reply, t') ∧ WellFormed t' ∧
      Created t key malloc reply t' := by
  obtain ⟨found, hsearch, hitem⟩ := h.search key
  rw [createHashEntry_eq]
  unfold Table.create Created
  rw [hsearch, Option.bind_some, ← hitem]
  cases found with
  | some e => exact ⟨_, _, rfl, h, rfl, rfl⟩
  | none =>
    cases malloc with
    | none => exact ⟨_, _, rfl, h, rfl, rfl⟩
    | some addr =>
      obtain ⟨t', hlink, hwf, hperm⟩ :=
        h.link (find?_eq_none_iff.mp hitem.symm) (hfresh addr rfl) hroom
      refine ⟨(some addr, true), t', ?_, hwf, rfl, hperm⟩
      simp only [hlink, Option.map_some]

/-! ## An entry that the caller has -/

/-- The entry at an address holds the item of it. -/
theorem entry_item (t : Table kt β) (addr : Nat) :
    (t.entry addr).map Entry.item = t.items.find? fun c => c.addr = addr := by
  rw [Table.entry, Table.items, List.find?_map]
  rfl

/-- The entry of an item. -/
theorem WellFormed.entry {t : Table kt β} (h : WellFormed t) {c : Item kt.Key β}
    (hc : c ∈ t.items) :
    ∃ e, t.entry c.addr = some e ∧ e ∈ t.buckets.flatten ∧ e.item = c := by
  obtain ⟨e, he⟩ : ∃ e, t.entry c.addr = some e := by
    rw [← Option.isSome_iff_exists, ← Option.isSome_map, entry_item, List.find?_isSome]
    exact ⟨c, hc, decide_eq_true rfl⟩
  have hmem : e ∈ t.buckets.flatten := List.mem_of_find?_eq_some he
  have haddr : e.addr = c.addr := by
    have := List.find?_some he
    exact of_decide_eq_true this
  exact ⟨e, he, hmem, List.inj_on_of_nodup_map h.addrs (List.mem_map_of_mem hmem) hc haddr⟩

theorem WellFormed.entryAddrs {t : Table kt β} (h : WellFormed t) :
    (t.buckets.flatten.map Entry.addr).Nodup := by
  have := h.addrs
  rw [Table.items, List.map_map] at this
  exact this

/-- Another value for the item at an address. -/
def Item.setValue {κ : Type} (addr : Nat) (value : Option β) (c : Item κ β) : Item κ β :=
  if c.addr = addr then { c with value := value } else c

theorem Item.setValue_key {κ : Type} (addr : Nat) (value : Option β) (c : Item κ β) :
    (c.setValue addr value).key = c.key := by
  unfold Item.setValue
  split_ifs <;> rfl

theorem Item.setValue_addr {κ : Type} (addr : Nat) (value : Option β) (c : Item κ β) :
    (c.setValue addr value).addr = c.addr := by
  unfold Item.setValue
  split_ifs <;> rfl

/-- What `SetHashValue` makes of an entry. -/
def Entry.setValue {κ : Type} (addr : Nat) (value : Option β) (e : Entry κ β) : Entry κ β :=
  if e.addr = addr then { e with clientData := value } else e

theorem Entry.item_setValue {κ : Type} (addr : Nat) (value : Option β) (e : Entry κ β) :
    (e.setValue addr value).item = e.item.setValue addr value := by
  unfold Entry.setValue Item.setValue
  show Entry.item (if e.addr = addr then _ else _) = if e.addr = addr then _ else _
  split_ifs <;> rfl

theorem placed_map {idx : Entry kt.Key β → Nat} {f : Entry kt.Key β → Entry kt.Key β}
    {L : List (List (Entry kt.Key β))} (h : Buckets.Placed idx L) (hf : ∀ e, idx (f e) = idx e) :
    Buckets.Placed idx (L.map (List.map f)) := by
  intro i chain hchain e he
  rw [List.getElem?_map, Option.map_eq_some_iff] at hchain
  obtain ⟨chain', hchain', rfl⟩ := hchain
  obtain ⟨e', he', rfl⟩ := List.mem_map.mp he
  exact (hf e').trans (h i chain' hchain' e' he')

theorem setHashValue_eq {t : Table kt β} {addr : Nat} {e : Entry kt.Key β}
    (he : t.entry addr = some e) (value : Option β) :
    setHashValue t addr value =
      some { t with buckets := t.buckets.map (List.map (Entry.setValue addr value)) } := by
  rw [setHashValue, he]
  rfl

theorem WellFormed.setHashValue {t : Table kt β} (h : WellFormed t) {c : Item kt.Key β}
    (hc : c ∈ t.items) (value : Option β) :
    ∃ t', setHashValue t c.addr value = some t' ∧ WellFormed t' ∧
      t'.items = t.items.map (Item.setValue c.addr value) := by
  obtain ⟨e, he, -, -⟩ := h.entry hc
  let t' : Table kt β :=
    { t with buckets := t.buckets.map (List.map (Entry.setValue c.addr value)) }
  have hitems : t'.items = t.items.map (Item.setValue c.addr value) := by
    show ((t.buckets.map (List.map _)).flatten).map Entry.item = _
    rw [← List.map_flatten, List.map_map, Table.items, List.map_map]
    exact List.map_congr_left fun e _ => Entry.item_setValue c.addr value e
  have hkeys : t'.items.map Item.key = t.items.map Item.key := by
    rw [hitems, List.map_map]
    exact List.map_congr_left fun c' _ => Item.setValue_key c.addr value c'
  have haddrs : t'.items.map Item.addr = t.items.map Item.addr := by
    rw [hitems, List.map_map]
    exact List.map_congr_left fun c' _ => Item.setValue_addr c.addr value c'
  have hsame : ∀ e : Entry kt.Key β, (e.setValue c.addr value).key = e.key ∧
      (e.setValue c.addr value).bucket = e.bucket := by
    intro e
    unfold Entry.setValue
    split_ifs <;> exact ⟨rfl, rfl⟩
  obtain ⟨n, hsized⟩ := h.sized
  refine ⟨t', setHashValue_eq he value, ?_, hitems⟩
  constructor
  · refine ⟨n, hsized.le, hsized.numBuckets, hsized.rebuildSize, hsized.downShift, hsized.mask, ?_⟩
    exact (List.length_map _).trans hsized.buckets
  · refine placed_congr (placed_map h.index fun e => ?_) rfl rfl
    exact congrArg t.index (hsame e).1
  · exact placed_map h.bucket fun e => (hsame e).2
  · rw [hkeys]
    exact h.keys
  · rw [haddrs]
    exact h.addrs
  · rw [hitems, List.length_map]
    exact h.numEntries
  · exact h.notFull

/-- The loop of `DeleteHashEntry` takes the entry out of its chain. -/
theorem unlink_eq {chain : List (Entry kt.Key β)} {e : Entry kt.Key β} (he : e ∈ chain)
    (hnodup : (chain.map Entry.addr).Nodup) :
    ∃ l₁ l₂, chain = l₁ ++ e :: l₂ ∧ unlink e.addr chain = some (l₁ ++ l₂) := by
  induction chain with
  | nil => exact absurd he List.not_mem_nil
  | cons e' es ih =>
    obtain ⟨hnot, hnodup⟩ := List.nodup_cons.mp hnodup
    rcases List.mem_cons.mp he with rfl | he
    · exact ⟨[], es, rfl, if_pos rfl⟩
    · obtain ⟨l₁, l₂, rfl, hunlink⟩ := ih he hnodup
      refine ⟨e' :: l₁, l₂, rfl, ?_⟩
      have hne : e'.addr ≠ e.addr := fun h => hnot (h ▸ List.mem_map_of_mem he)
      rw [unlink, if_neg hne, hunlink]
      rfl

/-- The table that `DeleteHashEntry` leaves. -/
def Table.removed (t : Table kt β) (i : Nat) (chain : List (Entry kt.Key β)) : Table kt β :=
  { t with buckets := t.buckets.set i chain, numEntries := u32 (t.numEntries + (2 ^ 32 - 1)) }

/-- `DeleteHashEntry` finds the entry in the chain of its `bucketPtr`. -/
theorem WellFormed.deleteHashEntry_eq {t : Table kt β} (h : WellFormed t) {c : Item kt.Key β}
    (hc : c ∈ t.items) :
    ∃ i l₁ l₂ e, t.buckets[i]? = some (l₁ ++ e :: l₂) ∧ e.item = c ∧
      deleteHashEntry t c.addr = some (t.removed i (l₁ ++ l₂)) := by
  obtain ⟨e, he, hmem, hitem⟩ := h.entry hc
  have haddr : e.addr = c.addr := congrArg Item.addr hitem
  obtain ⟨chain, hchain, hechain⟩ : ∃ chain, t.buckets[e.bucket]? = some chain ∧ e ∈ chain := by
    obtain ⟨chain, hchain, he⟩ := List.mem_flatten.mp hmem
    obtain ⟨i, hi⟩ := List.mem_iff_getElem?.mp hchain
    rw [h.bucket i chain hi e he]
    exact ⟨chain, hi, he⟩
  have hnodup : (chain.map Entry.addr).Nodup :=
    h.entryAddrs.sublist ((List.sublist_flatten_of_mem (List.mem_of_getElem? hchain)).map _)
  obtain ⟨l₁, l₂, rfl, hunlink⟩ := unlink_eq hechain hnodup
  refine ⟨e.bucket, l₁, l₂, e, hchain, hitem, ?_⟩
  rw [deleteHashEntry, he, Option.bind_some, hchain, Option.bind_some, ← haddr, hunlink]
  rfl

theorem WellFormed.deleteHashEntry {t : Table kt β} (h : WellFormed t) {c : Item kt.Key β}
    (hc : c ∈ t.items) :
    ∃ t', deleteHashEntry t c.addr = some t' ∧ WellFormed t' ∧ t.items.Perm (c :: t'.items) := by
  obtain ⟨i, l₁, l₂, e, hchain, hitem, hdelete⟩ := h.deleteHashEntry_eq hc
  have hperm : t.items.Perm (c :: (t.removed i (l₁ ++ l₂)).items) := by
    rw [← hitem]
    exact (Buckets.flatten_set_erase hchain).map Entry.item
  refine ⟨_, hdelete, ?_, hperm⟩
  obtain ⟨n, hsized⟩ := h.sized
  have hsub : ∀ x, x ∈ l₁ ++ l₂ → x ∈ l₁ ++ e :: l₂ := fun x hx =>
    List.mem_append.mpr ((List.mem_append.mp hx).imp_right (List.mem_cons_of_mem _))
  have hlen := hperm.length_eq
  have hcount := h.numEntries
  have hfull := h.notFull
  have hpred : (t.removed i (l₁ ++ l₂)).numEntries = (t.removed i (l₁ ++ l₂)).items.length := by
    have hsize := hsized.rebuildSize
    have hle := four_pow_le hsized.le
    have : (4 : Nat) ^ 15 = 1073741824 := by decide
    rw [List.length_cons] at hlen
    show u32 (t.numEntries + (2 ^ 32 - 1)) = _
    unfold u32
    omega
  constructor
  · exact ⟨n, hsized.le, hsized.numBuckets, hsized.rebuildSize, hsized.downShift, hsized.mask,
      List.length_set.trans hsized.buckets⟩
  · refine placed_congr (Buckets.Placed.set h.index fun x hx => ?_) rfl rfl
    exact h.index _ _ hchain x (hsub x hx)
  · exact Buckets.Placed.set h.bucket fun x hx => h.bucket _ _ hchain x (hsub x hx)
  · exact (List.nodup_cons.mp ((hperm.map Item.key).nodup_iff.mp h.keys)).2
  · exact (List.nodup_cons.mp ((hperm.map Item.addr).nodup_iff.mp h.addrs)).2
  · exact hpred
  · rw [hpred]
    rw [List.length_cons] at hlen
    show _ < t.rebuildSize
    omega

/-- `DeleteHashEntry` leaves the other entries where they are. -/
theorem WellFormed.deleteHashEntry_buckets {t t' : Table kt β} (h : WellFormed t)
    {c : Item kt.Key β} (hc : c ∈ t.items) (hdelete : Hash.deleteHashEntry t c.addr = some t') :
    t'.buckets = t.buckets.map (List.filter fun e => e.addr ≠ c.addr) := by
  obtain ⟨i, l₁, l₂, e, hchain, rfl, hdelete'⟩ := h.deleteHashEntry_eq hc
  obtain rfl : t.removed i (l₁ ++ l₂) = t' := Option.some.inj (hdelete'.symm.trans hdelete)
  have hnodup := h.entryAddrs
  have hperm := (Buckets.flatten_set_erase hchain).map Entry.addr
  obtain ⟨hnot, -⟩ := List.nodup_cons.mp (hperm.nodup_iff.mp hnodup)
  have hkeep : ∀ l : List (Entry kt.Key β), (∀ x ∈ l, x.addr ≠ e.addr) →
      l.filter (fun x => x.addr ≠ e.item.addr) = l := by
    intro l hl
    rw [List.filter_eq_self]
    exact fun x hx => decide_eq_true (hl x hx)
  have hout : ∀ (j : Nat) chain, (t.buckets.set i (l₁ ++ l₂))[j]? = some chain →
      ∀ x ∈ chain, x.addr ≠ e.addr := by
    intro j chain hj x hx heq
    exact hnot (heq ▸ List.mem_map_of_mem (Buckets.mem_flatten_of_getElem? hj hx))
  have hi := (List.getElem?_eq_some_iff.mp hchain).1
  refine List.ext_getElem? fun j => ?_
  show (t.buckets.set i (l₁ ++ l₂))[j]? = _
  rw [List.getElem?_map]
  by_cases hij : i = j
  · subst hij
    have hset : (t.buckets.set i (l₁ ++ l₂))[i]? = some (l₁ ++ l₂) := List.getElem?_set_self hi
    rw [hset, hchain, Option.map_some, List.filter_append,
      List.filter_cons_of_neg (by simp [Entry.item]), ← List.filter_append,
      hkeep _ (hout i _ hset)]
  · have hset : (t.buckets.set i (l₁ ++ l₂))[j]? = t.buckets[j]? := List.getElem?_set_ne hij
    rw [hset]
    cases hj : t.buckets[j]? with
    | none => rfl
    | some chain => rw [Option.map_some, hkeep _ (hout j _ (hset.trans hj))]

end Hash
end Gallus
