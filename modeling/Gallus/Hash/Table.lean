import Gallus.Basic

/-!
# The hash table (`hash.c`)

A table of chained buckets, for keys that are strings, words or arrays of a fixed length.

* `KeyType`: the kinds of keys. `hashString`, `randomIndex`, `hashArray`: where a key belongs.
* `Entry`, `Table`. An entry is known by its address, and its `bucketPtr` is the index of a bucket.
* `findHashEntry`, `createHashEntry`, `rebuildTable`, `deleteHashEntry`, `deleteHashTable`.
* `Search`, `firstHashEntry`, `nextHashEntry`.

A result that is `none` is a fault: an access past the end of the bucket array or through a pointer
to no entry, or the `abort()` for a malformed chain. `malloc` for an entry is given as the address
it returns, and for a bucket array as whether there is memory for it.
-/

namespace Gallus
namespace Hash

/-- `(unsigned int)x` -/
def u32 (x : Nat) : Nat := x % 2 ^ 32

/-- `HASH_SMALL_HASH_TABLE` -/
def smallHashTable : Nat := 4

/-- `REBUILD_MULTIPLIER` -/
def rebuildMultiplier : Nat := 3

/-- `HASH_STRING_KEYS` -/
def stringKeys : Nat := 0

/-- `HASH_ONE_WORD_KEYS` -/
def oneWordKeys : Nat := 8

/-! ## Keys -/

/-- A string: the characters before its end. -/
@[ext]
structure CString where
  chars : List UInt8
  noNul : 0 ∉ chars

instance : DecidableEq CString := fun s t =>
  decidable_of_iff (s.chars = t.chars) CString.ext_iff.symm

/-- What `findProc` and `createProc` take for a key. -/
inductive KeyType
  | string
  | oneWord
  | array (keyLen : Nat)
deriving DecidableEq

/-- The branches of `InitHashTable`. -/
def keyType (keyLen : Nat) : KeyType :=
  if keyLen = stringKeys then .string
  else if keyLen ≤ oneWordKeys then .oneWord
  else .array keyLen

/-- The keys. Two arrays are equal if `memcmp` says so. -/
def KeyType.Key : KeyType → Type
  | .string => CString
  | .oneWord => UInt64
  | .array keyLen => Vector UInt8 keyLen

instance : (kt : KeyType) → DecidableEq kt.Key
  | .string => inferInstanceAs (DecidableEq CString)
  | .oneWord => inferInstanceAs (DecidableEq UInt64)
  | .array keyLen => inferInstanceAs (DecidableEq (Vector UInt8 keyLen))

/-- `(unsigned int)c` for a `char`, which has a sign. -/
def charValue (c : UInt8) : Nat := if c.toNat < 128 then c.toNat else c.toNat + (2 ^ 32 - 2 ^ 8)

/-- `HashString` -/
def hashString (s : CString) : Nat :=
  s.chars.foldl (fun ret c => u32 (ret + (u32 (ret <<< 3) + charValue c))) 0

/-- The bytes of an `unsigned int` in memory, the lowest first. -/
def ofBytes (bytes : List UInt8) : Nat := bytes.foldr (fun b n => b.toNat + 2 ^ 8 * n) 0

/-- `HashArray`: the bytes after the last whole `int`, and the `int`s. -/
def hashArray {keyLen : Nat} (key : Vector UInt8 keyLen) : Nat :=
  let keyIntLen := keyLen / 4
  let keyModLen := keyLen % 4
  let ret := if keyModLen > 0 then ofBytes (key.toList.drop (keyIntLen * 4)) else 0
  (List.range keyIntLen).foldl
    (fun ret i => u32 (ret + ofBytes ((key.toList.drop (i * 4)).take 4))) ret

/-! ## The table -/

/-- `HashEntry`. The `nextPtr` is the entry after it in its chain. -/
structure Entry (κ β : Type) where
  addr : Nat
  /-- `bucketPtr - buckets` -/
  bucket : Nat
  clientData : Option β
  key : κ

/-- `HashTable` -/
structure Table (kt : KeyType) (β : Type) where
  buckets : List (List (Entry kt.Key β))
  numBuckets : Nat
  numEntries : Nat
  rebuildSize : Nat
  downShift : Nat
  mask : Nat

variable {kt : KeyType} {β : Type}

/-- `RANDOM_INDEX` -/
def Table.randomIndex (t : Table kt β) (i : Nat) : Nat :=
  u32 ((i * 1103515245 % 2 ^ 64) >>> t.downShift) &&& t.mask

/-- The bucket of a string. -/
def Table.stringIndex (t : Table kt β) (key : CString) : Nat := hashString key &&& t.mask

/-- The bucket of a word. -/
def Table.oneWordIndex (t : Table kt β) (key : UInt64) : Nat := t.randomIndex key.toNat

/-- The bucket of an array. -/
def Table.arrayIndex {keyLen : Nat} (t : Table kt β) (key : Vector UInt8 keyLen) : Nat :=
  t.randomIndex (hashArray key)

/-- The bucket of a key, as `RebuildTable` finds it. -/
def Table.index : {kt : KeyType} → Table kt β → kt.Key → Nat
  | .string, t, key => t.stringIndex key
  | .oneWord, t, key => t.oneWordIndex key
  | .array _, t, key => t.arrayIndex key

/-- `InitHashTable` -/
def initHashTable (kt : KeyType) (β : Type) : Table kt β where
  buckets := List.replicate smallHashTable []
  numBuckets := smallHashTable
  numEntries := 0
  rebuildSize := smallHashTable * rebuildMultiplier
  downShift := 28
  mask := 3

/-! ## Searching -/

/-- The loop of the procedures that search a bucket. -/
def Table.search (t : Table kt β) (idx : Nat) (key : kt.Key) :
    Option (Option (Entry kt.Key β)) :=
  (t.buckets[idx]?).map fun chain => chain.find? fun e => e.key = key

/-- `StringFind` -/
def stringFind (t : Table .string β) (key : CString) : Option (Option (Entry CString β)) :=
  t.search (t.stringIndex key) key

/-- `OneWordFind` -/
def oneWordFind (t : Table .oneWord β) (key : UInt64) : Option (Option (Entry UInt64 β)) :=
  t.search (t.oneWordIndex key) key

/-- `ArrayFind` -/
def arrayFind {keyLen : Nat} (t : Table (.array keyLen) β) (key : Vector UInt8 keyLen) :
    Option (Option (Entry (Vector UInt8 keyLen) β)) :=
  t.search (t.arrayIndex key) key

/-- `FindHashEntry`: the `findProc` of the table. -/
def findHashEntry : {kt : KeyType} → Table kt β → kt.Key → Option (Option (Entry kt.Key β))
  | .string, t, key => stringFind t key
  | .oneWord, t, key => oneWordFind t key
  | .array _, t, key => arrayFind t key

/-! ## New entries -/

/-- One entry goes to the head of a chain. -/
def Table.place (t : Table kt β) (e : Entry kt.Key β) (idx : Nat) : Option (Table kt β) :=
  (t.buckets[idx]?).map fun chain =>
    { t with buckets := t.buckets.set idx ({ e with bucket := idx } :: chain) }

/-- The loops of `RebuildTable`, for the entries in the order in which they move. -/
def rehash (t : Table kt β) : List (Entry kt.Key β) → Option (Table kt β)
  | [] => some t
  | e :: es => (t.place e (t.index e.key)).bind fun t => rehash t es

/-- The table with four times as many buckets, before an entry is moved. -/
def Table.enlarged (t : Table kt β) : Table kt β :=
  let numBuckets := u32 (t.numBuckets * 4)
  { t with
    numBuckets := numBuckets
    buckets := List.replicate numBuckets []
    rebuildSize := u32 (t.rebuildSize * 4)
    downShift := u32 (t.downShift + (2 ^ 32 - 2))
    mask := u32 (u32 (t.mask <<< 2) + 3) }

/-- `RebuildTable`. It does not look at what `malloc` returns: without memory for the new buckets,
the first of them is written through `NULL`. -/
def rebuildTable (t : Table kt β) (memory : Bool) : Option (Table kt β) :=
  if memory = false ∧ t.enlarged.numBuckets > 0 then none
  else rehash t.enlarged t.buckets.flatten

/-- A new entry at the head of its chain, and the table rebuilt if it has become full. -/
def Table.link (t : Table kt β) (idx addr : Nat) (key : kt.Key) (memory : Bool) :
    Option (Table kt β) :=
  (t.place ⟨addr, idx, none, key⟩ idx).bind fun t =>
    let t : Table kt β := { t with numEntries := u32 (t.numEntries + 1) }
    if t.numEntries ≥ t.rebuildSize then rebuildTable t memory else some t

/-- What the procedures that create an entry do: the address of the entry, `*newPtr`, and the
table. -/
def Table.create (t : Table kt β) (idx : Nat) (key : kt.Key) (malloc : Option Nat)
    (memory : Bool) : Option ((Option Nat × Bool) × Table kt β) :=
  (t.search idx key).bind fun found =>
    match found with
    | some e => some ((some e.addr, false), t)
    | none =>
      match malloc with
      | some addr => (t.link idx addr key memory).map fun t => ((some addr, true), t)
      | none => some ((none, false), t)

/-- `StringCreate`. A `NULL` for the key gives no entry. -/
def stringCreate (t : Table .string β) (key : Option CString) (malloc : Option Nat)
    (memory : Bool) : Option ((Option Nat × Bool) × Table .string β) :=
  match key with
  | some key => t.create (t.stringIndex key) key malloc memory
  | none => some ((none, false), t)

/-- `OneWordCreate` -/
def oneWordCreate (t : Table .oneWord β) (key : UInt64) (malloc : Option Nat) (memory : Bool) :
    Option ((Option Nat × Bool) × Table .oneWord β) :=
  t.create (t.oneWordIndex key) key malloc memory

/-- `ArrayCreate` -/
def arrayCreate {keyLen : Nat} (t : Table (.array keyLen) β) (key : Vector UInt8 keyLen)
    (malloc : Option Nat) (memory : Bool) :
    Option ((Option Nat × Bool) × Table (.array keyLen) β) :=
  t.create (t.arrayIndex key) key malloc memory

/-- `CreateHashEntry`: the `createProc` of the table. -/
def createHashEntry : {kt : KeyType} → Table kt β → kt.Key → Option Nat → Bool →
    Option ((Option Nat × Bool) × Table kt β)
  | .string, t, key, malloc, memory => stringCreate t (some key) malloc memory
  | .oneWord, t, key, malloc, memory => oneWordCreate t key malloc memory
  | .array _, t, key, malloc, memory => arrayCreate t key malloc memory

/-! ## An entry that the caller has -/

/-- The entry at an address. -/
def Table.entry (t : Table kt β) (addr : Nat) : Option (Entry kt.Key β) :=
  t.buckets.flatten.find? fun e => e.addr = addr

/-- `SetHashValue` -/
def setHashValue (t : Table kt β) (addr : Nat) (value : Option β) : Option (Table kt β) :=
  (t.entry addr).map fun _ =>
    { t with buckets := t.buckets.map fun chain => chain.map fun e =>
        if e.addr = addr then { e with clientData := value } else e }

/-- The loop of `DeleteHashEntry`: the chain without the entry, or `abort()` at its end. -/
def unlink (addr : Nat) : List (Entry kt.Key β) → Option (List (Entry kt.Key β))
  | [] => none
  | e :: es => if e.addr = addr then some es else (unlink addr es).map (e :: ·)

/-- `DeleteHashEntry` -/
def deleteHashEntry (t : Table kt β) (addr : Nat) : Option (Table kt β) :=
  (t.entry addr).bind fun e =>
    (t.buckets[e.bucket]?).bind fun chain =>
      (unlink addr chain).map fun chain =>
        { t with
          buckets := t.buckets.set e.bucket chain
          numEntries := u32 (t.numEntries + (2 ^ 32 - 1)) }

/-- `DeleteHashTable`: the entries that are freed, one after the other. -/
def deleteHashTable (t : Table kt β) : List Nat :=
  ((t.buckets.take t.numBuckets).map fun chain => chain.map Entry.addr).flatten

/-! ## Going through a table -/

/-- `HashSearch` -/
structure Search where
  nextIndex : Nat
  nextEntryPtr : Option Nat
deriving DecidableEq

/-- The entry after one of a chain. -/
def nextIn (addr : Nat) : List (Entry kt.Key β) → Option (Option Nat)
  | [] => none
  | e :: es => if e.addr = addr then some (es.head?.map Entry.addr) else nextIn addr es

/-- `hPtr->nextPtr` -/
def Table.nextPtr (t : Table kt β) (addr : Nat) : Option (Option Nat) :=
  t.buckets.findSome? (nextIn addr)

/-- The loop of `NextHashEntry`, for as many buckets as there are from `nextIndex` on. -/
def seek (t : Table kt β) : Nat → Search → Option Search
  | 0, s => some s
  | n + 1, s =>
    match s.nextEntryPtr with
    | some _ => some s
    | none => (t.buckets[s.nextIndex]?).bind fun chain =>
        seek t n ⟨s.nextIndex + 1, chain.head?.map Entry.addr⟩

/-- `NextHashEntry`, with the search as it leaves it. -/
def nextHashEntry (t : Table kt β) (s : Search) : Option (Option (Entry kt.Key β) × Search) :=
  (seek t (t.numBuckets - s.nextIndex) s).bind fun s =>
    match s.nextEntryPtr with
    | none => some (none, s)
    | some addr =>
      (t.entry addr).bind fun e =>
        (t.nextPtr addr).map fun next => (some e, { s with nextEntryPtr := next })

/-- `FirstHashEntry` -/
def firstHashEntry (t : Table kt β) : Option (Option (Entry kt.Key β) × Search) :=
  nextHashEntry t ⟨0, none⟩

/-! ## The procedures of a table -/

theorem findHashEntry_eq (t : Table kt β) (key : kt.Key) :
    findHashEntry t key = t.search (t.index key) key := by
  cases kt <;> rfl

theorem createHashEntry_eq (t : Table kt β) (key : kt.Key) (malloc : Option Nat) (memory : Bool) :
    createHashEntry t key malloc memory = t.create (t.index key) key malloc memory := by
  cases kt <;> rfl

end Hash
end Gallus
