import Gallus.Basic
import Gallus.Lib.Block
import Gallus.Lib.Trans

/-!
# Dynamic strings (`dstring.c`)

A string of bytes in a block that grows. The block is a `Block UInt8`, so a write or a read outside
it has no result; the fields `size` and `strSize` are counters of their own.

* A format and its arguments are the text that `vsnprintf` makes of them. Where that is longer than
  an `int` can say, `vsnprintf` fails.
* `alloc n`: whether `malloc`, `realloc` and `strdup` can get `n` bytes.
-/

namespace Gallus
namespace Dstring

/-- `'\0'`. -/
def nul : UInt8 := 0

/-- `NULL_STR_SIZE`. -/
def nullStrSize : Nat := 1

def intMax : Nat := 2147483647

/-- `sizeof(struct dstring)`. -/
def recordSize : Nat := 24

/-- `struct dstring`. -/
structure Record where
  size : Nat
  strSize : Nat
  str : Option (Block UInt8)

/-- `dstring_init`. -/
def Record.init : Record where
  str := none
  size := 0
  strSize := 0

/-- What `vsnprintf` returns for a text. -/
def vsnprintf (text : List UInt8) : Int :=
  if text.length ≤ intMax then text.length else -1

/-- What `vsnprintf` writes of a text with `n` bytes at `pos`. -/
def vsnprintfAt (str : Block UInt8) (pos n : Nat) (text : List UInt8) : Option (Block UInt8) :=
  if n = 0 ∨ intMax < text.length then some str
  else str.write pos (text.take (n - 1) ++ [nul])

/-- `memmove` of `n` bytes from a copied string to `pos`. -/
def memmove (str : Block UInt8) (pos : Nat) (src : List UInt8) (n : Nat) : Option (Block UInt8) :=
  if n ≤ src.length + 1 then str.write pos ((src ++ [nul]).take n) else none

/-- `str_free`. -/
def strFree (ds : Record) : Record := { ds with str := none }

/-- `realloc`. -/
def realloc (str : Option (Block UInt8)) (n : Nat) : Block UInt8 :=
  match str with
  | none => .new n
  | some str => str.resize n

/-- `str_realloc`. -/
def strRealloc (alloc : Nat → Bool) (ds : Record) (size : Nat) : Record × Result :=
  let allocSize := sizeT (ds.strSize + size + nullStrSize)
  if ds.str.isNone ∨ size ≠ 0 ∧ ds.size < allocSize then
    if alloc allocSize then
      ({ ds with str := some (realloc ds.str allocSize), size := allocSize }, Result.ok)
    else (ds, Result.noMemory)
  else (ds, Result.ok)

/-- `strdup`, or `NULL`. -/
def strdup (alloc : Nat → Bool) (s : List UInt8) : Option (List UInt8) :=
  if alloc (s.length + 1) then some s else none

/-- `DS_STRDUP`. -/
def dsStrdup (alloc : Nat → Bool) (ds : Record) (offset : Nat) :
    Option (Option (List UInt8)) :=
  if ds.strSize = 0 then some (strdup alloc [])
  else (ds.str.bind fun str => str.readUntil nul offset).map (strdup alloc)

/-- `gallus_dstring_clear`, on a string. -/
def clear (ds : Record) : Option (Record × Result) :=
  match ds.str with
  | none => some (ds, Result.ok)
  | some str => (str.write 0 [nul]).map fun str =>
    ({ ds with str := some str, strSize := 0 }, Result.ok)

/-- `gallus_dstring_vappendf`, on a string. -/
def vappendf (alloc : Nat → Bool) (ds : Record) (text : List UInt8) :
    Option (Record × Result) :=
  let preSize := vsnprintf text
  if 0 ≤ preSize then
    let (ds, ret) := strRealloc alloc ds (sizeT preSize)
    if ret = Result.ok then do
      let str ← ds.str
      let str ← vsnprintfAt str ds.strSize (sizeT (i32 (preSize + nullStrSize))) text
      let size := vsnprintf text
      if 0 ≤ size ∧ size = preSize then
        some ({ ds with str := some str, strSize := sizeT (ds.strSize + sizeT size) }, Result.ok)
      else some (strFree { ds with str := some str }, Result.outOfRange)
    else some (ds, ret)
  else some (ds, Result.outOfRange)

/-- The text in front of what is from `offset` on: the common body of `vprependf` and
`vinsertf`. -/
def putBefore (alloc : Nat → Bool) (ds : Record) (offset : Nat) (text : List UInt8) :
    Option (Record × Result) :=
  let preSize := vsnprintf text
  if 0 ≤ preSize then
    let (ds, ret) := strRealloc alloc ds (sizeT preSize)
    if ret = Result.ok then do
      let cpyStr ← dsStrdup alloc ds offset
      match cpyStr with
      | some cpyStr =>
        let str ← ds.str
        let str ← vsnprintfAt str offset (sizeT (i32 (preSize + nullStrSize))) text
        let size := vsnprintf text
        if 0 ≤ size ∧ size = preSize then
          let str ← memmove str (sizeT size + offset) cpyStr (ds.strSize - offset)
          let strSize := sizeT (ds.strSize + sizeT size)
          let str ← str.write strSize [nul]
          some ({ ds with str := some str, strSize }, Result.ok)
        else some (strFree { ds with str := some str }, Result.outOfRange)
      | none => some (strFree ds, Result.noMemory)
    else some (strFree ds, Result.noMemory)
  else some (strFree ds, Result.outOfRange)

/-- `gallus_dstring_vprependf`, on a string. -/
def vprependf (alloc : Nat → Bool) (ds : Record) (text : List UInt8) :
    Option (Record × Result) :=
  putBefore alloc ds 0 text

/-- `gallus_dstring_vinsertf`, on a string. -/
def vinsertf (alloc : Nat → Bool) (ds : Record) (offset : Nat) (text : List UInt8) :
    Option (Record × Result) :=
  if offset ≤ ds.strSize then putBefore alloc ds offset text
  else some (ds, Result.invalidArgs)

/-- `gallus_dstring_str_get`, on a string: the copy, if it can be allocated. -/
def strGet (alloc : Nat → Bool) (ds : Record) : Option (Option (List UInt8)) := dsStrdup alloc ds 0

/-- `gallus_dstring_len_get`, on a string. -/
def lenGet (ds : Record) : Result := i64 ds.strSize

/-! ## Calls -/

/-- The calls on a dynamic string. -/
inductive Op
  | create
  | appendf (text : List UInt8)
  | prependf (text : List UInt8)
  | insertf (offset : Nat) (text : List UInt8)
  | clear

/-- What a `gallus_dstring_t` is after a call, `none` for `NULL`, with the result of the call; or
an access outside the block. -/
inductive State
  | fault
  | live (ds : Option Record) (ret : Result)

/-- The state after a call on a string. -/
def State.of : Option (Record × Result) → State
  | none => .fault
  | some (ds, ret) => .live (some ds) ret

/-- A call. -/
def call (alloc : Nat → Bool) (ds : Option Record) (op : Op) : State :=
  match op, ds with
  | .create, _ =>
    if alloc recordSize then .live (some .init) Result.ok else .live none Result.noMemory
  | _, none => .live none Result.invalidArgs
  | .appendf text, some ds => .of (vappendf alloc ds text)
  | .prependf text, some ds => .of (vprependf alloc ds text)
  | .insertf offset text, some ds => .of (vinsertf alloc ds offset text)
  | .clear, some ds => .of (clear ds)

/-- One call after another. -/
def step (alloc : Nat → Bool) : State → Op → Option State
  | .fault, _ => none
  | .live ds _, op => some (call alloc ds op)

end Dstring
end Gallus
