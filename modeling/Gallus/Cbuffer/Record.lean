import Gallus.Basic
import Gallus.Lib.Ring
import Mathlib.Algebra.Notation.Defs

/-!
# The circular buffer record (`cbuffer.c`)

The record of a `gallus_cbuffer_t` and the functions that run with its lock held. Each of them is
a pure function from a record to a record.

* `m_data` is a memory of element slots. `slots` is the number of slots `malloc` really gave;
  a copy past them sets `overrun`, which stands for the undefined behaviour of the source there.
* A condition variable is the number of broadcasts on it so far: every notification of the source
  is a broadcast (`for_all == true`), so a waiter has been notified exactly if the number grew
  since it began to wait.
* `freed` and `qmuxLog` record the calls of `m_del_proc` and of `qmuxer_notify`, in order.
-/

namespace Gallus
namespace Cbuffer

/-- `N_EMPTY_ROOM`. -/
def nEmptyRoom : Int := 1

/-- `sizeof(gallus_cbuffer_record)` on a 64-bit platform. -/
def sizeofRecord : Nat := 120

/-- `gallus_qmuxer_poll_event_t`: a bit set of `READABLE` (1) and `WRITABLE` (2). -/
abbrev PollEvent := Nat

def pollUnknown : PollEvent := 0
def pollReadable : PollEvent := 1
def pollWritable : PollEvent := 2

/-- `NEED_WAIT_READABLE`. -/
def needWaitReadable (type : PollEvent) : Bool := type &&& pollReadable == pollReadable

/-- `NEED_WAIT_WRITABLE`. -/
def needWaitWritable (type : PollEvent) : Bool := type &&& pollWritable == pollWritable

end Cbuffer

/-- `gallus_cbuffer_record`, for elements of type `α`. -/
structure Cbuffer (α : Type) where
  condPut : Nat
  condGet : Nat
  condAwakened : Nat
  rIdx : Int
  wIdx : Int
  nElements : Int
  nWaiters : Nat
  isOperational : Bool
  isAwakened : Bool
  /-- `m_del_proc != NULL`. -/
  hasDelProc : Bool
  elementSize : Nat
  nMaxElements : Int
  nMaxAllocdElements : Int
  qmuxer : Option Nat
  type : Cbuffer.PollEvent
  data : Nat → α
  slots : Nat
  overrun : Bool
  freed : List α
  qmuxLog : List Nat

namespace Cbuffer

variable {α : Type}

/-- `memcpy` of `vals` into `m_data`, from slot `slot` on. -/
def memcpyIn (cb : Cbuffer α) (slot : Int) (vals : List α) : Cbuffer α :=
  { cb with
    data := Ring.write cb.data slot.toNat vals
    overrun := cb.overrun || decide (cb.slots < slot.toNat + vals.length) }

/-- `memcpy` of `n` elements out of `m_data`, from slot `slot` on. -/
def memcpyOut (cb : Cbuffer α) (slot n : Int) : Cbuffer α × List α :=
  ({ cb with overrun := cb.overrun || decide (cb.slots < slot.toNat + n.toNat) },
    Ring.read cb.data slot.toNat n.toNat)

/-- `qmuxer_notify` of the buffer's muxer, if there is one. -/
def qmuxerNotify (cb : Cbuffer α) : Cbuffer α :=
  match cb.qmuxer with
  | some q => { cb with qmuxLog := cb.qmuxLog ++ [q] }
  | none => cb

/-- `s_adjust_indices`. -/
def adjustIndices (cb : Cbuffer α) : Cbuffer α :=
  if 0 ≤ cb.wIdx then cb
  else
    { cb with
      wIdx := cb.nMaxAllocdElements
      rIdx := cb.rIdx.tmod cb.nMaxAllocdElements }

/-- `s_data_addr`: the slot of an index. -/
def dataAddr (cb : Cbuffer α) (idx : Int) : Option Nat :=
  if 0 ≤ idx then some (idx.tmod cb.nMaxAllocdElements).toNat else none

/-- `s_freeup_all_values`. -/
def freeupAllValues (cb : Cbuffer α) : Cbuffer α :=
  if cb.hasDelProc then
    let cb := adjustIndices cb
    let addrs := (List.range (cb.wIdx - cb.rIdx).toNat).filterMap fun (k : Nat) =>
      dataAddr cb (cb.rIdx + k)
    { cb with
      freed := cb.freed ++ addrs.map cb.data
      overrun := cb.overrun || addrs.any fun a => decide (cb.slots ≤ a) }
  else cb

/-- `s_clean`. -/
def clean [Zero α] (cb : Cbuffer α) (freeValues : Bool) : Cbuffer α :=
  let cb := if freeValues then freeupAllValues cb else cb
  { cb with
    rIdx := 0
    wIdx := 0
    data := fun i => if i < cb.nMaxAllocdElements.toNat then 0 else cb.data i
    overrun := cb.overrun || decide (cb.slots < cb.nMaxAllocdElements.toNat)
    nElements := 0 }

/-- `s_shutdown`. -/
def shutdown [Zero α] (cb : Cbuffer α) (freeValues : Bool) : Cbuffer α :=
  if cb.isOperational then
    let cb := qmuxerNotify (clean { cb with isOperational := false } freeValues)
    { cb with
      condGet := cb.condGet + 1
      condPut := cb.condPut + 1
      condAwakened := cb.condAwakened + 1 }
  else cb

/-- The copy of `s_copyin`: `maxN` elements of `buf` to the slots from `m_w_idx` on, in two pieces
if they pass the last slot. -/
def copyinData (cb : Cbuffer α) (buf : List α) (maxN : Int) : Cbuffer α :=
  let idx := cb.wIdx.tmod cb.nMaxAllocdElements
  if idx + maxN ≤ cb.nMaxAllocdElements then
    memcpyIn cb idx (buf.take maxN.toNat)
  else
    let maxN0 := cb.nMaxAllocdElements - idx
    let src1 := buf.drop maxN0.toNat
    let maxN1 := maxN - maxN0
    memcpyIn (memcpyIn cb idx (buf.take maxN0.toNat)) 0 (src1.take maxN1.toNat)

/-- `s_copyin`: put at most the `buf.length` elements of `buf`; the number put. -/
def copyin (cb : Cbuffer α) (buf : List α) : Cbuffer α × Int :=
  let maxRooms := cb.nMaxElements - cb.nElements
  let maxN := if maxRooms < i64 buf.length then maxRooms else i64 buf.length
  let cb := adjustIndices cb
  if 0 < maxN then
    let cb := copyinData cb buf maxN
    let cb :=
      { cb with
        nElements := cb.nElements + maxN
        wIdx := i64 (cb.wIdx + maxN) }
    let cb := if needWaitReadable cb.type then qmuxerNotify cb else cb
    ({ cb with condGet := cb.condGet + 1 }, maxN)
  else (cb, maxN)

/-- The copy of `s_copyout`: `maxN` elements from the slots from `m_r_idx` on. -/
def copyoutData (cb : Cbuffer α) (maxN : Int) : Cbuffer α × List α :=
  let idx := cb.rIdx.tmod cb.nMaxAllocdElements
  if idx + maxN ≤ cb.nMaxAllocdElements then
    memcpyOut cb idx maxN
  else
    let maxN0 := cb.nMaxAllocdElements - idx
    let maxN1 := maxN - maxN0
    let (cb, vals0) := memcpyOut cb idx maxN0
    let (cb, vals1) := memcpyOut cb 0 maxN1
    (cb, vals0 ++ vals1)

/-- `s_copyout`: get at most `n` elements, removing them if `doIncr`; the elements and their
number. -/
def copyout (cb : Cbuffer α) (n : Nat) (doIncr : Bool) : Cbuffer α × List α × Int :=
  let maxN := if i64 n < cb.nElements then i64 n else cb.nElements
  let cb := adjustIndices cb
  if 0 < maxN then
    let (cb, vals) := copyoutData cb maxN
    if doIncr then
      let cb :=
        { cb with
          nElements := cb.nElements - maxN
          rIdx := cb.rIdx + maxN }
      let cb := if needWaitWritable cb.type then qmuxerNotify cb else cb
      ({ cb with condPut := cb.condPut + 1 }, vals, maxN)
    else (cb, vals, maxN)
  else (cb, [], maxN)

/-- The number of bytes `gallus_cbuffer_create_with_size` asks `malloc` for, in `size_t`
arithmetic. -/
def allocSize (elemsize : Nat) (maxelems : Int) : Nat :=
  (sizeofRecord + elemsize * sizeT (maxelems + nEmptyRoom)) % 2 ^ 64

/-- `gallus_cbuffer_create_with_size`. `mallocOk` tells whether `malloc` has that many bytes, and
`junk` is what the fresh memory holds. -/
def createWithSize (mallocOk : Nat → Bool) (junk : Nat → α) (elemsize : Nat) (maxelems : Int)
    (hasDelProc : Bool) : Result × Option (Cbuffer α) :=
  if 0 < elemsize ∧ 0 < maxelems then
    let size := allocSize elemsize maxelems
    if mallocOk size then
      (Result.ok, some
        { condPut := 0, condGet := 0, condAwakened := 0
          rIdx := 0, wIdx := 0, nElements := 0, nWaiters := 0
          isOperational := true, isAwakened := false
          hasDelProc := hasDelProc
          elementSize := elemsize
          nMaxElements := maxelems
          nMaxAllocdElements := i64 (maxelems + nEmptyRoom)
          qmuxer := none, type := pollUnknown
          data := junk
          slots := (size - sizeofRecord) / elemsize
          overrun := false, freed := [], qmuxLog := [] })
    else (Result.noMemory, none)
  else (Result.invalidArgs, none)

/-- `gallus_cbuffer_clear`. -/
def clear [Zero α] (cb : Cbuffer α) (freeValues : Bool) : Cbuffer α × Result :=
  let cb := clean cb freeValues
  let cb := if needWaitReadable cb.type then qmuxerNotify cb else cb
  ({ cb with condPut := cb.condPut + 1 }, Result.ok)

/-- `gallus_cbuffer_size`. -/
def size (cb : Cbuffer α) : Result :=
  if cb.isOperational then cb.nElements else Result.notOperational

/-- `s_put_n` with `nsec == 0`: put what there is room for and return. The result and the value
stored through `n_actual_put`. -/
def putNow (cb : Cbuffer α) (vals : List α) (valsz : Nat) : Cbuffer α × Result × Nat :=
  if valsz = cb.elementSize then
    if 0 < vals.length then
      if cb.isOperational then
        let (cb, n) := copyin cb vals
        (cb, n, sizeT n)
      else (cb, Result.notOperational, 0)
    else (cb, Result.ok, 0)
  else (cb, Result.invalidArgs, 0)

/-- `s_get_n` with `nsec == 0`: get (`doIncr`) or peek what there is and return. The result, the
value stored through `n_actual_get` and the elements copied to the caller's buffer. -/
def getNow (cb : Cbuffer α) (nValsMax valsz : Nat) (doIncr : Bool) :
    Cbuffer α × Result × Nat × List α :=
  if valsz = cb.elementSize then
    if 0 < nValsMax then
      if cb.isOperational then
        let (cb, vals, n) := copyout cb nValsMax doIncr
        (cb, n, sizeT n, vals)
      else (cb, Result.notOperational, 0, [])
    else (cb, Result.ok, 0, [])
  else (cb, Result.invalidArgs, 0, [])

end Cbuffer
end Gallus
