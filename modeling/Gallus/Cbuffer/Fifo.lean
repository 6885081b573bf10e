import Gallus.Cbuffer.Record
import Mathlib.Data.List.Lattice

/-!
# The circular buffer is a bounded FIFO list

`Rep cb q`: the record `cb` stores the list `q`. The indices run freely below `2 ^ 63`; item `k`
of `q` is in slot `(m_r_idx + k) % m_n_max_allocd_elements`.

`copyin_rep` and `copyout_rep` say what the two copies of the source do to the stored list, for
every alignment of the indices: with these, callers never look at slots again.
-/

namespace Gallus
namespace Cbuffer

variable {α : Type} {cb cb' : Cbuffer α} {q : List α}

/-- `cb` stores the list `q`. -/
structure Rep (cb : Cbuffer α) (q : List α) : Prop where
  allocd : cb.nMaxAllocdElements = cb.nMaxElements + nEmptyRoom
  r_nonneg : 0 ≤ cb.rIdx
  w_eq : cb.wIdx = cb.rIdx + q.length
  w_lt : cb.wIdx < 2 ^ 63
  n_eq : cb.nElements = q.length
  len_le : (q.length : Int) ≤ cb.nMaxElements
  window : Ring.window cb.data cb.nMaxAllocdElements.toNat cb.rIdx.toNat q.length = q
  slots : cb.nMaxAllocdElements.toNat ≤ cb.slots
  no_overrun : cb.overrun = false

/-- The fields that no put, get, peek or clear changes. -/
structure Frame (cb cb' : Cbuffer α) : Prop where
  isOperational : cb'.isOperational = cb.isOperational
  isAwakened : cb'.isAwakened = cb.isAwakened
  nWaiters : cb'.nWaiters = cb.nWaiters
  elementSize : cb'.elementSize = cb.elementSize
  nMaxElements : cb'.nMaxElements = cb.nMaxElements

theorem Frame.refl (cb : Cbuffer α) : Frame cb cb := ⟨rfl, rfl, rfl, rfl, rfl⟩

theorem Frame.trans {cb'' : Cbuffer α} (h : Frame cb cb') (h' : Frame cb' cb'') : Frame cb cb'' :=
  ⟨h'.isOperational.trans h.isOperational, h'.isAwakened.trans h.isAwakened,
    h'.nWaiters.trans h.nWaiters, h'.elementSize.trans h.elementSize,
    h'.nMaxElements.trans h.nMaxElements⟩

/-! ## Small facts about the record functions -/

/-- `qmuxer_notify` only extends the log of notifications. -/
theorem qmuxerNotify_eq (cb : Cbuffer α) : ∃ log, qmuxerNotify cb = { cb with qmuxLog := log } := by
  unfold qmuxerNotify
  split
  · exact ⟨_, rfl⟩
  · exact ⟨cb.qmuxLog, rfl⟩

theorem ite_qmuxerNotify_eq (cb : Cbuffer α) (b : Bool) :
    ∃ log, (if b then qmuxerNotify cb else cb) = { cb with qmuxLog := log } := by
  cases b with
  | false => exact ⟨cb.qmuxLog, rfl⟩
  | true => exact qmuxerNotify_eq cb

theorem adjustIndices_of_nonneg (h : 0 ≤ cb.wIdx) : adjustIndices cb = cb := if_pos h

namespace Rep

theorem w_nonneg (h : Rep cb q) : 0 ≤ cb.wIdx := by
  have := h.w_eq; have := h.r_nonneg; omega

theorem allocd_pos (h : Rep cb q) : 0 < cb.nMaxAllocdElements := by
  have := h.allocd; have := h.len_le; unfold nEmptyRoom at *; omega

/-- The slot of an index: the remainder of the source, as a natural number. -/
theorem tmod_toNat (h : Rep cb q) {i : Int} (hi : 0 ≤ i) :
    (i.tmod cb.nMaxAllocdElements).toNat = i.toNat % cb.nMaxAllocdElements.toNat := by
  have hc := h.allocd_pos
  rw [Int.tmod_eq_emod_of_nonneg hi]
  obtain ⟨c, hc'⟩ := Int.eq_ofNat_of_zero_le (show 0 ≤ cb.nMaxAllocdElements by omega)
  obtain ⟨n, rfl⟩ := Int.eq_ofNat_of_zero_le hi
  rw [hc', Int.toNat_natCast, Int.toNat_natCast, ← Int.natCast_emod, Int.toNat_natCast]

theorem tmod_range (h : Rep cb q) {i : Int} (hi : 0 ≤ i) :
    0 ≤ i.tmod cb.nMaxAllocdElements ∧ i.tmod cb.nMaxAllocdElements < cb.nMaxAllocdElements :=
  ⟨Int.tmod_nonneg _ hi, Int.tmod_lt_of_pos _ h.allocd_pos⟩

/-- The stored list does not depend on the condition variables and the log. -/
theorem of_eq (h : Rep cb q) (h1 : cb'.rIdx = cb.rIdx) (h2 : cb'.wIdx = cb.wIdx)
    (h3 : cb'.nElements = cb.nElements) (h4 : cb'.nMaxElements = cb.nMaxElements)
    (h5 : cb'.nMaxAllocdElements = cb.nMaxAllocdElements) (h6 : cb'.data = cb.data)
    (h7 : cb'.slots = cb.slots) (h8 : cb'.overrun = cb.overrun) : Rep cb' q where
  allocd := by rw [h5, h4]; exact h.allocd
  r_nonneg := by rw [h1]; exact h.r_nonneg
  w_eq := by rw [h2, h1]; exact h.w_eq
  w_lt := by rw [h2]; exact h.w_lt
  n_eq := by rw [h3]; exact h.n_eq
  len_le := by rw [h4]; exact h.len_le
  window := by rw [h6, h5, h1]; exact h.window
  slots := by rw [h5, h7]; exact h.slots
  no_overrun := by rw [h8]; exact h.no_overrun

end Rep

/-! ## The two copies -/

/-- The number of elements a put of `n` elements inserts: what there is room for. -/
def room (cb : Cbuffer α) (q : List α) (n : Nat) : Nat := min n (cb.nMaxElements.toNat - q.length)

theorem room_le (cb : Cbuffer α) (q : List α) (n : Nat) : room cb q n ≤ n := Nat.min_le_left _ _

theorem Rep.room_fits (h : Rep cb q) (n : Nat) :
    (q.length : Int) + room cb q n ≤ cb.nMaxElements := by
  have := h.len_le; unfold room; omega

/-- The two `memcpy` calls of `s_copyin` are one wrapped write, inside the allocation. -/
theorem Rep.copyinData_eq (h : Rep cb q) {buf : List α} {n : Nat} (hn : n ≤ buf.length)
    (hfit : (q.length : Int) + n ≤ cb.nMaxElements) :
    copyinData cb buf n = { cb with
      data := Ring.writeWrap cb.data cb.nMaxAllocdElements.toNat
        (cb.wIdx.toNat % cb.nMaxAllocdElements.toNat) (buf.take n) } := by
  have hrange := h.tmod_range h.w_nonneg
  have ha := h.allocd
  have hs := h.slots
  have hno := h.no_overrun
  have hlen : (buf.take n).length = n := by simp [hn]
  unfold nEmptyRoom at ha
  rw [← h.tmod_toNat h.w_nonneg]
  unfold copyinData Ring.writeWrap
  simp only [Int.toNat_natCast, hlen]
  generalize cb.wIdx.tmod cb.nMaxAllocdElements = idx at *
  by_cases hw : idx + n ≤ cb.nMaxAllocdElements
  · rw [if_pos hw, if_pos (by omega)]
    simp only [memcpyIn, hlen, hno, Bool.false_or]
    rw [decide_eq_false (by omega)]
  · rw [if_neg hw, if_neg (by omega)]
    -- Both pieces end at or before the last slot.
    have e0 : (cb.nMaxAllocdElements - idx).toNat = cb.nMaxAllocdElements.toNat - idx.toNat := by
      omega
    have e1 : ((n : Int) - (cb.nMaxAllocdElements - idx)).toNat =
        n - (cb.nMaxAllocdElements.toNat - idx.toNat) := by omega
    have ht : (buf.take n).take (cb.nMaxAllocdElements.toNat - idx.toNat) =
        buf.take (cb.nMaxAllocdElements.toNat - idx.toNat) := by
      rw [List.take_take, Nat.min_eq_left (by omega)]
    simp only [memcpyIn, e0, e1, hno, ht, List.drop_take, List.length_take, List.length_drop,
      Bool.false_or]
    rw [decide_eq_false (by omega), decide_eq_false (by simp; omega)]
    rfl

/-- The two `memcpy` calls of `s_copyout` read the head of the stored list. -/
theorem Rep.copyoutData_eq (h : Rep cb q) {n : Nat} (hn : n ≤ q.length) :
    copyoutData cb n = (cb, q.take n) := by
  have hrange := h.tmod_range h.r_nonneg
  have hpos := h.allocd_pos
  have ha := h.allocd
  have hs := h.slots
  have hl := h.len_le
  have hno := h.no_overrun
  unfold nEmptyRoom at ha
  have hq : q.take n = Ring.readWrap cb.data cb.nMaxAllocdElements.toNat
      (cb.rIdx.tmod cb.nMaxAllocdElements).toNat n := by
    rw [h.tmod_toNat h.r_nonneg, Ring.readWrap_eq_window (by omega) (by omega)]
    conv => lhs; rw [← h.window]
    exact Ring.take_window hn
  rw [hq]
  unfold copyoutData Ring.readWrap
  simp only []
  generalize cb.rIdx.tmod cb.nMaxAllocdElements = idx at *
  have hcb : { cb with overrun := false } = cb := by rw [← hno]
  by_cases hw : idx + n ≤ cb.nMaxAllocdElements
  · rw [if_pos hw, if_pos (by omega)]
    simp only [memcpyOut, Int.toNat_natCast, hno, Bool.false_or]
    rw [decide_eq_false (by omega), hcb]
  · rw [if_neg hw, if_neg (by omega)]
    have e0 : (cb.nMaxAllocdElements - idx).toNat = cb.nMaxAllocdElements.toNat - idx.toNat := by
      omega
    have e1 : ((n : Int) - (cb.nMaxAllocdElements - idx)).toNat =
        n - (cb.nMaxAllocdElements.toNat - idx.toNat) := by omega
    simp only [memcpyOut, e0, e1, hno, Bool.false_or]
    rw [decide_eq_false (by omega), decide_eq_false (by simp; omega)]
    simp only [Bool.or_false, hcb]
    rfl

/-- The guard of `s_copyin`: how many elements it copies. -/
theorem Rep.copyin_max (h : Rep cb q) {n : Nat} (hn : n < 2 ^ 63) :
    (if cb.nMaxElements - cb.nElements < i64 n then cb.nMaxElements - cb.nElements else i64 n) =
      (room cb q n : Int) := by
  have hq := h.n_eq
  have hl := h.len_le
  rw [i64_natCast hn, hq]
  unfold room
  split <;> omega

/-- What a copy of `n > 0` elements makes of the record. -/
theorem copyin_of_pos (h : Rep cb q) {buf : List α} {n : Nat} (hpos : 0 < n) (hle : n ≤ buf.length)
    (hfit : (q.length : Int) + n ≤ cb.nMaxElements)
    (hmax : (if cb.nMaxElements - cb.nElements < i64 buf.length then
      cb.nMaxElements - cb.nElements else i64 buf.length) = n) :
    ∃ log, copyin cb buf = ({ cb with
      data := Ring.writeWrap cb.data cb.nMaxAllocdElements.toNat
        (cb.wIdx.toNat % cb.nMaxAllocdElements.toNat) (buf.take n)
      nElements := cb.nElements + n
      wIdx := i64 (cb.wIdx + n)
      qmuxLog := log
      condGet := cb.condGet + 1 }, (n : Int)) := by
  unfold copyin
  simp only [hmax, adjustIndices_of_nonneg h.w_nonneg]
  rw [if_pos (by omega), h.copyinData_eq hle hfit]
  obtain ⟨log, hlog⟩ := ite_qmuxerNotify_eq
    { cb with
      data := Ring.writeWrap cb.data cb.nMaxAllocdElements.toNat
        (cb.wIdx.toNat % cb.nMaxAllocdElements.toNat) (buf.take n)
      nElements := cb.nElements + n
      wIdx := i64 (cb.wIdx + n) } (needWaitReadable cb.type)
  simp only [hlog]
  exact ⟨log, rfl⟩

/-- The slots of the stored list and of the copied elements. -/
theorem Rep.window_append (h : Rep cb q) {buf : List α} {n : Nat} (hle : n ≤ buf.length)
    (hfit : (q.length : Int) + n ≤ cb.nMaxElements) :
    Ring.window (Ring.writeWrap cb.data cb.nMaxAllocdElements.toNat
      (cb.wIdx.toNat % cb.nMaxAllocdElements.toNat) (buf.take n)) cb.nMaxAllocdElements.toNat
      cb.rIdx.toNat (q.length + n) = q ++ buf.take n := by
  have hlen : (buf.take n).length = n := by simp [hle]
  have ha := h.allocd
  have hw := h.w_eq
  have hr := h.r_nonneg
  unfold nEmptyRoom at ha
  have happend : Ring.window (Ring.writeWrap cb.data cb.nMaxAllocdElements.toNat
      ((cb.rIdx.toNat + q.length) % cb.nMaxAllocdElements.toNat) (buf.take n))
      cb.nMaxAllocdElements.toNat cb.rIdx.toNat (q.length + (buf.take n).length) = _ :=
    Ring.window_writeWrap (by omega) (by omega)
  rw [hlen, h.window] at happend
  rw [show cb.wIdx.toNat = cb.rIdx.toNat + q.length by omega]
  exact happend

/-- The record after a copy stores the longer list, while the write index fits its type. -/
theorem Rep.append (h : Rep cb q) {buf : List α} {n : Nat} (hle : n ≤ buf.length)
    (hfit : (q.length : Int) + n ≤ cb.nMaxElements) (hw : cb.wIdx + n < 2 ^ 63) (log : List Nat) :
    Rep { cb with
      data := Ring.writeWrap cb.data cb.nMaxAllocdElements.toNat
        (cb.wIdx.toNat % cb.nMaxAllocdElements.toNat) (buf.take n)
      nElements := cb.nElements + n
      wIdx := i64 (cb.wIdx + n)
      qmuxLog := log
      condGet := cb.condGet + 1 } (q ++ buf.take n) := by
  have hw0 := h.w_nonneg
  have hi : i64 (cb.wIdx + n) = cb.wIdx + n := i64_of_range (by omega) hw
  have hlen : (buf.take n).length = n := by simp [hle]
  constructor
  · exact h.allocd
  · exact h.r_nonneg
  · have := h.w_eq
    simp only [hi, List.length_append, hlen]
    omega
  · simp only [hi]; exact hw
  · have := h.n_eq
    simp only [List.length_append, hlen]
    omega
  · simp only [List.length_append, hlen]
    omega
  · simp only [List.length_append, hlen]
    exact h.window_append hle hfit
  · exact h.slots
  · exact h.no_overrun

/-- **`s_copyin` appends what there is room for.** -/
theorem copyin_rep (h : Rep cb q) {buf : List α} (hn : buf.length < 2 ^ 63)
    (hw : cb.wIdx + room cb q buf.length < 2 ^ 63) :
    (copyin cb buf).2 = room cb q buf.length ∧
    Rep (copyin cb buf).1 (q ++ buf.take (room cb q buf.length)) ∧
    Frame cb (copyin cb buf).1 ∧
    (copyin cb buf).1.wIdx = cb.wIdx + room cb q buf.length ∧
    (copyin cb buf).1.rIdx = cb.rIdx := by
  have hw0 := h.w_nonneg
  have hle := room_le cb q buf.length
  have hfit := h.room_fits buf.length
  have hmax := h.copyin_max hn
  generalize room cb q buf.length = n at *
  rcases Nat.eq_zero_or_pos n with rfl | hpos
  · have hnone : copyin cb buf = (cb, 0) := by
      unfold copyin
      simp only [hmax, adjustIndices_of_nonneg hw0]
      rfl
    rw [hnone]
    refine ⟨rfl, ?_, Frame.refl cb, by simp, rfl⟩
    simpa using h
  · obtain ⟨log, hcopy⟩ := copyin_of_pos h hpos hle hfit hmax
    rw [hcopy]
    exact ⟨rfl, h.append hle hfit hw log, ⟨rfl, rfl, rfl, rfl, rfl⟩,
      i64_of_range (by omega) hw, rfl⟩

/-- **`s_copyout` gives the head of the list, and removes it if asked to.** -/
theorem copyout_rep (h : Rep cb q) {n : Nat} (hn : n < 2 ^ 63) (doIncr : Bool) :
    (copyout cb n doIncr).2 = (q.take n, ((min n q.length : Nat) : Int)) ∧
    Rep (copyout cb n doIncr).1 (if doIncr then q.drop n else q) ∧
    Frame cb (copyout cb n doIncr).1 ∧
    (copyout cb n doIncr).1.wIdx = cb.wIdx := by
  have hmax : (if i64 n < cb.nElements then i64 n else cb.nElements) =
      ((min n q.length : Nat) : Int) := by
    rw [i64_natCast hn, h.n_eq]
    split <;> omega
  have htake : q.take n = q.take (min n q.length) := by
    rcases Nat.le_total n q.length with hle | hle
    · rw [Nat.min_eq_left hle]
    · rw [Nat.min_eq_right hle, List.take_of_length_le hle, List.take_of_length_le (Nat.le_refl _)]
  have hdrop : q.drop n = q.drop (min n q.length) := by
    rcases Nat.le_total n q.length with hle | hle
    · rw [Nat.min_eq_left hle]
    · rw [Nat.min_eq_right hle, List.drop_of_length_le hle, List.drop_of_length_le (Nat.le_refl _)]
  have hle : min n q.length ≤ q.length := Nat.min_le_right _ _
  unfold copyout
  simp only [hmax, adjustIndices_of_nonneg h.w_nonneg, htake, hdrop]
  generalize min n q.length = k at *
  by_cases hpos : 0 < (k : Int)
  · rw [if_pos hpos, h.copyoutData_eq hle]
    cases doIncr with
    | false => exact ⟨rfl, by simpa using h, Frame.refl cb, rfl⟩
    | true =>
      obtain ⟨log, hlog⟩ := ite_qmuxerNotify_eq
        { cb with nElements := cb.nElements - k, rIdx := cb.rIdx + k } (needWaitWritable cb.type)
      simp only [if_true, hlog]
      have hr := h.r_nonneg
      have hl := h.len_le
      have e : (cb.rIdx + k).toNat = cb.rIdx.toNat + k := by omega
      refine ⟨trivial, ?_, ⟨rfl, rfl, rfl, rfl, rfl⟩, trivial⟩
      constructor
      · exact h.allocd
      · simp only []; omega
      · have := h.w_eq
        simp only [List.length_drop]
        omega
      · exact h.w_lt
      · have := h.n_eq
        simp only [List.length_drop]
        omega
      · simp only [List.length_drop]; omega
      · simp only [e, List.length_drop]
        rw [← Ring.drop_window hle, h.window]
      · exact h.slots
      · exact h.no_overrun
  · rw [if_neg hpos]
    have h0 : k = 0 := by omega
    subst h0
    refine ⟨by simp, ?_, Frame.refl cb, rfl⟩
    cases doIncr <;> simpa using h

/-! ## Clearing -/

/-- `s_freeup_all_values` passes exactly the stored elements to `m_del_proc`, in order. -/
theorem Rep.freeupAllValues_eq (h : Rep cb q) :
    freeupAllValues cb =
      { cb with freed := if cb.hasDelProc then cb.freed ++ q else cb.freed } := by
  have hr := h.r_nonneg
  have hc := h.allocd_pos
  have haddrs : (List.range (cb.wIdx - cb.rIdx).toNat).filterMap
        (fun (k : Nat) => dataAddr cb (cb.rIdx + k)) =
      (List.range q.length).map fun k => (cb.rIdx.toNat + k) % cb.nMaxAllocdElements.toNat := by
    rw [show (cb.wIdx - cb.rIdx).toNat = q.length by have := h.w_eq; omega,
      ← List.filterMap_eq_map]
    apply List.filterMap_congr
    intro k _
    have e : (cb.rIdx + k).toNat = cb.rIdx.toNat + k := by omega
    rw [dataAddr, if_pos (by omega), h.tmod_toNat (by omega), e]
    rfl
  have hdata : ((List.range q.length).map fun k =>
      (cb.rIdx.toNat + k) % cb.nMaxAllocdElements.toNat).map cb.data = q := by
    conv => rhs; rw [← h.window]
    rw [List.map_map]
    rfl
  have hin : ((List.range q.length).map fun k =>
      (cb.rIdx.toNat + k) % cb.nMaxAllocdElements.toNat).any (fun a => decide (cb.slots ≤ a)) =
        false := by
    rw [List.any_eq_false]
    intro a ha
    obtain ⟨k, -, rfl⟩ := List.mem_map.mp ha
    have := Nat.mod_lt (cb.rIdx.toNat + k) (show 0 < cb.nMaxAllocdElements.toNat by omega)
    have := h.slots
    simp only [decide_eq_true_eq]
    omega
  unfold freeupAllValues
  split
  · simp only [adjustIndices_of_nonneg h.w_nonneg, haddrs, hdata, hin, h.no_overrun, Bool.or_false]
  · rfl

/-- `s_clean` leaves the empty list. -/
theorem Rep.clean [Zero α] (h : Rep cb q) (freeValues : Bool) :
    Rep (clean cb freeValues) [] ∧ Frame cb (clean cb freeValues) := by
  have ha := h.allocd
  have hl := h.len_le
  have hs := h.slots
  have hfree : ∃ freed,
      (if freeValues then freeupAllValues cb else cb) = { cb with freed := freed } := by
    cases freeValues with
    | false => exact ⟨cb.freed, rfl⟩
    | true => exact ⟨_, h.freeupAllValues_eq⟩
  obtain ⟨freed, hfreed⟩ := hfree
  unfold Cbuffer.clean
  rw [hfreed]
  refine ⟨?_, ⟨rfl, rfl, rfl, rfl, rfl⟩⟩
  constructor
  · exact ha
  · exact Int.le_refl 0
  · rfl
  · exact (by decide : (0 : Int) < 2 ^ 63)
  · rfl
  · simp only [List.length_nil]; omega
  · rfl
  · exact hs
  · show (cb.overrun || decide (cb.slots < cb.nMaxAllocdElements.toNat)) = false
    rw [h.no_overrun, decide_eq_false (by omega)]
    rfl

/-- **`gallus_cbuffer_clear` empties the list**, with or without freeing the elements. -/
theorem clear_rep [Zero α] (h : Rep cb q) (freeValues : Bool) :
    (clear cb freeValues).2 = Result.ok ∧ Rep (clear cb freeValues).1 [] ∧
    Frame cb (clear cb freeValues).1 ∧ (clear cb freeValues).1.wIdx = 0 := by
  obtain ⟨hrep, hframe⟩ := h.clean freeValues
  obtain ⟨log, hlog⟩ := ite_qmuxerNotify_eq (clean cb freeValues)
    (needWaitReadable (clean cb freeValues).type)
  unfold clear
  simp only [hlog]
  exact ⟨trivial, hrep.of_eq rfl rfl rfl rfl rfl rfl rfl rfl,
    hframe.trans ⟨rfl, rfl, rfl, rfl, rfl⟩, rfl⟩

/-! ## The bounded FIFO list -/

end Cbuffer

/-- A bounded FIFO list of capacity `cap`. -/
structure Fifo (α : Type) (cap : Nat) where
  items : List α
  bounded : items.length ≤ cap

namespace Fifo

variable {α : Type} {cap : Nat}

def empty : Fifo α cap := ⟨[], Nat.zero_le _⟩

/-- How many of `n` elements there is room for. -/
def fits (f : Fifo α cap) (n : Nat) : Nat := min n (cap - f.items.length)

/-- Append the elements there is room for. -/
def put (f : Fifo α cap) (vals : List α) : Fifo α cap where
  items := f.items ++ vals.take (f.fits vals.length)
  bounded := by
    have := f.bounded
    simp only [List.length_append, List.length_take, fits]
    omega

/-- Remove the first `n` elements. -/
def drop (f : Fifo α cap) (n : Nat) : Fifo α cap where
  items := f.items.drop n
  bounded := by
    have := f.bounded
    simp only [List.length_drop]
    omega

end Fifo

namespace Cbuffer

variable {α : Type} [Zero α] {cb cb' : Cbuffer α} {q : List α}

/-- A non-blocking call of the interface. -/
inductive Op (α : Type) where
  | putN (vals : List α)
  | getN (nValsMax : Nat)
  | peekN (nValsMax : Nat)
  | clear (freeValues : Bool)

/-- What a call gives back: its result, the number of elements it says it moved, and the elements
it copied to the caller. -/
structure Reply (α : Type) where
  result : Result
  actual : Nat
  vals : List α
  deriving DecidableEq

/-- The number `n` a call asks for. -/
def Op.count : Op α → Nat
  | .putN vals => vals.length
  | .getN n => n
  | .peekN n => n
  | .clear _ => 0

/-- A call on the record. -/
def Op.exec (cb : Cbuffer α) : Op α → Cbuffer α × Reply α
  | .putN vals =>
    let (cb', ret, n) := putNow cb vals cb.elementSize
    (cb', ⟨ret, n, []⟩)
  | .getN n =>
    let (cb', ret, k, vals) := getNow cb n cb.elementSize true
    (cb', ⟨ret, k, vals⟩)
  | .peekN n =>
    let (cb', ret, k, vals) := getNow cb n cb.elementSize false
    (cb', ⟨ret, k, vals⟩)
  | .clear freeValues =>
    let (cb', ret) := Cbuffer.clear cb freeValues
    (cb', ⟨ret, 0, []⟩)

/-- The same call on the bounded list. -/
def Op.spec {cap : Nat} (f : Fifo α cap) : Op α → Fifo α cap × Reply α
  | .putN vals => (f.put vals, ⟨f.fits vals.length, f.fits vals.length, []⟩)
  | .getN n =>
    let k := min n f.items.length
    (f.drop n, ⟨k, k, f.items.take n⟩)
  | .peekN n =>
    let k := min n f.items.length
    (f, ⟨k, k, f.items.take n⟩)
  | .clear _ => (.empty, ⟨0, 0, []⟩)

/-- A sequence of calls on the record. -/
def execAll : Cbuffer α → List (Op α) → Cbuffer α × List (Reply α)
  | cb, [] => (cb, [])
  | cb, op :: ops =>
    let (cb₁, r) := op.exec cb
    let (cb₂, rs) := execAll cb₁ ops
    (cb₂, r :: rs)

/-- The same sequence on the bounded list. -/
def specAll {cap : Nat} : Fifo α cap → List (Op α) → Fifo α cap × List (Reply α)
  | f, [] => (f, [])
  | f, op :: ops =>
    let (f₁, r) := op.spec f
    let (f₂, rs) := specAll f₁ ops
    (f₂, r :: rs)

/-- The number of elements a call inserts into the list. -/
def Op.inserts {cap : Nat} (f : Fifo α cap) : Op α → Nat
  | .putN vals => f.fits vals.length
  | _ => 0

/-- The number of elements a sequence of calls inserts. -/
def inserted {cap : Nat} : Fifo α cap → List (Op α) → Nat
  | _, [] => 0
  | f, op :: ops => op.inserts f + inserted (op.spec f).1 ops

/-- The record is operational, has capacity `cap` and stores the list `f`. -/
structure Sim {cap : Nat} (cb : Cbuffer α) (f : Fifo α cap) : Prop where
  rep : Rep cb f.items
  operational : cb.isOperational = true
  capacity : cb.nMaxElements = cap

omit [Zero α] in
theorem Sim.of_frame {cap : Nat} {f f' : Fifo α cap} (h : Sim cb f) (hf : Frame cb cb')
    (hrep : Rep cb' f'.items) : Sim cb' f' :=
  ⟨hrep, hf.isOperational.trans h.operational, hf.nMaxElements.trans h.capacity⟩

omit [Zero α] in
theorem Sim.room_eq {cap : Nat} {f : Fifo α cap} (h : Sim cb f) (n : Nat) :
    room cb f.items n = f.fits n := by
  have := h.capacity
  unfold room Fifo.fits
  omega

omit [Zero α] in
theorem Sim.putNow {cap : Nat} {f : Fifo α cap} (h : Sim cb f) {vals : List α}
    (hn : vals.length < 2 ^ 63) (hw : cb.wIdx + f.fits vals.length < 2 ^ 63) :
    (putNow cb vals cb.elementSize).2 = ((f.fits vals.length : Int), f.fits vals.length) ∧
    Sim (putNow cb vals cb.elementSize).1 (f.put vals) ∧
    (putNow cb vals cb.elementSize).1.wIdx = cb.wIdx + f.fits vals.length := by
  unfold Cbuffer.putNow
  rw [if_pos rfl]
  split
  · rw [← h.room_eq] at hw
    obtain ⟨h1, h2, h3, h4, -⟩ := copyin_rep h.rep hn hw
    rw [h.room_eq] at h1 h2 h4
    have hle : f.fits vals.length ≤ vals.length := Nat.min_le_left _ _
    rw [if_pos h.operational]
    generalize copyin cb vals = r at *
    obtain ⟨cb', n⟩ := r
    simp only [] at h1 h2 h3 h4 ⊢
    subst h1
    exact ⟨by rw [sizeT_natCast (by omega)], h.of_frame h3 h2, h4⟩
  · have h0 : vals = [] := List.eq_nil_of_length_eq_zero (by omega)
    subst h0
    refine ⟨by simp [Fifo.fits, Result.ok], h.of_frame (Frame.refl cb) ?_, by simp [Fifo.fits]⟩
    simpa [Fifo.put] using h.rep

omit [Zero α] in
theorem Sim.getNow {cap : Nat} {f : Fifo α cap} (h : Sim cb f) {n : Nat} (hn : n < 2 ^ 63)
    (doIncr : Bool) :
    (getNow cb n cb.elementSize doIncr).2 =
      (((min n f.items.length : Nat) : Int), min n f.items.length, f.items.take n) ∧
    Sim (getNow cb n cb.elementSize doIncr).1 (if doIncr then f.drop n else f) ∧
    (getNow cb n cb.elementSize doIncr).1.wIdx = cb.wIdx := by
  have hf :
      (if doIncr then f.drop n else f).items = if doIncr then f.items.drop n else f.items := by
    cases doIncr <;> rfl
  unfold Cbuffer.getNow
  rw [if_pos rfl]
  split
  · obtain ⟨h1, h2, h3, h4⟩ := copyout_rep h.rep hn doIncr
    have hle : min n f.items.length ≤ n := Nat.min_le_left _ _
    rw [if_pos h.operational]
    generalize copyout cb n doIncr = r at *
    obtain ⟨cb', vals, k⟩ := r
    simp only [Prod.mk.injEq] at h1 h2 h3 h4 ⊢
    obtain ⟨rfl, rfl⟩ := h1
    exact ⟨⟨rfl, sizeT_natCast (by omega), rfl⟩, h.of_frame h3 (by rw [hf]; exact h2), h4⟩
  · have h0 : n = 0 := by omega
    subst h0
    refine ⟨by simp [Result.ok], h.of_frame (Frame.refl cb) ?_, rfl⟩
    rw [hf]
    cases doIncr <;> simpa using h.rep

/-- One call on the record does what the call on the list does. -/
theorem Sim.exec {cap : Nat} {f : Fifo α cap} (h : Sim cb f) {op : Op α} (hn : op.count < 2 ^ 63)
    (hw : cb.wIdx + op.inserts f < 2 ^ 63) :
    (op.exec cb).2 = (op.spec f).2 ∧ Sim (op.exec cb).1 (op.spec f).1 ∧
    (op.exec cb).1.wIdx ≤ cb.wIdx + op.inserts f := by
  have hw0 := h.rep.w_nonneg
  cases op with
  | putN vals =>
    have hput := h.putNow hn hw
    simp only [Op.exec, Op.spec, Op.inserts]
    generalize Cbuffer.putNow cb vals cb.elementSize = r at *
    obtain ⟨cb', ret, n⟩ := r
    obtain ⟨h1, h2, h3⟩ := hput
    cases h1
    exact ⟨rfl, h2, Int.le_of_eq h3⟩
  | getN n =>
    have hget := h.getNow hn true
    simp only [Op.exec, Op.spec, Op.inserts]
    simp only [Op.count] at hget
    generalize Cbuffer.getNow cb n cb.elementSize true = r at *
    obtain ⟨cb', ret, k, vals⟩ := r
    obtain ⟨h1, h2, h3⟩ := hget
    cases h1
    exact ⟨rfl, h2, Int.le_of_eq (h3.trans (Int.add_zero _).symm)⟩
  | peekN n =>
    have hget := h.getNow hn false
    simp only [Op.exec, Op.spec, Op.inserts]
    simp only [Op.count] at hget
    generalize Cbuffer.getNow cb n cb.elementSize false = r at *
    obtain ⟨cb', ret, k, vals⟩ := r
    obtain ⟨h1, h2, h3⟩ := hget
    cases h1
    exact ⟨rfl, h2, Int.le_of_eq (h3.trans (Int.add_zero _).symm)⟩
  | clear freeValues =>
    obtain ⟨h1, h2, h3, h4⟩ := clear_rep h.rep freeValues
    simp only [Op.exec, Op.spec, Op.inserts, h1]
    exact ⟨rfl, h.of_frame h3 h2, by omega⟩

/-- A sequence of calls on the record does what the sequence on the list does. -/
theorem Sim.execAll {cap : Nat} {f : Fifo α cap} (h : Sim cb f) {ops : List (Op α)}
    (hn : ∀ op ∈ ops, op.count < 2 ^ 63) (hw : cb.wIdx + inserted f ops < 2 ^ 63) :
    (execAll cb ops).2 = (specAll f ops).2 ∧ Sim (execAll cb ops).1 (specAll f ops).1 := by
  induction ops generalizing cb f with
  | nil => exact ⟨rfl, h⟩
  | cons op ops ih =>
    rw [inserted, Int.natCast_add] at hw
    obtain ⟨h1, h2, h3⟩ := h.exec (hn op List.mem_cons_self) (by omega)
    obtain ⟨h4, h5⟩ := ih h2 (fun o ho => hn o (List.mem_cons_of_mem _ ho)) (by omega)
    simp only [Cbuffer.execAll, specAll, h1, h4]
    exact ⟨trivial, h5⟩

omit [Zero α] in
/-- A fresh buffer stores the empty list, if its size is that of a possible object. -/
theorem sim_createWithSize {mallocOk : Nat → Bool} {junk : Nat → α} {elemsize cap : Nat}
    {hasDelProc : Bool} (hfits : sizeofRecord + elemsize * (cap + 1) < 2 ^ 63)
    (h : createWithSize mallocOk junk elemsize cap hasDelProc = (Result.ok, some cb)) :
    Sim cb (Fifo.empty : Fifo α cap) ∧ cb.wIdx = 0 := by
  unfold createWithSize at h
  split at h
  · rename_i hpos
    obtain ⟨he, hc⟩ := hpos
    have hcap : cap + 1 < 2 ^ 63 := by
      have := Nat.le_mul_of_pos_left (cap + 1) he
      omega
    have hsz : allocSize elemsize cap = sizeofRecord + elemsize * (cap + 1) := by
      unfold allocSize nEmptyRoom
      rw [show ((cap : Int) + 1) = ((cap + 1 : Nat) : Int) by omega, sizeT_natCast (by omega)]
      exact Nat.mod_eq_of_lt (by omega)
    have hal : i64 ((cap : Int) + nEmptyRoom) = cap + nEmptyRoom :=
      i64_of_range (by unfold nEmptyRoom; omega) (by unfold nEmptyRoom; omega)
    simp only [hal] at h
    split at h
    · simp only [Prod.mk.injEq, Option.some.injEq, true_and] at h
      subst h
      refine ⟨⟨?_, rfl, rfl⟩, rfl⟩
      constructor
      · rfl
      · exact Int.le_refl 0
      · rfl
      · exact (by decide : (0 : Int) < 2 ^ 63)
      · rfl
      · simp [Fifo.empty]
      · rfl
      · simp only [hsz, Nat.add_sub_cancel_left, Nat.mul_div_cancel_left _ he]
        unfold nEmptyRoom
        omega
      · rfl
    · cases h
  · cases h

/-- **Refinement.** A buffer of any capacity and element size (a possible object size), started by
`create`: every sequence of non-blocking calls gives the replies of the bounded FIFO list, and
`m_n_elements` is the length of the list and the distance of the two indices. The counts of the
calls stay below `2 ^ 63`, and so does the total of the inserted elements. -/
theorem fifo_refinement {mallocOk : Nat → Bool} {junk : Nat → α} {elemsize cap : Nat}
    {hasDelProc : Bool} (hfits : sizeofRecord + elemsize * (cap + 1) < 2 ^ 63)
    (hcreate : createWithSize mallocOk junk elemsize cap hasDelProc = (Result.ok, some cb))
    (ops : List (Op α)) (hn : ∀ op ∈ ops, op.count < 2 ^ 63)
    (htotal : inserted (Fifo.empty : Fifo α cap) ops < 2 ^ 63) :
    let f : Fifo α cap := (specAll .empty ops).1
    let cb' := (execAll cb ops).1
    (execAll cb ops).2 = (specAll (Fifo.empty : Fifo α cap) ops).2 ∧
    cb'.isOperational = true ∧ cb'.overrun = false ∧
    cb'.nElements = f.items.length ∧ cb'.nElements = cb'.wIdx - cb'.rIdx := by
  obtain ⟨hsim, hw⟩ := sim_createWithSize hfits hcreate
  obtain ⟨hreplies, h⟩ := hsim.execAll hn (by omega)
  have hn := h.rep.n_eq
  have hw := h.rep.w_eq
  exact ⟨hreplies, h.operational, h.rep.no_overrun, hn, by omega⟩

/-- A buffer of two elements that wraps round. -/
theorem fifo_refinement_wraps :
    ∃ cb : Cbuffer Nat,
      createWithSize (fun _ => true) (fun _ => 9) 8 (2 : Nat) false = (Result.ok, some cb) ∧
      (execAll cb [.putN [1, 2, 3], .getN 1, .putN [4, 5], .peekN 7, .getN 3]).2 =
        [⟨2, 2, []⟩, ⟨1, 1, [1]⟩, ⟨1, 1, []⟩, ⟨2, 2, [2, 4]⟩, ⟨2, 2, [2, 4]⟩] := by
  have hfits : sizeofRecord + 8 * (2 + 1) < 2 ^ 63 := by decide
  obtain ⟨cb, hcreate⟩ : ∃ cb : Cbuffer Nat,
      createWithSize (fun _ => true) (fun _ => 9) 8 (2 : Nat) false = (Result.ok, some cb) :=
    ⟨_, rfl⟩
  refine ⟨cb, hcreate, ?_⟩
  exact (fifo_refinement hfits hcreate _ (by decide) (by decide)).1.trans (by decide)

/-- Outside these bounds the source leaves the list: a get of `2 ^ 64 - 1` elements (`size_t`)
takes nothing and returns `-1`, and a buffer whose size passes the end of `size_t` is allocated
too small, so that the first put writes past it. -/
theorem fifo_refinement_bounds :
    (∃ cb : Cbuffer Nat,
      createWithSize (fun _ => true) (fun _ => 0) 8 1 false = (Result.ok, some cb) ∧
      (execAll cb [.putN [7], .getN (2 ^ 64 - 1)]).2 ≠
        (specAll (Fifo.empty : Fifo Nat 1) [.putN [7], .getN (2 ^ 64 - 1)]).2) ∧
    ∃ cb : Cbuffer Nat,
      createWithSize (fun n => decide (n < 4096)) (fun _ => 0) (2 ^ 63) 1 false =
        (Result.ok, some cb) ∧
      (execAll cb [.putN [7]]).1.overrun = true := by
  constructor
  · exact ⟨_, rfl, by decide⟩
  · exact ⟨_, rfl, by decide⟩

end Cbuffer
end Gallus
