import Mathlib.Data.List.Basic
import Mathlib.Tactic.SplitIfs

/-!
# Blocks of memory with bounds

A block has a size, and cells that hold nothing until they are written. A write that is not inside
the block has no result, and neither has a read that comes to a cell without a value or to the
end of the block.

* `Block.Holds b pos xs`: the values `xs` are in `b` from `pos` on. What a write leaves of it:
  `holds_write`, `Holds.of_write_after`.
* `Block.readUntil`: the values up to a terminator, as of a C string. It is what is held before the
  first terminator (`Holds.readUntil_eq`), and what is read is held (`holds_of_readUntil`).
-/

namespace Gallus

/-- A block of memory. -/
structure Block (α : Type*) where
  size : Nat
  cell : Nat → Option α

namespace Block

variable {α : Type*} {b b' : Block α} {pos p n : Nat} {xs ys : List α}

/-- A new block of `n` cells. -/
def new (n : Nat) : Block α := ⟨n, fun _ => none⟩

/-- The block with `n` cells: those it had, and new ones. -/
def resize (b : Block α) (n : Nat) : Block α :=
  ⟨n, fun i => if i < b.size then b.cell i else none⟩

/-- The values `xs` are written from `pos` on. -/
def write (b : Block α) (pos : Nat) (xs : List α) : Option (Block α) :=
  if pos + xs.length ≤ b.size then
    some { b with cell := fun i =>
      if pos ≤ i ∧ i < pos + xs.length then xs[i - pos]? else b.cell i }
  else none

/-- The next values from `pos` on, at most `fuel`, up to `stop`. -/
def scan [DecidableEq α] (b : Block α) (stop : α) : Nat → Nat → Option (List α)
  | 0, _ => none
  | fuel + 1, pos =>
    match b.cell pos with
    | none => none
    | some x => if x = stop then some [] else (b.scan stop fuel (pos + 1)).map (x :: ·)

/-- The values from `pos` on, up to `stop`. -/
def readUntil [DecidableEq α] (b : Block α) (stop : α) (pos : Nat) : Option (List α) :=
  b.scan stop (b.size - pos) pos

/-- The values `xs` are in the block from `pos` on. -/
structure Holds (b : Block α) (pos : Nat) (xs : List α) : Prop where
  fits : pos + xs.length ≤ b.size
  cell : ∀ i, i < xs.length → b.cell (pos + i) = xs[i]?

/-! ## What a block holds -/

theorem Holds.nil (h : pos ≤ b.size) : b.Holds pos ([] : List α) :=
  ⟨h, fun i hi => by contradiction⟩

theorem holds_append :
    b.Holds pos (xs ++ ys) ↔ b.Holds pos xs ∧ b.Holds (pos + xs.length) ys := by
  constructor
  · rintro ⟨hfits, hcell⟩
    rw [List.length_append] at hfits
    refine ⟨⟨by omega, fun i hi => ?_⟩, ⟨by omega, fun i hi => ?_⟩⟩
    · rw [hcell i (by rw [List.length_append]; omega), List.getElem?_append_left hi]
    · rw [Nat.add_assoc, hcell (xs.length + i) (by rw [List.length_append]; omega),
        List.getElem?_append_right (by omega), Nat.add_sub_cancel_left]
  · rintro ⟨hx, hy⟩
    refine ⟨by rw [List.length_append, ← Nat.add_assoc]; exact hy.fits, fun i hi => ?_⟩
    by_cases hix : i < xs.length
    · rw [List.getElem?_append_left hix, hx.cell i hix]
    · rw [List.length_append] at hi
      have hcell := hy.cell (i - xs.length) (by omega)
      rw [List.getElem?_append_right (by omega), ← hcell]
      congr 1
      omega

theorem Holds.cons_iff {x : α} :
    b.Holds pos (x :: xs) ↔ pos < b.size ∧ b.cell pos = some x ∧ b.Holds (pos + 1) xs := by
  constructor
  · intro h
    obtain ⟨hx, hxs⟩ := holds_append.mp (show b.Holds pos ([x] ++ xs) from h)
    have hfits := hx.fits
    rw [List.length_singleton] at hfits
    exact ⟨by omega, hx.cell 0 (by simp), hxs⟩
  · rintro ⟨hlt, hcell, hxs⟩
    show b.Holds pos ([x] ++ xs)
    refine holds_append.mpr ⟨⟨by rw [List.length_singleton]; omega, fun i hi => ?_⟩, hxs⟩
    obtain rfl : i = 0 := by rw [List.length_singleton] at hi; omega
    exact hcell

/-- A block that grows, or is cut behind its values, holds what it held. -/
theorem Holds.resize (h : b.Holds pos xs) (hn : pos + xs.length ≤ n) :
    (b.resize n).Holds pos xs := by
  refine ⟨hn, fun i hi => ?_⟩
  have hfits := h.fits
  show (if pos + i < b.size then b.cell (pos + i) else none) = xs[i]?
  rw [if_pos (by omega), h.cell i hi]

/-! ## Writes -/

theorem write_eq_some (b : Block α) (pos : Nat) (xs : List α) (h : pos + xs.length ≤ b.size) :
    ∃ b', b.write pos xs = some b' ∧ b'.size = b.size := by
  unfold write
  rw [if_pos h]
  exact ⟨_, rfl, rfl⟩

theorem size_write (h : b.write pos xs = some b') : b'.size = b.size := by
  unfold write at h
  split_ifs at h
  cases h
  rfl

/-- The cells after a write. -/
theorem cell_write (h : b.write pos xs = some b') (i : Nat) :
    b'.cell i = if pos ≤ i ∧ i < pos + xs.length then xs[i - pos]? else b.cell i := by
  unfold write at h
  split_ifs at h
  cases h
  rfl

/-- What was written is there. -/
theorem holds_write (h : b.write pos xs = some b') : b'.Holds pos xs := by
  have hsize := size_write h
  refine ⟨?_, fun i hi => ?_⟩
  · rw [hsize]
    unfold write at h
    split_ifs at h with hfits
    exact hfits
  · rw [cell_write h, if_pos (by omega), Nat.add_sub_cancel_left]

/-- A write after the values leaves them. -/
theorem Holds.of_write_after (hx : b.Holds p xs) (h : b.write pos ys = some b')
    (hle : p + xs.length ≤ pos) : b'.Holds p xs := by
  refine ⟨by rw [size_write h]; exact hx.fits, fun i hi => ?_⟩
  rw [cell_write h, if_neg (by omega), hx.cell i hi]

/-! ## Strings -/

/-- A string that is held is read up to its terminator. -/
theorem Holds.scan_eq [DecidableEq α] {stop : α} {fuel : Nat}
    (h : b.Holds pos (xs ++ [stop])) (hstop : stop ∉ xs) (hfuel : xs.length < fuel) :
    b.scan stop fuel pos = some xs := by
  induction xs generalizing pos fuel with
  | nil =>
    obtain ⟨fuel, rfl⟩ := Nat.exists_eq_succ_of_ne_zero (Nat.ne_of_gt hfuel)
    obtain ⟨-, hcell, -⟩ := Holds.cons_iff.mp h
    rw [scan, hcell]
    exact if_pos rfl
  | cons x xs ih =>
    obtain ⟨fuel, rfl⟩ := Nat.exists_eq_succ_of_ne_zero (Nat.ne_of_gt (Nat.zero_lt_of_lt hfuel))
    obtain ⟨-, hcell, hrest⟩ := Holds.cons_iff.mp h
    rw [List.mem_cons, not_or] at hstop
    rw [scan, hcell]
    show (if x = stop then some [] else (b.scan stop fuel (pos + 1)).map (x :: ·)) = _
    rw [if_neg (Ne.symm hstop.1), ih hrest hstop.2 (by rw [List.length_cons] at hfuel; omega)]
    rfl

theorem Holds.readUntil_eq [DecidableEq α] {stop : α} (h : b.Holds pos (xs ++ [stop]))
    (hstop : stop ∉ xs) : b.readUntil stop pos = some xs := by
  refine h.scan_eq hstop ?_
  have hfits := h.fits
  rw [List.length_append, List.length_singleton] at hfits
  omega

/-- What is read up to a terminator is held, with its terminator. -/
theorem holds_of_scan [DecidableEq α] {stop : α} {fuel : Nat} (h : b.scan stop fuel pos = some xs)
    (hfuel : pos + fuel ≤ b.size) : b.Holds pos (xs ++ [stop]) ∧ stop ∉ xs := by
  induction fuel generalizing pos xs with
  | zero => cases h
  | succ fuel ih =>
    rw [scan] at h
    split at h
    · cases h
    · next x hcell =>
      split_ifs at h with hx
      · cases h
        subst hx
        exact ⟨Holds.cons_iff.mpr ⟨by omega, hcell, .nil (by omega)⟩, List.not_mem_nil⟩
      · obtain ⟨xs, hrest, rfl⟩ := Option.map_eq_some_iff.mp h
        obtain ⟨hholds, hstop⟩ := ih hrest (by omega)
        refine ⟨Holds.cons_iff.mpr ⟨by omega, hcell, hholds⟩, ?_⟩
        rw [List.mem_cons, not_or]
        exact ⟨fun heq => hx heq.symm, hstop⟩

theorem holds_of_readUntil [DecidableEq α] {stop : α} (h : b.readUntil stop pos = some xs) :
    b.Holds pos (xs ++ [stop]) ∧ stop ∉ xs := by
  by_cases hpos : pos ≤ b.size
  · exact holds_of_scan h (by omega)
  · rw [readUntil, Nat.sub_eq_zero_of_le (by omega)] at h
    cases h

end Block
end Gallus
