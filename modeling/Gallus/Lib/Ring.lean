import Mathlib.Data.List.Basic

/-!
# Circular windows of a slot memory

A memory is a function from slot numbers to values. A ring of `c` slots keeps a queue in the
window of `n` slots that starts at the free-running index `r`: item `k` is in slot `(r + k) % c`.

* `read`/`write` move a run of adjacent slots; `readWrap`/`writeWrap` move a run that may pass the
  end of the ring, in two pieces.
* `window mem c r n` is the queue. `readWrap_eq_window`: a wrapped read is the window.
  `window_writeWrap`: a wrapped write at the end of a window appends to it, as long as the longer
  window fits the ring.
-/

namespace Gallus
namespace Ring

variable {α : Type*}

/-- The `n` values from slot `i` on. -/
def read (mem : Nat → α) (i n : Nat) : List α := (List.range n).map fun k => mem (i + k)

/-- The memory with the values `xs` from slot `i` on. -/
def write (mem : Nat → α) (i : Nat) (xs : List α) : Nat → α := fun j =>
  if i ≤ j then (xs[j - i]?).getD (mem j) else mem j

/-- A read of `n` slots from slot `i < c` of a ring: the slots after the last one are the first
ones. -/
def readWrap (mem : Nat → α) (c i n : Nat) : List α :=
  if i + n ≤ c then read mem i n else read mem i (c - i) ++ read mem 0 (n - (c - i))

/-- A write of `xs` from slot `i < c` of a ring. -/
def writeWrap (mem : Nat → α) (c i : Nat) (xs : List α) : Nat → α :=
  if i + xs.length ≤ c then write mem i xs
  else write (write mem i (xs.take (c - i))) 0 (xs.drop (c - i))

/-- The queue of `n` items that starts at the free-running index `r`. -/
def window (mem : Nat → α) (c r n : Nat) : List α := (List.range n).map fun k => mem ((r + k) % c)

variable {mem : Nat → α} {c i n m r : Nat} {xs : List α}

@[simp] theorem length_read : (read mem i n).length = n := by simp [read]

@[simp] theorem length_window : (window mem c r n).length = n := by simp [window]

@[simp] theorem window_zero : window mem c r 0 = [] := rfl

theorem window_add : window mem c r (n + m) = window mem c r n ++ window mem c (r + n) m := by
  simp only [window, List.range_add, List.map_append, List.map_map]
  congr 1
  apply List.map_congr_left
  intro k _
  simp [Nat.add_assoc]

theorem drop_window (h : m ≤ n) : (window mem c r n).drop m = window mem c (r + m) (n - m) := by
  obtain ⟨k, rfl⟩ := Nat.exists_eq_add_of_le h
  rw [window_add, List.drop_append_of_le_length (by simp)]
  simp

theorem take_window (h : m ≤ n) : (window mem c r n).take m = window mem c r m := by
  obtain ⟨k, rfl⟩ := Nat.exists_eq_add_of_le h
  rw [window_add, List.take_append_of_le_length (by simp), List.take_of_length_le (by simp)]

/-- Two free-running indices less than a round apart: the later slot from the earlier one. -/
theorem add_mod_cases (hc : 0 < c) {d : Nat} (hd : d ≤ c) :
    (r + d) % c = if r % c + d < c then r % c + d else r % c + d - c := by
  have hr := Nat.mod_lt r hc
  have h : (r + d) % c = (r % c + d) % c := by simp
  rw [h]
  split
  · rename_i hlt
    exact Nat.mod_eq_of_lt hlt
  · rw [Nat.mod_eq_sub_mod (by omega)]
    by_cases he : r % c + d - c < c
    · exact Nat.mod_eq_of_lt he
    · omega

/-- **A wrapped read is the window.** -/
theorem readWrap_eq_window (hc : 0 < c) (hn : n ≤ c) :
    readWrap mem c (r % c) n = window mem c r n := by
  have hr := Nat.mod_lt r hc
  unfold readWrap
  split
  · rename_i hfit
    apply List.map_congr_left
    intro k hk
    rw [List.mem_range] at hk
    rw [add_mod_cases hc (by omega), if_pos (by omega)]
  · rename_i hwrap
    obtain ⟨k, hk⟩ := Nat.exists_eq_add_of_le (show c - r % c ≤ n by omega)
    subst hk
    rw [window_add]
    congr 1
    · apply List.map_congr_left
      intro j hj
      rw [List.mem_range] at hj
      rw [add_mod_cases hc (by omega), if_pos (by omega)]
    · rw [Nat.add_sub_cancel_left]
      apply List.map_congr_left
      intro j hj
      rw [List.mem_range] at hj
      -- The second piece starts a round after `r`, at slot `0`.
      rw [Nat.add_assoc, add_mod_cases hc (by omega), if_neg (by omega)]
      congr 1
      omega

theorem write_apply (mem : Nat → α) (i : Nat) (xs : List α) (j : Nat) :
    write mem i xs j = if i ≤ j then (xs[j - i]?).getD (mem j) else mem j := rfl

/-- A slot of a ring after a wrapped write: the value at its distance from the start of the write,
or the old one past the end of the write. -/
theorem writeWrap_apply (hi : i < c) (hx : xs.length ≤ c) {j : Nat} (hj : j < c) :
    writeWrap mem c i xs j =
      (xs[if i ≤ j then j - i else j + c - i]?).getD (mem j) := by
  unfold writeWrap
  split
  · rename_i hfit
    rw [write_apply]
    split
    · rfl
    · rw [List.getElem?_eq_none (by omega)]; rfl
  · rename_i hwrap
    rw [write_apply, if_pos (Nat.zero_le _), write_apply, Nat.sub_zero, List.getElem?_drop]
    by_cases hij : i ≤ j
    · rw [if_pos hij, if_pos hij, List.getElem?_take, if_pos (by omega),
        List.getElem?_eq_none (by omega)]
      rfl
    · rw [if_neg hij, if_neg hij]
      have he : c - i + j = j + c - i := by omega
      rw [he]

/-- The window just written holds what was written. -/
theorem window_writeWrap_self (hc : 0 < c) (hx : xs.length ≤ c) :
    window (writeWrap mem c (r % c) xs) c r xs.length = xs := by
  have hr := Nat.mod_lt r hc
  apply List.ext_getElem (by simp)
  intro k h1 h2
  simp only [window, List.getElem_map, List.getElem_range]
  rw [writeWrap_apply hr hx (Nat.mod_lt _ hc)]
  have hk : (if r % c ≤ (r + k) % c then (r + k) % c - r % c else (r + k) % c + c - r % c) = k := by
    rw [add_mod_cases hc (d := k) (by omega)]
    split <;> split <;> omega
  rw [hk, List.getElem?_eq_getElem h2]
  rfl

/-- A write past the end of a window that stays clear of its start keeps it. -/
theorem window_writeWrap_of_le (hc : 0 < c) (hfit : n + xs.length ≤ c) :
    window (writeWrap mem c ((r + n) % c) xs) c r n = window mem c r n := by
  have hr := Nat.mod_lt r hc
  apply List.map_congr_left
  intro k hk
  rw [List.mem_range] at hk
  rw [writeWrap_apply (Nat.mod_lt _ hc) (by omega) (Nat.mod_lt _ hc), List.getElem?_eq_none]
  · rfl
  -- Slot `r + k` comes `c - (n - k)` slots after `r + n`, past the written ones.
  · rw [add_mod_cases hc (d := n) (by omega), add_mod_cases hc (d := k) (by omega)]
    split <;> split <;> split <;> omega

/-- **A wrapped write at the end of a window appends to it.** -/
theorem window_writeWrap (hc : 0 < c) (hfit : n + xs.length ≤ c) :
    window (writeWrap mem c ((r + n) % c) xs) c r (n + xs.length) = window mem c r n ++ xs := by
  rw [window_add, window_writeWrap_of_le hc hfit, window_writeWrap_self hc (by omega)]

end Ring
end Gallus
