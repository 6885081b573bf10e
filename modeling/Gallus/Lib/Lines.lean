import Mathlib.Tactic.SplitIfs

/-!
# Reading a stream line by line

A stream is a list of elements, with `none` where reading fails (its end, or an error). A reader
takes a piece at a time: through the next separator, and at most `n` elements.

* `cut`: one piece, and whether the stream fails before it is whole. `cut_append` and `cut_found`:
  the piece from the first elements of the stream.
* `line`: the reader that returns what it has got when the stream fails, and the failure next time.
  `strictLine`: the reader that returns the failure, and drops what it has got.
* `whole`: the stream never fails within a piece. `strictLines_eq_iff`: these are the streams of
  which the two readers make the same.
-/

namespace Gallus
namespace Lines

variable {α : Type} [DecidableEq α] (sep : α)

/-- A piece, and the rest of the stream behind it. If the stream fails before the piece is whole,
the rest begins behind the failure. -/
structure Cut (α : Type) where
  piece : List α
  whole : Bool
  rest : List (Option α)

/-- Takes one piece of at most `n` elements. -/
def cut : Nat → List (Option α) → Cut α
  | 0, s => ⟨[], true, s⟩
  | _ + 1, [] => ⟨[], false, []⟩
  | _ + 1, none :: s => ⟨[], false, s⟩
  | n + 1, some a :: s =>
    if a = sep then ⟨[a], true, s⟩
    else ⟨a :: (cut n s).piece, (cut n s).whole, (cut n s).rest⟩

/-- What is left of a piece is returned before the failure. -/
def line (n : Nat) (s : List (Option α)) : Option (List α) × List (Option α) :=
  let c := cut sep n s
  if c.whole then (some c.piece, c.rest)
  else if c.piece = [] then (none, c.rest)
  else (some c.piece, none :: c.rest)

/-- What is left of a piece is dropped. -/
def strictLine (n : Nat) (s : List (Option α)) : Option (List α) × List (Option α) :=
  let c := cut sep n s
  (if c.whole then some c.piece else none, c.rest)

/-- The results of `k` calls of a reader. -/
def calls {σ β : Type} (next : σ → β × σ) : Nat → σ → List β
  | 0, _ => []
  | k + 1, s => (next s).1 :: calls next k (next s).2

/-- The stream never fails within a piece: `r` elements have room in the current one. -/
def whole (n : Nat) : Nat → List (Option α) → Bool
  | r, [] => r == n
  | r, none :: s => r == n && whole n n s
  | r, some a :: s => if a = sep ∨ r ≤ 1 then whole n n s else whole n (r - 1) s

variable {sep} {n r i : Nat} {u : List α} {s : List (Option α)}

/-! ## A piece -/

/-- Elements without a separator are all in the piece, as long as it has room. -/
theorem cut_append (hu : u.findIdx? (· == sep) = none) (hn : u.length ≤ n) :
    cut sep n (u.map some ++ s) =
      ⟨u ++ (cut sep (n - u.length) s).piece, (cut sep (n - u.length) s).whole,
        (cut sep (n - u.length) s).rest⟩ := by
  induction u generalizing n with
  | nil => rfl
  | cons a u ih =>
    obtain ⟨n, rfl⟩ : ∃ m, n = m + 1 := ⟨n - 1, by simp at hn; omega⟩
    rw [List.findIdx?_cons] at hu
    split_ifs at hu with ha
    have ha' : a ≠ sep := by simpa using ha
    have hlen : u.length ≤ n := by simpa using hn
    rw [List.map_cons, List.cons_append, cut, if_neg ha', ih (by simpa using hu) hlen]
    simp

/-- The first separator ends the piece. -/
theorem cut_found (hu : u.findIdx? (· == sep) = some i) (hn : i < n) :
    cut sep n (u.map some ++ s) = ⟨u.take (i + 1), true, (u.drop (i + 1)).map some ++ s⟩ := by
  induction u generalizing n i with
  | nil => contradiction
  | cons a u ih =>
    obtain ⟨n, rfl⟩ : ∃ m, n = m + 1 := ⟨n - 1, by omega⟩
    rw [List.findIdx?_cons] at hu
    split_ifs at hu with ha
    · cases hu
      have ha' : a = sep := by simpa using ha
      simp [cut, ha']
    · have ha' : a ≠ sep := by simpa using ha
      obtain ⟨j, hj, rfl⟩ := Option.map_eq_some_iff.mp hu
      rw [List.map_cons, List.cons_append, cut, if_neg ha', ih hj (by omega)]
      simp

/-- A piece is taken off the stream. -/
theorem cut_rest_lt (hn : 0 < n) (hs : s ≠ []) : (cut sep n s).rest.length < s.length := by
  have hle : ∀ n (s : List (Option α)), (cut sep n s).rest.length ≤ s.length := by
    intro n s
    induction s generalizing n with
    | nil => cases n <;> simp [cut]
    | cons a s ih =>
      cases n with
      | zero => simp [cut]
      | succ n =>
        cases a with
        | none => simp [cut]
        | some a =>
          have := ih n
          simp only [cut]
          split_ifs
          · simp
          · simp
            omega
  obtain ⟨n, rfl⟩ : ∃ m, n = m + 1 := ⟨n - 1, by omega⟩
  cases s with
  | nil => exact absurd rfl hs
  | cons a s =>
    cases a with
    | none => simp [cut]
    | some a =>
      have := hle n s
      simp only [cut]
      split_ifs
      · simp
      · simp
        omega

/-- Whether the stream fails within a piece, by the first piece. -/
theorem whole_cut (hr : 0 < r) (hrn : r ≤ n) : whole sep n r s = true ↔
    (cut sep r s).whole = true ∧ whole sep n n (cut sep r s).rest = true ∨
    (cut sep r s).whole = false ∧ (cut sep r s).piece = [] ∧ r = n ∧
      whole sep n n (cut sep r s).rest = true := by
  induction s generalizing r with
  | nil =>
    obtain ⟨r, rfl⟩ : ∃ m, r = m + 1 := ⟨r - 1, by omega⟩
    simp [whole, cut]
  | cons a s ih =>
    obtain ⟨r, rfl⟩ : ∃ m, r = m + 1 := ⟨r - 1, by omega⟩
    cases a with
    | none => simp [whole, cut]
    | some a =>
      by_cases ha : a = sep
      · simp [whole, cut, ha]
      · simp only [whole, cut, ha, if_false, false_or, Nat.add_sub_cancel]
        cases r with
        | zero => simp [cut]
        | succ r =>
          rw [if_neg (by omega), ih (by omega) (by omega)]
          constructor
          · rintro (h | ⟨-, -, hr, -⟩)
            · exact .inl h
            · omega
          · rintro (h | ⟨-, hp, -, -⟩)
            · exact .inl h
            · contradiction

/-! ## The two readers -/

@[simp] theorem strictLine_snd (n : Nat) (s : List (Option α)) :
    (strictLine sep n s).2 = (cut sep n s).rest := rfl

/-- Two readers that make the same of the first piece. -/
theorem calls_eq_iff {σ β : Type} {next next' : σ → β × σ} {s : σ} (h : next s = next' s) :
    (∀ k, calls next k s = calls next' k s) ↔
      ∀ k, calls next k (next s).2 = calls next' k (next s).2 := by
  have hcons : ∀ k, calls next (k + 1) s = calls next' (k + 1) s ↔
      calls next k (next s).2 = calls next' k (next s).2 := fun k => by simp [calls, h]
  refine ⟨fun hall k => (hcons k).mp (hall (k + 1)), fun hall k => ?_⟩
  cases k with
  | zero => rfl
  | succ k => exact (hcons k).mpr (hall k)

/-- **The two readers.** They make the same of a stream exactly if it never fails within a piece. -/
theorem strictLines_eq_iff (hn : 0 < n) (s : List (Option α)) :
    (∀ k, calls (strictLine sep n) k s = calls (line sep n) k s) ↔ whole sep n n s = true := by
  induction hlen : s.length using Nat.strongRecOn generalizing s with
  | _ len ih =>
    subst hlen
    have hrec : (∀ k, calls (strictLine sep n) k (cut sep n s).rest =
        calls (line sep n) k (cut sep n s).rest) ↔ whole sep n n (cut sep n s).rest = true := by
      by_cases hs : s = []
      · subst hs
        obtain ⟨n, rfl⟩ : ∃ m, n = m + 1 := ⟨n - 1, by omega⟩
        refine iff_of_true (fun k => ?_) (by simp [cut, whole])
        induction k with
        | zero => rfl
        | succ k ih => simpa [calls, strictLine, line, cut] using ih
      · exact ih _ (cut_rest_lt hn hs) _ rfl
    rw [whole_cut hn (Nat.le_refl n), ← hrec]
    by_cases hw : (cut sep n s).whole = true
    · simpa [hw] using calls_eq_iff (s := s) (show strictLine sep n s = line sep n s by
        simp [strictLine, line, hw])
    · by_cases hp : (cut sep n s).piece = []
      · simpa [hw, hp] using calls_eq_iff (s := s) (show strictLine sep n s = line sep n s by
          simp [strictLine, line, hw, hp])
      · refine iff_of_false (fun h => ?_) (by simp [hw, hp])
        have := h 1
        simp [calls, strictLine, line, hw, hp] at this

end Lines
end Gallus
