import Mathlib.Data.List.TakeWhile

/-!
# Words between separators

A text is a list, and `sep` says which of its elements are separators.

* `words sep l`: the maximal runs of elements that are no separators, in order.
* `behind sep k l`: what follows the first `k` words, from the next word on.
* `pieces sep k l`: at most `k` words, and what follows them as one piece.

`words_run_append` and `pieces_run_append` read off the first word of a text.
-/

namespace Gallus
namespace Words

variable {α : Type*} {sep : α → Bool} {gap w l : List α} {x : α} {k : Nat}

/-- The maximal runs of elements that are no separators. -/
def words (sep : α → Bool) (l : List α) : List (List α) :=
  (l.splitOnP sep).filter fun w => !w.isEmpty

/-- What follows the first `k` words, from the next word on. -/
def behind (sep : α → Bool) : Nat → List α → List α
  | 0, l => l.dropWhile sep
  | k + 1, l => behind sep k ((l.dropWhile sep).dropWhile fun x => !sep x)

/-- At most `k` words, and what follows them as one piece. -/
def pieces (sep : α → Bool) (k : Nat) (l : List α) : List (List α) :=
  (words sep l).take k ++ if behind sep k l = [] then [] else [behind sep k l]

@[simp] theorem words_nil : words sep [] = [] := by
  simp [words]

/-- Separators in front of a text. -/
theorem words_gap_append (hgap : ∀ x ∈ gap, sep x = true) : words sep (gap ++ l) = words sep l := by
  induction gap with
  | nil => rfl
  | cons x gap ih =>
    have hx := hgap x List.mem_cons_self
    rw [← ih fun y hy => hgap y (List.mem_cons_of_mem _ hy)]
    unfold words
    rw [List.cons_append, List.splitOnP_cons_eq_if_modifyHead, if_pos hx]
    rfl

/-- A text without separators is a word. -/
theorem words_run (hw : ∀ x ∈ w, sep x = false) (hne : w ≠ []) : words sep w = [w] := by
  unfold words
  rw [List.splitOnP_eq_singleton hw]
  simp [hne]

/-- The first word of a text. -/
theorem words_run_append (hw : ∀ x ∈ w, sep x = false) (hne : w ≠ []) (hx : sep x = true) :
    words sep (w ++ x :: l) = w :: words sep l := by
  unfold words
  rw [List.splitOnP_append_cons_of_forall_mem hw x hx]
  simp [hne]

theorem behind_gap_append (hgap : ∀ x ∈ gap, sep x = true) (k : Nat) :
    behind sep k (gap ++ l) = behind sep k l := by
  cases k <;> simp only [behind, List.dropWhile_append_of_pos hgap]

theorem pieces_gap_append (hgap : ∀ x ∈ gap, sep x = true) (k : Nat) :
    pieces sep k (gap ++ l) = pieces sep k l := by
  unfold pieces
  rw [words_gap_append hgap, behind_gap_append hgap]

theorem behind_nil (k : Nat) : behind sep k [] = [] := by
  induction k with
  | zero => rfl
  | succ k ih => exact ih

theorem pieces_nil (k : Nat) : pieces sep k [] = [] := by
  simp [pieces, behind_nil]

/-- A text that begins with a word is one piece. -/
theorem pieces_zero (hx : sep x = false) : pieces sep 0 (x :: l) = [x :: l] := by
  simp [pieces, behind, hx]

theorem dropWhile_run_append (hw : ∀ x ∈ w, sep x = false) (hx : sep x = true) :
    (w ++ x :: l).dropWhile (fun x => !sep x) = x :: l := by
  rw [List.dropWhile_append_of_pos (by simpa using hw)]
  simp [hx]

theorem dropWhile_of_run (hw : ∀ x ∈ w, sep x = false) (hne : w ≠ []) :
    (w ++ l).dropWhile sep = w ++ l := by
  obtain ⟨c, w, rfl⟩ := List.exists_cons_of_ne_nil hne
  simp [hw c List.mem_cons_self]

/-- A text that is one word. -/
theorem pieces_run (hw : ∀ x ∈ w, sep x = false) (hne : w ≠ []) : pieces sep k w = [w] := by
  have hdrop : w.dropWhile sep = w := by simpa using dropWhile_of_run (l := []) hw hne
  cases k with
  | zero =>
    unfold pieces behind
    simp [hdrop, hne]
  | succ k =>
    have hall : w.dropWhile (fun x => !sep x) = [] :=
      List.dropWhile_eq_nil_iff.mpr (by simpa using hw)
    unfold pieces
    simp [words_run hw hne, behind, hdrop, hall, behind_nil]

/-- The first word of a text and a separator. -/
theorem pieces_run_append (hw : ∀ x ∈ w, sep x = false) (hne : w ≠ []) (hx : sep x = true) :
    pieces sep (k + 1) (w ++ x :: l) = w :: pieces sep k l := by
  have hgap : ∀ y ∈ [x], sep y = true := by simpa using hx
  have hbehind : behind sep (k + 1) (w ++ x :: l) = behind sep k l := by
    rw [behind, dropWhile_of_run hw hne, dropWhile_run_append hw hx]
    exact behind_gap_append (l := l) hgap k
  unfold pieces
  rw [hbehind, words_run_append hw hne hx, List.take_succ_cons, List.cons_append]

end Words
end Gallus
