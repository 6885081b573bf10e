import Gallus.StrUtils.Parse

/-!
# Trimmed strings (`strutils.c`)

`gallus_str_trim_right`, `gallus_str_trim_left` and `gallus_str_trim` return the length of the
trimmed string and store the string, but `NULL` for an empty one.

* `trimRightLoop`: the loop from the end, which writes a NUL over each character.
* `strTrim_trims_iff`: the three are right about a string if and only if it has a character that
  stays.
-/

namespace Gallus
namespace StrUtils

/-! ## The functions -/

/-- The loop of `gallus_str_trim_right`, with `ed` behind the first `n` characters of the buffer. -/
def trimRightLoop (trimchars : List Char) : Nat → List Char → List Char
  | 0, buf => buf
  | n + 1, buf =>
    if trimchars.contains (buf.getD n '\x00') then trimRightLoop trimchars n (buf.take n) else buf

/-- What is returned and stored for the string `s`. -/
def trimmed (s : List Char) : Result × Option (List Char) :=
  (s.length, if 0 < s.length then some s else none)

/-- `gallus_str_trim_right`: the return value, and `*retptr` after the call, with `none` for
`NULL`. -/
def strTrimRight (org trimchars : List Char) (retptr : Option (List Char)) :
    Result × Option (List Char) :=
  if org ≠ [] ∧ trimchars ≠ [] then trimmed (trimRightLoop trimchars org.length org)
  else (Result.invalidArgs, retptr)

/-- `gallus_str_trim_left`. -/
def strTrimLeft (org trimchars : List Char) (retptr : Option (List Char)) :
    Result × Option (List Char) :=
  if org ≠ [] ∧ trimchars ≠ [] then trimmed (org.dropWhile trimchars.contains)
  else (Result.invalidArgs, retptr)

/-- `gallus_str_trim`. -/
def strTrim (org trimchars : List Char) (retptr : Option (List Char)) :
    Result × Option (List Char) :=
  let (n, tmpStr) := strTrimRight org trimchars none
  let (n, retptr) := if 0 < n then strTrimLeft (tmpStr.getD []) trimchars retptr else (n, retptr)
  if n = 0 then (n, tmpStr) else (n, retptr)

/-! ## The strings -/

section Strings

variable {α : Type*} {p : α → Bool}

theorem rdropWhile_cons (c : α) (l : List α) :
    (c :: l).rdropWhile p =
      if l.rdropWhile p = [] then (if p c then [] else [c]) else c :: l.rdropWhile p := by
  unfold List.rdropWhile
  rw [List.reverse_cons, List.dropWhile_append]
  by_cases h : l.reverse.dropWhile p = []
  · rw [if_pos (by simp [h]), if_pos (by simp [h])]
    cases hp : p c <;> simp [hp]
  · rw [if_neg (by simp [h]), if_neg (by simpa using h)]
    simp

/-- Each end is trimmed for itself. -/
theorem dropWhile_rdropWhile (l : List α) :
    (l.rdropWhile p).dropWhile p = (l.dropWhile p).rdropWhile p := by
  induction l with
  | nil => rfl
  | cons c l ih =>
    by_cases hc : p c
    · rw [rdropWhile_cons, List.dropWhile_cons_of_pos hc, ← ih]
      split_ifs with hnil
      · rw [hnil]
      · rw [List.dropWhile_cons_of_pos hc]
    · rw [rdropWhile_cons, List.dropWhile_cons_of_neg hc, rdropWhile_cons]
      split_ifs
      · rw [List.dropWhile_cons_of_neg hc]
      · rw [List.dropWhile_cons_of_neg hc]

end Strings

theorem trimRightLoop_eq (trimchars : List Char) (buf : List Char) :
    trimRightLoop trimchars buf.length buf = buf.rdropWhile trimchars.contains := by
  induction buf using List.reverseRecOn with
  | nil => rfl
  | append_singleton buf c ih =>
    rw [List.length_append, List.length_singleton, trimRightLoop, List.rdropWhile_concat]
    have hlast : (buf ++ [c]).getD buf.length '\x00' = c := by simp
    have hcut : (buf ++ [c]).take buf.length = buf := by simp
    rw [hlast, hcut, ih]

section Trim

variable {org trimchars : List Char} {retptr : Option (List Char)}

theorem strTrimRight_eq (horg : org ≠ []) (htrim : trimchars ≠ []) :
    strTrimRight org trimchars retptr = trimmed (org.rdropWhile trimchars.contains) := by
  unfold strTrimRight
  rw [if_pos ⟨horg, htrim⟩, trimRightLoop_eq]

theorem strTrimLeft_eq (horg : org ≠ []) (htrim : trimchars ≠ []) :
    strTrimLeft org trimchars retptr = trimmed (org.dropWhile trimchars.contains) := by
  unfold strTrimLeft
  rw [if_pos ⟨horg, htrim⟩]

/-- What is stored is not empty. -/
theorem trimmed_some {s u : List Char} {n : Result} (h : trimmed s = (n, some u)) :
    u = s ∧ s ≠ [] ∧ n = s.length := by
  unfold trimmed at h
  split_ifs at h with hpos
  · cases h
    exact ⟨rfl, List.ne_nil_of_length_pos hpos, rfl⟩
  · cases h

theorem trimmed_of_ne {s : List Char} (h : s ≠ []) : trimmed s = ((s.length : Result), some s) := by
  unfold trimmed
  rw [if_pos (List.length_pos_iff.mpr h)]

theorem strTrim_eq (horg : org ≠ []) (htrim : trimchars ≠ []) :
    strTrim org trimchars retptr =
      trimmed ((org.rdropWhile trimchars.contains).dropWhile trimchars.contains) := by
  unfold strTrim
  rw [strTrimRight_eq horg htrim]
  by_cases hnil : org.rdropWhile trimchars.contains = []
  · rw [hnil]
    rfl
  · have hpos : (0 : Result) < (org.rdropWhile trimchars.contains).length := by
      exact_mod_cast List.length_pos_iff.mpr hnil
    rw [trimmed_of_ne hnil]
    dsimp only
    rw [if_pos hpos, Option.getD_some, strTrimLeft_eq hnil htrim]
    -- The last character is not trimmed, so that something is left.
    have hleft : (org.rdropWhile trimchars.contains).dropWhile trimchars.contains ≠ [] := by
      intro hall
      have hlast := List.rdropWhile_last_not trimchars.contains org hnil
      exact hlast (List.dropWhile_eq_nil_iff.mp hall _ (List.getLast_mem hnil))
    rw [trimmed_of_ne hleft]
    dsimp only
    rw [if_neg]
    exact_mod_cast (List.length_pos_iff.mpr hleft).ne'

end Trim

/-! ## What they promise -/

/-- The function `f` returns the length of `s`, and stores `s`. -/
def Returns (f : Option (List Char) → Result × Option (List Char)) (s : List Char) : Prop :=
  ∀ retptr, f retptr = ((s.length : Result), some s)

/-- The three functions are right about a string. -/
structure Trims (org trimchars : List Char) : Prop where
  right : Returns (strTrimRight org trimchars) (org.rdropWhile trimchars.contains)
  left : Returns (strTrimLeft org trimchars) (org.dropWhile trimchars.contains)
  both : Returns (strTrim org trimchars)
    ((org.dropWhile trimchars.contains).rdropWhile trimchars.contains)
  agree : ∀ n u, strTrimLeft org trimchars none = (n, some u) → ∀ retptr,
    strTrimRight u trimchars retptr = strTrim org trimchars retptr
  again : ∀ f ∈ [strTrimRight, strTrimLeft, strTrim], ∀ n u,
    f org trimchars none = (n, some u) → Returns (f u trimchars) u

/-- A string that is stored is trimmed. -/
theorem trimmed_again {org trimchars : List Char} (horg : org ≠ []) (htrim : trimchars ≠ []) :
    ∀ f ∈ [strTrimRight, strTrimLeft, strTrim], ∀ n u,
      f org trimchars none = (n, some u) → Returns (f u trimchars) u := by
  intro f hf n u hu retptr
  simp only [List.mem_cons, List.not_mem_nil, or_false] at hf
  rcases hf with rfl | rfl | rfl
  · rw [strTrimRight_eq horg htrim] at hu
    obtain ⟨rfl, hne, -⟩ := trimmed_some hu
    rw [strTrimRight_eq hne htrim, List.rdropWhile_idempotent]
    exact trimmed_of_ne hne
  · rw [strTrimLeft_eq horg htrim] at hu
    obtain ⟨rfl, hne, -⟩ := trimmed_some hu
    rw [strTrimLeft_eq hne htrim, List.dropWhile_idempotent]
    exact trimmed_of_ne hne
  · rw [strTrim_eq horg htrim] at hu
    obtain ⟨rfl, hne, -⟩ := trimmed_some hu
    have hends : ((org.rdropWhile trimchars.contains).dropWhile trimchars.contains).rdropWhile
        trimchars.contains = (org.rdropWhile trimchars.contains).dropWhile trimchars.contains := by
      rw [dropWhile_rdropWhile, List.rdropWhile_idempotent]
    rw [strTrim_eq hne htrim, hends, List.dropWhile_idempotent]
    exact trimmed_of_ne hne

/-- **Trimmed strings.** The three functions are right about a string if and only if one of its
characters stays. -/
theorem strTrim_trims_iff {org trimchars : List Char} (horg : org ≠ []) (htrim : trimchars ≠ []) :
    Trims org trimchars ↔ ∃ c ∈ org, c ∉ trimchars := by
  constructor
  · intro h
    by_contra hall
    push Not at hall
    have hnil : org.rdropWhile trimchars.contains = [] :=
      List.rdropWhile_eq_nil_iff.mpr fun c hc => by simpa using hall c hc
    have hright := h.right none
    rw [strTrimRight_eq horg htrim, hnil] at hright
    simp [trimmed] at hright
  · rintro ⟨c, hc, hstays⟩
    have hright : org.rdropWhile trimchars.contains ≠ [] := fun hnil =>
      hstays (by simpa using List.rdropWhile_eq_nil_iff.mp hnil c hc)
    have hleft : org.dropWhile trimchars.contains ≠ [] := fun hnil =>
      hstays (by simpa using List.dropWhile_eq_nil_iff.mp hnil c hc)
    have hboth : (org.dropWhile trimchars.contains).rdropWhile trimchars.contains ≠ [] := by
      rw [← dropWhile_rdropWhile]
      intro hall
      have hlast := List.rdropWhile_last_not trimchars.contains org hright
      exact hlast (List.dropWhile_eq_nil_iff.mp hall _ (List.getLast_mem hright))
    refine ⟨fun retptr => ?_, fun retptr => ?_, fun retptr => ?_, fun n u hu retptr => ?_,
      trimmed_again horg htrim⟩
    · rw [strTrimRight_eq horg htrim, trimmed_of_ne hright]
    · rw [strTrimLeft_eq horg htrim, trimmed_of_ne hleft]
    · rw [strTrim_eq horg htrim, dropWhile_rdropWhile, trimmed_of_ne hboth]
    · rw [strTrimLeft_eq horg htrim] at hu
      obtain ⟨rfl, hne, -⟩ := trimmed_some hu
      rw [strTrimRight_eq hne htrim, strTrim_eq horg htrim, dropWhile_rdropWhile]

/-- A word between blanks. -/
theorem strTrim_trims_iff_word : Trims "  hoge  ".toList " ".toList :=
  (strTrim_trims_iff (by decide) (by decide)).mpr ⟨'h', by decide, by decide⟩

/-- Of blanks alone nothing is stored. -/
theorem strTrim_blank :
    strTrimRight "  ".toList " ".toList none = (0, none) ∧
      strTrimLeft "  ".toList " ".toList none = (0, none) ∧
      strTrim "  ".toList " ".toList none = (0, none) ∧ ¬ Trims "  ".toList " ".toList := by
  refine ⟨by decide, by decide, by decide, fun h => ?_⟩
  have hright := h.right none
  rw [show strTrimRight "  ".toList " ".toList none = (0, none) by decide] at hright
  simp at hright

end StrUtils
end Gallus
