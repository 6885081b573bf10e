import Gallus.StrUtils.Lexeme
import Gallus.Checkcert.Config

/-!
# The array of a line (`session_checkcert.c`)

`s_parse_line` has an array of 16 tokens, and gives the tokenizer 1024 as its size.

* `parseLineStores`: the elements that are written, by the tokenizer and by `s_parse_line` itself.
* `parseLine_inside_iff`: when they are all in the array.
-/

namespace Gallus
namespace Checkcert

open StrUtils (strTokenizeQuote lexemes Written strTokenizeQuote_stored)

/-- The elements of `tokens` that `s_parse_line` writes: the tokenizer's, and `tp[n_tokens]`. -/
def parseLineStores (line : List Char) : List Nat :=
  if line = [] then []
  else
    let (n, t) := strTokenizeQuote line 1024 delimiters quotes
    t.stores.map Prod.fst ++
      if 0 < n ∧ n < 16 then
        match tokenList t n with
        | [] => []
        | tp :: _ => if tp.head? ≠ some '#' then [n.toNat] else []
      else []

/-- The terminator is in the array. -/
theorem terminator_lt {n : Result} {words : List (List Char)} {i : Nat}
    (h : i ∈ if 0 < n ∧ n < 16 then
        match words with
        | [] => []
        | tp :: _ => if tp.head? ≠ some '#' then [n.toNat] else []
      else []) : i < tokensSize := by
  unfold tokensSize
  split_ifs at h with hn
  · split at h
    · simp at h
    · split_ifs at h
      · rw [List.mem_singleton.mp h]
        exact (Int.toNat_lt (Int.le_of_lt hn.1)).mpr hn.2
      · simp at h
  · simp at h

/-- **The array of a line.** No element behind the end of the array is written, if and only if the
line has at most 16 words and quoted texts. -/
theorem parseLine_inside_iff (line : List Char) :
    (∀ i ∈ parseLineStores line, i < tokensSize) ↔
      (lexemes line delimiters quotes).length ≤ tokensSize := by
  by_cases hline : line = []
  · simp [parseLineStores, lexemes, hline]
  have hstored := strTokenizeQuote_stored line 1024 delimiters quotes
  unfold parseLineStores
  rw [if_neg hline]
  generalize strTokenizeQuote line 1024 delimiters quotes = d at hstored ⊢
  obtain ⟨n, t⟩ := d
  dsimp only at hstored ⊢
  generalize lexemes line delimiters quotes = lex at hstored ⊢
  constructor
  · intro hall
    by_contra hlong
    unfold tokensSize at hall hlong
    have hwritten : Written 1024 0 lex 16 := ⟨by decide, .inl ⟨by decide, by decide, by omega⟩⟩
    obtain ⟨e, he, heq⟩ := (hstored 16).mpr hwritten
    have := hall e.1 (List.mem_append_left _ (List.mem_map_of_mem he))
    omega
  · intro hlen i hi
    rcases List.mem_append.mp hi with hi | hi
    · obtain ⟨e, he, rfl⟩ := List.mem_map.mp hi
      unfold tokensSize at hlen ⊢
      obtain ⟨-, ⟨-, -, hlt⟩ | ⟨-, hglued⟩⟩ := (hstored e.1).mp ⟨e, he, rfl⟩
      · omega
      · have := (List.getElem?_eq_some_iff.mp hglued).1
        omega
    · exact terminator_lt hi

/-- A line of 17 words. -/
theorem parseLine_overrun :
    "a a a a a a a a a a a a a a a a a".toList.length < bufSize ∧
      16 ∈ parseLineStores "a a a a a a a a a a a a a a a a a".toList ∧ ¬ 16 < tokensSize := by
  decide +kernel

end Checkcert
end Gallus
