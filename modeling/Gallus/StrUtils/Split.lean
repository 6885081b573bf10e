import Gallus.Basic
import Gallus.Lib.Words

/-!
# Words of a buffer (`strutils.c`)

`gallus_str_tokenize_with_limit` writes a NUL behind each word of the buffer and stores the pointer
to the word in the caller's array, up to `limit` words; what follows them is one token.

* A buffer is the list of its characters, with a NUL among them, and a pointer into it is an
  offset. Nothing in front of the pointer `buf` is read or written again, so that a loop has the
  characters from `buf` on.
* The stores into the caller's array are listed in their order, with the index and the offset.
* `strTokenizeWithLimit_pieces`: the tokens are the words and the rest of the text.
-/

namespace Gallus
namespace StrUtils

open Words (words pieces behind)

/-- The string that a pointer to these characters is. -/
def strOf (mem : List Char) : List Char := mem.takeWhile (· ≠ '\x00')

/-- `strchr(s, c) != NULL`. The NUL at the end of the string is found as well. -/
def strchr (s : List Char) (c : Char) : Bool := c = '\x00' || s.contains c

/-- `*buf`. Behind the buffer nothing is read. -/
def deref (buf : List Char) : Char := buf.headD '\x00'

/-- What the loop leaves: `n`, the stores, and the buffer from the pointer on. -/
structure Tokenized where
  n : Nat
  stores : List (Nat × Nat)
  buf : List Char
  deriving DecidableEq, Repr

/-- The loop over the tokens, at the offset `pos`. Each round counts one or is the last, so that
`max` rounds are enough. -/
def tokenizeLimitLoop (delm : List Char) (max limit : Nat) :
    Nat → Nat → Nat → List Char → Tokenized
  | 0, n, _, buf => ⟨n, [], buf⟩
  | rounds + 1, n, pos, buf =>
    if deref buf = '\x00' ∨ max ≤ n then ⟨n, [], buf⟩
    else
      let gap := buf.takeWhile fun c => strchr delm c && c ≠ '\x00'
      let word := buf.dropWhile fun c => strchr delm c && c ≠ '\x00'
      let pos := pos + gap.length
      if deref word = '\x00' then ⟨n, [], buf⟩
      -- The split limit check.
      else if limit ≠ 0 ∧ limit ≤ n then ⟨n + 1, [(n, pos)], buf⟩
      else
        let run := word.takeWhile fun c => !strchr delm c && c ≠ '\x00'
        let rest := word.dropWhile fun c => !strchr delm c && c ≠ '\x00'
        if deref rest = '\x00' then ⟨if 0 < run.length then n + 1 else n, [(n, pos)], buf⟩
        else if deref rest.tail = '\x00' then
          ⟨n + 1, [(n, pos)], gap ++ run ++ '\x00' :: rest.tail⟩
        else
          let t := tokenizeLimitLoop delm max limit rounds (n + 1) (pos + run.length + 1) rest.tail
          ⟨t.n, (n, pos) :: t.stores, gap ++ run ++ '\x00' :: t.buf⟩

/-- `gallus_str_tokenize_with_limit`: the return value, the stores into `tokens`, and the buffer
after the call. -/
def strTokenizeWithLimit (buf : List Char) (max limit : Nat) (delm : List Char) :
    Result × List (Nat × Nat) × List Char :=
  if strOf buf = [] ∨ delm = [] then (Result.invalidArgs, [], buf)
  else
    let t := tokenizeLimitLoop delm max limit max 0 0 buf
    (t.n, t.stores, t.buf)

/-- The tokens of a text: its words, or at most `limit` of them and the rest. -/
def reference (delm : List Char) (limit : Nat) (text : List Char) : List (List Char) :=
  if limit = 0 then words delm.contains text else pieces delm.contains limit text

/-- A string ends at its NUL. -/
theorem strOf_append {text tail : List Char} (h : '\x00' ∉ text) :
    strOf (text ++ '\x00' :: tail) = text := by
  unfold strOf
  have hall : ∀ c ∈ text, decide (c ≠ '\x00') = true := fun c hc =>
    decide_eq_true fun hnul => h (hnul ▸ hc)
  rw [List.takeWhile_append_of_pos hall]
  simp

/-- A buffer with a NUL in it. -/
theorem exists_strOf {buf : List Char} (h : '\x00' ∈ buf) :
    ∃ tail, buf = strOf buf ++ '\x00' :: tail := by
  have hsplit := List.takeWhile_append_dropWhile (p := (· ≠ '\x00')) (l := buf)
  cases hdrop : buf.dropWhile (· ≠ '\x00') with
  | nil =>
    have hall := List.dropWhile_eq_nil_iff.mp hdrop '\x00' h
    simp at hall
  | cons c tail =>
    have hc := List.head?_dropWhile_not (· ≠ '\x00') buf
    rw [hdrop] at hsplit hc
    obtain rfl : c = '\x00' := by simpa using hc
    exact ⟨tail, hsplit.symm⟩

/-- The loop is right about a buffer: what it stores are these tokens. -/
structure Tokenized.Right (t : Tokenized) (tokens : List (List Char)) (n pos len : Nat) : Prop where
  count : t.n = n + t.stores.length
  indices : t.stores.map Prod.fst = List.range' n t.stores.length
  tokens : t.stores.map (fun e => strOf (t.buf.drop (e.2 - pos))) = tokens
  inside : ∀ e ∈ t.stores, pos ≤ e.2 ∧ '\x00' ∈ t.buf.drop (e.2 - pos)
  length : t.buf.length = len

namespace Tokenized.Right

variable {t : Tokenized} {tokens : List (List Char)} {n pos len : Nat}
  {buf gap run tail : List Char}

theorem nil : (⟨n, [], buf⟩ : Tokenized).Right [] n pos buf.length :=
  ⟨rfl, rfl, rfl, by simp, rfl⟩

/-- The last token is up to the NUL at the end of the text. -/
theorem last (hrun : '\x00' ∉ run) (hbuf : buf = gap ++ run ++ '\x00' :: tail) :
    (⟨n + 1, [(n, pos + gap.length)], buf⟩ : Tokenized).Right [run] n pos buf.length := by
  have hdrop : buf.drop (pos + gap.length - pos) = run ++ '\x00' :: tail := by
    rw [Nat.add_sub_cancel_left, hbuf, List.append_assoc, List.drop_left]
  refine ⟨rfl, rfl, ?_, ?_, rfl⟩
  · simp only [List.map_cons, List.map_nil, hdrop, strOf_append hrun]
  · rintro e he
    rw [List.mem_singleton.mp he, hdrop]
    exact ⟨Nat.le_add_right .., by simp⟩

/-- A token with a NUL behind it, and the tokens of the rest of the buffer. -/
theorem cons (h : t.Right tokens (n + 1) (pos + gap.length + run.length + 1) len)
    (hrun : '\x00' ∉ run) :
    (⟨t.n, (n, pos + gap.length) :: t.stores, gap ++ run ++ '\x00' :: t.buf⟩ : Tokenized).Right
      (run :: tokens) n pos (gap.length + run.length + 1 + len) := by
  have hfirst : (gap ++ run ++ '\x00' :: t.buf).drop (pos + gap.length - pos) =
      run ++ '\x00' :: t.buf := by
    rw [Nat.add_sub_cancel_left, List.append_assoc, List.drop_left]
  have hlater : ∀ o, pos + gap.length + run.length + 1 ≤ o →
      (gap ++ run ++ '\x00' :: t.buf).drop (o - pos) =
        t.buf.drop (o - (pos + gap.length + run.length + 1)) := by
    intro o ho
    have heq : o - pos = (gap ++ run ++ ['\x00']).length +
        (o - (pos + gap.length + run.length + 1)) := by
      simp only [List.length_append, List.length_singleton]
      omega
    rw [heq, ← List.drop_drop, List.append_cons (gap ++ run) _ t.buf,
      List.drop_left]
  refine ⟨?_, ?_, ?_, ?_, ?_⟩
  · simp only [h.count, List.length_cons]
    omega
  · simp [h.indices, List.range'_succ]
  · rw [← h.tokens, List.map_cons]
    refine congrArg₂ _ ?_ (List.map_congr_left fun e he => ?_)
    · simp only [hfirst, strOf_append hrun]
    · rw [hlater e.2 (h.inside e he).1]
  · intro e he
    rcases List.mem_cons.mp he with rfl | he
    · refine ⟨Nat.le_add_right .., ?_⟩
      rw [hfirst]
      simp
    · obtain ⟨hpos, hmem⟩ := h.inside e he
      exact ⟨by omega, by rwa [hlater e.2 hpos]⟩
  · simp only [List.length_append, List.length_cons, h.length]
    omega

end Tokenized.Right

/-- Within a text `strchr` finds the delimiters. -/
theorem takeWhile_text {text : List Char} (tail : List Char) {r q : Char → Bool} (h : '\x00' ∉ text)
    (hrq : ∀ c, c ≠ '\x00' → r c = q c) :
    (text ++ '\x00' :: tail).takeWhile (fun c => r c && c ≠ '\x00') = text.takeWhile q ∧
      (text ++ '\x00' :: tail).dropWhile (fun c => r c && c ≠ '\x00') =
        text.dropWhile q ++ '\x00' :: tail := by
  induction text with
  | nil => simp
  | cons c text ih =>
    rw [List.mem_cons, not_or] at h
    have hc : c ≠ '\x00' := Ne.symm h.1
    obtain ⟨htake, hdrop⟩ := ih h.2
    rw [List.cons_append, List.takeWhile_cons, List.dropWhile_cons, List.takeWhile_cons,
      List.dropWhile_cons, hrq c hc]
    cases q c
    · simp
    · simpa [hc] using And.intro htake hdrop

/-- The pointer is at the end of the text. -/
theorem deref_text {text tail : List Char} (h : '\x00' ∉ text) :
    deref (text ++ '\x00' :: tail) = '\x00' ↔ text = [] := by
  cases text with
  | nil => simp [deref]
  | cons c text =>
    rw [List.mem_cons, not_or] at h
    simpa [deref] using Ne.symm h.1

/-- The tokens that are left of a text with `n` of them taken. -/
def leftTokens (delm : List Char) (limit n : Nat) (text : List Char) : List (List Char) :=
  if limit = 0 then words delm.contains text else pieces delm.contains (limit - n) text

theorem leftTokens_nil {delm : List Char} {limit n : Nat} : leftTokens delm limit n [] = [] := by
  unfold leftTokens
  rw [Words.words_nil, Words.pieces_nil]
  split_ifs <;> rfl

theorem leftTokens_gap {delm gap text : List Char} {limit n : Nat}
    (hgap : ∀ c ∈ gap, delm.contains c = true) :
    leftTokens delm limit n (gap ++ text) = leftTokens delm limit n text := by
  unfold leftTokens
  rw [Words.words_gap_append hgap, Words.pieces_gap_append hgap]

theorem leftTokens_run {delm run : List Char} {limit n : Nat}
    (hrun : ∀ c ∈ run, delm.contains c = false) (hne : run ≠ []) :
    leftTokens delm limit n run = [run] := by
  unfold leftTokens
  rw [Words.words_run hrun hne, Words.pieces_run hrun hne]
  split_ifs <;> rfl

theorem leftTokens_run_append {delm run text : List Char} {c : Char} {limit n : Nat}
    (hrun : ∀ c ∈ run, delm.contains c = false) (hne : run ≠ []) (hc : delm.contains c = true)
    (hlimit : ¬(limit ≠ 0 ∧ limit ≤ n)) :
    leftTokens delm limit n (run ++ c :: text) = run :: leftTokens delm limit (n + 1) text := by
  unfold leftTokens
  split_ifs with hzero
  · exact Words.words_run_append hrun hne hc
  · obtain ⟨k, hk⟩ : ∃ k, limit - n = k + 1 := ⟨limit - n - 1, by omega⟩
    rw [hk, show limit - (n + 1) = k by omega]
    exact Words.pieces_run_append hrun hne hc

/-- **The loop.** It stores the tokens of the text, as many as are left of `max`. -/
theorem tokenizeLimitLoop_right {delm : List Char} {max limit rounds n pos : Nat}
    {text tail : List Char} (htext : '\x00' ∉ text) (hrounds : max ≤ n + rounds)
    (hlimit : limit = 0 ∨ n ≤ limit) :
    (tokenizeLimitLoop delm max limit rounds n pos (text ++ '\x00' :: tail)).Right
      ((leftTokens delm limit n text).take (max - n)) n pos (text ++ '\x00' :: tail).length := by
  induction rounds generalizing n pos text with
  | zero =>
    rw [show max - n = 0 by omega, List.take_zero]
    exact .nil
  | succ rounds ih =>
    unfold tokenizeLimitLoop
    have hstrchr : ∀ c, c ≠ '\x00' → strchr delm c = delm.contains c := by
      intro c hc
      simp [strchr, hc]
    obtain ⟨hgap, hword⟩ := takeWhile_text tail htext hstrchr
    simp only [hgap, hword]
    -- The text is a gap and what follows it.
    have hgapAll : ∀ c ∈ text.takeWhile delm.contains, delm.contains c = true := fun c hc =>
      List.mem_takeWhile_imp hc
    have hhead : ∀ c ∈ (text.dropWhile delm.contains).head?, delm.contains c = false := by
      intro c hc
      have := List.head?_dropWhile_not delm.contains text
      rw [Option.mem_def.mp hc] at this
      simpa using this
    have htexts := List.takeWhile_append_dropWhile (p := delm.contains) (l := text)
    generalize text.takeWhile delm.contains = gap at hgapAll htexts ⊢
    generalize text.dropWhile delm.contains = word at hhead htexts ⊢
    subst htexts
    obtain ⟨-, hwordNul⟩ := not_or.mp (List.mem_append.not.mp htext)
    rw [leftTokens_gap hgapAll]
    -- What follows it is a run and the rest.
    have hstrchr' : ∀ c, c ≠ '\x00' → (!strchr delm c) = !delm.contains c := fun c hc => by
      rw [hstrchr c hc]
    obtain ⟨hrun, hrest⟩ := takeWhile_text tail hwordNul hstrchr'
    simp only [hrun, hrest]
    have hruns := List.takeWhile_append_dropWhile (p := fun c => !delm.contains c) (l := word)
    have hrunAll : ∀ c ∈ word.takeWhile fun c => !delm.contains c, delm.contains c = false :=
      fun c hc => by simpa using List.mem_takeWhile_imp hc
    have hrunEmpty : (word.takeWhile fun c => !delm.contains c) = [] → word = [] := by
      intro hempty
      cases word with
      | nil => rfl
      | cons c word =>
        have hc := hhead c rfl
        rw [List.takeWhile_cons, hc] at hempty
        contradiction
    have hrestHead : ∀ c ∈ (word.dropWhile fun c => !delm.contains c).head?,
        delm.contains c = true := by
      intro c hc
      have := List.head?_dropWhile_not (fun c => !delm.contains c) word
      rw [Option.mem_def.mp hc] at this
      simpa using this
    generalize word.takeWhile (fun c => !delm.contains c) = run at hruns hrunAll hrunEmpty ⊢
    generalize word.dropWhile (fun c => !delm.contains c) = rest at hruns hrestHead ⊢
    obtain ⟨hrunNul, hrestNul⟩ := not_or.mp (List.mem_append.not.mp (hruns ▸ hwordNul))
    by_cases hstop : deref (gap ++ word ++ '\x00' :: tail) = '\x00' ∨ max ≤ n
    · rw [if_pos hstop]
      rw [deref_text htext] at hstop
      have hnone : (leftTokens delm limit n word).take (max - n) = [] := by
        rcases hstop with hnil | hmax
        · rw [(List.append_eq_nil_iff.mp hnil).2, leftTokens_nil, List.take_nil]
        · rw [show max - n = 0 by omega, List.take_zero]
      rw [hnone]
      exact .nil
    rw [if_neg hstop]
    rw [not_or] at hstop
    obtain ⟨m, hm⟩ : ∃ m, max - n = m + 1 := ⟨max - n - 1, by omega⟩
    by_cases hblank : word = []
    · rw [if_pos ((deref_text hwordNul).mpr hblank), hblank, leftTokens_nil, List.take_nil]
      exact .nil
    rw [if_neg (mt (deref_text hwordNul).mp hblank)]
    have hrunNe : run ≠ [] := fun hempty => hblank (hrunEmpty hempty)
    by_cases hcut : limit ≠ 0 ∧ limit ≤ n
    · rw [if_pos hcut]
      obtain ⟨c, rest', hword'⟩ := List.exists_cons_of_ne_nil hblank
      have hpieces : leftTokens delm limit n word = [word] := by
        unfold leftTokens
        rw [if_neg hcut.1, show limit - n = 0 by omega, hword']
        exact Words.pieces_zero (hhead c (by rw [hword']; rfl))
      rw [hpieces, hm, List.take_succ_cons, List.take_nil]
      exact .last hwordNul rfl
    rw [if_neg hcut]
    cases rest with
    | nil =>
      rw [List.append_nil] at hruns
      subst hruns
      rw [if_pos ((deref_text hrestNul).mpr rfl), if_pos (List.length_pos_iff.mpr hrunNe),
        leftTokens_run hrunAll hrunNe, hm, List.take_succ_cons, List.take_nil]
      exact .last hwordNul rfl
    | cons c text =>
      have hc := hrestHead c rfl
      rw [if_neg (mt (deref_text hrestNul).mp (List.cons_ne_nil c text))]
      rw [List.mem_cons, not_or] at hrestNul
      subst hruns
      rw [leftTokens_run_append hrunAll hrunNe hc hcut, hm, List.take_succ_cons]
      have hlen : (gap ++ (run ++ c :: text) ++ '\x00' :: tail).length =
          gap.length + run.length + 1 + (text ++ '\x00' :: tail).length := by
        simp only [List.length_append, List.length_cons]
        omega
      rw [hlen]
      by_cases hlast : text = []
      · have hstop' : deref (c :: text ++ '\x00' :: tail).tail = '\x00' :=
          (deref_text hrestNul.2).mpr hlast
        rw [if_pos hstop', hlast, leftTokens_nil, List.take_nil]
        exact Tokenized.Right.nil.cons hrunNul
      · have hmore : deref (c :: text ++ '\x00' :: tail).tail ≠ '\x00' :=
          mt (deref_text hrestNul.2).mp hlast
        rw [if_neg hmore, show m = max - (n + 1) by omega]
        exact (ih hrestNul.2 (by omega) (by omega)).cons hrunNul

/-- **The tokens of a buffer.** What is stored are the words, with `limit = 0` the first `max`, else
at most `limit` and the rest of the text; as many are counted, each up to a NUL of the buffer, and
none is stored from the index `max` on. An empty text and an empty set of delimiters are refused. -/
theorem strTokenizeWithLimit_pieces {buf delm : List Char} {max limit : Nat}
    (hbuf : '\x00' ∈ buf) {r : Result} {stores : List (Nat × Nat)} {buf' : List Char}
    (h : strTokenizeWithLimit buf max limit delm = (r, stores, buf')) :
    if strOf buf = [] ∨ delm = [] then r = Result.invalidArgs ∧ stores = [] ∧ buf' = buf
    else
      r = stores.length ∧ stores.map Prod.fst = List.range stores.length ∧
        (∀ e ∈ stores, e.1 < max ∧ '\x00' ∈ buf'.drop e.2) ∧
        stores.map (fun e => strOf (buf'.drop e.2)) = (reference delm limit (strOf buf)).take max ∧
        buf'.length = buf.length := by
  unfold strTokenizeWithLimit at h
  split_ifs with hargs
  · rw [if_pos hargs] at h
    cases h
    exact ⟨rfl, rfl, rfl⟩
  · rw [if_neg hargs] at h
    cases h
    obtain ⟨tail, htail⟩ := exists_strOf hbuf
    have hnul : '\x00' ∉ strOf buf := fun hmem => by
      simpa using List.mem_takeWhile_imp hmem
    have hright : (tokenizeLimitLoop delm max limit max 0 0 (strOf buf ++ '\x00' :: tail)).Right
        ((leftTokens delm limit 0 (strOf buf)).take (max - 0)) 0 0
        (strOf buf ++ '\x00' :: tail).length :=
      tokenizeLimitLoop_right hnul (by omega) (by omega)
    rw [← htail] at hright
    generalize tokenizeLimitLoop delm max limit max 0 0 buf = t at hright ⊢
    have hlen : t.stores.length ≤ max := by
      have := congrArg List.length hright.tokens
      rw [List.length_map, List.length_take] at this
      omega
    have hindices := hright.indices
    rw [← List.range_eq_range'] at hindices
    refine ⟨by simp [hright.count], hindices, fun e he => ⟨?_, ?_⟩, ?_, hright.length⟩
    · have hmem : e.1 ∈ List.range t.stores.length := hindices ▸ List.mem_map_of_mem he
      exact (List.mem_range.mp hmem).trans_le hlen
    · exact (hright.inside e he).2
    · exact hright.tokens

/-- One word is split off, and the rest is one token. -/
theorem strTokenizeWithLimit_pieces_one :
    strTokenizeWithLimit "foo,,bar,baz\x00".toList 6 1 ",".toList =
        (2, [(0, 0), (1, 5)], "foo\x00,bar,baz\x00".toList) ∧
      [(0, 0), (1, 5)].map (fun e : Nat × Nat =>
        strOf ("foo\x00,bar,baz\x00".toList.drop e.2)) =
          (reference ",".toList 1 "foo,,bar,baz".toList).take 6 := by
  have h : strTokenizeWithLimit "foo,,bar,baz\x00".toList 6 1 ",".toList =
      (2, [(0, 0), (1, 5)], "foo\x00,bar,baz\x00".toList) := by decide
  have hright := strTokenizeWithLimit_pieces (by decide) h
  rw [if_neg (by decide)] at hright
  exact ⟨h, hright.2.2.2.1⟩

/-- No token is stored of an empty text, but what is returned is an error. -/
theorem strTokenizeWithLimit_empty :
    strTokenizeWithLimit ['\x00'] 1 0 [','] = (Result.invalidArgs, [], ['\x00']) ∧
      Result.invalidArgs ≠ ([] : List (Nat × Nat)).length := by
  decide

end StrUtils
end Gallus
