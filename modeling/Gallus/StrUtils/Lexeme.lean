import Gallus.StrUtils.Token

/-!
# Where the tokens of a line are stored (`strutils.c`)

`gallus_str_tokenize_quote` looks at `max` at the beginning of each round, and a round stores a
second token if a bare word runs into a quote.

* `lexemes`: what the rounds come upon in a text, whatever `max` is.
* `tokenizeLoop_round`: what one round makes of the buffer, with the lexemes of the buffer.
* `tokenizeLoop_stored`: which elements of the caller's array are written.
* `strTokenizeQuote_inside_iff`: when none is written from the index `max` on.
-/

namespace Gallus
namespace StrUtils

/-! ## The text in lexemes -/

/-- What a token is of. -/
inductive Lexeme
  /-- A bare word, or a quote that is the last character. -/
  | word
  /-- A bare word that runs into a quote which is not the last character. -/
  | glued
  /-- The text behind a quote. -/
  | quoted
  deriving DecidableEq, Repr

/-- A character of a bare word. -/
def isBare (delm quote : List Char) (c : Char) : Bool := !delm.contains c && !quote.contains c

/-- The lexemes of a text, up to a quote that is not closed. Each round is over one character at
least. -/
def lexLoop (delm quote : List Char) : Nat → List Char → List Lexeme
  | 0, _ => []
  | rounds + 1, buf =>
    let buf := buf.dropWhile delm.contains
    if buf = [] then []
    else
      let bare := buf.takeWhile (isBare delm quote)
      match buf.dropWhile (isBare delm quote) with
      | [] => [.word]
      | c :: rest =>
        if delm.contains c then .word :: lexLoop delm quote rounds rest
        else if rest = [] then [.word]
        else
          let tail :=
            match skipToUnquote c '\x00' false rest with
            | none => []
            | some (_, closing) => lexLoop delm quote rounds closing.tail
          if bare = [] then .quoted :: tail else .glued :: .quoted :: tail

/-- The lexemes of a buffer. -/
def lexemes (buf delm quote : List Char) : List Lexeme :=
  if buf = [] ∨ delm = [] ∨ quote = [] then [] else lexLoop delm quote buf.length buf

/-! ## The stores -/

/-- `tokens[i]` is written. -/
def Tokens.Stored (t : Tokens) (i : Nat) : Prop := ∃ e ∈ t.stores, e.1 = i

theorem Tokens.stored_store {t : Tokens} {text : List Char} {i : Nat} :
    (t.store text).Stored i ↔ i = t.n ∨ t.Stored i := by
  unfold Stored store
  simp [eq_comm]

theorem Tokens.stored_count {t : Tokens} {i : Nat} : t.count.Stored i ↔ t.Stored i := Iff.rfl

/-- The elements that are written for these lexemes from the index `n` on. -/
def Written (max n : Nat) (lex : List Lexeme) (i : Nat) : Prop :=
  n < max ∧ (n ≤ i ∧ i < max ∧ i - n < lex.length ∨ i = max ∧ lex[max - 1 - n]? = some .glued)

section Written

variable {max n i : Nat} {x : Lexeme} {lex : List Lexeme}

theorem written_nil : ¬ Written max n [] i := by
  rintro ⟨-, ⟨-, -, h⟩ | ⟨-, h⟩⟩
  · simp at h
  · simp at h

/-- A lexeme that is not glued to the next. -/
theorem written_cons (hn : n < max) (hx : x ≠ .glued) :
    Written max n (x :: lex) i ↔ i = n ∨ Written max (n + 1) lex i := by
  unfold Written
  by_cases hlast : max - 1 - n = 0
  · have hmax : max = n + 1 := by omega
    subst hmax
    simp [hx]
    omega
  · obtain ⟨k, hk⟩ : ∃ k, max - 1 - n = k + 1 := ⟨max - 1 - n - 1, by omega⟩
    rw [hk, List.getElem?_cons_succ, List.length_cons, show max - 1 - (n + 1) = k by omega]
    constructor
    · rintro ⟨-, ⟨hle, hlt, hlen⟩ | ⟨heq, hglued⟩⟩
      · by_cases hi : i = n
        · exact .inl hi
        · exact .inr ⟨by omega, .inl ⟨by omega, hlt, by omega⟩⟩
      · exact .inr ⟨by omega, .inr ⟨heq, hglued⟩⟩
    · rintro (rfl | ⟨-, ⟨hle, hlt, hlen⟩ | ⟨heq, hglued⟩⟩)
      · exact ⟨hn, .inl ⟨le_rfl, hn, by omega⟩⟩
      · exact ⟨hn, .inl ⟨by omega, hlt, by omega⟩⟩
      · exact ⟨hn, .inr ⟨heq, hglued⟩⟩

/-- A word that is glued to a quote takes two elements, whatever `max` is. -/
theorem written_glued (hn : n < max) :
    Written max n (.glued :: .quoted :: lex) i ↔
      i = n ∨ i = n + 1 ∨ Written max (n + 2) lex i := by
  by_cases hlast : max - 1 - n = 0
  · have hmax : max = n + 1 := by omega
    subst hmax
    unfold Written
    simp
    omega
  · have hglued : Written max n (.glued :: .quoted :: lex) i ↔
        Written max n (.word :: .quoted :: lex) i := by
      obtain ⟨k, hk⟩ : ∃ k, max - 1 - n = k + 1 := ⟨max - 1 - n - 1, by omega⟩
      unfold Written
      simp only [hk, List.getElem?_cons_succ, List.length_cons]
    rw [hglued, written_cons hn (by simp), written_cons (by omega) (by simp)]

end Written

/-! ## A round -/

/-- The scan of a token goes over a bare word. -/
theorem scanToken_bare (delm quote : List Char) (max : Nat) (t : Tokens) (noDelm : Nat)
    (buf : List Char) :
    scanToken delm quote max t noDelm buf =
      match buf.dropWhile (isBare delm quote) with
      | [] => .gotToken t (noDelm + (buf.takeWhile (isBare delm quote)).length) []
      | c :: rest =>
        if delm.contains c then
          .gotToken t (noDelm + (buf.takeWhile (isBare delm quote)).length) (c :: rest)
        else scanQuoted c max t (noDelm + (buf.takeWhile (isBare delm quote)).length) rest := by
  induction buf generalizing noDelm with
  | nil => rfl
  | cons c buf ih =>
    unfold scanToken
    rw [List.dropWhile_cons, List.takeWhile_cons]
    unfold isBare
    cases hd : delm.contains c <;> cases hq : quote.contains c
    · simp only [Bool.not_false, Bool.and_self, if_true, Bool.false_eq_true, if_false, ih,
        List.length_cons]
      rw [show noDelm + 1 + (buf.takeWhile (isBare delm quote)).length =
        noDelm + ((buf.takeWhile (isBare delm quote)).length + 1) by omega]
      rfl
    all_goals
      simp only [Bool.not_false, Bool.not_true, Bool.and_false, Bool.false_and, Bool.and_self,
        Bool.false_eq_true, if_false, if_true, hd, List.length_nil, Nat.add_zero]

@[simp] theorem lexLoop_nil (delm quote : List Char) (rounds : Nat) :
    lexLoop delm quote rounds [] = [] := by
  cases rounds <;> simp [lexLoop]

theorem tokenizeLoop_stop {delm quote : List Char} {max rounds : Nat} {t : Tokens}
    {buf : List Char} (h : buf = [] ∨ max ≤ t.n) :
    tokenizeLoop delm quote max rounds t buf = ((t.n : Result), t) := by
  cases rounds with
  | zero => rfl
  | succ rounds => exact if_pos h

/-- The loop goes on behind a token, also where nothing is left. -/
theorem tokenizeLoop_follow {delm quote : List Char} {max rounds : Nat} (t : Tokens)
    (rest : List Char) :
    (if rest = [] then ((t.n : Result), t) else tokenizeLoop delm quote max rounds t rest) =
      tokenizeLoop delm quote max rounds t rest := by
  split_ifs with hnil
  · exact (tokenizeLoop_stop (.inl hnil)).symm
  · rfl

/-- What is stored in front of a quoted text: nothing, or the bare word that runs into the quote. -/
inductive Lead (t : Tokens) (text : List Char) : Tokens → List Lexeme → Prop
  | none : Lead t text (t.store text) [.quoted]
  | glued : Lead t text (t.store text).count [.glued, .quoted]

theorem Lead.of_bare (t : Tokens) (text bare : List Char) :
    Lead t text (if 0 < bare.length then (t.store text).count else t.store text)
      (if bare = [] then [.quoted] else [.glued, .quoted]) := by
  by_cases hb : bare = []
  · rw [if_pos hb, if_neg (by simp [hb])]
    exact .none
  · rw [if_neg hb, if_pos (List.length_pos_iff.mpr hb)]
    exact .glued

theorem lead_append (bare : List Char) (tail : List Lexeme) :
    (if bare = [] then Lexeme.quoted :: tail else Lexeme.glued :: Lexeme.quoted :: tail) =
      (if bare = [] then [.quoted] else [.glued, .quoted]) ++ tail := by
  split_ifs <;> rfl

/-- What a round makes of a buffer, with the lexemes of the buffer: `buf ++ …`, where `buf` has only
delimiters and bare characters. -/
inductive Round (delm quote : List Char) (max rounds fuel : Nat) (t : Tokens) :
    List Char → Result × Tokens → List Lexeme → Prop
  /-- Delimiters, and nothing else. -/
  | blank {buf : List Char} (hbuf : ∀ c ∈ buf, delm.contains c = true) :
    Round delm quote max rounds fuel t buf (t.n, t) []
  /-- A bare word. -/
  | word {buf rest : List Char} (text : List Char)
    (hbuf : ∀ c ∈ buf, delm.contains c = true ∨ isBare delm quote c = true)
    (hrest : rest.length ≤ fuel) :
    Round delm quote max rounds fuel t (buf ++ rest)
      (tokenizeLoop delm quote max rounds (t.store text).count rest)
      (.word :: lexLoop delm quote fuel rest)
  /-- A quote that is the last character. -/
  | lastQuote {buf : List Char} {c : Char} (text : List Char)
    (hbuf : ∀ c ∈ buf, delm.contains c = true ∨ isBare delm quote c = true)
    (hdelm : delm.contains c = false) (hquote : quote.contains c = true) :
    Round delm quote max rounds fuel t (buf ++ [c]) (Result.quoteNotClosed, t.store text) [.word]
  /-- A quote that is not closed. -/
  | openQuote {buf rest text : List Char} {c : Char} {t₂ : Tokens} {lead : List Lexeme}
    (hbuf : ∀ c ∈ buf, delm.contains c = true ∨ isBare delm quote c = true)
    (hdelm : delm.contains c = false) (hquote : quote.contains c = true) (hne : rest ≠ [])
    (hlead : Lead t text t₂ lead) (hskip : skipToUnquote c '\x00' false rest = none) :
    Round delm quote max rounds fuel t (buf ++ c :: rest)
      (Result.quoteNotClosed, t₂.store rest) lead
  /-- An escaped quote at the very end. -/
  | endQuote {buf rest text quoted : List Char} {c : Char} {t₂ t₃ : Tokens} {lead : List Lexeme}
    (hbuf : ∀ c ∈ buf, delm.contains c = true ∨ isBare delm quote c = true)
    (hdelm : delm.contains c = false) (hquote : quote.contains c = true) (hne : rest ≠ [])
    (hlead : Lead t text t₂ lead) (hskip : skipToUnquote c '\x00' false rest = some (quoted, []))
    (ht₃ : t₃ = (t₂.store quoted).count ∨ t₃ = t₂.store quoted) :
    Round delm quote max rounds fuel t (buf ++ c :: rest) (t₃.n, t₃) lead
  /-- A quote that is closed. -/
  | closedQuote {buf rest text quoted behind : List Char} {c q : Char} {t₂ : Tokens}
    {lead : List Lexeme}
    (hbuf : ∀ c ∈ buf, delm.contains c = true ∨ isBare delm quote c = true)
    (hdelm : delm.contains c = false) (hquote : quote.contains c = true) (hne : rest ≠ [])
    (hlead : Lead t text t₂ lead)
    (hskip : skipToUnquote c '\x00' false rest = some (quoted, q :: behind))
    (hbehind : behind.length ≤ fuel) :
    Round delm quote max rounds fuel t (buf ++ c :: rest)
      (tokenizeLoop delm quote max rounds (t₂.store quoted).count behind)
      (lead ++ lexLoop delm quote fuel behind)

/-- **One round.** -/
theorem tokenizeLoop_round (delm quote : List Char) {max : Nat} (rounds : Nat) {fuel : Nat}
    {t : Tokens} {buf : List Char} (hne : buf ≠ []) (hn : t.n < max)
    (hfuel : buf.length ≤ fuel + 1) :
    Round delm quote max rounds fuel t buf (tokenizeLoop delm quote max (rounds + 1) t buf)
      (lexLoop delm quote (fuel + 1) buf) := by
  have hstop : ¬(buf = [] ∨ max ≤ t.n) := by
    rintro (hnil | hmax)
    · exact hne hnil
    · omega
  have hlen := List.length_dropWhile_le delm.contains buf
  have hgap : ∀ c ∈ buf.takeWhile delm.contains, delm.contains c = true := fun _ hc =>
    List.mem_takeWhile_imp hc
  have hbuf := List.takeWhile_append_dropWhile (p := delm.contains) (l := buf)
  unfold tokenizeLoop
  rw [if_neg hstop]
  dsimp only
  simp only [lexLoop]
  generalize buf.takeWhile delm.contains = gap at hgap hbuf
  generalize buf.dropWhile delm.contains = word at hlen hbuf ⊢
  subst hbuf
  by_cases hblank : word = []
  · rw [if_pos hblank, if_pos hblank, hblank, List.append_nil]
    exact .blank hgap
  rw [if_neg hblank, if_neg hblank, scanToken_bare, Nat.zero_add]
  generalize (word.takeWhile fun c => !delm.contains c && !quote.contains c) = text
  have hbare : ∀ c ∈ word.takeWhile (isBare delm quote), isBare delm quote c = true :=
    fun _ hc => List.mem_takeWhile_imp hc
  have hwords := List.takeWhile_append_dropWhile (p := isBare delm quote) (l := word)
  have hhead := List.head?_dropWhile_not (isBare delm quote) word
  generalize word.takeWhile (isBare delm quote) = bare at hbare hwords ⊢
  generalize word.dropWhile (isBare delm quote) = behind at hwords hhead ⊢
  subst hwords
  have hfront : ∀ c ∈ gap ++ bare, delm.contains c = true ∨ isBare delm quote c = true :=
    fun c hc => (List.mem_append.mp hc).imp (hgap c) (hbare c)
  have hassoc : ∀ r, gap ++ (bare ++ r) = gap ++ bare ++ r := fun r => (List.append_assoc ..).symm
  rw [hassoc] at hfuel ⊢
  cases behind with
  | nil =>
    rw [List.append_nil] at hblank
    have hround : Round delm quote max rounds fuel t (gap ++ bare ++ [])
        (tokenizeLoop delm quote max rounds (t.store text).count [])
        (.word :: lexLoop delm quote fuel []) := .word text hfront (Nat.zero_le _)
    dsimp only
    rw [if_pos (List.length_pos_iff.mpr hblank)]
    rwa [tokenizeLoop_stop (.inl rfl), lexLoop_nil] at hround
  | cons c rest =>
    rw [List.length_append, List.length_append, List.length_cons] at hfuel
    have hrest : rest.length ≤ fuel := by omega
    cases hd : delm.contains c with
    | true =>
      dsimp only
      simp only [hd, if_true, tokenizeLoop_follow]
      rw [List.append_cons]
      refine .word text (fun c' hc' => ?_) hrest
      rcases List.mem_append.mp hc' with hc | hc
      · exact hfront c' hc
      · exact .inl (List.mem_singleton.mp hc ▸ hd)
    | false =>
      have hquote : quote.contains c = true := by
        have hnot : isBare delm quote c = false := hhead
        unfold isBare at hnot
        rw [hd] at hnot
        simpa using hnot
      dsimp only
      simp only [hd, Bool.false_eq_true, if_false]
      by_cases hend : rest = []
      · subst hend
        simp only [scanQuoted, if_true]
        exact .lastQuote text hfront hd hquote
      have hroom : ¬(0 < bare.length ∧ ¬(t.store text).n < max) := fun h => h.2 hn
      simp only [scanQuoted, if_neg hend, if_neg hroom]
      have hlead := Lead.of_bare t text bare
      rw [lead_append]
      generalize (if 0 < bare.length then (t.store text).count else t.store text) = t₂ at hlead ⊢
      generalize (if bare = [] then [Lexeme.quoted] else [.glued, .quoted]) = lead at hlead ⊢
      cases hskip : skipToUnquote c '\x00' false rest with
      | none =>
        dsimp only
        rw [List.append_nil]
        exact .openQuote hfront hd hquote hend hlead hskip
      | some closed =>
        obtain ⟨quoted, closing⟩ := closed
        have hskipLen := skipToUnquote_length hskip
        cases closing with
        | nil =>
          dsimp only
          rw [if_pos rfl, List.tail_nil, lexLoop_nil, List.append_nil]
          split_ifs
          · exact .endQuote hfront hd hquote hend hlead hskip (.inl rfl)
          · exact .endQuote hfront hd hquote hend hlead hskip (.inr rfl)
        | cons q behind =>
          rw [List.length_cons] at hskipLen
          dsimp only [List.tail_cons]
          rw [tokenizeLoop_follow]
          exact .closedQuote hfront hd hquote hend hlead hskip (by omega)

/-- The tokens in front of the quoted text, and the one of it. -/
theorem Lead.count {t t₂ : Tokens} {text : List Char} {lead : List Lexeme}
    (h : Lead t text t₂ lead) : t₂.n + 1 = t.n + lead.length := by
  cases h <;> rfl

theorem Lead.le {t t₂ : Tokens} {text : List Char} {lead : List Lexeme}
    (h : Lead t text t₂ lead) : t.n ≤ t₂.n := by
  cases h
  · exact le_rfl
  · exact Nat.le_succ _

/-- What is written in front of a quoted text, and the text. -/
theorem Lead.stored {t t₂ : Tokens} {text : List Char} {lead : List Lexeme} {max i : Nat}
    (h : Lead t text t₂ lead) (hn : t.n < max) (tail : List Lexeme) :
    t₂.Stored i ∨ i = t₂.n ∨ Written max (t₂.n + 1) tail i ↔
      t.Stored i ∨ Written max t.n (lead ++ tail) i := by
  cases h with
  | none =>
    show _ ↔ t.Stored i ∨ Written max t.n (.quoted :: tail) i
    rw [written_cons hn (by simp), Tokens.stored_store]
    show (i = t.n ∨ t.Stored i) ∨ i = t.n ∨ Written max (t.n + 1) tail i ↔ _
    rw [or_assoc, or_left_comm, or_self_left]
  | glued =>
    show _ ↔ t.Stored i ∨ Written max t.n (.glued :: .quoted :: tail) i
    rw [written_glued hn, Tokens.stored_count, Tokens.stored_store]
    show (i = t.n ∨ t.Stored i) ∨ i = t.n + 1 ∨ Written max (t.n + 2) tail i ↔ _
    rw [or_assoc, or_left_comm]

/-- **The stores of the loop.** They are at the places of the lexemes. -/
theorem tokenizeLoop_stored {delm quote : List Char} {max rounds fuel : Nat} {t : Tokens}
    {buf : List Char} (hrounds : max ≤ t.n + rounds) (hfuel : buf.length ≤ fuel) (i : Nat) :
    (tokenizeLoop delm quote max rounds t buf).2.Stored i ↔
      t.Stored i ∨ Written max t.n (lexLoop delm quote fuel buf) i := by
  induction rounds generalizing t buf fuel with
  | zero =>
    have hnot : ¬ Written max t.n (lexLoop delm quote fuel buf) i := fun h => by
      have := h.1
      omega
    simp [tokenizeLoop, hnot]
  | succ rounds ih =>
    by_cases hstop : buf = [] ∨ max ≤ t.n
    · have hnot : ¬ Written max t.n (lexLoop delm quote fuel buf) i := by
        rcases hstop with rfl | hmax
        · rw [lexLoop_nil]
          exact written_nil
        · exact fun h => by
            have := h.1
            omega
      rw [tokenizeLoop_stop hstop]
      simp [hnot]
    rw [not_or] at hstop
    have hn : t.n < max := by omega
    obtain ⟨fuel, rfl⟩ : ∃ k, fuel = k + 1 :=
      ⟨fuel - 1, by have := List.length_pos_iff.mpr hstop.1; omega⟩
    have hround := tokenizeLoop_round delm quote rounds hstop.1 hn hfuel
    generalize tokenizeLoop delm quote max (rounds + 1) t buf = r at hround ⊢
    generalize lexLoop delm quote (fuel + 1) buf = lex at hround ⊢
    cases hround with
    | blank _ => simp [written_nil]
    | word text _ hrest =>
      rw [ih (by show max ≤ t.n + 1 + rounds; omega) hrest, written_cons hn (by simp),
        Tokens.stored_count, Tokens.stored_store]
      show (i = t.n ∨ t.Stored i) ∨ Written max (t.n + 1) _ i ↔ _
      rw [or_assoc, or_left_comm]
    | lastQuote text _ _ _ =>
      rw [written_cons hn (by simp), Tokens.stored_store]
      simp only [written_nil, or_false]
      exact or_comm
    | openQuote _ _ _ _ hlead _ =>
      rw [← List.append_nil lex, ← hlead.stored hn [], Tokens.stored_store]
      simp only [written_nil, or_false]
      exact or_comm
    | endQuote _ _ _ _ hlead _ ht₃ =>
      rw [← List.append_nil lex, ← hlead.stored hn []]
      rcases ht₃ with rfl | rfl <;>
        simp only [Tokens.stored_count, Tokens.stored_store, written_nil, or_false] <;>
        exact or_comm
    | @closedQuote _ _ _ quoted _ _ _ t₂ _ _ _ _ _ hlead _ hbehind =>
      have hle := hlead.le
      have hmore : max ≤ (t₂.store quoted).count.n + rounds := by
        show max ≤ t₂.n + 1 + rounds
        omega
      rw [← hlead.stored hn, ih hmore hbehind, Tokens.stored_count, Tokens.stored_store]
      show (i = t₂.n ∨ t₂.Stored i) ∨ Written max (t₂.n + 1) _ i ↔ _
      rw [or_assoc, or_left_comm]

/-- **The stores.** They are at the places of the lexemes, up to `max`, and at `max` if the last of
these is glued to the next. -/
theorem strTokenizeQuote_stored (buf : List Char) (max : Nat) (delm quote : List Char) (i : Nat) :
    (strTokenizeQuote buf max delm quote).2.Stored i ↔
      Written max 0 (lexemes buf delm quote) i := by
  unfold strTokenizeQuote lexemes
  split_ifs
  · simp [Tokens.Stored, written_nil]
  · rw [tokenizeLoop_stored (by simp) le_rfl]
    simp [Tokens.Stored]

/-- **No store past the end.** Nothing is stored from the index `max` on, if and only if the last of
the first `max` tokens is not a bare word that runs into a quote. -/
theorem strTokenizeQuote_inside_iff {buf delm quote : List Char} {max : Nat} (hmax : 1 ≤ max) :
    (∀ e ∈ (strTokenizeQuote buf max delm quote).2.stores, e.1 < max) ↔
      (lexemes buf delm quote)[max - 1]? ≠ some .glued := by
  constructor
  · intro hall hglued
    have hwritten : Written max 0 (lexemes buf delm quote) max := ⟨hmax, .inr ⟨rfl, hglued⟩⟩
    obtain ⟨e, he, heq⟩ := (strTokenizeQuote_stored buf max delm quote max).mpr hwritten
    exact absurd (hall e he) (by omega)
  · intro hnot e he
    obtain ⟨-, ⟨-, hlt, -⟩ | ⟨-, hglued⟩⟩ :=
      (strTokenizeQuote_stored buf max delm quote e.1).mp ⟨e, he, rfl⟩
    · exact hlt
    · exact absurd hglued hnot

/-- Room for one word, and one word. -/
theorem strTokenizeQuote_inside_iff_one :
    (lexemes "a b\"c\"".toList " ".toList "\"".toList)[0]? ≠ some .glued ∧
      ∀ e ∈ (strTokenizeQuote "a b\"c\"".toList 1 " ".toList "\"".toList).2.stores, e.1 < 1 := by
  have h : (lexemes "a b\"c\"".toList " ".toList "\"".toList)[0]? ≠ some .glued := by decide
  exact ⟨h, (strTokenizeQuote_inside_iff le_rfl).mpr h⟩

/-- Room for one word, and a quote that follows a word without a space. -/
theorem strTokenizeQuote_overrun :
    (1, "b".toList) ∈ (strTokenizeQuote "a\"b\"".toList 1 " ".toList "\"".toList).2.stores := by
  decide

end StrUtils
end Gallus
