import Gallus.StrUtils.Lexeme

/-!
# Quotes that are not closed (`strutils.c`)

* `leftOpen`: the quote that is left open, and the text behind it, in a scan from the left. A quote
  is closed by the next one of its kind that has no backslash before it.
* `strTokenizeQuote_notClosed`: when the tokenizer reports one. It looks for delimiters before it
  looks for quotes, and takes an escaped quote at the very end as a closing one.
* `strTokenizeQuote_notClosed_iff`: when this is what the scan finds.
-/

namespace Gallus
namespace StrUtils

/-! ## The scan -/

/-- The scan of a text, within the quote `q` with the text `behind` it, or outside. -/
def scanQuotes (quotes : List Char) :
    Option (Char × List Char) → List Char → Option (Char × List Char)
  | st, [] => st
  | none, c :: s => scanQuotes quotes (if quotes.contains c then some (c, []) else none) s
  | some (q, behind), c :: s =>
    if c = q ∧ behind.getLast? ≠ some '\\' then scanQuotes quotes none s
    else scanQuotes quotes (some (q, behind ++ [c])) s

/-- The quote that is left open, and the text behind it. -/
def leftOpen (quotes buf : List Char) : Option (Char × List Char) := scanQuotes quotes none buf

/-- The quotes that are not delimiters. -/
def pureQuotes (delm quote : List Char) : List Char := quote.filter fun c => !delm.contains c

/-- What the tokenizer takes for a quote that is not closed: one that is left open, and not at an
escaped quote at the very end. -/
def ReportsOpen (delm quote buf : List Char) : Prop :=
  ∃ q behind, leftOpen (pureQuotes delm quote) buf = some (q, behind) ∧ behind.getLast? ≠ some q

section Scan

variable {quotes s s' : List Char} {q c : Char} {behind : List Char}

theorem scanQuotes_append (st : Option (Char × List Char)) :
    scanQuotes quotes st (s ++ s') = scanQuotes quotes (scanQuotes quotes st s) s' := by
  induction s generalizing st with
  | nil =>
    rw [List.nil_append]
    cases st <;> rfl
  | cons c s ih =>
    rw [List.cons_append]
    match st with
    | none => simp only [scanQuotes, ih]
    | some (q, behind) =>
      simp only [scanQuotes]
      split_ifs <;> exact ih _

/-- A text without quotes opens none. -/
theorem scanQuotes_plain (h : ∀ c ∈ s, quotes.contains c = false) :
    scanQuotes quotes none s = none := by
  induction s with
  | nil => rfl
  | cons c s ih =>
    rw [scanQuotes, h c List.mem_cons_self, if_neg Bool.false_ne_true]
    exact ih fun c hc => h c (List.mem_cons_of_mem _ hc)

theorem scanQuotes_open (hc : quotes.contains c = true) :
    scanQuotes quotes none (c :: s) = scanQuotes quotes (some (c, [])) s := by
  rw [scanQuotes, if_pos hc]

end Scan

/-- What a skip through `buf`, after `behind` of the quote's text, says of the scan. -/
def Scanned (quotes : List Char) (q : Char) (behind buf : List Char) :
    Option (List Char × List Char) → Prop
  | none => scanQuotes quotes (some (q, behind)) buf = some (q, behind ++ buf) ∧
      (behind ++ buf).getLast? ≠ some q
  | some (_, []) => scanQuotes quotes (some (q, behind)) buf = some (q, behind ++ buf) ∧
      (behind ++ buf).getLast? = some q
  | some (_, _ :: rest) => scanQuotes quotes (some (q, behind)) buf = leftOpen quotes rest

/-- The skip to the unquote point, beside the scan. -/
theorem skipToUnquote_scan (quotes : List Char) (q : Char) {prev : Char} (searching : Bool)
    {behind buf : List Char} (hprev : prev = '\\' ↔ behind.getLast? = some '\\')
    (hsearching : behind = [] ∨ (searching = true ↔ behind.getLast? ≠ some q))
    (hempty : behind = [] → buf ≠ []) :
    Scanned quotes q behind buf (skipToUnquote q prev searching buf) := by
  induction buf generalizing prev searching behind with
  | nil =>
    have hlast := hsearching.resolve_left fun hnil => hempty hnil rfl
    rw [← List.append_nil behind] at hlast
    have hscan : scanQuotes quotes (some (q, behind)) [] = some (q, behind ++ []) := by
      rw [List.append_nil]
      rfl
    unfold skipToUnquote
    cases searching
    · exact ⟨hscan, by simpa using hlast⟩
    · exact ⟨hscan, hlast.mp rfl⟩
  | cons c buf ih =>
    -- The character is behind the quote, and the skip goes on.
    have hstep : ∀ searching', (searching' = true ↔ c ≠ q) → ¬(c = q ∧ prev ≠ '\\') →
        Scanned quotes q behind (c :: buf)
          ((skipToUnquote q c searching' buf).map fun x => (c :: x.1, x.2)) := by
      intro searching' hsearching' hstays
      have hscan : scanQuotes quotes (some (q, behind)) (c :: buf) =
          scanQuotes quotes (some (q, behind ++ [c])) buf := by
        rw [scanQuotes, if_neg]
        rwa [Ne, ← hprev]
      have hprev' : c = '\\' ↔ (behind ++ [c]).getLast? = some '\\' := by simp
      have hsearching'' : behind ++ [c] = [] ∨
          (searching' = true ↔ (behind ++ [c]).getLast? ≠ some q) :=
        .inr (by simpa using hsearching')
      have hrest := ih searching' hprev' hsearching'' (by simp)
      have hmove : behind ++ c :: buf = behind ++ [c] ++ buf := by simp
      cases hskip : skipToUnquote q c searching' buf with
      | none =>
        rw [hskip] at hrest
        simpa only [Scanned, Option.map_none, hscan, hmove] using hrest
      | some closed =>
        obtain ⟨text, rest⟩ := closed
        rw [hskip] at hrest
        cases rest <;> simpa only [Scanned, Option.map_some, hscan, hmove] using hrest
    unfold skipToUnquote
    by_cases hc : c = q
    · rw [if_pos hc]
      by_cases hp : prev = '\\'
      · rw [if_pos hp]
        exact hstep false (by simp [hc]) (by simp [hp])
      · rw [if_neg hp]
        show scanQuotes quotes (some (q, behind)) (c :: buf) = leftOpen quotes buf
        rw [scanQuotes, if_pos ⟨hc, fun hb => hp (hprev.mpr hb)⟩]
        rfl
    · rw [if_neg hc]
      exact hstep true (by simp [hc]) (by simp [hc])

/-! ## The tokenizer -/

section Tokenizer

variable {delm quote : List Char}

theorem contains_pureQuotes (c : Char) :
    (pureQuotes delm quote).contains c = (quote.contains c && !delm.contains c) := by
  rw [Bool.eq_iff_iff]
  simp [pureQuotes]

/-- A text of delimiters and bare characters opens no quote. -/
theorem scanQuotes_pure {s : List Char}
    (h : ∀ c ∈ s, delm.contains c = true ∨ isBare delm quote c = true) :
    scanQuotes (pureQuotes delm quote) none s = none := by
  refine scanQuotes_plain fun c hc => ?_
  rw [contains_pureQuotes]
  rcases h c hc with hd | hb
  · rw [hd, Bool.not_true, Bool.and_false]
  · unfold isBare at hb
    rw [Bool.and_eq_true] at hb
    rw [show quote.contains c = false by simpa using hb.2, Bool.false_and]

/-- The report of a text that begins with such characters is that of the rest. -/
theorem reportsOpen_append {s s' : List Char}
    (h : ∀ c ∈ s, delm.contains c = true ∨ isBare delm quote c = true) :
    ReportsOpen delm quote (s ++ s') ↔ ReportsOpen delm quote s' := by
  unfold ReportsOpen leftOpen
  rw [scanQuotes_append, scanQuotes_pure h]

theorem not_reportsOpen {s : List Char}
    (h : ∀ c ∈ s, delm.contains c = true ∨ isBare delm quote c = true) :
    ¬ ReportsOpen delm quote s := by
  rintro ⟨q, behind, hopen, -⟩
  rw [leftOpen, scanQuotes_pure h] at hopen
  contradiction

/-- A text without a lexeme consists of delimiters. -/
theorem lexLoop_eq_nil {fuel : Nat} {buf : List Char} (hfuel : buf.length ≤ fuel)
    (h : lexLoop delm quote fuel buf = []) : ∀ c ∈ buf, delm.contains c = true := by
  cases fuel with
  | zero =>
    rw [List.length_eq_zero_iff.mp (Nat.le_zero.mp hfuel)]
    exact fun c hc => absurd hc List.not_mem_nil
  | succ fuel =>
    by_cases hblank : buf.dropWhile delm.contains = []
    · exact fun c hc => List.dropWhile_eq_nil_iff.mp hblank c hc
    · simp only [lexLoop, if_neg hblank] at h
      split at h
      · contradiction
      · split_ifs at h

theorem count_ne_quoteNotClosed (n : Nat) : (n : Result) ≠ Result.quoteNotClosed := by
  intro h
  have hpos : (0 : Result) ≤ n := Int.natCast_nonneg n
  rw [h] at hpos
  exact absurd hpos (by decide)

/-- The scan of a text behind a quote that is no delimiter. -/
theorem leftOpen_quote {c : Char} {rest : List Char} (hdelm : delm.contains c = false)
    (hquote : quote.contains c = true) :
    leftOpen (pureQuotes delm quote) (c :: rest) =
      scanQuotes (pureQuotes delm quote) (some (c, [])) rest := by
  refine scanQuotes_open ?_
  rw [contains_pureQuotes, hdelm, hquote]
  rfl

/-- The report of a text that begins with a quote, by the skip to its unquote point. -/
theorem reportsOpen_quote {c : Char} {rest : List Char} (hdelm : delm.contains c = false)
    (hquote : quote.contains c = true) (hne : rest ≠ []) :
    match skipToUnquote c '\x00' false rest with
    | none => ReportsOpen delm quote (c :: rest)
    | some (_, []) => ¬ReportsOpen delm quote (c :: rest)
    | some (_, _ :: behind) =>
      ReportsOpen delm quote (c :: rest) ↔ ReportsOpen delm quote behind := by
  have hprev : '\x00' = '\\' ↔ ([] : List Char).getLast? = some '\\' := by decide
  have hscan := skipToUnquote_scan (pureQuotes delm quote) c false hprev (.inl rfl) fun _ => hne
  have hleft : leftOpen _ (c :: rest) = _ := leftOpen_quote hdelm hquote
  cases hskip : skipToUnquote c '\x00' false rest with
  | none =>
    rw [hskip] at hscan
    exact ⟨c, rest, hleft.trans hscan.1, hscan.2⟩
  | some closed =>
    obtain ⟨quoted, closing⟩ := closed
    rw [hskip] at hscan
    cases closing with
    | nil =>
      rintro ⟨q, behind, hopen, hlast⟩
      rw [hleft.trans hscan.1, Option.some.injEq, Prod.mk.injEq] at hopen
      obtain ⟨rfl, rfl⟩ := hopen
      exact hlast hscan.2
    | cons q behind =>
      unfold ReportsOpen
      rw [hleft.trans hscan]

/-- **The loop.** It reports the quote that is left open, if there is room for the tokens. -/
theorem tokenizeLoop_notClosed {max rounds fuel : Nat} {t : Tokens} {buf : List Char}
    (hrounds : max ≤ t.n + rounds) (hfuel : buf.length ≤ fuel)
    (hfit : t.n + (lexLoop delm quote fuel buf).length ≤ max) :
    (tokenizeLoop delm quote max rounds t buf).1 = Result.quoteNotClosed ↔
      ReportsOpen delm quote buf := by
  induction rounds generalizing t buf fuel with
  | zero =>
    have hnil : lexLoop delm quote fuel buf = [] := List.length_eq_zero_iff.mp (by omega)
    simp only [tokenizeLoop, count_ne_quoteNotClosed, false_iff]
    exact not_reportsOpen fun c hc => .inl (lexLoop_eq_nil hfuel hnil c hc)
  | succ rounds ih =>
    by_cases hstop : buf = [] ∨ max ≤ t.n
    · have hnil : lexLoop delm quote fuel buf = [] := by
        rcases hstop with rfl | hmax
        · exact lexLoop_nil ..
        · exact List.length_eq_zero_iff.mp (by omega)
      rw [tokenizeLoop_stop hstop]
      simp only [count_ne_quoteNotClosed, false_iff]
      exact not_reportsOpen fun c hc => .inl (lexLoop_eq_nil hfuel hnil c hc)
    rw [not_or] at hstop
    have hn : t.n < max := by omega
    obtain ⟨fuel, rfl⟩ : ∃ k, fuel = k + 1 :=
      ⟨fuel - 1, by have := List.length_pos_iff.mpr hstop.1; omega⟩
    have hround := tokenizeLoop_round delm quote rounds hstop.1 hn hfuel
    generalize tokenizeLoop delm quote max (rounds + 1) t buf = r at hround ⊢
    generalize lexLoop delm quote (fuel + 1) buf = lex at hround hfit
    cases hround with
    | blank hbuf =>
      simp only [count_ne_quoteNotClosed, false_iff]
      exact not_reportsOpen fun c hc => .inl (hbuf c hc)
    | word text hbuf hrest =>
      have hmore : max ≤ (t.store text).count.n + rounds := by
        show max ≤ t.n + 1 + rounds
        omega
      rw [List.length_cons] at hfit
      rw [reportsOpen_append hbuf]
      refine ih hmore hrest ?_
      show t.n + 1 + _ ≤ max
      omega
    | @lastQuote _ c text hbuf hdelm hquote =>
      rw [reportsOpen_append hbuf]
      exact iff_of_true rfl ⟨c, [], leftOpen_quote hdelm hquote, by simp⟩
    | openQuote hbuf hdelm hquote hne _ hskip =>
      have hreport := reportsOpen_quote hdelm hquote hne
      rw [hskip] at hreport
      rw [reportsOpen_append hbuf]
      exact iff_of_true rfl hreport
    | endQuote hbuf hdelm hquote hne _ hskip _ =>
      have hreport := reportsOpen_quote hdelm hquote hne
      rw [hskip] at hreport
      rw [reportsOpen_append hbuf]
      exact iff_of_false (count_ne_quoteNotClosed _) hreport
    | @closedQuote _ _ _ quoted _ _ _ t₂ _ hbuf hdelm hquote hne hlead hskip hbehind =>
      have hreport := reportsOpen_quote hdelm hquote hne
      rw [hskip] at hreport
      dsimp only at hreport
      rw [reportsOpen_append hbuf, hreport]
      rw [List.length_append] at hfit
      have hcount := hlead.count
      have hle := hlead.le
      refine ih ?_ hbehind ?_
      · show max ≤ t₂.n + 1 + rounds
        omega
      · show t₂.n + 1 + _ ≤ max
        omega

end Tokenizer

/-- **The report.** With room for the tokens, it is about a quote that is no delimiter. -/
theorem strTokenizeQuote_notClosed {buf delm quote : List Char} {max : Nat}
    (hfit : (lexemes buf delm quote).length ≤ max) :
    (strTokenizeQuote buf max delm quote).1 = Result.quoteNotClosed ↔
      delm ≠ [] ∧ ReportsOpen delm quote buf := by
  unfold strTokenizeQuote
  unfold lexemes at hfit
  by_cases hinvalid : buf = [] ∨ delm = [] ∨ quote = []
  · rw [if_pos hinvalid]
    constructor
    · intro h
      exact absurd h (by decide)
    · rintro ⟨hdelm, hopen⟩
      rcases hinvalid with rfl | rfl | rfl
      · exact absurd hopen (not_reportsOpen fun c hc => absurd hc List.not_mem_nil)
      · exact absurd rfl hdelm
      · refine absurd hopen (not_reportsOpen fun c _ => ?_)
        cases hd : delm.contains c
        · exact .inr (by simp only [isBare, hd]; rfl)
        · exact .inl rfl
  · rw [if_neg hinvalid] at hfit ⊢
    rw [tokenizeLoop_notClosed (by simp) le_rfl (by simpa using hfit)]
    exact ⟨fun h => ⟨fun hd => hinvalid (.inr (.inl hd)), h⟩, And.right⟩

/-! ## What the scan finds -/

/-- The text is not one of those that the tokenizer takes another way.

Without delimiters it refuses every text, so that only one without an open quote is regular. A quote
that is also a delimiter opens nothing: the scan for the other quotes has to leave one open exactly
if the scan for all of them does. And an escaped quote at the very end is taken as a closing one:
behind the open quote, the text must not end so, unless the scan for all quotes leaves none open. -/
def Regular (delm quote buf : List Char) : Prop :=
  if delm = [] then leftOpen quote buf = none
  else
    match leftOpen (pureQuotes delm quote) buf with
    | none => leftOpen quote buf = none
    | some (q, behind) =>
      if behind.getLast? = some q then leftOpen quote buf = none else leftOpen quote buf ≠ none

instance (delm quote buf : List Char) : Decidable (Regular delm quote buf) := by
  unfold Regular
  split_ifs
  · infer_instance
  · split
    · infer_instance
    · split_ifs <;> infer_instance

/-- Where no quote is a delimiter, only an escaped quote at the very end is taken another way. -/
theorem regular_iff {delm quote buf : List Char} (hdelm : delm ≠ [])
    (hdisjoint : ∀ c ∈ quote, delm.contains c = false) :
    Regular delm quote buf ↔
      ∀ q behind, leftOpen quote buf = some (q, behind) → behind.getLast? ≠ some q := by
  have hpure : pureQuotes delm quote = quote :=
    List.filter_eq_self.mpr fun c hc => by rw [hdisjoint c hc]; rfl
  unfold Regular
  rw [if_neg hdelm, hpure]
  cases hopen : leftOpen quote buf with
  | none => simp
  | some x =>
    obtain ⟨q, behind⟩ := x
    by_cases hlast : behind.getLast? = some q
    · simp [hlast]
    · simp [hlast]

/-- **When it is the scan.** With room for the tokens, the tokenizer reports a quote that is not
closed if and only if the scan finds one, for the regular texts and for no other. -/
theorem strTokenizeQuote_notClosed_iff {buf delm quote : List Char} {max : Nat}
    (hfit : (lexemes buf delm quote).length ≤ max) :
    ((strTokenizeQuote buf max delm quote).1 = Result.quoteNotClosed ↔
        leftOpen quote buf ≠ none) ↔ Regular delm quote buf := by
  rw [strTokenizeQuote_notClosed hfit]
  unfold Regular ReportsOpen
  by_cases hdelm : delm = []
  · simp [hdelm]
  · rw [if_neg hdelm]
    cases hopen : leftOpen (pureQuotes delm quote) buf with
    | none => simp
    | some x =>
      obtain ⟨q, behind⟩ := x
      by_cases hlast : behind.getLast? = some q
      · simp [hlast, hdelm]
      · simp [hlast, hdelm]

/-- A quote that another kind of quote is within, and room for two words. -/
theorem strTokenizeQuote_notClosed_iff_nested :
    (strTokenizeQuote "a \"b 'c".toList 2 " ".toList "\"'".toList).1 = Result.quoteNotClosed ∧
      leftOpen "\"'".toList "a \"b 'c".toList = some ('"', "b 'c".toList) := by
  have hopen : leftOpen "\"'".toList "a \"b 'c".toList = some ('"', "b 'c".toList) := by decide
  refine ⟨(strTokenizeQuote_notClosed_iff (by decide)).mpr (by decide) |>.mpr ?_, hopen⟩
  rw [hopen]
  exact Option.some_ne_none _

/-- An escaped quote at the very end. It does not close, and the text is taken for a word. -/
theorem strTokenizeQuote_escaped_end :
    (lexemes "\"a\\\"".toList " ".toList "\"".toList).length ≤ 1 ∧
      leftOpen "\"".toList "\"a\\\"".toList = some ('"', "a\\\"".toList) ∧
      (strTokenizeQuote "\"a\\\"".toList 1 " ".toList "\"".toList).1 = 0 := by
  decide

end StrUtils
end Gallus
