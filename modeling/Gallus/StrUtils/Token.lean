import Gallus.StrUtils.Parse

/-!
# Words of a line (`strutils.c`)

`gallus_str_tokenize_quote` writes a NUL behind each word of the buffer and stores a pointer to the
word in the caller's array. `gallus_str_unescape` takes the backslashes off a word.

* The rest of the buffer behind the pointer `buf` is the list of its characters. Nothing in front of
  `buf` is read again, but the character before it, `prev`.
* The stores into the caller's array are listed with their index, the latest first, and with the
  text of the word. A store past the end of the array is listed like the others.
* `strUnescape_length`: the text without backslashes is not longer.
-/

namespace Gallus
namespace StrUtils

/-- `strcasecmp(a, b) == 0`. -/
def strcasecmpEq (a b : List Char) : Bool := a.map tolower == b.map tolower

/-! ## Words -/

/-- The count of the tokens so far, and the stores into the array of the tokens. -/
structure Tokens where
  n : Nat
  stores : List (Nat × List Char)
  deriving DecidableEq, Repr

namespace Tokens

/-- `tokens[n] = buf`, where `text` is the text up to the next NUL. -/
def store (t : Tokens) (text : List Char) : Tokens := { t with stores := (t.n, text) :: t.stores }

/-- `n++`. -/
def count (t : Tokens) : Tokens := { t with n := t.n + 1 }

end Tokens

/-- Skip to the unquote point: the text up to it, and the rest of the buffer from it on. There is
none if `strchr`, which has passed a character already if `searching`, finds no closing quote. -/
def skipToUnquote (curQuote : Char) : Char → Bool → List Char → Option (List Char × List Char)
  | _, searching, [] => if searching then none else some ([], [])
  | prev, _, c :: buf =>
    if c = curQuote then
      if prev = '\\' then
        (skipToUnquote curQuote c false buf).map fun (text, rest) => (c :: text, rest)
      else some ([], c :: buf)
    else (skipToUnquote curQuote c true buf).map fun (text, rest) => (c :: text, rest)

/-- How the scan of a token ends. -/
inductive Scan
  /-- `goto done`, with the return value. -/
  | done (n : Result) (t : Tokens)
  /-- `got_token`, with `no_delm` and the rest of the buffer. -/
  | gotToken (t : Tokens) (noDelm : Nat) (buf : List Char)

/-- The quoted part behind the quote `curQuote`. -/
def scanQuoted (curQuote : Char) (max : Nat) (t : Tokens) (noDelm : Nat) (buf : List Char) : Scan :=
  if buf = [] then .done Result.quoteNotClosed t
  else if 0 < noDelm ∧ ¬ t.n < max then .done t.n t
  else
    let t := if 0 < noDelm then t.count else t
    match skipToUnquote curQuote '\x00' false buf with
    | none => .done Result.quoteNotClosed (t.store buf)
    | some (text, rest) => .gotToken (t.store text) (if rest = [] then noDelm else 1) rest

/-- The loop over the characters of a token. -/
def scanToken (delm quote : List Char) (max : Nat) (t : Tokens) : Nat → List Char → Scan
  | noDelm, [] => .gotToken t noDelm []
  | noDelm, c :: buf =>
    if delm.contains c then .gotToken t noDelm (c :: buf)
    else if quote.contains c then scanQuoted c max t noDelm buf
    else scanToken delm quote max t (noDelm + 1) buf

/-- The loop over the tokens. Each round counts one, so that `max` rounds are enough. -/
def tokenizeLoop (delm quote : List Char) (max : Nat) :
    Nat → Tokens → List Char → Result × Tokens
  | 0, t, _ => (t.n, t)
  | rounds + 1, t, buf =>
    if buf = [] ∨ max ≤ t.n then (t.n, t)
    else
      let buf := buf.dropWhile delm.contains
      if buf = [] then (t.n, t)
      else
        let text := buf.takeWhile fun c => !delm.contains c && !quote.contains c
        match scanToken delm quote max (t.store text) 0 buf with
        | .done n t => (n, t)
        | .gotToken t noDelm [] => if 0 < noDelm then (t.count.n, t.count) else (t.n, t)
        | .gotToken t _ (_ :: buf) =>
          if buf = [] then (t.count.n, t.count)
          else tokenizeLoop delm quote max rounds t.count buf

/-- `gallus_str_tokenize_quote`: the return value, and the stores into `tokens`. -/
def strTokenizeQuote (buf : List Char) (max : Nat) (delm quote : List Char) : Result × Tokens :=
  if buf = [] ∨ delm = [] ∨ quote = [] then (Result.invalidArgs, ⟨0, []⟩)
  else tokenizeLoop delm quote max max ⟨0, []⟩ buf

/-- `tokens[i]` after the call. -/
def Tokens.get (t : Tokens) (i : Nat) : Option (List Char) := t.stores.lookup i

/-! ## Backslashes -/

/-- The loop of `gallus_str_unescape`. -/
def unescapeLoop (escaped : List Char) : Bool → List Char → List Char
  | _, [] => []
  | true, c :: org =>
    if escaped.contains c then c :: unescapeLoop escaped false org
    else if c = '\\' then '\\' :: '\\' :: unescapeLoop escaped false org
    else '\\' :: c :: unescapeLoop escaped false org
  | false, c :: org =>
    if c = '\\' then unescapeLoop escaped true org else c :: unescapeLoop escaped false org

/-- `gallus_str_unescape`: the return value, and `*retptr` after the call, with `none` for
`NULL`. -/
def strUnescape (org escaped : List Char) (retptr : Option (List Char)) :
    Result × Option (List Char) :=
  if org = [] ∨ escaped = [] then (Result.invalidArgs, retptr)
  else
    let l := org.length
    let first := org.getD 0 '\x00'
    let last := org.getD (l - 1) '\x00'
    if ¬ escaped.contains first ∧
        (¬ escaped.contains last ∨
          2 ≤ l ∧ escaped.contains last ∧ org.getD (l - 2) '\x00' = '\\') then
      let buf := unescapeLoop escaped false org
      (buf.length, if 0 < buf.length then some buf else none)
    else (Result.invalidArgs, none)

theorem unescapeLoop_length (escaped : List Char) (gotBs : Bool) (org : List Char) :
    (unescapeLoop escaped gotBs org).length ≤ org.length + (if gotBs then 1 else 0) := by
  induction org generalizing gotBs with
  | nil => simp [unescapeLoop]
  | cons c org ih =>
    have hplain := ih false
    have hescaped := ih true
    simp only [Bool.false_eq_true, if_false, if_true] at hplain hescaped
    cases gotBs <;> simp only [unescapeLoop] <;> split_ifs <;>
      simp only [List.length_cons] <;> omega

/-- The text without backslashes is not empty, and not longer than the word. -/
theorem strUnescape_length {org escaped : List Char} {retptr : Option (List Char)} {r : Result}
    {text : Option (List Char)} (h : strUnescape org escaped retptr = (r, text)) (hr : 0 < r) :
    ∃ buf, text = some buf ∧ buf ≠ [] ∧ buf.length ≤ org.length := by
  unfold strUnescape at h
  dsimp only at h
  split_ifs at h <;> cases h
  · exact absurd hr (by decide)
  · rename_i hpos
    have hlen := unescapeLoop_length escaped false org
    exact ⟨_, rfl, List.ne_nil_of_length_pos hpos, by simpa using hlen⟩
  · rename_i hnot
    exact absurd (by exact_mod_cast hr) hnot
  · exact absurd hr (by decide)

/-! ## The length of the words -/

theorem skipToUnquote_length {curQuote prev : Char} {searching : Bool} {buf text rest : List Char}
    (h : skipToUnquote curQuote prev searching buf = some (text, rest)) :
    text.length + rest.length = buf.length := by
  induction buf generalizing prev searching text with
  | nil =>
    unfold skipToUnquote at h
    split_ifs at h
    cases h
    rfl
  | cons c buf ih =>
    have hrec : ∀ {b : Bool}, (skipToUnquote curQuote c b buf).map
        (fun x : List Char × List Char => (c :: x.1, x.2)) = some (text, rest) →
        text.length + rest.length = (c :: buf).length := by
      intro b hb
      obtain ⟨⟨text', rest'⟩, hskip, heq⟩ := Option.map_eq_some_iff.mp hb
      cases heq
      have hlen : text'.length + rest'.length = buf.length := ih hskip
      simp only [List.length_cons]
      omega
    unfold skipToUnquote at h
    split_ifs at h
    · exact hrec h
    · cases h
      simp
    · exact hrec h

/-- No stored text is longer than `len`. -/
def Tokens.Within (len : Nat) (t : Tokens) : Prop := ∀ e ∈ t.stores, e.2.length ≤ len

theorem Tokens.Within.store {len : Nat} {t : Tokens} {text : List Char} (h : t.Within len)
    (ht : text.length ≤ len) : (t.store text).Within len := by
  intro e he
  rcases List.mem_cons.mp he with rfl | he
  · exact ht
  · exact h e he

theorem Tokens.Within.count {len : Nat} {t : Tokens} (h : t.Within len) : t.count.Within len := h

/-- What the scan of a token leaves. -/
def Scan.Within (len : Nat) : Scan → Prop
  | .done _ t => t.Within len
  | .gotToken t _ buf => t.Within len ∧ buf.length ≤ len

theorem scanQuoted_within {curQuote : Char} {max noDelm len : Nat} {t : Tokens} {buf : List Char}
    (h : t.Within len) (hbuf : buf.length ≤ len) :
    (scanQuoted curQuote max t noDelm buf).Within len := by
  have hcount : (if 0 < noDelm then t.count else t).Within len := by
    split_ifs
    · exact h.count
    · exact h
  unfold scanQuoted
  generalize (if 0 < noDelm then t.count else t) = t' at hcount ⊢
  split_ifs
  · exact h
  · exact h
  all_goals
    dsimp only
    split
    · exact hcount.store hbuf
    · rename_i text rest hskip
      have := skipToUnquote_length hskip
      exact ⟨hcount.store (by omega), by omega⟩

theorem scanToken_within {delm quote : List Char} {max noDelm len : Nat} {t : Tokens}
    {buf : List Char} (h : t.Within len) (hbuf : buf.length ≤ len) :
    (scanToken delm quote max t noDelm buf).Within len := by
  induction buf generalizing noDelm with
  | nil => exact ⟨h, hbuf⟩
  | cons c buf ih =>
    have hrest : buf.length ≤ len := by
      simp only [List.length_cons] at hbuf
      omega
    unfold scanToken
    split_ifs
    · exact ⟨h, hbuf⟩
    · exact scanQuoted_within h hrest
    · exact ih hrest

theorem tokenizeLoop_within {delm quote : List Char} {max rounds len : Nat} {t : Tokens}
    {buf : List Char} (h : t.Within len) (hbuf : buf.length ≤ len) :
    (tokenizeLoop delm quote max rounds t buf).2.Within len := by
  induction rounds generalizing t buf with
  | zero => exact h
  | succ rounds ih =>
    unfold tokenizeLoop
    split_ifs
    · exact h
    · dsimp only
      split_ifs
      · exact h
      · have hdrop : (buf.dropWhile delm.contains).length ≤ len :=
          (List.length_dropWhile_le _ _).trans hbuf
        have hscan : Scan.Within len (scanToken delm quote max (t.store
            ((buf.dropWhile delm.contains).takeWhile
              fun c => !delm.contains c && !quote.contains c)) 0 (buf.dropWhile delm.contains)) :=
          scanToken_within (h.store ((List.takeWhile_sublist _).length_le.trans hdrop)) hdrop
        split
        · rename_i hr
          rw [hr] at hscan
          exact hscan
        · rename_i hr
          rw [hr] at hscan
          split_ifs
          · exact hscan.1.count
          · exact hscan.1
        · rename_i hr
          rw [hr] at hscan
          obtain ⟨ht, hlen⟩ := hscan
          simp only [List.length_cons] at hlen
          split_ifs
          · exact ht.count
          · exact ih ht.count (by omega)

/-- A word of a line is not longer than the line. -/
theorem strTokenizeQuote_within (buf : List Char) (max : Nat) (delm quote : List Char) :
    (strTokenizeQuote buf max delm quote).2.Within buf.length := by
  unfold strTokenizeQuote
  split_ifs
  · simp [Tokens.Within]
  · exact tokenizeLoop_within (by simp [Tokens.Within]) le_rfl

theorem Tokens.Within.get {len i : Nat} {t : Tokens} {text : List Char} (h : t.Within len)
    (hi : t.get i = some text) : text.length ≤ len := by
  unfold Tokens.get at hi
  rw [List.lookup_eq_some_iff] at hi
  obtain ⟨before, after, heq, -⟩ := hi
  exact h (i, text) (by simp [heq])

example : (strTokenizeQuote "allow issuer \"a \\\" b\"c".toList 1024 "\t\r\n ".toList
    "\"'".toList).1 = 4 := by decide

end StrUtils
end Gallus
