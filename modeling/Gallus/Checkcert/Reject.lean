import Gallus.Checkcert.Verdict

/-!
# Lines that are refused (`session_checkcert.c`)

`s_parse_line` sets `s_allow_selfsigned` as soon as it comes to a word on self-signed certificates,
and creates the pair of the line only at the end, if all of it is accepted. A line of too many words
is refused when it has been stored in `tokens`, and over the end of it.

* `readLine`: `s_parse_line` with its answer on the line, for any outcome of its allocations. It has
  none for a line that runs over the end of `tokens`. `readLine_parseLine`: for any other line, if
  they succeed, it is `parseLine`.
* `Reaches`: the loop comes to such a word, through patterns that it accepts.
* `rejected_unchanged_iff`: a line that is refused leaves the checker as it was exactly if it fits
  into `tokens`, and the loop does not come to such a word or the permission was already what the
  word says.
-/

namespace Gallus
namespace Checkcert

open StrUtils

variable {ρ : Type}

/-- The allocations of `s_parse_line` that succeed: the copy of the line, the two patterns, and what
the pair is made of. -/
structure Memory where
  line : Bool
  issuer : Bool
  subject : Bool
  pair : Bool

def Memory.all : Memory := ⟨true, true, true, true⟩

/-- The words that the loop knows. -/
inductive Keyword
  | selfSigned | issuer | subject
  deriving DecidableEq, Repr

/-- The comparisons of a word, in the order of the loop. -/
def keyword (tp : List Char) : Option Keyword :=
  if strcasecmpEq tp "self-signed".toList ∨ strcasecmpEq tp "selfsigned".toList then
    some .selfSigned
  else if strcasecmpEq tp "issuer".toList then some .issuer
  else if strcasecmpEq tp "subject".toList then some .subject
  else none

/-- The pattern behind `issuer` or `subject`, if it can be taken: what becomes of the string `old`.
-/
def takePattern (memory : Bool) (old : Option (List Char)) (tp : List Char) :
    Option (Option (List Char)) :=
  if isValidString old = false then
    if isValidString (some tp) = true then
      let (n, pat) := strUnescape tp quotes old
      if 0 < n ∧ memory = true then some pat else none
    else none
  else none

/-- The loop of `s_parse_line`: whether it came to the end. -/
def readWords (mem : Memory) (perm : ConnPermission) :
    LineVars → List (List Char) → LineVars × Bool
  | v, [] => (v, true)
  | v, tp :: words =>
    match keyword tp with
    | some .selfSigned =>
      readWords mem perm { v with allowSelfsigned := decide (perm = .allow) } words
    | some .issuer =>
      match words with
      | [] => (v, false)
      | tp :: words =>
        match takePattern mem.issuer v.issuer tp with
        | some issuer => readWords mem perm { v with issuer, doCreate := true } words
        | none => (v, false)
    | some .subject =>
      match words with
      | [] => (v, false)
      | tp :: words =>
        match takePattern mem.subject v.subject tp with
        | some subject => readWords mem perm { v with subject, doCreate := true } words
        | none => (v, false)
    | none => (v, false)

/-- What a line is, before the loop. -/
inductive LineHead
  | refused
  /-- It is copied, and runs over the end of `tokens`. -/
  | overrun
  /-- No word, or a comment. -/
  | empty
  /-- The permission and the words behind it. -/
  | words (perm : ConnPermission) (words : List (List Char))
  deriving DecidableEq

/-- `s_parse_line` before the loop. -/
def lineHead (mem : Memory) (line : List Char) : LineHead :=
  if line = [] ∨ mem.line = false then .refused
  else if ¬LineFits line then .overrun
  else
    let (n, t) := strTokenizeQuote line 1024 delimiters quotes
    if 0 < n then
      if n < 16 then
        match tokenList t n with
        | [] => .empty
        | tp :: words =>
          if tp.head? ≠ some '#' then
            if 1 < n then
              if permission tp ≠ .unknown then .words (permission tp) words else .refused
            else .refused
          else .empty
      else .refused
    else if n < 0 then .refused
    else .empty

/-- What `s_parse_line` leaves behind: `isok`, `do_create`, the pair and `s_allow_selfsigned`. -/
structure LineAnswer (ρ : Type) where
  isok : Bool
  doCreate : Bool
  pair : Option (PatternPair ρ)
  allowSelfsigned : Bool

/-- `s_parse_line`, with `none` if nothing is known of what it leaves behind. -/
def readLine (R : Outside ρ) (mem : Memory) (line : List Char) (allowSelfsigned : Bool) :
    Option (LineAnswer ρ) :=
  match lineHead mem line with
  | .refused => some ⟨false, false, none, allowSelfsigned⟩
  | .overrun => none
  | .empty => some ⟨true, false, none, allowSelfsigned⟩
  | .words perm words =>
    let (v, isok) := readWords mem perm ⟨allowSelfsigned, none, none, false⟩ words
    some
      { isok
        doCreate := v.doCreate
        pair := if isok = true ∧ v.doCreate = true ∧ mem.pair = true then
          createPair R perm v.issuer v.subject else none
        allowSelfsigned := v.allowSelfsigned }

/-- The line is accepted as a whole: no word of it is wrong, and its pair, if it has one, can be
created. -/
def LineAnswer.Accepted (a : LineAnswer ρ) : Prop :=
  a.isok = true ∧ (a.doCreate = true → a.pair.isSome = true)

instance (a : LineAnswer ρ) : Decidable a.Accepted :=
  inferInstanceAs (Decidable (_ ∧ (_ → _)))

/-- The body of the loop of `s_load_config` for a line that is not too long. -/
def addLine (R : Outside ρ) (mem : Memory) (line : List Char) (c : Checker ρ) :
    Option (Checker ρ) :=
  (readLine R mem line c.allowSelfsigned).map fun a =>
    { c with patTbl := c.patTbl ++ a.pair.toList, allowSelfsigned := a.allowSelfsigned }

/-! ## With memory for everything -/

theorem readWords_parseWords (perm : ConnPermission) (v : LineVars) (words : List (List Char)) :
    (readWords .all perm v words).2 = (parseWords perm v words).2 ∧
      (readWords .all perm v words).1.allowSelfsigned =
        (parseWords perm v words).1.allowSelfsigned ∧
      ((parseWords perm v words).2 = true →
        (readWords .all perm v words).1 = (parseWords perm v words).1) := by
  fun_induction parseWords perm v words <;> rw [readWords.eq_def]
  case case1 => exact ⟨rfl, rfl, fun _ => rfl⟩
  case case2 ih | case4 ih | case9 ih =>
    simp only [keyword, takePattern, Memory.all, *, if_true, if_false, and_self]
    exact ⟨ih.1, ih.2.1, ih.2.2⟩
  case case7 v tp words _ _ _ | case12 v tp words _ _ _ _ =>
    simp only [keyword, takePattern, *, if_true, if_false, Bool.false_eq_true]
    cases words <;> simp
  all_goals
    simp only [keyword, takePattern, Memory.all, *, if_true, if_false, false_and,
      Bool.false_eq_true]
    simp

/-- If there is memory for everything, this is the parser of the checker. -/
theorem readLine_parseLine (R : Outside ρ) {line : List Char} (hfits : LineFits line) (a : Bool) :
    (readLine R .all line a).map (fun r => (r.pair, r.allowSelfsigned)) =
      some (parseLine R line a) := by
  unfold readLine parseLine lineHead
  by_cases hline : line = []
  · simp [hline]
  have hnot := not_not_intro hfits
  rw [if_neg (by simp [hline, Memory.all]), if_neg hline, if_neg hnot, if_neg hnot]
  generalize strTokenizeQuote line 1024 delimiters quotes = d
  obtain ⟨n, t⟩ := d
  dsimp only
  by_cases hn : 0 < n ∧ n < 16
  · rw [if_pos hn, if_pos hn.1, if_pos hn.2]
    cases tokenList t n with
    | nil => rfl
    | cons tp words =>
      dsimp only
      by_cases hcond : tp.head? ≠ some '#' ∧ 1 < n ∧ permission tp ≠ .unknown
      · rw [if_pos hcond.1, if_pos hcond.2.1, if_pos hcond.2.2, if_pos hcond]
        obtain ⟨hok, hflag, hsame⟩ :=
          readWords_parseWords (permission tp) ⟨a, none, none, false⟩ words
        dsimp only
        rw [Option.map_some, hok, hflag, Option.some.injEq, Prod.mk.injEq]
        refine ⟨?_, rfl⟩
        by_cases hisok : (parseWords (permission tp) ⟨a, none, none, false⟩ words).2 = true
        · rw [hsame hisok, hisok]
          simp only [Memory.all, and_true, true_and]
        · simp only [hisok, false_and, if_false, Bool.false_eq_true]
      · rw [if_neg hcond]
        split_ifs with hcomment hone hperm
        · exact absurd ⟨hcomment, hone, hperm⟩ hcond
        all_goals rfl
  · rw [if_neg hn]
    by_cases hpos : 0 < n
    · rw [if_pos hpos, if_neg fun hlt => hn ⟨hpos, hlt⟩]
      rfl
    · rw [if_neg hpos]
      split_ifs <;> rfl

/-! ## The words -/

/-- The loop comes to a word on self-signed certificates, from the patterns `issuer` and `subject`
on. -/
inductive Reaches (mem : Memory) :
    Option (List Char) → Option (List Char) → List (List Char) → Prop
  | word {issuer subject tp words} (hkey : keyword tp = some .selfSigned) :
      Reaches mem issuer subject (tp :: words)
  | issuer {issuer issuer' subject tp pat words} (hkey : keyword tp = some .issuer)
      (htake : takePattern mem.issuer issuer pat = some issuer')
      (hrest : Reaches mem issuer' subject words) : Reaches mem issuer subject (tp :: pat :: words)
  | subject {issuer subject subject' tp pat words} (hkey : keyword tp = some .subject)
      (htake : takePattern mem.subject subject pat = some subject')
      (hrest : Reaches mem issuer subject' words) : Reaches mem issuer subject (tp :: pat :: words)

section Words

variable {mem : Memory} {perm : ConnPermission} {v : LineVars} {words : List (List Char)}

/-- Once it is what such a word says, the permission stays. -/
theorem readWords_stays (h : v.allowSelfsigned = decide (perm = .allow)) :
    (readWords mem perm v words).1.allowSelfsigned = decide (perm = .allow) := by
  fun_induction readWords mem perm v words with
  | case1 | case3 | case5 | case6 | case8 | case9 => exact h
  | case2 v tp words hkey ih => exact ih rfl
  | case4 v tp hkey pat words issuer htake ih => exact ih h
  | case7 v tp hkey pat words subject htake ih => exact ih h

theorem readWords_reaches (h : Reaches mem v.issuer v.subject words) :
    (readWords mem perm v words).1.allowSelfsigned = decide (perm = .allow) := by
  obtain ⟨flag, issuer, subject, doCreate⟩ := v
  dsimp only at h
  induction h generalizing doCreate with
  | word hkey =>
    rw [readWords.eq_def]
    simp only [hkey]
    exact readWords_stays rfl
  | issuer hkey htake hrest ih =>
    rw [readWords.eq_def]
    simp only [hkey, htake]
    exact ih true
  | subject hkey htake hrest ih =>
    rw [readWords.eq_def]
    simp only [hkey, htake]
    exact ih true

theorem readWords_same (h : ¬Reaches mem v.issuer v.subject words) :
    (readWords mem perm v words).1.allowSelfsigned = v.allowSelfsigned := by
  fun_induction readWords mem perm v words with
  | case1 | case3 | case5 | case6 | case8 | case9 => rfl
  | case2 v tp words hkey ih => exact absurd (.word hkey) h
  | case4 v tp hkey pat words issuer htake ih => exact ih fun hrest => h (.issuer hkey htake hrest)
  | case7 v tp hkey pat words subject htake ih =>
    exact ih fun hrest => h (.subject hkey htake hrest)

end Words

/-! ## Lines -/

theorem lineHead_overrun_iff (mem : Memory) (line : List Char) :
    lineHead mem line = .overrun ↔ mem.line = true ∧ ¬LineFits line := by
  unfold lineHead
  by_cases hline : line = []
  · subst hline
    simp [show LineFits [] by decide]
  by_cases hmem : mem.line = true
  · by_cases hfits : LineFits line
    · rw [if_neg (by simp [hline, hmem]), if_neg (not_not_intro hfits)]
      refine iff_of_false ?_ fun h => h.2 hfits
      generalize strTokenizeQuote line 1024 delimiters quotes = d
      obtain ⟨n, t⟩ := d
      dsimp only
      cases tokenList t n <;> dsimp only <;> split_ifs <;> rintro ⟨⟩
    · simp [hline, hmem, hfits]
  · simp [hmem]

section Answers

variable {R : Outside ρ} {mem : Memory} {line : List Char} {c : Checker ρ} {a : LineAnswer ρ}

/-- What the words make of the permission. -/
theorem readLine_words {perm : ConnPermission} {words : List (List Char)}
    (hhead : lineHead mem line = .words perm words)
    (ha : readLine R mem line c.allowSelfsigned = some a) :
    (a.pair.isSome = true → a.isok = true) ∧ a.allowSelfsigned =
      (readWords mem perm ⟨c.allowSelfsigned, none, none, false⟩ words).1.allowSelfsigned := by
  rw [readLine, hhead] at ha
  cases ha
  refine ⟨fun hsome => ?_, rfl⟩
  by_contra hisok
  rw [if_neg fun hcond => hisok hcond.1] at hsome
  cases hsome

/-- A line that is refused adds no pair. -/
theorem addLine_unchanged_iff (ha : readLine R mem line c.allowSelfsigned = some a)
    (h : ¬a.Accepted) : addLine R mem line c = some c ↔ a.allowSelfsigned = c.allowSelfsigned := by
  have hpair : a.pair = none := by
    by_contra hne
    have hsome := Option.isSome_iff_ne_none.mpr hne
    cases hhead : lineHead mem line with
    | overrun => simp [readLine, hhead] at ha
    | refused | empty =>
      rw [readLine, hhead] at ha
      cases ha
      exact hne rfl
    | words perm words => exact h ⟨(readLine_words hhead ha).1 hsome, fun _ => hsome⟩
  obtain ⟨patTbl, pats, nPats, filename, lastOpen, flag⟩ := c
  simp only [addLine, ha, Option.map_some, hpair, Option.toList_none, List.append_nil,
    Option.some.injEq, Checker.mk.injEq, true_and]

end Answers

/-- **Lines that are refused.** Whatever is wrong with a line, it leaves the checker as it was
exactly if its words fit into `tokens`, once it has been copied, and the loop does not come to a
word on self-signed certificates before, or the permission was what this word says. -/
theorem rejected_unchanged_iff (R : Outside ρ) (mem : Memory) (line : List Char) (c : Checker ρ)
    (h : ∀ a ∈ readLine R mem line c.allowSelfsigned, ¬a.Accepted) :
    addLine R mem line c = some c ↔
      (mem.line = true → (lexemes line delimiters quotes).length ≤ tokensSize) ∧
        ∀ perm words, lineHead mem line = .words perm words →
          Reaches mem none none words → c.allowSelfsigned = decide (perm = .allow) := by
  have hfits : (mem.line = true → (lexemes line delimiters quotes).length ≤ tokensSize) ↔
      lineHead mem line ≠ .overrun := by
    rw [Ne, lineHead_overrun_iff, not_and_not_right]
    rfl
  rw [hfits]
  cases ha : readLine R mem line c.allowSelfsigned with
  | none =>
    have hover : lineHead mem line = .overrun := by
      cases hhead : lineHead mem line <;> simp [readLine, hhead] at ha ⊢
    simp [addLine, ha, hover]
  | some a =>
    rw [addLine_unchanged_iff ha (h a ha)]
    cases hhead : lineHead mem line with
    | overrun => simp [readLine, hhead] at ha
    | refused | empty =>
      rw [readLine, hhead] at ha
      cases ha
      exact iff_of_true rfl ⟨by rintro ⟨⟩, by rintro _ _ ⟨⟩⟩
    | words perm words =>
      rw [(readLine_words hhead ha).2]
      by_cases hreach : Reaches mem none none words
      · rw [readWords_reaches (v := ⟨c.allowSelfsigned, none, none, false⟩) hreach]
        constructor
        · rintro heq
          refine ⟨by rintro ⟨⟩, ?_⟩
          rintro _ _ ⟨⟩ -
          exact heq.symm
        · rintro ⟨-, hall⟩
          exact (hall perm words rfl hreach).symm
      · rw [readWords_same (v := ⟨c.allowSelfsigned, none, none, false⟩) hreach]
        refine iff_of_true rfl ⟨by rintro ⟨⟩, ?_⟩
        rintro _ _ ⟨⟩ hreach'
        exact absurd hreach' hreach

/-- A checker that permits nothing. -/
def emptyChecker : Checker (List Char) := (System.init fun _ => none).checker

/-- An issuer without a pattern. -/
theorem rejected_unchanged_issuer :
    (∀ a ∈ readLine prefixRegex .all "allow issuer".toList emptyChecker.allowSelfsigned,
      ¬a.Accepted) ∧
      addLine prefixRegex .all "allow issuer".toList emptyChecker = some emptyChecker := by
  have hrefused : ∀ a ∈ readLine prefixRegex .all "allow issuer".toList
      emptyChecker.allowSelfsigned, ¬a.Accepted := by decide +kernel
  refine ⟨hrefused, (rejected_unchanged_iff _ _ _ _ hrefused).mpr
    ⟨fun _ => by decide +kernel, fun perm words hhead => ?_⟩⟩
  have hwords : lineHead .all "allow issuer".toList = .words .allow ["issuer".toList] := by
    decide +kernel
  cases hwords.symm.trans hhead
  rintro (hkey | _)
  exact absurd hkey (by decide)

/-- A word that the loop does not know, behind the one that sets the permission. -/
theorem rejected_changes_bogus :
    (∀ a ∈ readLine prefixRegex .all "allow self-signed bogus".toList
      emptyChecker.allowSelfsigned, ¬a.Accepted) ∧
    emptyChecker.allowSelfsigned = false ∧
    (addLine prefixRegex .all "allow self-signed bogus".toList emptyChecker).map
      Checker.allowSelfsigned = some true := by
  decide +kernel

end Checkcert
end Gallus
