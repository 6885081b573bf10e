import Gallus.Checkcert.Config
import Gallus.Lib.Rules
import Mathlib.Data.Int.Order.Basic
import Mathlib.Data.List.Sort

/-!
# The verdict on a certificate

A deny pair that matches wins over every allow pair, since its score is higher: the patterns of an
allow pair come from one line of the file, which is shorter than the offset of the deny pairs.

* `Matches`: each pattern that a pair has matches.
* `Made`: what holds of the pairs that `s_parse_line` makes.
* `Loaded`: the array is the sorted table, and the table has the pairs of the file.
* `check_verdict`: the decision in terms of the pairs of the file.
-/

namespace Gallus
namespace Checkcert

open StrUtils Rules

variable {ρ : Type} {R : Outside ρ}

/-! ## Pairs -/

/-- Each pattern that the pair has matches. -/
def PatternPair.Matches (R : Outside ρ) (p : PatternPair ρ) (issuer subject : List Char) : Prop :=
  (∀ pat, p.issuer = some pat → ∃ r, R.regcomp pat = some r ∧ R.regexec r issuer = true) ∧
    ∀ pat, p.subject = some pat → ∃ r, R.regcomp pat = some r ∧ R.regexec r subject = true

/-- One of the pairs with the permission `perm` matches. -/
def AnyMatches (R : Outside ρ) (perm : ConnPermission) (pairs : List (PatternPair ρ))
    (issuer subject : List Char) : Prop :=
  ∃ p ∈ pairs, p.perm = perm ∧ p.Matches R issuer subject

/-- The pairs that `s_parse_line` makes of the lines of a file. -/
structure PatternPair.Made (R : Outside ρ) (p : PatternPair ρ) : Prop where
  perm : p.perm = .allow ∨ p.perm = .deny
  issuer : ∀ pat, p.issuer = some pat → pat ≠ [] ∧ p.issuerRex.isSome ∧ p.issuerRex = R.regcomp pat
  subject : ∀ pat, p.subject = some pat →
    pat ≠ [] ∧ p.subjectRex.isSome ∧ p.subjectRex = R.regcomp pat
  some : p.issuer.isSome ∨ p.subject.isSome
  allow : p.perm = .allow → p.cmplen < denyOffset
  deny : p.perm = .deny → denyOffset ≤ p.cmplen

/-- What `s_check` decides, if anything. -/
def verdict (R : Outside ρ) (issuer subject : Option (List Char)) (p : PatternPair ρ) :
    Option ConnPermission :=
  if check R p issuer subject = .unknown then none else some (check R p issuer subject)

theorem isValidString_some {s : List Char} (h : s ≠ []) : isValidString (some s) = true := by
  cases s with
  | nil => contradiction
  | cons c s => rfl

theorem isValidString_iff {s : Option (List Char)} :
    isValidString s = true ↔ ∃ t, s = some t ∧ t ≠ [] := by
  rcases s with - | - | ⟨c, s⟩ <;> simp [isValidString]

theorem rexMatches_iff {rex : Option ρ} {pat s : List Char} (hsome : rex.isSome)
    (hrex : rex = R.regcomp pat) :
    rexMatches R rex (some s) = true ↔ ∃ r, R.regcomp pat = some r ∧ R.regexec r s = true := by
  obtain ⟨r, hr⟩ := Option.isSome_iff_exists.mp hsome
  rw [← hrex, hr]
  simp [rexMatches]

open Classical in
/-- `s_check` gives the permission of a pair that matches. -/
theorem check_eq {p : PatternPair ρ} (h : p.Made R) {issuer subject : List Char}
    (hissuer : issuer ≠ []) (hsubject : subject ≠ []) :
    check R p (some issuer) (some subject) =
      if p.Matches R issuer subject then p.perm else .unknown := by
  have hi := isValidString_some hissuer
  have hs := isValidString_some hsubject
  have hnone : isValidString none = false := rfl
  unfold check PatternPair.Matches
  cases hpi : p.issuer with
  | none =>
    cases hps : p.subject with
    | none => exact absurd h.some (by simp [hpi, hps])
    | some ps =>
      obtain ⟨hne, hsome, hrex⟩ := h.subject ps hps
      have hmatch := rexMatches_iff (s := subject) hsome hrex
      simp [hnone, isValidString_some hne, hs, hmatch]
  | some pi =>
    obtain ⟨hne, hsome, hrex⟩ := h.issuer pi hpi
    have hmatch := rexMatches_iff (s := issuer) hsome hrex
    cases hps : p.subject with
    | none => simp [hnone, isValidString_some hne, hi, hmatch]
    | some ps =>
      obtain ⟨hne', hsome', hrex'⟩ := h.subject ps hps
      have hmatch' := rexMatches_iff (s := subject) hsome' hrex'
      simp [isValidString_some hne, isValidString_some hne', hi, hs, hmatch, hmatch']

theorem verdict_eq_some_iff {p : PatternPair ρ} (h : p.Made R) {issuer subject : List Char}
    (hissuer : issuer ≠ []) (hsubject : subject ≠ []) {v : ConnPermission} :
    verdict R (some issuer) (some subject) p = some v ↔
      p.Matches R issuer subject ∧ p.perm = v := by
  unfold verdict
  rw [check_eq h hissuer hsubject]
  rcases h.perm with hp | hp <;> by_cases hm : p.Matches R issuer subject <;> simp [hm, hp]

/-! ## The scan -/

theorem scanPats_eq (issuer subject : Option (List Char)) (pats : List (PatternPair ρ)) :
    scanPats R issuer subject pats =
      if firstMatch (verdict R issuer subject) pats = some .allow then Result.ok
      else Result.notAllowed := by
  induction pats with
  | nil => rfl
  | cons p pats ih =>
    unfold scanPats
    cases hc : check R p issuer subject <;> simp [firstMatch, verdict, hc, ih]

theorem perm_of_verdict {issuer subject : Option (List Char)} {p : PatternPair ρ}
    {v : ConnPermission} (h : verdict R issuer subject p = some v) : p.perm = v := by
  have hcheck : check R p issuer subject = .unknown ∨ check R p issuer subject = p.perm := by
    unfold check
    split_ifs <;> simp
  unfold verdict at h
  split_ifs at h with hunknown
  cases h
  exact (hcheck.resolve_left hunknown).symm

/-- Pairs with different verdicts have different scores. -/
theorem separated_of_made {pats : List (PatternPair ρ)} (h : ∀ p ∈ pats, p.Made R)
    (issuer subject : Option (List Char)) :
    Separated (verdict R issuer subject) PatternPair.cmplen pats := by
  intro p hp q hq v v' hv hv' hne heq
  cases perm_of_verdict hv
  cases perm_of_verdict hv'
  rcases (h p hp).perm with ha | hd <;> rcases (h q hq).perm with ha' | hd'
  · exact hne (ha.trans ha'.symm)
  · have hlt := (h p hp).allow ha
    have hle := (h q hq).deny hd'
    omega
  · have hle := (h p hp).deny hd
    have hlt := (h q hq).allow ha'
    omega
  · exact hne (hd.trans hd'.symm)

theorem descending_of_sorted {pats : List (PatternPair ρ)}
    (h : pats.Pairwise fun p₀ p₁ => cmpProc p₀ p₁ ≤ 0) :
    Descending PatternPair.cmplen pats := by
  refine h.imp ?_
  intro p₀ p₁ hle
  unfold cmpProc at hle
  omega

/-- The first match of the scan: a deny pair if one matches, else an allow pair. -/
theorem scanPats_ok_iff {pats : List (PatternPair ρ)} (hmade : ∀ p ∈ pats, p.Made R)
    (hsorted : Descending PatternPair.cmplen pats) {issuer subject : List Char}
    (hissuer : issuer ≠ []) (hsubject : subject ≠ []) :
    scanPats R (some issuer) (some subject) pats = Result.ok ↔
      AnyMatches R .allow pats issuer subject ∧ ¬ AnyMatches R .deny pats issuer subject := by
  have hiff : ∀ p ∈ pats, ∀ v, verdict R (some issuer) (some subject) p = some v ↔
      p.Matches R issuer subject ∧ p.perm = v := fun p hp v =>
    verdict_eq_some_iff (hmade p hp) hissuer hsubject
  have hsep := separated_of_made hmade (some issuer) (some subject)
  have hok : scanPats R (some issuer) (some subject) pats = Result.ok ↔
      firstMatch (verdict R (some issuer) (some subject)) pats = some .allow := by
    rw [scanPats_eq]
    split_ifs with h <;> simp [h, Result.ok, Result.notAllowed]
  rw [hok, firstMatch_eq_some_iff hsorted hsep]
  constructor
  · rintro ⟨p, hp, hv, hover⟩
    obtain ⟨hm, hperm⟩ := (hiff p hp _).mp hv
    refine ⟨⟨p, hp, hperm, hm⟩, ?_⟩
    rintro ⟨q, hq, hdeny, hmq⟩
    have hlt := hover q hq .deny ((hiff q hq _).mpr ⟨hmq, hdeny⟩) (by simp)
    have := (hmade p hp).allow hperm
    have := (hmade q hq).deny hdeny
    omega
  · rintro ⟨⟨p, hp, hperm, hm⟩, hnone⟩
    refine ⟨p, hp, (hiff p hp _).mpr ⟨hm, hperm⟩, fun q hq v' hv' hne => ?_⟩
    obtain ⟨hmq, hpq⟩ := (hiff q hq _).mp hv'
    rcases (hmade q hq).perm with ha | hd
    · exact absurd (hpq.symm.trans ha) hne
    · exact absurd ⟨q, hq, hd, hmq⟩ hnone

/-! ## The pairs of a line -/

theorem compile_of_valid {pat : List Char} (h : pat ≠ []) :
    compile R (some pat) = R.regcomp pat := if_pos (isValidString_some h)

theorem patternLen_le {pat : Option (List Char)} {len : Nat}
    (h : ∀ t, pat = some t → t.length ≤ len) :
    0 ≤ patternLen pat ∧ patternLen pat ≤ len := by
  unfold patternLen
  split_ifs with hvalid
  · obtain ⟨t, rfl, -⟩ := isValidString_iff.mp hvalid
    have := h t rfl
    simp only [Option.getD_some]
    omega
  · omega

theorem createPair_made {perm : ConnPermission} {issuer subject : Option (List Char)} {len : Nat}
    {p : PatternPair ρ} (hperm : perm = .allow ∨ perm = .deny)
    (hvalid : isValidString issuer = true ∨ isValidString subject = true)
    (hissuer : ∀ t, issuer = some t → t.length ≤ len)
    (hsubject : ∀ t, subject = some t → t.length ≤ len) (hlen : 2 * (len : Int) < denyOffset)
    (h : createPair R perm issuer subject = some p) : p.Made R := by
  obtain ⟨hi₀, hi⟩ := patternLen_le hissuer
  obtain ⟨hs₀, hs⟩ := patternLen_le hsubject
  have hpattern : ∀ {pat : Option (List Char)} {t : List Char},
      ¬ (isValidString pat = true ∧ (compile R pat).isNone = true) →
      (if isValidString pat = true then pat else none) = some t →
      t ≠ [] ∧ (compile R pat).isSome = true ∧ compile R pat = R.regcomp t := by
    intro pat t hcomp hpat
    split_ifs at hpat with hv
    obtain ⟨t', rfl, hne⟩ := isValidString_iff.mp hv
    cases hpat
    have hsome : (compile R (some t)).isSome = true := by
      rw [Option.isSome_iff_ne_none]
      exact fun hn => hcomp ⟨hv, by rw [hn]; rfl⟩
    exact ⟨hne, hsome, compile_of_valid hne⟩
  have hvalid' : ∀ {pat : Option (List Char)}, isValidString pat = true →
      (if isValidString pat = true then pat else none).isSome = true := by
    intro pat hv
    obtain ⟨t, rfl, -⟩ := isValidString_iff.mp hv
    rw [if_pos hv, Option.isSome_some]
  unfold createPair at h
  rw [if_pos (by rcases hperm with h | h <;> simp [h])] at h
  dsimp only at h
  split at h
  · cases h
  rename_i hri
  split at h
  · cases h
  rename_i hrs
  cases Option.some.inj h
  refine ⟨hperm, fun _ => hpattern hri, fun _ => hpattern hrs, hvalid.imp hvalid' hvalid', ?_, ?_⟩
  · rintro (rfl : perm = .allow)
    have hsum := Int.add_le_add hi hs
    rw [← Int.two_mul] at hsum
    exact Int.lt_of_le_of_lt hsum hlen
  · rintro (rfl : perm = .deny)
    exact Int.le_add_of_nonneg_left (Int.add_nonneg hi₀ hs₀)

/-- The patterns are not longer than `len`, and there is one if a pair is to be created. -/
structure LineVars.Within (len : Nat) (v : LineVars) : Prop where
  issuer : ∀ t, v.issuer = some t → t.length ≤ len
  subject : ∀ t, v.subject = some t → t.length ≤ len
  valid : v.doCreate = true → isValidString v.issuer = true ∨ isValidString v.subject = true

theorem parseWords_within {perm : ConnPermission} {v : LineVars} {words : List (List Char)}
    {len : Nat} (hv : v.Within len) (hwords : ∀ w ∈ words, w.length ≤ len)
    (hok : (parseWords perm v words).2 = true) : (parseWords perm v words).1.Within len := by
  have htail : ∀ {w : List Char} {words : List (List Char)}, (∀ x ∈ w :: words, x.length ≤ len) →
      ∀ x ∈ words, x.length ≤ len := fun h x hx => h x (List.mem_cons_of_mem _ hx)
  have hpattern : ∀ {tp : List Char} {old pat : Option (List Char)} {n : Result},
      strUnescape tp quotes old = (n, pat) → 0 < n → tp.length ≤ len →
      (∀ t, pat = some t → t.length ≤ len) ∧ isValidString pat = true := by
    intro tp old pat n hun hn hlen
    obtain ⟨buf, rfl, hne, hle⟩ := strUnescape_length hun hn
    refine ⟨fun t ht => ?_, isValidString_some hne⟩
    cases ht
    exact hle.trans hlen
  fun_induction parseWords perm v words
  case case1 => exact hv
  case case2 v tp words hself ih => exact ih ⟨hv.issuer, hv.subject, hv.valid⟩ (htail hwords) hok
  case case4 v tp hself hissuer hgiven pat words hpat n issuer hun hn ih =>
    obtain ⟨hlen, hvalid⟩ := hpattern hun hn (hwords pat (by simp))
    exact ih ⟨hlen, hv.subject, fun _ => .inl hvalid⟩ (htail (htail hwords)) hok
  case case9 v tp hself hissuer hsubject hgiven pat words hpat n subject hun hn ih =>
    obtain ⟨hlen, hvalid⟩ := hpattern hun hn (hwords pat (by simp))
    exact ih ⟨hv.issuer, hlen, fun _ => .inr hvalid⟩ (htail (htail hwords)) hok
  all_goals exact absurd hok (by simp)

/-- The words of a line. -/
theorem tokenList_length {line : List Char} {max : Nat} {delm quote : List Char} {n : Result} :
    ∀ w ∈ tokenList (strTokenizeQuote line max delm quote).2 n, w.length ≤ line.length := by
  intro w hw
  unfold tokenList at hw
  obtain ⟨i, -, rfl⟩ := List.mem_map.mp hw
  cases hget : (strTokenizeQuote line max delm quote).2.get i with
  | none => simp
  | some text => exact (strTokenizeQuote_within line max delm quote).get hget

/-- The pair of a line. -/
theorem parseLine_made {line : List Char} {allowSelfsigned : Bool} {p : PatternPair ρ}
    (hfits : LineFits line) (hlen : 2 * (line.length : Int) < denyOffset)
    (h : (parseLine R line allowSelfsigned).1 = some p) : p.Made R := by
  unfold parseLine at h
  rw [if_neg (not_not_intro hfits)] at h
  split_ifs at h
  have hwords : ∀ n, ∀ w ∈ tokenList (strTokenizeQuote line 1024 delimiters quotes).2 n,
      w.length ≤ line.length := fun n => tokenList_length
  generalize strTokenizeQuote line 1024 delimiters quotes = d at h hwords
  obtain ⟨n, t⟩ := d
  dsimp only at h hwords
  split_ifs at h
  split at h
  · cases h
  rename_i tp words htokens
  split_ifs at h with hcond hcreate
  have hvars : LineVars.Within line.length ⟨allowSelfsigned, none, none, false⟩ :=
    ⟨by simp, by simp, by simp⟩
  have hrest : ∀ w ∈ words, w.length ≤ line.length := fun w hw =>
    hwords n w (htokens ▸ List.mem_cons_of_mem _ hw)
  obtain ⟨hissuer, hsubject, hvalid⟩ := parseWords_within hvars hrest hcreate.1
  refine createPair_made ?_ (hvalid hcreate.2) hissuer hsubject hlen h
  have hperm := hcond.2.2
  unfold permission at hperm ⊢
  split_ifs at hperm ⊢ <;> simp_all

/-! ## The pairs of a file -/

/-- The pair of a piece of the file. -/
def linePair (R : Outside ρ) (buf : List Char) : Option (PatternPair ρ) :=
  if bufSize - 1 ≤ (cString buf).length then none else (parseLine R (cString buf) false).1

/-- The pairs of a file. -/
def filePairs (R : Outside ρ) (content : Content) : List (PatternPair ρ) :=
  (fgetsLoop [] content.text).filterMap (linePair R)

theorem linePair_made {buf : List Char} {p : PatternPair ρ} (hfits : PieceFits buf)
    (h : linePair R buf = some p) : p.Made R := by
  unfold linePair at h
  split_ifs at h with hlong
  refine parseLine_made (hfits (not_le.mp hlong)) ?_ h
  rw [bufSize] at hlong
  rw [denyOffset]
  omega

theorem filePairs_made {content : Content} : ∀ p ∈ filePairs R content, p.Made R := by
  intro p hp
  obtain ⟨buf, hmem, hbuf⟩ := List.mem_filterMap.mp hp
  exact linePair_made (content.fits buf hmem) hbuf

/-- What the words of a line do to `s_allow_selfsigned`: nothing, or they set it to a value. The
rest does not depend on it. -/
theorem parseWords_selfsigned (perm : ConnPermission) (v : LineVars) (words : List (List Char))
    (b : Bool) :
    ∃ a, parseWords perm { v with allowSelfsigned := b } words =
        ({ (parseWords perm v words).1 with allowSelfsigned := a }, (parseWords perm v words).2) ∧
      (a = (parseWords perm v words).1.allowSelfsigned ∨
        a = b ∧ (parseWords perm v words).1.allowSelfsigned = v.allowSelfsigned) := by
  fun_induction parseWords perm v words
  case case1 v => exact ⟨b, rfl, .inr ⟨rfl, rfl⟩⟩
  case case2 v tp words hself ih =>
    refine ⟨_, ?_, .inl rfl⟩
    rw [parseWords.eq_def]
    exact if_pos hself
  case case4 v tp hself hissuer hgiven pat words hpat n issuer hun hn ih =>
    rw [parseWords.eq_def]
    simpa only [if_neg hself, if_pos hissuer, if_pos hgiven, if_pos hpat, hun, if_pos hn] using ih
  case case9 v tp hself hissuer hsubject hgiven pat words hpat n subject hun hn ih =>
    rw [parseWords.eq_def]
    simpa only [if_neg hself, if_neg hissuer, if_pos hsubject, if_pos hgiven, if_pos hpat, hun,
      if_pos hn] using ih
  all_goals
    refine ⟨b, ?_, .inr ⟨rfl, rfl⟩⟩
    rw [parseWords.eq_def]
    simp only [*, Bool.false_eq_true, Bool.true_eq_false, if_true, if_false]

/-- The pair of a line does not depend on `s_allow_selfsigned`, and a line leaves
`s_allow_selfsigned` alone or sets it to a value. -/
theorem parseLine_selfsigned (R : Outside ρ) {line : List Char} (hfits : LineFits line)
    (a b : Bool) :
    (parseLine R line a).1 = (parseLine R line b).1 ∧
      ((parseLine R line a).2 = (parseLine R line b).2 ∨
        (parseLine R line a).2 = a ∧ (parseLine R line b).2 = b) := by
  unfold parseLine
  by_cases hline : line = []
  · rw [if_pos hline, if_pos hline]
    exact ⟨rfl, .inr ⟨rfl, rfl⟩⟩
  have hnot := not_not_intro hfits
  rw [if_neg hline, if_neg hnot, if_neg hline, if_neg hnot]
  generalize strTokenizeQuote line 1024 delimiters quotes = d
  obtain ⟨n, t⟩ := d
  dsimp only
  split_ifs
  · split
    · exact ⟨rfl, .inr ⟨rfl, rfl⟩⟩
    · rename_i tp words _
      by_cases hcond : tp.head? ≠ some '#' ∧ 1 < n ∧ permission tp ≠ .unknown
      · obtain ⟨c, heq, hc⟩ :=
          parseWords_selfsigned (permission tp) ⟨b, none, none, false⟩ words a
        rw [if_pos hcond, if_pos hcond, heq]
        exact ⟨rfl, hc⟩
      · rw [if_neg hcond, if_neg hcond]
        exact ⟨rfl, .inr ⟨rfl, rfl⟩⟩
  · exact ⟨rfl, .inr ⟨rfl, rfl⟩⟩

theorem loadLine_fst (R : Outside ρ) (st : List (PatternPair ρ) × Bool) {buf : List Char}
    (hfits : PieceFits buf) : (loadLine R st buf).1 = st.1 ++ (linePair R buf).toList := by
  unfold loadLine linePair
  split_ifs with hlong
  · simp
  · rw [(parseLine_selfsigned R (hfits (not_le.mp hlong)) false st.2).1]

theorem foldl_loadLine_fst (R : Outside ρ) {pieces : List (List Char)}
    (hfits : ∀ buf ∈ pieces, PieceFits buf) (st : List (PatternPair ρ) × Bool) :
    (pieces.foldl (loadLine R) st).1 = st.1 ++ pieces.filterMap (linePair R) := by
  induction pieces generalizing st with
  | nil => simp
  | cons buf pieces ih =>
    rw [List.foldl_cons, ih fun b hb => hfits b (List.mem_cons_of_mem _ hb),
      loadLine_fst R st (hfits buf List.mem_cons_self), List.append_assoc]
    cases hpair : linePair R buf <;> simp [hpair]

/-- `s_allow_selfsigned` after the lines of a file. -/
def readFlag (R : Outside ρ) (content : Content) (allowSelfsigned : Bool) : Bool :=
  ((fgetsLoop [] content.text).foldl (loadLine R) ([], allowSelfsigned)).2

theorem foldl_loadLine_snd (R : Outside ρ) (pieces : List (List Char))
    (tbl tbl' : List (PatternPair ρ)) (a : Bool) :
    (pieces.foldl (loadLine R) (tbl, a)).2 = (pieces.foldl (loadLine R) (tbl', a)).2 := by
  induction pieces generalizing tbl tbl' a with
  | nil => rfl
  | cons buf pieces ih =>
    have hsnd : (loadLine R (tbl, a) buf).2 = (loadLine R (tbl', a) buf).2 := by
      unfold loadLine
      split_ifs <;> rfl
    rw [List.foldl_cons, List.foldl_cons]
    generalize loadLine R (tbl, a) buf = st at hsnd ⊢
    generalize loadLine R (tbl', a) buf = st' at hsnd ⊢
    obtain ⟨tbl₁, a₁⟩ := st
    obtain ⟨tbl₂, a₂⟩ := st'
    cases (show a₁ = a₂ from hsnd)
    exact ih tbl₁ tbl₂ a₁

theorem readLines_eq (R : Outside ρ) (content : Content) (c : Checker ρ) :
    readLines R content (unloadConfig c) =
      { unloadConfig c with
        patTbl := filePairs R content
        allowSelfsigned := readFlag R content c.allowSelfsigned } := by
  have htbl := foldl_loadLine_fst R content.fits ([], c.allowSelfsigned)
  simp only [readLines, unloadConfig, htbl, List.nil_append]
  rfl

/-! ## Loading -/

/-- How the loading part of a call ends. -/
inductive Loading (R : Outside ρ) (o : Serializer ρ) (file : Option File) (now : Int)
    (c : Checker ρ) : Checker ρ × Result → Prop
  | read {content : Content} (hopens : opens c file) (hcontent : readable file = some content)
      (hpairs : filePairs R content ≠ []) :
      Loading R o file now c
        ({ c with
            patTbl := filePairs R content
            pats := some (o.pats (filePairs R content))
            nPats := (filePairs R content).length
            lastOpen := now
            allowSelfsigned := readFlag R content c.allowSelfsigned }, Result.ok)
  | failed {ret : Result} (hret : ret ≠ Result.ok)
      (hlooks : getMtime file = 0 ∨ opens c file)
      (hpairs : ∀ content, readable file = some content → filePairs R content = []) :
      Loading R o file now c ({ unloadConfig c with allowSelfsigned := false }, ret)
  | current (hmtime : getMtime file ≠ 0) (hopens : ¬ opens c file) :
      Loading R o file now c (c, Result.ok)

theorem loadPart_loading (o : Serializer ρ) (file : Option File) (now : Int) {c : Checker ρ}
    (hname : isValidString (some c.filename) = true) :
    Loading R o file now c (loadPart R o file now c) := by
  have hok : Result.noMemory ≠ Result.ok ∧ Result.notFound ≠ Result.ok := by decide
  by_cases hopens : opens c file
  · have hmtime : getMtime file ≠ 0 := (Int.ne_of_lt hopens.1).symm
    have hread : readable file = file.bind File.content := if_neg hmtime
    cases hcontent : file.bind File.content with
    | none =>
      have hload : loadPart R o file now c =
          ({ unloadConfig c with allowSelfsigned := false }, Result.notFound) := by
        simp [loadPart, loadConfig, hname, hopens, hcontent, hok]
      rw [hload]
      refine .failed hok.2 (.inr hopens) fun content h => ?_
      rw [hread, hcontent] at h
      cases h
    | some content =>
      by_cases hpairs : filePairs R content = []
      · have hload : loadPart R o file now c =
            ({ unloadConfig c with allowSelfsigned := false }, Result.noMemory) := by
          simp [loadPart, loadConfig, hname, hopens, hcontent, readLines_eq, serializePairs,
            hpairs, hok]
          simp [unloadConfig]
        rw [hload]
        refine .failed hok.1 (.inr hopens) fun content' h => ?_
        rw [hread, hcontent] at h
        cases h
        exact hpairs
      · have hlen : 0 < (filePairs R content).length := List.length_pos_iff.mpr hpairs
        have hload : loadPart R o file now c =
            ({ c with
                patTbl := filePairs R content
                pats := some (o.pats (filePairs R content))
                nPats := (filePairs R content).length
                lastOpen := now
                allowSelfsigned := readFlag R content c.allowSelfsigned }, Result.ok) := by
          simp [loadPart, loadConfig, hname, hopens, hcontent, readLines_eq, serializePairs, hlen]
          simp [unloadConfig]
        rw [hload]
        exact .read hopens (hread.trans hcontent) hpairs
  · by_cases hmtime : getMtime file = 0
    · have hload : loadPart R o file now c =
          ({ unloadConfig c with allowSelfsigned := false }, Result.notFound) := by
        simp [loadPart, loadConfig, hname, hopens, hmtime, hok]
      rw [hload]
      refine .failed hok.2 (.inl hmtime) fun content h => ?_
      rw [readable, if_pos hmtime] at h
      cases h
    · have hload : loadPart R o file now c = (c, Result.ok) := by
        simp [loadPart, loadConfig, hname, hopens, hmtime]
      rw [hload]
      exact .current hmtime hopens

/-! ## Runs -/

/-- The array, if there is one, is the sorted array of the pairs of the content that was read
last. -/
def Loaded (R : Outside ρ) (s : System ρ) : Prop :=
  ∀ pats, s.checker.pats = some pats → ∃ content, s.loads.head? = some (some content) ∧
    pats.Perm (filePairs R content) ∧ Descending PatternPair.cmplen pats ∧
    s.checker.nPats = pats.length

variable {s s' : System ρ}

theorem Loaded.init (files : List Char → Option File) : Loaded R (System.init files) := nofun

theorem Loaded.loading {o : Serializer ρ} {now : Int} {c : Checker ρ} {ret : Result}
    (h : Loaded R s) (hname : s.checker.filename ≠ []) {s' : System ρ}
    (hload : Loading R o s.file now s.checker (c, ret)) (hc : s'.checker = c)
    (hloads : s'.loads = if s.looks then s.content :: s.loads else s.loads) : Loaded R s' := by
  have hvalid := isValidString_some hname
  have hdone : c.pats = none ∨
      (∃ content, readable s.file = some content ∧ opens s.checker s.file ∧
        c.pats = some (o.pats (filePairs R content)) ∧ c.nPats = (filePairs R content).length) ∨
      c = s.checker ∧ ¬ s.looks := by
    cases hload with
    | read hopens hcontent hpairs => exact .inr (.inl ⟨_, hcontent, hopens, rfl, rfl⟩)
    | failed hret hlooks hpairs => exact .inl rfl
    | current hmtime hopens =>
      exact .inr (.inr ⟨rfl, fun hlooks => hlooks.2.elim hmtime hopens⟩)
  rw [← hc] at hdone
  intro pats hpats
  rcases hdone with hnone | ⟨content, hcontent, hopens, hsome, hn⟩ | ⟨hsame, hnot⟩
  · rw [hnone] at hpats
    cases hpats
  · rw [hsome] at hpats
    cases hpats
    have hlooks : s.looks := ⟨hvalid, .inr hopens⟩
    refine ⟨content, ?_, o.perm _, descending_of_sorted (o.sorted _), ?_⟩
    · rw [hloads, if_pos hlooks]
      exact congrArg some hcontent
    · rw [hn, (o.perm _).length_eq]
  · rw [hsame] at hpats ⊢
    rw [hloads, if_neg hnot]
    exact h pats hpats

/-- The file name is set before the first call that reads. -/
theorem loadPart_unnamed {o : Serializer ρ} {file : Option File} {now : Int} {c : Checker ρ}
    (hname : c.filename = []) : loadPart R o file now c = (c, Result.anyFailures) := by
  simp [loadPart, hname, isValidString]

theorem checkCertificates_valid {o : Serializer ρ} {file : Option File} {now : Int} {c : Checker ρ}
    {issuer subject : Option (List Char)}
    (h : isValidString issuer = true ∨ isValidString subject = true) :
    checkCertificates R o file now c issuer subject =
      ((loadPart R o file now c).1,
        decidePart R (loadPart R o file now c).1 (loadPart R o file now c).2 issuer subject) := by
  rw [checkCertificates, if_pos h]

/-- What a call does. -/
theorem step_check {o : Serializer ρ} {now : Int} {issuer subject : Option (List Char)}
    (hvalid : isValidString issuer = true ∨ isValidString subject = true)
    (hstep : step R s (.check o now issuer subject) = some s') :
    s'.checker = (loadPart R o s.file now s.checker).1 ∧ s'.files = s.files ∧
      s'.stale = (s.stale && !decide s.looks) ∧
      s'.loads = if s.looks then s.content :: s.loads else s.loads := by
  rw [step, if_pos hvalid] at hstep
  cases hstep
  exact ⟨by rw [checkCertificates_valid hvalid], rfl, rfl, rfl⟩

theorem step_check_invalid {o : Serializer ρ} {now : Int} {issuer subject : Option (List Char)}
    (hvalid : ¬ (isValidString issuer = true ∨ isValidString subject = true))
    (hstep : step R s (.check o now issuer subject) = some s') : s' = s := by
  rw [step, if_neg hvalid] at hstep
  cases hstep
  rfl

theorem Loaded.step {e : Event ρ} (h : Loaded R s) (hstep : step R s e = some s') :
    Loaded R s' := by
  cases e with
  | setConfigFile filename =>
    cases hstep
    exact h
  | write filename file =>
    cases hstep
    exact h
  | check o now issuer subject =>
    by_cases hvalid : isValidString issuer = true ∨ isValidString subject = true
    · obtain ⟨hchecker, -, -, hloads⟩ := step_check hvalid hstep
      by_cases hname : s.checker.filename = []
      · have hnot : ¬ s.looks := fun hl => by simp [System.looks, hname, isValidString] at hl
        rw [loadPart_unnamed hname] at hchecker
        rw [if_neg hnot] at hloads
        rw [Loaded, hchecker, hloads]
        exact h
      · exact h.loading hname (loadPart_loading _ _ _ (isValidString_some hname)) hchecker hloads
    · exact step_check_invalid hvalid hstep ▸ h

/-- A call that has a configuration loaded decides by it. -/
theorem loadPart_ok {o : Serializer ρ} {now : Int} (hname : s.checker.filename ≠ [])
    (hpats : (loadPart R o s.file now s.checker).1.pats ≠ none) :
    (loadPart R o s.file now s.checker).2 = Result.ok := by
  have hload := loadPart_loading (R := R) o s.file now (isValidString_some hname)
  generalize loadPart R o s.file now s.checker = r at hpats hload ⊢
  cases hload with
  | read => rfl
  | failed => exact absurd rfl hpats
  | current => rfl

theorem decidePart_of_allowed {c : Checker ρ} {issuer subject : List Char}
    {pats : List (PatternPair ρ)} (hpats : c.pats = some pats) (hn : c.nPats = pats.length)
    (hself : issuer ≠ subject ∨ c.allowSelfsigned = true) :
    decidePart R c Result.ok (some issuer) (some subject) =
      scanPats R (some issuer) (some subject) pats := by
  have hnot : ¬ (c.allowSelfsigned = false ∧ (isValidString (some issuer) &&
      isValidString (some subject) && (some issuer == some subject)) = true) := by
    rintro ⟨hflag, heq⟩
    simp only [Bool.and_eq_true, beq_iff_eq, Option.some.injEq] at heq
    exact hself.elim (fun h => h heq.2) fun h => by rw [hflag] at h; cases h
  rw [decidePart, if_neg hnot, if_pos rfl, hpats, hn]
  simp only [List.take_length]

theorem scanPats_cases (issuer subject : Option (List Char)) (pats : List (PatternPair ρ)) :
    scanPats R issuer subject pats = Result.ok ∨
      scanPats R issuer subject pats = Result.notAllowed := by
  rw [scanPats_eq]
  split_ifs
  · exact .inl rfl
  · exact .inr rfl

/-- **The verdict.** After a run over files whose lines fit, a call that has a file name and a
configuration loaded denies where a deny pair of the file matches, allows where an allow pair
matches and no deny pair does, and denies otherwise. The order of the pairs makes no difference. -/
theorem check_verdict {files : List Char → Option File} {es : List (Event ρ)} {s s' : System ρ}
    (h : Trans.run (step R) (System.init files) es = some s) {o : Serializer ρ} {now : Int}
    {issuer subject : List Char} (hissuer : issuer ≠ []) (hsubject : subject ≠ [])
    (hstep : step R s (.check o now (some issuer) (some subject)) = some s')
    (hname : s.checker.filename ≠ []) (hloaded : s'.checker.pats ≠ none)
    (hself : issuer ≠ subject ∨ s'.checker.allowSelfsigned = true) :
    ∃ content, s'.loads.head? = some (some content) ∧
      ∀ pairs : List (PatternPair ρ), pairs.Perm (filePairs R content) →
        let result := (checkCertificates R o s.file now s.checker (some issuer) (some subject)).2
        (AnyMatches R .deny pairs issuer subject → result = Result.notAllowed) ∧
          (¬ AnyMatches R .deny pairs issuer subject → AnyMatches R .allow pairs issuer subject →
            result = Result.ok) ∧
          (¬ AnyMatches R .deny pairs issuer subject → ¬ AnyMatches R .allow pairs issuer subject →
            result = Result.notAllowed) := by
  have hrun : Loaded R s := (Trans.Run.all_iff.mpr h).inv
    (fun s e s' hs _ hstep => hs.step hstep) (Loaded.init files)
  have hvalid : isValidString (some issuer) = true ∨ isValidString (some subject) = true :=
    .inl (isValidString_some hissuer)
  obtain ⟨hchecker, -, -, -⟩ := step_check hvalid hstep
  obtain ⟨pats, hpats⟩ := Option.ne_none_iff_exists'.mp hloaded
  obtain ⟨content, hhead, hperm, hsorted, hn⟩ := hrun.step hstep pats hpats
  refine ⟨content, hhead, fun pairs hpairs => ?_⟩
  have hresult : (checkCertificates R o s.file now s.checker (some issuer) (some subject)).2 =
      scanPats R (some issuer) (some subject) pats := by
    rw [hchecker] at hloaded hself hpats hn
    rw [checkCertificates_valid hvalid, loadPart_ok hname hloaded]
    exact decidePart_of_allowed hpats hn hself
  have hany : ∀ perm, AnyMatches R perm pats issuer subject ↔
      AnyMatches R perm pairs issuer subject := by
    intro perm
    simp only [AnyMatches, hperm.mem_iff, hpairs.mem_iff]
  have hok := scanPats_ok_iff (fun p hp => filePairs_made p (hperm.mem_iff.mp hp)) hsorted hissuer
    hsubject
  rw [hany, hany] at hok
  dsimp only
  rw [hresult]
  rcases scanPats_cases (R := R) (some issuer) (some subject) pats with hscan | hscan
  · obtain ⟨hallow, hdeny⟩ := hok.mp hscan
    exact ⟨fun hd => absurd hd hdeny, fun _ _ => hscan, fun _ ha => absurd hallow ha⟩
  · refine ⟨fun _ => hscan, fun hd ha => ?_, fun _ _ => hscan⟩
    exact hok.mpr ⟨ha, hd⟩

/-- The patterns are the prefixes they match. -/
def prefixRegex : Outside (List Char) where
  regcomp := some
  regexec pat s := pat.isPrefixOf s
  overrun _ allowSelfsigned := (none, allowSelfsigned)

/-- The pairs in their order, sorted by insertion. -/
def insertionSerializer : Serializer ρ where
  pats tbl := tbl.insertionSort fun p₀ p₁ => cmpProc p₀ p₁ ≤ 0
  perm tbl := List.perm_insertionSort _ tbl
  sorted tbl := by
    have : Std.Total fun p₀ p₁ : PatternPair ρ => cmpProc p₀ p₁ ≤ 0 :=
      ⟨fun p₀ p₁ => by unfold cmpProc; omega⟩
    have : IsTrans (PatternPair ρ) fun p₀ p₁ => cmpProc p₀ p₁ ≤ 0 :=
      ⟨fun p₀ p₁ p₂ => by unfold cmpProc; omega⟩
    exact List.pairwise_insertionSort _ tbl

/-- A file that allows an issuer, but not one of its subjects. -/
def denyingFile : Content :=
  ⟨"allow issuer ca\ndeny subject x\n".toList, by decide +kernel⟩

theorem check_verdict_denyingFile :
    ∃ s : System (List Char),
      Trans.run (step prefixRegex) (System.init fun _ => none)
        [.setConfigFile ['f'], .write ['f'] (some ⟨1, some denyingFile⟩)] = some s ∧
      (checkCertificates prefixRegex insertionSerializer s.file 2 s.checker (some ['c', 'a', '1'])
        (some ['x'])).2 = Result.notAllowed := by
  let call : Event (List Char) := .check insertionSerializer 2 (some ['c', 'a', '1']) (some ['x'])
  have hrun : ((Trans.run (step prefixRegex) (System.init fun _ => none)
      [.setConfigFile ['f'], .write ['f'] (some ⟨1, some denyingFile⟩)]).bind fun s =>
        (step prefixRegex s call).map fun s' =>
          (s.checker.filename, s'.checker.pats.isSome, s'.loads)) =
      some (['f'], true, [some denyingFile]) := by decide +kernel
  obtain ⟨s, hs, hcall⟩ := Option.bind_eq_some_iff.mp hrun
  obtain ⟨s', hstep, hs'⟩ := Option.map_eq_some_iff.mp hcall
  simp only [Prod.mk.injEq] at hs'
  obtain ⟨hname, hpats, hloads⟩ := hs'
  obtain ⟨content, hhead, hverdict⟩ := check_verdict hs (by simp) (by simp) hstep
    (hname ▸ List.cons_ne_nil _ _) (Option.isSome_iff_ne_none.mp hpats) (.inl (by decide))
  rw [hloads] at hhead
  cases hhead
  refine ⟨s, hs, (hverdict _ (List.Perm.refl _)).1
    ⟨⟨.deny, none, none, some ['x'], some ['x'], 100001⟩, ?_, rfl, ?_⟩⟩
  · decide +kernel
  · exact ⟨nofun, fun pat hpat => ⟨['x'], by cases hpat; rfl, rfl⟩⟩

end Checkcert
end Gallus
