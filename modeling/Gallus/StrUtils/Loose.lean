import Gallus.StrUtils.Number

/-!
# What the number parsers accept (`strutils.c`)

`Loose` is the grammar of the strings that come through the parser: a sign in front of the base
prefix and one behind it, then what `mpz_init_set_str` takes (a minus, and digits with white space
among them), then a unit letter and an `i`, each of them or none.

* `mpzSetStr`: `mpz_init_set_str` as documented. White space is ignored, and one minus is read.
* `parseBigint_loose`, `exists_loose`: what is accepted is the text of such a number, and the result
  is its value.
-/

namespace Gallus
namespace StrUtils

/-! ## The library -/

/-- The value of digits, if these are some and all of the base. -/
def mpzDigits (base : Nat) (digits : List Char) : Option Int :=
  if digits ≠ [] ∧ digits.all (isDigit base) then some (digitsVal base digits : Int) else none

/-- `mpz_init_set_str`. -/
def mpzSetStr (str : List Char) (base : Nat) : Option Int :=
  match str.filter fun c => !isspace c with
  | '-' :: digits => (mpzDigits base digits).map fun v => -v
  | digits => mpzDigits base digits

/-- The library does what is documented, in the bases of the parsers. -/
def Gmp.Documented (gmp : Gmp) : Prop :=
  ∀ str base, 2 ≤ base → base ≤ 16 → gmp.setStr str base = mpzSetStr str base

/-! ## The grammar -/

/-- Digits of the base, with white space among them. -/
structure DigitRun (base : Nat) where
  chars : List Char
  all : ∀ c ∈ chars, isDigit base c ∨ isspace c
  first : ∃ c r, chars = c :: r ∧ isDigit base c
  last : ∃ r c, chars = r ++ [c] ∧ isDigit base c

def DigitRun.digits {base : Nat} (run : DigitRun base) : List Char :=
  run.chars.filter fun c => !isspace c

/-- A minus and white space, or nothing: what the library reads in front of the digits. -/
def minusText (minus : Option Space) : List Char := minus.elim [] fun sp => '-' :: sp.chars

def minusVal (minus : Option Space) : Int := if minus.isSome then -1 else 1

/-- A string that is accepted. Each sign is read only where no earlier one could be, and a prefix
that is present is read. -/
structure Loose where
  outer : Signed
  pre : NumPrefix
  inner : Signed
  minus : Option Space
  run : DigitRun pre.base
  tail : Tail
  placed : pre = .none → inner.sign ≠ .none → outer.sign ≠ .none
  doubled : minus ≠ none → inner.sign ≠ .none
  taken : pre = .none → inner.sign = .none →
    ∀ p : NumPrefix, p ≠ .none → ¬p.text <+: run.chars ++ tail.text

/-- What the library is given. -/
def Loose.buf (n : Loose) : List Char := minusText n.minus ++ n.run.chars

def Loose.text (n : Loose) : List Char :=
  n.outer.text ++ (n.pre.text ++ (n.inner.text ++ (n.buf ++ n.tail.text)))

def Loose.value (n : Loose) : Int :=
  n.outer.sign.val *
    (n.inner.sign.val * (minusVal n.minus * digitsVal n.pre.base n.run.digits * n.tail.mult))

/-! ## White space around a string -/

theorem exists_lead (str : List Char) : ∃ sp : Space, str = sp.chars ++ skipSpaces str :=
  ⟨⟨str.takeWhile isspace, fun _ hc => List.mem_takeWhile_imp hc⟩,
    List.takeWhile_append_dropWhile.symm⟩

theorem exists_trail (str : List Char) : ∃ sp : Space, str = trimSpaces str ++ sp.chars :=
  ⟨⟨str.rtakeWhile isspace, fun _ hc => List.mem_rtakeWhile_imp hc⟩,
    (List.rdropWhile_append_rtakeWhile ..).symm⟩

/-- A string that has been skipped begins with no space. -/
theorem isspace_of_skip {c : Char} {r : List Char} (h : skipSpaces (c :: r) = c :: r) :
    isspace c = false := by
  by_contra hc
  have hlen := congrArg List.length h
  unfold skipSpaces at hlen
  rw [List.dropWhile_cons_of_pos (by simpa using hc), List.length_cons] at hlen
  have hle := (List.dropWhile_suffix (l := r) isspace).length_le
  omega

theorem skip_of_append {str rest : List Char} (hne : str ≠ [])
    (h : skipSpaces (str ++ rest) = str ++ rest) : skipSpaces str = str := by
  obtain ⟨c, r, rfl⟩ := List.exists_cons_of_ne_nil hne
  exact skipSpaces_cons (isspace_of_skip h) r

/-- A string that has been trimmed ends in no space. -/
theorem concat_of_trim {str : List Char} (hne : str ≠ []) (h : trimSpaces str = str) :
    ∃ r c, str = r ++ [c] ∧ isspace c = false := by
  obtain ⟨r, c, rfl⟩ := (List.eq_nil_or_concat' str).resolve_left hne
  refine ⟨r, c, rfl, ?_⟩
  have hlast := List.rdropWhile_eq_self_iff.mp h hne
  simpa using hlast

theorem isspace_of_mem (sp : Space) {c : Char} (h : c ∈ sp.chars) : isspace c = true := sp.all c h

theorem filter_space (sp : Space) : (sp.chars.filter fun c => !isspace c) = [] := by
  rw [List.filter_eq_nil_iff]
  intro c hc
  rw [isspace_of_mem sp hc]
  decide

/-! ## The digits -/

variable {base : Nat} {str buf : List Char} {v mul : Int}

theorem mpzDigits_eq_some {digits : List Char} :
    mpzDigits base digits = some v ↔
      (digits ≠ [] ∧ ∀ c ∈ digits, isDigit base c) ∧ (digitsVal base digits : Int) = v := by
  unfold mpzDigits
  simp only [List.all_eq_true]
  split_ifs with h
  · rw [Option.some.injEq, and_iff_right h]
  · exact iff_of_false nofun fun hv => h hv.1

theorem DigitRun.digit_of_mem (run : DigitRun base) {c : Char} (h : c ∈ run.digits) :
    isDigit base c = true := by
  obtain ⟨hmem, hc⟩ := List.mem_filter.mp h
  refine (run.all c hmem).resolve_right ?_
  simpa using hc

theorem DigitRun.digits_ne_nil (run : DigitRun base) : run.digits ≠ [] := by
  obtain ⟨c, r, hchars, hc⟩ := run.first
  refine List.ne_nil_of_mem (a := c) (List.mem_filter.mpr ⟨?_, ?_⟩)
  · rw [hchars]
    exact List.mem_cons_self
  · rw [isDigit_not_space hc]
    rfl

theorem DigitRun.mpzDigits (run : DigitRun base) :
    StrUtils.mpzDigits base run.digits = some (digitsVal base run.digits : Int) :=
  mpzDigits_eq_some.mpr ⟨⟨run.digits_ne_nil, fun _ => run.digit_of_mem⟩, rfl⟩

/-- The library reads a minus or none, and the digits. -/
theorem mpzSetStr_run (minus : Option Space) (run : DigitRun base) :
    mpzSetStr (minusText minus ++ run.chars) base =
      some (minusVal minus * (digitsVal base run.digits : Int)) := by
  have hrun := run.mpzDigits
  cases minus with
  | none =>
    have hne : ∀ digits, run.digits ≠ '-' :: digits := by
      intro digits h
      refine isDigit_ne (run.digit_of_mem (c := '-') ?_) (d := '-') rfl rfl
      rw [h]
      exact List.mem_cons_self
    have hfilter : (minusText none ++ run.chars).filter (fun c => !isspace c) = run.digits := rfl
    unfold mpzSetStr
    rw [hfilter, minusVal, Option.isSome_none, if_neg Bool.false_ne_true, Int.one_mul]
    split
    · rename_i h
      exact absurd h (hne _)
    · exact hrun
  | some sp =>
    have hfilter : (minusText (some sp) ++ run.chars).filter (fun c => !isspace c) =
        '-' :: run.digits := by
      unfold minusText
      rw [Option.elim_some, List.cons_append, List.filter_cons_of_pos rfl, List.filter_append,
        filter_space, List.nil_append]
      rfl
    unfold mpzSetStr
    rw [hfilter, minusVal, Option.isSome_some, if_pos rfl, Int.neg_one_mul]
    show (StrUtils.mpzDigits base run.digits).map (fun v => -v) = _
    rw [hrun, Option.map_some]

/-- A string without white space around it whose digits are some and of the base. -/
theorem exists_run (hskip : skipSpaces str = str) (htrim : trimSpaces str = str)
    (h : mpzDigits base (str.filter fun c => !isspace c) = some v) :
    ∃ run : DigitRun base, str = run.chars ∧ (digitsVal base run.digits : Int) = v := by
  obtain ⟨⟨hne, hall⟩, hv⟩ := mpzDigits_eq_some.mp h
  have hdigit : ∀ c ∈ str, isspace c = false → isDigit base c = true := fun c hc hs =>
    hall c (List.mem_filter.mpr ⟨hc, by rw [hs]; rfl⟩)
  have hstr : str ≠ [] := by
    rintro rfl
    exact hne rfl
  refine ⟨⟨str, fun c hc => ?_, ?_, ?_⟩, rfl, hv⟩
  · cases hs : isspace c with
    | true => exact .inr rfl
    | false => exact .inl (hdigit c hc hs)
  · obtain ⟨c, r, rfl⟩ := List.exists_cons_of_ne_nil hstr
    exact ⟨c, r, rfl, hdigit c List.mem_cons_self (isspace_of_skip hskip)⟩
  · obtain ⟨r, c, rfl, hc⟩ := concat_of_trim hstr htrim
    exact ⟨r, c, rfl, hdigit c (List.mem_append_right _ List.mem_cons_self) hc⟩

theorem exists_minus_run (hne : str ≠ []) (hskip : skipSpaces str = str)
    (htrim : trimSpaces str = str) (h : mpzSetStr str base = some v) :
    ∃ (minus : Option Space) (run : DigitRun base), str = minusText minus ++ run.chars ∧
      minusVal minus * (digitsVal base run.digits : Int) = v := by
  unfold mpzSetStr at h
  split at h
  · rename_i digits hfilter
    obtain ⟨w, hw, rfl⟩ := Option.map_eq_some_iff.mp h
    obtain ⟨c, r, rfl⟩ := List.exists_cons_of_ne_nil hne
    rw [List.filter_cons_of_pos (by rw [isspace_of_skip hskip]; rfl)] at hfilter
    obtain ⟨rfl, hrest⟩ := List.cons.inj hfilter
    obtain ⟨sp, hr⟩ := exists_lead r
    have hdigits : (skipSpaces r).filter (fun c => !isspace c) = digits := by
      rw [hr, List.filter_append, filter_space, List.nil_append] at hrest
      exact hrest
    have hskipped : skipSpaces r ≠ [] := by
      intro hnil
      rw [hnil] at hdigits
      rw [← hdigits] at hw
      cases hw
    obtain ⟨run, hrun, hval⟩ := exists_run (skipSpaces_skipSpaces r) (by
      obtain ⟨r', c', hlast⟩ := (List.eq_nil_or_concat' (skipSpaces r)).resolve_left hskipped
      obtain ⟨r'', c'', hlast', hc⟩ := concat_of_trim (List.cons_ne_nil _ _) htrim
      rw [hr, hlast, ← List.append_assoc, ← List.cons_append] at hlast'
      obtain ⟨-, hcc⟩ := List.append_inj' hlast' rfl
      rw [hlast]
      refine trimSpaces_concat ?_ _
      rw [(List.cons.inj hcc).1]
      exact hc) (hdigits ▸ hw)
    refine ⟨some sp, run, ?_, ?_⟩
    · rw [hr, hrun]
      rfl
    · rw [← hval, minusVal, Option.isSome_some, if_pos rfl, Int.neg_one_mul]
  · obtain ⟨run, hrun, hval⟩ := exists_run hskip htrim h
    refine ⟨none, run, hrun, ?_⟩
    rw [← hval, minusVal, Option.isSome_none, if_neg Bool.false_ne_true, Int.one_mul]

/-! ## The unit -/

theorem exists_char_of_unitLetter {c : Char} {u : UnitLetter} (h : unitLetter c = some u) :
    ∃ up, c = u.char up := by
  unfold unitLetter at h
  split at h <;> cases h
  all_goals first | exact ⟨true, rfl⟩ | exact ⟨false, rfl⟩

/-- What is cut off behind the `i`, or where there is none. -/
theorem exists_letter {gotI : Bool} (hne : str ≠ []) (htrim : trimSpaces str = str)
    (h : cutUnit str gotI = (buf, some mul)) :
    ∃ (gap : Space) (letter : Option (UnitLetter × Bool)),
      str = buf ++ gap.chars ++ letter.elim [] (fun l => [l.1.char l.2]) ∧
      mul = letter.elim 1 (fun l => (if gotI then 1024 else 1000) ^ l.1.number) ∧
      buf ≠ [] ∧ trimSpaces buf = buf := by
  obtain ⟨r, c, rfl, hc⟩ := concat_of_trim hne htrim
  cases hunit : unitLetter c with
  | none =>
    rw [cutUnit_concat hc hunit] at h
    obtain ⟨rfl, hmul⟩ := Prod.mk.inj h
    exact ⟨⟨[], Space.all_nil⟩, none, by simp, (Option.some.inj hmul).symm, hne, htrim⟩
  | some u =>
    obtain ⟨up, rfl⟩ := exists_char_of_unitLetter hunit
    by_cases hr : trimSpaces r = []
    · rw [cutUnit_no_digits u up hr] at h
      cases h
    · rw [cutUnit_letter u up hr] at h
      obtain ⟨rfl, hmul⟩ := Prod.mk.inj h
      obtain ⟨gap, hgap⟩ := exists_trail r
      refine ⟨gap, some (u, up), ?_, (Option.some.inj hmul).symm, hr, trimSpaces_trimSpaces r⟩
      rw [← hgap]
      rfl

/-- What `s_get_prefix_multiplier` has cut off, where there is a multiplier. -/
theorem exists_tail (h : getPrefixMultiplier str = (buf, some mul)) :
    ∃ t : Tail, str = buf ++ t.text ∧ t.mult = mul ∧ buf ≠ [] ∧ trimSpaces buf = buf := by
  have hne : trimSpaces str ≠ [] := by
    intro hnil
    rw [← getPrefixMultiplier_trim, hnil] at h
    cases h
  obtain ⟨trail, htrail⟩ := exists_trail str
  obtain ⟨r, c, hlast, hc⟩ := concat_of_trim hne (trimSpaces_trimSpaces str)
  rw [hlast] at htrail
  by_cases hi : c = 'i' ∨ c = 'I'
  · have hr : r ≠ [] := by
      rintro rfl
      rw [getPrefixMultiplier_only_i hlast hi] at h
      cases h
    rw [getPrefixMultiplier_i hlast hi hr] at h
    have hrne : trimSpaces r ≠ [] := by
      intro hnil
      rw [hnil] at h
      cases h
    obtain ⟨gap, letter, hstr, hmul, hbuf, htrim⟩ :=
      exists_letter hrne (trimSpaces_trimSpaces r) h
    obtain ⟨sp, hsp⟩ := exists_trail r
    have hup : ∃ up : Bool, c = if up then 'I' else 'i' :=
      hi.elim (fun h => ⟨false, h⟩) fun h => ⟨true, h⟩
    obtain ⟨up, rfl⟩ := hup
    refine ⟨⟨gap, letter, some (sp, up), trail⟩, ?_, hmul.symm, hbuf, htrim⟩
    rw [htrail, hsp, hstr]
    simp [Tail.text, Tail.letterText, Tail.iText]
  · rw [getPrefixMultiplier_not_i hlast hi] at h
    have hlastTrim : trimSpaces (r ++ [c]) = r ++ [c] := trimSpaces_concat hc r
    obtain ⟨gap, letter, hstr, hmul, hbuf, htrim⟩ :=
      exists_letter (List.concat_ne_nil c r) hlastTrim h
    refine ⟨⟨gap, letter, none, trail⟩, ?_, hmul.symm, hbuf, htrim⟩
    rw [htrail, hstr]
    simp [Tail.text, Tail.letterText, Tail.iText]

/-! ## What comes through -/

theorem Loose.buf_endsPlain (n : Loose) : EndsPlain n.buf := by
  obtain ⟨r, c, hchars, hc⟩ := n.run.last
  unfold Loose.buf
  rw [hchars, ← List.append_assoc]
  exact endsPlain_of_digit _ hc

/-- Behind the signs there is no white space. -/
theorem Loose.body_skip (n : Loose) :
    skipSpaces (n.buf ++ n.tail.text) = n.buf ++ n.tail.text := by
  unfold Loose.buf minusText
  cases n.minus with
  | none =>
    obtain ⟨c, r, hchars, hc⟩ := n.run.first
    rw [hchars]
    exact skipSpaces_cons (isDigit_not_space hc) _
  | some sp => exact skipSpaces_cons rfl _

theorem Loose.body_unsigned (n : Loose) (h : n.minus = none) :
    Unsigned (n.buf ++ n.tail.text) := by
  unfold Loose.buf minusText
  obtain ⟨c, r, hchars, hc⟩ := n.run.first
  rw [h, hchars]
  intro c' r' heq
  obtain rfl : c = c' := (List.cons.inj heq).1
  exact ⟨isDigit_ne hc rfl, isDigit_ne hc rfl⟩

theorem NumPrefix.base_range (pre : NumPrefix) : 2 ≤ pre.base ∧ pre.base ≤ 16 := by
  cases pre <;> simp [NumPrefix.base]

/-- White space without a sign is skipped. -/
theorem skipSpaces_signed {s : Signed} (h : s.sign = .none) (str : List Char) :
    skipSpaces (s.text ++ str) = skipSpaces str := by
  unfold Signed.text
  rw [h, Sign.text, List.append_nil, List.append_assoc, skipSpaces_space, skipSpaces_space]

theorem not_unsigned_of_signed {s : Signed} (h : s.sign ≠ .none) (str : List Char) :
    ¬Unsigned (skipSpaces (s.text ++ str)) := by
  unfold Signed.text
  rw [List.append_assoc, List.append_assoc, skipSpaces_space]
  intro hunsigned
  cases hs : s.sign with
  | none => exact h hs
  | plus => exact (hunsigned _ _ (by rw [hs]; rfl)).2 rfl
  | minus => exact (hunsigned _ _ (by rw [hs]; rfl)).1 rfl

/-- The sign behind the prefix. -/
theorem Loose.inner_read (n : Loose) :
    ∃ rest, getSign (skipSpaces (n.inner.text ++ (n.buf ++ n.tail.text))) =
        (decide (n.inner.sign.val = -1), rest) ∧
      skipSpaces rest = n.buf ++ n.tail.text := by
  have hunsigned : n.inner.sign = .none → Unsigned (skipSpaces (n.buf ++ n.tail.text)) := by
    intro hnone
    rw [n.body_skip]
    exact n.body_unsigned (by_contra fun hm => n.doubled hm hnone)
  have hread := getSign_text n.inner hunsigned
  rwa [n.body_skip] at hread

/-- The level behind the base prefix. -/
theorem parseBigintByBase_loose {gmp : Gmp} (hdoc : gmp.Documented) (n : Loose) :
    parseBigintByBase gmp (n.inner.text ++ (n.buf ++ n.tail.text)) n.pre.base =
      some (n.inner.sign.val *
        (minusVal n.minus * digitsVal n.pre.base n.run.digits * n.tail.mult)) := by
  obtain ⟨rest, hsign, hrest⟩ := n.inner_read
  have hne : n.buf ++ n.tail.text ≠ [] := List.append_ne_nil_of_left_ne_nil n.buf_endsPlain.ne_nil _
  have hset : gmp.setStr n.buf n.pre.base =
      some (minusVal n.minus * (digitsVal n.pre.base n.run.digits : Int)) :=
    (hdoc _ _ n.pre.base_range.1 n.pre.base_range.2).trans (mpzSetStr_run n.minus n.run)
  unfold parseBigintByBase
  simp only [hsign, hrest, if_pos hne, getPrefixMultiplier_trim,
    getPrefixMultiplier_tail n.buf_endsPlain]
  rw [hset, Option.map_some, Sign.val_mul]

theorem parseBigintByBase_skip (gmp : Gmp) (str : List Char) (base : Nat) :
    parseBigintByBase gmp (skipSpaces str) base = parseBigintByBase gmp str base := by
  unfold parseBigintByBase
  rw [skipSpaces_skipSpaces]

/-- The prefix that is read, with the white space in front of it skipped. -/
theorem Loose.pre_read (n : Loose) :
    ∃ rest, getBase (skipSpaces (n.pre.text ++ (n.inner.text ++ (n.buf ++ n.tail.text)))) =
        (n.pre.base, rest) ∧
      skipSpaces rest = skipSpaces (n.inner.text ++ (n.buf ++ n.tail.text)) := by
  by_cases hpre : n.pre = .none
  · refine ⟨skipSpaces (n.inner.text ++ (n.buf ++ n.tail.text)), ?_, skipSpaces_skipSpaces _⟩
    have hnone : ∀ p : NumPrefix, p ≠ .none →
        ¬p.text <+: skipSpaces (n.inner.text ++ (n.buf ++ n.tail.text)) := by
      intro p hp hpfx
      by_cases hsign : n.inner.sign = .none
      · have hminus : n.minus = none := by_contra fun hm => n.doubled hm hsign
        have hbuf : n.buf = n.run.chars := by
          unfold Loose.buf minusText
          rw [hminus]
          rfl
        rw [skipSpaces_signed hsign, n.body_skip, hbuf] at hpfx
        exact n.taken hpre hsign p hp hpfx
      · obtain ⟨r, hr⟩ := hpfx
        refine not_unsigned_of_signed hsign (n.buf ++ n.tail.text) ?_
        rw [← hr]
        exact (getBase_of_pre hp r).2.unsigned
    rw [show n.pre.text = [] by rw [hpre]; rfl, List.nil_append, getBase_none hnone, hpre]
    rfl
  · obtain ⟨hbase, hbody⟩ := getBase_of_pre hpre (n.inner.text ++ (n.buf ++ n.tail.text))
    exact ⟨_, by rw [hbody.skip, hbase], rfl⟩

/-- The sign in front of the prefix. -/
theorem Loose.outer_read (n : Loose) :
    ∃ rest, getSign (skipSpaces n.text) = (decide (n.outer.sign.val = -1), rest) ∧
      skipSpaces rest =
        skipSpaces (n.pre.text ++ (n.inner.text ++ (n.buf ++ n.tail.text))) := by
  refine getSign_text n.outer fun hnone => ?_
  by_cases hpre : n.pre = .none
  · have hinner : n.inner.sign = .none := by_contra fun hs => n.placed hpre hs hnone
    rw [show n.pre.text = [] by rw [hpre]; rfl, List.nil_append, skipSpaces_signed hinner,
      n.body_skip]
    exact n.body_unsigned (by_contra fun hm => n.doubled hm hinner)
  · obtain ⟨-, hbody⟩ := getBase_of_pre hpre (n.inner.text ++ (n.buf ++ n.tail.text))
    rw [hbody.skip]
    exact hbody.unsigned

/-- **What is accepted.** A number of the grammar comes through, with its value. -/
theorem parseBigint_loose {gmp : Gmp} (hdoc : gmp.Documented) (n : Loose) :
    parseBigint gmp n.text = some n.value := by
  obtain ⟨rest₁, hsign, hrest₁⟩ := n.outer_read
  obtain ⟨rest₂, hbase, hrest₂⟩ := n.pre_read
  have hne : skipSpaces (n.inner.text ++ (n.buf ++ n.tail.text)) ≠ [] := by
    intro hnil
    obtain ⟨r, c, hbuf, hc, -⟩ := n.buf_endsPlain
    have hall := List.dropWhile_eq_nil_iff.mp hnil c (by rw [hbuf]; simp)
    rw [hc] at hall
    exact Bool.false_ne_true hall
  unfold parseBigint Loose.value
  simp only [hsign, hrest₁, hbase, hrest₂, if_pos hne, parseBigintByBase_skip,
    parseBigintByBase_loose hdoc, Option.map_some, Sign.val_mul]

/-- The sign that is read. -/
theorem exists_signed (str : List Char) :
    ∃ (s : Signed) (rest : List Char), str = s.text ++ skipSpaces rest ∧
      getSign (skipSpaces str) = (decide (s.sign.val = -1), rest) ∧
      (s.sign = .none → Unsigned (skipSpaces rest)) := by
  obtain ⟨lead, hlead⟩ := exists_lead str
  have hread : ∀ sign r, sign ≠ .none → skipSpaces str = Sign.text sign ++ r →
      getSign (Sign.text sign ++ r) = (decide (sign.val = -1), r) →
      ∃ (s : Signed) (rest : List Char), str = s.text ++ skipSpaces rest ∧
        getSign (skipSpaces str) = (decide (s.sign.val = -1), rest) ∧
        (s.sign = .none → Unsigned (skipSpaces rest)) := by
    intro sign r hsign hstr hget
    obtain ⟨gap, hgap⟩ := exists_lead r
    refine ⟨⟨lead, sign, gap⟩, r, ?_, hstr ▸ hget, fun hn => absurd hn hsign⟩
    unfold Signed.text
    rw [List.append_assoc, List.append_assoc, ← hgap, ← hstr]
    exact hlead
  by_cases hm : ∃ r, skipSpaces str = '-' :: r
  · obtain ⟨r, hr⟩ := hm
    exact hread .minus r nofun hr rfl
  by_cases hp : ∃ r, skipSpaces str = '+' :: r
  · obtain ⟨r, hr⟩ := hp
    exact hread .plus r nofun hr rfl
  have hunsigned : Unsigned (skipSpaces str) := by
    intro c r heq
    refine ⟨?_, ?_⟩
    · rintro rfl
      exact hm ⟨r, heq⟩
    · rintro rfl
      exact hp ⟨r, heq⟩
  refine ⟨⟨lead, .none, ⟨[], Space.all_nil⟩⟩, skipSpaces str, ?_, getSign_unsigned hunsigned,
    fun _ => ?_⟩
  · rw [skipSpaces_skipSpaces]
    unfold Signed.text Sign.text
    rw [List.append_nil, List.append_nil]
    exact hlead
  · rw [skipSpaces_skipSpaces]
    exact hunsigned

/-- The level behind the base prefix, of a string that comes through. -/
theorem exists_body {gmp : Gmp} (hdoc : gmp.Documented) {base : Nat} (h2 : 2 ≤ base)
    (h16 : base ≤ 16) (h : parseBigintByBase gmp str base = some v) :
    ∃ (s : Signed) (minus : Option Space) (run : DigitRun base) (t : Tail),
      str = s.text ++ (minusText minus ++ run.chars ++ t.text) ∧
      (s.sign = .none → Unsigned (minusText minus ++ run.chars ++ t.text)) ∧
      skipSpaces (minusText minus ++ run.chars ++ t.text) =
        minusText minus ++ run.chars ++ t.text ∧
      v = s.sign.val * (minusVal minus * digitsVal base run.digits * t.mult) := by
  obtain ⟨s, rest, hstr, hget, hunsigned⟩ := exists_signed str
  unfold parseBigintByBase at h
  rw [hget] at h
  dsimp only at h
  by_cases hne : skipSpaces rest ≠ []
  case neg => rw [if_neg hne] at h; cases h
  rw [if_pos hne, getPrefixMultiplier_trim] at h
  cases hcut : getPrefixMultiplier (skipSpaces rest) with
  | mk buf mul? =>
    rw [hcut] at h
    cases mul? with
    | none => cases h
    | some mul =>
      obtain ⟨t, hrest, hmul, hbuf, htrim⟩ := exists_tail hcut
      obtain ⟨tmp, htmp, hv⟩ := Option.map_eq_some_iff.mp h
      rw [hdoc _ _ h2 h16] at htmp
      have hskip : skipSpaces (buf ++ t.text) = buf ++ t.text := by
        rw [← hrest, skipSpaces_skipSpaces]
      obtain ⟨minus, run, rfl, hval⟩ :=
        exists_minus_run hbuf (skip_of_append hbuf hskip) htrim htmp
      rw [hrest] at hstr hunsigned
      refine ⟨s, minus, run, t, hstr, hunsigned, hskip, ?_⟩
      rw [← hv, ← hval, ← hmul, Sign.val_mul]

/-- **Nothing else is accepted.** -/
theorem exists_loose {gmp : Gmp} (hdoc : gmp.Documented) (h : parseBigint gmp str = some v) :
    ∃ n : Loose, n.text = str ∧ n.value = v := by
  obtain ⟨outer, rest₁, hstr, hget, hunsigned⟩ := exists_signed str
  obtain ⟨pre, rest₂, hrest₁, hbase, htaken⟩ := getBase_cases (skipSpaces rest₁)
  unfold parseBigint at h
  rw [hget] at h
  dsimp only at h
  rw [hbase] at h
  dsimp only at h
  by_cases hne : skipSpaces rest₂ ≠ []
  case neg => rw [if_neg hne] at h; cases h
  rw [if_pos hne, parseBigintByBase_skip] at h
  obtain ⟨w, hw, hv⟩ := Option.map_eq_some_iff.mp h
  obtain ⟨inner, minus, run, t, hrest₂, hinner, hskip, hval⟩ :=
    exists_body hdoc pre.base_range.1 pre.base_range.2 hw
  have hfirst : pre = .none → skipSpaces (inner.text ++ (minusText minus ++ run.chars ++ t.text)) =
      skipSpaces rest₁ := by
    rintro rfl
    rw [← hrest₂, ← skipSpaces_skipSpaces rest₁, hrest₁]
    rfl
  have hdoubled : minus ≠ none → inner.sign ≠ .none := by
    intro hm hs
    obtain ⟨sp, rfl⟩ := Option.ne_none_iff_exists'.mp hm
    exact (hinner hs _ _ rfl).1 rfl
  refine ⟨⟨outer, pre, inner, minus, run, t, fun hpre hs ho => ?_, hdoubled, fun hpre hs => ?_⟩,
    ?_, ?_⟩
  · refine not_unsigned_of_signed hs (minusText minus ++ run.chars ++ t.text) ?_
    rw [hfirst hpre]
    exact hunsigned ho
  · have hminus : minus = none := by_contra fun hm => hdoubled hm hs
    have hbody : skipSpaces rest₁ = run.chars ++ t.text := by
      rw [← hfirst hpre, skipSpaces_signed hs, hskip, hminus]
      rfl
    rw [← hbody]
    exact htaken hpre
  · show outer.text ++ (pre.text ++ (inner.text ++ (minusText minus ++ run.chars ++ t.text))) = str
    rw [← hrest₂, ← hrest₁, ← hstr]
  · rw [← hv, hval, Sign.val_mul]
    rfl

end StrUtils
end Gallus
