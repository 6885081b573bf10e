import Gallus.StrUtils.Parse

/-!
# What the number parsers compute (`strutils.c`)

The grammar of the number strings is a structure for each of its levels, whose fields say that the
parts are well formed: `text` is the string, `value` the number it stands for.

* `Magnitude base`: digits, and a unit letter with or without an `i`.
* `BaseNumber base`: a sign and a magnitude, as the `_by_base` forms read it.
* `NumberString`: a sign, a base prefix and a magnitude of that base. Letters of the prefix stand
  in either case, as the source compares them, and a prefix that is present is taken.

`strParse_number` is the result: each parser stores the value if its type has it, and otherwise
reports `GALLUS_RESULT_OUT_OF_RANGE` and stores nothing.
-/

namespace Gallus
namespace StrUtils

/-! ## The grammar -/

/-- The character of a unit letter. -/
def UnitLetter.char : UnitLetter → Bool → Char
  | .k, up => if up then 'K' else 'k'
  | .m, up => if up then 'M' else 'm'
  | .g, up => if up then 'G' else 'g'
  | .t, up => if up then 'T' else 't'
  | .p, up => if up then 'P' else 'p'
  | .x, up => if up then 'X' else 'x'
  | .z, up => if up then 'Z' else 'z'
  | .y, up => if up then 'Y' else 'y'

/-- The number of a unit letter, from `k = 1` on. -/
def UnitLetter.number : UnitLetter → Nat
  | .k => 1 | .m => 2 | .g => 3 | .t => 4 | .p => 5 | .x => 6 | .z => 7 | .y => 8

/-- A unit letter in either case, and an `i` in either case or none. -/
structure UnitSuffix where
  letter : UnitLetter
  upper : Bool
  i : Option Bool

def UnitSuffix.text (u : UnitSuffix) : List Char :=
  u.letter.char u.upper ::
    match u.i with
    | none => []
    | some up => [if up then 'I' else 'i']

/-- `1000 ^ j`, or `1024 ^ j` with an `i`. -/
def UnitSuffix.mult (u : UnitSuffix) : Int :=
  (if u.i.isSome then 1024 else 1000) ^ u.letter.number

/-- White space. -/
structure Space where
  chars : List Char
  all : ∀ c ∈ chars, isspace c

theorem Space.all_nil : ∀ c ∈ ([] : List Char), isspace c := List.forall_mem_nil _

/-- Digits of the base, space, a unit or none, space. -/
structure Magnitude (base : Nat) where
  digits : List Char
  nonempty : digits ≠ []
  all : ∀ c ∈ digits, isDigit base c
  gap : Space
  unit : Option UnitSuffix
  trail : Space

def Magnitude.text {base : Nat} (m : Magnitude base) : List Char :=
  m.digits ++ m.gap.chars ++ (m.unit.elim [] UnitSuffix.text) ++ m.trail.chars

def Magnitude.mult {base : Nat} (m : Magnitude base) : Int := m.unit.elim 1 UnitSuffix.mult

inductive Sign
  | none | plus | minus

def Sign.text : Sign → List Char
  | .none => []
  | .plus => ['+']
  | .minus => ['-']

def Sign.val : Sign → Int
  | .minus => -1
  | _ => 1

/-- Space, a sign or none, space. -/
structure Signed where
  lead : Space
  sign : Sign
  gap : Space

def Signed.text (s : Signed) : List Char := s.lead.chars ++ s.sign.text ++ s.gap.chars

/-- A number string of the `_by_base` forms. -/
structure BaseNumber (base : Nat) where
  signed : Signed
  mag : Magnitude base

def BaseNumber.text {base : Nat} (n : BaseNumber base) : List Char := n.signed.text ++ n.mag.text

def BaseNumber.value {base : Nat} (n : BaseNumber base) : Int :=
  n.signed.sign.val * digitsVal base n.mag.digits * n.mag.mult

/-- The base prefixes. -/
inductive NumPrefix
  | none
  | zeroX (upper : Bool)
  | backX (upper : Bool)
  | h (upper : Bool)
  | backZero
  | backB (upper : Bool)
  | b (upper : Bool)

def NumPrefix.text : NumPrefix → List Char
  | .none => []
  | .zeroX up => ['0', if up then 'X' else 'x']
  | .backX up => ['\\', if up then 'X' else 'x']
  | .h up => [if up then 'H' else 'h']
  | .backZero => ['\\', '0']
  | .backB up => ['\\', if up then 'B' else 'b']
  | .b up => [if up then 'B' else 'b']

def NumPrefix.base : NumPrefix → Nat
  | .none => 10
  | .zeroX _ | .backX _ | .h _ => 16
  | .backZero => 8
  | .backB _ | .b _ => 2

/-- A number string. It has a base prefix whenever one is present: a digit and a unit that read
`0x` do not count as decimal. -/
structure NumberString where
  signed : Signed
  pre : NumPrefix
  gap : Space
  mag : Magnitude pre.base
  taken : pre = .none → ∀ p : NumPrefix, p ≠ .none → ¬ p.text <+: mag.text

def NumberString.text (n : NumberString) : List Char :=
  n.signed.text ++ n.pre.text ++ n.gap.chars ++ n.mag.text

def NumberString.value (n : NumberString) : Int :=
  n.signed.sign.val * digitsVal n.pre.base n.mag.digits * n.mag.mult

/-! ## Spaces -/

theorem skipSpaces_space (s : Space) (str : List Char) :
    skipSpaces (s.chars ++ str) = skipSpaces str :=
  List.dropWhile_append_of_pos s.all

theorem skipSpaces_cons {c : Char} (h : isspace c = false) (str : List Char) :
    skipSpaces (c :: str) = c :: str := by
  simp [skipSpaces, h]

theorem trimSpaces_space (str : List Char) (s : Space) :
    trimSpaces (str ++ s.chars) = trimSpaces str := by
  unfold trimSpaces List.rdropWhile
  rw [List.reverse_append, List.dropWhile_append_of_pos]
  exact fun c hc => s.all c (List.mem_reverse.mp hc)

theorem trimSpaces_trimSpaces (str : List Char) : trimSpaces (trimSpaces str) = trimSpaces str :=
  List.rdropWhile_idempotent _ _

theorem trimSpaces_concat {c : Char} (h : isspace c = false) (str : List Char) :
    trimSpaces (str ++ [c]) = str ++ [c] :=
  List.rdropWhile_concat_neg _ _ _ (by simp [h])

/-! ## Digits and unit letters -/

variable {base : Nat} {c : Char}

theorem isDigit_not_space (h : isDigit base c) : isspace c = false := by
  by_contra hs
  have hc : c.toNat = 32 ∨ 9 ≤ c.toNat ∧ c.toNat ≤ 13 := by
    simpa [isspace, or_iff_not_imp_left] using hs
  have hnone : digitVal c = none := by
    unfold digitVal
    simp only [Char.reduceToNat]
    grind
  simp [isDigit, hnone] at h

/-- A character that is no digit of any base is none of the digits. -/
theorem isDigit_ne (h : isDigit base c) {d : Char} (hd : digitVal d = none) : c ≠ d := by
  rintro rfl
  simp [isDigit, hd] at h

theorem isDigit_unitLetter (h : isDigit base c) : unitLetter c = none := by
  unfold unitLetter
  split <;> first | rfl | exact absurd rfl (isDigit_ne h rfl)

theorem unitLetter_char (u : UnitLetter) (up : Bool) : unitLetter (u.char up) = some u := by
  cases u <;> cases up <;> rfl

theorem char_not_space (u : UnitLetter) (up : Bool) : isspace (u.char up) = false := by
  cases u <;> cases up <;> rfl

theorem char_ne_i (u : UnitLetter) (up : Bool) : ¬ (u.char up = 'i' ∨ u.char up = 'I') := by
  cases u <;> cases up <;> decide

/-- Every key of a letter is in the table. -/
theorem multTbl_lookup (u : UnitLetter) (gotI : Bool) :
    multTbl.lookup (u, gotI) = some ((if gotI then 1024 else 1000) ^ u.number) := by
  cases u <;> cases gotI <;> decide

/-! ## The multiplier -/

theorem getD_concat (str : List Char) (c d : Char) :
    (str ++ [c]).getD ((str ++ [c]).length - 1) d = c := by
  simp

theorem take_concat (str : List Char) (c : Char) :
    (str ++ [c]).take ((str ++ [c]).length - 1) = str := by
  simp

theorem not_length_concat (str : List Char) (c : Char) : ¬ (str ++ [c]).length < 1 := by
  simp

/-- Without a unit letter at the end, nothing is cut. -/
theorem cutUnit_concat {str : List Char} {gotI : Bool} (hs : isspace c = false)
    (hu : unitLetter c = none) : cutUnit (str ++ [c]) gotI = (str ++ [c], some 1) := by
  unfold cutUnit
  rw [if_neg (not_length_concat str c)]
  dsimp only
  rw [trimSpaces_concat hs, getD_concat, hu]
  simp

/-- A unit letter at the end is cut off, with the spaces before it. -/
theorem cutUnit_letter {str : List Char} {gotI : Bool} (u : UnitLetter) (up : Bool)
    (hne : trimSpaces str ≠ []) :
    cutUnit (str ++ [u.char up]) gotI =
      (trimSpaces str, some ((if gotI then 1024 else 1000) ^ u.number)) := by
  unfold cutUnit
  rw [if_neg (not_length_concat str _)]
  dsimp only
  rw [trimSpaces_concat (char_not_space u up), getD_concat, unitLetter_char, take_concat]
  have hlen : ¬ (trimSpaces str).length < 1 := by
    have := List.length_pos_iff.mpr hne
    omega
  simp only [Option.isSome_some, if_true, if_neg hlen, multTbl_lookup]

/-- A unit letter with nothing in front of it. -/
theorem cutUnit_no_digits {str : List Char} {gotI : Bool} (u : UnitLetter) (up : Bool)
    (hnil : trimSpaces str = []) : cutUnit (str ++ [u.char up]) gotI = ([], none) := by
  unfold cutUnit
  rw [if_neg (not_length_concat str _)]
  dsimp only
  rw [trimSpaces_concat (char_not_space u up), getD_concat, unitLetter_char, take_concat, hnil]
  rfl

theorem not_length_trim {s : List Char} (h : trimSpaces s ≠ []) : ¬ s.length < 1 := by
  intro hl
  rw [List.eq_nil_of_length_eq_zero (by omega : s.length = 0)] at h
  exact h rfl

theorem getPrefixMultiplier_not_i {s str : List Char} (hs : trimSpaces s = str ++ [c])
    (hc : ¬ (c = 'i' ∨ c = 'I')) : getPrefixMultiplier s = cutUnit (str ++ [c]) false := by
  unfold getPrefixMultiplier
  rw [if_neg (not_length_trim (by simp [hs]))]
  dsimp only
  rw [hs, if_neg (not_length_concat str c), getD_concat, if_neg hc]

theorem getPrefixMultiplier_i {s str : List Char} (hs : trimSpaces s = str ++ [c])
    (hc : c = 'i' ∨ c = 'I') (hne : str ≠ []) :
    getPrefixMultiplier s = cutUnit (trimSpaces str) true := by
  have hlen : ¬ (str ++ [c]).length - 1 < 1 := by
    have := List.length_pos_iff.mpr hne
    simp only [List.length_append, List.length_singleton]
    omega
  unfold getPrefixMultiplier
  rw [if_neg (not_length_trim (by simp [hs]))]
  dsimp only
  rw [hs, if_neg (not_length_concat str c), getD_concat, if_pos hc, if_neg hlen, take_concat]

/-- An `i` with nothing in front of it. -/
theorem getPrefixMultiplier_only_i {s : List Char} (hs : trimSpaces s = [c])
    (hc : c = 'i' ∨ c = 'I') : getPrefixMultiplier s = ([c], none) := by
  unfold getPrefixMultiplier
  rw [if_neg (not_length_trim (by simp [hs]))]
  dsimp only
  rw [hs, if_neg (by simp), show [c].getD ([c].length - 1) '\x00' = c from rfl, if_pos hc,
    if_pos (by simp)]

/-- What is read behind the digits: a unit letter or none, and an `i` or none, with white space
around each of them. -/
structure Tail where
  gap : Space
  letter : Option (UnitLetter × Bool)
  i : Option (Space × Bool)
  trail : Space

def Tail.letterText (t : Tail) : List Char := t.letter.elim [] fun l => [l.1.char l.2]

def Tail.iText (t : Tail) : List Char :=
  t.i.elim [] fun i => i.1.chars ++ [if i.2 then 'I' else 'i']

def Tail.text (t : Tail) : List Char := t.gap.chars ++ t.letterText ++ t.iText ++ t.trail.chars

def Tail.mult (t : Tail) : Int :=
  t.letter.elim 1 fun l => (if t.i.isSome then 1024 else 1000) ^ l.1.number

theorem i_eq (up : Bool) : (if up then 'I' else 'i') = 'i' ∨ (if up then 'I' else 'i') = 'I' := by
  cases up <;> decide

theorem i_not_space (up : Bool) : isspace (if up then 'I' else 'i') = false := by
  cases up <;> rfl

/-- A string that ends in a character of a number: no space, no unit letter and no `i`. -/
def EndsPlain (buf : List Char) : Prop :=
  ∃ str c, buf = str ++ [c] ∧ isspace c = false ∧ unitLetter c = none ∧ ¬(c = 'i' ∨ c = 'I')

theorem EndsPlain.trim {buf : List Char} (h : EndsPlain buf) : trimSpaces buf = buf := by
  obtain ⟨str, c, rfl, hc, -⟩ := h
  exact trimSpaces_concat hc str

theorem EndsPlain.ne_nil {buf : List Char} (h : EndsPlain buf) : buf ≠ [] := by
  obtain ⟨str, c, rfl, -⟩ := h
  exact List.concat_ne_nil c str

theorem endsPlain_of_digit (str : List Char) (h : isDigit base c) : EndsPlain (str ++ [c]) := by
  refine ⟨str, c, rfl, isDigit_not_space h, isDigit_unitLetter h, ?_⟩
  rintro (hi | hi)
  · exact isDigit_ne h rfl hi
  · exact isDigit_ne h rfl hi

/-- The unit letter is cut off, if there is one. -/
theorem cutUnit_tail {buf : List Char} (h : EndsPlain buf) (t : Tail) (gotI : Bool) :
    cutUnit (trimSpaces (buf ++ t.gap.chars ++ t.letterText)) gotI =
      (buf, some (t.letter.elim 1 fun l => (if gotI then 1024 else 1000) ^ l.1.number)) := by
  have htrim : trimSpaces (buf ++ t.gap.chars) = buf := by
    rw [trimSpaces_space, h.trim]
  unfold Tail.letterText
  cases t.letter with
  | none =>
    obtain ⟨str, c, rfl, hc, hunit, -⟩ := h
    rw [Option.elim_none, Option.elim_none, List.append_nil, htrim]
    exact cutUnit_concat hc hunit
  | some l =>
    rw [Option.elim_some, Option.elim_some, trimSpaces_concat (char_not_space l.1 l.2),
      cutUnit_letter l.1 l.2 (by rw [htrim]; exact h.ne_nil), htrim]

/-- A text that ends in no `i`. -/
theorem Tail.trim_no_i {buf : List Char} (h : EndsPlain buf) {t : Tail} (hi : t.i = none) :
    trimSpaces (buf ++ t.text) = trimSpaces (buf ++ t.gap.chars ++ t.letterText) ∧
      ∃ str c, trimSpaces (buf ++ t.text) = str ++ [c] ∧ ¬(c = 'i' ∨ c = 'I') := by
  have htext : trimSpaces (buf ++ t.text) = trimSpaces (buf ++ t.gap.chars ++ t.letterText) := by
    unfold Tail.text Tail.iText
    rw [hi, Option.elim_none, List.append_nil, ← List.append_assoc, ← List.append_assoc,
      trimSpaces_space]
  refine ⟨htext, ?_⟩
  rw [htext]
  unfold Tail.letterText
  cases t.letter with
  | none =>
    rw [Option.elim_none, List.append_nil, trimSpaces_space, h.trim]
    obtain ⟨str, c, rfl, -, -, hc⟩ := h
    exact ⟨str, c, rfl, hc⟩
  | some l =>
    rw [Option.elim_some, trimSpaces_concat (char_not_space l.1 l.2)]
    exact ⟨_, _, rfl, char_ne_i l.1 l.2⟩

/-- A text that ends in an `i`. -/
theorem Tail.trim_i (buf : List Char) {t : Tail} {sp : Space} {up : Bool}
    (hi : t.i = some (sp, up)) :
    trimSpaces (buf ++ t.text) =
      (buf ++ t.gap.chars ++ t.letterText ++ sp.chars) ++ [if up then 'I' else 'i'] := by
  have hassoc : buf ++ t.text =
      (buf ++ t.gap.chars ++ t.letterText ++ sp.chars) ++ [if up then 'I' else 'i'] ++
        t.trail.chars := by
    unfold Tail.text Tail.iText
    rw [hi, Option.elim_some]
    simp only [List.append_assoc]
  rw [hassoc, trimSpaces_space, trimSpaces_concat (i_not_space up)]

/-- What is behind the number is cut off, and the multiplier is that of the unit. -/
theorem getPrefixMultiplier_tail {buf : List Char} (h : EndsPlain buf) (t : Tail) :
    getPrefixMultiplier (buf ++ t.text) = (buf, some t.mult) := by
  unfold Tail.mult
  cases hi : t.i with
  | none =>
    obtain ⟨htext, str, c, htrim, hc⟩ := Tail.trim_no_i h hi
    rw [getPrefixMultiplier_not_i htrim hc, ← htrim, htext, cutUnit_tail h t]
    rfl
  | some i =>
    obtain ⟨sp, up⟩ := i
    rw [getPrefixMultiplier_i (Tail.trim_i buf hi) (i_eq up) (by simp [h.ne_nil]),
      trimSpaces_space, cutUnit_tail h t]
    rfl

/-- `s_get_prefix_multiplier` trims its buffer itself. -/
theorem getPrefixMultiplier_trim (str : List Char) :
    getPrefixMultiplier (trimSpaces str) = getPrefixMultiplier str := by
  unfold getPrefixMultiplier
  by_cases h : trimSpaces str = []
  · rw [h]
    by_cases hs : str.length < 1
    · rw [List.eq_nil_of_length_eq_zero (by omega : str.length = 0)]
      rfl
    · rw [if_neg hs]
      rfl
  · have hlen := List.length_pos_iff.mpr h
    rw [if_neg (not_length_trim h), if_neg (by omega), trimSpaces_trimSpaces]

/-- Digits end in a digit. -/
theorem Magnitude.digits_concat (m : Magnitude base) :
    ∃ str c, m.digits = str ++ [c] ∧ isDigit base c := by
  refine ⟨m.digits.dropLast, m.digits.getLast m.nonempty, ?_, m.all _ (List.getLast_mem _)⟩
  exact (List.dropLast_append_getLast m.nonempty).symm

/-- What is behind the digits of a magnitude: the `i` is next to its letter. -/
def Magnitude.tail (m : Magnitude base) : Tail where
  gap := m.gap
  letter := m.unit.map fun u => (u.letter, u.upper)
  i := m.unit.bind fun u => u.i.map fun up => (⟨[], Space.all_nil⟩, up)
  trail := m.trail

theorem Magnitude.text_eq (m : Magnitude base) : m.text = m.digits ++ m.tail.text := by
  unfold Magnitude.text Magnitude.tail Tail.text Tail.letterText Tail.iText
  cases m.unit with
  | none => simp
  | some u =>
    obtain ⟨letter, up, i⟩ := u
    cases i <;> simp [UnitSuffix.text]

theorem Magnitude.mult_eq (m : Magnitude base) : m.tail.mult = m.mult := by
  unfold Magnitude.mult Magnitude.tail Tail.mult
  cases m.unit with
  | none => rfl
  | some u =>
    obtain ⟨letter, up, i⟩ := u
    cases i <;> rfl

/-- The buffer of a magnitude is cut down to its digits, and the multiplier is that of its unit. -/
theorem getPrefixMultiplier_text (m : Magnitude base) :
    getPrefixMultiplier (trimSpaces m.text) = (m.digits, some m.mult) := by
  obtain ⟨str, c, hd, hc⟩ := m.digits_concat
  rw [getPrefixMultiplier_trim, m.text_eq, getPrefixMultiplier_tail _ m.tail, m.mult_eq]
  rw [hd]
  exact endsPlain_of_digit str hc

/-! ## The levels of the parser -/

/-- What is left of a string after the sign begins with a character that is neither space nor a
sign. -/
def Body (str : List Char) : Prop :=
  ∃ c r, str = c :: r ∧ isspace c = false ∧ c ≠ '-' ∧ c ≠ '+'

theorem Body.skip {str : List Char} (h : Body str) : skipSpaces str = str := by
  obtain ⟨c, r, rfl, hc, -⟩ := h
  exact skipSpaces_cons hc r

/-- A string that does not begin with a sign. -/
def Unsigned (str : List Char) : Prop := ∀ c r, str = c :: r → c ≠ '-' ∧ c ≠ '+'

theorem Body.unsigned {str : List Char} (h : Body str) : Unsigned str := by
  obtain ⟨c, r, rfl, -, hm, hp⟩ := h
  intro c' r' heq
  cases heq
  exact ⟨hm, hp⟩

theorem getSign_unsigned {str : List Char} (h : Unsigned str) : getSign str = (false, str) := by
  unfold getSign
  split
  · exact absurd rfl (h _ _ rfl).1
  · exact absurd rfl (h _ _ rfl).2
  · rfl

theorem skipSpaces_skipSpaces (str : List Char) : skipSpaces (skipSpaces str) = skipSpaces str :=
  List.dropWhile_idempotent _ _

/-- Both levels read a sign the same way. -/
theorem getSign_text (s : Signed) {str : List Char}
    (h : s.sign = .none → Unsigned (skipSpaces str)) :
    ∃ rest, getSign (skipSpaces (s.text ++ str)) = (decide (s.sign.val = -1), rest) ∧
      skipSpaces rest = skipSpaces str := by
  unfold Signed.text
  rw [List.append_assoc, List.append_assoc, skipSpaces_space]
  cases hs : s.sign with
  | none =>
    refine ⟨skipSpaces str, ?_, skipSpaces_skipSpaces str⟩
    rw [Sign.text, List.nil_append, skipSpaces_space, getSign_unsigned (h hs)]
    rfl
  | plus => exact ⟨s.gap.chars ++ str, rfl, skipSpaces_space _ _⟩
  | minus => exact ⟨s.gap.chars ++ str, rfl, skipSpaces_space _ _⟩

theorem Magnitude.body (m : Magnitude base) : Body m.text := by
  obtain ⟨c, r, h⟩ := List.exists_cons_of_ne_nil m.nonempty
  have hc : isDigit base c := m.all c (h ▸ List.mem_cons_self)
  refine ⟨c, _, by rw [Magnitude.text, h]; rfl, isDigit_not_space hc, ?_, ?_⟩
  · exact isDigit_ne hc rfl
  · exact isDigit_ne hc rfl

theorem Sign.val_mul (s : Sign) (v : Int) :
    (if decide (s.val = -1) = true then -v else v) = s.val * v := by
  cases s <;> simp [Sign.val]

/-- `s_parse_bigint_by_base` computes the value. -/
theorem parseBigintByBase_text (gmp : Gmp) (n : BaseNumber base) (h2 : 2 ≤ base)
    (h16 : base ≤ 16) :
    parseBigintByBase gmp n.text base = some n.value := by
  obtain ⟨rest, hsign, hrest⟩ :=
    getSign_text n.signed fun _ => n.mag.body.skip.symm ▸ n.mag.body.unsigned
  have hne : n.mag.text ≠ [] := by
    obtain ⟨c, r, h, -⟩ := n.mag.body
    simp [h]
  unfold parseBigintByBase BaseNumber.text BaseNumber.value
  rw [n.mag.body.skip] at hrest
  simp only [hsign, hrest, if_pos hne, getPrefixMultiplier_text]
  rw [gmp.setStr_digits h2 h16 n.mag.nonempty n.mag.all, Option.map_some, Sign.val_mul,
    Int.mul_assoc]

/-! ## The base prefix -/

/-- The characters of a lower-case letter in either case. -/
theorem tolower_x (h : tolower c = tolower 'x') : c = 'x' ∨ c = 'X' := by
  have hc : c.toNat = 'x'.toNat ∨ c.toNat = 'X'.toNat := by
    unfold tolower at h
    simp only [Char.reduceToNat] at h ⊢
    grind
  exact hc.imp Char.toNat_inj.mp Char.toNat_inj.mp

theorem tolower_b (h : tolower c = tolower 'b') : c = 'b' ∨ c = 'B' := by
  have hc : c.toNat = 'b'.toNat ∨ c.toNat = 'B'.toNat := by
    unfold tolower at h
    simp only [Char.reduceToNat] at h ⊢
    grind
  exact hc.imp Char.toNat_inj.mp Char.toNat_inj.mp

/-- A character that is no letter. -/
theorem tolower_zero (h : tolower c = tolower '0') : c = '0' := by
  refine Char.toNat_inj.mp ?_
  unfold tolower at h
  simp only [Char.reduceToNat] at h ⊢
  grind

theorem tolower_backslash (h : tolower c = tolower '\\') : c = '\\' := by
  refine Char.toNat_inj.mp ?_
  unfold tolower at h
  simp only [Char.reduceToNat] at h ⊢
  grind

/-- The first two characters are those of the prefix, the second in either case. -/
theorem strncasecmpEq_two {str : List Char} {p q : Char} (h : strncasecmpEq str [p, q] 2 = true) :
    ∃ a b r, str = a :: b :: r ∧ tolower a = tolower p ∧ tolower b = tolower q := by
  match str with
  | [] => simp [strncasecmpEq] at h
  | [a] => simp [strncasecmpEq] at h
  | a :: b :: r => exact ⟨a, b, r, rfl, by simpa [strncasecmpEq] using h⟩

theorem getBase_of_pre {pre : NumPrefix} (hpre : pre ≠ .none) (str : List Char) :
    getBase (pre.text ++ str) = (pre.base, str) ∧ Body (pre.text ++ str) := by
  have hbody : ∀ c r, isspace c = false → c ≠ '-' → c ≠ '+' → Body (c :: r) :=
    fun c r h₁ h₂ h₃ => ⟨c, r, rfl, h₁, h₂, h₃⟩
  cases pre with
  | none => exact absurd rfl hpre
  | backZero => exact ⟨rfl, hbody _ _ rfl (by decide) (by decide)⟩
  | zeroX up => cases up <;> exact ⟨rfl, hbody _ _ rfl (by decide) (by decide)⟩
  | backX up => cases up <;> exact ⟨rfl, hbody _ _ rfl (by decide) (by decide)⟩
  | backB up => cases up <;> exact ⟨rfl, hbody _ _ rfl (by decide) (by decide)⟩
  | h up =>
    cases up <;> exact ⟨by simp [NumPrefix.text, getBase, strncasecmpEq, tolower, NumPrefix.base],
      hbody _ _ rfl (by decide) (by decide)⟩
  | b up =>
    cases up <;> exact ⟨by simp [NumPrefix.text, getBase, strncasecmpEq, tolower, NumPrefix.base],
      hbody _ _ rfl (by decide) (by decide)⟩

theorem NumPrefix.text_ne_nil {pre : NumPrefix} (h : pre ≠ .none) : pre.text ≠ [] := by
  cases pre with
  | none => exact absurd rfl h
  | _ => exact List.cons_ne_nil _ _

/-- A string that `getBase` reads without a prefix has none. -/
theorem not_prefix_of_getBase {str : List Char} (h : getBase str = (10, str)) (p : NumPrefix)
    (hp : p ≠ .none) : ¬p.text <+: str := by
  rintro ⟨r, rfl⟩
  rw [(getBase_of_pre hp r).1] at h
  exact NumPrefix.text_ne_nil hp (List.self_eq_append_left.mp (Prod.mk.inj h).2)

/-- The prefix that is read: if it is none, the string begins with no prefix. -/
theorem getBase_cases (str : List Char) : ∃ pre rest, str = NumPrefix.text pre ++ rest ∧
    getBase str = (pre.base, rest) ∧ (pre = .none → ∀ p ≠ .none, ¬NumPrefix.text p <+: str) := by
  have hread : ∀ pre rest, pre ≠ .none → str = NumPrefix.text pre ++ rest →
      ∃ pre rest, str = NumPrefix.text pre ++ rest ∧ getBase str = (pre.base, rest) ∧
        (pre = .none → ∀ p ≠ .none, ¬NumPrefix.text p <+: str) := by
    rintro pre rest hpre rfl
    exact ⟨pre, rest, rfl, (getBase_of_pre hpre rest).1, fun hn => absurd hn hpre⟩
  by_cases h₁ : strncasecmpEq str ['0', 'x'] 2 = true
  · obtain ⟨a, b, r, rfl, ha, hb⟩ := strncasecmpEq_two h₁
    obtain rfl := tolower_zero ha
    rcases tolower_x hb with rfl | rfl
    · exact hread (.zeroX false) r nofun rfl
    · exact hread (.zeroX true) r nofun rfl
  by_cases h₂ : strncasecmpEq str ['\\', 'x'] 2 = true
  · obtain ⟨a, b, r, rfl, ha, hb⟩ := strncasecmpEq_two h₂
    obtain rfl := tolower_backslash ha
    rcases tolower_x hb with rfl | rfl
    · exact hread (.backX false) r nofun rfl
    · exact hread (.backX true) r nofun rfl
  by_cases h₃ : strncasecmpEq str ['\\', '0'] 2 = true
  · obtain ⟨a, b, r, rfl, ha, hb⟩ := strncasecmpEq_two h₃
    obtain rfl := tolower_backslash ha
    obtain rfl := tolower_zero hb
    exact hread .backZero r nofun rfl
  by_cases h₄ : strncasecmpEq str ['\\', 'b'] 2 = true
  · obtain ⟨a, b, r, rfl, ha, hb⟩ := strncasecmpEq_two h₄
    obtain rfl := tolower_backslash ha
    rcases tolower_b hb with rfl | rfl
    · exact hread (.backB false) r nofun rfl
    · exact hread (.backB true) r nofun rfl
  by_cases h₅ : str.head? = some 'H' ∨ str.head? = some 'h'
  · rcases h₅ with h | h <;> obtain ⟨r, rfl⟩ := List.head?_eq_some_iff.mp h
    · exact hread (.h true) r nofun rfl
    · exact hread (.h false) r nofun rfl
  by_cases h₆ : str.head? = some 'B' ∨ str.head? = some 'b'
  · rcases h₆ with h | h <;> obtain ⟨r, rfl⟩ := List.head?_eq_some_iff.mp h
    · exact hread (.b true) r nofun rfl
    · exact hread (.b false) r nofun rfl
  have hnone : getBase str = (10, str) := by
    unfold getBase
    simp only [h₁, h₂, h₃, h₄, h₅, h₆, Bool.or_self, Bool.false_eq_true, if_false]
  exact ⟨.none, str, rfl, hnone, fun _ => not_prefix_of_getBase hnone⟩

/-- A string that begins with no prefix. -/
theorem getBase_none {str : List Char} (h : ∀ p : NumPrefix, p ≠ .none → ¬p.text <+: str) :
    getBase str = (10, str) := by
  obtain ⟨pre, rest, hstr, hbase, -⟩ := getBase_cases str
  by_cases hp : pre = .none
  · subst hp
    rw [hbase, hstr]
    rfl
  · exact absurd ⟨rest, hstr.symm⟩ (h pre hp)

/-- `s_parse_bigint` computes the value. -/
theorem parseBigint_text (gmp : Gmp) (n : NumberString) :
    parseBigint gmp n.text = some n.value := by
  obtain ⟨signed, pre, gap, m, taken⟩ := n
  have hbase : 2 ≤ pre.base ∧ pre.base ≤ 16 := by
    cases pre <;> simp [NumPrefix.base]
  have hpre : Body (skipSpaces (pre.text ++ (gap.chars ++ m.text))) ∧
      ∃ rest, getBase (skipSpaces (pre.text ++ (gap.chars ++ m.text))) = (pre.base, rest) ∧
        skipSpaces rest = m.text := by
    by_cases hp : pre = .none
    · subst hp
      rw [NumPrefix.text, List.nil_append, skipSpaces_space, m.body.skip]
      exact ⟨m.body, m.text, getBase_none (taken rfl), m.body.skip⟩
    · obtain ⟨hget, hbody⟩ := getBase_of_pre hp (gap.chars ++ m.text)
      rw [hbody.skip]
      exact ⟨hbody, _, hget, by rw [skipSpaces_space, m.body.skip]⟩
  obtain ⟨hbody, rest₂, hget, hrest₂⟩ := hpre
  obtain ⟨rest₁, hsign, hrest₁⟩ := getSign_text signed fun _ => hbody.unsigned
  have hne : m.text ≠ [] := by
    obtain ⟨c, r, h, -⟩ := m.body
    simp [h]
  have hmag :=
    parseBigintByBase_text gmp ⟨⟨⟨[], by simp⟩, .none, ⟨[], by simp⟩⟩, m⟩ hbase.1 hbase.2
  simp only [BaseNumber.text, Signed.text, Sign.text, List.nil_append, BaseNumber.value, Sign.val,
    Int.one_mul] at hmag
  unfold parseBigint NumberString.text NumberString.value
  simp only [List.append_assoc, hsign, hrest₁, hget, hrest₂, if_pos hne, hmag, Option.map_some,
    Sign.val_mul, Int.mul_assoc]

/-! ## The parsers -/

/-- The target types. -/
inductive IntType
  | int16 | uint16 | int32 | uint32 | int64 | uint64

namespace IntType

/-- The least value of the type. -/
def lower : IntType → Int
  | .int16 => -2 ^ 15
  | .int32 => -2 ^ 31
  | .int64 => -2 ^ 63
  | .uint16 | .uint32 | .uint64 => 0

/-- The greatest value of the type. -/
def upper : IntType → Int
  | .int16 => 2 ^ 15 - 1
  | .uint16 => 2 ^ 16 - 1
  | .int32 => 2 ^ 31 - 1
  | .uint32 => 2 ^ 32 - 1
  | .int64 => 2 ^ 63 - 1
  | .uint64 => 2 ^ 64 - 1

/-- The parser of the type. -/
def parse (gmp : Gmp) : IntType → List Char → Int → Result × Int
  | .int16 => strParseInt16 gmp
  | .uint16 => strParseUint16 gmp
  | .int32 => strParseInt32 gmp
  | .uint32 => strParseUint32 gmp
  | .int64 => strParseInt64 gmp
  | .uint64 => strParseUint64 gmp

/-- The `_by_base` parser of the type. -/
def parseByBase (gmp : Gmp) : IntType → List Char → Int → Nat → Result × Int
  | .int16 => strParseInt16ByBase gmp
  | .uint16 => strParseUint16ByBase gmp
  | .int32 => strParseInt32ByBase gmp
  | .uint32 => strParseUint32ByBase gmp
  | .int64 => strParseInt64ByBase gmp
  | .uint64 => strParseUint64ByBase gmp

/-- What a parser stores of a big integer. -/
def store : IntType → Int → Int
  | .int16 => fun v => intN 16 (mpzGetSi v)
  | .uint16 => fun v => uintN 16 (mpzGetUi v)
  | .int32 => fun v => intN 32 (mpzGetSi v)
  | .uint32 => fun v => uintN 32 (mpzGetUi v)
  | .int64 => mpzGetSi
  | .uint64 => mpzGetUi

theorem parse_eq (gmp : Gmp) (ty : IntType) :
    ty.parse gmp = strParse gmp ty.lower ty.upper ty.store := by
  cases ty <;> rfl

theorem parseByBase_eq (gmp : Gmp) (ty : IntType) :
    ty.parseByBase gmp = strParseByBase gmp ty.lower ty.upper ty.store := by
  cases ty <;> rfl

/-- The answer to a value: stored if the type has it, else out of range. -/
def answer (ty : IntType) (v val : Int) : Result × Int :=
  if ty.lower ≤ v ∧ v ≤ ty.upper then (Result.ok, v) else (Result.outOfRange, val)

end IntType

theorem mpzGetSi_of_range {v : Int} (hlo : -2 ^ 63 ≤ v) (hhi : v < 2 ^ 63) : mpzGetSi v = v := by
  unfold mpzGetSi
  rw [if_pos ⟨hlo, hhi⟩]

theorem mpzGetUi_of_range {v : Int} (hlo : 0 ≤ v) (hhi : v < 2 ^ 64) : mpzGetUi v = v := by
  unfold mpzGetUi
  omega

theorem intN_of_range {bits : Nat} {v : Int} (hlo : -2 ^ bits ≤ v * 2) (hhi : v * 2 < 2 ^ bits) :
    intN bits v = v :=
  Int.bmod_eq_of_le_mul_two (by simpa using hlo) (by simpa using hhi)

/-- The stores keep a value of the type. -/
theorem IntType.store_of_range {ty : IntType} {v : Int} (h : ty.lower ≤ v ∧ v ≤ ty.upper) :
    ty.store v = v := by
  cases ty <;> simp only [lower, upper] at h <;> simp only [store]
  case int16 | int32 =>
    rw [mpzGetSi_of_range (by omega) (by omega), intN_of_range (by omega) (by omega)]
  case uint16 | uint32 =>
    rw [mpzGetUi_of_range (by omega) (by omega)]
    unfold uintN
    omega
  case int64 => exact mpzGetSi_of_range (by omega) (by omega)
  case uint64 => exact mpzGetUi_of_range (by omega) (by omega)

/-- The range check and the store give the answer. -/
theorem IntType.inRange_store (ty : IntType) (v val : Int) :
    (if (inRange (some v) ty.lower ty.upper).1 = Result.ok then
      ((inRange (some v) ty.lower ty.upper).1, ty.store (inRange (some v) ty.lower ty.upper).2)
    else ((inRange (some v) ty.lower ty.upper).1, val)) = ty.answer v val := by
  unfold inRange answer
  by_cases h : ty.lower ≤ v ∧ v ≤ ty.upper
  · simp only [if_pos h, if_true, store_of_range h]
  · simp only [if_neg h]
    rw [if_neg (by decide)]

/-- **The number parsers.** Every number string, of any length and value: each parser answers with
`sign * digits * multiplier` if its type has it, and else with `GALLUS_RESULT_OUT_OF_RANGE` and
`*val` as it was. So do the `_by_base` forms, for the strings without a prefix. -/
theorem strParse_number (gmp : Gmp) (ty : IntType) (val : Int) :
    (∀ n : NumberString, ty.parse gmp n.text val = ty.answer n.value val) ∧
    ∀ base : { b : Nat // b ∈ [2, 8, 10, 16] }, ∀ n : BaseNumber base,
      ty.parseByBase gmp n.text val base = ty.answer n.value val := by
  have hne : ∀ {b : Nat} (m : Magnitude b) (s : List Char), s ++ m.text ≠ [] := by
    rintro b m s h
    obtain ⟨c, r, hc, -⟩ := m.body
    simp [hc] at h
  constructor
  · intro n
    rw [ty.parse_eq, strParse, if_pos (show n.text ≠ [] from hne n.mag _),
      parseBigint_text]
    exact ty.inRange_store n.value val
  · rintro ⟨base, hb⟩ n
    have h : 2 ≤ base ∧ base ≤ 16 := by
      simp only [List.mem_cons, List.not_mem_nil, or_false] at hb
      omega
    rw [ty.parseByBase_eq, strParseByBase,
      if_pos (show n.text ≠ [] ∧ 1 < base from ⟨hne n.mag _, h.1⟩),
      parseBigintByBase_text gmp n h.1 h.2]
    exact ty.inRange_store n.value val

/-- A library that reads strings of digits only. -/
def gmpDigits : Gmp where
  setStr digits base :=
    if digits ≠ [] ∧ digits.all (isDigit base) then some (digitsVal base digits : Int) else none
  setStr_digits := fun _ _ hne hall => if_pos ⟨hne, List.all_eq_true.mpr hall⟩

/-- `" -0x1f Ki"` is `-31 * 1024`: an `int16_t`, but no `uint64_t`. -/
theorem strParse_number_hex :
    let n : NumberString :=
      { signed := ⟨⟨[' '], List.all_eq_true.mp rfl⟩, .minus, ⟨[], Space.all_nil⟩⟩
        pre := .zeroX false
        gap := ⟨[], Space.all_nil⟩
        mag := ⟨['1', 'f'], nofun, List.all_eq_true.mp rfl, ⟨[' '], List.all_eq_true.mp rfl⟩,
          some ⟨.k, true, some false⟩, ⟨[], Space.all_nil⟩⟩
        taken := nofun }
    n.text = " -0x1f Ki".toList ∧
    strParseInt16 gmpDigits n.text 7 = (Result.ok, -31744) ∧
    strParseUint64 gmpDigits n.text 7 = (Result.outOfRange, 7) := by
  refine ⟨by decide, ?_, ?_⟩
  · exact ((strParse_number gmpDigits .int16 7).1 _).trans (by decide)
  · exact ((strParse_number gmpDigits .uint64 7).1 _).trans (by decide)

end StrUtils
end Gallus
