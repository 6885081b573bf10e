import Gallus.StrUtils.Loose

/-!
# The shape of a number string (`strutils.c`)

`Shaped str`: the string has one sign at most, one run of digits behind its base prefix, and an `i`
only right behind a unit letter. The parsers accept more (`Loose`), and `Loose.Proper` are those
among their numbers that are of the shape.

* `shaped_iff_proper`: however a string that is accepted is read, it is of the shape just if the
  reading is proper.
* `parse_shaped_iff`: where a parser rejects what is not of the shape.
-/

namespace Gallus
namespace StrUtils

/-! ## Shapes -/

/-- A sign or none, a base prefix or none, and a magnitude; the sign may also stand behind the
prefix. -/
structure Shape where
  outer : Signed
  pre : NumPrefix
  inner : Signed
  mag : Magnitude pre.base
  oneSign : outer.sign = .none ∨ inner.sign = .none
  placed : pre = .none → inner.sign = .none
  taken : pre = .none → ∀ p : NumPrefix, p ≠ .none → ¬p.text <+: mag.text

def Shape.text (n : Shape) : List Char :=
  n.outer.text ++ (n.pre.text ++ (n.inner.text ++ n.mag.text))

def Shaped (str : List Char) : Prop := ∃ n : Shape, n.text = str

/-- A number that is accepted, with one sign at most, no white space among its digits, and no `i`
away from a unit letter. -/
structure Loose.Proper (n : Loose) : Prop where
  oneSign : n.outer.sign = .none ∨ n.inner.sign = .none
  noMinus : n.minus = none
  together : ∀ c ∈ n.run.chars, isspace c = false
  iNext : ∀ sp up, n.tail.i = some (sp, up) → n.tail.letter ≠ none ∧ sp.chars = []

/-- Digits without white space. -/
def DigitRun.ofDigits {base : Nat} (digits : List Char) (hne : digits ≠ [])
    (hall : ∀ c ∈ digits, isDigit base c) : DigitRun base where
  chars := digits
  all := fun c hc => .inl (hall c hc)
  first := by
    obtain ⟨c, r, hd⟩ := List.exists_cons_of_ne_nil hne
    exact ⟨c, r, hd, hall c (hd ▸ List.mem_cons_self)⟩
  last := by
    obtain ⟨r, c, hd⟩ := (List.eq_nil_or_concat' digits).resolve_left hne
    exact ⟨r, c, hd, hall c (hd ▸ List.mem_append_right r List.mem_cons_self)⟩

theorem DigitRun.digits_ofDigits {base : Nat} {digits : List Char} (hne : digits ≠ [])
    (hall : ∀ c ∈ digits, isDigit base c) :
    (DigitRun.ofDigits digits hne hall).digits = digits := by
  refine List.filter_eq_self.mpr fun c hc => ?_
  rw [isDigit_not_space (hall c hc)]
  rfl

/-- A string of the shape is read so. -/
def Shape.loose (n : Shape) : Loose where
  outer := n.outer
  pre := n.pre
  inner := n.inner
  minus := none
  run := .ofDigits n.mag.digits n.mag.nonempty n.mag.all
  tail := n.mag.tail
  placed := fun hpre hs => absurd (n.placed hpre) hs
  doubled := fun h => absurd rfl h
  taken := fun hpre _ => by
    show ∀ p : NumPrefix, p ≠ .none → ¬p.text <+: n.mag.digits ++ n.mag.tail.text
    rw [← n.mag.text_eq]
    exact n.taken hpre

theorem Shape.loose_text (n : Shape) : n.loose.text = n.text := by
  show n.outer.text ++ (n.pre.text ++ (n.inner.text ++ ([] ++ n.mag.digits ++ n.mag.tail.text))) = _
  rw [List.nil_append, ← n.mag.text_eq]
  rfl

theorem Shape.loose_proper (n : Shape) : n.loose.Proper where
  oneSign := n.oneSign
  noMinus := rfl
  together := fun c hc => isDigit_not_space (n.mag.all c hc)
  iNext := by
    intro sp up hi
    obtain ⟨u, hu, hbind⟩ := Option.bind_eq_some_iff.mp hi
    obtain ⟨up', -, heq⟩ := Option.map_eq_some_iff.mp hbind
    obtain ⟨rfl, -⟩ := Prod.mk.inj heq
    refine ⟨?_, rfl⟩
    show n.mag.unit.map _ ≠ none
    rw [hu]
    exact Option.some_ne_none _

/-- The magnitude of a number that is proper. -/
def Loose.mag (n : Loose) (h : n.Proper) : Magnitude n.pre.base where
  digits := n.run.chars
  nonempty := by
    obtain ⟨c, r, hchars, -⟩ := n.run.first
    rw [hchars]
    exact List.cons_ne_nil c r
  all := fun c hc => (n.run.all c hc).resolve_right (by rw [h.together c hc]; decide)
  gap := n.tail.gap
  unit := n.tail.letter.map fun l => ⟨l.1, l.2, n.tail.i.map (·.2)⟩
  trail := n.tail.trail

theorem Loose.mag_text (n : Loose) (h : n.Proper) : (n.mag h).text = n.buf ++ n.tail.text := by
  have hnext := h.iNext
  unfold Magnitude.text Loose.mag Loose.buf Tail.text Tail.letterText Tail.iText
  rw [h.noMinus]
  cases hl : n.tail.letter with
  | none =>
    cases hi : n.tail.i with
    | none => simp [minusText]
    | some i => exact absurd hl (hnext i.1 i.2 hi).1
  | some l =>
    cases hi : n.tail.i with
    | none => simp [minusText, UnitSuffix.text]
    | some i => simp [minusText, UnitSuffix.text, (hnext i.1 i.2 hi).2]

/-- A number that is proper is of the shape. -/
theorem Loose.Proper.shaped {n : Loose} (h : n.Proper) : Shaped n.text := by
  refine ⟨⟨n.outer, n.pre, n.inner, n.mag h, h.oneSign, fun hpre => ?_, fun hpre => ?_⟩, ?_⟩
  · by_contra hs
    exact h.oneSign.elim (n.placed hpre hs) hs
  · have hinner : n.inner.sign = .none := by
      by_contra hs
      exact h.oneSign.elim (n.placed hpre hs) hs
    rw [n.mag_text h]
    unfold Loose.buf minusText
    rw [h.noMinus]
    exact n.taken hpre hinner
  · show n.outer.text ++ (n.pre.text ++ (n.inner.text ++ (n.mag h).text)) = n.text
    rw [n.mag_text h]
    rfl

/-! ## Two readings of a string -/

def isSign (c : Char) : Bool := c == '-' || c == '+'

/-- What the library is given of a string. -/
def digitBuf (str : List Char) : List Char :=
  let str := (getSign (skipSpaces str)).2
  let str := (getBase (skipSpaces str)).2
  let str := (getSign (skipSpaces str)).2
  (getPrefixMultiplier (skipSpaces str)).1

theorem Loose.digitBuf_text (n : Loose) : digitBuf n.text = n.buf := by
  obtain ⟨rest₁, hsign, hrest₁⟩ := n.outer_read
  obtain ⟨rest₂, hbase, hrest₂⟩ := n.pre_read
  obtain ⟨rest₃, hinner, hrest₃⟩ := n.inner_read
  unfold digitBuf
  simp only [hsign, hrest₁, hbase, hrest₂, hinner, hrest₃, getPrefixMultiplier_tail n.buf_endsPlain]

def Sign.count : Sign → Nat
  | .none => 0
  | _ => 1

theorem countP_space (sp : Space) : sp.chars.countP isSign = 0 := by
  rw [List.countP_eq_zero]
  intro c hc hsign
  have hspace := sp.all c hc
  unfold isSign at hsign
  rw [Bool.or_eq_true, beq_iff_eq, beq_iff_eq] at hsign
  rcases hsign with rfl | rfl <;> cases hspace

theorem countP_signed (s : Signed) : s.text.countP isSign = s.sign.count := by
  unfold Signed.text
  rw [List.countP_append, List.countP_append, countP_space, countP_space]
  cases s.sign <;> rfl

theorem countP_pre (pre : NumPrefix) : pre.text.countP isSign = 0 := by
  cases pre with
  | none | backZero => rfl
  | zeroX up | backX up | h up | backB up | b up => cases up <;> rfl

theorem countP_run {base : Nat} (run : DigitRun base) : run.chars.countP isSign = 0 := by
  rw [List.countP_eq_zero]
  intro c hc hsign
  unfold isSign at hsign
  rw [Bool.or_eq_true, beq_iff_eq, beq_iff_eq] at hsign
  rcases run.all c hc with hdigit | hspace
  · exact hsign.elim (isDigit_ne hdigit rfl) (isDigit_ne hdigit rfl)
  · rcases hsign with rfl | rfl <;> cases hspace

theorem countP_tail (t : Tail) : t.text.countP isSign = 0 := by
  have hletter : ∀ u up, [UnitLetter.char u up].countP isSign = 0 := by
    intro u up
    cases u <;> cases up <;> rfl
  have hi : ∀ up : Bool, [if up then 'I' else 'i'].countP isSign = 0 := by
    intro up
    cases up <;> rfl
  unfold Tail.text Tail.letterText Tail.iText
  rw [List.countP_append, List.countP_append, List.countP_append, countP_space, countP_space]
  cases t.letter <;> cases t.i <;> simp [hletter, hi, countP_space]

/-- The signs of a number that is accepted. -/
theorem Loose.countP_text (n : Loose) :
    n.text.countP isSign =
      n.outer.sign.count + n.inner.sign.count + if n.minus.isSome then 1 else 0 := by
  have hminus : (minusText n.minus).countP isSign = if n.minus.isSome then 1 else 0 := by
    unfold minusText
    cases n.minus with
    | none => rfl
    | some sp =>
      rw [Option.elim_some, List.countP_cons_of_pos rfl, countP_space]
      rfl
  unfold Loose.text Loose.buf
  simp only [List.countP_append, countP_signed, countP_pre, countP_run, countP_tail, hminus]
  omega

theorem Sign.count_eq_zero {s : Sign} : s.count = 0 ↔ s = .none := by
  cases s <;> simp [Sign.count]

theorem Sign.count_le (s : Sign) : s.count ≤ 1 := by
  cases s <;> simp [Sign.count]

theorem Loose.countP_le_one_iff (n : Loose) :
    n.text.countP isSign ≤ 1 ↔ (n.outer.sign = .none ∨ n.inner.sign = .none) ∧ n.minus = none := by
  have houter := n.outer.sign.count_le
  have hinner := n.inner.sign.count_le
  rw [n.countP_text, ← Sign.count_eq_zero, ← Sign.count_eq_zero]
  by_cases hm : n.minus = none
  · rw [hm, Option.isSome_none, if_neg Bool.false_ne_true]
    simp only [and_true]
    omega
  · have hsign := mt Sign.count_eq_zero.mp (n.doubled hm)
    rw [if_pos (Option.isSome_iff_ne_none.mpr hm)]
    simp only [hm, and_false, iff_false]
    omega

theorem EndsPlain.append {buf : List Char} (h : EndsPlain buf) (str : List Char) :
    EndsPlain (str ++ buf) := by
  obtain ⟨r, c, rfl, hc⟩ := h
  exact ⟨str ++ r, c, (List.append_assoc ..).symm, hc⟩

/-- An `i` that is next to a unit letter, by the text alone. -/
theorem Tail.next_of_text_eq {buf buf' : List Char} {t t' : Tail} (hbuf : EndsPlain buf)
    (hbuf' : EndsPlain buf') (htext : buf ++ t.text = buf' ++ t'.text)
    (hnext : ∀ sp up, t'.i = some (sp, up) → t'.letter ≠ none ∧ sp.chars = []) {sp : Space}
    {up : Bool} (hi : t.i = some (sp, up)) : t.letter ≠ none ∧ sp.chars = [] := by
  have htrim := Tail.trim_i buf hi
  cases hi' : t'.i with
  | none =>
    obtain ⟨-, str, c, hlast, hc⟩ := Tail.trim_no_i hbuf' hi'
    rw [← htext, htrim] at hlast
    obtain ⟨-, hcc⟩ := List.append_inj' hlast rfl
    exact absurd ((List.cons.inj hcc).1 ▸ i_eq up) hc
  | some i' =>
    obtain ⟨sp', up'⟩ := i'
    obtain ⟨hletter', hsp'⟩ := hnext sp' up' hi'
    obtain ⟨l, hl⟩ := Option.ne_none_iff_exists'.mp hletter'
    rw [htext, Tail.trim_i buf' hi', hsp', List.append_nil] at htrim
    obtain ⟨hfront, -⟩ := List.append_inj' htrim rfl
    have hunit : t'.letterText = [l.1.char l.2] := by
      unfold Tail.letterText
      rw [hl, Option.elim_some]
    rw [hunit] at hfront
    -- the text in front of the `i` ends in the unit letter, so there is no space behind it
    have htrimmed : trimSpaces (buf ++ t.gap.chars ++ t.letterText) =
        buf' ++ t'.gap.chars ++ [l.1.char l.2] := by
      rw [← trimSpaces_space _ sp, ← hfront, trimSpaces_concat (char_not_space l.1 l.2)]
    have hsp : sp.chars = [] := by
      have hlen := congrArg List.length (hfront.symm.trans htrimmed.symm)
      have hle := (List.rdropWhile_prefix (l := buf ++ t.gap.chars ++ t.letterText)
        isspace).length_le
      rw [List.length_append] at hlen
      unfold trimSpaces at hlen
      exact List.length_eq_zero_iff.mp (by omega)
    refine ⟨fun hnone => ?_, hsp⟩
    unfold Tail.letterText at htrimmed
    rw [hnone, Option.elim_none, List.append_nil, trimSpaces_space, hbuf.trim] at htrimmed
    obtain ⟨str, c, rfl, -, hplain, -⟩ := hbuf
    obtain ⟨-, hcc⟩ := List.append_inj' htrimmed rfl
    rw [(List.cons.inj hcc).1, unitLetter_char] at hplain
    cases hplain

/-- **However it is read.** Where a reading of a string is proper, each is. -/
theorem Loose.Proper.of_text_eq {n m : Loose} (h : m.Proper) (htext : n.text = m.text) :
    n.Proper := by
  have hcount := (m.countP_le_one_iff.mpr ⟨h.oneSign, h.noMinus⟩)
  rw [← htext] at hcount
  obtain ⟨hone, hminus⟩ := n.countP_le_one_iff.mp hcount
  have hbuf : n.run.chars = m.run.chars := by
    have hbufs := n.digitBuf_text.symm.trans ((congrArg digitBuf htext).trans m.digitBuf_text)
    unfold Loose.buf minusText at hbufs
    rwa [hminus, h.noMinus] at hbufs
  refine ⟨hone, hminus, fun c hc => h.together c (hbuf ▸ hc), fun sp up hi => ?_⟩
  have hassoc : ∀ n : Loose, n.text = n.outer.text ++ n.pre.text ++ n.inner.text ++ n.buf ++
      n.tail.text := by
    intro n
    unfold Loose.text
    simp only [List.append_assoc]
  rw [hassoc n, hassoc m] at htext
  exact Tail.next_of_text_eq (n.buf_endsPlain.append _) (m.buf_endsPlain.append _) htext h.iNext hi

theorem shaped_iff_proper (n : Loose) : Shaped n.text ↔ n.Proper := by
  constructor
  · rintro ⟨m, hm⟩
    exact m.loose_proper.of_text_eq (hm.symm.trans m.loose_text.symm)
  · exact fun h => h.shaped

/-! ## The parsers -/

variable {gmp : Gmp} {buf : List Char} {v : Int}

/-- The answers of a parser. -/
theorem IntType.parse_some (ty : IntType) (val : Int) (hne : buf ≠ [])
    (h : parseBigint gmp buf = some v) : ty.parse gmp buf val = ty.answer v val := by
  rw [ty.parse_eq, strParse, if_pos hne, h]
  exact ty.inRange_store v val

theorem IntType.parse_none (ty : IntType) (val : Int) (hne : buf ≠ [])
    (h : parseBigint gmp buf = none) : ty.parse gmp buf val = (Result.invalidArgs, val) := by
  rw [ty.parse_eq, strParse, if_pos hne, h]
  rfl

theorem IntType.parse_nil (ty : IntType) (val : Int) :
    ty.parse gmp [] val = (Result.anyFailures, val) := by
  rw [ty.parse_eq]
  rfl

theorem Loose.text_ne_nil (n : Loose) : n.text ≠ [] := by
  unfold Loose.text
  simp [n.buf_endsPlain.ne_nil]

/-- What a parser accepts. -/
theorem parse_ok_iff (hdoc : gmp.Documented) (ty : IntType) (buf : List Char) (val : Int) :
    (ty.parse gmp buf val).1 = Result.ok ↔
      ∃ n : Loose, n.text = buf ∧ ty.lower ≤ n.value ∧ n.value ≤ ty.upper := by
  by_cases hne : buf = []
  · subst hne
    rw [ty.parse_nil]
    exact iff_of_false (show ¬Result.anyFailures = Result.ok by decide)
      fun ⟨n, hn, _⟩ => n.text_ne_nil hn
  cases hparse : parseBigint gmp buf with
  | none =>
    rw [ty.parse_none val hne hparse]
    refine iff_of_false (show ¬Result.invalidArgs = Result.ok by decide) ?_
    rintro ⟨n, rfl, -⟩
    rw [parseBigint_loose hdoc n] at hparse
    cases hparse
  | some v =>
    rw [ty.parse_some val hne hparse]
    unfold IntType.answer
    by_cases hrange : ty.lower ≤ v ∧ v ≤ ty.upper
    · obtain ⟨n, hn, hv⟩ := exists_loose hdoc hparse
      rw [if_pos hrange]
      exact iff_of_true rfl ⟨n, hn, hv ▸ hrange⟩
    · rw [if_neg hrange]
      refine iff_of_false (show ¬Result.outOfRange = Result.ok by decide) ?_
      rintro ⟨n, rfl, hin⟩
      have hval := Option.some.inj ((parseBigint_loose hdoc n).symm.trans hparse)
      exact hrange (hval ▸ hin)

/-- What is rejected leaves `*val` alone. -/
theorem parse_rejected (ty : IntType) {val : Int}
    (h : (ty.parse gmp buf val).1 ≠ Result.ok) : (ty.parse gmp buf val).2 = val := by
  by_cases hne : buf = []
  · subst hne
    rw [ty.parse_nil]
  cases hparse : parseBigint gmp buf with
  | none => rw [ty.parse_none val hne hparse]
  | some v =>
    rw [ty.parse_some val hne hparse] at h ⊢
    unfold IntType.answer at h ⊢
    by_cases hrange : ty.lower ≤ v ∧ v ≤ ty.upper
    · rw [if_pos hrange] at h
      exact absurd rfl h
    · rw [if_neg hrange]

/-- **Where a parser rejects what has not the shape of a number.** For every string, type and
`*val`: a string that is not of the shape is rejected, with `*val` as it was, unless it can be read
as a number of the type with a second sign, with white space among its digits, or with an `i` that
is not right behind a unit letter. -/
theorem parse_shaped_iff (hdoc : gmp.Documented) (ty : IntType) (buf : List Char)
    (val : Int) :
    (¬Shaped buf → (ty.parse gmp buf val).1 ≠ Result.ok ∧ (ty.parse gmp buf val).2 = val) ↔
      ∀ n : Loose, n.text = buf → ty.lower ≤ n.value → n.value ≤ ty.upper → n.Proper := by
  constructor
  · rintro h n rfl hlo hhi
    by_contra hproper
    have hrejected := h (mt (shaped_iff_proper n).mp hproper)
    exact hrejected.1 ((parse_ok_iff hdoc ty _ val).mpr ⟨n, rfl, hlo, hhi⟩)
  · intro h hshaped
    have hret : (ty.parse gmp buf val).1 ≠ Result.ok := by
      intro hok
      obtain ⟨n, rfl, hlo, hhi⟩ := (parse_ok_iff hdoc ty buf val).mp hok
      exact hshaped (h n rfl hlo hhi).shaped
    exact ⟨hret, parse_rejected ty hret⟩

/-- A library that does what is documented. -/
def gmpDocumented : Gmp where
  setStr := mpzSetStr
  setStr_digits := fun {base digits} _ _ hne hall => by
    have hset := mpzSetStr_run none (.ofDigits digits hne hall : DigitRun base)
    rw [DigitRun.digits_ofDigits, minusVal, Option.isSome_none, if_neg Bool.false_ne_true,
      Int.one_mul] at hset
    exact hset

/-- A sign inside the digits is rejected. -/
theorem parse_shaped_iff_inside :
    (strParseInt32 gmpDocumented "1-2".toList 7).1 ≠ Result.ok ∧
      (strParseInt32 gmpDocumented "1-2".toList 7).2 = 7 := by
  have hdoc : gmpDocumented.Documented := fun _ _ _ _ => rfl
  have hnone : ∀ n : Loose, n.text ≠ "1-2".toList := by
    intro n hn
    have hparse := parseBigint_loose hdoc n
    rw [hn] at hparse
    cases hparse
  refine (parse_shaped_iff hdoc .int32 "1-2".toList 7).mpr (fun n hn => absurd hn (hnone n)) ?_
  rintro ⟨n, hn⟩
  exact hnone n.loose (n.loose_text.trans hn)

/-- No white space. -/
def noSpace : Space := ⟨[], Space.all_nil⟩

def Sign.alone (s : Sign) : Signed := ⟨noSpace, s, noSpace⟩

def twoSigns : Loose where
  outer := Sign.minus.alone
  pre := .none
  inner := Sign.minus.alone
  minus := none
  run := .ofDigits ['5'] nofun (List.all_eq_true.mp rfl)
  tail := ⟨noSpace, none, none, noSpace⟩
  placed := nofun
  doubled := nofun
  taken := nofun

def oneTwo : DigitRun 10 where
  chars := ['1', ' ', '2']
  all := by
    have hall : ['1', ' ', '2'].all (fun c => isDigit 10 c || isspace c) = true := rfl
    intro c hc
    exact (Bool.or_eq_true ..).mp (List.all_eq_true.mp hall c hc)
  first := ⟨'1', _, rfl, rfl⟩
  last := ⟨['1', ' '], '2', rfl, rfl⟩

def blankInside : Loose where
  outer := Sign.none.alone
  pre := .none
  inner := Sign.none.alone
  minus := none
  run := oneTwo
  tail := ⟨noSpace, none, none, noSpace⟩
  placed := nofun
  doubled := nofun
  taken := fun _ _ => not_prefix_of_getBase rfl

def strayI : Loose where
  outer := Sign.none.alone
  pre := .none
  inner := Sign.none.alone
  minus := none
  run := .ofDigits ['1', '2'] nofun (List.all_eq_true.mp rfl)
  tail := ⟨noSpace, none, some (noSpace, false), noSpace⟩
  placed := nofun
  doubled := nofun
  taken := fun _ _ => not_prefix_of_getBase rfl

/-- Two signs are read, one at each level; digits with a blank between them; and an `i` without a
unit. -/
theorem loose_accepted :
    (¬Shaped "--5".toList ∧ strParseInt32 gmpDocumented "--5".toList 7 = (Result.ok, 5)) ∧
    (¬Shaped "1 2".toList ∧ strParseInt32 gmpDocumented "1 2".toList 7 = (Result.ok, 12)) ∧
    (¬Shaped "12i".toList ∧ strParseInt32 gmpDocumented "12i".toList 7 = (Result.ok, 12)) := by
  refine ⟨⟨?_, by decide⟩, ⟨?_, by decide⟩, ⟨?_, by decide⟩⟩
  · exact mt (shaped_iff_proper twoSigns).mp fun h => h.oneSign.elim nofun nofun
  · refine mt (shaped_iff_proper blankInside).mp fun h => ?_
    have hblank : ' ' ∈ blankInside.run.chars := List.mem_cons_of_mem _ List.mem_cons_self
    exact absurd (h.together ' ' hblank) (by decide)
  · exact mt (shaped_iff_proper strayI).mp fun h => (h.iNext noSpace false rfl).1 rfl

end StrUtils
end Gallus
