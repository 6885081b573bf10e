import Gallus.StrUtils.Token
import Gallus.Lib.Block

/-!
# Escapes (`strutils.c`)

`gallus_str_escape` puts a backslash before each character of a set, into a block whose size it
counts first. `gallus_str_unescape` (`strUnescape`) takes the backslashes off again.

* `escapeWrite`: the loop, with a write outside the block as a failure.
* `strEscape_ok`: the block has room for the text and its NUL, and for no more.
* `strEscape_roundTrips_iff`: the text comes back if and only if the set is not empty and no odd
  number of backslashes is before a character of the set, or at the end.
-/

namespace Gallus
namespace StrUtils

/-! ## The functions -/

/-- The first loop of `gallus_str_escape`: `len` and `escapes_len`. -/
def escapeCount (escapeChars : List Char) : List Char → Nat → Nat → Nat × Nat
  | [], len, escapesLen => (len, escapesLen)
  | c :: cp, len, escapesLen =>
    if escapeChars.contains c then escapeCount escapeChars cp len (escapesLen + 2)
    else escapeCount escapeChars cp (len + 1) escapesLen

/-- The second loop: the characters are written from `pos` on. -/
def escapeWrite (escapeChars : List Char) :
    Block Char → Nat → List Char → Option (Block Char)
  | b, _, [] => some b
  | b, pos, c :: cp =>
    if escapeChars.contains c then
      (b.write pos ['\\']).bind fun b =>
        (b.write (pos + 1) [c]).bind fun b => escapeWrite escapeChars b (pos + 2) cp
    else (b.write pos [c]).bind fun b => escapeWrite escapeChars b (pos + 1) cp

/-- `strdup`. -/
def strdup (s : List Char) : Option (Block Char) :=
  (Block.new (s.length + 1)).write 0 (s ++ ['\x00'])

/-- What `gallus_str_escape` leaves: its result, and what it stores in `*is_escaped` and in
`*out_str`. -/
structure Escaped where
  ret : Result
  isEscaped : Option Bool
  outStr : Option (Block Char)

/-- `gallus_str_escape`, where `*out_str` is `outStr`. There is no result if something is written
outside the block. -/
def strEscape (inStr escapeChars : List Char) (outStr : Option (Block Char)) : Option Escaped :=
  if inStr ≠ [] ∧ escapeChars ≠ [] ∧ outStr.isNone then
    let (len, escapesLen) := escapeCount escapeChars inStr 0 0
    if escapesLen = 0 then
      (strdup inStr).map fun b => ⟨Result.ok, some false, some b⟩
    else
      (escapeWrite escapeChars (Block.new (len + escapesLen + 1)) 0 inStr).bind fun b =>
        (b.write (len + escapesLen) ['\x00']).map fun b => ⟨Result.ok, some true, some b⟩
  else some ⟨Result.invalidArgs, none, outStr⟩

/-! ## The escaped text -/

/-- The text with a backslash before each character of the set. -/
def escapeText (escapeChars : List Char) : List Char → List Char
  | [] => []
  | c :: s =>
    if escapeChars.contains c then '\\' :: c :: escapeText escapeChars s
    else c :: escapeText escapeChars s

section Text

variable {escapeChars s : List Char} {b : Block Char} {pos : Nat}

theorem escapeCount_text (escapeChars s : List Char) (len escapesLen : Nat) :
    (escapeCount escapeChars s len escapesLen).1 + (escapeCount escapeChars s len escapesLen).2 =
      len + escapesLen + (escapeText escapeChars s).length := by
  induction s generalizing len escapesLen with
  | nil => rfl
  | cons c s ih =>
    unfold escapeCount escapeText
    split_ifs
    · rw [ih]
      simp only [List.length_cons]
      omega
    · rw [ih]
      simp only [List.length_cons]
      omega

/-- Without a character to escape nothing is changed. -/
theorem escapeCount_zero {len escapesLen : Nat}
    (h : (escapeCount escapeChars s len escapesLen).2 = 0) :
    escapesLen = 0 ∧ escapeText escapeChars s = s := by
  induction s generalizing len escapesLen with
  | nil => exact ⟨h, rfl⟩
  | cons c s ih =>
    unfold escapeCount at h
    unfold escapeText
    split_ifs at h ⊢
    · have := (ih h).1
      omega
    · obtain ⟨hzero, htext⟩ := ih h
      exact ⟨hzero, by rw [htext]⟩

theorem escapeText_ne_nil (hs : s ≠ []) : escapeText escapeChars s ≠ [] := by
  obtain ⟨c, s, rfl⟩ := List.exists_cons_of_ne_nil hs
  unfold escapeText
  split_ifs <;> simp

theorem not_mem_escapeText {a : Char} (ha : a ≠ '\\') (h : a ∉ s) :
    a ∉ escapeText escapeChars s := by
  induction s with
  | nil => exact h
  | cons c s ih =>
    rw [List.mem_cons, not_or] at h
    have htail := ih h.2
    unfold escapeText
    split_ifs
    · simp [ha, h.1, htail]
    · simp [h.1, htail]

/-- The loop writes the escaped text, if there is room for it. -/
theorem escapeWrite_text (hroom : pos + (escapeText escapeChars s).length ≤ b.size) :
    ∃ b', escapeWrite escapeChars b pos s = some b' ∧ b'.size = b.size ∧
      b'.Holds pos (escapeText escapeChars s) ∧ ∀ i < pos, b'.cell i = b.cell i := by
  induction s generalizing b pos with
  | nil => exact ⟨b, rfl, rfl, .nil hroom, fun _ _ => rfl⟩
  | cons c s ih =>
    unfold escapeText at hroom ⊢
    unfold escapeWrite
    split_ifs at hroom ⊢
    · simp only [List.length_cons] at hroom
      obtain ⟨b₁, h₁, hsize₁⟩ := b.write_eq_some pos ['\\'] (by
        simp only [List.length_singleton]; omega)
      obtain ⟨b₂, h₂, hsize₂⟩ := b₁.write_eq_some (pos + 1) [c] (by
        simp only [List.length_singleton]; omega)
      have hroom₂ : pos + 2 + (escapeText escapeChars s).length ≤ b₂.size := by omega
      obtain ⟨b', h', hsize, hholds, hbefore⟩ := ih hroom₂
      refine ⟨b', ?_, by omega, ?_, fun i hi => ?_⟩
      · simp only [h₁, h₂, Option.bind_some, h']
      · have hsecond : b'.Holds (pos + 1) (c :: escapeText escapeChars s) := by
          refine Block.Holds.cons_iff.mpr ⟨by omega, ?_, hholds⟩
          rw [hbefore (pos + 1) (by omega), Block.cell_write h₂, if_pos (by simp)]
          simp
        refine Block.Holds.cons_iff.mpr ⟨by omega, ?_, hsecond⟩
        rw [hbefore pos (by omega), Block.cell_write h₂, if_neg (by omega), Block.cell_write h₁,
          if_pos (by simp)]
        simp
      · rw [hbefore i (by omega), Block.cell_write h₂, if_neg (by omega), Block.cell_write h₁,
          if_neg (by omega)]
    · simp only [List.length_cons] at hroom
      obtain ⟨b₁, h₁, hsize₁⟩ := b.write_eq_some pos [c] (by
        simp only [List.length_singleton]; omega)
      have hroom₁ : pos + 1 + (escapeText escapeChars s).length ≤ b₁.size := by omega
      obtain ⟨b', h', hsize, hholds, hbefore⟩ := ih hroom₁
      refine ⟨b', ?_, by omega, ?_, fun i hi => ?_⟩
      · simp only [h₁, Option.bind_some, h']
      · refine Block.Holds.cons_iff.mpr ⟨by omega, ?_, hholds⟩
        rw [hbefore pos (by omega), Block.cell_write h₁, if_pos (by simp)]
        simp
      · rw [hbefore i (by omega), Block.cell_write h₁, if_neg (by omega)]

end Text

/-- **The block of the escaped text.** It has room for the text and its NUL, and for no more. -/
theorem strEscape_ok {s escapeChars : List Char} (hs : s ≠ []) (he : escapeChars ≠ []) :
    ∃ isEscaped b, strEscape s escapeChars none = some ⟨Result.ok, some isEscaped, some b⟩ ∧
      b.size = (escapeText escapeChars s).length + 1 ∧
      b.Holds 0 (escapeText escapeChars s ++ ['\x00']) := by
  have hcount := escapeCount_text escapeChars s 0 0
  have hsame : (escapeCount escapeChars s 0 0).2 = 0 → 0 = 0 ∧ escapeText escapeChars s = s :=
    escapeCount_zero
  unfold strEscape
  rw [if_pos ⟨hs, he, rfl⟩]
  generalize escapeCount escapeChars s 0 0 = d at hcount hsame ⊢
  obtain ⟨len, escapesLen⟩ := d
  dsimp only at hcount hsame ⊢
  by_cases hzero : escapesLen = 0
  · rw [if_pos hzero, (hsame hzero).2]
    obtain ⟨b, hb, hsize⟩ := (Block.new (s.length + 1)).write_eq_some 0 (s ++ ['\x00']) (by
      simp [Block.new])
    refine ⟨false, b, ?_, hsize, Block.holds_write hb⟩
    unfold strdup
    rw [hb]
    rfl
  · rw [if_neg hzero]
    have hroom : 0 + (escapeText escapeChars s).length ≤
        (Block.new (len + escapesLen + 1) : Block Char).size := by
      show 0 + _ ≤ len + escapesLen + 1
      omega
    obtain ⟨b, hb, hsize, hholds, -⟩ := escapeWrite_text hroom
    have hsize' : b.size = len + escapesLen + 1 := hsize
    obtain ⟨b', hb', hsize''⟩ := b.write_eq_some (len + escapesLen) ['\x00'] (by
      simp only [List.length_singleton]; omega)
    refine ⟨true, b', ?_, by omega, ?_⟩
    · rw [hb, Option.bind_some, hb']
      rfl
    · refine Block.holds_append.mpr ⟨hholds.of_write_after hb' (by omega), ?_⟩
      rw [show 0 + (escapeText escapeChars s).length = len + escapesLen by omega]
      exact Block.holds_write hb'

/-! ## The round trip -/

/-- An even number of backslashes is before each character of the set, and at the end. `odd`: an
odd number of them is before the text. -/
def evenBackslashes (escapeChars : List Char) : Bool → List Char → Bool
  | odd, [] => !odd
  | odd, c :: s =>
    if c = '\\' then evenBackslashes escapeChars (!odd) s
    else if escapeChars.contains c then !odd && evenBackslashes escapeChars false s
    else evenBackslashes escapeChars false s

/-- The loop of `gallus_str_unescape` gives the text back. -/
theorem unescapeLoop_escapeText {escapeChars : List Char} (hbs : '\\' ∉ escapeChars) (odd : Bool)
    (s : List Char) :
    unescapeLoop escapeChars odd (escapeText escapeChars s) = (if odd then '\\' :: s else s) ↔
      evenBackslashes escapeChars odd s = true := by
  induction s generalizing odd with
  | nil => cases odd <;> simp [escapeText, unescapeLoop, evenBackslashes]
  | cons c s ih =>
    have heven := ih false
    have hodd := ih true
    simp only [Bool.false_eq_true, if_false, if_true] at heven hodd
    unfold escapeText evenBackslashes
    by_cases hc : c = '\\'
    · subst hc
      cases odd
      · simpa [unescapeLoop, hbs] using hodd
      · simpa [unescapeLoop, hbs] using heven
    · by_cases hmem : c ∈ escapeChars
      · cases odd
        · simpa [unescapeLoop, hmem, hc] using heven
        · -- The two backslashes are taken as a pair, and the character as one that stands alone.
          simp [unescapeLoop, hmem, hc, hbs, Ne.symm hc]
      · cases odd <;> simpa [unescapeLoop, hmem, hc] using heven

theorem escapeText_append (escapeChars s s' : List Char) :
    escapeText escapeChars (s ++ s') = escapeText escapeChars s ++ escapeText escapeChars s' := by
  induction s with
  | nil => rfl
  | cons c s ih =>
    rw [List.cons_append, escapeText, escapeText, ih]
    split_ifs <;> rfl

/-- The escaped text passes the checks of `gallus_str_unescape`. -/
theorem strUnescape_escapeText {s escapeChars : List Char} (hs : s ≠ []) (he : escapeChars ≠ [])
    (hbs : '\\' ∉ escapeChars) (retptr : Option (List Char)) :
    strUnescape (escapeText escapeChars s) escapeChars retptr =
      (((unescapeLoop escapeChars false (escapeText escapeChars s)).length : Result),
        if 0 < (unescapeLoop escapeChars false (escapeText escapeChars s)).length then
          some (unescapeLoop escapeChars false (escapeText escapeChars s)) else none) := by
  have hfirst : ¬ escapeChars.contains ((escapeText escapeChars s).getD 0 '\x00') := by
    obtain ⟨c, s, rfl⟩ := List.exists_cons_of_ne_nil hs
    unfold escapeText
    split_ifs with hmem
    · simpa using hbs
    · simpa using hmem
  have hlast : ∀ l, l = (escapeText escapeChars s).length →
      ¬ escapeChars.contains ((escapeText escapeChars s).getD (l - 1) '\x00') ∨
        2 ≤ l ∧ escapeChars.contains ((escapeText escapeChars s).getD (l - 1) '\x00') ∧
          (escapeText escapeChars s).getD (l - 2) '\x00' = '\\' := by
    rintro l rfl
    obtain ⟨s, c, rfl⟩ := (List.eq_nil_or_concat s).resolve_left hs
    rw [List.concat_eq_append, escapeText_append]
    by_cases hmem : c ∈ escapeChars
    · right
      simp [escapeText, hmem]
    · left
      simp [escapeText, hmem]
  unfold strUnescape
  rw [if_neg (by simp [escapeText_ne_nil hs, he])]
  dsimp only
  rw [if_pos ⟨hfirst, hlast _ rfl⟩]

/-- What is escaped and unescaped again. -/
def escapeUnescape (s escapeChars : List Char) :
    Option (Block Char × List Char × Result × Option (List Char)) := do
  let escaped ← strEscape s escapeChars none
  let b ← escaped.outStr
  let text ← b.readUntil '\x00' 0
  some (b, text, strUnescape text escapeChars none)

theorem escapeUnescape_eq {s escapeChars : List Char} (hs : s ≠ []) (hnul : '\x00' ∉ s)
    (he : escapeChars ≠ []) :
    ∃ b, escapeUnescape s escapeChars = some (b, escapeText escapeChars s,
      strUnescape (escapeText escapeChars s) escapeChars none) ∧
        (escapeText escapeChars s).length < b.size := by
  obtain ⟨isEscaped, b, hescape, hsize, hholds⟩ := strEscape_ok hs he
  have hread := hholds.readUntil_eq (not_mem_escapeText (by decide) hnul)
  refine ⟨b, ?_, by omega⟩
  simp only [escapeUnescape, hescape, hread, bind, Option.bind_some]

/-- The text comes back, through a block that has room for the escaped text, and no text gets
longer. -/
structure RoundTrips (s escapeChars : List Char) : Prop where
  back : ∃ b text, escapeUnescape s escapeChars = some (b, text, (s.length : Result), some s) ∧
    text.length < b.size
  shorter : ∀ org retptr r text, strUnescape org escapeChars retptr = (r, some text) → 0 < r →
    text.length ≤ org.length

/-- Without a character to escape, `gallus_str_escape` refuses every text. -/
theorem escapeUnescape_nil (s : List Char) : escapeUnescape s [] = none := by
  simp [escapeUnescape, strEscape]

/-- **The round trip.** A text comes back if and only if the set is not empty, and an even number of
backslashes is before each character of the set, and at the end. -/
theorem strEscape_roundTrips_iff {s escapeChars : List Char} (hs : s ≠ []) (hnul : '\x00' ∉ s)
    (hbs : '\\' ∉ escapeChars) :
    RoundTrips s escapeChars ↔
      escapeChars ≠ [] ∧ evenBackslashes escapeChars false s = true := by
  by_cases he : escapeChars = []
  · subst he
    refine iff_of_false ?_ fun h => h.1 rfl
    rintro ⟨⟨b, text, hback, -⟩, -⟩
    rw [escapeUnescape_nil] at hback
    cases hback
  have hloop := unescapeLoop_escapeText hbs false s
  simp only [Bool.false_eq_true, if_false] at hloop
  obtain ⟨b, hback, hroom⟩ := escapeUnescape_eq hs hnul he
  rw [strUnescape_escapeText hs he hbs] at hback
  rw [and_iff_right he]
  constructor
  · rintro ⟨⟨b', text, hback', -⟩, -⟩
    rw [hback, Option.some.injEq, Prod.mk.injEq, Prod.mk.injEq, Prod.mk.injEq] at hback'
    obtain ⟨-, -, -, hsome⟩ := hback'
    split_ifs at hsome
    exact hloop.mp (Option.some.inj hsome)
  · intro heven
    rw [hloop.mpr heven, if_pos (List.length_pos_iff.mpr hs)] at hback
    refine ⟨⟨b, _, hback, hroom⟩, fun org retptr r text h hr => ?_⟩
    obtain ⟨buf, hbuf, -, hlen⟩ := strUnescape_length h hr
    cases hbuf
    exact hlen

/-- Two backslashes before a quote. -/
theorem strEscape_roundTrips_iff_pair :
    evenBackslashes "\"".toList false "say \\\\\"hi".toList = true ∧
      RoundTrips "say \\\\\"hi".toList "\"".toList := by
  have h : evenBackslashes "\"".toList false "say \\\\\"hi".toList = true := by decide
  exact ⟨h, (strEscape_roundTrips_iff (by decide) (by decide) (by decide)).mpr
    ⟨by decide, h⟩⟩

/-- A backslash before a quote is doubled, and a backslash at the end is lost. -/
theorem roundTrip_broken :
    (escapeUnescape "\\\"".toList "\"".toList).map (fun e => e.2) =
        some ("\\\\\"".toList, 3, some "\\\\\"".toList) ∧
      (escapeUnescape "a\\".toList "\"".toList).map (fun e => e.2) =
        some ("a\\".toList, 1, some "a".toList) ∧
      ¬ RoundTrips "\\\"".toList "\"".toList ∧ ¬ RoundTrips "a\\".toList "\"".toList := by
  have hquote : (escapeUnescape "\\\"".toList "\"".toList).map (fun e => e.2) =
      some ("\\\\\"".toList, 3, some "\\\\\"".toList) := by decide
  have hend : (escapeUnescape "a\\".toList "\"".toList).map (fun e => e.2) =
      some ("a\\".toList, 1, some "a".toList) := by decide
  refine ⟨hquote, hend, ?_, ?_⟩
  · rintro ⟨⟨b, text, hback, -⟩, -⟩
    rw [hback] at hquote
    simp at hquote
  · rintro ⟨⟨b, text, hback, -⟩, -⟩
    rw [hback] at hend
    simp at hend

end StrUtils
end Gallus
