import Gallus.Dstring.Text
import Mathlib.Data.List.TakeWhile

/-!
# Formats that are printed twice (`dstring.c`)

A formatted write calls `vsnprintf` once for the length and once for the text, and each of the two
can fail, or the second can make another text than the first. The calls of `dstring.c` on such a
`Formatted`, with a text of any bytes, NUL ones included.

* `Stored ds s`: the record stores the bytes `s`, with a terminator behind them.
* `Appended`, `Placed`: what a formatted write leaves, by the point where it fails.
* `vappendf_of`, `putBefore_of`: with a format that makes one text, these are the calls of `Text`.
-/

namespace Gallus
namespace Dstring
namespace TwoPass

open Block

/-- A text whose length is an `int`. -/
abbrev Text : Type := {text : List UInt8 // text.length ≤ intMax}

/-- What the two calls of `vsnprintf` make of a format and its arguments, `none` where one fails. -/
structure Formatted where
  first : Option Text
  second : Option Text

/-- What the allocator grants during a call. -/
structure Memory where
  realloc : Nat → Bool
  strdup : Nat → Bool
  realloc_lt : ∀ n, realloc n = true → n < 2 ^ 63

/-- What `vsnprintf` returns. -/
def vsnprintf : Option Text → Int
  | none => -1
  | some text => text.1.length

theorem vsnprintf_some (text : Text) : vsnprintf (some text) = text.1.length := rfl

/-- What `vsnprintf` writes with `n` bytes at `pos`. -/
def vsnprintfAt (str : Block UInt8) (pos n : Nat) : Option Text → Option (Block UInt8)
  | none => some str
  | some text => Dstring.vsnprintfAt str pos n text.1

/-- `gallus_dstring_vappendf`, on a string. -/
def vappendf (mem : Memory) (ds : Record) (args : Formatted) : Option (Record × Result) :=
  let preSize := vsnprintf args.first
  if 0 ≤ preSize then
    let (ds, ret) := strRealloc mem.realloc ds (sizeT preSize)
    if ret = Result.ok then do
      let str ← ds.str
      let str ← vsnprintfAt str ds.strSize (sizeT (i32 (preSize + nullStrSize))) args.second
      let size := vsnprintf args.second
      if 0 ≤ size ∧ size = preSize then
        some ({ ds with str := some str, strSize := sizeT (ds.strSize + sizeT size) }, Result.ok)
      else some (strFree { ds with str := some str }, Result.outOfRange)
    else some (ds, ret)
  else some (ds, Result.outOfRange)

/-- The common body of `vprependf` and `vinsertf`. -/
def putBefore (mem : Memory) (ds : Record) (offset : Nat) (args : Formatted) :
    Option (Record × Result) :=
  let preSize := vsnprintf args.first
  if 0 ≤ preSize then
    let (ds, ret) := strRealloc mem.realloc ds (sizeT preSize)
    if ret = Result.ok then do
      let cpyStr ← dsStrdup mem.strdup ds offset
      match cpyStr with
      | some cpyStr =>
        let str ← ds.str
        let str ← vsnprintfAt str offset (sizeT (i32 (preSize + nullStrSize))) args.second
        let size := vsnprintf args.second
        if 0 ≤ size ∧ size = preSize then
          let str ← memmove str (sizeT size + offset) cpyStr (ds.strSize - offset)
          let strSize := sizeT (ds.strSize + sizeT size)
          let str ← str.write strSize [nul]
          some ({ ds with str := some str, strSize }, Result.ok)
        else some (strFree { ds with str := some str }, Result.outOfRange)
      | none => some (strFree ds, Result.noMemory)
    else some (strFree ds, Result.noMemory)
  else some (strFree ds, Result.outOfRange)

/-- `gallus_dstring_vprependf`, on a string. -/
def vprependf (mem : Memory) (ds : Record) (args : Formatted) : Option (Record × Result) :=
  putBefore mem ds 0 args

/-- `gallus_dstring_vinsertf`, on a string. -/
def vinsertf (mem : Memory) (ds : Record) (offset : Nat) (args : Formatted) :
    Option (Record × Result) :=
  if offset ≤ ds.strSize then putBefore mem ds offset args
  else some (ds, Result.invalidArgs)

/-! ## One text -/

/-- The text, if its length is an `int`. -/
def Text.of (text : List UInt8) : Option Text :=
  if h : text.length ≤ intMax then some ⟨text, h⟩ else none

/-- Both calls of `vsnprintf` make the text. -/
def Formatted.of (text : List UInt8) : Formatted where
  first := Text.of text
  second := Text.of text

/-- One allocator for `realloc` and `strdup`. -/
def Memory.of (alloc : Nat → Bool) (hmax : ∀ n, alloc n = true → n < 2 ^ 63) : Memory where
  realloc := alloc
  strdup := alloc
  realloc_lt := hmax

theorem vsnprintf_of (text : List UInt8) : vsnprintf (Text.of text) = Dstring.vsnprintf text := by
  unfold Text.of Dstring.vsnprintf
  split_ifs <;> rfl

theorem vsnprintfAt_of (str : Block UInt8) (pos n : Nat) (text : List UInt8) :
    vsnprintfAt str pos n (Text.of text) = Dstring.vsnprintfAt str pos n text := by
  unfold Text.of
  split_ifs with hlen
  · rfl
  · unfold Dstring.vsnprintfAt
    rw [if_pos (.inr (Nat.lt_of_not_le hlen))]
    rfl

variable {mem : Memory} {ds : Record} {s text : List UInt8} {args : Formatted} {offset n : Nat}

theorem vappendf_of {alloc : Nat → Bool} (hmax : ∀ n, alloc n = true → n < 2 ^ 63) :
    vappendf (.of alloc hmax) ds (.of text) = Dstring.vappendf alloc ds text := by
  simp only [vappendf, Dstring.vappendf, Formatted.of, vsnprintf_of, vsnprintfAt_of, Memory.of]

theorem putBefore_of {alloc : Nat → Bool} (hmax : ∀ n, alloc n = true → n < 2 ^ 63) :
    putBefore (.of alloc hmax) ds offset (.of text) = Dstring.putBefore alloc ds offset text := by
  unfold putBefore
  simp only [-eq_self, Formatted.of, vsnprintf_of, vsnprintfAt_of, Memory.of]
  rfl

/-! ## What a record stores -/

/-- The C string at the start of some bytes. -/
def cString (s : List UInt8) : List UInt8 := s.takeWhile (· ≠ nul)

/-- The record stores the bytes `s`. -/
structure Stored (ds : Record) (s : List UInt8) : Prop where
  len : ds.strSize = s.length
  unallocated : ds.str = none → s = []
  block : ∀ str, ds.str = some str →
    str.size = ds.size ∧ str.size < 2 ^ 63 ∧ str.Holds 0 (s ++ [nul])

theorem Stored.init : Stored .init [] where
  len := rfl
  unallocated := fun _ => rfl
  block := fun _ h => by contradiction

/-- A block for the bytes is longer than they are. -/
theorem Stored.length_lt (h : Stored ds s) {str : Block UInt8} (hstr : ds.str = some str) :
    s.length + 1 ≤ ds.size := by
  obtain ⟨hsize, -, hholds⟩ := h.block str hstr
  have hfits := hholds.fits
  rw [List.length_append, List.length_singleton] at hfits
  omega

theorem Stored.length_range (h : Stored ds s) : s.length < 2 ^ 63 := by
  cases hstr : ds.str with
  | none =>
    rw [h.unallocated hstr]
    decide
  | some str =>
    obtain ⟨hsize, hlt, -⟩ := h.block str hstr
    have hlen := h.length_lt hstr
    omega

/-- A block after some writes stores the bytes that are in it. -/
theorem Stored.of_holds {str : Block UInt8} (hstr : ds.str = some str) (hsize : str.size = ds.size)
    (hlt : str.size < 2 ^ 63) (hlen : ds.strSize = s.length) (hholds : str.Holds 0 (s ++ [nul])) :
    Stored ds s where
  len := hlen
  unallocated := fun hn => by
    rw [hstr] at hn
    contradiction
  block := fun str' h => by
    obtain rfl : str = str' := Option.some.inj (hstr.symm.trans h)
    exact ⟨hsize, hlt, hholds⟩

theorem Stored.lenGet_eq (h : Stored ds s) : lenGet ds = s.length := by
  rw [lenGet, h.len]
  exact i64_natCast h.length_range

theorem nul_notMem_cString (s : List UInt8) : nul ∉ cString s := fun hmem => by
  simpa using List.mem_takeWhile_imp hmem

theorem cString_eq_self (h : nul ∉ s) : cString s = s := by
  refine List.takeWhile_eq_self_iff.mpr fun x hx => ?_
  rw [decide_eq_true_eq]
  rintro rfl
  exact h hx

/-- Bytes and their terminator begin with a C string and its terminator. -/
theorem exists_cString (s : List UInt8) : ∃ rest, s ++ [nul] = (cString s ++ [nul]) ++ rest := by
  induction s with
  | nil => exact ⟨[], rfl⟩
  | cons x s ih =>
    by_cases hx : x = nul
    · subst hx
      exact ⟨s ++ [nul], by simp [cString]⟩
    · obtain ⟨rest, hrest⟩ := ih
      refine ⟨rest, ?_⟩
      rw [cString, List.takeWhile_cons_of_pos (by simpa using hx), List.cons_append, hrest]
      rfl

/-- What `DS_STRDUP` reads of bytes that are in the block if there are any. -/
theorem dsStrdup_eq {alloc : Nat → Bool} (hlen : ds.strSize = s.length)
    (hblock : s ≠ [] → ∃ str, ds.str = some str ∧ str.Holds 0 (s ++ [nul]))
    (hoff : offset ≤ s.length) :
    dsStrdup alloc ds offset = some (strdup alloc (cString (s.drop offset))) := by
  unfold dsStrdup
  rw [hlen]
  by_cases hs : s = []
  · subst hs
    rw [List.drop_nil]
    rfl
  · rw [if_neg fun hlen => hs (List.length_eq_zero_iff.mp hlen)]
    obtain ⟨str, hstr, hholds⟩ := hblock hs
    have hdrop : str.Holds offset (s.drop offset ++ [nul]) := by
      rw [← List.take_append_drop offset s, List.append_assoc] at hholds
      have hrest := (holds_append.mp hholds).2
      rwa [List.length_take, Nat.min_eq_left hoff, Nat.zero_add] at hrest
    obtain ⟨rest, hrest⟩ := exists_cString (s.drop offset)
    rw [hrest] at hdrop
    have hread := (holds_append.mp hdrop).1.readUntil_eq (nul_notMem_cString _)
    rw [hstr]
    show (str.readUntil nul offset).map (strdup alloc) = _
    rw [hread]
    rfl

theorem Stored.strGet_eq {alloc : Nat → Bool} (h : Stored ds s) :
    strGet alloc ds = some (strdup alloc (cString s)) := by
  refine dsStrdup_eq h.len (fun hs => ?_) (Nat.zero_le _)
  cases hstr : ds.str with
  | none => exact absurd (h.unallocated hstr) hs
  | some str => exact ⟨str, rfl, (h.block str hstr).2.2⟩

/-! ## Room for a text -/

/-- `str_realloc` asks for more, and does not get it. -/
def refused (mem : Memory) (ds : Record) (n : Nat) : Prop :=
  (ds.str.isNone ∨ n ≠ 0 ∧ ds.size < ds.strSize + n + nullStrSize) ∧
    mem.realloc (ds.strSize + n + nullStrSize) = false

instance : Decidable (refused mem ds n) := inferInstanceAs (Decidable (_ ∧ _))

/-- The block has room for `n` more bytes than `s`. -/
structure Space (ds : Record) (str : Block UInt8) (s : List UInt8) (n : Nat) : Prop where
  block : ds.str = some str
  size : str.size = ds.size
  size_lt : str.size < 2 ^ 63
  fits : s.length + n + 1 ≤ str.size
  len : ds.strSize = s.length
  holds : str.Holds 0 s
  terminated : s ≠ [] → str.Holds 0 (s ++ [nul])

/-- `str_realloc` makes room for `n` more bytes and keeps those that are stored. -/
theorem Stored.strRealloc_cases (h : Stored ds s) (mem : Memory) (hn : n ≤ intMax) :
    refused mem ds n ∧ strRealloc mem.realloc ds n = (ds, Result.noMemory) ∨
      ¬refused mem ds n ∧
        ∃ ds' str, strRealloc mem.realloc ds n = (ds', Result.ok) ∧ Space ds' str s n := by
  have hlen := h.length_range
  have hsum : sizeT (ds.strSize + n + nullStrSize) = ds.strSize + n + nullStrSize := by
    unfold intMax at hn
    unfold nullStrSize
    rw [h.len]
    exact_mod_cast sizeT_natCast (n := s.length + n + 1) (by omega)
  have hneed : ds.strSize + n + nullStrSize = s.length + n + 1 := by
    rw [h.len]
    rfl
  unfold strRealloc refused
  simp only [hsum, hneed]
  by_cases hmore : ds.str.isNone ∨ n ≠ 0 ∧ ds.size < s.length + n + 1
  · rw [if_pos hmore]
    by_cases hgrant : mem.realloc (s.length + n + 1)
    · rw [if_pos hgrant]
      refine .inr ⟨fun hno => ?_, _, realloc ds.str (s.length + n + 1), rfl, ?_⟩
      · rw [hgrant] at hno
        exact absurd hno.2 (by decide)
      cases hstr : ds.str with
      | none =>
        obtain rfl := h.unallocated hstr
        exact ⟨rfl, rfl, mem.realloc_lt _ hgrant, Nat.le_refl _, h.len, .nil (Nat.zero_le _),
          fun hs => absurd rfl hs⟩
      | some str =>
        obtain ⟨-, -, hholds⟩ := h.block str hstr
        have hnew : (str.resize (s.length + n + 1)).Holds 0 (s ++ [nul]) :=
          hholds.resize (by rw [List.length_append, List.length_singleton]; omega)
        exact ⟨rfl, rfl, mem.realloc_lt _ hgrant, Nat.le_refl _, h.len, (holds_append.mp hnew).1,
          fun _ => hnew⟩
    · rw [if_neg hgrant]
      exact .inl ⟨⟨hmore, by simpa using hgrant⟩, rfl⟩
  · rw [if_neg hmore]
    refine .inr ⟨fun hno => hmore hno.1, ?_⟩
    rw [not_or, Option.isNone_iff_eq_none, ← ne_eq, Option.ne_none_iff_exists'] at hmore
    obtain ⟨⟨str, hstr⟩, hroom⟩ := hmore
    obtain ⟨hsize, hlt, hholds⟩ := h.block str hstr
    have hfits := h.length_lt hstr
    exact ⟨ds, str, rfl, hstr, hsize, hlt, by omega, h.len, (holds_append.mp hholds).1,
      fun _ => hholds⟩

/-- The sum of the lengths is no `size_t` that has run past its end. -/
theorem Space.strSize_eq {str : Block UInt8} (h : Space ds str s n) :
    sizeT ((s.length : Int) + n) = s.length + n := by
  have hfits := h.fits
  have hlt := h.size_lt
  exact_mod_cast sizeT_natCast (n := s.length + n) (by omega)

/-! ## The writes -/

theorem sizeT_length (text : Text) : sizeT (text.1.length : Int) = text.1.length := by
  have hlen := text.2
  unfold intMax at hlen
  exact sizeT_natCast (by omega)

/-- The limit that a call gives to `vsnprintf` is the length with the terminator, if this is an
`int`; else it is above every text. -/
theorem limit_cases (text : Text) :
    sizeT (i32 ((text.1.length : Int) + nullStrSize)) = text.1.length + 1 ∨
      text.1.length = intMax ∧ intMax + 1 ≤ sizeT (i32 ((text.1.length : Int) + nullStrSize)) := by
  have hlen := text.2
  unfold intMax at hlen ⊢
  unfold sizeT i32 nullStrSize
  have hbmod := Int.bmod_def ((text.1.length : Int) + (1 : Nat)) (2 ^ 32)
  split_ifs at hbmod <;> omega

theorem vsnprintfAt_eq (str : Block UInt8) (pos : Nat) (text : Text) (hn : text.1.length + 1 ≤ n) :
    vsnprintfAt str pos n (some text) = str.write pos (text.1 ++ [nul]) := by
  have hlen := text.2
  simp only [vsnprintfAt, Dstring.vsnprintfAt]
  rw [if_neg (by omega), List.take_of_length_le (by omega)]

/-- The second call of `vsnprintf` stays inside a block with room for the first text, whatever it
makes. -/
theorem vsnprintfAt_fits (str : Block UInt8) (pos : Nat) (text : Text) (second : Option Text)
    (hfits : pos + text.1.length + 1 ≤ str.size) :
    ∃ str', vsnprintfAt str pos (sizeT (i32 ((text.1.length : Int) + nullStrSize))) second =
      some str' := by
  cases second with
  | none => exact ⟨str, rfl⟩
  | some second =>
    have hsecond := second.2
    have hlimit := limit_cases text
    simp only [vsnprintfAt, Dstring.vsnprintfAt]
    generalize sizeT (i32 ((text.1.length : Int) + nullStrSize)) = n at hlimit ⊢
    split_ifs with hn
    · exact ⟨str, rfl⟩
    · obtain ⟨str', hwrite, -⟩ := write_eq_some str pos (second.1.take (n - 1) ++ [nul]) (by
        rw [List.length_append, List.length_take, List.length_singleton]
        omega)
      exact ⟨str', hwrite⟩

/-- All of the bytes are moved from their copy, which ends at the first NUL, with its terminator. -/
theorem memmove_eq (str : Block UInt8) (pos : Nat) (hn : n = s.length)
    (hcopy : s.length ≤ (cString s).length + 1) :
    memmove str pos (cString s) n = str.write pos s := by
  obtain ⟨rest, hrest⟩ := exists_cString s
  have htake : (cString s ++ [nul]).take s.length = s := by
    have hle : s.length ≤ (cString s ++ [nul]).length := by
      rwa [List.length_append, List.length_singleton]
    have hsame : (cString s ++ [nul] ++ rest).take s.length = (cString s ++ [nul]).take s.length :=
      List.take_append_of_le_length hle
    rw [← hsame, ← hrest, List.take_left' rfl]
  unfold memmove
  rw [if_pos (by omega), hn, htake]

/-- The second call of `vsnprintf` makes a text of the length that the first one has counted. -/
def agrees (second : Option Text) (text : Text) : Prop :=
  ∃ t ∈ second, t.1.length = text.1.length

instance {second : Option Text} {text : Text} : Decidable (agrees second text) :=
  inferInstanceAs (Decidable (∃ t ∈ second, _))

theorem agrees_iff {second : Option Text} {text : Text} :
    agrees second text ↔ 0 ≤ vsnprintf second ∧ vsnprintf second = text.1.length := by
  unfold agrees
  cases second with
  | none =>
    refine ⟨fun ⟨t, ht, _⟩ => by contradiction, fun ⟨hneg, _⟩ => ?_⟩
    exact absurd hneg (by decide)
  | some t =>
    rw [vsnprintf_some]
    refine ⟨fun ⟨t', ht, hlen⟩ => ?_, fun ⟨_, hlen⟩ => ⟨t, rfl, Int.natCast_inj.mp hlen⟩⟩
    cases ht
    exact ⟨Int.natCast_nonneg _, congrArg _ hlen⟩

/-- Bytes that are all moved from their copy: there is no NUL before the last one. -/
def copied (s : List UInt8) : Prop := s.length ≤ (cString s).length + 1

instance : Decidable (copied s) := inferInstanceAs (Decidable (_ ≤ _))

/-- What a formatted append leaves. -/
inductive Appended (mem : Memory) (ds : Record) (s : List UInt8) (args : Formatted) :
    Option (Record × Result) → Prop
  | unmade (hfirst : args.first = none) : Appended mem ds s args (some (ds, Result.outOfRange))
  | refused {text : Text} (hfirst : args.first = some text) (hno : refused mem ds text.1.length) :
    Appended mem ds s args (some (ds, Result.noMemory))
  | freed {text : Text} (hfirst : args.first = some text)
    (hgot : ¬TwoPass.refused mem ds text.1.length) (hsecond : ¬agrees args.second text)
    (ds' : Record) (hsize : 0 < ds'.size) :
    Appended mem ds s args (some (strFree ds', Result.outOfRange))
  | done {text second : Text} (hfirst : args.first = some text)
    (hgot : ¬TwoPass.refused mem ds text.1.length) (hsecond : args.second = some second)
    (hlen : second.1.length = text.1.length) (ds' : Record) (hs : Stored ds' (s ++ second.1))
    (hstr : ds'.str ≠ none) : Appended mem ds s args (some (ds', Result.ok))

theorem Stored.appended (h : Stored ds s) (mem : Memory) (args : Formatted) :
    Appended mem ds s args (vappendf mem ds args) := by
  unfold vappendf
  cases hfirst : args.first with
  | none => exact .unmade hfirst
  | some text =>
    have hpre : 0 ≤ vsnprintf (some text) := Int.natCast_nonneg _
    rw [if_pos hpre]
    simp only [vsnprintf_some, sizeT_length]
    rcases h.strRealloc_cases mem text.2 with ⟨hno, hr⟩ | ⟨hgot, ds', str, hr, hspace⟩
    · rw [hr]
      exact .refused hfirst hno
    simp only [hr, if_true]
    have hfits := hspace.fits
    rw [hspace.block, Option.bind_eq_bind, Option.bind_some, hspace.len]
    by_cases hagree : agrees args.second text
    · have hret := agrees_iff.mp hagree
      obtain ⟨second, hsecond, hlen⟩ := hagree
      have hlimit := limit_cases text
      have hsecondLen := second.2
      rw [hsecond, vsnprintfAt_eq _ _ _ (by omega)]
      obtain ⟨str', hwrite, hsize'⟩ := write_eq_some str s.length (second.1 ++ [nul])
        (by rw [List.length_append, List.length_singleton]; omega)
      rw [hwrite, Option.bind_some, if_pos (hsecond ▸ hret)]
      refine .done hfirst hgot hsecond hlen _ ?_ (by simp)
      refine .of_holds rfl (hsize'.trans hspace.size) (hsize' ▸ hspace.size_lt) ?_ ?_
      · rw [List.length_append, vsnprintf_some, sizeT_length, hlen]
        exact hspace.strSize_eq
      · rw [List.append_assoc]
        refine holds_append.mpr ⟨hspace.holds.of_write_after hwrite (by omega), ?_⟩
        rw [Nat.zero_add]
        exact holds_write hwrite
    · obtain ⟨str', hwrite⟩ := vsnprintfAt_fits str s.length text args.second (by omega)
      rw [hwrite, Option.bind_some, if_neg fun hok => hagree (agrees_iff.mpr hok)]
      refine .freed hfirst hgot hagree _ ?_
      have hsize := hspace.size
      show 0 < ds'.size
      omega

/-- What a text in front of what is from `offset` on leaves, an access outside a block included. -/
inductive Placed (mem : Memory) (ds : Record) (s : List UInt8) (offset : Nat) (args : Formatted) :
    Option (Record × Result) → Prop
  | unmade (hfirst : args.first = none) :
    Placed mem ds s offset args (some (strFree ds, Result.outOfRange))
  | refused {text : Text} (hfirst : args.first = some text)
    (hno : TwoPass.refused mem ds text.1.length) :
    Placed mem ds s offset args (some (strFree ds, Result.noMemory))
  | uncopied {text : Text} (hfirst : args.first = some text)
    (hgot : ¬TwoPass.refused mem ds text.1.length)
    (hdup : mem.strdup ((cString (s.drop offset)).length + 1) = false) (ds' : Record)
    (hsize : 0 < ds'.size) : Placed mem ds s offset args (some (strFree ds', Result.noMemory))
  | freed {text : Text} (hfirst : args.first = some text)
    (hgot : ¬TwoPass.refused mem ds text.1.length) (hsecond : ¬agrees args.second text)
    (ds' : Record) (hsize : 0 < ds'.size) :
    Placed mem ds s offset args (some (strFree ds', Result.outOfRange))
  | overread {text : Text} (hfirst : args.first = some text)
    (hgot : ¬TwoPass.refused mem ds text.1.length) (hcopied : ¬copied (s.drop offset)) :
    Placed mem ds s offset args none
  | done {text second : Text} (hfirst : args.first = some text)
    (hgot : ¬TwoPass.refused mem ds text.1.length)
    (hdup : mem.strdup ((cString (s.drop offset)).length + 1) = true)
    (hsecond : args.second = some second) (hlen : second.1.length = text.1.length)
    (hcopied : copied (s.drop offset)) (ds' : Record)
    (hs : Stored ds' (s.take offset ++ second.1 ++ s.drop offset)) (hstr : ds'.str ≠ none) :
    Placed mem ds s offset args (some (ds', Result.ok))

/-- The three writes of a text in front of what is from `offset` on. -/
theorem Space.placed {str : Block UInt8} (h : Space ds str s text.length)
    (hoff : offset ≤ s.length) :
    ∃ str₁ str₂ str₃, str.write offset (text ++ [nul]) = some str₁ ∧
      str₁.write (text.length + offset) (s.drop offset) = some str₂ ∧
      str₂.write (s.length + text.length) [nul] = some str₃ ∧
      Stored { ds with str := some str₃, strSize := s.length + text.length }
        (s.take offset ++ text ++ s.drop offset) := by
  have hfits := h.fits
  obtain ⟨str₁, hwrite₁, hsize₁⟩ := write_eq_some str offset
    (text ++ [nul]) (by rw [List.length_append, List.length_singleton]; omega)
  obtain ⟨str₂, hwrite₂, hsize₂⟩ := write_eq_some str₁ (text.length + offset)
    (s.drop offset) (by rw [List.length_drop]; omega)
  obtain ⟨str₃, hwrite₃, hsize₃⟩ := write_eq_some str₂ (s.length + text.length)
    [nul] (by rw [List.length_singleton]; omega)
  have hsize : str₃.size = str.size := by rw [hsize₃, hsize₂, hsize₁]
  refine ⟨str₁, str₂, str₃, hwrite₁, hwrite₂, hwrite₃, ?_⟩
  refine .of_holds rfl (hsize.trans h.size) (hsize ▸ h.size_lt) ?_ ?_
  · simp only [List.length_append, List.length_take, List.length_drop]
    omega
  · -- the characters before the offset, the text, the moved ones, and the terminator
    have htake : (s.take offset).length = offset := by
      rw [List.length_take]
      exact Nat.min_eq_left hoff
    have hbefore : str.Holds 0 (s.take offset) :=
      (holds_append.mp ((List.take_append_drop offset s).symm ▸ h.holds)).1
    have htext : str₁.Holds offset text := (holds_append.mp (holds_write hwrite₁)).1
    have hmoved := holds_write hwrite₂
    refine holds_append.mpr ⟨holds_append.mpr ⟨holds_append.mpr ⟨?_, ?_⟩, ?_⟩, ?_⟩
    · apply Holds.of_write_after _ hwrite₃ (by omega)
      apply Holds.of_write_after _ hwrite₂ (by omega)
      exact hbefore.of_write_after hwrite₁ (by omega)
    · rw [htake, Nat.zero_add]
      apply Holds.of_write_after _ hwrite₃ (by omega)
      exact htext.of_write_after hwrite₂ (by omega)
    · rw [List.length_append, htake, Nat.zero_add, Nat.add_comm]
      exact hmoved.of_write_after hwrite₃ (by rw [List.length_drop]; omega)
    · have hpos : 0 + (s.take offset ++ text ++ s.drop offset).length =
          s.length + text.length := by
        simp only [List.length_append, List.length_take, List.length_drop]
        omega
      rw [hpos]
      exact holds_write hwrite₃

theorem Stored.placed (h : Stored ds s) (mem : Memory) (args : Formatted)
    (hoff : offset ≤ s.length) : Placed mem ds s offset args (putBefore mem ds offset args) := by
  unfold putBefore
  cases hfirst : args.first with
  | none => exact .unmade hfirst
  | some text =>
    have hpre : 0 ≤ vsnprintf (some text) := Int.natCast_nonneg _
    rw [if_pos hpre]
    simp only [vsnprintf_some, sizeT_length]
    rcases h.strRealloc_cases mem text.2 with ⟨hno, hr⟩ | ⟨hgot, ds', str, hr, hspace⟩
    · rw [hr]
      exact .refused hfirst hno
    simp only [hr, if_true]
    have hfits := hspace.fits
    have hsize : 0 < ds'.size := by
      have hsize := hspace.size
      omega
    rw [dsStrdup_eq hspace.len (fun hs => ⟨str, hspace.block, hspace.terminated hs⟩) hoff,
      Option.bind_eq_bind, Option.bind_some]
    cases hdup : mem.strdup ((cString (s.drop offset)).length + 1) with
    | false =>
      rw [strdup, hdup]
      exact .uncopied hfirst hgot hdup _ hsize
    | true =>
      rw [strdup, hdup, if_pos rfl]
      dsimp only
      rw [hspace.block, Option.bind_eq_bind, Option.bind_some]
      by_cases hagree : agrees args.second text
      · have hret := agrees_iff.mp hagree
        obtain ⟨second, hsecond, hlen⟩ := hagree
        have hlimit := limit_cases text
        have hsecondLen := second.2
        obtain ⟨str₁, str₂, str₃, hwrite₁, hwrite₂, hwrite₃, hstored⟩ :=
          (hlen ▸ hspace : Space ds' str s second.1.length).placed hoff
        rw [hsecond, vsnprintfAt_eq _ _ _ (by omega), hwrite₁, Option.bind_some,
          if_pos (hsecond ▸ hret), vsnprintf_some, sizeT_length, hspace.len]
        by_cases hcopied : copied (s.drop offset)
        · rw [memmove_eq _ _ (by rw [List.length_drop]) hcopied, hwrite₂, Option.bind_some]
          rw [hlen] at hwrite₃ hstored ⊢
          rw [hspace.strSize_eq, hwrite₃, Option.bind_some]
          exact .done hfirst hgot hdup hsecond hlen hcopied _ hstored (by simp)
        · have hover : memmove str₁ (second.1.length + offset) (cString (s.drop offset))
              (s.length - offset) = none := by
            unfold copied at hcopied
            rw [List.length_drop] at hcopied
            exact if_neg hcopied
          rw [hover]
          exact .overread hfirst hgot hcopied
      · obtain ⟨str', hwrite⟩ := vsnprintfAt_fits str offset text args.second (by omega)
        rw [hwrite, Option.bind_some, if_neg fun hok => hagree (agrees_iff.mpr hok)]
        exact .freed hfirst hgot hagree _ hsize

/-- A clear keeps the block. -/
theorem Stored.clear (h : Stored ds s) :
    ∃ ds', clear ds = some (ds', Result.ok) ∧ Stored ds' [] ∧ (ds'.str = none → ds' = ds) := by
  unfold Dstring.clear
  cases hstr : ds.str with
  | none =>
    obtain rfl := h.unallocated hstr
    exact ⟨ds, rfl, h, fun _ => rfl⟩
  | some str =>
    obtain ⟨hsize, hlt, hholds⟩ := h.block str hstr
    have hfits := h.length_lt hstr
    obtain ⟨str', hwrite, hsize'⟩ := write_eq_some str 0 [nul]
      (by rw [List.length_singleton]; omega)
    dsimp only
    rw [hwrite]
    exact ⟨_, rfl, .of_holds rfl (hsize'.trans hsize) (hsize' ▸ hlt) rfl (holds_write hwrite),
      fun hn => by contradiction⟩

end TwoPass
end Dstring
end Gallus
