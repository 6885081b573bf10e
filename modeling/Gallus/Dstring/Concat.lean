import Gallus.Dstring.Failures
import Gallus.Dstring.Refines

/-!
# Concatenation (`dstring.c`)

`gallus_dstring_concat` appends the format `"%s"` with the buffer of the other string. A string that
nothing has been written to has no buffer, and `"%s"` makes `(null)` of `NULL`.

* `Reachable`: a string after any calls, with allocations and formats that fail at any point. `Sane`
  is what all of them keep.
* `Denotes ds s`: the length and the copy that the string gives are those of `s`.
* `concat_iff_hasBlock`: a concatenation is right exactly if the other string has a buffer, its
  length is an `int` and there is room. `nullConcat`: one that is not.
-/

namespace Gallus
namespace Dstring
namespace TwoPass

open Block

variable {mem : Memory} {ds ds' : Record} {args : Formatted} {offset n : Nat} {ret : Result}

/-! ## What all calls keep -/

/-- The counters are in range, and behind the string there is its terminator, if there is a block.
-/
structure Sane (ds : Record) : Prop where
  size_lt : ds.size < 2 ^ 63
  strSize_lt : ds.strSize < 2 ^ 63
  block : ∀ str, ds.str = some str →
    str.size = ds.size ∧ ds.strSize < ds.size ∧ str.cell ds.strSize = some nul

theorem Sane.init : Sane .init := ⟨by decide, by decide, nofun⟩

/-- The block is freed. -/
theorem Sane.strFree (hsize : ds.size < 2 ^ 63) (hstrSize : ds.strSize < 2 ^ 63) :
    Sane (Dstring.strFree ds) := ⟨hsize, hstrSize, nofun⟩

/-- The block has room for `n` more bytes. -/
structure Roomy (ds : Record) (n : Nat) (str : Block UInt8) : Prop where
  size_lt : ds.size < 2 ^ 63
  fits : ds.strSize + n < ds.size
  block : ds.str = some str
  size : str.size = ds.size

theorem Sane.strRealloc (h : Sane ds) (mem : Memory) (hn : n ≤ intMax) :
    Dstring.strRealloc mem.realloc ds n = (ds, Result.noMemory) ∨
      ∃ ds' str, Dstring.strRealloc mem.realloc ds n = (ds', Result.ok) ∧
        ds'.strSize = ds.strSize ∧ Roomy ds' n str := by
  have hlt := h.strSize_lt
  have hsum : sizeT (ds.strSize + n + nullStrSize) = ds.strSize + n + 1 := by
    unfold intMax at hn
    exact_mod_cast sizeT_natCast (n := ds.strSize + n + 1) (by omega)
  unfold Dstring.strRealloc
  simp only [hsum]
  split_ifs with hmore hgrant
  · refine .inr ⟨_, realloc ds.str (ds.strSize + n + 1), rfl, rfl, mem.realloc_lt _ hgrant,
      Nat.lt_succ_self _, rfl, ?_⟩
    cases ds.str <;> rfl
  · exact .inl rfl
  · rw [not_or, Option.isNone_iff_eq_none, ← ne_eq, Option.ne_none_iff_exists'] at hmore
    obtain ⟨⟨str, hstr⟩, hroom⟩ := hmore
    obtain ⟨hsize, hstored, -⟩ := h.block str hstr
    exact .inr ⟨ds, str, rfl, rfl, h.size_lt, by omega, hstr, hsize⟩

/-- A string with `n` more bytes and a terminator. -/
theorem Roomy.sane {str : Block UInt8} (h : Roomy ds n str) {str' : Block UInt8}
    (hsize : str'.size = str.size) (hcell : str'.cell (ds.strSize + n) = some nul) :
    Sane { ds with str := some str', strSize := sizeT ((ds.strSize : Int) + n) } := by
  have hfits := h.fits
  have hlt := h.size_lt
  have hsum : sizeT ((ds.strSize : Int) + n) = ds.strSize + n := by
    exact_mod_cast sizeT_natCast (n := ds.strSize + n) (by omega)
  rw [hsum]
  refine ⟨hlt, Nat.lt_trans hfits hlt, fun str'' h' => ?_⟩
  obtain rfl : str' = str'' := Option.some.inj h'
  exact ⟨hsize.trans h.size, hfits, hcell⟩

theorem size_vsnprintfAt {str str' : Block UInt8} {pos : Nat} {text : Option Text}
    (h : vsnprintfAt str pos n text = some str') : str'.size = str.size := by
  cases text with
  | none =>
    cases h
    rfl
  | some text =>
    simp only [vsnprintfAt, Dstring.vsnprintfAt] at h
    split_ifs at h
    · cases h
      rfl
    · exact size_write h

theorem Sane.vappendf (h : Sane ds) (hr : TwoPass.vappendf mem ds args = some (ds', ret)) :
    Sane ds' := by
  unfold TwoPass.vappendf at hr
  cases hfirst : args.first with
  | none =>
    rw [hfirst] at hr
    cases hr
    exact h
  | some text =>
    simp only [hfirst, vsnprintf_some, sizeT_length, Int.natCast_nonneg, if_true] at hr
    rcases h.strRealloc mem text.2 with hno | ⟨ds₁, str, hgot, hlen, hroom⟩
    · rw [hno] at hr
      cases hr
      exact h
    have hfits := hroom.fits
    simp only [hgot, hroom.block, Option.bind_eq_bind, Option.bind_some, if_true] at hr
    obtain ⟨str', hwrite, hr⟩ := Option.bind_eq_some_iff.mp hr
    by_cases hagree : agrees args.second text
    · rw [if_pos (agrees_iff.mp hagree), (agrees_iff.mp hagree).2, sizeT_length] at hr
      cases hr
      obtain ⟨second, hsecond, hlen'⟩ := hagree
      have hlimit := limit_cases text
      have hsecondLen := second.2
      rw [hsecond, vsnprintfAt_eq _ _ _ (by omega)] at hwrite
      refine hroom.sane (size_write hwrite) ?_
      rw [← hlen']
      have hholds := (holds_append.mp (holds_write hwrite)).2
      exact hholds.cell 0 Nat.one_pos
    · rw [if_neg fun hok => hagree (agrees_iff.mpr hok)] at hr
      cases hr
      exact .strFree hroom.size_lt (hlen ▸ h.strSize_lt)

theorem size_memmove {str str' : Block UInt8} {pos : Nat} {src : List UInt8}
    (h : memmove str pos src n = some str') : str'.size = str.size := by
  unfold memmove at h
  split_ifs at h
  exact size_write h

theorem Sane.putBefore (h : Sane ds)
    (hr : TwoPass.putBefore mem ds offset args = some (ds', ret)) : Sane ds' := by
  unfold TwoPass.putBefore at hr
  cases hfirst : args.first with
  | none =>
    rw [hfirst] at hr
    cases hr
    exact .strFree h.size_lt h.strSize_lt
  | some text =>
    simp only [hfirst, vsnprintf_some, sizeT_length, Int.natCast_nonneg, if_true] at hr
    rcases h.strRealloc mem text.2 with hno | ⟨ds₁, str, hgot, hlen, hroom⟩
    · rw [hno] at hr
      cases hr
      exact .strFree h.size_lt h.strSize_lt
    have hfreed := Sane.strFree hroom.size_lt (hlen ▸ h.strSize_lt)
    simp only [hgot, hroom.block, Option.bind_eq_bind, Option.bind_some, if_true] at hr
    obtain ⟨cpyStr, -, hr⟩ := Option.bind_eq_some_iff.mp hr
    cases cpyStr with
    | none =>
      cases hr
      exact hfreed
    | some cpyStr =>
      obtain ⟨str₁, hwrite₁, hr⟩ := Option.bind_eq_some_iff.mp hr
      by_cases hagree : agrees args.second text
      · rw [if_pos (agrees_iff.mp hagree), (agrees_iff.mp hagree).2, sizeT_length] at hr
        obtain ⟨str₂, hwrite₂, hr⟩ := Option.bind_eq_some_iff.mp hr
        obtain ⟨str₃, hwrite₃, hr⟩ := Option.bind_eq_some_iff.mp hr
        cases hr
        have hsize := (size_write hwrite₃).trans
          ((size_memmove hwrite₂).trans (size_vsnprintfAt hwrite₁))
        refine hroom.sane hsize ?_
        have hfits := hroom.fits
        have hlt := hroom.size_lt
        have hsum : sizeT ((ds₁.strSize : Int) + text.1.length) = ds₁.strSize + text.1.length := by
          exact_mod_cast sizeT_natCast (n := ds₁.strSize + text.1.length) (by omega)
        rw [hsum] at hwrite₃
        exact (holds_write hwrite₃).cell 0 Nat.one_pos
      · rw [if_neg fun hok => hagree (agrees_iff.mpr hok)] at hr
        cases hr
        exact hfreed

theorem Sane.clear (h : Sane ds) (hr : Dstring.clear ds = some (ds', ret)) : Sane ds' := by
  unfold Dstring.clear at hr
  cases hstr : ds.str with
  | none =>
    rw [hstr] at hr
    cases hr
    exact h
  | some str =>
    rw [hstr] at hr
    obtain ⟨str', hwrite, heq⟩ := Option.map_eq_some_iff.mp hr
    cases heq
    obtain ⟨hsize, hstored, -⟩ := h.block str hstr
    refine ⟨h.size_lt, Nat.two_pow_pos 63, fun str'' h' => ?_⟩
    obtain rfl : str' = str'' := Option.some.inj h'
    exact ⟨(size_write hwrite).trans hsize, Nat.zero_lt_of_lt hstored,
      (holds_write hwrite).cell 0 Nat.one_pos⟩

/-- A call that returns leaves a sane string. -/
theorem Sane.call (h : Sane ds) {c : Call} (hr : c.result ds = some (ds', ret)) : Sane ds' := by
  obtain ⟨mem, op⟩ := c
  cases op with
  | appendf args => exact h.vappendf hr
  | prependf args => exact h.putBefore hr
  | insertf offset args =>
    change vinsertf mem ds offset args = _ at hr
    unfold vinsertf at hr
    split_ifs at hr
    · exact h.putBefore hr
    · cases hr
      exact h
  | clear => exact h.clear hr

/-- The record of a string after some calls, of which any may have failed. -/
def Reachable (ds : Record) : Prop :=
  ∃ calls before s ret, Trans.run State.step .created calls = some (.live before ds s ret)

theorem Reachable.init : Reachable .init := ⟨[], _, _, _, rfl⟩

/-- One more append. -/
theorem Reachable.vappendf (h : Reachable ds)
    (hr : TwoPass.vappendf mem ds args = some (ds', ret)) : Reachable ds' := by
  obtain ⟨calls, before, s, ret', hrun⟩ := h
  have hstep : State.step (.live before ds s ret') ⟨mem, .appendf args⟩ =
      some (.after ds s (.appendf args) (some (ds', ret))) :=
    congrArg (fun r => some (State.after ds s _ r)) hr
  have hrun' : Trans.run State.step .created (calls ++ [⟨mem, .appendf args⟩]) =
      some (.after ds s (.appendf args) (some (ds', ret))) := by
    rw [Trans.run_append, hrun, Option.bind_some, Trans.run_cons, hstep]
    rfl
  exact ⟨_, _, _, _, hrun'⟩

theorem Reachable.sane (h : Reachable ds) : Sane ds := by
  obtain ⟨calls, before, s, ret, hrun⟩ := h
  have hany : Trans.Run State.step (fun _ _ => True) .created calls (.live before ds s ret) :=
    .of_run (fun _ _ _ => trivial) hrun
  have hinv := hany.inv
    (I := fun st => ∀ before ds s ret, st = .live before ds s ret → Sane ds)
    (fun st c st' hst _ hstep => ?_) (fun _ _ _ _ h => by cases h; exact .init)
  · exact hinv before ds s ret rfl
  · cases st with
    | fault => cases hstep
    | live before ds s ret =>
      cases hstep
      rintro before' ds' s' ret' heq
      cases hr : c.result ds with
      | none =>
        rw [hr] at heq
        cases heq
      | some r =>
        rw [hr] at heq
        cases heq
        exact (hst before ds s ret rfl).call hr

end TwoPass

/-! ## The string that is denoted -/

open TwoPass (Memory Sane Reachable)

variable {mem : Memory} {ds dst src dst' : Record} {s x y text : List UInt8}

/-- The length and each copy of the string are those of `s`. -/
def Denotes (ds : Record) (s : List UInt8) : Prop :=
  lenGet ds = s.length ∧ ∀ alloc, strGet alloc ds = some (strdup alloc s)

theorem Rep.denotes (h : Rep ds s) : Denotes ds s := ⟨h.lenGet_eq, fun _ => h.strGet_eq⟩

theorem Denotes.unique (hx : Denotes ds x) (hy : Denotes ds y) : x = y := by
  have h := (hx.2 fun _ => true).symm.trans (hy.2 fun _ => true)
  exact Option.some.inj (Option.some.inj h)

/-- A sane string stores what it denotes. -/
theorem Denotes.rep (h : Denotes ds s) (hds : Sane ds) : Rep ds s := by
  have hlen : ds.strSize = s.length := by
    have hi := h.1
    rw [lenGet, i64_natCast hds.strSize_lt] at hi
    exact_mod_cast hi
  have hcopy := h.2 fun _ => true
  unfold strGet dsStrdup at hcopy
  by_cases hzero : ds.strSize = 0
  · obtain rfl : s = [] := List.length_eq_zero_iff.mp (hlen.symm.trans hzero)
    refine ⟨hlen, List.not_mem_nil, fun _ => rfl, fun str hstr => ?_⟩
    obtain ⟨hsize, hlt, hcell⟩ := hds.block str hstr
    rw [hzero] at hlt hcell
    refine ⟨hsize, hsize ▸ hds.size_lt, Block.Holds.cons_iff.mpr ⟨by omega, hcell, .nil ?_⟩⟩
    omega
  · rw [if_neg hzero] at hcopy
    obtain ⟨s', hread, heq⟩ := Option.map_eq_some_iff.mp hcopy
    obtain rfl : s' = s := Option.some.inj heq
    obtain ⟨str, hstr, hread⟩ := Option.bind_eq_some_iff.mp hread
    obtain ⟨hholds, hnul⟩ := Block.holds_of_readUntil hread
    refine ⟨hlen, hnul, fun hnone => ?_, fun str' hstr' => ?_⟩
    · rw [hnone] at hstr
      cases hstr
    · obtain rfl : str = str' := Option.some.inj (hstr.symm.trans hstr')
      obtain ⟨hsize, -, -⟩ := hds.block str hstr
      exact ⟨hsize, hsize ▸ hds.size_lt, hholds⟩

/-! ## One concatenation -/

/-- `(null)`. -/
def nullText : List UInt8 := [40, 110, 117, 108, 108, 41]

/-- What the format `"%s"` makes of a pointer. -/
def printed (str : Option (Block UInt8)) : Option (List UInt8) :=
  match str with
  | none => some nullText
  | some str => str.readUntil nul 0

/-- `gallus_dstring_concat`, on a string and another one. -/
def concat (mem : Memory) (dst src : Record) : Option (Record × Result) :=
  (printed src.str).bind fun text => TwoPass.vappendf mem dst (.of text)

/-- What is printed of a string. -/
def Record.printedText (src : Record) (y : List UInt8) : List UInt8 :=
  if src.str = none then nullText else y

theorem Rep.printed_eq (h : Rep src y) : printed src.str = some (src.printedText y) := by
  unfold printed Record.printedText
  cases hstr : src.str with
  | none => rfl
  | some str => exact (h.block str hstr).2.2.readUntil_eq h.nulFree

theorem Rep.nul_notMem_printedText (h : Rep src y) : nul ∉ src.printedText y := by
  unfold Record.printedText
  split_ifs
  · decide
  · exact h.nulFree

/-- The printed text is what is denoted exactly if there is a block. -/
theorem Rep.printedText_eq_iff (h : Rep src y) : src.printedText y = y ↔ src.str ≠ none := by
  unfold Record.printedText
  split_ifs with hstr
  · rw [h.unallocated hstr]
    exact iff_of_false (by decide) (not_not_intro hstr)
  · exact iff_of_true rfl hstr

/-- The text is one that `vsnprintf` makes, and `str_realloc` gets the room for it. -/
def fits (mem : Memory) (ds : Record) (text : List UInt8) : Prop :=
  text.length ≤ intMax ∧ ¬TwoPass.refused mem ds text.length

instance : Decidable (fits mem ds text) := inferInstanceAs (Decidable (_ ∧ _))

/-- An append to a string, with any memory. -/
theorem Rep.appendf (h : Rep ds s) (mem : Memory) (hnul : nul ∉ text) :
    (fits mem ds text ∧ ∃ ds', TwoPass.vappendf mem ds (.of text) = some (ds', Result.ok) ∧
      Rep ds' (s ++ text) ∧ ds'.str ≠ none) ∨
    ¬fits mem ds text ∧ ∃ ret, TwoPass.vappendf mem ds (.of text) = some (ds, ret) ∧
      ret ≠ Result.ok := by
  have htext : ∀ t, TwoPass.Text.of text = some t → t.1 = text ∧ text.length ≤ intMax := by
    intro t ht
    unfold TwoPass.Text.of at ht
    split_ifs at ht with hlen
    cases ht
    exact ⟨rfl, hlen⟩
  have happended := h.stored.appended mem (.of text)
  generalize TwoPass.vappendf mem ds (.of text) = r at happended ⊢
  cases happended with
  | unmade hfirst =>
    exact .inr ⟨fun hfits => textOf_ne_none hfits.1 hfirst, _, rfl, by decide⟩
  | refused hfirst hno =>
    rw [(htext _ hfirst).1] at hno
    exact .inr ⟨fun hfits => hfits.2 hno, _, rfl, by decide⟩
  | freed hfirst _ hsecond _ _ =>
    exact absurd (agrees_of (htext _ hfirst).2 hfirst).2 hsecond
  | done hfirst hgot hsecond _ ds' hs hstr =>
    rw [(htext _ hfirst).1] at hgot
    rw [(htext _ hsecond).1] at hs
    refine .inl ⟨⟨(htext _ hfirst).2, hgot⟩, ds', rfl, .of_stored hs ?_, hstr⟩
    rw [List.mem_append, not_or]
    exact ⟨h.nulFree, hnul⟩

/-- A concatenation puts the printed text behind the string, or leaves it as it was. -/
theorem concat_cases (hx : Rep dst x) (hy : Rep src y) (mem : Memory) :
    (fits mem dst (src.printedText y) ∧ ∃ dst', concat mem dst src = some (dst', Result.ok) ∧
      Rep dst' (x ++ src.printedText y) ∧ dst'.str ≠ none) ∨
    ¬fits mem dst (src.printedText y) ∧ ∃ ret, concat mem dst src = some (dst, ret) ∧
      ret ≠ Result.ok := by
  unfold concat
  rw [hy.printed_eq, Option.bind_some]
  exact hx.appendf mem hy.nul_notMem_printedText

/-- A concatenation that has succeeded. -/
theorem Rep.concat (hx : Rep dst x) (hy : Rep src y)
    (h : Dstring.concat mem dst src = some (dst', Result.ok)) :
    Rep dst' (x ++ src.printedText y) ∧ dst'.str ≠ none := by
  rcases concat_cases hx hy mem with ⟨-, ds', hr, hrep⟩ | ⟨-, ret, hr, hret⟩
  · rw [hr] at h
    cases h
    exact hrep
  · rw [hr] at h
    cases h
    exact absurd rfl hret

/-- A concatenation is an append, so it leads to nothing that appends do not. -/
theorem TwoPass.Reachable.concat (h : Reachable dst) {ret : Result}
    (hr : Dstring.concat mem dst src = some (dst', ret)) : Reachable dst' := by
  obtain ⟨text, -, hr⟩ := Option.bind_eq_some_iff.mp hr
  exact h.vappendf hr

/-! ## Among other strings -/

variable {ι : Type} [DecidableEq ι]

/-- `gallus_dstring_concat` of the string `d` and another string `s`. -/
def concatIn (mem : Memory) (m : ι → Record) (d s : ι) : Option ((ι → Record) × Result) :=
  (concat mem (m d) (m s)).map fun r => (Function.update m d r.1, r.2)

/-- The concatenation succeeds, `d` then denotes `u`, and the other strings are as they were. -/
def Concatenates (mem : Memory) (m : ι → Record) (d s : ι) (u : List UInt8) : Prop :=
  ∃ m', concatIn mem m d s = some (m', Result.ok) ∧ Denotes (m' d) u ∧ ∀ i, i ≠ d → m' i = m i

theorem concatIn_ok {m m' : ι → Record} {d s : ι}
    (h : concatIn mem m d s = some (m', Result.ok)) :
    ∃ ds, concat mem (m d) (m s) = some (ds, Result.ok) ∧ m' d = ds ∧ ∀ i, i ≠ d → m' i = m i := by
  obtain ⟨⟨ds, ret⟩, hr, heq⟩ := Option.map_eq_some_iff.mp h
  cases heq
  exact ⟨ds, hr, Function.update_self .., fun i hi => Function.update_of_ne hi ..⟩

/-- The printed text is behind `d`. -/
theorem rep_concatIn {m m' : ι → Record} {d s : ι} (hx : Rep (m d) x) (hy : Rep (m s) y)
    (h : concatIn mem m d s = some (m', Result.ok)) :
    Rep (m' d) (x ++ (m s).printedText y) ∧ (m' d).str ≠ none := by
  obtain ⟨ds, hr, rfl, -⟩ := concatIn_ok h
  exact hx.concat hy hr

/-- **When a concatenation is right.** For any strings that are reached by any calls and denote `x`
and `y`: the concatenation succeeds with `x ++ y` in the one and leaves the other as it was exactly
if the other has a block, and its text is one that `vsnprintf` makes and gets its room. Where two
orders of concatenating three strings both succeed, they come to the same exactly if the second has
a block. -/
theorem concat_iff_hasBlock {m : ι → Record} (hm : ∀ i, Reachable (m i)) {d s : ι} (hne : d ≠ s)
    (hx : Denotes (m d) x) (hy : Denotes (m s) y) :
    (∀ mem, Concatenates mem m d s (x ++ y) ↔ (m s).str ≠ none ∧ fits mem (m d) y) ∧
    ∀ k z, k ≠ d → k ≠ s → Denotes (m k) z → ∀ mem₁ mem₂ mem₃ mem₄ m₁ m₂ m₃ m₄,
      concatIn mem₁ m d s = some (m₁, Result.ok) → concatIn mem₂ m₁ d k = some (m₂, Result.ok) →
      concatIn mem₃ m s k = some (m₃, Result.ok) → concatIn mem₄ m₃ d s = some (m₄, Result.ok) →
      ((∃ u, Denotes (m₂ d) u ∧ Denotes (m₄ d) u) ↔ (m s).str ≠ none) := by
  have hd := hx.rep (hm d).sane
  have hs := hy.rep (hm s).sane
  refine ⟨fun mem => ⟨?_, ?_⟩, ?_⟩
  · rintro ⟨m', hrun, hu, -⟩
    have htext : (m s).printedText y = y :=
      (List.append_cancel_left (hu.unique (rep_concatIn hd hs hrun).1.denotes)).symm
    refine ⟨hs.printedText_eq_iff.mp htext, ?_⟩
    rcases concat_cases hd hs mem with ⟨hfits, -⟩ | ⟨-, ret, hr, hret⟩
    · rwa [htext] at hfits
    · obtain ⟨ds, hok, -⟩ := concatIn_ok hrun
      rw [hr] at hok
      cases hok
      exact absurd rfl hret
  · rintro ⟨hblock, hfits⟩
    have htext := hs.printedText_eq_iff.mpr hblock
    rcases concat_cases hd hs mem with ⟨-, ds, hr, hrep, -⟩ | ⟨hnot, -⟩
    · rw [htext] at hrep
      refine ⟨Function.update m d ds, ?_, ?_, fun i hi => Function.update_of_ne hi ..⟩
      · unfold concatIn
        rw [hr]
        rfl
      · rw [Function.update_self]
        exact hrep.denotes
    · rw [htext] at hnot
      exact absurd hfits hnot
  · rintro k z hkd hks hz mem₁ mem₂ mem₃ mem₄ m₁ m₂ m₃ m₄ h₁ h₂ h₃ h₄
    have hk := hz.rep (hm k).sane
    -- first into `d`, from both
    obtain ⟨-, -, -, hsame₁⟩ := concatIn_ok h₁
    have hleft := (rep_concatIn (rep_concatIn hd hs h₁).1 (hsame₁ k hkd ▸ hk) h₂).1
    -- first into `s`, which then has a block
    obtain ⟨-, -, -, hsame₃⟩ := concatIn_ok h₃
    obtain ⟨hs₃, hblock⟩ := rep_concatIn hs hk h₃
    have hright := (rep_concatIn (hsame₃ d hne ▸ hd) hs₃ h₄).1
    rw [hs₃.printedText_eq_iff.mpr hblock] at hright
    rw [hsame₁ k hkd] at hleft
    rw [← hs.printedText_eq_iff]
    constructor
    · rintro ⟨u, hu, hu'⟩
      have h := (hleft.denotes.unique hu).trans (hu'.unique hright.denotes)
      rw [List.append_assoc] at h
      exact List.append_cancel_right (List.append_cancel_left h)
    · intro htext
      rw [htext, List.append_assoc] at hleft
      exact ⟨_, hleft.denotes, hright.denotes⟩

/-- A string with a text that is written to it, or the one that has been created. -/
def written (text : List UInt8) : Record :=
  ((TwoPass.vappendf TwoPass.someMemory .init (.of text)).map Prod.fst).getD .init

theorem written_spec (hnul : nul ∉ x) (hfits : fits TwoPass.someMemory .init x) :
    Rep (written x) x ∧ (written x).str ≠ none ∧ Reachable (written x) := by
  rcases Rep.init.appendf TwoPass.someMemory hnul with ⟨-, ds, hr, hrep, hblock⟩ | ⟨hnot, -⟩
  · have hwritten : written x = ds := by
      unfold written
      rw [hr]
      rfl
    rw [hwritten]
    exact ⟨hrep, hblock, Reachable.init.vappendf hr⟩
  · exact absurd hfits hnot

/-- The strings `ab`, `c` and `d`. -/
def threeStrings : Fin 3 → Record
  | 0 => written [97, 98]
  | 1 => written [99]
  | 2 => written [100]

theorem concat_iff_hasBlock_three :
    Concatenates TwoPass.someMemory threeStrings 0 1 ([97, 98] ++ [99]) ∧
    ∃ m₁ m₂ m₃ m₄ : Fin 3 → Record,
      concatIn TwoPass.someMemory threeStrings 0 1 = some (m₁, Result.ok) ∧
      concatIn TwoPass.someMemory m₁ 0 2 = some (m₂, Result.ok) ∧
      concatIn TwoPass.someMemory threeStrings 1 2 = some (m₃, Result.ok) ∧
      concatIn TwoPass.someMemory m₃ 0 1 = some (m₄, Result.ok) ∧
      ∃ u, Denotes (m₂ 0) u ∧ Denotes (m₄ 0) u := by
  obtain ⟨hd, -, hreach₀⟩ := written_spec (x := [97, 98]) (by decide) (by decide)
  obtain ⟨hs, hblock, hreach₁⟩ := written_spec (x := [99]) (by decide) (by decide)
  obtain ⟨hk, -, hreach₂⟩ := written_spec (x := [100]) (by decide) (by decide)
  have hm : ∀ i, Reachable (threeStrings i)
    | 0 => hreach₀
    | 1 => hreach₁
    | 2 => hreach₂
  obtain ⟨hright, hassoc⟩ := concat_iff_hasBlock hm (d := 0) (s := 1) (by decide) hd.denotes
    hs.denotes
  obtain ⟨m₁, m₂, m₃, m₄, h₁, h₂, h₃, h₄⟩ : ∃ m₁ m₂ m₃ m₄ : Fin 3 → Record,
      concatIn TwoPass.someMemory threeStrings 0 1 = some (m₁, Result.ok) ∧
      concatIn TwoPass.someMemory m₁ 0 2 = some (m₂, Result.ok) ∧
      concatIn TwoPass.someMemory threeStrings 1 2 = some (m₃, Result.ok) ∧
      concatIn TwoPass.someMemory m₃ 0 1 = some (m₄, Result.ok) :=
    ⟨_, _, _, _, rfl, rfl, rfl, rfl⟩
  refine ⟨(hright _).mpr ⟨hblock, by decide, by decide⟩, m₁, m₂, m₃, m₄, h₁, h₂, h₃, h₄, ?_⟩
  exact (hassoc 2 [100] (by decide) (by decide) hk.denotes _ _ _ _ _ _ _ _ h₁ h₂ h₃ h₄).mpr hblock

/-- **An empty string that is printed.** A string that has been created and no more is put behind
`ab`: the call succeeds, and leaves `ab(null)`. -/
theorem nullConcat : Reachable (written [97, 98]) ∧ Reachable .init ∧
    Denotes (written [97, 98]) [97, 98] ∧ Denotes .init [] ∧
    ∃ dst, concat TwoPass.someMemory (written [97, 98]) .init = some (dst, Result.ok) ∧
      Denotes dst ([97, 98] ++ nullText) ∧
      ¬Concatenates TwoPass.someMemory (fun i : Fin 2 => if i = 0 then written [97, 98] else .init)
        0 1 ([97, 98] ++ []) := by
  obtain ⟨hd, -, hreach⟩ := written_spec (x := [97, 98]) (by decide) (by decide)
  refine ⟨hreach, .init, hd.denotes, Rep.init.denotes, ?_⟩
  rcases concat_cases hd Rep.init TwoPass.someMemory with ⟨-, dst, hr, hrep, -⟩ | ⟨hnot, -⟩
  · refine ⟨dst, hr, hrep.denotes, ?_⟩
    rintro ⟨m', hrun, hu, -⟩
    obtain ⟨ds, hr', rfl, -⟩ := concatIn_ok hrun
    obtain rfl : dst = m' 0 := congrArg Prod.fst (Option.some.inj (hr.symm.trans hr'))
    exact absurd (hu.unique hrep.denotes) (by decide)
  · exact absurd ⟨by decide, by decide⟩ hnot

end Dstring
end Gallus
