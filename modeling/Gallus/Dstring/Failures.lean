import Gallus.Dstring.TwoPass
import Gallus.Lib.Trans

/-!
# What a call that fails leaves of a string

Any calls on a string, each with an allocator and a formatted text that can fail at any point.
`harmless`: the calls that keep the string consistent. An append that fails before its second
`vsnprintf` leaves it unchanged; every other failure of a write frees the block and keeps
`str_size` and `size` (`str_free`), so it does no harm only where there was no block, and none has
been made before it.

* `State.consistent`: a call that has failed has left the string as it was, or empty, and the string
  is read as what it stores.
* `consistent_iff_harmless`: exactly the runs of harmless calls are runs through such states.
-/

namespace Gallus
namespace Dstring
namespace TwoPass

/-! ## Calls -/

/-- The calls on a string. -/
inductive Op
  | appendf (args : Formatted)
  | prependf (args : Formatted)
  | insertf (offset : Nat) (args : Formatted)
  | clear

/-- A call, and what the allocator grants to it. -/
structure Call where
  mem : Memory
  op : Op

def Call.result (ds : Record) (c : Call) : Option (Record × Result) :=
  match c.op with
  | .appendf args => vappendf c.mem ds args
  | .prependf args => vprependf c.mem ds args
  | .insertf offset args => vinsertf c.mem ds offset args
  | .clear => Dstring.clear ds

/-- The text that is written. -/
def Formatted.text (args : Formatted) : List UInt8 := args.second.elim [] (·.1)

/-- What a call that succeeds makes of the bytes `s`. -/
def Op.expected (s : List UInt8) : Op → List UInt8
  | .appendf args => s ++ args.text
  | .prependf args => args.text ++ s
  | .insertf offset args => s.take offset ++ args.text ++ s.drop offset
  | .clear => []

/-- The record before the last call and after it, the bytes that it has to store, and the result of
the call; or an access outside the block. -/
inductive State
  | fault
  | live (before ds : Record) (s : List UInt8) (ret : Result)

/-- A string that has been created. -/
def State.created : State := .live .init .init [] Result.ok

/-- The state after a call. Where it has failed, the string has to store what it did or, without a
block, nothing. -/
def State.after (ds : Record) (s : List UInt8) (op : Op) : Option (Record × Result) → State
  | none => .fault
  | some (ds', ret) =>
    .live ds ds' (if ret = Result.ok then op.expected s else if ds'.str.isNone then [] else s) ret

/-- One call after another. -/
def State.step : State → Call → Option State
  | .fault, _ => none
  | .live _ ds s _, c => some (.after ds s c.op (c.result ds))

/-! ## Consistency -/

/-- A call that has failed has left the string as it was, or empty without a block and with both
counters zero; and the string stores the bytes `s`, and its length and its copy are those of `s`. -/
structure Consistent (before ds : Record) (s : List UInt8) (ret : Result) : Prop where
  failed : ret ≠ Result.ok → ds = before ∨ ds = .init
  stored : Stored ds s
  len : lenGet ds = s.length
  str : ∀ alloc, strGet alloc ds = some (strdup alloc (cString s))

def State.consistent : State → Prop
  | .fault => False
  | .live before ds s ret => Consistent before ds s ret

/-- An append that keeps the string consistent: where the text can be made and gets its room, it is
made a second time. -/
def appendHarmless (mem : Memory) (ds : Record) (args : Formatted) : Prop :=
  ∀ text ∈ args.first, refused mem ds text.1.length ∨ agrees args.second text

/-- The same of a text in front of what is from `offset` on: it is made twice and gets its room, and
what is behind it is copied, all of it; or there is no block, and none is made. -/
def putHarmless (mem : Memory) (ds : Record) (s : List UInt8) (offset : Nat) (args : Formatted) :
    Prop :=
  (ds.str.isNone ∧ ∀ text ∈ args.first, refused mem ds text.1.length) ∨
    ∃ text ∈ args.first, ¬refused mem ds text.1.length ∧ agrees args.second text ∧
      mem.strdup ((cString (s.drop offset)).length + 1) = true ∧ copied (s.drop offset)

instance (mem : Memory) (ds : Record) (args : Formatted) :
    Decidable (appendHarmless mem ds args) :=
  inferInstanceAs (Decidable (∀ text ∈ args.first, _))

instance (mem : Memory) (ds : Record) (s : List UInt8) (offset : Nat) (args : Formatted) :
    Decidable (putHarmless mem ds s offset args) :=
  inferInstanceAs (Decidable (_ ∧ (∀ text ∈ args.first, _) ∨ ∃ text ∈ args.first, _))

/-- A call that keeps the string consistent. -/
def harmless : State → Call → Prop
  | .fault, _ => True
  | .live _ ds s _, ⟨mem, op⟩ =>
    match op with
    | .appendf args => appendHarmless mem ds args
    | .prependf args => putHarmless mem ds s 0 args
    | .insertf offset args => ds.strSize < offset ∨ putHarmless mem ds s offset args
    | .clear => True

instance : ∀ st c, Decidable (harmless st c)
  | .fault, _ => .isTrue trivial
  | .live _ ds _ _, ⟨mem, .appendf args⟩ => inferInstanceAs (Decidable (appendHarmless mem ds args))
  | .live _ ds s _, ⟨mem, .prependf args⟩ =>
    inferInstanceAs (Decidable (putHarmless mem ds s 0 args))
  | .live _ ds s _, ⟨mem, .insertf offset args⟩ =>
    inferInstanceAs (Decidable (ds.strSize < offset ∨ putHarmless mem ds s offset args))
  | .live _ _ _ _, ⟨_, .clear⟩ => .isTrue trivial

variable {mem : Memory} {before ds ds' : Record} {s s' : List UInt8} {args : Formatted}
  {offset : Nat} {ret ret' : Result} {st st' : State} {c : Call}

/-! ## One call -/

/-- The invariant of the harmless calls: a string without a block has never had one. -/
structure Steady (before ds : Record) (s : List UInt8) (ret : Result) : Prop where
  consistent : Consistent before ds s ret
  unallocated : ds.str = none → ds = .init

def State.steady : State → Prop
  | .fault => False
  | .live before ds s ret => Steady before ds s ret

theorem Stored.steady (h : Stored ds s) (hinit : ds.str = none → ds = .init)
    (hfailed : ret ≠ Result.ok → ds = before ∨ ds = .init) : Steady before ds s ret :=
  ⟨⟨hfailed, h, h.lenGet_eq, fun _ => h.strGet_eq⟩, hinit⟩

/-- A call that fails and leaves the string as it was. -/
theorem Steady.unchanged (h : Steady before ds s ret) {op : Op} (hret : ret' ≠ Result.ok) :
    (State.after ds s op (some (ds, ret'))).steady := by
  have hs : (if ds.str.isNone then [] else s) = s := by
    cases hstr : ds.str with
    | none => exact (h.consistent.stored.unallocated hstr).symm
    | some str => rfl
  show Steady ds ds _ ret'
  rw [if_neg hret, hs]
  exact h.consistent.stored.steady h.unallocated fun _ => .inl rfl

/-- A block that is freed leaves its size behind. -/
theorem Steady.freed (h : Steady before ds s ret) {op : Op} (hsize : 0 < ds'.size)
    (hret : ret' ≠ Result.ok) : ¬(State.after ds s op (some (strFree ds', ret'))).consistent := by
  intro hcons
  have hne : ∀ ds₁ : Record, ds₁ = .init → ¬0 < ds₁.size := by
    rintro _ rfl
    exact Nat.lt_irrefl 0
  rcases hcons.failed hret with hsame | hinit
  · have hds : ds = .init := h.unallocated (by rw [← hsame]; rfl)
    exact hne ds hds (by rw [← hsame]; exact hsize)
  · exact hne (strFree ds') hinit hsize

/-- What a call does with a string: it is harmless and keeps the invariant, or it is not and leaves
a string that is not consistent. -/
def Settles (before ds : Record) (s : List UInt8) (ret : Result) (c : Call) : Prop :=
  harmless (.live before ds s ret) c ∧ (State.after ds s c.op (c.result ds)).steady ∨
    ¬harmless (.live before ds s ret) c ∧ ¬(State.after ds s c.op (c.result ds)).consistent

theorem Steady.append (h : Steady before ds s ret) :
    Settles before ds s ret ⟨mem, .appendf args⟩ := by
  have happended := h.consistent.stored.appended mem args
  unfold Settles harmless Call.result
  dsimp only
  unfold appendHarmless
  generalize vappendf mem ds args = r at happended ⊢
  cases happended with
  | unmade hfirst =>
    refine .inl ⟨?_, h.unchanged (by decide)⟩
    rintro text htext
    rw [hfirst] at htext
    contradiction
  | refused hfirst hno =>
    refine .inl ⟨?_, h.unchanged (by decide)⟩
    rintro text htext
    obtain rfl := Option.some.inj (hfirst.symm.trans htext)
    exact .inl hno
  | freed hfirst hgot hsecond ds' hsize =>
    refine .inr ⟨fun hall => ?_, h.freed hsize (by decide)⟩
    exact (hall _ hfirst).elim hgot hsecond
  | @done text second hfirst hgot hsecond hlen ds' hs hstr =>
    refine .inl ⟨?_, ?_⟩
    · rintro text htext
      obtain rfl := Option.some.inj (hfirst.symm.trans htext)
      exact .inr ⟨second, hsecond, hlen⟩
    · show Steady ds ds' (s ++ args.text) Result.ok
      rw [show args.text = second.1 by rw [Formatted.text, hsecond]; rfl]
      exact hs.steady (fun hn => absurd hn hstr) fun hne => absurd rfl hne

/-- A text in front of what is from an offset on, of a prepend or an insert. -/
theorem Steady.putBefore (h : Steady before ds s ret) {op : Op} (hoff : offset ≤ s.length)
    (hop : op.expected s = s.take offset ++ args.text ++ s.drop offset) :
    putHarmless mem ds s offset args ∧
        (State.after ds s op (TwoPass.putBefore mem ds offset args)).steady ∨
      ¬putHarmless mem ds s offset args ∧
        ¬(State.after ds s op (TwoPass.putBefore mem ds offset args)).consistent := by
  -- a failure before the block gets its room frees the block that there was, if any
  have hearly : ∀ ret', ret' ≠ Result.ok →
      (∀ text ∈ args.first, refused mem ds text.1.length) →
      putHarmless mem ds s offset args ∧
          (State.after ds s op (some (strFree ds, ret'))).steady ∨
        ¬putHarmless mem ds s offset args ∧
          ¬(State.after ds s op (some (strFree ds, ret'))).consistent := by
    intro ret' hret hno
    cases hstr : ds.str with
    | none =>
      have hfree : strFree ds = ds := by
        rw [strFree, ← hstr]
      rw [hfree]
      exact .inl ⟨.inl ⟨by rw [hstr]; rfl, hno⟩, h.unchanged hret⟩
    | some str =>
      refine .inr ⟨?_, h.freed ?_ hret⟩
      · rintro (⟨hnone, -⟩ | ⟨text, hfirst, hgot, -⟩)
        · rw [hstr] at hnone
          contradiction
        · exact hgot (hno text hfirst)
      · have hlen := h.consistent.stored.length_lt hstr
        omega
  have hplaced := h.consistent.stored.placed mem args hoff
  generalize TwoPass.putBefore mem ds offset args = r at hplaced ⊢
  cases hplaced with
  | unmade hfirst =>
    refine hearly _ (by decide) fun text htext => ?_
    rw [hfirst] at htext
    contradiction
  | refused hfirst hno =>
    refine hearly _ (by decide) fun text htext => ?_
    obtain rfl := Option.some.inj (hfirst.symm.trans htext)
    exact hno
  | uncopied hfirst hgot hdup ds' hsize =>
    refine .inr ⟨?_, h.freed hsize (by decide)⟩
    rintro (⟨-, hall⟩ | ⟨text, -, -, -, hgrant, -⟩)
    · exact hgot (hall _ hfirst)
    · rw [hdup] at hgrant
      contradiction
  | freed hfirst hgot hsecond ds' hsize =>
    refine .inr ⟨?_, h.freed hsize (by decide)⟩
    rintro (⟨-, hall⟩ | ⟨text, htext, -, hagree, -⟩)
    · exact hgot (hall _ hfirst)
    · obtain rfl := Option.some.inj (hfirst.symm.trans htext)
      exact hsecond hagree
  | overread hfirst hgot hcopied =>
    refine .inr ⟨?_, id⟩
    rintro (⟨-, hall⟩ | ⟨text, -, -, -, -, hall⟩)
    · exact hgot (hall _ hfirst)
    · exact hcopied hall
  | @done text second hfirst hgot hdup hsecond hlen hcopied ds' hs hstr =>
    refine .inl ⟨.inr ⟨text, hfirst, hgot, ⟨second, hsecond, hlen⟩, hdup, hcopied⟩, ?_⟩
    show Steady ds ds' (op.expected s) Result.ok
    rw [hop, show args.text = second.1 by rw [Formatted.text, hsecond]; rfl]
    exact hs.steady (fun hn => absurd hn hstr) fun hne => absurd rfl hne

theorem Steady.settles (h : Steady before ds s ret) (c : Call) : Settles before ds s ret c := by
  obtain ⟨mem, op⟩ := c
  cases op with
  | appendf args => exact h.append
  | prependf args => exact h.putBefore (Nat.zero_le _) rfl
  | insertf offset args =>
    unfold Settles harmless Call.result vinsertf
    dsimp only
    rw [h.consistent.stored.len]
    by_cases hoff : offset ≤ s.length
    · rw [if_pos hoff, or_iff_right (Nat.not_lt.mpr hoff)]
      exact h.putBefore hoff rfl
    · rw [if_neg hoff]
      exact .inl ⟨.inl (Nat.lt_of_not_le hoff), h.unchanged (by decide)⟩
  | clear =>
    obtain ⟨ds', hclear, hs, hsame⟩ := h.consistent.stored.clear
    refine .inl ⟨trivial, ?_⟩
    show (State.after ds s .clear (Dstring.clear ds)).steady
    rw [hclear]
    refine hs.steady (fun hn => ?_) fun hne => absurd rfl hne
    have hds := hsame hn
    rw [hds] at hn ⊢
    exact h.unallocated hn

/-! ## Runs -/

theorem State.steady.step (h : st.steady) (hstep : st.step c = some st') :
    harmless st c ∧ st'.steady ∨ ¬harmless st c ∧ ¬st'.consistent := by
  cases st with
  | fault => exact h.elim
  | live before ds s ret =>
    cases hstep
    exact Steady.settles h c

/-- **Exactly the harmless calls keep a string consistent.** For any calls on a string that has been
created, with allocations and formats that fail at any point: each call that fails leaves the
string unchanged or empty, and the string is what the calls that succeed make of it, in each state
of the run, if and only if each of the calls is harmless. -/
theorem consistent_iff_harmless {calls : List Call}
    (hrun : Trans.run State.step .created calls = some st) :
    (∀ calls₁ st₁, calls₁ <+: calls → Trans.run State.step .created calls₁ = some st₁ →
      st₁.consistent) ↔ Trans.Run State.step harmless .created calls st := by
  refine Trans.Run.iff_states (I := State.steady) (fun st c st' h hok hstep => ?_)
    (fun st c st' h hstep hcons => ?_) (fun st h => ?_) ?_ hrun
  · exact (h.step hstep).elim And.right fun hbad => absurd hok hbad.1
  · exact (h.step hstep).elim And.left fun hbad => absurd hcons hbad.2
  · cases st with
    | fault => exact h
    | live before ds s ret => exact Steady.consistent h
  · exact Stored.init.steady (fun _ => rfl) fun hne => absurd rfl hne

/-- An allocator that grants less than 100 bytes at a time. -/
def someMemory : Memory := .of (fun n => decide (n < 100)) fun n hn => by
  have hlt := of_decide_eq_true hn
  omega

/-- An allocator that grants nothing. -/
def noMemory : Memory := .of (fun _ => false) fun _ hn => by contradiction

/-- A prepend before there is a block, an append that cannot be formatted, one without room for its
text, and an insert past the end. -/
def someFailures : List Call :=
  [⟨noMemory, .prependf (.of [97])⟩, ⟨someMemory, .appendf (.of [97, 98])⟩,
    ⟨someMemory, .appendf ⟨none, none⟩⟩, ⟨noMemory, .appendf (.of [99, 100, 101])⟩,
    ⟨someMemory, .insertf 5 (.of [99])⟩, ⟨someMemory, .insertf 1 (.of [99])⟩]

theorem consistent_iff_harmless_someFailures :
    ∃ before ds s,
      Trans.run State.step .created someFailures = some (.live before ds s Result.ok) ∧
      strGet (fun _ => true) ds = some (some [97, 99, 98]) := by
  have hrun : ∃ before ds, Trans.run (Trans.guarded State.step harmless) .created someFailures =
      some (.live before ds [97, 99, 98] Result.ok) := ⟨_, _, rfl⟩
  obtain ⟨before, ds, hds⟩ := hrun
  have hok := Trans.Run.of_guarded hds
  have hcons := (consistent_iff_harmless hok.run_eq).mpr hok _ _ (List.prefix_refl _) hok.run_eq
  exact ⟨before, ds, _, hok.run_eq, hcons.str _⟩

/-- A prepend that has room for its text, and no memory for the copy. -/
def uncopiedPrepend : List Call :=
  [⟨someMemory, .appendf (.of [97, 98])⟩,
    ⟨⟨fun n => decide (n < 100), fun _ => false, someMemory.realloc_lt⟩, .prependf (.of [99])⟩]

/-- The block is gone, its length is not: `str_get` reads behind `NULL`, and a later append reports
success with a text that no one can read. -/
theorem uncopiedPrepend_stale :
    (∃ before ds s, Trans.run State.step .created uncopiedPrepend =
        some (.live before ds s Result.noMemory) ∧ ds.str.isNone = true ∧ lenGet ds = 2 ∧
        strGet (fun _ => true) ds = none ∧
        ¬(State.live before ds s Result.noMemory).consistent) ∧
      ∃ before ds s, Trans.run State.step .created
        (uncopiedPrepend ++ [⟨someMemory, .appendf (.of [100])⟩]) =
          some (.live before ds s Result.ok) ∧ strGet (fun _ => true) ds = none := by
  refine ⟨⟨_, _, _, rfl, rfl, by decide, rfl, fun hcons => ?_⟩, _, _, _, rfl, rfl⟩
  have hread := hcons.str fun _ => true
  cases hread

end TwoPass
end Dstring
end Gallus
