import Gallus.Dstring.TwoPass

/-!
# A dynamic string is a list of characters

`Rep ds s`: the record `ds` stores the list `s`. Each call takes it to the list the call is about
(`expected`), with no access outside the block, and so does a run of calls (`dstring_refines`).
-/

namespace Gallus
namespace Dstring

/-! ## The abstract string -/

/-- What a call does with a list of characters, `none` for a string that has not been created. -/
def expected (s : Option (List UInt8)) (op : Op) : Option (List UInt8) × Result :=
  match op, s with
  | .create, _ => (some [], Result.ok)
  | _, none => (none, Result.invalidArgs)
  | .appendf text, some s => (some (s ++ text), Result.ok)
  | .prependf text, some s => (some (text ++ s), Result.ok)
  | .insertf offset text, some s =>
    if offset ≤ s.length then (some (s.take offset ++ text ++ s.drop offset), Result.ok)
    else (some s, Result.invalidArgs)
  | .clear, some _ => (some [], Result.ok)

/-- What the calls of a run do. -/
def expectedRun (s : Option (List UInt8) × Result) (ops : List Op) :
    Option (List UInt8) × Result :=
  ops.foldl (fun s op => expected s.1 op) s

/-! ## The representation -/

/-- The record stores the characters `s`. -/
structure Rep (ds : Record) (s : List UInt8) : Prop where
  len : ds.strSize = s.length
  nulFree : nul ∉ s
  unallocated : ds.str = none → s = []
  block : ∀ str, ds.str = some str →
    str.size = ds.size ∧ str.size < 2 ^ 63 ∧ str.Holds 0 (s ++ [nul])

variable {alloc : Nat → Bool} {ds : Record} {s text : List UInt8} {offset n : Nat}

theorem Rep.init : Rep .init [] where
  len := rfl
  nulFree := List.not_mem_nil
  unallocated := fun _ => rfl
  block := fun _ h => by contradiction

theorem Rep.stored (h : Rep ds s) : TwoPass.Stored ds s := ⟨h.len, h.unallocated, h.block⟩

/-- The text is what is stored. -/
theorem Rep.of_stored (h : TwoPass.Stored ds s) (hnul : nul ∉ s) : Rep ds s :=
  ⟨h.len, hnul, h.unallocated, h.block⟩

theorem Rep.lenGet_eq (h : Rep ds s) : lenGet ds = s.length := h.stored.lenGet_eq

theorem Rep.strGet_eq (h : Rep ds s) : strGet alloc ds = some (strdup alloc s) := by
  rw [h.stored.strGet_eq, TwoPass.cString_eq_self h.nulFree]

/-! ## The calls -/

/-- Both calls of `vsnprintf` agree on a text that is produced. -/
theorem agrees_of (hlen : text.length ≤ intMax) {t : TwoPass.Text}
    (ht : TwoPass.Text.of text = some t) :
    t.1 = text ∧ TwoPass.agrees (TwoPass.Formatted.of text).second t := by
  unfold TwoPass.Text.of at ht
  rw [dif_pos hlen] at ht
  cases ht
  exact ⟨rfl, ⟨text, hlen⟩, dif_pos hlen, rfl⟩

theorem textOf_ne_none (hlen : text.length ≤ intMax) : TwoPass.Text.of text ≠ none := by
  unfold TwoPass.Text.of
  rw [dif_pos hlen]
  exact Option.some_ne_none _

/-- An append. -/
theorem Rep.append (h : Rep ds s) (hmax : ∀ m, alloc m = true → m < 2 ^ 63)
    (hnul : nul ∉ text) (hlen : text.length ≤ intMax) :
    ∃ ds' ret, vappendf alloc ds text = some (ds', ret) ∧
      (ret = Result.noMemory ∨ ret = Result.ok ∧ Rep ds' (s ++ text)) := by
  have happended := h.stored.appended (.of alloc hmax) (.of text)
  rw [TwoPass.vappendf_of hmax] at happended
  generalize vappendf alloc ds text = r at happended ⊢
  cases happended with
  | unmade hfirst => exact absurd hfirst (textOf_ne_none hlen)
  | refused _ _ => exact ⟨_, _, rfl, .inl rfl⟩
  | freed hfirst _ hsecond _ _ => exact absurd (agrees_of hlen hfirst).2 hsecond
  | done _ _ hsecond _ ds' hs _ =>
    rw [(agrees_of hlen hsecond).1] at hs
    refine ⟨ds', _, rfl, .inr ⟨rfl, .of_stored hs ?_⟩⟩
    rw [List.mem_append, not_or]
    exact ⟨h.nulFree, hnul⟩

/-- A text in front of what is from `offset` on. -/
theorem Rep.putBefore (h : Rep ds s) (hmax : ∀ m, alloc m = true → m < 2 ^ 63)
    (hnul : nul ∉ text) (hlen : text.length ≤ intMax) (hoff : offset ≤ s.length) :
    ∃ ds' ret, Dstring.putBefore alloc ds offset text = some (ds', ret) ∧
      (ret = Result.noMemory ∨
        ret = Result.ok ∧ Rep ds' (s.take offset ++ text ++ s.drop offset)) := by
  have hrest : nul ∉ s.drop offset := fun hm => h.nulFree (List.mem_of_mem_drop hm)
  have hplaced := h.stored.placed (.of alloc hmax) (.of text) hoff
  rw [TwoPass.putBefore_of hmax] at hplaced
  generalize Dstring.putBefore alloc ds offset text = r at hplaced ⊢
  cases hplaced with
  | unmade hfirst => exact absurd hfirst (textOf_ne_none hlen)
  | refused _ _ => exact ⟨_, _, rfl, .inl rfl⟩
  | uncopied _ _ _ _ _ => exact ⟨_, _, rfl, .inl rfl⟩
  | freed hfirst _ hsecond _ _ => exact absurd (agrees_of hlen hfirst).2 hsecond
  | overread _ _ hcopied =>
    refine absurd ?_ hcopied
    unfold TwoPass.copied
    rw [TwoPass.cString_eq_self hrest]
    exact Nat.le_succ _
  | done _ _ _ hsecond _ _ ds' hs _ =>
    rw [(agrees_of hlen hsecond).1] at hs
    refine ⟨ds', _, rfl, .inr ⟨rfl, .of_stored hs ?_⟩⟩
    simp only [List.mem_append, not_or]
    exact ⟨⟨fun hm => h.nulFree (List.mem_of_mem_take hm), hnul⟩, hrest⟩

/-- A clear keeps the block. -/
theorem Rep.clear (h : Rep ds s) :
    ∃ ds', Dstring.clear ds = some (ds', Result.ok) ∧ Rep ds' [] := by
  obtain ⟨ds', hclear, hs, -⟩ := h.stored.clear
  exact ⟨ds', hclear, .of_stored hs List.not_mem_nil⟩

/-! ## Runs -/

/-- The text of a call, if it has one. -/
def Op.formatted : Op → List UInt8
  | .appendf text | .prependf text | .insertf _ text => text
  | .create | .clear => []

/-- The state that a call leads to reports no failed allocation. -/
def State.allocated : State → Prop
  | .fault => True
  | .live _ ret => ret ≠ Result.noMemory

instance : DecidablePred State.allocated := fun st =>
  match st with
  | .fault => .isTrue trivial
  | .live _ ret => inferInstanceAs (Decidable (ret ≠ Result.noMemory))

/-- The text has no NUL and is one that `vsnprintf` produces, and the allocations succeed. -/
def assumed (alloc : Nat → Bool) (st : State) (op : Op) : Prop :=
  nul ∉ op.formatted ∧ op.formatted.length ≤ intMax ∧ ∀ st' ∈ step alloc st op, st'.allocated

instance (alloc : Nat → Bool) (st : State) (op : Op) : Decidable (assumed alloc st op) :=
  inferInstanceAs (Decidable (_ ∧ _ ∧ _))

/-- The state stores what is expected, and the last call has returned what is expected. -/
inductive Refines : State → Option (List UInt8) × Result → Prop
  | null (ret : Result) : Refines (.live none ret) (none, ret)
  | stored {ds : Record} {s : List UInt8} (h : Rep ds s) (ret : Result) :
    Refines (.live (some ds) ret) (some s, ret)

/-- A call on a string does what is expected of it. -/
theorem Rep.call (h : Rep ds s) (hmax : ∀ m, alloc m = true → m < 2 ^ 63) {op : Op}
    (hnul : nul ∉ op.formatted) (hlen : op.formatted.length ≤ intMax)
    (halloc : (Dstring.call alloc (some ds) op).allocated) :
    Refines (Dstring.call alloc (some ds) op) (expected (some s) op) := by
  cases op with
  | create =>
    simp only [Dstring.call, expected] at *
    split_ifs at halloc ⊢ with hm
    · exact .stored .init _
    · exact absurd rfl halloc
  | appendf text =>
    change nul ∉ text at hnul
    obtain ⟨ds', ret, hcall, hret⟩ := h.append hmax hnul hlen
    simp only [Dstring.call, expected, hcall] at *
    rcases hret with hret | ⟨rfl, hrep⟩
    · exact absurd hret halloc
    · exact .stored hrep _
  | prependf text =>
    change nul ∉ text at hnul
    obtain ⟨ds', ret, hcall, hret⟩ := h.putBefore hmax hnul hlen (Nat.zero_le _)
    simp only [Dstring.call, expected, vprependf, hcall] at *
    rcases hret with hret | ⟨rfl, hrep⟩
    · exact absurd hret halloc
    · exact .stored hrep _
  | insertf offset text =>
    change nul ∉ text at hnul
    simp only [Dstring.call, expected, vinsertf, h.len] at *
    by_cases hoff : offset ≤ s.length
    · obtain ⟨ds', ret, hcall, hret⟩ := h.putBefore hmax hnul hlen hoff
      rw [if_pos hoff, hcall] at halloc ⊢
      rw [if_pos hoff]
      rcases hret with hret | ⟨rfl, hrep⟩
      · exact absurd hret halloc
      · exact .stored hrep _
    · rw [if_neg hoff, if_neg hoff]
      exact .stored h _
  | clear =>
    obtain ⟨ds', hcall, hrep⟩ := h.clear
    simp only [Dstring.call, expected, hcall] at *
    exact .stored hrep _

/-- A call keeps the refinement. -/
theorem Refines.step (hmax : ∀ m, alloc m = true → m < 2 ^ 63) {st st' : State}
    {e : Option (List UInt8) × Result} {op : Op} (h : Refines st e) (hok : assumed alloc st op)
    (hstep : Dstring.step alloc st op = some st') : Refines st' (expected e.1 op) := by
  obtain ⟨hnul, hlen, halloc⟩ := hok
  have hst := halloc st' hstep
  cases h with
  | null ret =>
    cases hstep
    cases op with
    | create =>
      simp only [Dstring.call, expected] at *
      split_ifs at hst ⊢ with hm
      · exact .stored .init _
      · exact absurd rfl hst
    | _ => exact .null _
  | stored hrep ret =>
    cases hstep
    exact hrep.call hmax hnul hlen hst

theorem Refines.run (hmax : ∀ m, alloc m = true → m < 2 ^ 63) {st st' : State} {ops : List Op}
    {e : Option (List UInt8) × Result} (h : Refines st e)
    (hrun : Trans.Run (Dstring.step alloc) (assumed alloc) st ops st') :
    Refines st' (expectedRun e ops) := by
  induction hrun generalizing e with
  | nil => exact h
  | cons hok hstep _ ih => exact ih (h.step hmax hok hstep)

/-- **A dynamic string refines a list of characters.** After every sequence of calls, with texts
that have no NUL and are produced by `vsnprintf`, and with allocations that succeed (none of
`2 ^ 63` bytes or more does): there has been no access outside the block; the last call has returned
what it should, which for an insert is `OK` just if the offset is not past the end; and the string,
its copy and its length are the expected ones, with a block that has room for its terminator. -/
theorem dstring_refines (hmax : ∀ m, alloc m = true → m < 2 ^ 63) {ops : List Op} {st : State}
    {ret : Result}
    (hrun : Trans.Run (step alloc) (assumed alloc) (.live none ret) ops st) :
    (∃ ret', st = .live none ret' ∧ expectedRun (none, ret) ops = (none, ret')) ∨
      ∃ ds s ret', st = .live (some ds) ret' ∧ expectedRun (none, ret) ops = (some s, ret') ∧
        strGet alloc ds = some (strdup alloc s) ∧ lenGet ds = s.length ∧
        (∀ str, ds.str = some str → str.size = ds.size ∧ s.length + 1 ≤ ds.size ∧
          str.Holds 0 (s ++ [nul])) ∧ (ds.str = none → s = []) := by
  have href := Refines.run hmax (.null ret) hrun
  generalize expectedRun (none, ret) ops = e at href ⊢
  cases href with
  | null ret' => exact .inl ⟨ret', rfl, rfl⟩
  | @stored ds s h ret' =>
    refine .inr ⟨ds, s, ret', rfl, rfl, h.strGet_eq, h.lenGet_eq, fun str hstr => ?_,
      h.unallocated⟩
    obtain ⟨hsize, -, hholds⟩ := h.block str hstr
    exact ⟨hsize, h.stored.length_lt hstr, hholds⟩

/-- A string is made, with an insert past its end and a clear that keeps its block. -/
def someCalls : List Op :=
  [.create, .appendf [99, 101], .prependf [97], .insertf 2 [100], .insertf 5 [120], .clear,
    .insertf 0 [104, 105]]

theorem dstring_refines_someCalls :
    ∃ st, Trans.run (step fun n => decide (n < 100)) (.live none 0) someCalls = some st ∧
      ∃ ds, st = .live (some ds) Result.ok ∧ lenGet ds = 2 ∧ ds.size = 5 := by
  have hrun : ∃ ds, Trans.run
      (Trans.guarded (step fun n => decide (n < 100)) (assumed fun n => decide (n < 100)))
      (.live none 0) someCalls = some (.live (some ds) Result.ok) ∧ ds.size = 5 :=
    ⟨_, rfl, rfl⟩
  obtain ⟨ds, hds, hsize⟩ := hrun
  have hok := Trans.Run.of_guarded hds
  refine ⟨_, hok.run_eq, ds, rfl, ?_, hsize⟩
  rcases dstring_refines (fun m hm => by simp at hm; omega) hok with ⟨ret, hst, -⟩ |
    ⟨ds', s, ret, hst, hexp, -, hlen, -⟩
  · cases hst
  · cases hst
    have hs : (some s, Result.ok) = (some [104, 105], Result.ok) := hexp.symm
    cases hs
    exact hlen

end Dstring
end Gallus
