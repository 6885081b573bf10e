import Gallus.Cbuffer.Notices

/-!
# How many elements a buffer holds

The count `m_n_elements` is right whatever the indices do: no function of `cbuffer.c` computes it
from them.

* `copyin_counts`, `copyout_counts`: what a copy does to the count, for any buffer and any size.
* `Bounded`: the count is between zero and the capacity. `bounded_run`: it is so in every state that
  the calls can reach.
-/

namespace Gallus
namespace Cbuffer

variable {α : Type} {cb cb' : Cbuffer α}

/-! ## The copies -/

/-- `max_n` of `s_copyin`. -/
def copyinMax (cb : Cbuffer α) (n : Nat) : Int :=
  if cb.nMaxElements - cb.nElements < i64 n then cb.nMaxElements - cb.nElements else i64 n

/-- `max_n` of `s_copyout`. -/
def copyoutMax (cb : Cbuffer α) (n : Nat) : Int :=
  if i64 n < cb.nElements then i64 n else cb.nElements

theorem copyinMax_eq (cb : Cbuffer α) (n : Nat) :
    copyinMax cb n = min (cb.nMaxElements - cb.nElements) (i64 n) := by
  unfold copyinMax
  split <;> omega

theorem copyoutMax_eq (cb : Cbuffer α) (n : Nat) :
    copyoutMax cb n = min cb.nElements (i64 n) := by
  unfold copyoutMax
  split <;> omega

theorem copyinMax_le (cb : Cbuffer α) (n : Nat) :
    copyinMax cb n ≤ cb.nMaxElements - cb.nElements := by
  rw [copyinMax_eq]
  exact Int.min_le_left _ _

theorem copyoutMax_le (cb : Cbuffer α) (n : Nat) : copyoutMax cb n ≤ cb.nElements := by
  rw [copyoutMax_eq]
  exact Int.min_le_left _ _

theorem copyinData_counts (cb : Cbuffer α) (vals : List α) (n : Int) :
    (copyinData (adjustIndices cb) vals n).nElements = cb.nElements ∧
      (copyinData (adjustIndices cb) vals n).nMaxElements = cb.nMaxElements := by
  unfold copyinData adjustIndices memcpyIn
  dsimp only
  split_ifs <;> exact ⟨rfl, rfl⟩

theorem copyoutData_counts (cb : Cbuffer α) (n : Int) :
    (copyoutData (adjustIndices cb) n).1.nElements = cb.nElements ∧
      (copyoutData (adjustIndices cb) n).1.nMaxElements = cb.nMaxElements := by
  unfold copyoutData adjustIndices memcpyOut
  dsimp only
  split_ifs <;> exact ⟨rfl, rfl⟩

theorem adjustIndices_counts (cb : Cbuffer α) :
    (adjustIndices cb).nElements = cb.nElements ∧
      (adjustIndices cb).nMaxElements = cb.nMaxElements := by
  unfold adjustIndices
  split <;> exact ⟨rfl, rfl⟩

/-- A copy-in counts what it reports, if that is positive. -/
theorem copyin_counts (cb : Cbuffer α) (vals : List α) :
    (copyin cb vals).2 = copyinMax cb vals.length ∧
      (copyin cb vals).1.nElements = cb.nElements + max 0 (copyinMax cb vals.length) ∧
      (copyin cb vals).1.nMaxElements = cb.nMaxElements := by
  unfold copyinMax
  simp only [copyin]
  generalize (if cb.nMaxElements - cb.nElements < i64 vals.length then
    cb.nMaxElements - cb.nElements else i64 vals.length) = n
  obtain ⟨hn, hmax⟩ := copyinData_counts cb vals n
  generalize copyinData cb.adjustIndices vals n = cb₁ at hn hmax ⊢
  split
  · next hpos =>
    obtain ⟨log, hlog⟩ := ite_qmuxerNotify_eq
      { cb₁ with nElements := cb₁.nElements + n, wIdx := i64 (cb₁.wIdx + n) }
      (needWaitReadable cb₁.type)
    refine ⟨rfl, ?_, ?_⟩
    · rw [hlog]
      show cb₁.nElements + n = _
      omega
    · rw [hlog]
      exact hmax
  · next hpos =>
    obtain ⟨hn', hmax'⟩ := adjustIndices_counts cb
    refine ⟨rfl, ?_, hmax'⟩
    show (adjustIndices cb).nElements = _
    omega

/-- A copy-out that removes counts what it reports, if that is positive; another leaves the count
alone. -/
theorem copyout_counts (cb : Cbuffer α) (n : Nat) (doIncr : Bool) :
    (copyout cb n doIncr).2.2 = copyoutMax cb n ∧
      (copyout cb n doIncr).1.nElements =
        (if doIncr then cb.nElements - max 0 (copyoutMax cb n) else cb.nElements) ∧
      (copyout cb n doIncr).1.nMaxElements = cb.nMaxElements := by
  unfold copyout copyoutMax
  dsimp only
  generalize (if i64 n < cb.nElements then i64 n else cb.nElements) = m
  obtain ⟨hn, hmax⟩ := copyoutData_counts cb m
  generalize copyoutData cb.adjustIndices m = r at hn hmax ⊢
  obtain ⟨cb₁, vals⟩ := r
  dsimp only at hn hmax ⊢
  split
  · next hpos =>
    cases doIncr with
    | true =>
      obtain ⟨log, hlog⟩ := ite_qmuxerNotify_eq
        { cb₁ with nElements := cb₁.nElements - m, rIdx := cb₁.rIdx + m }
        (needWaitWritable cb₁.type)
      refine ⟨rfl, ?_, ?_⟩
      · simp only [if_true]
        rw [hlog]
        show cb₁.nElements - m = _
        omega
      · simp only [if_true]
        rw [hlog]
        exact hmax
    | false => exact ⟨rfl, hn, hmax⟩
  · next hpos =>
    obtain ⟨hn', hmax'⟩ := adjustIndices_counts cb
    refine ⟨rfl, ?_, hmax'⟩
    show (adjustIndices cb).nElements = _
    split <;> omega

/-! ## The bounds -/

/-- The count is between zero and the capacity. -/
def Bounded (cb : Cbuffer α) : Prop := 0 ≤ cb.nElements ∧ cb.nElements ≤ cb.nMaxElements

theorem Bounded.copyin (h : Bounded cb) (vals : List α) : Bounded (copyin cb vals).1 := by
  obtain ⟨-, hn, hmax⟩ := copyin_counts cb vals
  have hle := copyinMax_le cb vals.length
  unfold Bounded at *
  rw [hn, hmax]
  omega

theorem Bounded.copyout (h : Bounded cb) (n : Nat) (doIncr : Bool) :
    Bounded (copyout cb n doIncr).1 := by
  obtain ⟨-, hn, hmax⟩ := copyout_counts cb n doIncr
  have hle := copyoutMax_le cb n
  unfold Bounded at *
  rw [hn, hmax]
  split <;> omega

/-- The capacity is kept, and with it the bounds. -/
def Counted (cb cb' : Cbuffer α) : Prop :=
  cb'.nMaxElements = cb.nMaxElements ∧ (Bounded cb → Bounded cb')

theorem serving_counted : Serving (Counted (α := α)) where
  refl _ := ⟨rfl, id⟩
  trans h h' := ⟨h'.1.trans h.1, h'.2 ∘ h.2⟩
  copyin cb vals _ := ⟨(copyin_counts cb vals).2.2, fun h => h.copyin vals⟩
  copyout cb n b _ := ⟨(copyout_counts cb n b).2.2, fun h => h.copyout n b⟩
  waiters _ _ _ _ := ⟨rfl, id⟩
  wakeup _ := ⟨rfl, id⟩

section

variable [Zero α]

/-- `s_clean` leaves nothing in the buffer. -/
theorem clean_counts (cb : Cbuffer α) (freeValues : Bool) :
    (clean cb freeValues).nElements = 0 ∧
      (clean cb freeValues).nMaxElements = cb.nMaxElements := by
  refine ⟨rfl, ?_⟩
  show (if freeValues then freeupAllValues cb else cb).nMaxElements = _
  unfold freeupAllValues
  dsimp only
  split_ifs
  · exact (adjustIndices_counts cb).2
  · rfl
  · rfl

theorem clear_counts (cb : Cbuffer α) (freeValues : Bool) :
    (clear cb freeValues).1.nElements = 0 ∧
      (clear cb freeValues).1.nMaxElements = cb.nMaxElements := by
  obtain ⟨hn, hmax⟩ := clean_counts cb freeValues
  obtain ⟨log, hlog⟩ :=
    ite_qmuxerNotify_eq (clean cb freeValues) (needWaitReadable (clean cb freeValues).type)
  unfold clear
  dsimp only
  rw [hlog]
  exact ⟨hn, hmax⟩

theorem shutdown_counts (cb : Cbuffer α) (freeValues : Bool) (ho : cb.isOperational = true) :
    (shutdown cb freeValues).nElements = 0 ∧
      (shutdown cb freeValues).nMaxElements = cb.nMaxElements := by
  obtain ⟨hn, hmax⟩ := clean_counts { cb with isOperational := false } freeValues
  obtain ⟨log, hlog⟩ := qmuxerNotify_eq (clean { cb with isOperational := false } freeValues)
  unfold shutdown
  dsimp only
  rw [if_pos ho, hlog]
  exact ⟨hn, hmax⟩

omit [Zero α] in
theorem Counted.emptied (hn : cb'.nElements = 0) (hmax : cb'.nMaxElements = cb.nMaxElements) :
    Counted cb cb' := by
  refine ⟨hmax, fun h => ?_⟩
  unfold Bounded at *
  rw [hn, hmax]
  omega

theorem counted_shutdown (cb : Cbuffer α) (freeValues : Bool) :
    Counted cb (shutdown cb freeValues) := by
  by_cases ho : cb.isOperational = true
  · obtain ⟨hn, hmax⟩ := shutdown_counts cb freeValues ho
    exact .emptied hn hmax
  · unfold shutdown
    rw [if_neg ho]
    exact ⟨rfl, id⟩

variable {κ : Type} [DecidableEq κ] {s s' : Calls κ α} {e : Event κ α} {es : List (Event κ α)}

/-- **Each segment of each call keeps the capacity and the bounds.** -/
theorem counted_step (hs : step s e = some s') : Counted s.cb s'.cb := by
  refine serving_counted.step (fun k b now _ => ?_) (fun k b now _ => ?_) hs
  · obtain ⟨hn, hmax⟩ := clear_counts s.cb b
    exact .emptied hn hmax
  · exact counted_shutdown s.cb b

omit [Zero α] in
theorem bounded_createWithSize {mallocOk : Nat → Bool} {junk : Nat → α} {elemsize : Nat}
    {maxelems : Int} {hasDelProc : Bool}
    (h : createWithSize mallocOk junk elemsize maxelems hasDelProc = (Result.ok, some cb)) :
    Bounded cb := by
  simp only [createWithSize] at h
  split_ifs at h with hargs hmalloc
  · cases h
    exact ⟨Int.le_refl 0, Int.le_of_lt hargs.2⟩
  · cases h
  · cases h

/-- **The count is between zero and the capacity in every reachable state.** -/
theorem bounded_run {ok : Calls κ α → Event κ α → Prop} (h : Bounded s.cb)
    (hrun : Trans.Run step ok s es s') : Bounded s'.cb :=
  hrun.inv (I := fun s => Bounded s.cb) (fun _ _ _ hb _ hs => (counted_step hs).2 hb) h

end

end Cbuffer
end Gallus
