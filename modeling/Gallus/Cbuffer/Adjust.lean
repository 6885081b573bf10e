import Gallus.Cbuffer.Bounds
import Gallus.Cbuffer.Disposal
import Gallus.Cbuffer.Move

/-!
# The indices past `2 ^ 63` (`s_adjust_indices`)

Both indices only grow. When `m_w_idx` has run past the end of its type, the next put, get, peek or
free-up sets it to the size of the ring and reduces `m_r_idx` modulo that size.

* `Preserves` says that the queue is the same afterwards: the distance of the indices is the count,
  and they are where they were before.
* The write index comes back in slot 0, so `Aligned`: it was there before. `Indexed` is what holds
  of the indices as long as every adjustment met that. `adjustIndices_preserves_iff`: then the next
  one preserves the queue exactly if it meets that too.
* `adjustIndices_apart`: in a ring of three slots it does not.
-/

namespace Gallus
namespace Cbuffer

variable {α : Type} {cb cb' : Cbuffer α}

/-- `cb'` holds the queue of `cb`, whose write index has wrapped to a negative value. -/
structure Preserves (cb cb' : Cbuffer α) : Prop where
  distance : cb'.wIdx - cb'.rIdx = cb'.nElements
  rSlot : cb'.rIdx % cb.nMaxAllocdElements = cb.rIdx % cb.nMaxAllocdElements
  wSlot : cb'.wIdx % cb.nMaxAllocdElements = (cb.wIdx + 2 ^ 64) % cb.nMaxAllocdElements
  rIdx : 0 ≤ cb'.rIdx
  wIdx : 0 ≤ cb'.wIdx
  stored : stored cb' = stored cb

/-- The write index, before it wrapped, was at slot 0 of the ring. -/
def Aligned (cb : Cbuffer α) : Prop :=
  0 < cb.nMaxAllocdElements ∧ (cb.wIdx + 2 ^ 64) % cb.nMaxAllocdElements = 0

/-- The indices and the count belong together, up to the wrap of the write index. -/
structure Indexed (cb : Cbuffer α) : Prop where
  bounded : Bounded cb
  nMaxElements : cb.nMaxElements < 2 ^ 63
  allocd : cb.nMaxAllocdElements = i64 (cb.nMaxElements + nEmptyRoom)
  r_nonneg : 0 ≤ cb.rIdx
  r_lt : cb.rIdx < 2 ^ 63
  unwrapped : 0 ≤ cb.wIdx → cb.wIdx = cb.rIdx + cb.nElements ∧ cb.wIdx < 2 ^ 63
  wrapped : cb.wIdx < 0 → cb.wIdx + 2 ^ 64 = cb.rIdx + cb.nElements ∧ 0 < cb.nElements

/-- The size of the ring is one more than the capacity, if that is possible. -/
theorem Indexed.ring (h : Indexed cb) (hpos : 0 < cb.nMaxAllocdElements) :
    cb.nMaxAllocdElements = cb.nMaxElements + 1 := by
  have hcap := h.nMaxElements
  have hb := h.bounded
  have hring := h.allocd
  unfold Bounded nEmptyRoom at *
  by_cases hlast : cb.nMaxElements + 1 < 2 ^ 63
  · rw [hring, i64_of_range (by omega) hlast]
  · have hneg := i64_natCast_neg (n := 2 ^ 63) (by decide) (by decide)
    rw [hring, show cb.nMaxElements + 1 = ((2 ^ 63 : Nat) : Int) by omega] at hpos
    omega

/-- Two numbers below a modulus, one of them positive: their sum is a multiple of it exactly if it
is the modulus. -/
theorem add_emod_eq_zero_iff {c r n : Int} (hc : 0 < c) (hn : 0 < n) (hnc : n < c) :
    (r + n) % c = 0 ↔ c - r % c = n := by
  have hlo := Int.emod_nonneg r (Int.ne_of_gt hc)
  have hhi := Int.emod_lt_of_pos r hc
  rw [← Int.emod_add_emod]
  constructor
  · intro h
    by_contra hne
    by_cases hlt : r % c + n < c
    · rw [Int.emod_eq_of_lt (by omega) hlt] at h
      omega
    · have hsub : (r % c + n) % c = (r % c + n - c) % c := (Int.sub_emod_right _ _).symm
      rw [hsub, Int.emod_eq_of_lt (by omega) (by omega)] at h
      omega
  · intro h
    rw [show r % c + n = c by omega]
    exact Int.emod_self

theorem adjustIndices_of_neg (hw : cb.wIdx < 0) : adjustIndices cb =
    { cb with
      wIdx := cb.nMaxAllocdElements
      rIdx := cb.rIdx.tmod cb.nMaxAllocdElements } := by
  unfold adjustIndices
  exact if_neg (Int.not_le.mpr hw)

theorem stored_adjustIndices (hc : 0 < cb.nMaxAllocdElements) (hr : 0 ≤ cb.rIdx) :
    stored { cb with
      wIdx := cb.nMaxAllocdElements
      rIdx := cb.rIdx.tmod cb.nMaxAllocdElements } = stored cb := by
  obtain ⟨r, hr'⟩ := Int.eq_ofNat_of_zero_le hr
  obtain ⟨c, hc'⟩ := Int.eq_ofNat_of_zero_le (Int.le_of_lt hc)
  unfold stored Ring.window
  rw [Int.tmod_eq_emod_of_nonneg hr, hr', hc', ← Int.natCast_emod, Int.toNat_natCast,
    Int.toNat_natCast]
  simp only [Nat.mod_add_mod, Int.toNat_natCast]

/-- **An adjustment preserves the queue exactly if the write index was at slot 0.** -/
theorem Indexed.preserves_iff (h : Indexed cb) (hw : cb.wIdx < 0) :
    Preserves cb (adjustIndices cb) ↔ Aligned cb := by
  obtain ⟨hsum, hpos⟩ := h.wrapped hw
  have hr := h.r_nonneg
  rw [adjustIndices_of_neg hw]
  unfold Aligned
  rw [hsum]
  constructor
  · rintro ⟨hdist, -, -, -, hwpos, -⟩
    dsimp only at hdist hwpos
    have hne : cb.nMaxAllocdElements ≠ 0 := by
      intro hzero
      rw [hzero, Int.tmod_zero] at hdist
      omega
    have hc : 0 < cb.nMaxAllocdElements := by omega
    refine ⟨hc, ?_⟩
    have hring := h.ring hc
    have hle := h.bounded.2
    rw [Int.tmod_eq_emod_of_nonneg hr] at hdist
    exact (add_emod_eq_zero_iff hc hpos (by omega)).mpr hdist
  · rintro ⟨hc, halign⟩
    have hring := h.ring hc
    have hle := h.bounded.2
    have hdist := (add_emod_eq_zero_iff hc hpos (by omega)).mp halign
    have hmod := Int.tmod_eq_emod_of_nonneg (b := cb.nMaxAllocdElements) hr
    refine ⟨?_, ?_, ?_, ?_, Int.le_of_lt hc, stored_adjustIndices hc hr⟩
    · dsimp only
      rw [hmod]
      exact hdist
    · dsimp only
      rw [hmod, Int.emod_emod]
    · dsimp only
      rw [hsum, halign, Int.emod_self]
    · dsimp only
      rw [hmod]
      exact Int.emod_nonneg _ (Int.ne_of_gt hc)

/-! ## What the calls do to the indices -/

theorem adjustIndices_allocd (cb : Cbuffer α) :
    (adjustIndices cb).nMaxAllocdElements = cb.nMaxAllocdElements := by
  unfold adjustIndices
  split <;> rfl

/-- After an adjustment that preserves the queue the indices belong to the count. -/
theorem Indexed.adjust (h : Indexed cb) (ha : cb.wIdx < 0 → Aligned cb) :
    Indexed (adjustIndices cb) ∧ 0 ≤ (adjustIndices cb).wIdx := by
  by_cases hw : 0 ≤ cb.wIdx
  · rw [adjustIndices_of_nonneg hw]
    exact ⟨h, hw⟩
  · replace hw : cb.wIdx < 0 := Int.not_le.mp hw
    have hc := (ha hw).1
    have hp := (h.preserves_iff hw).mpr (ha hw)
    rw [adjustIndices_of_neg hw] at hp ⊢
    have hdist := hp.distance
    have hr := hp.rIdx
    have hlt : cb.rIdx.tmod cb.nMaxAllocdElements < cb.nMaxAllocdElements := Int.tmod_lt_of_pos _ hc
    have hc' : cb.nMaxAllocdElements < 2 ^ 63 := by
      rw [h.allocd]
      exact i64_lt _
    dsimp only at hdist hr
    exact ⟨⟨h.bounded, h.nMaxElements, h.allocd, hr, by dsimp only; omega,
      fun _ => ⟨by dsimp only; omega, hc'⟩, fun hneg => by dsimp only at hneg; omega⟩,
      Int.le_of_lt hc⟩

theorem copyinData_indices (cb : Cbuffer α) (vals : List α) (n : Int) :
    (copyinData cb vals n).rIdx = cb.rIdx ∧ (copyinData cb vals n).wIdx = cb.wIdx ∧
      (copyinData cb vals n).nMaxAllocdElements = cb.nMaxAllocdElements := by
  unfold copyinData memcpyIn
  dsimp only
  split_ifs <;> exact ⟨rfl, rfl, rfl⟩

theorem copyoutData_indices (cb : Cbuffer α) (n : Int) :
    (copyoutData cb n).1.rIdx = cb.rIdx ∧ (copyoutData cb n).1.wIdx = cb.wIdx ∧
      (copyoutData cb n).1.nMaxAllocdElements = cb.nMaxAllocdElements := by
  unfold copyoutData memcpyOut
  dsimp only
  split_ifs <;> exact ⟨rfl, rfl, rfl⟩

theorem copyin_indices (cb : Cbuffer α) (vals : List α) :
    (copyin cb vals).1.rIdx = (adjustIndices cb).rIdx ∧
      (copyin cb vals).1.wIdx =
        (if 0 < copyinMax cb vals.length then
          i64 ((adjustIndices cb).wIdx + copyinMax cb vals.length)
        else (adjustIndices cb).wIdx) ∧
      (copyin cb vals).1.nMaxAllocdElements = cb.nMaxAllocdElements := by
  have hall := adjustIndices_allocd cb
  unfold copyinMax
  simp only [copyin]
  generalize (if cb.nMaxElements - cb.nElements < i64 vals.length then
    cb.nMaxElements - cb.nElements else i64 vals.length) = n
  obtain ⟨hr, hw, hc⟩ := copyinData_indices cb.adjustIndices vals n
  generalize copyinData cb.adjustIndices vals n = cb₁ at hr hw hc ⊢
  split
  · obtain ⟨log, hlog⟩ := ite_qmuxerNotify_eq
      { cb₁ with nElements := cb₁.nElements + n, wIdx := i64 (cb₁.wIdx + n) }
      (needWaitReadable cb₁.type)
    rw [hlog]
    dsimp only
    exact ⟨hr, by rw [hw], hc.trans hall⟩
  · exact ⟨rfl, rfl, hall⟩

theorem copyout_indices (cb : Cbuffer α) (n : Nat) (doIncr : Bool) :
    (copyout cb n doIncr).1.rIdx =
        (if doIncr then (adjustIndices cb).rIdx + max 0 (copyoutMax cb n)
        else (adjustIndices cb).rIdx) ∧
      (copyout cb n doIncr).1.wIdx = (adjustIndices cb).wIdx ∧
      (copyout cb n doIncr).1.nMaxAllocdElements = cb.nMaxAllocdElements := by
  have hall := adjustIndices_allocd cb
  unfold copyout copyoutMax
  dsimp only
  generalize (if i64 n < cb.nElements then i64 n else cb.nElements) = m
  obtain ⟨hr, hw, hc⟩ := copyoutData_indices cb.adjustIndices m
  generalize copyoutData cb.adjustIndices m = r at hr hw hc ⊢
  obtain ⟨cb₁, vals⟩ := r
  dsimp only at hr hw hc ⊢
  split
  · next hpos =>
    cases doIncr with
    | true =>
      obtain ⟨log, hlog⟩ := ite_qmuxerNotify_eq
        { cb₁ with nElements := cb₁.nElements - m, rIdx := cb₁.rIdx + m }
        (needWaitWritable cb₁.type)
      simp only [if_true]
      rw [hlog]
      dsimp only
      rw [hr, Int.max_eq_right (Int.le_of_lt hpos)]
      exact ⟨rfl, hw, hc.trans hall⟩
    | false => exact ⟨hr, hw, hc.trans hall⟩
  · next hpos =>
    rw [Int.max_eq_left (Int.not_lt.mp hpos), Int.add_zero, ite_self]
    exact ⟨rfl, rfl, hall⟩

theorem Indexed.copyin (h : Indexed cb) (ha : cb.wIdx < 0 → Aligned cb) (vals : List α) :
    Indexed (copyin cb vals).1 := by
  obtain ⟨h', hw'⟩ := h.adjust ha
  obtain ⟨-, hn, hmax⟩ := copyin_counts cb vals
  obtain ⟨hr, hw, hc⟩ := copyin_indices cb vals
  obtain ⟨hn', -⟩ := adjustIndices_counts cb
  obtain ⟨heq, hlt⟩ := h'.unwrapped hw'
  have hle := copyinMax_le cb vals.length
  have hb' := h.bounded.copyin vals
  have hcap := h.nMaxElements
  have hring := h.allocd
  have hpos := h.bounded.1
  have hrpos := h'.r_nonneg
  have hrlt := h'.r_lt
  rw [hn'] at heq
  generalize (Cbuffer.copyin cb vals).1 = cb₁ at hn hmax hr hw hc hb' ⊢
  generalize copyinMax cb vals.length = m at hn hw hle
  generalize adjustIndices cb = cb₀ at *
  by_cases hput : 0 < m
  · rw [if_pos hput] at hw
    rw [Int.max_eq_right (Int.le_of_lt hput)] at hn
    refine ⟨hb', by omega, by rw [hc, hmax, hring], by omega, by omega, ?_, ?_⟩
    · intro hnonneg
      rw [hw] at hnonneg ⊢
      have hfits := lt_of_i64_nonneg (by omega) (by omega) hnonneg
      rw [i64_of_range (by omega) hfits]
      omega
    · intro hneg
      obtain ⟨sum, hsum⟩ := Int.eq_ofNat_of_zero_le (show 0 ≤ cb₀.wIdx + m by omega)
      rw [hw, hsum] at hneg
      have hback := i64_wraps (by omega) hneg
      rw [hw, hsum, hback]
      omega
  · rw [if_neg hput] at hw
    rw [Int.max_eq_left (Int.not_lt.mp hput)] at hn
    exact ⟨hb', by omega, by rw [hc, hmax, hring], by omega, by omega, fun _ => by omega,
      fun _ => by omega⟩

theorem Indexed.copyout (h : Indexed cb) (ha : cb.wIdx < 0 → Aligned cb) (n : Nat)
    (doIncr : Bool) : Indexed (copyout cb n doIncr).1 := by
  obtain ⟨h', hw'⟩ := h.adjust ha
  obtain ⟨-, hn, hmax⟩ := copyout_counts cb n doIncr
  obtain ⟨hr, hw, hc⟩ := copyout_indices cb n doIncr
  obtain ⟨hn', -⟩ := adjustIndices_counts cb
  obtain ⟨heq, hlt⟩ := h'.unwrapped hw'
  have hle := copyoutMax_le cb n
  have hb' := h.bounded.copyout n doIncr
  have hcap := h.nMaxElements
  have hring := h.allocd
  have hpos := h.bounded.1
  have hrpos := h'.r_nonneg
  have hrlt := h'.r_lt
  rw [hn'] at heq
  generalize (Cbuffer.copyout cb n doIncr).1 = cb₁ at hn hmax hr hw hc hb' ⊢
  generalize copyoutMax cb n = m at hn hr hle
  generalize adjustIndices cb = cb₀ at *
  cases doIncr with
  | true =>
    simp only [if_true] at hn hr
    exact ⟨hb', by omega, by rw [hc, hmax, hring], by omega, by omega, fun _ => by omega,
      fun _ => by omega⟩
  | false =>
    simp only [Bool.false_eq_true, if_false] at hn hr
    exact ⟨hb', by omega, by rw [hc, hmax, hring], by omega, by omega, fun _ => by omega,
      fun _ => by omega⟩

/-- An emptied buffer starts again at slot 0. -/
theorem Indexed.emptied (h : Indexed cb) (hr : cb'.rIdx = 0) (hw : cb'.wIdx = 0)
    (hn : cb'.nElements = 0) (hmax : cb'.nMaxElements = cb.nMaxElements)
    (hc : cb'.nMaxAllocdElements = cb.nMaxAllocdElements) : Indexed cb' := by
  refine ⟨(Counted.emptied hn hmax).2 h.bounded, hmax ▸ h.nMaxElements, ?_, by omega, ?_, ?_, ?_⟩
  · rw [hc, hmax]
    exact h.allocd
  · rw [hr]
    decide
  · rw [hw, hr, hn]
    exact fun _ => ⟨rfl, by decide⟩
  · rw [hw]
    exact fun hneg => absurd hneg (by decide)

section

variable [Zero α]

theorem clean_allocd (cb : Cbuffer α) (freeValues : Bool) :
    (clean cb freeValues).nMaxAllocdElements = cb.nMaxAllocdElements := by
  show (if freeValues then freeupAllValues cb else cb).nMaxAllocdElements = _
  unfold freeupAllValues
  dsimp only
  split_ifs
  · exact adjustIndices_allocd cb
  · rfl
  · rfl

theorem Indexed.clear (h : Indexed cb) (freeValues : Bool) : Indexed (clear cb freeValues).1 := by
  obtain ⟨hn, hmax⟩ := clear_counts cb freeValues
  have hc := clean_allocd cb freeValues
  obtain ⟨log, hlog⟩ :=
    ite_qmuxerNotify_eq (clean cb freeValues) (needWaitReadable (clean cb freeValues).type)
  obtain ⟨hr, hw, hc'⟩ : (Cbuffer.clear cb freeValues).1.rIdx = 0 ∧
      (Cbuffer.clear cb freeValues).1.wIdx = 0 ∧
      (Cbuffer.clear cb freeValues).1.nMaxAllocdElements = cb.nMaxAllocdElements := by
    unfold Cbuffer.clear
    dsimp only
    rw [hlog]
    exact ⟨rfl, rfl, hc⟩
  exact h.emptied hr hw hn hmax hc'

theorem Indexed.shutdown (h : Indexed cb) (freeValues : Bool) :
    Indexed (shutdown cb freeValues) := by
  by_cases ho : cb.isOperational = true
  · obtain ⟨hn, hmax⟩ := shutdown_counts cb freeValues ho
    have hc := clean_allocd { cb with isOperational := false } freeValues
    obtain ⟨log, hlog⟩ := qmuxerNotify_eq (clean { cb with isOperational := false } freeValues)
    obtain ⟨hr, hw, hc'⟩ : (Cbuffer.shutdown cb freeValues).rIdx = 0 ∧
        (Cbuffer.shutdown cb freeValues).wIdx = 0 ∧
        (Cbuffer.shutdown cb freeValues).nMaxAllocdElements = cb.nMaxAllocdElements := by
      unfold Cbuffer.shutdown
      dsimp only
      rw [if_pos ho, hlog]
      exact ⟨rfl, rfl, hc⟩
    exact h.emptied hr hw hn hmax hc'
  · unfold Cbuffer.shutdown
    rw [if_neg ho]
    exact h

omit [Zero α] in
theorem Indexed.quiet (h : Indexed cb) (hq : Quiet cb cb') : Indexed cb' := by
  obtain ⟨_, _, _, _, _, rfl⟩ := hq
  exact ⟨h.bounded, h.nMaxElements, h.allocd, h.r_nonneg, h.r_lt, h.unwrapped, h.wrapped⟩

/-- One move keeps the indices with the count, if its adjustment preserves the queue. -/
theorem Indexed.makes {m : Move α} (h : Indexed cb) (ha : cb.wIdx < 0 → Aligned cb)
    (hm : Makes cb m cb') : Indexed cb' := by
  cases hm with
  | none => exact h
  | copyin vals ho => exact h.copyin ha vals
  | copyout n doIncr ho => exact h.copyout ha n doIncr
  | clear freeValues => exact h.clear freeValues
  | shutdown freeValues => exact h.shutdown freeValues

variable {κ : Type} [DecidableEq κ] {s s' : Calls κ α} {e : Event κ α} {es : List (Event κ α)}

/-- The condition on the steps: the segment runs before the write index wrapped, or finds it
wrapped from slot 0. -/
def alignedAt (s : Calls κ α) (_ : Event κ α) : Prop := s.cb.wIdx < 0 → Aligned s.cb

/-- **Each segment keeps the indices with the count**, if it meets the condition. -/
theorem Indexed.step (h : Indexed s.cb) (ha : alignedAt s e) (hs : step s e = some s') :
    Indexed s'.cb := by
  obtain ⟨m, -, cb₀, cb₁, hq₀, hmakes, hq₁⟩ := step_moved hs
  refine ((h.quiet hq₀).makes ?_ hmakes).quiet hq₁
  obtain ⟨_, _, _, _, _, rfl⟩ := hq₀
  exact ha

omit [Zero α] in
theorem indexed_createWithSize {mallocOk : Nat → Bool} {junk : Nat → α} {elemsize : Nat}
    {maxelems : Int} {hasDelProc : Bool} (hmax : maxelems < 2 ^ 63)
    (h : createWithSize mallocOk junk elemsize maxelems hasDelProc = (Result.ok, some cb)) :
    Indexed cb := by
  have hb := bounded_createWithSize h
  simp only [createWithSize] at h
  split_ifs at h with hargs hmalloc
  · cases h
    have hlt : (0 : Int) < 2 ^ 63 := by decide
    exact ⟨hb, hmax, rfl, Int.le_refl 0, hlt, fun _ => ⟨rfl, hlt⟩,
      fun hneg => (Int.lt_irrefl 0 hneg).elim⟩
  · cases h
  · cases h

end

/-! ## A ring of three slots -/

/-- One element goes through the buffer. -/
def callRound (i : Nat) : List (Event Nat Nat) :=
  [.call (2 * i) (.putN [7] 8 0) 0, .call (2 * i + 1) (.getN 1 1 8 0 true) 0]

section

variable {h : Handle Nat Nat} {n : Nat}

theorem AfterRounds.callRound (h₀ : AfterRounds h n) (hn : n + 1 < 2 ^ 63) :
    ∃ h', Trans.Run step alignedAt h.calls (callRound n) h'.calls ∧ AfterRounds h' (n + 1) := by
  obtain ⟨h', hrun, h₁⟩ := h₀.round hn
  have hw := h₀.wIdx
  have hroom : room h.calls.cb [] [7].length = 1 := by
    simp [room, h₀.nMaxElements]
  have hone : [7].length < 2 ^ 63 := by decide
  obtain ⟨-, -, -, hwIdx, -⟩ := copyin_rep h₀.rep hone (by rw [hroom]; omega)
  have hout := h₀.outside (2 * n) (Nat.le_refl _)
  have hput := start_put_one h₀.rep h₀.isOperational h₀.elementSize h₀.nMaxElements 0
  refine ⟨h', ?_, h₁⟩
  unfold Cbuffer.round at hrun
  rw [Trans.run_cons, step_call h₀.live hout, hput, Option.bind_some, Trans.run_cons,
    step_op rfl] at hrun
  obtain ⟨h₂, hget, hnil⟩ := Option.bind_eq_some_iff.mp hrun
  obtain ⟨s₂, hstep, rfl⟩ := Option.map_eq_some_iff.mp hget
  cases hnil
  have hfirst : step h.calls (.call (2 * n) (.putN [7] 8 0) 0) =
      some (commit h.calls (2 * n) (.putN [7] 8 0)
        ⟨(copyin h.calls.cb [7]).1, [7], [], .done 1 1 []⟩) := by
    unfold step
    dsimp only
    rw [hout, hput]
  refine .cons ?_ hfirst (.cons ?_ hstep (.nil _))
  · intro hneg
    omega
  · intro hneg
    replace hneg : (copyin h.calls.cb [7]).1.wIdx < 0 := hneg
    omega

theorem AfterRounds.callRounds (h₀ : AfterRounds h 0) (hn : n < 2 ^ 63) :
    ∃ h', Trans.Run step alignedAt h.calls ((List.range n).flatMap Cbuffer.callRound) h'.calls ∧
      AfterRounds h' n := by
  induction n with
  | zero => exact ⟨h, .nil _, h₀⟩
  | succ n ih =>
    obtain ⟨h₁, hrun, h₁'⟩ := ih (by omega)
    obtain ⟨h₂, hround, h₂'⟩ := h₁'.callRound hn
    refine ⟨h₂, ?_, h₂'⟩
    rw [List.range_succ, List.flatMap_append, List.flatMap_singleton]
    exact hrun.append hround

end

/-- `2 ^ 63 - 1` elements go through a buffer of two, then one is put. -/
theorem wrapped_two :
    ∃ (cb : Cbuffer Nat) (s : Calls Nat Nat) (es : List (Event Nat Nat)),
      createWithSize (fun _ => true) (fun _ => 0) 8 (2 : Nat) true = (Result.ok, some cb) ∧
      Trans.Run step alignedAt (Calls.init cb) es s ∧ s.cb.wIdx = -2 ^ 63 ∧
      s.cb.rIdx = 2 ^ 63 - 1 ∧ s.cb.nElements = 1 ∧ s.cb.nMaxAllocdElements = 3 := by
  have hfits : sizeofRecord + 8 * (2 + 1) < 2 ^ 63 := by decide
  have hcreate : createWithSize (fun _ => true) (fun _ => 0) 8 (2 : Nat) true =
      (Result.ok, some _) := rfl
  have h₀ : AfterRounds ⟨Calls.init _, true⟩ 0 :=
    ⟨rfl, (sim_createWithSize hfits hcreate).1.rep, rfl, rfl, rfl, rfl, rfl, rfl, rfl, rfl,
      fun _ _ => rfl⟩
  obtain ⟨h₁, hrun, h₁'⟩ := h₀.callRounds (n := 2 ^ 63 - 1) (by decide)
  have hw := h₁'.wIdx
  have hweq := h₁'.rep.w_eq
  have hn := h₁'.rep.n_eq
  have hc := h₁'.rep.allocd
  have hmax := h₁'.nMaxElements
  have hput := start_put_one h₁'.rep h₁'.isOperational h₁'.elementSize h₁'.nMaxElements 0
  have hout : h₁.calls.pc (2 ^ 64) = .outside := h₁'.outside _ (by decide)
  have hone : copyinMax h₁.calls.cb [7].length = 1 := by
    rw [copyinMax_eq, hn, hmax]
    rfl
  have hadjust := adjustIndices_of_nonneg h₁'.rep.w_nonneg
  obtain ⟨-, hn', -⟩ := copyin_counts h₁.calls.cb [7]
  obtain ⟨hr', hw', hc'⟩ := copyin_indices h₁.calls.cb [7]
  rw [hone] at hn' hw'
  rw [hadjust] at hr' hw'
  have hlast : step h₁.calls (.call (2 ^ 64) (.putN [7] 8 0) 0) =
      some (commit h₁.calls (2 ^ 64) (.putN [7] 8 0)
        ⟨(copyin h₁.calls.cb [7]).1, [7], [], .done 1 1 []⟩) := by
    unfold step
    dsimp only
    rw [hout, hput]
  have hok : alignedAt h₁.calls (.call (2 ^ 64) (.putN [7] 8 0) 0) := fun hneg => by omega
  refine ⟨_, _, _, hcreate, hrun.snoc hok hlast, ?_, ?_, ?_, ?_⟩
  · refine hw'.trans ?_
    rw [hw]
    decide
  · refine hr'.trans ?_
    rw [List.length_nil] at hweq
    omega
  · refine hn'.trans ?_
    rw [hn]
    rfl
  · refine hc'.trans ?_
    rw [hc, hmax]
    rfl

/-! ## The adjustments of a run -/

/-- **The first adjustment that loses the queue is the first one of an index that was not at slot
0.** A fresh buffer of any capacity, and any calls in any interleaving, each of whose segments met
that: when the write index is negative, `s_adjust_indices` preserves the queue exactly if the index
was at slot 0 before it wrapped. -/
theorem adjustIndices_preserves_iff [Zero α] {κ : Type} [DecidableEq κ] {s : Calls κ α}
    {es : List (Event κ α)} {mallocOk : Nat → Bool} {junk : Nat → α} {elemsize : Nat}
    {maxelems : Int} {hasDelProc : Bool} (hmax : maxelems < 2 ^ 63)
    (hcreate : createWithSize mallocOk junk elemsize maxelems hasDelProc = (Result.ok, some cb))
    (hrun : Trans.Run step alignedAt (Calls.init cb : Calls κ α) es s) :
    (s.cb.wIdx < 0 → Preserves s.cb (adjustIndices s.cb)) ↔ (s.cb.wIdx < 0 → Aligned s.cb) := by
  have h : Indexed s.cb := hrun.inv (I := fun s => Indexed s.cb)
    (fun _ _ _ h ha hs => h.step ha hs) (indexed_createWithSize hmax hcreate)
  constructor
  · exact fun hp hw => (h.preserves_iff hw).mp (hp hw)
  · exact fun ha hw => (h.preserves_iff hw).mpr (ha hw)

theorem adjustIndices_preserves_iff_two :
    ∃ (cb : Cbuffer Nat) (s : Calls Nat Nat) (es : List (Event Nat Nat)),
      createWithSize (fun _ => true) (fun _ => 0) 8 (2 : Nat) true = (Result.ok, some cb) ∧
      Trans.Run step alignedAt (Calls.init cb) es s ∧ s.cb.wIdx < 0 ∧
      ¬Preserves s.cb (adjustIndices s.cb) := by
  obtain ⟨cb, s, es, hcreate, hrun, hw, -, -, hc⟩ := wrapped_two
  have hiff := adjustIndices_preserves_iff (by decide) hcreate hrun
  have hneg : s.cb.wIdx < 0 := by
    rw [hw]
    decide
  refine ⟨cb, s, es, hcreate, hrun, hneg, fun hp => ?_⟩
  obtain ⟨-, hslot⟩ := hiff.mp (fun _ => hp) hneg
  rw [hw, hc] at hslot
  exact absurd hslot (by decide)

/-- After `2 ^ 63` puts a buffer of two holds one element, and the indices are two apart. -/
theorem adjustIndices_apart :
    ∃ (cb : Cbuffer Nat) (s : Calls Nat Nat) (es : List (Event Nat Nat)),
      createWithSize (fun _ => true) (fun _ => 0) 8 (2 : Nat) true = (Result.ok, some cb) ∧
      Trans.run step (Calls.init cb) es = some s ∧ s.cb.wIdx < 0 ∧
      (adjustIndices s.cb).wIdx = 3 ∧ (adjustIndices s.cb).rIdx = 1 ∧
      (adjustIndices s.cb).nElements = 1 ∧ ¬Preserves s.cb (adjustIndices s.cb) := by
  obtain ⟨cb, s, es, hcreate, hrun, hw, hr, hn, hc⟩ := wrapped_two
  have hneg : s.cb.wIdx < 0 := by
    rw [hw]
    decide
  have hw' : (adjustIndices s.cb).wIdx = 3 := by
    rw [adjustIndices_of_neg hneg]
    exact hc
  have hr' : (adjustIndices s.cb).rIdx = 1 := by
    rw [adjustIndices_of_neg hneg]
    dsimp only
    rw [hr, hc]
    decide
  have hn' : (adjustIndices s.cb).nElements = 1 := (adjustIndices_counts s.cb).1.trans hn
  refine ⟨cb, s, es, hcreate, hrun.run_eq, hneg, hw', hr', hn', fun hp => ?_⟩
  have hdist := hp.distance
  omega

end Cbuffer
end Gallus
