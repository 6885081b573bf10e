import Gallus.Cbuffer.Exchange

/-!
# Every element is disposed of once

The calls on a buffer with a free-up procedure, in any interleaving, and its destruction at the end.

* `stored cb`: the elements in the slots from `m_r_idx` on, as many as `m_n_elements` says.
* `Settles` says what a segment does to the elements: none appears, none vanishes. A clear and a
  shutdown hand exactly the stored elements to `m_del_proc`.
* `Accounted` is the invariant, and `disposed_once` the result: what was put is what getters took,
  what was freed and what is stored, each element once.
* `disposed_twice`: after `2 ^ 63` elements `s_adjust_indices` moves the indices apart, and a clear
  frees a slot that a getter has emptied.
-/

namespace Gallus
namespace Cbuffer

variable {α : Type} {cb cb' : Cbuffer α} {q : List α}

/-! ## Destruction -/

/-- A buffer behind the caller's pointer. -/
structure Handle (κ α : Type) where
  calls : Calls κ α
  /-- `*cbptr != NULL`. -/
  live : Bool

inductive HandleEvent (κ α : Type)
  /-- A segment of a call. -/
  | op (e : Event κ α)
  /-- `gallus_cbuffer_destroy`. -/
  | destroy (freeValues : Bool)

section Handle

variable {κ : Type} [DecidableEq κ] [Zero α]

/-- A call through a null pointer. -/
def refuse (s : Calls κ α) : Event κ α → Option (Calls κ α)
  | .call k c _ =>
    match s.pc k with
    | .outside => some (commit s k c (.quiet s.cb (.done Result.invalidArgs 0 [])))
    | _ => none
  | .wake _ _ _ _ => none

/-- One step. The destruction shuts the buffer down and frees the record. -/
def Handle.step (h : Handle κ α) : HandleEvent κ α → Option (Handle κ α)
  | .op e =>
    if h.live then (Cbuffer.step h.calls e).map (⟨·, true⟩)
    else (refuse h.calls e).map (⟨·, false⟩)
  | .destroy freeValues =>
    if h.live then
      some ⟨{ h.calls with cb := shutdown h.calls.cb freeValues }, false⟩
    else some h

end Handle

/-! ## The stored elements -/

/-- The elements in the slots from `m_r_idx` on. -/
def stored (cb : Cbuffer α) : List α :=
  Ring.window cb.data cb.nMaxAllocdElements.toNat cb.rIdx.toNat cb.nElements.toNat

theorem Rep.stored_eq (h : Rep cb q) : stored cb = q := by
  unfold stored
  rw [h.n_eq, Int.toNat_natCast, h.window]

/-- The record is one that calls can work on: it stores the list that its count says, unless the
write index has run past the end of its type. -/
structure Sound (cb : Cbuffer α) : Prop where
  rep : 0 ≤ cb.wIdx → Rep cb (stored cb)
  hasDelProc : cb.hasDelProc = true

theorem Rep.sound (h : Rep cb q) (hdel : cb.hasDelProc = true) : Sound cb :=
  ⟨fun _ => h.stored_eq.symm ▸ h, hdel⟩

/-- A get that removes what it copies. -/
def Call.takes : Call α → Bool
  | .getN _ _ _ _ doIncr => doIncr
  | _ => false

/-- The caller's buffer at the end of a segment. -/
def Next.buf : Next α → List α
  | .wait _ _ l => l.buf
  | .done _ _ buf => buf

/-- What a segment does to the elements; `buf` is what the call has in its buffer. -/
structure Settles (c : Call α) (buf : List α) (cb : Cbuffer α) (seg : Segment α) : Prop where
  sound : Sound seg.cb
  account : (cb.freed ++ (stored cb ++ seg.ins)).Perm (seg.rem ++ (seg.cb.freed ++ stored seg.cb))
  buf : c.takes = true → seg.next.buf = buf ++ seg.rem

variable {c : Call α} {buf : List α} {l : Local α}

/-- The fields that a segment without elements may change. -/
structure SameStore (cb cb' : Cbuffer α) : Prop where
  sound : Sound cb'
  freed : cb'.freed = cb.freed
  stored : stored cb' = stored cb

theorem Settles.quiet {next : Next α} (h : SameStore cb cb')
    (hbuf : c.takes = true → next.buf = buf) : Settles c buf cb (.quiet cb' next) where
  sound := h.sound
  account := by
    show (cb.freed ++ (Cbuffer.stored cb ++ [])).Perm (cb'.freed ++ Cbuffer.stored cb')
    rw [List.append_nil, h.freed, h.stored]
  buf := fun ht => (hbuf ht).trans (List.append_nil _).symm

/-- A segment that frees what is stored. -/
theorem Settles.emptied {next : Next α} (h : Rep cb' []) (hdel : cb'.hasDelProc = true)
    (hfreed : cb'.freed = cb.freed ++ stored cb) (hc : c.takes = false) :
    Settles c buf cb (.quiet cb' next) where
  sound := h.sound hdel
  account := by
    show (cb.freed ++ (stored cb ++ [])).Perm (cb'.freed ++ stored cb')
    rw [h.stored_eq, hfreed]
    exact List.Perm.of_eq (List.append_assoc _ _ _).symm
  buf := fun ht => by
    rw [hc] at ht
    cases ht

/-! ## The copies -/

/-- A put stores what it copies. -/
theorem copyin_stored (h : Rep cb q) (hdel : cb.hasDelProc = true) (vals : List α) :
    Sound (copyin cb vals).1 ∧ (copyin cb vals).1.freed = cb.freed ∧
      stored (copyin cb vals).1 = q ++ vals.take (copyin cb vals).2.toNat := by
  by_cases hpos : 0 < if cb.nMaxElements - cb.nElements < i64 vals.length then
      cb.nMaxElements - cb.nElements else i64 vals.length
  · obtain ⟨n, hmax⟩ := Int.eq_ofNat_of_zero_le (Int.le_of_lt hpos)
    have hcast := i64_natCast_le vals.length
    have hlt := i64_lt vals.length
    have hn := h.n_eq
    have hw := h.w_lt
    have hw0 := h.w_nonneg
    have hbounds : (n : Int) ≤ i64 vals.length ∧ (n : Int) ≤ cb.nMaxElements - cb.nElements := by
      rw [← hmax]
      split <;> omega
    have hle : n ≤ vals.length := by omega
    have hfit : (q.length : Int) + n ≤ cb.nMaxElements := by omega
    obtain ⟨log, hcopy⟩ := copyin_of_pos h (by omega) hle hfit hmax
    have hstored : stored (copyin cb vals).1 = q ++ vals.take n := by
      rw [hcopy]
      show Ring.window _ _ _ (cb.nElements + n).toNat = _
      rw [hn, show ((q.length : Int) + n).toNat = q.length + n by omega]
      exact h.window_append hle hfit
    rw [hcopy] at hstored ⊢
    refine ⟨⟨fun hnonneg => ?_, hdel⟩, rfl, hstored⟩
    rw [hstored]
    exact h.append hle hfit (lt_of_i64_nonneg (by omega) (by omega) hnonneg) log
  · have hnone : copyin cb vals = (cb, if cb.nMaxElements - cb.nElements < i64 vals.length then
        cb.nMaxElements - cb.nElements else i64 vals.length) := by
      unfold copyin
      simp only [adjustIndices_of_nonneg h.w_nonneg]
      exact if_neg hpos
    rw [hnone]
    refine ⟨h.sound hdel, rfl, ?_⟩
    rw [h.stored_eq, Int.toNat_of_nonpos (Int.not_lt.mp hpos), List.take_zero, List.append_nil]

/-- Only the cast of the count matters to a get. -/
theorem copyout_congr {n m : Nat} (h : i64 n = i64 m) (doIncr : Bool) :
    copyout cb n doIncr = copyout cb m doIncr := by
  unfold copyout
  rw [h]

theorem copyout_keeps (cb : Cbuffer α) (n : Nat) (doIncr : Bool) :
    (copyout cb n doIncr).1.freed = cb.freed ∧
      (copyout cb n doIncr).1.hasDelProc = cb.hasDelProc := by
  have hdata : ∀ (cb : Cbuffer α) (m : Int), (copyoutData cb m).1.freed = cb.freed ∧
      (copyoutData cb m).1.hasDelProc = cb.hasDelProc := by
    intro cb m
    unfold copyoutData
    dsimp only
    split <;> exact ⟨rfl, rfl⟩
  have hadjust : (adjustIndices cb).freed = cb.freed ∧
      (adjustIndices cb).hasDelProc = cb.hasDelProc := by
    unfold adjustIndices
    split <;> exact ⟨rfl, rfl⟩
  unfold copyout
  dsimp only
  generalize (if i64 n < cb.nElements then i64 n else cb.nElements) = m
  have hkeep := hdata (adjustIndices cb) m
  rw [hadjust.1, hadjust.2] at hkeep
  generalize copyoutData (adjustIndices cb) m = r at hkeep ⊢
  obtain ⟨cb₁, vals⟩ := r
  split
  · split
    · obtain ⟨log, hlog⟩ := ite_qmuxerNotify_eq
        { cb₁ with nElements := cb₁.nElements - m, rIdx := cb₁.rIdx + m }
        (needWaitWritable cb₁.type)
      simp only [hlog]
      exact hkeep
    · exact hkeep
  · exact hadjust

/-- A get takes what it copies from the head, if it removes it. -/
theorem copyout_stored (h : Rep cb q) (hdel : cb.hasDelProc = true) (n : Nat) (doIncr : Bool) :
    Sound (copyout cb n doIncr).1 ∧ (copyout cb n doIncr).1.freed = cb.freed ∧
      q = (if doIncr then (copyout cb n doIncr).2.1 else []) ++ stored (copyout cb n doIncr).1 := by
  obtain ⟨hfreed, hdel'⟩ := copyout_keeps cb n doIncr
  rw [hdel] at hdel'
  by_cases hpos : 0 < i64 n
  · have hlt := i64_lt n
    have hm : i64 n = i64 (i64 n).toNat := by
      rw [Int.toNat_of_nonneg (by omega), i64_of_range (x := i64 n) (by omega) hlt]
    rw [copyout_congr hm] at hfreed hdel' ⊢
    obtain ⟨hret, hrep, -, -⟩ := copyout_rep h (n := (i64 n).toNat) (by omega) doIncr
    refine ⟨hrep.sound hdel', hfreed, ?_⟩
    rw [hret, hrep.stored_eq]
    cases doIncr <;> simp
  · have hn := h.n_eq
    have hnone : (copyout cb n doIncr).1 = cb ∧ (copyout cb n doIncr).2.1 = [] := by
      unfold copyout
      simp only [adjustIndices_of_nonneg h.w_nonneg]
      rw [if_neg (by split <;> omega)]
      exact ⟨rfl, rfl⟩
    rw [hnone.1, hnone.2, ite_self, h.stored_eq]
    exact ⟨h.sound hdel, rfl, rfl⟩

/-- A disposal hands the stored elements to `m_del_proc`, each once. -/
theorem clean_stored [Zero α] (h : Rep cb q) (hdel : cb.hasDelProc = true) :
    Rep (clean cb true) [] ∧ (clean cb true).hasDelProc = true ∧
      (clean cb true).freed = cb.freed ++ q := by
  obtain ⟨hrep, -⟩ := h.clean true
  refine ⟨hrep, ?_, ?_⟩
  · unfold clean
    rw [if_pos rfl, h.freeupAllValues_eq]
    exact hdel
  · unfold clean
    rw [if_pos rfl, h.freeupAllValues_eq]
    exact if_pos hdel

/-! ## The segments -/

/-- The fields that the elements depend on are unchanged. -/
theorem SameStore.of_eq (h : Sound cb) (h1 : cb'.rIdx = cb.rIdx) (h2 : cb'.wIdx = cb.wIdx)
    (h3 : cb'.nElements = cb.nElements) (h4 : cb'.nMaxElements = cb.nMaxElements)
    (h5 : cb'.nMaxAllocdElements = cb.nMaxAllocdElements) (h6 : cb'.data = cb.data)
    (h7 : cb'.slots = cb.slots) (h8 : cb'.overrun = cb.overrun) (h9 : cb'.freed = cb.freed)
    (h10 : cb'.hasDelProc = cb.hasDelProc) : SameStore cb cb' := by
  have hstored : Cbuffer.stored cb' = Cbuffer.stored cb := by
    unfold Cbuffer.stored
    rw [h1, h3, h5, h6]
  refine ⟨⟨fun hw => ?_, h10.trans h.hasDelProc⟩, h9, hstored⟩
  rw [hstored]
  exact (h.rep (h2 ▸ hw)).of_eq h1 h2 h3 h4 h5 h6 h7 h8

theorem SameStore.refl (h : Sound cb) : SameStore cb cb := ⟨h, rfl, rfl⟩

theorem Settles.of_same {seg : Segment α} (h : Settles c buf cb' seg) (hsame : SameStore cb cb') :
    Settles c buf cb seg :=
  ⟨h.sound, hsame.freed ▸ hsame.stored ▸ h.account, h.buf⟩

theorem putRound_settles {vals : List α} {now : Chrono} (h : Sound cb) (hw : 0 ≤ cb.wIdx)
    (hc : c.takes = false) : Settles c buf cb (putRound cb vals l now) := by
  unfold putRound
  by_cases ho : cb.isOperational = true
  · rw [if_pos ho]
    obtain ⟨hsound, hfreed, hstored⟩ :=
      copyin_stored (h.rep hw) h.hasDelProc (vals.drop (sizeT l.nCopy))
    generalize copyin cb (vals.drop (sizeT l.nCopy)) = r at hsound hfreed hstored ⊢
    obtain ⟨cb₁, n⟩ := r
    refine ⟨hsound, ?_, fun ht => by rw [hc] at ht; cases ht⟩
    dsimp only at hfreed hstored ⊢
    rw [hfreed, hstored]
    exact .refl _
  · rw [if_neg ho]
    exact .quiet (.refl h) fun ht => by rw [hc] at ht; cases ht

theorem getNext_buf (need : Nat) (l : Local α) : (getNext cb need l).buf = l.buf := by
  unfold getNext
  split_ifs <;> rfl

theorem getRound_settles {nValsMax nAtLeast valsz need : Nat} {nsec now : Chrono} {doIncr : Bool}
    (h : Sound cb) (hw : 0 ≤ cb.wIdx) :
    Settles (.getN nValsMax nAtLeast valsz nsec doIncr) l.buf cb
      (getRound cb nValsMax need doIncr l now) := by
  unfold getRound
  by_cases ho : cb.isOperational = true
  · rw [if_pos ho]
    obtain ⟨hsound, hfreed, hstored⟩ :=
      copyout_stored (h.rep hw) h.hasDelProc (sizeT (nValsMax - l.nCopy)) doIncr
    generalize copyout cb (sizeT (nValsMax - l.nCopy)) doIncr = r at hsound hfreed hstored ⊢
    obtain ⟨cb₁, vals, n⟩ := r
    refine ⟨hsound, ?_, fun ht => ?_⟩
    · dsimp only at hfreed hstored ⊢
      rw [hfreed, hstored, List.append_nil, ← List.append_assoc, ← List.append_assoc]
      exact List.perm_append_comm.append_right _
    · replace ht : doIncr = true := ht
      dsimp only
      rw [getNext_buf, ht, if_pos rfl]
  · rw [if_neg ho]
    exact .quiet (.refl h) fun _ => rfl

theorem putNow_settles {vals : List α} {valsz : Nat} {nsec : Chrono} (h : Sound cb)
    (hw : 0 ≤ cb.wIdx) :
    Settles (.putN vals valsz nsec) buf cb ⟨(putNow cb vals valsz).1,
      vals.take (putNow cb vals valsz).2.1.toNat, [],
      .done (putNow cb vals valsz).2.1 (putNow cb vals valsz).2.2 []⟩ := by
  have hnone : ∀ ret : Result, ret.toNat = 0 → Settles (.putN vals valsz nsec) buf cb ⟨cb,
      vals.take ret.toNat, [], .done ret 0 []⟩ := by
    intro ret hret
    rw [hret]
    exact .quiet (.refl h) nofun
  unfold putNow
  by_cases hsz : valsz = cb.elementSize
  · rw [if_pos hsz]
    by_cases hpos : 0 < vals.length
    · rw [if_pos hpos]
      by_cases ho : cb.isOperational = true
      · rw [if_pos ho]
        obtain ⟨hsound, hfreed, hstored⟩ := copyin_stored (h.rep hw) h.hasDelProc vals
        generalize copyin cb vals = r at hsound hfreed hstored ⊢
        obtain ⟨cb₁, n⟩ := r
        refine ⟨hsound, ?_, nofun⟩
        dsimp only at hfreed hstored ⊢
        rw [hfreed, hstored]
        exact .refl _
      · rw [if_neg ho]
        exact hnone _ rfl
    · rw [if_neg hpos]
      exact hnone _ rfl
  · rw [if_neg hsz]
    exact hnone _ rfl

theorem getNow_settles {nValsMax nAtLeast valsz : Nat} {nsec : Chrono} {doIncr : Bool}
    (h : Sound cb) (hw : 0 ≤ cb.wIdx) :
    Settles (.getN nValsMax nAtLeast valsz nsec doIncr) [] cb ⟨(getNow cb nValsMax valsz doIncr).1,
      [], if doIncr then (getNow cb nValsMax valsz doIncr).2.2.2 else [],
      .done (getNow cb nValsMax valsz doIncr).2.1 (getNow cb nValsMax valsz doIncr).2.2.1
        (getNow cb nValsMax valsz doIncr).2.2.2⟩ := by
  have hnone : ∀ ret, Settles (.getN nValsMax nAtLeast valsz nsec doIncr) [] cb ⟨cb, [],
      if doIncr then [] else [], .done ret 0 []⟩ := by
    intro ret
    rw [ite_self]
    exact .quiet (.refl h) fun _ => rfl
  unfold getNow
  by_cases hsz : valsz = cb.elementSize
  · rw [if_pos hsz]
    by_cases hpos : 0 < nValsMax
    · rw [if_pos hpos]
      by_cases ho : cb.isOperational = true
      · rw [if_pos ho]
        obtain ⟨hsound, hfreed, hstored⟩ :=
          copyout_stored (h.rep hw) h.hasDelProc nValsMax doIncr
        generalize copyout cb nValsMax doIncr = r at hsound hfreed hstored ⊢
        obtain ⟨cb₁, vals, n⟩ := r
        refine ⟨hsound, ?_, fun ht => ?_⟩
        · dsimp only at hfreed hstored ⊢
          rw [hfreed, hstored, List.append_nil, ← List.append_assoc, ← List.append_assoc]
          exact List.perm_append_comm.append_right _
        · replace ht : doIncr = true := ht
          dsimp only
          rw [ht, if_pos rfl]
          rfl
      · rw [if_neg ho]
        exact hnone _
    · rw [if_neg hpos]
      exact hnone _
  · rw [if_neg hsz]
    exact hnone _

theorem leaveWait_same (h : Sound cb) (ret : Result) : SameStore cb (leaveWait cb ret).1 := by
  obtain ⟨n, b, k, hleave⟩ := leaveWait_eq cb ret
  rw [hleave]
  exact .of_eq h rfl rfl rfl rfl rfl rfl rfl rfl rfl rfl

theorem wakeupRound_settles {nsec now : Chrono} (h : Sound cb) :
    Settles (.wakeup nsec) buf cb (wakeupRound cb nsec now) := by
  unfold wakeupRound
  split_ifs <;> exact .quiet (.refl h) nofun

variable [Zero α]

/-- A clear frees what is stored. -/
theorem clear_settles (h : Sound cb) (hw : 0 ≤ cb.wIdx) :
    Settles (.clear true) buf cb (.quiet (clear cb true).1 (.done (clear cb true).2 0 [])) := by
  obtain ⟨hrep, hdel, hfreed⟩ := clean_stored (h.rep hw) h.hasDelProc
  obtain ⟨log, hlog⟩ := ite_qmuxerNotify_eq (clean cb true) (needWaitReadable (clean cb true).type)
  unfold clear
  simp only [hlog]
  generalize clean cb true = cb₁ at hrep hdel hfreed ⊢
  exact .emptied (hrep.of_eq rfl rfl rfl rfl rfl rfl rfl rfl) hdel hfreed rfl

/-- So does a shutdown. -/
theorem shutdown_settles {freeValues : Bool} {r : Result} (h : Sound cb) (hw : 0 ≤ cb.wIdx) :
    Settles (.shutdown freeValues) buf cb (.quiet (shutdown cb true) (.done r 0 [])) := by
  unfold shutdown
  by_cases ho : cb.isOperational = true
  · rw [if_pos ho]
    have hsame : SameStore cb { cb with isOperational := false } :=
      .of_eq h rfl rfl rfl rfl rfl rfl rfl rfl rfl rfl
    obtain ⟨hrep, hdel, hfreed⟩ := clean_stored (hsame.sound.rep hw) hsame.sound.hasDelProc
    rw [hsame.stored, hsame.freed] at hfreed
    obtain ⟨log, hlog⟩ := qmuxerNotify_eq (clean { cb with isOperational := false } true)
    rw [hlog]
    generalize clean { cb with isOperational := false } true = cb₁ at hrep hdel hfreed ⊢
    exact .emptied (hrep.of_eq rfl rfl rfl rfl rfl rfl rfl rfl) hdel hfreed rfl
  · rw [if_neg ho]
    exact .quiet (.refl h) nofun

/-- The calls that free what they discard. -/
def Call.frees : Call α → Prop
  | .clear freeValues | .shutdown freeValues => freeValues = true
  | _ => True

theorem start_settles {now : Chrono} (h : Sound cb) (hw : 0 ≤ cb.wIdx) (hc : c.frees) :
    Settles c [] cb (start cb c now) := by
  cases c with
  | putN vals valsz nsec =>
    by_cases hloop : valsz = cb.elementSize ∧ 0 < vals.length ∧ nsec ≠ 0
    · rw [start_putN_loop hloop]
      exact putRound_settles h hw rfl
    · rw [start_putN_now hloop]
      exact putNow_settles h hw
  | getN nValsMax nAtLeast valsz nsec doIncr =>
    by_cases hloop : valsz = cb.elementSize ∧ 0 < nValsMax ∧ nsec ≠ 0
    · rw [start_getN_loop hloop]
      exact getRound_settles (l := .init nsec now) h hw
    · rw [start_getN_now hloop]
      exact getNow_settles h hw
  | waitGettable nsec =>
    unfold start
    dsimp only
    split <;> exact .quiet (.refl h) nofun
  | waitPuttable nsec =>
    unfold start
    dsimp only
    split <;> exact .quiet (.refl h) nofun
  | wakeup nsec =>
    have hquiet : Settles (.wakeup nsec) [] cb (.quiet cb (.done Result.ok 0 [])) :=
      .quiet (.refl h) nofun
    have hsame : SameStore cb { cb with
        isAwakened := true, condGet := cb.condGet + 1, condPut := cb.condPut + 1 } :=
      .of_eq h rfl rfl rfl rfl rfl rfl rfl rfl rfl rfl
    unfold start
    dsimp only
    split
    · split
      · split
        · split
          · exact (wakeupRound_settles hsame.sound).of_same hsame
          · exact .quiet hsame nofun
        · exact hquiet
      · exact .quiet (.refl h) nofun
    · exact hquiet
  | clear freeValues =>
    cases hc
    exact clear_settles h hw
  | shutdown freeValues =>
    cases hc
    exact shutdown_settles h hw

omit [Zero α] in
theorem resume_settles {ret : Result} {waitEnd now : Chrono} (h : Sound cb)
    (hw : 0 ≤ cb.wIdx) : Settles c l.buf cb (resume cb c l ret waitEnd now) := by
  have hsame := leaveWait_same h ret
  obtain ⟨n, b, k, hleave⟩ := leaveWait_eq cb ret
  have hw' : 0 ≤ (leaveWait cb ret).1.wIdx := by rw [hleave]; exact hw
  cases c with
  | putN vals valsz nsec =>
    rw [resume_putN]
    split_ifs
    · split
      · exact (putRound_settles hsame.sound hw' rfl).of_same hsame
      · exact .quiet hsame nofun
    · exact .quiet hsame nofun
  | getN nValsMax nAtLeast valsz nsec doIncr =>
    rw [resume_getN]
    split_ifs
    · split
      · next timeout _ =>
        exact (getRound_settles (l := { l with ret := (leaveWait cb ret).2, timeout })
          hsame.sound hw').of_same hsame
      · exact .quiet hsame fun _ => rfl
    · exact .quiet hsame fun _ => rfl
  | waitGettable nsec => exact .quiet hsame nofun
  | waitPuttable nsec => exact .quiet hsame nofun
  | wakeup nsec =>
    unfold resume
    dsimp only
    split
    · exact wakeupRound_settles h
    · exact .quiet (.refl h) nofun
  | clear freeValues => exact .quiet (.refl h) nofun
  | shutdown freeValues => exact .quiet (.refl h) nofun

/-! ## The invariant -/

section System

variable {κ : Type} [DecidableEq κ] {s s' : Calls κ α} {k : κ}

/-- What the call `k` has removed so far is in its caller's buffer. -/
def Delivered (s : Calls κ α) (k : κ) : Prop :=
  match s.pc k with
  | .outside => s.removedBy k = []
  | .waiting c _ _ _ l => c.takes = true → l.buf = s.removedBy k
  | .returned c _ _ buf => c.takes = true → buf = s.removedBy k

/-- Each element that was put is in a getter's buffer, or was freed, or is stored, and in one of
these once. -/
structure Accounted (s : Calls κ α) : Prop where
  elements : (s.inserted.map Prod.snd).Perm
    (s.removed.map Prod.snd ++ (s.cb.freed ++ stored s.cb))
  delivered : ∀ k, Delivered s k
  sound : Sound s.cb

omit [Zero α] in
theorem Accounted.commit {seg : Segment α} (h : Accounted s) (hseg : Settles c buf s.cb seg)
    (hbuf : c.takes = true → buf = s.removedBy k) : Accounted (commit s k c seg) := by
  obtain ⟨n, hcb⟩ := commit_cb s k c seg
  have hsame : SameStore seg.cb (Cbuffer.commit s k c seg).cb := by
    rw [hcb]
    exact .of_eq hseg.sound rfl rfl rfl rfl rfl rfl rfl rfl rfl rfl
  refine ⟨?_, fun k' => ?_, hsame.sound⟩
  · rw [hsame.freed, hsame.stored]
    show ((s.inserted ++ _).map _).Perm ((s.removed ++ _).map _ ++ _)
    rw [List.map_append, List.map_append, List.map_map, List.map_map]
    simp only [Function.comp_def, List.map_id']
    calc (s.inserted.map Prod.snd ++ seg.ins).Perm
          (s.removed.map Prod.snd ++ (s.cb.freed ++ stored s.cb) ++ seg.ins) :=
        h.elements.append_right _
      _ = s.removed.map Prod.snd ++ (s.cb.freed ++ (stored s.cb ++ seg.ins)) := by
        simp only [List.append_assoc]
      List.Perm _ (s.removed.map Prod.snd ++ (seg.rem ++ (seg.cb.freed ++ stored seg.cb))) :=
        hseg.account.append_left _
      _ = s.removed.map Prod.snd ++ seg.rem ++ (seg.cb.freed ++ stored seg.cb) := by
        simp only [List.append_assoc]
  · unfold Delivered
    rw [removedBy_commit]
    by_cases hk : k' = k
    · subst hk
      have hnext := hseg.buf
      simp only [Cbuffer.commit, Function.update_self, if_true]
      revert hnext
      cases seg.next with
      | wait cond nsec l => exact fun hnext ht => hbuf ht ▸ hnext ht
      | done ret nActual buf' => exact fun hnext ht => hbuf ht ▸ hnext ht
    · rw [if_neg hk]
      simp only [Cbuffer.commit, Function.update_of_ne hk]
      exact h.delivered k'

theorem Accounted.shutdown (h : Accounted s) (hw : 0 ≤ s.cb.wIdx) :
    Accounted { s with cb := shutdown s.cb true } := by
  have hseg : Settles (.shutdown true) [] s.cb
      (.quiet (Cbuffer.shutdown s.cb true) (.done Result.ok 0 [])) := shutdown_settles h.sound hw
  refine ⟨h.elements.trans (List.Perm.append_left _ ?_), h.delivered, hseg.sound⟩
  have haccount := hseg.account
  rw [show (Segment.quiet (Cbuffer.shutdown s.cb true) (.done Result.ok 0 [])).ins = [] from rfl,
    List.append_nil] at haccount
  exact haccount

/-! ## Runs -/

/-- What the events free: everything that they discard. -/
def HandleEvent.frees : HandleEvent κ α → Prop
  | .op (.call _ c _) => c.frees
  | .op (.wake _ _ _ _) => True
  | .destroy freeValues => freeValues = true

/-- The condition on the steps: the write index has not run past the end of its type, so that
`s_adjust_indices` does nothing. -/
def unwrapped (h : Handle κ α) (e : HandleEvent κ α) : Prop := e.frees ∧ 0 ≤ h.calls.cb.wIdx

/-- **The step lemma.** -/
theorem Accounted.step {h h' : Handle κ α} {e : HandleEvent κ α} (ha : Accounted h.calls)
    (hok : unwrapped h e) (hs : h.step e = some h') : Accounted h'.calls := by
  obtain ⟨hfrees, hw⟩ := hok
  cases e with
  | op e =>
    simp only [Handle.step] at hs
    split_ifs at hs
    · obtain ⟨s', hs', rfl⟩ := Option.map_eq_some_iff.mp hs
      obtain ⟨k, c, now, rfl, hpc, rfl⟩ |
        ⟨k, c, cond, since, nsec, l, how, waitEnd, now, rfl, hpc, -, rfl⟩ := step_cases hs'
      · refine ha.commit (start_settles ha.sound hw hfrees) fun _ => ?_
        have hk := ha.delivered k
        unfold Delivered at hk
        rw [hpc] at hk
        exact hk.symm
      · refine ha.commit (resume_settles ha.sound hw) fun ht => ?_
        have hk := ha.delivered k
        unfold Delivered at hk
        rw [hpc] at hk
        exact hk ht
    · obtain ⟨s', hs', rfl⟩ := Option.map_eq_some_iff.mp hs
      unfold refuse at hs'
      split at hs'
      · next k c now =>
        split at hs'
        · next hpc =>
          cases hs'
          have hquiet : Settles c [] h.calls.cb
              (.quiet h.calls.cb (.done Result.invalidArgs 0 [])) :=
            .quiet (.refl ha.sound) fun _ => rfl
          refine ha.commit hquiet fun _ => ?_
          have hk := ha.delivered k
          unfold Delivered at hk
          rw [hpc] at hk
          exact hk.symm
        · cases hs'
      · cases hs'
  | destroy freeValues =>
    simp only [Handle.step] at hs
    split_ifs at hs
    · cases hs
      replace hfrees : freeValues = true := hfrees
      rw [hfrees]
      exact ha.shutdown hw
    · cases hs
      exact ha

/-- **Every element is disposed of once.** A fresh buffer of a possible size, with a free-up
procedure, any calls in any interleaving, and a destruction at any point, all of which free what
they discard. While `m_w_idx` has not run past its type, the elements that were put are, each once,
those that getters took, those handed to `m_del_proc` and those stored; and each getter has in its
buffer what it took. -/
theorem disposed_once {mallocOk : Nat → Bool} {junk : Nat → α} {elemsize cap : Nat}
    {es : List (HandleEvent κ α)} {h : Handle κ α}
    (hfits : sizeofRecord + elemsize * (cap + 1) < 2 ^ 63)
    (hcreate : createWithSize mallocOk junk elemsize cap true = (Result.ok, some cb))
    (hrun : Trans.Run Handle.step unwrapped ⟨Calls.init cb, true⟩ es h) :
    (h.calls.inserted.map Prod.snd).Perm
        (h.calls.removed.map Prod.snd ++ (h.calls.cb.freed ++ stored h.calls.cb)) ∧
      ∀ k, Delivered h.calls k := by
  obtain ⟨hsim, -⟩ := sim_createWithSize hfits hcreate
  obtain ⟨hdel, hfreed⟩ : cb.hasDelProc = true ∧ cb.freed = [] := by
    simp only [createWithSize] at hcreate
    split_ifs at hcreate <;> cases hcreate
    exact ⟨rfl, rfl⟩
  have hinit : Accounted (Calls.init cb : Calls κ α) := by
    refine ⟨?_, fun _ => rfl, hsim.rep.sound hdel⟩
    show List.Perm [] ([] ++ (cb.freed ++ stored cb))
    rw [hfreed, hsim.rep.stored_eq]
    exact .refl _
  have ha := hrun.inv (I := fun h => Accounted h.calls) (fun _ _ _ h hok hs => h.step hok hs) hinit
  exact ⟨ha.elements, ha.delivered⟩

/-- Elements that getters take, that a clear frees, and that the destruction frees. -/
def putGetClearDestroy : List (HandleEvent Nat Nat) :=
  [.op (.call 0 (.putN [5, 6] 8 0) 0), .op (.call 1 (.getN 1 1 8 0 true) 0),
    .op (.call 2 (.putN [7, 8] 8 9) 0), .op (.call 3 (.clear true) 1),
    .op (.wake 2 .notified 2 2), .op (.call 4 (.shutdown true) 3), .op (.call 5 (.putN [9] 8 0) 3),
    .destroy true]

instance (h : Handle κ α) (e : HandleEvent κ α) : Decidable (unwrapped h e) :=
  match e with
  | .op (.call _ (.clear freeValues) _) | .op (.call _ (.shutdown freeValues) _)
  | .destroy freeValues =>
    inferInstanceAs (Decidable (freeValues = true ∧ 0 ≤ h.calls.cb.wIdx))
  | .op (.call _ (.putN _ _ _) _) | .op (.call _ (.getN _ _ _ _ _) _)
  | .op (.call _ (.waitGettable _) _) | .op (.call _ (.waitPuttable _) _)
  | .op (.call _ (.wakeup _) _) | .op (.wake _ _ _ _) =>
    inferInstanceAs (Decidable (True ∧ 0 ≤ h.calls.cb.wIdx))

end System

theorem disposed_once_putGetClearDestroy :
    ∃ (cb : Cbuffer Nat) (h : Handle Nat Nat),
      createWithSize (fun _ => true) (fun _ => 0) 8 (2 : Nat) true = (Result.ok, some cb) ∧
      Trans.run Handle.step ⟨Calls.init cb, true⟩ putGetClearDestroy = some h ∧
      h.calls.inserted.map Prod.snd = [5, 6, 7, 8] ∧ h.calls.cb.freed = [6, 7, 8] ∧
      (h.calls.inserted.map Prod.snd).Perm
        (h.calls.removed.map Prod.snd ++ (h.calls.cb.freed ++ stored h.calls.cb)) := by
  have hfits : sizeofRecord + 8 * (2 + 1) < 2 ^ 63 := by decide
  obtain ⟨cb, hcreate, hmap⟩ : ∃ cb : Cbuffer Nat,
      createWithSize (fun _ => true) (fun _ => 0) 8 (2 : Nat) true = (Result.ok, some cb) ∧
      (Trans.run (Trans.guarded Handle.step unwrapped) ⟨Calls.init cb, true⟩ putGetClearDestroy).map
        (fun h => (h.calls.inserted.map Prod.snd, h.calls.cb.freed)) =
          some ([5, 6, 7, 8], [6, 7, 8]) := ⟨_, rfl, by decide⟩
  obtain ⟨h, hguarded, hlogs⟩ := Option.map_eq_some_iff.mp hmap
  obtain ⟨hins, hfreed⟩ := Prod.mk.inj hlogs
  have hrun := Trans.Run.of_guarded hguarded
  exact ⟨cb, h, hcreate, hrun.run_eq, hins, hfreed, (disposed_once hfits hcreate hrun).1⟩

/-! ## Past the end of the write index -/

/-- One element goes through the buffer. -/
def round (i : Nat) : List (HandleEvent Nat Nat) :=
  [.op (.call (2 * i) (.putN [7] 8 0) 0), .op (.call (2 * i + 1) (.getN 1 1 8 0 true) 0)]

def rounds (n : Nat) : List (HandleEvent Nat Nat) := (List.range n).flatMap round

/-- A buffer of two elements after `n` rounds. -/
structure AfterRounds (h : Handle Nat Nat) (n : Nat) : Prop where
  live : h.live = true
  rep : Rep h.calls.cb []
  wIdx : h.calls.cb.wIdx = n
  isOperational : h.calls.cb.isOperational = true
  elementSize : h.calls.cb.elementSize = 8
  nMaxElements : h.calls.cb.nMaxElements = 2
  hasDelProc : h.calls.cb.hasDelProc = true
  freed : h.calls.cb.freed = []
  inserted : h.calls.inserted.length = n
  removed : h.calls.removed.length = n
  outside : ∀ k, 2 * n ≤ k → h.calls.pc k = .outside

section

variable {cb : Cbuffer Nat} {h h' : Handle Nat Nat} {n : Nat}

theorem step_op (hlive : h.live = true) (e : Event Nat Nat) :
    h.step (.op e) = (Cbuffer.step h.calls e).map (⟨·, true⟩) := by
  show (if h.live then _ else _) = _
  rw [if_pos hlive]

theorem step_call {k : Nat} {c : Call Nat} {now : Chrono} (hlive : h.live = true)
    (hpc : h.calls.pc k = .outside) : h.step (.op (.call k c now)) =
      some ⟨commit h.calls k c (start h.calls.cb c now), true⟩ := by
  rw [step_op hlive, Cbuffer.step, hpc]
  rfl

theorem commit_outside {s : Calls Nat Nat} {k k' : Nat} {c : Call Nat} {seg : Segment Nat}
    (hne : k' ≠ k) (h : s.pc k' = .outside) : (commit s k c seg).pc k' = .outside := by
  simp only [Cbuffer.commit, Function.update_of_ne hne, h]

/-- A put of one element into an empty buffer of two. -/
theorem start_put_one (hr : Rep cb []) (ho : cb.isOperational = true) (hsz : cb.elementSize = 8)
    (hmax : cb.nMaxElements = 2) (now : Chrono) :
    start cb (.putN [7] 8 0) now = ⟨(copyin cb [7]).1, [7], [], .done 1 1 []⟩ := by
  have hcount : (copyin cb [7]).2 = 1 := by
    rw [copyin_count hr (by simp)]
    simp [room, hmax]
  rw [start_putN_now (by simp)]
  unfold putNow
  rw [if_pos hsz.symm, if_pos (by simp), if_pos ho]
  generalize copyin cb [7] = r at hcount ⊢
  obtain ⟨cb₁, m⟩ := r
  cases hcount
  rfl

theorem start_get_one (hr : Rep cb [7]) (ho : cb.isOperational = true) (hsz : cb.elementSize = 8)
    (now : Chrono) :
    start cb (.getN 1 1 8 0 true) now = ⟨(copyout cb 1 true).1, [], [7], .done 1 1 [7]⟩ := by
  obtain ⟨hret, -⟩ := copyout_rep hr (n := 1) (by decide) true
  rw [start_getN_now (by simp)]
  unfold getNow
  rw [if_pos hsz.symm, if_pos (by simp), if_pos ho]
  generalize copyout cb 1 true = r at hret ⊢
  obtain ⟨cb₁, vals, m⟩ := r
  cases hret
  rfl

/-- A round leaves the buffer empty and the indices one further. -/
theorem AfterRounds.round (h₀ : AfterRounds h n) (hn : n + 1 < 2 ^ 63) :
    ∃ h', Trans.run Handle.step h (round n) = some h' ∧ AfterRounds h' (n + 1) := by
  have hroom : room h.calls.cb [] [7].length = 1 := by
    simp [room, h₀.nMaxElements]
  have hw := h₀.wIdx
  have hone : [7].length < 2 ^ 63 := by decide
  obtain ⟨-, hrep, hframe, hwIdx, -⟩ := copyin_rep h₀.rep hone (by rw [hroom]; omega)
  obtain ⟨hsound, hfreed, -⟩ := copyin_stored h₀.rep h₀.hasDelProc [7]
  rw [hroom] at hrep hwIdx
  have hput : h.step (.op (.call (2 * n) (.putN [7] 8 0) 0)) = some
      ⟨commit h.calls (2 * n) (.putN [7] 8 0)
        ⟨(copyin h.calls.cb [7]).1, [7], [], .done 1 1 []⟩, true⟩ := by
    rw [step_call h₀.live (h₀.outside _ (Nat.le_refl _)),
      start_put_one h₀.rep h₀.isOperational h₀.elementSize h₀.nMaxElements]
  have ho := hframe.isOperational.trans h₀.isOperational
  have hsz := hframe.elementSize.trans h₀.elementSize
  have hmax := hframe.nMaxElements.trans h₀.nMaxElements
  generalize (copyin h.calls.cb [7]).1 = cb₁ at *
  replace hrep : Rep cb₁ [7] := hrep
  obtain ⟨-, hrep₂, hframe₂, hwIdx₂⟩ := copyout_rep hrep (n := 1) (by decide) true
  obtain ⟨hsound₂, hfreed₂, -⟩ := copyout_stored hrep hsound.hasDelProc 1 true
  refine ⟨⟨commit (commit h.calls (2 * n) (.putN [7] 8 0) ⟨cb₁, [7], [], .done 1 1 []⟩)
    (2 * n + 1) (.getN 1 1 8 0 true) ⟨(copyout cb₁ 1 true).1, [], [7], .done 1 1 [7]⟩, true⟩,
    ?_, ?_⟩
  · unfold Cbuffer.round
    rw [Trans.run_cons, hput, Option.bind_some, Trans.run_cons, step_call rfl]
    · rw [show (commit h.calls (2 * n) (.putN [7] 8 0)
        ⟨cb₁, [7], [], .done 1 1 []⟩).cb = cb₁ from rfl, start_get_one hrep ho hsz]
      rfl
    · dsimp only
      refine commit_outside ?_ (h₀.outside _ ?_) <;> omega
  · refine ⟨rfl, hrep₂, ?_, hframe₂.isOperational.trans ho, hframe₂.elementSize.trans hsz,
      hframe₂.nMaxElements.trans hmax, hsound₂.hasDelProc, ?_, ?_, ?_, fun k hk => ?_⟩
    · show (copyout cb₁ 1 true).1.wIdx = _
      rw [hwIdx₂, hwIdx, hw]
      rfl
    · exact hfreed₂.trans (hfreed.trans h₀.freed)
    · simp [Cbuffer.commit, h₀.inserted]
    · simp [Cbuffer.commit, h₀.removed]
    · dsimp only
      refine commit_outside ?_ (commit_outside ?_ (h₀.outside k ?_)) <;> omega

theorem AfterRounds.rounds (h₀ : AfterRounds h 0) (hn : n < 2 ^ 63) :
    ∃ h', Trans.run Handle.step h (rounds n) = some h' ∧ AfterRounds h' n := by
  induction n with
  | zero => exact ⟨h, rfl, h₀⟩
  | succ n ih =>
    obtain ⟨h₁, hrun, h₁'⟩ := ih (by omega)
    obtain ⟨h₂, hround, h₂'⟩ := h₁'.round hn
    refine ⟨h₂, ?_, h₂'⟩
    unfold Cbuffer.rounds at hrun ⊢
    rw [List.range_succ, List.flatMap_append, Trans.run_append, hrun, Option.bind_some,
      List.flatMap_singleton, hround]

/-- The indices that `s_adjust_indices` makes of `2 ^ 63 - 1` and its successor. -/
theorem freeupAllValues_wrapped (cb : Cbuffer Nat) (hdel : cb.hasDelProc = true) (hw : cb.wIdx < 0)
    (hr : cb.rIdx = 2 ^ 63 - 1) (hN : cb.nMaxAllocdElements = 3) :
    (freeupAllValues cb).freed.length = cb.freed.length + 2 := by
  have hadjust : adjustIndices cb = { cb with wIdx := 3, rIdx := 1 } := by
    unfold adjustIndices
    rw [if_neg (by omega), hN, hr]
    rfl
  unfold freeupAllValues
  rw [if_pos hdel, hadjust]
  simp [dataAddr, List.range_succ]

theorem clear_freed (cb : Cbuffer Nat) :
    (clear cb true).1.freed = (freeupAllValues cb).freed ∧ (clear cb true).1.nElements = 0 := by
  obtain ⟨log, hlog⟩ := ite_qmuxerNotify_eq (clean cb true) (needWaitReadable (clean cb true).type)
  unfold clear
  simp only [hlog]
  exact ⟨rfl, rfl⟩

/-- The put that takes the write index past its type. -/
theorem AfterRounds.wrap (h₀ : AfterRounds h (2 ^ 63 - 1)) :
    (clear (copyin h.calls.cb [7]).1 true).1.freed.length = 2 := by
  have hw := h₀.wIdx
  have hweq := h₀.rep.w_eq
  have hN := h₀.rep.allocd
  have hn := h₀.rep.n_eq
  rw [h₀.nMaxElements] at hN
  have hmax : (if h.calls.cb.nMaxElements - h.calls.cb.nElements < i64 [7].length then
      h.calls.cb.nMaxElements - h.calls.cb.nElements else i64 [7].length) = (1 : Nat) := by
    rw [hn, h₀.nMaxElements]
    rfl
  obtain ⟨log, hcopy⟩ := copyin_of_pos h₀.rep Nat.one_pos (by simp)
    (by rw [h₀.nMaxElements]; decide) hmax
  rw [(clear_freed _).1, freeupAllValues_wrapped (copyin h.calls.cb [7]).1]
  · rw [hcopy]
    exact congrArg (fun l => l.length + 2) h₀.freed
  · rw [hcopy]
    exact h₀.hasDelProc
  · rw [hcopy]
    show i64 (h.calls.cb.wIdx + 1) < 0
    rw [hw]
    decide
  · rw [hcopy]
    show h.calls.cb.rIdx = _
    simp only [List.length_nil] at hweq
    omega
  · rw [hcopy]
    exact hN

end

/-- `2 ^ 63 - 1` elements go through a buffer of two, then one is put and a clear discards it: the
clear frees two. -/
theorem disposed_twice :
    ∃ (cb : Cbuffer Nat) (h : Handle Nat Nat) (es : List (HandleEvent Nat Nat)),
      createWithSize (fun _ => true) (fun _ => 0) 8 (2 : Nat) true = (Result.ok, some cb) ∧
      es = rounds (2 ^ 63 - 1) ++ [.op (.call (2 ^ 64) (.putN [7] 8 0) 0),
        .op (.call (2 ^ 64 + 1) (.clear true) 0)] ∧
      (∀ e ∈ es, e.frees) ∧ Trans.run Handle.step ⟨Calls.init cb, true⟩ es = some h ∧
      ¬(h.calls.inserted.map Prod.snd).Perm
        (h.calls.removed.map Prod.snd ++ (h.calls.cb.freed ++ stored h.calls.cb)) := by
  have hfits : sizeofRecord + 8 * (2 + 1) < 2 ^ 63 := by decide
  have hcreate : createWithSize (fun _ => true) (fun _ => 0) 8 (2 : Nat) true =
      (Result.ok, some _) := rfl
  have h₀ : AfterRounds ⟨Calls.init _, true⟩ 0 :=
    ⟨rfl, (sim_createWithSize hfits hcreate).1.rep, rfl, rfl, rfl, rfl, rfl, rfl, rfl, rfl,
      fun _ _ => rfl⟩
  obtain ⟨h₁, hrun, h₁'⟩ := h₀.rounds (n := 2 ^ 63 - 1) (by decide)
  have hfreed := h₁'.wrap
  have hout : h₁.calls.pc (2 ^ 64) = .outside := h₁'.outside _ (by decide)
  have hout' : h₁.calls.pc (2 ^ 64 + 1) = .outside := h₁'.outside _ (by decide)
  have hput := start_put_one h₁'.rep h₁'.isOperational h₁'.elementSize h₁'.nMaxElements 0
  have hins := h₁'.inserted
  have hrem := h₁'.removed
  refine ⟨_, ⟨commit (commit h₁.calls (2 ^ 64) (.putN [7] 8 0)
    ⟨(copyin h₁.calls.cb [7]).1, [7], [], .done 1 1 []⟩) (2 ^ 64 + 1) (.clear true)
    (start (copyin h₁.calls.cb [7]).1 (.clear true) 0), true⟩, _, hcreate, rfl, ?_, ?_, ?_⟩
  · intro e he
    rcases List.mem_append.mp he with he | he
    · obtain ⟨i, -, hi⟩ := List.mem_flatMap.mp he
      simp only [round, List.mem_cons, List.not_mem_nil, or_false] at hi
      rcases hi with rfl | rfl <;> trivial
    · simp only [List.mem_cons, List.not_mem_nil, or_false] at he
      rcases he with rfl | rfl
      · trivial
      · rfl
  · rw [Trans.run_append, hrun, Option.bind_some, Trans.run_cons, step_call h₁'.live hout, hput,
      Option.bind_some, Trans.run_cons, step_call rfl]
    · rfl
    · dsimp only
      exact commit_outside (Nat.succ_ne_self _) hout'
  · intro hperm
    have hlen := hperm.length_eq
    have hstored : (stored (clear (copyin h₁.calls.cb [7]).1 true).1).length = 0 := by
      unfold stored
      rw [Ring.length_window, (clear_freed _).2]
      rfl
    simp only [Cbuffer.commit, start, Segment.quiet, List.length_append, List.length_map, hfreed,
      hstored, hins, hrem, List.length_singleton, List.length_nil] at hlen
    omega

end Cbuffer
end Gallus
