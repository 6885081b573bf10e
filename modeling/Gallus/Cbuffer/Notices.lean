import Gallus.Cbuffer.Awakened

/-!
# Whom a buffer notifies (`m_qmuxer`)

The calls on a buffer notify the muxer that the buffer is registered with. They neither register it
nor unregister it.

* `Serving`: the relations that everything keeps that runs with the lock held. `Serving.step`: then
  each segment of each call keeps them; a clear and a shutdown have a say of their own.
* `Told`: a muxer is told nothing unless the buffer is operational and registered with it.
  `told_step`: so it is with each segment, but a clear of a buffer that is shut down.
-/

namespace Gallus
namespace Cbuffer

variable {α : Type} {cb cb' : Cbuffer α}

/-! ## What each segment keeps -/

/-- `R` is kept by what the calls do with the lock held, apart from a clear and a shutdown. Puts and
gets move elements of an operational buffer only. -/
structure Serving (R : Cbuffer α → Cbuffer α → Prop) : Prop where
  refl : ∀ cb, R cb cb
  trans : ∀ {cb cb' cb''}, R cb cb' → R cb' cb'' → R cb cb''
  copyin : ∀ cb vals, cb.isOperational = true → R cb (copyin cb vals).1
  copyout : ∀ cb n b, cb.isOperational = true → R cb (copyout cb n b).1
  waiters : ∀ cb n b k, R cb { cb with nWaiters := n, isAwakened := b, condAwakened := k }
  wakeup : ∀ cb, R cb { cb with
    isAwakened := true, condGet := cb.condGet + 1, condPut := cb.condPut + 1 }

def Call.isClear : Call α → Bool
  | .clear _ => true
  | _ => false

section

variable {R : Cbuffer α → Cbuffer α → Prop} {c : Call α}

theorem Serving.leaveWait (h : Serving R) (cb : Cbuffer α) (ret : Result) :
    R cb (leaveWait cb ret).1 := by
  obtain ⟨n, b, k, heq⟩ := leaveWait_eq cb ret
  rw [heq]
  exact h.waiters cb n b k

theorem Serving.putRound (h : Serving R) (cb : Cbuffer α) (vals : List α) (l : Local α)
    (now : Chrono) : R cb (putRound cb vals l now).cb := by
  have hcopy := h.copyin cb (vals.drop (sizeT l.nCopy))
  cases hr : Cbuffer.copyin cb (vals.drop (sizeT l.nCopy)) with
  | mk cb' n =>
    rw [hr] at hcopy
    rw [Cbuffer.putRound, hr]
    split_ifs with ho
    · exact hcopy ho
    · exact h.refl cb

theorem Serving.getRound (h : Serving R) (cb : Cbuffer α) (nValsMax need : Nat) (b : Bool)
    (l : Local α) (now : Chrono) : R cb (getRound cb nValsMax need b l now).cb := by
  unfold Cbuffer.getRound
  split
  · next ho =>
    have hcopy := h.copyout cb (sizeT (nValsMax - l.nCopy)) b ho
    generalize Cbuffer.copyout cb (sizeT (nValsMax - l.nCopy)) b = r at hcopy ⊢
    exact hcopy
  · exact h.refl cb

theorem Serving.putNow (h : Serving R) (cb : Cbuffer α) (vals : List α) (valsz : Nat) :
    R cb (putNow cb vals valsz).1 := by
  have hcopy := h.copyin cb vals
  cases hr : Cbuffer.copyin cb vals with
  | mk cb' n =>
    rw [hr] at hcopy
    rw [Cbuffer.putNow, hr]
    split_ifs with _ _ ho
    · exact hcopy ho
    · exact h.refl cb
    · exact h.refl cb
    · exact h.refl cb

theorem Serving.getNow (h : Serving R) (cb : Cbuffer α) (nValsMax valsz : Nat) (b : Bool) :
    R cb (getNow cb nValsMax valsz b).1 := by
  unfold Cbuffer.getNow
  split_ifs with _ _ ho
  · exact h.copyout cb nValsMax b ho
  · exact h.refl cb
  · exact h.refl cb
  · exact h.refl cb

theorem Serving.wakeupRound (h : Serving R) (cb : Cbuffer α) (nsec now : Chrono) :
    R cb (wakeupRound cb nsec now).cb := by
  unfold Cbuffer.wakeupRound
  split_ifs <;> exact h.refl cb

theorem Serving.start [Zero α] (h : Serving R) {now : Chrono}
    (hclear : ∀ b, c = .clear b → R cb (clear cb b).1)
    (hshutdown : ∀ b, c = .shutdown b → R cb (shutdown cb b)) : R cb (start cb c now).cb := by
  cases c with
  | putN vals valsz nsec =>
    by_cases hloop : valsz = cb.elementSize ∧ 0 < vals.length ∧ nsec ≠ 0
    · rw [start_putN_loop hloop]
      exact h.putRound _ _ _ _
    · rw [start_putN_now hloop]
      exact h.putNow cb vals valsz
  | getN nValsMax nAtLeast valsz nsec doIncr =>
    by_cases hloop : valsz = cb.elementSize ∧ 0 < nValsMax ∧ nsec ≠ 0
    · rw [start_getN_loop hloop]
      exact h.getRound _ _ _ _ _ _
    · rw [start_getN_now hloop]
      exact h.getNow cb nValsMax valsz doIncr
  | waitGettable nsec =>
    unfold Cbuffer.start
    dsimp only
    split <;> exact h.refl cb
  | waitPuttable nsec =>
    unfold Cbuffer.start
    dsimp only
    split <;> exact h.refl cb
  | wakeup nsec =>
    unfold Cbuffer.start
    dsimp only
    split_ifs
    · exact h.trans (h.wakeup cb) (h.wakeupRound _ nsec now)
    · exact h.wakeup cb
    · exact h.refl cb
    · exact h.refl cb
    · exact h.refl cb
  | clear b => exact hclear b rfl
  | shutdown b => exact hshutdown b rfl

theorem Serving.resume (h : Serving R) (cb : Cbuffer α) (c : Call α) (l : Local α) (ret : Result)
    (waitEnd now : Chrono) : R cb (resume cb c l ret waitEnd now).cb := by
  have hleave := h.leaveWait cb ret
  cases c with
  | putN vals valsz nsec =>
    rw [resume_putN]
    split
    · split
      · exact h.trans hleave (h.putRound _ _ _ _)
      · exact hleave
    · exact hleave
  | getN nValsMax nAtLeast valsz nsec doIncr =>
    rw [resume_getN]
    split
    · split
      · exact h.trans hleave (h.getRound _ _ _ _ _ _)
      · exact hleave
    · exact hleave
  | waitGettable nsec => exact hleave
  | waitPuttable nsec => exact hleave
  | wakeup nsec =>
    unfold Cbuffer.resume
    dsimp only
    split
    · exact h.wakeupRound _ _ _
    · exact h.refl cb
  | clear b => exact h.refl cb
  | shutdown b => exact h.refl cb

variable {κ : Type} [DecidableEq κ] [Zero α]

/-- **What the record functions keep, each segment keeps.** -/
theorem Serving.step {s s' : Calls κ α} {e : Event κ α} (h : Serving R)
    (hclear : ∀ k b now, e = .call k (.clear b) now → R s.cb (clear s.cb b).1)
    (hshutdown : ∀ k b now, e = .call k (.shutdown b) now → R s.cb (shutdown s.cb b))
    (hs : step s e = some s') : R s.cb s'.cb := by
  have hcommit : ∀ k c (seg : Segment α), R s.cb seg.cb → R s.cb (commit s k c seg).cb := by
    intro k c seg hseg
    obtain ⟨n, hcb⟩ := commit_cb s k c seg
    rw [hcb]
    exact h.trans hseg (h.waiters _ _ _ _)
  obtain ⟨k, c, now, rfl, -, rfl⟩ |
    ⟨k, c, cond, since, nsec, l, how, waitEnd, now, rfl, -, -, rfl⟩ := step_cases hs
  · refine hcommit k c _ (h.start ?_ ?_)
    · rintro b rfl
      exact hclear k b now rfl
    · rintro b rfl
      exact hshutdown k b now rfl
  · exact hcommit k c _ (h.resume _ _ _ _ _ _)

end

/-! ## The muxer -/

/-- The buffer stays registered as it is, and a muxer is told nothing, unless the buffer is
operational and registered with it. -/
structure Told (cb cb' : Cbuffer α) : Prop where
  qmuxer : cb'.qmuxer = cb.qmuxer
  isOperational : cb'.isOperational = true → cb.isOperational = true
  silent : ∀ m, (cb.isOperational = true → cb.qmuxer ≠ some m) →
    cb'.qmuxLog.count m = cb.qmuxLog.count m

theorem Told.of_eq (hq : cb'.qmuxer = cb.qmuxer) (ho : cb'.isOperational = cb.isOperational)
    (hlog : cb'.qmuxLog = cb.qmuxLog) : Told cb cb' :=
  ⟨hq, fun h => ho ▸ h, fun m _ => by rw [hlog]⟩

theorem Told.trans {cb'' : Cbuffer α} (h : Told cb cb') (h' : Told cb' cb'') : Told cb cb'' := by
  refine ⟨h'.qmuxer.trans h.qmuxer, fun ho => h.isOperational (h'.isOperational ho), ?_⟩
  intro m hm
  rw [h'.silent m fun ho => h.qmuxer ▸ hm (h.isOperational ho), h.silent m hm]

theorem told_qmuxerNotify (ho : cb.isOperational = true) : Told cb (qmuxerNotify cb) := by
  unfold qmuxerNotify
  split
  · next q hq =>
    refine ⟨rfl, id, fun m hm => ?_⟩
    have hne : q ≠ m := fun h => hm ho (h ▸ hq)
    simp [List.count_append, hne]
  · exact .of_eq rfl rfl rfl

theorem told_ite_qmuxerNotify (b : Bool) (ho : cb.isOperational = true) :
    Told cb (if b then qmuxerNotify cb else cb) := by
  cases b with
  | false => exact .of_eq rfl rfl rfl
  | true => exact told_qmuxerNotify ho

/-- What the elements, the indices and the conditions are changed by. -/
structure SameMux (cb cb' : Cbuffer α) : Prop where
  qmuxer : cb'.qmuxer = cb.qmuxer
  isOperational : cb'.isOperational = cb.isOperational
  qmuxLog : cb'.qmuxLog = cb.qmuxLog

theorem SameMux.told (h : SameMux cb cb') : Told cb cb' := .of_eq h.1 h.2 h.3

theorem sameMux_adjustIndices (cb : Cbuffer α) : SameMux cb (adjustIndices cb) := by
  unfold adjustIndices
  split <;> exact ⟨rfl, rfl, rfl⟩

theorem sameMux_copyinData (cb : Cbuffer α) (vals : List α) (n : Int) :
    SameMux cb (copyinData (adjustIndices cb) vals n) := by
  obtain ⟨hq, ho, hlog⟩ := sameMux_adjustIndices cb
  unfold copyinData
  dsimp only
  split <;> exact ⟨hq, ho, hlog⟩

theorem sameMux_copyoutData (cb : Cbuffer α) (n : Int) :
    SameMux cb (copyoutData (adjustIndices cb) n).1 := by
  obtain ⟨hq, ho, hlog⟩ := sameMux_adjustIndices cb
  unfold copyoutData
  dsimp only
  split <;> exact ⟨hq, ho, hlog⟩

theorem told_copyin (vals : List α) (ho : cb.isOperational = true) :
    Told cb (copyin cb vals).1 := by
  simp only [copyin]
  generalize (if cb.nMaxElements - cb.nElements < i64 vals.length then
    cb.nMaxElements - cb.nElements else i64 vals.length) = n
  have hdata := sameMux_copyinData cb vals n
  generalize copyinData cb.adjustIndices vals n = cb₁ at hdata ⊢
  split
  · have hmoved : Told cb { cb₁ with nElements := cb₁.nElements + n, wIdx := i64 (cb₁.wIdx + n) } :=
      .of_eq hdata.1 hdata.2 hdata.3
    refine (hmoved.trans (told_ite_qmuxerNotify _ ?_)).trans (.of_eq rfl rfl rfl)
    exact hdata.2.trans ho
  · exact (sameMux_adjustIndices cb).told

theorem told_copyout (n : Nat) (b : Bool) (ho : cb.isOperational = true) :
    Told cb (copyout cb n b).1 := by
  unfold copyout
  dsimp only
  generalize (if i64 n < cb.nElements then i64 n else cb.nElements) = m
  have hdata := sameMux_copyoutData cb m
  generalize copyoutData cb.adjustIndices m = r at hdata ⊢
  obtain ⟨cb₁, vals⟩ := r
  dsimp only at hdata ⊢
  split
  · split
    · have hmoved : Told cb { cb₁ with nElements := cb₁.nElements - m, rIdx := cb₁.rIdx + m } :=
        .of_eq hdata.1 hdata.2 hdata.3
      refine (hmoved.trans (told_ite_qmuxerNotify _ ?_)).trans (.of_eq rfl rfl rfl)
      exact hdata.2.trans ho
    · exact hdata.told
  · exact (sameMux_adjustIndices cb).told

variable [Zero α]

theorem sameMux_clean (cb : Cbuffer α) (b : Bool) : SameMux cb (clean cb b) := by
  have hfree : SameMux cb (if b then freeupAllValues cb else cb) := by
    split
    · unfold freeupAllValues
      split
      · obtain ⟨hq, ho, hlog⟩ := sameMux_adjustIndices cb
        exact ⟨hq, ho, hlog⟩
      · exact ⟨rfl, rfl, rfl⟩
    · exact ⟨rfl, rfl, rfl⟩
  exact ⟨hfree.1, hfree.2, hfree.3⟩

theorem told_clear (b : Bool) (ho : cb.isOperational = true) : Told cb (clear cb b).1 := by
  have hclean := sameMux_clean cb b
  unfold clear
  exact (hclean.told.trans (told_ite_qmuxerNotify _ (hclean.2.trans ho))).trans (.of_eq rfl rfl rfl)

/-- A shutdown tells the muxer, once. -/
theorem told_shutdown (cb : Cbuffer α) (b : Bool) : Told cb (shutdown cb b) := by
  unfold shutdown
  split
  · next ho =>
    obtain ⟨hq, ho', hlog⟩ := sameMux_clean { cb with isOperational := false } b
    generalize clean { cb with isOperational := false } b = cb₁ at hq ho' hlog ⊢
    replace hq : cb₁.qmuxer = cb.qmuxer := hq
    replace hlog : cb₁.qmuxLog = cb.qmuxLog := hlog
    replace ho' : cb₁.isOperational = false := ho'
    have hnotify : (qmuxerNotify cb₁).qmuxer = cb₁.qmuxer ∧
        (qmuxerNotify cb₁).isOperational = cb₁.isOperational := by
      obtain ⟨log, heq⟩ := qmuxerNotify_eq cb₁
      rw [heq]
      exact ⟨rfl, rfl⟩
    refine ⟨hnotify.1.trans hq, fun _ => ho, fun m hm => ?_⟩
    show (qmuxerNotify cb₁).qmuxLog.count m = _
    rw [← hlog]
    unfold qmuxerNotify
    split
    · next q hq' =>
      have hne : q ≠ m := fun h => hm ho (by rw [← hq, hq', h])
      simp [List.count_append, hne]
    · rfl
  · exact .of_eq rfl rfl rfl

omit [Zero α] in
theorem serving_told : Serving (Told (α := α)) where
  refl _ := .of_eq rfl rfl rfl
  trans h h' := h.trans h'
  copyin _ vals ho := told_copyin vals ho
  copyout _ n b ho := told_copyout n b ho
  waiters _ _ _ _ := .of_eq rfl rfl rfl
  wakeup _ := .of_eq rfl rfl rfl

variable {κ : Type} [DecidableEq κ] {s s' : Calls κ α} {e : Event κ α}

/-- A clear. -/
def Event.isClear : Event κ α → Bool
  | .call _ c _ => c.isClear
  | .wake _ _ _ _ => false

/-- A shutdown. -/
def Event.isShutdown : Event κ α → Bool
  | .call _ c _ => c.isShutdown
  | .wake _ _ _ _ => false

/-- **Each segment tells the muxer of the buffer only**, but for a clear of a buffer that is shut
down. -/
theorem told_step (hs : step s e = some s')
    (hclear : e.isClear = true → s.cb.isOperational = true) : Told s.cb s'.cb := by
  refine serving_told.step ?_ (fun _ b _ _ => told_shutdown s.cb b) hs
  rintro k b now rfl
  exact told_clear b (hclear rfl)

/-- No segment registers the buffer or brings it back to life. -/
theorem step_qmuxer (hs : step s e = some s') :
    s'.cb.qmuxer = s.cb.qmuxer ∧ (s'.cb.isOperational = true → s.cb.isOperational = true) := by
  have hkept : Serving fun cb cb' : Cbuffer α =>
      cb'.qmuxer = cb.qmuxer ∧ (cb'.isOperational = true → cb.isOperational = true) :=
    { refl := fun _ => ⟨rfl, id⟩
      trans := fun h h' => ⟨h'.1.trans h.1, h.2 ∘ h'.2⟩
      copyin := fun _ vals ho => ⟨(told_copyin vals ho).1, (told_copyin vals ho).2⟩
      copyout := fun _ n b ho => ⟨(told_copyout n b ho).1, (told_copyout n b ho).2⟩
      waiters := fun _ _ _ _ => ⟨rfl, id⟩
      wakeup := fun _ => ⟨rfl, id⟩ }
  refine hkept.step (fun k b now _ => ?_) (fun k b now _ => ?_) hs
  · obtain ⟨hq, ho, -⟩ := sameMux_clean s.cb b
    obtain ⟨log, hlog⟩ := ite_qmuxerNotify_eq (clean s.cb b) (needWaitReadable (clean s.cb b).type)
    unfold clear
    simp only [hlog]
    exact ⟨hq, fun h => ho ▸ h⟩
  · exact ⟨(told_shutdown s.cb b).1, (told_shutdown s.cb b).2⟩

/-- Only a shutdown shuts a buffer down. -/
theorem step_operational (hs : step s e = some s') (he : e.isShutdown = false) :
    s'.cb.isOperational = s.cb.isOperational := by
  have hsame : Serving fun cb cb' : Cbuffer α => cb'.isOperational = cb.isOperational :=
    { refl := fun _ => rfl
      trans := fun h h' => h'.trans h
      copyin := fun cb vals _ => (served_copyin cb vals).isOperational
      copyout := fun cb n b _ => (served_copyout cb n b).isOperational
      waiters := fun _ _ _ _ => rfl
      wakeup := fun _ => rfl }
  refine hsame.step (fun k b now _ => (served_clear s.cb b).isOperational) ?_ hs
  rintro k b now rfl
  cases he

end Cbuffer
end Gallus
