import Gallus.Cbuffer.Exchange
import Mathlib.Data.Finset.Card

/-!
# The flag of a wake-up (`m_is_awakened`)

`gallus_cbuffer_wakeup` sets the flag and notifies the waiters; the last waiter that leaves clears
it. A waiter whose wait times out does not look at the flag.

* `Served` says what puts, gets and clears leave alone: the flag and the number of waiters.
* `Watch` adds to the calls, for each of them, whether a wake-up was called since its wait began.
* `undisturbed`: nobody begins to wait while the flag is set, and the last waiter does not time out
  then. `noStaleFlag_undisturbed`: in such runs a set flag has a waiter, who leaves because of a
  wake-up of its own wait, and a wake-up reaches every waiter.
* `staleFlag_each`: one run for each of these that goes wrong.
-/

namespace Gallus
namespace Cbuffer

variable {α : Type} {cb cb' : Cbuffer α}

/-! ## What a put, a get and a clear leave alone -/

/-- The waiters and the flag are unchanged, and no notification is taken back. -/
structure Served (cb cb' : Cbuffer α) : Prop where
  isOperational : cb'.isOperational = cb.isOperational
  isAwakened : cb'.isAwakened = cb.isAwakened
  nWaiters : cb'.nWaiters = cb.nWaiters
  condGet : cb.condGet ≤ cb'.condGet
  condPut : cb.condPut ≤ cb'.condPut

theorem Served.refl (cb : Cbuffer α) : Served cb cb :=
  ⟨rfl, rfl, rfl, Nat.le_refl _, Nat.le_refl _⟩

theorem Served.trans {cb'' : Cbuffer α} (h : Served cb cb') (h' : Served cb' cb'') :
    Served cb cb'' :=
  ⟨h'.isOperational.trans h.isOperational, h'.isAwakened.trans h.isAwakened,
    h'.nWaiters.trans h.nWaiters, Nat.le_trans h.condGet h'.condGet,
    Nat.le_trans h.condPut h'.condPut⟩

theorem served_adjustIndices (cb : Cbuffer α) : Served cb (adjustIndices cb) := by
  unfold adjustIndices
  split <;> exact ⟨rfl, rfl, rfl, Nat.le_refl _, Nat.le_refl _⟩

theorem served_copyinData (cb : Cbuffer α) (vals : List α) (n : Int) :
    Served cb (copyinData cb vals n) := by
  unfold copyinData
  dsimp only
  split <;> exact ⟨rfl, rfl, rfl, Nat.le_refl _, Nat.le_refl _⟩

theorem served_copyoutData (cb : Cbuffer α) (n : Int) : Served cb (copyoutData cb n).1 := by
  unfold copyoutData
  dsimp only
  split <;> exact ⟨rfl, rfl, rfl, Nat.le_refl _, Nat.le_refl _⟩

theorem served_copyin (cb : Cbuffer α) (vals : List α) : Served cb (copyin cb vals).1 := by
  simp only [copyin]
  generalize (if cb.nMaxElements - cb.nElements < i64 vals.length then
    cb.nMaxElements - cb.nElements else i64 vals.length) = n
  have hdata := (served_adjustIndices cb).trans (served_copyinData _ vals n)
  generalize copyinData cb.adjustIndices vals n = cb₁ at hdata ⊢
  split
  · obtain ⟨log, hlog⟩ := ite_qmuxerNotify_eq
      { cb₁ with nElements := cb₁.nElements + n, wIdx := i64 (cb₁.wIdx + n) }
      (needWaitReadable cb₁.type)
    simp only [hlog]
    exact ⟨hdata.1, hdata.2, hdata.3, Nat.le_succ_of_le hdata.4, hdata.5⟩
  · exact served_adjustIndices cb

theorem served_copyout (cb : Cbuffer α) (n : Nat) (b : Bool) : Served cb (copyout cb n b).1 := by
  unfold copyout
  dsimp only
  generalize (if i64 n < cb.nElements then i64 n else cb.nElements) = m
  have hdata := (served_adjustIndices cb).trans (served_copyoutData _ m)
  generalize copyoutData cb.adjustIndices m = r at hdata ⊢
  obtain ⟨cb₁, vals⟩ := r
  dsimp only at hdata ⊢
  split
  · split
    · obtain ⟨log, hlog⟩ := ite_qmuxerNotify_eq
        { cb₁ with nElements := cb₁.nElements - m, rIdx := cb₁.rIdx + m }
        (needWaitWritable cb₁.type)
      simp only [hlog]
      exact ⟨hdata.1, hdata.2, hdata.3, hdata.4, Nat.le_succ_of_le hdata.5⟩
    · exact hdata
  · exact served_adjustIndices cb

theorem served_getNow (cb : Cbuffer α) (n valsz : Nat) (b : Bool) :
    Served cb (getNow cb n valsz b).1 := by
  unfold getNow
  split_ifs
  · exact served_copyout cb n b
  · exact .refl cb
  · exact .refl cb
  · exact .refl cb

theorem putNow_fst (cb : Cbuffer α) (vals : List α) (valsz : Nat) :
    (putNow cb vals valsz).1 = cb ∨ (putNow cb vals valsz).1 = (copyin cb vals).1 := by
  cases hr : copyin cb vals with
  | mk cb' n =>
    rw [putNow, hr]
    split_ifs <;> simp

theorem served_putNow (cb : Cbuffer α) (vals : List α) (valsz : Nat) :
    Served cb (putNow cb vals valsz).1 := by
  rcases putNow_fst cb vals valsz with h | h
  · rw [h]
    exact .refl cb
  · rw [h]
    exact served_copyin cb vals

theorem served_freeupAllValues (cb : Cbuffer α) : Served cb (freeupAllValues cb) := by
  have h := served_adjustIndices cb
  unfold freeupAllValues
  split
  · exact ⟨h.1, h.2, h.3, h.4, h.5⟩
  · exact .refl cb

theorem served_clear [Zero α] (cb : Cbuffer α) (b : Bool) : Served cb (clear cb b).1 := by
  have hclean : Served cb (clean cb b) := by
    have h : Served cb (if b then freeupAllValues cb else cb) := by
      split
      · exact served_freeupAllValues cb
      · exact .refl cb
    exact ⟨h.1, h.2, h.3, h.4, h.5⟩
  obtain ⟨log, hlog⟩ := ite_qmuxerNotify_eq (clean cb b) (needWaitReadable (clean cb b).type)
  unfold clear
  simp only [hlog]
  exact ⟨hclean.1, hclean.2, hclean.3, hclean.4, Nat.le_succ_of_le hclean.5⟩

/-! ## The segments -/

/-- A segment that serves the queue, and then waits for room or data or returns. -/
structure IoOk (cb : Cbuffer α) (seg : Segment α) : Prop where
  served : Served cb seg.cb
  cond : ∀ c n l, seg.next = .wait c n l → c ≠ .awakened

theorem IoOk.quiet_done (cb : Cbuffer α) (r : Result) (n : Nat) (buf : List α) :
    IoOk cb (.quiet cb (.done r n buf)) := ⟨.refl cb, nofun⟩

theorem putRound_io (cb : Cbuffer α) (vals : List α) (l : Local α) (now : Chrono) :
    IoOk cb (putRound cb vals l now) := by
  unfold putRound
  split
  · have hserved := served_copyin cb (vals.drop (sizeT l.nCopy))
    generalize copyin cb (vals.drop (sizeT l.nCopy)) = r at hserved ⊢
    obtain ⟨cb', n⟩ := r
    refine ⟨hserved, fun c n l' h => ?_⟩
    dsimp only at h
    unfold putNext at h
    split_ifs at h
    cases h
    exact nofun
  · exact .quiet_done _ _ _ _

theorem getRound_io (cb : Cbuffer α) (nValsMax need : Nat) (b : Bool) (l : Local α)
    (now : Chrono) : IoOk cb (getRound cb nValsMax need b l now) := by
  unfold getRound
  split
  · have hserved := served_copyout cb (sizeT (nValsMax - l.nCopy)) b
    generalize copyout cb (sizeT (nValsMax - l.nCopy)) b = r at hserved ⊢
    obtain ⟨cb', vals, n⟩ := r
    refine ⟨hserved, fun c n l' h => ?_⟩
    dsimp only at h
    unfold getNext at h
    split_ifs at h
    cases h
    exact nofun
  · exact .quiet_done _ _ _ _

/-- The calls that wait in `s_wait_io_ready`. -/
def Call.waitsIo : Call α → Bool
  | .putN _ _ _ | .getN _ _ _ _ _ | .waitGettable _ | .waitPuttable _ => true
  | _ => false

variable {c : Call α} {l : Local α}

theorem start_putN_io [Zero α] (cb : Cbuffer α) (vals : List α) (valsz : Nat)
    (nsec now : Chrono) : IoOk cb (start cb (.putN vals valsz nsec) now) := by
  by_cases h : valsz = cb.elementSize ∧ 0 < vals.length ∧ nsec ≠ 0
  · rw [start_putN_loop h]
    exact putRound_io _ _ _ _
  · rw [start_putN_now h]
    have hserved := served_putNow cb vals valsz
    generalize putNow cb vals valsz = r at hserved ⊢
    exact ⟨hserved, nofun⟩

theorem start_io [Zero α] (cb : Cbuffer α) (now : Chrono) (hc : c.waitsIo = true) :
    IoOk cb (start cb c now) := by
  cases c with
  | putN vals valsz nsec => exact start_putN_io cb vals valsz nsec now
  | getN nValsMax nAtLeast valsz nsec doIncr =>
    by_cases h : valsz = cb.elementSize ∧ 0 < nValsMax ∧ nsec ≠ 0
    · rw [start_getN_loop h]
      exact getRound_io _ _ _ _ _ _
    · rw [start_getN_now h]
      have hserved := served_getNow cb nValsMax valsz doIncr
      generalize getNow cb nValsMax valsz doIncr = r at hserved ⊢
      exact ⟨hserved, nofun⟩
  | waitGettable nsec =>
    unfold start
    dsimp only
    split
    · exact .quiet_done _ _ _ _
    · refine ⟨.refl cb, fun c n l h => ?_⟩
      cases h
      exact nofun
  | waitPuttable nsec =>
    unfold start
    dsimp only
    split
    · exact .quiet_done _ _ _ _
    · refine ⟨.refl cb, fun c n l h => ?_⟩
      cases h
      exact nofun
  | wakeup nsec => cases hc
  | clear freeValues => cases hc
  | shutdown freeValues => cases hc

/-- After a wait the segment goes on only if the wait ended well and the flag is clear. -/
theorem resume_io (cb : Cbuffer α) (l : Local α) (ret : Result) (waitEnd now : Chrono)
    (hc : c.waitsIo = true) :
    IoOk (leaveWait cb ret).1 (resume cb c l ret waitEnd now) ∧
      ((leaveWait cb ret).2 ≠ Result.ok →
        ∃ r n buf, (resume cb c l ret waitEnd now).next = .done r n buf) := by
  cases c with
  | putN vals valsz nsec =>
    rw [resume_putN]
    by_cases hret : (leaveWait cb ret).2 = Result.ok
    · rw [if_pos hret]
      refine ⟨?_, fun h => absurd hret h⟩
      split
      · exact putRound_io _ _ _ _
      · exact .quiet_done _ _ _ _
    · rw [if_neg hret]
      exact ⟨.quiet_done _ _ _ _, fun _ => ⟨_, _, _, rfl⟩⟩
  | getN nValsMax nAtLeast valsz nsec doIncr =>
    rw [resume_getN]
    by_cases hret : (leaveWait cb ret).2 = Result.ok
    · rw [if_pos hret]
      refine ⟨?_, fun h => absurd hret h⟩
      split
      · exact getRound_io _ _ _ _ _ _
      · exact .quiet_done _ _ _ _
    · rw [if_neg hret]
      exact ⟨.quiet_done _ _ _ _, fun _ => ⟨_, _, _, rfl⟩⟩
  | waitGettable nsec => exact ⟨.quiet_done _ _ _ _, fun _ => ⟨_, _, _, rfl⟩⟩
  | waitPuttable nsec => exact ⟨.quiet_done _ _ _ _, fun _ => ⟨_, _, _, rfl⟩⟩
  | wakeup nsec => cases hc
  | clear freeValues => cases hc
  | shutdown freeValues => cases hc

/-- Who leaves a wait is no waiter any more. -/
theorem leaveWait_words (cb : Cbuffer α) (ret : Result) :
    (leaveWait cb ret).1.isOperational = cb.isOperational ∧
      (leaveWait cb ret).1.nWaiters = cb.nWaiters - 1 ∧
      (leaveWait cb ret).1.condGet = cb.condGet ∧ (leaveWait cb ret).1.condPut = cb.condPut := by
  unfold leaveWait awaken
  dsimp only
  split_ifs <;> exact ⟨rfl, rfl, rfl, rfl⟩

/-- What becomes of the flag at the end of a wait on an operational buffer. -/
theorem leaveWait_flag (ho : cb.isOperational = true) (ret : Result) :
    ((leaveWait cb ret).1.isAwakened = true ↔
        cb.isAwakened = true ∧ (ret = Result.ok → cb.nWaiters - 1 ≠ 0)) ∧
      ((leaveWait cb ret).2 = Result.ok ↔ ret = Result.ok ∧ cb.isAwakened = false) ∧
      (ret ≠ Result.wakeupRequested → (leaveWait cb ret).2 = Result.wakeupRequested →
        cb.isAwakened = true) := by
  have hcode : Result.wakeupRequested ≠ Result.ok := by decide
  unfold leaveWait awaken
  dsimp only
  by_cases hret : ret = Result.ok
  · by_cases hflag : cb.isAwakened = true
    · by_cases hn : cb.nWaiters - 1 = 0
      · simp [hret, hflag, ho, hn, hcode]
      · simp [hret, hflag, ho, hn, hcode]
    · simp [hret, hflag]
  · simp [hret]
    exact fun h h' => absurd h' h

/-- `gallus_cbuffer_wakeup` notifies the waiters. -/
def notifyWaiters (cb : Cbuffer α) : Cbuffer α :=
  { cb with isAwakened := true, condGet := cb.condGet + 1, condPut := cb.condPut + 1 }

/-- The waker waits for the waiters only. -/
theorem wakeupRound_words (cb : Cbuffer α) (nsec now : Chrono) :
    (wakeupRound cb nsec now).cb = cb ∧
      ∀ c n l, (wakeupRound cb nsec now).next = .wait c n l → c = .awakened := by
  unfold wakeupRound
  split_ifs
  · refine ⟨rfl, fun c n l h => ?_⟩
    cases h
    rfl
  · exact ⟨rfl, nofun⟩
  · exact ⟨rfl, nofun⟩

/-- A wake-up notifies the waiters, unless one is still under way. -/
theorem start_wakeup [Zero α] (cb : Cbuffer α) (nsec now : Chrono) :
    (start cb (.wakeup nsec) now).cb =
        (if 0 < cb.nWaiters ∧ cb.isOperational = true ∧ cb.isAwakened = false then
          notifyWaiters cb else cb) ∧
      ∀ c n l, (start cb (.wakeup nsec) now).next = .wait c n l → c = .awakened := by
  have hnone : ¬(0 < cb.nWaiters ∧ cb.isOperational = true ∧ cb.isAwakened = false) →
      (if 0 < cb.nWaiters ∧ cb.isOperational = true ∧ cb.isAwakened = false then
        notifyWaiters cb else cb) = cb := fun h => if_neg h
  unfold start
  dsimp only
  by_cases hw : 0 < cb.nWaiters
  · rw [if_pos hw]
    by_cases ho : cb.isOperational = true
    · rw [if_pos ho]
      by_cases ha : cb.isAwakened = false
      · have hcond : 0 < cb.nWaiters ∧ cb.isOperational = true ∧ cb.isAwakened = false :=
          ⟨hw, ho, ha⟩
        rw [if_pos ha, if_pos hcond]
        split
        · exact wakeupRound_words (notifyWaiters cb) nsec now
        · exact ⟨rfl, nofun⟩
      · rw [if_neg ha, hnone fun h => ha h.2.2]
        exact ⟨rfl, nofun⟩
    · rw [if_neg ho, hnone fun h => ho h.2.1]
      exact ⟨rfl, nofun⟩
  · rw [if_neg hw, hnone fun h => hw h.1]
    exact ⟨rfl, nofun⟩

/-- The same for the callers that do not wait. -/
theorem wakeup_words [Zero α] (cb : Cbuffer α) (now : Chrono) :
    (start cb (.wakeup 0) now).cb.isOperational = cb.isOperational ∧
      (start cb (.wakeup 0) now).cb.nWaiters = cb.nWaiters ∧
      cb.condGet ≤ (start cb (.wakeup 0) now).cb.condGet ∧
      (0 < cb.nWaiters → cb.isOperational = true → cb.isAwakened = false →
        cb.condGet < (start cb (.wakeup 0) now).cb.condGet) := by
  rw [(start_wakeup cb 0 now).1]
  split
  · exact ⟨rfl, rfl, Nat.le_succ _, fun _ _ _ => Nat.lt_succ_self _⟩
  · next hnot => exact ⟨rfl, rfl, Nat.le_refl _, fun hw ho ha => absurd ⟨hw, ho, ha⟩ hnot⟩

/-- A fresh buffer. -/
theorem createWithSize_words {mallocOk : Nat → Bool} {junk : Nat → α} {elemsize : Nat}
    {maxelems : Int} {hasDelProc : Bool}
    (h : createWithSize mallocOk junk elemsize maxelems hasDelProc = (Result.ok, some cb)) :
    cb.isOperational = true ∧ cb.isAwakened = false ∧ cb.nWaiters = 0 := by
  simp only [createWithSize] at h
  split_ifs at h
  · cases h
    exact ⟨rfl, rfl, rfl⟩
  · cases h
  · cases h

/-! ## The system -/

/-- The calls on a buffer. -/
structure Watch (κ α : Type) where
  calls : Calls κ α
  /-- `gallus_cbuffer_wakeup` was called since the call began its wait. -/
  called : κ → Bool

def Call.isShutdown : Call α → Bool
  | .shutdown _ => true
  | _ => false

/-- The segment ends in a wait. -/
def Segment.waits (seg : Segment α) : Bool :=
  match seg.next with
  | .wait _ _ _ => true
  | .done _ _ _ => false

/-- A call waits in `s_wait_io_ready`. -/
def Pc.waitsIo : Pc α → Bool
  | .waiting c _ _ _ _ => c.waitsIo
  | _ => false

section System

variable {κ : Type} [DecidableEq κ]

/-- One lock-held segment. A wake-up is one for all the calls but the waker's. -/
def Watch.step [Zero α] (w : Watch κ α) (e : Event κ α) : Option (Watch κ α) :=
  (Cbuffer.step w.calls e).map fun s =>
    ⟨s, match e with
      | .call k (.wakeup _) _ => fun k' => k' ≠ k
      | .call k _ _ | .wake k _ _ _ => Function.update w.called k false⟩

/-- Before any call. -/
def Watch.init (cb : Cbuffer α) : Watch κ α := ⟨.init cb, fun _ => false⟩

/-- The condition on the steps. The buffer stays operational. Nobody begins to wait for room or data
while the flag is set, and the last waiter does not time out then. -/
def undisturbed [Zero α] (w : Watch κ α) : Event κ α → Prop
  | .call _ c now =>
    c.isShutdown = false ∧
      (w.calls.cb.isAwakened = true → c.waitsIo = true → (start w.calls.cb c now).waits = false)
  | .wake k how _ _ =>
    (w.calls.pc k).waitsIo = true → how.result ≠ Result.ok → w.calls.cb.isAwakened = true →
      w.calls.cb.nWaiters ≠ 1

/-- What the flag promises in a state. -/
structure NoStaleFlag [Zero α] (w : Watch κ α) : Prop where
  /-- Somebody waits. -/
  waiter : w.calls.cb.isAwakened = true → ∃ k, (w.calls.pc k).waitsIo = true
  /-- Who leaves its wait because of a wake-up has been called. -/
  requested : ∀ k how, (w.calls.pc k).waitsIo = true →
    (leaveWait w.calls.cb (Wake.result how)).2 = Result.wakeupRequested → w.called k = true
  /-- A wake-up sets the flag for all waiters, and notifies them. -/
  notSwallowed : ∀ k nsec now w', w.step (.call k (.wakeup nsec) now) = some w' →
    ∀ k' c cond since nsec' l, w'.calls.pc k' = .waiting c cond since nsec' l → c.waitsIo = true →
      w'.calls.cb.isAwakened = true ∧ since < broadcasts w'.calls.cb cond

/-! ## The waiters -/

/-- `n` calls wait for room or data. -/
def Waiters (pc : κ → Pc α) (n : Nat) : Prop :=
  ∃ ks : Finset κ, (∀ k, k ∈ ks ↔ (pc k).waitsIo = true) ∧ ks.card = n

variable {pc : κ → Pc α} {p : Pc α} {n : Nat} {k : κ}

omit [DecidableEq κ] in
theorem Waiters.pos (h : Waiters pc n) (hk : (pc k).waitsIo = true) : 0 < n := by
  obtain ⟨ks, hmem, rfl⟩ := h
  exact Finset.card_pos.mpr ⟨k, (hmem k).mpr hk⟩

omit [DecidableEq κ] in
theorem Waiters.exists (h : Waiters pc n) (hn : n ≠ 0) : ∃ k, (pc k).waitsIo = true := by
  obtain ⟨ks, hmem, rfl⟩ := h
  obtain ⟨k, hk⟩ := Finset.card_pos.mp (Nat.pos_of_ne_zero hn)
  exact ⟨k, (hmem k).mp hk⟩

theorem Waiters.same (h : Waiters pc n) (hk : (pc k).waitsIo = p.waitsIo) :
    Waiters (Function.update pc k p) n := by
  obtain ⟨ks, hmem, rfl⟩ := h
  refine ⟨ks, fun k' => ?_, rfl⟩
  by_cases hk' : k' = k
  · subst hk'
    rw [Function.update_self, ← hk]
    exact hmem k'
  · rw [Function.update_of_ne hk']
    exact hmem k'

theorem Waiters.enter (h : Waiters pc n) (hk : (pc k).waitsIo = false) (hp : p.waitsIo = true) :
    Waiters (Function.update pc k p) (n + 1) := by
  obtain ⟨ks, hmem, rfl⟩ := h
  have hout : k ∉ ks := fun hin => by simp [(hmem k).mp hin] at hk
  refine ⟨insert k ks, fun k' => ?_, Finset.card_insert_of_notMem hout⟩
  rw [Finset.mem_insert]
  by_cases hk' : k' = k
  · subst hk'
    simp [hp]
  · rw [Function.update_of_ne hk', hmem]
    simp [hk']

theorem Waiters.leave (h : Waiters pc n) (hk : (pc k).waitsIo = true) (hp : p.waitsIo = false) :
    Waiters (Function.update pc k p) (n - 1) := by
  obtain ⟨ks, hmem, rfl⟩ := h
  refine ⟨ks.erase k, fun k' => ?_, Finset.card_erase_of_mem ((hmem k).mpr hk)⟩
  rw [Finset.mem_erase]
  by_cases hk' : k' = k
  · subst hk'
    simp [hp]
  · rw [Function.update_of_ne hk', hmem]
    simp [hk']

/-! ## The invariant -/

/-- The condition variable that a call waits at: only a waker waits for the waiters. -/
def CondOk (c : Call α) (cond : Cond) : Prop :=
  (c.waitsIo = true → cond ≠ .awakened) ∧
    (c.waitsIo = false → cond = .awakened ∧ ∃ t, c = .wakeup t)

/-- The invariant: while the flag is set, every waiter has been notified by a wake-up, and there is
one. -/
structure Flagged (w : Watch κ α) : Prop where
  operational : w.calls.cb.isOperational = true
  waiters : Waiters w.calls.pc w.calls.cb.nWaiters
  cond : ∀ k c cond since nsec l, w.calls.pc k = .waiting c cond since nsec l → CondOk c cond
  since : ∀ k c cond since nsec l, w.calls.pc k = .waiting c cond since nsec l →
    c.waitsIo = true → since ≤ broadcasts w.calls.cb cond
  someone : w.calls.cb.isAwakened = true → w.calls.cb.nWaiters ≠ 0
  notified : w.calls.cb.isAwakened = true → ∀ k c cond since nsec l,
    w.calls.pc k = .waiting c cond since nsec l → c.waitsIo = true →
      since < broadcasts w.calls.cb cond ∧ w.called k = true

theorem Served.broadcasts_le (h : Served cb cb') {cond : Cond} (hcond : cond ≠ .awakened) :
    broadcasts cb cond ≤ broadcasts cb' cond := by
  cases cond with
  | put => exact h.condPut
  | get => exact h.condGet
  | awakened => exact absurd rfl hcond

/-- The record after a segment, up to the number of waiters. -/
theorem commit_words (s : Calls κ α) (k : κ) (c : Call α) (seg : Segment α) :
    (commit s k c seg).cb.isOperational = seg.cb.isOperational ∧
      (commit s k c seg).cb.isAwakened = seg.cb.isAwakened ∧
      ∀ cond, broadcasts (commit s k c seg).cb cond = broadcasts seg.cb cond := by
  obtain ⟨n, hcb⟩ := commit_cb s k c seg
  rw [hcb]
  exact ⟨rfl, rfl, fun cond => by cases cond <;> rfl⟩

/-- Where a call waits after its segment. -/
theorem commit_waiting {s : Calls κ α} {k k' : κ} {c c' : Call α} {seg : Segment α} {cond : Cond}
    {since : Nat} {t : Chrono} {l : Local α}
    (h : (commit s k c seg).pc k' = .waiting c' cond since t l) :
    k' = k ∧ c' = c ∧ since = broadcasts seg.cb cond ∧ seg.next = .wait cond t l ∨
      k' ≠ k ∧ s.pc k' = .waiting c' cond since t l := by
  unfold commit at h
  dsimp only at h
  by_cases hk : k' = k
  · subst hk
    rw [Function.update_self] at h
    split at h
    · next hnext =>
      cases h
      exact .inl ⟨rfl, rfl, rfl, hnext⟩
    · cases h
  · rw [Function.update_of_ne hk] at h
    exact .inr ⟨hk, h⟩

variable {w w' : Watch κ α} {seg : Segment α} {called : κ → Bool} {m : Nat}

/-- A segment of the call `k`, on a buffer where `m` others wait. -/
theorem Flagged.commit (h : Flagged w) (hop : seg.cb.isOperational = true)
    (hm : Waiters (Function.update w.calls.pc k .outside) m) (hn : seg.cb.nWaiters = m)
    (hcond : ∀ cond t l, seg.next = .wait cond t l → CondOk c cond)
    (hle : ∀ cond, cond ≠ .awakened → broadcasts w.calls.cb cond ≤ broadcasts seg.cb cond)
    (hflag : seg.cb.isAwakened = true → m ≠ 0 ∧
      (c.waitsIo = true → ∃ r n buf, seg.next = .done r n buf) ∧
      ∀ k' ≠ k, ∀ c cond since nsec l, w.calls.pc k' = .waiting c cond since nsec l →
        c.waitsIo = true → since < broadcasts seg.cb cond ∧ called k' = true) :
    Flagged ⟨commit w.calls k c seg, called⟩ := by
  subst hn
  obtain ⟨hop', hflag', hbroad⟩ := commit_words w.calls k c seg
  refine ⟨hop'.trans hop, ?_, ?_, ?_, ?_, ?_⟩
  · have hp : ∀ p : Pc α, Function.update (Function.update w.calls.pc k .outside) k p =
        Function.update w.calls.pc k p := fun p => Function.update_idem _ _ _
    show Waiters (Cbuffer.commit w.calls k c seg).pc (Cbuffer.commit w.calls k c seg).cb.nWaiters
    unfold Cbuffer.commit
    dsimp only
    cases hnext : seg.next with
    | wait cond t l =>
      have hc := hcond cond t l hnext
      cases hio : c.waitsIo with
      | true =>
        have henter := hm.enter (k := k) (p := .waiting c cond (broadcasts seg.cb cond) t l)
          (by rw [Function.update_self]; rfl) hio
        rw [hp] at henter
        cases cond with
        | awakened => exact absurd rfl (hc.1 hio)
        | put => exact henter
        | get => exact henter
      | false =>
        obtain ⟨rfl, -⟩ := hc.2 hio
        have hsame := hm.same (k := k) (p := .waiting c .awakened (broadcasts seg.cb .awakened) t l)
          (by rw [Function.update_self]; exact hio.symm)
        rw [hp] at hsame
        exact hsame
    | done r n buf =>
      have hsame := hm.same (k := k) (p := .returned c r n buf) (by rw [Function.update_self]; rfl)
      rw [hp] at hsame
      exact hsame
  · intro k' c' cond since t l hpc
    rcases commit_waiting hpc with ⟨-, rfl, -, hnext⟩ | ⟨-, hpc⟩
    · exact hcond cond t l hnext
    · exact h.cond _ _ _ _ _ _ hpc
  · intro k' c' cond since t l hpc hio
    show since ≤ broadcasts (Cbuffer.commit w.calls k c seg).cb cond
    rw [hbroad]
    rcases commit_waiting hpc with ⟨-, -, rfl, -⟩ | ⟨-, hpc⟩
    · exact Nat.le_refl _
    · exact Nat.le_trans (h.since _ _ _ _ _ _ hpc hio) (hle _ ((h.cond _ _ _ _ _ _ hpc).1 hio))
  · intro hset
    obtain ⟨hpos, -⟩ := hflag (hflag'.symm.trans hset)
    show (Cbuffer.commit w.calls k c seg).cb.nWaiters ≠ 0
    unfold Cbuffer.commit
    dsimp only
    split
    · next cond _ _ _ =>
      cases cond with
      | awakened => exact hpos
      | put => exact Nat.succ_ne_zero _
      | get => exact Nat.succ_ne_zero _
    · exact hpos
  · intro hset k' c' cond since t l hpc hio
    obtain ⟨-, hdone, hothers⟩ := hflag (hflag'.symm.trans hset)
    show since < broadcasts (Cbuffer.commit w.calls k c seg).cb cond ∧ called k' = true
    rw [hbroad]
    rcases commit_waiting hpc with ⟨-, rfl, -, hnext⟩ | ⟨hk, hpc⟩
    · obtain ⟨r, n, buf, hret⟩ := hdone hio
      rw [hret] at hnext
      cases hnext
    · exact hothers k' hk _ _ _ _ _ hpc hio

/-! ## The steps -/

variable [Zero α] {e : Event κ α}

/-- The first segment of a put, a get or a wait. -/
theorem Flagged.callIo {now : Chrono} (h : Flagged w) (hpc : w.calls.pc k = .outside)
    (hc : c.waitsIo = true)
    (hok : w.calls.cb.isAwakened = true → c.waitsIo = true →
      (start w.calls.cb c now).waits = false) :
    Flagged ⟨Cbuffer.commit w.calls k c (start w.calls.cb c now),
      Function.update w.called k false⟩ := by
  obtain ⟨hserved, hcond⟩ := start_io w.calls.cb now hc
  have hm : Waiters (Function.update w.calls.pc k .outside) w.calls.cb.nWaiters :=
    h.waiters.same (by rw [hpc])
  refine h.commit (hserved.isOperational.trans h.operational) hm hserved.nWaiters ?_
    (fun cond hne => hserved.broadcasts_le hne) ?_
  · exact fun cond t l hnext => ⟨fun _ => hcond _ _ _ hnext, fun hio => by simp [hc] at hio⟩
  · intro hset
    replace hset : w.calls.cb.isAwakened = true := hserved.isAwakened ▸ hset
    refine ⟨h.someone hset, fun _ => ?_, ?_⟩
    · have hnot := hok hset hc
      unfold Segment.waits at hnot
      split at hnot
      · cases hnot
      · next r n buf hnext => exact ⟨r, n, buf, hnext⟩
    · intro k' hk c' cond since t l hpc' hio
      obtain ⟨hlt, hcalled⟩ := h.notified hset _ _ _ _ _ _ hpc' hio
      rw [Function.update_of_ne hk]
      exact ⟨Nat.lt_of_lt_of_le hlt (hserved.broadcasts_le ((h.cond _ _ _ _ _ _ hpc').1 hio)),
        hcalled⟩

/-- A clear. -/
theorem Flagged.callClear {now : Chrono} {b : Bool} (h : Flagged w)
    (hpc : w.calls.pc k = .outside) :
    Flagged ⟨Cbuffer.commit w.calls k (.clear b) (start w.calls.cb (.clear b) now),
      Function.update w.called k false⟩ := by
  have hserved : Served w.calls.cb (start w.calls.cb (.clear b) now).cb := served_clear _ b
  have hm : Waiters (Function.update w.calls.pc k .outside) w.calls.cb.nWaiters :=
    h.waiters.same (by rw [hpc])
  refine h.commit (hserved.isOperational.trans h.operational) hm hserved.nWaiters nofun
    (fun cond hne => hserved.broadcasts_le hne) ?_
  intro hset
  replace hset : w.calls.cb.isAwakened = true := hserved.isAwakened ▸ hset
  refine ⟨h.someone hset, nofun, fun k' hk c' cond since t l hpc' hio => ?_⟩
  obtain ⟨hlt, hcalled⟩ := h.notified hset _ _ _ _ _ _ hpc' hio
  rw [Function.update_of_ne hk]
  exact ⟨Nat.lt_of_lt_of_le hlt (hserved.broadcasts_le ((h.cond _ _ _ _ _ _ hpc').1 hio)),
    hcalled⟩

/-- A wake-up. -/
theorem Flagged.callWakeup {nsec now : Chrono} (h : Flagged w) (hpc : w.calls.pc k = .outside) :
    Flagged ⟨Cbuffer.commit w.calls k (.wakeup nsec) (start w.calls.cb (.wakeup nsec) now),
      fun k' => k' ≠ k⟩ := by
  obtain ⟨hcb, hcond⟩ := start_wakeup w.calls.cb nsec now
  have hm : Waiters (Function.update w.calls.pc k .outside) w.calls.cb.nWaiters :=
    h.waiters.same (by rw [hpc])
  refine h.commit ?_ hm ?_ ?_ ?_ ?_
  · rw [hcb]
    split <;> exact h.operational
  · rw [hcb]
    split <;> rfl
  · exact fun cond t l hnext => ⟨nofun, fun _ => ⟨hcond _ _ _ hnext, nsec, rfl⟩⟩
  · intro cond hne
    rw [hcb]
    split
    · cases cond with
      | awakened => exact absurd rfl hne
      | put => exact Nat.le_succ _
      | get => exact Nat.le_succ _
    · exact Nat.le_refl _
  · intro hset
    rw [hcb] at hset ⊢
    split at hset
    · next hnew =>
      rw [if_pos hnew]
      refine ⟨Nat.pos_iff_ne_zero.mp hnew.1, nofun, fun k' hk c' cond since t l hpc' hio => ?_⟩
      refine ⟨?_, decide_eq_true hk⟩
      have hsince := h.since _ _ _ _ _ _ hpc' hio
      cases cond with
      | awakened => exact absurd rfl ((h.cond _ _ _ _ _ _ hpc').1 hio)
      | put => exact Nat.lt_succ_of_le hsince
      | get => exact Nat.lt_succ_of_le hsince
    · next hold =>
      rw [if_neg hold]
      refine ⟨h.someone hset, nofun, fun k' hk c' cond since t l hpc' hio => ?_⟩
      exact ⟨(h.notified hset _ _ _ _ _ _ hpc' hio).1, decide_eq_true hk⟩

omit [Zero α] in
/-- The end of a wait for room or data. -/
theorem Flagged.wakeIo {cond : Cond} {since : Nat} {nsec : Chrono} {l : Local α} {how : Wake}
    {waitEnd now : Chrono} (h : Flagged w) (hpc : w.calls.pc k = .waiting c cond since nsec l)
    (hc : c.waitsIo = true)
    (hok : how.result ≠ Result.ok → w.calls.cb.isAwakened = true → w.calls.cb.nWaiters ≠ 1) :
    Flagged ⟨Cbuffer.commit w.calls k c (resume w.calls.cb c l how.result waitEnd now),
      Function.update w.called k false⟩ := by
  have hk : (w.calls.pc k).waitsIo = true := by rw [hpc]; exact hc
  have hpos : 0 < w.calls.cb.nWaiters := h.waiters.pos hk
  obtain ⟨hop, hn, hget, hput⟩ := leaveWait_words w.calls.cb how.result
  obtain ⟨hflag, hwell, -⟩ := leaveWait_flag h.operational how.result
  obtain ⟨⟨hserved, hcond⟩, hdone⟩ := resume_io w.calls.cb l how.result waitEnd now hc
  have hle : ∀ cond, cond ≠ .awakened → broadcasts w.calls.cb cond ≤
      broadcasts (resume w.calls.cb c l how.result waitEnd now).cb cond := by
    intro cond hne
    refine Nat.le_trans (Nat.le_of_eq ?_) (hserved.broadcasts_le hne)
    cases cond with
    | awakened => exact absurd rfl hne
    | put => exact hput.symm
    | get => exact hget.symm
  refine h.commit (hserved.isOperational.trans (hop.trans h.operational))
    (h.waiters.leave hk rfl) (hserved.nWaiters.trans hn) ?_ hle ?_
  · exact fun cond t l hnext => ⟨fun _ => hcond _ _ _ hnext, fun hio => by simp [hc] at hio⟩
  · intro hset
    obtain ⟨hset', hlast⟩ := hflag.mp (hserved.isAwakened ▸ hset)
    refine ⟨?_, fun _ => hdone fun hret => ?_, fun k' hk' c' cond since t l hpc' hio => ?_⟩
    · by_cases hret : how.result = Result.ok
      · exact hlast hret
      · have := hok hret hset'
        omega
    · rw [(hwell.mp hret).2] at hset'
      cases hset'
    · obtain ⟨hlt, hcalled⟩ := h.notified hset' _ _ _ _ _ _ hpc' hio
      rw [Function.update_of_ne hk']
      exact ⟨Nat.lt_of_lt_of_le hlt (hle _ ((h.cond _ _ _ _ _ _ hpc').1 hio)), hcalled⟩

omit [Zero α] in
/-- The end of a waker's wait. -/
theorem Flagged.wakeWaker {cond : Cond} {since : Nat} {nsec t : Chrono} {l : Local α} {how : Wake}
    {waitEnd now : Chrono} (h : Flagged w)
    (hpc : w.calls.pc k = .waiting (.wakeup t) cond since nsec l) :
    Flagged ⟨Cbuffer.commit w.calls k (.wakeup t)
      (resume w.calls.cb (.wakeup t) l how.result waitEnd now),
      Function.update w.called k false⟩ := by
  have hseg : (resume w.calls.cb (.wakeup t) l how.result waitEnd now).cb = w.calls.cb ∧
      ∀ c n l', (resume w.calls.cb (.wakeup t) l how.result waitEnd now).next = .wait c n l' →
        c = .awakened := by
    unfold resume
    dsimp only
    split
    · exact wakeupRound_words _ _ _
    · exact ⟨rfl, nofun⟩
  generalize resume w.calls.cb (.wakeup t) l how.result waitEnd now = seg at hseg
  obtain ⟨hcb, hcond⟩ := hseg
  refine h.commit (hcb ▸ h.operational) (h.waiters.same (by rw [hpc]; rfl)) (congrArg _ hcb) ?_
    (fun cond _ => hcb ▸ Nat.le_refl _) ?_
  · exact fun cond n l' hnext => ⟨nofun, fun _ => ⟨hcond _ _ _ hnext, t, rfl⟩⟩
  · intro hset
    rw [hcb] at hset ⊢
    refine ⟨h.someone hset, nofun, fun k' hk c' cond since n l' hpc' hio => ?_⟩
    rw [Function.update_of_ne hk]
    exact h.notified hset _ _ _ _ _ _ hpc' hio

/-- **The step lemma.** -/
theorem Flagged.step (h : Flagged w) (hok : undisturbed w e) (hs : w.step e = some w') :
    Flagged w' := by
  obtain ⟨s', hs', rfl⟩ := Option.map_eq_some_iff.mp hs
  obtain ⟨k, c, now, rfl, hpc, rfl⟩ |
    ⟨k, c, cond, since, nsec, l, how, waitEnd, now, rfl, hpc, -, rfl⟩ := step_cases hs'
  · obtain ⟨hstay, hquiet⟩ := hok
    cases c with
    | wakeup nsec => exact h.callWakeup hpc
    | clear b => exact h.callClear hpc
    | shutdown b => cases hstay
    | putN vals valsz nsec => exact h.callIo hpc rfl hquiet
    | getN nValsMax nAtLeast valsz nsec doIncr => exact h.callIo hpc rfl hquiet
    | waitGettable nsec => exact h.callIo hpc rfl hquiet
    | waitPuttable nsec => exact h.callIo hpc rfl hquiet
  · cases hio : c.waitsIo with
    | true => exact h.wakeIo hpc hio (hok (by rw [hpc]; exact hio))
    | false =>
      obtain ⟨rfl, t, rfl⟩ := (h.cond _ _ _ _ _ _ hpc).2 hio
      exact h.wakeWaker hpc

theorem Flagged.noStaleFlag (h : Flagged w) : NoStaleFlag w where
  waiter hset := h.waiters.exists (h.someone hset)
  requested k how hk hret := by
    have hset := (leaveWait_flag h.operational (Wake.result how)).2.2
      (by cases how <;> decide) hret
    cases hpc : w.calls.pc k with
    | waiting c cond since nsec l =>
      rw [hpc] at hk
      exact (h.notified hset _ _ _ _ _ _ hpc hk).2
    | outside => rw [hpc] at hk; cases hk
    | returned c r n buf => rw [hpc] at hk; cases hk
  notSwallowed k nsec now w' hs k' c cond since nsec' l hpc' hio := by
    obtain ⟨s', hs', rfl⟩ := Option.map_eq_some_iff.mp hs
    obtain ⟨k₁, c₁, now₁, heq, hpc, rfl⟩ |
      ⟨k₁, c₁, cond₁, since₁, nsec₁, l₁, how, waitEnd, now₁, heq, -⟩ := step_cases hs'
    · cases heq
      have hnext : Flagged ⟨Cbuffer.commit w.calls k (.wakeup nsec)
          (start w.calls.cb (.wakeup nsec) now), fun k' => k' ≠ k⟩ := h.callWakeup hpc
      have hset : (Cbuffer.commit w.calls k (.wakeup nsec)
          (start w.calls.cb (.wakeup nsec) now)).cb.isAwakened = true := by
        have hpos : 0 < w.calls.cb.nWaiters := by
          rcases commit_waiting hpc' with ⟨-, rfl, -⟩ | ⟨-, hold⟩
          · cases hio
          · exact h.waiters.pos (k := k') (by rw [hold]; exact hio)
        rw [(commit_words _ _ _ _).2.1, (start_wakeup _ _ _).1]
        split
        · rfl
        · next hnot =>
          by_contra hclear
          exact hnot ⟨hpos, h.operational, by simpa using hclear⟩
      exact ⟨hset, (hnext.notified hset _ _ _ _ _ _ hpc' hio).1⟩
    · cases heq

/-- **No stale flag.** A fresh buffer, any calls but a shutdown, in any interleaving. If nobody
begins to wait while the flag is set, and the last waiter does not time out then, the flag is never
stale. -/
theorem noStaleFlag_undisturbed {mallocOk : Nat → Bool} {junk : Nat → α} {elemsize : Nat}
    {maxelems : Int} {hasDelProc : Bool} {es : List (Event κ α)}
    (hcreate : createWithSize mallocOk junk elemsize maxelems hasDelProc = (Result.ok, some cb))
    (hrun : Trans.Run Watch.step undisturbed (Watch.init cb) es w) : NoStaleFlag w := by
  obtain ⟨ho, ha, hn⟩ := createWithSize_words hcreate
  have hinit : Flagged (Watch.init cb : Watch κ α) := by
    have hout : ∀ (k : κ) c cond since t (l : Local α),
        (Watch.init cb : Watch κ α).calls.pc k ≠ .waiting c cond since t l := by
      intro k c cond since t l h
      cases h
    refine ⟨ho, ⟨∅, fun k => ?_, hn.symm⟩, fun k _ _ _ _ _ h => absurd h (hout _ _ _ _ _ _),
      fun k _ _ _ _ _ h => absurd h (hout _ _ _ _ _ _), fun h => ?_, fun h => ?_⟩
    · simp [Watch.init, Calls.init, Pc.waitsIo]
    · rw [show (Watch.init cb : Watch κ α).calls.cb = cb from rfl, ha] at h
      cases h
    · rw [show (Watch.init cb : Watch κ α).calls.cb = cb from rfl, ha] at h
      cases h
  exact (hrun.inv (fun _ _ _ h hok hs => h.step hok hs) hinit).noStaleFlag

instance (w : Watch κ α) (e : Event κ α) : Decidable (undisturbed w e) :=
  match e with
  | .call _ c now =>
    inferInstanceAs (Decidable (c.isShutdown = false ∧ (w.calls.cb.isAwakened = true →
      c.waitsIo = true → (start w.calls.cb c now).waits = false)))
  | .wake k how _ _ =>
    inferInstanceAs (Decidable ((w.calls.pc k).waitsIo = true → how.result ≠ Result.ok →
      w.calls.cb.isAwakened = true → w.calls.cb.nWaiters ≠ 1))

end System

/-- Two calls wait, a wake-up is called, and one after the other leaves. -/
def wakeTwo : List (Event (Fin 3) Nat) :=
  [.call 0 (.waitGettable (-1)) 0, .call 1 (.getN 1 1 8 5 true) 0, .call 2 (.wakeup 9) 1,
    .wake 1 .notified 2 2, .wake 0 .notified 3 3, .wake 2 .notified 4 4]

theorem noStaleFlag_wakeTwo :
    ∃ (cb : Cbuffer Nat) (w : Watch (Fin 3) Nat),
      createWithSize (fun _ => true) (fun _ => 0) 8 1 false = (Result.ok, some cb) ∧
      Trans.run Watch.step (Watch.init cb) wakeTwo = some w ∧ w.calls.cb.condAwakened = 1 ∧
      NoStaleFlag w := by
  obtain ⟨cb, hcreate, hmap⟩ : ∃ cb : Cbuffer Nat,
      createWithSize (fun _ => true) (fun _ => 0) 8 1 false = (Result.ok, some cb) ∧
      (Trans.run (Trans.guarded Watch.step undisturbed) (Watch.init cb) wakeTwo).map
        (fun w => w.calls.cb.condAwakened) = some 1 := ⟨_, rfl, by decide⟩
  obtain ⟨w, hguarded, hcond⟩ := Option.map_eq_some_iff.mp hmap
  have hrun := Trans.Run.of_guarded hguarded
  exact ⟨cb, w, hcreate, hrun.run_eq, hcond, noStaleFlag_undisturbed hcreate hrun⟩

/-- The flag is set, but nobody waits. -/
def noWaiter (w : Watch (Fin 4) Nat) : Bool :=
  w.calls.cb.isOperational && w.calls.cb.isAwakened && decide (∀ k, (w.calls.pc k).waitsIo = false)

/-- The call `k` waits, and would leave because of a wake-up, but none was called. -/
def notRequested (k : Fin 4) (w : Watch (Fin 4) Nat) : Bool :=
  w.calls.cb.isOperational && (w.calls.pc k).waitsIo &&
    decide ((leaveWait w.calls.cb (Wake.result .spurious)).2 = Result.wakeupRequested) &&
    !w.called k

/-- The call `k` waits and has not been notified. -/
def notNotified (k : Fin 4) (w : Watch (Fin 4) Nat) : Bool :=
  w.calls.cb.isOperational &&
    match w.calls.pc k with
    | .waiting c cond since _ _ => c.waitsIo && decide (broadcasts w.calls.cb cond ≤ since)
    | _ => false

/-- The last waiter times out and leaves the flag set; a call that begins to wait when the flag is
set leaves without a wake-up; and a wake-up does not reach such a call. -/
theorem staleFlag_each :
    ∃ cb : Cbuffer Nat,
      createWithSize (fun _ => true) (fun _ => 0) 8 1 false = (Result.ok, some cb) ∧
      (∃ w, Trans.run Watch.step (Watch.init cb)
          [.call 0 (.waitGettable 5) 0, .call 1 (.wakeup 0) 1, .wake 0 .timedout 5 5] = some w ∧
        noWaiter w = true) ∧
      (∃ w, Trans.run Watch.step (Watch.init cb)
          [.call 0 (.waitGettable (-1)) 0, .call 1 (.wakeup 0) 1,
            .call 2 (.waitGettable (-1)) 2] = some w ∧ notRequested 2 w = true) ∧
      ∃ w, Trans.run Watch.step (Watch.init cb)
          [.call 0 (.waitGettable (-1)) 0, .call 1 (.wakeup 0) 1, .call 2 (.waitGettable (-1)) 2,
            .call 3 (.wakeup 0) 3] = some w ∧ notNotified 2 w = true :=
  ⟨_, rfl, (Option.any_eq_true _ _).mp (by decide), (Option.any_eq_true _ _).mp (by decide),
    (Option.any_eq_true _ _).mp (by decide)⟩

end Cbuffer
end Gallus
