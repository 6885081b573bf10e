import Gallus.Cbuffer.Calls
import Gallus.Cbuffer.Fifo

/-!
# No element is lost or duplicated between threads

Any number of calls on one buffer, in any interleaving of their lock-held segments, with a shutdown
at any point.

* `Acct` is the account of one call: how what it inserted and removed so far relates to its own
  counter and buffer.
* `SegOk` says what a segment does: it keeps the representation, moves elements between the call
  and the two ends of the list, and keeps the account.
* `Inv` is the invariant of the system, and `exchange` the result: what getters took is a prefix
  of what putters gave, and each return reports exactly what its call moved.
-/

namespace Gallus
namespace Cbuffer

variable {α : Type} {cb cb' : Cbuffer α} {q : List α}

/-! ## The account of a call -/

/-- The account of a call that has counted `nCopy` elements, filled `buf`, inserted `ins` and
removed `rem`. -/
def Acct (c : Call α) (nCopy : Nat) (buf ins rem : List α) : Prop :=
  match c with
  | .putN vals _ _ => ins = vals.take nCopy ∧ nCopy ≤ vals.length ∧ rem = []
  | .getN nValsMax _ _ _ doIncr =>
    ins = [] ∧ buf.length = nCopy ∧ nCopy ≤ nValsMax ∧ rem = if doIncr then buf else []
  | _ => ins = [] ∧ rem = []

/-- The account at the end of a segment. -/
def NextOk (c : Call α) (ins rem : List α) : Next α → Prop
  | .wait _ _ l => 0 ≤ l.nCopy ∧ Acct c l.nCopy.toNat l.buf ins rem
  | .done _ nActual buf => Acct c nActual buf ins rem

/-- The calls the result is about: counts that are sizes of buffers, and nobody clears. -/
def Call.exchanges : Call α → Prop
  | .putN vals _ _ => vals.length < 2 ^ 63
  | .getN nValsMax _ _ _ _ => nValsMax < 2 ^ 63
  | .clear _ => False
  | _ => True

/-- What a segment of the call `c` does to a record that stores `q`. A shutdown loses what is
stored. -/
structure SegOk (c : Call α) (cb : Cbuffer α) (q ins rem : List α) (seg : Segment α) : Prop where
  rep : ∃ q' lost, Rep seg.cb q' ∧ q ++ seg.ins = seg.rem ++ (q' ++ lost) ∧
    (seg.cb.isOperational = true → lost = [])
  stopped : cb.isOperational = false →
    seg.cb.isOperational = false ∧ seg.ins = [] ∧ seg.rem = []
  wIdx : seg.cb.wIdx ≤ cb.wIdx + seg.ins.length
  next : NextOk c (ins ++ seg.ins) (rem ++ seg.rem) seg.next

variable {c : Call α} {ins rem : List α} {l : Local α}

theorem SegOk.quiet {next : Next α} (h : Rep cb' q) (ho : cb'.isOperational = cb.isOperational)
    (hw : cb'.wIdx = cb.wIdx) (hn : NextOk c ins rem next) :
    SegOk c cb q ins rem (.quiet cb' next) where
  rep := ⟨q, [], h, by simp [Segment.quiet], fun _ => rfl⟩
  stopped := fun h => ⟨ho.trans h, rfl, rfl⟩
  wIdx := by simp [Segment.quiet, hw]
  next := by simpa [Segment.quiet] using hn

/-- Only the operational flag and the write index of the record before matter. -/
theorem SegOk.of_eq {seg : Segment α} (h : SegOk c cb q ins rem seg)
    (ho : cb.isOperational = cb'.isOperational) (hw : cb.wIdx = cb'.wIdx) :
    SegOk c cb' q ins rem seg :=
  ⟨h.rep, fun h' => h.stopped (ho.trans h'), hw ▸ h.wIdx, h.next⟩

/-! ## The rounds -/

/-- How many elements a put copies does not depend on the index. -/
theorem copyin_count (h : Rep cb q) {buf : List α} (hn : buf.length < 2 ^ 63) :
    (copyin cb buf).2 = room cb q buf.length := by
  unfold copyin
  simp only [h.copyin_max hn]
  split <;> rfl

theorem putNext_ok {vals : List α} {valsz n : Nat} {nsec : Chrono} (hlen : vals.length < 2 ^ 63)
    (hn : l.nCopy = n) (hacct : Acct (.putN vals valsz nsec) n l.buf ins rem) :
    NextOk (.putN vals valsz nsec) ins rem (putNext cb vals l) := by
  have hle : n ≤ vals.length := hacct.2.1
  have hsize : sizeT l.nCopy = n := by rw [hn, sizeT_natCast (by omega)]
  unfold putNext
  rw [hsize]
  split
  · split
    · exact ⟨by omega, by rw [hn]; exact hacct⟩
    · exact hacct
  · exact hacct

theorem putRound_ok {vals : List α} {valsz : Nat} {nsec now : Chrono} (h : Rep cb q)
    (hlen : vals.length < 2 ^ 63) (hl : 0 ≤ l.nCopy)
    (hacct : Acct (.putN vals valsz nsec) l.nCopy.toNat l.buf ins rem)
    (hw : cb.wIdx + (putRound cb vals l now).ins.length < 2 ^ 63) :
    SegOk (.putN vals valsz nsec) cb q ins rem (putRound cb vals l now) := by
  obtain ⟨n, hn⟩ := Int.eq_ofNat_of_zero_le hl
  rw [hn, Int.toNat_natCast] at hacct
  have hle : n ≤ vals.length := hacct.2.1
  have hsize : sizeT l.nCopy = n := by rw [hn, sizeT_natCast (by omega)]
  unfold putRound at hw ⊢
  by_cases ho : cb.isOperational = true
  · rw [if_pos ho, hsize] at hw ⊢
    have hrest : (vals.drop n).length = vals.length - n := List.length_drop
    have hlen' : (vals.drop n).length < 2 ^ 63 := by omega
    have hcount := copyin_count h hlen'
    have hroom := room_le cb q (vals.drop n).length
    have hcopy := copyin_rep h hlen'
    generalize copyin cb (vals.drop n) = p at hw hcount hcopy ⊢
    obtain ⟨cb₁, m⟩ := p
    dsimp only at hcount hcopy hw ⊢
    generalize room cb q (vals.drop n).length = r at *
    subst hcount
    have htake : ((vals.drop n).take r).length = r := by
      rw [List.length_take]
      omega
    rw [Int.toNat_natCast, htake] at hw
    obtain ⟨-, hrep, hframe, hwIdx, -⟩ := hcopy hw
    obtain ⟨hins, -, hrem⟩ := hacct
    refine ⟨⟨_, [], hrep, by simp, fun _ => rfl⟩, fun h' => ?_, ?_, ?_⟩
    · rw [ho] at h'
      cases h'
    · rw [Int.toNat_natCast, htake]
      exact Int.le_of_eq hwIdx
    · refine putNext_ok (n := n + r) hlen (by simp only [hn]; omega) ⟨?_, by omega, by simp [hrem]⟩
      rw [Int.toNat_natCast, hins, List.take_add]
  · rw [if_neg ho, hsize]
    exact .quiet h rfl rfl hacct

theorem getNext_ok {nValsMax nAtLeast valsz n need : Nat} {nsec : Chrono} {doIncr : Bool}
    (hmax : nValsMax < 2 ^ 63) (hn : l.nCopy = n)
    (hacct : Acct (.getN nValsMax nAtLeast valsz nsec doIncr) n l.buf ins rem) :
    NextOk (.getN nValsMax nAtLeast valsz nsec doIncr) ins rem (getNext cb need l) := by
  have hle : n ≤ nValsMax := hacct.2.2.1
  have hsize : sizeT l.nCopy = n := by rw [hn, sizeT_natCast (by omega)]
  unfold getNext
  rw [hsize]
  split
  · split
    · exact ⟨by omega, by rw [hn]; exact hacct⟩
    · exact hacct
  · exact hacct

theorem getRound_ok {nValsMax nAtLeast valsz need : Nat} {nsec now : Chrono} {doIncr : Bool}
    (h : Rep cb q) (hmax : nValsMax < 2 ^ 63) (hl : 0 ≤ l.nCopy)
    (hacct : Acct (.getN nValsMax nAtLeast valsz nsec doIncr) l.nCopy.toNat l.buf ins rem) :
    SegOk (.getN nValsMax nAtLeast valsz nsec doIncr) cb q ins rem
      (getRound cb nValsMax need doIncr l now) := by
  obtain ⟨n, hn⟩ := Int.eq_ofNat_of_zero_le hl
  rw [hn, Int.toNat_natCast] at hacct
  have hle : n ≤ nValsMax := hacct.2.2.1
  have hsize : sizeT l.nCopy = n := by rw [hn, sizeT_natCast (by omega)]
  have hleft : sizeT (nValsMax - l.nCopy) = nValsMax - n := by
    rw [hn, show (nValsMax : Int) - n = ((nValsMax - n : Nat) : Int) by omega]
    exact sizeT_natCast (by omega)
  unfold getRound
  by_cases ho : cb.isOperational = true
  · rw [if_pos ho, hleft]
    obtain ⟨hret, hrep, hframe, hwIdx⟩ := copyout_rep h (n := nValsMax - n) (by omega) doIncr
    generalize copyout cb (nValsMax - n) doIncr = p at *
    obtain ⟨cb₁, vals, m⟩ := p
    cases hret
    dsimp only at hrep hframe hwIdx ⊢
    obtain ⟨hins, hbuf, -, hrem⟩ := hacct
    refine ⟨⟨_, [], hrep, ?_, fun _ => rfl⟩, fun h' => ?_, ?_, ?_⟩
    · cases doIncr <;> simp
    · rw [ho] at h'
      cases h'
    · rw [hwIdx]
      simp
    · refine getNext_ok (n := n + min (nValsMax - n) q.length) hmax (by simp only [hn]; omega)
        ⟨by simp [hins], ?_, by omega, ?_⟩
      · simp [hbuf]
      · cases doIncr <;> simp [hrem]
  · rw [if_neg ho, hsize]
    exact .quiet h rfl rfl hacct

theorem wakeupRound_ok {nsec now : Chrono} (h : Rep cb q)
    (hacct : Acct (.wakeup nsec) 0 [] ins rem) :
    SegOk (.wakeup nsec) cb q ins rem (wakeupRound cb nsec now) := by
  unfold wakeupRound
  split
  · split
    · exact .quiet h rfl rfl ⟨Int.le_refl 0, hacct⟩
    · exact .quiet h rfl rfl hacct
  · exact .quiet h rfl rfl hacct

/-- A shutdown stops the buffer and loses what is stored. -/
theorem shutdown_ok [Zero α] {freeValues : Bool} (h : Rep cb q)
    (hacct : Acct (.shutdown freeValues) 0 [] ins rem) :
    SegOk (.shutdown freeValues) cb q ins rem
      (.quiet (Cbuffer.shutdown cb freeValues) (.done Result.ok 0 [])) := by
  have hw := h.w_nonneg
  unfold Cbuffer.shutdown
  by_cases ho : cb.isOperational = true
  · rw [if_pos ho]
    have hrep : Rep { cb with isOperational := false } q := h.of_eq rfl rfl rfl rfl rfl rfl rfl rfl
    obtain ⟨hclean, hframe⟩ := hrep.clean freeValues
    have hw0 : (clean { cb with isOperational := false } freeValues).wIdx = 0 := rfl
    obtain ⟨log, hlog⟩ := qmuxerNotify_eq (clean { cb with isOperational := false } freeValues)
    rw [hlog]
    generalize clean { cb with isOperational := false } freeValues = cb₁ at *
    have hstop : cb₁.isOperational = false := hframe.isOperational
    refine ⟨⟨[], q, hclean.of_eq rfl rfl rfl rfl rfl rfl rfl rfl, by simp [Segment.quiet], ?_⟩,
      fun _ => ⟨hstop, rfl, rfl⟩, ?_, ?_⟩
    · intro h'
      rw [show cb₁.isOperational = true from h'] at hstop
      cases hstop
    · show cb₁.wIdx ≤ cb.wIdx + 0
      omega
    · show NextOk (.shutdown freeValues) (ins ++ []) (rem ++ []) (.done Result.ok 0 [])
      rwa [List.append_nil, List.append_nil]
  · rw [if_neg ho]
    exact .quiet h rfl rfl hacct

/-- A put that does not wait. -/
theorem putNow_ok {vals : List α} {valsz : Nat} {nsec : Chrono} (h : Rep cb q)
    (hlen : vals.length < 2 ^ 63)
    (hw : cb.wIdx + (vals.take (putNow cb vals valsz).2.1.toNat).length < 2 ^ 63) :
    SegOk (.putN vals valsz nsec) cb q [] [] ⟨(putNow cb vals valsz).1,
      vals.take (putNow cb vals valsz).2.1.toNat, [],
      .done (putNow cb vals valsz).2.1 (putNow cb vals valsz).2.2 []⟩ := by
  have hnone : ∀ ret : Result, ret.toNat = 0 → SegOk (.putN vals valsz nsec) cb q [] [] ⟨cb,
      vals.take ret.toNat, [], .done ret 0 []⟩ := by
    intro ret hret
    rw [hret]
    exact .quiet h rfl rfl ⟨rfl, Nat.zero_le _, rfl⟩
  unfold putNow at hw ⊢
  by_cases hsz : valsz = cb.elementSize
  · rw [if_pos hsz] at hw ⊢
    by_cases hpos : 0 < vals.length
    · rw [if_pos hpos] at hw ⊢
      by_cases ho : cb.isOperational = true
      · rw [if_pos ho] at hw ⊢
        have hcount := copyin_count h hlen
        have hcopy := copyin_rep h hlen
        have hroom := room_le cb q vals.length
        generalize copyin cb vals = p at hw hcount hcopy ⊢
        obtain ⟨cb₁, m⟩ := p
        dsimp only at hcount hcopy hw ⊢
        generalize room cb q vals.length = r at *
        subst hcount
        have htake : (vals.take r).length = r := by
          rw [List.length_take]
          omega
        rw [sizeT_natCast (by omega)]
        rw [Int.toNat_natCast] at hw ⊢
        rw [htake] at hw
        obtain ⟨-, hrep, hframe, hwIdx, -⟩ := hcopy hw
        refine ⟨⟨_, [], hrep, by simp, fun _ => rfl⟩, fun h' => ?_, ?_, rfl, hroom, rfl⟩
        · rw [ho] at h'
          cases h'
        · rw [htake]
          exact Int.le_of_eq hwIdx
      · rw [if_neg ho]
        exact hnone _ rfl
    · rw [if_neg hpos]
      exact hnone _ rfl
  · rw [if_neg hsz]
    exact hnone _ rfl

/-- A get or a peek that does not wait. -/
theorem getNow_ok {nValsMax nAtLeast valsz : Nat} {nsec : Chrono} {doIncr : Bool} (h : Rep cb q)
    (hmax : nValsMax < 2 ^ 63) :
    SegOk (.getN nValsMax nAtLeast valsz nsec doIncr) cb q [] []
      ⟨(getNow cb nValsMax valsz doIncr).1, [],
        if doIncr then (getNow cb nValsMax valsz doIncr).2.2.2 else [],
      .done (getNow cb nValsMax valsz doIncr).2.1 (getNow cb nValsMax valsz doIncr).2.2.1
        (getNow cb nValsMax valsz doIncr).2.2.2⟩ := by
  have hnone : ∀ ret, SegOk (.getN nValsMax nAtLeast valsz nsec doIncr) cb q [] [] ⟨cb, [],
      if doIncr then [] else [], .done ret 0 []⟩ := by
    intro ret
    rw [ite_self]
    exact .quiet h rfl rfl ⟨rfl, rfl, Nat.zero_le _, (ite_self _).symm⟩
  unfold getNow
  by_cases hsz : valsz = cb.elementSize
  · rw [if_pos hsz]
    by_cases hpos : 0 < nValsMax
    · rw [if_pos hpos]
      by_cases ho : cb.isOperational = true
      · rw [if_pos ho]
        obtain ⟨hret, hrep, hframe, hwIdx⟩ := copyout_rep h hmax doIncr
        generalize copyout cb nValsMax doIncr = p at *
        obtain ⟨cb₁, vals, m⟩ := p
        cases hret
        dsimp only at hrep hframe hwIdx ⊢
        rw [sizeT_natCast (by omega)]
        refine ⟨⟨_, [], hrep, ?_, fun _ => rfl⟩, fun h' => ?_, ?_, rfl, ?_, by omega, ?_⟩
        · cases doIncr <;> simp
        · rw [ho] at h'
          cases h'
        · rw [hwIdx]
          simp
        · simp
        · rfl
      · rw [if_neg ho]
        exact hnone _
    · rw [if_neg hpos]
      exact hnone _
  · rw [if_neg hsz]
    exact hnone _

/-! ## The segments -/

/-- The end of a wait changes the bookkeeping of waiters only. -/
theorem leaveWait_eq (cb : Cbuffer α) (ret : Result) :
    ∃ n b k, (leaveWait cb ret).1 =
      { cb with nWaiters := n, isAwakened := b, condAwakened := k } := by
  unfold leaveWait awaken
  dsimp only
  split
  · split
    · split
      · exact ⟨_, _, _, rfl⟩
      · exact ⟨_, _, _, rfl⟩
    · exact ⟨_, _, _, rfl⟩
  · exact ⟨_, _, _, rfl⟩

theorem start_putN_loop [Zero α] {vals : List α} {valsz : Nat} {nsec now : Chrono}
    (h : valsz = cb.elementSize ∧ 0 < vals.length ∧ nsec ≠ 0) :
    start cb (.putN vals valsz nsec) now = putRound cb vals (.init nsec now) now := by
  unfold start
  exact if_pos h

theorem start_putN_now [Zero α] {vals : List α} {valsz : Nat} {nsec now : Chrono}
    (h : ¬ (valsz = cb.elementSize ∧ 0 < vals.length ∧ nsec ≠ 0)) :
    start cb (.putN vals valsz nsec) now = ⟨(putNow cb vals valsz).1,
      vals.take (putNow cb vals valsz).2.1.toNat, [],
      .done (putNow cb vals valsz).2.1 (putNow cb vals valsz).2.2 []⟩ := by
  unfold start
  refine (if_neg h).trans ?_
  generalize putNow cb vals valsz = p
  rfl

theorem start_getN_loop [Zero α] {nValsMax nAtLeast valsz : Nat} {nsec now : Chrono} {doIncr : Bool}
    (h : valsz = cb.elementSize ∧ 0 < nValsMax ∧ nsec ≠ 0) :
    start cb (.getN nValsMax nAtLeast valsz nsec doIncr) now =
      getRound cb nValsMax (needed nValsMax nAtLeast nsec) doIncr (.init nsec now) now := by
  unfold start
  exact if_pos h

theorem start_getN_now [Zero α] {nValsMax nAtLeast valsz : Nat} {nsec now : Chrono} {doIncr : Bool}
    (h : ¬ (valsz = cb.elementSize ∧ 0 < nValsMax ∧ nsec ≠ 0)) :
    start cb (.getN nValsMax nAtLeast valsz nsec doIncr) now =
      ⟨(getNow cb nValsMax valsz doIncr).1,
      [], if doIncr then (getNow cb nValsMax valsz doIncr).2.2.2 else [],
      .done (getNow cb nValsMax valsz doIncr).2.1 (getNow cb nValsMax valsz doIncr).2.2.1
        (getNow cb nValsMax valsz doIncr).2.2.2⟩ := by
  unfold start
  refine (if_neg h).trans ?_
  generalize getNow cb nValsMax valsz doIncr = p
  rfl

theorem start_ok [Zero α] {now : Chrono} (h : Rep cb q) (hc : c.exchanges)
    (hw : cb.wIdx + (start cb c now).ins.length < 2 ^ 63) :
    SegOk c cb q [] [] (start cb c now) := by
  cases c with
  | putN vals valsz nsec =>
    by_cases hloop : valsz = cb.elementSize ∧ 0 < vals.length ∧ nsec ≠ 0
    · rw [start_putN_loop hloop] at hw ⊢
      exact putRound_ok h hc (Int.le_refl 0) ⟨rfl, Nat.zero_le _, rfl⟩ hw
    · rw [start_putN_now hloop] at hw ⊢
      exact putNow_ok h hc hw
  | getN nValsMax nAtLeast valsz nsec doIncr =>
    by_cases hloop : valsz = cb.elementSize ∧ 0 < nValsMax ∧ nsec ≠ 0
    · rw [start_getN_loop hloop]
      exact getRound_ok h hc (Int.le_refl 0)
        ⟨rfl, rfl, Nat.zero_le _, (ite_self (c := doIncr = true) _).symm⟩
    · rw [start_getN_now hloop]
      exact getNow_ok h hc
  | waitGettable nsec =>
    unfold start
    dsimp only
    split
    · exact .quiet h rfl rfl ⟨rfl, rfl⟩
    · exact .quiet h rfl rfl ⟨Int.le_refl 0, rfl, rfl⟩
  | waitPuttable nsec =>
    unfold start
    dsimp only
    split
    · exact .quiet h rfl rfl ⟨rfl, rfl⟩
    · exact .quiet h rfl rfl ⟨Int.le_refl 0, rfl, rfl⟩
  | wakeup nsec =>
    have hquiet : ∀ ret, SegOk (.wakeup nsec) cb q [] [] (.quiet cb (.done ret 0 [])) :=
      fun ret => .quiet h rfl rfl ⟨rfl, rfl⟩
    unfold start
    dsimp only
    split
    · split
      · split
        · have hrep : Rep { cb with
              isAwakened := true, condGet := cb.condGet + 1, condPut := cb.condPut + 1 } q :=
            h.of_eq rfl rfl rfl rfl rfl rfl rfl rfl
          split
          · exact (wakeupRound_ok hrep ⟨rfl, rfl⟩).of_eq rfl rfl
          · exact .quiet hrep rfl rfl ⟨rfl, rfl⟩
        · exact hquiet _
      · exact hquiet _
    · exact hquiet _
  | clear freeValues => exact hc.elim
  | shutdown freeValues => exact shutdown_ok h ⟨rfl, rfl⟩

theorem resume_putN {vals : List α} {valsz : Nat} {nsec : Chrono} (l : Local α) (ret : Result)
    (waitEnd now : Chrono) :
    resume cb (.putN vals valsz nsec) l ret waitEnd now =
      if (leaveWait cb ret).2 = Result.ok then
        match timeLeft nsec l waitEnd with
        | some timeout =>
          putRound (leaveWait cb ret).1 vals { l with ret := (leaveWait cb ret).2, timeout } now
        | none => .quiet (leaveWait cb ret).1 (.done Result.timedout (sizeT l.nCopy) l.buf)
      else .quiet (leaveWait cb ret).1 (.done (leaveWait cb ret).2 (sizeT l.nCopy) l.buf) := by
  unfold resume
  generalize leaveWait cb ret = p
  rfl

theorem resume_getN {nValsMax nAtLeast valsz : Nat} {nsec : Chrono} {doIncr : Bool} (l : Local α)
    (ret : Result) (waitEnd now : Chrono) :
    resume cb (.getN nValsMax nAtLeast valsz nsec doIncr) l ret waitEnd now =
      if (leaveWait cb ret).2 = Result.ok then
        match timeLeft nsec l waitEnd with
        | some timeout =>
          getRound (leaveWait cb ret).1 nValsMax (needed nValsMax nAtLeast nsec) doIncr
            { l with ret := (leaveWait cb ret).2, timeout } now
        | none => .quiet (leaveWait cb ret).1 (.done Result.timedout (sizeT l.nCopy) l.buf)
      else .quiet (leaveWait cb ret).1 (.done (leaveWait cb ret).2 (sizeT l.nCopy) l.buf) := by
  unfold resume
  generalize leaveWait cb ret = p
  rfl

theorem resume_ok [Zero α] {ret : Result} {waitEnd now : Chrono} (h : Rep cb q) (hc : c.exchanges)
    (hl : 0 ≤ l.nCopy) (hacct : Acct c l.nCopy.toNat l.buf ins rem)
    (hw : cb.wIdx + (resume cb c l ret waitEnd now).ins.length < 2 ^ 63) :
    SegOk c cb q ins rem (resume cb c l ret waitEnd now) := by
  obtain ⟨n, b, k, hleave⟩ := leaveWait_eq cb ret
  have hrep : Rep (leaveWait cb ret).1 q := by
    rw [hleave]
    exact h.of_eq rfl rfl rfl rfl rfl rfl rfl rfl
  have ho : (leaveWait cb ret).1.isOperational = cb.isOperational := by rw [hleave]
  have hwIdx : (leaveWait cb ret).1.wIdx = cb.wIdx := by rw [hleave]
  cases c with
  | putN vals valsz nsec =>
    have hle : l.nCopy.toNat ≤ vals.length := hacct.2.1
    have hlen : vals.length < 2 ^ 63 := hc
    have hsize : sizeT l.nCopy = l.nCopy.toNat := by
      conv => lhs; rw [← Int.toNat_of_nonneg hl]
      exact sizeT_natCast (by omega)
    rw [resume_putN] at hw ⊢
    generalize leaveWait cb ret = p at *
    split
    · rename_i hret
      rw [if_pos hret] at hw
      split
      · rename_i timeout hleft
        rw [hleft, ← hwIdx] at hw
        exact (putRound_ok (l := { l with ret := p.2, timeout }) hrep hc hl hacct hw).of_eq ho hwIdx
      · exact .quiet hrep ho hwIdx (hsize ▸ hacct)
    · exact .quiet hrep ho hwIdx (hsize ▸ hacct)
  | getN nValsMax nAtLeast valsz nsec doIncr =>
    have hle : l.nCopy.toNat ≤ nValsMax := hacct.2.2.1
    have hmax : nValsMax < 2 ^ 63 := hc
    have hsize : sizeT l.nCopy = l.nCopy.toNat := by
      conv => lhs; rw [← Int.toNat_of_nonneg hl]
      exact sizeT_natCast (by omega)
    rw [resume_getN]
    generalize leaveWait cb ret = p at *
    split
    · split
      · rename_i timeout hleft
        exact (getRound_ok (l := { l with ret := p.2, timeout }) hrep hc hl hacct).of_eq ho hwIdx
      · exact .quiet hrep ho hwIdx (hsize ▸ hacct)
    · exact .quiet hrep ho hwIdx (hsize ▸ hacct)
  | waitGettable nsec =>
    unfold resume
    exact .quiet hrep ho hwIdx hacct
  | waitPuttable nsec =>
    unfold resume
    exact .quiet hrep ho hwIdx hacct
  | wakeup nsec =>
    unfold resume
    dsimp only
    split
    · exact wakeupRound_ok h hacct
    · exact .quiet h rfl rfl hacct
  | clear freeValues => exact hc.elim
  | shutdown freeValues =>
    unfold resume
    exact .quiet h rfl rfl hacct

/-! ## The system -/

section System

variable {κ : Type} [DecidableEq κ] {s s' : Calls κ α} {k : κ}

/-- The elements the call `k` inserted so far, in the order of the queue. -/
def Calls.insertedBy (s : Calls κ α) (k : κ) : List α :=
  (s.inserted.filter fun e => e.1 = k).map Prod.snd

/-- The elements the call `k` removed so far, in the order of their removal. -/
def Calls.removedBy (s : Calls κ α) (k : κ) : List α :=
  (s.removed.filter fun e => e.1 = k).map Prod.snd

/-- The account of the call `k` in a state of the system. -/
def PcOk (s : Calls κ α) (k : κ) : Prop :=
  match s.pc k with
  | .outside => s.insertedBy k = [] ∧ s.removedBy k = []
  | .waiting c _ _ _ l => c.exchanges ∧ 0 ≤ l.nCopy ∧
    Acct c l.nCopy.toNat l.buf (s.insertedBy k) (s.removedBy k)
  | .returned c _ nActual buf => Acct c nActual buf (s.insertedBy k) (s.removedBy k)

/-- The invariant. `lost` is what a shutdown threw away. -/
structure Inv (s : Calls κ α) : Prop where
  rep : ∃ q lost, Rep s.cb q ∧
    s.inserted.map Prod.snd = s.removed.map Prod.snd ++ (q ++ lost) ∧
    (s.cb.isOperational = true → lost = [])
  wIdx : s.cb.wIdx ≤ s.inserted.length
  pcs : ∀ k, PcOk s k

theorem insertedBy_commit (s : Calls κ α) (k k' : κ) (c : Call α) (seg : Segment α) :
    (commit s k c seg).insertedBy k' =
      if k' = k then s.insertedBy k ++ seg.ins else s.insertedBy k' := by
  unfold Calls.insertedBy commit
  by_cases hk : k' = k
  · subst hk
    simp [List.filter_append, List.filter_map, Function.comp_def]
  · simp [List.filter_append, List.filter_map, Function.comp_def, hk, Ne.symm hk]

theorem removedBy_commit (s : Calls κ α) (k k' : κ) (c : Call α) (seg : Segment α) :
    (commit s k c seg).removedBy k' =
      if k' = k then s.removedBy k ++ seg.rem else s.removedBy k' := by
  unfold Calls.removedBy commit
  by_cases hk : k' = k
  · subst hk
    simp [List.filter_append, List.filter_map, Function.comp_def]
  · simp [List.filter_append, List.filter_map, Function.comp_def, hk, Ne.symm hk]

theorem enterWait_eq (cb : Cbuffer α) (cond : Cond) :
    ∃ n, enterWait cb cond = { cb with nWaiters := n } := by
  cases cond <;> exact ⟨_, rfl⟩

/-- The record after a segment, up to the number of waiters. -/
theorem commit_cb (s : Calls κ α) (k : κ) (c : Call α) (seg : Segment α) :
    ∃ n, (commit s k c seg).cb = { seg.cb with nWaiters := n } := by
  unfold commit
  dsimp only
  split
  · exact enterWait_eq _ _
  · exact ⟨seg.cb.nWaiters, rfl⟩

/-- A segment keeps the invariant. -/
theorem Inv.commit {seg : Segment α} (h : Inv s) (hc : c.exchanges)
    (hseg : ∀ q, Rep s.cb q → SegOk c s.cb q (s.insertedBy k) (s.removedBy k) seg) :
    Inv (commit s k c seg) := by
  obtain ⟨q, lost, hrep, hlog, hlost⟩ := h.rep
  have hok := hseg q hrep
  obtain ⟨n, hcb⟩ := commit_cb s k c seg
  obtain ⟨q', lost', hrep', hmove, hlost'⟩ := hok.rep
  refine ⟨⟨q', lost' ++ lost, ?_, ?_, ?_⟩, ?_, fun k' => ?_⟩
  · rw [hcb]
    exact hrep'.of_eq rfl rfl rfl rfl rfl rfl rfl rfl
  · show (s.inserted ++ _).map _ = (s.removed ++ _).map _ ++ _
    rw [List.map_append, List.map_append, List.map_map, List.map_map]
    simp only [Function.comp_def, List.map_id']
    by_cases ho : s.cb.isOperational = true
    · rw [hlog, hlost ho, List.append_nil, List.append_nil, List.append_assoc, hmove,
        List.append_assoc]
    · obtain ⟨-, hins, hrem⟩ := hok.stopped (by simpa using ho)
      rw [hins, hrem, List.append_nil, List.nil_append] at hmove
      rw [hlog, hins, hrem, hmove]
      simp
  · intro ho
    rw [hcb] at ho
    rw [hlost' ho]
    by_cases ho' : s.cb.isOperational = true
    · rw [hlost ho']
      rfl
    · have := (hok.stopped (by simpa using ho')).1
      rw [show seg.cb.isOperational = true from ho] at this
      cases this
  · have := h.wIdx
    have := hok.wIdx
    rw [hcb]
    simp only [Cbuffer.commit, List.length_append, List.length_map]
    omega
  · unfold PcOk
    rw [insertedBy_commit, removedBy_commit]
    by_cases hk : k' = k
    · subst hk
      have hnext := hok.next
      simp only [Cbuffer.commit, Function.update_self, if_true]
      revert hnext
      cases seg.next with
      | wait cond nsec l => exact fun hnext => ⟨hc, hnext⟩
      | done ret nActual buf => exact id
    · rw [if_neg hk, if_neg hk]
      simp only [Cbuffer.commit, Function.update_of_ne hk]
      exact h.pcs k'

/-- The calls of the result. -/
def eventOk (_ : Calls κ α) : Event κ α → Prop
  | .call _ c _ => c.exchanges
  | .wake _ _ _ _ => True

variable [Zero α] {e : Event κ α}

/-- Each step runs one segment. -/
theorem step_cases (h : step s e = some s') :
    (∃ k c now, e = .call k c now ∧ s.pc k = .outside ∧
      s' = commit s k c (start s.cb c now)) ∨
    ∃ k c cond since nsec l how waitEnd now, e = .wake k how waitEnd now ∧
      s.pc k = .waiting c cond since nsec l ∧ how.possible s.cb cond since nsec = true ∧
      s' = commit s k c (resume s.cb c l how.result waitEnd now) := by
  cases e with
  | call k c now =>
    simp only [step] at h
    split at h
    · rename_i hpc
      exact .inl ⟨k, c, now, rfl, hpc, (Option.some.inj h).symm⟩
    · cases h
  | wake k how waitEnd now =>
    simp only [step] at h
    split at h
    · rename_i c cond since nsec l hpc
      split at h
      · rename_i hhow
        exact .inr ⟨k, c, cond, since, nsec, l, how, waitEnd, now, rfl, hpc, hhow,
          (Option.some.inj h).symm⟩
      · cases h
    · cases h

/-- The logs only grow. -/
theorem inserted_le (h : step s e = some s') : s.inserted.length ≤ s'.inserted.length := by
  obtain ⟨k, c, now, -, -, rfl⟩ | ⟨k, c, cond, since, nsec, l, how, waitEnd, now, -, -, -, rfl⟩ :=
    step_cases h <;> simp [Cbuffer.commit]

/-- **One segment of any call keeps the invariant.** -/
theorem Inv.step (h : Inv s) (he : eventOk s e) (hstep : step s e = some s')
    (htotal : s'.inserted.length < 2 ^ 63) : Inv s' := by
  have hw := h.wIdx
  obtain ⟨k, c, now, rfl, hpc, rfl⟩ |
    ⟨k, c, cond, since, nsec, l, how, waitEnd, now, rfl, hpc, -, rfl⟩ := step_cases hstep
  · have hk := h.pcs k
    unfold PcOk at hk
    rw [hpc] at hk
    simp only [Cbuffer.commit, List.length_append, List.length_map] at htotal
    refine h.commit he fun q hrep => ?_
    rw [hk.1, hk.2]
    exact start_ok hrep he (by omega)
  · have hk := h.pcs k
    unfold PcOk at hk
    rw [hpc] at hk
    obtain ⟨hc, hl, hacct⟩ := hk
    simp only [Cbuffer.commit, List.length_append, List.length_map] at htotal
    exact h.commit hc fun q hrep => resume_ok hrep hc hl hacct (by omega)

/-- The invariant of a whole run. -/
theorem Inv.run {es : List (Event κ α)} (h : Inv s) (hrun : Trans.Run Cbuffer.step eventOk s es s')
    (htotal : s'.inserted.length < 2 ^ 63) : Inv s' := by
  have hinv := hrun.inv (I := fun s => s.inserted.length < 2 ^ 63 → Inv s)
    (fun s₁ e s₂ hs he hst ht => (hs (Nat.lt_of_le_of_lt (inserted_le hst) ht)).step he hst ht)
  exact hinv (fun _ => h) htotal

/-- What a call that counted `nActual` elements reports, against what it really moved: a put
inserted a prefix of its buffer in buffer order, a get filled its buffer in the order of removal,
and the count is that of the moved elements. -/
def Reported (c : Call α) (nActual : Nat) (buf ins rem : List α) : Prop :=
  match c with
  | .putN vals _ _ => ins <+: vals ∧ ins.length = nActual ∧ rem = []
  | .getN _ _ _ _ true => rem = buf ∧ rem.length = nActual ∧ ins = []
  | _ => ins = [] ∧ rem = []

omit [Zero α] in
theorem Acct.reported {nActual : Nat} {buf : List α} (h : Acct c nActual buf ins rem) :
    Reported c nActual buf ins rem := by
  cases c with
  | putN vals valsz nsec =>
    obtain ⟨rfl, hle, rfl⟩ := h
    exact ⟨List.take_prefix _ _, by simp [hle], rfl⟩
  | getN nValsMax nAtLeast valsz nsec doIncr =>
    obtain ⟨rfl, rfl, -, rfl⟩ := h
    cases doIncr
    · exact ⟨rfl, rfl⟩
    · exact ⟨rfl, rfl, rfl⟩
  | _ => exact h

/-- **No element is lost or duplicated.** A fresh buffer, any calls in any interleaving, counts
below `2 ^ 63` and less than that many elements in total. What the getters took is a prefix of what
the putters gave, and while the buffer is operational the rest is what it stores; each call, at
every wait and at its return, has counted exactly what it moved. -/
theorem exchange {mallocOk : Nat → Bool} {junk : Nat → α} {elemsize cap : Nat} {hasDelProc : Bool}
    {es : List (Event κ α)} (hfits : sizeofRecord + elemsize * (cap + 1) < 2 ^ 63)
    (hcreate : createWithSize mallocOk junk elemsize cap hasDelProc = (Result.ok, some cb))
    (hrun : Trans.Run step eventOk (Calls.init cb) es s) (htotal : s.inserted.length < 2 ^ 63) :
    s.removed.map Prod.snd <+: s.inserted.map Prod.snd ∧
    (s.cb.isOperational = true → ∃ q, Rep s.cb q ∧
      s.inserted.map Prod.snd = s.removed.map Prod.snd ++ q) ∧
    ∀ k, match s.pc k with
      | .outside => s.insertedBy k = [] ∧ s.removedBy k = []
      | .waiting c _ _ _ l =>
        ∃ n : Nat, l.nCopy = n ∧ Reported c n l.buf (s.insertedBy k) (s.removedBy k)
      | .returned c _ nActual buf =>
        Reported c nActual buf (s.insertedBy k) (s.removedBy k) := by
  obtain ⟨hsim, hw⟩ := sim_createWithSize hfits hcreate
  have hinit : Inv (Calls.init cb : Calls κ α) :=
    ⟨⟨[], [], hsim.rep, rfl, fun _ => rfl⟩, Int.le_of_eq hw, fun k => ⟨rfl, rfl⟩⟩
  have h := hinit.run hrun htotal
  obtain ⟨q, lost, hrep, hlog, hlost⟩ := h.rep
  refine ⟨⟨q ++ lost, hlog.symm⟩, fun ho => ⟨q, hrep, ?_⟩, fun k => ?_⟩
  · rw [hlog, hlost ho, List.append_nil]
  · have hk := h.pcs k
    unfold PcOk at hk
    split at hk
    · exact hk
    · exact ⟨_, (Int.toNat_of_nonneg hk.2.1).symm, hk.2.2.reported⟩
    · exact hk.reported

/-- A get of three elements and a put of three, which wait for each other on a buffer of two. -/
theorem exchange_three :
    let es : List (Event (Fin 2) Nat) :=
      [.call 0 (.getN 3 3 8 (-1) true) 0, .call 1 (.putN [5, 6, 7] 8 9) 1,
        .wake 0 .notified 2 2, .wake 1 .notified 3 3, .wake 0 .spurious 4 4]
    ∃ (cb : Cbuffer Nat) (s : Calls (Fin 2) Nat),
      createWithSize (fun _ => true) (fun _ => 0) 8 (2 : Nat) false = (Result.ok, some cb) ∧
      Trans.run step (Calls.init cb) es = some s ∧ s.removed.map Prod.snd = [5, 6, 7] ∧
      s.removed.map Prod.snd <+: s.inserted.map Prod.snd := by
  intro es
  have hfits : sizeofRecord + 8 * (2 + 1) < 2 ^ 63 := by decide
  obtain ⟨cb, hcreate, hmap⟩ : ∃ cb : Cbuffer Nat,
      createWithSize (fun _ => true) (fun _ => 0) 8 (2 : Nat) false = (Result.ok, some cb) ∧
      (Trans.run step (Calls.init cb) es).map
        (fun s => (s.inserted.length, s.removed.map Prod.snd)) = some (3, [5, 6, 7]) :=
    ⟨_, rfl, by decide⟩
  obtain ⟨s, hrun, hs⟩ := Option.map_eq_some_iff.mp hmap
  obtain ⟨hlen, hrem⟩ := Prod.mk.inj hs
  refine ⟨cb, s, hcreate, hrun, hrem, (exchange hfits hcreate (.of_run ?_ hrun) (by omega)).1⟩
  simp [es, eventOk, Call.exchanges]

/-- Outside these bounds a count is wrong: a get of `2 ^ 63` elements takes nothing and reports
that many. -/
theorem exchange_bounds :
    ∃ (cb : Cbuffer Nat) (s : Calls (Fin 1) Nat),
      createWithSize (fun _ => true) (fun _ => 0) 8 1 false = (Result.ok, some cb) ∧
      Trans.run step (Calls.init cb) [.call 0 (.getN (2 ^ 63) 1 8 (-1) true) 0] = some s ∧
      (∃ c ret, s.pc 0 = .returned c ret (2 ^ 63) []) ∧ s.removedBy 0 = [] :=
  ⟨_, _, rfl, rfl, ⟨_, _, rfl⟩, rfl⟩

end System

end Cbuffer
end Gallus
