import Gallus.Cbuffer.Bounds

/-!
# The branches that must not be reached (`s_put_n`, `s_get_n`)

The loops of `s_put_n` and `s_get_n` have branches commented "Must not happen": there is room but
not all values are put, there is data but not all values are got, an infinite wait times out.

* `Fatal` says that the segment of an event reaches one of them, as the source decides it.
* A put never does, and a get that removes never does: after a copy that was cut short the buffer is
  full, or empty. An infinite wait never times out.
* A peek leaves the data in the buffer, so a copy that was cut short leaves some data there unless
  there was none. `fatal_iff_shortPeek`: exactly a peek that finds some elements but fewer than it
  needs gets there, at its start or after a wait.
-/

namespace Gallus
namespace Cbuffer

variable {α : Type} {cb cb' : Cbuffer α} {l l' : Local α}

/-! ## The branches -/

/-- The branch of the put loop for room that is left although not all values are put. -/
def putRoundFatal (cb : Cbuffer α) (vals : List α) (l : Local α) : Prop :=
  cb.isOperational = true ∧
    sizeT (l.nCopy + (copyin cb (vals.drop (sizeT l.nCopy))).2) < vals.length ∧
    ¬(copyin cb (vals.drop (sizeT l.nCopy))).1.nMaxElements ≤
      (copyin cb (vals.drop (sizeT l.nCopy))).1.nElements

/-- The branch of the get loop for data that is left although not all values are got. -/
def getRoundFatal (cb : Cbuffer α) (nValsMax need : Nat) (doIncr : Bool) (l : Local α) : Prop :=
  cb.isOperational = true ∧
    sizeT (l.nCopy + (copyout cb (sizeT (nValsMax - l.nCopy)) doIncr).2.2) < need ∧
    ¬(copyout cb (sizeT (nValsMax - l.nCopy)) doIncr).1.nElements < 1

/-- The first segment of a call reaches such a branch. -/
def startFatal (cb : Cbuffer α) (now : Chrono) : Call α → Prop
  | .putN vals valsz nsec =>
    (valsz = cb.elementSize ∧ 0 < vals.length ∧ nsec ≠ 0) ∧ putRoundFatal cb vals (.init nsec now)
  | .getN nValsMax nAtLeast valsz nsec doIncr =>
    (valsz = cb.elementSize ∧ 0 < nValsMax ∧ nsec ≠ 0) ∧
      getRoundFatal cb nValsMax (needed nValsMax nAtLeast nsec) doIncr (.init nsec now)
  | _ => False

/-- What the end of a wait leads to: a further round, or the branch for an infinite wait that timed
out. -/
def wakeFatal (nsec : Chrono) (l : Local α) (ret : Result) (waitEnd : Chrono) (round : Prop) :
    Prop :=
  (ret = Result.ok ∧ (timeLeft nsec l waitEnd).isSome = true ∧ round) ∨
    (ret ≠ Result.ok ∧ nsec < 0 ∧ ret = Result.timedout)

/-- The segment of a call after a wait of result `ret` reaches such a branch. -/
def resumeFatal (cb : Cbuffer α) (l : Local α) (ret : Result) (waitEnd : Chrono) : Call α → Prop
  | .putN vals _ nsec =>
    wakeFatal nsec l (leaveWait cb ret).2 waitEnd (putRoundFatal (leaveWait cb ret).1 vals l)
  | .getN nValsMax nAtLeast _ nsec doIncr =>
    wakeFatal nsec l (leaveWait cb ret).2 waitEnd
      (getRoundFatal (leaveWait cb ret).1 nValsMax (needed nValsMax nAtLeast nsec) doIncr l)
  | _ => False

variable {κ : Type}

/-- The segment of an event reaches a branch commented "Must not happen". -/
def Fatal (s : Calls κ α) : Event κ α → Prop
  | .call k c now => s.pc k = .outside ∧ startFatal s.cb now c
  | .wake k how waitEnd _ => ∃ c cond since nsec l,
      s.pc k = .waiting c cond since nsec l ∧ how.possible s.cb cond since nsec = true ∧
        resumeFatal s.cb l how.result waitEnd c

/-- Some elements, but fewer than are needed. -/
def short (cb : Cbuffer α) (nValsMax need : Nat) : Prop :=
  cb.isOperational = true ∧ nValsMax < 2 ^ 63 ∧ 1 ≤ cb.nElements ∧ cb.nElements < need

/-- A peek with a time limit or without an end, that finds the buffer short. -/
def ShortPeek (s : Calls κ α) : Event κ α → Prop
  | .call k (.getN nValsMax nAtLeast valsz nsec false) _ =>
    s.pc k = .outside ∧ valsz = s.cb.elementSize ∧ nsec ≠ 0 ∧
      short s.cb nValsMax (needed nValsMax nAtLeast nsec)
  | .wake k how waitEnd _ => ∃ nValsMax nAtLeast valsz nsec cond since t l,
      s.pc k = .waiting (.getN nValsMax nAtLeast valsz nsec false) cond since t l ∧
        how.possible s.cb cond since t = true ∧ how.result = Result.ok ∧
        s.cb.isAwakened = false ∧ (timeLeft nsec l waitEnd).isSome = true ∧
        short s.cb nValsMax (needed nValsMax nAtLeast nsec)
  | _ => False

/-- The sizes are of type `size_t`, and a get asks for no more than fits. -/
def Call.accepted : Call α → Prop
  | .putN vals _ _ => vals.length < 2 ^ 64
  | .getN nValsMax nAtLeast _ _ _ => nValsMax < 2 ^ 64 ∧ nAtLeast ≤ nValsMax
  | _ => True

def accepted (_ : Calls κ α) : Event κ α → Prop
  | .call _ c _ => c.accepted
  | .wake _ _ _ _ => True

/-! ## One round -/

/-- The values copied so far of `size` ones; a size past the signed range is copied at once. -/
structure RoundOk (size : Nat) (l : Local α) : Prop where
  nonneg : 0 ≤ l.nCopy
  le : l.nCopy ≤ size
  bound : size < 2 ^ 64
  large : 2 ^ 63 ≤ size → l.nCopy = 0

theorem roundOk_init {size : Nat} (h : size < 2 ^ 64) (nsec now : Chrono) :
    RoundOk size (.init nsec now : Local α) :=
  ⟨Int.le_refl 0, Int.natCast_nonneg _, h, fun _ => rfl⟩

section

variable {size need : Nat} {m : Int}

theorem RoundOk.sizeT_nCopy (h : RoundOk size l) : (sizeT l.nCopy : Int) = l.nCopy :=
  sizeT_of_range h.nonneg (by have := h.le; have := h.bound; omega)

/-- What is left to copy. -/
theorem RoundOk.rest (h : RoundOk size l) : (sizeT (size - l.nCopy) : Int) = size - l.nCopy := by
  have hle := h.le
  have hnonneg := h.nonneg
  have hsize := h.bound
  exact sizeT_of_range (by omega) (by omega)

/-- A copy is cut short of what is needed exactly if there is too little for it. -/
theorem RoundOk.short_iff (h : RoundOk size l) (hneed : need ≤ size) (hm : 0 ≤ m) {n : Nat}
    (hn : (n : Int) = size - l.nCopy) :
    sizeT (l.nCopy + min m (i64 n)) < need ↔ size < 2 ^ 63 ∧ l.nCopy + m < need := by
  obtain ⟨hnonneg, hle, hsize, hlarge⟩ := h
  by_cases hbig : 2 ^ 63 ≤ size
  · have hzero := hlarge hbig
    have hnsize : n = size := by omega
    have hneg : i64 n < 0 := i64_natCast_neg (by omega) (by omega)
    have hback : sizeT (i64 n) = n := sizeT_i64 (by omega)
    rw [hzero, Int.zero_add, Int.min_eq_right (by omega), hback]
    omega
  · rw [i64_natCast (by omega)]
    have hback : (sizeT (l.nCopy + min m n) : Int) = l.nCopy + min m n :=
      sizeT_of_range (by omega) (by omega)
    omega

/-- A copy that is cut short takes all there is. -/
theorem RoundOk.takes_all (h : RoundOk size l) (hsize : size < 2 ^ 63) (hm : l.nCopy + m < size)
    {n : Nat} (hn : (n : Int) = size - l.nCopy) : min m (i64 n) = m := by
  have hnonneg := h.nonneg
  rw [i64_natCast (by omega)]
  omega

end

/-- A put that is cut short leaves no room. -/
theorem putRound_short (hb : Bounded cb) {vals : List α} (h : RoundOk vals.length l)
    (hshort : sizeT (l.nCopy + (copyin cb (vals.drop (sizeT l.nCopy))).2) < vals.length) :
    vals.length < 2 ^ 63 ∧
      (copyin cb (vals.drop (sizeT l.nCopy))).2 = cb.nMaxElements - cb.nElements ∧
      l.nCopy + (cb.nMaxElements - cb.nElements) < vals.length ∧
      (copyin cb (vals.drop (sizeT l.nCopy))).1.nMaxElements ≤
        (copyin cb (vals.drop (sizeT l.nCopy))).1.nElements := by
  obtain ⟨hret, hn, hmax⟩ := copyin_counts cb (vals.drop (sizeT l.nCopy))
  have hcopy := h.sizeT_nCopy
  have hle := h.le
  have hlen : ((vals.drop (sizeT l.nCopy)).length : Int) = vals.length - l.nCopy := by
    rw [List.length_drop]
    omega
  have hpos : 0 ≤ cb.nMaxElements - cb.nElements := Int.sub_nonneg_of_le hb.2
  rw [hret, copyinMax_eq, h.short_iff (Nat.le_refl _) hpos hlen] at hshort
  obtain ⟨hsize, hroom⟩ := hshort
  have hall := h.takes_all hsize hroom hlen
  rw [copyinMax_eq, hall] at hret hn
  refine ⟨hsize, hret, hroom, Int.le_of_eq ?_⟩
  rw [hn, hmax, Int.max_eq_right hpos, Int.add_comm, Int.sub_add_cancel]

theorem not_putRoundFatal (hb : Bounded cb) {vals : List α} (h : RoundOk vals.length l) :
    ¬putRoundFatal cb vals l := by
  rintro ⟨-, hshort, hroom⟩
  exact hroom (putRound_short hb h hshort).2.2.2

/-- A get that is cut short takes all there is; a peek leaves it there. -/
theorem getRound_short_iff (hb : Bounded cb) {nValsMax need : Nat} (hneed : need ≤ nValsMax)
    (h : RoundOk nValsMax l) (doIncr : Bool) :
    sizeT (l.nCopy + (copyout cb (sizeT (nValsMax - l.nCopy)) doIncr).2.2) < need ↔
      nValsMax < 2 ^ 63 ∧ l.nCopy + cb.nElements < need := by
  obtain ⟨hret, -⟩ := copyout_counts cb (sizeT (nValsMax - l.nCopy)) doIncr
  rw [hret, copyoutMax_eq, h.short_iff hneed hb.1 h.rest]

theorem getRound_left (hb : Bounded cb) {nValsMax need : Nat} (hneed : need ≤ nValsMax)
    (h : RoundOk nValsMax l) (doIncr : Bool) (hsize : nValsMax < 2 ^ 63)
    (hshort : l.nCopy + cb.nElements < need) :
    (copyout cb (sizeT (nValsMax - l.nCopy)) doIncr).2.2 = cb.nElements ∧
      (copyout cb (sizeT (nValsMax - l.nCopy)) doIncr).1.nElements =
        if doIncr then 0 else cb.nElements := by
  obtain ⟨hret, hn, -⟩ := copyout_counts cb (sizeT (nValsMax - l.nCopy)) doIncr
  have hsize' : l.nCopy + cb.nElements < nValsMax :=
    Int.lt_of_lt_of_le hshort (Int.ofNat_le.mpr hneed)
  have hall := h.takes_all hsize hsize' h.rest
  rw [copyoutMax_eq, hall] at hret hn
  rw [Int.max_eq_right hb.1, Int.sub_self] at hn
  exact ⟨hret, hn⟩

/-- **A round of a get reaches the branch exactly if it peeks at a short buffer.** -/
theorem getRoundFatal_iff (hb : Bounded cb) {nValsMax need : Nat} (hneed : need ≤ nValsMax)
    (h : RoundOk nValsMax l) (doIncr : Bool) (hpeek : doIncr = false → l.nCopy = 0) :
    getRoundFatal cb nValsMax need doIncr l ↔ doIncr = false ∧ short cb nValsMax need := by
  unfold getRoundFatal short
  rw [getRound_short_iff hb hneed h]
  constructor
  · rintro ⟨ho, ⟨hsize, hshort⟩, hleft⟩
    rw [(getRound_left hb hneed h doIncr hsize hshort).2] at hleft
    cases doIncr with
    | true => exact absurd Int.zero_lt_one hleft
    | false =>
      have hzero := hpeek rfl
      simp only [Bool.false_eq_true, if_false] at hleft
      exact ⟨rfl, ho, hsize, by omega, by omega⟩
  · rintro ⟨rfl, ho, hsize, hpos, hlt⟩
    have hzero := hpeek rfl
    have hshort : l.nCopy + cb.nElements < need := by omega
    refine ⟨ho, ⟨hsize, hshort⟩, ?_⟩
    rw [(getRound_left hb hneed h false hsize hshort).2]
    simp only [Bool.false_eq_true, if_false]
    omega

/-! ## What a waiting call keeps -/

/-- A loop that waits is short of `size` values and waits for what is left of its limit, without end
if it has none. -/
structure LoopOk (size : Nat) (nsec t : Chrono) (l : Local α) : Prop where
  nonneg : 0 ≤ l.nCopy
  lt : l.nCopy < size
  bound : size < 2 ^ 63
  limit : t = l.timeout
  infinite : nsec < 0 → l.timeout < 0

/-- What holds of a call in a wait of `t`. -/
def Waits (c : Call α) (t : Chrono) (l : Local α) : Prop :=
  match c with
  | .putN vals _ nsec => LoopOk vals.length nsec t l
  | .getN nValsMax nAtLeast _ nsec doIncr =>
    LoopOk nValsMax nsec t l ∧ nAtLeast ≤ nValsMax ∧ (doIncr = false → l.nCopy = 0)
  | _ => True

theorem LoopOk.roundOk {size : Nat} {nsec t : Chrono} (h : LoopOk size nsec t l) :
    RoundOk size l := by
  obtain ⟨hnonneg, hlt, hbound, -, -⟩ := h
  exact ⟨hnonneg, Int.le_of_lt hlt, by omega, fun hlarge => by omega⟩

theorem RoundOk.woken {size : Nat} (h : RoundOk size l) (ret : Result) (timeout : Chrono) :
    RoundOk size { l with ret, timeout } := ⟨h.nonneg, h.le, h.bound, h.large⟩

theorem putRound_waits (hb : Bounded cb) {vals : List α} {nsec now t : Chrono} {cond : Cond}
    (h : RoundOk vals.length l) (hinf : nsec < 0 → l.timeout < 0)
    (hnext : (putRound cb vals l now).next = .wait cond t l') : LoopOk vals.length nsec t l' := by
  unfold putRound at hnext
  split at hnext
  · have hshort := putRound_short hb h
    generalize copyin cb (vals.drop (sizeT l.nCopy)) = r at hshort hnext
    obtain ⟨cb', n⟩ := r
    dsimp only at hshort hnext
    unfold putNext at hnext
    split_ifs at hnext with hlt
    cases hnext
    obtain ⟨hbound, rfl, hroom, -⟩ := hshort hlt
    have hpos : 0 ≤ cb.nMaxElements - cb.nElements := Int.sub_nonneg_of_le hb.2
    exact ⟨Int.add_nonneg h.nonneg hpos, hroom, hbound, rfl, hinf⟩
  · cases hnext

theorem getRound_waits (hb : Bounded cb) {nValsMax need : Nat} (hneed : need ≤ nValsMax)
    {nsec now t : Chrono} {cond : Cond} {doIncr : Bool} (h : RoundOk nValsMax l)
    (hpeek : doIncr = false → l.nCopy = 0) (hinf : nsec < 0 → l.timeout < 0)
    (hnext : (getRound cb nValsMax need doIncr l now).next = .wait cond t l') :
    LoopOk nValsMax nsec t l' ∧ (doIncr = false → l'.nCopy = 0) := by
  unfold getRound at hnext
  split at hnext
  · have hshort := getRound_short_iff hb hneed h doIncr
    have hleft := getRound_left hb hneed h doIncr
    generalize copyout cb (sizeT (nValsMax - l.nCopy)) doIncr = r at hshort hleft hnext
    obtain ⟨cb', vals, n⟩ := r
    dsimp only at hshort hleft hnext
    unfold getNext at hnext
    split_ifs at hnext with hlt hdata
    cases hnext
    obtain ⟨hbound, htake⟩ := hshort.mp hlt
    obtain ⟨rfl, hrest⟩ := hleft hbound htake
    have hnonneg : 0 ≤ cb.nElements := hb.1
    refine ⟨⟨Int.add_nonneg h.nonneg hnonneg, ?_, hbound, rfl, hinf⟩, ?_⟩
    · exact Int.lt_of_lt_of_le htake (Int.ofNat_le.mpr hneed)
    · rintro rfl
      have hzero := hpeek rfl
      dsimp only at hdata ⊢
      rw [hrest] at hdata
      simp only [Bool.false_eq_true, if_false] at hdata
      omega
  · cases hnext

theorem needed_le {nValsMax nAtLeast : Nat} (h : nAtLeast ≤ nValsMax) (nsec : Chrono) :
    needed nValsMax nAtLeast nsec ≤ nValsMax := by
  unfold needed
  split
  · exact Nat.le_refl _
  · exact h

theorem timeout_init {nsec now : Chrono} (h : nsec < 0) :
    (Local.init nsec now : Local α).timeout < 0 := by
  show (if nsec < 0 then (-1 : Int) else nsec) < 0
  rw [if_pos h]
  decide

/-- A loop without a limit goes on with the time it had. -/
theorem timeout_left {nsec waitEnd timeout : Chrono} (hinf : nsec < 0 → l.timeout < 0)
    (hleft : timeLeft nsec l waitEnd = some timeout) : nsec < 0 → timeout < 0 := by
  intro h
  unfold timeLeft at hleft
  rw [if_pos h] at hleft
  cases hleft
  exact hinf h

variable {c : Call α} {cond : Cond} {t : Chrono}

theorem start_waits [Zero α] (hb : Bounded cb) {now : Chrono} (hc : c.accepted)
    (hnext : (start cb c now).next = .wait cond t l) : Waits c t l := by
  cases c with
  | putN vals valsz nsec =>
    by_cases hloop : valsz = cb.elementSize ∧ 0 < vals.length ∧ nsec ≠ 0
    · rw [start_putN_loop hloop] at hnext
      exact putRound_waits hb (roundOk_init hc nsec now) timeout_init hnext
    · rw [start_putN_now hloop] at hnext
      cases hnext
  | getN nValsMax nAtLeast valsz nsec doIncr =>
    by_cases hloop : valsz = cb.elementSize ∧ 0 < nValsMax ∧ nsec ≠ 0
    · rw [start_getN_loop hloop] at hnext
      obtain ⟨hl, hpeek⟩ := getRound_waits hb (needed_le hc.2 nsec) (roundOk_init hc.1 nsec now)
        (fun _ => rfl) timeout_init hnext
      exact ⟨hl, hc.2, hpeek⟩
    · rw [start_getN_now hloop] at hnext
      cases hnext
  | _ => trivial

theorem bounded_leaveWait (hb : Bounded cb) (ret : Result) : Bounded (leaveWait cb ret).1 :=
  (serving_counted.leaveWait cb ret).2 hb

theorem resume_waits (hb : Bounded cb) {ret : Result} {waitEnd now t' : Chrono}
    (h : Waits c t l) (hnext : (resume cb c l ret waitEnd now).next = .wait cond t' l') :
    Waits c t' l' := by
  have hb' := bounded_leaveWait hb ret
  cases c with
  | putN vals valsz nsec =>
    rw [resume_putN] at hnext
    split at hnext
    · split at hnext
      · next timeout hleft =>
        refine putRound_waits hb' ?_ ?_ hnext
        · exact h.roundOk.woken _ _
        · exact timeout_left h.infinite hleft
      · cases hnext
    · cases hnext
  | getN nValsMax nAtLeast valsz nsec doIncr =>
    obtain ⟨hl, hleast, hpeek⟩ := h
    rw [resume_getN] at hnext
    split at hnext
    · split at hnext
      · next timeout hleft =>
        have hround := getRound_waits hb' (needed_le hleast nsec) (hl.roundOk.woken _ timeout)
          hpeek (timeout_left hl.infinite hleft) hnext
        exact ⟨hround.1, hleast, hround.2⟩
      · cases hnext
    · cases hnext
  | _ => trivial

/-! ## Which segments get there -/

theorem startFatal_iff (hb : Bounded cb) {now : Chrono} (hc : c.accepted) :
    startFatal cb now c ↔ ∃ nValsMax nAtLeast nsec,
      c = .getN nValsMax nAtLeast cb.elementSize nsec false ∧ nsec ≠ 0 ∧
        short cb nValsMax (needed nValsMax nAtLeast nsec) := by
  cases c with
  | putN vals valsz nsec =>
    constructor
    · rintro ⟨-, hfatal⟩
      exact absurd hfatal (not_putRoundFatal hb (roundOk_init hc nsec now))
    · rintro ⟨_, _, _, h, -⟩
      cases h
  | getN nValsMax nAtLeast valsz nsec doIncr =>
    have hround := getRoundFatal_iff hb (needed_le hc.2 nsec) (roundOk_init hc.1 nsec now)
      doIncr (fun _ => rfl)
    unfold startFatal
    dsimp only
    rw [hround]
    constructor
    · rintro ⟨⟨rfl, -, hnsec⟩, rfl, hshort⟩
      exact ⟨nValsMax, nAtLeast, nsec, rfl, hnsec, hshort⟩
    · rintro ⟨_, _, _, h, hnsec, hshort⟩
      cases h
      have hneed := needed_le hc.2 nsec
      have hpos := hshort.2.2.1
      have hlt := hshort.2.2.2
      exact ⟨⟨rfl, by omega, hnsec⟩, rfl, hshort⟩
  | _ =>
    constructor
    · exact False.elim
    · rintro ⟨_, _, _, h, -⟩
      cases h

/-- A wait goes on only if it ended well with the flag clear. -/
theorem leaveWait_ok_iff (cb : Cbuffer α) (ret : Result) :
    (leaveWait cb ret).2 = Result.ok ↔ ret = Result.ok ∧ cb.isAwakened = false := by
  unfold leaveWait
  dsimp only
  cases hflag : cb.isAwakened with
  | true =>
    by_cases hret : ret = Result.ok
    · rw [if_pos ⟨hret, rfl⟩]
      split <;> simp [Result.wakeupRequested, Result.notOperational, Result.ok]
    · simp [hret]
  | false => simp

/-- Who times out was not told otherwise. -/
theorem leaveWait_timedout {ret : Result} (h : (leaveWait cb ret).2 = Result.timedout) :
    ret = Result.timedout := by
  unfold leaveWait at h
  dsimp only at h
  split at h
  · split at h
    · cases h
    · cases h
  · exact h

theorem short_leaveWait (ret : Result) (nValsMax need : Nat) :
    short (leaveWait cb ret).1 nValsMax need ↔ short cb nValsMax need := by
  obtain ⟨n, b, k, heq⟩ := leaveWait_eq cb ret
  rw [heq]
  rfl

theorem resumeFatal_iff (hb : Bounded cb) {cond : Cond} {since : Nat} {how : Wake}
    {waitEnd : Chrono} (h : Waits c t l) (hhow : how.possible cb cond since t = true) :
    resumeFatal cb l how.result waitEnd c ↔ ∃ nValsMax nAtLeast valsz nsec,
      c = .getN nValsMax nAtLeast valsz nsec false ∧ how.result = Result.ok ∧
        cb.isAwakened = false ∧ (timeLeft nsec l waitEnd).isSome = true ∧
        short cb nValsMax (needed nValsMax nAtLeast nsec) := by
  have hb' := bounded_leaveWait hb how.result
  -- a wait without end does not time out
  have hinf : ∀ {size : Nat} {nsec : Chrono}, LoopOk size nsec t l → nsec < 0 →
      (leaveWait cb how.result).2 = Result.timedout → False := by
    intro size nsec hl hneg hret
    have hto := hl.infinite hneg
    rw [← hl.limit] at hto
    cases how with
    | timedout =>
      have hlim : 0 ≤ t := of_decide_eq_true hhow
      exact Int.not_lt.mpr hlim hto
    | notified => exact absurd (leaveWait_timedout hret) (by decide)
    | spurious => exact absurd (leaveWait_timedout hret) (by decide)
  cases c with
  | putN vals valsz nsec =>
    constructor
    · rintro (⟨-, -, hfatal⟩ | ⟨-, hneg, hret⟩)
      · exact absurd hfatal (not_putRoundFatal hb' h.roundOk)
      · exact absurd hret (hinf h hneg)
    · rintro ⟨_, _, _, _, hc, -⟩
      cases hc
  | getN nValsMax nAtLeast valsz nsec doIncr =>
    obtain ⟨hl, hleast, hpeek⟩ := h
    have hround := getRoundFatal_iff hb' (needed_le hleast nsec) hl.roundOk doIncr hpeek
    unfold resumeFatal wakeFatal
    dsimp only
    rw [hround, short_leaveWait, leaveWait_ok_iff]
    constructor
    · rintro (⟨⟨hret, hflag⟩, hleft, rfl, hshort⟩ | ⟨-, hneg, hret⟩)
      · exact ⟨nValsMax, nAtLeast, valsz, nsec, rfl, hret, hflag, hleft, hshort⟩
      · exact absurd hret (hinf hl hneg)
    · rintro ⟨_, _, _, _, hc, hret, hflag, hleft, hshort⟩
      cases hc
      exact .inl ⟨⟨hret, hflag⟩, hleft, rfl, hshort⟩
  | _ =>
    constructor
    · exact False.elim
    · rintro ⟨_, _, _, _, hc, -⟩
      cases hc

/-! ## The system -/

variable [DecidableEq κ] {s s' : Calls κ α} {e : Event κ α} {es : List (Event κ α)}

/-- The invariant of the loops. -/
structure Looping (s : Calls κ α) : Prop where
  bounded : Bounded s.cb
  waits : ∀ k c cond since t l, s.pc k = .waiting c cond since t l → Waits c t l

/-- **Each segment of an accepted call keeps the invariant.** -/
theorem Looping.step [Zero α] (h : Looping s) (he : accepted s e) (hs : step s e = some s') :
    Looping s' := by
  refine ⟨(counted_step hs).2 h.bounded, ?_⟩
  intro k' c' cond' since' t' l' hpc'
  obtain ⟨k, c, now, rfl, hpc, rfl⟩ |
    ⟨k, c, cond, since, nsec, l, how, waitEnd, now, rfl, hpc, -, rfl⟩ := step_cases hs
  · obtain ⟨rfl, rfl, -, hnext⟩ | ⟨-, hpc'⟩ := commit_waiting hpc'
    · exact start_waits h.bounded he hnext
    · exact h.waits k' c' cond' since' t' l' hpc'
  · obtain ⟨rfl, rfl, -, hnext⟩ | ⟨-, hpc'⟩ := commit_waiting hpc'
    · exact resume_waits h.bounded (h.waits _ _ _ _ _ _ hpc) hnext
    · exact h.waits k' c' cond' since' t' l' hpc'

theorem Looping.run [Zero α] (h : Looping s) (hrun : Trans.Run Cbuffer.step accepted s es s') :
    Looping s' := hrun.inv (fun _ _ _ hs he hst => hs.step he hst) h

omit [DecidableEq κ] in
theorem Looping.fatal_iff (h : Looping s) (he : accepted s e) : Fatal s e ↔ ShortPeek s e := by
  cases e with
  | call k c now =>
    unfold Fatal
    dsimp only
    rw [startFatal_iff h.bounded he]
    constructor
    · rintro ⟨hpc, nValsMax, nAtLeast, nsec, rfl, hnsec, hshort⟩
      exact ⟨hpc, rfl, hnsec, hshort⟩
    · intro hpeek
      unfold ShortPeek at hpeek
      split at hpeek
      · next heq =>
        cases heq
        obtain ⟨hpc, rfl, hnsec, hshort⟩ := hpeek
        exact ⟨hpc, _, _, _, rfl, hnsec, hshort⟩
      · next heq => cases heq
      · exact hpeek.elim
  | wake k how waitEnd now =>
    constructor
    · rintro ⟨c, cond, since, t, l, hpc, hhow, hfatal⟩
      rw [resumeFatal_iff h.bounded (h.waits _ _ _ _ _ _ hpc) hhow] at hfatal
      obtain ⟨nValsMax, nAtLeast, valsz, nsec, rfl, hrest⟩ := hfatal
      exact ⟨_, _, _, _, _, _, _, _, hpc, hhow, hrest⟩
    · rintro ⟨nValsMax, nAtLeast, valsz, nsec, cond, since, t, l, hpc, hhow, hrest⟩
      refine ⟨_, _, _, _, _, hpc, hhow, ?_⟩
      rw [resumeFatal_iff h.bounded (h.waits _ _ _ _ _ _ hpc) hhow]
      exact ⟨_, _, _, _, rfl, hrest⟩

/-- A peek that needs more than there is waits exactly if there is nothing. -/
theorem start_peek_waits [Zero α] (hb : Bounded cb) {nValsMax nAtLeast : Nat} {nsec : Chrono}
    (now : Chrono) (hsize : nValsMax < 2 ^ 63) (hleast : nAtLeast ≤ nValsMax) (hnsec : nsec ≠ 0)
    (ho : cb.isOperational = true) (hmore : cb.nElements < needed nValsMax nAtLeast nsec) :
    (∃ cond t l, (start cb (.getN nValsMax nAtLeast cb.elementSize nsec false) now).next =
      .wait cond t l) ↔ cb.nElements = 0 := by
  have hneed := needed_le hleast nsec
  have hpos := hb.1
  have hround : RoundOk nValsMax (.init nsec now : Local α) := roundOk_init (by omega) nsec now
  have hshort : (Local.init nsec now : Local α).nCopy + cb.nElements <
      needed nValsMax nAtLeast nsec := by
    show (0 : Int) + cb.nElements < _
    omega
  have hcut := (getRound_short_iff hb hneed hround false).mpr ⟨hsize, hshort⟩
  obtain ⟨-, hleft⟩ := getRound_left hb hneed hround false hsize hshort
  simp only [Bool.false_eq_true, if_false] at hleft
  rw [start_getN_loop ⟨rfl, by omega, hnsec⟩]
  unfold getRound
  rw [if_pos ho]
  generalize copyout cb (sizeT (nValsMax - (Local.init nsec now : Local α).nCopy)) false = r
    at hcut hleft ⊢
  obtain ⟨cb', vals, n⟩ := r
  dsimp only at hcut hleft ⊢
  unfold getNext
  rw [if_pos hcut, hleft]
  split
  · exact ⟨fun _ => by omega, fun _ => ⟨_, _, _, rfl⟩⟩
  · refine ⟨?_, fun hzero => by omega⟩
    rintro ⟨_, _, _, hnext⟩
    cases hnext

/-- **The branches that must not be reached are reached exactly by short peeks.** A fresh buffer,
and any calls in any interleaving whose sizes are of type `size_t` and that ask for no more than
fits: a segment gets there exactly if it is one of a peek with `nsec ≠ 0` that finds the buffer
operational, with some elements but fewer than it needs. And a peek that needs more than there is
waits as documented exactly if it is not such a one. -/
theorem fatal_iff_shortPeek [Zero α] {mallocOk : Nat → Bool} {junk : Nat → α} {elemsize : Nat}
    {maxelems : Int} {hasDelProc : Bool}
    (hcreate : createWithSize mallocOk junk elemsize maxelems hasDelProc = (Result.ok, some cb))
    (hrun : Trans.Run step accepted (Calls.init cb) es s) :
    (∀ e, accepted s e → (Fatal s e ↔ ShortPeek s e)) ∧
      ∀ k nValsMax nAtLeast nsec now, s.pc k = .outside → nValsMax < 2 ^ 63 →
        nAtLeast ≤ nValsMax → nsec ≠ 0 → s.cb.isOperational = true →
        s.cb.nElements < needed nValsMax nAtLeast nsec →
        ((∃ cond t l, (start s.cb (.getN nValsMax nAtLeast s.cb.elementSize nsec false) now).next =
            .wait cond t l) ↔
          ¬ShortPeek s (.call k (.getN nValsMax nAtLeast s.cb.elementSize nsec false) now)) := by
  have hinit : Looping (Calls.init cb : Calls κ α) :=
    ⟨bounded_createWithSize hcreate, fun k c cond since t l hpc => by cases hpc⟩
  have h := hinit.run hrun
  refine ⟨fun e he => h.fatal_iff he, ?_⟩
  intro k nValsMax nAtLeast nsec now hpc hsize hleast hnsec ho hmore
  rw [start_peek_waits h.bounded now hsize hleast hnsec ho hmore]
  have hpos := h.bounded.1
  constructor
  · rintro hzero ⟨-, -, -, -, -, hone, -⟩
    omega
  · intro hnot
    by_contra hne
    exact hnot ⟨hpc, rfl, hnsec, ho, hsize, by omega, hmore⟩

/-- Two elements are peeked at, one at first. -/
theorem fatal_iff_shortPeek_waits :
    ∃ (cb : Cbuffer Nat) (s : Calls (Fin 2) Nat),
      createWithSize (fun _ => true) (fun _ => 0) 8 4 false = (Result.ok, some cb) ∧
      Trans.run step (Calls.init cb) [.call 0 (.getN 2 2 8 (-1) false) 0] = some s ∧
      accepted s (.wake 0 .spurious 1 1) ∧ ¬Fatal s (.wake 0 .spurious 1 1) := by
  obtain ⟨cb, hcreate, hmap⟩ : ∃ cb : Cbuffer Nat,
      createWithSize (fun _ => true) (fun _ => 0) 8 4 false = (Result.ok, some cb) ∧
      (Trans.run step (Calls.init cb : Calls (Fin 2) Nat)
        [.call 0 (.getN 2 2 8 (-1) false) 0]).map (fun s => s.cb.nElements) = some 0 :=
    ⟨_, rfl, by decide⟩
  obtain ⟨s, hrun, hzero⟩ := Option.map_eq_some_iff.mp hmap
  have hok : Trans.Run step accepted (Calls.init cb) [.call 0 (.getN 2 2 8 (-1) false) 0] s :=
    .of_run (by simp [accepted, Call.accepted]) hrun
  have hiff := (fatal_iff_shortPeek hcreate hok).1 (.wake 0 .spurious 1 1) trivial
  refine ⟨cb, s, hcreate, hrun, trivial, fun hfatal => ?_⟩
  obtain ⟨_, _, _, _, _, _, _, _, -, -, -, -, -, -, -, hpos, -⟩ := hiff.mp hfatal
  omega

/-- A peek without a time limit for two elements, one of which is queued: it fails instead of
waiting. -/
theorem fatal_reached :
    ∃ (cb : Cbuffer Nat) (s : Calls (Fin 2) Nat),
      createWithSize (fun _ => true) (fun _ => 0) 8 4 false = (Result.ok, some cb) ∧
      Trans.run step (Calls.init cb) [.call 0 (.putN [7] 8 0) 0] = some s ∧
      accepted s (.call 1 (.getN 2 2 8 (-1) false) 1) ∧
      Fatal s (.call 1 (.getN 2 2 8 (-1) false) 1) ∧
      (start s.cb (.getN 2 2 8 (-1) false) 1).next = .done Result.anyFailures 1 [7] := by
  refine ⟨_, _, rfl, rfl, ⟨by decide, by decide⟩, ⟨rfl, ⟨?_, ?_⟩⟩, rfl⟩
  · exact ⟨rfl, by decide, by decide⟩
  · exact ⟨rfl, by decide, by decide⟩

end Cbuffer
end Gallus
