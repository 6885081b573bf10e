import Gallus.Qmuxer.Notified

/-!
# The count of the queues that are ready (`s_qmx_setup_for_poll`)

A pass over the poll objects counts those whose queue has one of the requested events at the
moment. Whether it has is decided by `cbuffer_setup_for_qmuxer`, which returns what has to be waited
for, and 0 for nothing.

* `setupLoop` is the loop of the pass, on the state that each queue has in its iteration.
  `setupPoll_iter`: a step of the muxer is one iteration of it.
* `ready` is what the count should be of. `halfReady`: both events are requested and one of the two
  is there. Then the queue is waited for as if that event had not been requested.
* `setupLoop_count`: the count is that of the ready polls less the half ready ones.
  `setupLoop_counts_ready_iff`: so it is right exactly if there are none of these.
-/

namespace Gallus
namespace Qmuxer

open Cbuffer

variable {α β : Type}

/-- `GALLUS_QMUXER_POLL_BOTH`. -/
def pollTypeBoth : PollEvent := 3

/-- `IS_VALID_POLL_TYPE`. -/
def isValidPollType (type : PollEvent) : Prop := pollUnknown < type ∧ type ≤ pollTypeBoth

/-! ## The loop -/

/-- A poll object of the array, and the state of its queue in its iteration. -/
abbrev View (β α : Type) := Option (Poll β) × Cbuffer α

/-- One iteration: `n_nulls` and `nev` after it, or the result of the function. -/
def setupIter (isPre : Bool) (qmx : Nat) (v : View β α) (nNulls nev : Nat) :
    Except Result (Nat × Nat) :=
  match v.1 with
  | some p =>
    match p.bbq with
    | some _ =>
      let st := (setupForQmuxer v.2 qmx p isPre).2.2
      if isPre = true ∧ st < 0 then .error st
      else .ok (nNulls, if st = 0 then nev + 1 else nev)
    | none => .ok (nNulls + 1, nev)
  | none => if isPre then .error Result.invalidArgs else .ok (nNulls, nev)

/-- The loop. -/
def setupLoop (isPre : Bool) (qmx : Nat) : List (View β α) → Nat → Nat → Except Result (Nat × Nat)
  | [], nNulls, nev => .ok (nNulls, nev)
  | v :: vs, nNulls, nev =>
    match setupIter isPre qmx v nNulls nev with
    | .ok (nNulls, nev) => setupLoop isPre qmx vs nNulls nev
    | .error ret => .error ret

/-- **A step of the muxer is one iteration**, on the state that the queue has then. -/
theorem setupPoll_iter {κ : Type} [DecidableEq β] (s : Muxer β κ α) (isPre : Bool)
    {i nNulls nev : Nat} {po : Option (Poll β)} {cb : Cbuffer α} (hpo : s.polls[i]? = some po)
    (hcb : ∀ p b, po = some p → p.bbq = some b → (s.queues b).cb = cb) :
    match setupIter isPre s.qmx (po, cb) nNulls nev with
    | .ok (nNulls', nev') => ∃ s₁ : Muxer β κ α, s₁.qmx = s.qmx ∧
        s₁.polls.length = s.polls.length ∧
        s.setupPoll isPre i nNulls nev = s₁.setupNext isPre (i + 1) nNulls' nev'
    | .error ret =>
      (s.setupPoll isPre i nNulls nev).point = .idle ∧
        (s.setupPoll isPre i nNulls nev).ret = ret := by
  unfold Muxer.setupPoll setupIter
  rw [hpo]
  cases po with
  | none =>
    cases isPre with
    | true => exact ⟨rfl, rfl⟩
    | false => exact ⟨s, rfl, rfl, rfl⟩
  | some p =>
    dsimp only
    cases hb : p.bbq with
    | none =>
      dsimp only
      refine ⟨_, ?_, ?_, rfl⟩
      · rfl
      · exact List.length_set
    | some b =>
      dsimp only
      rw [hcb p b rfl hb]
      generalize setupForQmuxer cb s.qmx p isPre = r
      obtain ⟨cb', p', st⟩ := r
      dsimp only
      by_cases hst : isPre = true ∧ st < 0
      · simp only [if_pos hst]
        exact ⟨rfl, rfl⟩
      · simp only [if_neg hst]
        refine ⟨_, ?_, ?_, rfl⟩
        · rfl
        · exact List.length_set

/-! ## Readiness -/

/-- The queue has a requested event at the moment. -/
def ready (v : View β α) : Bool :=
  match v.1 with
  | some p => p.bbq.isSome && v.2.isOperational &&
      (needWaitReadable p.type && decide (0 < v.2.nElements) ||
        needWaitWritable p.type && decide (v.2.nElements < v.2.nMaxElements))
  | none => false

/-- Both events are requested of a queue that is empty or full. -/
def halfReady (v : View β α) : Bool :=
  match v.1 with
  | some p => p.bbq.isSome && v.2.isOperational && (p.type == pollTypeBoth) &&
      (decide (v.2.nElements = 0) || decide (v.2.nElements = v.2.nMaxElements))
  | none => false

theorem ready_iff {p : Poll β} {cb : Cbuffer α} : ready (some p, cb) = true ↔
    (p.bbq.isSome = true ∧ cb.isOperational = true) ∧
      (needWaitReadable p.type = true ∧ 0 < cb.nElements ∨
        needWaitWritable p.type = true ∧ cb.nElements < cb.nMaxElements) := by
  simp only [ready, Bool.and_eq_true, Bool.or_eq_true, decide_eq_true_eq]

theorem halfReady_iff {p : Poll β} {cb : Cbuffer α} : halfReady (some p, cb) = true ↔
    (p.bbq.isSome = true ∧ cb.isOperational = true) ∧
      (p.type = pollTypeBoth ∧ (cb.nElements = 0 ∨ cb.nElements = cb.nMaxElements)) := by
  simp only [halfReady, Bool.and_eq_true, Bool.or_eq_true, decide_eq_true_eq, beq_iff_eq, and_assoc]

/-- A state that a buffer can reach by calls and registrations. -/
def Reached [Zero α] (cb : Cbuffer α) : Prop :=
  ∃ mallocOk junk elemsize maxelems hasDelProc cb₀ es, ∃ s : Calls Nat α,
    createWithSize mallocOk junk elemsize maxelems hasDelProc = (Result.ok, some cb₀) ∧
      Trans.run bufferStep (Calls.init cb₀) es = some s ∧ s.cb = cb

theorem Reached.roomy [Zero α] {cb : Cbuffer α} (h : Reached cb) : Roomy cb := by
  obtain ⟨_, _, _, _, _, cb₀, es, s, hcreate, hrun, rfl⟩ := h
  exact (Trans.Run.all_iff.mpr hrun).inv (I := fun s => Roomy s.cb) (fun _ _ _ h _ hs => h.step hs)
    (roomy_createWithSize hcreate)

/-- A valid poll of a queue in a state that it can reach. -/
def Pollable [Zero α] (v : View β α) : Prop :=
  ∀ p, v.1 = some p → p.bbq.isSome = true → isValidPollType p.type ∧ Reached v.2

theorem isValidPollType_cases {type : PollEvent} (h : isValidPollType type) :
    type = pollReadable ∨ type = pollWritable ∨ type = pollTypeBoth := by
  obtain ⟨hpos, hle⟩ := h
  match type, hpos, hle with
  | 1, _, _ => exact .inl rfl
  | 2, _, _ => exact .inr (.inl rfl)
  | 3, _, _ => exact .inr (.inr rfl)

/-- What the setup of a queue returns. -/
theorem setupForQmuxer_ret (cb : Cbuffer α) (qmx : Nat) (p : Poll β) (isPre : Bool) :
    (setupForQmuxer cb qmx p isPre).2.2 =
      if cb.isOperational then
        (needWait p.type cb.nElements (cb.nMaxElements - cb.nElements) : Result)
      else Result.notOperational := by
  unfold setupForQmuxer
  dsimp only
  split_ifs <;> rfl

/-- **The setup returns 0 exactly for a ready queue that is not half ready**; a half ready queue is
ready. -/
theorem needWait_eq_zero_iff {type : PollEvent} {n max : Int} (ht : isValidPollType type)
    (hn : 0 ≤ n) (hle : n ≤ max) (hmax : 0 < max) :
    (needWait type n (max - n) = 0 ↔
      (needWaitReadable type = true ∧ 0 < n ∨ needWaitWritable type = true ∧ n < max) ∧
        ¬(type = pollTypeBoth ∧ (n = 0 ∨ n = max))) ∧
      (type = pollTypeBoth → (needWaitReadable type = true ∧ 0 < n ∨
        needWaitWritable type = true ∧ n < max)) := by
  have hroom : max - n = 0 ↔ n = max := by omega
  unfold needWait
  simp only [hroom]
  obtain rfl | rfl | rfl := isValidPollType_cases ht
  · have hr : needWaitReadable pollReadable = true := rfl
    have hw : needWaitWritable pollReadable = false := rfl
    have hb : pollReadable ≠ pollTypeBoth := by decide
    simp only [hr, hw, hb, true_and, false_and, Bool.false_eq_true, if_false, or_false,
      not_false_iff, and_true, false_implies, and_true]
    by_cases hz : n = 0
    · simp [hz, pollReadable]
    · simp [hz, pollUnknown]
      omega
  · have hr : needWaitReadable pollWritable = false := rfl
    have hw : needWaitWritable pollWritable = true := rfl
    have hb : pollWritable ≠ pollTypeBoth := by decide
    simp only [hr, hw, hb, true_and, false_and, Bool.false_eq_true, if_false, false_or,
      not_false_iff, and_true, false_implies, and_true]
    by_cases hz : n = max
    · simp [hz, pollWritable]
    · simp [hz, pollUnknown]
      omega
  · have hr : needWaitReadable pollTypeBoth = true := rfl
    have hw : needWaitWritable pollTypeBoth = true := rfl
    simp only [hr, hw, true_and, true_implies]
    constructor
    · by_cases hz : n = 0
      · simp [hz, pollReadable]
      · by_cases hf : n = max
        · have hm : max ≠ 0 := Int.ne_of_gt hmax
          simp [hf, hm, pollWritable]
        · simp [hz, hf, pollUnknown]
          omega
    · omega

/-! ## The count -/

/-- One iteration counts a ready queue that is not half ready. -/
theorem setupIter_count [Zero α] {isPre : Bool} {qmx nNulls nev nNulls' nev' : Nat} {v : View β α}
    (hv : Pollable v) (h : setupIter isPre qmx v nNulls nev = .ok (nNulls', nev')) :
    nev' + (if halfReady v then 1 else 0) = nev + (if ready v then 1 else 0) := by
  obtain ⟨po, cb⟩ := v
  unfold setupIter at h
  cases po with
  | none =>
    dsimp only at h
    split_ifs at h
    cases h
    rfl
  | some p =>
    dsimp only at h
    cases hb : p.bbq with
    | none =>
      rw [hb] at h
      cases h
      simp [halfReady, ready, hb]
    | some b =>
      rw [hb] at h
      dsimp only at h
      rw [setupForQmuxer_ret] at h
      obtain ⟨ht, hreached⟩ := hv p rfl (by rw [hb]; rfl)
      obtain ⟨hbound, hmax⟩ := hreached.roomy
      obtain ⟨hzero, hboth⟩ := needWait_eq_zero_iff ht hbound.1 hbound.2 hmax
      dsimp only at hzero hboth
      cases ho : cb.isOperational with
      | false =>
        rw [ho] at h
        simp only [Bool.false_eq_true, if_false] at h
        split_ifs at h with hneg hret
        · exact absurd hret (by decide)
        · cases h
          simp [halfReady, ready, ho]
      | true =>
        rw [ho] at h
        simp only [if_true] at h
        have hnot : ¬(isPre = true ∧
            ((needWait p.type cb.nElements (cb.nMaxElements - cb.nElements) : Nat) : Int) < 0) := by
          rintro ⟨-, hneg⟩
          omega
        rw [if_neg hnot] at h
        simp only [Int.natCast_eq_zero, hzero] at h
        cases h
        have hlive : p.bbq.isSome = true ∧ cb.isOperational = true := ⟨by rw [hb]; rfl, ho⟩
        simp only [ready_iff, halfReady_iff, hlive, true_and]
        by_cases hhalf : p.type = pollTypeBoth ∧ (cb.nElements = 0 ∨ cb.nElements = cb.nMaxElements)
        · have hready := eq_true (hboth hhalf.1)
          simp only [eq_true hhalf, hready, not_true_eq_false, and_false, if_true, if_false]
        · simp only [hhalf, not_false_eq_true, and_true, if_false]
          split <;> rfl

/-- **The count is that of the ready polls less the half ready ones.** -/
theorem setupLoop_count [Zero α] {isPre : Bool} {qmx : Nat} {vs : List (View β α)}
    (hvs : ∀ v ∈ vs, Pollable v) {nNulls nev nNulls' nev' : Nat}
    (h : setupLoop isPre qmx vs nNulls nev = .ok (nNulls', nev')) :
    nev' + vs.countP halfReady = nev + vs.countP ready := by
  induction vs generalizing nNulls nev with
  | nil =>
    cases h
    rfl
  | cons v vs ih =>
    unfold setupLoop at h
    split at h
    · next nNulls₁ nev₁ hiter =>
      have hone := setupIter_count (hvs v (List.mem_cons_self ..)) hiter
      have hrest := ih (fun v hv => hvs v (List.mem_cons_of_mem _ hv)) h
      rw [List.countP_cons, List.countP_cons]
      omega
    · cases h

/-- **The count is right exactly if no queue is half ready.** Any poll objects with valid events,
and queues in any states: a pass that is not broken off counts the polls whose queue has a requested
event at the moment, exactly if none of them requests both events of a queue that is empty or full.
-/
theorem setupLoop_counts_ready_iff [Zero α] {isPre : Bool} {qmx : Nat} {vs : List (View β α)}
    (hvs : ∀ v ∈ vs, Pollable v) {nNulls nev : Nat}
    (h : setupLoop isPre qmx vs 0 0 = .ok (nNulls, nev)) :
    nev = vs.countP ready ↔ ∀ v ∈ vs, halfReady v = false := by
  have hcount := setupLoop_count hvs h
  have hnone : vs.countP halfReady = 0 ↔ ∀ v ∈ vs, halfReady v = false := by
    simp only [List.countP_eq_zero, Bool.not_eq_true]
  rw [← hnone]
  omega

theorem reached_createWithSize [Zero α] {cb : Cbuffer α} {mallocOk : Nat → Bool} {junk : Nat → α}
    {elemsize : Nat} {maxelems : Int} {hasDelProc : Bool}
    (h : createWithSize mallocOk junk elemsize maxelems hasDelProc = (Result.ok, some cb)) :
    Reached cb := ⟨_, _, _, _, _, _, [], _, h, rfl, rfl⟩

/-- A poll for room of an empty queue, and a poll object without a queue. -/
theorem setupLoop_counts_ready_iff_room :
    ∃ (cb : Cbuffer Nat),
      createWithSize (fun _ => true) (fun _ => 0) 8 4 false = (Result.ok, some cb) ∧
      let vs : List (View Nat Nat) :=
        [(some ⟨some 0, pollWritable, 0, 0⟩, cb), (some ⟨none, pollUnknown, 0, 0⟩, cb)]
      setupLoop true 5 vs 0 0 = .ok (1, 1) ∧ 1 = vs.countP ready := by
  obtain ⟨cb, hcreate, hloop, hhalf⟩ : ∃ (cb : Cbuffer Nat),
      createWithSize (fun _ => true) (fun _ => 0) 8 4 false = (Result.ok, some cb) ∧
      let vs : List (View Nat Nat) :=
        [(some ⟨some 0, pollWritable, 0, 0⟩, cb), (some ⟨none, pollUnknown, 0, 0⟩, cb)]
      setupLoop true 5 vs 0 0 = .ok (1, 1) ∧ ∀ v ∈ vs, halfReady v = false :=
    ⟨_, rfl, rfl, by decide⟩
  refine ⟨cb, hcreate, hloop, (setupLoop_counts_ready_iff ?_ hloop).mpr hhalf⟩
  intro v hv p hp hbbq
  rcases List.mem_pair.mp hv with rfl | rfl
  · cases hp
    exact ⟨⟨by decide, by decide⟩, reached_createWithSize hcreate⟩
  · cases hp
    cases hbbq

/-- A poll for both events of an empty queue with room. -/
theorem halfReady_uncounted :
    ∃ (cb : Cbuffer Nat),
      createWithSize (fun _ => true) (fun _ => 0) 8 4 false = (Result.ok, some cb) ∧
      let vs : List (View Nat Nat) := [(some ⟨some 0, pollTypeBoth, 0, 0⟩, cb)]
      setupLoop true 5 vs 0 0 = .ok (0, 0) ∧ vs.countP ready = 1 :=
  ⟨_, rfl, rfl, rfl⟩

end Qmuxer
end Gallus
