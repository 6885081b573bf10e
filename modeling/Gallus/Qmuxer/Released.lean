import Gallus.Qmuxer.Poll
import Gallus.Cbuffer.Notices

/-!
# Which queues a poll leaves registered

Only the second pass of `gallus_qmuxer_poll` takes the muxer out of the queues, and it is made only
after a wait that ended well.

* `Muxer.released`: the queue will not notify the muxer.
* `tidy`: a first pass does not find a queue to be waited for together with an event or an error,
  and the wait ends well.
* `Tidy`: the invariant of such runs, whatever the other threads do. A queue that is not released
  has been set up by the first pass under way, or has not been by the second (`Tidy.step`).
-/

namespace Gallus
namespace Qmuxer

open Cbuffer

variable {α β κ : Type}

namespace Muxer

/-- The queue is shut down or not registered with the muxer. -/
def released (s : Muxer β κ α) (b : β) : Prop :=
  (s.queues b).cb.isOperational = true → (s.queues b).cb.qmuxer ≠ some s.qmx

/-- The queues of the poll objects. -/
def bbqs (s : Muxer β κ α) : List (Option β) := s.polls.map fun p => p.bind Poll.bbq

/-- No call is under way. -/
def outside (s : Muxer β κ α) : Prop := s.point = .idle ∨ s.point = .destroyed

end Muxer

/-- The poll has to wait for the queue. -/
def mustWait (cb : Cbuffer α) (type : PollEvent) : Bool :=
  0 < needWait type cb.nElements (cb.nMaxElements - cb.nElements)

/-- A first pass comes to a queue, if the poll object has one, with `nev` events before it. -/
def Muxer.tidyQueue (s : Muxer β κ α) (type : PollEvent) (nev : Nat) : Option β → Prop
  | some b =>
    if (s.queues b).cb.isOperational = true ∧ mustWait (s.queues b).cb type = true then nev = 0
    else s.met = false
  | none => True

/-- A first pass comes to a poll object, if the pointer is not `NULL`. -/
def Muxer.tidyPoll (s : Muxer β κ α) (nev : Nat) : Option (Option (Poll β)) → Prop
  | some (some p) => s.tidyQueue p.type nev p.bbq
  | some none => s.met = false
  | none => True

/-- A queue that has to be waited for comes before all events, and neither an event nor an error
comes after such a queue. -/
def Muxer.tidyAt (s : Muxer β κ α) (i nev : Nat) : Prop := s.tidyPoll nev s.polls[i]?

/-- An iteration of a first pass. -/
def Muxer.tidyPoint (s : Muxer β κ α) : PollPoint → Prop
  | .setup true i _ nev => s.tidyAt i nev
  | _ => True

/-- The condition on the steps. -/
def tidy (s : Muxer β κ α) : MuxEvent β κ α → Prop
  | .setup => s.tidyPoint s.point
  | .wakeUp ret => s.point = .waiting → ret = Result.ok
  | _ => True

/-- The others leave the polled queues alone, and no queue is polled twice. -/
def undisputed (s : Muxer β κ α) : MuxEvent β κ α → Prop
  | .poll polls _ =>
    polls.Pairwise fun p p' => p.bind Poll.bbq = none ∨ p.bind Poll.bbq ≠ p'.bind Poll.bbq
  | .queue b e => e.isShutdown = true → some b ∉ s.bbqs
  | .other b _ _ _ => some b ∉ s.bbqs
  | _ => True

/-! ## One setup -/

section Setup

variable {cb : Cbuffer α} {q : Nat} {p : Poll β} {isPre : Bool}

/-- The setup of a queue that is shut down. -/
theorem setup_notOperational (h : cb.isOperational = false) :
    setupForQmuxer cb q p isPre = (cb, p, Result.notOperational) := by
  unfold setupForQmuxer
  rw [h]
  exact if_neg Bool.false_ne_true

theorem mustWait_iff {type : PollEvent} :
    mustWait cb type = true ↔ 0 < needWait type cb.nElements (cb.nMaxElements - cb.nElements) := by
  unfold mustWait
  exact decide_eq_true_iff

/-- The setup of an operational queue. -/
theorem setup_operational (q : Nat) (p : Poll β) (isPre : Bool) (h : cb.isOperational = true) :
    (setupForQmuxer cb q p isPre).1.isOperational = true ∧
      (setupForQmuxer cb q p isPre).1.qmuxer =
        (if isPre = true ∧ mustWait cb p.type = true then some q else none) ∧
      (setupForQmuxer cb q p isPre).2.1.bbq = p.bbq ∧
      0 ≤ (setupForQmuxer cb q p isPre).2.2 ∧
      (0 < (setupForQmuxer cb q p isPre).2.2 ↔ mustWait cb p.type = true) := by
  have hpos : mustWait cb p.type = true ↔ _ := mustWait_iff
  unfold setupForQmuxer
  rw [if_pos h]
  dsimp only
  generalize needWait p.type cb.nElements (cb.nMaxElements - cb.nElements) = n at hpos ⊢
  by_cases hw : isPre = true ∧ 0 < n
  · rw [if_pos hw, if_pos ⟨hw.1, hpos.mpr hw.2⟩]
    exact ⟨h, rfl, rfl, Int.natCast_nonneg n, by rw [hpos]; exact Int.natCast_pos⟩
  · rw [if_neg hw, if_neg fun hw' => hw ⟨hw'.1, hpos.mp hw'.2⟩]
    exact ⟨h, rfl, rfl, Int.natCast_nonneg n, by rw [hpos]; exact Int.natCast_pos⟩

end Setup

/-! ## The invariant -/

/-- Where a queue that is not released stands: the first pass has been there, the second has not. -/
def Muxer.holds (s : Muxer β κ α) (b : β) : PollPoint → Prop
  | .setup true i _ _ => s.met = true ∧ ∃ j < i, s.bbqs[j]? = some (some b)
  | .setup false i _ _ => ∃ j, i ≤ j ∧ s.bbqs[j]? = some (some b)
  | .waiting => some b ∈ s.bbqs
  | _ => False

/-- The invariant of the runs whose steps are tidy. -/
structure Tidy (s : Muxer β κ α) : Prop where
  held : ∀ b, ¬s.released b → s.holds b s.point
  pre : ∀ i n e, s.point = .setup true i n e → n ≤ i ∧ (s.met = true → e = 0 ∧ n < i)

section Next

variable {s : Muxer β κ α} {i n e : Nat}

/-- Nobody is registered, where no first pass is under way that had to wait. -/
theorem Tidy.of_released (h : ∀ b, s.released b)
    (hpre : ∀ i n e, s.point = .setup true i n e → n ≤ i ∧ s.met = false) : Tidy s := by
  refine ⟨fun b hb => absurd (h b) hb, fun i n e hpoint => ?_⟩
  obtain ⟨hle, hmet⟩ := hpre i n e hpoint
  exact ⟨hle, fun h => by rw [hmet] at h; cases h⟩

theorem Tidy.done (h : ∀ b, s.released b) (r : Result) : Tidy (s.done r) := by
  refine .of_released (s := s.done r) h fun i n e hpoint => ?_
  cases hpoint

/-- The head of the loop in a first pass. -/
theorem Tidy.nextPre
    (hheld : ∀ b, ¬s.released b → s.met = true ∧ ∃ j < i, s.bbqs[j]? = some (some b))
    (hle : n ≤ i) (hmet : s.met = true → e = 0 ∧ n < i) (hi : i ≤ s.polls.length) :
    Tidy (s.setupNext true i n e) := by
  unfold Muxer.setupNext
  by_cases hlt : i < s.polls.length
  · rw [if_pos hlt]
    refine ⟨fun b hb => hheld b hb, fun i' n' e' hpoint => ?_⟩
    cases hpoint
    exact ⟨hle, hmet⟩
  · rw [if_neg hlt]
    obtain rfl : i = s.polls.length := by omega
    have hzero : s.met = true →
        (if n = s.polls.length then Result.invalidArgs else (e : Result)) = 0 := by
      intro hm
      obtain ⟨rfl, hlt⟩ := hmet hm
      rw [if_neg (by omega)]
      rfl
    unfold Muxer.setupEnd
    dsimp only
    generalize (if n = s.polls.length then Result.invalidArgs else (e : Result)) = r at hzero ⊢
    by_cases hr : r ≠ 0
    · rw [if_pos hr]
      refine .done (fun b => ?_) r
      by_contra hb
      exact hr (hzero (hheld b hb).1)
    · rw [if_neg hr, if_pos rfl]
      refine ⟨fun b hb => ?_, fun i' n' e' hpoint => by cases hpoint⟩
      obtain ⟨-, j, -, hj⟩ := hheld b hb
      exact List.mem_of_getElem? hj

/-- The head of the loop in a second pass. -/
theorem Tidy.nextPost (hheld : ∀ b, ¬s.released b → ∃ j, i ≤ j ∧ s.bbqs[j]? = some (some b)) :
    Tidy (s.setupNext false i n e) := by
  unfold Muxer.setupNext
  by_cases hlt : i < s.polls.length
  · rw [if_pos hlt]
    refine ⟨fun b hb => hheld b hb, fun i' n' e' hpoint => ?_⟩
    cases hpoint
  · rw [if_neg hlt]
    have hall : ∀ b, s.released b := by
      intro b
      by_contra hb
      obtain ⟨j, hij, hj⟩ := hheld b hb
      have hlen := (List.getElem?_eq_some_iff.mp hj).1
      unfold Muxer.bbqs at hlen
      rw [List.length_map] at hlen
      omega
    unfold Muxer.setupEnd
    dsimp only
    generalize (if n = s.polls.length then Result.invalidArgs else (e : Result)) = r
    by_cases hr : r ≠ 0
    · rw [if_pos hr]
      exact .done hall r
    · rw [if_neg hr, if_neg Bool.false_ne_true]
      refine .of_released (s := s.preWait) hall fun i' n' e' hpoint => ?_
      cases hpoint
      exact ⟨Nat.le_refl 0, rfl⟩

end Next

/-! ## One iteration -/

section Iteration

variable [DecidableEq β] {s : Muxer β κ α} {i n e : Nat} {p p' : Poll β} {b b' : β}

omit [DecidableEq β] in
theorem getElem?_bbqs {p : Option (Poll β)} (h : s.polls[i]? = some p) :
    s.bbqs[i]? = some (p.bind Poll.bbq) := by
  unfold Muxer.bbqs
  rw [List.getElem?_map, h]
  rfl

omit [DecidableEq β] in
theorem tidyAt_queue (h : s.polls[i]? = some (some p)) (hb : p.bbq = some b) :
    s.tidyAt i e ↔
      if (s.queues b).cb.isOperational = true ∧ mustWait (s.queues b).cb p.type = true then e = 0
      else s.met = false := by
  unfold Muxer.tidyAt
  rw [h, Muxer.tidyPoll, hb]
  rfl

omit [DecidableEq β] in
theorem tidyAt_null (h : s.polls[i]? = some none) : s.tidyAt i e ↔ s.met = false := by
  unfold Muxer.tidyAt
  rw [h]
  rfl

omit [DecidableEq β] in
/-- A setup writes the sizes of the queue to the poll object. -/
theorem bbqs_set (h : s.polls[i]? = some (some p)) (hb : p'.bbq = p.bbq) :
    (s.polls.set i (some p')).map (fun p => p.bind Poll.bbq) = s.bbqs := by
  refine List.ext_getElem? fun j => ?_
  rw [List.getElem?_map, List.getElem?_set]
  by_cases hij : i = j
  · subst hij
    rw [getElem?_bbqs h, if_pos rfl, if_pos (List.getElem?_eq_some_iff.mp h).1]
    exact congrArg some hb
  · rw [if_neg hij]
    exact (List.getElem?_map ..).symm

/-- The state after the setup of the queue `b`. -/
def Muxer.wrote (s : Muxer β κ α) (i : Nat) (b : β) (p : Poll β) (isPre : Bool) : Muxer β κ α :=
  { s.setQueue b (setupForQmuxer (s.queues b).cb s.qmx p isPre).1 with
    polls := s.polls.set i (some (setupForQmuxer (s.queues b).cb s.qmx p isPre).2.1)
    met := s.met || decide (0 < (setupForQmuxer (s.queues b).cb s.qmx p isPre).2.2) }

theorem setupPoll_queue {isPre : Bool} (h : s.polls[i]? = some (some p)) (hb : p.bbq = some b) :
    s.setupPoll isPre i n e =
      if isPre = true ∧ (setupForQmuxer (s.queues b).cb s.qmx p isPre).2.2 < 0 then
        (s.wrote i b p isPre).done (setupForQmuxer (s.queues b).cb s.qmx p isPre).2.2
      else (s.wrote i b p isPre).setupNext isPre (i + 1) n
        (if (setupForQmuxer (s.queues b).cb s.qmx p isPre).2.2 = 0 then e + 1 else e) := by
  unfold Muxer.setupPoll Muxer.wrote
  rw [h]
  dsimp only
  rw [hb]

theorem wrote_bbqs (b : β) (isPre : Bool) (hp : s.polls[i]? = some (some p)) :
    (s.wrote i b p isPre).bbqs = s.bbqs := by
  refine bbqs_set hp ?_
  by_cases ho : (s.queues b).cb.isOperational = true
  · exact (setup_operational _ _ _ ho).2.2.1
  · rw [setup_notOperational (by simpa using ho)]

theorem wrote_released_of_ne {isPre : Bool} (h : b' ≠ b) :
    (s.wrote i b p isPre).released b' ↔ s.released b' := by
  unfold Muxer.released Muxer.wrote Muxer.setQueue
  simp only [Function.update_of_ne h]

theorem wrote_released {isPre : Bool} :
    (s.wrote i b p isPre).released b ↔
      ¬((s.queues b).cb.isOperational = true ∧ isPre = true ∧
        mustWait (s.queues b).cb p.type = true) := by
  unfold Muxer.released Muxer.wrote Muxer.setQueue
  simp only [Function.update_self]
  by_cases ho : (s.queues b).cb.isOperational = true
  · obtain ⟨ho', hq, -⟩ := setup_operational s.qmx p isPre ho
    rw [hq, ho']
    grind
  · rw [setup_notOperational (by simpa using ho)]
    simp [ho]

omit [DecidableEq β] in
theorem Tidy.heldPre (h : Tidy s) (hpoint : s.point = .setup true i n e) (hb : ¬s.released b) :
    s.met = true ∧ ∃ j < i, s.bbqs[j]? = some (some b) := by
  have hheld := h.held b hb
  rw [hpoint] at hheld
  exact hheld

omit [DecidableEq β] in
theorem Tidy.heldPost (h : Tidy s) (hpoint : s.point = .setup false i n e) (hb : ¬s.released b) :
    ∃ j, i ≤ j ∧ s.bbqs[j]? = some (some b) := by
  have hheld := h.held b hb
  rw [hpoint] at hheld
  exact hheld

omit [DecidableEq β] in
theorem Tidy.all_released (h : Tidy s) (hpoint : s.point = .setup true i n e)
    (hmet : s.met = false) (b : β) : s.released b := by
  by_contra hb
  have := (h.heldPre hpoint hb).1
  rw [hmet] at this
  cases this

/-- An iteration over a poll object without a queue. -/
theorem setupPoll_null (isPre : Bool) (n e : Nat) (h : s.polls[i]? = some (some p))
    (hb : p.bbq = none) :
    ∃ s₁ : Muxer β κ α, s.setupPoll isPre i n e = s₁.setupNext isPre (i + 1) (n + 1) e ∧
      s₁.bbqs = s.bbqs ∧ s₁.met = s.met ∧ s₁.polls.length = s.polls.length ∧
      (∀ b, s₁.released b ↔ s.released b) ∧ s₁.point = s.point := by
  refine ⟨{ s with polls := s.polls.set i (some { p with qSize := 0, qRemCapacity := 0 }) }, ?_,
    bbqs_set h rfl, rfl, List.length_set .., fun b => Iff.rfl, rfl⟩
  unfold Muxer.setupPoll
  rw [h]
  dsimp only
  rw [hb]

/-- An iteration over the queue `b` of a first pass. -/
theorem Tidy.setupQueue (h : Tidy s) (hpoint : s.point = .setup true i n e) (hok : s.tidyAt i e)
    (hp : s.polls[i]? = some (some p)) (hb : p.bbq = some b) :
    Tidy (s.setupPoll true i n e) := by
  have hlt := (List.getElem?_eq_some_iff.mp hp).1
  have hbbqs : (s.wrote i b p true).bbqs = s.bbqs := wrote_bbqs _ _ hp
  have hlen : (s.wrote i b p true).polls.length = s.polls.length := List.length_set ..
  have hat : s.bbqs[i]? = some (some b) := by
    rw [getElem?_bbqs hp]
    exact congrArg some hb
  rw [tidyAt_queue hp hb] at hok
  obtain ⟨hle, hmet⟩ := h.pre i n e hpoint
  have hrel : (s.wrote i b p true).released b ↔ ¬((s.queues b).cb.isOperational = true ∧
      true = true ∧ mustWait (s.queues b).cb p.type = true) := wrote_released
  rw [setupPoll_queue hp hb]
  by_cases ho : (s.queues b).cb.isOperational = true
  · obtain ⟨-, -, -, hnonneg, hpos⟩ :=
      setup_operational s.qmx p true ho
    rw [if_neg fun hneg => Int.not_lt.mpr hnonneg hneg.2]
    by_cases hw : mustWait (s.queues b).cb p.type = true
    · -- The queue has to be waited for, and comes before all events.
      rw [if_pos ⟨ho, hw⟩] at hok
      have hpos' := hpos.mpr hw
      rw [if_neg (Int.ne_of_gt hpos')]
      have hmet' : (s.wrote i b p true).met = true := by
        unfold Muxer.wrote
        simp [hpos']
      refine .nextPre (fun b' hb' => ⟨hmet', ?_⟩) (by omega) (fun _ => ⟨hok, by omega⟩)
        (by omega)
      rw [hbbqs]
      by_cases hbb : b' = b
      · subst hbb
        exact ⟨i, Nat.lt_succ_self i, hat⟩
      · obtain ⟨-, j, hj, hjb⟩ := h.heldPre hpoint (mt (wrote_released_of_ne hbb).mpr hb')
        exact ⟨j, Nat.lt_succ_of_lt hj, hjb⟩
    · -- An event, and no queue before it had to be waited for.
      rw [if_neg fun h => hw h.2] at hok
      have hzero : (setupForQmuxer (s.queues b).cb s.qmx p true).2.2 = 0 :=
        Int.le_antisymm (Int.not_lt.mp (mt hpos.mp hw)) hnonneg
      have hmet' : (s.wrote i b p true).met = false := by
        unfold Muxer.wrote
        simp [hok, hzero]
      rw [if_pos hzero]
      refine .nextPre (fun b' hb' => ?_) (by omega) (fun hm => ?_) (by omega)
      · by_cases hbb : b' = b
        · subst hbb
          exact absurd (hrel.mpr fun hall => hw hall.2.2) hb'
        · exact absurd ((wrote_released_of_ne hbb).mpr (h.all_released hpoint hok b')) hb'
      · rw [hmet'] at hm
        cases hm
  · -- The queue is shut down, and no queue before it had to be waited for.
    rw [if_neg fun h => ho h.1] at hok
    have hcode : Result.notOperational < 0 := by decide
    rw [setup_notOperational (by simpa using ho), if_pos ⟨rfl, hcode⟩]
    refine .done (fun b' => ?_) _
    by_cases hbb : b' = b
    · subst hbb
      exact hrel.mpr fun hall => ho hall.1
    · exact (wrote_released_of_ne hbb).mpr (h.all_released hpoint hok b')

/-- An iteration of a first pass. -/
theorem Tidy.setupPre (h : Tidy s) (hpoint : s.point = .setup true i n e) (hok : s.tidyAt i e) :
    Tidy (s.setupPoll true i n e) := by
  obtain ⟨hle, hmet⟩ := h.pre i n e hpoint
  cases hp : s.polls[i]? with
  | none =>
    unfold Muxer.setupPoll
    rw [hp]
    exact h
  | some p =>
    cases p with
    | none =>
      rw [tidyAt_null hp] at hok
      unfold Muxer.setupPoll
      rw [hp]
      exact .done (h.all_released hpoint hok) _
    | some p =>
      cases hb : p.bbq with
      | some b => exact h.setupQueue hpoint hok hp hb
      | none =>
        have hlt := (List.getElem?_eq_some_iff.mp hp).1
        obtain ⟨s₁, heq, hbbqs, hmet₁, hlen, hrel, -⟩ :=
          setupPoll_null true n e hp hb
        rw [heq]
        refine .nextPre (fun b hb => ?_) (by omega) (fun hm => ?_) (by omega)
        · obtain ⟨hm, j, hj, hjb⟩ := h.heldPre hpoint (mt (hrel b).mpr hb)
          exact ⟨hmet₁.trans hm, j, Nat.lt_succ_of_lt hj, hbbqs ▸ hjb⟩
        · obtain ⟨he, hn⟩ := hmet (hmet₁ ▸ hm)
          exact ⟨he, Nat.succ_lt_succ hn⟩

/-- An iteration of a second pass. -/
theorem Tidy.setupPost (h : Tidy s) (hpoint : s.point = .setup false i n e) :
    Tidy (s.setupPoll false i n e) := by
  have hnext : ∀ b, ¬s.released b → s.bbqs[i]? ≠ some (some b) →
      ∃ j, i + 1 ≤ j ∧ s.bbqs[j]? = some (some b) := by
    intro b hb hne
    obtain ⟨j, hj, hjb⟩ := h.heldPost hpoint hb
    have : i ≠ j := fun hij => hne (hij ▸ hjb)
    exact ⟨j, by omega, hjb⟩
  cases hp : s.polls[i]? with
  | none =>
    unfold Muxer.setupPoll
    rw [hp]
    exact h
  | some p =>
    cases p with
    | none =>
      unfold Muxer.setupPoll
      rw [hp]
      refine .nextPost fun b hb => hnext b hb ?_
      rw [getElem?_bbqs hp]
      exact nofun
    | some p =>
      cases hb : p.bbq with
      | some b =>
        rw [setupPoll_queue hp hb, if_neg fun hpre => Bool.false_ne_true hpre.1]
        refine .nextPost fun b' hb' => ?_
        rw [wrote_bbqs _ _ hp]
        by_cases hbb : b' = b
        · subst hbb
          exact absurd (wrote_released.mpr fun hall => Bool.false_ne_true hall.2.1) hb'
        · refine hnext b' (mt (wrote_released_of_ne hbb).mpr hb') ?_
          rw [getElem?_bbqs hp]
          exact fun heq => hbb (by simpa [hb] using heq.symm)
      | none =>
        obtain ⟨s₁, heq, hbbqs, -, -, hrel, -⟩ :=
          setupPoll_null false n e hp hb
        rw [heq]
        refine .nextPost fun b' hb' => ?_
        rw [hbbqs]
        refine hnext b' (mt (hrel b').mpr hb') ?_
        rw [getElem?_bbqs hp]
        exact fun heq => by simp [hb] at heq

end Iteration

/-! ## The steps -/

section Steps

variable {s s' : Muxer β κ α} {b b' : β}

/-- The queues are released at most, and all else is unchanged. -/
theorem Tidy.freed (h : Tidy s) (hrel : ∀ b, s.released b → s'.released b)
    (hpoint : s'.point = s.point) (hmet : s'.met = s.met) (hpolls : s'.polls = s.polls) :
    Tidy s' := by
  refine ⟨fun b hb => ?_, fun i n e hp => ?_⟩
  · have hheld := h.held b (mt (hrel b) hb)
    unfold Muxer.holds Muxer.bbqs at hheld ⊢
    rw [hpoint, hmet, hpolls]
    exact hheld
  · rw [hmet]
    exact h.pre i n e (hpoint ▸ hp)

theorem Tidy.outside (h : Tidy s) (hout : s.outside) (b : β) : s.released b := by
  by_contra hb
  have hheld := h.held b hb
  rcases hout with hp | hp
  · rw [hp] at hheld
    exact hheld
  · rw [hp] at hheld
    exact hheld

variable [DecidableEq β]

/-- Another muxer's setup releases the queue, if it is operational. -/
theorem other_released {q : Nat} {p : Poll β} {isPre : Bool} (hq : q ≠ s.qmx)
    (hrel : s.released b') :
    (s.setQueue b (setupForQmuxer (s.queues b).cb q p isPre).1).released b' := by
  unfold Muxer.released Muxer.setQueue at *
  by_cases hbb : b' = b
  · subst hbb
    simp only [Function.update_self]
    by_cases ho : (s.queues b').cb.isOperational = true
    · rw [(setup_operational _ _ _ ho).2.1]
      intro _
      split
      · exact fun h => hq (Option.some.inj h)
      · exact nofun
    · rw [setup_notOperational (by simpa using ho)]
      exact hrel
  · simp only [Function.update_of_ne hbb]
    exact hrel

variable [DecidableEq κ] [Zero α]

/-- No segment of a call on a queue registers it. -/
theorem queue_released {e : Event κ α} {c : Calls κ α} (hs : Cbuffer.step (s.queues b) e = some c)
    (hrel : s.released b') :
    ({ s with queues := Function.update s.queues b c } : Muxer β κ α).released b' := by
  obtain ⟨hq, ho⟩ := step_qmuxer hs
  unfold Muxer.released at *
  by_cases hbb : b' = b
  · subst hbb
    simp only [Function.update_self]
    rw [hq]
    exact fun h => hrel (ho h)
  · simp only [Function.update_of_ne hbb]
    exact hrel

/-- **The step lemma.** -/
theorem Tidy.step {ev : MuxEvent β κ α} (h : Tidy s) (hok : tidy s ev)
    (hs : s.step ev = some s') : Tidy s' := by
  cases ev with
  | poll polls nsec =>
    simp only [Muxer.step] at hs
    split_ifs at hs with hpoint
    cases hs
    have hall := h.outside (.inl hpoint)
    unfold Muxer.poll
    dsimp only
    split_ifs
    · exact .of_released hall fun i n e hp => by cases hp; exact ⟨Nat.le_refl 0, rfl⟩
    · exact .of_released hall fun i n e hp => by cases hp
    · exact .done (s := { s with polls, nsec }) hall _
  | setup =>
    simp only [Muxer.step] at hs
    split at hs
    · next isPre i n e hpoint =>
      cases hs
      cases isPre with
      | true =>
        unfold tidy at hok
        rw [hpoint] at hok
        exact h.setupPre hpoint hok
      | false => exact h.setupPost hpoint
    · cases hs
  | wakeUp ret =>
    simp only [Muxer.step] at hs
    by_cases hw : condWaitResult s.nsec ret
    · rw [if_pos hw] at hs
      split at hs
      · next hpoint =>
        cases hs
        rw [if_pos (hok hpoint)]
        refine ⟨fun b hb => ?_, fun i n e hp => by cases hp⟩
        have hheld := h.held b hb
        rw [hpoint] at hheld
        obtain ⟨j, hj⟩ := List.mem_iff_getElem?.mp hheld
        exact ⟨j, Nat.zero_le j, hj⟩
      · next hpoint =>
        cases hs
        refine .done (fun b => ?_) _
        by_contra hb
        have hheld := h.held b hb
        rw [hpoint] at hheld
        exact hheld
      · cases hs
    · rw [if_neg hw] at hs
      cases hs
  | queue b e =>
    obtain ⟨c, hc, rfl⟩ := Option.map_eq_some_iff.mp hs
    exact h.freed (fun b' hrel => queue_released hc hrel) rfl rfl rfl
  | other b q type isPre =>
    simp only [Muxer.step] at hs
    split_ifs at hs with hq
    cases hs
    exact h.freed (fun b' hrel => other_released hq hrel) rfl rfl rfl
  | destroy =>
    simp only [Muxer.step] at hs
    split_ifs at hs with hpoint
    cases hs
    exact .of_released (h.outside (.inl hpoint)) fun i n e hp => by cases hp

end Steps

end Qmuxer
end Gallus
