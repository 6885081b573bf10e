import Gallus.Qmuxer.Released

/-!
# Which polls leave queues registered

A step that is not tidy leaves a queue registered that the call does not come back to, because it
returns from the first pass or from the wait.

* `Muxer.owes`: one of the first queues of the array is registered.
* `Owing`: the invariant of the tidy steps; `Doomed`: a first pass that owes a queue and has found
  an event.
* `released_iff_tidy`: outside the polls no queue is registered, exactly if the steps are tidy. The
  converse is for polled queues that are not shut down, polled by another muxer or polled twice
  meanwhile, since each of these takes the muxer out as well.
* `registered_each`: one run for each part of `tidy`.
-/

namespace Gallus
namespace Qmuxer

open Cbuffer

variable {α β κ : Type}

namespace Muxer

/-- One of the first `i` poll objects is of a queue that is not released. -/
def owes (s : Muxer β κ α) (i : Nat) : Prop :=
  ∃ j < i, ∃ b, s.bbqs[j]? = some (some b) ∧ ¬s.released b

/-- No queue is polled twice. -/
def once (s : Muxer β κ α) : Prop :=
  ∀ (j j' : Nat) (b : β), s.bbqs[j]? = some (some b) → s.bbqs[j']? = some (some b) → j = j'

/-- Outside the calls the queues of the last one are released. -/
def returnsReleased (s : Muxer β κ α) : Prop :=
  s.outside → ∀ b, some b ∈ s.bbqs → s.released b

end Muxer

/-- The invariant: in a first pass that had to wait for a queue, one is registered, and so it is at
the wait. -/
structure Owing (s : Muxer β κ α) : Prop where
  tidy : Tidy s
  once : ¬s.outside → s.once
  pre : ∀ i n e, s.point = .setup true i n e →
    (s.met = true → s.owes i) ∧ (e = 0 → s.met = false → n = i)
  waiting : s.point = .waiting → s.owes s.polls.length

/-- A first pass that owes a queue and will return. -/
structure Doomed (s : Muxer β κ α) : Prop where
  point : ∃ i n e, s.point = .setup true i n e ∧ 0 < e ∧ s.owes i
  once : s.once

section Owes

variable {s s' : Muxer β κ α} {i n e : Nat}

theorem bbqs_congr (h : s'.polls = s.polls) : s'.bbqs = s.bbqs := by
  unfold Muxer.bbqs
  rw [h]

theorem not_outside {isPre : Bool} (hpoint : s.point = .setup isPre i n e) : ¬s.outside := by
  rintro (hp | hp)
  · rw [hpoint] at hp
    cases hp
  · rw [hpoint] at hp
    cases hp

/-- A call that returns while it owes a queue. -/
theorem done_owes (h : s.owes i) (r : Result) : ¬(s.done r).returnsReleased := by
  obtain ⟨j, -, b, hj, hb⟩ := h
  exact fun hall => hb (hall (.inl rfl) b (List.mem_of_getElem? hj))

/-- A first pass that owes a queue and has found an event will return. -/
theorem next_owes (h : s.owes i) (he : 0 < e) (honce : s.once) :
    Doomed (s.setupNext true i n e) ∨ ¬(s.setupNext true i n e).returnsReleased := by
  unfold Muxer.setupNext
  by_cases hlt : i < s.polls.length
  · rw [if_pos hlt]
    exact .inl ⟨⟨i, n, e, rfl, he, h⟩, honce⟩
  · rw [if_neg hlt]
    have hne : (if n = s.polls.length then Result.invalidArgs else (e : Result)) ≠ 0 := by
      split
      · decide
      · exact Int.natCast_ne_zero.mpr (Nat.pos_iff_ne_zero.mp he)
    unfold Muxer.setupEnd
    dsimp only
    rw [if_pos hne]
    exact .inr (done_owes h _)

theorem Owing.of_outside (h : Tidy s) (hout : s.outside) : Owing s := by
  refine ⟨h, fun hnot => absurd hout hnot, fun i n e hpoint => absurd hout (not_outside hpoint),
    fun hpoint => ?_⟩
  · rcases hout with hp | hp
    · rw [hp] at hpoint
      cases hpoint
    · rw [hp] at hpoint
      cases hpoint

/-- The head of the loop in a first pass. -/
theorem Owing.next (h : Tidy (s.setupNext true i n e)) (honce : s.once)
    (howes : s.met = true → s.owes i) (hnulls : e = 0 → s.met = false → n = i)
    (hi : i ≤ s.polls.length) : Owing (s.setupNext true i n e) := by
  unfold Muxer.setupNext at h ⊢
  by_cases hlt : i < s.polls.length
  · rw [if_pos hlt] at h ⊢
    refine ⟨h, fun _ => honce, fun i' n' e' hpoint => ?_, fun hpoint => by cases hpoint⟩
    cases hpoint
    exact ⟨howes, hnulls⟩
  · rw [if_neg hlt] at h ⊢
    obtain rfl : i = s.polls.length := by omega
    have hmet : (if n = s.polls.length then Result.invalidArgs else (e : Result)) = 0 →
        s.owes s.polls.length := by
      intro hr
      split at hr
      · exact absurd hr (by decide)
      · next hn =>
        refine howes ?_
        by_contra hm
        exact hn (hnulls (Int.natCast_eq_zero.mp hr) (by simpa using hm))
    unfold Muxer.setupEnd at h ⊢
    dsimp only at h ⊢
    generalize (if n = s.polls.length then Result.invalidArgs else (e : Result)) = r at h hmet ⊢
    by_cases hr : r ≠ 0
    · rw [if_pos hr] at h ⊢
      exact .of_outside h (.inl rfl)
    · rw [if_neg hr, if_pos rfl] at h ⊢
      exact ⟨h, fun _ => honce, fun i' n' e' hpoint => (by cases hpoint),
        fun _ => hmet (not_not.mp hr)⟩

/-- The head of the loop in a second pass. -/
theorem Owing.nextPost (h : Tidy (s.setupNext false i n e)) (honce : s.once) :
    Owing (s.setupNext false i n e) := by
  unfold Muxer.setupNext Muxer.setupEnd at h ⊢
  dsimp only at h ⊢
  generalize (if n = s.polls.length then Result.invalidArgs else (e : Result)) = r at h ⊢
  by_cases hlt : i < s.polls.length
  · rw [if_pos hlt] at h ⊢
    exact ⟨h, fun _ => honce, fun i' n' e' hpoint => (by cases hpoint),
      fun hpoint => by cases hpoint⟩
  · rw [if_neg hlt] at h ⊢
    by_cases hr : r ≠ 0
    · rw [if_pos hr] at h ⊢
      exact .of_outside h (.inl rfl)
    · rw [if_neg hr, if_neg Bool.false_ne_true] at h ⊢
      refine ⟨h, fun _ => honce, fun i' n' e' hpoint => ?_, fun hpoint => by cases hpoint⟩
      cases hpoint
      exact ⟨fun hm => (by cases hm), fun _ _ => rfl⟩

/-- The queues that are polled stay registered, and all else is unchanged. -/
theorem owes_kept (hkeep : ∀ b, some b ∈ s.bbqs → s'.released b → s.released b)
    (hpolls : s'.polls = s.polls) (h : s.owes i) : s'.owes i := by
  obtain ⟨j, hj, b, hjb, hb⟩ := h
  have hbbqs := bbqs_congr hpolls
  exact ⟨j, hj, b, hbbqs ▸ hjb, mt (hkeep b (List.mem_of_getElem? hjb)) hb⟩

theorem Owing.kept (h : Owing s) (htidy : Tidy s')
    (hkeep : ∀ b, some b ∈ s.bbqs → s'.released b → s.released b) (hpoint : s'.point = s.point)
    (hmet : s'.met = s.met) (hpolls : s'.polls = s.polls) : Owing s' := by
  have hbbqs := bbqs_congr hpolls
  refine ⟨htidy, fun hnot => ?_, fun i n e hp => ?_, fun hp => ?_⟩
  · unfold Muxer.once
    rw [hbbqs]
    refine h.once fun hout => hnot ?_
    unfold Muxer.outside
    rw [hpoint]
    exact hout
  · obtain ⟨howes, hnulls⟩ := h.pre i n e (hpoint ▸ hp)
    rw [hmet]
    exact ⟨fun hm => owes_kept hkeep hpolls (howes hm), hnulls⟩
  · rw [hpolls]
    exact owes_kept hkeep hpolls (h.waiting (hpoint ▸ hp))

theorem Doomed.kept (h : Doomed s)
    (hkeep : ∀ b, some b ∈ s.bbqs → s'.released b → s.released b) (hpoint : s'.point = s.point)
    (hpolls : s'.polls = s.polls) : Doomed s' := by
  have hbbqs := bbqs_congr hpolls
  obtain ⟨i, n, e, hp, he, howes⟩ := h.point
  refine ⟨⟨i, n, e, hpoint.trans hp, he, owes_kept hkeep hpolls howes⟩, ?_⟩
  unfold Muxer.once
  rw [hbbqs]
  exact h.once

end Owes

/-! ## One iteration of a first pass -/

section Iteration

variable [DecidableEq β] {s : Muxer β κ α} {i n e : Nat} {p : Poll β} {b : β}

/-- The setup of the queue of the poll object `i` leaves the queues before it alone. -/
theorem wrote_owes (hp : s.polls[i]? = some (some p)) (hb : p.bbq = some b) (honce : s.once)
    (h : s.owes i) : (s.wrote i b p true).owes (i + 1) := by
  obtain ⟨j, hj, b', hjb, hb'⟩ := h
  have hat : s.bbqs[i]? = some (some b) := by
    rw [getElem?_bbqs hp]
    exact congrArg some hb
  have hne : b' ≠ b := by
    rintro rfl
    exact absurd (honce j i b' hjb hat) (Nat.ne_of_lt hj)
  exact ⟨j, Nat.lt_succ_of_lt hj, b', wrote_bbqs b true hp ▸ hjb,
    mt (wrote_released_of_ne hne).mp hb'⟩

/-- A queue that has to be waited for is registered. -/
theorem wrote_waits (hp : s.polls[i]? = some (some p)) (hb : p.bbq = some b)
    (ho : (s.queues b).cb.isOperational = true) (hw : mustWait (s.queues b).cb p.type = true) :
    (s.wrote i b p true).owes (i + 1) := by
  have hat : (s.wrote i b p true).bbqs[i]? = some (some b) := by
    rw [wrote_bbqs _ _ hp, getElem?_bbqs hp]
    exact congrArg some hb
  exact ⟨i, Nat.lt_succ_self i, b, hat, fun hrel => wrote_released.mp hrel ⟨ho, rfl, hw⟩⟩

omit [DecidableEq β] in
theorem once_of_bbqs {s₁ : Muxer β κ α} (h : s₁.bbqs = s.bbqs) (honce : s.once) : s₁.once := by
  unfold Muxer.once
  rw [h]
  exact honce

theorem Owing.setupPre (h : Owing s) (hpoint : s.point = .setup true i n e) (hok : s.tidyAt i e) :
    Owing (s.setupPoll true i n e) := by
  have htidy := h.tidy.setupPre hpoint hok
  obtain ⟨howes, hnulls⟩ := h.pre i n e hpoint
  have honce := h.once (not_outside hpoint)
  cases hp : s.polls[i]? with
  | none =>
    unfold Muxer.setupPoll at htidy ⊢
    rw [hp] at htidy ⊢
    exact h
  | some p =>
    cases p with
    | none =>
      unfold Muxer.setupPoll at htidy ⊢
      rw [hp] at htidy ⊢
      exact .of_outside htidy (.inl rfl)
    | some p =>
      have hlt := (List.getElem?_eq_some_iff.mp hp).1
      cases hb : p.bbq with
      | none =>
        obtain ⟨s₁, heq, hbbqs, hmet₁, hlen, hrel, -⟩ :=
          setupPoll_null true n e hp hb
        rw [heq] at htidy ⊢
        refine .next htidy (once_of_bbqs hbbqs honce) (fun hm => ?_)
          (fun he hm => congrArg Nat.succ (hnulls he (hmet₁ ▸ hm))) (by omega)
        obtain ⟨j, hj, b, hjb, hb⟩ := howes (hmet₁ ▸ hm)
        exact ⟨j, Nat.lt_succ_of_lt hj, b, hbbqs ▸ hjb, mt (hrel b).mp hb⟩
      | some b =>
        have hbbqs : (s.wrote i b p true).bbqs = s.bbqs := wrote_bbqs _ _ hp
        have hlen : (s.wrote i b p true).polls.length = s.polls.length := List.length_set ..
        rw [setupPoll_queue hp hb] at htidy ⊢
        by_cases ho : (s.queues b).cb.isOperational = true
        · obtain ⟨-, -, -, hnonneg, hpos⟩ :=
            setup_operational s.qmx p true ho
          rw [if_neg fun hneg => Int.not_lt.mpr hnonneg hneg.2] at htidy ⊢
          by_cases hw : mustWait (s.queues b).cb p.type = true
          · have hmet : (s.wrote i b p true).met = true := by
              unfold Muxer.wrote
              simp [hpos.mpr hw]
            refine .next htidy (once_of_bbqs hbbqs honce) (fun _ => wrote_waits hp hb ho hw)
              (fun _ hm => ?_) (by omega)
            rw [hmet] at hm
            cases hm
          · have hzero : (setupForQmuxer (s.queues b).cb s.qmx p true).2.2 = 0 :=
              Int.le_antisymm (Int.not_lt.mp (mt hpos.mp hw)) hnonneg
            have hmet : (s.wrote i b p true).met = s.met := by
              unfold Muxer.wrote
              simp [hzero]
            rw [if_pos hzero] at htidy ⊢
            refine .next htidy (once_of_bbqs hbbqs honce)
              (fun hm => wrote_owes hp hb honce (howes (hmet ▸ hm)))
              (fun he => absurd he (Nat.succ_ne_zero e)) (by omega)
        · have hcode : Result.notOperational < 0 := by decide
          rw [setup_notOperational (by simpa using ho), if_pos ⟨rfl, hcode⟩] at htidy ⊢
          exact .of_outside htidy (.inl rfl)

theorem Owing.setupPost (h : Owing s) (htidy : Tidy (s.setupPoll false i n e)) (honce : s.once) :
    Owing (s.setupPoll false i n e) := by
  cases hp : s.polls[i]? with
  | none =>
    unfold Muxer.setupPoll
    rw [hp]
    exact h
  | some p =>
    cases p with
    | none =>
      unfold Muxer.setupPoll at htidy ⊢
      rw [hp] at htidy ⊢
      exact .nextPost htidy honce
    | some p =>
      cases hb : p.bbq with
      | none =>
        obtain ⟨s₁, heq, hbbqs, -⟩ := setupPoll_null false n e hp hb
        rw [heq] at htidy ⊢
        exact .nextPost htidy (once_of_bbqs hbbqs honce)
      | some b =>
        rw [setupPoll_queue hp hb, if_neg fun hpre => Bool.false_ne_true hpre.1] at htidy ⊢
        exact .nextPost htidy (once_of_bbqs (wrote_bbqs _ _ hp) honce)

/-- An iteration of a first pass that owes a queue and has found an event. -/
theorem Doomed.setupPre (h : s.owes i) (he : 0 < e) (honce : s.once)
    (hpoint : s.point = .setup true i n e) :
    Doomed (s.setupPoll true i n e) ∨ ¬(s.setupPoll true i n e).returnsReleased := by
  cases hp : s.polls[i]? with
  | none =>
    unfold Muxer.setupPoll
    rw [hp]
    exact .inl ⟨⟨i, n, e, hpoint, he, h⟩, honce⟩
  | some p =>
    cases p with
    | none =>
      unfold Muxer.setupPoll
      rw [hp]
      exact .inr (done_owes h _)
    | some p =>
      cases hb : p.bbq with
      | none =>
        obtain ⟨s₁, heq, hbbqs, -, -, hrel, -⟩ :=
          setupPoll_null true n e hp hb
        rw [heq]
        obtain ⟨j, hj, b, hjb, hb⟩ := h
        exact next_owes ⟨j, Nat.lt_succ_of_lt hj, b, hbbqs ▸ hjb, mt (hrel b).mp hb⟩ he
          (once_of_bbqs hbbqs honce)
      | some b =>
        have hnext := wrote_owes hp hb honce h
        rw [setupPoll_queue hp hb]
        split
        · exact .inr (done_owes hnext _)
        · refine next_owes hnext ?_ (once_of_bbqs (wrote_bbqs _ _ hp) honce)
          split <;> omega

/-- An iteration that is not tidy. -/
theorem Owing.untidy (h : Owing s) (hpoint : s.point = .setup true i n e) (hnot : ¬s.tidyAt i e) :
    Doomed (s.setupPoll true i n e) ∨ ¬(s.setupPoll true i n e).returnsReleased := by
  obtain ⟨howes, -⟩ := h.pre i n e hpoint
  have honce := h.once (not_outside hpoint)
  cases hp : s.polls[i]? with
  | none =>
    unfold Muxer.tidyAt at hnot
    rw [hp] at hnot
    exact absurd trivial hnot
  | some p =>
    cases p with
    | none =>
      rw [tidyAt_null hp] at hnot
      unfold Muxer.setupPoll
      rw [hp]
      exact .inr (done_owes (howes (by simpa using hnot)) _)
    | some p =>
      cases hb : p.bbq with
      | none =>
        unfold Muxer.tidyAt at hnot
        rw [hp, Muxer.tidyPoll, hb] at hnot
        exact absurd trivial hnot
      | some b =>
        rw [tidyAt_queue hp hb] at hnot
        have honce' := once_of_bbqs (wrote_bbqs b true hp) honce
        rw [setupPoll_queue hp hb]
        by_cases ho : (s.queues b).cb.isOperational = true
        · obtain ⟨-, -, -, hnonneg, hpos⟩ :=
            setup_operational s.qmx p true ho
          rw [if_neg fun hneg => Int.not_lt.mpr hnonneg hneg.2]
          by_cases hw : mustWait (s.queues b).cb p.type = true
          · -- An event comes before a queue that has to be waited for.
            rw [if_pos ⟨ho, hw⟩] at hnot
            rw [if_neg (Int.ne_of_gt (hpos.mpr hw))]
            exact next_owes (wrote_waits hp hb ho hw) (Nat.pos_of_ne_zero hnot) honce'
          · rw [if_neg fun h => hw h.2] at hnot
            rw [if_pos (Int.le_antisymm (Int.not_lt.mp (mt hpos.mp hw)) hnonneg)]
            exact next_owes (wrote_owes hp hb honce (howes (by simpa using hnot)))
              (Nat.succ_pos e) honce'
        · have hcode : Result.notOperational < 0 := by decide
          rw [if_neg fun h => ho h.1] at hnot
          have hnext := wrote_owes hp hb honce (howes (by simpa using hnot))
          rw [if_pos ⟨rfl, by rw [setup_notOperational (by simpa using ho)]; exact hcode⟩]
          exact .inr (done_owes hnext _)

end Iteration

/-! ## The steps -/

section Steps

variable [DecidableEq β] [DecidableEq κ] [Zero α] {s s' : Muxer β κ α} {b : β}

omit [DecidableEq κ] [Zero α] in
theorem setQueue_released_of_ne {b' : β} {cb : Cbuffer α} (h : b' ≠ b) :
    (s.setQueue b cb).released b' ↔ s.released b' := by
  unfold Muxer.released Muxer.setQueue
  simp only [Function.update_of_ne h]

/-- A segment of a call, other than a shutdown, on a queue that is polled. -/
theorem queue_kept {e : Event κ α} {c : Calls κ α} (hs : Cbuffer.step (s.queues b) e = some c)
    (hok : e.isShutdown = true → some b ∉ s.bbqs) (b' : β) (hb' : some b' ∈ s.bbqs)
    (hrel : ({ s with queues := Function.update s.queues b c } : Muxer β κ α).released b') :
    s.released b' := by
  unfold Muxer.released at *
  by_cases hbb : b' = b
  · subst hbb
    have hstay : e.isShutdown = false := by
      by_contra h
      exact hok (by simpa using h) hb'
    simp only [Function.update_self] at hrel
    rw [step_operational hs hstay, (step_qmuxer hs).1] at hrel
    exact hrel
  · simp only [Function.update_of_ne hbb] at hrel
    exact hrel

/-- **The step lemma.** -/
theorem Owing.step {ev : MuxEvent β κ α} (h : Owing s) (henv : undisputed s ev)
    (hok : Qmuxer.tidy s ev) (hs : s.step ev = some s') : Owing s' := by
  have htidy := h.tidy.step hok hs
  cases ev with
  | poll polls nsec =>
    simp only [Muxer.step] at hs
    split_ifs at hs with hpoint
    cases hs
    have honce : ({ s with polls := polls, nsec := nsec } : Muxer β κ α).once := by
      intro j j' b hj hj'
      obtain ⟨hlt, hjb⟩ := List.getElem?_eq_some_iff.mp hj
      obtain ⟨hlt', hjb'⟩ := List.getElem?_eq_some_iff.mp hj'
      have hpair : polls.Pairwise fun p p' =>
        p.bind Poll.bbq = none ∨ p.bind Poll.bbq ≠ p'.bind Poll.bbq := henv
      unfold Muxer.bbqs at hlt hlt' hjb hjb'
      simp only [List.length_map, List.getElem_map] at hlt hlt' hjb hjb'
      have hfar := List.pairwise_iff_getElem.mp hpair
      rcases Nat.lt_trichotomy j j' with hlt₁ | heq | hlt₁
      · have := hfar j j' hlt hlt' hlt₁
        rw [hjb, hjb'] at this
        simp at this
      · exact heq
      · have := hfar j' j hlt' hlt hlt₁
        rw [hjb, hjb'] at this
        simp at this
    unfold Muxer.poll at htidy ⊢
    dsimp only at htidy ⊢
    split_ifs at htidy ⊢
    · refine ⟨htidy, fun _ => honce, fun i n e hp => ?_, fun hp => by cases hp⟩
      cases hp
      exact ⟨fun hm => (by cases hm), fun _ _ => rfl⟩
    · exact ⟨htidy, fun _ => honce, fun i n e hp => (by cases hp), fun hp => by cases hp⟩
    · exact .of_outside htidy (.inl rfl)
  | setup =>
    simp only [Muxer.step] at hs
    split at hs
    · next isPre i n e hpoint =>
      cases hs
      have honce := h.once (not_outside hpoint)
      cases isPre with
      | true =>
        unfold Qmuxer.tidy at hok
        rw [hpoint] at hok
        exact h.setupPre hpoint hok
      | false => exact h.setupPost htidy honce
    · cases hs
  | wakeUp ret =>
    simp only [Muxer.step] at hs
    by_cases hw : condWaitResult s.nsec ret
    · rw [if_pos hw] at hs
      split at hs
      · next hpoint =>
        cases hs
        rw [if_pos (hok hpoint)] at htidy ⊢
        refine ⟨htidy, fun _ => h.once fun hout => ?_, fun i n e hp => (by cases hp),
          fun hp => by cases hp⟩
        rcases hout with hp | hp
        · rw [hpoint] at hp
          cases hp
        · rw [hpoint] at hp
          cases hp
      · cases hs
        exact .of_outside htidy (.inl rfl)
      · cases hs
    · rw [if_neg hw] at hs
      cases hs
  | queue b e =>
    obtain ⟨c, hc, rfl⟩ := Option.map_eq_some_iff.mp hs
    exact h.kept htidy (queue_kept hc henv) rfl rfl rfl
  | other b q type isPre =>
    simp only [Muxer.step] at hs
    split_ifs at hs with hq
    cases hs
    refine h.kept htidy (fun b' hb' hrel => (setQueue_released_of_ne ?_).mp hrel) rfl rfl rfl
    rintro rfl
    exact henv hb'
  | destroy =>
    simp only [Muxer.step] at hs
    split_ifs at hs with hpoint
    cases hs
    exact .of_outside htidy (.inr rfl)

/-- A step that is not tidy. -/
theorem Owing.miss {ev : MuxEvent β κ α} (h : Owing s) (hnot : ¬Qmuxer.tidy s ev)
    (hs : s.step ev = some s') : Doomed s' ∨ ¬s'.returnsReleased := by
  cases ev with
  | setup =>
    simp only [Muxer.step] at hs
    split at hs
    · next isPre i n e hpoint =>
      cases hs
      unfold Qmuxer.tidy at hnot
      rw [hpoint] at hnot
      cases isPre with
      | true => exact h.untidy hpoint hnot
      | false => exact absurd trivial hnot
    · cases hs
  | wakeUp ret =>
    simp only [Muxer.step] at hs
    obtain ⟨hpoint, hret⟩ := Classical.not_imp.mp hnot
    rw [hpoint] at hs
    by_cases hw : condWaitResult s.nsec ret
    · rw [if_pos hw] at hs
      cases hs
      rw [if_neg hret]
      exact .inr (done_owes (h.waiting hpoint) ret)
    · rw [if_neg hw] at hs
      cases hs
  | _ => exact absurd trivial hnot

/-- Until the call returns. -/
theorem Doomed.step {ev : MuxEvent β κ α} (h : Doomed s) (henv : undisputed s ev)
    (hs : s.step ev = some s') : Doomed s' ∨ ¬s'.returnsReleased := by
  obtain ⟨i, n, e, hpoint, he, howes⟩ := h.point
  cases ev with
  | poll polls nsec =>
    simp only [Muxer.step] at hs
    rw [hpoint, if_neg (by simp)] at hs
    cases hs
  | setup =>
    simp only [Muxer.step] at hs
    rw [hpoint] at hs
    cases hs
    exact Doomed.setupPre howes he h.once hpoint
  | wakeUp ret =>
    simp only [Muxer.step] at hs
    rw [hpoint] at hs
    split at hs
    · cases hs
    · cases hs
  | queue b ev =>
    obtain ⟨c, hc, rfl⟩ := Option.map_eq_some_iff.mp hs
    exact .inl (h.kept (queue_kept hc henv) rfl rfl)
  | other b q type isPre =>
    simp only [Muxer.step] at hs
    split_ifs at hs with hq
    cases hs
    refine .inl (h.kept (fun b' hb' hrel => (setQueue_released_of_ne ?_).mp hrel) rfl rfl)
    rintro rfl
    exact henv hb'
  | destroy =>
    simp only [Muxer.step] at hs
    rw [hpoint, if_neg (by simp)] at hs
    cases hs

end Steps

/-! ## Runs -/

section Runs

variable [DecidableEq β] [DecidableEq κ] [Zero α] {s s' : Muxer β κ α}
  {es : List (MuxEvent β κ α)}

/-- **No queue stays registered, exactly if the steps are tidy.** A muxer that no queue is
registered with is polled again and again, in any interleaving with the calls on the queues and the
polls of other muxers. If the steps are tidy, all queues are released outside the polls, and no put,
get or shutdown notifies the muxer then. Where the others leave the polled queues alone and no queue
is polled twice, the steps are tidy if the polled queues are released outside the polls. -/
theorem released_iff_tidy (hidle : s.point = .idle) (hfree : ∀ b, s.released b)
    (hout : s'.outside) :
    (Trans.Run Muxer.step tidy s es s' → (∀ b, s'.released b) ∧
      ∀ b e c, Cbuffer.step (s'.queues b) e = some c → e.isClear = false →
        c.cb.qmuxLog.count s'.qmx = (s'.queues b).cb.qmuxLog.count s'.qmx) ∧
    (Trans.Run Muxer.step undisputed s es s' →
      ((∀ es₁ s₁, es₁ <+: es → Trans.run Muxer.step s es₁ = some s₁ → s₁.returnsReleased) ↔
        Trans.Run Muxer.step tidy s es s')) := by
  have hinit : Tidy s := .of_released hfree fun i n e hp => by rw [hidle] at hp; cases hp
  have htidy : ∀ {es₁ s₁}, Trans.Run Muxer.step tidy s es₁ s₁ → Tidy s₁ := fun hr =>
    hr.inv (fun _ _ _ h hok hs => h.step hok hs) hinit
  refine ⟨fun hr => ?_, fun hr => ⟨fun hall => ?_, fun hr' es₁ s₁ hpre h₁ => ?_⟩⟩
  · have hreleased := (htidy hr).outside hout
    refine ⟨hreleased, fun b e c hc he => ?_⟩
    refine (told_step hc fun hclear => ?_).silent s'.qmx (hreleased b)
    rw [he] at hclear
    cases hclear
  · refine Trans.Run.of_states_later (I := Owing) (D := Doomed) (P := Muxer.returnsReleased)
      (fun _ _ _ h henv hok hs => h.step henv hok hs) (fun _ _ _ h _ hnot hs => h.miss hnot hs)
      (fun _ _ _ h henv hs => h.step henv hs) (.of_outside hinit (.inl hidle)) hr ?_ hall
    intro hdoomed
    obtain ⟨i, n, e, hpoint, -⟩ := hdoomed.point
    exact not_outside hpoint hout
  · exact fun hout₁ b _ => (htidy (hr'.of_prefix hpre h₁)).outside hout₁ b

/-! ## Fixed runs -/

instance (s : Muxer β κ α) (type : PollEvent) (nev : Nat) (bbq : Option β) :
    Decidable (s.tidyQueue type nev bbq) :=
  match bbq with
  | some b =>
    inferInstanceAs (Decidable (if (s.queues b).cb.isOperational = true ∧
      mustWait (s.queues b).cb type = true then nev = 0 else s.met = false))
  | none => .isTrue trivial

instance (s : Muxer β κ α) (nev : Nat) (p : Option (Option (Poll β))) :
    Decidable (s.tidyPoll nev p) :=
  match p with
  | some (some p) => inferInstanceAs (Decidable (s.tidyQueue p.type nev p.bbq))
  | some none => inferInstanceAs (Decidable (s.met = false))
  | none => .isTrue trivial

instance (s : Muxer β κ α) (p : PollPoint) : Decidable (s.tidyPoint p) :=
  match p with
  | .setup true i _ nev => inferInstanceAs (Decidable (s.tidyPoll nev s.polls[i]?))
  | .setup false _ _ _ | .idle | .waiting | .sleeping | .destroyed => .isTrue trivial

instance (s : Muxer β κ α) (ev : MuxEvent β κ α) : Decidable (tidy s ev) :=
  match ev with
  | .setup => inferInstanceAs (Decidable (s.tidyPoint s.point))
  | .wakeUp ret => inferInstanceAs (Decidable (s.point = .waiting → ret = Result.ok))
  | .poll _ _ | .queue _ _ | .other _ _ _ _ | .destroy => .isTrue trivial

instance (s : Muxer β κ α) (ev : MuxEvent β κ α) : Decidable (undisputed s ev) :=
  match ev with
  | .poll polls _ => inferInstanceAs (Decidable (polls.Pairwise fun p p' =>
      p.bind Poll.bbq = none ∨ p.bind Poll.bbq ≠ p'.bind Poll.bbq))
  | .queue b e => inferInstanceAs (Decidable (e.isShutdown = true → some b ∉ s.bbqs))
  | .other b _ _ _ => inferInstanceAs (Decidable (some b ∉ s.bbqs))
  | .setup | .wakeUp _ | .destroy => .isTrue trivial

end Runs

/-- Two queues `cb` and a muxer that has not been used. -/
def twoQueues (cb : Cbuffer Nat) : Muxer (Fin 2) (Fin 3) Nat where
  qmx := 7
  queues _ := .init cb
  polls := []
  nsec := 0
  point := .idle
  ret := Result.ok
  met := false

/-- A poll object of a queue, for data. -/
def readable (b : Fin 2) : Option (Poll (Fin 2)) := some ⟨some b, pollReadable, 0, 0⟩

/-- Both queues are polled, the first one gets an element, and the muxer is destroyed. Later the
second one gets an element too. -/
def pollBoth : List (MuxEvent (Fin 2) (Fin 3) Nat) :=
  [.poll [readable 0, readable 1] (-1), .setup, .setup, .queue 0 (.call 0 (.putN [5] 8 0) 1),
    .wakeUp Result.ok, .setup, .setup, .destroy, .queue 1 (.call 0 (.putN [6] 8 0) 2)]

theorem released_iff_tidy_pollBoth :
    ∃ (cb : Cbuffer Nat) (s' : Muxer (Fin 2) (Fin 3) Nat),
      createWithSize (fun _ => true) (fun _ => 0) 8 1 false = (Result.ok, some cb) ∧
      Trans.run Muxer.step (twoQueues cb) pollBoth = some s' ∧ s'.point = .destroyed ∧
      s'.ret = 1 ∧ ∀ b, s'.released b := by
  obtain ⟨cb, hcreate, hq, hmap⟩ : ∃ cb : Cbuffer Nat,
      createWithSize (fun _ => true) (fun _ => 0) 8 1 false = (Result.ok, some cb) ∧
      cb.qmuxer = none ∧
      (Trans.run (Trans.guarded Muxer.step tidy) (twoQueues cb) pollBoth).map
        (fun s' => (s'.point, s'.ret)) = some (.destroyed, 1) := ⟨_, rfl, rfl, by decide⟩
  obtain ⟨s', hguarded, heq⟩ := Option.map_eq_some_iff.mp hmap
  obtain ⟨hpoint, hret⟩ := Prod.mk.inj heq
  have hrun : Trans.Run Muxer.step tidy (twoQueues cb) pollBoth s' := Trans.Run.of_guarded hguarded
  have hfree : ∀ b, (twoQueues cb).released b := fun _ _ h => by
    rw [show ((twoQueues cb).queues _).cb.qmuxer = none from hq] at h
    cases h
  exact ⟨cb, s', hcreate, hrun.run_eq, hpoint, hret,
    ((released_iff_tidy rfl hfree (.inr hpoint)).1 hrun).1⟩

/-- The muxer is destroyed, and the queue `b` is registered with it. -/
def registered (b : Fin 2) (s : Muxer (Fin 2) (Fin 3) Nat) : Bool :=
  decide (s.point = .destroyed) && (s.queues b).cb.isOperational &&
    decide ((s.queues b).cb.qmuxer = some s.qmx)

/-- An event after a queue that has to be waited for; such a queue after an event; an error after
such a queue; and the end of the time. A put on the first queue then notifies the destroyed muxer.
-/
theorem registered_each :
    ∃ cb : Cbuffer Nat,
      createWithSize (fun _ => true) (fun _ => 0) 8 1 false = (Result.ok, some cb) ∧
      (∃ s', Trans.run Muxer.step (twoQueues cb)
          [.queue 1 (.call 0 (.putN [5] 8 0) 0), .poll [readable 0, readable 1] (-1), .setup,
            .setup, .destroy] = some s' ∧ (registered 0 s' && decide (s'.ret = 1)) = true) ∧
      (∃ s', Trans.run Muxer.step (twoQueues cb)
          [.queue 1 (.call 0 (.putN [5] 8 0) 0), .poll [readable 1, readable 0] (-1), .setup,
            .setup, .destroy] = some s' ∧ (registered 0 s' && decide (s'.ret = 1)) = true) ∧
      (∃ s', Trans.run Muxer.step (twoQueues cb)
          [.queue 1 (.call 0 (.shutdown false) 0), .poll [readable 0, readable 1] (-1), .setup,
            .setup, .destroy] = some s' ∧
        (registered 0 s' && decide (s'.ret = Result.notOperational)) = true) ∧
      (∃ s', Trans.run Muxer.step (twoQueues cb)
          [.poll [readable 0, readable 1] 5, .setup, .setup, .wakeUp Result.timedout, .destroy] =
            some s' ∧
        (registered 0 s' && registered 1 s' && decide (s'.ret = Result.timedout)) = true) ∧
      ∃ s', Trans.run Muxer.step (twoQueues cb)
          [.poll [readable 0] 5, .setup, .wakeUp Result.timedout, .destroy,
            .queue 0 (.call 0 (.putN [5] 8 0) 9)] = some s' ∧
        decide ((s'.queues 0).cb.qmuxLog = [7]) = true :=
  ⟨_, rfl, (Option.any_eq_true _ _).mp (by decide), (Option.any_eq_true _ _).mp (by decide),
    (Option.any_eq_true _ _).mp (by decide), (Option.any_eq_true _ _).mp (by decide),
    (Option.any_eq_true _ _).mp (by decide)⟩

end Qmuxer
end Gallus
