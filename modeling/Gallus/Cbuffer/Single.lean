import Gallus.Cbuffer.Fatal

/-!
# A put of one element with no time limit (`gallus_bbq_put`)

* `SingleOk v ins next`: where a segment of such a put ends, and what the put has inserted by then.
* `single_reply`: it returns 1 with its element in the buffer, or an error with nothing.
-/

namespace Gallus
namespace Cbuffer

variable {α : Type} {cb : Cbuffer α} {l : Local α} {v : α} {ins : List α}

/-- The put waits with nothing inserted, or has returned. -/
def SingleOk (v : α) (ins : List α) : Next α → Prop
  | .wait _ _ l => l.nCopy = 0 ∧ ins = []
  | .done ret _ _ => ret = 1 ∧ ins = [v] ∨ ret < 0 ∧ ins = []

/-- There is room for the element, or not. -/
theorem copyin_single (hb : Bounded cb) (v : α) :
    (copyin cb [v]).2 = 1 ∨ (copyin cb [v]).2 = 0 ∧
      (copyin cb [v]).1.nMaxElements ≤ (copyin cb [v]).1.nElements := by
  obtain ⟨hret, hn, hmax⟩ := copyin_counts cb [v]
  obtain ⟨-, hle⟩ := hb
  have hone : i64 ([v].length : Nat) = 1 := by
    rw [List.length_singleton]
    decide
  rw [copyinMax_eq, hone] at hret hn
  rw [hret, hn, hmax]
  by_cases hroom : 1 ≤ cb.nMaxElements - cb.nElements
  · exact .inl (Int.min_eq_right hroom)
  · have hzero : cb.nMaxElements - cb.nElements = 0 := by omega
    rw [hzero]
    exact .inr ⟨rfl, by omega⟩

theorem putRound_single (hb : Bounded cb) (hl : l.nCopy = 0) (now : Chrono) :
    SingleOk v (putRound cb [v] l now).ins (putRound cb [v] l now).next := by
  unfold putRound
  rw [hl]
  split
  · have hcopy := copyin_single hb v
    rw [show [v].drop (sizeT 0) = [v] from rfl]
    generalize copyin cb [v] = r at hcopy ⊢
    obtain ⟨cb₁, n⟩ := r
    dsimp only at hcopy ⊢
    unfold putNext
    rcases hcopy with rfl | ⟨rfl, hfull⟩
    · exact .inl ⟨rfl, rfl⟩
    · simp only [if_pos hfull]
      exact ⟨rfl, rfl⟩
  · exact .inr ⟨by decide, rfl⟩

theorem leaveWait_error {ret : Result} (h : ret = Result.ok ∨ ret < 0) :
    (leaveWait cb ret).2 = Result.ok ∨ (leaveWait cb ret).2 < 0 := by
  have hwoken : Result.wakeupRequested < 0 := by decide
  have hstopped : Result.notOperational < 0 := by decide
  unfold leaveWait
  dsimp only
  by_cases hawake : ret = Result.ok ∧ cb.isAwakened = true
  · rw [if_pos hawake]
    split
    · exact .inr hwoken
    · exact .inr hstopped
  · rw [if_neg hawake]
    exact h

theorem leaveWait_bounded (hb : Bounded cb) (ret : Result) : Bounded (leaveWait cb ret).1 := by
  unfold leaveWait
  dsimp only
  split_ifs <;> exact hb

theorem resume_single (hb : Bounded cb) (hl : l.nCopy = 0) {valsz : Nat} {nsec : Chrono}
    {ret : Result} (hret : ret = Result.ok ∨ ret < 0) (waitEnd now : Chrono) :
    SingleOk v (resume cb (.putN [v] valsz nsec) l ret waitEnd now).ins
      (resume cb (.putN [v] valsz nsec) l ret waitEnd now).next := by
  have htimedout : Result.timedout < 0 := by decide
  unfold resume
  dsimp only
  have hleave : (leaveWait cb ret).2 = Result.ok ∨ (leaveWait cb ret).2 < 0 :=
    leaveWait_error hret
  have hbound := leaveWait_bounded hb ret
  generalize leaveWait cb ret = r at hleave hbound ⊢
  obtain ⟨cb₁, ret₁⟩ := r
  dsimp only at hleave hbound ⊢
  by_cases hok : ret₁ = Result.ok
  · rw [if_pos hok]
    cases timeLeft nsec l waitEnd with
    | some timeout => exact putRound_single hbound (l := { l with ret := ret₁, timeout }) hl now
    | none => exact .inr ⟨htimedout, rfl⟩
  · rw [if_neg hok]
    exact .inr ⟨hleave.resolve_left hok, rfl⟩

variable [Zero α]

theorem start_single (hb : Bounded cb) (valsz : Nat) {nsec : Chrono} (hnsec : nsec < 0)
    (now : Chrono) :
    SingleOk v (start cb (.putN [v] valsz nsec) now).ins
      (start cb (.putN [v] valsz nsec) now).next := by
  have hne : nsec ≠ 0 := Int.ne_of_lt hnsec
  unfold start
  dsimp only
  by_cases hsize : valsz = cb.elementSize
  · rw [if_pos ⟨hsize, by simp, hne⟩]
    exact putRound_single hb rfl now
  · rw [if_neg fun h => hsize h.1]
    unfold putNow
    rw [if_neg hsize]
    have hargs : Result.invalidArgs < 0 := by decide
    exact .inr ⟨hargs, rfl⟩

/-! ## Runs -/

variable {κ : Type} [DecidableEq κ] {s s' : Calls κ α} {k : κ}

/-- What the put of `v` that is the call `k` has done so far. -/
def SingleAt (s : Calls κ α) (k : κ) (v : α) : Prop :=
  match s.pc k with
  | .outside => s.insertedBy k = []
  | .waiting c _ _ _ l => ∀ valsz nsec, c = .putN [v] valsz nsec → nsec < 0 →
      l.nCopy = 0 ∧ s.insertedBy k = []
  | .returned c ret _ _ => ∀ valsz nsec, c = .putN [v] valsz nsec → nsec < 0 →
      ret = 1 ∧ s.insertedBy k = [v] ∨ ret < 0 ∧ s.insertedBy k = []

omit [Zero α] in
theorem SingleAt.commit_self {c : Call α} {seg : Segment α}
    (h : ∀ valsz nsec, c = .putN [v] valsz nsec → nsec < 0 →
      s.insertedBy k = [] ∧ SingleOk v seg.ins seg.next) :
    SingleAt (commit s k c seg) k v := by
  unfold SingleAt
  rw [insertedBy_commit, if_pos rfl]
  simp only [commit, Function.update_self]
  revert h
  cases seg.next with
  | wait cond t l =>
    intro h valsz nsec hc hnsec
    obtain ⟨hnone, hl, hins⟩ := h valsz nsec hc hnsec
    exact ⟨hl, by rw [hnone, hins, List.append_nil]⟩
  | done ret nActual buf =>
    intro h valsz nsec hc hnsec
    obtain ⟨hnone, hret⟩ := h valsz nsec hc hnsec
    rw [hnone, List.nil_append]
    exact hret

omit [Zero α] in
theorem SingleAt.commit_ne {k' : κ} {c : Call α} {seg : Segment α} (h : SingleAt s k' v)
    (hk : k' ≠ k) : SingleAt (commit s k c seg) k' v := by
  unfold SingleAt at h ⊢
  rw [insertedBy_commit, if_neg hk]
  simpa only [commit, Function.update_of_ne hk] using h

theorem SingleAt.step {e : Event κ α} (hb : Bounded s.cb) (h : ∀ k v, SingleAt s k v)
    (hs : step s e = some s') (k' : κ) (v : α) : SingleAt s' k' v := by
  obtain ⟨k, c, now, -, hpc, rfl⟩ |
    ⟨k, c, cond, since, t, l, how, waitEnd, now, -, hpc, -, rfl⟩ := step_cases hs
  · by_cases hk : k' = k
    · subst hk
      refine .commit_self fun valsz nsec hc hnsec => ?_
      subst hc
      have hnone := h k' v
      unfold SingleAt at hnone
      rw [hpc] at hnone
      exact ⟨hnone, start_single hb valsz hnsec now⟩
    · exact (h k' v).commit_ne hk
  · by_cases hk : k' = k
    · subst hk
      refine .commit_self fun valsz nsec hc hnsec => ?_
      subst hc
      have hwait := h k' v
      unfold SingleAt at hwait
      rw [hpc] at hwait
      obtain ⟨hl, hnone⟩ := hwait valsz nsec rfl hnsec
      refine ⟨hnone, resume_single hb hl ?_ waitEnd now⟩
      cases how
      · exact .inl rfl
      · exact .inl rfl
      · exact .inr (by decide)
    · exact (h k' v).commit_ne hk

/-- **The reply of a put.** Whatever the other calls do, a put of one element with no time limit has
returned 1 and inserted the element, or has returned an error and inserted nothing. -/
theorem single_reply {cb : Cbuffer α} {ok : Calls κ α → Event κ α → Prop} {es : List (Event κ α)}
    (hb : Bounded cb) (hrun : Trans.Run step ok (Calls.init cb) es s) {valsz nActual : Nat}
    {nsec : Chrono} (hnsec : nsec < 0) {ret : Result} {buf : List α}
    (hpc : s.pc k = .returned (.putN [v] valsz nsec) ret nActual buf) :
    ret = 1 ∧ s.insertedBy k = [v] ∨ ret < 0 ∧ s.insertedBy k = [] := by
  have hinv := hrun.inv (I := fun s => Bounded s.cb ∧ ∀ k v, SingleAt s k v)
    (fun _ _ _ h _ hs => ⟨(counted_step hs).2 h.1, SingleAt.step h.1 h.2 hs⟩)
    ⟨hb, fun _ _ => rfl⟩
  have h := hinv.2 k v
  unfold SingleAt at h
  rw [hpc] at h
  exact h valsz nsec rfl hnsec

end Cbuffer
end Gallus
