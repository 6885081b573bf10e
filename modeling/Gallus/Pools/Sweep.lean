import Gallus.Pools.Exclusive
import Gallus.Pools.Whole

/-!
# The last slot of an `index` pool

`m_obj_idx` of an `index` pool is its last slot with a poolable. `acquire_poolable_by_index` looks
up to it; the scan of `acquire_poolable` and the loops of `shutdown`, `cancel` and `wait` stop short
of it.

* `Filled`: what every run keeps of the slots, the adds of other callers included.
* `Pool.acquireNow`: `acquire_poolable` with the time-out `0`. `Pool.record`: the record that the
  other functions read.
* `reaches_iff_belowLast`: when the calls find a free poolable, or reach all of them.
  `lastMissed`: a pool with two poolables.
-/

namespace Gallus
namespace Pools

open Locks

variable {τ : Type} [DecidableEq τ] {s s' : Pool τ} {t : τ} {q : Point}

/-! ## The slots -/

/-- No slot behind `m_obj_idx` is filled, and it is itself filled if any is. -/
structure Filled (s : Pool τ) : Prop where
  type : s.type = .index
  points : ∀ t, (s.point t).fits .index s.nMax
  filled : ∀ i p, s.objs i = some p → i ≤ s.objIdx ∧ s.slot p = i ∧ p < s.made
  last : s.objs s.objIdx = none → s.objIdx = 0
  runs : s.crashed = false

omit [DecidableEq τ] in
theorem filled_create {nMax : Nat} (h : Pool.create .index nMax = some s) : Filled s := by
  unfold Pool.create at h
  split at h
  · cases h
    exact ⟨rfl, fun _ => trivial, nofun, fun _ => rfl, rfl⟩
  · cases h

/-- A segment that leaves the slots alone. -/
theorem Filled.move {l : Option τ} {r : τ → Result} {o : τ → Option Nat} {b : Nat → Bool} {n : Nat}
    {hs : Nat → List τ} (h : Filled s) (hq : q.fits .index s.nMax) :
    Filled { s with
      point := Function.update s.point t q, ret := r, out := o, lck := l, isUsed := b, nFree := n
      holders := hs } :=
  ⟨h.type, fits_update h.points hq, h.filled, h.last, h.runs⟩

theorem Filled.leave (h : Filled s) (r : Result) : Filled (s.leave t r) := h.move trivial

omit [DecidableEq τ] in
/-- A new poolable in the slot `index`. -/
theorem Filled.make {n index : Nat} (h : Filled s) :
    Filled { s.make index with objIdx := max s.objIdx index, nCur := n } := by
  refine ⟨h.type, h.points, fun i p hp => ?_, fun hnone => ?_, h.runs⟩
  · dsimp only [Pool.make] at hp ⊢
    by_cases hi : i = index
    · subst hi
      rw [Function.update_self] at hp
      cases hp
      exact ⟨le_max_right _ _, Function.update_self .., Nat.lt_succ_self _⟩
    · rw [Function.update_of_ne hi] at hp
      obtain ⟨hle, hslot, hmade⟩ := h.filled i p hp
      rw [Function.update_of_ne hmade.ne]
      exact ⟨hle.trans (le_max_left _ _), hslot, Nat.lt_succ_of_lt hmade⟩
  · dsimp only [Pool.make] at hnone ⊢
    by_cases hlt : s.objIdx ≤ index
    · rw [max_eq_right hlt, Function.update_self] at hnone
      cases hnone
    · rw [max_eq_left (by omega), Function.update_of_ne (by omega)] at hnone
      have := h.last hnone
      omega

theorem Filled.go {m : Making} (h : Filled s) (hgo : s.go t m = some s') : Filled s' := by
  have hfits := h.points t
  unfold Pool.go at hgo
  split at hgo
  · cases hgo
  · cases hgo
  · split_ifs at hgo
    cases hgo
    cases m with
    | done => exact h.make.move trivial
    | createFails r => exact h.leave r
    | setupFails => exact h.move trivial
  · split_ifs at hgo
    cases hgo
    exact h.move trivial
  · split_ifs at hgo
    rw [Option.map_eq_some_iff] at hgo
    obtain ⟨p, -, rfl⟩ := hgo
    exact h.move trivial
  · next hpt => exact nomatch hpt ▸ hfits
  · next hpt => exact nomatch hpt ▸ hfits
  · next hpt => exact nomatch hpt ▸ hfits
  · next hpt => exact nomatch hpt ▸ hfits
  · split_ifs at hgo
    cases hgo
    unfold Pool.releaseRegion
    split
    · split_ifs
      · exact h.move trivial
      · exact h.leave _
    · next hq => exact nomatch hq.symm.trans h.type
  · next hpt => exact nomatch hpt ▸ hfits

/-- **Each step keeps the slots filled.** -/
theorem Filled.step {e : Event τ} (h : Filled s) (hstep : s.step e = some s') : Filled s' := by
  unfold Pool.step at hstep
  split_ifs at hstep
  cases e with
  | add t index =>
    dsimp only at hstep
    split_ifs at hstep
    cases hstep
    unfold Pool.add
    split_ifs with hadd
    · exact h.move ⟨rfl, hadd.2.1⟩
    · exact h.leave _
  | acquire t =>
    dsimp only at hstep
    split_ifs at hstep
    cases hstep
    unfold Pool.acquire
    split
    · exact h.move rfl
    · next hq => exact nomatch hq.symm.trans h.type
  | acquireByIndex t index =>
    dsimp only at hstep
    split_ifs at hstep
    cases hstep
    unfold Pool.acquireByIndex
    split_ifs
    · split
      · exact h.move rfl
      · exact h.leave _
    · exact h.leave _
  | release t p =>
    dsimp only at hstep
    split_ifs at hstep
    cases hstep
    unfold Pool.release
    split
    · split_ifs
      · exact h.move trivial
      · exact h.leave _
    · next hq => exact nomatch hq.symm.trans h.type
  | go t m => exact h.go hstep
  | giveUp t r =>
    dsimp only at hstep
    split_ifs at hstep
    cases hstep
    exact h.leave _

/-- The slot has a poolable, and it is free. -/
def Pool.freeAt (s : Pool τ) (i : Nat) : Prop := ∃ p, s.objs i = some p ∧ s.isUsed p = false

/-- No poolable is registered. -/
def Pool.isEmpty (s : Pool τ) : Prop := ∀ i, s.objs i = none

omit [DecidableEq τ] in
theorem Filled.isEmpty_iff (h : Filled s) : s.isEmpty ↔ s.objs s.objIdx = none := by
  refine ⟨fun hall => hall _, fun hnone i => ?_⟩
  by_contra hi
  obtain ⟨p, hp⟩ := Option.ne_none_iff_exists'.mp hi
  have hle := (h.filled i p hp).1
  rw [h.last hnone, Nat.le_zero] at hle
  rw [h.last hnone, ← hle, hp] at hnone
  cases hnone

/-! ## A free poolable -/

/-- `gallus_pool_acquire_poolable` with the time-out `0`, with nobody in between: its wait for a
free poolable ends at once. -/
def Pool.acquireNow (s : Pool τ) (t : τ) : Option (Pool τ) :=
  (s.step (.acquire t)).bind fun s₁ =>
    if s₁.firstFree.isSome then s₁.step (.go t .done) else s₁.step (.giveUp t Result.timedout)

/-- If there is a free poolable, the call returns one. -/
def FindsFree (s : Pool τ) (t : τ) : Prop :=
  (∃ i, s.freeAt i) → ∃ s' i p, s.acquireNow t = some s' ∧ s'.ret t = Result.ok ∧
    s'.out t = some p ∧ s.objs i = some p ∧ s.isUsed p = false

omit [DecidableEq τ] in
theorem firstFree_eq_none : s.firstFree = none ↔ ∀ i < s.objIdx, ¬s.freeAt i := by
  unfold Pool.firstFree Pool.freeAt
  rw [List.findSome?_eq_none_iff]
  simp only [List.mem_range, Option.filter_eq_none_iff]
  grind

theorem Filled.acquireNow (h : Filled s) (hidle : s.point t = .idle) (hlck : s.lck = none) :
    ∃ s', s.acquireNow t = some s' ∧ s'.out t = s.firstFree ∧
      s'.ret t = if s.firstFree.isSome then Result.ok else Result.timedout := by
  obtain ⟨s₁, hhead, hfirst, hout, hpoint, hcrash, hlock⟩ : ∃ s₁, s.step (.acquire t) = some s₁ ∧
      s₁.firstFree = s.firstFree ∧ s₁.out t = none ∧ s₁.point t = .scanning ∧
      s₁.crashed = false ∧ s₁.lck = none := by
    refine ⟨{ s with out := Function.update s.out t none }.moveTo t .scanning, ?_, rfl,
      Function.update_self .., Function.update_self .., h.runs, hlck⟩
    simp only [Pool.step, h.runs, hidle, Pool.acquire, h.type]
    rfl
  unfold Pool.acquireNow
  rw [hhead, Option.bind_some, hfirst]
  cases hfree : s.firstFree with
  | some p =>
    refine ⟨s₁.handOut t p, ?_, Function.update_self .., Function.update_self ..⟩
    simp only [Option.isSome_some, if_true, Pool.step, hcrash, Pool.go, hpoint, hlock, hfirst,
      hfree, Option.map_some]
    rfl
  | none =>
    refine ⟨s₁.leave t Result.timedout, ?_, hout, Function.update_self ..⟩
    simp only [Option.isSome_none, Pool.step, hcrash, hpoint]
    rfl

/-- The call finds a free poolable unless only the last slot has one. -/
theorem Filled.findsFree_iff (h : Filled s) (hidle : s.point t = .idle) (hlck : s.lck = none) :
    FindsFree s t ↔ (s.freeAt s.objIdx → ∃ i < s.objIdx, s.freeAt i) := by
  obtain ⟨s', hrun, hout, hret⟩ := h.acquireNow hidle hlck
  constructor
  · intro hfinds hlast
    obtain ⟨s'', i, p, hrun', -, hout', -⟩ := hfinds ⟨_, hlast⟩
    obtain rfl : s' = s'' := Option.some.inj (hrun.symm.trans hrun')
    by_contra hnone
    have hfirst := firstFree_eq_none.mpr fun i hi hfree => hnone ⟨i, hi, hfree⟩
    rw [hout', hfirst] at hout
    cases hout
  · rintro hlast ⟨i, p, hp, hunused⟩
    obtain ⟨j, hj, hfree⟩ : ∃ j < s.objIdx, s.freeAt j := by
      rcases (h.filled i p hp).1.lt_or_eq with hlt | rfl
      · exact ⟨i, hlt, p, hp, hunused⟩
      · exact hlast ⟨p, hp, hunused⟩
    cases hfirst : s.firstFree with
    | none => exact absurd hfree (firstFree_eq_none.mp hfirst j hj)
    | some p' =>
      obtain ⟨i', hp', hunused'⟩ := firstFree_eq_some hfirst
      rw [hfirst] at hout hret
      exact ⟨s', i', p', hrun, hret, hout, hp', hunused'⟩

/-! ## All poolables -/

variable {ν : Type}

/-- The record, in the given state. -/
def Pool.record (s : Pool τ) (state : PoolState) : PoolRec :=
  ⟨s.type, state, false, s.nMax, s.objIdx, s.nFree, s.objs⟩

/-- A call returns, and each poolable's own function has been called once. -/
def ReachesAll (s : Pool τ) (m : Call ν Result) : Prop :=
  ∀ h, ∃ ret h' cs, m.run h = some (ret, h') ∧ h'.own.calls = h.own.calls ++ cs ∧
    ∀ i p, s.objs i = some p → cs.count p = 1

/-- The function of a poolable in front of the last slot is called. -/
def CallsBelow (p : PoolRec) (s s' : Shared ν) : Prop :=
  ∃ i < p.objIdx, ∃ pobj, p.objs i = some pobj ∧ s' = { s with calls := s.calls ++ [pobj] }

theorem CallsBelow.calls {p : PoolRec} {s s' : Shared ν}
    (h : Relation.ReflTransGen (CallsBelow p) s s') :
    ∃ cs, s'.calls = s.calls ++ cs ∧ ∀ pobj ∈ cs, ∃ i < p.objIdx, p.objs i = some pobj := by
  induction h with
  | refl => exact ⟨[], (List.append_nil _).symm, nofun⟩
  | tail _ hstep ih =>
    obtain ⟨cs, hcs, hbelow⟩ := ih
    obtain ⟨i, hi, pobj, hpobj, rfl⟩ := hstep
    refine ⟨cs ++ [pobj], by rw [hcs, List.append_assoc], fun pobj' hmem => ?_⟩
    rcases List.mem_append.mp hmem with hmem | hmem
    · exact hbelow pobj' hmem
    · obtain rfl := List.mem_singleton.mp hmem
      exact ⟨i, hi, hpobj⟩

variable {p : PoolRec}

theorem individually_completes (ret : Nat → Result) {i : Nat} (hi : i < p.objIdx) :
    Completes (CallsBelow p) (individually ret (p.objs i) : Call ν _) := by
  cases hpobj : p.objs i with
  | none => exact .pure _
  | some pobj =>
    exact (Completes.change fun s => ⟨i, hi, pobj, hpobj, rfl⟩).bind fun _ => .pure _

theorem sweep_completes (ret : Nat → Result) {slots : List Nat}
    (hslots : ∀ i ∈ slots, i < p.objIdx) (s : Sweep) :
    Completes (CallsBelow p) (sweep p.objs ret slots s : Call ν _) := by
  induction slots generalizing s with
  | nil => exact .pure _
  | cons i slots ih =>
    obtain ⟨hi, htail⟩ := List.forall_mem_cons.mp hslots
    exact (individually_completes ret hi).bind fun r => ih htail _

theorem wakeup_completes {R : Shared ν → Shared ν → Prop} (q : PoolRec) (w : Waking) :
    Completes R (wakeup (some q) w) := by
  unfold wakeup
  dsimp only
  split
  · split
    · exact Completes.lock.bind fun _ => (Completes.pure _).bind fun _ =>
        Completes.lock.bind fun _ => .pure _
    · exact .pure _
  · exact .pure _

theorem shutdown_completes (w : Waking) (ret : Nat → Result) :
    Completes (CallsBelow p) (shutdown (some p) w ret : Call ν _) := by
  unfold shutdown
  dsimp only
  split
  · refine .locked ((wakeup_completes _ _).bind fun r => ?_)
    split
    · exact sweep_completes _ (fun i => List.mem_range.mp) _
    · exact .pure _
  · exact .pure _

theorem cancel_completes (ret : Nat → Result) :
    Completes (CallsBelow p) (cancel (some p) ret : Call ν _) := by
  unfold cancel
  dsimp only
  split_ifs
  · exact .locked (sweep_completes _ (fun i => List.mem_range.mp) _)
  all_goals exact .pure _

theorem waitRound_completes (ret : Nat → Result) {slots : List Nat}
    (hslots : ∀ i ∈ slots, i < p.objIdx) (s : Result × Nat) :
    Completes (CallsBelow p) (waitRound p.objs ret slots s : Call ν _) := by
  induction slots generalizing s with
  | nil => exact .pure _
  | cons i slots ih =>
    obtain ⟨hi, htail⟩ := List.forall_mem_cons.mp hslots
    exact (individually_completes ret hi).bind fun r => ih htail _

theorem waitRounds_moves (timeout : Int) (w : Waiting) (rounds k : Nat) (ret : Result) :
    Moves (CallsBelow p) (waitRounds p timeout w rounds k ret : Call ν _) := by
  induction rounds generalizing k ret with
  | zero => exact .failure
  | succ rounds ih =>
    refine (waitRound_completes _ (fun i => List.mem_range.mp) _).moves.bind fun r => ?_
    split
    · exact ih _ _
    · exact .pure _

theorem wait_moves (timeout : Int) (w : Waiting) :
    Moves (CallsBelow p) (wait (some p) timeout w : Call ν _) := by
  unfold wait
  dsimp only
  split_ifs
  · exact .locked (waitRounds_moves _ _ _ _ _)
  all_goals exact .pure _

/-- A wait with nothing to wait for ends after its first round. -/
theorem wait_completes (hp : p.objIdx = 0) (timeout : Int) {w : Waiting} (hw : 0 < w.rounds) :
    Completes (CallsBelow p) (wait (some p) timeout w : Call ν _) := by
  obtain ⟨n, hn⟩ := Nat.exists_eq_add_of_lt hw
  unfold wait
  dsimp only
  split_ifs
  · refine .locked ?_
    rw [hn]
    unfold waitRounds
    rw [hp]
    exact .pure _
  all_goals exact .pure _

omit [DecidableEq τ] in
/-- What stops short of the last slot reaches all poolables only if there are none. -/
theorem Filled.reachesAll_iff (h : Filled s) {state : PoolState} {m : Call ν Result}
    (hmoves : Moves (CallsBelow (s.record state)) m)
    (hreturns : s.isEmpty → Completes (CallsBelow (s.record state)) m) :
    ReachesAll s m ↔ s.isEmpty := by
  constructor
  · intro hall
    by_contra hnot
    rw [h.isEmpty_iff] at hnot
    obtain ⟨p, hp⟩ := Option.ne_none_iff_exists'.mp hnot
    obtain ⟨ret, h', cs, hrun, hcs, hcount⟩ := hall ⟨0, [], fun _ => none, fun _ => false, 0⟩
    obtain ⟨cs', hcs', hbelow⟩ := CallsBelow.calls (hmoves _ _ _ hrun)
    obtain rfl : cs = cs' := List.append_cancel_left (hcs.symm.trans hcs')
    have hmem : p ∈ cs := List.count_pos_iff.mp (by rw [hcount _ p hp]; exact Nat.one_pos)
    obtain ⟨i, hi, hip⟩ := hbelow p hmem
    have hslot := (h.filled i p hip).2.1.symm.trans (h.filled _ p hp).2.1
    exact absurd hslot hi.ne
  · intro hempty g
    obtain ⟨ret, g', hrun, hsteps⟩ := hreturns hempty g
    obtain ⟨cs, hcs, -⟩ := CallsBelow.calls hsteps
    exact ⟨ret, g', cs, hrun, hcs, fun i p hp => nomatch (hempty i).symm.trans hp⟩

/-! ## In every run -/

/-- **The last slot is missed.** In each state of an `index` pool, an acquisition with the time-out
`0` finds a free poolable, if there is one, exactly unless only the last slot has one. A shutdown, a
cancel or a wait, whatever it comes to, reaches all poolables exactly if there are none. -/
theorem reaches_iff_belowLast {nMax : Nat} {s₀ : Pool τ} {es : List (Event τ)}
    (hcreate : Pool.create .index nMax = some s₀) (hrun : Trans.run Pool.step s₀ es = some s) :
    (∀ t, s.point t = .idle → s.lck = none →
      (FindsFree s t ↔ (s.freeAt s.objIdx → ∃ i < s.objIdx, s.freeAt i))) ∧
    (∀ w ret, ReachesAll s (shutdown (some (s.record .operational)) w ret : Call ν _) ↔
      s.isEmpty) ∧
    (∀ state ret, ReachesAll s (cancel (some (s.record state)) ret : Call ν _) ↔ s.isEmpty) ∧
    ∀ timeout w, 0 < w.rounds →
      (ReachesAll s (wait (some (s.record .shuttingdown)) timeout w : Call ν _) ↔ s.isEmpty) := by
  have hany : Trans.Run Pool.step (fun _ _ => True) s₀ es s := .of_run (fun _ _ _ => trivial) hrun
  have h : Filled s := hany.inv (fun _ _ _ hs _ hst => hs.step hst) (filled_create hcreate)
  refine ⟨fun t hidle hlck => h.findsFree_iff hidle hlck, fun w ret => ?_, fun state ret => ?_,
    fun timeout w hw => ?_⟩
  · exact h.reachesAll_iff (shutdown_completes w ret).moves fun _ => shutdown_completes w ret
  · exact h.reachesAll_iff (cancel_completes ret).moves fun _ => cancel_completes ret
  · refine h.reachesAll_iff (wait_moves timeout w) fun hempty => wait_completes ?_ timeout hw
    exact h.last (hempty _)

/-- Two poolables are added to a pool. -/
def twoAdded : List (Event (Fin 1)) :=
  [.add 0 0, .go 0 .done, .add 0 1, .go 0 .done]

theorem reaches_iff_belowLast_two : ∃ s₀ s : Pool (Fin 1), Pool.create .index 2 = some s₀ ∧
    Trans.run Pool.step s₀ twoAdded = some s ∧ FindsFree s 0 ∧
    ¬ReachesAll s (cancel (some (s.record .operational)) fun _ => Result.ok : Call Nat _) := by
  obtain ⟨s₀, s, hcreate, hrun, hidle, hlck, h₀, h₁⟩ : ∃ s₀ s : Pool (Fin 1),
      Pool.create .index 2 = some s₀ ∧ Trans.run Pool.step s₀ twoAdded = some s ∧
      s.point 0 = .idle ∧ s.lck = none ∧ s.objs 0 = some 0 ∧ s.isUsed 0 = false ∧ s.objIdx = 1 :=
    ⟨_, _, rfl, rfl, by decide⟩
  obtain ⟨hfinds, -, hcancel, -⟩ := reaches_iff_belowLast (ν := Nat) hcreate hrun
  refine ⟨s₀, s, hcreate, hrun, (hfinds 0 hidle hlck).mpr fun _ => ⟨0, by omega, 0, h₀, h₁.1⟩, ?_⟩
  intro hall
  exact nomatch ((hcancel .operational _).mp hall 0).symm.trans h₀

/-- **The last poolable is missed.** Of the two, one is acquired; the other is free, and the next
acquisition times out. A shutdown that goes well calls the first alone. -/
theorem lastMissed : ∃ s₀ s s' : Pool (Fin 1), Pool.create .index 2 = some s₀ ∧
    Trans.run Pool.step s₀ (twoAdded ++ [.acquire 0, .go 0 .done]) = some s ∧ s.freeAt 1 ∧
    s.acquireNow 0 = some s' ∧ s'.ret 0 = Result.timedout ∧ ¬FindsFree s 0 ∧
    ¬ReachesAll s (shutdown (some (s.record .operational)) ⟨Result.ok, 0, Result.ok, Result.ok⟩
      fun _ => Result.ok : Call Nat _) := by
  refine ⟨_, _, _, rfl, rfl, ⟨1, rfl, rfl⟩, rfl, rfl, fun hfinds => ?_, fun hall => ?_⟩
  · obtain ⟨s', i, p, hrun, hret, -⟩ := hfinds ⟨1, 1, rfl, rfl⟩
    cases hrun
    exact absurd hret (by decide)
  · obtain ⟨ret, h', cs, hrun, hcs, hcount⟩ := hall ⟨0, [], fun _ => none, fun _ => false, 0⟩
    cases hrun
    obtain rfl : [0] = cs := hcs
    exact absurd (hcount 1 1 rfl) (by decide)

end Pools
end Gallus
