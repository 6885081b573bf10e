import Gallus.Thread.Record
import Mathlib.Data.List.Count

/-!
# The runs of a thread object, abstractly

Of a run only its phase matters, and how often it has called the finalization procedure; of the
record, whether a run is activated, and the count of finalizations.

* `View`, `Move`: this abstract machine. The proposition in a `Move` is what it takes for the move
  to be in turn: a run is spawned only if none has yet to begin, and the object is destroyed only if
  none has yet to be finalized.
* `step_isMove`: each step of a thread object is a move.
* `Single`: the invariant of the moves in turn. `Crowded`: what is left of it otherwise, until a run
  ends without its finalization.
-/

namespace Gallus
namespace Thread

inductive Phase
  | spawned
  | entered
  | ended
  deriving DecidableEq

def RunPoint.phase : RunPoint → Phase
  | .spawned => .spawned
  | .acking | .main | .finalizing _ _ | .locked _ => .entered
  | .notifying _ | .deleting | .waiting | .ended => .ended

/-- A run: its phase, and the calls of the finalization procedure by it. -/
abbrev RunView := Phase × Nat

structure View where
  runs : List RunView
  count : Nat
  activated : Bool
  destroyed : Bool

/-- A step of the abstract machine, and when it is in turn. -/
inductive Move (hasFinalProc : Bool) : View → Prop → View → Prop
  | quiet (v : View) : Move hasFinalProc v True v
  | spawn (v : View) (hact : v.activated = false) (hlive : v.destroyed = false) :
    Move hasFinalProc v (∀ x ∈ v.runs, x.1 ≠ .spawned)
      { v with runs := v.runs ++ [(.spawned, 0)], count := 0 }
  | enter (v : View) (r n : Nat) (hr : v.runs[r]? = some (.spawned, n)) :
    Move hasFinalProc v True { v with runs := v.runs.set r (.entered, n), activated := true }
  | final (v : View) (r n : Nat) (hr : v.runs[r]? = some (.entered, n))
    (hlive : v.destroyed = false) :
    Move hasFinalProc v True
      { v with
        runs := v.runs.set r
          (.ended, if hasFinalProc = true ∧ v.count = 0 then n + 1 else n)
        count := v.count + 1
        activated := false }
  | lose (v : View) (r n : Nat) (hr : v.runs[r]? = some (.entered, n))
      (hlost : v.destroyed = true) :
    Move hasFinalProc v True { v with runs := v.runs.set r (.ended, n) }
  | destroy (v : View) :
    Move hasFinalProc v (∀ x ∈ v.runs, x.1 = .ended) { v with destroyed := true }

namespace View

/-- The runs that have yet to begin, and those that have yet to be finalized. -/
def nSpawned (v : View) : Nat := v.runs.countP fun x => x.1 = .spawned
def nEntered (v : View) : Nat := v.runs.countP fun x => x.1 = .entered

end View

/-! ## The moves in turn -/

/-- At most one run has not been finalized, and it is the activated one from its entry on. -/
structure Single (hasFinalProc : Bool) (v : View) : Prop where
  live : v.nSpawned + v.nEntered ≤ 1
  entered : v.nEntered = if v.activated then 1 else 0
  count : v.count ≠ 0 → v.nSpawned + v.nEntered = 0
  gone : v.destroyed = true → v.nSpawned + v.nEntered = 0
  before : ∀ x ∈ v.runs, x.1 ≠ .ended → x.2 = 0
  after : ∀ x ∈ v.runs, x.1 = .ended → x.2 = if hasFinalProc then 1 else 0

section Counts

variable {v : View} {l : List RunView} {r n : Nat} {x y : RunView} {p : RunView → Bool}

/-- How a count changes when one run moves. -/
theorem countP_set (hr : l[r]? = some x) :
    (l.set r y).countP p + (if p x then 1 else 0) = l.countP p + if p y then 1 else 0 := by
  obtain ⟨hlt, hx⟩ := List.getElem?_eq_some_iff.mp hr
  have hle : (if p x = true then 1 else 0) ≤ l.countP p := by
    split
    · next hp => exact List.countP_pos_iff.mpr ⟨x, hx ▸ List.getElem_mem hlt, hp⟩
    · exact Nat.zero_le _
  rw [List.countP_set hlt, hx]
  omega

theorem forall_mem_set {q : RunView → Prop} (h : ∀ x ∈ l, q x) (hy : q y) :
    ∀ x ∈ l.set r y, q x := by
  intro x hx
  rcases List.mem_or_eq_of_mem_set hx with hmem | rfl
  · exact h x hmem
  · exact hy

theorem forall_mem_snoc {q : RunView → Prop} (h : ∀ x ∈ l, q x) (hy : q y) :
    ∀ x ∈ l ++ [y], q x := by
  intro x hx
  rcases List.mem_append.mp hx with hmem | hmem
  · exact h x hmem
  · obtain rfl := List.mem_singleton.mp hmem
    exact hy

/-- The counts after one run has moved on. -/
theorem counts_set (hr : v.runs[r]? = some x) (v' : View) (hv : v'.runs = v.runs.set r y) :
    v'.nSpawned + (if x.1 = .spawned then 1 else 0) =
        v.nSpawned + (if y.1 = .spawned then 1 else 0) ∧
      v'.nEntered + (if x.1 = .entered then 1 else 0) =
        v.nEntered + (if y.1 = .entered then 1 else 0) := by
  have hs := countP_set (y := y) (p := fun x => decide (x.1 = .spawned)) hr
  have he := countP_set (y := y) (p := fun x => decide (x.1 = .entered)) hr
  simp only [decide_eq_true_eq] at hs he
  unfold View.nSpawned View.nEntered
  rw [hv]
  exact ⟨hs, he⟩

theorem nSpawned_eq_zero : v.nSpawned = 0 ↔ ∀ x ∈ v.runs, x.1 ≠ .spawned := by
  unfold View.nSpawned
  simp [List.countP_eq_zero]

theorem nEntered_eq_zero : v.nEntered = 0 ↔ ∀ x ∈ v.runs, x.1 ≠ .entered := by
  unfold View.nEntered
  simp [List.countP_eq_zero]

/-- No run is live. -/
theorem live_eq_zero : v.nSpawned + v.nEntered = 0 ↔ ∀ x ∈ v.runs, x.1 = .ended := by
  rw [Nat.add_eq_zero_iff, nSpawned_eq_zero, nEntered_eq_zero]
  constructor
  · rintro ⟨hs, he⟩ x hx
    have := hs x hx
    have := he x hx
    cases hp : x.1 <;> simp_all
  · intro h
    exact ⟨fun x hx => by simp [h x hx], fun x hx => by simp [h x hx]⟩

end Counts

variable {hasFinalProc : Bool} {v v' : View} {c : Prop}

/-- **A move in turn.** -/
theorem Single.move (h : Single hasFinalProc v) (hm : Move hasFinalProc v c v') (hc : c) :
    Single hasFinalProc v' := by
  obtain ⟨hlive, hentered, hcount, hgone, hbefore, hafter⟩ := h
  cases hm with
  | quiet => exact ⟨hlive, hentered, hcount, hgone, hbefore, hafter⟩
  | spawn hact hd =>
    have hs := nSpawned_eq_zero.mpr hc
    rw [hact] at hentered
    have hs' : ({ v with runs := v.runs ++ [(.spawned, 0)], count := 0 } : View).nSpawned = 1 := by
      unfold View.nSpawned at hs ⊢
      simp [List.countP_append, hs]
    have he' : ({ v with runs := v.runs ++ [(.spawned, 0)], count := 0 } : View).nEntered = 0 := by
      unfold View.nEntered at hentered ⊢
      simpa [List.countP_append] using hentered
    refine ⟨by omega, ?_, fun h => absurd rfl h, fun h => ?_, ?_, ?_⟩
    · rw [he', hact]
      rfl
    · rw [hd] at h
      cases h
    · exact forall_mem_snoc hbefore fun _ => rfl
    · exact forall_mem_snoc hafter nofun
  | enter r n hr =>
    obtain ⟨hs, he⟩ := counts_set hr
      { v with runs := v.runs.set r (.entered, n), activated := true } rfl
    simp only [if_true, if_false, reduceCtorEq] at hs he
    have hn : n = 0 := hbefore _ (List.mem_of_getElem? hr) nofun
    refine ⟨by omega, ?_, fun h => ?_, fun h => ?_, ?_, ?_⟩
    · rw [if_pos rfl]
      omega
    · have := hcount h
      omega
    · have := hgone h
      omega
    · exact forall_mem_set hbefore fun _ => hn
    · exact forall_mem_set hafter nofun
  | final r n hr hd =>
    obtain ⟨hs, he⟩ := counts_set hr
      { v with
        runs := v.runs.set r (.ended, if hasFinalProc = true ∧ v.count = 0 then n + 1 else n)
        count := v.count + 1
        activated := false } rfl
    simp only [if_true, if_false, reduceCtorEq] at hs he
    have hzero : v.count = 0 := by
      by_contra hne
      have := hcount hne
      omega
    have hn : n = 0 := hbefore _ (List.mem_of_getElem? hr) nofun
    refine ⟨by omega, ?_, fun _ => by omega, fun _ => by omega, ?_, ?_⟩
    · rw [if_neg Bool.false_ne_true]
      omega
    · exact forall_mem_set hbefore fun h => absurd rfl h
    · refine forall_mem_set hafter fun _ => ?_
      simp [hzero, hn]
  | lose r n hr hd =>
    obtain ⟨-, he⟩ := counts_set hr { v with runs := v.runs.set r (.ended, n) } rfl
    simp only [if_true, if_false, reduceCtorEq] at he
    have := hgone hd
    omega
  | destroy => exact ⟨hlive, hentered, hcount, fun _ => live_eq_zero.mpr hc, hbefore, hafter⟩

/-! ## The other moves -/

/-- Each run that is over has called the finalization procedure once, if there is one. -/
def View.finalized (v : View) (hasFinalProc : Bool) : Prop :=
  ∀ x ∈ v.runs, x.1 = .ended → x.2 = if hasFinalProc then 1 else 0

/-- There are more runs to be finalized than will find the count at zero, or the object is gone
before one. -/
structure Crowded (v : View) : Prop where
  crowd : 2 ≤ v.nSpawned + v.nEntered + (if v.count = 0 then 0 else 1) ∨
    v.destroyed = true ∧ v.nSpawned + v.nEntered ≠ 0
  before : ∀ x ∈ v.runs, x.1 ≠ .ended → x.2 = 0

theorem not_finalized {r : Nat} {l : List RunView} {x : RunView} (hr : l[r]? = some x)
    (hv : v.runs = l.set r (.ended, 0)) : ¬v.finalized true := by
  intro hall
  have hlt := (List.getElem?_eq_some_iff.mp hr).1
  have hmem : (.ended, 0) ∈ v.runs := by
    rw [hv]
    exact List.mem_of_getElem? (List.getElem?_set_self hlt)
  cases hall _ hmem rfl

/-- A move that is not in turn. -/
theorem Single.crowded (h : Single true v) (hm : Move true v c v') (hnot : ¬c) : Crowded v' := by
  cases hm with
  | spawn hact hd =>
    have hs : v.nSpawned ≠ 0 := mt nSpawned_eq_zero.mp hnot
    have hs' : ({ v with runs := v.runs ++ [(.spawned, 0)], count := 0 } : View).nSpawned =
        v.nSpawned + 1 := by
      unfold View.nSpawned
      simp [List.countP_append]
    exact ⟨.inl (by omega), forall_mem_snoc h.before fun _ => rfl⟩
  | destroy => exact ⟨.inr ⟨rfl, mt live_eq_zero.mp hnot⟩, h.before⟩
  | _ => exact absurd trivial hnot

/-- **What is crowded stays so**, until a run is over without its finalization. -/
theorem Crowded.move (h : Crowded v) (hm : Move true v c v') :
    Crowded v' ∨ ¬v'.finalized true := by
  obtain ⟨hcrowd, hbefore⟩ := h
  cases hm with
  | quiet => exact .inl ⟨hcrowd, hbefore⟩
  | spawn hact hd =>
    have hs' : ({ v with runs := v.runs ++ [(.spawned, 0)], count := 0 } : View).nSpawned =
        v.nSpawned + 1 := by
      unfold View.nSpawned
      simp [List.countP_append]
    have he' : ({ v with runs := v.runs ++ [(.spawned, 0)], count := 0 } : View).nEntered =
        v.nEntered := by
      unfold View.nEntered
      simp [List.countP_append]
    refine .inl ⟨.inl ?_, forall_mem_snoc hbefore fun _ => rfl⟩
    rcases hcrowd with hcrowd | ⟨hd', -⟩
    · split at hcrowd
      · omega
      · omega
    · rw [hd] at hd'
      cases hd'
  | enter r n hr =>
    obtain ⟨hs, he⟩ := counts_set hr
      { v with runs := v.runs.set r (.entered, n), activated := true } rfl
    simp only [if_true, if_false, reduceCtorEq] at hs he
    have hn : n = 0 := hbefore _ (List.mem_of_getElem? hr) nofun
    refine .inl ⟨?_, forall_mem_set hbefore fun _ => hn⟩
    rcases hcrowd with hcrowd | ⟨hd, hne⟩
    · refine .inl ?_
      show 2 ≤ _ + _ + (if v.count = 0 then 0 else 1)
      omega
    · exact .inr ⟨hd, by omega⟩
  | final r n hr hd =>
    have hn : n = 0 := hbefore _ (List.mem_of_getElem? hr) nofun
    by_cases hzero : v.count = 0
    · generalize (if true = true ∧ v.count = 0 then n + 1 else n) = m
      obtain ⟨hs, he⟩ := counts_set hr
        { v with
          runs := v.runs.set r (.ended, m)
          count := v.count + 1
          activated := false } rfl
      simp only [if_true, if_false, reduceCtorEq] at hs he
      refine .inl ⟨.inl ?_, forall_mem_set hbefore fun h => absurd rfl h⟩
      rcases hcrowd with hcrowd | ⟨hd', -⟩
      · rw [if_pos hzero] at hcrowd
        rw [if_neg (Nat.succ_ne_zero _)]
        omega
      · rw [hd] at hd'
        cases hd'
    · -- The run finds that another one has been counted.
      refine .inr (not_finalized hr ?_)
      rw [if_neg fun hboth => hzero hboth.2, hn]
  | lose r n hr hd =>
    have hn : n = 0 := hbefore _ (List.mem_of_getElem? hr) nofun
    exact .inr (not_finalized hr (by rw [hn]))
  | destroy =>
    refine .inl ⟨?_, hbefore⟩
    rcases hcrowd with hcrowd | ⟨-, hne⟩
    · exact .inl hcrowd
    · exact .inr ⟨rfl, hne⟩

/-! ## The steps are moves -/

section Steps

variable {κ : Type} {t t' : ThreadRec κ} {e : Event κ} {r : Nat} {s s' : RunState}

def ThreadRec.view (t : ThreadRec κ) : View where
  runs := t.runs.map fun s => (s.point.phase, s.finalProcs)
  count := t.nFinalizedCount
  activated := t.isActivated
  destroyed := t.destroyed

/-- The condition on the steps: a start does not find a run that has yet to begin, and the object is
not destroyed while a run has yet to be finalized. -/
def tidy (t : ThreadRec κ) : Event κ → Prop
  | .call _ (.start _) true =>
    t.destroyed = false → t.isActivated = false → ∀ s ∈ t.runs, s.point ≠ .spawned
  | .run r =>
    (t.runs[r]?.map RunState.point = some .waiting) → t.destroyed = false →
      ∀ s ∈ t.runs, s.point.phase = .ended
  | _ => True

theorem view_getElem? (hr : t.runs[r]? = some s) :
    t.view.runs[r]? = some (s.point.phase, s.finalProcs) := by
  unfold ThreadRec.view
  rw [List.getElem?_map, hr]
  rfl

theorem map_set (l : List RunState) (r : Nat) (s : RunState) :
    (l.set r s).map (fun s => (s.point.phase, s.finalProcs)) =
      (l.map fun s => (s.point.phase, s.finalProcs)).set r (s.point.phase, s.finalProcs) :=
  List.map_set

/-- A run goes on within its phase. -/
theorem view_setRun (s' : RunState) (hr : t.runs[r]? = some s)
    (hphase : s'.point.phase = s.point.phase) (hfinal : s'.finalProcs = s.finalProcs) :
    (t.setRun r s').view = t.view := by
  have hset : (t.setRun r s').view.runs = t.view.runs := by
    show (t.runs.set r s').map _ = t.runs.map _
    rw [map_set, hphase, hfinal]
    obtain ⟨hlt, hget⟩ := List.getElem?_eq_some_iff.mp (view_getElem? hr)
    exact hget ▸ List.set_getElem_self hlt
  exact congrArg (fun l => View.mk l t.nFinalizedCount t.isActivated t.destroyed) hset

theorem cancel_view (t : ThreadRec κ) :
    t.cancel.view = t.view ∧ t.cancel.hasFinalProc = t.hasFinalProc := by
  unfold ThreadRec.cancel
  split
  · split
    · split
      · next hr => exact ⟨view_setRun _ hr rfl rfl, rfl⟩
      · exact ⟨rfl, rfl⟩
    · exact ⟨rfl, rfl⟩
  · exact ⟨rfl, rfl⟩

/-- A run of the same phase that has made the same calls. -/
theorem getElem?_of_view (hview : t'.view = t.view) (hr : t.runs[r]? = some s) :
    ∃ s', t'.runs[r]? = some s' ∧ s'.point.phase = s.point.phase ∧
      s'.finalProcs = s.finalProcs := by
  have h := view_getElem? hr
  rw [← hview] at h
  unfold ThreadRec.view at h
  rw [List.getElem?_map] at h
  obtain ⟨s', hs', heq⟩ := Option.map_eq_some_iff.mp h
  exact ⟨s', hs', (Prod.mk.inj heq).1, (Prod.mk.inj heq).2⟩

/-- What is said of a step. -/
def IsMove (t : ThreadRec κ) (e : Event κ) (t' : ThreadRec κ) : Prop :=
  t'.hasFinalProc = t.hasFinalProc ∧ ∃ c, Move t.hasFinalProc t.view c t'.view ∧ (tidy t e ↔ c)

theorem IsMove.quiet (hfinal : t'.hasFinalProc = t.hasFinalProc) (hview : t'.view = t.view)
    (htidy : tidy t e) : IsMove t e t' :=
  ⟨hfinal, True, hview ▸ .quiet _, iff_of_true htidy trivial⟩

theorem setRun_view (t : ThreadRec κ) (r : Nat) (s : RunState) :
    (t.setRun r s).view =
      { t.view with runs := t.view.runs.set r (s.point.phase, s.finalProcs) } :=
  congrArg (fun l => View.mk l t.nFinalizedCount t.isActivated t.destroyed) (map_set ..)

/-- The finalization of a run whose object is gone. -/
theorem lose_move (hr : t.runs[r]? = some s) (hphase : s.point.phase = .entered)
    (hd : t.destroyed = true) :
    Move t.hasFinalProc t.view True (t.setRun r { s with point := .ended }).view := by
  rw [setRun_view]
  exact .lose t.view r s.finalProcs (by rw [view_getElem? hr, hphase]) hd

theorem finalize_move (hr : t.runs[r]? = some s) (hphase : s.point.phase = .entered)
    (hd : t.destroyed = false) :
    Move t.hasFinalProc t.view True (t.finalize r s).view := by
  have hview : (t.finalize r s).view =
      { t.view with
        runs := t.view.runs.set r (.ended,
          if t.hasFinalProc = true ∧ t.view.count = 0 then s.finalProcs + 1 else s.finalProcs)
        count := t.view.count + 1
        activated := false } :=
    congrArg (fun l => View.mk l (t.nFinalizedCount + 1) false t.destroyed) (map_set ..)
  rw [hview]
  exact .final t.view r s.finalProcs (by rw [view_getElem? hr, hphase]) hd

/-- A step of `s_finalize` or of `gallus_thread_destroy`. -/
theorem run_isMove (hr : t.runs[r]? = some s) (hs : t.runStep r s = some t') :
    IsMove t (.run r) t' := by
  have htidy : s.point ≠ .waiting → tidy t (.run r) := by
    intro hne hpoint
    rw [hr] at hpoint
    exact absurd (Option.some.inj hpoint) hne
  have hended : s.point.phase = .ended →
      (t.setRun r { s with point := .ended }).view = t.view := fun h =>
    view_setRun _ hr h.symm rfl
  unfold ThreadRec.runStep at hs
  split at hs
  · next isCanceled rcode hpoint =>
    have hphase : s.point.phase = .entered := by rw [hpoint]; rfl
    replace htidy := htidy (by rw [hpoint]; exact nofun)
    split_ifs at hs with hd
    · cases hs
      exact ⟨rfl, True, lose_move hr hphase hd, iff_of_true htidy trivial⟩
    · cases hs
      refine .quiet rfl ?_ htidy
      exact view_setRun { s with point := .locked isCanceled } hr hphase.symm rfl
  · next isCanceled hpoint =>
    have hphase : s.point.phase = .entered := by rw [hpoint]; rfl
    replace htidy := htidy (by rw [hpoint]; exact nofun)
    split_ifs at hs with hd
    · cases hs
      exact ⟨rfl, True, lose_move hr hphase hd, iff_of_true htidy trivial⟩
    · cases hs
      exact ⟨rfl, True, finalize_move hr hphase (by simpa using hd), iff_of_true htidy trivial⟩
  · next doAutodelete hpoint =>
    have hphase : s.point.phase = .ended := by rw [hpoint]; rfl
    cases hs
    refine .quiet rfl ?_ (htidy (by rw [hpoint]; exact nofun))
    refine view_setRun { s with point := if doAutodelete then .deleting else .ended } hr ?_ rfl
    rw [hphase]
    cases doAutodelete <;> rfl
  · next hpoint =>
    have hphase : s.point.phase = .ended := by rw [hpoint]; rfl
    replace htidy := htidy (by rw [hpoint]; exact nofun)
    split_ifs at hs with hd
    · cases hs
      exact .quiet rfl (hended hphase) htidy
    · cases hs
      obtain ⟨hview, hfinal⟩ := cancel_view t
      obtain ⟨s', hr', hphase', hprocs⟩ := getElem?_of_view hview hr
      refine .quiet hfinal (Eq.trans ?_ hview) htidy
      exact view_setRun { s with point := .waiting } hr' (hphase'.trans hphase).symm hprocs.symm
  · next hpoint =>
    have hphase : s.point.phase = .ended := by rw [hpoint]; rfl
    split_ifs at hs with hd hw
    · cases hs
      refine .quiet rfl (hended hphase) fun _ hlive => ?_
      rw [hd] at hlive
      cases hlive
    · cases hs
      refine ⟨rfl, ∀ x ∈ t.view.runs, x.1 = .ended, ?_, ?_⟩
      · have hview : ({ t.setRun r { s with point := .ended } with destroyed := true } :
            ThreadRec κ).view = { t.view with destroyed := true } :=
          congrArg (fun v : View => { v with destroyed := true }) (hended hphase)
        rw [hview]
        exact .destroy t.view
      · simp only [tidy, ThreadRec.view]
        rw [hr, List.forall_mem_map]
        exact ⟨fun h => h (congrArg some hpoint) (by simpa using hd), fun h _ _ => h⟩
  · cases hs

variable [DecidableEq κ]

theorem call_isMove {k : κ} {c : Call} {created : Bool} :
    IsMove t (.call k c created) (t.call k created c) := by
  cases c with
  | cancel =>
    unfold ThreadRec.call
    dsimp only
    split
    · exact .quiet rfl rfl trivial
    · exact .quiet (cancel_view t).2 (cancel_view t).1 trivial
  | wait nsec =>
    unfold ThreadRec.call
    dsimp only
    split_ifs <;> exact .quiet rfl rfl trivial
  | start autodelete =>
    unfold ThreadRec.call ThreadRec.start
    dsimp only
    by_cases hd : t.destroyed = true
    · rw [if_pos hd]
      refine .quiet rfl rfl ?_
      cases created with
      | false => trivial
      | true =>
        intro hlive
        rw [hd] at hlive
        cases hlive
    · rw [if_neg hd]
      by_cases hact : t.isActivated = false
      · rw [if_pos hact]
        cases created with
        | false => exact .quiet rfl rfl trivial
        | true =>
          refine ⟨rfl, ∀ x ∈ t.view.runs, x.1 ≠ .spawned, ?_, ?_⟩
          · have hview : ({ t.view with runs := t.view.runs ++ [(.spawned, 0)], count := 0 } :
                View) = ⟨(t.runs ++ [RunState.mk .spawned false 0]).map
                  fun s => (s.point.phase, s.finalProcs), 0, false, t.destroyed⟩ := by
              rw [List.map_append, ← hact]
              rfl
            have hmove : Move t.hasFinalProc t.view _ _ :=
              .spawn t.view hact (Bool.eq_false_iff.mpr hd)
            rw [hview] at hmove
            exact hmove
          · simp only [tidy, ThreadRec.view]
            rw [List.forall_mem_map]
            refine ⟨fun h s hs hphase => ?_, fun h _ _ s hs hpoint => ?_⟩
            · refine h (by simpa using hd) hact s hs ?_
              cases hp : s.point <;> rw [hp] at hphase <;> first | rfl | cases hphase
            · exact h s hs (by rw [hpoint]; rfl)
      · rw [if_neg hact]
        refine .quiet rfl rfl ?_
        cases created with
        | false => trivial
        | true => exact fun _ h => absurd h hact

/-- **Each step is a move**, which is in turn exactly if the step is tidy. -/
theorem step_isMove (hs : t.step e = some t') : IsMove t e t' := by
  cases e with
  | call k c created =>
    simp only [ThreadRec.step] at hs
    split at hs
    · cases hs
      exact call_isMove
    · cases hs
  | wake k ret =>
    simp only [ThreadRec.step] at hs
    split at hs
    · cases hs
    · unfold ThreadRec.wake at hs
      split at hs
      · split_ifs at hs <;> cases hs <;> exact .quiet rfl rfl trivial
      · split_ifs at hs <;> cases hs <;> exact .quiet rfl rfl trivial
      · split_ifs at hs <;> cases hs <;> exact .quiet rfl rfl trivial
      · cases hs
  | proceed k =>
    simp only [ThreadRec.step] at hs
    split at hs
    · cases hs
    · unfold ThreadRec.proceed at hs
      split at hs
      · split_ifs at hs <;> cases hs <;> exact .quiet rfl rfl trivial
      · split_ifs at hs <;> cases hs <;> exact .quiet rfl rfl trivial
      · cases hs
  | enter r =>
    simp only [ThreadRec.step] at hs
    split at hs
    · next cancel n hr =>
      cases hs
      refine ⟨rfl, True, ?_, iff_of_true trivial trivial⟩
      have hview : (t.enter r ⟨.spawned, cancel, n⟩).view =
          { t.view with runs := t.view.runs.set r (.entered, n), activated := true } := by
        refine congrArg (fun l => View.mk l t.nFinalizedCount true t.destroyed) ?_
        refine (map_set ..).trans ?_
        cases t.startupSyncDone <;> rfl
      rw [hview]
      exact .enter t.view r n (view_getElem? hr)
    · cases hs
  | ack r ret =>
    simp only [ThreadRec.step] at hs
    split at hs
    · next cancel n hr =>
      split_ifs at hs
      · cases hs
        exact .quiet rfl rfl trivial
      · cases hs
        exact .quiet rfl (view_setRun _ hr rfl rfl) trivial
    · cases hs
  | exit r how =>
    simp only [ThreadRec.step] at hs
    split at hs
    · next cancel n hr =>
      split at hs
      · cases hs
        exact .quiet rfl (view_setRun _ hr rfl rfl) trivial
      · split_ifs at hs
        cases hs
        exact .quiet rfl (view_setRun _ hr rfl rfl) trivial
      · cases hs
        exact .quiet rfl (view_setRun _ hr rfl rfl) trivial
    · cases hs
  | run r =>
    simp only [ThreadRec.step] at hs
    split at hs
    · next s hr => exact run_isMove hr hs
    · cases hs

end Steps

end Thread
end Gallus
