import Gallus.Thread.Moves

/-!
# One run at a time, finalized once, and waited for (`thread.c`)

* `ThreadRec.Kept`: at most one run is in the main procedure; a run calls the finalization procedure
  once, when it is over; and a wait that has returned `OK` has seen the runs finalized that were
  under way when it began to wait.
* `Pc.sound`: the invariant of the waits. A wait goes on to its end only when no run is activated,
  or when the count of finalizations is not zero; in a run of tidy steps neither lets a live run be
  overlooked.
* `kept_iff_tidy`: this holds in the runs with tidy steps; and in no others, as far as they end with
  all runs over.
* `kept_each`: one run for each part of `tidy`.
-/

namespace Gallus
namespace Thread

variable {κ : Type}

structure ThreadRec.Kept (t : ThreadRec κ) : Prop where
  oneMain : (t.runs.countP fun s => s.point = .main) ≤ 1
  notYet : ∀ s ∈ t.runs, s.point.phase ≠ .ended → s.finalProcs = 0
  once : ∀ s ∈ t.runs, s.point.phase = .ended → s.finalProcs = if t.hasFinalProc then 1 else 0
  waits : ∀ k nsec targets, t.pc k = .returned (.wait nsec) Result.ok targets →
    ∀ r ∈ targets, ∃ s, t.runs[r]? = some s ∧ s.point.phase = .ended

/-! ## The waits -/

/-- The runs have begun. -/
def View.begun (v : View) (targets : List Nat) : Prop :=
  ∀ r ∈ targets, ∃ x, v.runs[r]? = some x ∧ x.1 ≠ .spawned

/-- The runs are over. -/
def View.ended (v : View) (targets : List Nat) : Prop :=
  ∀ r ∈ targets, ∃ x, v.runs[r]? = some x ∧ x.1 = .ended

def Pc.sound (v : View) : Pc → Prop
  | .waiting _ targets | .finalWaiting _ targets => v.begun targets
  | .checked _ ret targets | .locking _ ret targets =>
    v.begun targets ∧ (ret = Result.ok → v.ended targets)
  | .returned (.wait _) ret targets => ret = Result.ok → v.ended targets
  | _ => True

section Waits

variable {hasFinalProc : Bool} {v v' : View} {c : Prop} {targets : List Nat}

/-- A run only goes on. -/
theorem move_getElem? (hm : Move hasFinalProc v c v') {r : Nat} {x : RunView}
    (hr : v.runs[r]? = some x) :
    ∃ x', v'.runs[r]? = some x' ∧ (x.1 ≠ .spawned → x'.1 ≠ .spawned) ∧
      (x.1 = .ended → x'.1 = .ended) := by
  have hset : ∀ (r' : Nat) (p : Phase) (n m : Nat) (q : Phase), v.runs[r']? = some (q, m) →
      q ≠ .ended → p ≠ .spawned → ∃ x', (v.runs.set r' (p, n))[r]? = some x' ∧
        (x.1 ≠ .spawned → x'.1 ≠ .spawned) ∧ (x.1 = .ended → x'.1 = .ended) := by
    intro r' p n m q hr' hq hp
    rw [List.getElem?_set]
    by_cases hrr : r' = r
    · subst hrr
      obtain rfl := Option.some.inj (hr.symm.trans hr')
      rw [if_pos rfl, if_pos (List.getElem?_eq_some_iff.mp hr').1]
      exact ⟨_, rfl, fun _ => hp, fun h => absurd h hq⟩
    · rw [if_neg hrr]
      exact ⟨x, hr, id, id⟩
  cases hm with
  | quiet => exact ⟨x, hr, id, id⟩
  | spawn =>
    refine ⟨x, ?_, id, id⟩
    exact (List.getElem?_append_left (List.getElem?_eq_some_iff.mp hr).1).trans hr
  | enter r' n hr' => exact hset r' _ _ _ _ hr' nofun nofun
  | final r' n hr' => exact hset r' _ _ _ _ hr' nofun nofun
  | lose r' n hr' => exact hset r' _ _ _ _ hr' nofun nofun
  | destroy => exact ⟨x, hr, id, id⟩

theorem View.begun.move (h : v.begun targets) (hm : Move hasFinalProc v c v') :
    v'.begun targets := by
  intro r hr
  obtain ⟨x, hx, hne⟩ := h r hr
  obtain ⟨x', hx', hbegun, -⟩ := move_getElem? hm hx
  exact ⟨x', hx', hbegun hne⟩

theorem View.ended.move (h : v.ended targets) (hm : Move hasFinalProc v c v') :
    v'.ended targets := by
  intro r hr
  obtain ⟨x, hx, heq⟩ := h r hr
  obtain ⟨x', hx', -, hended⟩ := move_getElem? hm hx
  exact ⟨x', hx', hended heq⟩

theorem Pc.sound.move {p : Pc} (h : p.sound v) (hm : Move hasFinalProc v c v') : p.sound v' := by
  cases p with
  | outside => trivial
  | starting => trivial
  | waiting nsec targets => exact View.begun.move h hm
  | checked nsec ret targets => exact ⟨h.1.move hm, fun hret => (h.2 hret).move hm⟩
  | locking nsec ret targets => exact ⟨h.1.move hm, fun hret => (h.2 hret).move hm⟩
  | finalWaiting nsec targets => exact View.begun.move h hm
  | returned call ret targets =>
    cases call with
    | start autodelete => trivial
    | cancel => trivial
    | wait nsec => exact fun hret => (h hret).move hm

/-- No run is activated. -/
theorem Single.ended_of_idle (h : Single hasFinalProc v) (hact : v.activated = false)
    (hbegun : v.begun targets) : v.ended targets := by
  have hentered := h.entered
  rw [hact] at hentered
  intro r hr
  obtain ⟨x, hx, hne⟩ := hbegun r hr
  have hne' := nEntered_eq_zero.mp hentered x (List.mem_of_getElem? hx)
  refine ⟨x, hx, ?_⟩
  cases hp : x.1 with
  | spawned => exact absurd hp hne
  | entered => exact absurd hp hne'
  | ended => rfl

/-- A finalization has been counted. -/
theorem Single.ended_of_count (h : Single hasFinalProc v) (hcount : v.count ≠ 0)
    (hbegun : v.begun targets) : v.ended targets := by
  intro r hr
  obtain ⟨x, hx, -⟩ := hbegun r hr
  exact ⟨x, hx, live_eq_zero.mp (h.count hcount) x (List.mem_of_getElem? hx)⟩

end Waits

section Steps

variable {t t' : ThreadRec κ} {e : Event κ}

theorem underWay_begun (t : ThreadRec κ) : t.view.begun t.underWay := by
  intro r hr
  unfold ThreadRec.underWay at hr
  obtain ⟨-, hpoint⟩ := List.mem_filter.mp hr
  split at hpoint
  · next hr => exact ⟨_, view_getElem? hr, nofun⟩
  · next hr => exact ⟨_, view_getElem? hr, nofun⟩
  · next hr => exact ⟨_, view_getElem? hr, nofun⟩
  · next hr => exact ⟨_, view_getElem? hr, nofun⟩
  · cases hpoint

variable [DecidableEq κ]

theorem sound_setPc {v : View} {k k' : κ} {p : Pc} (h : ∀ k, (t.pc k).sound v)
    (hp : p.sound v) : ((t.setPc k p).pc k').sound v := by
  show (Function.update t.pc k p k').sound v
  by_cases hk : k' = k
  · subst hk
    rwa [Function.update_self]
  · rw [Function.update_of_ne hk]
    exact h k'

omit [DecidableEq κ] in
theorem cancel_pc (t : ThreadRec κ) : t.cancel.pc = t.pc := by
  unfold ThreadRec.cancel
  split
  · split
    · split <;> rfl
    · rfl
  · rfl

theorem call_sound {k : κ} {c : Call} {created : Bool} (h : ∀ k, (t.pc k).sound t.view) (k' : κ) :
    ((t.call k created c).pc k').sound t.view := by
  cases c with
  | start autodelete =>
    unfold ThreadRec.call ThreadRec.start
    dsimp only
    split_ifs
    · exact sound_setPc h trivial
    · exact sound_setPc h trivial
    · exact sound_setPc h trivial
    · exact sound_setPc h trivial
  | cancel =>
    unfold ThreadRec.call
    dsimp only
    split
    · exact sound_setPc h trivial
    · refine sound_setPc ?_ trivial
      rw [cancel_pc]
      exact h
  | wait nsec =>
    unfold ThreadRec.call
    dsimp only
    split_ifs
    · exact sound_setPc h fun h => by cases h
    · exact sound_setPc h fun h => by cases h
    · exact sound_setPc h (underWay_begun t)
    · exact sound_setPc h ⟨nofun, fun _ => nofun⟩

theorem wake_sound {k : κ} {ret : Result} (hsingle : Single t.hasFinalProc t.view)
    (h : ∀ k, (t.pc k).sound t.view) (hs : t.wake k ret = some t') (k' : κ) :
    (t'.pc k').sound t.view := by
  have hk := h k
  unfold ThreadRec.wake at hs
  split at hs
  · split_ifs at hs <;> cases hs
    · exact sound_setPc h trivial
    · exact h k'
    · exact sound_setPc h trivial
  · next nsec targets hpc =>
    rw [hpc] at hk
    split_ifs at hs with hret hact
    · cases hs
      exact h k'
    · cases hs
      refine sound_setPc h ⟨hk, fun hok => ?_⟩
      exact hsingle.ended_of_idle (Bool.eq_false_iff.mpr fun h => hact ⟨hok, h⟩) hk
  · next nsec targets hpc =>
    rw [hpc] at hk
    split_ifs at hs with hret hcount
    · cases hs
      exact h k'
    · cases hs
      refine sound_setPc h (fun hok => ?_)
      exact hsingle.ended_of_count (fun hzero => hcount ⟨hok, hzero⟩) hk
  · cases hs

theorem proceed_sound {k : κ} (h : ∀ k, (t.pc k).sound t.view) (hs : t.proceed k = some t')
    (k' : κ) : (t'.pc k').sound t.view := by
  have hk := h k
  unfold ThreadRec.proceed at hs
  split at hs
  · next nsec ret targets hpc =>
    rw [hpc] at hk
    split_ifs at hs
    · cases hs
      exact sound_setPc h hk
    · cases hs
      exact sound_setPc h hk.2
  · next nsec ret targets hpc =>
    rw [hpc] at hk
    split_ifs at hs
    · cases hs
      exact sound_setPc h hk.1
    · cases hs
      exact sound_setPc h hk.2
  · cases hs

/-- Where the calls are after a step, by the runs before it. -/
theorem step_sound (hsingle : Single t.hasFinalProc t.view) (h : ∀ k, (t.pc k).sound t.view)
    (hs : t.step e = some t') (k : κ) : (t'.pc k).sound t.view := by
  have hpc : ∀ u : ThreadRec κ, u.pc = t.pc → (u.pc k).sound t.view := fun u hu => by
    rw [hu]
    exact h k
  cases e with
  | call k' c created =>
    simp only [ThreadRec.step] at hs
    split at hs
    · cases hs
      exact call_sound h k
    · cases hs
  | wake k' ret =>
    simp only [ThreadRec.step] at hs
    split at hs
    · cases hs
    · exact wake_sound hsingle h hs k
  | proceed k' =>
    simp only [ThreadRec.step] at hs
    split at hs
    · cases hs
    · exact proceed_sound h hs k
  | enter r =>
    simp only [ThreadRec.step] at hs
    split at hs
    · cases hs
      exact hpc _ rfl
    · cases hs
  | ack r ret =>
    simp only [ThreadRec.step] at hs
    split at hs
    · split_ifs at hs <;> cases hs <;> exact hpc _ rfl
    · cases hs
  | exit r how =>
    simp only [ThreadRec.step] at hs
    split at hs
    · split at hs
      · cases hs
        exact hpc _ rfl
      · split_ifs at hs
        cases hs
        exact hpc _ rfl
      · cases hs
        exact hpc _ rfl
    · cases hs
  | run r =>
    simp only [ThreadRec.step] at hs
    split at hs
    · unfold ThreadRec.runStep at hs
      split at hs
      · split_ifs at hs <;> cases hs <;> exact hpc _ rfl
      · split_ifs at hs <;> cases hs <;> exact hpc _ rfl
      · cases hs
        exact hpc _ rfl
      · split_ifs at hs <;> cases hs
        · exact hpc _ rfl
        · exact hpc _ (cancel_pc t)
      · split_ifs at hs <;> cases hs <;> exact hpc _ rfl
      · cases hs
    · cases hs

/-! ## Runs -/

/-- The invariant of the tidy steps. -/
structure Sound (t : ThreadRec κ) : Prop where
  single : Single t.hasFinalProc t.view
  pcs : ∀ k, (t.pc k).sound t.view

/-- **The step lemma.** -/
theorem Sound.step (h : Sound t) (hok : tidy t e) (hs : t.step e = some t') : Sound t' := by
  obtain ⟨hfinal, c, hmove, hiff⟩ := step_isMove hs
  refine ⟨?_, fun k => (step_sound h.single h.pcs hs k).move hmove⟩
  rw [hfinal]
  exact h.single.move hmove (hiff.mp hok)

omit [DecidableEq κ] in
theorem Sound.kept (h : Sound t) : t.Kept where
  oneMain := by
    have hle : (t.runs.countP fun s => s.point = .main) ≤ t.view.nEntered := by
      unfold View.nEntered ThreadRec.view
      rw [List.countP_map]
      refine List.countP_mono_left fun s _ hs => ?_
      have hmain : s.point = .main := of_decide_eq_true hs
      simp [hmain, RunPoint.phase]
    have := h.single.live
    omega
  notYet := by
    have hall := h.single.before
    unfold ThreadRec.view at hall
    exact List.forall_mem_map.mp hall
  once := by
    have hall := h.single.after
    unfold ThreadRec.view at hall
    exact List.forall_mem_map.mp hall
  waits k nsec targets hpc r hr := by
    have hk := h.pcs k
    rw [hpc] at hk
    obtain ⟨x, hx, hover⟩ := hk rfl r hr
    unfold ThreadRec.view at hx
    rw [List.getElem?_map] at hx
    obtain ⟨s, hs, rfl⟩ := Option.map_eq_some_iff.mp hx
    exact ⟨s, hs, hover⟩

omit [DecidableEq κ] in
theorem Kept.finalized (h : t.Kept) : t.view.finalized t.hasFinalProc := by
  unfold View.finalized ThreadRec.view
  exact List.forall_mem_map.mpr h.once

omit [DecidableEq κ] in
theorem sound_init (hasFinalProc : Bool) :
    Sound (ThreadRec.init hasFinalProc : ThreadRec κ) :=
  ⟨⟨Nat.zero_le 1, rfl, fun h => absurd rfl h, nofun, nofun, nofun⟩, fun _ => trivial⟩

/-- **One run at a time, finalized once and waited for, exactly if the steps are tidy.** For any
interleaving of any number of starts, cancellations and waits with the object's runs. The converse
is for objects with a finalization procedure, and for what happens until all runs are over. -/
theorem kept_iff_tidy {hasFinalProc : Bool} {es : List (Event κ)}
    (hrun : Trans.run ThreadRec.step (.init hasFinalProc) es = some t) :
    (Trans.Run ThreadRec.step tidy (.init hasFinalProc) es t → t.Kept) ∧
    (hasFinalProc = true → (∀ s ∈ t.runs, s.point.phase = .ended) →
      ((∀ es₁ t₁, es₁ <+: es →
          Trans.run ThreadRec.step (.init hasFinalProc) es₁ = some t₁ → t₁.Kept) ↔
        Trans.Run ThreadRec.step tidy (.init hasFinalProc) es t)) := by
  have hkept : ∀ {es₁ t₁}, Trans.Run ThreadRec.step tidy (.init hasFinalProc) es₁ t₁ →
      (t₁ : ThreadRec κ).Kept := fun hr =>
    (hr.inv (fun _ _ _ h hok hs => Sound.step h hok hs) (sound_init hasFinalProc)).kept
  refine ⟨hkept, fun hfinal hover => ⟨fun hall => ?_, fun hr es₁ t₁ hpre h₁ => ?_⟩⟩
  · refine Trans.Run.of_states_later (I := fun t => Sound t ∧ t.hasFinalProc = true)
      (D := fun t => Crowded t.view ∧ t.hasFinalProc = true) (P := ThreadRec.Kept) ?_ ?_ ?_
      ⟨sound_init hasFinalProc, hfinal⟩ (Trans.Run.all_iff.mpr hrun) ?_ hall
    · rintro u ev u' ⟨hsound, hf⟩ - hok hs
      exact ⟨hsound.step hok hs, (step_isMove hs).1.trans hf⟩
    · rintro u ev u' ⟨hsound, hf⟩ - hnot hs
      obtain ⟨hf', c, hmove, hiff⟩ := step_isMove hs
      have hsingle := hsound.single
      rw [hf] at hmove hsingle
      exact .inl ⟨hsingle.crowded hmove (mt hiff.mpr hnot), hf'.trans hf⟩
    · rintro u ev u' ⟨hcrowded, hf⟩ - hs
      obtain ⟨hf', c, hmove, -⟩ := step_isMove hs
      rw [hf] at hmove hf'
      refine (hcrowded.move hmove).imp (fun h => ⟨h, hf'⟩) fun hnot hk => hnot ?_
      exact hf' ▸ Kept.finalized hk
    · rintro ⟨hcrowded, -⟩
      have hzero : t.view.nSpawned + t.view.nEntered = 0 :=
        live_eq_zero.mpr (List.forall_mem_map.mpr hover)
      rcases hcrowded.crowd with htwo | ⟨-, hne⟩
      · split at htwo <;> omega
      · exact hne hzero
  · exact hkept (hr.of_prefix hpre h₁)

omit [DecidableEq κ] in
instance (t : ThreadRec κ) (e : Event κ) : Decidable (tidy t e) :=
  match e with
  | .call _ (.start _) true => inferInstanceAs (Decidable (t.destroyed = false →
      t.isActivated = false → ∀ s ∈ t.runs, s.point ≠ .spawned))
  | .run r => inferInstanceAs (Decidable (t.runs[r]?.map RunState.point = some .waiting →
      t.destroyed = false → ∀ s ∈ t.runs, s.point.phase = .ended))
  | .call _ (.start _) false | .call _ .cancel _ | .call _ (.wait _) _ | .wake _ _ | .proceed _
  | .enter _ | .ack _ _ | .exit _ _ => .isTrue trivial

end Steps

/-- A run that is waited for by another thread, and a second one that is cancelled. -/
def startTwice : List (Event (Fin 4)) :=
  [.call 0 (.start false) true, .enter 0, .wake 0 Result.ok, .ack 0 Result.ok,
    .call 1 (.wait (-1)) true, .exit 0 (.returned Result.ok), .run 0, .run 0, .wake 1 Result.ok,
    .run 0, .proceed 1, .proceed 1, .call 2 (.start false) true, .enter 1, .wake 2 Result.ok,
    .ack 1 Result.ok, .call 3 .cancel true, .exit 1 .canceled, .run 1, .run 1, .run 1]

theorem kept_iff_tidy_startTwice :
    ∃ t, Trans.run ThreadRec.step (.init true) startTwice = some t ∧
      t.runs.map RunState.finalProcs = [1, 1] ∧
      ∀ es₁ t₁, es₁ <+: startTwice →
        Trans.run ThreadRec.step (.init true) es₁ = some t₁ → t₁.Kept := by
  obtain ⟨t, hguarded, hview⟩ := Option.map_eq_some_iff.mp
    (show (Trans.run (Trans.guarded ThreadRec.step tidy) (.init true) startTwice).map
      (fun t => (t.runs.map fun s => s.point.phase, t.runs.map RunState.finalProcs)) =
      some ([.ended, .ended], [1, 1]) by decide)
  have hrun := Trans.Run.of_guarded hguarded
  obtain ⟨hover, hfinal⟩ := Prod.mk.inj hview
  refine ⟨t, hrun.run_eq, hfinal, ((kept_iff_tidy hrun.run_eq).2 rfl ?_).mpr hrun⟩
  intro s hs
  have hmem : s.point.phase ∈ t.runs.map fun s => s.point.phase := List.mem_map_of_mem hs
  rw [hover] at hmem
  simpa using hmem

/-- Two concurrent starts, so that two runs are in the main procedure and the second one is not
finalized; and a start of an object that is being deleted by its first run. -/
theorem kept_each :
    (∃ t, Trans.run ThreadRec.step (.init true : ThreadRec (Fin 2))
        [.call 0 (.start false) true, .call 1 (.start false) true, .enter 0, .enter 1,
          .wake 0 Result.ok, .wake 1 Result.ok, .ack 0 Result.ok, .ack 1 Result.ok] = some t ∧
      ¬t.Kept) ∧
    (∃ t, Trans.run ThreadRec.step (.init true : ThreadRec (Fin 2))
        [.call 0 (.start false) true, .call 1 (.start false) true, .enter 0, .enter 1,
          .wake 0 Result.ok, .wake 1 Result.ok, .ack 0 Result.ok, .ack 1 Result.ok,
          .exit 0 (.returned Result.ok), .run 0, .run 0, .run 0,
          .exit 1 (.returned Result.ok), .run 1, .run 1] = some t ∧ ¬t.Kept) ∧
    ∃ t, Trans.run ThreadRec.step (.init true : ThreadRec (Fin 2))
        [.call 0 (.start true) true, .enter 0, .wake 0 Result.ok, .ack 0 Result.ok,
          .exit 0 (.returned Result.ok), .run 0, .run 0, .run 0, .run 0,
          .call 1 (.start true) true, .enter 1, .wake 1 Result.ok, .ack 1 Result.ok, .run 0,
          .exit 1 (.returned Result.ok), .run 1] = some t ∧ ¬t.Kept := by
  have hmain : ∀ es : List (Event (Fin 2)),
      (Trans.run ThreadRec.step (.init true) es).map
        (fun t => t.runs.countP fun s => s.point = .main) = some 2 →
      ∃ t, Trans.run ThreadRec.step (.init true) es = some t ∧ ¬t.Kept := by
    intro es h
    obtain ⟨t, hrun, htwo⟩ := Option.map_eq_some_iff.mp h
    exact ⟨t, hrun, fun hk => absurd hk.oneMain (by omega)⟩
  have hover : ∀ es : List (Event (Fin 2)),
      (Trans.run ThreadRec.step (.init true) es).map (fun t => (t.hasFinalProc,
        t.runs.any fun s => s.point.phase = .ended && s.finalProcs == 0)) = some (true, true) →
      ∃ t, Trans.run ThreadRec.step (.init true) es = some t ∧ ¬t.Kept := by
    intro es h
    obtain ⟨t, hrun, heq⟩ := Option.map_eq_some_iff.mp h
    obtain ⟨hfinal, hany⟩ := Prod.mk.inj heq
    obtain ⟨s, hs, hboth⟩ := List.any_eq_true.mp hany
    refine ⟨t, hrun, fun hk => ?_⟩
    have honce := hk.once s hs
    rw [hfinal] at honce
    simp_all
  exact ⟨hmain _ (by decide), hover _ (by decide), hover _ (by decide)⟩

end Thread
end Gallus
