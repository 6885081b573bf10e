import Gallus.Gstate.Tracker

/-!
# Waiting for a global state (`global_state_wait_for`)

A waiter leaves its loop when the wanted state is reached, or any shutdown state.

* `waitForCheck_eq`: it then returns `OK` in every case, as a shutdown state is past every state
  that is not one. The branch for `NOT_OPERATIONAL` is dead.
* `Pc.kept`: what the documentation says of a call that has returned.
* `prompt`: no waiter for a state before the shutdown returns in a shutdown state, and no other
  waiter finds a shutdown state before its own. `waitFor_iff_prompt`: the documentation is kept in
  the runs with such steps, and in no others.
* `waitFor_each`: one run for each way to break it.
-/

namespace Gallus
namespace Gstate

variable {κ : Type} [DecidableEq κ]

/-- `OK` only at or past the wanted state; and `NOT_OPERATIONAL` if that is not a shutdown state and
the process has moved into one since the call began to wait. -/
def Pc.kept : Pc → Prop
  | .returned (.waitFor s _) ret _ began gs =>
    (ret = Result.ok → s ≤ gs) ∧
      ∀ b ∈ began, isValidGlobalState s = true → isGlobalStateShutdown s = false →
        isGlobalStateShutdown b = false → isGlobalStateShutdown gs = true →
          ret = Result.notOperational
  | _ => True

/-- The wanted state comes before the shutdown, as far as the process has come. -/
def inOrder (g : Pair) (s : Int) : Prop := s ≤ g.gs ∨ isGlobalStateShutdown g.gs = false

/-- A wait of result `ret` ends. -/
def promptPc (g : Pair) (ret : Result) : Pc → Prop
  | .waiting (.waitFor s _) _ _ =>
    if isGlobalStateShutdown s = false then isGlobalStateShutdown g.gs = false
    else ret = Result.ok → inOrder g s
  | _ => True

/-- The condition on the steps. -/
def prompt (t : Tracker κ) : Event κ → Prop
  | .call _ (.waitFor s _) => isValidGlobalState s = true → inOrder t.pair s
  | .wake k ret => promptPc t.pair ret (t.pc k)
  | _ => True

/-! ## The check -/

variable {g : Pair} {s b : Int} {nsec : Chrono} {ret : Result}

theorem isShutdown_iff : isGlobalStateShutdown s = true ↔ acceptShutdown ≤ s := by
  unfold isGlobalStateShutdown
  exact decide_eq_true_iff

theorem isShutdown_eq_false_iff : isGlobalStateShutdown s = false ↔ s < acceptShutdown := by
  unfold isGlobalStateShutdown
  rw [decide_eq_false_iff_not]
  omega

/-- A shutdown state is past every state that is not one. -/
theorem le_of_shutdown (hg : isGlobalStateShutdown g.gs = true)
    (hs : isGlobalStateShutdown s = false) : s ≤ g.gs := by
  have := isShutdown_iff.mp hg
  have := isShutdown_eq_false_iff.mp hs
  omega

/-- A waiter waits on or returns `OK`. -/
theorem waitForCheck_eq (g : Pair) (s : Int) (nsec : Chrono) :
    waitForCheck g s nsec =
      if g.gs < s ∧ isGlobalStateShutdown g.gs = false then .wait nsec
      else .done Result.ok (some g) := by
  unfold waitForCheck
  split_ifs with hwait hle hdead
  · rfl
  · rfl
  · exact absurd (le_of_shutdown hdead.1 hdead.2) hle
  · rfl

/-! ## The invariant -/

/-- A waiter began before the shutdown. -/
def Pc.sound : Pc → Prop
  | .waiting (.waitFor s _) _ began =>
    isValidGlobalState s = true ∧ isGlobalStateShutdown began = false
  | p => p.kept

/-- The place of a waiter after its check. -/
theorem check_sound {began : Option Int} (hs : isValidGlobalState s = true)
    (hbegan : ∀ b ∈ began, isGlobalStateShutdown b = false)
    (hprompt : inOrder g s)
    (hmoved : began ≠ none → isGlobalStateShutdown s = false → isGlobalStateShutdown g.gs = false) :
    ((waitForCheck g s nsec).pc (.waitFor s nsec) began g.gs).sound := by
  rw [waitForCheck_eq]
  split_ifs with hwait
  · refine ⟨hs, ?_⟩
    cases began with
    | none => exact hwait.2
    | some b => exact hbegan b rfl
  · refine ⟨fun _ => ?_, fun b hb _ hs' _ hg => ?_⟩
    · rcases hprompt with hle | hnot
      · exact hle
      · by_contra hlt
        exact hwait ⟨Int.not_le.mp hlt, hnot⟩
    · rw [hmoved (by rw [hb]; exact nofun) hs'] at hg
      cases hg

theorem kept_of_sound {p : Pc} (h : p.sound) : p.kept := by
  cases p with
  | outside => trivial
  | waiting c nsec began => trivial
  | returned c ret cur began gs => exact h

/-- The end of a wait. -/
theorem resume_sound {t : Chrono} (hs : isValidGlobalState s = true)
    (hb : isGlobalStateShutdown b = false) (hok : promptPc g ret (.waiting (.waitFor s nsec) t b)) :
    ((resume g (.waitFor s nsec) ret).pc (.waitFor s nsec) (some b) g.gs).sound := by
  have hmoved : isGlobalStateShutdown s = false → isGlobalStateShutdown g.gs = false := by
    intro hs'
    simp only [promptPc] at hok
    rwa [if_pos hs'] at hok
  unfold resume
  by_cases hret : ret = Result.ok
  · rw [if_pos hret]
    refine check_sound hs (fun b' hb' => ?_) ?_ fun _ => hmoved
    · rw [← Option.some.inj hb']
      exact hb
    · by_cases hs' : isGlobalStateShutdown s = false
      · exact .inr (hmoved hs')
      · simp only [promptPc] at hok
        rw [if_neg hs'] at hok
        exact hok hret
  · rw [if_neg hret]
    refine ⟨fun h => absurd h hret, fun _ _ _ hs' _ hg => ?_⟩
    rw [hmoved hs'] at hg
    cases hg

/-- The calls that do not wait for a state. -/
theorem other_sound {c : Call} (hc : ∀ s nsec, c ≠ .waitFor s nsec) (next : Next)
    (began : Option Int) (gs : Int) : (next.pc c began gs).sound := by
  cases c with
  | set s => cases next <;> trivial
  | requestShutdown l => cases next <;> trivial
  | waitFor s nsec => exact absurd rfl (hc s nsec)

/-- The places of the other calls, and of this one after its segment. -/
theorem sound_update {pc : κ → Pc} {k : κ} {p : Pc} (h : ∀ k, (pc k).sound) (hp : p.sound)
    (k' : κ) : (Function.update pc k p k').sound := by
  by_cases hk : k' = k
  · subst hk
    rwa [Function.update_self]
  · rw [Function.update_of_ne hk]
    exact h k'

/-! ## Runs -/

variable {t t' : Tracker κ} {e : Event κ} {es : List (Event κ)}

/-- **The step lemma.** -/
theorem sound_step (h : ∀ k, (t.pc k).sound) (hok : prompt t e) (hs : step t e = some t') (k' : κ) :
    (t'.pc k').sound := by
  cases e with
  | call k c =>
    simp only [step] at hs
    split at hs
    · cases hs
      refine sound_update h ?_ k'
      cases c with
      | set s => exact other_sound (fun _ _ h => by cases h) _ _ _
      | requestShutdown l => exact other_sound (fun _ _ h => by cases h) _ _ _
      | waitFor s nsec =>
        simp only [start]
        split
        · next hvalid =>
          refine check_sound hvalid ?_ (hok hvalid) fun hnone => absurd rfl hnone
          rintro _ ⟨⟩
        · refine ⟨?_, ?_⟩
          · rintro ⟨⟩
          · rintro _ ⟨⟩
    · cases hs
  | wake k ret =>
    simp only [step] at hs
    split at hs
    · next c nsec began hpc =>
      split_ifs at hs with hret
      cases hs
      refine sound_update h ?_ k'
      have hk := h k
      replace hok : promptPc t.pair ret (t.pc k) := hok
      rw [hpc] at hk hok
      cases c with
      | set s => exact other_sound (fun _ _ h => by cases h) _ _ _
      | requestShutdown l => exact other_sound (fun _ _ h => by cases h) _ _ _
      | waitFor s nsec' => exact resume_sound hk.1 hk.2 hok
    · cases hs

/-- A waiter that finds a shutdown state before its own. -/
theorem check_not_kept {began : Option Int} (hnot : ¬inOrder g s) :
    ¬((waitForCheck g s nsec).pc (.waitFor s nsec) began g.gs).kept := by
  obtain ⟨hlt, hg⟩ := not_or.mp hnot
  rw [waitForCheck_eq, if_neg fun hwait => hg hwait.2]
  exact fun hkept => hlt (hkept.1 rfl)

/-- A wait that does not end promptly. -/
theorem resume_not_kept {t : Chrono} (hs : isValidGlobalState s = true)
    (hb : isGlobalStateShutdown b = false) (hret : condWaitResult t ret)
    (hnot : ¬promptPc g ret (.waiting (.waitFor s nsec) t b)) :
    ¬((resume g (.waitFor s nsec) ret).pc (.waitFor s nsec) (some b) g.gs).kept := by
  simp only [promptPc] at hnot
  simp only [resume]
  by_cases hs' : isGlobalStateShutdown s = false
  · -- The process has moved into a shutdown state, whatever the result of the wait is.
    rw [if_pos hs'] at hnot
    have hg : isGlobalStateShutdown g.gs = true := by simpa using hnot
    by_cases hok : ret = Result.ok
    · rw [if_pos hok, waitForCheck_eq, if_neg fun hwait => hnot hwait.2]
      intro hkept
      have hcode := hkept.2 b rfl hs hs' hb hg
      cases hcode
    · rw [if_neg hok]
      intro hkept
      have hcode : ret = Result.notOperational := hkept.2 b rfl hs hs' hb hg
      rcases hret with rfl | ⟨rfl, -⟩ | rfl
      · exact hok rfl
      · cases hcode
      · cases hcode
  · rw [if_neg hs'] at hnot
    obtain ⟨hok, hnot⟩ := Classical.not_imp.mp hnot
    rw [if_pos hok]
    exact check_not_kept hnot

/-- A step that is not prompt breaks the documentation at once. -/
theorem prompt_of_kept (h : ∀ k, (t.pc k).sound) (hs : step t e = some t')
    (hkept : ∀ k, (t'.pc k).kept) : prompt t e := by
  cases e with
  | call k c =>
    simp only [step] at hs
    split at hs
    · cases hs
      have hk := hkept k
      simp only [Function.update_self] at hk
      cases c with
      | set s => trivial
      | requestShutdown l => trivial
      | waitFor s nsec =>
        intro hvalid
        by_contra hnot
        simp only [start, hvalid, if_true] at hk
        exact check_not_kept hnot hk
    · cases hs
  | wake k ret =>
    simp only [step] at hs
    split at hs
    · next c nsec began hpc =>
      split_ifs at hs with hret
      cases hs
      have hk := hkept k
      have hsound := h k
      simp only [Function.update_self] at hk
      show promptPc t.pair ret (t.pc k)
      rw [hpc] at hsound ⊢
      cases c with
      | set s => trivial
      | requestShutdown l => trivial
      | waitFor s nsec' =>
        by_contra hnot
        exact resume_not_kept hsound.1 hsound.2 hret hnot hk
    · cases hs

/-- **The documentation is kept exactly where the steps are prompt.** For any number of waiters,
with any wanted states and time limits, and any interleaving with the calls that change the state.
-/
theorem waitFor_iff_prompt (hrun : Trans.run step init es = some t) :
    (∀ es₁ t₁, es₁ <+: es → Trans.run step init es₁ = some t₁ → ∀ k, (t₁.pc k).kept) ↔
      Trans.Run step prompt init es t :=
  Trans.Run.iff_states (I := fun t : Tracker κ => ∀ k, (t.pc k).sound)
    (P := fun t => ∀ k, (t.pc k).kept)
    (fun _ _ _ h hok hs => sound_step h hok hs) (fun _ _ _ h hs hkept => prompt_of_kept h hs hkept)
    (fun _ h k => kept_of_sound (h k)) (fun _ => trivial) hrun

instance (g : Pair) (s : Int) : Decidable (inOrder g s) :=
  inferInstanceAs (Decidable (s ≤ g.gs ∨ isGlobalStateShutdown g.gs = false))

instance (g : Pair) (ret : Result) (p : Pc) : Decidable (promptPc g ret p) :=
  match p with
  | .waiting (.waitFor s _) _ _ =>
    inferInstanceAs (Decidable (if isGlobalStateShutdown s = false then
      isGlobalStateShutdown g.gs = false else ret = Result.ok → inOrder g s))
  | .waiting (.set _) _ _ | .waiting (.requestShutdown _) _ _ | .outside
  | .returned _ _ _ _ _ => .isTrue trivial

instance (t : Tracker κ) (e : Event κ) : Decidable (prompt t e) :=
  match e with
  | .call _ (.waitFor s _) =>
    inferInstanceAs (Decidable (isValidGlobalState s = true → inOrder t.pair s))
  | .call _ (.set _) | .call _ (.requestShutdown _) => .isTrue trivial
  | .wake k ret => inferInstanceAs (Decidable (promptPc t.pair ret (t.pc k)))

/-- A waiter for `STARTED`, who is woken once too early. -/
def waitStarted : List (Event (Fin 3)) :=
  [.call 0 (.waitFor started (-1)), .call 1 (.set initialized), .wake 0 Result.ok,
    .call 2 (.set started), .wake 0 Result.ok]

theorem waitFor_iff_prompt_waitStarted :
    ∃ t, Trans.run step init waitStarted = some t ∧ t.pair.gs = started ∧
      ∀ es₁ t₁, es₁ <+: waitStarted → Trans.run step init es₁ = some t₁ →
        ∀ k, (t₁.pc k).kept := by
  obtain ⟨t, hguarded, hgs⟩ := Option.map_eq_some_iff.mp
    (show (Trans.run (Trans.guarded step prompt) init waitStarted).map (fun t => t.pair.gs) =
      some started by decide)
  have hrun := Trans.Run.of_guarded hguarded
  exact ⟨t, hrun.run_eq, hgs, (waitFor_iff_prompt hrun.run_eq).mpr hrun⟩

/-- The call has returned `ret` in the state `gs`, after a wait that began in the state `b`, if it
has waited. -/
def returnedAs (ret : Result) (b : Option Int) (gs : Int) (p : Pc) : Bool :=
  match p with
  | .returned _ ret' _ b' gs' => decide (ret' = ret ∧ b' = b ∧ gs' = gs)
  | _ => false

/-- A waiter for `STARTED` returns `OK`, and another one times out, after the shutdown has been
accepted; and a waiter for `FINALIZED` returns `OK` long before that state. -/
theorem waitFor_each :
    (∃ t, Trans.run step (init : Tracker (Fin 2)) [.call 0 (.waitFor started (-1)),
        .call 1 (.set acceptShutdown), .wake 0 Result.ok] = some t ∧
      returnedAs Result.ok (some stateUnknown) acceptShutdown (t.pc 0) = true) ∧
    (∃ t, Trans.run step (init : Tracker (Fin 2)) [.call 0 (.waitFor started 5),
        .call 1 (.set acceptShutdown), .wake 0 Result.timedout] = some t ∧
      returnedAs Result.timedout (some stateUnknown) acceptShutdown (t.pc 0) = true) ∧
    ∃ t, Trans.run step (init : Tracker (Fin 2)) [.call 1 (.set acceptShutdown),
        .call 0 (.waitFor finalized (-1))] = some t ∧
      returnedAs Result.ok none acceptShutdown (t.pc 0) = true :=
  ⟨(Option.any_eq_true _ _).mp (by decide), (Option.any_eq_true _ _).mp (by decide),
    (Option.any_eq_true _ _).mp (by decide)⟩

end Gstate
end Gallus
