import Mathlib.Logic.Relation
import Mathlib.Tactic.SplitIfs

/-!
# Runs of a step function

A transition system is given by its step function `step : σ → ε → Option σ`: `step s e` is the
state after the event `e`, or `none` if `e` cannot happen in `s`. Nothing here knows what the
states or the events are.

* `run step s es`: the state after the events `es`, if each of them can happen.
* `Run step ok s es s'`: the same as a relation, for the runs whose every step meets `ok` (a
  condition on the state before the step and the event). `Run.all` is the case without a
  condition.
* `Run.of_guarded`: a run with a decidable condition can be computed.
* `Run.inv`: what one step keeps, a whole run keeps. `run_leaves`: the first step that leaves a set
  of states. `Run.iff_states`: the condition on the steps that is exact for a property of the
  states, and `Run.iff_each` for one of the steps; `Run.of_states_later`: where a step that misses
  it shows only later.
-/

namespace Gallus
namespace Trans

variable {σ ε : Type*}

/-- The state after the events `es`, one after the other. -/
def run (step : σ → ε → Option σ) : σ → List ε → Option σ
  | s, [] => some s
  | s, e :: es => (step s e).bind fun s' => run step s' es

/-- A run whose every step meets `ok`. -/
inductive Run (step : σ → ε → Option σ) (ok : σ → ε → Prop) : σ → List ε → σ → Prop
  | nil (s : σ) : Run step ok s [] s
  | cons {s s₁ s₂ : σ} {e : ε} {es : List ε} (hok : ok s e) (hstep : step s e = some s₁)
      (hrun : Run step ok s₁ es s₂) : Run step ok s (e :: es) s₂

/-- No condition on the steps. -/
def anyStep : σ → ε → Prop := fun _ _ => True

variable {step : σ → ε → Option σ} {ok : σ → ε → Prop} {s s' : σ} {e : ε} {es : List ε}

@[simp] theorem run_nil (s : σ) : run step s [] = some s := rfl

theorem run_cons (s : σ) (e : ε) (es : List ε) :
    run step s (e :: es) = (step s e).bind fun s' => run step s' es := rfl

theorem run_append (s : σ) (es₁ es₂ : List ε) :
    run step s (es₁ ++ es₂) = (run step s es₁).bind fun s' => run step s' es₂ := by
  induction es₁ generalizing s with
  | nil => rfl
  | cons e es ih =>
    rw [List.cons_append, run_cons, run_cons]
    cases step s e with
    | none => rfl
    | some s₁ => exact ih s₁

/-- The relation and the function agree. -/
theorem Run.all_iff : Run step anyStep s es s' ↔ run step s es = some s' := by
  induction es generalizing s with
  | nil =>
    constructor
    · rintro ⟨⟩; rfl
    · intro h
      cases h
      exact .nil _
  | cons e es ih =>
    rw [run_cons, Option.bind_eq_some_iff]
    constructor
    · rintro (_ | ⟨-, hs, hr⟩)
      exact ⟨_, hs, ih.mp hr⟩
    · rintro ⟨s₁, hs, hr⟩
      exact .cons trivial hs (ih.mpr hr)

/-- A run with a condition is a run. -/
theorem Run.run_eq (h : Run step ok s es s') : run step s es = some s' := by
  induction h with
  | nil => rfl
  | cons _ hs _ ih => rw [run_cons, hs]; exact ih

/-- A run whose events meet the condition in every state. -/
theorem Run.of_run (hok : ∀ e ∈ es, ∀ s, ok s e) (h : run step s es = some s') :
    Run step ok s es s' := by
  induction es generalizing s with
  | nil =>
    cases h
    exact .nil _
  | cons e es ih =>
    rw [run_cons, Option.bind_eq_some_iff] at h
    obtain ⟨s₁, hs, hr⟩ := h
    exact .cons (hok e List.mem_cons_self s) hs
      (ih (fun e he => hok e (List.mem_cons_of_mem _ he)) hr)

/-- A condition on the events alone. -/
theorem Run.iff_forall_mem {Q : ε → Prop} (h : run step s es = some s') :
    Run step (fun _ => Q) s es s' ↔ ∀ e ∈ es, Q e := by
  refine ⟨fun hrun => ?_, fun hall => .of_run (fun e he _ => hall e he) h⟩
  clear h
  induction hrun with
  | nil => nofun
  | cons hok _ _ ih =>
    intro e he
    rcases List.mem_cons.mp he with rfl | he
    · exact hok
    · exact ih e he

/-- The steps that meet a decidable condition. -/
def guarded (step : σ → ε → Option σ) (ok : σ → ε → Prop) [∀ s e, Decidable (ok s e)] (s : σ)
    (e : ε) : Option σ :=
  if ok s e then step s e else none

/-- A run that is computed with a condition on its steps. -/
theorem Run.of_guarded [∀ s e, Decidable (ok s e)] (h : run (guarded step ok) s es = some s') :
    Run step ok s es s' := by
  induction es generalizing s with
  | nil =>
    cases h
    exact .nil _
  | cons e es ih =>
    rw [run_cons, Option.bind_eq_some_iff] at h
    obtain ⟨s₁, hs, hr⟩ := h
    unfold guarded at hs
    split_ifs at hs with hok
    exact .cons hok hs (ih hr)

/-- **The invariant rule.** What every step that meets `ok` keeps, a run of such steps keeps. -/
theorem Run.inv {I : σ → Prop} (hstep : ∀ s e s', I s → ok s e → step s e = some s' → I s')
    (h : Run step ok s es s') (hs : I s) : I s' := by
  induction h with
  | nil => exact hs
  | cons hok hst _ ih => exact ih (hstep _ _ _ hs hok hst)

/-- A part of a run from its beginning. -/
theorem Run.of_prefix {es₁ : List ε} {s₁ : σ} (h : Run step ok s es s') (hpre : es₁ <+: es)
    (h₁ : run step s es₁ = some s₁) : Run step ok s es₁ s₁ := by
  induction h generalizing es₁ with
  | nil =>
    obtain rfl := List.prefix_nil.mp hpre
    cases h₁
    exact .nil _
  | cons hok hst _ ih =>
    cases es₁ with
    | nil =>
      cases h₁
      exact .nil _
    | cons e es₁ =>
      obtain ⟨rfl, hpre'⟩ := List.cons_prefix_cons.mp hpre
      rw [run_cons, hst] at h₁
      exact .cons hok hst (ih hpre' h₁)

/-- What holds of the states of a run holds of the states after its first step. -/
theorem prefix_tail {P : σ → Prop} {s₁ : σ} (hst : step s e = some s₁)
    (hall : ∀ es₁ s₂, es₁ <+: e :: es → run step s es₁ = some s₂ → P s₂) :
    P s₁ ∧ ∀ es₁ s₂, es₁ <+: es → run step s₁ es₁ = some s₂ → P s₂ := by
  have hcons : ∀ es₁, run step s (e :: es₁) = run step s₁ es₁ := fun es₁ => by
    rw [run_cons, hst]
    rfl
  refine ⟨hall [e] s₁ (by simp) (hcons []), fun es₁ s₂ hpre h₂ => ?_⟩
  exact hall (e :: es₁) s₂ (List.cons_prefix_cons.mpr ⟨rfl, hpre⟩) ((hcons es₁).trans h₂)

/-- **The first step out.** A run stays among the states with `P`, or it has a first step that
leaves them. -/
theorem run_leaves (P : σ → Prop) (hs : P s) (h : run step s es = some s') :
    (∀ es₁ s₁, es₁ <+: es → run step s es₁ = some s₁ → P s₁) ∨
    ∃ es₁ e es₂ s₁ s₂, es = es₁ ++ e :: es₂ ∧ run step s es₁ = some s₁ ∧ step s₁ e = some s₂ ∧
      run step s₂ es₂ = some s' ∧ (∀ es' t, es' <+: es₁ → run step s es' = some t → P t) ∧
      ¬P s₂ := by
  induction es generalizing s with
  | nil =>
    refine .inl fun es₁ s₁ hpre h₁ => ?_
    obtain rfl := List.prefix_nil.mp hpre
    cases h₁
    exact hs
  | cons e es ih =>
    rw [run_cons, Option.bind_eq_some_iff] at h
    obtain ⟨s₁, hst, hr⟩ := h
    have hextend : ∀ es' : List ε, (∀ es₁ t, es₁ <+: es' → run step s₁ es₁ = some t → P t) →
        ∀ es₁ t, es₁ <+: e :: es' → run step s es₁ = some t → P t := by
      intro es' hall es₁ t hpre ht
      cases es₁ with
      | nil =>
        cases ht
        exact hs
      | cons e' es₁ =>
        obtain ⟨rfl, hpre'⟩ := List.cons_prefix_cons.mp hpre
        rw [run_cons, hst] at ht
        exact hall es₁ t hpre' ht
    by_cases hP : P s₁
    · rcases ih hP hr with hall | ⟨es₁, e', es₂, t, t', rfl, ht, hst', hr', hall, hnot⟩
      · exact .inl (hextend es hall)
      · refine .inr ⟨e :: es₁, e', es₂, t, t', rfl, ?_, hst', hr', hextend es₁ hall, hnot⟩
        rw [run_cons, hst]
        exact ht
    · refine .inr ⟨[], e, es, s, s₁, rfl, rfl, hst, hr, fun es' t hpre ht => ?_, hP⟩
      obtain rfl := List.prefix_nil.mp hpre
      cases ht
      exact hs

/-- **The exact condition.** `I` is kept by the steps that meet `ok` and implies `P`; and a step
that misses `ok` leads from a state with `I` to a state without `P`. Then the runs through states
with `P` are the runs whose steps meet `ok`. -/
theorem Run.iff_states {I P : σ → Prop}
    (hstep : ∀ s e s', I s → ok s e → step s e = some s' → I s')
    (hP : ∀ s e s', I s → step s e = some s' → P s' → ok s e) (hI : ∀ s, I s → P s) (hs : I s)
    (h : run step s es = some s') :
    (∀ es₁ s₁, es₁ <+: es → run step s es₁ = some s₁ → P s₁) ↔ Run step ok s es s' := by
  constructor
  · intro hall
    induction es generalizing s with
    | nil =>
      cases h
      exact .nil _
    | cons e es ih =>
      rw [run_cons, Option.bind_eq_some_iff] at h
      obtain ⟨s₁, hst, hr⟩ := h
      obtain ⟨hP₁, htail⟩ := prefix_tail hst hall
      have hok : ok s e := hP s e s₁ hs hst hP₁
      exact .cons hok hst (ih (hstep s e s₁ hs hok hst) hr htail)
  · exact fun hrun es₁ s₁ hpre h₁ => hI s₁ ((hrun.of_prefix hpre h₁).inv hstep hs)

/-- **Each step of a run.** In the states with `I`, which all steps keep, `P` holds of a step
exactly if the step meets `ok`. Then it holds of each step of a run exactly if the run's steps meet
`ok`. -/
theorem Run.iff_each {I : σ → Prop} {P : σ → ε → σ → Prop}
    (hstep : ∀ s e s', I s → step s e = some s' → I s')
    (hiff : ∀ s e s', I s → step s e = some s' → (P s e s' ↔ ok s e)) (hs : I s)
    (h : run step s es = some s') :
    (∀ es₁ e es₂ s₁ s₂, es = es₁ ++ e :: es₂ → run step s es₁ = some s₁ → step s₁ e = some s₂ →
      P s₁ e s₂) ↔ Run step ok s es s' := by
  induction es generalizing s with
  | nil =>
    cases h
    exact iff_of_true (fun es₁ e es₂ _ _ heq => by simp at heq) (.nil _)
  | cons e es ih =>
    rw [run_cons, Option.bind_eq_some_iff] at h
    obtain ⟨s₁, hst, hr⟩ := h
    have htail := ih (hstep s e s₁ hs hst) hr
    constructor
    · intro hall
      refine .cons ((hiff s e s₁ hs hst).mp (hall [] e es s s₁ rfl rfl hst)) hst (htail.mp ?_)
      intro es₁ e' es₂ t t' heq ht hst'
      refine hall (e :: es₁) e' es₂ t t' (by rw [heq]; rfl) ?_ hst'
      rw [run_cons, hst]
      exact ht
    · rintro (_ | ⟨hok, hst₁, hrun⟩) es₁ e' es₂ t t' heq ht hst'
      obtain rfl : _ = s₁ := Option.some.inj (hst₁.symm.trans hst)
      cases es₁ with
      | nil =>
        cases heq
        cases ht
        exact (hiff _ _ _ hs hst').mpr hok
      | cons e₁ es₁ =>
        obtain ⟨rfl, heq'⟩ := List.cons.inj heq
        rw [run_cons, hst] at ht
        exact htail.mpr hrun es₁ e' es₂ t t' heq' ht hst'

/-- A condition that the steps meet in the states with `I`, which they keep. -/
theorem Run.imp {ok' : σ → ε → Prop} {I : σ → Prop}
    (hstep : ∀ s e s', I s → ok s e → step s e = some s' → I s')
    (himp : ∀ s e, I s → ok s e → ok' s e) (hs : I s) (h : Run step ok s es s') :
    Run step ok' s es s' := by
  induction h with
  | nil => exact .nil _
  | cons hok hst _ ih => exact .cons (himp _ _ hs hok) hst (ih (hstep _ _ _ hs hok hst))

/-- Two conditions that agree in the states with `I`. -/
theorem Run.iff_of_steps {ok' : σ → ε → Prop} {I : σ → Prop}
    (hstep : ∀ s e s', I s → ok s e → step s e = some s' → I s')
    (hiff : ∀ s e, I s → (ok s e ↔ ok' s e)) (hs : I s) :
    Run step ok s es s' ↔ Run step ok' s es s' := by
  constructor
  · exact Run.imp hstep (fun s e h => (hiff s e h).mp) hs
  · refine Run.imp (fun s e s' h hok => ?_) (fun s e h => (hiff s e h).mpr) hs
    exact hstep s e s' h ((hiff s e h).mpr hok)

/-- What stays until there is a state without `P` stays, if there is none. -/
theorem Run.stays {D P : σ → Prop} (hD : ∀ s e s', D s → ok s e → step s e = some s' → D s' ∨ ¬P s')
    (h : Run step ok s es s') (hs : D s)
    (hP : ∀ es₁ s₁, es₁ <+: es → run step s es₁ = some s₁ → P s₁) : D s' := by
  induction h with
  | nil => exact hs
  | cons hok hst _ ih =>
    obtain ⟨hP₁, htail⟩ := prefix_tail hst hP
    exact ih ((hD _ _ _ hs hok hst).resolve_right (not_not_intro hP₁)) htail

/-- **The condition is necessary, if its effect shows in the end.** A step that misses `ok` leads to
a state without `P`, or to one with `D`, and `D` stays until there is a state without `P`. So a run
through states with `P` that does not end with `D` meets `ok`. -/
theorem Run.of_states_later {env : σ → ε → Prop} {I D P : σ → Prop}
    (hstep : ∀ s e s', I s → env s e → ok s e → step s e = some s' → I s')
    (hmiss : ∀ s e s', I s → env s e → ¬ok s e → step s e = some s' → D s' ∨ ¬P s')
    (hD : ∀ s e s', D s → env s e → step s e = some s' → D s' ∨ ¬P s')
    (hs : I s) (h : Run step env s es s') (hend : ¬D s')
    (hP : ∀ es₁ s₁, es₁ <+: es → run step s es₁ = some s₁ → P s₁) : Run step ok s es s' := by
  induction h with
  | nil => exact .nil _
  | @cons s _ _ e _ henv hst hrun ih =>
    obtain ⟨hP₁, htail⟩ := prefix_tail hst hP
    by_cases hok : ok s e
    · exact .cons hok hst (ih (hstep _ _ _ hs henv hok hst) hend htail)
    · have hd := (hmiss _ _ _ hs henv hok hst).resolve_right (not_not_intro hP₁)
      exact absurd (hrun.stays hD hd htail) hend

/-- One more step at the end of a run. -/
theorem Run.snoc {s₁ : σ} (h : Run step ok s es s₁) (hok : ok s₁ e) (hst : step s₁ e = some s') :
    Run step ok s (es ++ [e]) s' := by
  induction h with
  | nil => exact .cons hok hst (.nil _)
  | cons hok' hst' _ ih => exact .cons hok' hst' (ih hok hst)

theorem Run.append {s₁ : σ} {es' : List ε} (h : Run step ok s es s₁) (h' : Run step ok s₁ es' s') :
    Run step ok s (es ++ es') s' := by
  induction h with
  | nil => exact h'
  | cons hok hst _ ih => exact .cons hok hst (ih h')

end Trans
end Gallus
