import Gallus.Basic
import Gallus.Lib.Trans
import Mathlib.Logic.Function.Basic

/-!
# The global state of the process (`gstate.c`)

One lock protects the pair of the global state, `s_gs`, and the shutdown grace level, `s_gl`.

* `setState`, `requestShutdown` and `waitForCheck` are what the calls do with the lock held; a wait
  on `s_cond` gives the lock back. A call is a process of its own, as a thread is a sequence of
  calls.
* A wait can end spuriously at any time, so the notifications need no state.
* `step_cases`: a step sets the state, or moves it to `REQUEST_SHUTDOWN`, or leaves the pair alone.
* `one_request`: the state never goes back, and at most one request sets the grace level.

The arguments of the calls are enumerations that the source compares as `int`; any value may come.
-/

namespace Gallus
namespace Gstate

/-! ## The states -/

def stateUnknown : Int := 0
def initializing : Int := 1
def initialized : Int := 2
def starting : Int := 3
def started : Int := 4
def requestShutdownState : Int := 5
def acceptShutdown : Int := 6
def shuttingdown : Int := 7
def shutdownState : Int := 8
def finalizing : Int := 9
def finalized : Int := 10

def shutdownUnknown : Int := 0
def shutdownRightNow : Int := 1
def shutdownGracefully : Int := 2

/-- `IS_VALID_GLOBAL_STATE`. -/
def isValidGlobalState (s : Int) : Bool := decide (stateUnknown < s) && decide (s ≤ finalized)

/-- `IS_GLOBAL_STATE_SHUTDOWN`. -/
def isGlobalStateShutdown (s : Int) : Bool := decide (acceptShutdown ≤ s)

/-- `IS_VALID_SHUTDOWN`. -/
def isValidShutdown (l : Int) : Bool :=
  decide (shutdownUnknown < l) && decide (l ≤ shutdownGracefully)

/-! ## The calls -/

/-- A call with its arguments. -/
inductive Call
  | set (s : Int)
  | requestShutdown (l : Int)
  | waitFor (s : Int) (nsec : Chrono)

/-- `s_gs` and `s_gl`. -/
structure Pair where
  gs : Int
  gl : Int

/-- Where a lock-held segment ends: in a wait on `s_cond`, or at the return, with the result and
what is stored through `cur_sptr` and `cur_gptr`. -/
inductive Next
  | wait (nsec : Chrono)
  | done (ret : Result) (cur : Option Pair)

/-- `s_is_valid_state`. -/
def isValidState (g : Pair) (s : Int) : Bool := decide (g.gs ≤ s)

/-- `global_state_set`. -/
def setState (g : Pair) (s : Int) : Pair × Next :=
  if isValidGlobalState s then
    if isValidState g s then ({ g with gs := s }, .done Result.ok none)
    else (g, .done Result.invalidStateTransition none)
  else (g, .done Result.invalidArgs none)

/-- `global_state_request_shutdown` at `recheck`, where its last result is `ret`. -/
def requestCheck (g : Pair) (ret : Result) : Next :=
  if isGlobalStateShutdown g.gs = false then .wait (-1) else .done ret none

/-- `global_state_request_shutdown` up to its wait. -/
def requestShutdown (g : Pair) (l : Int) : Pair × Next :=
  if isValidShutdown l then
    if isGlobalStateShutdown g.gs = false ∧ g.gs ≠ requestShutdownState then
      if isValidState g requestShutdownState then
        (⟨requestShutdownState, l⟩, requestCheck ⟨requestShutdownState, l⟩ Result.anyFailures)
      else (g, .done Result.invalidStateTransition none)
    else (g, .done Result.anyFailures none)
  else (g, .done Result.invalidArgs none)

/-- `global_state_wait_for` at `recheck`. -/
def waitForCheck (g : Pair) (s : Int) (nsec : Chrono) : Next :=
  if g.gs < s ∧ isGlobalStateShutdown g.gs = false then .wait nsec
  else if s ≤ g.gs then .done Result.ok (some g)
  else if isGlobalStateShutdown g.gs = true ∧ isGlobalStateShutdown s = false then
    .done Result.notOperational (some g)
  else .done Result.ok (some g)

/-- The first segment of a call. -/
def start (g : Pair) : Call → Pair × Next
  | .set s => setState g s
  | .requestShutdown l => requestShutdown g l
  | .waitFor s nsec =>
    if isValidGlobalState s then (g, waitForCheck g s nsec) else (g, .done Result.invalidArgs none)

/-- The segment of a call after a wait of result `ret`. -/
def resume (g : Pair) (c : Call) (ret : Result) : Next :=
  if ret = Result.ok then
    match c with
    | .set _ => .done ret none
    | .requestShutdown _ => requestCheck g ret
    | .waitFor s nsec => waitForCheck g s nsec
  else .done ret none

/-! ## The system -/

/-- Where a call is. `began` is the global state when it first began to wait, and `gs` the one at
its return. -/
inductive Pc
  | outside
  | waiting (c : Call) (nsec : Chrono) (began : Int)
  | returned (c : Call) (ret : Result) (cur : Option Pair) (began : Option Int) (gs : Int)

/-- The tracker and the calls. -/
structure Tracker (κ : Type) where
  pair : Pair
  pc : κ → Pc

/-- One lock-held segment of the call `k`. -/
inductive Event (κ : Type)
  | call (k : κ) (c : Call)
  | wake (k : κ) (ret : Result)

variable {κ : Type} [DecidableEq κ]

/-- The place of a call after a segment. -/
def Next.pc (next : Next) (c : Call) (began : Option Int) (gs : Int) : Pc :=
  match next with
  | .wait nsec => .waiting c nsec (began.getD gs)
  | .done ret cur => .returned c ret cur began gs

/-- One step. -/
def step (t : Tracker κ) : Event κ → Option (Tracker κ)
  | .call k c =>
    match t.pc k with
    | .outside =>
      let (g, next) := start t.pair c
      some ⟨g, Function.update t.pc k (next.pc c none g.gs)⟩
    | _ => none
  | .wake k ret =>
    match t.pc k with
    | .waiting c nsec began =>
      if condWaitResult nsec ret then
        some ⟨t.pair, Function.update t.pc k ((resume t.pair c ret).pc c (some began) t.pair.gs)⟩
      else none
    | _ => none

/-- The tracker of a new process. -/
def init : Tracker κ := ⟨⟨stateUnknown, shutdownUnknown⟩, fun _ => .outside⟩

/-! ## One way only -/

variable {t t' : Tracker κ} {e : Event κ} {es : List (Event κ)}

/-- What the first segment of a call does to the pair. -/
theorem start_cases (g : Pair) (c : Call) :
    (start g c).1 = g ∨ (g.gs ≤ (start g c).1.gs ∧ (start g c).1.gl = g.gl) ∨
    ∃ l, c = .requestShutdown l ∧ isValidShutdown l = true ∧ g.gs < requestShutdownState ∧
      (start g c).1 = ⟨requestShutdownState, l⟩ := by
  cases c with
  | set s =>
    simp only [start, setState]
    split
    · split
      · next hle => exact .inr (.inl ⟨of_decide_eq_true hle, rfl⟩)
      · exact .inl rfl
    · exact .inl rfl
  | requestShutdown l =>
    simp only [start, requestShutdown]
    split
    · next hl =>
      split
      · next hcond =>
        split
        · next hle =>
          have hle : g.gs ≤ requestShutdownState := of_decide_eq_true hle
          have := hcond.2
          exact .inr (.inr ⟨l, rfl, hl, by omega, rfl⟩)
        · exact .inl rfl
      · exact .inl rfl
    · exact .inl rfl
  | waitFor s nsec =>
    simp only [start]
    split
    · exact .inl rfl
    · exact .inl rfl

/-- What a step does to the pair. -/
theorem step_cases (h : step t e = some t') :
    t'.pair = t.pair ∨ (t.pair.gs ≤ t'.pair.gs ∧ t'.pair.gl = t.pair.gl) ∨
    ∃ k l, e = .call k (.requestShutdown l) ∧ isValidShutdown l = true ∧
      t.pair.gs < requestShutdownState ∧ t'.pair = ⟨requestShutdownState, l⟩ := by
  cases e with
  | call k c =>
    simp only [step] at h
    split at h
    · cases h
      rcases start_cases t.pair c with heq | hup | ⟨l, rfl, hl, hlt, heq⟩
      · exact .inl heq
      · exact .inr (.inl hup)
      · exact .inr (.inr ⟨k, l, rfl, hl, hlt, heq⟩)
    · cases h
  | wake k ret =>
    simp only [step] at h
    split at h
    · split_ifs at h
      cases h
      exact .inl rfl
    · cases h

/-- The global state never goes back. -/
theorem gs_le_step (h : step t e = some t') : t.pair.gs ≤ t'.pair.gs := by
  rcases step_cases h with heq | ⟨hle, -⟩ | ⟨k, l, -, -, hlt, heq⟩
  · exact Int.le_of_eq (congrArg Pair.gs heq.symm)
  · exact hle
  · rw [heq]
    exact Int.le_of_lt hlt

theorem gs_le_run (h : Trans.run step t es = some t') : t.pair.gs ≤ t'.pair.gs :=
  (Trans.Run.all_iff.mpr h).inv (I := fun u => t.pair.gs ≤ u.pair.gs)
    (fun _ _ _ hle _ hs => Int.le_trans hle (gs_le_step hs)) (Int.le_refl _)

/-- From the request on, the grace level stays. -/
theorem gl_stays (hgs : requestShutdownState ≤ t.pair.gs) (h : Trans.run step t es = some t') :
    t'.pair.gl = t.pair.gl ∧ requestShutdownState ≤ t'.pair.gs := by
  refine (Trans.Run.all_iff.mpr h).inv
    (I := fun u => u.pair.gl = t.pair.gl ∧ requestShutdownState ≤ u.pair.gs) ?_ ⟨rfl, hgs⟩
  rintro u ev u' ⟨hgl, hle⟩ - hs
  rcases step_cases hs with heq | ⟨hle', hgl'⟩ | ⟨k, l, -, -, hlt, -⟩
  · rw [heq]
    exact ⟨hgl, hle⟩
  · exact ⟨hgl'.trans hgl, Int.le_trans hle hle'⟩
  · exact absurd hlt (Int.not_lt.mpr hle)

/-- **One way, and one request.** In any run of sets, requests and waits, the global state never
goes back. Either the grace level is never set, or one request sets it as it moves the state to
`REQUEST_SHUTDOWN`: the state was before it until then, and the level is the request's from then on.
-/
theorem one_request {t : Tracker κ} (hrun : Trans.run step init es = some t) :
    (∀ es₁ t₁, es₁ <+: es → Trans.run step init es₁ = some t₁ → t₁.pair.gs ≤ t.pair.gs) ∧
    ((∀ es₁ t₁, es₁ <+: es → Trans.run step init es₁ = some t₁ → t₁.pair.gl = shutdownUnknown) ∨
      ∃ es₁ k l es₂ t₁ t₂, es = es₁ ++ .call k (.requestShutdown l) :: es₂ ∧
        Trans.run step init es₁ = some t₁ ∧ step t₁ (.call k (.requestShutdown l)) = some t₂ ∧
        (∀ es' u, es' <+: es₁ → Trans.run step init es' = some u →
          u.pair.gl = shutdownUnknown ∧ u.pair.gs < requestShutdownState) ∧
        t₂.pair = ⟨requestShutdownState, l⟩ ∧ isValidShutdown l = true ∧
        ∀ es' u, es' <+: es₂ → Trans.run step t₂ es' = some u →
          u.pair.gl = l ∧ requestShutdownState ≤ u.pair.gs) := by
  have hsuffix : ∀ {es₁ t₁ es₂} {u v : Tracker κ}, Trans.run step u (es₁ ++ es₂) = some v →
      Trans.run step u es₁ = some t₁ → Trans.run step t₁ es₂ = some v := by
    intro es₁ t₁ es₂ u v h h₁
    rwa [Trans.run_append, h₁] at h
  refine ⟨?_, ?_⟩
  · rintro es₁ t₁ ⟨es₂, rfl⟩ h₁
    exact gs_le_run (hsuffix hrun h₁)
  · rcases Trans.run_leaves (fun u : Tracker κ => u.pair.gl = shutdownUnknown) rfl hrun with
      hall | ⟨es₁, e, es₂, t₁, t₂, rfl, h₁, hst, hr, hall, hnot⟩
    · exact .inl hall
    · have hgl : t₁.pair.gl = shutdownUnknown := hall es₁ t₁ (List.prefix_refl _) h₁
      rcases step_cases hst with heq | ⟨-, hgl'⟩ | ⟨k, l, rfl, hl, hlt, heq⟩
      · exact absurd (heq ▸ hgl) hnot
      · exact absurd (hgl'.trans hgl) hnot
      · refine .inr ⟨es₁, k, l, es₂, t₁, t₂, rfl, h₁, hst, ?_, heq, hl, ?_⟩
        · rintro es' u ⟨es₃, rfl⟩ hu
          refine ⟨hall es' u (List.prefix_append _ _) hu, ?_⟩
          exact Int.lt_of_le_of_lt (gs_le_run (hsuffix h₁ hu)) hlt
        · intro es' u _ hu
          obtain ⟨hgl, hgs⟩ := gl_stays (Int.le_of_eq (congrArg Pair.gs heq).symm) hu
          exact ⟨hgl.trans (congrArg Pair.gl heq), hgs⟩

/-- Two requests, with a call that sets the state before and after them. -/
def twoRequests : List (Event (Fin 4)) :=
  [.call 0 (.set started), .call 1 (.requestShutdown shutdownGracefully),
    .call 2 (.requestShutdown shutdownRightNow), .call 3 (.set acceptShutdown), .wake 1 Result.ok]

theorem one_request_twoRequests :
    ∃ t, Trans.run step init twoRequests = some t ∧ t.pair.gl = shutdownGracefully ∧
      t.pair.gs = acceptShutdown ∧ ∀ es₁ t₁, es₁ <+: twoRequests →
        Trans.run step init es₁ = some t₁ → t₁.pair.gs ≤ t.pair.gs := by
  obtain ⟨t, hrun, heq⟩ := Option.map_eq_some_iff.mp
    (show (Trans.run step init twoRequests).map (fun t => (t.pair.gl, t.pair.gs)) =
      some (shutdownGracefully, acceptShutdown) by decide)
  obtain ⟨hgl, hgs⟩ := Prod.mk.inj heq
  exact ⟨t, hrun, hgl, hgs, (one_request hrun).1⟩

end Gstate
end Gallus
