import Gallus.Gstate.Tracker
import Gallus.Lib.Trans
import Mathlib.Logic.Function.Basic

/-!
# A poolable: how it ends, and who waits for that (`poolable.c`)

* `PoolableRec`: the record. The methods are not in the repository's hands: a call comes with the
  results of the methods that it may call (`Returns`), and `Methods` tells which of them there are.
* `Sys`: a poolable with the calls on it. `setup`, `shutdown` and `cancel` keep `m_lck` while they
  call their methods, so each of them is one step. `teardown` lets it go during `m_teardown`, `wait`
  while it sleeps and during `m_wait`, and `destroy` between its shutdown and its wait.
* `done_iff_tidy`: `NOT_OPERATIONAL` says that the poolable is torn down and that the waiters may
  go, and so that nobody goes to sleep any more, exactly in the runs whose steps are `tidy`.
* `done_each`: one run for each way to break it.

`gallus_poolable_teardown` with `is_cancelled` first releases `m_lck`, for a thread that has been
cancelled while it held it; such a thread is not modelled.
-/

namespace Gallus
namespace Poolable

inductive PoolableState
  | unknown | constructed | operational | shutdowning | cancelling | notOperational
  deriving DecidableEq

/-- Which methods there are. -/
structure Methods where
  construct : Bool
  setup : Bool
  shutdown : Bool
  cancel : Bool
  teardown : Bool
  wait : Bool
  destruct : Bool

/-- What the methods return, as far as a call comes to them. -/
structure Returns where
  setup : Result
  shutdown : Result
  cancel : Result
  teardown : Result

/-- A method that may be missing. -/
def optional (has : Bool) (ret : Result) : Result := if has then ret else Result.ok

/-- `gallus_poolable_record`. -/
structure PoolableRec where
  isExecutor : Bool
  methods : Methods
  isCancelled : Bool
  isTorndown : Bool
  isWaitDone : Bool
  st : PoolableState
  lastResult : Result
  shutdownLvl : Int

/-- The check of `gallus_poolable_create_with_size`. -/
def Methods.sufficient (m : Methods) (isExecutor : Bool) : Bool :=
  (m.construct || m.setup) && m.destruct &&
    (!isExecutor || m.shutdown && m.cancel && m.teardown && m.wait)

/-- `gallus_poolable_create_with_size`, with the result of the constructor. -/
def createWithSize (isExecutor : Bool) (m : Methods) (construct : Result) :
    Result × Option PoolableRec :=
  if m.sufficient isExecutor then
    let ret := optional m.construct construct
    if ret = Result.ok then
      (ret, some {
        isExecutor
        methods := m
        isCancelled := false
        isTorndown := false
        isWaitDone := false
        st := .constructed
        lastResult := Result.anyFailures
        shutdownLvl := Gstate.shutdownUnknown })
    else (ret, none)
  else (Result.invalidArgs, none)

namespace PoolableRec

/-- `gallus_poolable_setup`. -/
def setup (p : PoolableRec) (m : Returns) : PoolableRec × Result :=
  if p.st = .constructed then
    let ret := optional p.methods.setup m.setup
    if ret = Result.ok then ({ p with st := .operational, lastResult := ret }, ret)
    else ({ p with lastResult := ret }, ret)
  else
    ({ p with lastResult := Result.invalidStateTransition }, Result.invalidStateTransition)

/-- The teardown by a shutdown or a cancellation, of a poolable that is no executor. -/
def settle (p : PoolableRec) (m : Returns) : PoolableRec × Result :=
  if p.isExecutor = false then
    let ret := optional p.methods.teardown m.teardown
    if ret = Result.ok then ({ p with st := .notOperational, lastResult := ret }, ret)
    else ({ p with lastResult := ret }, ret)
  else ({ p with lastResult := Result.ok }, Result.ok)

/-- `gallus_poolable_shutdown`. -/
def shutdown (p : PoolableRec) (lvl : Int) (m : Returns) : PoolableRec × Result :=
  if p.st = .notOperational ∧ p.isTorndown = true then
    ({ p with lastResult := Result.ok }, Result.ok)
  else if p.st = .operational then
    let ret := optional p.methods.shutdown m.shutdown
    if ret = Result.ok then { p with shutdownLvl := lvl, st := .shutdowning }.settle m
    else ({ p with shutdownLvl := lvl, lastResult := ret }, ret)
  else
    ({ p with lastResult := Result.invalidStateTransition }, Result.invalidStateTransition)

/-- `gallus_poolable_cancel`. -/
def cancel (p : PoolableRec) (m : Returns) : PoolableRec × Result :=
  if p.st = .notOperational ∧ p.isTorndown = true then
    ({ p with lastResult := Result.ok }, Result.ok)
  else if p.st = .operational ∨ p.st = .shutdowning ∧ p.shutdownLvl = Gstate.shutdownRightNow then
    let ret := optional p.methods.cancel m.cancel
    if ret = Result.ok then
      { p with st := .cancelling, isCancelled := !p.isExecutor || p.isCancelled }.settle m
    else ({ p with lastResult := ret }, ret)
  else
    ({ p with lastResult := Result.invalidStateTransition }, Result.invalidStateTransition)

/-- `gallus_poolable_teardown` has to call the method. -/
def mustTeardown (p : PoolableRec) : Bool := !p.isTorndown && p.methods.teardown

/-- The second region of `gallus_poolable_teardown`, after the method has returned `ret`. -/
def torndown (p : PoolableRec) (isCancelled : Bool) (ret : Result) : PoolableRec :=
  { p with
    lastResult := ret
    isCancelled
    st := .notOperational
    isTorndown := true
    isWaitDone := true }

end PoolableRec

/-! ## The calls -/

/-- On whose behalf `gallus_poolable_wait` is called. -/
inductive Waiter
  | wait
  /-- `gallus_poolable_destroy`, whose shutdown has returned `r1`. -/
  | destroy (r1 : Result)

inductive Call
  | setup
  | shutdown (lvl : Int)
  | cancel
  | teardown (isCancelled : Bool)
  | wait (nsec : Chrono)
  | destroy

/-- Where a call is. -/
inductive Pc
  | outside
  /-- In the teardown method. -/
  | tearing (isCancelled : Bool)
  /-- A destruction between its shutdown and its wait. -/
  | shut (r1 : Result)
  /-- In `gallus_cond_wait`. -/
  | waiting (w : Waiter) (nsec : Chrono) (doCallWait : Bool)
  /-- In the wait method. -/
  | awaiting (w : Waiter)
  | returned (ret : Result)

/-- A poolable and the calls on it. -/
structure Sys (κ : Type) where
  pobj : PoolableRec
  destroyed : Bool
  pc : κ → Pc

/-- One step. -/
inductive Event (κ : Type)
  | call (k : κ) (c : Call) (m : Returns)
  /-- A destruction goes on to its wait. -/
  | proceed (k : κ)
  /-- The condition wait of a call ends. -/
  | wake (k : κ) (ret : Result)
  /-- The teardown or the wait method returns to its caller. -/
  | back (k : κ) (ret : Result)

variable {κ : Type} [DecidableEq κ]

def Sys.init (p : PoolableRec) : Sys κ where
  pobj := p
  destroyed := false
  pc _ := .outside

namespace Sys

def setPc (t : Sys κ) (k : κ) (p : Pc) : Sys κ := { t with pc := Function.update t.pc k p }

/-- What a call has made of the poolable, and its result. -/
def leave (t : Sys κ) (k : κ) (r : PoolableRec × Result) : Sys κ :=
  { t with pobj := r.1 }.setPc k (.returned r.2)

/-- `gallus_poolable_wait` returns `ret`. -/
def waited (t : Sys κ) (k : κ) (ret : Result) : Waiter → Sys κ
  | .wait => t.setPc k (.returned ret)
  | .destroy r1 =>
    { t with destroyed := r1 = Result.ok ∧ ret = Result.ok ∧ t.pobj.isCancelled = false }.setPc k
      (.returned ret)

/-- One round of the loop of `gallus_poolable_wait`. -/
def waitRound (t : Sys κ) (k : κ) (w : Waiter) (nsec : Chrono) (doCallWait : Bool) : Sys κ :=
  if t.pobj.isTorndown = true ∧ t.pobj.isWaitDone = true then
    if doCallWait then t.setPc k (.awaiting w) else t.waited k Result.ok w
  else t.setPc k (.waiting w nsec doCallWait)

/-- The calls up to where they let `m_lck` go. -/
def call (t : Sys κ) (k : κ) (m : Returns) : Call → Sys κ
  | .setup => t.leave k (t.pobj.setup m)
  | .shutdown lvl => t.leave k (t.pobj.shutdown lvl m)
  | .cancel => t.leave k (t.pobj.cancel m)
  | .teardown isCancelled =>
    if t.pobj.mustTeardown then t.setPc k (.tearing isCancelled)
    else t.setPc k (.returned Result.ok)
  | .wait nsec => t.waitRound k .wait nsec false
  | .destroy =>
    let r := t.pobj.shutdown Gstate.shutdownRightNow m
    { t with pobj := r.1 }.setPc k (.shut r.2)

/-- The condition wait of `k` ends with `ret`. -/
def wake (t : Sys κ) (k : κ) (ret : Result) : Option (Sys κ) :=
  match t.pc k with
  | .waiting w nsec doCallWait =>
    if condWaitResult nsec ret then
      if ret = Result.ok then
        some (t.waitRound k w nsec (t.pobj.methods.wait || doCallWait))
      else if doCallWait then some (t.setPc k (.awaiting w))
      else some (t.waited k ret w)
    else none
  | _ => none

/-- The method that `k` has called returns `ret`. -/
def back (t : Sys κ) (k : κ) (ret : Result) : Option (Sys κ) :=
  match t.pc k with
  | .tearing isCancelled => some (t.leave k (t.pobj.torndown isCancelled ret, Result.ok))
  | .awaiting w => some (t.waited k ret w)
  | _ => none

/-- One step. What happens after a destruction is not modelled. -/
def step (t : Sys κ) (e : Event κ) : Option (Sys κ) :=
  if t.destroyed then none
  else
    match e with
    | .call k c m =>
      match t.pc k with
      | .outside => some (t.call k m c)
      | _ => none
    | .proceed k =>
      match t.pc k with
      | .shut r1 => some (t.waitRound k (.destroy r1) (-1) false)
      | _ => none
    | .wake k ret => t.wake k ret
    | .back k ret => t.back k ret

end Sys

/-! ## What a step makes of the poolable -/

/-- The teardown by a shutdown or a cancellation succeeds. -/
def PoolableRec.settles (p : PoolableRec) (m : Returns) : Prop :=
  p.isExecutor = false ∧ optional p.methods.teardown m.teardown = Result.ok

/-- A shutdown comes to that, and succeeds. -/
def PoolableRec.shutsDown (p : PoolableRec) (m : Returns) : Prop :=
  p.st = .operational ∧ optional p.methods.shutdown m.shutdown = Result.ok ∧ p.settles m

/-- A cancellation comes to that, and succeeds. -/
def PoolableRec.cancels (p : PoolableRec) (m : Returns) : Prop :=
  (p.st = .operational ∨ p.st = .shutdowning ∧ p.shutdownLvl = Gstate.shutdownRightNow) ∧
    optional p.methods.cancel m.cancel = Result.ok ∧ p.settles m

/-- The condition on the steps: a poolable that is no executor is neither shut down nor cancelled
with success. -/
def tidy (t : Sys κ) : Event κ → Prop
  | .call _ (.shutdown _) m | .call _ .destroy m => ¬t.pobj.shutsDown m
  | .call _ .cancel m => ¬t.pobj.cancels m
  | _ => True

/-- The flags stay, and the state becomes `NOT_OPERATIONAL` only with `c`. -/
structure Moves (p : PoolableRec) (c : Prop) (p' : PoolableRec) : Prop where
  torndown : p'.isTorndown = p.isTorndown
  waitDone : p'.isWaitDone = p.isWaitDone
  st : p'.st = .notOperational ↔ p.st = .notOperational ∨ c
  fresh : c → p.st ≠ .notOperational

section Moves

variable {p : PoolableRec} {m : Returns}

theorem Moves.quiet {p' : PoolableRec} {c : Prop} (htorn : p'.isTorndown = p.isTorndown)
    (hdone : p'.isWaitDone = p.isWaitDone)
    (hst : p'.st = .notOperational ↔ p.st = .notOperational) (hc : ¬c) : Moves p c p' :=
  ⟨htorn, hdone, hst.trans (or_iff_left hc).symm, fun h => absurd h hc⟩

theorem setup_moves : Moves p False (p.setup m).1 := by
  unfold PoolableRec.setup
  split
  · next hst =>
    dsimp only
    split
    · exact .quiet rfl rfl (by simp [hst]) id
    · exact .quiet rfl rfl Iff.rfl id
  · exact .quiet rfl rfl Iff.rfl id

theorem settle_moves (hst : p.st ≠ .notOperational) : Moves p (p.settles m) (p.settle m).1 := by
  unfold PoolableRec.settle
  split
  · next hexec =>
    dsimp only
    split
    · next hret => exact ⟨rfl, rfl, by simp [PoolableRec.settles, hexec, hret], fun _ => hst⟩
    · next hret => exact .quiet rfl rfl Iff.rfl fun h => hret h.2
  · next hexec => exact .quiet rfl rfl Iff.rfl fun h => hexec h.1

theorem shutdown_moves (lvl : Int) : Moves p (p.shutsDown m) (p.shutdown lvl m).1 := by
  unfold PoolableRec.shutdown
  split
  · next hst =>
    refine .quiet rfl rfl Iff.rfl fun h => ?_
    cases hst.1.symm.trans h.1
  · split
    · next hst =>
      dsimp only
      split
      · next hret =>
        obtain ⟨htorn, hdone, hiff, -⟩ := settle_moves (m := m)
          (p := { p with shutdownLvl := lvl, st := .shutdowning }) nofun
        refine ⟨htorn, hdone, hiff.trans ?_, fun _ => by simp [hst]⟩
        simp [PoolableRec.shutsDown, PoolableRec.settles, hst, hret]
      · next hret => exact .quiet rfl rfl Iff.rfl fun h => hret h.2.1
    · next hst => exact .quiet rfl rfl Iff.rfl fun h => hst h.1

theorem cancel_moves : Moves p (p.cancels m) (p.cancel m).1 := by
  unfold PoolableRec.cancel
  split
  · next hst =>
    refine .quiet rfl rfl Iff.rfl fun h => ?_
    rcases h.1 with hop | ⟨hdown, -⟩
    · cases hst.1.symm.trans hop
    · cases hst.1.symm.trans hdown
  · split
    · next hst =>
      have hne : p.st ≠ .notOperational := by
        rcases hst with hst | ⟨hst, -⟩ <;> simp [hst]
      dsimp only
      split
      · next hret =>
        obtain ⟨htorn, hdone, hiff, -⟩ := settle_moves (m := m)
          (p := { p with st := .cancelling, isCancelled := !p.isExecutor || p.isCancelled }) nofun
        refine ⟨htorn, hdone, hiff.trans ?_, fun _ => hne⟩
        simp [PoolableRec.cancels, PoolableRec.settles, hst, hret, hne]
      · next hret => exact .quiet rfl rfl Iff.rfl fun h => hret h.2.1
    · next hst => exact .quiet rfl rfl Iff.rfl fun h => hst h.1

end Moves

section Steps

variable {t t' : Sys κ} {e : Event κ}

@[simp] theorem waited_pobj (k : κ) (ret : Result) (w : Waiter) :
    (t.waited k ret w).pobj = t.pobj := by
  cases w <;> rfl

@[simp] theorem waitRound_pobj (k : κ) (w : Waiter) (nsec : Chrono) (doCallWait : Bool) :
    (t.waitRound k w nsec doCallWait).pobj = t.pobj := by
  unfold Sys.waitRound
  split
  · split
    · rfl
    · exact waited_pobj ..
  · rfl

/-- **What a step does to the poolable.** Only the second part of a teardown sets the flags. -/
theorem step_cases (hs : t.step e = some t') :
    (∃ c, Moves t.pobj c t'.pobj ∧ (tidy t e ↔ ¬c)) ∨
      tidy t e ∧ ∃ isCancelled ret, t'.pobj = t.pobj.torndown isCancelled ret := by
  have hquiet : ∀ {u : Sys κ}, u.pobj = t.pobj → tidy t e →
      (∃ c, Moves t.pobj c u.pobj ∧ (tidy t e ↔ ¬c)) ∨
        tidy t e ∧ ∃ isCancelled ret, u.pobj = t.pobj.torndown isCancelled ret := by
    intro u hu htidy
    refine .inl ⟨False, ?_, iff_of_true htidy not_false⟩
    rw [hu]
    exact .quiet rfl rfl Iff.rfl not_false
  unfold Sys.step at hs
  split at hs
  · cases hs
  · cases e with
    | call k c m =>
      dsimp only at hs
      split at hs
      · cases hs
        cases c with
        | setup => exact .inl ⟨False, setup_moves, iff_of_true trivial not_false⟩
        | shutdown lvl => exact .inl ⟨_, shutdown_moves lvl, Iff.rfl⟩
        | cancel => exact .inl ⟨_, cancel_moves, Iff.rfl⟩
        | teardown isCancelled =>
          refine hquiet ?_ trivial
          unfold Sys.call
          dsimp only
          split <;> rfl
        | wait nsec => exact hquiet (waitRound_pobj ..) trivial
        | destroy => exact .inl ⟨_, shutdown_moves _, Iff.rfl⟩
      · cases hs
    | proceed k =>
      dsimp only at hs
      split at hs
      · cases hs
        exact hquiet (waitRound_pobj ..) trivial
      · cases hs
    | wake k ret =>
      simp only [Sys.wake] at hs
      split at hs
      · split_ifs at hs
        · cases hs
          exact hquiet (waitRound_pobj ..) trivial
        · cases hs
          exact hquiet rfl trivial
        · cases hs
          exact hquiet (waited_pobj ..) trivial
      · cases hs
    | back k ret =>
      simp only [Sys.back] at hs
      split at hs
      · cases hs
        exact .inr ⟨trivial, _, _, rfl⟩
      · cases hs
        exact hquiet (waited_pobj ..) trivial
      · cases hs

/-! ## Runs -/

/-- Torn down, and nobody has to wait for it. -/
def PoolableRec.done (p : PoolableRec) : Prop := p.isTorndown = true ∧ p.isWaitDone = true

/-- `NOT_OPERATIONAL` says that the poolable is done; and from then on each wait returns at once,
also that of a destruction. -/
structure Sys.Kept (t : Sys κ) : Prop where
  done : t.pobj.st = .notOperational → t.pobj.done
  prompt : t.pobj.st = .notOperational → ∀ es t', Trans.run Sys.step t es = some t' →
    ∀ k w nsec, (t'.waitRound k w nsec false).pc k = .returned Result.ok

theorem done_step (h : t.pobj.done) (hs : t.step e = some t') : t'.pobj.done := by
  rcases step_cases hs with ⟨c, hmoves, -⟩ | ⟨-, isCancelled, ret, heq⟩
  · exact ⟨hmoves.torndown.trans h.1, hmoves.waitDone.trans h.2⟩
  · rw [heq]
    exact ⟨rfl, rfl⟩

theorem waited_pc (k : κ) (ret : Result) (w : Waiter) :
    (t.waited k ret w).pc k = .returned ret := by
  cases w <;> exact Function.update_self ..

theorem waitRound_done (h : t.pobj.done) (k : κ) (w : Waiter) (nsec : Chrono) :
    (t.waitRound k w nsec false).pc k = .returned Result.ok := by
  unfold Sys.waitRound
  rw [if_pos ⟨h.1, h.2⟩, if_neg Bool.false_ne_true]
  exact waited_pc ..

/-- The invariant of the tidy steps. -/
structure Sound (p : PoolableRec) : Prop where
  waitDone : p.isWaitDone = p.isTorndown
  st : p.st = .notOperational ↔ p.isTorndown = true

/-- **The step lemma.** -/
theorem Sound.step (h : Sound t.pobj) (hok : tidy t e) (hs : t.step e = some t') :
    Sound t'.pobj := by
  rcases step_cases hs with ⟨c, hmoves, hiff⟩ | ⟨-, isCancelled, ret, heq⟩
  · refine ⟨?_, ?_⟩
    · rw [hmoves.waitDone, hmoves.torndown]
      exact h.waitDone
    · rw [hmoves.st, hmoves.torndown, ← h.st]
      exact or_iff_left (hiff.mp hok)
  · rw [heq]
    exact ⟨rfl, iff_of_true rfl rfl⟩

theorem Sound.kept (h : Sound t.pobj) : t.Kept := by
  have hdone : t.pobj.st = .notOperational → t.pobj.done := by
    intro hst
    have htorn := h.st.mp hst
    exact ⟨htorn, h.waitDone.trans htorn⟩
  refine ⟨hdone, fun hst es t' hrun k w nsec => ?_⟩
  exact waitRound_done ((Trans.Run.all_iff.mpr hrun).inv (I := fun t : Sys κ => t.pobj.done)
    (fun _ _ _ h _ hs => done_step h hs) (hdone hst)) k w nsec

/-- A step that is not tidy. -/
theorem Sound.tidy_of_kept (h : Sound t.pobj) (hs : t.step e = some t') (hkept : t'.Kept) :
    tidy t e := by
  rcases step_cases hs with ⟨c, hmoves, hiff⟩ | ⟨hok, -⟩
  · refine hiff.mpr fun hc => hmoves.fresh hc ?_
    have hdone := hkept.done (hmoves.st.mpr (.inr hc))
    exact h.st.mpr (hmoves.torndown.symm.trans hdone.1)
  · exact hok

theorem sound_create {isExecutor : Bool} {m : Methods} {construct ret : Result} {p : PoolableRec}
    (hp : createWithSize isExecutor m construct = (ret, some p)) : Sound p := by
  simp only [createWithSize] at hp
  split_ifs at hp
  · obtain ⟨-, heq⟩ := Prod.mk.inj hp
    obtain rfl := Option.some.inj heq
    exact ⟨rfl, by simp⟩
  · cases hp
  · cases hp

/-- **`NOT_OPERATIONAL` means done, exactly if the steps are tidy.** For each poolable that can be
created, and any interleaving of any number of calls with any results of the methods. -/
theorem done_iff_tidy {isExecutor : Bool} {m : Methods} {construct ret : Result} {p : PoolableRec}
    {es : List (Event κ)} (hp : createWithSize isExecutor m construct = (ret, some p))
    (hrun : Trans.run Sys.step (.init p) es = some t) :
    (∀ es₁ t₁, es₁ <+: es → Trans.run Sys.step (.init p) es₁ = some t₁ → t₁.Kept) ↔
      Trans.Run Sys.step tidy (.init p) es t :=
  Trans.Run.iff_states (I := fun t => Sound t.pobj) (fun _ _ _ h hok hs => h.step hok hs)
    (fun _ _ _ h hs hkept => h.tidy_of_kept hs hkept) (fun _ h => h.kept) (sound_create hp) hrun

instance (p : PoolableRec) (m : Returns) : Decidable (p.settles m) :=
  inferInstanceAs (Decidable (_ ∧ _))

instance (p : PoolableRec) (m : Returns) : Decidable (p.shutsDown m) :=
  inferInstanceAs (Decidable (_ ∧ _ ∧ _))

instance (p : PoolableRec) (m : Returns) : Decidable (p.cancels m) :=
  inferInstanceAs (Decidable (_ ∧ _ ∧ _))

instance (t : Sys κ) (e : Event κ) : Decidable (tidy t e) :=
  match e with
  | .call _ (.shutdown _) m | .call _ .destroy m =>
    inferInstanceAs (Decidable (¬t.pobj.shutsDown m))
  | .call _ .cancel m => inferInstanceAs (Decidable (¬t.pobj.cancels m))
  | .call _ .setup _ | .call _ (.teardown _) _ | .call _ (.wait _) _ | .proceed _ | .wake _ _
  | .back _ _ => .isTrue trivial

end Steps

/-- All methods succeed. -/
def allOk : Returns := ⟨Result.ok, Result.ok, Result.ok, Result.ok⟩

/-- A poolable that has just been created. -/
def created (isExecutor : Bool) (m : Methods) : PoolableRec where
  isExecutor
  methods := m
  isCancelled := false
  isTorndown := false
  isWaitDone := false
  st := .constructed
  lastResult := Result.anyFailures
  shutdownLvl := Gstate.shutdownUnknown

/-- The methods of a thread of a pool. -/
def allMethods : Methods := ⟨true, true, true, true, true, true, true⟩

/-- No more methods than a poolable needs that is no executor. -/
def fewMethods : Methods := ⟨true, false, false, false, false, false, true⟩

/-- An executor is shut down while it is waited for, and destroyed in the end. -/
def serve : List (Event (Fin 6)) :=
  [.call 0 .setup allOk, .call 1 (.wait (-1)) allOk, .call 2 (.shutdown 2) allOk,
    .call 3 (.teardown false) allOk, .back 3 Result.ok, .wake 1 Result.ok, .back 1 Result.ok,
    .call 4 (.wait 5) allOk, .call 5 .destroy allOk, .proceed 5]

theorem done_iff_tidy_serve :
    ∃ t, Trans.run Sys.step (.init (created true allMethods)) serve = some t ∧
      t.destroyed = true ∧
      ∀ es₁ t₁, es₁ <+: serve →
        Trans.run Sys.step (.init (created true allMethods)) es₁ = some t₁ → t₁.Kept := by
  obtain ⟨t, hguarded, hgone⟩ := Option.map_eq_some_iff.mp
    (show (Trans.run (Trans.guarded Sys.step tidy) (.init (created true allMethods)) serve).map
      Sys.destroyed = some true by decide)
  have hrun := Trans.Run.of_guarded hguarded
  have hp : createWithSize true allMethods Result.ok =
      (Result.ok, some (created true allMethods)) := rfl
  exact ⟨t, hrun.run_eq, hgone, (done_iff_tidy hp hrun.run_eq).mpr hrun⟩

def Pc.asleep : Pc → Bool
  | .waiting _ _ _ => true
  | _ => false

/-- A poolable that is no executor is shut down, and is cancelled; and it is to be destroyed, but
the destruction goes to sleep, and once more after a spurious wake-up. -/
theorem done_each :
    (∃ t, Trans.run Sys.step (.init (created false fewMethods) : Sys (Fin 2))
        [.call 0 .setup allOk, .call 1 (.shutdown 2) allOk] = some t ∧ ¬t.Kept) ∧
    (∃ t, Trans.run Sys.step (.init (created false fewMethods) : Sys (Fin 2))
        [.call 0 .setup allOk, .call 1 .cancel allOk] = some t ∧ ¬t.Kept) ∧
    ∃ t, Trans.run Sys.step (.init (created false fewMethods) : Sys (Fin 2))
        [.call 0 .setup allOk, .call 1 .destroy allOk, .proceed 1, .wake 1 Result.ok] = some t ∧
      t.pobj.st = .notOperational ∧ (t.pc 1).asleep = true := by
  have hbroken : ∀ es : List (Event (Fin 2)),
      (Trans.run Sys.step (.init (created false fewMethods)) es).map
        (fun t => (t.pobj.st, t.pobj.isTorndown)) = some (.notOperational, false) →
      ∃ t, Trans.run Sys.step (.init (created false fewMethods)) es = some t ∧ ¬t.Kept := by
    intro es h
    obtain ⟨t, hrun, heq⟩ := Option.map_eq_some_iff.mp h
    obtain ⟨hst, htorn⟩ := Prod.mk.inj heq
    refine ⟨t, hrun, fun hk => ?_⟩
    cases htorn.symm.trans (hk.done hst).1
  refine ⟨hbroken _ (by decide), hbroken _ (by decide), ?_⟩
  obtain ⟨t, hrun, heq⟩ := Option.map_eq_some_iff.mp
    (show (Trans.run Sys.step (.init (created false fewMethods) : Sys (Fin 2))
        [.call 0 .setup allOk, .call 1 .destroy allOk, .proceed 1, .wake 1 Result.ok]).map
      (fun t => (t.pobj.st, (t.pc 1).asleep)) = some (.notOperational, true) by decide)
  exact ⟨t, hrun, (Prod.mk.inj heq).1, (Prod.mk.inj heq).2⟩

end Poolable
end Gallus
