import Gallus.Gstate.Tracker
import Gallus.Modules.Table
import Mathlib.Order.Basic
import Mathlib.Algebra.BigOperators.Group.List.Basic

/-!
# The passes over the modules (`module.c`)

`gallus_module_initialize_all`, `start_all`, `shutdown_all`, `stop_all`, `wait_all` and
`finalize_all` walk the table under `s_lck`, so each of them is one step.

* `Outcome`: what the procedures and the thread functions return for a module in one pass.
* `passWhile`, `passAll`: the forward walk, which stops at an error, and the backward one.
* `Tallied`: the invariant. `s_n_finalized_modules` is the sum of the calls.
* `finalized_iff_tidy`: every finalization procedure is called at most once, and
  `gallus_module_is_finalized_cleanly` tells whether each of them has been called, exactly if no
  pass finds a module ready for its finalization that has had it.
-/

namespace Gallus
namespace Modules

/-- What happens to a module in a pass. -/
structure Outcome where
  /-- The result of its procedure or of the function on its thread. -/
  ret : Result
  /-- The initialization sets `m_thdptr`. -/
  thd : Bool
  /-- `gallus_thread_is_canceled`. -/
  isCanceled : Bool

namespace AModule

/-- `s_initialize_module`. -/
def initializeModule (m : AModule) (o : Outcome) : AModule × Result :=
  if m.status = .registered then
    if o.ret = Result.ok then ({ m with thd := o.thd, status := .initialized }, o.ret)
    else ({ m with thd := o.thd }, o.ret)
  else (m, Result.invalidStateTransition)

/-- `s_start_module`. -/
def startModule (m : AModule) (o : Outcome) : AModule × Result :=
  if m.status = .initialized then
    if o.ret = Result.ok then ({ m with status := .started }, o.ret) else (m, o.ret)
  else if m.status = .started then (m, Result.ok)
  else (m, Result.invalidStateTransition)

/-- `s_shutdown_module`, with a valid level. -/
def shutdownModule (m : AModule) (o : Outcome) : AModule × Result :=
  if m.status = .started then
    if m.thd = false then ({ m with status := .shutdown }, o.ret) else (m, o.ret)
  else if m.status = .shutdown ∨ m.status = .stopped then (m, Result.ok)
  else (m, Result.invalidStateTransition)

/-- `s_stop_module`. -/
def stopModule (m : AModule) (o : Outcome) : AModule × Result :=
  if m.status = .started then
    if m.stopProc || m.thd then
      if o.ret = Result.ok then
        ({ m with status := if m.thd then .cancelling else .shutdown }, o.ret)
      else (m, o.ret)
    else (m, Result.ok)
  else if m.status = .cancelling ∨ m.status = .shutdown ∨ m.status = .stopped then (m, Result.ok)
  else (m, Result.invalidStateTransition)

/-- `s_wait_module`. -/
def waitModule (m : AModule) (o : Outcome) : AModule × Result :=
  if (m.status = .cancelling ∨ m.status = .started) ∧ m.thd = true then
    if o.ret = Result.ok then
      ({ m with status := if o.isCanceled then .stopped else .shutdown }, o.ret)
    else (m, o.ret)
  else if m.status = .shutdown ∨ m.status = .stopped then (m, Result.ok)
  else (m, Result.invalidStateTransition)

/-- `s_finalize_module` calls the procedure. -/
def isReady (m : AModule) : Bool :=
  m.status = .initialized || m.status = .shutdown || m.status = .stopped

/-- `s_finalize_module`. -/
def finalizeModule (m : AModule) : AModule :=
  if m.isReady then { m with finalizeCalls := m.finalizeCalls + 1 } else m

end AModule

section Walks

variable (f : AModule → Outcome → AModule × Result) (o : Nat → Outcome)

/-- A walk that stops at the first error. -/
def passWhile : Nat → List AModule → List AModule × Result
  | _, [] => ([], Result.ok)
  | i, m :: ms =>
    let r := f m (o i)
    if r.2 = Result.ok then
      let rest := passWhile (i + 1) ms
      (r.1 :: rest.1, rest.2)
    else (r.1 :: ms, r.2)

/-- A walk from the end to the beginning, and the first error in it. -/
def passAll : Nat → List AModule → List AModule × Result
  | _, [] => ([], Result.ok)
  | i, m :: ms =>
    let rest := passAll (i + 1) ms
    let r := f m (o i)
    (r.1 :: rest.1, if rest.2 = Result.ok then r.2 else rest.2)

variable {α : Type} (g : AModule → α)

/-- What no procedure changes, a walk does not change. -/
theorem passWhile_map (hf : ∀ m o, g (f m o).1 = g m) (i : Nat) (ms : List AModule) :
    (passWhile f o i ms).1.map g = ms.map g := by
  induction ms generalizing i with
  | nil => rfl
  | cons m ms ih =>
    unfold passWhile
    dsimp only
    split
    · rw [List.map_cons, List.map_cons, hf, ih]
    · rw [List.map_cons, List.map_cons, hf]

theorem passAll_map (hf : ∀ m o, g (f m o).1 = g m) (i : Nat) (ms : List AModule) :
    (passAll f o i ms).1.map g = ms.map g := by
  induction ms generalizing i with
  | nil => rfl
  | cons m ms ih =>
    unfold passAll
    rw [List.map_cons, List.map_cons, hf, ih]

theorem passWhile_length (i : Nat) (ms : List AModule) :
    (passWhile f o i ms).1.length = ms.length := by
  have h := congrArg List.length (passWhile_map f o (fun _ => ()) (fun _ _ => rfl) i ms)
  rwa [List.length_map, List.length_map] at h

theorem passAll_length (i : Nat) (ms : List AModule) :
    (passAll f o i ms).1.length = ms.length := by
  have h := congrArg List.length (passAll_map f o (fun _ => ()) (fun _ _ => rfl) i ms)
  rwa [List.length_map, List.length_map] at h

end Walks

/-! ## The calls -/

/-- A call after the initialization, with what happens to the module at each index. -/
inductive Event
  | startAll (o : Nat → Outcome)
  | shutdownAll (level : Int) (o : Nat → Outcome)
  | stopAll (o : Nat → Outcome)
  | waitAll (o : Nat → Outcome)
  | finalizeAll

namespace Table

def walkWhile (t : Table) (f : AModule → Outcome → AModule × Result) (o : Nat → Outcome) : Table :=
  { t with
    modules := (passWhile f o 0 t.modules).1
    fits := (passWhile_length f o 0 t.modules).trans_le t.fits }

def walkAll (t : Table) (f : AModule → Outcome → AModule × Result) (o : Nat → Outcome) : Table :=
  { t with
    modules := (passAll f o 0 t.modules).1
    fits := (passAll_length f o 0 t.modules).trans_le t.fits }

/-- `gallus_module_initialize_all`. -/
def initializeAll (t : Table) (o : Nat → Outcome) : Table × Result :=
  let t' := t.walkWhile AModule.initializeModule o
  let ret := (passWhile AModule.initializeModule o 0 t.modules).2
  if ret = Result.ok then ({ t' with isModsInited := true }, ret) else (t', ret)

/-- `gallus_module_finalize_all`. -/
def finalizeAll (t : Table) : Table :=
  { t with
    modules := t.modules.map AModule.finalizeModule
    fits := (List.length_map _).trans_le t.fits
    nFinalizedModules := t.nFinalizedModules + t.modules.countP AModule.isReady }

/-- `gallus_module_is_finalized_cleanly`. -/
def isFinalizedCleanly (t : Table) : Bool :=
  if t.isModsInited then decide (t.modules.length = t.nFinalizedModules) else true

/-- One call. -/
def passStep (t : Table) : Event → Option Table
  | .startAll o => some (t.walkWhile AModule.startModule o)
  | .shutdownAll level o =>
    if Gstate.isValidShutdown level then some (t.walkAll AModule.shutdownModule o) else some t
  | .stopAll o => some (t.walkAll AModule.stopModule o)
  | .waitAll o => some (t.walkAll AModule.waitModule o)
  | .finalizeAll => some t.finalizeAll

end Table

/-! ## The finalizations -/

section Procs

variable (m : AModule) (o : Outcome)

theorem initializeModule_calls : (m.initializeModule o).1.finalizeCalls = m.finalizeCalls := by
  unfold AModule.initializeModule
  split
  · split <;> rfl
  · rfl

theorem startModule_calls : (m.startModule o).1.finalizeCalls = m.finalizeCalls := by
  unfold AModule.startModule
  split_ifs <;> rfl

theorem shutdownModule_calls : (m.shutdownModule o).1.finalizeCalls = m.finalizeCalls := by
  unfold AModule.shutdownModule
  split_ifs <;> rfl

theorem stopModule_calls : (m.stopModule o).1.finalizeCalls = m.finalizeCalls := by
  unfold AModule.stopModule
  split_ifs <;> rfl

theorem waitModule_calls : (m.waitModule o).1.finalizeCalls = m.finalizeCalls := by
  unfold AModule.waitModule
  split_ifs <;> rfl

theorem finalizeModule_calls :
    m.finalizeModule.finalizeCalls = m.finalizeCalls + if m.isReady then 1 else 0 := by
  unfold AModule.finalizeModule
  split <;> rfl

end Procs

section Runs

variable {t t' : Table} {e : Event}

/-- The calls of the finalization procedures. -/
def Table.calls (t : Table) : List Nat := t.modules.map AModule.finalizeCalls

theorem mem_calls {q : Nat → Prop} :
    (∀ n ∈ t.calls, q n) ↔ ∀ m ∈ t.modules, q m.finalizeCalls :=
  List.forall_mem_map

/-- The condition on the calls: no module that is ready for its finalization has had it. -/
def tidyPass (t : Table) : Event → Prop
  | .finalizeAll => ∀ m ∈ t.modules, m.isReady = true → m.finalizeCalls = 0
  | _ => True

/-- What each pass but the finalization keeps. -/
structure Frame (t t' : Table) : Prop where
  calls : t'.calls = t.calls
  nFinalizedModules : t'.nFinalizedModules = t.nFinalizedModules
  isModsInited : t'.isModsInited = t.isModsInited

theorem walkAll_frame {f : AModule → Outcome → AModule × Result} {o : Nat → Outcome}
    (hf : ∀ m o, (f m o).1.finalizeCalls = m.finalizeCalls) : Frame t (t.walkAll f o) :=
  ⟨passAll_map f o _ hf 0 t.modules, rfl, rfl⟩

/-- **What a step does to the finalizations.** -/
theorem passStep_cases (hs : t.passStep e = some t') :
    tidyPass t e ∧ Frame t t' ∨ e = .finalizeAll ∧ t' = t.finalizeAll := by
  cases e with
  | startAll o =>
    cases hs
    exact .inl ⟨trivial, passWhile_map _ o _ startModule_calls 0 t.modules, rfl, rfl⟩
  | shutdownAll level o =>
    simp only [Table.passStep] at hs
    split at hs
    · cases hs
      exact .inl ⟨trivial, walkAll_frame shutdownModule_calls⟩
    · cases hs
      exact .inl ⟨trivial, rfl, rfl, rfl⟩
  | stopAll o =>
    cases hs
    exact .inl ⟨trivial, walkAll_frame stopModule_calls⟩
  | waitAll o =>
    cases hs
    exact .inl ⟨trivial, walkAll_frame waitModule_calls⟩
  | finalizeAll =>
    cases hs
    exact .inr ⟨rfl, rfl⟩

theorem sum_finalizeModule (ms : List AModule) :
    ((ms.map AModule.finalizeModule).map AModule.finalizeCalls).sum =
      (ms.map AModule.finalizeCalls).sum + ms.countP AModule.isReady := by
  induction ms with
  | nil => rfl
  | cons m ms ih =>
    simp only [List.map_cons, List.sum_cons, List.countP_cons, finalizeModule_calls, ih]
    omega

/-- A sum of zeros and ones. -/
theorem sum_tally {l : List Nat} (hle : ∀ n ∈ l, n ≤ 1) :
    l.sum ≤ l.length ∧ (l.length = l.sum ↔ ∀ n ∈ l, n = 1) := by
  induction l with
  | nil => simp
  | cons n l ih =>
    obtain ⟨hn, hl⟩ := List.forall_mem_cons.mp hle
    obtain ⟨hsum, hiff⟩ := ih hl
    rw [List.forall_mem_cons, ← hiff, List.length_cons, List.sum_cons]
    omega

/-- The invariant of the tidy steps. -/
structure Tallied (t : Table) : Prop where
  inited : t.isModsInited = true
  tally : t.nFinalizedModules = t.calls.sum
  once : ∀ n ∈ t.calls, n ≤ 1

/-- What `gallus_module_is_finalized_cleanly` tells. -/
structure Kept (t : Table) : Prop where
  once : ∀ m ∈ t.modules, m.finalizeCalls ≤ 1
  cleanly : t.isFinalizedCleanly = true ↔ ∀ m ∈ t.modules, m.finalizeCalls = 1

theorem Tallied.frame (h : Tallied t) (hf : Frame t t') : Tallied t' := by
  refine ⟨hf.isModsInited.trans h.inited, ?_, ?_⟩
  · rw [hf.nFinalizedModules, hf.calls]
    exact h.tally
  · rw [hf.calls]
    exact h.once

/-- **The step lemma.** -/
theorem Tallied.step (h : Tallied t) (hok : tidyPass t e) (hs : t.passStep e = some t') :
    Tallied t' := by
  rcases passStep_cases hs with ⟨-, hf⟩ | ⟨rfl, rfl⟩
  · exact h.frame hf
  · refine ⟨h.inited, ?_, ?_⟩
    · have hsum := sum_finalizeModule t.modules
      have htally := h.tally
      unfold Table.calls at htally
      show t.nFinalizedModules + t.modules.countP AModule.isReady =
        ((t.modules.map AModule.finalizeModule).map AModule.finalizeCalls).sum
      omega
    · refine mem_calls.mpr fun m hm => ?_
      obtain ⟨m₀, hm₀, rfl⟩ := List.mem_map.mp hm
      have hle := mem_calls.mp h.once m₀ hm₀
      rw [finalizeModule_calls]
      split
      · next hready => rw [hok m₀ hm₀ hready]
      · exact hle

theorem Tallied.kept (h : Tallied t) : Kept t := by
  refine ⟨mem_calls.mp h.once, ?_⟩
  unfold Table.isFinalizedCleanly
  rw [if_pos h.inited, decide_eq_true_iff, h.tally]
  have hlen : t.calls.length = t.modules.length := List.length_map _
  exact hlen ▸ (sum_tally h.once).2.trans mem_calls

theorem tidyPass_of_kept (hs : t.passStep e = some t') (hk : Kept t') : tidyPass t e := by
  rcases passStep_cases hs with ⟨hok, -⟩ | ⟨rfl, rfl⟩
  · exact hok
  · intro m hm hready
    have honce := hk.once m.finalizeModule (List.mem_map_of_mem hm)
    rw [finalizeModule_calls, if_pos hready] at honce
    omega

/-- No module has been finalized. -/
structure Fresh (t : Table) : Prop where
  calls : ∀ m ∈ t.modules, m.finalizeCalls = 0
  nFinalizedModules : t.nFinalizedModules = 0

theorem Fresh.register {r : Registration} (h : Fresh t) : Fresh (t.register r).2 := by
  cases hr : r.name with
  | none =>
    rw [register_none hr]
    exact h
  | some n =>
    rcases register_cases hr with ⟨-, hlt, heq⟩ | ⟨-, ret, -, heq⟩
    · rw [heq]
      refine ⟨fun m hm => ?_, h.nFinalizedModules⟩
      rcases List.mem_append.mp hm with hm | hm
      · exact h.calls m hm
      · rw [List.mem_singleton.mp hm]
        rfl
    · rw [heq]
      exact h

theorem Fresh.tallied {o : Nat → Outcome} (h : Fresh t)
    (hinit : t.initializeAll o = (t', Result.ok)) : Tallied t' := by
  have hcalls : (t.walkWhile AModule.initializeModule o).calls = t.calls :=
    passWhile_map _ o _ initializeModule_calls 0 t.modules
  have hzero : ∀ n ∈ t.calls, n = 0 := mem_calls.mpr h.calls
  unfold Table.initializeAll at hinit
  dsimp only at hinit
  split at hinit
  · obtain ⟨rfl, -⟩ := Prod.mk.inj hinit
    refine ⟨rfl, ?_, ?_⟩
    · show t.nFinalizedModules = (t.walkWhile AModule.initializeModule o).calls.sum
      rw [hcalls, h.nFinalizedModules, List.sum_eq_zero hzero]
    · show ∀ n ∈ (t.walkWhile AModule.initializeModule o).calls, n ≤ 1
      rw [hcalls]
      exact fun n hn => (hzero n hn).trans_le (Nat.zero_le 1)
  · next hne => exact absurd (Prod.mk.inj hinit).2 hne

/-- **Each module is finalized at most once, and `gallus_module_is_finalized_cleanly` tells the
truth, exactly if the calls are tidy.** For every set of registered modules and every sequence of
calls after their initialization, with any outcomes. -/
theorem finalized_iff_tidy {rs : List Registration} {o : Nat → Outcome} {t₀ t₁ : Table}
    {es : List Event} (hreg : Trans.run Table.registerStep .empty rs = some t₀)
    (hinit : t₀.initializeAll o = (t₁, Result.ok))
    (hrun : Trans.run Table.passStep t₁ es = some t) :
    (∀ es' t', es' <+: es → Trans.run Table.passStep t₁ es' = some t' → Kept t') ↔
      Trans.Run Table.passStep tidyPass t₁ es t := by
  have hfresh : Fresh t₀ := by
    refine (Trans.Run.all_iff.mpr hreg).inv ?_ ⟨nofun, rfl⟩
    rintro s r s' h - hst
    cases hst
    exact h.register
  exact Trans.Run.iff_states (fun _ _ _ h hok hs => h.step hok hs)
    (fun _ _ _ _ hs hk => tidyPass_of_kept hs hk) (fun _ h => h.kept) (hfresh.tallied hinit) hrun

instance (t : Table) (e : Event) : Decidable (tidyPass t e) :=
  match e with
  | .finalizeAll =>
    inferInstanceAs (Decidable (∀ m ∈ t.modules, m.isReady = true → m.finalizeCalls = 0))
  | .startAll _ | .shutdownAll _ _ | .stopAll _ | .waitAll _ => .isTrue trivial

end Runs

/-- Everything succeeds; the second module has a thread. -/
def succeed (i : Nat) : Outcome := ⟨Result.ok, decide (i = 1), false⟩

/-- Two modules, initialized. -/
def twoRegistered : Table :=
  ((Table.empty.register (registration nameA)).2.register (registration nameB)).2

def twoModules : Table := (twoRegistered.initializeAll succeed).1

theorem twoRegistered_eq :
    Trans.run Table.registerStep .empty [registration nameA, registration nameB] =
      some twoRegistered := rfl

theorem twoModules_eq : twoRegistered.initializeAll succeed = (twoModules, Result.ok) :=
  Prod.ext rfl (show (twoRegistered.initializeAll succeed).2 = Result.ok by decide)

/-- From the start to the end. -/
def lifeTime : List Event :=
  [.startAll succeed, .shutdownAll Gstate.shutdownGracefully succeed, .waitAll succeed,
    .finalizeAll]

theorem finalized_iff_tidy_lifeTime :
    ∃ t, Trans.run Table.passStep twoModules lifeTime = some t ∧ t.isFinalizedCleanly = true ∧
      ∀ es' t', es' <+: lifeTime → Trans.run Table.passStep twoModules es' = some t' → Kept t' := by
  obtain ⟨t, hguarded, hclean⟩ := Option.map_eq_some_iff.mp
    (show (Trans.run (Trans.guarded Table.passStep tidyPass) twoModules lifeTime).map
      Table.isFinalizedCleanly = some true by decide)
  have hrun := Trans.Run.of_guarded hguarded
  exact ⟨t, hrun.run_eq, hclean,
    (finalized_iff_tidy twoRegistered_eq twoModules_eq hrun.run_eq).mpr hrun⟩

/-- Both modules are finalized twice; and one of them is finalized twice and the other one, which is
still running, not at all, and that is taken for a clean end. -/
theorem finalized_each :
    (∃ t, Trans.run Table.passStep twoModules [.finalizeAll, .finalizeAll] = some t ∧
      t.calls = [2, 2] ∧ t.isFinalizedCleanly = false) ∧
    ∃ t, Trans.run Table.passStep twoModules [.startAll succeed,
        .shutdownAll Gstate.shutdownGracefully succeed, .finalizeAll, .finalizeAll] = some t ∧
      t.calls = [2, 0] ∧ t.isFinalizedCleanly = true := by
  have hboth : ∀ (es : List Event) (ns : List Nat) (b : Bool),
      (Trans.run Table.passStep twoModules es).map (fun t => (t.calls, t.isFinalizedCleanly)) =
        some (ns, b) →
      ∃ t, Trans.run Table.passStep twoModules es = some t ∧ t.calls = ns ∧
        t.isFinalizedCleanly = b := by
    intro es ns b h
    obtain ⟨t, hrun, heq⟩ := Option.map_eq_some_iff.mp h
    exact ⟨t, hrun, (Prod.mk.inj heq).1, (Prod.mk.inj heq).2⟩
  exact ⟨hboth _ _ _ (by decide), hboth _ _ _ (by decide)⟩

end Modules
end Gallus
