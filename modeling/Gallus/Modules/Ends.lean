import Gallus.Modules.Passes

/-!
# What a pass over the modules leaves (`module.c`)

* `startAll`, `shutdownAll`, `stopAll`, `waitAll`: the passes with their results.
* `passWhile_keeps`, `passAll_keeps`: what each call keeps, a walk keeps. `passWhile_ok`,
  `passAll_ok`: a walk without an error has had its effect on every module.
* `AModule.hasStarted`, `hasEnded`: a module that has been started stays so, and after a wait
  without an error each module has ended.
* `Counted`: the finalizations are counted. `Fresh.finalizeAll`: after the first pass each module
  that has ended has been finalized once.
-/

namespace Gallus
namespace Modules

/-! ## The passes with their results -/

namespace Table

variable (t : Table) (o : Nat → Outcome)

/-- `gallus_module_start_all` -/
def startAll : Table × Result :=
  (t.walkWhile AModule.startModule o, (passWhile AModule.startModule o 0 t.modules).2)

/-- `gallus_module_shutdown_all` -/
def shutdownAll (level : Int) : Table × Result :=
  if Gstate.isValidShutdown level then
    (t.walkAll AModule.shutdownModule o, (passAll AModule.shutdownModule o 0 t.modules).2)
  else (t, Result.invalidArgs)

/-- `gallus_module_stop_all` -/
def stopAll : Table × Result :=
  (t.walkAll AModule.stopModule o, (passAll AModule.stopModule o 0 t.modules).2)

/-- `gallus_module_wait_all` -/
def waitAll : Table × Result :=
  (t.walkAll AModule.waitModule o, (passAll AModule.waitModule o 0 t.modules).2)

end Table

section Walks

variable {f : AModule → Outcome → AModule × Result} {o : Nat → Outcome} {Q : AModule → Prop}

/-- What each call keeps, a walk keeps. -/
theorem passWhile_keeps (hf : ∀ m o, Q m → Q (f m o).1) (i : Nat) {ms : List AModule}
    (h : ∀ m ∈ ms, Q m) : ∀ m ∈ (passWhile f o i ms).1, Q m := by
  induction ms generalizing i with
  | nil => exact h
  | cons m ms ih =>
    obtain ⟨hm, hms⟩ := List.forall_mem_cons.mp h
    unfold passWhile
    dsimp only
    split
    · exact List.forall_mem_cons.mpr ⟨hf m _ hm, ih (i + 1) hms⟩
    · exact List.forall_mem_cons.mpr ⟨hf m _ hm, hms⟩

theorem passAll_keeps (hf : ∀ m o, Q m → Q (f m o).1) (i : Nat) {ms : List AModule}
    (h : ∀ m ∈ ms, Q m) : ∀ m ∈ (passAll f o i ms).1, Q m := by
  induction ms generalizing i with
  | nil => exact h
  | cons m ms ih =>
    obtain ⟨hm, hms⟩ := List.forall_mem_cons.mp h
    exact List.forall_mem_cons.mpr ⟨hf m _ hm, ih (i + 1) hms⟩

/-- A walk without an error has had its effect on every module. -/
theorem passWhile_ok (hf : ∀ m o, (f m o).2 = Result.ok → Q (f m o).1) {i : Nat}
    {ms : List AModule} (h : (passWhile f o i ms).2 = Result.ok) :
    ∀ m ∈ (passWhile f o i ms).1, Q m := by
  induction ms generalizing i with
  | nil => nofun
  | cons m ms ih =>
    unfold passWhile at h ⊢
    dsimp only at h ⊢
    split
    · next hm =>
      rw [if_pos hm] at h
      exact List.forall_mem_cons.mpr ⟨hf m _ hm, ih h⟩
    · next hm =>
      rw [if_neg hm] at h
      exact absurd h hm

theorem passAll_ok (hf : ∀ m o, (f m o).2 = Result.ok → Q (f m o).1) {i : Nat}
    {ms : List AModule} (h : (passAll f o i ms).2 = Result.ok) :
    ∀ m ∈ (passAll f o i ms).1, Q m := by
  induction ms generalizing i with
  | nil => nofun
  | cons m ms ih =>
    unfold passAll at h ⊢
    dsimp only at h ⊢
    by_cases hrest : (passAll f o (i + 1) ms).2 = Result.ok
    · rw [if_pos hrest] at h
      exact List.forall_mem_cons.mpr ⟨hf m _ h, ih hrest⟩
    · rw [if_neg hrest] at h
      exact absurd h hrest

variable {t : Table}

theorem Fresh.walkWhile (h : Fresh t) (hf : ∀ m o, (f m o).1.finalizeCalls = m.finalizeCalls) :
    Fresh (t.walkWhile f o) where
  calls := passWhile_keeps (Q := fun m => m.finalizeCalls = 0)
    (fun m o hm => (hf m o).trans hm) 0 h.calls
  nFinalizedModules := h.nFinalizedModules

theorem Fresh.walkAll (h : Fresh t) (hf : ∀ m o, (f m o).1.finalizeCalls = m.finalizeCalls) :
    Fresh (t.walkAll f o) where
  calls := passAll_keeps (Q := fun m => m.finalizeCalls = 0)
    (fun m o hm => (hf m o).trans hm) 0 h.calls
  nFinalizedModules := h.nFinalizedModules

theorem Fresh.initializeAll (h : Fresh t) : Fresh (t.initializeAll o).1 := by
  have hwalk : Fresh (t.walkWhile AModule.initializeModule o) :=
    h.walkWhile initializeModule_calls
  unfold Table.initializeAll
  dsimp only
  split
  · exact ⟨hwalk.calls, hwalk.nFinalizedModules⟩
  · exact hwalk

theorem Fresh.shutdownAll (h : Fresh t) (level : Int) : Fresh (t.shutdownAll o level).1 := by
  unfold Table.shutdownAll
  split
  · exact h.walkAll shutdownModule_calls
  · exact h

/-- The modules are registered and nothing else has happened to them. -/
theorem Fresh.registered {rs : List Registration}
    (hreg : Trans.run Table.registerStep .empty rs = some t) : Fresh t := by
  refine (Trans.Run.all_iff.mpr hreg).inv ?_ ⟨nofun, rfl⟩
  rintro s r s' h - hst
  cases hst
  exact h.register

end Walks

/-- The module has been started. -/
def AModule.hasStarted (m : AModule) : Prop :=
  m.status = .started ∨ m.status = .shutdown ∨ m.status = .cancelling ∨ m.status = .stopped

/-- The module has come to its end. -/
def AModule.hasEnded (m : AModule) : Prop := m.status = .shutdown ∨ m.status = .stopped

def Table.HasStarted (t : Table) : Prop := ∀ m ∈ t.modules, m.hasStarted

def Table.HasEnded (t : Table) : Prop := ∀ m ∈ t.modules, m.hasEnded

def Table.Started (t : Table) : Prop := ∀ m ∈ t.modules, m.status = .started

section Status

variable (m : AModule) (o : Outcome)

theorem initializeModule_hasStarted (h : m.hasStarted) : (m.initializeModule o).1.hasStarted := by
  unfold AModule.hasStarted at h
  unfold AModule.initializeModule
  rw [if_neg fun hr => by simp [hr] at h]
  exact h

theorem startModule_hasStarted (h : m.hasStarted) : (m.startModule o).1.hasStarted := by
  unfold AModule.startModule
  split_ifs
  · exact .inl rfl
  · exact h
  · exact h
  · exact h

theorem shutdownModule_hasStarted (h : m.hasStarted) : (m.shutdownModule o).1.hasStarted := by
  unfold AModule.shutdownModule
  split_ifs
  · exact .inr (.inl rfl)
  · exact h
  · exact h
  · exact h

theorem stopModule_hasStarted (h : m.hasStarted) : (m.stopModule o).1.hasStarted := by
  unfold AModule.stopModule
  split_ifs
  · exact .inr (.inr (.inl rfl))
  · exact .inr (.inl rfl)
  · exact h
  · exact h
  · exact h
  · exact h

theorem waitModule_hasStarted (h : m.hasStarted) : (m.waitModule o).1.hasStarted := by
  unfold AModule.waitModule
  split_ifs
  · exact .inr (.inr (.inr rfl))
  · exact .inr (.inl rfl)
  · exact h
  · exact h
  · exact h

theorem finalizeModule_status : m.finalizeModule.status = m.status := by
  unfold AModule.finalizeModule
  split
  · rfl
  · rfl

theorem finalizeModule_isReady : m.finalizeModule.isReady = m.isReady := by
  unfold AModule.isReady
  rw [finalizeModule_status]

theorem startModule_ok (h : (m.startModule o).2 = Result.ok) :
    (m.startModule o).1.status = .started := by
  unfold AModule.startModule at h ⊢
  split_ifs at h ⊢
  · rfl
  · contradiction
  · assumption
  · cases h

theorem waitModule_ok (h : (m.waitModule o).2 = Result.ok) : (m.waitModule o).1.hasEnded := by
  unfold AModule.waitModule at h ⊢
  split_ifs at h ⊢
  · exact .inr rfl
  · exact .inl rfl
  · contradiction
  · assumption
  · cases h

theorem AModule.hasEnded.isReady {m : AModule} (h : m.hasEnded) : m.isReady = true := by
  rcases h with h | h
  · simp [AModule.isReady, h]
  · simp [AModule.isReady, h]

variable {t : Table} {o : Nat → Outcome}

theorem Table.Started.hasStarted (h : t.Started) : t.HasStarted := fun m hm => .inl (h m hm)

theorem startAll_ok (h : (t.startAll o).2 = Result.ok) : (t.startAll o).1.Started :=
  passWhile_ok startModule_ok h

theorem waitAll_ok (h : (t.waitAll o).2 = Result.ok) : (t.waitAll o).1.HasEnded :=
  passAll_ok waitModule_ok h

theorem Table.HasStarted.initializeAll (h : t.HasStarted) : (t.initializeAll o).1.HasStarted := by
  have hwalk : (t.walkWhile AModule.initializeModule o).HasStarted :=
    passWhile_keeps initializeModule_hasStarted 0 h
  unfold Table.initializeAll
  dsimp only
  split
  · exact hwalk
  · exact hwalk

theorem Table.HasStarted.shutdownAll (h : t.HasStarted) (level : Int) :
    (t.shutdownAll o level).1.HasStarted := by
  unfold Table.shutdownAll
  split
  · exact passAll_keeps shutdownModule_hasStarted 0 h
  · exact h

theorem Table.HasStarted.finalizeAll (h : t.HasStarted) : t.finalizeAll.HasStarted := by
  refine List.forall_mem_map.mpr fun m hm => ?_
  show m.finalizeModule.hasStarted
  unfold AModule.hasStarted
  rw [finalizeModule_status]
  exact h m hm

end Status

/-- The finalizations are counted, and there is at most one for each module, which was ready. -/
structure Counted (t : Table) : Prop where
  tally : t.nFinalizedModules = t.calls.sum
  once : ∀ m ∈ t.modules, m.finalizeCalls ≤ 1
  ready : ∀ m ∈ t.modules, m.finalizeCalls = 1 → m.isReady = true

theorem Fresh.counted {t : Table} (h : Fresh t) : Counted t where
  tally := by
    rw [h.nFinalizedModules, List.sum_eq_zero]
    exact mem_calls.mpr h.calls
  once m hm := (h.calls m hm).trans_le (Nat.zero_le 1)
  ready m hm hone := by
    rw [h.calls m hm] at hone
    cases hone

/-- The one finalization. -/
theorem Fresh.finalizeAll {t : Table} (h : Fresh t) :
    Counted t.finalizeAll ∧ (t.HasEnded →
      t.finalizeAll.HasEnded ∧ ∀ m ∈ t.finalizeAll.modules, m.finalizeCalls = 1) := by
  refine ⟨⟨?_, List.forall_mem_map.mpr fun m hm => ?_, List.forall_mem_map.mpr fun m hm hone => ?_⟩,
    fun hend => ⟨?_, ?_⟩⟩
  · have hsum := sum_finalizeModule t.modules
    have hzero : t.calls.sum = 0 := List.sum_eq_zero (mem_calls.mpr h.calls)
    unfold Table.calls at hzero
    rw [hzero] at hsum
    show t.nFinalizedModules + t.modules.countP AModule.isReady =
      ((t.modules.map AModule.finalizeModule).map AModule.finalizeCalls).sum
    rw [hsum, h.nFinalizedModules]
  · rw [finalizeModule_calls, h.calls m hm]
    split
    · exact Nat.le_refl 1
    · exact Nat.zero_le 1
  · rw [finalizeModule_calls, h.calls m hm] at hone
    rw [finalizeModule_isReady]
    by_contra hready
    rw [if_neg hready] at hone
    cases hone
  · refine List.forall_mem_map.mpr fun m hm => ?_
    unfold AModule.hasEnded
    rw [finalizeModule_status]
    exact hend m hm
  · refine List.forall_mem_map.mpr fun m hm => ?_
    rw [finalizeModule_calls, h.calls m hm, if_pos (hend m hm).isReady]

/-- What `gallus_module_is_finalized_cleanly` tells. -/
theorem Counted.cleanly {t : Table} (h : Counted t) : t.isFinalizedCleanly = true ↔
    t.isModsInited = false ∨ ∀ m ∈ t.modules, m.finalizeCalls = 1 := by
  have hlen : t.calls.length = t.modules.length := List.length_map _
  unfold Table.isFinalizedCleanly
  split
  · next hinit =>
    rw [decide_eq_true_iff, h.tally, ← hlen, (sum_tally (mem_calls.mpr h.once)).2, mem_calls]
    simp [hinit]
  · next hinit => simp [hinit]

end Modules
end Gallus
