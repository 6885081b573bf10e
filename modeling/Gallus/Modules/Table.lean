import Gallus.Basic
import Gallus.Lib.Trans

/-!
# The table of modules (`module.c`)

* `CStr`: a C string, which has no NUL before its end.
* `AModule`, `Table`: a row and the table, which never outgrows `MAX_MODULES`. Next to `m_name` a
  row has the name as it was given, since `m_name` has room for 63 bytes only. Of the procedures
  only `m_stop_proc` may be `NULL` in a row.
* `findLoop_false`: the look-up by `gallus_module_register` and `gallus_module_find`, which pass no
  place for the module, finds nothing. So `register_cases`: no name is rejected.
* `registry_iff_tidy`: the table is a registry of names exactly if no name is given again, nor one
  with the same first 63 bytes; and a look-up is right exactly for the names that are not in it.
* `registry_each`: one run for each way to break it.
-/

namespace Gallus
namespace Modules

def maxModules : Nat := 1024
def maxModuleName : Nat := 64

/-- A C string. -/
structure CStr where
  bytes : List UInt8
  noNul : 0 ∉ bytes
  deriving DecidableEq

/-- What `snprintf` with `"%s"` leaves in a buffer of `size` bytes. -/
def CStr.cut (s : CStr) (size : Nat) : CStr where
  bytes := s.bytes.take (size - 1)
  noNul h := s.noNul (List.mem_of_mem_take h)

/-- `a_module_state_t`. -/
inductive ModuleState
  | unknown | registered | initialized | started | shutdown | cancelling | stopped | finalized
  deriving DecidableEq

/-- `a_module`. `finalizeCalls` counts the calls of `m_finalize_proc`. -/
structure AModule where
  given : CStr
  name : CStr
  name_eq : name = given.cut maxModuleName
  /-- `m_thdptr != NULL`. -/
  thd : Bool
  /-- `m_stop_proc != NULL`. -/
  stopProc : Bool
  status : ModuleState
  finalizeCalls : Nat

/-- The arguments of `gallus_module_register`: which of them are not `NULL`. -/
structure Registration where
  name : Option CStr
  initProc : Bool
  startProc : Bool
  shutdownProc : Bool
  stopProc : Bool
  finalizeProc : Bool

/-- `s_modules` with its counters. -/
structure Table where
  modules : List AModule
  fits : modules.length ≤ maxModules
  nFinalizedModules : Nat
  isModsInited : Bool

/-- The row of a new module. -/
def Registration.row (r : Registration) (n : CStr) : AModule where
  given := n
  name := n.cut maxModuleName
  name_eq := rfl
  thd := false
  stopProc := r.stopProc
  status := .registered
  finalizeCalls := 0

/-- The check of the arguments. -/
def Registration.isValid (r : Registration) (n : CStr) : Bool :=
  decide (n.bytes ≠ []) && r.initProc && r.startProc && r.shutdownProc && r.finalizeProc

namespace Table

/-- `s_once_proc`. -/
def empty : Table where
  modules := []
  fits := Nat.zero_le _
  nFinalizedModules := 0
  isModsInited := false

/-- The names in the table. -/
def names (t : Table) : List CStr := t.modules.map AModule.name

/-- The names that the modules were registered under. -/
def givens (t : Table) : List CStr := t.modules.map AModule.given

end Table

/-- The loop of `s_find_module`. `wanted`: the caller has passed a place for the module. -/
def findLoop (name : CStr) (wanted : Bool) : List AModule → Nat → Option Nat
  | [], _ => none
  | m :: ms, i =>
    if m.name = name then if wanted then some i else findLoop name wanted ms (i + 1)
    else findLoop name wanted ms (i + 1)

namespace Table

/-- `s_find_module`. -/
def findModule (t : Table) (name : Option CStr) (wanted : Bool) : Result :=
  match name with
  | some n =>
    if n.bytes ≠ [] then
      match findLoop n wanted t.modules 0 with
      | some i => (i : Int)
      | none => Result.notFound
    else Result.invalidArgs
  | none => Result.invalidArgs

def add (t : Table) (r : Registration) (n : CStr) (h : t.modules.length < maxModules) : Table :=
  { t with
    modules := t.modules ++ [r.row n]
    fits := by
      rw [List.length_append]
      exact h }

/-- `s_register_module`. -/
def register (t : Table) (r : Registration) : Result × Table :=
  if h : t.modules.length < maxModules then
    match r.name with
    | some n =>
      if r.isValid n then
        if t.findModule r.name false = Result.notFound then (Result.ok, t.add r n h)
        else (Result.alreadyExists, t)
      else (Result.invalidArgs, t)
    | none => (Result.invalidArgs, t)
  else (Result.noMemory, t)

/-- `gallus_module_find`. -/
def find (t : Table) (name : Option CStr) : Result := t.findModule name false

/-- One registration. -/
def registerStep (t : Table) (r : Registration) : Option Table := some (t.register r).2

end Table

/-! ## The look-up -/

section LookUp

variable {t : Table} {r : Registration} {n : CStr}

/-- The loop goes on past a match. -/
theorem findLoop_false (n : CStr) (ms : List AModule) (i : Nat) : findLoop n false ms i = none := by
  induction ms generalizing i with
  | nil => rfl
  | cons m ms ih =>
    unfold findLoop
    split
    · exact ih (i + 1)
    · exact ih (i + 1)

/-- With a place for the module it is the first match. -/
theorem findLoop_true (n : CStr) (ms : List AModule) (i : Nat) :
    findLoop n true ms i = (ms.findIdx? fun m => decide (m.name = n)).map (· + i) := by
  induction ms generalizing i with
  | nil => rfl
  | cons m ms ih =>
    unfold findLoop
    rw [List.findIdx?_cons]
    by_cases hm : m.name = n
    · simp [hm]
    · rw [if_neg hm, ih, decide_eq_false hm, if_neg Bool.false_ne_true, Option.map_map]
      apply congrFun
      apply congrArg
      funext x
      show x + (i + 1) = x + 1 + i
      omega

theorem find_eq (hn : n.bytes ≠ []) : t.find (some n) = Result.notFound := by
  unfold Table.find Table.findModule
  dsimp only
  rw [if_pos hn, findLoop_false]

theorem Registration.isValid_name (h : r.isValid n = true) : n.bytes ≠ [] := by
  simp only [Registration.isValid, Bool.and_eq_true, decide_eq_true_eq] at h
  exact h.1.1.1.1

/-- The registration gets past the checks that come before the look-up. -/
def Table.accepts (t : Table) (r : Registration) (n : CStr) : Prop :=
  t.modules.length < maxModules ∧ r.isValid n = true

/-- **No name is rejected.** -/
theorem register_cases (hr : r.name = some n) :
    (t.accepts r n ∧ ∃ h, t.register r = (Result.ok, t.add r n h)) ∨
      ¬t.accepts r n ∧ ∃ ret, ret ≠ Result.alreadyExists ∧ t.register r = (ret, t) := by
  unfold Table.register Table.accepts
  by_cases hlt : t.modules.length < maxModules
  · rw [dif_pos hlt]
    simp only [hr]
    by_cases hv : r.isValid n = true
    · have hfind : t.findModule (some n) false = Result.notFound := find_eq (r.isValid_name hv)
      rw [if_pos hv, if_pos hfind]
      exact .inl ⟨⟨hlt, hv⟩, hlt, rfl⟩
    · rw [if_neg hv]
      exact .inr ⟨fun h => hv h.2, _, by decide, rfl⟩
  · rw [dif_neg hlt]
    exact .inr ⟨fun h => hlt h.1, _, by decide, rfl⟩

theorem register_none (hr : r.name = none) : (t.register r).2 = t := by
  unfold Table.register
  split
  · simp only [hr]
  · rfl

theorem add_names (h : t.modules.length < maxModules) :
    (t.add r n h).names = t.names ++ [n.cut maxModuleName] :=
  List.map_append

end LookUp

/-! ## The registry -/

section Registry

variable {t : Table} {r : Registration} {n : CStr}

/-- What a registration promises: a name that is registered already is rejected, and the names in
the table stay distinct. -/
def lawful (t : Table) (r : Registration) : Prop :=
  (∀ n, r.name = some n → n ∈ t.givens → t.register r = (Result.alreadyExists, t)) ∧
    (t.register r).2.names.Nodup

/-- The condition on the registrations: the name is not registered already, and if it is accepted
there is none with the same first bytes. -/
def tidy (t : Table) (r : Registration) : Prop :=
  ∀ n, r.name = some n → n ∉ t.givens ∧ (t.accepts r n → n.cut maxModuleName ∉ t.names)

/-- What a look-up promises. -/
def Table.found (t : Table) (n : CStr) : Prop :=
  (∀ (i : Nat) m, t.modules[i]? = some m → m.given = n → t.find (some n) = (i : Int)) ∧
    (n ∉ t.givens → t.find (some n) = Result.notFound)

theorem nodup_add (hnodup : t.names.Nodup) (h : t.modules.length < maxModules) :
    (t.add r n h).names.Nodup ↔ n.cut maxModuleName ∉ t.names := by
  rw [add_names, List.nodup_append]
  constructor
  · rintro ⟨-, -, hne⟩ hmem
    exact hne _ hmem _ (List.mem_singleton_self _) rfl
  · intro hnot
    refine ⟨hnodup, by simp, fun a ha b hb hab => ?_⟩
    rw [List.mem_singleton.mp hb] at hab
    exact hnot (hab ▸ ha)

theorem lawful_iff_tidy (hnodup : t.names.Nodup) : lawful t r ↔ tidy t r := by
  cases hr : r.name with
  | none =>
    unfold lawful tidy
    rw [register_none hr]
    simp [hr, hnodup]
  | some n =>
    have hgiven : n ∈ t.givens → t.register r ≠ (Result.alreadyExists, t) := by
      intro _ heq
      rcases register_cases hr with ⟨-, h, hok⟩ | ⟨-, ret, hne, hret⟩
      · cases (Prod.mk.inj (hok.symm.trans heq)).1
      · exact hne (Prod.mk.inj (hret.symm.trans heq)).1
    have hnames : (t.register r).2.names.Nodup ↔
        (t.accepts r n → n.cut maxModuleName ∉ t.names) := by
      rcases register_cases hr with ⟨hacc, h, hok⟩ | ⟨hacc, ret, -, hret⟩
      · rw [hok]
        exact (nodup_add hnodup h).trans ⟨fun hnot _ => hnot, fun himp => himp hacc⟩
      · rw [hret]
        exact iff_of_true hnodup fun h => absurd h hacc
    unfold lawful tidy
    rw [hnames, hr]
    constructor
    · rintro ⟨hexists, hcut⟩ n' heq
      obtain rfl := Option.some.inj heq
      exact ⟨fun hmem => hgiven hmem (hexists _ rfl hmem), hcut⟩
    · intro h
      refine ⟨fun n' heq hmem => ?_, (h n rfl).2⟩
      exact absurd hmem (h n' heq).1

theorem found_iff (hn : n.bytes ≠ []) : t.found n ↔ n ∉ t.givens := by
  unfold Table.found
  rw [find_eq hn]
  constructor
  · rintro ⟨hidx, -⟩ hmem
    obtain ⟨m, hm, hgiven⟩ := List.mem_map.mp hmem
    obtain ⟨i, hi⟩ := List.getElem?_of_mem hm
    have hneg : (-4 : Int) = (i : Int) := hidx i m hi hgiven
    omega
  · refine fun hnot => ⟨fun i m hi hgiven => absurd ?_ hnot, fun _ => rfl⟩
    exact List.mem_map.mpr ⟨m, List.mem_of_getElem? hi, hgiven⟩

/-- **A registry of names, exactly if the registrations are tidy**, for every sequence of them; and
a look-up of a name is right exactly if the name is not registered. -/
theorem registry_iff_tidy (rs : List Registration) (t : Table) :
    (Trans.Run Table.registerStep lawful .empty rs t ↔
      Trans.Run Table.registerStep tidy .empty rs t) ∧
    ∀ n : CStr, n.bytes ≠ [] → (t.found n ↔ n ∉ t.givens) := by
  refine ⟨Trans.Run.iff_of_steps (I := fun t => t.names.Nodup) ?_
    (fun _ _ hnodup => lawful_iff_tidy hnodup) List.nodup_nil, fun n hn => found_iff hn⟩
  rintro s r s' - hok hst
  cases hst
  exact hok.2

instance (t : Table) (r : Registration) : Decidable (tidy t r) :=
  match hr : r.name with
  | some n => decidable_of_iff (n ∉ t.givens ∧
      (t.modules.length < maxModules ∧ r.isValid n = true → n.cut maxModuleName ∉ t.names))
      ⟨fun h n' heq => Option.some.inj (hr.symm.trans heq) ▸ h, fun h => h n hr⟩
  | none => .isTrue fun n heq => by cases hr.symm.trans heq

end Registry

/-- A name of `len` times the letter `c`. -/
def letters (c : UInt8) (hc : c ≠ 0) (len : Nat) : CStr where
  bytes := List.replicate len c
  noNul h := hc (List.eq_of_mem_replicate h).symm

/-- A registration with all procedures. -/
def registration (n : CStr) : Registration := ⟨some n, true, true, true, true, true⟩

def nameA : CStr := letters 97 (by decide) 1
def nameB : CStr := letters 98 (by decide) 1

theorem registry_iff_tidy_two :
    ∃ t, Trans.Run Table.registerStep lawful .empty [registration nameA, registration nameB] t ∧
      t.names = [nameA, nameB] ∧ t.found (letters 99 (by decide) 1) := by
  obtain ⟨t, hguarded, heq⟩ := Option.map_eq_some_iff.mp
    (show (Trans.run (Trans.guarded Table.registerStep tidy) .empty
      [registration nameA, registration nameB]).map (fun t => (t.names, t.givens)) =
      some ([nameA, nameB], [nameA, nameB]) by decide)
  obtain ⟨hnames, hgivens⟩ := Prod.mk.inj heq
  obtain ⟨hlawful, hfound⟩ := registry_iff_tidy [registration nameA, registration nameB] t
  refine ⟨t, hlawful.mpr (Trans.Run.of_guarded hguarded), hnames, (hfound _ (by decide)).mpr ?_⟩
  rw [hgivens]
  decide

/-- A name is registered twice; two names of 63 and of 64 bytes have the same row; and a name that
is registered is not found. -/
theorem registry_each :
    (∃ t, Trans.run Table.registerStep .empty [registration nameA, registration nameA] = some t ∧
      ¬t.names.Nodup) ∧
    (∃ t, Trans.run Table.registerStep .empty [registration (letters 97 (by decide) 63),
        registration (letters 97 (by decide) 64)] = some t ∧ ¬t.names.Nodup) ∧
    ∃ t, Trans.run Table.registerStep .empty [registration nameA] = some t ∧ nameA ∈ t.givens ∧
      t.find (some nameA) = Result.notFound := by
  refine ⟨?_, ?_, ?_⟩
  · obtain ⟨t, hrun, hnames⟩ := Option.map_eq_some_iff.mp
      (show (Trans.run Table.registerStep .empty [registration nameA, registration nameA]).map
        Table.names = some [nameA, nameA] by decide)
    exact ⟨t, hrun, by rw [hnames]; decide⟩
  · obtain ⟨t, hrun, hnames⟩ := Option.map_eq_some_iff.mp
      (show (Trans.run Table.registerStep .empty [registration (letters 97 (by decide) 63),
        registration (letters 97 (by decide) 64)]).map Table.names =
          some [letters 97 (by decide) 63, letters 97 (by decide) 63] by decide)
    exact ⟨t, hrun, by rw [hnames]; decide⟩
  · obtain ⟨t, hrun, heq⟩ := Option.map_eq_some_iff.mp
      (show (Trans.run Table.registerStep .empty [registration nameA]).map
        (fun t => (decide (nameA ∈ t.givens), t.find (some nameA))) =
          some (true, Result.notFound) by decide)
    obtain ⟨hmem, hfind⟩ := Prod.mk.inj heq
    exact ⟨t, hrun, of_decide_eq_true hmem, hfind⟩

end Modules
end Gallus
