import Gallus.Basic
import Gallus.Lib.Trans
import Mathlib.Logic.Function.Basic

/-!
# The creation of pipeline stages (`pipeline_stage.c`)

`gallus_pipeline_stage_create` looks its name up, makes the stage and puts it into two tables; if
one of these fails, `s_destroy_stage` takes it out of them again, from the second one by its name. A
stage is known by the call that makes it: each call has an object of its own, from `malloc` or from
its caller.

* `Tables`: `s_ps_name_tbl`, `s_ps_obj_tbl` and the calls. A step is one operation on a table, under
  the lock of that table, or the making of the stage.
* `Kept`: the tables are what the calls have made of them that have not failed.
* `tables_iff_tidy`: this holds exactly in the runs in which no call deletes by name while the name
  belongs to another stage.
* `tidy_of_distinct`: it is so if no two calls come with the same name.

A worker that cannot be created leaves `NULL` in `m_workers`, which `s_worker_destroy` follows: the
process ends there (`crashed`).
-/

namespace Gallus
namespace StageTable

/-- The arguments of `gallus_pipeline_stage_create` that it looks at. `ν`: the strings that are not
empty. -/
structure Call (ν : Type) where
  /-- `sptr != NULL`. -/
  sptr : Bool
  name : Option ν
  eventSize : Nat
  maxBatchSize : Nat
  /-- `main_proc != NULL`. -/
  mainProc : Bool
  /-- `*sptr == NULL`: the stage comes from `malloc`. -/
  heap : Bool

/-- How the making of a stage ends. -/
inductive Making
  | noMemory
  /-- `s_init_stage` fails with `ret` before it has a name to keep. -/
  | noResource (ret : Result)
  | noWorker
  | made

/-- Where a call is. -/
inductive Pc (ν : Type)
  | outside
  /-- The name was not in the table. -/
  | making (name : ν) (heap : Bool)
  /-- In `s_add_stage`. -/
  | addingName (name : ν)
  | addingObj (name : ν)
  /-- In `s_delete_stage`, with `m_name`; `added`: its name is in the table. -/
  | deletingObj (name : Option ν) (added : Bool) (ret : Result)
  | deletingName (name : Option ν) (added : Bool) (ret : Result)
  /-- It has returned `OK`. -/
  | created (name : ν)
  /-- It has returned an error. -/
  | failed (ret : Result)
  deriving DecidableEq

/-- The tables and the calls. -/
structure Tables (ν κ : Type) where
  names : ν → Option κ
  objs : κ → Bool
  pc : κ → Pc ν
  crashed : Bool

/-- One step. -/
inductive Event (ν κ : Type)
  | call (k : κ) (c : Call ν)
  | make (k : κ) (m : Making)
  /-- The next operation on a table; `memory`: there is some for a new entry. -/
  | next (k : κ) (memory : Bool)

variable {ν κ : Type}

def Tables.empty : Tables ν κ where
  names _ := none
  objs _ := false
  pc _ := .outside
  crashed := false

namespace Tables

variable [DecidableEq ν] [DecidableEq κ]

def setPc (t : Tables ν κ) (k : κ) (p : Pc ν) : Tables ν κ :=
  { t with pc := Function.update t.pc k p }

def setName (t : Tables ν κ) (n : ν) (v : Option κ) : Tables ν κ :=
  { t with names := Function.update t.names n v }

def setObj (t : Tables ν κ) (k : κ) (b : Bool) : Tables ν κ :=
  { t with objs := Function.update t.objs k b }

/-- `gallus_pipeline_stage_create` up to the look-up. -/
def call (t : Tables ν κ) (k : κ) (c : Call ν) : Tables ν κ :=
  match c.name with
  | some n =>
    if c.sptr then
      if (t.names n).isSome then t.setPc k (.failed Result.alreadyExists)
      else if 0 < c.eventSize ∧ 0 < c.maxBatchSize ∧ c.mainProc = true then
        t.setPc k (.making n c.heap)
      else t.setPc k (.failed Result.invalidArgs)
    else t.setPc k (.failed Result.invalidArgs)
  | none => t.setPc k (.failed Result.invalidArgs)

/-- `malloc` and `s_init_stage`. -/
def make (t : Tables ν κ) (k : κ) (n : ν) (heap : Bool) : Making → Option (Tables ν κ)
  | .noMemory => if heap then some (t.setPc k (.failed Result.noMemory)) else none
  | .noResource ret =>
    if ret ≠ Result.ok then some (t.setPc k (.deletingObj none false ret)) else none
  | .noWorker => some { t with crashed := true }
  | .made => some (t.setPc k (.addingName n))

/-- `s_add_stage` and `s_delete_stage`, one operation. -/
def next (t : Tables ν κ) (k : κ) (memory : Bool) : Option (Tables ν κ) :=
  match t.pc k with
  | .addingName n =>
    if (t.names n).isSome then
      some (t.setPc k (.deletingObj (some n) false Result.alreadyExists))
    else if memory then some ((t.setName n (some k)).setPc k (.addingObj n))
    else some (t.setPc k (.deletingObj (some n) false Result.noMemory))
  | .addingObj n =>
    if t.objs k || memory then some ((t.setObj k true).setPc k (.created n))
    else some (t.setPc k (.deletingObj (some n) true Result.noMemory))
  | .deletingObj m added ret => some ((t.setObj k false).setPc k (.deletingName m added ret))
  | .deletingName (some n) _ ret => some ((t.setName n none).setPc k (.failed ret))
  | .deletingName none _ ret => some (t.setPc k (.failed ret))
  | _ => none

/-- One step. -/
def step (t : Tables ν κ) (e : Event ν κ) : Option (Tables ν κ) :=
  if t.crashed then none
  else
    match e with
    | .call k c =>
      match t.pc k with
      | .outside => some (t.call k c)
      | _ => none
    | .make k m =>
      match t.pc k with
      | .making n heap => t.make k n heap m
      | _ => none
    | .next k memory => t.next k memory

end Tables

/-! ## What the tables say -/

/-- The call has put this name into the table, and has not failed since. -/
def Pc.owns : Pc ν → ν → Prop
  | .addingObj n', n | .created n', n | .deletingObj (some n') true _, n
  | .deletingName (some n') true _, n => n' = n
  | _, _ => False

/-- The call has put its stage into the table of the objects. -/
def Pc.isCreated : Pc ν → Bool
  | .created _ => true
  | _ => false

/-- The tables are what the calls have made of them that have not failed. -/
structure Kept (t : Tables ν κ) : Prop where
  names : ∀ n k, t.names n = some k ↔ (t.pc k).owns n
  objs : ∀ k, t.objs k = (t.pc k).isCreated

/-- The condition on the steps: a call deletes by name only what it has put there. -/
def tidy (t : Tables ν κ) : Event ν κ → Prop
  | .next k _ =>
    match t.pc k with
    | .deletingName (some n) _ _ => ∀ j ∈ t.names n, j = k
    | _ => True
  | _ => True

section Steps

variable [DecidableEq ν] [DecidableEq κ] {t t' : Tables ν κ} {e : Event ν κ} {k : κ} {p : Pc ν}

omit [DecidableEq ν] in
/-- A call goes on without a change of the tables. -/
theorem Kept.setPc (h : Kept t) (howns : ∀ n, p.owns n ↔ (t.pc k).owns n)
    (hcreated : p.isCreated = (t.pc k).isCreated) : Kept (t.setPc k p) := by
  refine ⟨fun n j => ?_, fun j => ?_⟩
  · show t.names n = some j ↔ (Function.update t.pc k p j).owns n
    by_cases hj : j = k
    · subst hj
      rw [Function.update_self, howns]
      exact h.names n j
    · rw [Function.update_of_ne hj]
      exact h.names n j
  · show t.objs j = (Function.update t.pc k p j).isCreated
    by_cases hj : j = k
    · subst hj
      rw [Function.update_self, hcreated]
      exact h.objs j
    · rw [Function.update_of_ne hj]
      exact h.objs j

/-- A call changes the entry of a name that no other call owns. -/
theorem Kept.setName (h : Kept t) {n : ν} {v : Option κ} (hfree : ∀ j ∈ t.names n, j = k)
    (hv : ∀ j, v = some j ↔ j = k ∧ p.owns n)
    (howns : ∀ n', n' ≠ n → (p.owns n' ↔ (t.pc k).owns n'))
    (hcreated : p.isCreated = (t.pc k).isCreated) : Kept ((t.setName n v).setPc k p) := by
  refine ⟨fun n' j => ?_, fun j => ?_⟩
  · show Function.update t.names n v n' = some j ↔ (Function.update t.pc k p j).owns n'
    by_cases hn : n' = n
    · subst hn
      rw [Function.update_self, hv]
      by_cases hj : j = k
      · subst hj
        rw [Function.update_self]
        exact and_iff_right rfl
      · rw [Function.update_of_ne hj, ← h.names]
        exact iff_of_false (fun hand => hj hand.1) fun hsome => hj (hfree j hsome)
    · rw [Function.update_of_ne hn, h.names]
      by_cases hj : j = k
      · subst hj
        rw [Function.update_self]
        exact (howns n' hn).symm
      · rw [Function.update_of_ne hj]
  · show t.objs j = (Function.update t.pc k p j).isCreated
    by_cases hj : j = k
    · subst hj
      rw [Function.update_self, hcreated]
      exact h.objs j
    · rw [Function.update_of_ne hj]
      exact h.objs j

omit [DecidableEq ν] in
/-- A call changes the entry of its stage. -/
theorem Kept.setObj {b : Bool} (h : Kept t) (hb : p.isCreated = b)
    (howns : ∀ n, p.owns n ↔ (t.pc k).owns n) : Kept ((t.setObj k b).setPc k p) := by
  refine ⟨fun n j => ?_, fun j => ?_⟩
  · show t.names n = some j ↔ (Function.update t.pc k p j).owns n
    by_cases hj : j = k
    · subst hj
      rw [Function.update_self, howns]
      exact h.names n j
    · rw [Function.update_of_ne hj]
      exact h.names n j
  · show Function.update t.objs k b j = (Function.update t.pc k p j).isCreated
    by_cases hj : j = k
    · subst hj
      rw [Function.update_self, Function.update_self, hb]
    · rw [Function.update_of_ne hj, Function.update_of_ne hj]
      exact h.objs j

omit [DecidableEq ν] in
/-- A call that owns no name and has created nothing goes on to such a point. -/
theorem Kept.away (h : Kept t) (hpc : ∀ n, ¬(t.pc k).owns n) (hold : (t.pc k).isCreated = false)
    (howns : ∀ n, ¬p.owns n) (hcreated : p.isCreated = false) : Kept (t.setPc k p) :=
  h.setPc (fun n => iff_of_false (howns n) (hpc n)) (hcreated.trans hold.symm)

omit [DecidableEq ν] in
theorem call_kept {c : Call ν} (h : Kept t) (hpc : t.pc k = .outside) : Kept (t.call k c) := by
  have hset : ∀ p : Pc ν, (∀ n, ¬p.owns n) → p.isCreated = false → Kept (t.setPc k p) := by
    intro p
    refine h.away (fun n => ?_) ?_
    · rw [hpc]
      exact id
    · rw [hpc]
      rfl
  unfold Tables.call
  split
  · split_ifs
    · exact hset _ (fun _ => id) rfl
    · exact hset _ (fun _ => id) rfl
    · exact hset _ (fun _ => id) rfl
    · exact hset _ (fun _ => id) rfl
  · exact hset _ (fun _ => id) rfl

omit [DecidableEq ν] in
theorem make_kept {n : ν} {heap : Bool} {m : Making} (h : Kept t)
    (hpc : t.pc k = .making n heap) (hs : t.make k n heap m = some t') : Kept t' := by
  have hset : ∀ p : Pc ν, (∀ n, ¬p.owns n) → p.isCreated = false → Kept (t.setPc k p) := by
    intro p
    refine h.away (fun n => ?_) ?_
    · rw [hpc]
      exact id
    · rw [hpc]
      rfl
  unfold Tables.make at hs
  split at hs
  · split_ifs at hs
    cases hs
    exact hset _ (fun _ => id) rfl
  · split_ifs at hs
    cases hs
    exact hset _ (fun _ => id) rfl
  · cases hs
    exact ⟨h.names, h.objs⟩
  · cases hs
    exact hset _ (fun _ => id) rfl

/-- **The step lemma.** -/
theorem Kept.step (h : Kept t) (hok : tidy t e) (hs : t.step e = some t') : Kept t' := by
  unfold Tables.step at hs
  split at hs
  · cases hs
  · cases e with
    | call k c =>
      dsimp only at hs
      split at hs
      · next hpc =>
        cases hs
        exact call_kept h hpc
      · cases hs
    | make k m =>
      dsimp only at hs
      split at hs
      · next hpc => exact make_kept h hpc hs
      · cases hs
    | next k memory =>
      simp only [Tables.next] at hs
      unfold tidy at hok
      dsimp only at hok
      split at hs
      · next n hpc =>
        split_ifs at hs with hsome hmem
        · cases hs
          exact h.setPc (by simp [hpc, Pc.owns]) (by simp [hpc, Pc.isCreated])
        · cases hs
          have hnone : t.names n = none := by simpa using hsome
          refine h.setName ?_ ?_ ?_ (by simp [hpc, Pc.isCreated])
          · simp [hnone]
          · simp [Pc.owns, eq_comm]
          · intro n' hn
            simp [hpc, Pc.owns, Ne.symm hn]
        · cases hs
          exact h.setPc (by simp [hpc, Pc.owns]) (by simp [hpc, Pc.isCreated])
      · next n hpc =>
        split_ifs at hs
        · cases hs
          exact h.setObj rfl (by simp [hpc, Pc.owns])
        · cases hs
          exact h.setPc (by simp [hpc, Pc.owns]) (by simp [hpc, Pc.isCreated])
      · next m added ret hpc =>
        cases hs
        refine h.setObj rfl fun n => ?_
        rw [hpc]
        cases m <;> cases added <;> exact Iff.rfl
      · next n added ret hpc =>
        cases hs
        rw [hpc] at hok
        refine h.setName hok ?_ ?_ (by simp [hpc, Pc.isCreated])
        · simp [Pc.owns]
        · intro n' hn
          cases added <;> simp [hpc, Pc.owns, Ne.symm hn]
      · next added ret hpc =>
        cases hs
        exact h.setPc (by simp [hpc, Pc.owns]) (by simp [hpc, Pc.isCreated])
      · cases hs

/-- A deletion by name that takes the entry of another stage. -/
theorem tidy_of_kept (h : Kept t) (hs : t.step e = some t') (hk : Kept t') : tidy t e := by
  cases e with
  | call => trivial
  | make => trivial
  | next k memory =>
    unfold tidy
    dsimp only
    split
    · next n added ret hpc =>
      intro j hj
      by_contra hne
      unfold Tables.step at hs
      split at hs
      · cases hs
      · simp only [Tables.next, hpc] at hs
        cases hs
        -- The other stage still owns the name.
        have howns := (h.names n j).mp hj
        have hlost := (hk.names n j).mpr (by
          show (Function.update t.pc k (.failed ret) j).owns n
          rwa [Function.update_of_ne hne])
        have hnone : Function.update t.names n none n = some j := hlost
        rw [Function.update_self] at hnone
        cases hnone
    · trivial

/-- **The tables are what the calls that have not failed have made of them, exactly if the steps are
tidy**: for any interleaving of any number of calls, with any failures. -/
theorem tables_iff_tidy {es : List (Event ν κ)}
    (hrun : Trans.run Tables.step (.empty : Tables ν κ) es = some t) :
    (∀ es₁ t₁, es₁ <+: es → Trans.run Tables.step (.empty : Tables ν κ) es₁ = some t₁ → Kept t₁) ↔
      Trans.Run Tables.step tidy .empty es t :=
  Trans.Run.iff_states (fun _ _ _ h hok hs => h.step hok hs)
    (fun _ _ _ h hs hk => tidy_of_kept h hs hk) (fun _ h => h)
    ⟨fun _ _ => iff_of_false nofun id, fun _ => rfl⟩ hrun

/-! ## Calls with names of their own -/

/-- The call works on this name. -/
def Pc.hasName : Pc ν → ν → Prop
  | .making n' _, n | .addingName n', n | .addingObj n', n | .created n', n
  | .deletingObj (some n') _ _, n | .deletingName (some n') _ _, n => n' = n
  | _, _ => False

omit [DecidableEq ν] [DecidableEq κ] in
theorem Pc.owns.hasName {n : ν} (h : p.owns n) : p.hasName n := by
  unfold Pc.owns at h
  split at h
  · exact h
  · exact h
  · exact h
  · exact h
  · exact h.elim

omit [DecidableEq ν] in
theorem setPc_hasName {j : κ} {n : ν} (h : ((t.setPc k p).pc j).hasName n)
    (hp : p.hasName n → (t.pc k).hasName n) : (t.pc j).hasName n := by
  have h' : (Function.update t.pc k p j).hasName n := h
  by_cases hj : j = k
  · subst hj
    rw [Function.update_self] at h'
    exact hp h'
  · rwa [Function.update_of_ne hj] at h'

omit [DecidableEq ν] in
theorem call_hasName {c : Call ν} {j : κ} {n : ν} (h : ((t.call k c).pc j).hasName n) :
    (t.pc j).hasName n ∨ j = k ∧ c.name = some n := by
  unfold Tables.call at h
  split at h
  · next n' hn =>
    split_ifs at h
    · exact .inl (setPc_hasName h False.elim)
    · by_cases hj : j = k
      · subst hj
        have h' : (Function.update t.pc j (.making n' c.heap) j).hasName n := h
        rw [Function.update_self] at h'
        have heq : n' = n := h'
        exact .inr ⟨rfl, heq ▸ hn⟩
      · have h' : (Function.update t.pc k (.making n' c.heap) j).hasName n := h
        rw [Function.update_of_ne hj] at h'
        exact .inl h'
    · exact .inl (setPc_hasName h False.elim)
    · exact .inl (setPc_hasName h False.elim)
  · exact .inl (setPc_hasName h False.elim)

theorem next_hasName {memory : Bool} {j : κ} {n : ν} (hs : t.next k memory = some t')
    (h : (t'.pc j).hasName n) : (t.pc j).hasName n := by
  unfold Tables.next at hs
  split at hs
  · next hpc =>
    split_ifs at hs
    · cases hs
      exact setPc_hasName h (by rw [hpc]; exact id)
    · cases hs
      refine setPc_hasName (t := t.setName _ _) h ?_
      show _ → (t.pc k).hasName n
      rw [hpc]
      exact id
    · cases hs
      exact setPc_hasName h (by rw [hpc]; exact id)
  · next hpc =>
    split_ifs at hs
    · cases hs
      refine setPc_hasName (t := t.setObj _ _) h ?_
      show _ → (t.pc k).hasName n
      rw [hpc]
      exact id
    · cases hs
      exact setPc_hasName h (by rw [hpc]; exact id)
  · next m added ret hpc =>
    cases hs
    refine setPc_hasName (t := t.setObj _ _) h ?_
    show _ → (t.pc k).hasName n
    rw [hpc]
    cases m <;> exact id
  · cases hs
    exact setPc_hasName (t := t.setName _ _) h False.elim
  · cases hs
    exact setPc_hasName h False.elim
  · cases hs

/-- A call gets its name when it is made. -/
theorem step_hasName {j : κ} {n : ν} (hs : t.step e = some t') (h : (t'.pc j).hasName n) :
    (t.pc j).hasName n ∨ ∃ c, e = .call j c ∧ c.name = some n := by
  unfold Tables.step at hs
  split at hs
  · cases hs
  · cases e with
    | call k c =>
      dsimp only at hs
      split at hs
      · cases hs
        rcases call_hasName h with hbefore | ⟨rfl, hn⟩
        · exact .inl hbefore
        · exact .inr ⟨c, rfl, hn⟩
      · cases hs
    | make k m =>
      dsimp only at hs
      split at hs
      · next hpc =>
        unfold Tables.make at hs
        split at hs
        · split_ifs at hs
          cases hs
          exact .inl (setPc_hasName h False.elim)
        · split_ifs at hs
          cases hs
          exact .inl (setPc_hasName h False.elim)
        · cases hs
          exact .inl h
        · cases hs
          refine .inl (setPc_hasName h ?_)
          rw [hpc]
          exact id
      · cases hs
    | next k memory => exact .inl (next_hasName hs h)

/-- **Names of their own.** If no two calls come with the same name, the steps are tidy. -/
theorem tidy_of_distinct {es : List (Event ν κ)}
    (hdistinct : ∀ k c k' c', .call k c ∈ es → .call k' c' ∈ es → c.name.isSome →
      c'.name = c.name → k' = k)
    (hrun : Trans.run Tables.step (.empty : Tables ν κ) es = some t) :
    Trans.Run Tables.step tidy .empty es t := by
  have hmem : Trans.Run Tables.step (fun _ e => e ∈ es) (.empty : Tables ν κ) es t :=
    Trans.Run.of_run (fun _ he _ => he) hrun
  have htidy : ∀ (s : Tables ν κ) (e : Event ν κ),
      (Kept s ∧ ∀ k n, (s.pc k).hasName n → ∃ c, .call k c ∈ es ∧ c.name = some n) → tidy s e := by
    rintro s e ⟨hk, hnamed⟩
    unfold tidy
    split
    · next k memory =>
      split
      · next n added ret hpc =>
        intro j hj
        obtain ⟨c, hc, hn⟩ := hnamed k n (by rw [hpc]; rfl)
        obtain ⟨c', hc', hn'⟩ := hnamed j n ((hk.names n j).mp hj).hasName
        exact hdistinct k c j c' hc hc' (by rw [hn]; rfl) (hn'.trans hn.symm)
      · trivial
    · trivial
  refine Trans.Run.imp (I := fun s : Tables ν κ => Kept s ∧ ∀ k n, (s.pc k).hasName n →
    ∃ c, .call k c ∈ es ∧ c.name = some n) ?_ (fun s e h _ => htidy s e h)
    ⟨⟨fun _ _ => iff_of_false nofun id, fun _ => rfl⟩, fun _ _ h => h.elim⟩ hmem
  rintro s e s' h he hst
  refine ⟨h.1.step (htidy s e h) hst, fun k n hk => ?_⟩
  rcases step_hasName hst hk with hbefore | ⟨c, rfl, hn⟩
  · exact h.2 k n hbefore
  · exact ⟨c, he, hn⟩

instance (t : Tables ν κ) (e : Event ν κ) : Decidable (tidy t e) :=
  match e with
  | .next k _ =>
    match hpc : t.pc k with
    | .deletingName (some n) _ _ => decidable_of_iff (∀ j ∈ t.names n, j = k) (by simp [tidy, hpc])
    | .deletingName none _ _ | .outside | .making _ _ | .addingName _ | .addingObj _
    | .deletingObj _ _ _ | .created _ | .failed _ => .isTrue (by simp [tidy, hpc])
  | .call _ _ | .make _ _ => .isTrue trivial

end Steps

/-- A call with valid arguments. -/
def createCall (n : Nat) : Call Nat := ⟨true, some n, 8, 16, true, true⟩

/-- Two calls with the same name, one after the other, while a third one fails for want of memory.
-/
def createThree : List (Event Nat (Fin 3)) :=
  [.call 0 (createCall 5), .call 2 (createCall 6), .make 0 .made, .next 0 true, .make 2 .made,
    .next 2 true, .next 0 true, .next 2 false, .call 1 (createCall 5), .next 2 true, .next 2 true]

theorem tables_iff_tidy_createThree :
    ∃ t, Trans.run Tables.step .empty createThree = some t ∧
      (t.names 5 = some 0 ∧ t.names 6 = none) ∧
      ∀ es₁ t₁, es₁ <+: createThree → Trans.run Tables.step .empty es₁ = some t₁ → Kept t₁ := by
  obtain ⟨t, hguarded, heq⟩ := Option.map_eq_some_iff.mp
    (show (Trans.run (Trans.guarded Tables.step tidy) .empty createThree).map
      (fun t => (t.names 5, t.names 6)) = some (some 0, none) by decide)
  have hrun := Trans.Run.of_guarded hguarded
  exact ⟨t, hrun.run_eq, Prod.mk.inj heq, (tables_iff_tidy hrun.run_eq).mpr hrun⟩

/-- Two calls look the same name up before either of them adds it. The second one fails, and takes
the name of the first one out of the table, which has returned `OK`. -/
theorem tables_each :
    ∃ t, Trans.run Tables.step (.empty : Tables Nat (Fin 2))
        [.call 0 (createCall 5), .call 1 (createCall 5), .make 0 .made, .make 1 .made,
          .next 0 true, .next 0 true, .next 1 true, .next 1 true, .next 1 true] = some t ∧
      t.pc 1 = .failed Result.alreadyExists ∧ t.pc 0 = .created 5 ∧ t.names 5 = none ∧ ¬Kept t := by
  obtain ⟨t, hrun, heq⟩ := Option.map_eq_some_iff.mp
    (show (Trans.run Tables.step (.empty : Tables Nat (Fin 2))
        [.call 0 (createCall 5), .call 1 (createCall 5), .make 0 .made, .make 1 .made,
          .next 0 true, .next 0 true, .next 1 true, .next 1 true, .next 1 true]).map
      (fun t => (t.pc 1, t.pc 0, t.names 5)) =
        some (.failed Result.alreadyExists, .created 5, none) by decide)
  obtain ⟨hfailed, heq'⟩ := Prod.mk.inj heq
  obtain ⟨hcreated, hnone⟩ := Prod.mk.inj heq'
  refine ⟨t, hrun, hfailed, hcreated, hnone, fun hk => ?_⟩
  have howned : t.names 5 = some 0 := (hk.names 5 0).mpr (by rw [hcreated]; rfl)
  rw [hnone] at howned
  cases howned

end StageTable
end Gallus
