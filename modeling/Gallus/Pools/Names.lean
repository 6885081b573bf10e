import Gallus.Pools.Whole

/-!
# Creations and the table of names (`pool.c`)

* `create_leaves`: a creation returns, and what it leaves. `named`: whether it has got as far as its
  own copy of the name.
* `keepsTable_iff`: in a run of creations, each one that fails leaves all names and pools as they
  were exactly if no name that is registered is given again to a creation that gets as far as
  copying it. `unregistered`: a second creation under one name.
-/

namespace Gallus
namespace Pools

open Locks

variable {ν : Type} [DecidableEq ν]

/-- The creation has its own copy of the name. -/
def named (a : CreateArgs ν) (o : Allocations) : Prop :=
  a.name ≠ none ∧ a.type ≠ none ∧ 0 < a.nMax ∧ a.hasMethods = true ∧
    (a.hasMemory = true ∨ o.malloc = true) ∧ o.strdup = true

instance (a : CreateArgs ν) (o : Allocations) : Decidable (named a o) :=
  inferInstanceAs (Decidable (_ ∧ _ ∧ _ ∧ _ ∧ _ ∧ _))

/-- A failed creation deletes its name from the table. -/
def dropName (pools : ν → Option Nat) (name : Option ν) : ν → Option Nat :=
  match name with
  | some name => Function.update pools name none
  | none => pools

theorem dropName_eq_self {pools : ν → Option Nat} {name : Option ν} :
    dropName pools name = pools ↔ ∀ n, name = some n → pools n = none := by
  unfold dropName
  cases name with
  | none => exact iff_of_true rfl fun _ h => nomatch h
  | some name =>
    refine ⟨fun h n hn => ?_, fun h => ?_⟩
    · cases hn
      rw [← h]
      exact Function.update_self ..
    · exact Function.update_eq_self_iff.mpr (h name rfl).symm

theorem dropName_some {pools : ν → Option Nat} {name : Option ν} {n : ν} {id : Nat}
    (h : dropName pools name n = some id) : pools n = some id := by
  unfold dropName at h
  split at h
  · rw [Function.update_apply] at h
    split_ifs at h
    exact h
  · exact h

omit [DecidableEq ν] in
theorem destroyPoolables_none (n : Nat) (h : Held (Shared ν)) :
    (destroyPoolables (List.replicate n none)).run h = some ((), h) := by
  induction n with
  | zero => rfl
  | succ n ih => exact ih

/-- The pool has no poolables yet. -/
def Built.isEmpty (p : Built ν) : Prop :=
  ∀ objs, p.objs = some objs → ∃ n, objs = List.replicate n none

omit [DecidableEq ν] in
theorem Built.empty_run {p : Built ν} (hp : p.isEmpty) (d : Int) (s : Shared ν) :
    p.empty.run ⟨d, s⟩ = some ((), ⟨d, s⟩) := by
  unfold Built.empty
  split
  · rename_i ho
    obtain ⟨n, rfl⟩ := hp _ ho
    split
    · exact run_locked (destroyPoolables_none n _)
    · exact destroyPoolables_none n _
  · rfl

/-- The destruction of a pool that has no poolables. -/
theorem destroy_run {p : Built ν} (hp : p.isEmpty) (d : Int) (s : Shared ν) :
    (destroy p).run ⟨d, s⟩ = some ((), ⟨d, { s with
      pools := dropName s.pools p.name
      alive := Function.update s.alive p.id false }⟩) := by
  unfold destroy
  rw [run_seq (run_change _ _), run_seq (Built.empty_run hp _ _), run_change]
  unfold Built.unregister dropName
  cases p.name <;> rfl

theorem finish_run {p : Built ν} (hp : p.isEmpty) (ret : Result) (d : Int) (s : Shared ν) :
    (finish p ret).run ⟨d, s⟩ = some (ret, ⟨d, if ret = Result.ok then s else { s with
      pools := dropName s.pools p.name
      alive := Function.update s.alive p.id false }⟩) := by
  unfold finish
  split_ifs
  · rfl
  · rw [run_seq (destroy_run hp d s)]
    rfl

omit [DecidableEq ν] in
/-- What is built of a pool that has no name of its own yet, or has one. -/
theorem construct_cases (id : Nat) (name : ν) (type : PoolType) (nMax : Nat) (o : Allocations) :
    (construct id name type nMax o).2.isEmpty ∧ (construct id name type nMax o).2.id = id ∧
      (o.strdup = true ∧ (construct id name type nMax o).2.name = some name ∨
        o.strdup = false ∧ (construct id name type nMax o).2.name = none ∧
          (construct id name type nMax o).1 ≠ Result.ok) := by
  unfold construct
  by_cases hdup : o.strdup = false
  · rw [if_pos hdup]
    exact ⟨fun _ h => (nomatch h), rfl,
      .inr ⟨hdup, rfl, (by decide : Result.noMemory ≠ Result.ok)⟩⟩
  have hdup' : o.strdup = true := by simpa using hdup
  rw [if_neg hdup]
  by_cases hlck : o.lck ≠ Result.ok
  · rw [if_pos hlck]
    exact ⟨fun _ h => (nomatch h), rfl, .inl ⟨hdup', rfl⟩⟩
  rw [if_neg hlck]
  by_cases hobjs : o.objs = false
  · rw [if_pos hobjs]
    exact ⟨fun _ h => (nomatch h), rfl, .inl ⟨hdup', rfl⟩⟩
  rw [if_neg hobjs]
  have hempty : (⟨id, some name, true, some (List.replicate nMax none)⟩ : Built ν).isEmpty :=
    fun _ h => ⟨nMax, (Option.some.inj h).symm⟩
  cases type <;> exact ⟨hempty, rfl, .inl ⟨hdup', rfl⟩⟩

/-! ## One creation -/

theorem register_cases (pools : ν → Option Nat) (name : ν) (id : Nat) (entry : Bool) :
    (register pools name id entry).1 = Result.ok ∧ pools name = none ∧
      (register pools name id entry).2 = Function.update pools name (some id) ∨
    (register pools name id entry).1 ≠ Result.ok ∧ (register pools name id entry).2 = pools := by
  unfold register
  split_ifs with hused hentry
  · exact .inr ⟨(by decide : Result.alreadyExists ≠ Result.ok), rfl⟩
  · exact .inr ⟨(by decide : Result.noMemory ≠ Result.ok), rfl⟩
  · exact .inl ⟨rfl, by simpa using hused, rfl⟩

/-- What a creation leaves: its pool is registered under a name that was free, or it has failed, and
its name is not in the table if it had a copy of it. -/
structure Leaves (s : Shared ν) (a : CreateArgs ν) (o : Allocations) (ret : Result)
    (s' : Shared ν) : Prop where
  made : s.made ≤ s'.made
  alive : ∀ id, id < s.made → s'.alive id = s.alive id
  ends : (ret = Result.ok ∧ ∃ name, a.name = some name ∧ s.pools name = none ∧
      s.made < s'.made ∧ s'.pools = Function.update s.pools name (some s.made)) ∨
    ret ≠ Result.ok ∧ s'.pools = if named a o then dropName s.pools a.name else s.pools

/-- A pool that is destroyed at the end of its own creation. -/
theorem finish_leaves {a : CreateArgs ν} {o : Allocations} {p : Built ν} (hp : p.isEmpty)
    {s s₁ : Shared ν} (hid : p.id = s.made) (hname : p.name = if named a o then a.name else none)
    (hmade : s₁.made = s.made + 1) (halive : ∀ id, id < s.made → s₁.alive id = s.alive id)
    {ret : Result} (d : Int) (hends : ret = Result.ok ∧ (∃ name, a.name = some name ∧
        s.pools name = none ∧ s₁.pools = Function.update s.pools name (some s.made)) ∨
      ret ≠ Result.ok ∧ s₁.pools = s.pools) :
    ∃ s', (finish p ret).run ⟨d, s₁⟩ = some (ret, ⟨d, s'⟩) ∧ Leaves s a o ret s' := by
  rw [finish_run hp]
  refine ⟨_, rfl, ?_, fun id hlt => ?_, ?_⟩
  · split_ifs
    · omega
    · show s.made ≤ s₁.made
      omega
  · split_ifs
    · exact halive id hlt
    · show Function.update s₁.alive p.id false id = _
      rw [Function.update_of_ne (by omega)]
      exact halive id hlt
  · rcases hends with ⟨hret, name, hname', hfree, hpools⟩ | ⟨hret, hpools⟩
    · rw [if_pos hret]
      exact .inl ⟨hret, name, hname', hfree, by omega, hpools⟩
    · rw [if_neg hret]
      refine .inr ⟨hret, ?_⟩
      dsimp only
      rw [hpools, hname]
      split_ifs <;> rfl

theorem create_leaves (a : CreateArgs ν) (o : Allocations) (d : Int) (s : Shared ν) :
    ∃ ret s', (create a o).run ⟨d, s⟩ = some (ret, ⟨d, s'⟩) ∧ Leaves s a o ret s' := by
  -- a creation that does not get as far as a copy of the name
  have hearly : ∀ ret, ret ≠ Result.ok → ¬ named a o → Leaves s a o ret s := fun ret hret hnot =>
    ⟨Nat.le_refl _, fun _ _ => rfl, .inr ⟨hret, (if_neg hnot).symm⟩⟩
  unfold create
  split
  · rename_i name type hname htype
    split
    · rename_i hargs
      split
      · rename_i hmemory
        obtain ⟨hempty, hid, hdup⟩ := construct_cases s.made name type a.nMax o
        have hbuilt : (construct s.made name type a.nMax o).2.name =
            if named a o then a.name else none := by
          rcases hdup with ⟨hdup, hbuilt⟩ | ⟨hdup, hbuilt, -⟩
          · rw [hbuilt, if_pos ⟨by simp [hname], by simp [htype], hargs.1, hargs.2, hmemory, hdup⟩,
              hname]
          · rw [hbuilt, if_neg fun h => by simp [h.2.2.2.2.2] at hdup]
        have halive : ∀ id, id < s.made →
            Function.update s.alive s.made true id = s.alive id := fun id hlt =>
          Function.update_of_ne (by omega) _ _
        unfold build
        rw [run_seq (show (get : Call ν _).run ⟨d, s⟩ = some (⟨d, s⟩, ⟨d, s⟩) from rfl),
          run_seq (run_change _ _)]
        dsimp only
        by_cases hok : (construct s.made name type a.nMax o).1 = Result.ok
        · rw [if_pos hok, run_seq (run_change _ _)]
          refine ⟨_, finish_leaves hempty hid hbuilt rfl halive d ?_⟩
          rcases register_cases s.pools name s.made o.entry with ⟨hr, hfree, hpools⟩ | ⟨hr, hpools⟩
          · exact .inl ⟨hr, name, hname, hfree, hpools⟩
          · exact .inr ⟨hr, hpools⟩
        · rw [if_neg hok]
          exact ⟨_, finish_leaves hempty hid hbuilt rfl halive d (.inr ⟨hok, rfl⟩)⟩
      · rename_i hmemory
        exact ⟨_, s, rfl, hearly _ (by decide) fun h => hmemory h.2.2.2.2.1⟩
    · rename_i hargs
      exact ⟨_, s, rfl, hearly _ (by decide) fun h => hargs ⟨h.2.2.1, h.2.2.2.1⟩⟩
  · rename_i hnone
    refine ⟨_, s, rfl, hearly _ (by decide) fun h => ?_⟩
    obtain ⟨name, hname⟩ := Option.ne_none_iff_exists'.mp h.1
    obtain ⟨type, htype⟩ := Option.ne_none_iff_exists'.mp h.2.1
    exact hnone name type hname htype

/-! ## Runs of creations -/

/-- A creation, as a step. -/
def createStep (s : Shared ν) (e : CreateArgs ν × Allocations) : Option (Shared ν) :=
  ((create e.1 e.2).run ⟨0, s⟩).map fun r => r.2.own

/-- The creation fails. -/
def createFails (s : Shared ν) (e : CreateArgs ν × Allocations) : Prop :=
  ∃ ret h, (create e.1 e.2).run ⟨0, s⟩ = some (ret, h) ∧ ret ≠ Result.ok

/-- Before the first creation. -/
def Shared.start : Shared ν := ⟨[], fun _ => none, fun _ => false, 0⟩

/-- A creation that fails leaves the table as it was, and the pools in it alive. -/
def KeepsTable (s : Shared ν) (e : CreateArgs ν × Allocations) (s' : Shared ν) : Prop :=
  createFails s e → s'.pools = s.pools ∧
    ∀ name id, s.pools name = some id → s'.alive id = s.alive id

/-- A creation that gets as far as a copy of its name has a name that is not registered. -/
def freshName (s : Shared ν) (e : CreateArgs ν × Allocations) : Prop :=
  named e.1 e.2 → ∀ name, e.1.name = some name → s.pools name = none

/-- The pools in the table have been made. -/
def Registered (s : Shared ν) : Prop := ∀ name id, s.pools name = some id → id < s.made

theorem keepsTable_step {s s' : Shared ν} {e : CreateArgs ν × Allocations} (hs : Registered s)
    (h : createStep s e = some s') : Registered s' ∧ (KeepsTable s e s' ↔ freshName s e) := by
  obtain ⟨ret, s₁, hrun, hleaves⟩ := create_leaves e.1 e.2 0 s
  obtain rfl : s₁ = s' := by
    rw [createStep, hrun] at h
    exact Option.some.inj h
  have hfails : createFails s e ↔ ret ≠ Result.ok := by
    unfold createFails
    rw [hrun]
    exact ⟨fun ⟨_, _, heq, hne⟩ => by cases heq; exact hne, fun hne => ⟨_, _, rfl, hne⟩⟩
  rcases hleaves.ends with ⟨hret, name, hname, hfree, hmade, hpools⟩ | ⟨hret, hpools⟩
  · refine ⟨fun n id hid => ?_, iff_of_true (fun hf => absurd hret (hfails.mp hf)) ?_⟩
    · rw [hpools, Function.update_apply] at hid
      split_ifs at hid
      · cases hid
        exact hmade
      · exact (hs n id hid).trans_le hleaves.made
    · intro _ n hn
      obtain rfl : name = n := Option.some.inj (hname.symm.trans hn)
      exact hfree
  · have hless : ∀ n id, s₁.pools n = some id → s.pools n = some id := by
      intro n id hid
      rw [hpools] at hid
      split_ifs at hid
      · exact dropName_some hid
      · exact hid
    refine ⟨fun n id hid => (hs n id (hless n id hid)).trans_le hleaves.made, ?_⟩
    have hkeeps : KeepsTable s e s₁ ↔ s₁.pools = s.pools :=
      ⟨fun h => (h (hfails.mpr hret)).1,
        fun h _ => ⟨h, fun n id hid => hleaves.alive id (hs n id hid)⟩⟩
    rw [hkeeps, hpools]
    unfold freshName
    split_ifs with hnamed
    · rw [dropName_eq_self]
      exact ⟨fun h _ => h, fun h => h hnamed⟩
    · exact iff_of_true rfl fun h => absurd h hnamed

/-- **Failed creations.** In a run of creations, each one that fails leaves all names registered and
all pools alive exactly if no creation gets as far as copying a name that is registered. -/
theorem keepsTable_iff {es : List (CreateArgs ν × Allocations)} {s : Shared ν}
    (h : Trans.run createStep .start es = some s) :
    (∀ es₁ e es₂ s₁ s₂, es = es₁ ++ e :: es₂ → Trans.run createStep .start es₁ = some s₁ →
      createStep s₁ e = some s₂ → KeepsTable s₁ e s₂) ↔
    Trans.Run createStep freshName .start es s :=
  Trans.Run.iff_each (I := Registered) (fun _ _ _ hs hstep => (keepsTable_step hs hstep).1)
    (fun _ _ _ hs hstep => (keepsTable_step hs hstep).2) (fun _ _ h => nomatch h) h

/-- A creation of an `index` pool that succeeds. -/
def createNamed (name : String) : CreateArgs String × Allocations :=
  (⟨some name, some .index, false, 1, true⟩, ⟨true, true, 0, true, 0, 0, 0, true⟩)

/-- A pool `a`, and a pool `b` that gets no entry in the table. -/
def twoCreations : List (CreateArgs String × Allocations) :=
  [createNamed "a", ((createNamed "b").1, { (createNamed "b").2 with entry := false })]

theorem keepsTable_iff_two : ∃ s, Trans.run createStep .start twoCreations = some s ∧
    s.pools "a" = some 0 ∧
    ((∀ es₁ e es₂ s₁ s₂, twoCreations = es₁ ++ e :: es₂ →
      Trans.run createStep .start es₁ = some s₁ → createStep s₁ e = some s₂ →
      KeepsTable s₁ e s₂) ↔ Trans.Run createStep freshName .start twoCreations s) :=
  ⟨_, rfl, rfl, keepsTable_iff rfl⟩

/-- **The name is lost.** A pool `a` is made, and then a second one is to be made under its name:
`GALLUS_RESULT_ALREADY_EXISTS`, and there is no pool `a` any more, though it is alive. -/
theorem unregistered : ∃ s s', createStep Shared.start (createNamed "a") = some s ∧
    s.pools "a" = some 0 ∧ createStep s (createNamed "a") = some s' ∧
    createFails s (createNamed "a") ∧ s'.pools "a" = none ∧ s'.alive 0 = true ∧
    ¬ KeepsTable s (createNamed "a") s' := by
  refine ⟨_, _, rfl, rfl, rfl, ⟨_, _, rfl, by decide⟩, rfl, rfl, fun h => ?_⟩
  have := congrFun (h ⟨_, _, rfl, by decide⟩).1 "a"
  exact nomatch this

end Pools
end Gallus
