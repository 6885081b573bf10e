import Mathlib.Logic.Relation

/-!
# How deep a thread holds a recursive lock

A computation of a thread that takes and releases one recursive lock. Besides the depth it has a
state of its own, and it may not return.

* `Locks σ`: the computations. `lock`, `unlock`: the lock, one deeper and one less deep.
* `run_seq`, `run_locked`: what a computation comes to, by its parts.
* `Adds n m`: whenever `m` returns, the lock is held `n` deeper than before. One rule for each way
  to put computations together, so that the depth of a whole one can be read off.
* `Moves R m`: whenever `m` returns, the thread's own state has changed by steps of `R` only.
  `Completes R m`: `m` does return besides. Both with the same rules.
-/

namespace Gallus

/-- The depth, and the thread's own state. -/
structure Held (σ : Type) where
  depth : Int
  own : σ

/-- A computation; `none` if it does not return. -/
abbrev Locks (σ α : Type) := StateT (Held σ) Option α

namespace Locks

variable {σ α β : Type}

def lock : Locks σ Unit := modify fun h => { h with depth := h.depth + 1 }

def unlock : Locks σ Unit := modify fun h => { h with depth := h.depth - 1 }

/-- A change of the thread's own state. -/
def change (f : σ → σ) : Locks σ Unit := modify fun h => { h with own := f h.own }

@[simp] theorem run_change (g : σ → σ) (h : Held σ) :
    (change g).run h = some ((), { h with own := g h.own }) := rfl

/-- One computation after another. -/
theorem run_seq {m : Locks σ α} {f : α → Locks σ β} {h h' : Held σ} {a : α}
    (hm : m.run h = some (a, h')) : (m >>= f).run h = (f a).run h' := by
  rw [StateT.run_bind, hm]
  rfl

/-- A region under the lock. -/
theorem run_locked {m : Locks σ α} {f : α → Locks σ β} {d : Int} {s s' : σ} {a : α}
    (hm : m.run ⟨d + 1, s⟩ = some (a, ⟨d + 1, s'⟩)) :
    (do lock; let a ← m; unlock; f a : Locks σ β).run ⟨d, s⟩ = (f a).run ⟨d, s'⟩ := by
  rw [run_seq (show lock.run ⟨d, s⟩ = some ((), ⟨d + 1, s⟩) from rfl), run_seq hm,
    run_seq (show unlock.run ⟨d + 1, s'⟩ = some ((), ⟨d + 1 - 1, s'⟩) from rfl),
    Int.add_sub_cancel]

/-- The computation makes the lock `n` deeper, if it returns. -/
def Adds (n : Int) (m : Locks σ α) : Prop :=
  ∀ h a h', m.run h = some (a, h') → h'.depth = h.depth + n

variable {m : Locks σ α} {f : α → Locks σ β} {n k : Int}

theorem Adds.pure (a : α) : Adds 0 (pure a : Locks σ α) := by
  rintro h a h' hr
  cases hr
  exact (Int.add_zero _).symm

theorem Adds.lock : Adds 1 (lock : Locks σ Unit) := by
  rintro h a h' hr
  cases hr
  rfl

theorem Adds.unlock : Adds (-1) (unlock : Locks σ Unit) := by
  rintro h a h' hr
  cases hr
  rfl

theorem Adds.change (g : σ → σ) : Adds 0 (change g) := by
  rintro h a h' hr
  cases hr
  exact (Int.add_zero _).symm

theorem Adds.get : Adds 0 (get : Locks σ (Held σ)) := by
  rintro h a h' hr
  cases hr
  exact (Int.add_zero _).symm

theorem Adds.failure : Adds n (failure : Locks σ α) := by
  rintro h a h' hr
  contradiction

theorem Adds.bind (hm : Adds n m) (hf : ∀ a, Adds k (f a)) : Adds (n + k) (m >>= f) := by
  rintro h b h' hr
  rw [StateT.run_bind, Option.bind_eq_bind, Option.bind_eq_some_iff] at hr
  obtain ⟨⟨a, h₁⟩, hr₁, hr₂⟩ := hr
  have h₁' := hm h a h₁ hr₁
  have h₂' := hf a h₁ b h' hr₂
  omega

/-- What comes after a computation that leaves the lock as it was. -/
theorem Adds.seq (hm : Adds 0 m) (hf : ∀ a, Adds n (f a)) : Adds n (m >>= f) :=
  Int.zero_add n ▸ hm.bind hf

/-- A region under the lock, and what comes after it. -/
theorem Adds.region (hm : Adds n m) (hf : ∀ a, Adds 0 (f a)) :
    Adds n (do Locks.lock; let a ← m; Locks.unlock; f a) := by
  have h := Adds.lock.bind fun _ => hm.bind fun a => Adds.unlock.bind fun _ => hf a
  rintro s b s' hr
  have := h s b s' hr
  omega

/-- A region under the lock, and the result. -/
theorem Adds.locked {g : α → β} (hm : Adds n m) :
    Adds n (do Locks.lock; let a ← m; Locks.unlock; return g a) :=
  hm.region fun a => Adds.pure (g a)

/-! ## The thread's own state -/

/-- The computation changes the thread's own state by steps of `R`, if it returns. -/
def Moves (R : σ → σ → Prop) (m : Locks σ α) : Prop :=
  ∀ h a h', m.run h = some (a, h') → Relation.ReflTransGen R h.own h'.own

variable {R : σ → σ → Prop}

theorem Moves.pure (a : α) : Moves R (pure a : Locks σ α) := by
  rintro h a h' hr
  cases hr
  exact .refl

theorem Moves.lock : Moves R (lock : Locks σ Unit) := by
  rintro h a h' hr
  cases hr
  exact .refl

theorem Moves.unlock : Moves R (unlock : Locks σ Unit) := by
  rintro h a h' hr
  cases hr
  exact .refl

theorem Moves.failure : Moves R (failure : Locks σ α) := by
  rintro h a h' hr
  contradiction

theorem Moves.bind (hm : Moves R m) (hf : ∀ a, Moves R (f a)) : Moves R (m >>= f) := by
  rintro h b h' hr
  rw [StateT.run_bind, Option.bind_eq_bind, Option.bind_eq_some_iff] at hr
  obtain ⟨⟨a, h₁⟩, hr₁, hr₂⟩ := hr
  exact (hm h a h₁ hr₁).trans (hf a h₁ b h' hr₂)

/-- A region under the lock, and the result. -/
theorem Moves.locked {g : α → β} (hm : Moves R m) :
    Moves R (do Locks.lock; let a ← m; Locks.unlock; return g a) :=
  Moves.lock.bind fun _ => hm.bind fun a => Moves.unlock.bind fun _ => Moves.pure (g a)

/-- The computation returns, and changes the thread's own state by steps of `R` only. -/
def Completes (R : σ → σ → Prop) (m : Locks σ α) : Prop :=
  ∀ h, ∃ a h', m.run h = some (a, h') ∧ Relation.ReflTransGen R h.own h'.own

theorem Completes.moves (hm : Completes R m) : Moves R m := by
  rintro h a h' hr
  obtain ⟨b, h₁, hr₁, hsteps⟩ := hm h
  rw [hr₁] at hr
  cases hr
  exact hsteps

theorem Completes.pure (a : α) : Completes R (pure a : Locks σ α) := fun h => ⟨a, h, rfl, .refl⟩

theorem Completes.lock : Completes R (lock : Locks σ Unit) := fun _ => ⟨(), _, rfl, .refl⟩

theorem Completes.unlock : Completes R (unlock : Locks σ Unit) := fun _ => ⟨(), _, rfl, .refl⟩

theorem Completes.change {g : σ → σ} (hg : ∀ s, R s (g s)) : Completes R (change g) :=
  fun h => ⟨(), _, rfl, .single (hg h.own)⟩

theorem Completes.bind (hm : Completes R m) (hf : ∀ a, Completes R (f a)) :
    Completes R (m >>= f) := by
  intro h
  obtain ⟨a, h₁, hr, hsteps⟩ := hm h
  obtain ⟨b, h₂, hr', hsteps'⟩ := hf a h₁
  exact ⟨b, h₂, (run_seq hr).trans hr', hsteps.trans hsteps'⟩

/-- A region under the lock, and the result. -/
theorem Completes.locked {g : α → β} (hm : Completes R m) :
    Completes R (do Locks.lock; let a ← m; Locks.unlock; return g a) :=
  Completes.lock.bind fun _ => hm.bind fun a => Completes.unlock.bind fun _ =>
    Completes.pure (g a)

end Locks
end Gallus
