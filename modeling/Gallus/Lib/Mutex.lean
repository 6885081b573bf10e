import Gallus.Lib.Trans
import Mathlib.Logic.Function.Basic

/-!
# Threads with a memory and one mutex

The program of a thread is the tree of what it does with the shared memory and with the mutex; the
threads take their steps in any order. Nothing keeps a thread from releasing a mutex that it does
not hold: the mutex is free then, whoever held it.

* `Prog γ ℓ α`: the programs, a monad. `Threads`, `step`: the threads and one step of one of them;
  `Threads.stray` records that the mutex was released by a thread that did not hold it.
* A test has a label, and `ok` says which outcome it is to have. `Passes`: a step that is not a test
  with another one.
* `wp`: the rules for one thread. A thread that holds the mutex has the memory for itself, and has
  to leave it with the invariant `I`. One without it may read; after a test that did not pass, it
  strays, and has to come to a release.
* `wp_bind`, `Returns`, `Within`: programs put together from others.
* `Sound`: all threads meet the rules. `step_sound`: a step that passes keeps that;
  `run_passes_iff`: where all threads come to their end, the mutex is released by its holder alone
  exactly if every test passes.
-/

namespace Gallus

/-- A program over the memory `γ`, with the result `α`. -/
inductive Prog (γ ℓ α : Type)
  | done (a : α)
  | read (k : γ → Prog γ ℓ α)
  /-- A condition on the memory, with a label. -/
  | test (l : ℓ) (c : γ → Bool) (k : Bool → Prog γ ℓ α)
  | write (f : γ → γ) (k : Prog γ ℓ α)
  | lock (k : Prog γ ℓ α)
  | unlock (k : Prog γ ℓ α)

namespace Prog

variable {γ ℓ α β τ : Type}

def bind : Prog γ ℓ α → (α → Prog γ ℓ β) → Prog γ ℓ β
  | done a, f => f a
  | read k, f => read fun g => (k g).bind f
  | test l c k, f => test l c fun b => (k b).bind f
  | write u k, f => write u (k.bind f)
  | lock k, f => lock (k.bind f)
  | unlock k, f => unlock (k.bind f)

instance : Monad (Prog γ ℓ) where
  pure := done
  bind := bind

/-- A value of the memory. -/
def get (f : γ → α) : Prog γ ℓ α := read fun g => done (f g)

def check (l : ℓ) (c : γ → Bool) : Prog γ ℓ Bool := test l c done

def change (f : γ → γ) : Prog γ ℓ Unit := write f (done ())

def acquire : Prog γ ℓ Unit := lock (done ())

def release : Prog γ ℓ Unit := unlock (done ())

/-- `if` without `else`. -/
def when (c : Bool) (p : Prog γ ℓ Unit) : Prog γ ℓ Unit := if c = true then p else done ()

end Prog

namespace Mutex

variable {γ ℓ α β τ : Type}

/-- The memory, the mutex and the threads. -/
structure Threads (γ ℓ α τ : Type) where
  mem : γ
  holder : Option τ
  /-- A thread has released the mutex without holding it. -/
  stray : Bool
  prog : τ → Prog γ ℓ α

section Steps

variable [DecidableEq τ]

def Threads.goOn (s : Threads γ ℓ α τ) (i : τ) (p : Prog γ ℓ α) : Threads γ ℓ α τ :=
  { s with prog := Function.update s.prog i p }

/-- One step of the thread `i`. -/
def step (s : Threads γ ℓ α τ) (i : τ) : Option (Threads γ ℓ α τ) :=
  match s.prog i with
  | .done _ => none
  | .read k => some (s.goOn i (k s.mem))
  | .test _ c k => some (s.goOn i (k (c s.mem)))
  | .write f k => some { s.goOn i k with mem := f s.mem }
  | .lock k => if s.holder.isNone then some { s.goOn i k with holder := some i } else none
  | .unlock k => some { s.goOn i k with
      holder := none
      stray := s.stray || s.holder != some i }

end Steps

/-- The step of the thread `i` is not a test with the wrong outcome. -/
def Passes (ok : ℓ → Bool → Bool) (s : Threads γ ℓ α τ) (i : τ) : Prop :=
  match s.prog i with
  | .test l c _ => ok l (c s.mem) = true
  | _ => True

instance (ok : ℓ → Bool → Bool) (s : Threads γ ℓ α τ) (i : τ) : Decidable (Passes ok s i) :=
  match h : s.prog i with
  | .test l c _ => decidable_of_iff (ok l (c s.mem) = true) (by simp only [Passes, h])
  | .done _ | .read _ | .write _ _ | .lock _ | .unlock _ => .isTrue (by simp only [Passes, h])

/-! ## One thread -/

/-- How a thread stands to the mutex. -/
inductive Mode (γ : Type)
  | free
  /-- It holds the mutex, and the memory is this. -/
  | held (g : γ)
  /-- It does not hold it, and a test has not passed. -/
  | strayed

/-- From the mode on, the program keeps to the rules, and ends as `Q` says or releases the mutex
after it has strayed. -/
def wp (ok : ℓ → Bool → Bool) (I : γ → Prop) :
    Prog γ ℓ α → (Mode γ → α → Prop) → Mode γ → Prop
  | .done a, Q, m => Q m a
  | .read k, Q, m =>
    match m with
    | .held g => wp ok I (k g) Q (.held g)
    | .free => ∀ g, wp ok I (k g) Q .free
    | .strayed => ∀ g, wp ok I (k g) Q .strayed
  | .test l c k, Q, m =>
    match m with
    | .held g => ok l (c g) = true ∧ wp ok I (k (c g)) Q (.held g)
    | .free => ∀ b, wp ok I (k b) Q (if ok l b = true then .free else .strayed)
    | .strayed => ∀ b, wp ok I (k b) Q .strayed
  | .write f k, Q, m =>
    match m with
    | .held g => wp ok I k Q (.held (f g))
    | .free => False
    | .strayed => wp ok I k Q .strayed
  | .lock k, Q, m =>
    match m with
    | .free => ∀ g, I g → wp ok I k Q (.held g)
    | .held _ | .strayed => False
  | .unlock k, Q, m =>
    match m with
    | .held g => I g ∧ wp ok I k Q .free
    | .free => False
    | .strayed => True

variable {ok : ℓ → Bool → Bool} {I : γ → Prop} {p : Prog γ ℓ α} {f : α → Prog γ ℓ β}

theorem wp_mono {Q Q' : Mode γ → α → Prop} (hQ : ∀ m a, Q m a → Q' m a) {m : Mode γ}
    (h : wp ok I p Q m) : wp ok I p Q' m := by
  induction p generalizing m with
  | done a => exact hQ m a h
  | read k ih =>
    cases m with
    | held g => exact ih g h
    | free | strayed => exact fun g => ih g (h g)
  | test l c k ih =>
    cases m with
    | held g => exact ⟨h.1, ih _ h.2⟩
    | free | strayed => exact fun b => ih b (h b)
  | write u k ih =>
    cases m with
    | held g => exact ih h
    | free => exact h
    | strayed => exact ih h
  | lock k ih =>
    cases m with
    | free => exact fun g hg => ih (h g hg)
    | held g | strayed => exact h
  | unlock k ih =>
    cases m with
    | held g => exact ⟨h.1, ih h.2⟩
    | free | strayed => exact h

/-- One program after another. -/
theorem wp_bind {Q : Mode γ → β → Prop} {m : Mode γ}
    (h : wp ok I p (fun m a => wp ok I (f a) Q m) m) : wp ok I (p >>= f) Q m := by
  show wp ok I (p.bind f) Q m
  induction p generalizing m with
  | done a => exact h
  | read k ih =>
    cases m with
    | held g => exact ih g h
    | free | strayed => exact fun g => ih g (h g)
  | test l c k ih =>
    cases m with
    | held g => exact ⟨h.1, ih _ h.2⟩
    | free | strayed => exact fun b => ih b (h b)
  | write u k ih =>
    cases m with
    | held g => exact ih h
    | free => exact h
    | strayed => exact ih h
  | lock k ih =>
    cases m with
    | free => exact fun g hg => ih (h g hg)
    | held g | strayed => exact h
  | unlock k ih =>
    cases m with
    | held g => exact ⟨h.1, ih h.2⟩
    | free | strayed => exact h

/-- A program that a thread begins and ends without the mutex. -/
def Returns (ok : ℓ → Bool → Bool) (I : γ → Prop) (p : Prog γ ℓ α) : Prop :=
  wp ok I p (fun m _ => m = .free) .free

theorem Returns.pure (a : α) : Returns ok I (Pure.pure a : Prog γ ℓ α) := rfl

theorem Returns.get (g : γ → α) : Returns ok I (Prog.get g) := fun _ => rfl

theorem Returns.bind (hp : Returns ok I p) (hf : ∀ a, Returns ok I (f a)) :
    Returns ok I (p >>= f) := by
  refine wp_bind (wp_mono ?_ hp)
  rintro m a rfl
  exact hf a

theorem Returns.when {p : Prog γ ℓ Unit} (c : Bool) (hp : Returns ok I p) :
    Returns ok I (Prog.when c p) := by
  cases c with
  | false => exact .pure ()
  | true => exact hp

/-- Programs one after the other, for the elements of a list. -/
theorem Returns.forM {σ : Type} {f : σ → Prog γ ℓ Unit} {xs : List σ}
    (h : ∀ x, Returns ok I (f x)) : Returns ok I (xs.forM f) := by
  induction xs with
  | nil => exact .pure ()
  | cons x xs ih => exact (h x).bind fun _ => ih

/-- A program that leaves the mutex alone, and changes the memory by steps of `R`, if it holds the
mutex. -/
structure Within (ok : ℓ → Bool → Bool) (I : γ → Prop) (R : γ → γ → Prop) (p : Prog γ ℓ α) : Prop
    where
  held : ∀ g Q, (∀ g' a, R g g' → Q (.held g') a) → wp ok I p Q (.held g)
  strayed : ∀ Q, (∀ a, Q .strayed a) → wp ok I p Q .strayed

namespace Within

variable {R : γ → γ → Prop}

theorem pure (hR : ∀ g, R g g) (a : α) : Within ok I R (Pure.pure a : Prog γ ℓ α) :=
  ⟨fun g _ h => h g a (hR g), fun _ h => h a⟩

theorem get (hR : ∀ g, R g g) (u : γ → α) : Within ok I R (Prog.get u) :=
  ⟨fun g _ h => h g (u g) (hR g), fun _ h g => h (u g)⟩

theorem change {u : γ → γ} (hR : ∀ g, R g (u g)) : Within ok I R (Prog.change u) :=
  ⟨fun g _ h => h (u g) () (hR g), fun _ h => h ()⟩

theorem when {p : Prog γ ℓ Unit} (hR : ∀ g, R g g) (c : Bool) (hp : Within ok I R p) :
    Within ok I R (Prog.when c p) := by
  cases c with
  | false => exact pure hR ()
  | true => exact hp

theorem bind (hR : ∀ a b c, R a b → R b c → R a c) (hp : Within ok I R p)
    (hf : ∀ a, Within ok I R (f a)) : Within ok I R (p >>= f) where
  held g _ hQ := wp_bind (hp.held g _ fun g' a h =>
    (hf a).held g' _ fun g'' b h' => hQ g'' b (hR g g' g'' h h'))
  strayed _ hQ := wp_bind (hp.strayed _ fun a => (hf a).strayed _ hQ)

end Within

/-- A region under the mutex. -/
theorem Returns.locked {R : γ → γ → Prop} (hI : ∀ g g', I g → R g g' → I g') (hp : Within ok I R p)
    (hf : ∀ a, Returns ok I (f a)) :
    Returns ok I (do Prog.acquire; let a ← p; Prog.release; f a) := by
  refine wp_bind fun g hg => wp_bind (hp.held g _ fun g' a h => ?_)
  exact wp_bind ⟨hI g g' hg h, hf a⟩

/-! ## All threads -/

/-- The threads meet the rules, none has strayed, and the free mutex has the invariant. -/
structure Sound (ok : ℓ → Bool → Bool) (I : γ → Prop) (s : Threads γ ℓ α τ) : Prop where
  stray : s.stray = false
  free : s.holder = none → I s.mem
  held : ∀ i, s.holder = some i → wp ok I (s.prog i) (fun m _ => m = .free) (.held s.mem)
  others : ∀ i, s.holder ≠ some i → Returns ok I (s.prog i)

/-- A thread that has strayed, and will release the mutex. -/
def Strayed (ok : ℓ → Bool → Bool) (I : γ → Prop) (s : Threads γ ℓ α τ) : Prop :=
  ∃ i, s.holder ≠ some i ∧ wp ok I (s.prog i) (fun m _ => m = .free) .strayed

/-- Before its first step. -/
theorem sound_start {mem : γ} {prog : τ → Prog γ ℓ α} (hmem : I mem)
    (hprog : ∀ i, Returns ok I (prog i)) : Sound ok I ⟨mem, none, false, prog⟩ :=
  ⟨rfl, fun _ => hmem, nofun, fun i _ => hprog i⟩

variable [DecidableEq τ] {s s' t : Threads γ ℓ α τ} {i : τ}

/-- The threads after a step of the thread `i` that leaves the mutex as it is. -/
theorem Sound.goOn (h : Sound ok I s) {g : γ} {q : Prog γ ℓ α}
    (hheld : s.holder = some i → wp ok I q (fun m _ => m = .free) (.held g))
    (hfree : s.holder ≠ some i → g = s.mem ∧ Returns ok I q) :
    Sound ok I { s.goOn i q with mem := g } where
  stray := h.stray
  free hnone := by
    rw [(hfree (by simp [show s.holder = none from hnone])).1]
    exact h.free hnone
  held j hj := by
    by_cases hji : j = i
    · subst hji
      simpa [Threads.goOn] using hheld hj
    · have hne : s.holder ≠ some i := fun hi => hji (Option.some.inj (hj.symm.trans hi))
      simpa [Threads.goOn, Function.update_of_ne hji, (hfree hne).1] using h.held j hj
  others j hj := by
    by_cases hji : j = i
    · subst hji
      simpa [Threads.goOn] using (hfree hj).2
    · simpa [Threads.goOn, Function.update_of_ne hji] using h.others j hj

/-- One step of a thread whose test passes. -/
theorem step_sound (h : Sound ok I s) (hpass : Passes ok s i) (hstep : step s i = some s') :
    Sound ok I s' := by
  have hheld := h.held i
  have hfree := h.others i
  cases hp : s.prog i with
  | done a =>
    simp only [step, hp] at hstep
    exact absurd hstep nofun
  | read k =>
    simp only [step, hp, Option.some.injEq] at hstep
    rw [hp] at hheld hfree
    subst hstep
    exact h.goOn (g := s.mem) hheld fun hi => ⟨rfl, hfree hi s.mem⟩
  | test l c k =>
    simp only [step, hp, Option.some.injEq] at hstep
    simp only [Passes, hp] at hpass
    rw [hp] at hheld hfree
    subst hstep
    refine h.goOn (g := s.mem) (fun hi => (hheld hi).2) fun hi => ⟨rfl, ?_⟩
    have hnext := hfree hi (c s.mem)
    rwa [if_pos hpass] at hnext
  | write f k =>
    simp only [step, hp, Option.some.injEq] at hstep
    rw [hp] at hheld hfree
    subst hstep
    exact h.goOn hheld fun hi => (hfree hi).elim
  | lock k =>
    simp only [step, hp] at hstep
    split_ifs at hstep with hnone
    cases hstep
    have hnone' : s.holder = none := Option.isNone_iff_eq_none.mp hnone
    rw [hp] at hfree
    have hnext := hfree (by simp [hnone']) s.mem (h.free hnone')
    refine ⟨h.stray, nofun, fun j hj => ?_, fun j hj => ?_⟩
    · obtain rfl : i = j := Option.some.inj hj
      simpa [Threads.goOn] using hnext
    · have hji : j ≠ i := fun heq => hj (congrArg some heq.symm)
      simpa [Threads.goOn, Function.update_of_ne hji] using h.others j (by simp [hnone'])
  | unlock k =>
    simp only [step, hp, Option.some.injEq] at hstep
    rw [hp] at hheld hfree
    have hi : s.holder = some i := by
      by_contra hne
      exact hfree hne
    subst hstep
    refine ⟨by simp [h.stray, hi], fun _ => (hheld hi).1, nofun, fun j _ => ?_⟩
    by_cases hji : j = i
    · subst hji
      have hnext : Returns ok I k := (hheld hi).2
      simpa [Threads.goOn] using hnext
    · have hne : s.holder ≠ some j := fun hj => hji (Option.some.inj (hj.symm.trans hi))
      simpa [Threads.goOn, Function.update_of_ne hji] using h.others j hne

/-- A test that does not pass: the thread strays. -/
theorem step_strays (h : Sound ok I s) (hfail : ¬Passes ok s i) (hstep : step s i = some s') :
    Strayed ok I s' := by
  have hheld := h.held i
  have hfree := h.others i
  cases hp : s.prog i with
  | test l c k =>
    simp only [step, hp, Option.some.injEq] at hstep
    simp only [Passes, hp] at hfail
    rw [hp] at hheld hfree
    have hi : s.holder ≠ some i := fun hi => hfail (hheld hi).1
    have hnext := hfree hi (c s.mem)
    rw [if_neg hfail] at hnext
    subst hstep
    exact ⟨i, hi, by simpa [Threads.goOn] using hnext⟩
  | done a | read k | write f k | lock k | unlock k => simp [Passes, hp] at hfail

/-- What a step of the thread `i` leaves of another one. -/
theorem step_other {j : τ} (hstep : step s i = some s') (hji : j ≠ i) :
    s'.prog j = s.prog j ∧ (s.holder ≠ some j → s'.holder ≠ some j) := by
  cases hp : s.prog i with
  | done a =>
    simp only [step, hp] at hstep
    exact absurd hstep nofun
  | read k | test l c k | write f k =>
    simp only [step, hp, Option.some.injEq] at hstep
    subst hstep
    exact ⟨Function.update_of_ne hji _ _, id⟩
  | lock k =>
    simp only [step, hp] at hstep
    split_ifs at hstep
    cases hstep
    exact ⟨Function.update_of_ne hji _ _, fun _ heq => hji (Option.some.inj heq).symm⟩
  | unlock k =>
    simp only [step, hp, Option.some.injEq] at hstep
    subst hstep
    exact ⟨Function.update_of_ne hji _ _, fun _ => nofun⟩

/-- A thread that has strayed stays so until it releases the mutex. -/
theorem Strayed.step (h : Strayed ok I s) (hstep : step s i = some s') :
    Strayed ok I s' ∨ s'.stray = true := by
  obtain ⟨j, hj, hwp⟩ := h
  by_cases hji : j = i
  · subst hji
    cases hp : s.prog j with
    | done a =>
      simp only [Mutex.step, hp] at hstep
      exact absurd hstep nofun
    | read k =>
      simp only [Mutex.step, hp, Option.some.injEq] at hstep
      rw [hp] at hwp
      subst hstep
      exact .inl ⟨j, hj, by simpa [Threads.goOn] using hwp s.mem⟩
    | test l c k =>
      simp only [Mutex.step, hp, Option.some.injEq] at hstep
      rw [hp] at hwp
      subst hstep
      exact .inl ⟨j, hj, by simpa [Threads.goOn] using hwp (c s.mem)⟩
    | write f k =>
      simp only [Mutex.step, hp, Option.some.injEq] at hstep
      rw [hp] at hwp
      subst hstep
      refine .inl ⟨j, hj, ?_⟩
      simpa [Threads.goOn] using show wp ok I k _ .strayed from hwp
    | lock k =>
      rw [hp] at hwp
      exact hwp.elim
    | unlock k =>
      simp only [Mutex.step, hp, Option.some.injEq] at hstep
      subst hstep
      exact .inr (by simp [hj])
  · obtain ⟨hprog, hholder⟩ := step_other hstep hji
    exact .inl ⟨j, hholder hj, by rwa [hprog]⟩

/-- **The tests of a run.** Where all threads come to their end, the mutex has been released by none
but its holder exactly if every test has passed. -/
theorem run_passes_iff {is : List τ} (hs : Sound ok I s) (h : Trans.run step s is = some t)
    (hend : ∀ i, ∃ a, t.prog i = .done a) :
    (∀ is₁ s₁, is₁ <+: is → Trans.run step s is₁ = some s₁ → s₁.stray = false) ↔
      Trans.Run step (Passes ok) s is t := by
  constructor
  · refine Trans.Run.of_states_later (I := Sound ok I) (D := Strayed ok I)
      (P := fun s => s.stray = false)
      (fun s i s' h _ hpass hst => step_sound h hpass hst)
      (fun s i s' h _ hfail hst => .inl (step_strays h hfail hst))
      (fun s i s' h _ hst => (h.step hst).imp_right fun hstray hno => ?_) hs
      (Trans.Run.all_iff.mpr h) ?_
    · rw [hstray] at hno
      exact absurd hno nofun
    · rintro ⟨i, -, hwp⟩
      obtain ⟨a, ha⟩ := hend i
      rw [ha] at hwp
      exact absurd hwp nofun
  · intro hrun is₁ s₁ hpre h₁
    exact ((hrun.of_prefix hpre h₁).inv (fun _ _ _ hs hok hst => step_sound hs hok hst) hs).stray

end Mutex
end Gallus
