import Gallus.Basic
import Gallus.Lib.Trans
import Mathlib.Data.List.Perm.Basic
import Mathlib.Logic.Function.Basic

/-!
# Critical sections (`lock.c`)

`gallus_mutex_enter_critical` and its siblings of the rwlocks make the thread uncancellable before
they lock, and hand its former state to the caller, who passes it to the leaving call. If the lock
is refused, they do not put the former state back.

* `State`: any number of threads and locks. Each call is two steps, since other threads run between
  its two system calls, and a thread may be asked to end at any moment. A lock can be refused at any
  moment, since the number of readers has a bound and a deadlock is found out. The mutexes are not
  recursive.
* `Safe`: a thread with a lock cannot be cancelled, and is not about to become cancellable; without
  one it is as it was at first; and a thread that has been cancelled has left no lock behind.
* `Ok`: the states of one thread. `critical_safe_iff`: all threads are safe exactly if none leaves,
  before the others, the section that it has entered cancellable, and none that could be cancelled
  is refused a lock.
-/

namespace Gallus
namespace Critical

inductive Mode
  /-- `gallus_mutex_enter_critical`, `gallus_rwlock_writer_enter_critical` -/
  | exclusive
  /-- `gallus_rwlock_reader_enter_critical` -/
  | shared

/-- Who holds a mutex or a rwlock. -/
structure Lock where
  writer : Bool
  readers : Nat

def Lock.isFree (l : Lock) : Mode → Bool
  | .exclusive => !l.writer && l.readers == 0
  | .shared => !l.writer

def Lock.take (l : Lock) : Mode → Lock
  | .exclusive => { l with writer := true }
  | .shared => { l with readers := l.readers + 1 }

def Lock.release (l : Lock) : Mode → Lock
  | .exclusive => { l with writer := false }
  | .shared => { l with readers := l.readers - 1 }

/-- A lock that a thread holds, or waits for. -/
structure Section (κ : Type) where
  lock : κ
  mode : Mode
  /-- `*ostateptr` is `PTHREAD_CANCEL_ENABLE`. -/
  saved : Bool

/-- Where a thread is. -/
inductive Pc (κ : Type)
  | run
  /-- Before `pthread_mutex_lock` or the lock of the rwlock. -/
  | entering (x : Section κ)
  /-- Before `pthread_setcancelstate`: whether `ostate` is `PTHREAD_CANCEL_ENABLE`. -/
  | leaving (ostate : Bool)
  /-- Cancelled. -/
  | ended

structure State (κ τ : Type) where
  locks : κ → Lock
  held : τ → List (Section κ)
  /-- The thread can be cancelled. -/
  enabled : τ → Bool
  /-- It is to be cancelled. -/
  pending : τ → Bool
  pc : τ → Pc κ

inductive Event (κ τ : Type)
  /-- An entering call, up to its lock. -/
  | enter (t : τ) (lock : κ) (mode : Mode)
  | locked (t : τ)
  /-- `EAGAIN` or `EDEADLK`, and `GALLUS_RESULT_POSIX_API_ERROR`. -/
  | refused (t : τ)
  /-- A leaving call, with what the section has saved, up to the unlock. -/
  | leave (t : τ) (i : Nat)
  | restored (t : τ)
  /-- `pthread_cancel` -/
  | cancel (t : τ)
  /-- A cancellation point, as the one at the end of a leaving call. -/
  | testCancel (t : τ)

variable {κ τ : Type}

def init (κ : Type) (enabled : τ → Bool) : State κ τ where
  locks _ := ⟨false, 0⟩
  held _ := []
  enabled := enabled
  pending _ := false
  pc _ := .run

/-- No cancellation can lose a lock of this thread, whose state outside is `e`. -/
structure Safe (e : Bool) (s : State κ τ) (t : τ) : Prop where
  held : s.held t ≠ [] → s.enabled t = false
  leaving : s.held t ≠ [] → s.pc t ≠ .leaving true
  outside : s.held t = [] → s.pc t = .run → s.enabled t = e
  ended : s.pc t = .ended → s.held t = []

/-- The condition on the steps: what has been entered cancellable is left last, and a thread that
could be cancelled gets its lock. -/
def Outermost (s : State κ τ) : Event κ τ → Prop
  | .leave t i => ∀ x, (s.held t)[i]? = some x → x.saved = true → (s.held t).length = 1
  | .refused t => ∀ x, s.pc t = .entering x → x.saved = false
  | _ => True

/-! ## One thread -/

/-- One section has saved that the thread could be cancelled, if it could. -/
def Balanced (e : Bool) (l : List (Section κ)) : Prop :=
  l.countP Section.saved = if e = true ∧ l ≠ [] then 1 else 0

/-- The states of a thread: its sections, whether it can be cancelled, and where it is. -/
inductive Ok (e : Bool) : List (Section κ) → Bool → Pc κ → Prop
  | run {l} (h : Balanced e l) : Ok e l (e && l.isEmpty) .run
  | entering {l x} (h : Balanced e l) (hx : x.saved = (e && l.isEmpty)) : Ok e l false (.entering x)
  | leaving {l} (h : Balanced e l) : Ok e l false (.leaving (e && l.isEmpty))
  | ended {b} : Ok e [] b .ended

variable {e b : Bool} {l : List (Section κ)} {x : Section κ} {pc : Pc κ} {i : Nat}

theorem Balanced.cons (h : Balanced e l) (hx : x.saved = (e && l.isEmpty)) :
    Balanced e (x :: l) := by
  unfold Balanced at h ⊢
  rw [List.countP_cons, h, hx]
  cases e <;> cases l <;> simp

/-- The last section that is left, or one of the others. -/
theorem Balanced.eraseIdx (h : Balanced e l) (hi : l[i]? = some x)
    (hlast : x.saved = true → l.length = 1) :
    Balanced e (l.eraseIdx i) ∧ x.saved = (e && (l.eraseIdx i).isEmpty) := by
  obtain ⟨hlt, hget⟩ := List.getElem?_eq_some_iff.mp hi
  have hlen : (l.eraseIdx i).length = l.length - 1 := List.length_eraseIdx_of_lt hlt
  have hne : l ≠ [] := List.ne_nil_of_length_pos (Nat.zero_lt_of_lt hlt)
  have hcount : l.countP Section.saved =
      (l.eraseIdx i).countP Section.saved + if x.saved = true then 1 else 0 := by
    rw [← (List.getElem_cons_eraseIdx_perm hlt).countP_eq, List.countP_cons, hget]
  unfold Balanced at h ⊢
  cases hsaved : x.saved with
  | true =>
    have hnil : l.eraseIdx i = [] := by
      apply List.eq_nil_of_length_eq_zero
      rw [hlen, hlast hsaved]
    rw [h, hnil, hsaved] at hcount
    cases e with
    | true => simp [hnil]
    | false => simp at hcount
  | false =>
    rw [h, hsaved] at hcount
    cases e with
    | true =>
      have hone : (l.eraseIdx i).countP Section.saved = 1 := by simpa [hne] using hcount.symm
      have hne' : l.eraseIdx i ≠ [] := by
        intro hnil
        rw [hnil] at hone
        cases hone
      exact ⟨by simp [hone, hne'], by simp [hne']⟩
    | false => exact ⟨by simpa using hcount.symm, rfl⟩

theorem Ok.enter {lock : κ} {mode : Mode} (h : Ok e l b .run) :
    Ok e l false (.entering ⟨lock, mode, b⟩) := by
  cases h with
  | run h => exact .entering h rfl

theorem Ok.locked (h : Ok e l b (.entering x)) : Ok e (x :: l) b .run := by
  cases h with
  | entering h hx => simpa only [List.isEmpty_cons, Bool.and_false] using Ok.run (h.cons hx)

/-- A lock is refused within other sections, or to a thread that cannot be cancelled at all. -/
theorem Ok.refused (h : Ok e l b (.entering x)) (hsaved : x.saved = false) : Ok e l b .run := by
  cases h with
  | entering h hx =>
    have hrun : Ok e l (e && l.isEmpty) (.run : Pc κ) := .run h
    rwa [← hx, hsaved] at hrun

/-- Otherwise the thread is in no section and cannot be cancelled any more. -/
theorem Ok.unrestored (h : Ok e l b (.entering x)) (hsaved : x.saved = true) :
    l = [] ∧ b = false ∧ e = true := by
  cases h with
  | entering h hx =>
    obtain ⟨he, hl⟩ := Bool.and_eq_true_iff.mp (hx.symm.trans hsaved)
    exact ⟨List.isEmpty_iff.mp hl, rfl, he⟩

theorem Ok.leave (h : Ok e l b .run) (hi : l[i]? = some x)
    (hlast : x.saved = true → l.length = 1) : Ok e (l.eraseIdx i) b (.leaving x.saved) := by
  cases h with
  | run h =>
    obtain ⟨hbalanced, hsaved⟩ := h.eraseIdx hi hlast
    have hempty : l.isEmpty = false := by
      cases l with
      | nil => cases hi
      | cons => rfl
    rw [hempty, Bool.and_false, hsaved]
    exact .leaving hbalanced

theorem Ok.restored {o : Bool} (h : Ok e l b (.leaving o)) : Ok e l o .run := by
  cases h with
  | leaving h => exact .run h

theorem Ok.testCancel (h : Ok e l true .run) : Ok e l true .ended := by
  generalize hb : true = b at h
  cases h with
  | run h =>
    have hnil : l = [] := List.isEmpty_iff.mp (Bool.and_eq_true_iff.mp hb.symm).2
    subst hnil
    exact .ended

theorem Ok.disabled (h : Ok e l b pc) (hl : l ≠ []) : b = false := by
  cases h with
  | run _ => rw [List.isEmpty_eq_false_iff.mpr hl, Bool.and_false]
  | entering _ _ | leaving _ => rfl
  | ended => exact absurd rfl hl

theorem Ok.notLeaving (h : Ok e l b pc) (hl : l ≠ []) : pc ≠ .leaving true := by
  intro hpc
  subst hpc
  generalize ho : true = o at h
  cases h with
  | leaving _ => exact hl (List.isEmpty_iff.mp (Bool.and_eq_true_iff.mp ho.symm).2)

theorem Ok.outside (h : Ok e ([] : List (Section κ)) b .run) : b = e := by
  cases h with
  | run _ => exact Bool.and_true e

theorem Ok.nil_of_ended (h : Ok e l b .ended) : l = [] := by
  cases h with
  | ended => rfl

theorem Ok.safe {s : State κ τ} {t : τ} (h : Ok e (s.held t) (s.enabled t) (s.pc t)) :
    Safe e s t where
  held := h.disabled
  leaving := h.notLeaving
  outside hl hpc := by
    rw [hl, hpc] at h
    exact h.outside
  ended hpc := by
    rw [hpc] at h
    exact h.nil_of_ended

section Steps

variable [DecidableEq κ] [DecidableEq τ]

/-- The thread `t` at `pc`, with these sections. -/
def put (s : State κ τ) (t : τ) (l : List (Section κ)) (enabled : Bool) (pc : Pc κ) : State κ τ :=
  { s with
    held := Function.update s.held t l
    enabled := Function.update s.enabled t enabled
    pc := Function.update s.pc t pc }

/-- One step. -/
def step (s : State κ τ) : Event κ τ → Option (State κ τ)
  | .enter t lock mode =>
    match s.pc t with
    | .run => some (put s t (s.held t) false (.entering ⟨lock, mode, s.enabled t⟩))
    | .entering _ | .leaving _ | .ended => none
  | .locked t =>
    match s.pc t with
    | .entering x =>
      if (s.locks x.lock).isFree x.mode then
        some { put s t (x :: s.held t) (s.enabled t) .run with
          locks := Function.update s.locks x.lock ((s.locks x.lock).take x.mode) }
      else none
    | .run | .leaving _ | .ended => none
  | .refused t =>
    match s.pc t with
    | .entering _ => some (put s t (s.held t) (s.enabled t) .run)
    | .run | .leaving _ | .ended => none
  | .leave t i =>
    match s.pc t, (s.held t)[i]? with
    | .run, some x =>
      some { put s t ((s.held t).eraseIdx i) (s.enabled t) (.leaving x.saved) with
        locks := Function.update s.locks x.lock ((s.locks x.lock).release x.mode) }
    | _, _ => none
  | .restored t =>
    match s.pc t with
    | .leaving ostate => some (put s t (s.held t) ostate .run)
    | .run | .entering _ | .ended => none
  | .cancel t => some { s with pending := Function.update s.pending t true }
  | .testCancel t =>
    match s.pc t with
    | .run =>
      some (if s.enabled t = true ∧ s.pending t = true then put s t (s.held t) true .ended else s)
    | .entering _ | .leaving _ | .ended => none

/-! ## All threads -/

variable {s s' : State κ τ} {ev : Event κ τ} {es : List (Event κ τ)} {enabled : τ → Bool} {t : τ}

/-- The invariant. -/
def Inv (enabled : τ → Bool) (s : State κ τ) : Prop :=
  ∀ t, Ok (enabled t) (s.held t) (s.enabled t) (s.pc t)

omit [DecidableEq κ] [DecidableEq τ] in
theorem init_inv : Inv enabled (init κ enabled) := by
  intro t
  have hbalanced : Balanced (enabled t) ([] : List (Section κ)) := by simp [Balanced]
  have h : Ok (enabled t) [] (enabled t && true) (.run : Pc κ) := .run hbalanced
  rwa [Bool.and_true] at h

omit [DecidableEq κ] in
/-- The other threads are where they have been. -/
theorem Inv.put {locks : κ → Lock} (h : Inv enabled s) (hok : Ok (enabled t) l b pc) :
    Inv enabled { put s t l b pc with locks := locks } := by
  intro u
  simp only [Critical.put, Function.update_apply]
  split
  · next heq =>
    subst heq
    exact hok
  · exact h u

/-- **The step lemma.** -/
theorem Inv.step (h : Inv enabled s) (hok : Outermost s ev) (hs : step s ev = some s') :
    Inv enabled s' := by
  cases ev with
  | enter t lock mode =>
    simp only [Critical.step] at hs
    split at hs
    · next hpc =>
      cases hs
      exact h.put (hpc ▸ h t).enter
    · cases hs
    · cases hs
    · cases hs
  | locked t =>
    simp only [Critical.step] at hs
    split at hs
    · next x hpc =>
      split at hs
      · cases hs
        exact h.put (hpc ▸ h t).locked
      · cases hs
    · cases hs
    · cases hs
    · cases hs
  | refused t =>
    simp only [Critical.step] at hs
    split at hs
    · next x hpc =>
      cases hs
      exact h.put ((hpc ▸ h t).refused (hok x hpc))
    · cases hs
    · cases hs
    · cases hs
  | leave t i =>
    simp only [Critical.step] at hs
    split at hs
    · next x hpc hi =>
      cases hs
      exact h.put ((hpc ▸ h t).leave hi (hok x hi))
    · cases hs
  | restored t =>
    simp only [Critical.step] at hs
    split at hs
    · next ostate hpc =>
      cases hs
      exact h.put (hpc ▸ h t).restored
    · cases hs
    · cases hs
    · cases hs
  | cancel t =>
    cases hs
    exact h
  | testCancel t =>
    simp only [Critical.step] at hs
    split at hs
    · next hpc =>
      cases hs
      split
      · next hcancel =>
        have hrun : Ok (enabled t) (s.held t) (s.enabled t) .run := hpc ▸ h t
        rw [hcancel.1] at hrun
        exact h.put hrun.testCancel
      · exact h
    · cases hs
    · cases hs
    · cases hs

/-- Otherwise the thread is about to become cancellable with the locks of its other sections, or is
outside of all sections and cannot be cancelled any more. -/
theorem outermost_of_safe (h : Inv enabled s) (hs : step s ev = some s')
    (hsafe : ∀ t, Safe (enabled t) s' t) : Outermost s ev := by
  cases ev with
  | refused t =>
    intro x hpc
    by_contra hsaved
    obtain ⟨hnil, hdisabled, he⟩ := (hpc ▸ h t).unrestored (Bool.not_eq_false _ ▸ hsaved)
    simp only [step, hpc] at hs
    cases hs
    have houtside := (hsafe t).outside
    simp only [put, Function.update_self] at houtside
    have := (houtside hnil trivial).symm.trans hdisabled
    rw [he] at this
    cases this
  | leave t i =>
    intro x hi hsaved
    have hpc : s.pc t = .run := by
      simp only [step] at hs
      split at hs
      · next hpc _ => exact hpc
      · cases hs
    simp only [step, hpc, hi] at hs
    cases hs
    have hnil : (s.held t).eraseIdx i = [] := by
      by_contra hne
      refine (hsafe t).leaving ?_ ?_
      · simpa only [put, Function.update_self] using hne
      · simp only [put, Function.update_self, hsaved]
    have hlt : i < (s.held t).length := (List.getElem?_eq_some_iff.mp hi).1
    have hlen : ((s.held t).eraseIdx i).length = (s.held t).length - 1 :=
      List.length_eraseIdx_of_lt hlt
    rw [hnil, List.length_nil] at hlen
    omega
  | enter _ _ _ | locked _ | restored _ | cancel _ | testCancel _ => trivial

/-- **No cancellation loses a lock.** In a run of any number of threads and locks, whenever the
threads are cancelled and whichever locks are refused, no thread that holds a lock can be cancelled,
a thread outside can be cancelled if it could be at first, and no cancelled thread has left a lock
behind, exactly if no thread leaves, while it is in others, the section that it has entered when it
could be cancelled, and no thread that could be cancelled is refused the lock it asks for. -/
theorem critical_safe_iff (hrun : Trans.run step (init κ enabled) es = some s) :
    (∀ es₁ s₁, es₁ <+: es → Trans.run step (init κ enabled) es₁ = some s₁ →
      ∀ t, Safe (enabled t) s₁ t) ↔ Trans.Run step Outermost (init κ enabled) es s :=
  Trans.Run.iff_states (fun _ _ _ h hok hs => h.step hok hs)
    (fun _ _ _ h hs hsafe => outermost_of_safe h hs hsafe) (fun _ h t => (h t).safe) init_inv hrun

end Steps

instance (s : State κ τ) (ev : Event κ τ) : Decidable (Outermost s ev) :=
  match ev with
  | .leave t i =>
    match hi : (s.held t)[i]? with
    | none => .isTrue fun _ hx => absurd (hi.symm.trans hx) (Option.some_ne_none _).symm
    | some x => decidable_of_iff (x.saved = true → (s.held t).length = 1)
        ⟨fun h _ hy => Option.some.inj (hi.symm.trans hy) ▸ h, fun h => h x hi⟩
  | .refused t =>
    match hpc : s.pc t with
    | .entering x => decidable_of_iff (x.saved = false)
        ⟨fun h _ hy => Pc.entering.inj (hpc.symm.trans hy) ▸ h, fun h => h x hpc⟩
    | .run => .isTrue fun _ hx => by cases hpc.symm.trans hx
    | .leaving _ => .isTrue fun _ hx => by cases hpc.symm.trans hx
    | .ended => .isTrue fun _ hx => by cases hpc.symm.trans hx
  | .enter _ _ _ | .locked _ | .restored _ | .cancel _ | .testCancel _ => .isTrue trivial

/-- Two threads in two sections: the first one leaves them in the order of the calls within, and is
cancelled at the end. The second one is refused a lock within its section. -/
def nestedSections : List (Event (Fin 2) (Fin 2)) :=
  [.enter 0 0 .exclusive, .locked 0, .cancel 0, .enter 0 1 .shared, .locked 0, .enter 1 1 .shared,
    .locked 1, .enter 1 1 .shared, .refused 1, .leave 0 0, .restored 0, .testCancel 0, .leave 0 0,
    .restored 0, .testCancel 0, .leave 1 0, .restored 1]

theorem critical_safe_iff_nestedSections :
    ∃ s, Trans.run step (init (Fin 2) fun _ => true) nestedSections = some s ∧
      ∀ es₁ s₁, es₁ <+: nestedSections →
        Trans.run step (init (Fin 2) fun _ => true) es₁ = some s₁ → ∀ t, Safe true s₁ t := by
  obtain ⟨s, hguarded⟩ := Option.isSome_iff_exists.mp
    (show (Trans.run (Trans.guarded step Outermost) (init (Fin 2) fun _ => true)
      nestedSections).isSome = true by decide)
  have hrun := Trans.Run.of_guarded hguarded
  exact ⟨s, hrun.run_eq, (critical_safe_iff hrun.run_eq).mpr hrun⟩

/-- The outer section is left first, and the thread is cancelled with the lock of the inner one. -/
theorem lockLost : ∃ s, Trans.run step (init (Fin 2) fun _ => true)
    [.enter 0 0 .exclusive, .locked 0, .enter 0 1 .exclusive, .locked 0, .cancel 0, .leave 0 1,
      .restored 0, .testCancel 0] = some s ∧
    s.pc (0 : Fin 1) = .ended ∧ (s.locks 1).writer = true :=
  ⟨_, rfl, rfl, rfl⟩

/-- A lock is refused to a thread that could be cancelled. It is in no section and cannot be
cancelled any more. -/
theorem stateLost : ∃ s, Trans.run step (init (Fin 1) fun _ => true)
    [.enter 0 0 .shared, .refused 0, .cancel 0, .testCancel 0] = some s ∧
    s.held (0 : Fin 1) = [] ∧ s.pc 0 = .run ∧ s.enabled 0 = false :=
  ⟨_, rfl, rfl, rfl, rfl⟩

end Critical
end Gallus
