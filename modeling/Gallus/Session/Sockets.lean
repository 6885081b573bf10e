import Gallus.Basic
import Gallus.Lib.Trans
import Mathlib.Logic.Function.Basic

/-!
# The sockets of the sessions (`session.c`)

A session has one descriptor, `s->sock`, or none; `session_destroy` closes it.

* `State`: the descriptors that are open, those of them that the callers have opened themselves, and
  the sessions. A call is one step. The calls of the system may fail, and give any descriptor that
  is not open. The callers open and close descriptors too. A call that fails its checks of the
  arguments changes nothing and is left out.
* `Good`: a descriptor is closed, or a caller's, or that of one session.
* `Sole`: the condition on the steps. `sockets_tidy_iff`: in every run of any number of sessions,
  each descriptor is good all the time exactly if each step meets it.
-/

namespace Gallus
namespace Sockets

/-- What the calls ask about `session_type`. -/
structure Kind where
  /-- `SESSION_ACTIVE` -/
  active : Bool
  /-- `SESSION_TLS` -/
  tls : Bool

structure State (φ ι : Type) where
  isOpen : φ → Bool
  callers : φ → Bool
  session : ι → Option Kind
  /-- `s->sock`, where `-1` is `none`. -/
  sock : ι → Option φ

/-- What becomes of the socket of `bind_default`. -/
inductive Bound (φ : Type)
  | failed
  /-- It goes to `s->sock`, also if `bind` is in progress, which is reported as an error. -/
  | bound (fd : φ) (ok : Bool)

inductive Event (φ ι : Type)
  /-- `session_create` -/
  | create (i : ι) (k : Kind)
  /-- `session_pair`. `got`: what `socketpair` gives. -/
  | pair (i j : ι) (k : Kind) (got : Option (φ × φ))
  /-- `session_bind` -/
  | bind (i : ι) (b : Bound φ)
  /-- `session_connect`. `source`: `bind_default`, if `saddr` is not `NULL`. -/
  | connect (i : ι) (source : Option (Bound φ)) (got : Option φ) (fails : Bool)
  /-- `session_accept`. `new`: what `session_create` gives; `s2`: what is in `*s2` if it fails. -/
  | accept (i : ι) (s2 : Option ι) (fd : φ) (new : Option ι)
  /-- `session_close` -/
  | close (i : ι)
  /-- `session_destroy` -/
  | destroy (i : ι)
  /-- A caller opens a descriptor for itself. -/
  | openOwn (fd : φ)
  /-- A caller closes a descriptor that is open. -/
  | closeOwn (fd : φ)
  /-- `session_sockfd_set` -/
  | sockfdSet (i : ι) (fd : Option φ)

def init (φ ι : Type) : State φ ι := ⟨fun _ => false, fun _ => false, fun _ => none, fun _ => none⟩

variable {φ ι : Type}

/-- The states of a descriptor: who has it. -/
inductive Good (has : ι → Prop) : Bool → Bool → Prop
  | closed (h : ∀ i, ¬has i) : Good has false false
  | callers (h : ∀ i, ¬has i) : Good has true true
  | session (i : ι) (h : ∀ j, has j ↔ j = i) : Good has true false

/-- No descriptor is lost, closed too early or shared. -/
def Tidy (s : State φ ι) : Prop :=
  ∀ fd, Good (fun i => s.sock i = some fd) (s.isOpen fd) (s.callers fd)

/-- The condition on the steps: a session that gets a socket has none, and what a caller closes or
gives to `session_sockfd_set` is its own. -/
def Sole (s : State φ ι) : Event φ ι → Prop
  | .bind i (.bound _ _) | .connect i (some (.bound _ _)) _ _ | .accept _ (some i) _ none =>
    s.sock i = none
  | .closeOwn fd | .sockfdSet _ (some fd) => s.callers fd = true
  | _ => True

section Steps

variable [DecidableEq φ] [DecidableEq ι]

/-- A new descriptor for a session. -/
def give (s : State φ ι) (i : ι) (fd : φ) : State φ ι :=
  { s with
    isOpen := Function.update s.isOpen fd true
    sock := Function.update s.sock i (some fd) }

/-- `close_default` -/
def closeDefault (s : State φ ι) (i : ι) : State φ ι :=
  match s.sock i with
  | some fd => { s with
      isOpen := Function.update s.isOpen fd false
      sock := Function.update s.sock i none }
  | none => s

/-- `bind_default` -/
def bindDefault (s : State φ ι) (i : ι) : Bound φ → Option (State φ ι)
  | .failed => some s
  | .bound fd _ => if s.isOpen fd = true then none else some (give s i fd)

/-- `connect_default`. `got`: what `socket` gives, if the session has no socket; `fails`: `connect`
fails. -/
def connectDefault (s : State φ ι) (i : ι) (got : Option φ) (fails : Bool) : Option (State φ ι) :=
  match s.sock i, got with
  | some _, _ => some (if fails then closeDefault s i else s)
  | none, some fd =>
    if s.isOpen fd = true then none
    else some (if fails then closeDefault (give s i fd) i else give s i fd)
  | none, none => some s

/-- `session_connect` -/
def sessionConnect (s : State φ ι) (i : ι) (got : Option φ) (fails : Bool) :
    Option (Bound φ) → Option (State φ ι)
  | none => connectDefault s i got fails
  | some b => (bindDefault s i b).bind fun s₁ =>
    match b with
    | .bound _ true => connectDefault s₁ i got fails
    | .bound _ false | .failed => some s₁

/-- A new session, without a socket. -/
def add (s : State φ ι) (i : ι) (k : Kind) : State φ ι :=
  { s with
    session := Function.update s.session i (some k)
    sock := Function.update s.sock i none }

/-- A descriptor of the caller for a session. -/
def handOver (s : State φ ι) (i : ι) (fd : φ) : State φ ι :=
  { s with
    callers := Function.update s.callers fd false
    sock := Function.update s.sock i (some fd) }

/-- One step. -/
def step (s : State φ ι) : Event φ ι → Option (State φ ι)
  | .create i k => if (s.session i).isNone then some (add s i k) else none
  | .pair i j k got =>
    if (s.session i).isNone ∧ (s.session j).isNone ∧ i ≠ j then
      match got with
      | none => some s
      | some (fd₁, fd₂) =>
        if s.isOpen fd₁ = false ∧ s.isOpen fd₂ = false ∧ fd₁ ≠ fd₂ then
          some (give (give (add (add s i k) j k) i fd₁) j fd₂)
        else none
    else none
  | .bind i b => if (s.session i).isSome then bindDefault s i b else none
  | .connect i source got fails =>
    if (s.session i).any Kind.active then sessionConnect s i got fails source else none
  | .accept i s2 fd new =>
    match s.session i, s.sock i with
    | some k, some _ =>
      if s.isOpen fd = true then none
      else
        match new, s2 with
        | some j, _ =>
          if (s.session j).isNone then some (give (add s j ⟨false, k.tls⟩) j fd) else none
        -- If there is no memory, `session_create` leaves `*s2` as it has been.
        | none, some j => if (s.session j).isSome then some (give s j fd) else none
        | none, none => some s
    | _, _ => none
  | .close i =>
    match s.session i with
    -- `close_tls` ends the TLS session only.
    | some k => some (if k.tls then s else closeDefault s i)
    | none => none
  | .destroy i =>
    if (s.session i).isSome then
      some { closeDefault s i with session := Function.update s.session i none }
    else none
  | .openOwn fd =>
    if s.isOpen fd = true then none
    else some { s with
      isOpen := Function.update s.isOpen fd true
      callers := Function.update s.callers fd true }
  | .closeOwn fd =>
    if s.isOpen fd = true then
      some { s with
        isOpen := Function.update s.isOpen fd false
        callers := Function.update s.callers fd false }
    else none
  | .sockfdSet i fd =>
    if (s.session i).isSome then
      match fd with
      | none => some (closeDefault s i)
      | some fd => some (handOver (closeDefault s i) i fd)
    else none

/-! ## One descriptor -/

variable {s s' : State φ ι} {e : Event φ ι} {i j : ι} {fd q : φ} {o : Option φ}

omit [DecidableEq φ] in
/-- The other descriptors stay where they are. -/
theorem has_update (hold : s.sock i ≠ some q) (hnew : o ≠ some q) :
    (fun j => Function.update s.sock i o j = some q) = fun j => s.sock j = some q := by
  funext j
  rw [Function.update_apply]
  split
  · next heq =>
    subst heq
    exact propext (iff_of_false hnew hold)
  · rfl

omit [DecidableEq φ] in
/-- A session gets what no session has had. -/
theorem has_self (hno : ∀ j, ¬s.sock j = some q) (j : ι) :
    Function.update s.sock i (some q) j = some q ↔ j = i := by
  rw [Function.update_apply]
  split
  · next heq => exact iff_of_true rfl heq
  · next hne => exact iff_of_false (hno j) hne

omit [DecidableEq φ] [DecidableEq ι] in
/-- The descriptor of a session is open, and nobody else has it. -/
theorem Tidy.held (h : Tidy s) (hi : s.sock i = some fd) :
    s.isOpen fd = true ∧ s.callers fd = false ∧ ∀ j, s.sock j = some fd ↔ j = i := by
  have hfd := h fd
  generalize s.isOpen fd = isOpen, s.callers fd = callers at hfd ⊢
  cases hfd with
  | closed hno | callers hno => exact absurd hi (hno i)
  | session k hk =>
    obtain rfl := (hk i).mp hi
    exact ⟨rfl, rfl, hk⟩

omit [DecidableEq φ] [DecidableEq ι] in
/-- The descriptor `fd` changes, and no other one. -/
theorem Tidy.of_others (h : Tidy s) (fd : φ)
    (hfd : Good (fun i => s'.sock i = some fd) (s'.isOpen fd) (s'.callers fd))
    (hothers : ∀ q, q ≠ fd → s'.isOpen q = s.isOpen q ∧ s'.callers q = s.callers q ∧
      (fun i => s'.sock i = some q) = fun i => s.sock i = some q) : Tidy s' := by
  intro q
  by_cases hq : q = fd
  · rwa [hq]
  · obtain ⟨hopen, hcallers, hhas⟩ := hothers q hq
    rw [hopen, hcallers, hhas]
    exact h q

theorem Tidy.give (h : Tidy s) (hi : s.sock i = none) (hfd : s.isOpen fd = false) :
    Tidy (give s i fd) := by
  refine h.of_others fd ?_ fun q hq => ?_
  · have hgood := h fd
    rw [hfd] at hgood
    simp only [Sockets.give, Function.update_self]
    generalize s.callers fd = callers at hgood ⊢
    cases hgood with
    | closed hno => exact .session i (has_self hno)
  · have hnew : some fd ≠ some q := fun heq => hq (Option.some.inj heq).symm
    have hold : s.sock i ≠ some q := by
      rw [hi]
      exact (Option.some_ne_none q).symm
    exact ⟨Function.update_of_ne hq _ _, rfl, has_update hold hnew⟩

theorem Tidy.closeDefault (h : Tidy s) : Tidy (closeDefault s i) := by
  unfold Sockets.closeDefault
  split
  · next fd hi =>
    obtain ⟨-, hcallers, hone⟩ := h.held hi
    refine h.of_others fd ?_ fun q hq => ?_
    · simp only [Function.update_self, hcallers]
      refine .closed fun j => ?_
      rw [Function.update_apply]
      split
      · exact (Option.some_ne_none fd).symm
      · next hne => exact fun hj => hne ((hone j).mp hj)
    · have hold : s.sock i ≠ some q := fun heq => hq (Option.some.inj (heq.symm.trans hi))
      exact ⟨Function.update_of_ne hq _ _, rfl, has_update hold (Option.some_ne_none q).symm⟩
  · exact h

omit [DecidableEq ι] in
theorem Tidy.openOwn (h : Tidy s) (hfd : s.isOpen fd = false) :
    Tidy { s with
      isOpen := Function.update s.isOpen fd true
      callers := Function.update s.callers fd true } := by
  refine h.of_others fd ?_ fun q hq =>
    ⟨Function.update_of_ne hq _ _, Function.update_of_ne hq _ _, rfl⟩
  have hgood := h fd
  rw [hfd] at hgood
  simp only [Function.update_self]
  generalize s.callers fd = callers at hgood
  cases hgood with
  | closed hno => exact .callers hno

omit [DecidableEq ι] in
theorem Tidy.closeOwn (h : Tidy s) (hfd : s.callers fd = true) :
    Tidy { s with
      isOpen := Function.update s.isOpen fd false
      callers := Function.update s.callers fd false } := by
  refine h.of_others fd ?_ fun q hq =>
    ⟨Function.update_of_ne hq _ _, Function.update_of_ne hq _ _, rfl⟩
  have hgood := h fd
  rw [hfd] at hgood
  simp only [Function.update_self]
  generalize s.isOpen fd = isOpen at hgood
  cases hgood with
  | callers hno => exact .closed hno

/-- A caller's descriptor becomes that of a session without one. -/
theorem Tidy.handOver (h : Tidy s) (hi : s.sock i = none) (hfd : s.callers fd = true) :
    Tidy (handOver s i fd) := by
  refine h.of_others fd ?_ fun q hq => ?_
  · have hgood := h fd
    rw [hfd] at hgood
    simp only [Sockets.handOver, Function.update_self]
    generalize s.isOpen fd = isOpen at hgood ⊢
    cases hgood with
    | callers hno => exact .session i (has_self hno)
  · have hnew : some fd ≠ some q := fun heq => hq (Option.some.inj heq).symm
    have hold : s.sock i ≠ some q := by
      rw [hi]
      exact (Option.some_ne_none q).symm
    exact ⟨rfl, Function.update_of_ne hq _ _, has_update hold hnew⟩

/-! ## Any number of sessions -/

theorem closeDefault_session : (closeDefault s i).session = s.session := by
  unfold closeDefault
  split <;> rfl

theorem closeDefault_callers : (closeDefault s i).callers = s.callers := by
  unfold closeDefault
  split <;> rfl

theorem isOpen_of_closeDefault (h : (closeDefault s i).isOpen fd = true) : s.isOpen fd = true := by
  unfold closeDefault at h
  split at h
  · next q hi =>
    dsimp only at h
    by_cases hq : fd = q
    · subst hq
      rw [Function.update_self] at h
      cases h
    · rwa [Function.update_of_ne hq] at h
  · exact h

theorem closeDefault_sock : (closeDefault s i).sock = Function.update s.sock i none := by
  unfold closeDefault
  split
  · rfl
  · next hi => rw [← hi, Function.update_eq_self]

/-- The invariant: also, what is no session has no socket. -/
structure Inv (s : State φ ι) : Prop where
  tidy : Tidy s
  gone : ∀ i, s.session i = none → s.sock i = none

omit [DecidableEq φ] [DecidableEq ι] in
theorem init_inv : Inv (init φ ι) :=
  ⟨fun fd => .closed fun _ => (Option.some_ne_none fd).symm, fun _ _ => rfl⟩

theorem Inv.give (h : Inv s) (hlive : (s.session i).isSome) (hi : s.sock i = none)
    (hfd : s.isOpen fd = false) : Inv (give s i fd) := by
  refine ⟨h.tidy.give hi hfd, fun j hj => ?_⟩
  have hne : j ≠ i := by
    rintro rfl
    rw [Option.isSome_iff_ne_none] at hlive
    exact hlive hj
  exact (Function.update_of_ne hne _ _).trans (h.gone j hj)

theorem Inv.closeDefault (h : Inv s) : Inv (closeDefault s i) := by
  refine ⟨h.tidy.closeDefault, fun j hj => ?_⟩
  rw [closeDefault_session] at hj
  rw [closeDefault_sock, Function.update_apply]
  split
  · rfl
  · exact h.gone j hj

omit [DecidableEq φ] in
theorem Inv.add {k : Kind} (h : Inv s) (hnew : (s.session i).isNone) : Inv (add s i k) := by
  have hi : s.sock i = none := h.gone i (Option.isNone_iff_eq_none.mp hnew)
  have hsock : (Sockets.add s i k).sock = s.sock := by
    show Function.update s.sock i none = s.sock
    rw [← hi, Function.update_eq_self]
  refine ⟨fun fd => ?_, fun j hj => ?_⟩
  · rw [hsock]
    exact h.tidy fd
  · rw [hsock]
    by_cases hne : j = i
    · rw [hne, hi]
    · exact h.gone j ((Function.update_of_ne hne _ _).symm.trans hj)

theorem Inv.bindDefault {b : Bound φ} (h : Inv s) (hlive : (s.session i).isSome)
    (hok : ∀ fd ok, b = .bound fd ok → s.sock i = none) (hs : bindDefault s i b = some s') :
    Inv s' ∧ s'.session = s.session := by
  cases b with
  | failed =>
    cases hs
    exact ⟨h, rfl⟩
  | bound fd ok =>
    simp only [Sockets.bindDefault] at hs
    split at hs
    · cases hs
    · next hfd =>
      cases hs
      exact ⟨h.give hlive (hok fd ok rfl) (Bool.eq_false_iff.mpr hfd), rfl⟩

theorem Inv.connectDefault {got : Option φ} {fails : Bool} (h : Inv s)
    (hlive : (s.session i).isSome) (hs : connectDefault s i got fails = some s') : Inv s' := by
  unfold Sockets.connectDefault at hs
  split at hs
  · cases hs
    split
    · exact h.closeDefault
    · exact h
  · next hi =>
    split at hs
    · cases hs
    · next hfd =>
      have hgive := h.give hlive hi (Bool.eq_false_iff.mpr hfd)
      cases hs
      split
      · exact hgive.closeDefault
      · exact hgive
  · cases hs
    exact h

theorem Inv.sessionConnect {got : Option φ} {fails : Bool} {source : Option (Bound φ)} (h : Inv s)
    (hlive : (s.session i).isSome) (hok : Sole s (.connect i source got fails))
    (hs : sessionConnect s i got fails source = some s') : Inv s' := by
  cases source with
  | none => exact h.connectDefault hlive hs
  | some b =>
    obtain ⟨s₁, hbind, hs⟩ := Option.bind_eq_some_iff.mp hs
    obtain ⟨h₁, hsession⟩ := h.bindDefault hlive (by rintro fd ok rfl; exact hok) hbind
    split at hs
    · exact h₁.connectDefault (by rwa [hsession]) hs
    · cases hs
      exact h₁
    · cases hs
      exact h₁

/-- **The step lemma.** -/
theorem Inv.step (h : Inv s) (hok : Sole s e) (hs : step s e = some s') : Inv s' := by
  cases e with
  | create i k =>
    simp only [Sockets.step] at hs
    split at hs
    · next hnew =>
      cases hs
      exact h.add hnew
    · cases hs
  | pair i j k got =>
    simp only [Sockets.step] at hs
    split at hs
    · next hnew =>
      obtain ⟨hi, hj, hij⟩ := hnew
      split at hs
      · cases hs
        exact h
      · next fd₁ fd₂ =>
        split at hs
        · next hfd =>
          obtain ⟨hfd₁, hfd₂, hne⟩ := hfd
          cases hs
          have hadd : Inv (Sockets.add s i k) := h.add hi
          have hadd : Inv (Sockets.add (Sockets.add s i k) j k) := by
            refine hadd.add ?_
            show (Function.update s.session i (some k) j).isNone
            rwa [Function.update_of_ne hij.symm]
          have hgive : Inv (Sockets.give (Sockets.add (Sockets.add s i k) j k) i fd₁) := by
            apply hadd.give _ _ hfd₁
            · simp [Sockets.add, Function.update_of_ne hij]
            · simp [Sockets.add, Function.update_of_ne hij]
          apply hgive.give
          · simp [Sockets.give, Sockets.add]
          · simp [Sockets.give, Sockets.add, Function.update_of_ne hij.symm]
          · simp [Sockets.give, Sockets.add, Function.update_of_ne hne.symm, hfd₂]
        · cases hs
    · cases hs
  | bind i b =>
    simp only [Sockets.step] at hs
    split at hs
    · next hlive => exact (h.bindDefault hlive (by rintro fd ok rfl; exact hok) hs).1
    · cases hs
  | connect i source got fails =>
    simp only [Sockets.step] at hs
    split at hs
    · next hactive =>
      have hlive : (s.session i).isSome := by
        rw [Option.any_eq_true] at hactive
        obtain ⟨k, hk, -⟩ := hactive
        rw [hk]
        rfl
      exact h.sessionConnect hlive hok hs
    · cases hs
  | accept i s2 fd new =>
    simp only [Sockets.step] at hs
    split at hs
    · next k _ _ _ =>
      split at hs
      · cases hs
      · next hfd =>
        have hfd : s.isOpen fd = false := Bool.eq_false_iff.mpr hfd
        split at hs
        · next j =>
          split at hs
          · next hnew =>
            cases hs
            apply (h.add hnew).give _ _ hfd
            · simp [Sockets.add]
            · simp [Sockets.add]
          · cases hs
        · next j =>
          split at hs
          · next hlive =>
            cases hs
            exact h.give hlive hok hfd
          · cases hs
        · cases hs
          exact h
    · cases hs
  | close i =>
    simp only [Sockets.step] at hs
    split at hs
    · cases hs
      split
      · exact h
      · exact h.closeDefault
    · cases hs
  | destroy i =>
    simp only [Sockets.step] at hs
    split at hs
    · cases hs
      have hclose : Inv (Sockets.closeDefault s i) := h.closeDefault
      refine ⟨hclose.tidy, fun j hj => ?_⟩
      by_cases hne : j = i
      · subst hne
        show (Sockets.closeDefault s j).sock j = none
        rw [closeDefault_sock, Function.update_self]
      · refine hclose.gone j ?_
        rw [closeDefault_session]
        exact (Function.update_of_ne hne _ _).symm.trans hj
    · cases hs
  | openOwn fd =>
    simp only [Sockets.step] at hs
    split at hs
    · cases hs
    · next hfd =>
      cases hs
      exact ⟨h.tidy.openOwn (Bool.eq_false_iff.mpr hfd), h.gone⟩
  | closeOwn fd =>
    simp only [Sockets.step] at hs
    split at hs
    · cases hs
      exact ⟨h.tidy.closeOwn hok, h.gone⟩
    · cases hs
  | sockfdSet i fd =>
    simp only [Sockets.step] at hs
    split at hs
    · next hlive =>
      split at hs
      · cases hs
        exact h.closeDefault
      · next fd =>
        cases hs
        have hclose : Inv (Sockets.closeDefault s i) := h.closeDefault
        have hsock : (Sockets.closeDefault s i).sock i = none := by
          rw [closeDefault_sock, Function.update_self]
        refine ⟨hclose.tidy.handOver hsock (by rw [closeDefault_callers]; exact hok),
          fun j hj => ?_⟩
        have hne : j ≠ i := by
          rintro rfl
          change (Sockets.closeDefault s j).session j = none at hj
          rw [closeDefault_session] at hj
          rw [hj] at hlive
          cases hlive
        exact (Function.update_of_ne hne _ _).trans (hclose.gone j hj)
    · cases hs

/-! ## What breaks it -/

/-- Open, and in nobody's hands. -/
def Lost (s : State φ ι) (fd : φ) : Prop :=
  s.isOpen fd = true ∧ s.callers fd = false ∧ ∀ i, s.sock i ≠ some fd

omit [DecidableEq φ] [DecidableEq ι] in
theorem Lost.not_tidy (h : Lost s fd) : ¬Tidy s := by
  intro htidy
  obtain ⟨hopen, hcallers, hno⟩ := h
  have hgood := htidy fd
  rw [hopen, hcallers] at hgood
  cases hgood with
  | session i hi => exact hno i ((hi i).mpr rfl)

theorem Lost.closeDefault (h : Lost s fd) : Lost (closeDefault s i) fd := by
  obtain ⟨hopen, hcallers, hno⟩ := h
  refine ⟨?_, by rwa [closeDefault_callers], fun j => ?_⟩
  · unfold Sockets.closeDefault
    split
    · next fd' hi =>
      have hne : fd ≠ fd' := fun heq => hno i (heq ▸ hi)
      exact (Function.update_of_ne hne _ _).trans hopen
    · exact hopen
  · rw [closeDefault_sock, Function.update_apply]
    split
    · exact (Option.some_ne_none fd).symm
    · exact hno j

/-- The socket that the session has had. -/
theorem Tidy.lost (h : Tidy s) (hi : s.sock i = some q) (hfd : s.isOpen fd = false) :
    Lost (Sockets.give s i fd) q := by
  obtain ⟨hopen, hcallers, hone⟩ := h.held hi
  have hne : q ≠ fd := by
    rintro rfl
    rw [hopen] at hfd
    cases hfd
  refine ⟨(Function.update_of_ne hne _ _).trans hopen, hcallers, fun j => ?_⟩
  show Function.update s.sock i (some fd) j ≠ some q
  rw [Function.update_apply]
  split
  · exact fun heq => hne (Option.some.inj heq).symm
  · next hji => exact fun hj => hji ((hone j).mp hj)

theorem Tidy.sock_of_give (h : Tidy s) (hfd : s.isOpen fd = false)
    (htidy : Tidy (Sockets.give s i fd)) : s.sock i = none := by
  by_contra hi
  obtain ⟨q, hi⟩ := Option.ne_none_iff_exists'.mp hi
  exact (h.lost hi hfd).not_tidy htidy

/-- `session_connect` with a source, in a session that has a socket. -/
theorem Tidy.lost_connect {ok fails : Bool} {got : Option φ} (h : Tidy s) (hi : s.sock i = some q)
    (hs : sessionConnect s i got fails (some (.bound fd ok)) = some s') : Lost s' q := by
  obtain ⟨s₁, hbind, hs⟩ := Option.bind_eq_some_iff.mp hs
  simp only [bindDefault] at hbind
  split at hbind
  · cases hbind
  · next hfd =>
    cases hbind
    have hlost := h.lost hi (Bool.eq_false_iff.mpr hfd)
    have hsock : (Sockets.give s i fd).sock i = some fd := Function.update_self i _ _
    cases ok with
    | true =>
      simp only [connectDefault, hsock] at hs
      cases hs
      split
      · exact hlost.closeDefault
      · exact hlost
    | false =>
      cases hs
      exact hlost

/-- A descriptor of a session, or none, set into a session. -/
theorem Tidy.callers_of_handOver (h : Tidy s)
    (htidy : Tidy (Sockets.handOver (Sockets.closeDefault s i) i fd)) : s.callers fd = true := by
  have hself : (Sockets.handOver (Sockets.closeDefault s i) i fd).sock i = some fd :=
    Function.update_self i _ _
  obtain ⟨hopen', -, hone⟩ := htidy.held hself
  by_contra hcallers
  have hgood := h fd
  rw [isOpen_of_closeDefault hopen', Bool.eq_false_iff.mpr hcallers] at hgood
  cases hgood with
  | session j hj =>
    have hsock : s.sock j = some fd := (hj j).mpr rfl
    by_cases hji : j = i
    · subst hji
      have hclosed : (Sockets.closeDefault s j).isOpen fd = false := by
        simp only [Sockets.closeDefault, hsock, Function.update_self]
      exact Bool.false_ne_true (hclosed.symm.trans hopen')
    · refine hji ((hone j).mp ?_)
      show Function.update (Sockets.closeDefault s i).sock i (some fd) j = some fd
      rw [Function.update_of_ne hji, closeDefault_sock, Function.update_of_ne hji, hsock]

omit [DecidableEq ι] in
/-- A descriptor of a session, closed by a caller. -/
theorem Tidy.callers_of_closeOwn (h : Tidy s) (hopen : s.isOpen fd = true)
    (htidy : Tidy { s with
      isOpen := Function.update s.isOpen fd false
      callers := Function.update s.callers fd false }) : s.callers fd = true := by
  by_contra hcallers
  have hgood := h fd
  rw [hopen, Bool.eq_false_iff.mpr hcallers] at hgood
  cases hgood with
  | session j hj =>
    have hopen' := (htidy.held (show s.sock j = some fd from (hj j).mpr rfl)).1
    dsimp only at hopen'
    rw [Function.update_self] at hopen'
    cases hopen'

theorem sole_of_tidy (h : Inv s) (hs : step s e = some s') (htidy : Tidy s') : Sole s e := by
  cases e with
  | create _ _ | pair _ _ _ _ | close _ | destroy _ | openOwn _ => trivial
  | bind i b =>
    cases b with
    | failed => trivial
    | bound fd ok =>
      simp only [step, bindDefault] at hs
      split at hs
      · split at hs
        · cases hs
        · next hfd =>
          cases hs
          exact h.tidy.sock_of_give (Bool.eq_false_iff.mpr hfd) htidy
      · cases hs
  | connect i source got fails =>
    cases source with
    | none => trivial
    | some b =>
      cases b with
      | failed => trivial
      | bound fd ok =>
        simp only [step] at hs
        split at hs
        · by_contra hi
          obtain ⟨q, hi⟩ := Option.ne_none_iff_exists'.mp hi
          exact (h.tidy.lost_connect hi hs).not_tidy htidy
        · cases hs
  | accept i s2 fd new =>
    cases new with
    | some j => cases s2 <;> trivial
    | none =>
      cases s2 with
      | none => trivial
      | some j =>
        simp only [step] at hs
        split at hs
        · split at hs
          · cases hs
          · next hfd =>
            split at hs
            · cases hs
              exact h.tidy.sock_of_give (Bool.eq_false_iff.mpr hfd) htidy
            · cases hs
        · cases hs
  | closeOwn fd =>
    simp only [step] at hs
    split at hs
    · next hopen =>
      cases hs
      exact h.tidy.callers_of_closeOwn hopen htidy
    · cases hs
  | sockfdSet i fd =>
    cases fd with
    | none => trivial
    | some fd =>
      simp only [step] at hs
      split at hs
      · cases hs
        exact h.tidy.callers_of_handOver htidy
      · cases hs

variable {es : List (Event φ ι)}

/-- **No descriptor is lost, closed too early or shared** in a run of calls on any number of
sessions exactly if no session that has a socket gets one, from `session_bind`, from the source of
`session_connect` or from a `session_accept` without memory, and the callers close no descriptor but
their own and give no other one to `session_sockfd_set`. -/
theorem sockets_tidy_iff (hrun : Trans.run step (init φ ι) es = some s) :
    (∀ es₁ s₁, es₁ <+: es → Trans.run step (init φ ι) es₁ = some s₁ → Tidy s₁) ↔
      Trans.Run step Sole (init φ ι) es s :=
  Trans.Run.iff_states (fun _ _ _ h hok hs => h.step hok hs)
    (fun _ _ _ h hs htidy => sole_of_tidy h hs htidy) (fun _ h => h.tidy) init_inv hrun

/-- Nothing stays open: when the sessions are destroyed, what is open is the callers'. -/
theorem destroyed_closed (hrun : Trans.Run step Sole (init φ ι) es s)
    (hgone : ∀ i, s.session i = none) : s.isOpen = s.callers := by
  have h : Inv s := hrun.inv (fun _ _ _ h hok hs => h.step hok hs) init_inv
  funext fd
  have hgood := h.tidy fd
  generalize s.isOpen fd = isOpen, s.callers fd = callers at hgood ⊢
  cases hgood with
  | closed _ | callers _ => rfl
  | session i hi =>
    have hsock : s.sock i = some fd := (hi i).mpr rfl
    rw [h.gone i (hgone i)] at hsock
    cases hsock

instance (s : State φ ι) (e : Event φ ι) : Decidable (Sole s e) :=
  match e with
  | .bind i (.bound _ _) => inferInstanceAs (Decidable (s.sock i = none))
  | .connect i (some (.bound _ _)) _ _ => inferInstanceAs (Decidable (s.sock i = none))
  | .accept _ (some i) _ none => inferInstanceAs (Decidable (s.sock i = none))
  | .closeOwn fd | .sockfdSet _ (some fd) => inferInstanceAs (Decidable (s.callers fd = true))
  | .bind _ .failed | .connect _ none _ _ | .connect _ (some .failed) _ _ | .accept _ none _ _
  | .accept _ (some _) _ (some _) | .sockfdSet _ none | .create _ _ | .pair _ _ _ _ | .close _
  | .destroy _ | .openOwn _ => .isTrue trivial

end Steps

/-- A server with a client: the server accepts it, and both ends are destroyed. -/
def serverAndClient : List (Event (Fin 3) (Fin 3)) :=
  [.create 0 ⟨false, false⟩, .bind 0 (.bound 0 true), .create 1 ⟨true, true⟩,
    .connect 1 (some (.bound 1 true)) none false, .accept 0 none 2 (some 2), .close 1, .destroy 1,
    .openOwn 1, .sockfdSet 2 (some 1), .destroy 2, .destroy 0, .openOwn 0, .closeOwn 0]

theorem sockets_tidy_iff_serverAndClient :
    ∃ s, Trans.run step (init (Fin 3) (Fin 3)) serverAndClient = some s ∧
      ∀ es₁ s₁, es₁ <+: serverAndClient → Trans.run step (init (Fin 3) (Fin 3)) es₁ = some s₁ →
        Tidy s₁ := by
  obtain ⟨s, hguarded⟩ := Option.isSome_iff_exists.mp
    (show (Trans.run (Trans.guarded step Sole) (init (Fin 3) (Fin 3)) serverAndClient).isSome = true
      by decide)
  have hrun := Trans.Run.of_guarded hguarded
  exact ⟨s, hrun.run_eq, (sockets_tidy_iff hrun.run_eq).mpr hrun⟩

/-- A session is bound again, and its first socket stays open for ever. -/
theorem boundAgain : ∃ s, Trans.run step (init (Fin 2) (Fin 1))
    [.create 0 ⟨false, false⟩, .bind 0 (.bound 0 true), .bind 0 (.bound 1 true), .destroy 0] =
      some s ∧ Lost s 0 :=
  ⟨_, rfl, rfl, rfl, by decide⟩

end Sockets
end Gallus
