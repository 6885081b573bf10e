import Gallus.Signal.Thread

/-!
# The signal thread sleeps through no change

* `CallerOk`: a caller in its section has the lock, and what it has read is still so.
* `Noticed`: `SIGUSR2` is pending, or a caller has still to send it.
* `Inv`: if the thread waits for a set that is not the set any more, or if it is to stop, that is
  noticed. `step_inv`: every step keeps it.
* `never_asleep`: with no call in progress the thread waits for what it is to wait for, or a signal
  wakes it; and when it has been stopped it comes to its end by itself.
-/

namespace Gallus
namespace Signal

variable {ι η : Type}

/-- A caller that has still to send `SIGUSR2`. -/
def willNotify : Caller η → Bool
  | .assigned _ _ | .finalIgnored | .finalLocked | .finalStopped | .finalUnlocked => true
  | .idle | .read _ _ _ | .switched _ _ _ | .ready _ _ | .finalWaiting => false

/-- The lock and what a caller in its section has read. -/
def CallerOk (r : Record η) (lock : Option ι) (i : ι) : Caller η → Prop
  | .idle | .finalIgnored | .finalUnlocked | .finalWaiting => lock ≠ some i
  | .read _ cur _ => lock = some i ∧ cur = r.sigset
  | .switched _ set _ => lock = some i ∧ (r.sigset sigusr2 = true → set sigusr2 = true)
  | .assigned _ _ | .ready _ _ | .finalLocked | .finalStopped => lock = some i

/-- `SIGUSR2` is pending, or will be. -/
def Noticed (s : State ι η) : Prop :=
  s.pending sigusr2 = true ∨ ∃ i, willNotify (s.callers i) = true

structure Inv (s : State ι η) : Prop where
  callers : ∀ i, CallerOk s.shared s.lock i (s.callers i)
  usr2 : s.main = .wait → s.shared.sigset sigusr2 = true
  waitSet : ∀ set, s.main = .waiting set →
    set sigusr2 = true ∧ s.shared.sigset sigusr2 = true
  stale : ∀ set, s.main = .waiting set → set ≠ s.shared.sigset → Noticed s
  stopped : s.main = .enter ∨ s.main = .wait ∨ (∃ set, s.main = .waiting set) →
    s.shared.doLoop = false → Noticed s

theorem init_inv : Inv (init ι η) where
  callers _ := nofun
  usr2 := nofun
  waitSet := nofun
  stale := nofun
  stopped _ := nofun

/-! ## Callers -/

/-- A caller outside its section does not look at what is shared. -/
theorem CallerOk.out {r r' : Record η} {lock lock' : Option ι} {i : ι} {pc : Caller η}
    (h : CallerOk r lock i pc) (hlock : lock ≠ some i) (hlock' : lock' ≠ some i) :
    CallerOk r' lock' i pc := by
  cases pc with
  | idle | finalIgnored | finalUnlocked | finalWaiting => exact hlock'
  | read c cur old => exact absurd h.1 hlock
  | switched c set old => exact absurd h.1 hlock
  | assigned _ _ | ready _ _ | finalLocked | finalStopped => exact absurd h hlock

/-- Callers look at the set alone. -/
theorem CallerOk.congr {r r' : Record η} {lock : Option ι} {i : ι} {pc : Caller η}
    (h : CallerOk r lock i pc) (hset : r'.sigset = r.sigset) : CallerOk r' lock i pc := by
  cases pc with
  | read c cur old => exact ⟨h.1, h.2.trans hset.symm⟩
  | switched c set old => exact ⟨h.1, fun hr => h.2 (hset ▸ hr)⟩
  | idle | finalIgnored | finalUnlocked | finalWaiting | assigned _ _ | ready _ _ | finalLocked
    | finalStopped => exact h

/-! ## Sets of signals -/

theorem sigaddset_self {set : Nat → Bool} {sig : Nat} (h : ¬isInternalSignal sig) :
    sigaddset set sig sig = true := by
  rw [sigaddset, if_neg h, Function.update_self]

theorem sigaddset_usr2 (set : Nat → Bool) : sigaddset set sigusr2 sigusr2 = true :=
  sigaddset_self (by decide)

theorem sigdelset_self {set : Nat → Bool} {sig : Nat} (h : ¬isInternalSignal sig) :
    sigdelset set sig sig = false := by
  rw [sigdelset, if_neg h, Function.update_self]

theorem sigaddset_ne (set : Nat → Bool) {sig sig' : Nat} (h : sig' ≠ sig) :
    sigaddset set sig sig' = set sig' := by
  unfold sigaddset
  split_ifs
  · rfl
  · exact Function.update_of_ne h ..

theorem sigdelset_ne (set : Nat → Bool) {sig sig' : Nat} (h : sig' ≠ sig) :
    sigdelset set sig sig' = set sig' := by
  unfold sigdelset
  split_ifs
  · rfl
  · exact Function.update_of_ne h ..

/-- A call leaves the other signals. -/
theorem newSet_ne (cur : Nat → Bool) {signum sig : Nat} (hne : sig ≠ signum) (new : Handler η) :
    newSet cur signum new sig = cur sig := by
  cases new with
  | dfl =>
    unfold newSet
    split_ifs
    · exact sigdelset_ne cur hne
    · rfl
  | cur => rfl
  | ign => exact sigaddset_ne cur hne
  | fn f => exact sigaddset_ne cur hne

/-- `gallus_signal` never takes `SIGUSR2` out of the set. -/
theorem newSet_usr2 {cur : Nat → Bool} (signum : Nat) (new : Handler η)
    (h : cur sigusr2 = true) : newSet cur signum new sigusr2 = true := by
  by_cases hsig : signum = sigusr2
  · subst hsig
    cases new with
    | dfl => simpa [newSet] using h
    | cur => exact h
    | ign => exact sigaddset_usr2 cur
    | fn f => exact sigaddset_usr2 cur
  · rw [newSet_ne cur (Ne.symm hsig), h]

variable {s s' : State ι η}

/-! ## Steps of the thread -/

/-- With no call in progress but the finalizer's wait, nobody has the lock, and what is noticed is
pending. -/
theorem Inv.idle (h : Inv s) (hidle : ∀ i, s.callers i = .idle ∨ s.callers i = .finalWaiting) :
    s.lock = none ∧ (Noticed s → s.pending sigusr2 = true) := by
  constructor
  · refine Option.eq_none_iff_forall_ne_some.mpr fun i => ?_
    have := h.callers i
    rcases hidle i with hi | hi <;> rw [hi] at this <;> exact this
  · rintro (hp | ⟨i, hi⟩)
    · exact hp
    · rcases hidle i with hpc | hpc <;> rw [hpc] at hi <;> cases hi

theorem Inv.main (h : Inv s) (hstep : mainStep s = some s') : Inv s' := by
  unfold mainStep at hstep
  cases hmain : s.main with
  | top =>
    rw [hmain] at hstep
    cases hstep
    by_cases hloop : s.shared.doLoop = true
    · simp only [if_pos hloop]
      refine ⟨h.callers, nofun, nofun, nofun, fun _ hstop => ?_⟩
      have hstop : s.shared.doLoop = false := hstop
      rw [hloop] at hstop
      cases hstop
    · simp only [if_neg hloop]
      exact ⟨h.callers, nofun, nofun, nofun, by rintro (⟨⟨⟩⟩ | ⟨⟨⟩⟩ | ⟨_, ⟨⟩⟩)⟩
  | enter =>
    rw [hmain] at hstep
    simp only [Option.isNone_iff_eq_none] at hstep
    split_ifs at hstep with hlock
    cases hstep
    refine ⟨fun i => (h.callers i).out ?_ ?_, ?_, nofun, nofun,
      fun _ hstop => h.stopped (.inl hmain) hstop⟩
    · rw [hlock]
      nofun
    · show s.lock ≠ some i
      rw [hlock]
      nofun
    · exact fun _ => sigaddset_usr2 s.shared.sigset
  | wait =>
    rw [hmain] at hstep
    cases hstep
    refine ⟨h.callers, nofun, ?_, ?_, fun _ hstop => h.stopped (.inr (.inl hmain)) hstop⟩
    · rintro _ ⟨⟩
      exact ⟨h.usr2 hmain, h.usr2 hmain⟩
    · rintro _ ⟨⟩ hne
      exact absurd rfl hne
  | waiting set =>
    rw [hmain] at hstep
    cases hstep
  | got sig =>
    rw [hmain] at hstep
    cases hstep
    exact ⟨h.callers, nofun, nofun, nofun, by rintro (⟨⟨⟩⟩ | ⟨⟨⟩⟩ | ⟨_, ⟨⟩⟩)⟩
  | done =>
    rw [hmain] at hstep
    cases hstep

theorem Inv.deliver {sig : Nat} (h : Inv s) (hstep : deliver s sig = some s') : Inv s' := by
  unfold Signal.deliver at hstep
  cases hmain : s.main with
  | waiting set =>
    rw [hmain] at hstep
    simp only at hstep
    split_ifs at hstep
    cases hstep
    exact ⟨h.callers, nofun, nofun, nofun, by rintro (⟨⟨⟩⟩ | ⟨⟨⟩⟩ | ⟨_, ⟨⟩⟩)⟩
  | _ => simp [hmain] at hstep

theorem Inv.post (h : Inv s) (sig : Nat) :
    Inv { s with pending := Function.update s.pending sig true } := by
  have hnoticed : Noticed s →
      Noticed { s with pending := Function.update s.pending sig true } := by
    rintro (hp | hn)
    · refine .inl ?_
      show Function.update s.pending sig true sigusr2 = true
      by_cases hsig : sigusr2 = sig
      · subst hsig
        exact Function.update_self ..
      · rw [Function.update_of_ne hsig]
        exact hp
    · exact .inr hn
  exact ⟨h.callers, h.usr2, h.waitSet, fun set hmain hne => hnoticed (h.stale set hmain hne),
    fun hmain hstop => hnoticed (h.stopped hmain hstop)⟩

/-! ## Steps of the callers -/

variable [DecidableEq ι]

theorem Noticed.update {i : ι} {pc : Caller η} {callers : ι → Caller η} {pending : Nat → Bool}
    (h : pending sigusr2 = true ∨ ∃ j, willNotify (callers j) = true)
    (hpc : willNotify (callers i) = true → willNotify pc = true) :
    pending sigusr2 = true ∨ ∃ j, willNotify (Function.update callers i pc j) = true := by
  rcases h with h | ⟨j, hj⟩
  · exact .inl h
  · refine .inr ⟨j, ?_⟩
    by_cases hji : j = i
    · subst hji
      rw [Function.update_self]
      exact hpc hj
    · rw [Function.update_of_ne hji]
      exact hj

/-- What the others may rely on when one caller takes a step. -/
theorem callers_update {r r' : Record η} {lock lock' : Option ι} {i : ι} {pc : Caller η}
    {callers : ι → Caller η} (h : ∀ j, CallerOk r lock j (callers j))
    (hpc : CallerOk r' lock' i pc)
    (hothers : (lock' = lock ∧ r'.sigset = r.sigset) ∨
      ((lock = none ∨ lock = some i) ∧ (lock' = none ∨ lock' = some i))) (j : ι) :
    CallerOk r' lock' j (Function.update callers i pc j) := by
  by_cases hji : j = i
  · subst hji
    rw [Function.update_self]
    exact hpc
  · rw [Function.update_of_ne hji]
    rcases hothers with ⟨rfl, hset⟩ | ⟨hlock, hlock'⟩
    · exact (h j).congr hset
    · refine (h j).out ?_ ?_
      · rcases hlock with rfl | rfl
        · nofun
        · exact fun heq => hji (Option.some.inj heq).symm
      · rcases hlock' with rfl | rfl
        · nofun
        · exact fun heq => hji (Option.some.inj heq).symm

/-- A step that changes neither what is shared nor what the thread does. -/
theorem Inv.callers_only (h : Inv s) {i : ι} {pc : Caller η} {lock : Option ι}
    {shared : Record η} {pending : Nat → Bool} {thread : Bool} {final : Option Bool}
    {returned : List (Returned η)}
    (hset : shared.sigset = s.shared.sigset) (hloop : shared.doLoop = s.shared.doLoop)
    (hcallers : ∀ j, CallerOk shared lock j (Function.update s.callers i pc j))
    (hnoticed : Noticed s →
      pending sigusr2 = true ∨ ∃ j, willNotify (Function.update s.callers i pc j) = true) :
    Inv { s with
      shared := shared
      lock := lock
      callers := Function.update s.callers i pc
      pending := pending
      thread := thread
      final := final
      returned := returned } where
  callers := hcallers
  usr2 hmain := (congrFun hset sigusr2).trans (h.usr2 hmain)
  waitSet set hmain :=
    ⟨(h.waitSet set hmain).1, (congrFun hset sigusr2).trans (h.waitSet set hmain).2⟩
  stale set hmain hne := hnoticed (h.stale set hmain fun heq => hne (heq.trans hset.symm))
  stopped hmain hstop := hnoticed (h.stopped hmain (hloop.symm.trans hstop))

theorem Inv.caller {i : ι} (h : Inv s) (hstep : callerStep s i = some s') : Inv s' := by
  have hi := h.callers i
  unfold callerStep at hstep
  cases hpc : s.callers i with
  | idle =>
    rw [hpc] at hstep
    cases hstep
  | read c cur old =>
    rw [hpc] at hstep hi
    obtain ⟨hlock, rfl⟩ := hi
    have hnoticed : ∀ pc : Caller η, Noticed s → s.pending sigusr2 = true ∨
        ∃ j, willNotify (Function.update s.callers i pc j) = true := fun pc hn =>
      Noticed.update hn fun hw => by
        rw [hpc] at hw
        cases hw
    obtain ⟨signum, new⟩ := c
    have hothers : ∀ {lock' : Option ι} {r' : Record η}, lock' = s.lock →
        (lock' = s.lock ∧ r'.sigset = s.shared.sigset) ∨
        ((s.lock = none ∨ s.lock = some i) ∧ (lock' = none ∨ lock' = some i)) :=
      fun h' => .inr ⟨.inr hlock, .inr (h'.trans hlock)⟩
    cases hstep
    refine h.callers_only rfl rfl (callers_update h.callers ?_ (hothers rfl)) (hnoticed _)
    cases new with
    | cur => exact hlock
    | dfl => exact ⟨hlock, newSet_usr2 signum .dfl⟩
    | ign => exact ⟨hlock, newSet_usr2 signum .ign⟩
    | fn f => exact ⟨hlock, newSet_usr2 signum (.fn f)⟩
  | switched c set old =>
    rw [hpc] at hstep hi
    obtain ⟨hlock, hset⟩ := hi
    cases hstep
    have hnoticed : Noticed (η := η) { s with
        shared := { s.shared with sigset := set }
        callers := Function.update s.callers i (.assigned c old) } :=
      .inr ⟨i, by simp [willNotify]⟩
    constructor
    · exact callers_update h.callers hlock (.inr ⟨.inr hlock, .inr hlock⟩)
    · exact fun hmain => hset (h.usr2 hmain)
    · exact fun set hmain => ⟨(h.waitSet set hmain).1, hset (h.waitSet set hmain).2⟩
    · exact fun _ _ _ => hnoticed
    · exact fun _ _ => hnoticed
  | assigned c old =>
    rw [hpc] at hstep hi
    cases hstep
    exact h.callers_only rfl rfl (callers_update h.callers hi (.inl ⟨rfl, rfl⟩))
      fun _ => .inl (Function.update_self ..)
  | ready c old =>
    rw [hpc] at hstep hi
    cases hstep
    refine h.callers_only rfl rfl (callers_update h.callers nofun
      (.inr ⟨.inr hi, .inl rfl⟩)) fun hn => Noticed.update hn fun hw => ?_
    rw [hpc] at hw
    cases hw
  | finalIgnored =>
    rw [hpc] at hstep
    simp only [Option.isNone_iff_eq_none] at hstep
    split_ifs at hstep with hlock
    cases hstep
    exact h.callers_only rfl rfl (callers_update h.callers rfl
      (.inr ⟨.inl hlock, .inr rfl⟩)) fun hn => Noticed.update hn fun _ => rfl
  | finalLocked =>
    rw [hpc] at hstep hi
    cases hstep
    have hnoticed : Noticed (η := η) { s with
        shared := { s.shared with doLoop := false }
        callers := Function.update s.callers i .finalStopped } :=
      .inr ⟨i, by simp [willNotify]⟩
    constructor
    · exact callers_update h.callers hi (.inl ⟨rfl, rfl⟩)
    · exact h.usr2
    · exact h.waitSet
    · exact fun _ _ _ => hnoticed
    · exact fun _ _ => hnoticed
  | finalStopped =>
    rw [hpc] at hstep hi
    cases hstep
    exact h.callers_only rfl rfl (callers_update h.callers nofun
      (.inr ⟨.inr hi, .inl rfl⟩)) fun hn => Noticed.update hn fun _ => rfl
  | finalUnlocked =>
    rw [hpc] at hstep hi
    cases hstep
    refine h.callers_only rfl rfl (callers_update h.callers ?_ (.inl ⟨rfl, rfl⟩))
      fun _ => .inl (Function.update_self ..)
    split_ifs <;> exact hi
  | finalWaiting =>
    rw [hpc] at hstep hi
    simp only [Option.isNone_iff_eq_none] at hstep
    split at hstep
    · split_ifs at hstep
      cases hstep
      refine h.callers_only rfl rfl (callers_update h.callers hi (.inl ⟨rfl, rfl⟩))
        fun hn => Noticed.update hn fun hw => ?_
      rw [hpc] at hw
      cases hw
    · cases hstep

theorem Inv.begin {i : ι} {c : Call η} (h : Inv s) (hstep : begin s i c = some s') : Inv s' := by
  unfold Signal.begin at hstep
  cases hpc : s.callers i with
  | idle =>
    rw [hpc] at hstep
    simp only [Option.isNone_iff_eq_none] at hstep
    split_ifs at hstep with hthread hvalid hlock
    · cases hstep
      refine h.callers_only rfl rfl (callers_update h.callers ⟨rfl, rfl⟩
        (.inr ⟨.inl hlock, .inr rfl⟩)) fun hn => Noticed.update hn fun hw => ?_
      rw [hpc] at hw
      cases hw
    all_goals
      cases hstep
      exact ⟨h.callers, h.usr2, h.waitSet, h.stale, h.stopped⟩
  | _ => simp [hpc] at hstep

theorem Inv.final {i : ι} {own : Bool} (h : Inv s) (hstep : beginFinal s i own = some s') :
    Inv s' := by
  have hi := h.callers i
  unfold beginFinal at hstep
  split at hstep
  · next hpc _ =>
    rw [hpc] at hi
    cases hstep
    exact h.callers_only rfl rfl (callers_update h.callers hi (.inl ⟨rfl, rfl⟩))
      fun _ => .inr ⟨i, by simp [willNotify]⟩
  · cases hstep

theorem step_inv {e : Event ι η} (h : Inv s) (hstep : step s e = some s') : Inv s' := by
  cases e with
  | call i c => exact h.begin hstep
  | final i own => exact h.final hstep
  | caller i => exact h.caller hstep
  | main => exact h.main hstep
  | deliver sig => exact h.deliver hstep
  | post sig =>
    cases hstep
    exact h.post sig

/-! ## Runs -/

theorem run_inv {es : List (Event ι η)} (hrun : Trans.run step (init ι η) es = some s) : Inv s :=
  (Trans.Run.all_iff.mpr hrun).inv (fun _ _ _ h _ hstep => step_inv h hstep) init_inv

/-- The events of the thread. -/
def isMain : Event ι η → Bool
  | .main | .deliver _ => true
  | .call _ _ | .final _ _ | .caller _ | .post _ => false

/-- How many steps the thread is from its end, if it has been stopped. -/
def rank : Main → Nat
  | .done => 0
  | .top => 1
  | .got _ => 2
  | .waiting _ => 3
  | .wait => 4
  | .enter => 5

/-- What a step of the thread leaves, once it has been stopped. -/
theorem main_rank {e : Event ι η} (hmain : isMain e = true) (hstop : s.shared.doLoop = false)
    (hstep : step s e = some s') :
    rank s'.main < rank s.main ∧ s'.shared.doLoop = false ∧ s'.callers = s.callers := by
  cases e with
  | main =>
    simp only [step, mainStep] at hstep
    cases hpc : s.main with
    | top =>
      rw [hpc] at hstep
      cases hstep
      simp [hstop, rank]
    | enter =>
      rw [hpc] at hstep
      simp only at hstep
      split_ifs at hstep
      cases hstep
      exact ⟨by simp [rank], hstop, rfl⟩
    | wait =>
      rw [hpc] at hstep
      cases hstep
      exact ⟨by simp [rank], hstop, rfl⟩
    | got sig =>
      rw [hpc] at hstep
      cases hstep
      exact ⟨by simp [rank], hstop, rfl⟩
    | waiting set => simp [hpc] at hstep
    | done => simp [hpc] at hstep
  | deliver sig =>
    simp only [step, deliver] at hstep
    cases hpc : s.main with
    | waiting set =>
      rw [hpc] at hstep
      simp only at hstep
      split_ifs at hstep
      cases hstep
      exact ⟨by simp [rank], hstop, rfl⟩
    | _ => simp [hpc] at hstep
  | call i c => cases hmain
  | final i own => cases hmain
  | caller i => cases hmain
  | post sig => cases hmain

/-- Once it has been stopped, the thread is at its end or can go on. -/
theorem Inv.main_goes_on (h : Inv s)
    (hidle : ∀ i, s.callers i = .idle ∨ s.callers i = .finalWaiting)
    (hstop : s.shared.doLoop = false) :
    s.main = .done ∨ ∃ e, isMain e = true ∧ step s e ≠ none := by
  obtain ⟨hlock, hpending⟩ := h.idle hidle
  cases hpc : s.main with
  | done => exact .inl rfl
  | top => exact .inr ⟨.main, rfl, by simp [step, mainStep, hpc]⟩
  | enter => exact .inr ⟨.main, rfl, by simp [step, mainStep, hpc, hlock]⟩
  | wait => exact .inr ⟨.main, rfl, by simp [step, mainStep, hpc]⟩
  | got sig => exact .inr ⟨.main, rfl, by simp [step, mainStep, hpc]⟩
  | waiting set =>
    have hp := hpending (h.stopped (.inr (.inr ⟨set, hpc⟩)) hstop)
    exact .inr ⟨.deliver sigusr2, rfl, by
      simp [step, Signal.deliver, hpc, (h.waitSet set hpc).1, hp]⟩

/-- The thread by itself, once it has been stopped. -/
theorem main_ends (h : Inv s) (hidle : ∀ i, s.callers i = .idle ∨ s.callers i = .finalWaiting)
    (hstop : s.shared.doLoop = false) {es : List (Event ι η)} (hes : ∀ e ∈ es, isMain e = true)
    (hrun : Trans.run step s es = some s') :
    es.length ≤ rank s.main ∧ (s'.main = .done ∨ ∃ e, isMain e = true ∧ step s' e ≠ none) := by
  induction es generalizing s with
  | nil =>
    cases hrun
    exact ⟨Nat.zero_le _, h.main_goes_on hidle hstop⟩
  | cons e es ih =>
    rw [Trans.run_cons, Option.bind_eq_some_iff] at hrun
    obtain ⟨s₁, hstep, hrun⟩ := hrun
    obtain ⟨hlt, hstop₁, hcallers⟩ := main_rank (hes e List.mem_cons_self) hstop hstep
    obtain ⟨hlen, hend⟩ := ih (step_inv h hstep) (fun i => hcallers ▸ hidle i)
      hstop₁ (fun e he => hes e (List.mem_cons_of_mem _ he)) hrun
    refine ⟨?_, hend⟩
    rw [List.length_cons]
    omega

/-- **The thread sleeps through no change.** However callers, signals and the thread interleave:
with no call in progress, the finalizer's wait for the thread aside, a thread that no pending signal
wakes waits for the set that is to be waited for, and it has not been stopped. When it has been
stopped it takes at most five more steps, and none of them waits for anybody else. -/
theorem never_asleep {es : List (Event ι η)} (hrun : Trans.run step (init ι η) es = some s)
    (hidle : ∀ i, s.callers i = .idle ∨ s.callers i = .finalWaiting) :
    (∀ set, s.main = .waiting set → (∀ sig, set sig = true → s.pending sig = false) →
      set = s.shared.sigset ∧ s.shared.doLoop = true) ∧
    (s.shared.doLoop = false → ∀ es' s', (∀ e ∈ es', isMain e = true) →
      Trans.run step s es' = some s' →
        es'.length ≤ 5 ∧ (s'.main = .done ∨ ∃ e, isMain e = true ∧ step s' e ≠ none)) := by
  have h := run_inv hrun
  obtain ⟨-, hpending⟩ := h.idle hidle
  refine ⟨fun set hmain hnone => ?_, fun hstop es' s' hes hrun' => ?_⟩
  · have hnot : ¬Noticed s := fun hn => by
      have := hnone sigusr2 (h.waitSet set hmain).1
      rw [hpending hn] at this
      cases this
    constructor
    · exact Classical.byContradiction fun hne => hnot (h.stale set hmain hne)
    · exact Bool.not_eq_false _ ▸ fun hstop => hnot (h.stopped (.inr (.inr ⟨set, hmain⟩)) hstop)
  · obtain ⟨hlen, hend⟩ := main_ends h hidle hstop hes hrun'
    refine ⟨Nat.le_trans hlen ?_, hend⟩
    cases s.main <;> exact Nat.le_of_ble_eq_true rfl

/-- A handler is set while the thread waits; it is woken, and waits again. -/
def setHandler : List (Event (Fin 1) Nat) :=
  [.main, .main, .main, .call 0 ⟨10, .fn 7⟩, .caller 0, .caller 0, .caller 0, .caller 0,
    .deliver sigusr2, .main, .main, .main, .main]

theorem never_asleep_setHandler :
    ∃ s set, Trans.run step (init (Fin 1) Nat) setHandler = some s ∧ s.main = .waiting set ∧
      set = s.shared.sigset ∧ set 10 = true := by
  obtain ⟨s, set, hrun, hmain, hidle, hpending, hset⟩ :
      ∃ s set, Trans.run step (init (Fin 1) Nat) setHandler = some s ∧ s.main = .waiting set ∧
        s.callers 0 = .idle ∧
        s.pending = Function.update (Function.update (fun _ => false) sigusr2 true) sigusr2 false ∧
        set 10 = true := ⟨_, _, rfl, rfl, rfl, rfl, rfl⟩
  have hall : ∀ i, s.callers i = .idle ∨ s.callers i = .finalWaiting := fun i =>
    Subsingleton.elim 0 i ▸ .inl hidle
  have hnone : ∀ sig, set sig = true → s.pending sig = false := by
    intro sig _
    rw [hpending]
    by_cases hsig : sig = sigusr2 <;> simp [Function.update, hsig]
  exact ⟨s, set, hrun, hmain, ((never_asleep hrun hall).1 set hmain hnone).1, hset⟩

end Signal
end Gallus
