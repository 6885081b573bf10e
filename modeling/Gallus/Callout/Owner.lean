import Gallus.Callout.Roles

/-!
# Who destroys a task

While a task is not deleted, its two counters count the calls with the roles, a task that was
submitted is in some place or somebody will destroy it, and a canceller that sleeps will be
notified.

* `Live t s`: this, and that the state words fit the place of the task.
* `Turn`: what a step does to the counters and the roles. `Live.after`: what it has to show.
* `cancelStep_live`, `execStep_live`: the steps of the cancellers and of the executor.
-/

namespace Gallus
namespace Callout

variable {ι θ : Type} [DecidableEq ι] [DecidableEq θ]

/-! ## A task that is not deleted -/

/-- The task is not deleted. -/
structure Live (t : ι) (s : System ι θ) : Prop where
  status : (s.w.task t).status ≠ .deleting
  listed : (s.hist t).created = true → s.w.tskTbl t ≠ none
  freed : (s.hist t).freed = 0
  destroyed : (s.hist t).destroyed = false
  unfreed : ¬ Has Role.isFreeing t s
  since : ∀ th n, .cancel t (.asleep n) ∈ s.stack th → n ≤ s.condTask t
  cancels : ∃ n, HasCount Role.isCounted t s n ∧ (s.w.task t).cancelRefCount = sizeT n
  execs : ∃ n, HasCount Role.executes t s n ∧ n ≤ (s.w.task t).execRefCount ∧
    (s.w.task t).execRefCount ≤ 1 ∧
    ((s.w.task t).execRefCount ≤ n ∨ Has Role.isDestroying t s)
  fit : Fit t s
  /-- Nobody has found an unsubmitted task in another state. -/
  asked : s.w.tskTbl t = some .created → ∀ th st,
    (.cancel t (.readExec st) ∈ s.stack th → st = .created) ∧ .cancel t (.mark st) ∉ s.stack th
  /-- A submitted task is somewhere, or somebody destroys it. -/
  found : (s.hist t).created = true → s.w.tskTbl t ≠ some .created →
    Somewhere t s ∨ Has Role.closes t s
  /-- The cancellers that sleep are notified, at the latest at the end of the next execution. -/
  awake : Has Role.isLeaving t s ∨ Sleeper t s → Somewhere t s ∨ Has Role.works t s

variable {t e : ι} {p : Place θ} {s s' s₁ : System ι θ} {th : θ} {now : Chrono}
  {f : Frame ι} {fs gs l : List (Frame ι)}

omit [DecidableEq θ] in
/-- A task that is executed, or has a canceller asleep, is somewhere, or somebody will notify. -/
theorem Live.served (h : Live t s)
    (hwho : (s.w.task t).execRefCount ≠ 0 ∨ Has Role.isLeaving t s ∨ Sleeper t s) :
    Somewhere t s ∨ Has Role.works t s := by
  rcases hwho with hexec | hwho
  · obtain ⟨n, hn, -, -, hle | hdestroys⟩ := h.execs
    · obtain ⟨th, r, hr, hP⟩ := hn.has (by omega)
      obtain ⟨f, hf, rfl⟩ := List.mem_map.mp hr
      cases hrole : f.role t with
      | runs =>
        left
        refine .inr (.inr (.inr (.inr ⟨th, ?_⟩)))
        by_contra hzero
        have := count_of_held (Nat.eq_zero_of_not_pos hzero) hf
        have := count_of_runs hrole
        omega
      | leaves => exact h.awake (.inl ⟨th, _, hr, by simp [hrole, Role.isLeaving]⟩)
      | wakes | ends => exact .inr ⟨th, _, hr, by simp [hrole, Role.works]⟩
      | none | asks | counted | destroys | frees => simp [hrole, Role.executes] at hP
    · exact .inr (hdestroys.imp (by simp +contextual [Role.isDestroying, Role.works]))
  · exact h.awake hwho

/-! ## Turns -/

/-- What a step does to the counters and the roles, with `gs` in the place of `l`. -/
structure Turn (t : ι) (l gs : List (Frame ι)) (s s' : System ι θ) : Prop where
  created : (s'.hist t).created = (s.hist t).created
  freed : (s'.hist t).freed = (s.hist t).freed
  destroyed : (s'.hist t).destroyed = (s.hist t).destroyed
  status : (s.w.task t).status ≠ .deleting → (s'.w.task t).status ≠ .deleting
  listed : s.w.tskTbl t ≠ none → s'.w.tskTbl t ≠ none
  unfreed : ∀ r ∈ roles t gs, r ≠ .frees
  cancels : ∀ n : Nat,
    (s.w.task t).cancelRefCount = sizeT (n + (roles t l).countP Role.isCounted : Nat) →
    (s'.w.task t).cancelRefCount = sizeT (n + (roles t gs).countP Role.isCounted : Nat)
  execs : ∀ n, n + (roles t l).countP Role.executes ≤ (s.w.task t).execRefCount →
    (s.w.task t).execRefCount ≤ 1 →
    n + (roles t gs).countP Role.executes ≤ (s'.w.task t).execRefCount ∧
      (s'.w.task t).execRefCount ≤ 1 ∧
      ((s.w.task t).execRefCount ≤ n + (roles t l).countP Role.executes →
        (s'.w.task t).execRefCount ≤ n + (roles t gs).countP Role.executes ∨
          .destroys ∈ roles t gs)
  destroying : .destroys ∈ roles t l → .destroys ∈ roles t gs
  fresh : s'.w.tskTbl t = some .created → s.w.tskTbl t = some .created
  asked : s'.w.tskTbl t = some .created → ∀ st,
    (.cancel t (.readExec st) ∈ gs → st = .created) ∧ .cancel t (.mark st) ∉ gs
  serves : Serves t l s s' gs

/-- The system after a turn is live, if the task is still where it can be found. -/
theorem Live.after (h : Live t s) (hs : s.stack th = l ++ fs) (ht : Turn t l gs s s')
    (hfit : Fit t (s.after s' th now (gs ++ fs)))
    (hfound : (s.hist t).created = true → s'.w.tskTbl t ≠ some .created →
      Somewhere t (s.after s' th now (gs ++ fs)) ∨
        Has Role.closes t (s.after s' th now (gs ++ fs)))
    (hawake : Has Role.isLeaving t (s.after s' th now (gs ++ fs)) ∨
        Sleeper t (s.after s' th now (gs ++ fs)) →
      Somewhere t (s.after s' th now (gs ++ fs)) ∨
        Has Role.works t (s.after s' th now (gs ++ fs))) :
    Live t (s.after s' th now (gs ++ fs)) where
  status := ht.status h.status
  listed hc := ht.listed (h.listed (ht.created ▸ hc))
  freed := ht.freed.trans h.freed
  destroyed := ht.destroyed.trans h.destroyed
  unfreed hhas := by
    rcases hhas.before hs with ⟨r, hr, hP⟩ | hold
    · exact ht.unfreed r hr (by simpa [Role.isFreeing] using hP)
    · exact h.unfreed hold
  since th' n hn := by
    by_cases hth : th' = th
    · subst hth
      simp only [System.after, Function.update_self, List.mem_append] at hn
      rcases hn with hn | hn
      · exact (ht.serves.asleep n hn).1.le.trans ht.serves.cond
      · exact (h.since th' n (hs ▸ List.mem_append_right _ hn)).trans ht.serves.cond
    · simp only [System.after, ne_eq, hth, not_false_eq_true, Function.update_of_ne] at hn
      exact (h.since th' n hn).trans ht.serves.cond
  cancels := by
    obtain ⟨n, hn, hcount⟩ := h.cancels
    obtain ⟨m, hm, hsum⟩ : ∃ m, HasCount Role.isCounted t (s.after s' th now (gs ++ fs)) m ∧ _ :=
      hn.after hs
    have hle := hn.le th
    simp only [hs, roles_append, List.countP_append] at hle
    obtain ⟨k, rfl⟩ : ∃ k, n = k + (roles t l).countP Role.isCounted :=
      ⟨n - (roles t l).countP Role.isCounted, by omega⟩
    refine ⟨m, hm, ?_⟩
    rw [show m = k + (roles t gs).countP Role.isCounted by omega]
    exact ht.cancels k hcount
  execs := by
    obtain ⟨n, hn, hlo, hone, hhi⟩ := h.execs
    obtain ⟨m, hm, hsum⟩ : ∃ m, HasCount Role.executes t (s.after s' th now (gs ++ fs)) m ∧ _ :=
      hn.after hs
    have hle := hn.le th
    simp only [hs, roles_append, List.countP_append] at hle
    obtain ⟨k, rfl⟩ : ∃ k, n = k + (roles t l).countP Role.executes :=
      ⟨n - (roles t l).countP Role.executes, by omega⟩
    obtain rfl : m = k + (roles t gs).countP Role.executes := by omega
    obtain ⟨hlo', hone', hhi'⟩ := ht.execs k hlo hone
    have hnew : .destroys ∈ roles t gs →
        Has Role.isDestroying t (s.after s' th now (gs ++ fs)) := fun hd =>
      .of_new ⟨_, hd, rfl⟩
    refine ⟨_, hm, hlo', hone', ?_⟩
    rcases hhi with hhi | hdestroys
    · exact (hhi' hhi).imp id hnew
    · right
      refine hdestroys.after hs ?_
      rintro ⟨r, hr, hP⟩
      obtain rfl : r = .destroys := by simpa [Role.isDestroying] using hP
      exact hnew (ht.destroying hr)
  fit := hfit
  asked hc th' st := by
    obtain ⟨hread, hmark⟩ := h.asked (ht.fresh hc) th' st
    obtain ⟨hread', hmark'⟩ := ht.asked hc st
    by_cases hth : th' = th
    · subst hth
      have hmem : ∀ g ∈ fs, g ∈ s.stack th' := fun g hg => hs ▸ List.mem_append_right _ hg
      simp only [System.after, Function.update_self, List.mem_append]
      exact ⟨fun hg => hg.elim hread' fun hg => hread (hmem _ hg),
        fun hg => hg.elim hmark' fun hg => hmark (hmem _ hg)⟩
    · simp only [System.after, ne_eq, hth, not_false_eq_true, Function.update_of_ne]
      exact ⟨hread, hmark⟩
  found hc := hfound (ht.created ▸ hc)
  awake := hawake

/-- A task that stays in its place is found there. -/
theorem Somewhere.same (h : Somewhere t s) (hs : s.stack th = l ++ fs)
    (hq : SameQueues t s s') (hheld : held t l ≤ held t gs) :
    Somewhere t (s.after s' th now (gs ++ fs)) := by
  refine h.after ?_ ?_ ?_ (fun i => ?_) (.inl ?_)
  · rw [hq.urgent]
    omega
  · rw [hq.idle]
    omega
  · rw [hq.timed]
    omega
  · rw [hq.queue i]
    omega
  · rw [hs, held_append, held_append]
    omega

theorem Live.found_after (h : Live t s) (hs : s.stack th = l ++ fs)
    (htbl : s.w.tskTbl t = some .created → s'.w.tskTbl t = some .created)
    (hsome : Somewhere t s → Somewhere t (s.after s' th now (gs ++ fs)) ∨
      Has Role.closes t (s.after s' th now (gs ++ fs)))
    (hpop : (∃ r ∈ roles t l, r.closes = true) →
      Has Role.closes t (s.after s' th now (gs ++ fs)))
    (hborn : (s.hist t).created = true) (hsub : s'.w.tskTbl t ≠ some .created) :
    Somewhere t (s.after s' th now (gs ++ fs)) ∨
      Has Role.closes t (s.after s' th now (gs ++ fs)) := by
  rcases h.found hborn fun hc => hsub (htbl hc) with hplace | hcloses
  · exact hsome hplace
  · exact .inr (hcloses.after hs hpop)

theorem Live.awake_after (h : Live t s) (hs : s.stack th = l ++ fs)
    (hserves : Serves t l s s' gs) (hnew : .leaves ∉ roles t gs)
    (hasleep : ∀ n, .cancel t (.asleep n) ∈ gs → (s.w.task t).execRefCount ≠ 0)
    (hsome : Somewhere t s → Somewhere t (s.after s' th now (gs ++ fs)) ∨
      Has Role.works t (s.after s' th now (gs ++ fs)))
    (hpop : (∃ r ∈ roles t l, r.works = true) →
      Has Role.works t (s.after s' th now (gs ++ fs)))
    (hwho : Has Role.isLeaving t (s.after s' th now (gs ++ fs)) ∨
      Sleeper t (s.after s' th now (gs ++ fs))) :
    Somewhere t (s.after s' th now (gs ++ fs)) ∨
      Has Role.works t (s.after s' th now (gs ++ fs)) := by
  have hold : (s.w.task t).execRefCount ≠ 0 ∨ Has Role.isLeaving t s ∨ Sleeper t s := by
    rcases hwho with hleaves | ⟨th', g, hg, hsleep⟩
    · rcases hleaves.before hs with ⟨r, hr, hP⟩ | hleaves
      · obtain rfl : r = .leaves := by simpa [Role.isLeaving] using hP
        exact absurd hr hnew
      · exact .inr (.inl hleaves)
    · obtain ⟨n, rfl, hle⟩ := Frame.sleeps_iff.mp hsleep
      have hsleeps : ∀ th', .cancel t (.asleep n) ∈ s.stack th' → Sleeper t s := fun th' hn =>
        ⟨th', _, hn, Frame.sleeps_iff.mpr ⟨n, rfl, hserves.cond.trans hle⟩⟩
      by_cases hth : th' = th
      · subst hth
        simp only [System.after, Function.update_self, List.mem_append] at hg
        rcases hg with hg | hg
        · exact .inl (hasleep n hg)
        · exact .inr (.inr (hsleeps th' (hs ▸ List.mem_append_right _ hg)))
      · simp only [System.after, ne_eq, hth, not_false_eq_true, Function.update_of_ne] at hg
        exact .inr (.inr (hsleeps th' hg))
  rcases h.served hold with hplace | hworks
  · exact hsome hplace
  · exact .inr (hworks.after hs hpop)

/-- Somebody destroys the task after the step. -/
theorem Live.closing_after (h : Live t s) (hs : s.stack th = l ++ fs)
    (ht : Turn t l gs s s') (hfit : Fit t (s.after s' th now (gs ++ fs)))
    (hgs : .ends ∈ roles t gs ∨ .destroys ∈ roles t gs) :
    Live t (s.after s' th now (gs ++ fs)) := by
  have hhas : ∀ {P : Role → Bool}, P .ends = true → P .destroys = true →
      Has P t (s.after s' th now (gs ++ fs)) := fun hends hdestroys =>
    hgs.elim (fun hg => .of_new ⟨_, hg, hends⟩) fun hg => .of_new ⟨_, hg, hdestroys⟩
  exact h.after hs ht hfit (fun _ _ => .inr (hhas rfl rfl)) fun _ => .inr (hhas rfl rfl)

/-- The task stays where it is, and nobody who destroys it goes. -/
theorem Live.keep_after (h : Live t s) (hs : s.stack th = l ++ fs)
    (ht : Turn t l gs s s') (hfit : Fit t (s.after s' th now (gs ++ fs)))
    (hq : SameQueues t s s') (hheld : held t l ≤ held t gs)
    (htbl : s.w.tskTbl t = some .created → s'.w.tskTbl t = some .created)
    (hpop : ∀ r ∈ roles t l, r.closes = false ∧ r.works = false)
    (hleaves : .leaves ∉ roles t gs) (hasleep : ∀ n, .cancel t (.asleep n) ∉ gs) :
    Live t (s.after s' th now (gs ++ fs)) := by
  have hsome : Somewhere t s → Somewhere t (s.after s' th now (gs ++ fs)) := fun hplace =>
    hplace.same hs hq hheld
  refine h.after hs ht hfit (h.found_after hs htbl (.inl ∘ hsome) ?_)
    (h.awake_after hs ht.serves hleaves (fun n hn => absurd hn (hasleep n)) (.inl ∘ hsome) ?_)
  · rintro ⟨r, hr, hP⟩
    rw [(hpop r hr).1] at hP
    contradiction
  · rintro ⟨r, hr, hP⟩
    rw [(hpop r hr).2] at hP
    contradiction

/-! ## Cancellations -/

theorem addCount_one (n : Nat) : addCount (sizeT n) 1 = sizeT (n + 1 : Nat) := by
  unfold addCount sizeT
  omega

theorem addCount_neg_one (n : Nat) : addCount (sizeT (n + 1 : Nat)) (-1) = sizeT n := by
  unfold addCount sizeT
  omega

omit [DecidableEq θ] in
/-- The roles and the counters are as before. -/
theorem Turn.of_same (hserves : Serves t l s s' gs) (hhist : s'.hist t = s.hist t)
    (htask : s'.w.task t = s.w.task t) (htbl : s'.w.tskTbl t = s.w.tskTbl t)
    (hcancels : (roles t gs).countP Role.isCounted = (roles t l).countP Role.isCounted)
    (hexecs : (roles t gs).countP Role.executes = (roles t l).countP Role.executes)
    (hunfreed : ∀ r ∈ roles t gs, r ≠ .frees)
    (hdestroying : .destroys ∈ roles t l → .destroys ∈ roles t gs)
    (hasked : s.w.tskTbl t = some .created → ∀ st,
      (.cancel t (.readExec st) ∈ gs → st = .created) ∧ .cancel t (.mark st) ∉ gs) :
    Turn t l gs s s' where
  created := congrArg History.created hhist
  freed := congrArg History.freed hhist
  destroyed := congrArg History.destroyed hhist
  status := by
    rw [htask]
    exact id
  listed := by
    rw [htbl]
    exact id
  unfreed := hunfreed
  cancels n := by
    rw [htask, hcancels]
    exact id
  execs n hlo hone := by
    rw [htask, hexecs]
    exact ⟨hlo, hone, .inl⟩
  destroying := hdestroying
  fresh := by
    rw [htbl]
    exact id
  asked := by
    rw [htbl]
    exact hasked
  serves := hserves

omit [DecidableEq θ] in
/-- A canceller that is counted. -/
theorem Live.counted (h : Live t s) (hcancel : (s.w.task t).cancelRefCount ≠ 0) :
    Has Role.isCounted t s := by
  obtain ⟨n, hn, hsize⟩ := h.cancels
  refine hn.has (Nat.pos_of_ne_zero ?_)
  rintro rfl
  exact hcancel (by simpa [sizeT] using hsize)

theorem cancelStep_turn {q : CancelPoint} (h : Live t s) (hs : s.stack th = .cancel t q :: fs)
    (hr : cancelStep s th t q = some (s', gs)) : Turn t [.cancel t q] gs s s' := by
  have hserves := cancelStep_serves hr
  have hq : .cancel t q ∈ s.stack th := hs ▸ List.mem_cons_self
  cases q <;> simp only [cancelStep] at hr
  case asleep => contradiction
  case check =>
    split_ifs at hr <;> cases hr <;>
      refine .of_same hserves rfl rfl rfl ?_ ?_ ?_ ?_ ?_ <;>
      simp +contextual [CancelPoint.role, Role.isCounted, Role.executes, getStateInTable]
  case readExec st =>
    split_ifs at hr with hexec hst <;> cases hr <;>
      refine .of_same hserves rfl rfl rfl ?_ ?_ ?_ ?_ ?_ <;>
      simp [CancelPoint.role, Role.isCounted, Role.executes]
    intro hc
    obtain rfl := (h.asked hc th st).1 hq
    simp at hst
  case wait =>
    split_ifs at hr <;> cases hr <;>
      refine .of_same hserves rfl rfl rfl ?_ ?_ ?_ ?_ ?_ <;>
      simp [CancelPoint.role, Role.isCounted, Role.executes]
  case readStatus =>
    rw [if_neg h.status] at hr
    cases hr
    refine .of_same hserves rfl rfl rfl ?_ ?_ ?_ ?_ ?_ <;>
      simp [CancelPoint.role, Role.isCounted, Role.executes]
  case count =>
    cases hr
    refine ⟨rfl, rfl, rfl, by simp [addCancel, System.modTask], id, ?_, fun n hn => ?_, ?_, ?_, id,
      by simp, hserves⟩
    · simp [CancelPoint.role]
    · have hn' : (s.w.task t).cancelRefCount = sizeT n := by
        simpa [CancelPoint.role, Role.isCounted] using hn
      simpa [CancelPoint.role, Role.isCounted, addCancel, System.modTask, hn'] using addCount_one n
    · simp [CancelPoint.role, Role.executes, addCancel, System.modTask]
      omega
    · simp [CancelPoint.role]
  case uncount =>
    cases hr
    have hgs : ∀ g ∈ (if 0 < addCount (s.w.task t).cancelRefCount (-1) then []
        else [Frame.destroy t false .unsched]), g = .destroy t false .unsched := by
      split_ifs <;> simp
    have hroles : roles t (if 0 < addCount (s.w.task t).cancelRefCount (-1) then []
        else [Frame.destroy t false .unsched]) = [] ∨
        roles t (if 0 < addCount (s.w.task t).cancelRefCount (-1) then []
          else [Frame.destroy t false .unsched]) = [.destroys] := by
      split_ifs
      · exact .inl rfl
      · exact .inr (by simp [DestroyPoint.role])
    generalize (if 0 < addCount (s.w.task t).cancelRefCount (-1) then []
      else [Frame.destroy t false .unsched]) = gs at hserves hgs hroles ⊢
    refine ⟨rfl, rfl, rfl, by simp [addCancel, System.modTask], id, ?_, fun n hn => ?_, ?_, ?_, id,
      fun _ st => ⟨fun hg => ?_, fun hg => ?_⟩, hserves⟩
    · rcases hroles with hroles | hroles <;> simp [hroles]
    · have hn' : (s.w.task t).cancelRefCount = sizeT (n + 1 : Nat) := by
        simpa [CancelPoint.role, Role.isCounted] using hn
      have hzero : (roles t gs).countP Role.isCounted = 0 := by
        rcases hroles with hroles | hroles <;> simp [hroles, Role.isCounted]
      rw [hzero, Nat.add_zero, ← addCount_neg_one, ← hn']
      simp [addCancel, System.modTask]
    · rcases hroles with hroles | hroles <;>
        simp [hroles, CancelPoint.role, Role.executes, addCancel, System.modTask] <;> omega
    · simp [CancelPoint.role]
    · cases hgs _ hg
    · cases hgs _ hg
  case mark st =>
    split_ifs at hr <;> cases hr
    · refine ⟨?_, ?_, ?_, id, id, ?_, ?_, ?_, ?_, id, by simp, hserves⟩ <;>
        simp [System.note, CancelPoint.role, DestroyPoint.role, Role.isCounted, Role.executes]
      omega
    · refine ⟨?_, ?_, ?_, ?_, ?_, ?_, ?_, ?_, ?_, ?_, by simp, hserves⟩ <;>
        simp [setCancelled, System.note, CancelPoint.role, Role.isCounted, Role.executes, setState,
          setStateInTable, modTask]
      omega

theorem cancelStep_queues {q : CancelPoint} (hr : cancelStep s th t q = some (s', gs)) :
    SameQueues t s s' ∧ held t gs = 0 := by
  cases q <;> simp only [cancelStep] at hr
  case asleep => contradiction
  case count =>
    cases hr
    exact ⟨.modTask fun _ => rfl, rfl⟩
  case uncount =>
    cases hr
    exact ⟨.modTask fun _ => rfl, by split_ifs <;> rfl⟩
  case mark st =>
    have hset : SameQueues t s { s with w := s.w.setState t .cancelled } := .setState (by simp)
    split_ifs at hr <;> cases hr
    · exact ⟨.note fun _ => rfl, rfl⟩
    · exact ⟨hset.trans (.note fun _ => rfl), rfl⟩
  all_goals
    split_ifs at hr <;> cases hr
    all_goals exact ⟨.refl t s, rfl⟩

/-- The last canceller destroys the task, another one leaves that to the others. -/
theorem cancelStep_closes {q : CancelPoint} (h : Live t s) (hs : s.stack th = .cancel t q :: fs)
    (hq : q.role = .counted) (hr : cancelStep s th t q = some (s', gs)) :
    Has Role.closes t (s.after s' th now (gs ++ fs)) := by
  have hone : ∀ {g : Frame ι}, (g.role t).closes = true →
      Has Role.closes t (s.after s' th now ([g] ++ fs)) := fun hg =>
    .of_new ⟨_, by simp, hg⟩
  cases q <;> simp only [CancelPoint.role, reduceCtorEq] at hq <;> simp only [cancelStep] at hr
  case wait =>
    split_ifs at hr <;> cases hr
    · exact hone (by simp [CancelPoint.role, Role.closes])
    · exact hone (by simp [CancelPoint.role, Role.closes])
  case asleep => contradiction
  case readStatus =>
    rw [if_neg h.status] at hr
    cases hr
    exact hone (by simp [CancelPoint.role, Role.closes])
  case uncount =>
    cases hr
    split_ifs with hmore
    · obtain ⟨n, hn, hcount⟩ := h.cancels
      obtain ⟨m, hm, hsum⟩ : ∃ m, HasCount Role.isCounted t
          (s.after (addCancel s t (-1)) th now ([] ++ fs)) m ∧ _ := hn.after (l := [_]) hs
      simp only [roles_cons, roles_nil, role_cancel, CancelPoint.role, Role.isCounted, decide_true,
        List.countP_cons_of_pos, List.countP_nil, Nat.add_zero] at hsum
      rw [hcount, ← hsum, addCount_neg_one] at hmore
      have hpos : 0 < m := by
        by_contra hzero
        obtain rfl : m = 0 := by omega
        simp [sizeT] at hmore
      exact (hm.has hpos).imp (by simp +contextual [Role.isCounted, Role.closes])
    · exact hone (by simp [DestroyPoint.role, Role.closes])

theorem cancelStep_live {q : CancelPoint} (h : Live t s) (hs : s.stack th = .cancel t q :: fs)
    (hfit : Fit t (s.after s' th now (gs ++ fs))) (hr : cancelStep s th t q = some (s', gs)) :
    Live t (s.after s' th now (gs ++ fs)) := by
  have hs' : s.stack th = [.cancel t q] ++ fs := hs
  have hturn := cancelStep_turn h hs hr
  obtain ⟨hqueues, hheld⟩ := cancelStep_queues hr
  have hsome : Somewhere t s → Somewhere t (s.after s' th now (gs ++ fs)) := fun hplace =>
    hplace.same hs' hqueues (by simp [Frame.count])
  have hmem : Frame.cancel t q ∈ s.stack th := hs ▸ List.mem_cons_self
  refine h.after hs' hturn hfit (h.found_after hs' ?_ (.inl ∘ hsome) ?_)
    (h.awake_after hs' hturn.serves ?_ ?_ (.inl ∘ hsome) ?_)
  · intro hc
    cases q <;> simp only [cancelStep] at hr
    case asleep => contradiction
    case mark st => exact absurd hmem (h.asked hc th st).2
    case count | uncount =>
      cases hr
      exact hc
    all_goals
      split_ifs at hr <;> cases hr <;> exact hc
  · rintro ⟨r, hr', hP⟩
    rw [roles_cons, role_cancel, roles_nil, List.mem_singleton] at hr'
    subst hr'
    refine cancelStep_closes h hs ?_ hr
    cases q <;> simp_all [CancelPoint.role, Role.closes]
  · intro hleaves
    cases q <;> simp only [cancelStep] at hr
    case asleep => contradiction
    case count =>
      cases hr
      simp [CancelPoint.role] at hleaves
    case uncount =>
      cases hr
      split_ifs at hleaves <;> simp [DestroyPoint.role] at hleaves
    all_goals
      split_ifs at hr <;> cases hr <;>
        simp [CancelPoint.role, DestroyPoint.role] at hleaves
  · intro n hn
    cases q <;> simp only [cancelStep] at hr
    case asleep => contradiction
    case wait =>
      split_ifs at hr with hl hexec <;> cases hr
      · exact hexec
      · simp at hn
    case count =>
      cases hr
      simp at hn
    case uncount =>
      cases hr
      split_ifs at hn <;> simp at hn
    all_goals
      split_ifs at hr <;> cases hr <;> simp at hn
  · rintro ⟨r, hr', hP⟩
    rw [roles_cons, role_cancel, roles_nil, List.mem_singleton] at hr'
    subst hr'
    cases q <;> simp [CancelPoint.role, Role.works] at hP

/-! ## Executions -/

omit [DecidableEq ι] in
/-- An executor destroys a task that is ready and not `DEQUEUED`. -/
theorem Ready.other {w : Callout ι} (h : Ready t w) (hne : w.getStateInTable t ≠ .dequeued) :
    notTheDequeuedState t (w.getStateInTable t) = [.exec t .lockDelete] := by
  unfold getStateInTable at hne ⊢
  rcases h with htbl | htbl
  · simp [htbl] at hne
  · simp [htbl, notTheDequeuedState]

omit [DecidableEq θ] in
theorem execResched_hist (h : execResched s t now = (s', gs)) :
    (s'.hist t).created = (s.hist t).created ∧ (s'.hist t).freed = (s.hist t).freed ∧
      (s'.hist t).destroyed = (s.hist t).destroyed := by
  have hs : s' = (execResched s t now).1 := by rw [h]
  subst hs
  simp only [execResched, System.note, Function.update_self]
  unfold History.followed
  split <;> exact ⟨rfl, rfl, rfl⟩

theorem addCount_exec_neg_one : addCount 1 (-1) = 0 := by decide

omit [DecidableEq θ] in
/-- An executor counts itself off. -/
theorem Turn.countOff {s₂ : System ι θ} (hserves : Serves t l s s₂ gs)
    (hw : s₂.w = (addExec s t (-1)).w) (hhist : s₂.hist = s.hist)
    (hcancels : (roles t gs).countP Role.isCounted = (roles t l).countP Role.isCounted)
    (hpop : (roles t l).countP Role.executes = 1)
    (hexecs : (roles t gs).countP Role.executes = 0) (hunfreed : ∀ r ∈ roles t gs, r ≠ .frees)
    (hdestroying : .destroys ∉ roles t l) (hasked : ∀ q, .cancel t q ∉ gs) :
    Turn t l gs s s₂ where
  created := by rw [hhist]
  freed := by rw [hhist]
  destroyed := by rw [hhist]
  status := by
    rw [hw]
    simp [addExec, System.modTask]
  listed := by
    rw [hw]
    exact id
  unfreed := hunfreed
  cancels n := by
    rw [hw, hcancels]
    simp [addExec, System.modTask]
  execs n hlo hone := by
    rw [hpop] at hlo ⊢
    rw [hexecs, hw]
    have hexec : (s.w.task t).execRefCount = 1 := by omega
    have hzero : ((addExec s t (-1)).w.task t).execRefCount = 0 := by
      simp [addExec, System.modTask, hexec, addCount_exec_neg_one]
    rw [hzero]
    exact ⟨by omega, by omega, fun _ => .inl (by omega)⟩
  destroying hd := absurd hd hdestroying
  fresh := by
    rw [hw]
    exact id
  asked _ _ := ⟨fun hg => absurd hg (hasked _), hasked _⟩
  serves := hserves

theorem execStep_turn {q : ExecPoint} (h : Live t s) (hp : Placed t p s)
    (hs : s.stack th = .exec t q :: fs) (hcount : q = .count → (s.w.task t).execRefCount = 0)
    (hr : execStep s th t now q = some (s', gs)) : Turn t [.exec t q] gs s s' := by
  have hserves := execStep_serves hr
  have hfits : (Frame.exec t q).fits t s.w := h.fit.thread th _ (hs ▸ List.mem_cons_self)
  cases q <;> simp only [execStep] at hr
  case body => contradiction
  case check =>
    have hready : Ready t s.w := hfits rfl
    split_ifs at hr with hst
    · cases hr
      refine .of_same hserves rfl rfl rfl ?_ ?_ ?_ ?_ ?_ <;>
        simp [ExecPoint.role, Role.isCounted, Role.executes]
    · rw [hready.other hst] at hr
      cases hr
      refine .of_same hserves rfl rfl rfl ?_ ?_ ?_ ?_ ?_ <;>
        simp [ExecPoint.role, Role.isCounted, Role.executes]
  case count =>
    have hzero := hcount rfl
    rw [if_pos hzero] at hr
    cases hr
    refine ⟨rfl, rfl, rfl, by simp [addExec, System.modTask], id, ?_, ?_, fun n hlo _ => ?_, ?_, id,
      by simp, hserves⟩
    · simp [ExecPoint.role]
    · simp [ExecPoint.role, Role.isCounted, addExec, System.modTask]
    · rw [hzero] at hlo
      have hone : addCount 0 1 = 1 := by decide
      simp only [addExec, System.modTask, modTask_task_self, hzero, hone]
      simp [ExecPoint.role, Role.executes]
      omega
    · simp [ExecPoint.role]
  case recheck =>
    have hready : Ready t s.w := hfits rfl
    split_ifs at hr with hl hst heq
    · cases hr
      refine ⟨?_, ?_, ?_, ?_, ?_, ?_, ?_, ?_, ?_, ?_, by simp, hserves⟩ <;>
        simp [execBegin, System.note, ExecPoint.role, Role.isCounted, Role.executes, setState,
          setStateInTable, modTask]
      omega
    · have hne : s.w.getStateInTable t ≠ .dequeued := fun hd => hst ⟨hd, heq ▸ hd⟩
      rw [hready.other hne] at hr
      cases hr
      refine ⟨rfl, rfl, rfl, id, id, ?_, ?_, ?_, ?_, id, by simp, hserves⟩ <;>
        simp [ExecPoint.role, Role.isCounted, Role.executes]
      omega
  case readCancel =>
    cases hr
    split_ifs at hserves ⊢ <;> refine .of_same hserves rfl rfl rfl ?_ ?_ ?_ ?_ ?_ <;>
      simp [ExecPoint.role, Role.isCounted, Role.executes]
  case readRepeat =>
    cases hr
    split_ifs at hserves ⊢ <;> refine .of_same hserves rfl rfl rfl ?_ ?_ ?_ ?_ ?_ <;>
      simp [ExecPoint.role, Role.isCounted, Role.executes]
  case resched =>
    split_ifs at hr
    obtain ⟨rfl, -, -⟩ := hp.hands hs (by simp [Frame.count, ExecPoint.holds])
    obtain ⟨hsched, -⟩ := doSched_sched now (by simpa using hp.flag)
    have htouch := Touched.doSched t s.w now
    have hsame := execResched_hist (Option.some.inj hr)
    obtain ⟨hw, -, -, hgs⟩ := execResched_eq (Option.some.inj hr)
    rw [← hw] at hsched htouch
    have hstatus : (s'.w.task t).status = .enqueued :=
      (congrArg Task.status hsched.task_self).trans (scheduled_view now _).1
    have htbl : s'.w.tskTbl t = some .enqueued := by simp [hsched.tskTbl]
    refine ⟨hsame.1, hsame.2.1, hsame.2.2, ?_, ?_, ?_, ?_, ?_, ?_, ?_, ?_, hserves⟩
    · simp [hstatus]
    · simp [htbl]
    · rcases hgs with rfl | rfl <;> simp [ExecPoint.role]
    · rw [htouch.cancel]
      rcases hgs with rfl | rfl <;> simp [ExecPoint.role, Role.isCounted]
    · rw [htouch.exec]
      rcases hgs with rfl | rfl <;> simp [ExecPoint.role, Role.executes] <;> omega
    · simp [ExecPoint.role]
    · simp [htbl]
    · simp [htbl]
  case leave =>
    cases hr
    refine .countOff hserves rfl rfl ?_ ?_ ?_ ?_ ?_ ?_ <;>
      simp [ExecPoint.role, Role.isCounted, Role.executes]
  case readCancelDelete =>
    cases hr
    split_ifs at hserves ⊢ <;> refine .of_same hserves rfl rfl rfl ?_ ?_ ?_ ?_ ?_ <;>
      simp [ExecPoint.role, Role.isCounted, Role.executes]
  case leaveDelete =>
    cases hr
    refine .countOff hserves rfl rfl ?_ ?_ ?_ ?_ ?_ ?_ <;>
      simp [ExecPoint.role, Role.isCounted, Role.executes]
  case lockDelete =>
    split_ifs at hr
    cases hr
    refine .of_same hserves rfl rfl rfl ?_ ?_ ?_ ?_ ?_ <;>
      simp [ExecPoint.role, DestroyPoint.role, Role.isCounted, Role.executes]
  case wakeup =>
    split_ifs at hr
    cases hr
    refine .countOff hserves rfl rfl ?_ ?_ ?_ ?_ ?_ ?_ <;>
      simp [ExecPoint.role, Role.isCounted, Role.executes]

/-- The last executor wakes the cancellers that sleep. -/
theorem wakeup_live (h : Live t s) (hs : s.stack th = [.exec t .wakeup] ++ fs)
    (hturn : Turn t [.exec t .wakeup] [] s s') (hw : s'.condTask t = s.condTask t + 1)
    (hq : SameQueues t s s') (htbl : s'.w.tskTbl t = s.w.tskTbl t)
    (hfit : Fit t (s.after s' th now ([] ++ fs))) : Live t (s.after s' th now ([] ++ fs)) := by
  have hsome : Somewhere t s → Somewhere t (s.after s' th now ([] ++ fs)) := fun hplace =>
    hplace.same hs hq (by simp [Frame.count, ExecPoint.holds])
  refine h.after hs hturn hfit (h.found_after hs (fun hc => htbl.trans hc) (.inl ∘ hsome) ?_) ?_
  · simp [ExecPoint.role, Role.closes]
  · rintro (hleaves | ⟨th', g, hg, hsleep⟩)
    -- the one that leaves would be counted too
    · obtain ⟨n, hn, hlo, hone, -⟩ := h.execs
      obtain ⟨m, hm, hsum⟩ : ∃ m, HasCount Role.executes t (s.after s' th now ([] ++ fs)) m ∧ _ :=
        hn.after hs
      have hpos := hm.pos (hleaves.imp (Q := Role.executes) fun r hr => by
        obtain rfl : r = .leaves := by simpa [Role.isLeaving] using hr
        rfl)
      simp [ExecPoint.role, Role.executes] at hsum
      omega
    · obtain ⟨n, rfl, hle⟩ := Frame.sleeps_iff.mp hsleep
      have hold : n ≤ s.condTask t := by
        by_cases hth : th' = th
        · subst hth
          simp only [System.after, Function.update_self, List.nil_append] at hg
          exact h.since th' n (hs ▸ List.mem_append_right _ hg)
        · simp only [System.after, ne_eq, hth, not_false_eq_true, Function.update_of_ne] at hg
          exact h.since th' n hg
      have hle' : s'.condTask t ≤ n := hle
      omega

theorem execStep_live {q : ExecPoint} (h : Live t s) (hp : Placed t p s)
    (hs : s.stack th = .exec t q :: fs) (hcount : q = .count → (s.w.task t).execRefCount = 0)
    (hfit : Fit t (s.after s' th now (gs ++ fs))) (hr : execStep s th t now q = some (s', gs)) :
    Live t (s.after s' th now (gs ++ fs)) := by
  have hs' : s.stack th = [.exec t q] ++ fs := hs
  have hturn := execStep_turn h hp hs hcount hr
  have hfits : (Frame.exec t q).fits t s.w := h.fit.thread th _ (hs ▸ List.mem_cons_self)
  cases q <;> simp only [execStep] at hr
  case body => contradiction
  case check =>
    have hready : Ready t s.w := hfits rfl
    split_ifs at hr with hst
    · cases hr
      refine h.keep_after hs' hturn hfit (.refl t s) ?_ id ?_ ?_ ?_ <;>
        simp [Frame.count, ExecPoint.holds, ExecPoint.role, Role.closes, Role.works]
    · rw [hready.other hst] at hr
      cases hr
      exact h.closing_after hs' hturn hfit (by simp [ExecPoint.role])
  case count =>
    rw [if_pos (hcount rfl)] at hr
    cases hr
    refine h.keep_after hs' hturn hfit (.modTask fun _ => rfl) ?_ id ?_ ?_ ?_ <;>
      simp [Frame.count, ExecPoint.holds, ExecPoint.role, Role.closes, Role.works]
  case recheck =>
    have hready : Ready t s.w := hfits rfl
    split_ifs at hr with hl hst heq
    · cases hr
      have htbl : s.w.tskTbl t ≠ some .created := fun hc => by
        rcases hready with hd | hd <;> rw [hc] at hd <;> contradiction
      refine h.keep_after hs' hturn hfit (execBegin_queues t th s) ?_ (fun hc => absurd hc htbl)
        ?_ ?_ ?_ <;>
        simp [Frame.count, ExecPoint.holds, ExecPoint.role, Role.closes, Role.works]
    · have hne : s.w.getStateInTable t ≠ .dequeued := fun hd => hst ⟨hd, heq ▸ hd⟩
      rw [hready.other hne] at hr
      cases hr
      exact h.closing_after hs' hturn hfit (by simp [ExecPoint.role])
  case readCancel =>
    cases hr
    split_ifs at hturn hfit ⊢
    · refine h.keep_after hs' hturn hfit (.refl t s) ?_ id ?_ ?_ ?_ <;>
        simp [Frame.count, ExecPoint.holds, ExecPoint.role, Role.closes, Role.works]
    · exact h.closing_after hs' hturn hfit (by simp [ExecPoint.role])
  case readRepeat =>
    cases hr
    split_ifs at hturn hfit ⊢
    · refine h.keep_after hs' hturn hfit (.refl t s) ?_ id ?_ ?_ ?_ <;>
        simp [Frame.count, ExecPoint.holds, ExecPoint.role, Role.closes, Role.works]
    · exact h.closing_after hs' hturn hfit (by simp [ExecPoint.role])
  case resched =>
    split_ifs at hr
    obtain ⟨rfl, -, -⟩ := hp.hands hs (by simp [Frame.count, ExecPoint.holds])
    obtain ⟨hsched, -⟩ := doSched_sched now (by simpa using hp.flag)
    obtain ⟨hw, -, -, -⟩ := execResched_eq (Option.some.inj hr)
    rw [← hw] at hsched
    have hplace : Somewhere t (s.after s' th now (gs ++ fs)) := by
      refine .inr (.inr (.inl ?_))
      simp [System.after, hsched.timed.count_eq]
    exact h.after hs' hturn hfit (fun _ _ => .inl hplace) fun _ => .inl hplace
  case leave =>
    cases hr
    refine h.keep_after hs' hturn hfit (.modTask fun _ => rfl) ?_ id ?_ ?_ ?_ <;>
      simp [Frame.count, ExecPoint.holds, ExecPoint.role, Role.closes, Role.works]
  case readCancelDelete =>
    cases hr
    split_ifs at hturn hfit ⊢ with hcancel
    · exact h.closing_after hs' hturn hfit (by simp [ExecPoint.role])
    · have hcloses : Has Role.closes t (s.after s th now ([.exec t .wakeup] ++ fs)) := by
        have hcounted : Has Role.isCounted t (s.after s th now ([.exec t .wakeup] ++ fs)) :=
          (h.counted hcancel).after hs' (by simp [ExecPoint.role, Role.isCounted])
        exact hcounted.imp (by simp +contextual [Role.isCounted, Role.closes])
      refine h.after hs' hturn hfit (fun _ _ => .inr hcloses) fun _ => .inr ?_
      exact .of_new ⟨.wakes, by simp [ExecPoint.role], rfl⟩
  case leaveDelete =>
    cases hr
    exact h.closing_after hs' hturn hfit (by simp [ExecPoint.role])
  case lockDelete =>
    split_ifs at hr
    cases hr
    exact h.closing_after hs' hturn hfit (by simp [DestroyPoint.role])
  case wakeup =>
    split_ifs at hr
    cases hr
    refine wakeup_live h hs' hturn ?_ ?_ rfl hfit
    · simp [System.wakeupTask, addExec, System.modTask]
    · refine ⟨rfl, rfl, rfl, fun _ => rfl, ?_, id, rfl⟩
      simp [System.wakeupTask, addExec, System.modTask, flag]

theorem execEnd_live {r : Result} (h : Live t s) (hs : s.stack th = .exec t .body :: fs)
    (hfit : Fit t (s.after s' th now (gs ++ fs))) (hr : execEnd s t r = (s', gs)) :
    Live t (s.after s' th now (gs ++ fs)) := by
  have hs' : s.stack th = [.exec t .body] ++ fs := hs
  have hserves : Serves t [.exec t .body] s s' gs := by
    have hends : Serves t [.exec t .body] s (execEnd s t r).1 (execEnd s t r).2 :=
      execEnd_serves t r
    rwa [hr] at hends
  unfold execEnd at hr
  split_ifs at hr <;> cases hr
  · have hturn : Turn t [.exec t .body] [.exec t .readCancel] s
        { s with taskLck := Function.update s.taskLck t none } := by
      refine .of_same hserves rfl rfl rfl ?_ ?_ ?_ ?_ ?_ <;>
        simp [ExecPoint.role, Role.isCounted, Role.executes]
    refine h.keep_after hs' hturn hfit ⟨rfl, rfl, rfl, fun _ => rfl, rfl, id, rfl⟩ ?_ id
      ?_ ?_ ?_ <;>
      simp [Frame.count, ExecPoint.holds, ExecPoint.role, Role.closes, Role.works]
  · refine h.closing_after hs' ⟨rfl, rfl, rfl, ?_, ?_, ?_, ?_, ?_, ?_, ?_, by simp, hserves⟩ hfit
      (by simp [ExecPoint.role])
    all_goals
      simp [ExecPoint.role, Role.isCounted, Role.executes, setState, setStateInTable, modTask]
    omega

end Callout
end Gallus
