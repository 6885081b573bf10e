import Gallus.Callout.Answer
import Gallus.Callout.Dead

/-!
# Any number of cancellers

Any number of cancellers, the executor of the task and the scheduler come together in any order.

* `CancelsOnce t s₁ s`: what the end of the task has to be like in `s`, where a canceller may have
  found the task in `s₁`.
* `cancels_once`: it is so if no deletion comes between the steps of another call that goes on with
  the record, no canceller goes off without having done something, the cancel flag is not
  overwritten, and no destruction is given up.
* `freed_lookedUp`: a canceller that has found the task, and goes on after it is freed.
-/

namespace Gallus
namespace Callout

variable {ι θ : Type} [DecidableEq ι] [DecidableEq θ]

/-- A canceller has found the task, and goes on. -/
def finds (t : ι) (s : System ι θ) : Prop := ∃ th st, .cancel t (.readExec st) ∈ s.stack th

/-- The task is in no queue and in nobody's hands, and all calls about it are asleep. -/
def atRest (t : ι) (s : System ι θ) : Prop :=
  ¬ Somewhere t s ∧
    ∀ th, ∀ f ∈ s.stack th, f.about = some t → f.sleeps t (s.condTask t) = true

/-- The end of the task `t`. -/
structure CancelsOnce (t : ι) (s₁ s : System ι θ) : Prop where
  freed : (s.hist t).freed ≤ 1
  /-- Nobody goes on with a record that is freed, and it is in no queue and not in the table. -/
  untouched : (s.hist t).destroyed = true → s.w.tskTbl t = none ∧
    t ∉ s.w.urgentTskQ ++ s.w.idleTskQ ++ s.w.chronoTskQ ∧
      ∀ th, ∀ f ∈ s.stack th, f.refers t = false
  /-- No cancellation is lost. -/
  answered : finds t s₁ → s.w.tskTbl t = none ∨ Answered t s
  /-- Nobody but the module calls `m_freeproc`, and it does once. -/
  once : finds t s₁ → atRest t s → (s.hist t).destroyed = true ∧ freedOnce t s

/-- The task is submitted once, and executed by one executor at a time. -/
def oneExecutor (t : ι) (s : System ι θ) (e : Event ι θ) : Prop :=
  submitsOnce t s e ∧ ∀ f ∈ running s e, f.joins t s.w = false

/-- The step does not lose a cancellation: no canceller goes off, the cancel flag is not
overwritten, and no destruction is given up, without another call that goes on with it. -/
def keepsCancel (t : ι) (s : System ι θ) (e : Event ι θ) : Prop :=
  ∀ f ∈ running s e,
    (f.misses t s.w = true → HasOther Role.answers t s e.thread ∨ Marked t s.w) ∧
    (f.unmarks t s.w = true → Has Role.answers t s) ∧
    (f.givesUp t s.w = true → HasOther Role.isDestroying t s e.thread)

/-- The step does not bring a deleted task back. -/
def keepsDeleted (t : ι) (s : System ι θ) (e : Event ι θ) : Prop :=
  (∀ f ∈ running s e, f.revives t s.w = false) ∧ fails t s e = false

/-- The step takes none of the branches in which the end of the task goes wrong. -/
def handled (t : ι) (s : System ι θ) (e : Event ι θ) : Prop :=
  ((s.w.task t).status ≠ .deleting → keepsCancel t s e) ∧
    ((s.w.task t).status = .deleting → keepsDeleted t s e) ∧ freesAlone t s e

/-- The steps of the runs in which the end of the task does not go wrong. -/
def endsWell (t : ι) (s : System ι θ) (e : Event ι θ) : Prop := oneExecutor t s e ∧ handled t s e

variable {t : ι} {p : Place θ} {s s' s₁ : System ι θ} {ev : Event ι θ}

/-- The task is in a place and not deleted, and a cancellation goes on if there was one (`asked`);
or its end has come. -/
def Ends (t : ι) (asked : Prop) (s : System ι θ) : Prop :=
  ((∃ p, Placed t p s) ∧ Live t s ∧ (asked → Answered t s)) ∨ Dying t s ∨ Dead t s

theorem Ends.step {asked : Prop} (h : Ends t asked s) (hone : oneExecutor t s ev)
    (hok : handled t s ev) (hstep : Callout.step s ev = some s') : Ends t asked s' := by
  obtain ⟨hcancel, hdeleted, halone⟩ := hok
  rcases h with ⟨⟨p, hp⟩, hlive, hanswered⟩ | hdying | hdead
  · by_cases hdel : ∃ f ∈ running s ev, f.deletes t = true
    · exact .inr (.inl (hlive.delete hp hdel hstep))
    · have hdel' : ∀ f ∈ running s ev, f.deletes t = false := by simpa using hdel
      have hkeeps := hcancel hlive.status
      refine .inl ⟨hp.step hone.1 hstep, hlive.step hp hone.1 hone.2
        (fun f hf => (hkeeps f hf).2.2) hdel' hstep, fun hasked => ?_⟩
      exact (hanswered hasked).step hlive hp hone.1 (fun f hf => (hkeeps f hf).1)
        (fun f hf => (hkeeps f hf).2.1) (fun f hf => (hkeeps f hf).2.2) hdel' hstep
  · by_cases hfrees : ∃ f ∈ running s ev, f.frees t = true
    · exact .inr (.inr (hdying.free hfrees halone hstep))
    · obtain ⟨hrevives, hfails⟩ := hdeleted hdying.status
      exact .inr (.inl (hdying.step hone.1 hrevives hfails (by simpa using hfrees) hstep))
  · exact .inr (.inr (hdead.step hstep))

/-- A task that is at rest and cancelled is not live any more. -/
theorem Live.not_atRest (h : Live t s) (hp : Placed t p s) (hrest : atRest t s) :
    ¬ Answered t s := by
  obtain ⟨hnowhere, hsleeps⟩ := hrest
  have hrole : ∀ th, ∀ r ∈ roles t (s.stack th), r = .none ∨ r = .counted := by
    intro th r hr
    obtain ⟨f, hf, rfl⟩ := List.mem_map.mp hr
    by_cases ha : f.about = some t
    · obtain ⟨n, rfl, -⟩ := Frame.sleeps_iff.mp (hsleeps th f hf ha)
      exact .inr (by simp [CancelPoint.role])
    · exact .inl (role_of_about ha)
  have hasleep : ¬ Has Role.isCounted t s := by
    rintro ⟨th, r, hr, hP⟩
    obtain ⟨f, hf, rfl⟩ := List.mem_map.mp hr
    have ha : f.about = some t := by
      by_contra hne
      rw [role_of_about hne] at hP
      simp [Role.isCounted] at hP
    rcases h.awake (.inr ⟨th, f, hf, hsleeps th f hf ha⟩) with hplace | ⟨th', r, hr, hworks⟩
    · exact hnowhere hplace
    · rcases hrole th' r hr with rfl | rfl <;> simp [Role.works] at hworks
  have hnone : ∀ th, ∀ r ∈ roles t (s.stack th), r = .none := fun th r hr =>
    (hrole th r hr).resolve_right fun hc => hasleep ⟨th, r, hr, by simp [hc, Role.isCounted]⟩
  rintro (⟨th, r, hr, hP⟩ | hmarked)
  · rw [hnone th r hr] at hP
    simp [Role.answers, Role.isAsking, Role.closes] at hP
  · have hborn : (s.hist t).created = true := by
      by_contra hc
      have htbl := (hp.unborn (by simpa using hc)).2.1
      rw [hmarked.1] at htbl
      contradiction
    rcases h.found hborn (by simp [hmarked.1]) with hplace | ⟨th, r, hr, hP⟩
    · exact hnowhere hplace
    · rw [hnone th r hr] at hP
      simp [Role.closes] at hP

omit [DecidableEq θ] in
/-- The one who deleted the task will free it. -/
theorem Dying.not_atRest (h : Dying t s) : ¬ atRest t s := by
  rintro ⟨-, hsleeps⟩
  obtain ⟨th, r, hr, hP⟩ := h.frees.has Nat.one_pos
  obtain ⟨f, hf, rfl⟩ := List.mem_map.mp hr
  have hrole : f.role t = .frees := by simpa [Role.isFreeing] using hP
  have ha : f.about = some t := by
    by_contra hne
    rw [role_of_about hne] at hrole
    contradiction
  obtain ⟨n, rfl, -⟩ := Frame.sleeps_iff.mp (hsleeps th f hf ha)
  simp [CancelPoint.role] at hrole

/-- What the invariant says about the end of the task. -/
theorem Ends.cancelsOnce (h : Ends t (finds t s₁) s) : CancelsOnce t s₁ s := by
  refine ⟨?_, fun hd => ?_, fun hfinds => ?_, fun hfinds hrest => ?_⟩
  · have hle : freedOnce t s → (s.hist t).freed ≤ 1 := by
      intro hfreed
      rw [hfreed]
      split_ifs <;> simp
    rcases h with ⟨-, hlive, -⟩ | hdying | hdead
    · simp [hlive.freed]
    · exact hle hdying.freed
    · exact hle hdead.freed
  · rcases h with ⟨-, hlive, -⟩ | hdying | hdead
    · rw [hlive.destroyed] at hd
      contradiction
    · rw [hdying.destroyed] at hd
      contradiction
    · refine ⟨hdead.tskTbl, ?_, hdead.refers⟩
      simp [hdead.urgent, hdead.idle, hdead.timed]
  · rcases h with ⟨-, -, hanswered⟩ | hdying | hdead
    · exact .inr (hanswered hfinds)
    · exact .inl hdying.tskTbl
    · exact .inl hdead.tskTbl
  · rcases h with ⟨⟨p, hp⟩, hlive, hanswered⟩ | hdying | hdead
    · exact absurd (hanswered hfinds) (hlive.not_atRest hp hrest)
    · exact absurd hrest hdying.not_atRest
    · exact ⟨hdead.destroyed, hdead.freed⟩

/-- **Any number of cancellers.** In every run in which the task is executed by one executor at a
time and its end does not go wrong, `m_freeproc` is called once at most, nobody goes on with a
record that is freed, and a cancellation that has found the task goes on until it is deleted. -/
theorem cancels_once {clock : Chrono} {mainLoop : θ} {workers : List θ}
    {es₁ es : List (Event ι θ)}
    (h₁ : Trans.Run step (endsWell t) (System.init clock mainLoop workers) es₁ s₁)
    (h : Trans.Run step (endsWell t) s₁ es s) :
    CancelsOnce t s₁ s := by
  have hstep : ∀ (asked : Prop) (s : System ι θ) (e : Event ι θ) (s' : System ι θ),
      Ends t asked s → endsWell t s e → step s e = some s' → Ends t asked s' :=
    fun asked s e s' hs hok => hs.step hok.1 hok.2
  have hstart : Ends t False s₁ := h₁.inv (hstep False)
    (.inl ⟨⟨.nowhere, .init t clock mainLoop workers⟩, .init t clock mainLoop workers, False.elim⟩)
  have hfound : finds t s₁ → Answered t s₁ := fun ⟨th, st, hf⟩ =>
    .inl ⟨th, .asks, List.mem_map.mpr ⟨_, hf, by simp [CancelPoint.role]⟩, rfl⟩
  have hstart' : Ends t (finds t s₁) s₁ := hstart.imp (fun h => ⟨h.1, h.2.1, hfound⟩) id
  exact Ends.cancelsOnce (h.inv (hstep (finds t s₁)) hstart')

section Computed

variable [Fintype θ]

instance (P : Role → Bool) (t : ι) (s : System ι θ) : Decidable (Has P t s) :=
  inferInstanceAs (Decidable (∃ th, ∃ r ∈ roles t (s.stack th), P r = true))

instance (P : Role → Bool) (t : ι) (s : System ι θ) (th : θ) : Decidable (HasOther P t s th) :=
  inferInstanceAs (Decidable (∃ th', ∃ g ∈ s.others th th', P (g.role t) = true))

instance (t : ι) (s : System ι θ) (e : Event ι θ) : Decidable (oneExecutor t s e) :=
  inferInstanceAs (Decidable (_ ∧ ∀ f ∈ running s e, f.joins t s.w = false))

instance (t : ι) (s : System ι θ) (e : Event ι θ) : Decidable (keepsCancel t s e) :=
  inferInstanceAs (Decidable (∀ f ∈ running s e, (_ → _) ∧ (_ → _) ∧ (_ → _)))

instance (t : ι) (s : System ι θ) (e : Event ι θ) : Decidable (keepsDeleted t s e) :=
  inferInstanceAs (Decidable ((∀ f ∈ running s e, f.revives t s.w = false) ∧ _))

instance (t : ι) (s : System ι θ) (e : Event ι θ) : Decidable (freesAlone t s e) :=
  inferInstanceAs (Decidable (∀ f ∈ running s e, f.frees t = true →
    _ ∧ ∀ th, ∀ g ∈ s.others e.thread th, g.refers t = false))

instance (t : ι) (s : System ι θ) (e : Event ι θ) : Decidable (handled t s e) :=
  inferInstanceAs (Decidable ((_ → _) ∧ (_ → _) ∧ _))

instance (t : ι) (s : System ι θ) (e : Event ι θ) : Decidable (endsWell t s e) :=
  inferInstanceAs (Decidable (_ ∧ _))

end Computed

/-- A canceller finds a repeating task in execution. -/
def foundRunning : List (Event (Fin 1) (Fin 4)) :=
  [⟨3, 1, .call (.create 0 true true)⟩, ⟨3, 1, .call (.submit 0 0 10000)⟩] ++ steps 3 1 2 ++
    [⟨0, 1, .call .iterate⟩] ++ steps 0 1 6 ++ [⟨1, 1, .call .work⟩] ++ steps 1 1 4 ++
    [⟨2, 1, .call (.cancel 0)⟩] ++ steps 2 1 1

/-- Another one comes, both sleep, and the last one that the executor wakes destroys the task. -/
def twoCancellers : List (Event (Fin 1) (Fin 4)) :=
  steps 2 1 1 ++ [⟨3, 1, .call (.cancel 0)⟩] ++ steps 3 1 3 ++ steps 2 1 1 ++
    [⟨1, 1, .finish Result.ok⟩] ++ steps 3 1 1 ++ steps 2 1 1 ++ steps 1 1 3 ++
    [⟨3, 1, .wake false⟩] ++ steps 3 1 3 ++ [⟨2, 1, .wake true⟩] ++ steps 2 1 8

theorem cancels_once_twoCancellers :
    ∃ s₁ s : System (Fin 1) (Fin 4), finds 0 s₁ ∧ atRest 0 s ∧ (s.hist 0).freed = 1 ∧
      CancelsOnce 0 s₁ s := by
  have h₁ : ((Trans.run (Trans.guarded step (endsWell 0)) (System.init 1 0 [1]) foundRunning).map
      fun s => s.stack 2) = some [.cancel (0 : Fin 1) (.readExec .executing)] := by decide +kernel
  obtain ⟨s₁, hrun₁, hfound⟩ := Option.map_eq_some_iff.mp h₁
  have h : ((Trans.run (Trans.guarded step (endsWell (0 : Fin 1))) (System.init 1 (0 : Fin 4) [1])
      (foundRunning ++ twoCancellers)).map fun s => ((s.hist 0).freed,
        s.w.urgentTskQ ++ s.w.idleTskQ ++ s.w.chronoTskQ,
        decide (∀ th, s.qs th = [] ∧ (s.stack th = [] ∨ s.stack th = [.worker []])))) =
      some (1, [], true) := by decide +kernel
  rw [Trans.run_append, hrun₁, Option.bind_some] at h
  obtain ⟨s, hrun, hs⟩ := Option.map_eq_some_iff.mp h
  simp only [Prod.mk.injEq, decide_eq_true_eq, List.append_eq_nil_iff] at hs
  obtain ⟨hfreed, ⟨⟨hurgent, hidle⟩, htimed⟩, hthreads⟩ := hs
  refine ⟨s₁, s, ⟨2, .executing, hfound ▸ List.mem_singleton_self _⟩, ⟨?_, fun th f hf ha => ?_⟩,
    hfreed, cancels_once (.of_guarded hrun₁) (.of_guarded hrun)⟩
  · simp only [Somewhere, hurgent, hidle, htimed, List.count_nil, lt_self_iff_false, false_or]
    rintro (⟨i, hi⟩ | ⟨th, hth⟩)
    · rw [(hthreads i).1] at hi
      contradiction
    · rcases (hthreads th).2 with hstack | hstack <;> rw [hstack] at hth <;> contradiction
  · rcases (hthreads th).2 with hstack | hstack <;> rw [hstack] at hf
    · contradiction
    · rw [List.mem_singleton.mp hf] at ha
      contradiction

/-- A canceller has looked a task up that a worker is to execute. -/
def lookedUp : List (Event (Fin 1) (Fin 4)) :=
  [⟨3, 1, .call (.create 0 true true)⟩, ⟨3, 1, .call (.submit 0 0 0)⟩] ++ steps 3 1 2 ++
    [⟨0, 1, .call .iterate⟩] ++ steps 0 1 6 ++ [⟨1, 1, .call .work⟩] ++
    [⟨2, 1, .call (.cancel 0)⟩] ++ steps 2 1 1

/-- The worker executes the task and frees its record, and the canceller goes on with it. -/
def freedMeanwhile : List (Event (Fin 1) (Fin 4)) :=
  steps 1 1 4 ++ [⟨1, 1, .finish Result.ok⟩] ++ steps 1 1 10 ++ steps 2 1 2

/-- The canceller writes a task whose record is freed into the table. -/
theorem freed_lookedUp :
    ∃ s₁ s : System (Fin 1) (Fin 4),
      Trans.Run step (oneExecutor 0) (System.init 1 0 [1]) lookedUp s₁ ∧ finds 0 s₁ ∧
      Trans.Run step (oneExecutor 0) s₁ freedMeanwhile s ∧ (s.hist 0).destroyed = true ∧
      s.w.tskTbl 0 = some .cancelled ∧ ¬ CancelsOnce 0 s₁ s := by
  have h₁ : ((Trans.run (Trans.guarded step (oneExecutor 0)) (System.init 1 0 [1]) lookedUp).map
      fun s => s.stack 2) = some [.cancel (0 : Fin 1) (.readExec .dequeued)] := by decide +kernel
  obtain ⟨s₁, hrun₁, hfound⟩ := Option.map_eq_some_iff.mp h₁
  have h : ((Trans.run (Trans.guarded step (oneExecutor (0 : Fin 1)))
      (System.init 1 (0 : Fin 4) [1])
      (lookedUp ++ freedMeanwhile)).map fun s => ((s.hist 0).destroyed, s.w.tskTbl 0)) =
      some (true, some .cancelled) := by decide +kernel
  rw [Trans.run_append, hrun₁, Option.bind_some] at h
  obtain ⟨s, hrun, hs⟩ := Option.map_eq_some_iff.mp h
  simp only [Prod.mk.injEq] at hs
  obtain ⟨hdestroyed, htbl⟩ := hs
  refine ⟨s₁, s, .of_guarded hrun₁, ⟨2, .dequeued, hfound ▸ List.mem_singleton_self _⟩,
    .of_guarded hrun, hdestroyed, htbl, fun hcancels => ?_⟩
  have hnone := (hcancels.untouched hdestroyed).1
  rw [htbl] at hnone
  contradiction

end Callout
end Gallus
