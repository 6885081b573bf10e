import Gallus.Callout.Calm

/-!
# The callout module with a single thread

* `fetchStep_sound`, `fetchTimedStep_sound`, `runTasksBySelfStep_sound` and `callStep_sound`: the
  steps of the main loop, and the beginning of a call.
* `Alone.step`: what each step of the only thread keeps.
* `alone_quiet`: between two calls from outside each task is `Quiet`.
-/

namespace Gallus
namespace Callout

variable {ι θ : Type} [DecidableEq ι] [DecidableEq θ]

/-! ## Steps of the main loop -/

section Batches

variable {t : ι} {p : Place θ} {s s' : System ι θ} {th : θ} {now : Chrono}
  {fs gs : List (Frame ι)} {f : Frame ι}

omit [DecidableEq θ] in
theorem fetchStep_sound {start : Chrono} (hsound : Sound t s (.fetch start :: fs))
    (hr : fetchStep s start = some (s', gs)) : Sound t s' (gs ++ fs) := by
  have hc := hsound.fine.calm (by simp [Frame.about])
  unfold fetchStep at hr
  split_ifs at hr
  cases hr
  have hu := count_take_add_drop t calloutTaskMax s.w.urgentTskQ
  have hi := count_take_add_drop t calloutTaskMax s.w.idleTskQ
  have hheld : held t (.fetchTimed start (s.w.urgentTskQ.take calloutTaskMax)
      (s.w.idleTskQ.take calloutTaskMax) :: fs) =
      (s.w.urgentTskQ.take calloutTaskMax).count t + (s.w.idleTskQ.take calloutTaskMax).count t +
        held t (.fetch start :: fs) := by
    simp [Frame.count]
  have hcalm : Calm t { s.w with
        urgentTskQ := s.w.urgentTskQ.drop calloutTaskMax
        idleTskQ := s.w.idleTskQ.drop calloutTaskMax } (s.hist t)
      (.fetchTimed start (s.w.urgentTskQ.take calloutTaskMax) (s.w.idleTskQ.take calloutTaskMax) ::
        fs) := by
    refine hc.move ⟨rfl, rfl, rfl, rfl, rfl, rfl⟩ ?_ rfl (fun hpos => ?_) (by simp)
    · unfold somewhere
      rw [hheld]
      dsimp only
      omega
    · rw [hheld]
      omega
  exact ⟨hcalm.top (by simp [Frame.about]), hsound.neverRun⟩

/-- A task that the scheduler takes out of the timed queue. -/
theorem Calm.takenOut {w : Callout ι} {hist : History} (hc : Calm t s.w (s.hist t) (f :: fs))
    (h : Placed t .timed s) (hs : s.stack th = f :: fs)
    (htask : w.task t = takenOut (s.w.task t)) (htbl : w.tskTbl t = some .dequeued)
    (hpos : held t gs ≠ 0) (hcreated : hist.created = (s.hist t).created)
    (hfreed : hist.freed = (s.hist t).freed) (hcancelled : hist.cancelled = (s.hist t).cancelled)
    (hgs : ∀ g ∈ gs, g.about ≠ some t) : Calm t w hist (gs ++ fs) := by
  have hzero : held t (s.stack th) = 0 := by simpa using h.thread th
  rw [hs, held_cons] at hzero
  have hone : s.w.chronoTskQ.count t = 1 := by simpa using h.timed
  have hborn := h.born_of_place (by simp)
  have hbody : .exec t .body ∉ gs ++ fs := fun hmem => by
    rcases List.mem_append.mp hmem with hmem | hmem
    · exact hgs _ hmem rfl
    · exact body_not_mem (by omega) hmem
  cases hc with
  | unborn hnew =>
    rw [hborn] at hnew
    contradiction
  | gone _ hgone =>
    have := hgone.nowhere
    unfold somewhere at this
    omega
  | rest _ hrest =>
    have hst : (s.w.task t).status ≠ .executing ∧ (s.w.task t).status ≠ .cancelled := by
      have hfits := hrest.fits
      constructor <;> intro hst <;> rw [hst] at hfits
      · have hzero : held t (f :: fs) = 0 := by
          rw [held_cons]
          omega
        exact body_not_mem hzero hfits
      · have hnone : s.w.chronoTskQ.count t = 0 := hfits.1
        omega
    have hexecs := hrest.alive.execs
    rw [if_neg hst.1] at hexecs
    refine .rest (hcreated.trans hborn) ⟨⟨?_, ?_, ?_, ?_⟩, ?_, fun hmem => absurd hmem hbody,
      fun hcan => absurd (hrest.cancelled (hcancelled ▸ hcan)) hst.2⟩
    · simp [htbl, htask, Callout.takenOut]
    · simpa [htask, Callout.takenOut] using hexecs
    · simpa [htask, Callout.takenOut] using hrest.alive.cancels
    · exact hfreed.trans hrest.alive.freed
    · rw [htask]
      show held t (gs ++ fs) ≠ 0
      rw [held_append]
      omega

theorem fetchTimedStep_sound {start : Chrono} {urgentTasks idleTasks : List ι}
    (h : Placed t p s) (hs : s.stack th = .fetchTimed start urgentTasks idleTasks :: fs)
    (hunder : ∀ f ∈ fs, f.under = true)
    (hsound : Sound t s (.fetchTimed start urgentTasks idleTasks :: fs))
    (hr : fetchTimedStep s start urgentTasks idleTasks = some (s', gs)) :
    Sound t s' (gs ++ fs) := by
  have hc := hsound.fine.calm (by simp [Frame.about])
  have hone : s.w.chronoTskQ.count t ≤ 1 := by
    rw [h.timed]
    split_ifs <;> omega
  unfold fetchTimedStep at hr
  split_ifs at hr
  · have htaken := takeRunnables_taken t (i64 (start + calloutTaskSchedJitter)) calloutTaskMax s.w
      hone
    rw [getRunnables_eq] at hr
    generalize takeRunnables (i64 (start + calloutTaskSchedJitter)) calloutTaskMax s.w = d
      at hr htaken
    obtain ⟨w, tasks⟩ := d
    dsimp only at hr htaken
    split_ifs at hr
    cases hr
    rcases htaken with ⟨hsame, hnot⟩ | ⟨-, htask, htbl, -, -, htimed, hmem⟩
    · have hmem : t ∉ tasks := List.count_eq_zero.mp hnot
      refine ⟨?_, by simpa [hmem] using hsound.neverRun⟩
      simp only [hmem, if_false]
      refine hc.step hsame.kept ?_ (by simp) (about_runBatch _ _ _) hunder
      rw [held_runBatch]
      simp [Frame.count, hnot]
    · obtain rfl : p = .timed := by
        by_contra hne
        rw [h.timed, if_neg hne] at htimed
        omega
      have hpos : held t (fetchTimedStep.runBatch start { s with w } (tasks ++ urgentTasks ++
          idleTasks)) ≠ 0 := by
        rw [held_runBatch, List.count_append, List.count_append]
        omega
      have hcalm : Calm t w (if t ∈ tasks then
          { s.hist t with taken := (start, (s.hist t).due) :: (s.hist t).taken } else s.hist t)
          (fetchTimedStep.runBatch start { s with w } (tasks ++ urgentTasks ++ idleTasks) ++
            fs) := by
        refine hc.takenOut h hs htask htbl hpos ?_ ?_ ?_ (about_runBatch _ _ _) <;> split_ifs
        all_goals rfl
      refine ⟨?_, ?_⟩
      · exact hcalm.above (about_runBatch _ _ _) hunder
      · dsimp only
        split_ifs <;> exact hsound.neverRun
  · cases hr
    refine ⟨hc.step (.refl t s.w) ?_ (by simp) (about_runBatch _ _ _) hunder, hsound.neverRun⟩
    rw [held_runBatch]
    simp [Frame.count]

/-- A task of the batch is stamped, and executed. -/
theorem stampTask_running {start : Chrono} {tasks : List ι}
    (hc : Calm t s.w (s.hist t) (.runTasksBySelf start (t :: tasks) :: fs)) (h : Placed t p s)
    (hs : s.stack th = .runTasksBySelf start (t :: tasks) :: fs) :
    Running t (stampTask s.w t start) (s.hist t) 0 .dequeued ∨
      Running t (stampTask s.w t start) (s.hist t) 0 .cancelled := by
  have hpos : 0 < (Frame.runTasksBySelf start (t :: tasks)).count t := by simp [Frame.count]
  obtain ⟨rfl, hzero, -⟩ := h.hands hs hpos
  have hborn := h.born_of_place (by simp)
  cases hc with
  | unborn hnew =>
    rw [hborn] at hnew
    contradiction
  | gone _ hgone =>
    have := hgone.nowhere
    unfold somewhere at this
    rw [held_cons] at this
    omega
  | rest _ hrest =>
    have halive := hrest.alive
    have hfits := hrest.fits
    have hbody : .exec t .body ∉ .runTasksBySelf start (t :: tasks) :: fs := fun hmem =>
      body_not_mem hzero (List.mem_of_ne_of_mem (by simp) hmem)
    have hcreated : (s.w.task t).status ≠ .created := fun hst => by
      have := h.fresh (halive.table.trans (by rw [hst]))
      contradiction
    have hcancelled := hrest.cancelled
    have hexecs := halive.execs
    cases hst : (s.w.task t).status <;> rw [hst] at hfits hcancelled hexecs <;>
      try exact absurd hfits id
    case created => contradiction
    case executing => exact absurd hfits hbody
    case enqueued =>
      have hnot : (s.hist t).cancelled ≠ true := fun hcan => by cases hcancelled hcan
      refine .inl ⟨⟨?_, ?_, ?_, halive.freed⟩, ?_, fun hcan => absurd hcan hnot⟩
      · simp [stampTask, hst, setState, setStateInTable, modTask]
      · simpa [stampTask, hst] using hexecs
      · simpa [stampTask, hst] using halive.cancels
      · simp [stampTask, hst]
    case dequeued =>
      have htbl := halive.table
      have hnot : (s.hist t).cancelled ≠ true := fun hcan => by cases hcancelled hcan
      refine .inl ⟨⟨?_, ?_, ?_, halive.freed⟩, ?_, fun hcan => absurd hcan hnot⟩
      · simpa [stampTask, hst, modTask] using htbl
      · simpa [stampTask, hst] using hexecs
      · simpa [stampTask, hst] using halive.cancels
      · simp [stampTask, hst]
    case cancelled =>
      have htbl := halive.table
      refine .inr ⟨⟨?_, ?_, ?_, halive.freed⟩, ?_, fun _ => rfl⟩
      · simpa [stampTask, hst, modTask] using htbl
      · simpa [stampTask, hst] using hexecs
      · simpa [stampTask, hst] using halive.cancels
      · simp [stampTask, hst]

theorem runTasksBySelfStep_sound {start : Chrono} {tasks : List ι} (h : Placed t p s)
    (hs : s.stack th = .runTasksBySelf start tasks :: fs) (hunder : ∀ f ∈ fs, f.under = true)
    (hsound : Sound t s (.runTasksBySelf start tasks :: fs))
    (hr : runTasksBySelfStep s th start tasks = some (s', gs)) : Sound t s' (gs ++ fs) := by
  have hc := hsound.fine.calm (by simp [Frame.about])
  cases tasks with
  | nil =>
    cases hr
    have hfine : Fine t s.w (s.hist t) ([] ++ fs) :=
      hc.step (.refl t s.w) rfl (by simp) (by simp) hunder
    exact ⟨hfine, hsound.neverRun⟩
  | cons e tasks =>
    simp only [runTasksBySelfStep] at hr
    split_ifs at hr
    cases hr
    by_cases he : e = t
    · subst he
      exact ⟨Own.fine (f := .exec e .check) (stampTask_running hc h hs) rfl, hsound.neverRun⟩
    · refine ⟨hc.step (SameTask.stampTask he s.w start).kept ?_ (by simp) ?_ hunder,
        hsound.neverRun⟩
      · simp [Frame.count, he]
      · simp [Frame.about, he]

end Batches

/-! ## Calls -/

section Calls

variable {t : ι} {p : Place θ} {s s' : System ι θ} {th : θ} {now : Chrono}
  {fs gs : List (Frame ι)} {f : Frame ι}

/-- Where a call can be made, nothing else goes on. -/
theorem Fine.calling {w : Callout ι} {hist : History} (hf : Fine t w hist fs)
    (hcan : canCall fs = true) : Calm t w hist fs := by
  unfold canCall at hcan
  split at hcan
  · exact hf
  · rename_i e fs
    by_cases he : e = t
    · subst he
      exact hf.own rfl
    · exact hf.calm (by simpa [Frame.about] using he)
  · contradiction

/-- The first point of a call. -/
def Frame.begins : Frame ι → Bool
  | .submit _ _ _ .check | .cancel _ .check | .force _ .check | .fetch _ => true
  | _ => false

/-- A call about a task begins. -/
theorem Calm.begin {w : Callout ι} {hist : History} {g : Frame ι} (hc : Calm t w hist fs)
    (hg : g.begins = true) : Fine t w hist (g :: fs) := by
  have hcount : g.count t = 0 := by
    unfold Frame.begins at hg
    split at hg <;> first | rfl | contradiction
  have hcalm : Calm t w hist (g :: fs) := by
    refine hc.same (.refl t w) (by simp [hcount]) ?_
    have hne : .exec t .body ≠ g := by
      rintro rfl
      contradiction
    simp [hne]
  by_cases ha : g.about = some t
  · refine Own.fine ?_ ha
    unfold Frame.begins at hg
    split at hg
    · exact hcalm
    · exact hcalm
    · exact hcalm
    · cases ha
    · contradiction
  · exact hcalm.top ha

theorem createTask_calm {e : ι} {hasArg hasFreeproc : Bool} (h : Placed t p s)
    (hc : Calm t s.w (s.hist t) fs) (hs : s.stack th = fs)
    (hr : createTask s e hasArg hasFreeproc = some s') : Calm t s'.w (s'.hist t) fs := by
  by_cases he : e = t
  · subst he
    unfold createTask at hr
    split_ifs at hr with hnew
    cases hr
    cases hc with
    | rest hborn =>
      rw [hnew.2] at hborn
      contradiction
    | gone hborn =>
      rw [hnew.2] at hborn
      contradiction
    | unborn _ hfreed hcancelled =>
      have hbody : .exec e .body ∉ fs := fun hmem =>
        (h.unborn hnew.2).2.2 th _ (hs ▸ hmem) rfl
      refine .rest ?_ ⟨⟨?_, ?_, ?_, ?_⟩, ?_, fun hmem => absurd hmem hbody, fun hcan => ?_⟩
      · simp [System.note]
      · simp [System.note, setStateInTable, newTask]
      · simp [System.note, newTask]
      · simp [System.note, newTask]
      · simpa [System.note] using hfreed
      · simp [System.note, newTask, fits]
      · simp [System.note, hcancelled] at hcan
  · have hsame := createTask_foreign he hr
    rw [hsame.hist]
    exact hc.same hsame.w.kept rfl Iff.rfl

theorem resetInterval_calm {e : ι} {interval : Chrono} (hc : Calm t s.w (s.hist t) fs)
    (hr : resetInterval s th e interval = some s') :
    Calm t s'.w (s'.hist t) fs ∧ s'.hist t = s.hist t := by
  by_cases he : e = t
  · subst he
    unfold resetInterval at hr
    split_ifs at hr <;> cases hr
    · refine ⟨hc.same ⟨⟨?_, ?_, ?_, ?_, ?_, rfl⟩, rfl, rfl, rfl⟩ rfl Iff.rfl, rfl⟩
      all_goals simp [System.modTask, System.return_]
    · exact ⟨hc, rfl⟩
    · exact ⟨hc, rfl⟩
  · have hsame := resetInterval_foreign he hr
    rw [hsame.hist]
    exact ⟨hc.same hsame.w.kept rfl Iff.rfl, rfl⟩

theorem callStep_sound {op : Op ι} (h : Placed t p s) (hs : s.stack th = fs)
    (hcan : canCall fs = true) (hunder : ∀ f ∈ fs, f.under = true) (halone : s.workers = [])
    (hsound : Sound t s fs) (hr : callStep s th now op = some (s', gs)) :
    Sound t s' (gs ++ fs) := by
  have hc := hsound.fine.calling hcan
  have hbegin : ∀ {g : Frame ι}, g.begins = true → Sound t s ([g] ++ fs) :=
    fun hg => ⟨hc.begin hg, hsound.neverRun⟩
  cases op <;> simp only [callStep] at hr
  case create e hasArg hasFreeproc =>
    rw [Option.map_eq_some_iff] at hr
    obtain ⟨s₁, hcreate, heq⟩ := hr
    cases heq
    refine ⟨(createTask_calm h hc hs hcreate).fine hunder, ?_⟩
    by_cases he : e = t
    · subst he
      unfold createTask at hcreate
      split_ifs at hcreate
      cases hcreate
      simpa [System.note] using hsound.neverRun
    · rw [(createTask_foreign he hcreate).hist]
      exact hsound.neverRun
  case resetInterval e interval =>
    split_ifs at hr
    rw [Option.map_eq_some_iff] at hr
    obtain ⟨s₁, hreset, heq⟩ := hr
    cases heq
    obtain ⟨hcalm, hhist⟩ := resetInterval_calm hc hreset
    exact ⟨hcalm.fine hunder, hhist ▸ hsound.neverRun⟩
  case work =>
    rw [halone] at hr
    simp at hr
  all_goals
    split_ifs at hr
    cases hr
    exact hbegin rfl

end Calls

/-! ## Runs -/

section Runs

variable {t : ι} {p : Place θ} {s s' : System ι θ} {th : θ} {now : Chrono}
  {fs gs : List (Frame ι)} {f : Frame ι}

/-- The calls in the place of the running one. -/
structure Continues (s s' : System ι θ) (gs : List (Frame ι)) : Prop where
  workers : s'.workers = s.workers
  mainLoop : s'.mainLoop = s.mainLoop
  alone : ∀ g ∈ gs, g.alone = true
  under : ∀ g ∈ gs.tail, g.under = true

omit [DecidableEq ι] [DecidableEq θ] in
theorem Continues.nil (hw : s'.workers = s.workers) (hm : s'.mainLoop = s.mainLoop) :
    Continues s s' [] := ⟨hw, hm, by simp, by simp⟩

omit [DecidableEq ι] [DecidableEq θ] in
theorem Continues.one (hw : s'.workers = s.workers) (hm : s'.mainLoop = s.mainLoop)
    (hf : f.alone = true) : Continues s s' [f] := ⟨hw, hm, by simpa using hf, by simp⟩

omit [DecidableEq ι] [DecidableEq θ] in
theorem Continues.nested (hc : Continues s s' gs) (hn : Nested fs)
    (hunder : ∀ f ∈ fs, f.under = true) : Nested (gs ++ fs) := by
  refine ⟨fun g hg => ?_, fun g hg => ?_⟩
  · rcases List.mem_append.mp hg with hg | hg
    · exact hc.alone g hg
    · exact hn.1 g hg
  · cases gs with
    | nil => exact hunder g (List.mem_of_mem_tail hg)
    | cons g' gs =>
      rcases List.mem_append.mp hg with hg | hg
      · exact hc.under g hg
      · exact hunder g hg

omit [DecidableEq ι] [DecidableEq θ] in
theorem finalTaskSched_alone (halone : s.workers = []) (start : Chrono) (tasks : List ι) :
    (finalTaskSched s start tasks).alone = true := by
  unfold finalTaskSched
  rw [if_pos halone]
  rfl

theorem submitStep_continues {initialDelay interval : Chrono} {q : SubmitPoint}
    (hr : submitStep s th t initialDelay interval now q = some (s', gs)) : Continues s s' gs := by
  have hlocked : ∀ s₁ : System ι θ, s₁.workers = s.workers → s₁.mainLoop = s.mainLoop →
      submitLocked s₁ th t initialDelay interval now = (s', gs) → Continues s s' gs := by
    intro s₁ hw hm hl
    unfold submitLocked at hl
    split at hl <;> cases hl
    · exact .nil hw hm
    · exact .one hw hm rfl
  cases q <;> simp only [submitStep] at hr
  case check =>
    split_ifs at hr <;> cases hr
    · exact .one rfl rfl rfl
    all_goals exact .nil rfl rfl
  case lock =>
    split_ifs at hr
    refine hlocked _ ?_ ?_ (Option.some.inj hr) <;> rfl
  case blocked => exact hlocked _ rfl rfl (Option.some.inj hr)

theorem cancelStep_continues {q : CancelPoint} (hr : cancelStep s th t q = some (s', gs)) :
    Continues s s' gs := by
  cases q <;> simp only [cancelStep] at hr
  case asleep => contradiction
  case count =>
    cases hr
    exact .one rfl rfl rfl
  case uncount =>
    cases hr
    split_ifs
    · exact .nil rfl rfl
    · exact .one rfl rfl rfl
  all_goals
    split_ifs at hr <;> cases hr
    all_goals first | exact .one rfl rfl rfl | exact .nil rfl rfl

theorem destroyStep_continues {unlock : Bool} {q : DestroyPoint}
    (hr : destroyStep s th t unlock q = some (s', gs)) : Continues s s' gs := by
  have hend : ∀ s₁ : System ι θ, s₁.workers = s.workers → s₁.mainLoop = s.mainLoop →
      destroyed s₁ unlock = (s', gs) → Continues s s' gs := by
    intro s₁ hw hm hd
    obtain ⟨⟨o, rfl⟩, rfl⟩ := destroyed_eq hd
    exact .nil hw hm
  have hdelete : (deleteLocked s t).1.workers = s.workers ∧
      (deleteLocked s t).1.mainLoop = s.mainLoop := by
    unfold deleteLocked
    dsimp only
    split_ifs <;> exact ⟨rfl, rfl⟩
  cases q <;> simp only [destroyStep] at hr
  case check =>
    split_ifs at hr
    · cases hr
      exact .one rfl rfl rfl
    · exact hend s rfl rfl (Option.some.inj hr)
  case delete =>
    split_ifs at hr
    · cases hr
      exact .one hdelete.1 hdelete.2 rfl
    · exact hend _ hdelete.1 hdelete.2 (Option.some.inj hr)
  case free => refine hend _ ?_ ?_ (Option.some.inj hr) <;> rfl
  case unsched =>
    split_ifs at hr
    cases hr
    exact .one rfl rfl rfl
  case setTable =>
    cases hr
    exact .one rfl rfl rfl

theorem execStep_continues {q : ExecPoint} (hr : execStep s th t now q = some (s', gs)) :
    Continues s s' gs := by
  have hother : ∀ st, Continues s s (notTheDequeuedState t st) := by
    intro st
    unfold notTheDequeuedState
    split
    · exact .one rfl rfl rfl
    · exact .nil rfl rfl
  cases q <;> simp only [execStep] at hr
  case check =>
    split_ifs at hr <;> cases hr
    · exact .one rfl rfl rfl
    · exact hother _
  case recheck =>
    split_ifs at hr <;> cases hr
    · exact .one rfl rfl rfl
    · exact hother _
  case body => contradiction
  case leave =>
    cases hr
    exact .nil rfl rfl
  case wakeup =>
    split_ifs at hr
    cases hr
    exact .nil rfl rfl
  case resched =>
    split_ifs at hr
    cases hr
    exact .one rfl rfl rfl
  case lockDelete =>
    split_ifs at hr
    cases hr
    exact .one rfl rfl rfl
  all_goals
    cases hr
    exact .one rfl rfl rfl

theorem frameStep_continues (halone : s.workers = []) (hf : f.alone = true)
    (hr : frameStep s th now f = some (s', gs)) : Continues s s' gs := by
  cases f <;> simp only [frameStep] at hr
  case submit => exact submitStep_continues hr
  case cancel => exact cancelStep_continues hr
  case exec => exact execStep_continues hr
  case destroy => exact destroyStep_continues hr
  case force e q =>
    cases q <;> simp only [forceStep] at hr
    case run =>
      cases hr
      exact .one rfl rfl (finalTaskSched_alone halone _ _)
    all_goals
      split_ifs at hr <;> cases hr
      all_goals first | exact .one rfl rfl rfl | exact .nil rfl rfl
  case fetch =>
    unfold fetchStep at hr
    split_ifs at hr
    cases hr
    exact .one rfl rfl rfl
  case fetchTimed start urgentTasks idleTasks =>
    have hbatch : ∀ (s₁ : System ι θ) (tasks : List ι), s₁.workers = s.workers →
        s₁.mainLoop = s.mainLoop →
        Continues s s₁ (fetchTimedStep.runBatch start s₁ tasks) := by
      intro s₁ tasks hw hm
      unfold fetchTimedStep.runBatch
      split_ifs
      · exact .nil hw hm
      · exact .one hw hm (finalTaskSched_alone (hw.trans halone) _ _)
    unfold fetchTimedStep at hr
    dsimp only at hr
    split_ifs at hr <;> cases hr
    · exact hbatch _ _ rfl rfl
    · exact hbatch _ _ rfl rfl
  case runTasksBySelf start tasks =>
    cases tasks with
    | nil =>
      cases hr
      exact .nil rfl rfl
    | cons e tasks =>
      simp only [runTasksBySelfStep] at hr
      split_ifs at hr
      cases hr
      exact ⟨rfl, rfl, by simp [Frame.alone], by simp [Frame.under]⟩
  all_goals cases hf

theorem callStep_continues {op : Op ι} (halone : s.workers = [])
    (hr : callStep s th now op = some (s', gs)) : Continues s s' gs := by
  cases op <;> simp only [callStep] at hr
  case create e hasArg hasFreeproc =>
    rw [Option.map_eq_some_iff] at hr
    obtain ⟨s₁, hcreate, heq⟩ := hr
    cases heq
    unfold createTask at hcreate
    split_ifs at hcreate
    cases hcreate
    exact .nil rfl rfl
  case resetInterval e interval =>
    split_ifs at hr
    rw [Option.map_eq_some_iff] at hr
    obtain ⟨s₁, hreset, heq⟩ := hr
    cases heq
    unfold resetInterval at hreset
    split_ifs at hreset <;> cases hreset <;> exact .nil rfl rfl
  case work =>
    rw [halone] at hr
    simp at hr
  all_goals
    split_ifs at hr
    cases hr
    exact .one rfl rfl rfl

theorem step_canCall {e : Event ι θ} {op : Op ι} (hact : e.act = .call op)
    (hstep : step s e = some s') : canCall (s.stack e.thread) = true := by
  unfold step at hstep
  split_ifs at hstep
  rw [Option.map_eq_some_iff] at hstep
  obtain ⟨_, hr, -⟩ := hstep
  rw [hact] at hr
  simp only [actStep] at hr
  split_ifs at hr with hcan
  exact hcan

/-- What holds between any two steps of the only thread. -/
structure Alone (main : θ) (s : System ι θ) : Prop where
  mainLoop : s.mainLoop = main
  workers : s.workers = []
  nested : Nested (s.stack main)
  calls : Stuck s.w (s.stack main) ∨ ∀ t, (∃ p, Placed t p s) ∧ Fine t s.w (s.hist t) (s.stack main)
  neverRun : ∀ t, (s.hist t).ranCancelled = false

omit [DecidableEq θ] in
/-- A step of a call about another task. -/
theorem Sound.foreign {e : ι} (hsound : Sound t s (f :: fs)) (ha : f.about = some e) (he : e ≠ t)
    (hr : Foreign t s (s', gs)) (hunder : ∀ f ∈ fs, f.under = true) : Sound t s' (gs ++ fs) := by
  have hne : f.about ≠ some t := by
    rw [ha]
    simpa using he
  have hbody : f ≠ .exec t .body := by
    rintro rfl
    exact hne rfl
  refine ⟨?_, ?_⟩
  · rw [hr.same.hist]
    refine (hsound.fine.calm hne).step hr.same.w.kept ?_ hbody hr.about hunder
    rw [Frame.count_foreign ha he]
    exact held_eq_zero hr.count
  · rw [hr.same.hist]
    exact hsound.neverRun

/-- A submission takes effect in the state `CREATED` only. -/
theorem Own.submits {w : Callout ι} {hist : History} (ho : Own t w hist fs f)
    (hsub : f.submits t = true) : w.tskTbl t = some .created := by
  cases f <;> simp only [Frame.submits, Bool.false_eq_true] at hsub
  rename_i q
  cases q
  · simp at hsub
  · exact ho.2
  · exact ho.2

/-- A step of the running call. -/
theorem frameStep_sound (halone : s.workers = []) (hf : f.alone = true)
    (hs : s.stack th = f :: fs) (hunder : ∀ f ∈ fs, f.under = true)
    (hall : ∀ t, (∃ p, Placed t p s) ∧ Sound t s (f :: fs))
    (hr : frameStep s th now f = some (s', gs)) :
    Stuck s'.w (gs ++ fs) ∧ s'.hist = s.hist ∨ ∀ t, Sound t s' (gs ++ fs) := by
  cases ha : f.about with
  | some e =>
    obtain ⟨⟨p, hplaced⟩, hsound⟩ := hall e
    have hother : Sound e s' (gs ++ fs) → ∀ t, Sound t s' (gs ++ fs) := by
      intro hself t
      by_cases he : e = t
      · exact he ▸ hself
      · exact (hall t).2.foreign ha he (frameStep_foreign ha he hr) hunder
    cases f <;> simp only [Frame.about, Option.some.injEq, reduceCtorEq] at ha <;> subst ha
    · exact .inr (hother (submitStep_sound hplaced hs hunder hsound hr))
    · exact (cancelStep_sound hplaced hs hunder hsound hr).imp id hother
    · exact .inr (hother (execStep_sound hplaced hs hunder hsound hr))
    · exact .inr (hother (destroyStep_sound hplaced hs hunder hsound hr))
    · exact .inr (hother (forceStep_sound hplaced hs hunder halone hsound hr))
  | none =>
    refine .inr fun t => ?_
    obtain ⟨⟨p, hplaced⟩, hsound⟩ := hall t
    cases f <;> simp only [Frame.about, reduceCtorEq] at ha
    · exact fetchStep_sound hsound hr
    · exact fetchTimedStep_sound hplaced hs hunder hsound hr
    · exact runTasksBySelfStep_sound hplaced hs hunder hsound hr
    all_goals cases hf

/-- A thread that waits for itself goes on waiting. -/
theorem Stuck.step (h : Stuck s.w (f :: fs)) (hr : frameStep s th now f = some (s', gs)) :
    Stuck s'.w (gs ++ fs) ∧ s' = s ∧ Continues s s' gs := by
  obtain ⟨t, rest, hframe | ⟨since, hframe⟩, hexec⟩ := h <;> cases hframe
  · simp only [frameStep, cancelStep] at hr
    split_ifs at hr
    cases hr
    exact ⟨⟨t, fs, .inr ⟨_, rfl⟩, hexec⟩, rfl, .one rfl rfl rfl⟩
  · cases hr

omit [DecidableEq ι] in
/-- The calls below the running one. -/
theorem Nested.rest (hn : Nested (f :: fs)) : Nested fs :=
  ⟨fun g hg => hn.1 g (List.mem_cons_of_mem _ hg), fun g hg => hn.2 g (List.mem_of_mem_tail hg)⟩

/-- The calls that the running one leaves. -/
theorem Alone.after {s₁ : System ι θ} (h : Alone th s) (hc : Continues s s₁ gs) (hn : Nested fs)
    (hunder : ∀ f ∈ fs, f.under = true)
    (hcalls : Stuck s₁.w (gs ++ fs) ∧ s₁.hist = s.hist ∨ ∀ t,
      (∃ p, Placed t p (s.after s₁ th now (gs ++ fs))) ∧ Sound t s₁ (gs ++ fs)) :
    Alone th (s.after s₁ th now (gs ++ fs)) := by
  have hstack : (s.after s₁ th now (gs ++ fs)).stack th = gs ++ fs := by simp [System.after]
  refine ⟨hc.mainLoop.trans h.mainLoop, hc.workers.trans h.workers, ?_, ?_, ?_⟩
  · rw [hstack]
    exact hc.nested hn hunder
  · rw [hstack]
    exact hcalls.imp And.left fun hall t => ⟨(hall t).1, (hall t).2.fine⟩
  · intro t
    rcases hcalls with ⟨-, hhist⟩ | hall
    · show (s₁.hist t).ranCancelled = false
      rw [hhist]
      exact h.neverRun t
    · exact (hall t).2.neverRun

/-- **A step of the only thread.** -/
theorem Alone.step {e : Event ι θ} (h : Alone e.thread s) (hstep : step s e = some s') :
    Alone e.thread s' := by
  have hsound : (∀ t, (∃ p, Placed t p s) ∧ Fine t s.w (s.hist t) (s.stack e.thread)) →
      ∀ t, (∃ p, Placed t p s) ∧ Sound t s (s.stack e.thread) :=
    fun hall t => ⟨(hall t).1, (hall t).2, h.neverRun t⟩
  cases step_cases hstep with
  | call hact hr =>
    have hcan := step_canCall hact hstep
    have hunder : ∀ f ∈ s.stack e.thread, f.under = true := by
      have hn := h.nested.2
      unfold canCall at hcan
      split at hcan
      · simp_all
      · next hs =>
        rw [hs] at hn ⊢
        exact List.forall_mem_cons.mpr ⟨rfl, hn⟩
      · contradiction
    refine h.after (callStep_continues h.workers hr) h.nested hunder ?_
    rcases h.calls with ⟨t, rest, hs | ⟨since, hs⟩, -⟩ | hall
    · rw [hs] at hcan
      contradiction
    · rw [hs] at hcan
      contradiction
    · refine .inr fun t => ?_
      obtain ⟨⟨p, hplaced⟩, hsnd⟩ := hsound hall t
      exact ⟨callStep_placed hplaced hr,
        callStep_sound hplaced rfl hcan hunder h.workers hsnd hr⟩
  | go hact hs hr =>
    rename_i f fs gs s₁
    have hn := h.nested
    rw [hs] at hn
    have hunder : ∀ f ∈ fs, f.under = true := hn.2
    have halone := hn.1 f List.mem_cons_self
    have hrest := hn.rest
    refine h.after (frameStep_continues h.workers halone hr) hrest hunder ?_
    rcases h.calls with hstuck | hall
    · rw [hs] at hstuck
      obtain ⟨hstuck', heq, -⟩ := hstuck.step hr
      exact .inl ⟨hstuck', heq ▸ rfl⟩
    · have hall' := hsound hall
      rw [hs] at hall'
      refine (frameStep_sound h.workers halone hs hunder hall' hr).imp id fun hsnd t => ⟨?_, hsnd t⟩
      obtain ⟨⟨p, hplaced⟩, hown⟩ := hall' t
      refine frameStep_placed hplaced hs (fun hsub => ?_) hr
      have ha : f.about = some t := by
        cases f <;> simp only [Frame.submits, Bool.false_eq_true] at hsub
        have := (Bool.and_eq_true_iff.mp hsub).1
        exact congrArg some (of_decide_eq_true this)
      exact (hown.fine.own ha).submits hsub
  | finish hact hs =>
    rename_i t' r fs
    have hn := h.nested
    rw [hs] at hn
    have hunder : ∀ f ∈ fs, f.under = true := hn.2
    have hrest := hn.rest
    have hcont : Continues s (execEnd s t' r).1 (execEnd s t' r).2 := by
      unfold execEnd
      split_ifs <;> exact .one rfl rfl rfl
    refine h.after hcont hrest hunder ?_
    rcases h.calls with ⟨t, rest, hstuck | ⟨since, hstuck⟩, -⟩ | hall
    · rw [hs] at hstuck
      cases hstuck
    · rw [hs] at hstuck
      cases hstuck
    · have hall' := hsound hall
      rw [hs] at hall'
      refine .inr fun t => ?_
      obtain ⟨⟨p, hplaced⟩, hsnd⟩ := hall' t
      by_cases he : t' = t
      · subst he
        exact ⟨execEnd_placed hplaced hs rfl, execEnd_sound hplaced hs hsnd⟩
      · exact ⟨⟨p, hplaced.foreign hs rfl he (execEnd_foreign he r)⟩,
          hsnd.foreign rfl he (execEnd_foreign he r) hunder⟩
  | wake hact hs hwoken =>
    rename_i spurious t' since fs
    have hn := h.nested
    rw [hs] at hn
    have hunder : ∀ f ∈ fs, f.under = true := hn.2
    have hrest := hn.rest
    refine h.after (.one rfl rfl rfl) hrest hunder (.inl ⟨?_, rfl⟩)
    rcases h.calls with ⟨t, rest, hstuck, hexec⟩ | hall
    · rw [hs] at hstuck
      rcases hstuck with hstuck | ⟨_, hstuck⟩ <;> cases hstuck
      exact ⟨t', fs, .inl rfl, hexec⟩
    · have hfine := (hall t').2
      rw [hs] at hfine
      exact absurd (hfine.own rfl) id

theorem Alone.init (clock : Chrono) (mainLoop : θ) :
    Alone mainLoop (System.init clock mainLoop [] : System ι θ) :=
  ⟨rfl, rfl, ⟨by simp [System.init], by simp [System.init]⟩,
    .inr fun t => ⟨⟨.nowhere, .init t clock mainLoop []⟩, .unborn rfl rfl rfl⟩, fun _ => rfl⟩

/-- What holds of a task between two calls. -/
structure Quiet (t : ι) (s : System ι θ) : Prop where
  /-- It is in at most one of the three queues. -/
  once : s.w.urgentTskQ.count t + s.w.idleTskQ.count t + s.w.chronoTskQ.count t ≤ 1
  enqueued : s.w.tskTbl t = some .enqueued →
    s.w.urgentTskQ.count t + s.w.idleTskQ.count t + s.w.chronoTskQ.count t = 1
  created : s.w.tskTbl t = some .created →
    s.w.urgentTskQ.count t + s.w.idleTskQ.count t + s.w.chronoTskQ.count t = 0
  cancelled : s.w.tskTbl t = some .cancelled →
    s.w.chronoTskQ.count t = 0 ∧ s.w.urgentTskQ.count t + s.w.idleTskQ.count t = 1
  agree : ∀ st, s.w.tskTbl t = some st → (s.w.task t).status = st
  /-- `m_freeproc` is called once, when the task leaves the table. -/
  freed : (s.hist t).freed =
    if (s.hist t).created ∧ s.w.tskTbl t = none ∧ (s.w.task t).hasFreeproc ∧ (s.w.task t).hasArg
    then 1 else 0
  /-- No task was executed after its cancellation. -/
  neverRun : (s.hist t).ranCancelled = false

theorem Calm.quiet {p : Place θ} (h : Placed t p s) (hc : Calm t s.w (s.hist t) [])
    (hnever : (s.hist t).ranCancelled = false) : Quiet t s := by
  have honce : s.w.urgentTskQ.count t + s.w.idleTskQ.count t + s.w.chronoTskQ.count t ≤ 1 := by
    rw [h.urgent, h.idle, h.timed]
    cases p <;> simp
  have hnowhere : p = .nowhere →
      s.w.urgentTskQ.count t + s.w.idleTskQ.count t + s.w.chronoTskQ.count t = 0 := by
    rintro rfl
    rw [h.urgent, h.idle, h.timed]
    rfl
  have hcreated := fun htbl => hnowhere (h.fresh htbl)
  cases hc with
  | unborn hnew hfreed =>
    obtain ⟨-, htbl, -⟩ := h.unborn hnew
    refine ⟨honce, ?_, hcreated, ?_, ?_, ?_, hnever⟩ <;> simp [htbl, hnew, hfreed]
  | rest hborn hrest =>
    have htable := hrest.alive.table
    have hfits := hrest.fits
    refine ⟨honce, fun htbl => ?_, hcreated, fun htbl => ?_, fun st htbl => ?_, ?_, hnever⟩
    · rw [htable] at htbl
      rw [Option.some.inj htbl] at hfits
      have hsome : somewhere t s.w [] ≠ 0 := hfits
      simp only [somewhere, held_nil, Nat.add_zero] at hsome
      omega
    · rw [htable] at htbl
      rw [Option.some.inj htbl] at hfits
      obtain ⟨htimed, hsome⟩ : s.w.chronoTskQ.count t = 0 ∧ somewhere t s.w [] ≠ 0 := hfits
      simp only [somewhere, held_nil, Nat.add_zero] at hsome
      exact ⟨htimed, by omega⟩
    · rw [htable] at htbl
      exact Option.some.inj htbl
    · simp [htable, hrest.alive.freed]
  | gone hborn hgone =>
    have htbl := hgone.table
    refine ⟨honce, ?_, hcreated, ?_, ?_, ?_, hnever⟩ <;> simp [htbl, hborn, hgone.freed]

/-- **The only thread.** Without workers, after whatever calls the only thread made, from outside
and from the procedures of the tasks, no task was executed after its cancellation; and where no
call is under way, every task is quiet. -/
theorem alone_quiet {clock : Chrono} {mainLoop : θ} {es : List (Event ι θ)} {s : System ι θ}
    (h : Trans.run step (System.init clock mainLoop []) es = some s)
    (hes : ∀ e ∈ es, e.thread = mainLoop) (t : ι) :
    (s.hist t).ranCancelled = false ∧ (s.stack mainLoop = [] → Quiet t s) := by
  have hrun : Trans.Run step (fun _ e => e.thread = mainLoop)
      (System.init clock mainLoop []) es s := .of_run (fun e he _ => hes e he) h
  have hinv : Alone mainLoop s := by
    refine hrun.inv (fun s e s' hs hth hstep => ?_) (Alone.init clock mainLoop)
    subst hth
    exact hs.step hstep
  refine ⟨hinv.neverRun t, fun hidle => ?_⟩
  rcases hinv.calls with ⟨t', rest, hstuck | ⟨since, hstuck⟩, -⟩ | hall
  · rw [hidle] at hstuck
    cases hstuck
  · rw [hidle] at hstuck
    cases hstuck
  · obtain ⟨⟨p, hplaced⟩, hfine⟩ := hall t
    rw [hidle] at hfine
    exact Calm.quiet hplaced hfine (hinv.neverRun t)

/-- Two urgent tasks are fetched, and the procedure of the first one cancels the second. Both are
destroyed. -/
def cancelledByOther : List (Event (Fin 2) (Fin 1)) :=
  [⟨0, 1, .call (.create 0 true true)⟩, ⟨0, 1, .call (.create 1 true true)⟩,
    ⟨0, 1, .call (.submit 0 0 0)⟩, ⟨0, 1, .go⟩, ⟨0, 1, .go⟩,
    ⟨0, 1, .call (.submit 1 0 0)⟩, ⟨0, 1, .go⟩, ⟨0, 1, .go⟩, ⟨0, 1, .call .iterate⟩] ++
    List.replicate 6 ⟨0, 1, .go⟩ ++ [⟨0, 1, .call (.cancel 1)⟩] ++ List.replicate 3 ⟨0, 1, .go⟩ ++
    [⟨0, 1, .finish Result.ok⟩] ++ List.replicate 19 ⟨0, 1, .go⟩

theorem alone_quiet_cancelledByOther :
    ∃ s, Trans.run step (System.init 1 0 []) cancelledByOther = some s ∧
      s.stack 0 = [] ∧ (s.hist 1).cancelled = true ∧ s.w.tskTbl 1 = none ∧
      (s.hist 1).freed = 1 ∧ Quiet 1 s := by
  have h : ((Trans.run step (System.init 1 0 []) cancelledByOther).map fun s =>
      (s.stack 0, (s.hist 1).cancelled, s.w.tskTbl 1, (s.hist 1).freed)) =
      some ([], true, none, 1) := by decide +kernel
  obtain ⟨s, hrun, hs⟩ := Option.map_eq_some_iff.mp h
  simp only [Prod.mk.injEq] at hs
  obtain ⟨hidle, hcancelled, htbl, hfreed⟩ := hs
  exact ⟨s, hrun, hidle, hcancelled, htbl, hfreed, (alone_quiet hrun (by decide) 1).2 hidle⟩


end Runs

end Callout
end Gallus
