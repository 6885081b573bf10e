import Gallus.Pipeline.Life

/-!
# No pause request is left behind

* `SettledAt`: how the request flag, the state word and the maintenance function stand to the call
  that holds `m_lock` and to the workers. Each step in the life of a stage keeps it, but for a pause
  that expires before the stage is paused.
* `no_request_left`: while the stage is started and no pause or maintenance call is in progress,
  `m_pause_requested` is false. `request_left`: the pause that expires leaves its request behind.
-/

namespace Gallus
namespace Pipeline

variable {ι κ : Type} [DecidableEq ι]

/-- In a pause or a maintenance call. -/
def CallerPoint.requesting : CallerPoint → Bool
  | .pauseSet | .pauseWait | .pauseGiveUp | .maintSet | .maintRequest | .maintWait | .maintGiveUp
  | .maintDrop => true
  | _ => false

/-- Accounts for the request flag. -/
def CallerPoint.asking : CallerPoint → Bool
  | .pauseWait | .pauseGiveUp | .maintRequest | .maintWait | .maintGiveUp => true
  | _ => false

/-- Accounts for the maintenance function. -/
def CallerPoint.maintaining : CallerPoint → Bool
  | .maintRequest | .maintWait | .maintGiveUp | .maintDrop => true
  | _ => false

/-- The master of a maintenance. -/
def Point.serving : Point → Bool
  | .released true true | .maintRun | .maintClear | .maintStart => true
  | _ => false

/-- With `m_pause_lock`, over several steps. -/
def Point.owning : Point → Bool
  | .maintRun | .maintClear | .maintStart => true
  | _ => false

/-- At the end of a maintenance. -/
def Point.finishing : Point → Bool
  | .maintClear | .maintStart => true
  | _ => false

/-- No worker of the stage has been started. -/
def StageState.new : StageState → Bool
  | .initialized | .setup | .finalized => true
  | _ => false

/-- The words of the stage, the call `c` that holds `m_lock`, and the workers fit together. -/
structure SettledAt (status : StageState) (flag : Bool) (proc : Option κ)
    (lock : Option (ι ⊕ κ)) (c : CallerPoint) (point : ι → Point) : Prop where
  asked : flag = true → status = .paused ∨ c.asking = true
  cleared : c = .resumeStatus ∨ c = .shutdownStatus ∨ c = .cancelStatus → flag = false
  pending : proc.isSome → c.maintaining = true
  request : c = .maintRequest → (∃ k, lock = some (.inr k)) ∧ status = .maintenanceRequested
  served : c = .maintWait → status = .maintenanceRequested ∨ status = .paused ∨
    status = .started ∧ flag = false ∧ proc = none
  givenUp : c = .maintGiveUp ∨ c = .maintDrop → status = .paused
  new : status.new = true → flag = false ∧ (∀ i, (point i).free = true) ∧
    (c = .outside ∨ c = .startStatus ∨ c = .startWait)
  starting : c = .startStatus → status.new = true
  owner : ∀ i, (point i).owning = true → lock = some (.inl i)
  single : ∀ i j, (point i).ofMaster = true → (point j).ofMaster = true → i = j
  ending : ∀ i, (point i).finishing = true →
    proc = none ∧ status = .maintenanceRequested ∧ c = .maintWait
  restarting : ∀ i, point i = .maintStart → flag = false
  /-- While a maintenance finds the stage paused, no maintenance is served, and some worker is not
  on its way to the barrier. -/
  refused : status = .paused → c.maintaining = true → (∀ i, (point i).serving = false) ∧
    ∃ m, point m = .resumeWait ∨ point m = .exited ∨ flag = false ∧ (point m).free = true

/-- The stage is settled. -/
structure Settled (s : Stage ι κ) : Prop where
  held : HeldBy s
  words : SettledAt s.status s.pauseRequested s.maintProc s.pauseLock s.holder s.point

theorem Point.ofMaster_of_serving {p : Point} (h : p.serving = true) : p.ofMaster = true := by
  cases p <;> first | contradiction | skip
  next maint isMaster => cases maint <;> cases isMaster <;> first | contradiction | rfl
  all_goals rfl

theorem Point.ofMaster_of_owning {p : Point} (h : p.owning = true) : p.ofMaster = true := by
  cases p <;> first | contradiction | rfl

theorem Point.ofMaster_of_finishing {p : Point} (h : p.finishing = true) : p.ofMaster = true := by
  cases p <;> first | contradiction | rfl

theorem Point.not_free_of_ofMaster {p : Point} (h : p.ofMaster = true) : p.free ≠ true := by
  cases p <;> simp_all [Point.ofMaster, Point.free]

variable {s s' : Stage ι κ} {status : StageState} {flag : Bool} {proc : Option κ}
  {lock : Option (ι ⊕ κ)} {c : CallerPoint} {point : ι → Point} {i : ι} {p : Point}

/-! ## Workers -/

/-- A worker that is at such a point after `i` has left for another one was there before. -/
theorem moved {P : Point → Bool} (hp : P p = false) {j : ι}
    (h : P (Function.update point i p j) = true) : j ≠ i ∧ P (point j) = true := by
  have hj : j ≠ i := by
    rintro rfl
    rw [Function.update_self, hp] at h
    contradiction
  exact ⟨hj, by rwa [Function.update_of_ne hj] at h⟩

namespace SettledAt

/-- A worker that is not a master takes a quiet step. -/
theorem quietly (h : SettledAt status flag proc lock c point) (hp : Quietly s (point i) p)
    (hflag : s.pauseRequested = flag) :
    SettledAt status flag proc lock c (Function.update point i p) :=
  have hno : ∀ P : Point → Bool, (∀ q, P q = true → q.ofMaster = true) → P p = false :=
    fun P hP => by
      by_contra hn
      have := hP p (by simpa using hn)
      rw [hp.noMaster.2] at this
      contradiction
  { h with
    new := fun hn => by
      obtain ⟨hf, hall, hc⟩ := h.new hn
      refine ⟨hf, fun j => ?_, hc⟩
      by_cases hj : j = i
      · subst hj
        rw [Function.update_self]
        exact hp.free (hflag ▸ hf) (.inl (hall j))
      · rw [Function.update_of_ne hj]
        exact hall j
    owner := fun j hj => h.owner j (moved (hno _ fun _ => Point.ofMaster_of_owning) hj).2
    single := fun j l hj hl =>
      h.single j l (moved hp.noMaster.2 hj).2 (moved hp.noMaster.2 hl).2
    ending := fun j hj => h.ending j (moved (hno _ fun _ => Point.ofMaster_of_finishing) hj).2
    restarting := fun j hj => by
      have hstart := hno (· == .maintStart) fun q hq => by rw [beq_iff_eq.mp hq]; rfl
      exact h.restarting j
        (beq_iff_eq.mp (moved (P := (· == .maintStart)) hstart (beq_iff_eq.mpr hj)).2)
    refused := fun hst hc => by
      obtain ⟨hs, m, hm⟩ := h.refused hst hc
      refine ⟨fun j => ?_, m, ?_⟩
      · by_contra hj
        have := (moved (hno _ fun _ => Point.ofMaster_of_serving) (by simpa using hj)).2
        rw [hs j] at this
        contradiction
      · by_cases hmi : m = i
        · subst hmi
          rw [Function.update_self]
          rcases hm with hm | hm | ⟨hf, hm⟩
          · rcases hp.rests hm with hr | hr | hr
            · exact .inl hr
            · exact .inr (.inl hr)
            · exact .inr (.inr ⟨hflag ▸ hr, hp.free hr (.inr hm)⟩)
          · exact absurd hm hp.there
          · exact .inr (.inr ⟨hf, hp.free (hflag ▸ hf) (.inl hm)⟩)
        · rwa [Function.update_of_ne hmi] }

/-- After a step of the master `i`, nobody else is at a point of the master. -/
theorem sole (h : SettledAt status flag proc lock c point) (hi : (point i).ofMaster = true)
    {j : ι} (hj : (Function.update point i p j).ofMaster = true) : j = i := by
  by_contra hji
  rw [Function.update_of_ne hji] at hj
  exact hji (h.single j i hj hi)

/-- After the last step of the master `i`, nobody is at a point of the master. -/
theorem nobody (h : SettledAt status flag proc lock c point) (hi : (point i).ofMaster = true)
    (hp : p.ofMaster = false) (j : ι) : (Function.update point i p j).ofMaster ≠ true :=
  fun hj => (moved hp hj).1 (h.sole hi hj)

omit [DecidableEq ι] in
/-- With a master, the stage is not new. -/
theorem not_new (h : SettledAt status flag proc lock c point) (hi : (point i).ofMaster = true) :
    status.new ≠ true :=
  fun hn => Point.not_free_of_ofMaster hi ((h.new hn).2.1 i)

/-- The master of a pause sets the state word. -/
theorem pauses (h : SettledAt status flag proc lock c point) (hi : point i = .released false true)
    (hfree : lock = .none) (hp : p = if flag then .resumeWait else .loop) :
    SettledAt .paused flag proc lock c (Function.update point i p) := by
  have hm : (point i).ofMaster = true := by rw [hi]; rfl
  have hno : ∀ j, (Function.update point i p j).ofMaster ≠ true :=
    h.nobody hm (by rw [hp]; split_ifs <;> rfl)
  exact {
    asked := fun _ => .inl rfl
    cleared := h.cleared
    pending := h.pending
    request := fun hc => by
      obtain ⟨⟨k, hk⟩, -⟩ := h.request hc
      rw [hfree] at hk
      contradiction
    served := fun _ => .inr (.inl rfl)
    givenUp := fun _ => rfl
    new := fun hn => by contradiction
    starting := fun hc => absurd (h.starting hc) (h.not_new hm)
    owner := fun j hj => absurd (Point.ofMaster_of_owning hj) (hno j)
    single := fun j _ hj => absurd hj (hno j)
    ending := fun j hj => absurd (Point.ofMaster_of_finishing hj) (hno j)
    restarting := fun j hj => absurd (by rw [hj]; rfl) (hno j)
    refused := fun _ _ => by
      refine ⟨fun j => Bool.eq_false_iff.mpr fun hj =>
        hno j (Point.ofMaster_of_serving hj), i, ?_⟩
      rw [Function.update_self, hp]
      cases flag
      · exact .inr (.inr ⟨rfl, rfl⟩)
      · exact .inl rfl }

/-- The master of a maintenance takes `m_pause_lock`. -/
theorem locks (h : SettledAt status flag proc lock c point) (hi : point i = .released true true)
    (hfree : lock = .none) :
    SettledAt status flag proc (some (.inl i)) c (Function.update point i .maintRun) := by
  have hm : (point i).ofMaster = true := by rw [hi]; rfl
  exact { h with
    request := fun hc => by
      obtain ⟨⟨k, hk⟩, -⟩ := h.request hc
      rw [hfree] at hk
      contradiction
    new := fun hn => absurd hn (h.not_new hm)
    owner := fun j hj => by rw [h.sole hm (Point.ofMaster_of_owning hj)]
    single := fun j l hj hl => (h.sole hm hj).trans (h.sole hm hl).symm
    ending := fun j hj => h.ending j (moved rfl hj).2
    restarting := fun j hj =>
      h.restarting j (beq_iff_eq.mp (moved (P := (· == .maintStart)) rfl (beq_iff_eq.mpr hj)).2)
    refused := fun hst hc => by
      have := (h.refused hst hc).1 i
      rw [hi] at this
      contradiction }

/-- The maintenance function has returned: its call waits for it. -/
theorem runs (h : SettledAt status flag proc lock c point) (hi : point i = .maintRun)
    (hproc : proc.isSome) :
    SettledAt status flag .none lock c (Function.update point i .maintClear) := by
  have hm : (point i).ofMaster = true := by rw [hi]; rfl
  have hmaint := h.pending hproc
  have hst : status ≠ .paused := fun hst => by
    have := (h.refused hst hmaint).1 i
    rw [hi] at this
    contradiction
  have hc : c = .maintWait := by
    have hreq : c ≠ .maintRequest := fun hc => by
      obtain ⟨⟨k, hk⟩, -⟩ := h.request hc
      rw [h.owner i (by rw [hi]; rfl)] at hk
      cases hk
    have hgive : ¬(c = .maintGiveUp ∨ c = .maintDrop) := fun hc => hst (h.givenUp hc)
    cases c <;> simp_all [CallerPoint.maintaining]
  have hreq : status = .maintenanceRequested := by
    rcases h.served hc with hs | hs | ⟨-, -, hs⟩
    · exact hs
    · exact absurd hs hst
    · rw [hs] at hproc
      contradiction
  exact { h with
    pending := fun hn => by contradiction
    served := fun _ => .inl hreq
    new := fun hn => absurd hn (h.not_new hm)
    owner := fun j hj => by
      rw [h.sole hm (Point.ofMaster_of_owning hj)]
      exact h.owner i (by rw [hi]; rfl)
    single := fun j l hj hl => (h.sole hm hj).trans (h.sole hm hl).symm
    ending := fun _ _ => ⟨rfl, hreq, hc⟩
    restarting := fun j hj =>
      h.restarting j (beq_iff_eq.mp (moved (P := (· == .maintStart)) rfl (beq_iff_eq.mpr hj)).2)
    refused := fun hs => absurd hs hst }

/-- The master is cancelled in the maintenance function. -/
theorem dies (h : SettledAt status flag proc lock c point) (hi : point i = .maintRun) :
    SettledAt status flag proc .none c (Function.update point i .exited) := by
  have hm : (point i).ofMaster = true := by rw [hi]; rfl
  have hno := h.nobody hm (p := .exited) rfl
  exact { h with
    request := fun hc => by
      obtain ⟨⟨k, hk⟩, -⟩ := h.request hc
      rw [h.owner i (by rw [hi]; rfl)] at hk
      cases hk
    new := fun hn => absurd hn (h.not_new hm)
    owner := fun j hj => absurd (Point.ofMaster_of_owning hj) (hno j)
    single := fun j _ hj => absurd hj (hno j)
    ending := fun j hj => absurd (Point.ofMaster_of_finishing hj) (hno j)
    restarting := fun j hj => absurd (by rw [hj]; rfl) (hno j)
    refused := fun hst hc => by
      have := (h.refused hst hc).1 i
      rw [hi] at this
      contradiction }

/-- The master of a maintenance takes the request back. -/
theorem takesBack (h : SettledAt status flag proc lock c point) (hi : point i = .maintClear) :
    SettledAt status false proc lock c (Function.update point i .maintStart) := by
  have hm : (point i).ofMaster = true := by rw [hi]; rfl
  have hend := h.ending i (by rw [hi]; rfl)
  exact { h with
    asked := fun hf => by contradiction
    cleared := fun _ => rfl
    served := fun _ => .inl hend.2.1
    new := fun hn => absurd hn (h.not_new hm)
    owner := fun j hj => by
      rw [h.sole hm (Point.ofMaster_of_owning hj)]
      exact h.owner i (by rw [hi]; rfl)
    single := fun j l hj hl => (h.sole hm hj).trans (h.sole hm hl).symm
    ending := fun _ _ => hend
    restarting := fun _ _ => rfl
    refused := fun hst => by
      rw [hend.2.1] at hst
      contradiction }

/-- The master of a maintenance starts the stage again. -/
theorem starts (h : SettledAt status flag proc lock c point) (hi : point i = .maintStart) :
    SettledAt .started flag proc .none c (Function.update point i .loop) := by
  have hm : (point i).ofMaster = true := by rw [hi]; rfl
  have hno := h.nobody hm (p := .loop) rfl
  obtain ⟨hproc, hst, rfl⟩ := h.ending i (by rw [hi]; rfl)
  have hflag := h.restarting i hi
  exact {
    asked := fun hf => by
      rw [hflag] at hf
      contradiction
    cleared := fun _ => hflag
    pending := h.pending
    request := fun hc => by contradiction
    served := fun _ => .inr (.inr ⟨rfl, hflag, hproc⟩)
    givenUp := fun hc => by rcases hc with hc | hc <;> contradiction
    new := fun hn => by contradiction
    starting := fun hc => by contradiction
    owner := fun j hj => absurd (Point.ofMaster_of_owning hj) (hno j)
    single := fun j _ hj => absurd hj (hno j)
    ending := fun j hj => absurd (Point.ofMaster_of_finishing hj) (hno j)
    restarting := fun _ _ => hflag
    refused := fun hst => by contradiction }

/-- The barrier lets the workers go. -/
theorem released (h : SettledAt status flag proc lock c point) {point' : ι → Point} {master : ι}
    (hp : ∀ i, ∃ maint, point i = .barrier maint ∧
      point' i = .released maint (decide (i = master))) :
    SettledAt status flag proc lock c point' := by
  have hno : ∀ P : Point → Bool, (∀ m b, P (.released m b) = false) → ∀ j, P (point' j) ≠ true :=
    fun P hP j hj => by
      obtain ⟨maint, -, hj'⟩ := hp j
      rw [hj', hP] at hj
      contradiction
  have hmaster : ∀ j, (point' j).ofMaster = true → j = master := fun j hj => by
    by_contra hjm
    obtain ⟨maint, -, hj'⟩ := hp j
    rw [hj', decide_eq_false hjm] at hj
    cases maint <;> contradiction
  exact { h with
    new := fun hn => by
      obtain ⟨hf, hall, hc⟩ := h.new hn
      obtain ⟨maint, hi, -⟩ := hp master
      have := hall master
      rw [hi] at this
      contradiction
    owner := fun j hj => absurd hj (hno Point.owning (fun _ _ => rfl) j)
    single := fun j l hj hl => (hmaster j hj).trans (hmaster l hl).symm
    ending := fun j hj => absurd hj (hno Point.finishing (fun _ _ => rfl) j)
    restarting := fun j hj =>
      absurd (beq_iff_eq.mpr hj) (hno (· == .maintStart) (fun _ _ => rfl) j)
    refused := fun hst hc => by
      obtain ⟨-, m, hm⟩ := h.refused hst hc
      obtain ⟨maint, hi, -⟩ := hp m
      rw [hi] at hm
      rcases hm with hm | hm | ⟨-, hm⟩ <;> contradiction }

end SettledAt

/-! ## Calls -/

omit [DecidableEq ι] in
/-- No maintenance ends while the call that holds `m_lock` does not wait for one. -/
theorem SettledAt.none_finishing (h : SettledAt status flag proc lock c point)
    (hc : c ≠ .maintWait) (i : ι) : (point i).finishing ≠ true :=
  fun hi => hc (h.ending i hi).2.2

omit [DecidableEq ι] in
/-- The call that holds `m_lock` goes on to `c'`, with the same function and lock, and takes the
request flag to `flag'` and the state word to `status'`. -/
theorem SettledAt.goes (h : SettledAt status flag proc lock c point) (hwait : c ≠ .maintWait)
    {status' : StageState} {flag' : Bool} {c' : CallerPoint}
    (hasked : flag' = true → status' = .paused ∨ c'.asking = true)
    (hcleared : c' = .resumeStatus ∨ c' = .shutdownStatus ∨ c' = .cancelStatus → flag' = false)
    (hpending : c.maintaining = true → proc.isSome → c'.maintaining = true)
    (hnot : c' ≠ .maintRequest ∧ c' ≠ .maintWait)
    (hgiven : c'.maintaining = true → status' = .paused → c.maintaining = true ∧
      status = .paused ∧ (flag' = true → flag = true))
    (hgiven' : c' = .maintGiveUp ∨ c' = .maintDrop → status' = .paused)
    (hnew : status'.new = true → status.new = true ∧ flag' = flag ∧
      (c' = .outside ∨ c' = .startStatus ∨ c' = .startWait))
    (hstart : c' = .startStatus → status'.new = true) :
    SettledAt status' flag' proc lock c' point where
  asked := hasked
  cleared := hcleared
  pending := fun hp => hpending (h.pending hp) hp
  request := fun hc => absurd hc hnot.1
  served := fun hc => absurd hc hnot.2
  givenUp := hgiven'
  new := fun hn => by
    obtain ⟨hn', rfl, hc⟩ := hnew hn
    obtain ⟨hf, hall, -⟩ := h.new hn'
    exact ⟨hf, hall, hc⟩
  starting := hstart
  owner := h.owner
  single := h.single
  ending := fun i hi => absurd hi (h.none_finishing hwait i)
  restarting := fun i hi => absurd (by rw [hi]; rfl) (h.none_finishing hwait i)
  refused := fun hst hc => by
    obtain ⟨hm, hst', hf⟩ := hgiven hc hst
    obtain ⟨hs, m, hr⟩ := h.refused hst' hm
    refine ⟨hs, m, ?_⟩
    rcases hr with hr | hr | ⟨hr, hfree⟩
    · exact .inl hr
    · exact .inr (.inl hr)
    · refine .inr (.inr ⟨?_, hfree⟩)
      cases flag'
      · rfl
      · rw [hf rfl] at hr
        contradiction

omit [DecidableEq ι] in
/-- The workers of a new stage are started. -/
theorem SettledAt.launched (h : SettledAt status flag proc lock c point)
    (hnew : status.new = true) :
    SettledAt status flag (none : Option κ) lock .startStatus fun _ : ι => .loop where
  asked := fun hf => by
    rw [(h.new hnew).1] at hf
    contradiction
  cleared := fun _ => (h.new hnew).1
  pending := fun hp => by contradiction
  request := fun hc => by contradiction
  served := fun hc => by contradiction
  givenUp := fun hc => by rcases hc with hc | hc <;> contradiction
  new := fun _ => ⟨(h.new hnew).1, fun _ => rfl, .inr (.inl rfl)⟩
  starting := fun _ => hnew
  owner := fun _ hi => by contradiction
  single := fun _ _ hi => by contradiction
  ending := fun _ hi => by contradiction
  restarting := fun _ hi => by contradiction
  refused := fun _ hc => by contradiction

omit [DecidableEq ι] in
/-- A maintenance call takes `m_pause_lock`, and sets the state word and the function. -/
theorem SettledAt.asks (h : SettledAt status flag proc lock .maintSet point)
    (hfree : lock = .none) (k : κ) :
    SettledAt .maintenanceRequested flag (some k) (some (.inr k)) .maintRequest point where
  asked := fun _ => .inr rfl
  cleared := fun hc => by rcases hc with hc | hc | hc <;> contradiction
  pending := fun _ => rfl
  request := fun _ => ⟨⟨k, rfl⟩, rfl⟩
  served := fun hc => by contradiction
  givenUp := fun hc => by rcases hc with hc | hc <;> contradiction
  new := fun hn => by contradiction
  starting := fun hc => by contradiction
  owner := fun i hi => by
    have := h.owner i hi
    rw [hfree] at this
    contradiction
  single := h.single
  ending := fun i hi => absurd hi (h.none_finishing (by simp) i)
  restarting := fun i hi => absurd (by rw [hi]; rfl) (h.none_finishing (by simp) i)
  refused := fun hst => by contradiction

omit [DecidableEq ι] in
/-- A maintenance call sets the request flag, and gives `m_pause_lock` back. -/
theorem SettledAt.flags (h : SettledAt status flag proc lock .maintRequest point) :
    SettledAt .maintenanceRequested true proc .none .maintWait point :=
  have hno : ∀ i, (point i).owning ≠ true := fun i hi => by
    obtain ⟨⟨k, hk⟩, -⟩ := h.request rfl
    rw [h.owner i hi] at hk
    cases hk
  { asked := fun _ => .inr rfl
    cleared := fun hc => by rcases hc with hc | hc | hc <;> contradiction
    pending := fun _ => rfl
    request := fun hc => by contradiction
    served := fun _ => .inl rfl
    givenUp := fun hc => by rcases hc with hc | hc <;> contradiction
    new := fun hn => by contradiction
    starting := fun hc => by contradiction
    owner := fun i hi => absurd hi (hno i)
    single := h.single
    ending := fun i hi => absurd hi (h.none_finishing (by simp) i)
    restarting := fun i hi => absurd (by rw [hi]; rfl) (h.none_finishing (by simp) i)
    refused := fun hst => by contradiction }

omit [DecidableEq ι] in
/-- A maintenance call looks at the state word. -/
theorem SettledAt.looks (h : SettledAt status flag proc lock .maintWait point)
    (hc : c = if status = .maintenanceRequested then .maintWait
      else if status = .started then .outside else .maintGiveUp) :
    SettledAt status flag proc lock c point := by
  by_cases hreq : status = .maintenanceRequested
  · rw [if_pos hreq] at hc
    rwa [hc]
  rw [if_neg hreq] at hc
  have hno : ∀ i, (point i).finishing ≠ true := fun i hi => hreq (h.ending i hi).2.1
  rcases h.served rfl with hs | rfl | ⟨rfl, hf, hp⟩
  · exact absurd hs hreq
  · obtain rfl : c = .maintGiveUp := hc
    exact { h with
      asked := fun _ => .inl rfl
      cleared := fun hc => by rcases hc with hc | hc | hc <;> contradiction
      pending := fun _ => rfl
      request := fun hc => by contradiction
      served := fun hc => by contradiction
      givenUp := fun _ => rfl
      new := fun hn => by contradiction
      starting := fun hc => by contradiction
      ending := fun i hi => absurd hi (hno i)
      refused := fun hst _ => h.refused hst rfl }
  · obtain rfl : c = .outside := hc
    exact { h with
      asked := fun h => by
        rw [hf] at h
        contradiction
      cleared := fun _ => hf
      pending := fun h => by
        rw [hp] at h
        contradiction
      request := fun hc => by contradiction
      served := fun hc => by contradiction
      givenUp := fun hc => by rcases hc with hc | hc <;> contradiction
      new := fun hn => by contradiction
      starting := fun hc => by contradiction
      ending := fun i hi => absurd hi (hno i)
      refused := fun hst => by contradiction }

/-! ## Steps and runs -/

/-- Each move of a worker keeps the stage settled. -/
theorem Settled.worked (h : Settled s) (hw : Worked s i p s') : Settled s' := by
  obtain ⟨hl, hc, hpoint, hmove⟩ := hw
  have hheld : HeldBy s' := fun k hk => by
    rw [hc]
    exact h.held k (by rwa [← hl])
  have hholder : s'.holder = s.holder := by rw [Stage.holder, Stage.holder, hl, hc]
  refine ⟨hheld, ?_⟩
  rw [hholder, hpoint]
  cases hmove with
  | quietly hw hp =>
    rw [hw.status, hw.pauseRequested, hw.maintProc, hw.pauseLock]
    exact h.words.quietly hp rfl
  | pauses hat hfree hw hp =>
    rw [hw.status, hw.pauseRequested, hw.maintProc, hw.pauseLock]
    exact h.words.pauses hat hfree hp
  | locks hat hfree hw hp =>
    rw [hw.status, hw.pauseRequested, hw.maintProc, hw.pauseLock, hp]
    exact h.words.locks hat hfree
  | runs hat hproc hw hp =>
    rw [hw.status, hw.pauseRequested, hw.maintProc, hw.pauseLock, hp]
    exact h.words.runs hat hproc
  | dies hat hw hp =>
    rw [hw.status, hw.pauseRequested, hw.maintProc, hw.pauseLock, hp]
    exact h.words.dies hat
  | clears hat hw hp =>
    rw [hw.status, hw.pauseRequested, hw.maintProc, hw.pauseLock, hp]
    exact h.words.takesBack hat
  | starts hat hw hp =>
    rw [hw.status, hw.pauseRequested, hw.maintProc, hw.pauseLock, hp]
    exact h.words.starts hat

omit [DecidableEq ι] in
/-- Without a maintenance, a state word and a request flag that a call leaves as they are stay
asked for. -/
theorem SettledAt.stays (h : SettledAt status flag proc lock c point)
    (hc : c.asking = true → status = .paused) : flag = true → status = .paused :=
  fun hf => (h.asked hf).elim id hc

omit [DecidableEq ι] in
/-- Each move of the call that holds `m_lock` keeps the stage settled. -/
theorem Settled.moved (h : Settled s) (hheld : HeldBy s') (hmove : HolderMove s s') :
    Settled s' := by
  have hwords := h.words
  refine ⟨hheld, ?_⟩
  cases hmove with
  | begins hat hw hpoint hto =>
    generalize s'.holder = c' at *
    rw [hw.status, hw.pauseRequested, hw.maintProc, hw.pauseLock, hpoint]
    rw [hat] at hwords
    have hstay := hwords.stays (fun hc => by contradiction)
    rcases hto with rfl | ⟨hst, rfl | rfl | rfl⟩ | ⟨hst, rfl | rfl | rfl⟩ <;>
      refine hwords.goes (by simp) (fun hf => .inl (hstay hf)) ?_ ?_ ?_ ?_ ?_ ?_ ?_ <;>
      simp_all [CallerPoint.maintaining, StageState.new]
  | launches hat hstatus hw hpoint hto =>
    rw [hw.status, hw.pauseRequested, hw.maintProc, hw.pauseLock, hpoint, hto]
    exact hwords.launched (by rcases hstatus with hst | hst | hst <;> rw [hst] <;> rfl)
  | starts hat hw hpoint hto =>
    generalize s'.holder = c' at *
    subst hto
    rw [hw.status, hw.pauseRequested, hw.maintProc, hw.pauseLock, hpoint]
    rw [hat] at hwords
    have hf := (hwords.new (hwords.starting rfl)).1
    refine hwords.goes ?_ ?_ ?_ ?_ ?_ ?_ ?_ ?_ ?_ <;>
      simp_all [CallerPoint.maintaining, StageState.new]
  | startFails hat hw hpoint hto =>
    generalize s'.holder = c' at *
    rw [hw.status, hw.pauseRequested, hw.maintProc, hw.pauseLock, hpoint]
    rcases hat with hat | hat <;> rw [hat] at hwords <;> rcases hto with rfl | rfl <;>
      refine hwords.goes ?_ (fun hf => .inl (hwords.stays (fun hc => by contradiction) hf)) ?_ ?_ ?_
        ?_ ?_ ?_ ?_ <;>
      simp_all [CallerPoint.maintaining]
  | requests hat hfree hw hpoint hto =>
    generalize s'.holder = c' at *
    rw [hw.status, hw.pauseRequested, hw.maintProc, hw.pauseLock, hpoint]
    rw [hat] at hwords
    have hnew : s.status.new ≠ true := fun hn => by
      rcases (hwords.new hn).2.2 with hc | hc | hc <;> contradiction
    split_ifs at hto with hst <;> subst hto <;>
      refine hwords.goes ?_ ?_ ?_ ?_ ?_ ?_ ?_ ?_ ?_ <;>
      simp_all [CallerPoint.maintaining, CallerPoint.asking]
  | waits hat hw hpoint hto =>
    generalize s'.holder = c' at *
    rw [hw.status, hw.pauseRequested, hw.maintProc, hw.pauseLock, hpoint]
    rw [hat] at hwords
    have hnew : s.status.new ≠ true := fun hn => by
      rcases (hwords.new hn).2.2 with hc | hc | hc <;> contradiction
    rcases hto with rfl | rfl | ⟨hst, rfl⟩ <;>
      refine hwords.goes ?_ ?_ ?_ ?_ ?_ ?_ ?_ ?_ ?_ <;>
      simp_all [CallerPoint.maintaining, CallerPoint.asking]
  | clears hat hw hpoint =>
    generalize s'.holder = c' at *
    rw [hw.status, hw.pauseRequested, hw.maintProc, hw.pauseLock, hpoint]
    have hgiven := hwords.givenUp
    have hnew : s.status.new ≠ true := fun hn => by
      rcases (hwords.new hn).2.2 with hc | hc | hc <;>
        rcases hat with hat | hat | hat | hat | hat <;> rw [hat.1] at hc <;> contradiction
    rcases hat with ⟨hat, rfl⟩ | ⟨hat, rfl⟩ | ⟨hat, rfl⟩ | ⟨hat, rfl⟩ | ⟨hat, rfl⟩ <;>
      rw [hat] at hwords hgiven <;>
      refine hwords.goes ?_ ?_ ?_ ?_ ?_ ?_ ?_ ?_ ?_ <;>
      simp_all [CallerPoint.maintaining]
  | resumes hat hw hpoint hto =>
    generalize s'.holder = c' at *
    rw [hw.status, hw.pauseRequested, hw.maintProc, hw.pauseLock, hpoint]
    have hf := hwords.cleared hat
    rcases hat with hat | hat | hat <;> rw [hat] at hwords <;> rcases hto with rfl | rfl <;>
      refine hwords.goes ?_ ?_ ?_ ?_ ?_ ?_ ?_ ?_ ?_ <;>
      simp_all [CallerPoint.maintaining, StageState.new]
  | stops hat hw hpoint hto =>
    generalize s'.holder = c' at *
    subst hto
    rw [hw.status, hw.pauseRequested, hw.maintProc, hw.pauseLock, hpoint]
    rw [hat] at hwords
    refine hwords.goes ?_ (fun hf => .inl (hwords.stays (fun hc => by contradiction) hf)) ?_ ?_ ?_
      ?_ ?_ ?_ ?_ <;> simp_all [CallerPoint.maintaining]
  | asks k hat hfree hw hpoint hto =>
    rw [hw.status, hw.pauseRequested, hw.maintProc, hw.pauseLock, hpoint, hto]
    rw [hat] at hwords
    exact hwords.asks hfree k
  | flags hat hw hpoint hto =>
    generalize s'.holder = c' at *
    rw [hw.status, hw.pauseRequested, hw.maintProc, hw.pauseLock, hpoint]
    rw [hat] at hwords
    have hst := (hwords.request rfl).2
    rw [if_pos hst] at hto
    subst hto
    have hflags := hwords.flags
    rwa [← hst] at hflags
  | looks hat hw hpoint hto =>
    generalize s'.holder = c' at *
    rw [hw.status, hw.pauseRequested, hw.maintProc, hw.pauseLock, hpoint]
    rw [hat] at hwords
    exact hwords.looks hto
  | drops hat hw hpoint hto =>
    generalize s'.holder = c' at *
    subst hto
    rw [hw.status, hw.pauseRequested, hw.maintProc, hw.pauseLock, hpoint]
    rw [hat] at hwords
    have hst := hwords.givenUp (.inr rfl)
    have hdrop : SettledAt s.status s.pauseRequested none s.pauseLock .maintDrop s.point :=
      { hwords with
        pending := fun hp => by contradiction
        served := fun hc => by contradiction
        ending := fun i hi => absurd hi (hwords.none_finishing (by simp) i) }
    refine hdrop.goes ?_ ?_ ?_ ?_ ?_ ?_ ?_ ?_ ?_ <;>
      simp_all [CallerPoint.maintaining, StageState.new]

/-- A pause expires only when the stage is paused. -/
def inTime (s : Stage ι κ) : LifeEvent ι κ → Prop
  | .expire _ => s.status = .paused
  | _ => True

instance (s : Stage ι κ) (e : LifeEvent ι κ) : Decidable (inTime s e) := by
  cases e <;> unfold inTime <;> infer_instance

variable [DecidableEq κ]

/-- Each step in time keeps the stage settled. -/
theorem Settled.step [Fintype ι] {e : LifeEvent ι κ} (h : Settled s) (hok : inTime s e)
    (hw : lifeStep s e = some s') : Settled s' := by
  rcases lifeStep_cases h.held hw with ⟨i, p, -, hi⟩ | ⟨m, -, hm⟩ | ⟨-, hheld, hmove⟩ | ⟨k, rfl, hk⟩
  · exact h.worked hi
  · obtain ⟨hp, hsame, hl, hc⟩ := releaseBarrier_eq hm
    have hholder : s'.holder = s.holder := by rw [Stage.holder, Stage.holder, hl, hc]
    refine ⟨fun k hk => ?_, ?_⟩
    · rw [hc]
      exact h.held k (by rwa [← hl])
    · rw [hsame.status, hsame.pauseRequested, hsame.maintProc, hsame.pauseLock, hholder]
      exact h.words.released hp
  · exact h.moved hheld hmove
  · exact absurd hok hk.status

omit [DecidableEq ι] [DecidableEq κ] in
/-- A stage that has been set up is settled. -/
theorem Settled.created (hasFetch hasThrow : Bool) :
    Settled (Stage.created hasFetch hasThrow : Stage ι κ) where
  held := fun _ _ => rfl
  words :=
    { asked := fun hf => by contradiction
      cleared := fun _ => rfl
      pending := fun hp => by contradiction
      request := fun hc => by contradiction
      served := fun hc => by contradiction
      givenUp := fun hc => by rcases hc with hc | hc <;> contradiction
      new := fun _ => ⟨rfl, fun _ => rfl, .inl rfl⟩
      starting := fun _ => rfl
      owner := fun _ hi => by contradiction
      single := fun _ _ hi => by contradiction
      ending := fun _ hi => by contradiction
      restarting := fun _ _ => rfl
      refused := fun hst => by contradiction }

omit [DecidableEq ι] [DecidableEq κ] in
/-- A settled stage that is started has no request but that of a call in progress. -/
theorem Settled.no_request (h : Settled s) (hst : s.status = .started)
    (hcall : ∀ k, (s.caller k).requesting = false) : s.pauseRequested = false := by
  by_contra hf
  rcases h.words.asked (by simpa using hf) with hp | hask
  · rw [hst] at hp
    contradiction
  · rw [Stage.holder] at hask
    split at hask
    next => contradiction
    next k _ =>
      have := hcall k
      generalize s.caller k = c at *
      cases c <;> contradiction

/-- **No request is left.** In every run of starts, pauses with or without a time limit, resumes,
maintenance calls and shutdowns in which a pause expires only once the stage is paused: while the
stage is started and no pause or maintenance call is in progress, `m_pause_requested` is false. -/
theorem no_request_left [Fintype ι] {hasFetch hasThrow : Bool} {es : List (LifeEvent ι κ)}
    {s : Stage ι κ}
    (h : Trans.Run lifeStep inTime (Stage.created hasFetch hasThrow) es s)
    (hst : s.status = .started) (hcall : ∀ k, (s.caller k).requesting = false) :
    s.pauseRequested = false :=
  have hs : Settled s :=
    h.inv (fun _ _ _ (hs : Settled _) hok hw => hs.step hok hw) (.created hasFetch hasThrow)
  hs.no_request hst hcall

/-- A start and a pause of a stage with one worker. -/
def startAndPause : List (LifeEvent (Fin 1) (Fin 4)) :=
  [.step (.call 0 .start), .step (.caller 0), .step (.call 1 .pause), .step (.caller 1)]

/-- The worker enters the barrier, is let go, and sets the stage to paused. -/
def workerPauses : List (LifeEvent (Fin 1) (Fin 4)) :=
  [.step (.worker 0 0), .step (.worker 0 0), .step (.worker 0 0), .step (.release 0),
    .step (.worker 0 0)]

/-- The pause expires just after the worker has paused the stage; then a resume. -/
def expiredInTime : List (LifeEvent (Fin 1) (Fin 4)) :=
  startAndPause ++ workerPauses ++
    [.expire 1, .step (.call 2 .resume), .step (.caller 2), .step (.caller 2)]

theorem no_request_left_expiredInTime :
    ∃ s, Trans.run lifeStep (Stage.created true true) expiredInTime = some s ∧
      s.caller 1 = .returned .pause Result.timedout ∧ s.pauseRequested = false := by
  have hrun : ∃ s, Trans.run (Trans.guarded lifeStep inTime) (Stage.created true true)
      expiredInTime = some s ∧ s.status = .started ∧
      s.caller 1 = .returned .pause Result.timedout ∧
      ∀ k, (s.caller k).requesting = false :=
    ⟨_, rfl, rfl, rfl, by decide⟩
  obtain ⟨s, hs, hst, hc, hcall⟩ := hrun
  have hok := Trans.Run.of_guarded hs
  exact ⟨s, hok.run_eq, hc, no_request_left hok hst hcall⟩

/-- The pause expires before the worker comes to the barrier: its request is left, and the worker
then stops the stage with no pause in progress. -/
theorem request_left :
    (∃ s, Trans.run lifeStep (Stage.created true true : Stage (Fin 1) (Fin 4))
        (startAndPause ++ [.expire 1]) = some s ∧ s.status = .started ∧
      (∀ k, (s.caller k).requesting = false) ∧ s.pauseRequested = true) ∧
    ∃ s, Trans.run lifeStep (Stage.created true true : Stage (Fin 1) (Fin 4))
        (startAndPause ++ [.expire 1] ++ workerPauses) = some s ∧
      (∀ k, (s.caller k).requesting = false) ∧ s.status = .paused ∧ s.point 0 = .resumeWait :=
  ⟨⟨_, rfl, rfl, by decide, rfl⟩, _, rfl, by decide, rfl, rfl⟩

end Pipeline
end Gallus
