import Gallus.Pools.Pool
import Mathlib.Data.Fintype.Basic
import Mathlib.Data.List.Nodup

/-!
# No poolable has two holders

The release of a `queue` pool does not look at `m_is_used`, that of an `index` pool does not ask who
used the poolable, and `add_poolable_by_index` looks at its slot without the lock.

* `proper`: a release that a pool carries out is the holder's, and a poolable that is added throws
  none out that is in use.
* `exclusive_and_counted`: in a run of proper steps no poolable has two holders, and when no call is
  in progress, the free counter and the held poolables add up to `n_max`.
* `shared_and_miscounted`: a second release is enough for two holders, in both types of pool.
-/

namespace Gallus
namespace Pools

variable {τ : Type} [DecidableEq τ]

/-- A release past its checks is the holder's own; a slot that is written is empty, or its poolable
is neither held nor waited for. -/
def proper (s : Pool τ) : Event τ → Prop
  | .go t _ =>
    match s.point t with
    | .releasing p => s.type = .queue ∨ s.isUsed p = true → t ∈ s.holders p
    | .adding index => ∀ p ∈ s.objs index, s.holders p = [] ∧ ∀ u, s.point u ≠ .byIndex p
    | _ => True
  | _ => True

instance [Fintype τ] (s : Pool τ) (e : Event τ) : Decidable (proper s e) := by
  unfold proper
  split
  · split <;> infer_instance
  · infer_instance

variable {s s' : Pool τ} {nMax : Nat} {t : τ} {p : Nat} {q : Point}

/-! ## The invariant -/

/-- The points of a type of pool. -/
def Point.fits (type : PoolType) (nMax : Nat) : Point → Prop
  | .idle | .releasing _ | .destroying => True
  | .adding index => type = .index ∧ index < nMax
  | .byIndex _ | .scanning => type = .index
  | .entering | .trying | .waiting | .taking _ | .putting _ => type = .queue

/-- The poolable is held, free in the queue, or about to be handed out. -/
def Pool.inUse (s : Pool τ) (p : Nat) : Prop :=
  s.holders p ≠ [] ∨ p ∈ s.freeQ ∨ ∃ t, s.point t = .byIndex p ∨ s.point t = .taking p

/-- The free counter is right, no poolable is in two places, and each poolable in use is in its own
slot. -/
structure Sound (nMax : Nat) (s : Pool τ) : Prop where
  limit : s.nMax = nMax
  excl : Lease.Exclusive s.holders
  count : s.nFree + s.held.card = s.nMax
  range : s.nMax < 2 ^ 64
  points : ∀ t, (s.point t).fits s.type s.nMax
  filled : ∀ i p, s.objs i = some p → i < s.nMax ∧ s.slot p = i ∧ p < s.made
  unfilled : s.type = .queue → ∀ i p, s.objs i = some p → i < s.objIdx
  placed : ∀ p, s.inUse p → s.objs (s.slot p) = some p
  used : s.type = .index → ∀ p, s.isUsed p = true ↔ s.holders p ≠ []
  noQueue : s.type = .index → s.freeQ = []
  nodup : s.freeQ.Nodup
  queued : ∀ p ∈ s.freeQ, s.holders p = [] ∧ ∀ t, s.point t ≠ .taking p
  taking : ∀ t p, s.point t = .taking p → s.holders p = [] ∧ ∀ u, s.point u = .taking p → u = t
  putting : ∀ t p, s.point t = .putting p → t ∈ s.holders p

omit [DecidableEq τ] in
theorem Sound.lt_made (h : Sound nMax s) (hp : s.inUse p) : p < s.made :=
  (h.filled _ _ (h.placed p hp)).2.2

omit [DecidableEq τ] in
/-- A poolable that is yet to be made is not in use. -/
theorem Sound.not_inUse_made (h : Sound nMax s) : ¬s.inUse s.made :=
  fun hp => absurd (h.lt_made hp) (lt_irrefl _)

omit [DecidableEq τ] in
theorem Sound.holders_made (h : Sound nMax s) : s.holders s.made = [] :=
  not_not.mp fun hne => h.not_inUse_made (.inl hne)

omit [DecidableEq τ] in
/-- With a free poolable in its slot, not all `n_max` are held. -/
theorem Sound.room (h : Sound nMax s) (hr : s.holders p = []) (hp : s.objs (s.slot p) = some p) :
    s.held.card < s.nMax := by
  have hplace : ∀ r, s.holders r ≠ [] ∨ r = p → s.objs (s.slot r) = some r := by
    rintro r (hne | rfl)
    · exact h.placed r (.inl hne)
    · exact hp
  refine Lease.card_held_lt s.slot hr (fun r hr' => ?_) fun a b ha hb heq => ?_
  · exact (h.filled _ _ (hplace r hr')).1
  · have ha' := hplace a ha
    rw [heq, hplace b hb] at ha'
    exact (Option.some.inj ha').symm

/-! ## What the segments keep -/

theorem mem_point_update {r : Point} {u : τ} (h : Function.update s.point t q u = r) :
    u = t ∧ q = r ∨ u ≠ t ∧ s.point u = r := by
  by_cases hu : u = t
  · subst hu
    rw [Function.update_self] at h
    exact .inl ⟨rfl, h⟩
  · rw [Function.update_of_ne hu] at h
    exact .inr ⟨hu, h⟩

/-- A poolable that some call has on its way is the mover's or was so before. -/
theorem onItsWay_update {r : Nat} (h : ∃ u, Function.update s.point t q u = .byIndex r ∨
    Function.update s.point t q u = .taking r) :
    (q = .byIndex r ∨ q = .taking r) ∨ ∃ u, s.point u = .byIndex r ∨ s.point u = .taking r := by
  obtain ⟨u, hu | hu⟩ := h
  · rcases mem_point_update hu with ⟨-, hu⟩ | ⟨-, hu⟩
    · exact .inl (.inl hu)
    · exact .inr ⟨u, .inl hu⟩
  · rcases mem_point_update hu with ⟨-, hu⟩ | ⟨-, hu⟩
    · exact .inl (.inr hu)
    · exact .inr ⟨u, .inr hu⟩

theorem fits_update {type : PoolType} {n : Nat} (h : ∀ u, (s.point u).fits type n)
    (hq : q.fits type n) (u : τ) : (Function.update s.point t q u).fits type n := by
  by_cases hu : u = t
  · subst hu
    rwa [Function.update_self]
  · rw [Function.update_of_ne hu]
    exact h u

/-- A segment that hands nothing out and takes nothing back. In a `queue` pool `m_is_used` does not
matter. -/
theorem Sound.move {l : Option τ} {r : τ → Result} {o : τ → Option Nat} {c : Bool} {b : Nat → Bool}
    (h : Sound nMax s) (hq : q.fits s.type s.nMax)
    (hby : ∀ p, q = .byIndex p → s.objs (s.slot p) = some p) (hta : ∀ p, q ≠ .taking p)
    (hput : ∀ p, q = .putting p → t ∈ s.holders p) (hb : s.type = .index → b = s.isUsed) :
    Sound nMax { s with
      isUsed := b, lck := l, ret := r, out := o, crashed := c
      point := Function.update s.point t q } := by
  refine { h with points := fits_update h.points hq, placed := ?_, used := ?_, queued := ?_,
                  taking := ?_, putting := ?_ }
  · rintro p (hp | hp | hp)
    · exact h.placed p (.inl hp)
    · exact h.placed p (.inr (.inl hp))
    · rcases onItsWay_update hp with (hp | hp) | hp
      · exact hby p hp
      · exact absurd hp (hta p)
      · exact h.placed p (.inr (.inr hp))
  · intro hi p
    rw [hb hi]
    exact h.used hi p
  · intro p hp
    refine ⟨(h.queued p hp).1, fun u hu => ?_⟩
    rcases mem_point_update hu with ⟨-, hu⟩ | ⟨-, hu⟩
    · exact hta p hu
    · exact (h.queued p hp).2 u hu
  · intro u p hu
    rcases mem_point_update hu with ⟨-, hu⟩ | ⟨-, hu⟩
    · exact absurd hu (hta p)
    · refine ⟨(h.taking u p hu).1, fun v hv => ?_⟩
      rcases mem_point_update hv with ⟨-, hv⟩ | ⟨-, hv⟩
      · exact absurd hv (hta p)
      · exact (h.taking u p hu).2 v hv
  · intro u p hu
    rcases mem_point_update hu with ⟨rfl, hu'⟩ | ⟨-, hu'⟩
    · exact hput p hu'
    · exact h.putting u p hu'

/-- A free poolable in its slot is handed out. -/
theorem Sound.handOut (h : Sound nMax s) (hr : s.holders p = []) (hp : s.objs (s.slot p) = some p)
    (hq : p ∉ s.freeQ) (ht : ∀ u, s.point u = .taking p → u = t) : Sound nMax (s.handOut t p) := by
  have hmade : p < s.made := (h.filled _ _ hp).2.2
  have hroom := h.room hr hp
  have hcount := h.count
  have hrange := h.range
  have hne : ∀ {r}, s.holders r ≠ [] → r ≠ p := fun hr' heq => hr' (heq ▸ hr)
  refine { h with excl := h.excl.take hr, count := ?_, points := fits_update h.points trivial,
                  placed := ?_, used := ?_, queued := ?_, taking := ?_, putting := ?_ }
  · have hcard := Lease.card_held_take (t := t) (Finset.mem_range.mpr hmade) hr
    have hfree : sizeT (s.nFree - 1) = s.nFree - 1 := by
      unfold sizeT
      omega
    show sizeT (s.nFree - 1) + (Lease.held (Finset.range s.made) (Lease.take s.holders p t)).card =
      s.nMax
    rw [hcard, hfree]
    unfold Pool.held at hcount hroom
    omega
  · rintro r (hr' | hr' | hu)
    · by_cases hrp : r = p
      · subst hrp
        exact hp
      · change Lease.take s.holders p t r ≠ [] at hr'
        rw [Lease.take_of_ne hrp] at hr'
        exact h.placed r (.inl hr')
    · exact h.placed r (.inr (.inl hr'))
    · rcases onItsWay_update hu with (hu | hu) | hu
      · cases hu
      · cases hu
      · exact h.placed r (.inr (.inr hu))
  · intro hi r
    show Function.update s.isUsed p true r = true ↔ Lease.take s.holders p t r ≠ []
    by_cases hrp : r = p
    · subst hrp
      simp
    · rw [Function.update_of_ne hrp, Lease.take_of_ne hrp]
      exact h.used hi r
  · intro r hr'
    have hrp : r ≠ p := fun heq => hq (heq ▸ hr')
    refine ⟨?_, fun u hu => ?_⟩
    · show Lease.take s.holders p t r = []
      rw [Lease.take_of_ne hrp]
      exact (h.queued r hr').1
    · rcases mem_point_update hu with ⟨-, hu⟩ | ⟨-, hu⟩
      · cases hu
      · exact (h.queued r hr').2 u hu
  · intro u r hu
    rcases mem_point_update hu with ⟨-, hu'⟩ | ⟨hut, hu'⟩
    · cases hu'
    · have hrp : r ≠ p := by
        rintro rfl
        exact hut (ht u hu')
      refine ⟨?_, fun v hv => ?_⟩
      · show Lease.take s.holders p t r = []
        rw [Lease.take_of_ne hrp]
        exact (h.taking u r hu').1
      · rcases mem_point_update hv with ⟨-, hv⟩ | ⟨-, hv⟩
        · cases hv
        · exact (h.taking u r hu').2 v hv
  · intro u r hu
    rcases mem_point_update hu with ⟨-, hu⟩ | ⟨-, hu⟩
    · cases hu
    · have hmem := h.putting u r hu
      show u ∈ Lease.take s.holders p t r
      rw [Lease.take_of_ne (hne (List.ne_nil_of_mem hmem))]
      exact hmem

/-- The head of the free queue is on its way to `t`. -/
theorem Sound.dequeue {l : Option τ} {f : List Nat} (h : Sound nMax s) (hq : s.freeQ = p :: f) :
    Sound nMax { s with freeQ := f, lck := l, point := Function.update s.point t (.taking p) } := by
  have htype : s.type = .queue := by
    cases htype : s.type with
    | queue => rfl
    | index =>
      have hnil := h.noQueue htype
      rw [hq] at hnil
      cases hnil
  have hmem : p ∈ s.freeQ := by
    rw [hq]
    exact List.mem_cons_self
  have hsub : ∀ {r}, r ∈ f → r ∈ s.freeQ := by
    intro r hr
    rw [hq]
    exact List.mem_cons_of_mem _ hr
  have hnodup := h.nodup
  rw [hq] at hnodup
  refine { h with points := fits_update h.points htype, placed := ?_, noQueue := ?_,
                  nodup := (List.nodup_cons.mp hnodup).2, queued := ?_, taking := ?_,
                  putting := ?_ }
  · rintro r (hr | hr | hu)
    · exact h.placed r (.inl hr)
    · exact h.placed r (.inr (.inl (hsub hr)))
    · rcases onItsWay_update hu with (hu | hu) | hu
      · cases hu
      · cases hu
        exact h.placed p (.inr (.inl hmem))
      · exact h.placed r (.inr (.inr hu))
  · intro hi
    rw [htype] at hi
    cases hi
  · intro r hr
    refine ⟨(h.queued r (hsub hr)).1, fun u hu => ?_⟩
    rcases mem_point_update hu with ⟨-, hu⟩ | ⟨-, hu⟩
    · cases hu
      exact (List.nodup_cons.mp hnodup).1 hr
    · exact (h.queued r (hsub hr)).2 u hu
  · intro u r hu
    rcases mem_point_update hu with ⟨hut, hp⟩ | ⟨-, hp⟩
    · cases hp
      refine ⟨(h.queued p hmem).1, fun v hv => ?_⟩
      rcases mem_point_update hv with ⟨hvt, -⟩ | ⟨-, hp⟩
      · exact hvt.trans hut.symm
      · exact absurd hp ((h.queued p hmem).2 v)
    · refine ⟨(h.taking u r hp).1, fun v hv => ?_⟩
      rcases mem_point_update hv with ⟨-, hp'⟩ | ⟨-, hp'⟩
      · cases hp'
        exact absurd hp ((h.queued p hmem).2 u)
      · exact (h.taking u r hp).2 v hp'
  · intro u r hu
    rcases mem_point_update hu with ⟨-, hu⟩ | ⟨-, hu⟩
    · cases hu
    · exact h.putting u r hu

omit [DecidableEq τ] in
/-- A new poolable is put into a slot whose poolable is not in use. -/
theorem Sound.make {index j n : Nat} (h : Sound nMax s) (hlt : index < s.nMax)
    (hout : ∀ p, s.objs index = some p → ¬s.inUse p)
    (hj : s.type = .queue → j = s.objIdx + 1 ∧ index = s.objIdx) :
    Sound nMax { s.make index with objIdx := j, nCur := n } := by
  have hslot : ∀ {r}, s.inUse r → r ≠ s.made ∧ s.slot r ≠ index := by
    intro r hr
    refine ⟨(h.lt_made hr).ne, fun heq => ?_⟩
    have hplaced := h.placed r hr
    rw [heq] at hplaced
    exact hout r hplaced hr
  refine { h with count := ?_, filled := ?_, unfilled := ?_, placed := ?_, used := ?_ }
  · have hheld : Lease.held (insert s.made (Finset.range s.made)) s.holders =
        Lease.held (Finset.range s.made) s.holders := Lease.held_insert h.holders_made
    show s.nFree + (Lease.held (Finset.range (s.made + 1)) s.holders).card = s.nMax
    rw [Finset.range_add_one, hheld]
    exact h.count
  · intro i p hp
    change Function.update s.objs index (some s.made) i = some p at hp
    show i < s.nMax ∧ Function.update s.slot s.made index p = i ∧ p < s.made + 1
    by_cases hi : i = index
    · subst hi
      rw [Function.update_self] at hp
      cases hp
      exact ⟨hlt, Function.update_self .., by omega⟩
    · rw [Function.update_of_ne hi] at hp
      obtain ⟨hlt', hs, hmade⟩ := h.filled i p hp
      rw [Function.update_of_ne hmade.ne]
      exact ⟨hlt', hs, by omega⟩
  · intro hqueue i p hp
    change Function.update s.objs index (some s.made) i = some p at hp
    obtain ⟨rfl, rfl⟩ := hj hqueue
    show i < s.objIdx + 1
    by_cases hi : i = s.objIdx
    · omega
    · rw [Function.update_of_ne hi] at hp
      have := h.unfilled hqueue i p hp
      omega
  · intro r hr
    change s.inUse r at hr
    obtain ⟨hmade, hne⟩ := hslot hr
    show Function.update s.objs index (some s.made) (Function.update s.slot s.made index r) = some r
    rw [Function.update_of_ne hmade, Function.update_of_ne hne]
    exact h.placed r hr
  · intro hi r
    show Function.update s.isUsed s.made false r = true ↔ s.holders r ≠ []
    by_cases hr : r = s.made
    · subst hr
      simp [h.holders_made]
    · rw [Function.update_of_ne hr]
      exact h.used hi r

/-- The counter after the holder's release. -/
theorem Sound.count_giveBack (h : Sound nMax s) (ht : t ∈ s.holders p) :
    sizeT (s.nFree + 1) + (Lease.held (Finset.range s.made) (Lease.drop s.holders p t)).card =
      s.nMax := by
  have hmade : p < s.made := h.lt_made (.inl (List.ne_nil_of_mem ht))
  have hcard := Lease.card_held_drop h.excl (Finset.mem_range.mpr hmade) ht
  have hcount := h.count
  have hrange := h.range
  unfold Pool.held at hcount
  have hfree : sizeT (s.nFree + 1) = s.nFree + 1 := by
    unfold sizeT
    omega
  omega

/-- Another acquirer keeps what it holds. -/
theorem Sound.mem_drop {r : Nat} {u : τ} (h : Sound nMax s) (ht : t ∈ s.holders p) (hut : u ≠ t)
    (hu : u ∈ s.holders r) : u ∈ Lease.drop s.holders p t r := by
  have hrp : r ≠ p := by
    rintro rfl
    exact hut (h.excl.eq_of_mem ht hu)
  rw [Lease.drop_of_ne hrp]
  exact hu

theorem drop_eq_nil {r : Nat} (hr : s.holders r = []) : Lease.drop s.holders p t r = [] := by
  by_cases hrp : r = p
  · subst hrp
    rw [Lease.drop_self, hr]
    rfl
  · rw [Lease.drop_of_ne hrp]
    exact hr

/-- The holder gives its poolable back: in an `index` pool the poolable is no longer used, in a
`queue` pool it joins the free queue. -/
theorem Sound.giveBack {b : Nat → Bool} {f : List Nat} {l : Option τ} (h : Sound nMax s)
    (ht : t ∈ s.holders p)
    (hindex : s.type = .index → b = Function.update s.isUsed p false ∧ f = s.freeQ)
    (hqueue : s.type = .queue → f = s.freeQ ++ [p]) :
    Sound nMax ({ s with isUsed := b, freeQ := f, lck := l }.giveBack t p) := by
  have hheld : s.holders p ≠ [] := List.ne_nil_of_mem ht
  have hnot : p ∉ s.freeQ := fun hin => hheld (h.queued p hin).1
  have hf : ∀ {r}, r ∈ f → r ∈ s.freeQ ∨ r = p := by
    intro r hr
    cases htype : s.type with
    | index =>
      rw [(hindex htype).2] at hr
      exact .inl hr
    | queue =>
      rw [hqueue htype] at hr
      simpa using hr
  refine { h with excl := h.excl.drop, count := h.count_giveBack ht,
                  points := fits_update h.points trivial, placed := ?_, used := ?_, noQueue := ?_,
                  nodup := ?_, queued := ?_, taking := ?_, putting := ?_ }
  · rintro r (hr | hr | hu)
    · refine h.placed r (.inl fun hnil => hr ?_)
      exact drop_eq_nil hnil
    · rcases hf hr with hr | rfl
      · exact h.placed r (.inr (.inl hr))
      · exact h.placed r (.inl hheld)
    · rcases onItsWay_update hu with (hu | hu) | hu
      · cases hu
      · cases hu
      · exact h.placed r (.inr (.inr hu))
  · intro hi r
    obtain ⟨rfl, -⟩ := hindex hi
    show Function.update s.isUsed p false r = true ↔ Lease.drop s.holders p t r ≠ []
    by_cases hrp : r = p
    · subst hrp
      rw [h.excl.drop_eq_nil ht]
      simp
    · rw [Function.update_of_ne hrp, Lease.drop_of_ne hrp]
      exact h.used hi r
  · intro hi
    show f = []
    rw [(hindex hi).2]
    exact h.noQueue hi
  · show f.Nodup
    cases htype : s.type with
    | index =>
      rw [(hindex htype).2]
      exact h.nodup
    | queue =>
      rw [hqueue htype, List.nodup_append]
      refine ⟨h.nodup, List.nodup_singleton p, fun a ha c hc heq => ?_⟩
      rw [List.mem_singleton.mp hc] at heq
      exact hnot (heq ▸ ha)
  · intro r hr
    refine ⟨?_, fun u hu => ?_⟩
    · show Lease.drop s.holders p t r = []
      rcases hf hr with hr | rfl
      · exact drop_eq_nil (h.queued r hr).1
      · exact h.excl.drop_eq_nil ht
    · rcases mem_point_update hu with ⟨-, hu'⟩ | ⟨-, hu'⟩
      · cases hu'
      · rcases hf hr with hr | rfl
        · exact (h.queued r hr).2 u hu'
        · exact hheld (h.taking u r hu').1
  · intro u r hu
    rcases mem_point_update hu with ⟨-, hu⟩ | ⟨-, hu⟩
    · cases hu
    · refine ⟨drop_eq_nil (h.taking u r hu).1, fun v hv => ?_⟩
      rcases mem_point_update hv with ⟨-, hv⟩ | ⟨-, hv⟩
      · cases hv
      · exact (h.taking u r hu).2 v hv
  · intro u r hu
    rcases mem_point_update hu with ⟨-, hu⟩ | ⟨hut, hu⟩
    · cases hu
    · exact h.mem_drop ht hut (h.putting u r hu)

/-- The call goes to a point that claims no poolable. -/
theorem Sound.rest {l : Option τ} {r : τ → Result} {o : τ → Option Nat} {c : Bool}
    (h : Sound nMax s) (hq : q.fits s.type s.nMax) (hby : ∀ p, q ≠ .byIndex p)
    (hta : ∀ p, q ≠ .taking p) (hput : ∀ p, q ≠ .putting p) :
    Sound nMax { s with
      lck := l, ret := r, out := o, crashed := c
      point := Function.update s.point t q } :=
  h.move hq (fun p hp => absurd hp (hby p)) hta (fun p hp => absurd hp (hput p)) fun _ => rfl

theorem Sound.leave (h : Sound nMax s) (r : Result) : Sound nMax (s.leave t r) :=
  h.rest trivial nofun nofun nofun

omit [DecidableEq τ] in
theorem firstFree_eq_some (h : s.firstFree = some p) :
    ∃ i, s.objs i = some p ∧ s.isUsed p = false := by
  obtain ⟨i, -, hi⟩ := List.exists_of_findSome?_eq_some h
  rw [Option.filter_eq_some_iff] at hi
  refine ⟨i, hi.1, ?_⟩
  simpa using hi.2

/-- In an `index` pool a poolable in its slot that is not used can be handed out. -/
theorem Sound.handOut_unused (h : Sound nMax s) (hi : s.type = .index)
    (hp : s.objs (s.slot p) = some p) (hunused : s.isUsed p = false) :
    Sound nMax (s.handOut t p) := by
  have hr : s.holders p = [] := by
    by_contra hne
    have := (h.used hi p).mpr hne
    rw [hunused] at this
    cases this
  apply h.handOut hr hp
  · rw [h.noQueue hi]
    exact List.not_mem_nil
  · intro u hu
    have hfits := h.points u
    rw [hu] at hfits
    exact absurd (hfits.symm.trans hi) (by decide)

/-! ## Steps and runs -/

theorem Sound.addRegion {index : Nat} (h : Sound nMax s) (hpt : s.point t = .adding index)
    (m : Making) (hok : ∀ p ∈ s.objs index, s.holders p = [] ∧ ∀ u, s.point u ≠ .byIndex p) :
    Sound nMax (s.addRegion t index m) := by
  have hfits := h.points t
  rw [hpt] at hfits
  obtain ⟨hi, hlt⟩ := hfits
  cases m with
  | done =>
    refine Sound.leave (h.make hlt ?_ fun hq => absurd (hq.symm.trans hi) (by decide)) _
    rintro p hp (hne | hin | ⟨u, hu | hu⟩)
    · exact hne (hok p hp).1
    · rw [h.noQueue hi] at hin
      cases hin
    · exact (hok p hp).2 u hu
    · have hfits := h.points u
      rw [hu] at hfits
      exact absurd (hfits.symm.trans hi) (by decide)
  | createFails r => exact h.leave r
  | setupFails => exact h.rest trivial nofun nofun nofun

theorem Sound.firstRegion (h : Sound nMax s) (htype : s.type = .queue) (m : Making) :
    Sound nMax (s.firstRegion t m) := by
  unfold Pool.firstRegion
  split_ifs with hq hlt
  · exact h.rest htype nofun nofun nofun
  · cases m with
    | done =>
      have hnew : ∀ p, s.objs s.objIdx = some p → ¬s.inUse p := fun p hp =>
        absurd (h.unfilled htype _ p hp) (lt_irrefl _)
      refine (h.make hlt hnew fun _ => ⟨rfl, rfl⟩).handOut ?_ ?_ ?_ ?_
      · exact h.holders_made
      · show Function.update s.objs s.objIdx (some s.made)
          (Function.update s.slot s.made s.objIdx s.made) = some s.made
        rw [Function.update_self, Function.update_self]
      · exact fun hin => h.not_inUse_made (.inr (.inl hin))
      · exact fun u hu => absurd (.inr (.inr ⟨u, .inr hu⟩)) h.not_inUse_made
    | createFails r => exact h.rest htype nofun nofun nofun
    | setupFails => exact h.rest trivial nofun nofun nofun
  · exact h.rest htype nofun nofun nofun

/-- The head of the free queue is handed out at once. -/
theorem Sound.tryGet (h : Sound nMax s) (hpt : s.point t = .trying) : Sound nMax (s.tryGet t) := by
  unfold Pool.tryGet
  split
  · next p f hq =>
    have hmem : p ∈ s.freeQ := by
      rw [hq]
      exact List.mem_cons_self
    have hd : Sound nMax { s with
        freeQ := f, lck := none, point := Function.update s.point t (.taking p) } := h.dequeue hq
    have htake : Function.update s.point t (.taking p) t = .taking p := Function.update_self ..
    have hout := hd.handOut (t := t) (hd.taking t p htake).1
      (hd.placed p (.inr (.inr ⟨t, .inr htake⟩))) ?_ (hd.taking t p htake).2
    · unfold Pool.handOut at hout ⊢
      rwa [Function.update_idem] at hout
    · exact fun hin => (hd.queued p hin).2 t htake
  · next hq =>
    have := h.rest (t := t) (l := s.lck) (r := s.ret) (o := s.out) (c := true) (h.points t)
      (by rw [hpt]; nofun) (by rw [hpt]; nofun) (by rw [hpt]; nofun)
    rwa [Function.update_eq_self] at this

theorem Sound.releaseRegion (h : Sound nMax s)
    (hok : s.type = .queue ∨ s.isUsed p = true → t ∈ s.holders p) :
    Sound nMax (s.releaseRegion t p) := by
  unfold Pool.releaseRegion
  split
  · next hi =>
    split_ifs with hused
    · exact h.giveBack (l := s.lck) (hok (.inr hused)) (fun _ => ⟨rfl, rfl⟩)
        fun hq => absurd (hq.symm.trans hi) (by decide)
    · exact h.leave _
  · next hq =>
    refine h.move hq nofun nofun ?_ fun hi => absurd (hq.symm.trans hi) (by decide)
    rintro r hr
    cases hr
    exact hok (.inl hq)

theorem Sound.go {m : Making} (h : Sound nMax s) (hok : proper s (.go t m))
    (hgo : s.go t m = some s') : Sound nMax s' := by
  unfold Pool.go at hgo
  simp only [proper] at hok
  have hfits := h.points t
  split at hgo
  · cases hgo
  · cases hgo
  · next index hpt =>
    split_ifs at hgo
    cases hgo
    rw [hpt] at hok
    exact h.addRegion hpt m hok
  · next p hpt =>
    split_ifs at hgo with hlck
    cases hgo
    rw [hpt] at hfits
    exact h.handOut_unused hfits (h.placed p (.inr (.inr ⟨t, .inl hpt⟩))) hlck.2
  · next hpt =>
    split_ifs at hgo
    rw [Option.map_eq_some_iff] at hgo
    obtain ⟨p, hp, rfl⟩ := hgo
    obtain ⟨i, hi, hunused⟩ := firstFree_eq_some hp
    rw [hpt] at hfits
    refine h.handOut_unused hfits ?_ hunused
    rw [(h.filled i p hi).2.1]
    exact hi
  · next hpt =>
    split_ifs at hgo
    cases hgo
    rw [hpt] at hfits
    exact h.firstRegion hfits m
  · next hpt =>
    cases hgo
    exact h.tryGet hpt
  · split at hgo
    · next p f hq =>
      cases hgo
      exact h.dequeue (l := s.lck) hq
    · cases hgo
  · next p hpt =>
    split_ifs at hgo
    cases hgo
    refine h.handOut (h.taking t p hpt).1 (h.placed p (.inr (.inr ⟨t, .inr hpt⟩))) ?_
      (h.taking t p hpt).2
    exact fun hin => (h.queued p hin).2 t hpt
  · next p hpt =>
    split_ifs at hgo
    cases hgo
    rw [hpt] at hok
    exact h.releaseRegion hok
  · next p hpt =>
    split_ifs at hgo
    cases hgo
    rw [hpt] at hfits
    exact h.giveBack (b := s.isUsed) (h.putting t p hpt)
      (fun hi => absurd (hi.symm.trans hfits) (by decide)) fun _ => rfl

/-- **A proper step keeps the pool sound.** -/
theorem Sound.step {e : Event τ} (h : Sound nMax s) (hok : proper s e)
    (hstep : s.step e = some s') : Sound nMax s' := by
  unfold Pool.step at hstep
  split_ifs at hstep
  split at hstep
  · split_ifs at hstep
    cases hstep
    unfold Pool.add
    split_ifs with hadd
    · exact h.rest ⟨hadd.1, hadd.2.1⟩ nofun nofun nofun
    · exact h.leave _
  · split_ifs at hstep
    cases hstep
    unfold Pool.acquire
    split
    · next hi => exact h.rest hi nofun nofun nofun
    · next hq => exact h.rest hq nofun nofun nofun
  · split_ifs at hstep
    cases hstep
    unfold Pool.acquireByIndex
    split_ifs with hi
    · split
      · next p hp =>
        refine h.move hi.1 ?_ nofun nofun fun _ => rfl
        intro r hr
        cases hr
        rw [(h.filled _ _ hp).2.1]
        exact hp
      · exact h.leave _
    · exact h.leave _
  · split_ifs at hstep
    cases hstep
    unfold Pool.release
    split
    · split_ifs
      · exact h.rest trivial nofun nofun nofun
      · exact h.leave _
    · exact h.rest trivial nofun nofun nofun
  · exact h.go hok hstep
  · split_ifs at hstep
    cases hstep
    exact h.leave _

omit [DecidableEq τ] in
theorem sound_create {type : PoolType} (h : Pool.create type nMax = some s) :
    Sound nMax s := by
  unfold Pool.create at h
  split_ifs at h with hn
  cases h
  refine ⟨rfl, fun _ => Nat.zero_le 1, ?_, hn.2.1, fun _ => trivial, nofun, nofun, ?_, ?_,
    fun _ => rfl, List.nodup_nil, nofun, nofun, nofun⟩
  · simp [Pool.held, Lease.held]
  · rintro p (hp | hp | ⟨t, hp | hp⟩)
    · exact absurd rfl hp
    · cases hp
    · cases hp
    · cases hp
  · intro _ p
    simp

/-- **One holder at most, and the counter counts.** Where each release that the pool carries out is
the holder's and no add throws out a poolable in use, no poolable is held twice, and in a state
without calls `m_n_free` is `n_max` less the poolables held, between `0` and `n_max`. -/
theorem exclusive_and_counted {type : PoolType} {s₀ : Pool τ} {es : List (Event τ)}
    (hcreate : Pool.create type nMax = some s₀) (hrun : Trans.Run Pool.step proper s₀ es s) :
    (∀ p, (s.holders p).length ≤ 1) ∧
      (s.quiet → (s.nFree : Int) = nMax - s.held.card ∧ s.nFree ≤ nMax) := by
  have h : Sound nMax s :=
    hrun.inv (fun _ _ _ hs hok hst => hs.step hok hst) (sound_create hcreate)
  refine ⟨h.excl, fun _ => ?_⟩
  have := h.count
  have := h.limit
  omega

/-- Two acquirers take turns with the only poolable of a `queue` pool. -/
def turns : List (Event (Fin 2)) :=
  [.acquire 0, .go 0 .done, .acquire 1, .go 1 .done, .release 0 0, .go 0 .done, .go 0 .done,
    .go 1 .done, .go 1 .done]

/-- The second has waited for it, and holds it. -/
theorem exclusive_and_counted_turns :
    ∃ s₀ s : Pool (Fin 2), Pool.create .queue 1 = some s₀ ∧
      Trans.run Pool.step s₀ turns = some s ∧ s.holders 0 = [1] ∧ s.quiet ∧
      (∀ p, (s.holders p).length ≤ 1) ∧ (s.nFree : Int) = 1 - s.held.card := by
  have hrun : ∃ s₀ s : Pool (Fin 2), Pool.create .queue 1 = some s₀ ∧
      Trans.run (Trans.guarded Pool.step proper) s₀ turns = some s ∧ s.holders 0 = [1] ∧ s.quiet :=
    ⟨_, _, rfl, rfl, rfl, by decide⟩
  obtain ⟨s₀, s, hcreate, hs, h₀, hquiet⟩ := hrun
  have hok := Trans.Run.of_guarded hs
  obtain ⟨hone, hcount⟩ := exclusive_and_counted hcreate hok
  exact ⟨s₀, s, hcreate, hok.run_eq, h₀, hquiet, hone, (hcount hquiet).1⟩

/-- In a pool of one poolable a second release, which the `queue` pool never notices and the
`index` pool takes for the next holder's, lets two acquirers hold it; the counter then exceeds
`n_max`. Two calls that add to one slot bring the counter below zero. -/
theorem shared_and_miscounted :
    (∃ s₀ s : Pool (Fin 2), ∃ es, Pool.create .queue 1 = some s₀ ∧
      Trans.run Pool.step s₀ es = some s ∧ s.quiet ∧ s.holders 0 = [0, 1]) ∧
    (∃ s₀ s : Pool (Fin 2), ∃ es, Pool.create .queue 1 = some s₀ ∧
      Trans.run Pool.step s₀ es = some s ∧ s.quiet ∧ s.nFree = 2) ∧
    (∃ s₀ s : Pool (Fin 2), ∃ es, Pool.create .index 1 = some s₀ ∧
      Trans.run Pool.step s₀ es = some s ∧ s.quiet ∧ s.holders 0 = [1, 0]) ∧
    ∃ s₀ s : Pool (Fin 2), ∃ es, Pool.create .index 1 = some s₀ ∧
      Trans.run Pool.step s₀ es = some s ∧ s.quiet ∧ s.nFree = 2 ^ 64 - 1 := by
  refine ⟨⟨_, _, [.acquire 0, .go 0 .done, .release 0 0, .go 0 .done, .go 0 .done, .release 0 0,
      .go 0 .done, .go 0 .done, .acquire 0, .go 0 .done, .go 0 .done, .acquire 1, .go 1 .done,
      .go 1 .done], rfl, rfl, ?_, rfl⟩,
    ⟨_, _, [.acquire 0, .go 0 .done, .release 0 0, .go 0 .done, .go 0 .done, .release 0 0,
      .go 0 .done, .go 0 .done], rfl, rfl, ?_, rfl⟩,
    ⟨_, _, [.add 0 0, .go 0 .done, .acquireByIndex 0 0, .go 0 .done, .release 0 0, .go 0 .done,
      .acquireByIndex 1 0, .go 1 .done, .release 0 0, .go 0 .done, .acquireByIndex 0 0,
      .go 0 .done], rfl, rfl, ?_, rfl⟩,
    ⟨_, _, [.add 0 0, .add 1 0, .go 0 .done, .acquireByIndex 0 0, .go 0 .done, .go 1 .done,
      .acquireByIndex 1 0, .go 1 .done], rfl, rfl, ?_, rfl⟩⟩
  all_goals decide

end Pools
end Gallus
