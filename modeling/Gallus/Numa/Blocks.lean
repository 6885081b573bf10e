import Gallus.Basic
import Gallus.Lib.Trans
import Mathlib.Logic.Function.Basic

/-!
# The table of the memory on NUMA nodes (`numa.c`)

`numa_free` needs the size of the block, so the allocator keeps a table from the addresses to the
sizes. A block that is not in the table is one of `malloc`.

* `State`: the blocks that are there, which of them the callers have been given, the table, and
  where each thread is. Each call of the table, and of the system's allocators, is one step; an
  allocator may give any address where there is no block.
* `Fits`: a thread that is about to free a block has found it to be what it is.
* `Good`: the states of one address; a step is about one address and leaves the others alone
  (`Inv.move`).
* `frees_fit_iff`: each block is freed as what it is exactly if no block of `malloc` is freed at an
  address whose entry another thread is about to delete.
* `table_faithful`: with no call in progress, the table is that of the blocks on the nodes.
-/

namespace Gallus
namespace Numa

/-- Where a block comes from. -/
inductive Block
  | numa (sz : Nat)
  | heap
  deriving DecidableEq

/-- A call of an allocation function. -/
inductive Request
  /-- `gallus_malloc_on_numanode` -/
  | onNode (sz : Nat)
  /-- `gallus_malloc_on_cpu` -/
  | onCpu (sz : Nat) (cpu : Int)

/-- `s_numa_alloc_node` -/
def allocNode (sz : Nat) : Option Block := if 0 < sz then some (.numa sz) else some .heap

/-- `s_numa_alloc_cpu`, after `s_init_numa_thingies`. Assumed: `cpu` is below `s_n_cpus`, which is
not checked before `s_numa_nodes[cpu]` is read. -/
def allocCpu (sz : Nat) (cpu : Int) : Option Block :=
  if 0 < sz then if 0 ≤ cpu then allocNode sz else some .heap else none

/-- The kind of block that is asked for. -/
def Request.block : Request → Option Block
  | .onNode sz => allocNode sz
  | .onCpu sz cpu => allocCpu sz cpu

/-- Where a thread is. -/
inductive Pc (α : Type)
  | idle
  /-- In `s_numa_alloc_node`, before `s_add_addr`. -/
  | allocated (p : α) (sz : Nat)
  /-- The address could not be registered. -/
  | refused (p : α) (sz : Nat)
  /-- In `s_numa_free`, with this size. -/
  | found (p : α) (sz : Nat)
  /-- In `s_numa_free`, without an entry. -/
  | missed (p : α)
  /-- After `numa_free`, before `s_delete_addr`. -/
  | freed (p : α)
  deriving DecidableEq

variable {α τ : Type}

structure State (α τ : Type) where
  mem : α → Option Block
  /-- The callers have this block. -/
  given : α → Bool
  /-- `s_tbl` -/
  tbl : α → Option Nat
  pc : τ → Pc α

inductive Event (α τ : Type)
  /-- `got`: what `numa_alloc_onnode` or `malloc` returns. -/
  | alloc (t : τ) (r : Request) (got : Option α)
  /-- `s_add_addr`; it fails if there is no memory for an entry. -/
  | add (t : τ) (fails : Bool)
  /-- `numa_free` of what could not be registered. -/
  | giveUp (t : τ)
  /-- A caller gives back what it has been given, and `s_find_addr` looks it up. -/
  | free (t : τ) (p : α)
  /-- `numa_free` -/
  | unmap (t : τ)
  /-- `s_delete_addr` -/
  | delete (t : τ)
  /-- `free` -/
  | heapFree (t : τ)

/-- The process at its start. -/
def init (α τ : Type) : State α τ := ⟨fun _ => none, fun _ => false, fun _ => none, fun _ => .idle⟩

/-- The block that a thread has in its hands. -/
def hand : Pc α → Option (α × Block)
  | .allocated p sz | .refused p sz | .found p sz => some (p, .numa sz)
  | .missed p => some (p, .heap)
  | .idle | .freed _ => none

/-- What a thread takes for a block of some kind and size is one. -/
def Fits (s : State α τ) : Prop := ∀ t p b, hand (s.pc t) = some (p, b) → s.mem p = some b

/-- The condition on the steps: no block of `malloc` is freed at an address that is in the table. -/
def Apart (s : State α τ) : Event α τ → Prop
  | .free _ p => s.tbl p ≠ none → s.mem p ≠ some .heap
  | _ => True

section Steps

variable [DecidableEq α] [DecidableEq τ]

/-- A block at `p`, and the thread `t` at `pc`. -/
def place (s : State α τ) (p : α) (b : Block) : State α τ :=
  match b with
  | .numa _ => { s with mem := Function.update s.mem p (some b) }
  | .heap => { s with
      mem := Function.update s.mem p (some b)
      given := Function.update s.given p true }

def goTo (s : State α τ) (t : τ) (pc : Pc α) : State α τ :=
  { s with pc := Function.update s.pc t pc }

/-- The next place of a thread that has got a block at `p`. -/
def afterAlloc (p : α) : Block → Pc α
  | .numa sz => .allocated p sz
  | .heap => .idle

/-- One step. -/
def step (s : State α τ) : Event α τ → Option (State α τ)
  | .alloc t r got =>
    match s.pc t, r.block, got with
    | .idle, some b, some p =>
      if s.mem p = none then some (goTo (place s p b) t (afterAlloc p b)) else none
    | .idle, _, _ => some s
    | _, _, _ => none
  | .add t fails =>
    match s.pc t with
    | .allocated p sz =>
      if fails = false ∧ s.tbl p = none then
        some { goTo s t .idle with
          tbl := Function.update s.tbl p (some sz)
          given := Function.update s.given p true }
      else some (goTo s t (.refused p sz))
    | _ => none
  | .giveUp t =>
    match s.pc t with
    | .refused p _ => some { goTo s t .idle with mem := Function.update s.mem p none }
    | _ => none
  | .free t p =>
    match s.pc t with
    | .idle =>
      if s.given p = true then
        some { goTo s t (match s.tbl p with | some sz => .found p sz | none => .missed p) with
          given := Function.update s.given p false }
      else none
    | _ => none
  | .unmap t =>
    match s.pc t with
    | .found p _ => some { goTo s t (.freed p) with mem := Function.update s.mem p none }
    | _ => none
  | .delete t =>
    match s.pc t with
    | .freed p => some { goTo s t .idle with tbl := Function.update s.tbl p none }
    | _ => none
  | .heapFree t =>
    match s.pc t with
    | .missed p => some { goTo s t .idle with mem := Function.update s.mem p none }
    | _ => none

/-! ## What is freed is what was allocated -/

/-- What a thread does about an address. -/
inductive Role
  | fresh (sz : Nat)
  | found (sz : Nat)
  | missed
  | freed

def role (p : α) : Pc α → Option Role
  | .idle => none
  | .allocated q sz | .refused q sz => if q = p then some (.fresh sz) else none
  | .found q sz => if q = p then some (.found sz) else none
  | .missed q => if q = p then some .missed else none
  | .freed q => if q = p then some .freed else none

/-- Only the thread `w`, if any, does something: it is to delete the entry. -/
def sweep (w : Option τ) (u : τ) : Option Role := if w = some u then some .freed else none

/-- The states of an address: its block, whether a caller has it, its entry, and what the threads do
about it. An entry for which there is no block has a thread that is to delete it. -/
inductive Good : Option Block → Bool → Option Nat → (τ → Option Role) → Prop
  | vacant {w e} (he : e.isSome = w.isSome) : Good none false e (sweep w)
  | fresh {w e t sz} (he : e.isSome = w.isSome) (ht : w ≠ some t) :
      Good (some (.numa sz)) false e (Function.update (sweep w) t (some (.fresh sz)))
  | owned {sz} : Good (some (.numa sz)) true (some sz) (sweep none)
  | heap {w e} (he : e.isSome = w.isSome) : Good (some .heap) true e (sweep w)
  | found {t sz} :
      Good (some (.numa sz)) false (some sz) (Function.update (sweep none) t (some (.found sz)))
  | missed {t} : Good (some .heap) false none (Function.update (sweep none) t (some .missed))

/-- The invariant. -/
def Inv (s : State α τ) : Prop :=
  ∀ p, Good (s.mem p) (s.given p) (s.tbl p) fun u => role p (s.pc u)

variable {s s' : State α τ} {e : Event α τ} {t : τ} {p : α} {sz : Nat}

theorem sweep_none : sweep (none : Option τ) = fun _ => none := by
  funext u
  exact if_neg nofun

theorem sweep_eq_none {w : Option τ} : sweep w t = none ↔ w ≠ some t := by
  unfold sweep
  split
  · next heq => exact iff_of_false nofun (not_not.mpr heq)
  · next hne => exact iff_of_true rfl hne

theorem sweep_ne {w : Option τ} {r : Role} (hr : r ≠ .freed) : sweep w t ≠ some r := by
  unfold sweep
  split
  · exact fun heq => hr (Option.some.inj heq).symm
  · nofun

theorem sweep_freed {w : Option τ} (h : sweep w t = some .freed) : w = some t := by
  by_contra hne
  rw [sweep_eq_none.mpr hne] at h
  cases h

theorem init_inv : Inv (init α τ) := by
  intro p
  have h : Good none false none (sweep (none : Option τ)) := .vacant rfl
  rwa [sweep_none] at h

variable {w : Option τ} {r : Option Role} {r' r'' : Role} {m : Option Block} {given : Bool}
  {entry : Option Nat} {roles : τ → Option Role}

theorem update_sweep (ht : w ≠ some t) :
    Function.update (Function.update (sweep w) t r) t none = sweep w := by
  rw [Function.update_idem, ← sweep_eq_none.mpr ht, Function.update_eq_self]

theorem sweep_some : Function.update (sweep none) t (some .freed) = sweep (some t) := by
  funext u
  rw [Function.update_apply, sweep_none]
  unfold sweep
  simp only [Option.some.injEq, eq_comm]

theorem sweep_done : Function.update (sweep (some t)) t none = sweep none := by
  rw [← sweep_some, update_sweep (Option.some_ne_none t).symm]

theorem role_of_update (h : Function.update (sweep w) t' (some r'') t = some r')
    (hr : r' ≠ .freed) : t' = t ∧ r'' = r' := by
  rw [Function.update_apply] at h
  split at h
  · next heq => exact ⟨heq.symm, Option.some.inj h⟩
  · exact absurd h (sweep_ne hr)

theorem other_role (hr : r' ≠ .freed) (hne : r'' ≠ r') :
    Function.update (sweep w) t' (some r'') t ≠ some r' :=
  fun h => hne (role_of_update h hr).2

theorem freed_of_update (h : Function.update (sweep w) t' (some r') t = some .freed)
    (hr : r' ≠ .freed) : t ≠ t' ∧ w = some t := by
  rw [Function.update_apply] at h
  split at h
  · exact absurd (Option.some.inj h) hr
  · next hne => exact ⟨hne, sweep_freed h⟩

omit [DecidableEq τ] in
theorem none_of_isSome (he : (none : Option Nat).isSome = w.isSome) : w = none :=
  Option.isNone_iff_eq_none.mp (Option.isSome_eq_false_iff.mp he.symm)

theorem Good.alloc (h : Good none given entry roles) (ht : roles t = none) :
    Good (some (.numa sz)) given entry (Function.update roles t (some (.fresh sz))) := by
  cases h with
  | vacant he => exact .fresh he (sweep_eq_none.mp ht)

theorem Good.keep (h : Good m given entry roles) (ht : roles t = r) :
    Good m given entry (Function.update roles t r) := by
  rwa [← ht, Function.update_eq_self]

theorem Good.allocHeap (h : Good none given entry roles) (ht : roles t = none) :
    Good (some .heap) true entry (Function.update roles t none) := by
  refine Good.keep ?_ ht
  cases h with
  | vacant he => exact .heap he

/-- There was no entry, and so nobody is to delete it. -/
theorem Good.add (h : Good m given none roles) (ht : roles t = some (.fresh sz)) :
    Good m true (some sz) (Function.update roles t none) := by
  cases h with
  | vacant _ | heap _ => exact absurd ht (sweep_ne nofun)
  | missed => exact absurd ht (other_role nofun nofun)
  | fresh he hw =>
    obtain ⟨rfl, hr⟩ := role_of_update ht nofun
    cases hr
    obtain rfl := none_of_isSome he
    rw [update_sweep hw]
    exact .owned

theorem Good.giveUp (h : Good m given entry roles) (ht : roles t = some (.fresh sz)) :
    Good none given entry (Function.update roles t none) := by
  cases h with
  | vacant _ | owned | heap _ => exact absurd ht (sweep_ne nofun)
  | found | missed => exact absurd ht (other_role nofun nofun)
  | fresh he hw =>
    obtain ⟨rfl, -⟩ := role_of_update ht nofun
    rw [update_sweep hw]
    exact .vacant he

/-- What `s_find_addr` finds. -/
def look : Option Nat → Role
  | some sz => .found sz
  | none => .missed

theorem Good.free (h : Good m true entry roles) (hok : entry ≠ none → m ≠ some .heap) :
    Good m false entry (Function.update roles t (some (look entry))) := by
  cases h with
  | owned => exact .found
  | heap he =>
    obtain rfl := of_not_not fun hne => hok hne rfl
    obtain rfl := none_of_isSome he
    exact .missed

theorem Good.unmap (h : Good m given entry roles) (ht : roles t = some (.found sz)) :
    Good none given entry (Function.update roles t (some .freed)) := by
  cases h with
  | vacant _ | owned | heap _ => exact absurd ht (sweep_ne nofun)
  | fresh _ _ | missed => exact absurd ht (other_role nofun nofun)
  | found =>
    obtain ⟨rfl, -⟩ := role_of_update ht nofun
    rw [Function.update_idem, sweep_some]
    exact .vacant rfl

/-- No block on a node has been given since the `numa_free`: the entry was in the way. -/
theorem Good.delete (h : Good m given entry roles) (ht : roles t = some .freed) :
    Good m given none (Function.update roles t none) := by
  cases h with
  | owned => cases sweep_freed ht
  | found | missed => cases (freed_of_update ht nofun).2
  | vacant _ =>
    obtain rfl := sweep_freed ht
    rw [sweep_done]
    exact .vacant rfl
  | heap _ =>
    obtain rfl := sweep_freed ht
    rw [sweep_done]
    exact .heap rfl
  | fresh _ _ =>
    obtain ⟨hne, rfl⟩ := freed_of_update ht nofun
    rw [Function.update_comm hne.symm, sweep_done]
    exact .fresh rfl nofun

theorem Good.heapFree (h : Good m given entry roles) (ht : roles t = some .missed) :
    Good none given entry (Function.update roles t none) := by
  cases h with
  | vacant _ | owned | heap _ => exact absurd ht (sweep_ne nofun)
  | fresh _ _ | found => exact absurd ht (other_role nofun nofun)
  | missed =>
    obtain ⟨rfl, -⟩ := role_of_update ht nofun
    rw [update_sweep (Option.some_ne_none _).symm]
    exact .vacant rfl

/-- At this place a thread does `r` about `p`, and nothing about other addresses. -/
def Does (p : α) (pc : Pc α) (r : Option Role) : Prop := ∀ q, role q pc = if p = q then r else none

theorem does_idle : Does p .idle none := fun _ => (ite_self none).symm

theorem does_fresh (sz : Nat) : Does p (.allocated p sz) (some (.fresh sz)) := fun _ => rfl

theorem does_refused (sz : Nat) : Does p (.refused p sz) (some (.fresh sz)) := fun _ => rfl

theorem does_freed : Does p (.freed p) (some .freed) := fun _ => rfl

theorem does_look (entry : Option Nat) :
    Does p (match entry with | some sz => .found p sz | none => .missed p) (some (look entry)) := by
  intro q
  cases entry <;> rfl

/-- What a step of `t` about `p` has to keep. -/
theorem Inv.move {pc pc' : Pc α} {r r' : Option Role} {m : Option Block} {given : Bool}
    {entry : Option Nat} (h : Inv s) (hpc : s.pc t = pc) (hr : Does p pc r) (hr' : Does p pc' r')
    (hgood : ∀ roles, Good (s.mem p) (s.given p) (s.tbl p) roles → roles t = r →
      Good m given entry (Function.update roles t r')) :
    Inv (⟨Function.update s.mem p m, Function.update s.given p given,
      Function.update s.tbl p entry, Function.update s.pc t pc'⟩ : State α τ) := by
  intro q
  have hroles : (fun u => role q (Function.update s.pc t pc' u)) =
      Function.update (fun u => role q (s.pc u)) t (role q pc') := by
    funext u
    exact Function.apply_update (fun _ => role q) s.pc t pc' u
  simp only [hroles, hr' q]
  by_cases hq : p = q
  · subst hq
    simp only [Function.update_self, if_true]
    exact hgood _ (h p) (by rw [hpc, hr p, if_pos rfl])
  · have hnone : role q (s.pc t) = none := by rw [hpc, hr q, if_neg hq]
    rw [if_neg hq, ← hnone, Function.update_eq_self, Function.update_of_ne (Ne.symm hq),
      Function.update_of_ne (Ne.symm hq), Function.update_of_ne (Ne.symm hq)]
    exact h q

theorem Inv.alloc (h : Inv s) (b : Block) (hpc : s.pc t = .idle) (hmem : s.mem p = none) :
    Inv (goTo (place s p b) t (afterAlloc p b)) := by
  cases b with
  | numa sz =>
    have hmove := h.move (p := p) hpc does_idle (does_fresh sz)
      fun roles hgood ht => (hmem ▸ hgood).alloc ht
    simpa only [goTo, place, afterAlloc, Function.update_eq_self] using hmove
  | heap =>
    have hmove := h.move (p := p) hpc does_idle does_idle
      fun roles hgood ht => (hmem ▸ hgood).allocHeap ht
    simpa only [goTo, place, afterAlloc, Function.update_eq_self] using hmove

/-- **The step lemma.** -/
theorem Inv.step (h : Inv s) (hok : Apart s e) (hs : step s e = some s') : Inv s' := by
  cases e with
  | alloc t r got =>
    simp only [Numa.step] at hs
    split at hs
    · next b p hpc hreq =>
      split at hs
      · next hmem =>
        cases hs
        exact h.alloc b hpc hmem
      · cases hs
    · cases hs
      exact h
    · cases hs
  | add t fails =>
    simp only [Numa.step] at hs
    split at hs
    · next p sz hpc =>
      split at hs
      · next hadd =>
        cases hs
        have hmove := h.move hpc (fun _ => rfl) does_idle
          fun roles hgood ht => (hadd.2 ▸ hgood).add ht
        simpa only [goTo, Function.update_eq_self] using hmove
      · cases hs
        have hmove := h.move hpc (fun _ => rfl) (does_refused sz)
          fun roles hgood ht => hgood.keep ht
        simpa only [goTo, Function.update_eq_self] using hmove
    · cases hs
  | giveUp t =>
    simp only [Numa.step] at hs
    split at hs
    · next hpc =>
      cases hs
      have hmove := h.move hpc (fun _ => rfl) does_idle fun roles hgood ht => hgood.giveUp ht
      simpa only [goTo, Function.update_eq_self] using hmove
    · cases hs
  | free t p =>
    simp only [Numa.step] at hs
    split at hs
    · next hpc =>
      split at hs
      · next hgiven =>
        cases hs
        have hmove := h.move hpc does_idle (does_look (p := p) _) fun roles hgood ht =>
          (hgiven ▸ hgood).free hok
        simpa only [goTo, Function.update_eq_self] using hmove
      · cases hs
    · cases hs
  | unmap t =>
    simp only [Numa.step] at hs
    split at hs
    · next p sz hpc =>
      cases hs
      have hmove := h.move hpc (fun _ => rfl) does_freed
        fun roles hgood ht => hgood.unmap ht
      simpa only [goTo, Function.update_eq_self] using hmove
    · cases hs
  | delete t =>
    simp only [Numa.step] at hs
    split at hs
    · next hpc =>
      cases hs
      have hmove := h.move hpc (fun _ => rfl) does_idle fun roles hgood ht => hgood.delete ht
      simpa only [goTo, Function.update_eq_self] using hmove
    · cases hs
  | heapFree t =>
    simp only [Numa.step] at hs
    split at hs
    · next hpc =>
      cases hs
      have hmove := h.move hpc (fun _ => rfl) does_idle fun roles hgood ht => hgood.heapFree ht
      simpa only [goTo, Function.update_eq_self] using hmove
    · cases hs

/-! ## What follows from the states of the addresses -/

def Role.block : Role → Option Block
  | .fresh sz | .found sz => some (.numa sz)
  | .missed => some .heap
  | .freed => none

theorem role_of_hand {pc : Pc α} {b : Block} (h : hand pc = some (p, b)) :
    ∃ r, role p pc = some r ∧ r.block = some b := by
  cases pc with
  | idle | freed => cases h
  | allocated | refused | found | missed =>
    cases h
    exact ⟨_, if_pos rfl, rfl⟩

theorem pc_of_freed {pc : Pc α} (h : role p pc = some .freed) : pc = .freed p := by
  cases pc with
  | idle => cases h
  | allocated | refused | found | missed =>
    simp only [role] at h
    split at h <;> cases h
  | freed q =>
    simp only [role] at h
    split at h
    · next heq => rw [heq]
    · cases h

theorem Good.fits {b : Block} (h : Good m given entry roles) (ht : roles t = some r')
    (hb : r'.block = some b) : m = some b := by
  have hr : r' ≠ .freed := by
    rintro rfl
    cases hb
  cases h with
  | vacant _ | owned | heap _ => exact absurd ht (sweep_ne hr)
  | fresh _ _ | found | missed =>
    obtain ⟨-, rfl⟩ := role_of_update ht hr
    cases hb
    rfl

theorem Inv.fits (h : Inv s) : Fits s := by
  intro t p b hb
  obtain ⟨r, hr, hb⟩ := role_of_hand hb
  exact (h p).fits hr hb

/-- An entry is in the way of a new block. -/
theorem Good.refused (h : Good m given entry roles) (ht : roles t = some (.fresh sz))
    (hentry : entry ≠ none) : ∃ u, roles u = some .freed := by
  cases h with
  | vacant _ | owned | heap _ => exact absurd ht (sweep_ne nofun)
  | found | missed => exact absurd ht (other_role nofun nofun)
  | fresh he hw =>
    rw [Option.isSome_iff_ne_none.mpr hentry] at he
    obtain ⟨u, rfl⟩ := Option.isSome_iff_exists.mp he.symm
    refine ⟨u, ?_⟩
    rw [Function.update_of_ne fun heq => hw (congrArg some heq)]
    exact if_pos rfl

theorem Good.quiet (h : Good m given entry roles) (hquiet : ∀ u, roles u = none) :
    entry = some sz ↔ m = some (.numa sz) := by
  have hnone : ∀ w : Option τ, (∀ u, sweep w u = none) → w = none := by
    intro w hw
    by_contra hne
    obtain ⟨u, rfl⟩ := Option.ne_none_iff_exists'.mp hne
    exact sweep_eq_none.mp (hw u) rfl
  cases h with
  | vacant he | heap he =>
    obtain rfl := hnone _ hquiet
    obtain rfl := Option.isNone_iff_eq_none.mp (Option.isSome_eq_false_iff.mp he)
    exact iff_of_false nofun nofun
  | @fresh _ _ t | @found t | @missed t =>
    have ht := hquiet t
    rw [Function.update_self] at ht
    cases ht
  | owned => simp only [Option.some.injEq, Block.numa.injEq]

/-- A block of `malloc` is taken for one on a node. -/
theorem apart_of_fits (hs : step s e = some s') (hP : Fits s') : Apart s e := by
  cases e with
  | free t p =>
    intro htbl hmem
    obtain ⟨sz, htbl⟩ := Option.ne_none_iff_exists'.mp htbl
    simp only [step, htbl] at hs
    split at hs
    · split at hs
      · cases hs
        have hfits : s.mem p = some (.numa sz) :=
          hP t p (.numa sz) (by simp only [goTo, Function.update_self, hand])
        cases hfits.symm.trans hmem
      · cases hs
    · cases hs
  | alloc _ _ _ | add _ _ | giveUp _ | unmap _ | delete _ | heapFree _ => trivial

variable {es : List (Event α τ)}

/-- **Each block is freed as what it was allocated as**, by `numa_free` with its size or by `free`,
in every run of any number of threads, exactly if no block of `malloc` is freed at an address whose
entry is still in the table. -/
theorem frees_fit_iff (hrun : Trans.run step (init α τ) es = some s) :
    (∀ es₁ s₁, es₁ <+: es → Trans.run step (init α τ) es₁ = some s₁ → Fits s₁) ↔
      Trans.Run step Apart (init α τ) es s :=
  Trans.Run.iff_states (fun _ _ _ h hok hs => h.step hok hs)
    (fun _ _ _ _ hs hP => apart_of_fits hs hP)
    (fun _ h => h.fits) init_inv hrun

/-- **The table tells the truth.** In such a run an address is refused as known only while another
thread is between its `numa_free` and its `s_delete_addr`; and when no call is in progress, the
table has the blocks on the nodes, with their sizes, and nothing else. -/
theorem table_faithful (hrun : Trans.Run step Apart (init α τ) es s) :
    (∀ t p sz, s.pc t = .allocated p sz → s.tbl p ≠ none → ∃ u, s.pc u = .freed p) ∧
    ((∀ t, s.pc t = .idle) → ∀ p sz, s.tbl p = some sz ↔ s.mem p = some (.numa sz)) := by
  have h : Inv s := hrun.inv (fun _ _ _ h hok hs => h.step hok hs) init_inv
  refine ⟨fun t p sz hpc htbl => ?_, fun hidle p sz => (h p).quiet fun u => ?_⟩
  · obtain ⟨u, hu⟩ := (h p).refused (by rw [hpc]; exact if_pos rfl) htbl
    exact ⟨u, pc_of_freed hu⟩
  · rw [hidle u]
    rfl

instance (s : State α τ) (e : Event α τ) : Decidable (Apart s e) :=
  match e with
  | .free _ p => inferInstanceAs (Decidable (s.tbl p ≠ none → s.mem p ≠ some .heap))
  | .alloc _ _ _ | .add _ _ | .giveUp _ | .unmap _ | .delete _ | .heapFree _ => .isTrue trivial

end Steps

/-- Two threads, one address: the second one is refused it while the first one frees its block, and
gets it afterwards. -/
def oneAddress : List (Event (Fin 1) (Fin 2)) :=
  [.alloc 0 (.onNode 64) (some 0), .add 0 false, .free 0 0, .unmap 0,
    .alloc 1 (.onCpu 32 0) (some 0), .add 1 false, .giveUp 1, .delete 0,
    .alloc 1 (.onCpu 32 0) (some 0), .add 1 false]

theorem frees_fit_iff_oneAddress :
    ∃ s, Trans.run step (init (Fin 1) (Fin 2)) oneAddress = some s ∧
      ∀ es₁ s₁, es₁ <+: oneAddress → Trans.run step (init (Fin 1) (Fin 2)) es₁ = some s₁ →
        Fits s₁ := by
  obtain ⟨s, hguarded⟩ := Option.isSome_iff_exists.mp
    (show (Trans.run (Trans.guarded step Apart) (init (Fin 1) (Fin 2)) oneAddress).isSome = true by
      decide)
  have hrun := Trans.Run.of_guarded hguarded
  exact ⟨s, hrun.run_eq, (frees_fit_iff hrun.run_eq).mpr hrun⟩

theorem table_faithful_oneAddress :
    ∃ s, Trans.run step (init (Fin 1) (Fin 2)) oneAddress = some s ∧ s.tbl 0 = some 32 ∧
      s.mem 0 = some (.numa 32) := by
  obtain ⟨s, hguarded, heq⟩ := Option.map_eq_some_iff.mp
    (show (Trans.run (Trans.guarded step Apart) (init (Fin 1) (Fin 2)) oneAddress).map
      (fun s => (decide (∀ t, s.pc t = .idle), s.tbl 0)) =
        some (true, some 32) by decide)
  obtain ⟨hidle, htbl⟩ := Prod.mk.inj heq
  have hrun := Trans.Run.of_guarded hguarded
  have hidle := of_decide_eq_true hidle
  exact ⟨s, hrun.run_eq, htbl, ((table_faithful hrun).2 hidle 0 32).mp htbl⟩

/-- The second thread gets the same address from `malloc`, and gives it to `numa_free`. -/
theorem misfit : ∃ s, Trans.run step (init (Fin 1) (Fin 2))
    [.alloc 0 (.onNode 64) (some 0), .add 0 false, .free 0 0, .unmap 0,
      .alloc 1 (.onNode 0) (some 0), .free 1 0] = some s ∧ s.pc 1 = .found 0 64 ∧
        s.mem 0 = some .heap := by
  exact ⟨_, rfl, rfl, rfl⟩

end Numa
end Gallus
