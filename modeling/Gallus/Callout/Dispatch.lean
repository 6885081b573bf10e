import Gallus.Basic
import Mathlib.Data.List.Nodup
import Mathlib.Data.List.Range

/-!
# A batch of tasks for the workers (`callout_stage.c`)

`s_submit_callout_stage` cuts a batch into shares, one for each worker, and hands them to
`s_callout_worker_sched`, which puts a share into the queue of a worker. What becomes of the tasks
themselves before that is in `Threads`.

* A task of the batch is its place in it.
* `Reply`: what a put without a time limit comes to. `workerSched`: a share, with the replies of its
  puts. `submitLoop`: the shares, from a place on.
* `Accounts`: no task is put twice, and the return value tells what is left.
* `submitLoop_whole`: where no share fails half way, the tasks put are those that the return value
  counts; `submitLoop_not_whole`: elsewhere the next share begins with a task that is in a queue.
* `submit_accounts_iff`: when the call accounts for its batch.
-/

namespace Gallus
namespace Dispatch

/-! ## The source -/

/-- What `gallus_bbq_put_n` without a time limit comes to. -/
inductive Reply
  | stored (n : Nat)
  /-- An error, with `*n_actual_put`. -/
  | failed (ret : Result) (nPuts : Nat)
  deriving DecidableEq, Repr

/-- How many values are in the queue then. -/
def Reply.nPuts : Reply → Nat
  | .stored n | .failed _ n => n

/-- The loop of `s_callout_worker_sched`, over `nEvs` tasks: its result, and how many of them are in
the queue. A put that fails has stored less than it was given. -/
def schedLoop (nEvs : Nat) : List Reply → Nat → Result → Option (Result × Nat)
  | [], nTotalPuts, ret =>
    if nTotalPuts < nEvs then none
    else some (if 0 < ret then nTotalPuts else ret, nTotalPuts)
  | reply :: replies, nTotalPuts, _ =>
    if nTotalPuts < nEvs then
      match reply with
      | .stored n =>
        if n ≤ nEvs - nTotalPuts then schedLoop nEvs replies (nTotalPuts + n) n else none
      | .failed e nPuts =>
        if e < 0 ∧ nPuts < nEvs - nTotalPuts then
          if e = Result.wakeupRequested then schedLoop nEvs replies (nTotalPuts + nPuts) e
          else if replies = [] then some (e, nTotalPuts + nPuts)
          else none
        else none
    else none

/-- `s_callout_worker_sched`. -/
def workerSched (nWorkers idx nEvs : Nat) (replies : List Reply) : Option (Result × Nat) :=
  if idx < nWorkers then schedLoop nEvs replies 0 Result.anyFailures
  else if replies = [] then some (Result.invalidArgs, 0)
  else none

/-- `callout_stage_record`. -/
structure CalloutStage where
  isInitialized : Bool
  nWorkers : Nat
  lastQ : Nat

/-- The result of a call, and the tasks that it has put, with their queues. -/
structure Outcome where
  ret : Result
  puts : List (Nat × Nat)
  lastQ : Nat
  deriving DecidableEq, Repr

/-- The loop over the shares, with the replies that the puts of each of them get. `tries` are left,
and `err` is the last error, or `OK`. -/
def submitLoop (nWorkers n stride : Nat) :
    Nat → Nat → Nat → Result → List (List Reply) → Option Outcome
  | 0, lastQ, nTotal, err, shares =>
    if shares = [] then some ⟨if err < 0 then err else nTotal, [], lastQ⟩ else none
  | tries + 1, lastQ, nTotal, err, shares =>
    if nTotal < n then
      match shares with
      | [] => none
      | replies :: shares =>
        let nPut := if stride < n - nTotal then stride else n - nTotal
        let q := lastQ % nWorkers % 2 ^ 32
        match workerSched nWorkers q nPut replies with
        | none => none
        | some (ret, put) =>
          (submitLoop nWorkers n stride tries ((lastQ + 1) % 2 ^ 64)
              (if 0 ≤ ret then nTotal + ret.toNat else nTotal) (if 0 ≤ ret then Result.ok else ret)
              shares).map fun o =>
            { o with puts := ((List.range' nTotal put).map fun i => (q, i)) ++ o.puts }
    else if shares = [] then some ⟨if err < 0 then err else nTotal, [], lastQ⟩
    else none

/-- `s_submit_callout_stage`, with the replies that the puts of its shares get. There is no outcome
if these are not the replies to its puts. -/
def submit (cs : CalloutStage) (n : Nat) (shares : List (List Reply)) : Option Outcome :=
  if cs.isInitialized then
    if 0 < n then
      if cs.nWorkers = 1 then
        match shares with
        | [replies] =>
          (workerSched cs.nWorkers 0 n replies).map fun (ret, put) =>
            ⟨ret, (List.range' 0 put).map fun i => (0, i), cs.lastQ⟩
        | _ => none
      else
        let stride := if n / cs.nWorkers = 0 then 1 else n / cs.nWorkers
        submitLoop cs.nWorkers n stride n cs.lastQ 0 Result.ok shares
    else if shares = [] then some ⟨Result.invalidArgs, [], cs.lastQ⟩ else none
  else if shares = [] then some ⟨Result.notOperational, [], cs.lastQ⟩ else none

/-! ## A share -/

/-- How many tasks of a share are in the queue after these replies. -/
def stores (replies : List Reply) : Nat := (replies.map Reply.nPuts).sum

/-- The last put of the share has failed. -/
def fails (replies : List Reply) : Prop :=
  ∃ e nPuts, replies.getLast? = some (.failed e nPuts)

instance (replies : List Reply) : Decidable (fails replies) :=
  match h : replies.getLast? with
  | some (.failed e nPuts) => .isTrue ⟨e, nPuts, h⟩
  | some (.stored _) => .isFalse fun ⟨_, _, hf⟩ => by rw [h] at hf; cases hf
  | none => .isFalse fun ⟨_, _, hf⟩ => by rw [h] at hf; cases hf

section Share

variable {nEvs nTotal put : Nat} {ret ret' : Result} {replies : List Reply} {reply : Reply}

theorem stores_cons : stores (reply :: replies) = reply.nPuts + stores replies := by
  unfold stores
  rw [List.map_cons, List.sum_cons]

theorem fails_cons (h : replies ≠ []) : fails (reply :: replies) ↔ fails replies := by
  unfold fails
  rw [List.getLast?_cons_of_ne_nil h]

/-- **A share.** It is put as a whole, or its last put fails and something of it is missing. -/
theorem schedLoop_cases (hlt : nTotal < nEvs)
    (h : schedLoop nEvs replies nTotal ret = some (ret', put)) :
    put = nTotal + stores replies ∧
      (¬fails replies ∧ ret' = nEvs ∧ put = nEvs ∨ fails replies ∧ ret' < 0) := by
  induction replies generalizing nTotal ret with
  | nil =>
    rw [schedLoop, if_pos hlt] at h
    cases h
  | cons reply replies ih =>
    unfold schedLoop at h
    rw [if_pos hlt] at h
    rw [stores_cons]
    -- The rest of the share, if this put has not been the last one.
    have hrest : ∀ n ret, nTotal + n < nEvs →
        schedLoop nEvs replies (nTotal + n) ret = some (ret', put) →
        put = nTotal + (n + stores replies) ∧
          (¬fails (reply :: replies) ∧ ret' = nEvs ∧ put = nEvs ∨
            fails (reply :: replies) ∧ ret' < 0) := by
      intro n ret hn hloop
      have hne : replies ≠ [] := by
        rintro rfl
        rw [schedLoop, if_pos hn] at hloop
        cases hloop
      rw [fails_cons hne, ← Nat.add_assoc]
      exact ih hn hloop
    cases reply with
    | stored n =>
      dsimp only at h
      split_ifs at h with hn
      by_cases hmore : nTotal + n < nEvs
      · exact hrest n n hmore h
      · cases replies with
        | nil =>
          rw [schedLoop, if_neg hmore] at h
          have hpos : (0 : Result) < n := Int.natCast_pos.mpr (by omega)
          rw [if_pos hpos] at h
          cases h
          have hall : nTotal + n = nEvs := by omega
          refine ⟨rfl, .inl ⟨?_, by rw [hall], hall⟩⟩
          rintro ⟨e, nPuts, hlast⟩
          cases hlast
        | cons =>
          unfold schedLoop at h
          rw [if_neg hmore] at h
          cases h
    | failed e nPuts =>
      dsimp only at h
      split_ifs at h with hfits hwake hnil
      · exact hrest nPuts _ (by omega) h
      · subst hnil
        cases h
        exact ⟨rfl, .inr ⟨⟨_, nPuts, rfl⟩, hfits.1⟩⟩

/-- The share of a worker. -/
theorem workerSched_cases {nWorkers idx : Nat} (hidx : idx < nWorkers) (hpos : 0 < nEvs)
    (h : workerSched nWorkers idx nEvs replies = some (ret, put)) :
    put = stores replies ∧
      (¬fails replies ∧ ret = nEvs ∧ put = nEvs ∨ fails replies ∧ ret < 0) := by
  unfold workerSched at h
  rw [if_pos hidx] at h
  simpa using schedLoop_cases hpos h

end Share

/-! ## The shares -/

/-- The tasks that are in a queue. -/
def Outcome.places (o : Outcome) : List Nat := o.puts.map Prod.snd

theorem map_snd_range' (q t k : Nat) :
    ((List.range' t k).map fun i => (q, i)).map Prod.snd = List.range' t k := by
  rw [List.map_map]
  exact List.map_id _

/-- No share has failed with something of it in a queue. -/
def Whole (shares : List (List Reply)) : Prop :=
  ∀ replies ∈ shares, fails replies → stores replies = 0

/-- The last error, after these shares. -/
def EndsInError (err : Result) (shares : List (List Reply)) : Prop :=
  shares = [] ∧ err < 0 ∨ ∃ replies ∈ shares.getLast?, fails replies

section Loop

variable {nWorkers n stride tries lastQ t : Nat} {err : Result} {shares : List (List Reply)}
  {o : Outcome}

/-- The end of the loop, or the next share. -/
theorem submitLoop_cases (hw : 0 < nWorkers) (hstride : 0 < stride)
    (h : submitLoop nWorkers n stride tries lastQ t err shares = some o) :
    shares = [] ∧ o.places = [] ∧ o.ret = (if err < 0 then err else (t : Result)) ∨
    ∃ replies rest tries' lastQ' o', shares = replies :: rest ∧ t < n ∧ o.ret = o'.ret ∧
      o.places = List.range' t (stores replies) ++ o'.places ∧
      (¬fails replies ∧ 0 < stores replies ∧ t + stores replies ≤ n ∧ submitLoop nWorkers n stride
          tries' lastQ' (t + stores replies) Result.ok rest = some o' ∨
        fails replies ∧
          ∃ e < 0, submitLoop nWorkers n stride tries' lastQ' t e rest = some o') := by
  cases tries with
  | zero =>
    unfold submitLoop at h
    split_ifs at h with hnil herr
    · cases h
      exact .inl ⟨hnil, rfl, (if_pos herr).symm⟩
    · cases h
      exact .inl ⟨hnil, rfl, (if_neg herr).symm⟩
  | succ tries =>
    unfold submitLoop at h
    by_cases hlt : t < n
    swap
    · rw [if_neg hlt] at h
      split_ifs at h with hnil herr
      · cases h
        exact .inl ⟨hnil, rfl, (if_pos herr).symm⟩
      · cases h
        exact .inl ⟨hnil, rfl, (if_neg herr).symm⟩
    rw [if_pos hlt] at h
    cases shares with
    | nil => cases h
    | cons replies rest =>
      dsimp only at h
      have hpos : 0 < (if stride < n - t then stride else n - t) := by split_ifs <;> omega
      have hle : (if stride < n - t then stride else n - t) ≤ n - t := by split_ifs <;> omega
      generalize (if stride < n - t then stride else n - t) = nPut at h hpos hle
      have hq : lastQ % nWorkers % 2 ^ 32 < nWorkers :=
        lt_of_le_of_lt (Nat.mod_le ..) (Nat.mod_lt _ hw)
      generalize lastQ % nWorkers % 2 ^ 32 = q at h hq
      cases hsched : workerSched nWorkers q nPut replies with
      | none =>
        rw [hsched] at h
        cases h
      | some result =>
        obtain ⟨ret, put⟩ := result
        rw [hsched] at h
        obtain ⟨o', hrest, rfl⟩ := Option.map_eq_some_iff.mp h
        obtain ⟨rfl, ⟨hwhole, rfl, hput⟩ | ⟨hfails, hneg⟩⟩ := workerSched_cases hq hpos hsched
        · rw [if_pos (Int.natCast_nonneg nPut), if_pos (Int.natCast_nonneg nPut), Int.toNat_natCast,
            ← hput] at hrest
          refine .inr ⟨replies, rest, tries, _, o', rfl, hlt, rfl, ?_, .inl ⟨hwhole, ?_, ?_, hrest⟩⟩
          · show List.map Prod.snd (_ ++ _) = _
            rw [List.map_append, map_snd_range']
            rfl
          · omega
          · omega
        · rw [if_neg (Int.not_le.mpr hneg), if_neg (Int.not_le.mpr hneg)] at hrest
          refine .inr ⟨replies, rest, tries, _, o', rfl, hlt, rfl, ?_,
            .inr ⟨hfails, ret, hneg, hrest⟩⟩
          show List.map Prod.snd (_ ++ _) = _
          rw [List.map_append, map_snd_range']
          rfl

/-- **Whole shares.** The tasks put are those from `t` on that the return value counts, unless the
last share has failed. -/
theorem submitLoop_whole (hw : 0 < nWorkers) (hstride : 0 < stride) (ht : t ≤ n)
    (hwhole : Whole shares) (h : submitLoop nWorkers n stride tries lastQ t err shares = some o) :
    o.places = List.range' t (shares.map stores).sum ∧ t + (shares.map stores).sum ≤ n ∧
      (EndsInError err shares → o.ret < 0) ∧
      (¬EndsInError err shares → o.ret = (t + (shares.map stores).sum : Nat)) := by
  induction shares generalizing tries lastQ t err o with
  | nil =>
    obtain ⟨-, hplaces, hret⟩ | ⟨replies, rest, tries', lastQ', o', hcons, -⟩ :=
      submitLoop_cases hw hstride h
    · refine ⟨hplaces, ht, ?_, ?_⟩
      · rintro (⟨-, herr⟩ | ⟨replies, hlast, -⟩)
        · rw [hret, if_pos herr]
          exact herr
        · cases hlast
      · intro hend
        rw [hret, if_neg fun herr => hend (.inl ⟨rfl, herr⟩)]
        simp
    · cases hcons
  | cons replies rest ih =>
    have hrest : Whole rest := fun r hr => hwhole r (List.mem_cons_of_mem _ hr)
    obtain ⟨hnil, -⟩ | ⟨replies', rest', tries', lastQ', o', hcons, hlt, hret, hplaces, hnext⟩ :=
      submitLoop_cases hw hstride h
    · cases hnil
    obtain ⟨rfl, rfl⟩ := List.cons.inj hcons
    -- The error at the end is that of the rest, if there is a rest.
    have hends : ∀ e : Result, (e < 0 ↔ fails replies) →
        (EndsInError e rest ↔ EndsInError err (replies :: rest)) := by
      intro e he
      cases rest with
      | nil => simp [EndsInError, he]
      | cons r rest => simp [EndsInError]
    rw [List.map_cons, List.sum_cons, hplaces, hret, ← Nat.add_assoc]
    obtain ⟨hok, hpos, hle, hloop⟩ | ⟨hfails, e, he, hloop⟩ := hnext
    · obtain ⟨hplaces', hle', hneg, hcount⟩ := ih hle hrest hloop
      rw [← hends Result.ok (iff_of_false (Int.lt_irrefl _) hok), hplaces', List.range'_append_1]
      exact ⟨rfl, hle', hneg, hcount⟩
    · obtain ⟨hplaces', hle', hneg, hcount⟩ := ih ht hrest hloop
      have hzero := hwhole replies List.mem_cons_self hfails
      rw [← hends e (iff_of_true he hfails), hplaces', hzero, Nat.add_zero, Nat.zero_add]
      exact ⟨rfl, hle', hneg, hcount⟩

/-- After an error, the next task that is put is the first one of the share that has failed. -/
theorem submitLoop_retry (hw : 0 < nWorkers) (hstride : 0 < stride) (herr : err < 0)
    (h : submitLoop nWorkers n stride tries lastQ t err shares = some o) :
    t ∈ o.places ∨ o.places = [] ∧ o.ret < 0 := by
  induction shares generalizing tries lastQ err o with
  | nil =>
    obtain ⟨-, hplaces, hret⟩ | ⟨replies, rest, tries', lastQ', o', hcons, -⟩ :=
      submitLoop_cases hw hstride h
    · rw [hret, if_pos herr]
      exact .inr ⟨hplaces, herr⟩
    · cases hcons
  | cons replies rest ih =>
    obtain ⟨hnil, -⟩ | ⟨replies', rest', tries', lastQ', o', hcons, hlt, hret, hplaces, hnext⟩ :=
      submitLoop_cases hw hstride h
    · cases hnil
    obtain ⟨rfl, rfl⟩ := List.cons.inj hcons
    rw [hplaces, hret]
    by_cases hpos : 0 < stores replies
    · exact .inl (List.mem_append_left _ (List.mem_range'_1.mpr (by omega)))
    · have hzero : stores replies = 0 := by omega
      rw [hzero, List.range'_zero, List.nil_append]
      obtain ⟨-, hpos', -⟩ | ⟨-, e, he, hloop⟩ := hnext
      · exact absurd hpos' hpos
      · exact ih he hloop

/-- **A share that fails half way.** A task is put twice, or an error is returned with tasks in a
queue. -/
theorem submitLoop_not_whole (hw : 0 < nWorkers) (hstride : 0 < stride) (hwhole : ¬Whole shares)
    (h : submitLoop nWorkers n stride tries lastQ t err shares = some o) :
    ¬o.places.Nodup ∨ o.ret < 0 ∧ o.places ≠ [] := by
  induction shares generalizing tries lastQ t err o with
  | nil => exact absurd (fun _ hr => absurd hr List.not_mem_nil) hwhole
  | cons replies rest ih =>
    obtain ⟨hnil, -⟩ | ⟨replies', rest', tries', lastQ', o', hcons, hlt, hret, hplaces, hnext⟩ :=
      submitLoop_cases hw hstride h
    · cases hnil
    obtain ⟨rfl, rfl⟩ := List.cons.inj hcons
    rw [hplaces, hret]
    -- What is wrong with the rest is wrong with all of it.
    have hlift : (¬o'.places.Nodup ∨ o'.ret < 0 ∧ o'.places ≠ []) →
        ¬(List.range' t (stores replies) ++ o'.places).Nodup ∨
          o'.ret < 0 ∧ List.range' t (stores replies) ++ o'.places ≠ [] := by
      rintro (hdup | ⟨hneg, hne⟩)
      · exact .inl fun hnodup => hdup (List.nodup_append.mp hnodup).2.1
      · exact .inr ⟨hneg, List.append_ne_nil_of_right_ne_nil _ hne⟩
    obtain ⟨hok, -, -, hloop⟩ | ⟨hfails, e, he, hloop⟩ := hnext
    · refine hlift (ih (fun hrest => hwhole fun r hr hf => ?_) hloop)
      rcases List.mem_cons.mp hr with rfl | hr
      · exact absurd hf hok
      · exact hrest r hr hf
    · by_cases hzero : stores replies = 0
      · refine hlift (ih (fun hrest => hwhole fun r hr hf => ?_) hloop)
        rcases List.mem_cons.mp hr with rfl | hr
        · exact hzero
        · exact hrest r hr hf
      · have hfirst : t ∈ List.range' t (stores replies) := List.mem_range'_1.mpr (by omega)
        rcases submitLoop_retry hw hstride he hloop with hagain | ⟨-, hneg⟩
        · exact .inl fun hnodup => List.disjoint_of_nodup_append hnodup hfirst hagain
        · exact .inr ⟨hneg, List.append_ne_nil_of_left_ne_nil (List.ne_nil_of_mem hfirst) _⟩

end Loop

/-! ## The batch -/

/-- One worker gets one share. -/
theorem submit_single {n lastQ : Nat} {shares : List (List Reply)} {o : Outcome} (hn : 0 < n)
    (h : submit ⟨true, 1, lastQ⟩ n shares = some o) :
    ∃ o', submitLoop 1 n n 1 lastQ 0 Result.ok shares = some o' ∧ o'.ret = o.ret ∧
      o'.places = o.places := by
  unfold submit at h
  rw [if_pos rfl, if_pos hn, if_pos rfl] at h
  dsimp only at h
  split at h
  · next replies =>
    obtain ⟨⟨ret, put⟩, hsched, rfl⟩ := Option.map_eq_some_iff.mp h
    obtain ⟨hput, hret⟩ := workerSched_cases (by decide) hn hsched
    unfold submitLoop
    rw [if_pos hn]
    dsimp only
    rw [Nat.sub_zero, if_neg (lt_irrefl n), Nat.mod_one, Nat.zero_mod, hsched]
    dsimp only
    unfold submitLoop
    rw [if_pos rfl]
    refine ⟨_, rfl, ?_, ?_⟩
    · have hok : ¬ Result.ok < 0 := by decide
      rcases hret with ⟨-, rfl, -⟩ | ⟨-, hneg⟩
      · simp [hok]
      · dsimp only
        rw [if_neg (Int.not_le.mpr hneg), if_pos hneg]
    · simp [Outcome.places]
  · cases h

/-- No task is put twice, the return value is `n` if and only if every task has been put once, and
none of the tasks that it leaves to be submitted again is in a queue. -/
structure Accounts (n : Nat) (o : Outcome) : Prop where
  once : o.places.Nodup
  all : o.ret = n ↔ o.places.Perm (List.range n)
  rest : ∀ i ∈ o.places, (i : Int) < o.ret

/-- No share fails with something of it in a queue, and the last one fails only if none is in a
queue at all. -/
def Clean (shares : List (List Reply)) : Prop :=
  Whole shares ∧ ∀ replies ∈ shares.getLast?, fails replies → (shares.map stores).sum = 0

/-- An error with no task in a queue. -/
theorem accounts_nil {n : Nat} {o : Outcome} (hnil : o.places = []) (hneg : o.ret < 0) :
    Accounts n o ↔ 0 < n := by
  have hne : o.ret ≠ (n : Result) := fun hall => by
    rw [hall] at hneg
    exact absurd hneg (Int.not_lt.mpr (Int.natCast_nonneg n))
  constructor
  · intro hacc
    refine Nat.pos_of_ne_zero fun hzero => hne (hacc.all.mpr ?_)
    rw [hnil, hzero, List.range_zero]
  · intro hn
    refine ⟨by rw [hnil]; exact List.nodup_nil, ?_, ?_⟩
    · rw [hnil, List.nil_perm, List.range_eq_nil]
      exact iff_of_false hne (Nat.pos_iff_ne_zero.mp hn)
    · rw [hnil]
      exact fun i hi => absurd hi List.not_mem_nil

instance (shares : List (List Reply)) : Decidable (Clean shares) :=
  inferInstanceAs (Decidable ((∀ replies ∈ shares, fails replies → stores replies = 0) ∧
    ∀ replies ∈ shares.getLast?, fails replies → (shares.map stores).sum = 0))

/-- The shares of a batch. -/
theorem submitLoop_accounts_iff {nWorkers n stride tries lastQ : Nat} {shares : List (List Reply)}
    {o : Outcome} (hw : 0 < nWorkers) (hstride : 0 < stride) (hn : 0 < n)
    (h : submitLoop nWorkers n stride tries lastQ 0 Result.ok shares = some o) :
    Accounts n o ↔ Clean shares := by
  by_cases hwhole : Whole shares
  swap
  · refine iff_of_false (fun hacc => ?_) fun hclean => hwhole hclean.1
    rcases submitLoop_not_whole hw hstride hwhole h with hdup | ⟨hneg, hne⟩
    · exact hdup hacc.once
    · obtain ⟨i, hi⟩ := List.exists_mem_of_ne_nil _ hne
      exact absurd (Int.lt_trans (hacc.rest i hi) hneg) (Int.not_lt.mpr (Int.natCast_nonneg i))
  obtain ⟨hplaces, hle, hneg, hcount⟩ := submitLoop_whole hw hstride (Nat.zero_le n) hwhole h
  rw [← List.range_eq_range'] at hplaces
  rw [Nat.zero_add] at hle
  have hends : EndsInError Result.ok shares ↔ ∃ replies ∈ shares.getLast?, fails replies :=
    or_iff_right fun hok => absurd hok.2 (by decide)
  unfold Clean
  rw [and_iff_right hwhole]
  generalize (shares.map stores).sum = total at hplaces hle hneg hcount ⊢
  by_cases herr : EndsInError Result.ok shares
  · have hret := hneg herr
    obtain ⟨replies, hlast, hfails⟩ := hends.mp herr
    constructor
    · intro hacc _ _ _
      by_contra hpos
      have hfirst : 0 ∈ o.places := by
        rw [hplaces, List.mem_range]
        omega
      exact absurd (Int.lt_trans (hacc.rest 0 hfirst) hret) (Int.lt_irrefl _)
    · intro hnone
      refine (accounts_nil ?_ hret).mpr hn
      rw [hplaces, hnone replies hlast hfails, List.range_zero]
  · have hret : o.ret = (total : Int) := by simpa using hcount herr
    refine iff_of_true ⟨?_, ?_, ?_⟩ fun replies hlast hfails =>
      absurd (hends.mpr ⟨replies, hlast, hfails⟩) herr
    · rw [hplaces]
      exact List.nodup_range
    · rw [hplaces, hret]
      constructor
      · intro hall
        rw [Int.natCast_inj.mp hall]
      · intro hperm
        have hlen := hperm.length_eq
        rw [List.length_range, List.length_range] at hlen
        rw [hlen]
    · intro i hi
      rw [hplaces, List.mem_range] at hi
      rw [hret]
      exact Int.ofNat_lt.mpr hi

/-- **The batch.** Whatever the replies of the queues are, the call accounts for its batch exactly
if there is a task in it, and the module is not initialized or the shares are clean. -/
theorem submit_accounts_iff {cs : CalloutStage} {n : Nat} {shares : List (List Reply)} {o : Outcome}
    (hw : 0 < cs.nWorkers) (h : submit cs n shares = some o) :
    Accounts n o ↔ 0 < n ∧ (cs.isInitialized = true → Clean shares) := by
  by_cases hinit : cs.isInitialized = true
  swap
  · unfold submit at h
    rw [if_neg hinit] at h
    split_ifs at h
    cases h
    rw [accounts_nil rfl (show Result.notOperational < 0 by decide)]
    exact ⟨fun hn => ⟨hn, fun htrue => absurd htrue hinit⟩, And.left⟩
  by_cases hn : 0 < n
  swap
  · unfold submit at h
    rw [if_pos hinit, if_neg hn] at h
    split_ifs at h
    cases h
    rw [accounts_nil rfl (show Result.invalidArgs < 0 by decide)]
    exact iff_of_false hn fun hand => hn hand.1
  rw [and_iff_right hn]
  simp only [hinit, true_implies]
  obtain ⟨isInitialized, nWorkers, lastQ⟩ := cs
  dsimp only at hw hinit
  subst hinit
  by_cases hone : nWorkers = 1
  · subst hone
    obtain ⟨o', hloop, hret, hplaces⟩ := submit_single hn h
    have hiff := submitLoop_accounts_iff (by decide) hn hn hloop
    have hsame : Accounts n o ↔ Accounts n o' := by
      constructor
      · exact fun hacc =>
          ⟨hplaces ▸ hacc.once, hret ▸ hplaces ▸ hacc.all, hret ▸ hplaces ▸ hacc.rest⟩
      · exact fun hacc =>
          ⟨hplaces ▸ hacc.once, hret ▸ hplaces ▸ hacc.all, hret ▸ hplaces ▸ hacc.rest⟩
    rw [hsame, hiff]
  · unfold submit at h
    rw [if_pos rfl, if_pos hn, if_neg hone] at h
    dsimp only at h
    refine submitLoop_accounts_iff hw ?_ hn h
    split_ifs with hzero
    · exact Nat.one_pos
    · exact Nat.pos_of_ne_zero hzero

/-- Two workers and four tasks. -/
def twoWorkers : CalloutStage := ⟨true, 2, 7⟩

/-- The put into the first queue fails, and the share goes to the other one; the next share is put
in two parts. -/
def oneQueueFails : List (List Reply) :=
  [[.failed Result.posixApiError 0], [.stored 2], [.failed Result.wakeupRequested 1, .stored 1]]

theorem submit_accounts_iff_oneQueueFails :
    submit twoWorkers 4 oneQueueFails = some ⟨4, [(0, 0), (0, 1), (1, 2), (1, 3)], 10⟩ ∧
      Accounts 4 ⟨4, [(0, 0), (0, 1), (1, 2), (1, 3)], 10⟩ := by
  have hrun : submit twoWorkers 4 oneQueueFails =
    some ⟨4, [(0, 0), (0, 1), (1, 2), (1, 3)], 10⟩ := by decide
  exact ⟨hrun, (submit_accounts_iff (by decide) hrun).mpr ⟨by decide, fun _ => by decide⟩⟩

/-- The put into the first queue fails after one of two tasks. The task is put again, into the other
queue, and the return value is that of a whole batch. -/
theorem submit_twice :
    submit twoWorkers 4 [[.failed Result.posixApiError 1], [.stored 2], [.stored 2]] =
      some ⟨4, [(1, 0), (0, 0), (0, 1), (1, 2), (1, 3)], 10⟩ := by
  decide

end Dispatch
end Gallus
