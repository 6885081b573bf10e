import Gallus.Hash.Refines
import Gallus.Lib.Trans

/-!
# Going through the hash table

`FirstHashEntry` and `NextHashEntry`, with a caller that changes and deletes entries meanwhile.

* `Pending`: the entries that a search has still to come to. `Pending.next`: the next call returns
  the first of them; `Pending.setValue`, `Pending.delete`: what other calls do to them.
* `Walk`, `step`: a search and the calls between its steps. `mayCall`: the caller deletes only
  entries that it has got from the search.
* `enumerate_once`: no call faults, and the search returns each entry once, whatever has been
  deleted.
-/

namespace Gallus
namespace Hash

variable {kt : KeyType} {β : Type}

/-- What a search has still to come to. -/
inductive Pending (t : Table kt β) : Search → List (Entry kt.Key β) → Prop
  /-- The next bucket has not been looked at. -/
  | bucket (i : Nat) : Pending t ⟨i, none⟩ (t.buckets.drop i).flatten
  /-- The next entry is in the bucket before. -/
  | entry {i : Nat} {pre post : List (Entry kt.Key β)} {e : Entry kt.Key β}
      (h : t.buckets[i]? = some (pre ++ e :: post)) :
      Pending t ⟨i + 1, some e.addr⟩ (e :: (post ++ (t.buckets.drop (i + 1)).flatten))

theorem pending_first (t : Table kt β) : Pending t ⟨0, none⟩ t.buckets.flatten := .bucket 0

/-- What a search says of the entry that comes next. -/
theorem Pending.nextEntryPtr {t : Table kt β} {s : Search} {l : List (Entry kt.Key β)} {addr : Nat}
    (h : Pending t s l) (hnext : s.nextEntryPtr = some addr) :
    l.head?.map Entry.addr = some addr := by
  cases h with
  | bucket i => cases hnext
  | entry hchain => exact hnext

/-! ## One call -/

theorem drop_eq_cons {t : Table kt β} {i : Nat} {chain : List (Entry kt.Key β)}
    (h : t.buckets[i]? = some chain) :
    t.buckets.drop i = chain :: t.buckets.drop (i + 1) := by
  obtain ⟨hi, rfl⟩ := List.getElem?_eq_some_iff.mp h
  exact List.drop_eq_getElem_cons hi

/-- The loop of `NextHashEntry` stops at the entry that comes next. -/
theorem seek_eq {t : Table kt β} {l : List (Entry kt.Key β)} (n : Nat) {s : Search}
    (h : Pending t s l) (hn : n = t.buckets.length - s.nextIndex) :
    ∃ s', seek t n s = some s' ∧ Pending t s' l ∧ s'.nextEntryPtr = l.head?.map Entry.addr := by
  induction n generalizing s with
  | zero =>
    refine ⟨s, rfl, h, ?_⟩
    cases h with
    | bucket i =>
      have hle : t.buckets.length ≤ i := Nat.sub_eq_zero_iff_le.mp hn.symm
      rw [List.drop_eq_nil_of_le hle]
      rfl
    | entry hchain => rfl
  | succ n ih =>
    cases h with
    | entry hchain => exact ⟨_, rfl, .entry hchain, rfl⟩
    | bucket i =>
      have hn : n + 1 = t.buckets.length - i := hn
      have hchain : t.buckets[i]? = some t.buckets[i] := List.getElem?_eq_getElem (by omega)
      have hseek : seek t (n + 1) ⟨i, none⟩ =
          seek t n ⟨i + 1, t.buckets[i].head?.map Entry.addr⟩ := by
        rw [seek, hchain]
        rfl
      rw [hseek]
      refine ih ?_ (show n = t.buckets.length - (i + 1) by omega)
      rw [drop_eq_cons hchain, List.flatten_cons]
      cases hcons : t.buckets[i] with
      | nil => exact .bucket (i + 1)
      | cons e es =>
        exact .entry (show t.buckets[i]? = some ([] ++ e :: es) by rw [hchain, hcons]; rfl)

/-- The entry after one of its chain. -/
theorem nextIn_eq {pre post : List (Entry kt.Key β)} {e : Entry kt.Key β}
    (hnot : e.addr ∉ pre.map Entry.addr) :
    nextIn e.addr (pre ++ e :: post) = some (post.head?.map Entry.addr) := by
  induction pre with
  | nil => exact if_pos rfl
  | cons e' pre ih =>
    rw [List.map_cons, List.mem_cons, not_or] at hnot
    rw [List.cons_append, nextIn, if_neg fun h => hnot.1 h.symm]
    exact ih hnot.2

/-- There is nothing after an entry that is not in the chain. -/
theorem nextIn_eq_none {addr : Nat} {chain : List (Entry kt.Key β)}
    (hnot : addr ∉ chain.map Entry.addr) : nextIn addr chain = none := by
  induction chain with
  | nil => rfl
  | cons e es ih =>
    rw [List.map_cons, List.mem_cons, not_or] at hnot
    rw [nextIn, if_neg fun h => hnot.1 h.symm]
    exact ih hnot.2

/-- `hPtr->nextPtr`, for an entry whose chain is known. -/
theorem WellFormed.nextPtr {t : Table kt β} (h : WellFormed t) {i : Nat}
    {pre post : List (Entry kt.Key β)} {e : Entry kt.Key β}
    (hchain : t.buckets[i]? = some (pre ++ e :: post)) :
    t.nextPtr e.addr = some (post.head?.map Entry.addr) := by
  have hnodup := h.entryAddrs
  rw [Buckets.flatten_eq_of_getElem? hchain] at hnodup
  simp only [List.map_append, List.map_cons] at hnodup
  obtain ⟨-, hnodup', hdisj⟩ := List.nodup_append.mp hnodup
  have hpre : e.addr ∉ pre.map Entry.addr := fun hmem => by
    rw [List.append_assoc] at hnodup'
    exact (List.nodup_append.mp hnodup').2.2 _ hmem _ (List.mem_cons_self) rfl
  have hbefore : e.addr ∉ (t.buckets.take i).flatten.map Entry.addr := fun hmem =>
    hdisj _ hmem _ (by simp) rfl
  rw [Table.nextPtr, ← List.take_append_drop i t.buckets, drop_eq_cons hchain,
    List.findSome?_append]
  have hnone : (t.buckets.take i).findSome? (nextIn e.addr) = none := by
    rw [List.findSome?_eq_none_iff]
    intro chain hmem
    refine nextIn_eq_none fun hin => hbefore ?_
    exact ((List.sublist_flatten_of_mem hmem).map Entry.addr).subset hin
  rw [hnone, Option.none_or, List.findSome?_cons, nextIn_eq hpre]

/-- The entry at an address. -/
theorem WellFormed.entry_eq {t : Table kt β} (h : WellFormed t) {e : Entry kt.Key β}
    (he : e ∈ t.buckets.flatten) : t.entry e.addr = some e := by
  obtain ⟨e', he', hmem, hitem⟩ := h.entry (c := e.item) (List.mem_map_of_mem he)
  have he' : t.entry e.addr = some e' := he'
  rw [he', List.inj_on_of_nodup_map h.entryAddrs hmem he (congrArg Item.addr hitem)]

/-- The next call returns the entry that comes next. -/
theorem Pending.next {t : Table kt β} (hwf : WellFormed t) {s : Search}
    {l : List (Entry kt.Key β)} (h : Pending t s l) :
    ∃ s', nextHashEntry t s = some (l.head?, s') ∧ Pending t s' l.tail := by
  obtain ⟨n, hsized⟩ := hwf.sized
  obtain ⟨s₁, hseek, h₁, hnext⟩ := seek_eq (t.numBuckets - s.nextIndex) h
    (by rw [hsized.buckets])
  rw [nextHashEntry, hseek, Option.bind_some, hnext]
  cases h₁ with
  | bucket i =>
    cases hl : (t.buckets.drop i).flatten with
    | nil =>
      refine ⟨⟨i, none⟩, rfl, ?_⟩
      have := Pending.bucket (t := t) i
      rw [hl] at this
      exact this
    | cons e l =>
      rw [hl] at hnext
      cases hnext
  | @entry i pre post e hchain =>
    have hmem : e ∈ t.buckets.flatten := Buckets.mem_flatten_of_getElem? hchain (by simp)
    refine ⟨⟨i + 1, post.head?.map Entry.addr⟩, ?_, ?_⟩
    · show (t.entry e.addr).bind _ = _
      rw [hwf.entry_eq hmem, Option.bind_some, hwf.nextPtr hchain]
      rfl
    · cases post with
      | nil => exact .bucket (i + 1)
      | cons e' post =>
        exact .entry (show t.buckets[i]? = some ((pre ++ [e]) ++ e' :: post) by
          rw [hchain, List.append_assoc]; rfl)

/-! ## The calls between -/

/-- The buckets after a value is set. -/
theorem Pending.setValue {t t' : Table kt β} {s : Search} {l : List (Entry kt.Key β)}
    (h : Pending t s l) {addr : Nat} {value : Option β}
    (ht : t'.buckets = t.buckets.map (List.map (Entry.setValue addr value))) :
    Pending t' s (l.map (Entry.setValue addr value)) := by
  have haddr : ∀ e : Entry kt.Key β, (e.setValue addr value).addr = e.addr := by
    intro e
    unfold Entry.setValue
    split_ifs <;> rfl
  have hdrop : ∀ i, ((t.buckets.drop i).flatten).map (Entry.setValue addr value) =
      (t'.buckets.drop i).flatten := by
    intro i
    rw [ht, ← List.map_drop, List.map_flatten]
  cases h with
  | bucket i =>
    rw [hdrop]
    exact .bucket i
  | @entry i pre post e hchain =>
    have hchain' : t'.buckets[i]? = some (pre.map (Entry.setValue addr value) ++
        e.setValue addr value :: post.map (Entry.setValue addr value)) := by
      rw [ht, List.getElem?_map, hchain, Option.map_some, List.map_append, List.map_cons]
    rw [List.map_cons, List.map_append, hdrop, ← haddr e]
    exact .entry hchain'

/-- The buckets after an entry is deleted that is not the next. -/
theorem Pending.delete {t t' : Table kt β} {s : Search} {l : List (Entry kt.Key β)}
    (h : Pending t s l) {addr : Nat} (hnext : s.nextEntryPtr ≠ some addr)
    (ht : t'.buckets = t.buckets.map (List.filter fun e => e.addr ≠ addr)) :
    Pending t' s (l.filter fun e => e.addr ≠ addr) := by
  have hdrop : ∀ i, ((t.buckets.drop i).flatten).filter (fun e => e.addr ≠ addr) =
      (t'.buckets.drop i).flatten := by
    intro i
    rw [ht, ← List.map_drop, List.filter_flatten]
  cases h with
  | bucket i =>
    rw [hdrop]
    exact .bucket i
  | @entry i pre post e hchain =>
    have hne : e.addr ≠ addr := fun heq => hnext (congrArg some heq)
    have hchain' : t'.buckets[i]? = some (pre.filter (fun e => e.addr ≠ addr) ++
        e :: post.filter fun e => e.addr ≠ addr) := by
      rw [ht, List.getElem?_map, hchain, Option.map_some, List.filter_append,
        List.filter_cons_of_pos (by simpa using hne)]
    rw [List.filter_cons_of_pos (by simpa using hne), List.filter_append, hdrop]
    exact .entry hchain'

/-! ## A walk -/

/-- An entry as the caller knows it. -/
def Entry.handle {κ : Type} (e : Entry κ β) : Nat × κ := (e.addr, e.key)

/-- A search and its answers so far. -/
structure Walk (kt : KeyType) (β : Type) where
  table : Table kt β
  search : Search
  answers : List (Option (Nat × kt.Key))

inductive Visit (β : Type)
  /-- `NextHashEntry` -/
  | next
  /-- `SetHashValue` -/
  | setValue (addr : Nat) (value : Option β)
  /-- `DeleteHashEntry` -/
  | delete (addr : Nat)

/-- The search begins with `FirstHashEntry`. -/
def Walk.first (t : Table kt β) : Option (Walk kt β) :=
  (firstHashEntry t).map fun r => ⟨t, r.2, [r.1.map Entry.handle]⟩

/-- A call; `none` is a fault. -/
def Walk.step (w : Walk kt β) : Visit β → Option (Walk kt β)
  | .next => (nextHashEntry w.table w.search).map fun r =>
      { w with search := r.2, answers := w.answers ++ [r.1.map Entry.handle] }
  | .setValue addr value => (setHashValue w.table addr value).map fun t => { w with table := t }
  | .delete addr => (deleteHashEntry w.table addr).map fun t => { w with table := t }

/-- The caller changes entries of the table, and deletes those that the search has returned. -/
def Walk.mayCall (w : Walk kt β) : Visit β → Prop
  | .next => True
  | .setValue addr _ => addr ∈ w.table.items.map Item.addr
  | .delete addr => addr ∈ w.table.items.map Item.addr ∧ ∃ key, some (addr, key) ∈ w.answers

/-- The answers are the entries that there were, one after the other, and the others are still to
come. -/
structure Walk.Inv (entries : List (Nat × kt.Key)) (w : Walk kt β) : Prop where
  wellFormed : WellFormed w.table
  answers : w.answers = (List.range w.answers.length).map fun i => entries[i]?
  pending : ∃ l, Pending w.table w.search l ∧
    l.map Entry.handle = entries.drop w.answers.length

variable {entries : List (Nat × kt.Key)} {w w' : Walk kt β}

/-- One more answer. -/
theorem range_snoc {α : Type} {l : List α} {f : Nat → α} (h : l = (List.range l.length).map f) :
    l ++ [f l.length] = (List.range (l ++ [f l.length]).length).map f := by
  rw [List.length_append, List.length_singleton, List.range_succ, List.map_append, ← h]
  rfl

theorem Walk.Inv.next (h : w.Inv entries) :
    ∃ w', w.step .next = some w' ∧ w'.Inv entries := by
  obtain ⟨l, hpending, hl⟩ := h.pending
  obtain ⟨s', hnext, hpending'⟩ := hpending.next h.wellFormed
  have hans : l.head?.map Entry.handle = entries[w.answers.length]? := by
    rw [← List.head?_map, hl, List.head?_drop]
  let w' : Walk kt β := ⟨w.table, s', w.answers ++ [entries[w.answers.length]?]⟩
  have hstep : w.step .next = some w' := by
    rw [Walk.step, hnext, Option.map_some, hans]
  refine ⟨w', hstep, h.wellFormed, range_snoc h.answers, l.tail, hpending', ?_⟩
  show _ = entries.drop (w.answers ++ [entries[w.answers.length]?]).length
  rw [List.map_tail, hl, List.tail_drop, List.length_append, List.length_singleton]

theorem Walk.Inv.setValue (h : w.Inv entries) {addr : Nat} {value : Option β}
    (haddr : addr ∈ w.table.items.map Item.addr) :
    ∃ w', w.step (.setValue addr value) = some w' ∧ w'.Inv entries := by
  obtain ⟨c, hc, rfl⟩ := List.mem_map.mp haddr
  obtain ⟨t', hset, hwf, -⟩ := h.wellFormed.setHashValue hc value
  obtain ⟨e, he, -⟩ := h.wellFormed.entry hc
  obtain ⟨l, hpending, hl⟩ := h.pending
  have ht : t'.buckets = w.table.buckets.map (List.map (Entry.setValue c.addr value)) := by
    rw [setHashValue_eq he] at hset
    cases hset
    rfl
  refine ⟨{ w with table := t' }, by rw [Walk.step, hset]; rfl, hwf, h.answers, _,
    hpending.setValue ht, ?_⟩
  rw [List.map_map, ← hl]
  refine List.map_congr_left fun e _ => ?_
  show Entry.handle (e.setValue c.addr value) = e.handle
  unfold Entry.setValue
  split_ifs <;> rfl

/-- An answer is not among the entries that are still to come. -/
theorem Walk.Inv.not_pending (h : w.Inv entries) (hnodup : (entries.map Prod.fst).Nodup)
    {addr : Nat} {key : kt.Key} (hans : some (addr, key) ∈ w.answers) :
    addr ∉ (entries.drop w.answers.length).map Prod.fst := by
  rw [h.answers] at hans
  obtain ⟨i, hi, hget⟩ := List.mem_map.mp hans
  have hi := List.mem_range.mp hi
  have hmem : addr ∈ (entries.take w.answers.length).map Prod.fst := by
    refine List.mem_map.mpr ⟨(addr, key), List.mem_of_getElem? (i := i) ?_, rfl⟩
    rw [List.getElem?_take_of_lt hi]
    exact hget
  rw [← List.take_append_drop w.answers.length entries, List.map_append] at hnodup
  exact fun hdrop => (List.nodup_append.mp hnodup).2.2 _ hmem _ hdrop rfl

theorem Walk.Inv.delete (h : w.Inv entries) (hnodup : (entries.map Prod.fst).Nodup) {addr : Nat}
    (haddr : addr ∈ w.table.items.map Item.addr) {key : kt.Key}
    (hans : some (addr, key) ∈ w.answers) :
    ∃ w', w.step (.delete addr) = some w' ∧ w'.Inv entries := by
  have hnot := h.not_pending hnodup hans
  obtain ⟨c, hc, rfl⟩ := List.mem_map.mp haddr
  obtain ⟨t', hdelete, hwf, -⟩ := h.wellFormed.deleteHashEntry hc
  have ht := h.wellFormed.deleteHashEntry_buckets hc hdelete
  obtain ⟨l, hpending, hl⟩ := h.pending
  have hout : ∀ e ∈ l, e.addr ≠ c.addr := by
    intro e he heq
    refine hnot ?_
    rw [← hl, List.map_map, ← heq]
    exact List.mem_map_of_mem (f := Entry.addr) he
  have hnext : w.search.nextEntryPtr ≠ some c.addr := by
    intro hnext
    have hhead := hpending.nextEntryPtr hnext
    cases l with
    | nil => cases hhead
    | cons e l => exact hout e List.mem_cons_self (Option.some.inj hhead)
  have hkeep : l.filter (fun e => e.addr ≠ c.addr) = l :=
    List.filter_eq_self.mpr fun e he => decide_eq_true (hout e he)
  have hpending' := hpending.delete hnext ht
  rw [hkeep] at hpending'
  exact ⟨{ w with table := t' }, by rw [Walk.step, hdelete]; rfl, hwf, h.answers, l, hpending', hl⟩

theorem Walk.Inv.step (h : w.Inv entries) (hnodup : (entries.map Prod.fst).Nodup) {v : Visit β}
    (hcall : w.mayCall v) : ∃ w', w.step v = some w' ∧ w'.Inv entries := by
  cases v with
  | next => exact h.next
  | setValue addr value => exact h.setValue hcall
  | delete addr =>
    obtain ⟨haddr, key, hans⟩ := hcall
    exact h.delete hnodup haddr hans

theorem Walk.Inv.run (hnodup : (entries.map Prod.fst).Nodup) (h : w.Inv entries)
    {vs : List (Visit β)} (hrun : Trans.Run Walk.step Walk.mayCall w vs w') : w'.Inv entries := by
  refine hrun.inv (fun w v w' h hcall hstep => ?_) h
  obtain ⟨w₁, hstep₁, h₁⟩ := h.step hnodup hcall
  obtain rfl : w₁ = w' := Option.some.inj (hstep₁.symm.trans hstep)
  exact h₁

theorem handles_eq (t : Table kt β) :
    t.buckets.flatten.map Entry.handle = t.items.map fun c => (c.addr, c.key) := by
  rw [Table.items, List.map_map]
  rfl

theorem Walk.Inv.first {t : Table kt β} (hwf : WellFormed t) :
    ∃ w, Walk.first t = some w ∧ w.Inv (t.items.map fun c => (c.addr, c.key)) := by
  obtain ⟨s', hnext, hpending⟩ := (pending_first t).next hwf
  have hhead : t.buckets.flatten.head?.map Entry.handle =
      (t.items.map fun c => (c.addr, c.key))[0]? := by
    rw [← handles_eq, ← List.head?_map, List.head?_eq_getElem?]
  refine ⟨_, by rw [Walk.first, firstHashEntry, hnext]; rfl, hwf, ?_, _, hpending, ?_⟩
  · exact congrArg (fun a => [a]) hhead
  · rw [List.map_tail, handles_eq]
    exact (List.drop_one).symm

/-- **A search returns each entry once.** In a table that calls lead to, the caller may change
values and delete the entries that the search has returned. Then no call faults, and the answers are
the entries that there were when the search began, in their order, and `NULL` after them. -/
theorem enumerate_once {keyLen : Nat} {ops : List (Op (keyType keyLen).Key β)}
    (hops : Items.Allowed [] ops) {replies : List (Reply β)} {t : Table (keyType keyLen) β}
    (hcalls : calls (initHashTable (keyType keyLen) β) ops = some (replies, t)) :
    ∃ w₀, Walk.first t = some w₀ ∧
      ∀ vs w, Trans.Run Walk.step Walk.mayCall w₀ vs w →
        w.answers = (List.range w.answers.length).map
          (fun i => (t.items[i]?).map fun c => (c.addr, c.key)) ∧
        ∀ v, w.mayCall v → w.step v ≠ none := by
  obtain ⟨t', hcalls', hwf, -⟩ := calls_refines ⟨wellFormed_init, List.Perm.refl _⟩ ops hops
  rw [hcalls] at hcalls'
  cases hcalls'
  obtain ⟨w₀, hfirst, hinv⟩ := Walk.Inv.first hwf
  have hnodup : ((t.items.map fun c => (c.addr, c.key)).map Prod.fst).Nodup := by
    rw [List.map_map]
    exact hwf.addrs
  refine ⟨w₀, hfirst, fun vs w hrun => ?_⟩
  have h := hinv.run hnodup hrun
  refine ⟨?_, fun v hcall hnone => ?_⟩
  · have := h.answers
    simp only [List.getElem?_map] at this
    exact this
  · obtain ⟨w', hstep, -⟩ := h.step hnodup hcall
    rw [hnone] at hstep
    cases hstep

/-- Three words in a table. -/
def threeWords : List (Op (keyType 8).Key Nat) :=
  [.create (7 : UInt64) (some 100), .create (9 : UInt64) (some 200),
    .create (11 : UInt64) (some 300)]

def threeTable : Table (keyType 8) Nat :=
  ((calls (initHashTable (keyType 8) Nat) threeWords).map Prod.snd).getD (initHashTable _ _)

theorem three_calls : calls (initHashTable (keyType 8) Nat) threeWords =
    some ([⟨some 100, none, true⟩, ⟨some 200, none, true⟩, ⟨some 300, none, true⟩], threeTable) :=
  rfl

/-- The caller deletes what it has got from the search, and sets a value. -/
def threeVisits : List (Visit Nat) :=
  [.delete 200, .next, .setValue 300 (some 5), .next, .delete 100, .next]

theorem enumerate_once_three : ∃ w₀ w, Walk.first threeTable = some w₀ ∧
    Trans.Run Walk.step Walk.mayCall w₀ threeVisits w ∧
    w.answers = [some (200, (9 : UInt64)), some (100, (7 : UInt64)), some (300, (11 : UInt64)),
      none] := by
  obtain ⟨w₀, hfirst, hall⟩ := enumerate_once (by decide) three_calls
  obtain ⟨w, hrun, hlen⟩ : ∃ w, Trans.Run Walk.step Walk.mayCall w₀ threeVisits w ∧
      w.answers.length = 4 := by
    cases hfirst
    exact ⟨_, .cons ⟨by decide, (9 : UInt64), by decide⟩ rfl (.cons trivial rfl
      (.cons (show _ ∈ _ by decide) rfl (.cons trivial rfl
        (.cons ⟨by decide, (7 : UInt64), by decide⟩ rfl (.cons trivial rfl (.nil _)))))), rfl⟩
  refine ⟨w₀, w, hfirst, hrun, (hall _ _ hrun).1.trans ?_⟩
  rw [hlen]
  rfl

end Hash
end Gallus
