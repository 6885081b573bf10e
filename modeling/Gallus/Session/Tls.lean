import Gallus.Basic
import Gallus.Lib.Trans
import Gallus.Session.Fgets

/-!
# Reading from a TLS session (`session_tls.c`)

`read_tls` calls `SSL_read` again and again, with the same buffer, until `SSL_pending` is zero. The
TLS layer is a parameter.

* `Ssl`, `Documented`: the layer, and what it promises. `records`: one that does.
* `readTls`: the loop (`readTls_returns`). `tlsRead`: `read_tls`, with a history of the bytes that
  `SSL_read` has produced and of those that `read_tls` has returned.
* `Call`: `session_read` and `session_fgets` of a session, in any order.
* `handed_iff_clears`: all bytes come through exactly if no call finds more in the layer than its
  buffer holds. `overwritten`: a record that is longer than the buffer.
-/

namespace Gallus
namespace Session

/-- The TLS layer: `SSL_read` with the size of the buffer, and `SSL_pending`. -/
structure Ssl (σ : Type) where
  sslRead : Int → σ → Answer × σ
  sslPending : σ → Nat

/-- The bytes that an answer puts into the buffer. -/
def Answer.bytes : Answer → List UInt8
  | .data bs => bs
  | .failed _ => []

/-- What the TLS layer promises of its two functions. -/
structure Ssl.Documented {σ : Type} (ssl : Ssl σ) : Prop where
  /-- `SSL_read` returns a positive number of bytes, at most as many as it is asked for, or fails.
  -/
  read_le : ∀ n s bs s', ssl.sslRead n s = (.data bs, s') → bs ≠ [] ∧ (bs.length : Int) ≤ n
  /-- It fails only if nothing is pending. -/
  read_failed : ∀ n s ret s', 0 < n → ssl.sslRead n s = (.failed ret, s') → ssl.sslPending s' = 0
  /-- What is pending is read at once. -/
  read_pending : ∀ n s, 0 < n → 0 < ssl.sslPending s →
    ∃ bs s', ssl.sslRead n s = (.data bs, s') ∧ ssl.sslPending s' + bs.length = ssl.sslPending s

variable {σ : Type} (ssl : Ssl σ)

/-- The loop of `read_tls`: the last answer, and all bytes that `SSL_read` has produced. -/
def readLoop (n : Int) : Nat → σ → Option (Answer × List UInt8 × σ)
  | 0, _ => none
  | rounds + 1, s =>
    let r := ssl.sslRead n s
    if ssl.sslPending r.2 = 0 then some (r.1, r.1.bytes, r.2)
    else (readLoop n rounds r.2).map fun (last, produced, s) => (last, r.1.bytes ++ produced, s)

/-- `read_tls` with a context. After the first `SSL_read` each of the others takes a byte that is
pending, or takes nothing for ever. -/
def readTls (n : Int) (s : σ) : Option (Answer × List UInt8 × σ) :=
  readLoop ssl n (ssl.sslPending (ssl.sslRead n s).2 + 1) s

/-- The context of a session, and the history of `read_tls`. -/
structure Wire (σ : Type) where
  ctx : Option σ
  /-- The size and the layer of each call. -/
  calls : List (Nat × σ)
  /-- The bytes that `SSL_read` has produced. -/
  produced : List UInt8
  /-- The bytes that `read_tls` has returned. -/
  handed : List UInt8

/-- `read_tls`. -/
def tlsRead (n : Nat) (w : Wire σ) : Option (Answer × Wire σ) :=
  match w.ctx with
  | none => some (.failed (-1), w)
  | some s =>
    match readTls ssl (i32 n) s with
    | none => none
    | some (ret, produced, s') =>
      some (ret, ⟨some s', w.calls ++ [(n, s)], w.produced ++ produced, w.handed ++ ret.bytes⟩)

/-- `SESSION_BUFSIZ`. -/
def sessionBufsiz : Nat := 4096

/-- A call of the users of a session. -/
inductive Call where
  /-- `session_read`. -/
  | read (n : Nat)
  /-- `session_fgets`. -/
  | fgets (size : Nat)
  deriving DecidableEq

def step (s : Reader (Wire σ)) : Call → Option (Reader (Wire σ))
  | .read n => (tlsRead ssl n s.wire).map fun (_, wire) => { s with wire := wire }
  | .fgets size => (sessionFgets (tlsRead ssl sessionBufsiz) size s).map fun (_, s) => s

/-- Nothing has been read yet. -/
def Reader.start (ctx : Option σ) : Reader (Wire σ) := ⟨[], ⟨ctx, [], [], []⟩⟩

/-! ## The loop -/

variable {ssl} {n : Int} {s s' : σ} {rounds : Nat} {ret : Answer} {produced : List UInt8}

/-- A round of the loop: the last one, or one whose bytes the next one overwrites. -/
theorem readLoop_cases (h : readLoop ssl n (rounds + 1) s = some (ret, produced, s')) :
    ssl.sslPending (ssl.sslRead n s).2 = 0 ∧ ret = (ssl.sslRead n s).1 ∧
      produced = (ssl.sslRead n s).1.bytes ∨
    ssl.sslPending (ssl.sslRead n s).2 ≠ 0 ∧
    ∃ later, produced = (ssl.sslRead n s).1.bytes ++ later ∧
      readLoop ssl n rounds (ssl.sslRead n s).2 = some (ret, later, s') := by
  rw [readLoop] at h
  dsimp only at h
  split_ifs at h with h0
  · cases h
    exact .inl ⟨h0, rfl, rfl⟩
  · obtain ⟨⟨last, later, s₁⟩, hloop, heq⟩ := Option.map_eq_some_iff.mp h
    cases heq
    exact .inr ⟨h0, later, rfl, hloop⟩

/-- With a buffer, the loop ends: each `SSL_read` takes some of what is pending. -/
theorem readLoop_returns (hdoc : ssl.Documented) (hn : 0 < n)
    (h : ssl.sslPending (ssl.sslRead n s).2 < rounds) : (readLoop ssl n rounds s).isSome := by
  induction rounds generalizing s with
  | zero => omega
  | succ rounds ih =>
    rw [readLoop]
    dsimp only
    split_ifs with h0
    · rfl
    · obtain ⟨bs, s₁, hread, hsum⟩ := hdoc.read_pending n _ hn (Nat.pos_of_ne_zero h0)
      have hbs := List.length_pos_iff.mpr (hdoc.read_le _ _ _ _ hread).1
      rw [Option.isSome_map]
      refine ih ?_
      rw [hread]
      dsimp only
      omega

/-- `read_tls` with a buffer returns. -/
theorem readTls_returns (hdoc : ssl.Documented) (hn : 0 < n) (s : σ) :
    (readTls ssl n s).isSome := readLoop_returns hdoc hn (Nat.lt_succ_self _)

/-- Without a buffer nothing is produced. -/
theorem readLoop_nothing (hdoc : ssl.Documented) (hn : n ≤ 0)
    (h : readLoop ssl n rounds s = some (ret, produced, s')) : ret.bytes = [] ∧ produced = [] := by
  have hread : ∀ s, (ssl.sslRead n s).1.bytes = [] := by
    intro s
    rcases ha : ssl.sslRead n s with ⟨bs | r, s₁⟩
    · obtain ⟨hne, hle⟩ := hdoc.read_le _ _ _ _ ha
      have := List.length_pos_iff.mpr hne
      omega
    · rfl
  induction rounds generalizing s ret produced with
  | zero => contradiction
  | succ rounds ih =>
    rcases readLoop_cases h with ⟨-, rfl, rfl⟩ | ⟨-, later, rfl, hloop⟩
    · exact ⟨hread s, hread s⟩
    · obtain ⟨hlast, rfl⟩ := ih hloop
      exact ⟨hlast, by rw [hread]; rfl⟩

/-- The last answer is a part of what is produced. -/
theorem readLoop_le (h : readLoop ssl n rounds s = some (ret, produced, s')) :
    ret.bytes.length ≤ produced.length := by
  induction rounds generalizing s ret produced with
  | zero => contradiction
  | succ rounds ih =>
    rcases readLoop_cases h with ⟨-, rfl, rfl⟩ | ⟨-, later, rfl, hloop⟩
    · exact Nat.le_refl _
    · have := ih hloop
      rw [List.length_append]
      omega

/-! ## What comes through -/

/-- A call finds nothing more in the layer than its buffer holds. -/
def Clears (ssl : Ssl σ) (c : Nat × σ) : Prop :=
  i32 c.1 ≤ 0 ∨ ssl.sslPending (ssl.sslRead (i32 c.1) c.2).2 = 0

instance (c : Nat × σ) : Decidable (Clears ssl c) := inferInstanceAs (Decidable (_ ∨ _))

/-- **One call.** It returns all that `SSL_read` produces if it clears the layer, else it returns
less. -/
theorem readTls_cases (hdoc : ssl.Documented) {n : Nat}
    (h : readTls ssl (i32 n) s = some (ret, produced, s')) :
    Clears ssl (n, s) ∧ ret.bytes = produced ∨
    ¬ Clears ssl (n, s) ∧ ret.bytes.length < produced.length := by
  unfold readTls at h
  by_cases hn : i32 n ≤ 0
  · obtain ⟨hret, hproduced⟩ := readLoop_nothing hdoc hn h
    exact .inl ⟨.inl hn, by rw [hret, hproduced]⟩
  · rcases readLoop_cases h with ⟨h0, rfl, rfl⟩ | ⟨h0, later, rfl, hloop⟩
    · exact .inl ⟨.inr h0, rfl⟩
    · refine .inr ⟨fun hc => hc.elim hn h0, ?_⟩
      -- the first answer has bytes, and they are overwritten
      rcases ha : ssl.sslRead (i32 n) s with ⟨bs | r, s₂⟩
      · have hbs := List.length_pos_iff.mpr (hdoc.read_le _ _ _ _ ha).1
        have := readLoop_le hloop
        rw [List.length_append]
        show ret.bytes.length < bs.length + later.length
        omega
      · rw [ha] at h0
        exact absurd (hdoc.read_failed _ _ _ _ (by omega) ha) h0

/-- All calls have cleared the layer and all bytes have come through, or some have not. -/
def Ledger (ssl : Ssl σ) (w : Wire σ) : Prop :=
  (∀ c ∈ w.calls, Clears ssl c) ∧ w.handed = w.produced ∨
    (¬ ∀ c ∈ w.calls, Clears ssl c) ∧ w.handed.length < w.produced.length

theorem Ledger.tlsRead (hdoc : ssl.Documented) {n : Nat} {w w' : Wire σ}
    (h : tlsRead ssl n w = some (ret, w')) (hw : Ledger ssl w) : Ledger ssl w' := by
  unfold Session.tlsRead at h
  cases hctx : w.ctx with
  | none =>
    rw [hctx] at h
    cases h
    exact hw
  | some s =>
    rw [hctx] at h
    simp only at h
    split at h
    · contradiction
    · rename_i hread
      cases h
      have hall : (∀ c ∈ w.calls ++ [(n, s)], Clears ssl c) ↔
          (∀ c ∈ w.calls, Clears ssl c) ∧ Clears ssl (n, s) := by
        simp only [List.mem_append, List.mem_singleton, or_imp, forall_and, forall_eq]
      unfold Ledger at hw ⊢
      simp only [hall, List.length_append]
      rcases hw with ⟨hclears, hw⟩ | ⟨hnot, hw⟩ <;>
        rcases readTls_cases hdoc hread with ⟨hc, hret⟩ | ⟨hc, hret⟩
      · exact .inl ⟨⟨hclears, hc⟩, by rw [hw, hret]⟩
      · exact .inr ⟨fun h => hc h.2, by rw [hw]; omega⟩
      · exact .inr ⟨fun h => hnot h.1, by rw [hret]; omega⟩
      · exact .inr ⟨fun h => hnot h.1, by omega⟩

theorem Ledger.step (hdoc : ssl.Documented) {s s' : Reader (Wire σ)} {c : Call}
    (h : step ssl s c = some s') (hs : Ledger ssl s.wire) : Ledger ssl s'.wire := by
  cases c with
  | read n =>
    obtain ⟨⟨ret, wire⟩, hread, rfl⟩ := Option.map_eq_some_iff.mp h
    exact hs.tlsRead hdoc hread
  | fgets size =>
    obtain ⟨⟨line, s₁⟩, hfgets, rfl⟩ := Option.map_eq_some_iff.mp h
    exact sessionFgets_inv (fun _ _ _ hread hw => Ledger.tlsRead hdoc hread hw) hfgets hs

/-- **What comes through.** In a run of any calls, `read_tls` has returned the bytes that `SSL_read`
has produced, in their order, exactly if each call has cleared the layer. -/
theorem handed_iff_clears (hdoc : ssl.Documented) {ctx : Option σ} {cs : List Call}
    {s : Reader (Wire σ)} (h : Trans.run (step ssl) (.start ctx) cs = some s) :
    s.wire.handed = s.wire.produced ↔ ∀ c ∈ s.wire.calls, Clears ssl c := by
  have hledger : Ledger ssl s.wire :=
    (Trans.Run.all_iff.mpr h).inv (I := fun s => Ledger ssl s.wire)
    (fun _ _ _ hs _ hstep => Ledger.step hdoc hstep hs)
    (.inl ⟨fun _ hc => absurd hc List.not_mem_nil, rfl⟩)
  rcases hledger with ⟨hclears, heq⟩ | ⟨hnot, hlt⟩
  · exact iff_of_true heq hclears
  · exact iff_of_false (fun heq => by rw [heq] at hlt; omega) hnot

/-! ## A layer of records -/

/-- What is left of the current record, and the records to come. -/
def records : Ssl (List UInt8 × List (List UInt8)) where
  sslRead n s :=
    let cur := if s.1 = [] then s.2.headD [] else s.1
    let rs := if s.1 = [] then s.2.tail else s.2
    if n ≤ 0 then (.failed (-1), s)
    else if cur = [] then (.failed 0, [], rs)
    else (.data (cur.take n.toNat), cur.drop n.toNat, rs)
  sslPending s := s.1.length

theorem records_documented : records.Documented := by
  refine ⟨fun n s bs s' h => ?_, fun n s ret s' hn h => ?_, fun n s hn hs => ?_⟩
  · simp only [records] at h
    generalize (if s.1 = [] then s.2.headD [] else s.1) = cur at h
    generalize (if s.1 = [] then s.2.tail else s.2) = rs at h
    split_ifs at h with hn hcur <;> cases h
    refine ⟨fun h => ?_, ?_⟩
    · rcases List.take_eq_nil_iff.mp h with h | h
      · omega
      · exact hcur h
    · rw [List.length_take]
      omega
  · simp only [records] at h ⊢
    split_ifs at h <;> cases h
    all_goals first | omega | rfl
  · have hne : s.1 ≠ [] := List.length_pos_iff.mp hs
    refine ⟨s.1.take n.toNat, (s.1.drop n.toNat, s.2), ?_, ?_⟩
    · simp only [records, if_neg hne, if_neg (show ¬ n ≤ 0 by omega)]
    · simp only [records, List.length_take, List.length_drop]
      omega

/-- A run with records that fit: a part of one is read by `session_fgets`, two others by
`session_read`. -/
theorem handed_iff_clears_records : ∃ s : Reader (Wire (List UInt8 × List (List UInt8))),
    Trans.run (step records) (.start (some ([], [[1, 10, 2], [3], [4, 5]])))
      [.fgets 10, .read 1, .read 2] = some s ∧ s.unread = [2] ∧
      s.wire.produced = [1, 10, 2, 3, 4, 5] ∧
      (s.wire.handed = s.wire.produced ↔ ∀ c ∈ s.wire.calls, Clears records c) := by
  have h : ((Trans.run (step records) (.start (some ([], [[1, 10, 2], [3], [4, 5]])))
      [.fgets 10, .read 1, .read 2]).map fun s => (s.unread, s.wire.produced)) =
        some ([2], [1, 10, 2, 3, 4, 5]) := by decide +kernel
  obtain ⟨s, hrun, hs⟩ := Option.map_eq_some_iff.mp h
  simp only [Prod.mk.injEq] at hs
  exact ⟨s, hrun, hs.1, hs.2, handed_iff_clears records_documented hrun⟩

/-- A record of three bytes and a buffer of two: the first two bytes are overwritten. -/
theorem overwritten : ∃ s : Reader (Wire (List UInt8 × List (List UInt8))),
    Trans.run (step records) (.start (some ([], [[1, 2, 3]]))) [.read 2] = some s ∧
    s.wire.produced = [1, 2, 3] ∧ s.wire.handed = [3] ∧ s.wire.handed ≠ s.wire.produced :=
  ⟨⟨[], some ([], []), [(2, [], [[1, 2, 3]])], [1, 2, 3], [3]⟩, by rfl, rfl, rfl, by decide⟩

end Session
end Gallus
