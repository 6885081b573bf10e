import Gallus.Lib.Lines

/-!
# Reading lines (`session.c`)

`session_fgets` reads from a session's buffer, and refills it by the session's `read` when it is
empty. `read` is a parameter: it may be any function of the transport's state, and it may not
return (`none`).

* `Reader`: the unread bytes between `rbuf.rp` and `rbuf.ep`, and the transport. `sessionFgets`: the
  function.
* `readAnswers`: a transport that makes any answers one after the other. `stream`: its bytes, with
  the places where reading fails.
* `sessionFgets_line`: whatever the transport makes of the bytes, a call returns what the reader
  returns that drops a line when the stream fails within it.
* `fgets_iff_wholeLines`: the calls return what `fgets` does on the whole stream exactly if it never
  fails within a line. `lineDropped`: a stream that does.
-/

namespace Gallus
namespace Session

open Lines

/-- What a `read` returns: the bytes, or a result that is not positive. -/
inductive Answer where
  | data (bs : List UInt8)
  | failed (ret : Int)
  deriving DecidableEq

/-- `'\n'`. -/
def newline : UInt8 := 10

/-- The unread bytes of `rbuf`, and the transport below. -/
structure Reader (τ : Type) where
  unread : List UInt8
  wire : τ

variable {τ : Type} (read : τ → Option (Answer × τ))

/-- Fills the buffer if there is nothing unread: `false` if `read` has nothing. -/
def fill (s : Reader τ) : Option (Bool × Reader τ) :=
  if s.unread = [] then
    match read s.wire with
    | none => none
    | some (.data (b :: bs), wire) => some (true, ⟨b :: bs, wire⟩)
    | some (.data [], wire) => some (false, ⟨[], wire⟩)
    | some (.failed _, wire) => some (false, ⟨[], wire⟩)
  else some (true, s)

/-- The loop of `session_fgets`, with `d` the bytes copied so far. Each round that does not end it
makes `size` smaller, so there are `size` rounds at most. -/
def fgetsLoop : Nat → Nat → List UInt8 → Reader τ → Option (Option (List UInt8) × Reader τ)
  | 0, _, d, s => some (some d, s)
  | rounds + 1, size, d, s =>
    if size = 0 then some (some d, s)
    else
      match fill read s with
      | none => none
      | some (false, s) => some (none, s)
      | some (true, s) =>
        let len := min s.unread.length size
        match (s.unread.take len).findIdx? (· == newline) with
        | some c =>
          some (some (d ++ s.unread.take (c + 1)), { s with unread := s.unread.drop (c + 1) })
        | none =>
          fgetsLoop rounds (size - len) (d ++ s.unread.take len)
            { s with unread := s.unread.drop len }

/-- `session_fgets`: the bytes in front of the NUL that it writes, or `NULL`. -/
def sessionFgets (size : Nat) (s : Reader τ) : Option (Option (List UInt8) × Reader τ) :=
  if size = 0 then some (none, s) else fgetsLoop read (size - 1) (size - 1) [] s

/-! ## A transport that makes any answers -/

/-- The next answer; after the last one there is nothing any more. -/
def readAnswers : List Answer → Option (Answer × List Answer)
  | [] => some (.failed 0, [])
  | a :: as => some (a, as)

/-- An answer in the stream. -/
def Answer.items : Answer → List (Option UInt8)
  | .data (b :: bs) => (b :: bs).map some
  | .data [] => [none]
  | .failed _ => [none]

/-- All that is to come, with `none` where a `read` has nothing. -/
def stream (s : Reader (List Answer)) : List (Option UInt8) :=
  s.unread.map some ++ s.wire.flatMap Answer.items

/-- After a fill there is something unread, or the stream fails here. -/
theorem fill_cases (s : Reader (List Answer)) : ∃ s', stream s' = stream s ∧ s'.unread ≠ [] ∧
      fill readAnswers s = some (true, s') ∨
    s'.unread = [] ∧ fill readAnswers s = some (false, s') ∧
      (stream s = none :: stream s' ∨ stream s = [] ∧ stream s' = []) := by
  obtain ⟨unread, wire⟩ := s
  cases unread with
  | cons b bs => exact ⟨⟨b :: bs, wire⟩, .inl ⟨rfl, by simp, rfl⟩⟩
  | nil =>
    cases wire with
    | nil => exact ⟨⟨[], []⟩, .inr ⟨rfl, rfl, .inr ⟨rfl, rfl⟩⟩⟩
    | cons a as =>
      rcases a with (_ | ⟨b, bs⟩) | ret
      · exact ⟨⟨[], as⟩, .inr ⟨rfl, rfl, .inl rfl⟩⟩
      · exact ⟨⟨b :: bs, as⟩, .inl ⟨by simp [stream, Answer.items], by simp, rfl⟩⟩
      · exact ⟨⟨[], as⟩, .inr ⟨rfl, rfl, .inl rfl⟩⟩

/-- The unread bytes in the stream, in two parts. -/
theorem stream_split (s : Reader (List Answer)) (len : Nat) :
    stream s = (s.unread.take len).map some ++ stream { s with unread := s.unread.drop len } := by
  simp only [stream, ← List.append_assoc, ← List.map_append, List.take_append_drop]

/-- **The loop.** It copies a piece of the stream, and has nothing if the stream fails before. -/
theorem fgetsLoop_cut {rounds size : Nat} (h : size ≤ rounds) (d : List UInt8)
    (s : Reader (List Answer)) : ∃ s', stream s' = (cut newline size (stream s)).rest ∧
      fgetsLoop readAnswers rounds size d s = some (if (cut newline size (stream s)).whole
        then some (d ++ (cut newline size (stream s)).piece) else none, s') := by
  induction rounds generalizing size d s with
  | zero =>
    obtain rfl : size = 0 := by omega
    exact ⟨s, by simp [cut], by simp [cut, fgetsLoop]⟩
  | succ rounds ih =>
    cases size with
    | zero => exact ⟨s, by simp [cut], by simp [cut, fgetsLoop]⟩
    | succ size =>
      rw [fgetsLoop, if_neg (by omega)]
      obtain ⟨s₁, ⟨hstream, hunread, hfill⟩ | ⟨hunread, hfill, hend⟩⟩ := fill_cases s <;>
        simp only [hfill]
      · rw [← hstream]
        generalize hlen : min s₁.unread.length (size + 1) = len
        have hlenpos : 0 < len := by
          have := List.length_pos_iff.mpr hunread
          omega
        have htake : (s₁.unread.take len).length = len := by
          rw [List.length_take]
          omega
        rw [stream_split s₁ len]
        cases hc : (s₁.unread.take len).findIdx? (· == newline) with
        | some c =>
          have hlt : c < len := by
            have := (List.findIdx?_eq_some_iff_getElem.mp hc).1
            omega
          rw [cut_found hc (by omega)]
          refine ⟨{ s₁ with unread := s₁.unread.drop (c + 1) }, ?_, ?_⟩
          · have hdrop : s₁.unread.drop (c + 1) =
                (s₁.unread.take len).drop (c + 1) ++ s₁.unread.drop len := by
              rw [← List.drop_append_of_le_length (by omega), List.take_append_drop]
            simp only [stream, hdrop, List.map_append, List.append_assoc]
          · simp [List.take_take, Nat.min_eq_left (show c + 1 ≤ len by omega)]
        | none =>
          rw [cut_append hc (by omega), htake]
          obtain ⟨s', hs', hloop⟩ := ih (by omega : size + 1 - len ≤ rounds)
            (d ++ s₁.unread.take len) { s₁ with unread := s₁.unread.drop len }
          exact ⟨s', hs', by rw [hloop, List.append_assoc]⟩
      · rcases hend with hend | ⟨hend, hend'⟩
        · exact ⟨s₁, by simp [hend, cut], by simp [hend, cut]⟩
        · exact ⟨s₁, by simp [hend, hend', cut], by simp [hend, cut]⟩

/-- **One call.** It reads like the reader that drops what it has got when the stream fails. -/
theorem sessionFgets_line {size : Nat} (hsize : 1 < size) (s : Reader (List Answer)) :
    ∃ s', stream s' = (strictLine newline (size - 1) (stream s)).2 ∧
      sessionFgets readAnswers size s =
        some ((strictLine newline (size - 1) (stream s)).1, s') := by
  obtain ⟨s', hs', hloop⟩ := fgetsLoop_cut (Nat.le_refl (size - 1)) [] s
  refine ⟨s', hs', ?_⟩
  rw [sessionFgets, if_neg (by omega), hloop]
  rfl

/-! ## Repeated calls -/

/-- The results of `k` calls. -/
def fgetsCalls (size : Nat) : Nat → Reader τ → Option (List (Option (List UInt8)))
  | 0, _ => some []
  | k + 1, s =>
    match sessionFgets read size s with
    | none => none
    | some (line, s) => (fgetsCalls size k s).map (line :: ·)

theorem fgetsCalls_strict {size : Nat} (hsize : 1 < size) (k : Nat) (s : Reader (List Answer)) :
    fgetsCalls readAnswers size k s =
      some (calls (strictLine newline (size - 1)) k (stream s)) := by
  induction k generalizing s with
  | zero => rfl
  | succ k ih =>
    obtain ⟨s', hs', hcall⟩ := sessionFgets_line hsize s
    rw [fgetsCalls, hcall]
    simp only [ih s', hs', Option.map_some, calls]

/-- `fgets` on the whole stream: `size - 1` bytes at most, through the first newline. What is left
when the stream ends is returned, and then the end. -/
def fgets (size : Nat) : List (Option UInt8) → Option (List UInt8) × List (Option UInt8) :=
  line newline (size - 1)

/-- The stream never fails within a line, or within a part of `size - 1` bytes of a long one. -/
def wholeLines (size : Nat) (s : List (Option UInt8)) : Bool :=
  whole newline (size - 1) (size - 1) s

/-- **The lines of the stream.** For every way to cut the stream into answers, the calls return what
`fgets` does on the whole stream exactly if it never fails within a line. -/
theorem fgets_iff_wholeLines {size : Nat} (hsize : 1 < size) (s : Reader (List Answer)) :
    (∀ k, fgetsCalls readAnswers size k s = some (calls (fgets size) k (stream s))) ↔
      wholeLines size (stream s) = true := by
  simp only [fgetsCalls_strict hsize, Option.some.injEq]
  exact strictLines_eq_iff (by omega) (stream s)

/-- The answers `"ab"` and `"c\ndef"`, then an error: parts of three bytes, and the error is behind
the last one. -/
def goodAnswers : List Answer := [.data [97, 98], .data [99, 10, 100, 101, 102], .failed (-1)]

theorem fgets_iff_wholeLines_good : wholeLines 4 (stream ⟨[], goodAnswers⟩) = true ∧
    ∀ k, fgetsCalls readAnswers 4 k ⟨[], goodAnswers⟩ =
      some (calls (fgets 4) k (stream ⟨[], goodAnswers⟩)) :=
  ⟨by decide, (fgets_iff_wholeLines (by decide) ⟨[], goodAnswers⟩).mpr (by decide)⟩

/-- The stream `"a\nb"`: `session_fgets` returns `"a\n"` and `NULL`, where `fgets` returns `"b"`. -/
theorem lineDropped :
    fgetsCalls readAnswers 10 2 ⟨[], [.data [97, 10, 98], .failed 0]⟩ = some [some [97, 10], none] ∧
    calls (fgets 10) 2 (stream ⟨[], [.data [97, 10, 98], .failed 0]⟩) = [some [97, 10], some [98]] ∧
    ¬ ∀ k, fgetsCalls readAnswers 10 k ⟨[], [.data [97, 10, 98], .failed 0]⟩ =
      some (calls (fgets 10) k (stream ⟨[], [.data [97, 10, 98], .failed 0]⟩)) := by
  refine ⟨by decide, by decide, fun h => ?_⟩
  have := h 2
  revert this
  decide

/-! ## Any transport -/

section Any

variable {read : τ → Option (Answer × τ)} {I : τ → Prop} {s s' : Reader τ}

theorem fill_inv (hread : ∀ w a w', read w = some (a, w') → I w → I w') {got : Bool}
    (h : fill read s = some (got, s')) (hs : I s.wire) : I s'.wire := by
  unfold fill at h
  split_ifs at h with hu
  · split at h <;> cases h
    all_goals exact hread _ _ _ ‹_› hs
  · cases h
    exact hs

theorem fgetsLoop_inv (hread : ∀ w a w', read w = some (a, w') → I w → I w') {rounds size : Nat}
    {d : List UInt8} {r : Option (List UInt8)}
    (h : fgetsLoop read rounds size d s = some (r, s')) (hs : I s.wire) : I s'.wire := by
  induction rounds generalizing size d s with
  | zero =>
    cases h
    exact hs
  | succ rounds ih =>
    rw [fgetsLoop] at h
    split_ifs at h with hsize
    · cases h
      exact hs
    · split at h
      · contradiction
      · cases h
        exact fill_inv hread ‹_› hs
      · have hs₁ := fill_inv hread ‹_› hs
        simp only at h
        split at h
        · cases h
          exact hs₁
        · exact ih h hs₁

/-- What each `read` keeps of the transport, a call keeps. -/
theorem sessionFgets_inv (hread : ∀ w a w', read w = some (a, w') → I w → I w') {size : Nat}
    {r : Option (List UInt8)} (h : sessionFgets read size s = some (r, s')) (hs : I s.wire) :
    I s'.wire := by
  unfold sessionFgets at h
  split_ifs at h
  · cases h
    exact hs
  · exact fgetsLoop_inv hread h hs

end Any

end Session
end Gallus
