import Gallus.Cbuffer.Adjust
import Gallus.Qmuxer.Poll

/-!
# Which steps notify the muxer

A buffer that is registered with a muxer for an event notifies it when the event occurs. Which
notifications there are is decided separately in `s_copyin`, `s_copyout`, `gallus_cbuffer_clear` and
`s_shutdown`.

* `Turns` says that a step makes a registered event available, or shuts the buffer down.
* `copyin_log`, `copyout_log`, `clear_log`, `shutdown_log`: what each of them notifies.
* `deafClear`: a clear that makes room in a full buffer that is registered for room only. The clear
  asks whether the buffer is registered for elements. `run_notifies_iff`: the runs in which every
  registered event notifies the muxer are the runs without such a clear.
-/

namespace Gallus
namespace Qmuxer

open Cbuffer

variable {α : Type} {cb cb' : Cbuffer α} {q : Nat}

/-! ## Events -/

/-- A registered event becomes available, or the buffer is shut down. -/
def Turns (cb cb' : Cbuffer α) : Prop :=
  (needWaitReadable cb.type = true ∧ cb.nElements = 0 ∧ 0 < cb'.nElements) ∨
    (needWaitWritable cb.type = true ∧ cb.nElements = cb.nMaxElements ∧
      cb'.nElements < cb'.nMaxElements) ∨
    (cb.isOperational = true ∧ cb'.isOperational = false)

/-- The notifications of a step: `qmuxer_notify` of the muxer, if `b`. -/
def notices (q : Nat) (b : Prop) [Decidable b] : List Nat := if b then [q] else []

theorem qmuxerNotify_log (hq : cb.qmuxer = some q) :
    (qmuxerNotify cb).qmuxLog = cb.qmuxLog ++ [q] := by
  unfold qmuxerNotify
  rw [hq]

theorem ite_qmuxerNotify_log (hq : cb.qmuxer = some q) (b : Bool) :
    (if b then qmuxerNotify cb else cb).qmuxLog = cb.qmuxLog ++ notices q (b = true) := by
  cases b with
  | false => exact (List.append_nil _).symm
  | true => exact qmuxerNotify_log hq

/-- What the copies and the cleaning leave alone. -/
def SameRegistration (cb cb' : Cbuffer α) : Prop :=
  cb'.qmuxer = cb.qmuxer ∧ cb'.type = cb.type ∧ cb'.qmuxLog = cb.qmuxLog

theorem adjustIndices_registration (cb : Cbuffer α) : SameRegistration cb (adjustIndices cb) := by
  unfold adjustIndices
  split <;> exact ⟨rfl, rfl, rfl⟩

theorem copyinData_registration (cb : Cbuffer α) (vals : List α) (n : Int) :
    SameRegistration cb (copyinData (adjustIndices cb) vals n) := by
  unfold copyinData adjustIndices memcpyIn
  dsimp only
  split_ifs <;> exact ⟨rfl, rfl, rfl⟩

theorem copyoutData_registration (cb : Cbuffer α) (n : Int) :
    SameRegistration cb (copyoutData (adjustIndices cb) n).1 := by
  unfold copyoutData adjustIndices memcpyOut
  dsimp only
  split_ifs <;> exact ⟨rfl, rfl, rfl⟩

/-- A put that puts something notifies who waits for elements. -/
theorem copyin_log (hq : cb.qmuxer = some q) (vals : List α) :
    (copyin cb vals).1.qmuxLog = cb.qmuxLog ++
      notices q (0 < copyinMax cb vals.length ∧ needWaitReadable cb.type = true) := by
  unfold copyinMax
  simp only [copyin]
  generalize (if cb.nMaxElements - cb.nElements < i64 vals.length then
    cb.nMaxElements - cb.nElements else i64 vals.length) = n
  obtain ⟨hq', htype, hlog⟩ := copyinData_registration cb vals n
  generalize copyinData cb.adjustIndices vals n = cb₁ at hq' htype hlog ⊢
  by_cases hpos : 0 < n
  · rw [if_pos hpos]
    refine (ite_qmuxerNotify_log (q := q) ?_ _).trans ?_
    · exact hq'.trans hq
    · dsimp only
      rw [htype, hlog]
      simp only [notices, hpos, true_and]
  · rw [if_neg hpos]
    simp only [notices, hpos, false_and, if_false, List.append_nil]
    exact (adjustIndices_registration cb).2.2

/-- A get that takes something notifies who waits for room. -/
theorem copyout_log (hq : cb.qmuxer = some q) (n : Nat) (doIncr : Bool) :
    (copyout cb n doIncr).1.qmuxLog = cb.qmuxLog ++
      notices q (doIncr = true ∧ 0 < copyoutMax cb n ∧ needWaitWritable cb.type = true) := by
  unfold copyout copyoutMax
  dsimp only
  generalize (if i64 n < cb.nElements then i64 n else cb.nElements) = m
  obtain ⟨hq', htype, hlog⟩ := copyoutData_registration cb m
  generalize copyoutData cb.adjustIndices m = r at hq' htype hlog ⊢
  obtain ⟨cb₁, vals⟩ := r
  dsimp only at hq' htype hlog ⊢
  by_cases hpos : 0 < m
  · rw [if_pos hpos]
    cases doIncr with
    | true =>
      simp only [if_true]
      refine (ite_qmuxerNotify_log (q := q) ?_ _).trans ?_
      · exact hq'.trans hq
      · dsimp only
        rw [htype, hlog]
        simp only [notices, hpos, true_and]
    | false =>
      simp only [notices, Bool.false_eq_true, false_and, if_false, List.append_nil]
      exact hlog
  · rw [if_neg hpos]
    simp only [notices, hpos, false_and, and_false, if_false, List.append_nil]
    exact (adjustIndices_registration cb).2.2

section

variable [Zero α]

theorem clean_registration (cb : Cbuffer α) (freeValues : Bool) :
    SameRegistration cb (clean cb freeValues) := by
  have hfree : SameRegistration cb (if freeValues then freeupAllValues cb else cb) := by
    unfold freeupAllValues
    dsimp only
    split_ifs
    · exact adjustIndices_registration cb
    · exact ⟨rfl, rfl, rfl⟩
    · exact ⟨rfl, rfl, rfl⟩
  exact ⟨hfree.1, hfree.2.1, hfree.2.2⟩

/-- A clear notifies who waits for elements, of which it leaves none. -/
theorem clear_log (hq : cb.qmuxer = some q) (freeValues : Bool) :
    (clear cb freeValues).1.qmuxLog = cb.qmuxLog ++
      notices q (needWaitReadable cb.type = true) := by
  obtain ⟨hq', htype, hlog⟩ := clean_registration cb freeValues
  unfold clear
  dsimp only
  rw [ite_qmuxerNotify_log (hq'.trans hq), htype, hlog]

/-- A shutdown of an operational buffer notifies the muxer. -/
theorem shutdown_log (hq : cb.qmuxer = some q) (freeValues : Bool)
    (ho : cb.isOperational = true) :
    (shutdown cb freeValues).qmuxLog = cb.qmuxLog ++ [q] := by
  obtain ⟨hq', -, hlog⟩ := clean_registration { cb with isOperational := false } freeValues
  unfold shutdown
  dsimp only
  rw [if_pos ho, qmuxerNotify_log (hq'.trans hq), hlog]

/-! ## One move -/

variable {m : Move α}

/-- **A move notifies the muxer of what it turns**, but a clear of a full buffer that is registered
for room only. -/
theorem makes_notifies_iff (h : Makes cb m cb') (hb : Bounded cb) (hpos : 0 < cb.nMaxElements)
    (hq : cb.qmuxer = some q) :
    (Turns cb cb' → cb'.qmuxLog = cb.qmuxLog ++ [q]) ↔
      ¬((∃ b, m = .clear b) ∧ needWaitWritable cb.type = true ∧ needWaitReadable cb.type = false ∧
        cb.nElements = cb.nMaxElements) := by
  have hnone : ∀ m : Move α, (∀ b, m ≠ .clear b) → ¬((∃ b, m = .clear b) ∧
      needWaitWritable cb.type = true ∧ needWaitReadable cb.type = false ∧
      cb.nElements = cb.nMaxElements) := by
    rintro m hm ⟨⟨b, hb⟩, -⟩
    exact hm b hb
  have hle := hb.2
  cases h with
  | none =>
    refine ⟨fun _ => hnone _ nofun, fun _ => ?_⟩
    rintro (⟨-, hz, hp⟩ | ⟨-, hz, hp⟩ | ⟨hop, hdown⟩)
    · omega
    · omega
    · rw [hop] at hdown
      cases hdown
  | copyin vals ho =>
    refine ⟨fun _ => hnone _ nofun, fun _ => ?_⟩
    obtain ⟨-, hn, hmax⟩ := copyin_counts cb vals
    have hop := (served_copyin cb vals).isOperational
    rw [copyin_log hq vals]
    rintro (⟨hread, hz, hp⟩ | ⟨-, hz, hp⟩ | ⟨-, hdown⟩)
    · have hput : 0 < copyinMax cb vals.length := by
        rw [hn, hz] at hp
        omega
      unfold notices
      rw [if_pos ⟨hput, hread⟩]
    · rw [hn, hmax] at hp
      omega
    · rw [hop, ho] at hdown
      cases hdown
  | copyout n doIncr ho =>
    refine ⟨fun _ => hnone _ nofun, fun _ => ?_⟩
    obtain ⟨-, hn, hmax⟩ := copyout_counts cb n doIncr
    have hop := (served_copyout cb n doIncr).isOperational
    rw [copyout_log hq n doIncr]
    rintro (⟨-, hz, hp⟩ | ⟨hwrite, hz, hp⟩ | ⟨-, hdown⟩)
    · rw [hn, hz] at hp
      split at hp <;> omega
    · rw [hn, hmax, hz] at hp
      cases doIncr with
      | true =>
        simp only [if_true] at hp
        have hget : 0 < copyoutMax cb n := by omega
        unfold notices
        rw [if_pos ⟨rfl, hget, hwrite⟩]
      | false =>
        simp only [Bool.false_eq_true, if_false] at hp
        omega
    · rw [hop, ho] at hdown
      cases hdown
  | clear freeValues =>
    obtain ⟨hn, hmax⟩ := clear_counts cb freeValues
    have hop := (served_clear cb freeValues).isOperational
    rw [clear_log hq freeValues]
    unfold notices
    cases hread : needWaitReadable cb.type with
    | true =>
      rw [if_pos rfl]
      refine ⟨fun _ => ?_, fun _ _ => rfl⟩
      rintro ⟨-, -, hfalse, -⟩
      cases hfalse
    | false =>
      rw [if_neg Bool.false_ne_true, List.append_nil]
      constructor
      · rintro hlog ⟨-, hwrite, -, hfull⟩
        have hlen := congrArg List.length (hlog (.inr (.inl ⟨hwrite, hfull, by omega⟩)))
        rw [List.length_append, List.length_singleton] at hlen
        omega
      · intro hnot
        rintro (⟨hread', -, -⟩ | ⟨hwrite, hfull, -⟩ | ⟨hup, hdown⟩)
        · rw [hread] at hread'
          cases hread'
        · exact absurd ⟨⟨freeValues, rfl⟩, hwrite, rfl, hfull⟩ hnot
        · rw [hop, hup] at hdown
          cases hdown
  | shutdown freeValues =>
    refine ⟨fun _ => hnone _ nofun, fun _ => ?_⟩
    by_cases ho : cb.isOperational = true
    · intro _
      exact shutdown_log hq freeValues ho
    · have hsame : shutdown cb freeValues = cb := by
        unfold shutdown
        exact if_neg ho
      rw [hsame]
      rintro (⟨-, hz, hp⟩ | ⟨-, hz, hp⟩ | ⟨hop, -⟩)
      · omega
      · omega
      · exact absurd hop ho

/-- The same with the books of the waiters. -/
theorem moved_notifies_iff (h : Moved m cb cb') (hb : Bounded cb) (hpos : 0 < cb.nMaxElements)
    (hq : cb.qmuxer = some q) :
    (Turns cb cb' → cb'.qmuxLog = cb.qmuxLog ++ [q]) ↔
      ¬((∃ b, m = .clear b) ∧ needWaitWritable cb.type = true ∧ needWaitReadable cb.type = false ∧
        cb.nElements = cb.nMaxElements) := by
  obtain ⟨cb₀, cb₁, hq₀, hmakes, hq₁⟩ := h
  have hiff : Bounded cb₀ → 0 < cb₀.nMaxElements → cb₀.qmuxer = some q → _ :=
    makes_notifies_iff hmakes
  obtain ⟨_, _, _, _, _, rfl⟩ := hq₀
  obtain ⟨_, _, _, _, _, rfl⟩ := hq₁
  exact hiff hb hpos hq

/-! ## The system -/

/-- A segment of a call on the buffer, or a registration. -/
inductive BufferEvent (κ α : Type)
  | op (e : Event κ α)
  /-- `cbuffer_setup_for_qmuxer` sets `m_qmuxer` and `m_type`. -/
  | register (qmuxer : Option Nat) (type : PollEvent)

omit [Zero α] in
/-- What a setup writes to the record is such a registration. -/
theorem setupForQmuxer_registers {β : Type} (cb : Cbuffer α) (qmx : Nat) (p : Poll β)
    (isPre : Bool) : ∃ qmuxer type,
      (setupForQmuxer cb qmx p isPre).1 = { cb with qmuxer := qmuxer, type := type } := by
  unfold setupForQmuxer
  dsimp only
  split_ifs <;> exact ⟨_, _, rfl⟩

variable {κ : Type} [DecidableEq κ] {s s' : Calls κ α} {es : List (BufferEvent κ α)}

/-- One step. -/
def bufferStep (s : Calls κ α) : BufferEvent κ α → Option (Calls κ α)
  | .op e => step s e
  | .register qmuxer type => some { s with cb := { s.cb with qmuxer := qmuxer, type := type } }

/-- If the step turns a registered event, it notifies the muxer. -/
def notifies (s : Calls κ α) (e : BufferEvent κ α) : Prop :=
  ∀ s' q, bufferStep s e = some s' → s.cb.qmuxer = some q → Turns s.cb s'.cb →
    s'.cb.qmuxLog = s.cb.qmuxLog ++ [q]

/-- A clear of a full buffer that a muxer waits for room in, and not for elements. -/
def deafClear (s : Calls κ α) : BufferEvent κ α → Prop
  | .op (.call k (.clear _) _) =>
    s.pc k = .outside ∧ s.cb.qmuxer.isSome = true ∧ needWaitWritable s.cb.type = true ∧
      needWaitReadable s.cb.type = false ∧ s.cb.nElements = s.cb.nMaxElements
  | _ => False

omit [Zero α] in
theorem disposes_clear {m : Move α} {b : Bool} (h : m.disposes = (some b, none)) :
    m = .clear b := by
  cases m <;> cases h
  rfl

/-- **A step notifies the muxer of what it turns exactly if it is not a deaf clear.** -/
theorem notifies_iff (hb : Bounded s.cb) (hpos : 0 < s.cb.nMaxElements) (e : BufferEvent κ α) :
    notifies s e ↔ ¬deafClear s e := by
  cases e with
  | register qmuxer type =>
    refine ⟨fun _ => id, fun _ => ?_⟩
    rintro s' q hs hq (⟨-, hz, hp⟩ | ⟨-, hz, hp⟩ | ⟨hop, hdown⟩)
    · cases hs
      exact absurd hz (Int.ne_of_gt hp)
    · cases hs
      exact absurd hz (Int.ne_of_lt hp)
    · cases hs
      rw [hop] at hdown
      cases hdown
  | op e =>
    constructor
    · intro hnot hdeaf
      unfold deafClear at hdeaf
      split at hdeaf
      · next k b now heq =>
        cases heq
        obtain ⟨hpc, hsome, hclear⟩ := hdeaf
        obtain ⟨q, hq⟩ := Option.isSome_iff_exists.mp hsome
        have hs : step s (.call k (.clear b) now) =
            some (commit s k (.clear b) (start s.cb (.clear b) now)) := by
          unfold step
          dsimp only
          rw [hpc]
        obtain ⟨m, hm, hmoved⟩ := step_moved hs
        have hiff := moved_notifies_iff hmoved hb hpos hq
        exact hiff.mp (fun hturn => hnot _ q hs hq hturn) ⟨⟨b, disposes_clear hm⟩, hclear⟩
      · exact hdeaf
    · intro hnot s' q hs hq
      obtain ⟨m, hm, hmoved⟩ := step_moved hs
      refine (moved_notifies_iff hmoved hb hpos hq).mpr ?_
      rintro ⟨⟨b, rfl⟩, hclear⟩
      obtain ⟨k, c, now, rfl, hpc, -⟩ | ⟨k, c, _, _, _, _, _, _, _, rfl, -⟩ := step_cases hs
      · cases c with
        | clear b' =>
          refine hnot ⟨hpc, ?_, hclear⟩
          rw [hq]
          rfl
        | _ => cases hm
      · cases hm

/-- The count is between zero and the capacity, which is positive. -/
def Roomy (cb : Cbuffer α) : Prop := Bounded cb ∧ 0 < cb.nMaxElements

theorem Roomy.step {e : BufferEvent κ α} (h : Roomy s.cb) (hs : bufferStep s e = some s') :
    Roomy s'.cb := by
  cases e with
  | register qmuxer type =>
    cases hs
    exact h
  | op e =>
    obtain ⟨hmax, hbound⟩ := counted_step hs
    exact ⟨hbound h.1, hmax ▸ h.2⟩

omit [Zero α] in
theorem roomy_createWithSize {mallocOk : Nat → Bool} {junk : Nat → α} {elemsize : Nat}
    {maxelems : Int} {hasDelProc : Bool}
    (h : createWithSize mallocOk junk elemsize maxelems hasDelProc = (Result.ok, some cb)) :
    Roomy cb := by
  refine ⟨bounded_createWithSize h, ?_⟩
  simp only [createWithSize] at h
  split_ifs at h with hargs hmalloc <;> cases h
  exact hargs.2

/-- **Who is registered is notified, but of the room that a clear makes.** A fresh buffer, and any
calls and registrations in any interleaving: each put, get, clear or shutdown that makes a
registered event available or shuts the buffer down notifies the muxer, exactly if none of them is a
clear of a full buffer that is registered for room and not for elements. -/
theorem run_notifies_iff {mallocOk : Nat → Bool} {junk : Nat → α} {elemsize : Nat} {maxelems : Int}
    {hasDelProc : Bool}
    (hcreate : createWithSize mallocOk junk elemsize maxelems hasDelProc = (Result.ok, some cb)) :
    Trans.Run bufferStep notifies (Calls.init cb : Calls κ α) es s ↔
      Trans.Run bufferStep (fun s e => ¬deafClear s e) (Calls.init cb) es s := by
  exact Trans.Run.iff_of_steps (I := fun s => Roomy s.cb) (fun _ _ _ h _ hs => h.step hs)
    (fun s e h => notifies_iff h.1 h.2 e) (roomy_createWithSize hcreate)

end

/-- A muxer that waits for room is told of a get. -/
theorem run_notifies_iff_get :
    ∃ (cb : Cbuffer Nat) (s : Calls (Fin 3) Nat),
      createWithSize (fun _ => true) (fun _ => 0) 8 1 false = (Result.ok, some cb) ∧
      Trans.Run bufferStep notifies (Calls.init cb)
        [.op (.call 0 (.putN [7] 8 0) 0), .register (some 5) pollWritable,
          .op (.call 1 (.getN 1 1 8 0 true) 1)] s ∧ s.cb.qmuxLog = [5] := by
  obtain ⟨cb, s, hcreate, hheard, hlog⟩ : ∃ (cb : Cbuffer Nat) (s : Calls (Fin 3) Nat),
      createWithSize (fun _ => true) (fun _ => 0) 8 1 false = (Result.ok, some cb) ∧
      Trans.Run bufferStep (fun s e => ¬deafClear s e) (Calls.init cb)
        [.op (.call 0 (.putN [7] 8 0) 0), .register (some 5) pollWritable,
          .op (.call 1 (.getN 1 1 8 0 true) 1)] s ∧ s.cb.qmuxLog = [5] :=
    ⟨_, _, rfl, .cons id rfl (.cons id rfl (.cons id rfl (.nil _))), rfl⟩
  exact ⟨cb, s, hcreate, (run_notifies_iff hcreate).mpr hheard, hlog⟩

/-- A clear makes room in a full buffer, and the muxer that waits for it is not told. -/
theorem deafClear_silent :
    ∃ (cb : Cbuffer Nat) (s s' : Calls (Fin 3) Nat),
      createWithSize (fun _ => true) (fun _ => 0) 8 1 false = (Result.ok, some cb) ∧
      Trans.run bufferStep (Calls.init cb)
        [.op (.call 0 (.putN [7] 8 0) 0), .register (some 5) pollWritable] = some s ∧
      s.cb.qmuxer = some 5 ∧
      bufferStep s (.op (.call 1 (.clear false) 1)) = some s' ∧ Turns s.cb s'.cb ∧
      s'.cb.qmuxLog = [] :=
  ⟨_, _, _, rfl, rfl, rfl, rfl, .inr (.inl ⟨rfl, rfl, by decide⟩), rfl⟩

end Qmuxer
end Gallus
