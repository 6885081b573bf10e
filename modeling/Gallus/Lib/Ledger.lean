import Mathlib.Logic.Function.Basic

/-!
# Things handed over through one slot

A ledger of what is put into a slot, one thing after the other: the things are numbered as they
are accepted, each is to be executed once or stopped. Nothing here knows what the things are.

* `accept`, `execute`, `stop`, `clear`: a thing is put into the slot; it is begun; it is told that
  it will not be executed; the slot is emptied.
* `Kept`: nothing is executed twice, and everything that has left the slot is settled.
* `Kept.accept` needs an empty slot, `Kept.clear` a settled one.
-/

namespace Gallus

structure Ledger where
  /-- How many things have been put into the slot. -/
  accepted : Nat
  executed : Nat → Nat
  stopped : Nat → Bool
  slot : Option Nat

namespace Ledger

def empty : Ledger := ⟨0, fun _ => 0, fun _ => false, none⟩

def accept (l : Ledger) : Ledger :=
  { l with accepted := l.accepted + 1, slot := some l.accepted }

def execute (l : Ledger) (n : Nat) : Ledger :=
  { l with executed := Function.update l.executed n (l.executed n + 1) }

def stop (l : Ledger) (n : Nat) : Ledger :=
  { l with stopped := Function.update l.stopped n true }

def clear (l : Ledger) : Ledger := { l with slot := none }

/-- Executed exactly once, or stopped. -/
def Settled (l : Ledger) (n : Nat) : Prop := l.executed n = 1 ∨ l.stopped n = true

instance (l : Ledger) (n : Nat) : Decidable (l.Settled n) := inferInstanceAs (Decidable (_ ∨ _))

/-- What is in the slot has not been begun. -/
def Untouched (l : Ledger) : Prop := ∀ n, l.slot = some n → l.executed n = 0

/-- Nothing is executed twice or forgotten. -/
structure Kept (l : Ledger) : Prop where
  once : ∀ n, l.executed n ≤ 1
  ahead : ∀ n, l.accepted ≤ n → l.executed n = 0
  slot_lt : ∀ n, l.slot = some n → n < l.accepted
  settled : ∀ n, n < l.accepted → l.slot ≠ some n → l.Settled n

variable {l : Ledger} {n m : Nat}

theorem kept_empty : Kept empty :=
  ⟨fun _ => Nat.zero_le 1, fun _ _ => rfl, nofun, fun n hn => absurd hn n.not_lt_zero⟩

theorem Kept.accept (h : Kept l) (hslot : l.slot = none) : Kept l.accept := by
  refine ⟨h.once, fun n hn => ?_, fun n hn => ?_, fun n hn hne => ?_⟩
  · change l.accepted + 1 ≤ n at hn
    exact h.ahead n (by omega)
  · cases hn
    exact Nat.lt_succ_self _
  · change n < l.accepted + 1 at hn
    have hlt : n ≠ l.accepted := fun heq => hne (congrArg some heq.symm)
    refine h.settled n (by omega) ?_
    rw [hslot]
    nofun

theorem Kept.untouched_accept (h : Kept l) : l.accept.Untouched := by
  intro n hn
  cases hn
  exact h.ahead _ (Nat.le_refl _)

theorem Settled.execute (h : l.Settled m) (hne : m ≠ n) : (l.execute n).Settled m := by
  show Function.update l.executed n (l.executed n + 1) m = 1 ∨ l.stopped m = true
  rwa [Function.update_of_ne hne]

/-- What is in the slot is begun. -/
theorem Kept.execute (h : Kept l) (hslot : l.slot = some n) (hnew : l.executed n = 0) :
    Kept (l.execute n) := by
  have hlt := h.slot_lt n hslot
  refine ⟨fun m => ?_, fun m hm => ?_, h.slot_lt, fun m hm hne => ?_⟩
  · show Function.update l.executed n (l.executed n + 1) m ≤ 1
    by_cases hmn : m = n
    · exact Nat.le_of_eq (by rw [hmn, Function.update_self, hnew])
    · rw [Function.update_of_ne hmn]
      exact h.once m
  · have hmn : m ≠ n := by
      change l.accepted ≤ m at hm
      omega
    show Function.update l.executed n (l.executed n + 1) m = 0
    rw [Function.update_of_ne hmn]
    exact h.ahead m hm
  · refine (h.settled m hm hne).execute ?_
    rintro rfl
    exact hne hslot

theorem Settled.stop (h : l.Settled m) : (l.stop n).Settled m := by
  rcases h with h | h
  · exact .inl h
  · right
    show Function.update l.stopped n true m = true
    by_cases hmn : m = n
    · rw [hmn, Function.update_self]
    · rwa [Function.update_of_ne hmn]

theorem settled_stop : (l.stop n).Settled n := .inr (Function.update_self ..)

theorem Kept.stop (h : Kept l) : Kept (l.stop n) :=
  { h with settled := fun m hm hne => (h.settled m hm hne).stop }

theorem Kept.clear (h : Kept l) (hslot : ∀ n, l.slot = some n → l.Settled n) : Kept l.clear := by
  refine ⟨h.once, h.ahead, nofun, fun n hn _ => ?_⟩
  by_cases hs : l.slot = some n
  · exact hslot n hs
  · exact h.settled n hn hs

end Ledger
end Gallus
