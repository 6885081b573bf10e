import Gallus.Basic
import Gallus.Lib.Checked

/-!
# Conversions of a time (`gallus_macros.h`, `chrono.c`)

`long` and `time_t` have 64 bits, like `gallus_chrono_t`.

* `nsecToTs`, `nsecToTv`, `tsToNsec`, `tvToNsec`: the macros, operation by operation, in the form
  with `%` and in the one with `*` and `-`. `chronoToTimespec` and so on: the functions.
* `tsToNsec_nsecToTs`: the quotient and the remainder, of any sign, put together again.
* `usecOf_error`: the whole microseconds are within half of one exactly if the time is not below
  `-500` or is a half itself (`Rounded`): the `5` that is added before the last division takes a
  negative time away from the nearest microsecond.
* `chrono_roundTrips`: so do the round trips of a time.
-/

namespace Gallus
namespace Chrono

open Checked

/-! ## The macros -/

/-- `struct timespec`. -/
structure Timespec where
  tvSec : Int
  tvNsec : Int

/-- `struct timeval`. -/
structure Timeval where
  tvSec : Int
  tvUsec : Int

/-- The value of an operation on `long long`, of which it is the exact result. -/
def longLong (x : Int) : Option Int := checked 64 x

/-- `NSEC_TO_USEC`. -/
def nsecToUsec (nsec : Int) : Option Int := do
  let tenths ← longLong (nsec.tdiv 100)
  let half ← longLong (tenths + 5)
  longLong (half.tdiv 10)

/-- What is left of `x` above `sec` units, by `%` if `MOD_IS_FASTER_THAN_MUL_SUB` is defined. -/
def belowSec (modIsFaster : Bool) (x sec unit : Int) : Option Int :=
  if modIsFaster then longLong (x.tmod unit)
  else do
    let whole ← longLong (sec * unit)
    longLong (x - whole)

/-- `NSEC_TO_TS`. -/
def nsecToTs (modIsFaster : Bool) (nsec : Int) : Option Timespec := do
  let tvSec ← longLong (nsec.tdiv (1000 * 1000 * 1000))
  let tvNsec ← belowSec modIsFaster nsec tvSec (1000 * 1000 * 1000)
  return { tvSec, tvNsec }

/-- `NSEC_TO_TV`. -/
def nsecToTv (modIsFaster : Bool) (nsec : Int) : Option Timeval := do
  let uSec ← nsecToUsec nsec
  let tvSec ← longLong (uSec.tdiv (1000 * 1000))
  let tvUsec ← belowSec modIsFaster uSec tvSec (1000 * 1000)
  return { tvSec, tvUsec }

/-- `TS_TO_NSEC`. -/
def tsToNsec (ts : Timespec) : Option Int := do
  let msec ← longLong (ts.tvSec * 1000)
  let usec ← longLong (msec * 1000)
  let nsec ← longLong (usec * 1000)
  longLong (nsec + ts.tvNsec)

/-- The sum inside `TV_TO_NSEC`. -/
def tvToUsec (tv : Timeval) : Option Int := do
  let msec ← longLong (tv.tvSec * 1000)
  let usec ← longLong (msec * 1000)
  longLong (usec + tv.tvUsec)

/-- `TV_TO_NSEC`. -/
def tvToNsec (tv : Timeval) : Option Int := do
  let usec ← tvToUsec tv
  longLong (usec * 1000)

/-! ## The functions

A pointer is `none` if it is `NULL`. The outer `none` is a call without a defined result. -/

/-- `gallus_chrono_to_timespec`. -/
def chronoToTimespec (modIsFaster : Bool) (dstptr : Option Timespec) (nsec : Int) :
    Option (Result × Option Timespec) :=
  match dstptr with
  | some _ => (nsecToTs modIsFaster nsec).map fun ts => (Result.ok, some ts)
  | none => some (Result.invalidArgs, none)

/-- `gallus_chrono_to_timeval`. -/
def chronoToTimeval (modIsFaster : Bool) (dstptr : Option Timeval) (nsec : Int) :
    Option (Result × Option Timeval) :=
  match dstptr with
  | some _ => (nsecToTv modIsFaster nsec).map fun tv => (Result.ok, some tv)
  | none => some (Result.invalidArgs, none)

/-- `gallus_chrono_from_timespec`. -/
def chronoFromTimespec (dstptr : Option Int) (specptr : Option Timespec) :
    Option (Result × Option Int) :=
  match dstptr, specptr with
  | some _, some ts => (tsToNsec ts).map fun nsec => (Result.ok, some nsec)
  | dstptr, _ => some (Result.invalidArgs, dstptr)

/-- `gallus_chrono_from_timeval`. -/
def chronoFromTimeval (dstptr : Option Int) (specptr : Option Timeval) :
    Option (Result × Option Int) :=
  match dstptr, specptr with
  | some _, some tv => (tvToNsec tv).map fun nsec => (Result.ok, some nsec)
  | dstptr, _ => some (Result.invalidArgs, dstptr)

/-! ## Seconds and what is below -/

theorem longLong_of_range {x : Int} (hlo : -2 ^ 63 ≤ x) (hhi : x < 2 ^ 63) :
    longLong x = some x :=
  checked_of_fits ⟨hlo, hhi⟩

/-- Both forms leave the remainder. -/
theorem belowSec_eq (modIsFaster : Bool) {x unit : Int} (hx : Fits 64 x) (hunit : 0 < unit) :
    belowSec modIsFaster x (x.tdiv unit) unit = some (x.tmod unit) := by
  have hrest : longLong (x.tmod unit) = some (x.tmod unit) :=
    checked_of_fits (tmod_fits hunit hx)
  have hwhole : longLong (x.tdiv unit * unit) = some (x.tdiv unit * unit) :=
    checked_of_fits (tdiv_mul_fits hunit hx)
  have hsub : x - x.tdiv unit * unit = x.tmod unit := by
    have hsum := Int.tdiv_mul_add_tmod x unit
    omega
  unfold belowSec
  split_ifs
  · exact hrest
  · rw [hwhole, Option.bind_eq_bind, Option.bind_some, hsub, hrest]

variable {nsec : Int}

theorem nsecToTs_eq (modIsFaster : Bool) (h : Fits 64 nsec) :
    nsecToTs modIsFaster nsec = some ⟨nsec.tdiv 1000000000, nsec.tmod 1000000000⟩ := by
  have hq := tdiv_spec nsec (d := 1000000000) (by decide)
  have hsec : longLong (nsec.tdiv 1000000000) = some (nsec.tdiv 1000000000) := by
    obtain ⟨hlo, hhi⟩ := h
    exact longLong_of_range (by omega) (by omega)
  have hbelow := belowSec_eq modIsFaster h (show (0 : Int) < 1000000000 by decide)
  simp only [nsecToTs, Int.reduceMul, hsec, hbelow, Option.bind_eq_bind, Option.bind_some]
  rfl

/-- The quotient and the remainder, of any sign, put together again. -/
theorem tsToNsec_nsecToTs (h : Fits 64 nsec) :
    tsToNsec ⟨nsec.tdiv 1000000000, nsec.tmod 1000000000⟩ = some nsec := by
  have hq := mul_tdiv_between nsec (d := 1000000000) (by decide)
  have hsum := Int.mul_tdiv_add_tmod nsec 1000000000
  obtain ⟨hlo, hhi⟩ := h
  simp only [tsToNsec, Option.bind_eq_bind]
  rw [longLong_of_range (by omega) (by omega), Option.bind_some,
    longLong_of_range (by omega) (by omega), Option.bind_some,
    longLong_of_range (by omega) (by omega), Option.bind_some,
    longLong_of_range (by omega) (by omega)]
  congr 1
  omega

/-! ## Microseconds -/

/-- The microseconds of a time. -/
def usecOf (nsec : Int) : Int := (nsec.tdiv 100 + 5).tdiv 10

theorem usecOf_range (h : Fits 64 nsec) : -2 ^ 54 < usecOf nsec ∧ usecOf nsec < 2 ^ 54 := by
  have hq := tdiv_spec nsec (d := 100) (by decide)
  have hu := tdiv_spec (nsec.tdiv 100 + 5) (d := 10) (by decide)
  obtain ⟨hlo, hhi⟩ := h
  unfold usecOf
  omega

theorem nsecToUsec_eq (h : Fits 64 nsec) : nsecToUsec nsec = some (usecOf nsec) := by
  have hq := tdiv_spec nsec (d := 100) (by decide)
  have hu := usecOf_range h
  obtain ⟨hlo, hhi⟩ := h
  simp only [nsecToUsec, Option.bind_eq_bind]
  rw [longLong_of_range (by omega) (by omega), Option.bind_some,
    longLong_of_range (by omega) (by omega), Option.bind_some]
  exact longLong_of_range (by unfold usecOf at hu; omega) (by unfold usecOf at hu; omega)

theorem nsecToTv_eq (modIsFaster : Bool) (h : Fits 64 nsec) :
    nsecToTv modIsFaster nsec =
      some ⟨(usecOf nsec).tdiv 1000000, (usecOf nsec).tmod 1000000⟩ := by
  obtain ⟨hlo, hhi⟩ := usecOf_range h
  have hu : Fits 64 (usecOf nsec) := ⟨by omega, by omega⟩
  have hq := tdiv_spec (usecOf nsec) (d := 1000000) (by decide)
  have hsec : longLong ((usecOf nsec).tdiv 1000000) = some ((usecOf nsec).tdiv 1000000) :=
    longLong_of_range (by omega) (by omega)
  have hbelow := belowSec_eq modIsFaster hu (show (0 : Int) < 1000000 by decide)
  simp only [nsecToTv, Int.reduceMul, nsecToUsec_eq h, hsec, hbelow, Option.bind_eq_bind,
    Option.bind_some]
  rfl

theorem tvToUsec_nsecToTv (h : Fits 64 nsec) :
    tvToUsec ⟨(usecOf nsec).tdiv 1000000, (usecOf nsec).tmod 1000000⟩ = some (usecOf nsec) := by
  have hq := mul_tdiv_between (usecOf nsec) (d := 1000000) (by decide)
  have hsum := Int.mul_tdiv_add_tmod (usecOf nsec) 1000000
  obtain ⟨hlo, hhi⟩ := usecOf_range h
  simp only [tvToUsec, Option.bind_eq_bind]
  rw [longLong_of_range (by omega) (by omega), Option.bind_some,
    longLong_of_range (by omega) (by omega), Option.bind_some,
    longLong_of_range (by omega) (by omega)]
  congr 1
  omega

/-- A time that `NSEC_TO_USEC` takes to the nearest microsecond: all but those below `-500`, and
of these the halves. -/
def Rounded (nsec : Int) : Prop := -500 ≤ nsec ∨ nsec % 1000 = 500

instance (nsec : Int) : Decidable (Rounded nsec) := inferInstanceAs (Decidable (_ ∨ _))

/-- The `5` rounds a time up, on either side of zero. -/
theorem usecOf_error (nsec : Int) :
    (usecOf nsec * 1000 - nsec ≤ 500 ∧ nsec - usecOf nsec * 1000 ≤ 500) ↔ Rounded nsec := by
  have hq := tdiv_spec nsec (d := 100) (by decide)
  have hu := tdiv_spec (nsec.tdiv 100 + 5) (d := 10) (by decide)
  unfold usecOf Rounded
  omega

/-! ## Round trips -/

/-- The time `nsec` comes back from a `struct timespec` as it was and from a `struct timeval`, as
far as the result is a `gallus_chrono_t`, within 500 nanoseconds; nothing else overflows, and the
fields of a time that is not negative are normalised. -/
structure RoundTrips (modIsFaster : Bool) (nsec : Int) : Prop where
  timespec : ∀ (dst : Timespec) (old : Int), ∃ ts,
    chronoToTimespec modIsFaster (some dst) nsec = some (Result.ok, some ts) ∧
    chronoFromTimespec (some old) (some ts) = some (Result.ok, some nsec) ∧
    (0 ≤ nsec → 0 ≤ ts.tvNsec ∧ ts.tvNsec ≤ 999999999)
  timeval : ∀ (dst : Timeval) (old : Int), ∃ tv usec,
    chronoToTimeval modIsFaster (some dst) nsec = some (Result.ok, some tv) ∧
    tvToUsec tv = some usec ∧
    (Fits 64 (usec * 1000) → ∃ back,
      chronoFromTimeval (some old) (some tv) = some (Result.ok, some back) ∧
      back - nsec ≤ 500 ∧ nsec - back ≤ 500) ∧
    (0 ≤ nsec → 0 ≤ tv.tvUsec ∧ tv.tvUsec ≤ 999999)

theorem timespec_trip (modIsFaster : Bool) (h : Fits 64 nsec) (dst : Timespec) (old : Int) :
    ∃ ts, chronoToTimespec modIsFaster (some dst) nsec = some (Result.ok, some ts) ∧
      chronoFromTimespec (some old) (some ts) = some (Result.ok, some nsec) ∧
      (0 ≤ nsec → 0 ≤ ts.tvNsec ∧ ts.tvNsec ≤ 999999999) := by
  refine ⟨⟨nsec.tdiv 1000000000, nsec.tmod 1000000000⟩, ?_, ?_, fun hn => ?_⟩
  · simp only [chronoToTimespec, nsecToTs_eq modIsFaster h, Option.map_some]
  · simp only [chronoFromTimespec, tsToNsec_nsecToTs h, Option.map_some]
  · have hlt := Int.tmod_lt_of_pos nsec (b := 1000000000) (by decide)
    exact ⟨Int.tmod_nonneg _ hn, Int.le_of_lt_add_one hlt⟩

/-- **The conversions.** Every `int64_t`, in both forms of the macros: the trip through a `struct
timespec` always holds, the one through a `struct timeval` exactly for the times that
`NSEC_TO_USEC` rounds to the nearest microsecond. -/
theorem chrono_roundTrips (modIsFaster : Bool) (nsec : Int) (h : Fits 64 nsec) :
    RoundTrips modIsFaster nsec ↔ Rounded nsec := by
  have hto (dst : Timeval) : chronoToTimeval modIsFaster (some dst) nsec = some (Result.ok,
      some ⟨(usecOf nsec).tdiv 1000000, (usecOf nsec).tmod 1000000⟩) := by
    simp only [chronoToTimeval, nsecToTv_eq modIsFaster h, Option.map_some]
  have hfrom (old : Int) (hfits : Fits 64 (usecOf nsec * 1000)) :
      chronoFromTimeval (some old)
        (some ⟨(usecOf nsec).tdiv 1000000, (usecOf nsec).tmod 1000000⟩) =
      some (Result.ok, some (usecOf nsec * 1000)) := by
    simp only [chronoFromTimeval, tvToNsec, tvToUsec_nsecToTv h, Option.bind_eq_bind,
      Option.bind_some, longLong, checked_of_fits hfits, Option.map_some]
  constructor
  · intro htrips
    -- past the end of the type the times are positive
    by_cases hfits : Fits 64 (usecOf nsec * 1000)
    · obtain ⟨tv, usec, htv, husec, hback, -⟩ := htrips.timeval ⟨0, 0⟩ 0
      obtain rfl : _ = tv := by simpa [hto] using htv
      obtain rfl : usecOf nsec = usec := by simpa [tvToUsec_nsecToTv h] using husec
      obtain ⟨back, hb, hle⟩ := hback hfits
      obtain rfl : usecOf nsec * 1000 = back := by simpa [hfrom 0 hfits] using hb
      exact (usecOf_error nsec).mp hle
    · refine .inl ?_
      have hq := tdiv_spec nsec (d := 100) (by decide)
      have hu := tdiv_spec (nsec.tdiv 100 + 5) (d := 10) (by decide)
      unfold Fits usecOf at hfits
      unfold Fits at h
      omega
  · intro hr
    refine ⟨timespec_trip modIsFaster h, fun dst old =>
      ⟨_, usecOf nsec, hto dst, tvToUsec_nsecToTv h, fun hfits =>
        ⟨_, hfrom old hfits, (usecOf_error nsec).mpr hr⟩, fun hn => ?_⟩⟩
    have hq := tdiv_spec nsec (d := 100) (by decide)
    have hu := tdiv_spec (nsec.tdiv 100 + 5) (d := 10) (by decide)
    have hlt := Int.tmod_lt_of_pos (usecOf nsec) (b := 1000000) (by decide)
    exact ⟨Int.tmod_nonneg _ (by unfold usecOf; omega), by simp only; omega⟩

/-- Half a microsecond below zero is `0`, with the largest error that the trip may have. -/
theorem chrono_roundTrips_half : Fits 64 (-500) ∧ RoundTrips false (-500) :=
  ⟨by decide, (chrono_roundTrips false (-500) (by decide)).mpr (by decide)⟩

/-- One microsecond below zero becomes `0`, and so comes back. -/
theorem chrono_roundTrips_negative : Fits 64 (-1000) ∧ ∀ modIsFaster,
    chronoToTimeval modIsFaster (some ⟨7, 7⟩) (-1000) = some (Result.ok, some ⟨0, 0⟩) ∧
    chronoFromTimeval (some 7) (some ⟨0, 0⟩) = some (Result.ok, some 0) ∧
    ¬ RoundTrips modIsFaster (-1000) := by
  refine ⟨by decide, fun modIsFaster => ?_⟩
  have hto : chronoToTimeval modIsFaster (some ⟨7, 7⟩) (-1000) =
      some (Result.ok, some ⟨0, 0⟩) := by
    cases modIsFaster <;> rfl
  refine ⟨hto, rfl, fun htrips => ?_⟩
  obtain ⟨tv, usec, htv, husec, hback, -⟩ := htrips.timeval ⟨7, 7⟩ 7
  obtain rfl : (⟨0, 0⟩ : Timeval) = tv := by simpa [hto] using htv
  obtain rfl : 0 = usec := Option.some.inj husec
  obtain ⟨back, hb, hle, -⟩ := hback (by decide)
  obtain rfl : 0 = back := by simpa using congrArg Prod.snd (Option.some.inj hb)
  omega

end Chrono
end Gallus
