import Mathlib.Algebra.Ring.Int.Defs
import Mathlib.Tactic.Common

/-!
# `Time::Explode` and `Time::FromExploded`

Both in UTC, on a platform with a 64-bit `time_t`. A signed overflow has no result.
-/

namespace Libchrome.Base.TimeExplode

/-- A result of type `int64_t`. -/
def int64 (n : Int) : Option Int := if -2 ^ 63 ≤ n ∧ n < 2 ^ 63 then some n else none

/-- A result of type `int`. -/
def int (n : Int) : Option Int := if -2 ^ 31 ≤ n ∧ n < 2 ^ 31 then some n else none

def kWindowsEpochDeltaMicroseconds : Int := 11644473600 * 1000000
def kMicrosecondsPerMillisecond : Int := 1000
def kMillisecondsPerSecond : Int := 1000

/-- `struct tm`. -/
structure Tm where
  tm_sec : Int
  tm_min : Int
  tm_hour : Int
  tm_mday : Int
  tm_mon : Int
  tm_year : Int
  tm_wday : Int
  tm_yday : Int
  tm_isdst : Int

structure Exploded where
  year : Int
  month : Int
  day_of_week : Int
  day_of_month : Int
  hour : Int
  minute : Int
  second : Int
  millisecond : Int

/-- The seconds since the epoch and the millisecond, with the rounding of `Explode`. -/
def split (microseconds : Int) : Option (Int × Int) :=
  if microseconds ≥ 0 then
    let milliseconds := microseconds.tdiv kMicrosecondsPerMillisecond
    some (milliseconds.tdiv kMillisecondsPerSecond, milliseconds.tmod kMillisecondsPerSecond)
  else do
    let milliseconds :=
      (← int64 ((← int64 (microseconds - kMicrosecondsPerMillisecond)) + 1)).tdiv kMicrosecondsPerMillisecond
    let seconds := (← int64 ((← int64 (milliseconds - kMillisecondsPerSecond)) + 1)).tdiv kMillisecondsPerSecond
    let millisecond := milliseconds.tmod kMillisecondsPerSecond
    return (seconds, if millisecond < 0 then millisecond + kMillisecondsPerSecond else millisecond)

def explodeSeconds (timestruct : Tm) (millisecond : Int) : Option Exploded := do
  return {
    year := ← int (timestruct.tm_year + 1900)
    month := ← int (timestruct.tm_mon + 1)
    day_of_week := timestruct.tm_wday
    day_of_month := timestruct.tm_mday
    hour := timestruct.tm_hour
    minute := timestruct.tm_min
    second := timestruct.tm_sec
    millisecond := millisecond }

/-- `Explode` of the time with the value `us_`. -/
def explode (gmtime : Int → Tm) (us_ : Int) : Option Exploded := do
  let microseconds ← int64 (us_ - kWindowsEpochDeltaMicroseconds)
  let (seconds, millisecond) ← split microseconds
  explodeSeconds (gmtime seconds) millisecond

/-- The seconds that `FromExploded` computes from the results with `tm_isdst` -1, 0 and 1. -/
def chooseSeconds (seconds seconds_isdst0 seconds_isdst1 : Int) : Int :=
  if seconds = -1 then
    if seconds_isdst0 < 0 then seconds_isdst1
    else if seconds_isdst1 < 0 then seconds_isdst0
    else min seconds_isdst0 seconds_isdst1
  else seconds

def fromExploded (timegm : Tm → Int) (exploded : Exploded) : Option Int := do
  let timestruct0 : Tm := {
    tm_sec := exploded.second
    tm_min := exploded.minute
    tm_hour := exploded.hour
    tm_mday := exploded.day_of_month
    tm_mon := ← int (exploded.month - 1)
    tm_year := ← int (exploded.year - 1900)
    tm_wday := exploded.day_of_week
    tm_yday := 0
    tm_isdst := -1 }
  let seconds := chooseSeconds (timegm timestruct0) (timegm { timestruct0 with tm_isdst := 0 })
    (timegm { timestruct0 with tm_isdst := 1 })
  let milliseconds ←
    if seconds = -1 ∧ (exploded.year < 1969 ∨ exploded.year > 1970) then
      -- What a 32-bit `time_t` can hold, the last of its milliseconds included.
      if exploded.year < 1969 then int64 (-2 ^ 31 * kMillisecondsPerSecond)
      else int64 ((2 ^ 31 - 1) * kMillisecondsPerSecond + (kMillisecondsPerSecond - 1))
    else int64 ((← int64 (seconds * kMillisecondsPerSecond)) + exploded.millisecond)
  int64 ((← int64 (milliseconds * kMicrosecondsPerMillisecond)) + kWindowsEpochDeltaMicroseconds)

/-- `gmtime_r` and `timegm`, the second of which takes the date alone and gives the seconds back. -/
structure Calendar where
  gmtime : Int → Tm
  timegm : Tm → Int
  inverse : ∀ seconds wday yday isdst,
    timegm { gmtime seconds with tm_wday := wday, tm_yday := yday, tm_isdst := isdst } = seconds
  month : ∀ seconds, 0 ≤ (gmtime seconds).tm_mon ∧ (gmtime seconds).tm_mon ≤ 11
  /-- The second before the epoch is one of 1969. -/
  year : (gmtime (-1)).tm_year = 69

theorem int64_eq {n : Int} (fits : -2 ^ 63 ≤ n ∧ n < 2 ^ 63) : int64 n = some n := if_pos fits

theorem int_eq {n : Int} (fits : -2 ^ 31 ≤ n ∧ n < 2 ^ 31) : int n = some n := if_pos fits

/-- What is written for negative values is division that rounds down. -/
theorem tdiv_of_neg {n : Int} (negative : n < 0) : (n - 1000 + 1).tdiv 1000 = n / 1000 := by
  have sign : Int.sign 1000 = 1 := rfl
  rw [Int.tdiv_eq_ediv, sign]
  split_ifs <;> omega

theorem tmod_eq (n : Int) :
    (if n.tmod 1000 < 0 then n.tmod 1000 + 1000 else n.tmod 1000) = n % 1000 := by
  have size : Int.natAbs 1000 = 1000 := rfl
  rw [Int.tmod_eq_emod, size]
  split_ifs <;> omega

theorem split_eq {microseconds : Int} (low : -2 ^ 63 + 1000 ≤ microseconds) (high : microseconds < 2 ^ 63) :
    split microseconds = some (microseconds / 1000 / 1000, microseconds / 1000 % 1000) := by
  unfold split kMicrosecondsPerMillisecond kMillisecondsPerSecond
  split
  next positive =>
    have positive' : 0 ≤ microseconds / 1000 := by omega
    dsimp only
    rw [Int.tdiv_eq_ediv_of_nonneg positive, Int.tdiv_eq_ediv_of_nonneg positive', Int.tmod_eq_emod_of_nonneg positive']
  next =>
    have negative : microseconds < 0 := by omega
    have negative' : microseconds / 1000 < 0 := by omega
    simp only [Option.bind_eq_bind]
    rw [int64_eq (by omega), Option.bind_some, int64_eq (by omega), Option.bind_some, tdiv_of_neg negative]
    rw [int64_eq (by omega), Option.bind_some, int64_eq (by omega), Option.bind_some, tdiv_of_neg negative',
      tmod_eq]
    rfl

theorem split_eq_none {microseconds : Int} (low : microseconds < -2 ^ 63 + 1000) : split microseconds = none := by
  unfold split kMicrosecondsPerMillisecond int64
  rw [if_neg (by omega), if_neg (by omega)]
  rfl

/-- The one second for which `timegm` returns -1 is in a year that `FromExploded` takes it for. -/
theorem chooseSeconds_self (seconds : Int) : chooseSeconds seconds seconds seconds = seconds := by
  unfold chooseSeconds
  split_ifs <;> simp

/-- Exploding gives a millisecond, and the time rounded down to it comes back. -/
def RoundTrips (calendar : Calendar) (us_ : Int) : Prop :=
  ∃ exploded, explode calendar.gmtime us_ = some exploded ∧ 0 ≤ exploded.millisecond ∧ exploded.millisecond ≤ 999 ∧
    fromExploded calendar.timegm exploded = some (us_ - us_ % 1000)

/-- The years of `struct tm` and of `Exploded` are of type `int`. -/
def YearFits (calendar : Calendar) (us_ : Int) : Prop :=
  -2 ^ 31 ≤ (calendar.gmtime ((us_ - kWindowsEpochDeltaMicroseconds) / 1000000)).tm_year ∧
    (calendar.gmtime ((us_ - kWindowsEpochDeltaMicroseconds) / 1000000)).tm_year + 1900 < 2 ^ 31

/-- All times come back but those of the first thousand microseconds, which overflow where they are rounded. -/
theorem roundTrips_iff (calendar : Calendar) {us_ : Int} (value : -2 ^ 63 ≤ us_ ∧ us_ < 2 ^ 63)
    (stays : -2 ^ 63 ≤ us_ - kWindowsEpochDeltaMicroseconds) (fits : YearFits calendar us_) :
    RoundTrips calendar us_ ↔ -2 ^ 63 + 1000 ≤ us_ - kWindowsEpochDeltaMicroseconds := by
  unfold YearFits at fits
  generalize moved : us_ - kWindowsEpochDeltaMicroseconds = microseconds at *
  have offset : kWindowsEpochDeltaMicroseconds = 11644473600000000 := rfl
  have exploded : explode calendar.gmtime us_ =
      (split microseconds).bind fun result => explodeSeconds (calendar.gmtime result.1) result.2 := by
    rw [explode, moved, int64_eq ⟨stays, by omega⟩]
    rfl
  constructor
  · intro trips
    obtain ⟨_, some, _⟩ := trips
    by_contra low
    rw [exploded, split_eq_none (by omega)] at some
    cases some
  · intro low
    have same : microseconds / 1000 / 1000 = microseconds / 1000000 := by omega
    rw [split_eq low (by omega), same, Option.bind_some] at exploded
    generalize at_ : microseconds / 1000000 = seconds at *
    have month := calendar.month seconds
    have year_before (last : seconds = -1) : (calendar.gmtime seconds).tm_year = 69 := last ▸ calendar.year
    have inverse := calendar.inverse seconds
    dsimp only at exploded
    generalize calendar.gmtime seconds = timestruct at *
    rw [explodeSeconds, int_eq (by omega), int_eq (by omega)] at exploded
    refine ⟨_, exploded, by dsimp only; omega, by dsimp only; omega, ?_⟩
    unfold fromExploded kMillisecondsPerSecond kMicrosecondsPerMillisecond
    dsimp only
    rw [int_eq (by omega), int_eq (by omega), Int.add_sub_cancel, Int.add_sub_cancel]
    simp only [Option.bind_eq_bind, Option.bind_some]
    rw [inverse, inverse, inverse, chooseSeconds_self, if_neg (by omega), int64_eq (by omega), Option.bind_some,
      int64_eq (by omega), Option.bind_some, int64_eq (by omega), Option.bind_some, int64_eq (by omega)]
    congr 1
    omega

/-- The calendar of the days around the epoch; other days count as years. -/
def aroundEpoch : Calendar where
  gmtime seconds := {
    tm_sec := seconds % 60
    tm_min := seconds / 60 % 60
    tm_hour := seconds / 3600 % 24
    tm_mday := if seconds / 86400 = -1 then 31 else 1
    tm_mon := if seconds / 86400 = -1 then 11 else 0
    tm_year := 70 + seconds / 86400
    tm_wday := (seconds / 86400 + 4) % 7
    tm_yday := if seconds / 86400 = -1 then 364 else 0
    tm_isdst := 0 }
  timegm tm := (tm.tm_year - 70) * 86400 + tm.tm_hour * 3600 + tm.tm_min * 60 + tm.tm_sec
  inverse := by intros; dsimp only; omega
  month := by intro seconds; dsimp only; split_ifs <;> omega
  year := by decide

/-- The microsecond before the epoch. -/
theorem roundTrips_before_epoch : RoundTrips aroundEpoch (kWindowsEpochDeltaMicroseconds - 1) ↔
    -2 ^ 63 + 1000 ≤ kWindowsEpochDeltaMicroseconds - 1 - kWindowsEpochDeltaMicroseconds :=
  roundTrips_iff aroundEpoch (by decide) (by decide) (by unfold YearFits; decide)

/-- The first of all times. -/
theorem not_roundTrips_first : ¬RoundTrips aroundEpoch (kWindowsEpochDeltaMicroseconds - 2 ^ 63) := by
  intro trips
  obtain ⟨_, some, _⟩ := trips
  have none : explode aroundEpoch.gmtime (kWindowsEpochDeltaMicroseconds - 2 ^ 63) = none := rfl
  rw [none] at some
  cases some

end Libchrome.Base.TimeExplode
