/-
This file models `NtQuerySystemTime` and `NtQueryPerformanceCounter` of
`src/libs/ntdll/time.c`, with `uptime` of `src/nt_compat.h`, and compares two values of the counter.

The seconds since the machine was booted are added to 1970, as if that was when it was booted. So
the counter begins anew with every second: it counts within one, and goes back at the next.
-/

import Nloader.Sync

namespace Nloader.Time

open Nloader.Events
open Sync (Timeval ticks1601To1970 statusAccessViolation)

/-! ### The functions -/

/-- `TICKSPERSEC`. -/
def ticksPerSec : UInt64 := 10000000

/-- What `NtQuerySystemTime` stores, when `gettimeofday` gives a time. -/
def ntQuerySystemTime (now : Timeval) : Int64 :=
  let quadPart := now.tvSec.toUInt64 * ticksPerSec + ticks1601To1970.toUInt64
  quadPart.toInt64 + now.tvUsec * 10

/-- `uptime`, when `sysinfo` gives the seconds, or fails. -/
def uptime (info : Option Int64) : Int32 :=
  match info with
  | some seconds => seconds.toInt32
  | none => 0

/-- What a call of `NtQueryPerformanceCounter` leaves: its status, and what it has stored to the
pointers. -/
structure Counted where
  status : Status
  performanceCounter : Option Int64
  performanceFrequency : Option Int64

/-- `NtQueryPerformanceCounter`, where the two pointers are given or not. -/
def ntQueryPerformanceCounter (counter frequency : Bool) (info : Option Int64) (now : Timeval) :
    Counted :=
  if counter then
    let serverStartTime :=
      (uptime info).toInt64.toUInt64 * ticksPerSec + ticks1601To1970.toUInt64
    let value := (ntQuerySystemTime now).toUInt64 - serverStartTime
    { status := statusSuccess
      performanceCounter := some (value * 21 / 176).toInt64
      performanceFrequency := if frequency then some 1193182 else none }
  else
    { status := statusAccessViolation
      performanceCounter := none
      performanceFrequency := none }

/-! ### The value of the counter -/

theorem toNat_toUInt64 (value : Int64) : (value.toUInt64.toNat : Int) = value.toInt % 2 ^ 64 := by
  have written := BitVec.toInt_eq_toNat_cond value.toBitVec
  have bound := value.toBitVec.isLt
  rw [Int64.toInt_toBitVec, Int64.toNat_toBitVec] at written
  rw [Int64.toNat_toBitVec] at bound
  omega

theorem toInt_toInt64_div (value : UInt64) :
    (value / 176).toInt64.toInt = (value.toNat / 176 : Nat) := by
  have bound := value.toNat_lt
  have written := BitVec.toInt_eq_toNat_cond (value / 176).toBitVec
  have quotient : (value / 176).toBitVec.toNat = value.toNat / 176 := by
    rw [UInt64.toNat_toBitVec, UInt64.toNat_div]
    rfl
  rw [quotient] at written
  rw [← Int64.toInt_toBitVec, UInt64.toBitVec_toInt64, written, if_pos (by omega)]

/-- A moment of a machine booted at `boot`, in units of 100 ns: what `sysinfo` and `gettimeofday`
give when this much time has elapsed since then. -/
structure Moment (boot : Int) where
  elapsed : Nat
  now : Timeval
  info : Option Int64
  systemTime : (ntQuerySystemTime now).toInt = boot + elapsed
  wholeSeconds : (uptime info).toInt = (elapsed / 10000000 : Nat)

/-- What `NtQueryPerformanceCounter` counts: 21 for each unit of the time since the boot, taken for
1970, within the second that has begun. -/
def Moment.counted {boot : Int} (moment : Moment boot) : Int :=
  21 * (boot - 116444736000000000 + (moment.elapsed % 10000000 : Nat))

theorem toNat_startTime {boot : Int} (moment : Moment boot) :
    ((uptime moment.info).toInt64.toUInt64 * ticksPerSec + ticks1601To1970.toUInt64).toNat =
      (moment.elapsed / 10000000 * 10000000 + 116444736000000000) % 2 ^ 64 := by
  have seconds := toNat_toUInt64 (uptime moment.info).toInt64
  rw [Int32.toInt_toInt64, moment.wholeSeconds] at seconds
  have bound := (uptime moment.info).toInt_lt
  rw [moment.wholeSeconds] at bound
  have same : (uptime moment.info).toInt64.toUInt64.toNat = moment.elapsed / 10000000 := by omega
  rw [UInt64.toNat_add, UInt64.toNat_mul, same]
  change (moment.elapsed / 10000000 * 10000000 % 2 ^ 64 + 116444736000000000) % 2 ^ 64 = _
  omega

theorem toInt_value {boot : Int} (moment : Moment boot) :
    ((((ntQuerySystemTime moment.now).toUInt64 -
      ((uptime moment.info).toInt64.toUInt64 * ticksPerSec + ticks1601To1970.toUInt64)) * 21 / 176
        ).toInt64).toInt = moment.counted % 2 ^ 64 / 176 := by
  have system := toNat_toUInt64 (ntQuerySystemTime moment.now)
  rw [moment.systemTime] at system
  rw [toInt_toInt64_div, UInt64.toNat_mul, UInt64.toNat_sub, toNat_startTime, Moment.counted]
  change (((_ * 21 % 2 ^ 64) / 176 : Nat) : Int) = _
  omega

/-! ### Two values -/

/-- Two moments of one machine, the second not before the first. -/
structure Interval (boot : Int) where
  first : Moment boot
  second : Moment boot
  ordered : first.elapsed ≤ second.elapsed

/-- The value that `NtQueryPerformanceCounter` stores at a moment. -/
def Moment.counter {boot : Int} (moment : Moment boot) (frequency : Bool) : Option Int64 :=
  (ntQueryPerformanceCounter true frequency moment.info moment.now).performanceCounter

/-- Two values are stored, the second is not less than the first, and 176 times their difference is
21 times the time between, up to the rounding. -/
def Interval.IsClock {boot : Int} (interval : Interval boot) (frequency : Bool) : Prop :=
  ∃ first second : Int64,
    interval.first.counter frequency = some first ∧
      interval.second.counter frequency = some second ∧
      first ≤ second ∧
      176 * (second.toInt - first.toInt) <
        21 * (interval.second.elapsed - interval.first.elapsed : Int) + 176 ∧
      21 * (interval.second.elapsed - interval.first.elapsed : Int) <
        176 * (second.toInt - first.toInt) + 176

/-- How often what is counted wraps around 64 bits, when this much time has elapsed since the
boot. -/
def wraps (boot : Int) (elapsed : Nat) : Int :=
  21 * (boot - 116444736000000000 + (elapsed % 10000000 : Nat)) / 2 ^ 64

theorem elapsed_lt {boot : Int} (moment : Moment boot) :
    moment.elapsed < 2 ^ 31 * 10000000 := by
  have bound := (uptime moment.info).toInt_lt
  rw [moment.wholeSeconds] at bound
  omega

theorem counter_eq {boot : Int} (moment : Moment boot) (frequency : Bool) :
    ∃ value : Int64, moment.counter frequency = some value ∧
      value.toInt = moment.counted % 2 ^ 64 / 176 :=
  ⟨_, rfl, toInt_value moment⟩

theorem isClock_iff_counted {boot : Int} (interval : Interval boot) (frequency : Bool) :
    interval.IsClock frequency ↔
      interval.first.counted % 2 ^ 64 / 176 ≤ interval.second.counted % 2 ^ 64 / 176 ∧
      176 * (interval.second.counted % 2 ^ 64 / 176 - interval.first.counted % 2 ^ 64 / 176) <
        21 * (interval.second.elapsed - interval.first.elapsed : Int) + 176 ∧
      21 * (interval.second.elapsed - interval.first.elapsed : Int) <
        176 * (interval.second.counted % 2 ^ 64 / 176 - interval.first.counted % 2 ^ 64 / 176) +
          176 := by
  obtain ⟨first, storedFirst, firstValue⟩ := counter_eq interval.first frequency
  obtain ⟨second, storedSecond, secondValue⟩ := counter_eq interval.second frequency
  rw [← firstValue, ← secondValue, ← Int64.le_iff_toInt_le]
  constructor
  · rintro ⟨first', second', storedFirst', storedSecond', clock⟩
    rw [storedFirst, Option.some.injEq] at storedFirst'
    rw [storedSecond, Option.some.injEq] at storedSecond'
    rw [storedFirst', storedSecond']
    exact clock
  · intro clock
    exact ⟨first, second, storedFirst, storedSecond, clock⟩

/-- The counter is a clock between two moments exactly when both lie in the same second since the
boot, and it does not wrap around in between. -/
theorem isClock_iff {boot : Int} (interval : Interval boot) (frequency : Bool) :
    interval.IsClock frequency ↔
      interval.first.elapsed / 10000000 = interval.second.elapsed / 10000000 ∧
        wraps boot interval.first.elapsed = wraps boot interval.second.elapsed := by
  have ordered := interval.ordered
  have firstBound := elapsed_lt interval.first
  have secondBound := elapsed_lt interval.second
  rw [isClock_iff_counted]
  have firstWraps : interval.first.counted / 2 ^ 64 = wraps boot interval.first.elapsed := rfl
  have secondWraps : interval.second.counted / 2 ^ 64 = wraps boot interval.second.elapsed := rfl
  have firstCounted : interval.first.counted =
      21 * (boot - 116444736000000000 + (interval.first.elapsed % 10000000 : Nat)) := rfl
  have secondCounted : interval.second.counted =
      21 * (boot - 116444736000000000 + (interval.second.elapsed % 10000000 : Nat)) := rfl
  -- The two wrap at most once more or less often, for less than a second lies between them.
  have near : wraps boot interval.second.elapsed = wraps boot interval.first.elapsed - 1 ∨
      wraps boot interval.second.elapsed = wraps boot interval.first.elapsed ∨
      wraps boot interval.second.elapsed = wraps boot interval.first.elapsed + 1 := by
    omega
  constructor
  · rintro ⟨_, above, below⟩
    rcases near with less | same | more
    all_goals omega
  · rintro ⟨sameSecond, sameWrap⟩
    omega

/-- The last moment at which `gettimeofday` gives a time within the first second, on a machine
booted in June 2022. -/
def lastOfSecond : Moment 133000000000000000 where
  elapsed := 9999990
  now := { tvSec := 1655526400, tvUsec := 999999 }
  info := some 0
  systemTime := by decide
  wholeSeconds := by decide

/-- The next one, with which the second second begins. -/
def nextSecond : Moment 133000000000000000 where
  elapsed := 10000000
  now := { tvSec := 1655526401, tvUsec := 0 }
  info := some 1
  systemTime := by decide
  wholeSeconds := by decide

/-- The counter goes back when the second second begins. -/
theorem not_isClock :
    ¬ ∀ (boot : Int) (interval : Interval boot) (frequency : Bool),
      interval.IsClock frequency := by
  intro always
  have clock := (isClock_iff_counted _ _).mp
    (always _ { first := lastOfSecond, second := nextSecond, ordered := by decide } true)
  exact absurd clock.1 (by decide)

end Nloader.Time
