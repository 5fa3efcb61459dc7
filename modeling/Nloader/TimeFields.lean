/-
This file models `RtlTimeToTimeFields` of `src/libs/ntdll/timefields.c` and
`RtlSecondsSince1970ToTime` of `src/libs/ntdll/rtl.c`, and proves that the fields are those of
the Gregorian calendar.

The time is divided by an unsigned constant, so that it counts as unsigned: one that is negative
is a time tens of thousands of years later. An `int` expression that overflows has no value.
-/

import Nloader.Library.Calendar
import Nloader.Time

namespace Nloader.Time

open Calendar

/-! ### The functions -/

/-- `TIME_FIELDS`. -/
structure TimeFields where
  year : Int16
  month : Int16
  day : Int16
  hour : Int16
  minute : Int16
  second : Int16
  milliseconds : Int16
  weekday : Int16
  deriving DecidableEq

/-- `TICKSPERMSEC`. -/
def ticksPerMSec : UInt64 := 10000

/-- `SECSPERDAY`. -/
def secsPerDay : Int := 86400

/-- `SECSPERHOUR`. -/
def secsPerHour : Int := 3600

/-- `SECSPERMIN`. -/
def secsPerMin : Int := 60

/-- `EPOCHWEEKDAY`: "Jan 1, 1601 was Monday". -/
def epochWeekday : Int := 1

/-- `DAYSPERWEEK`. -/
def daysPerWeek : Int := 7

/-- `DAYSPERQUADRICENTENNIUM`. -/
def daysPerQuadricentennium : Int := 365 * 400 + 97

/-- `DAYSPERNORMALQUADRENNIUM`. -/
def daysPerNormalQuadrennium : Int := 365 * 4 + 1

/-- The value of an `int` expression. -/
def int (value : Int) : Option Int :=
  if -2 ^ 31 ≤ value ∧ value < 2 ^ 31 then some value else none

/-- The years, the day within the year and the months that are computed from a number of days, for
years that begin in March. -/
def split (days : Int) : Option (Int × Int × Int) := do
  let shifted ← int ((← int (4 * days)) + 1227)
  let tripled ← int (3 * shifted.tdiv daysPerQuadricentennium)
  let cleaps := (← int (tripled + 3)).tdiv 4
  let days ← int (days + (← int (28188 + cleaps)))
  let years := (← int ((← int (20 * days)) - 2442)).tdiv (5 * daysPerNormalQuadrennium)
  let yearday ← int (days - (← int (years * daysPerNormalQuadrennium)).tdiv 4)
  let months := (← int (64 * yearday)).tdiv 1959
  pure (years, yearday, months)

/-- The year, the month and the day that are computed from a number of days. -/
def dateFields (days : Int) : Option (Int × Int × Int) := do
  let (years, yearday, months) ← split days
  let day ← int (yearday - (← int (1959 * months)).tdiv 64)
  if months < 14 then
    pure (← int (years + 1524), ← int (months - 1), day)
  else
    pure (← int (years + 1525), ← int (months - 13), day)

/-- `RtlTimeToTimeFields`. -/
def rtlTimeToTimeFields (liTime : Int64) : Option TimeFields := do
  let milliseconds := liTime.toUInt64 % ticksPerSec / ticksPerMSec
  let time := (liTime.toUInt64 / ticksPerSec).toInt64.toInt
  let days := (Int32.ofInt (time.tdiv secsPerDay)).toInt
  let secondsInDay := time.tmod secsPerDay
  let secondsInHour := secondsInDay.tmod secsPerHour
  let weekday := (← int (epochWeekday + days)).tmod daysPerWeek
  let (year, month, day) ← dateFields days
  pure
    { year := Int16.ofInt year
      month := Int16.ofInt month
      day := Int16.ofInt day
      hour := Int16.ofInt (secondsInDay.tdiv secsPerHour)
      minute := Int16.ofInt (secondsInHour.tdiv secsPerMin)
      second := Int16.ofInt (secondsInHour.tmod secsPerMin)
      milliseconds := milliseconds.toUInt16.toInt16
      weekday := Int16.ofInt weekday }

/-- `RtlSecondsSince1970ToTime`: the two halves that it stores, as one value. -/
def rtlSecondsSince1970ToTime (seconds : UInt32) : Int64 :=
  (seconds.toUInt64 * ticksPerSec + Sync.ticks1601To1970.toUInt64).toInt64

example : rtlTimeToTimeFields (rtlSecondsSince1970ToTime 951782400) =
    some ⟨2000, 2, 29, 0, 0, 0, 0, 2⟩ := by decide

/-! ### Years that begin in March -/

/-- The days from the last February to a date, counted on from 122. -/
def yearday (date : Date) : Nat := 1959 * date.marchMonth / 64 + date.day

/-- The day in its year determines the month of a date. -/
theorem yearday_holds (date : Date) (positive : 0 < date.year) :
    123 ≤ yearday date ∧ 64 * yearday date / 1959 = date.marchMonth ∧
      (yearday date ≤ 487 ∨ yearday date = 488 ∧ Leap (date.marchYear + 1)) := by
  obtain ⟨year, month, day, ⟨low, high⟩, first, last⟩ := date
  change 0 < year at positive
  simp only [yearday, Date.marchMonth, Date.marchYear]
  interval_cases month
  · simp [monthLength] at last ⊢
    omega
  · by_cases leap : Leap year
    · have same : year - 1 + 1 = year := Nat.sub_add_cancel positive
      simp [monthLength, leap, same] at last ⊢
      omega
    · simp [monthLength, leap] at last ⊢
      omega
  all_goals
    simp [monthLength] at last ⊢
    omega

/-- The first date of the calendar. -/
def epoch : Date :=
  ⟨1601, 1, 1, january_valid, ⟨Nat.le_refl 1, monthLength_pos 1601 1⟩⟩

/-- The leap days that are left out, up to a date. -/
def cleaps (days : Nat) : Nat := (3 * ((4 * days + 1227) / 146097) + 3) / 4

/-- The parts of a year in the calendar: cycles of 400 years, full centuries in the cycle, cycles of
4 years in the century, and years in that cycle. -/
theorem exists_parts (year : Nat) : ∃ a b s t, year = 400 * a + 100 * b + 4 * s + t ∧
    b ≤ 3 ∧ s ≤ 24 ∧ t ≤ 3 ∧ year / 4 = 100 * a + 25 * b + s ∧ year / 100 = 4 * a + b ∧
    year / 400 = a ∧ (Leap (year + 1) → t = 3 ∧ (s = 24 → b = 3)) := by
  refine ⟨year / 400, year % 400 / 100, year % 100 / 4, year % 4, ?_, ?_, ?_, ?_, ?_, ?_, rfl,
    fun leap => ?_⟩
  · omega
  · omega
  · omega
  · omega
  · omega
  · omega
  · unfold Leap at leap
    omega

/-- The century of a date in the calendar of the source. -/
theorem century_eq {a b s t j days : Nat} (fewB : b ≤ 3) (fewS : s ≤ 24) (fewT : t ≤ 3)
    (low : 123 ≤ j) (high : j ≤ 487 ∨ j = 488 ∧ t = 3 ∧ (s = 24 → b = 3)) (late : 4 ≤ a)
    (number : 365 * (400 * a + 100 * b + 4 * s + t) + (100 * a + 25 * b + s) + j + a =
      days + 584817 + (4 * a + b)) :
    cleaps days + 12 = 3 * a + b := by
  have century : (4 * days + 1227) / 146097 + 16 = 4 * a + b := by
    refine Eq.trans (congrArg (· + 16) ?_) (Nat.sub_add_cancel (show 16 ≤ 4 * a + b by omega))
    refine Nat.div_eq_of_lt_le ?_ ?_ <;> omega
  unfold cleaps
  omega

/-- A number of days, with those counted that are left out, is that of a date in the calendar where
every fourth year is a leap year. -/
theorem inverse {date : Date} {days : Nat} (late : 1601 ≤ date.year)
    (number : date.number = days + epoch.number) :
    (20 * (days + (28188 + cleaps days)) - 2442) / 7305 + 1524 = date.marchYear ∧
      days + (28188 + cleaps days) =
        ((20 * (days + (28188 + cleaps days)) - 2442) / 7305) * 1461 / 4 + yearday date := by
  obtain ⟨low, _, high⟩ := yearday_holds date (by omega)
  have year : 1600 ≤ date.marchYear := by
    unfold Date.marchYear
    split <;> omega
  have numbered : 365 * date.marchYear + date.marchYear / 4 + yearday date + date.marchYear / 400 =
      days + 584817 + date.marchYear / 100 := by
    have start : epoch.number = 584817 := rfl
    have less : date.marchYear / 100 ≤ date.marchYear := Nat.div_le_self _ _
    rw [start] at number
    unfold Date.number at number
    unfold yearday
    omega
  obtain ⟨a, b, s, t, whole, fewB, fewS, fewT, quarters, centuries, cycles, leap⟩ :=
    exists_parts date.marchYear
  rw [quarters, centuries, cycles] at numbered
  have high' : yearday date ≤ 487 ∨ yearday date = 488 ∧ t = 3 ∧ (s = 24 → b = 3) :=
    high.imp id fun last => ⟨last.1, leap last.2⟩
  generalize yearday date = j at low high' numbered ⊢
  generalize date.marchYear = y at year whole numbered ⊢
  subst whole
  have omitted := century_eq fewB fewS fewT low high' (by omega) numbered
  generalize cleaps days = c at omitted ⊢
  have julian : days + (28188 + c) =
      365 * (400 * a + 100 * b + 4 * s + t - 1524) + (100 * a + 25 * b + s - 381) + j := by
    omega
  rw [julian]
  obtain ⟨u, years, quarters'⟩ : ∃ u, 400 * a + 100 * b + 4 * s + t - 1524 = 4 * u + t ∧
      100 * a + 25 * b + s - 381 = u := ⟨100 * a + 25 * b + s - 381, by omega, rfl⟩
  rw [years, quarters']
  have found : (20 * (365 * (4 * u + t) + u + j) - 2442) / 7305 = 4 * u + t := by
    refine Nat.div_eq_of_lt_le ?_ ?_ <;> omega
  rw [found]
  exact ⟨by omega, by omega⟩

/-- An `int` expression within the bounds has its value. -/
theorem int_eq {value : Int} (low : -2 ^ 31 ≤ value) (high : value < 2 ^ 31) :
    int value = some value :=
  if_pos ⟨low, high⟩

/-- What the source computes from a number of days, for the date that comes this many days after
the first one. -/
theorem split_eq {date : Date} {days : Nat} (late : 1601 ≤ date.year)
    (number : date.number = days + epoch.number) (few : days < 2 ^ 25) :
    split days =
      some (((date.marchYear - 1524 : Nat) : Int), (yearday date : Int),
        (date.marchMonth : Int)) := by
  obtain ⟨years, julian⟩ := inverse late number
  obtain ⟨low, months, high⟩ := yearday_holds date (by omega)
  have bounded : (3 * ((4 * days + 1227) / 146097) + 3) / 4 ≤ days + 1 := by omega
  have century : ((4 : Int) * days + 1227).tdiv daysPerQuadricentennium =
      ((4 * days + 1227) / 146097 : Nat) :=
    (Int.tdiv_eq_ediv_of_nonneg (by omega)).trans (Int.natCast_ediv (4 * days + 1227) 146097).symm
  have omitted : ((3 : Int) * ((4 * days + 1227) / 146097 : Nat) + 3).tdiv 4 = cleaps days :=
    (Int.tdiv_eq_ediv_of_nonneg (by omega)).trans
      (Int.natCast_ediv (3 * ((4 * days + 1227) / 146097) + 3) 4).symm
  change cleaps days ≤ days + 1 at bounded
  have julianYear : ((20 : Int) * (days + (28188 + cleaps days)) - 2442).tdiv
      (5 * daysPerNormalQuadrennium) = (date.marchYear - 1524 : Nat) := by
    refine (Int.tdiv_eq_ediv_of_nonneg (by omega)).trans ?_
    change _ / (7305 : Int) = _
    omega
  have quarters : (((date.marchYear - 1524 : Nat) : Int) * daysPerNormalQuadrennium).tdiv 4 =
      ((date.marchYear - 1524) * 1461 / 4 : Nat) :=
    (Int.tdiv_eq_ediv_of_nonneg (by unfold daysPerNormalQuadrennium; omega)).trans
      (Int.natCast_ediv ((date.marchYear - 1524) * 1461) 4).symm
  have month : ((64 : Int) * yearday date).tdiv 1959 = date.marchMonth := by
    rw [Int.tdiv_eq_ediv_of_nonneg (by omega), ← months]
    exact (Int.natCast_ediv (64 * yearday date) 1959).symm
  have rest : (days : Int) + (28188 + cleaps days) -
      ((date.marchYear - 1524) * 1461 / 4 : Nat) = yearday date := by omega
  have few' : (20 : Int) * (days + (28188 + cleaps days)) < 2 ^ 31 := by omega
  unfold split
  simp only [Option.bind_eq_bind]
  rw [int_eq (by omega) (by omega), Option.bind_some, int_eq (by omega) (by omega),
    Option.bind_some, century, int_eq (by omega) (by omega), Option.bind_some,
    int_eq (by omega) (by omega), Option.bind_some, omitted, int_eq (by omega) (by omega),
    Option.bind_some, int_eq (by omega) (by omega), Option.bind_some,
    int_eq (by omega) few', Option.bind_some, int_eq (by omega) (by omega), Option.bind_some,
    julianYear, int_eq (by unfold daysPerNormalQuadrennium; omega)
      (by unfold daysPerNormalQuadrennium; omega), Option.bind_some, quarters, rest,
    int_eq (by omega) (by omega), Option.bind_some, int_eq (by omega) (by omega),
    Option.bind_some, month]
  rfl

/-! ### The fields -/

theorem toInt_toInt64 {value : UInt64} (small : value.toNat < 2 ^ 63) :
    value.toInt64.toInt = value.toNat := by
  have written := BitVec.toInt_eq_toNat_cond value.toBitVec
  rw [UInt64.toNat_toBitVec, if_pos (by omega)] at written
  rw [← Int64.toInt_toBitVec, UInt64.toBitVec_toInt64, written]

theorem toInt_toInt16 {value : UInt16} (small : value.toNat < 2 ^ 15) :
    value.toInt16.toInt = value.toNat := by
  have written := BitVec.toInt_eq_toNat_cond value.toBitVec
  rw [UInt16.toNat_toBitVec, if_pos (by omega)] at written
  rw [← Int16.toInt_toBitVec, UInt16.toBitVec_toInt16, written]

theorem int16_eq {value : Int} (low : 0 ≤ value) (high : value < 2 ^ 15) :
    (Int16.ofInt value).toInt = value :=
  Int16.toInt_ofInt_of_le (by omega) high

/-- The day of the month that is stored. -/
theorem day_eq (date : Date) :
    (do int ((yearday date : Int) - (← int (1959 * date.marchMonth)).tdiv 64)) =
      some (date.day : Int) := by
  obtain ⟨low, high⟩ := date.monthValid
  have few : date.marchMonth ≤ 15 := by
    unfold Date.marchMonth
    split <;> omega
  have length : date.day ≤ 31 := date.dayValid.2.trans (by unfold monthLength; split_ifs <;> omega)
  have whole : ((1959 : Int) * date.marchMonth).tdiv 64 = (1959 * date.marchMonth / 64 : Nat) :=
    (Int.tdiv_eq_ediv_of_nonneg (by omega)).trans (Int.natCast_ediv (1959 * _) 64).symm
  have rest : (yearday date : Int) - (1959 * date.marchMonth / 64 : Nat) = date.day := by
    unfold yearday
    omega
  rw [int_eq (by omega) (by omega)]
  change int (_ - ((1959 : Int) * date.marchMonth).tdiv 64) = _
  rw [whole, rest, int_eq (by omega) (by omega)]

/-- The date that is stored. -/
theorem dateFields_eq {date : Date} {days : Nat} (late : 1601 ≤ date.year)
    (early : date.year < 2 ^ 30) (number : date.number = days + epoch.number)
    (few : days < 2 ^ 25) :
    dateFields days = some ((date.year : Int), (date.month : Int), (date.day : Int)) := by
  obtain ⟨low, high⟩ := date.monthValid
  have early' : date.year < 1073741824 := early
  have day := day_eq date
  unfold dateFields
  simp only [Option.bind_eq_bind] at day ⊢
  rw [split_eq late number few, Option.bind_some]
  simp only [← Option.bind_assoc]
  rw [day, Option.bind_some]
  unfold Date.marchMonth Date.marchYear
  by_cases spring : 3 ≤ date.month
  · have month : ((date.month + 1 : Nat) : Int) - 1 = date.month := by omega
    have year : ((date.year - 1524 : Nat) : Int) + 1524 = date.year := by omega
    rw [if_pos spring, if_pos spring, if_pos (by omega), month, year,
      int_eq (by omega) (by omega), int_eq (by omega) (by omega)]
    rfl
  · have month : ((date.month + 13 : Nat) : Int) - 13 = date.month := by omega
    have year : ((date.year - 1 - 1524 : Nat) : Int) + 1525 = date.year := by omega
    rw [if_neg spring, if_neg spring, if_neg (by omega), month, year,
      int_eq (by omega) (by omega), int_eq (by omega) (by omega)]
    rfl

/-- The parts of a number of seconds. -/
theorem clock_eq (seconds : Nat) :
    (seconds : Int).tdiv secsPerDay = (seconds / 86400 : Nat) ∧
      ((seconds : Int).tmod secsPerDay).tdiv secsPerHour = (seconds / 3600 % 24 : Nat) ∧
      (((seconds : Int).tmod secsPerDay).tmod secsPerHour).tdiv secsPerMin =
        (seconds / 60 % 60 : Nat) ∧
      (((seconds : Int).tmod secsPerDay).tmod secsPerHour).tmod secsPerMin =
        (seconds % 60 : Nat) := by
  have inDay : (seconds : Int).tmod secsPerDay = (seconds % 86400 : Nat) := rfl
  have inHour : ((seconds % 86400 : Nat) : Int).tmod secsPerHour =
      (seconds % 86400 % 3600 : Nat) := rfl
  rw [inDay, inHour]
  refine ⟨Int.natCast_tdiv_eq_ediv, ?_, ?_, ?_⟩
  · refine Int.natCast_tdiv_eq_ediv.trans ?_
    change ((seconds % 86400 : Nat) : Int) / 3600 = _
    omega
  · refine Int.natCast_tdiv_eq_ediv.trans ?_
    change ((seconds % 86400 % 3600 : Nat) : Int) / 60 = _
    omega
  · change ((seconds % 86400 % 3600 % 60 : Nat) : Int) = _
    omega

/-- The seconds of a time. -/
theorem seconds_eq (time : UInt64) :
    (time / ticksPerSec).toInt64.toInt = (time.toNat / 10000000 : Nat) := by
  have bound := time.toNat_lt
  have quotient : (time / ticksPerSec).toNat = time.toNat / 10000000 := UInt64.toNat_div _ _
  rw [toInt_toInt64 (by omega), quotient]

/-- The milliseconds of a time. -/
theorem milliseconds_eq (time : UInt64) :
    (time % ticksPerSec / ticksPerMSec).toUInt16.toInt16.toInt =
      (time.toNat / 10000 % 1000 : Nat) := by
  have value : (time % ticksPerSec / ticksPerMSec).toNat = time.toNat % 10000000 / 10000 := by
    rw [UInt64.toNat_div, UInt64.toNat_mod]
    rfl
  have short : (time % ticksPerSec / ticksPerMSec).toUInt16.toNat =
      time.toNat / 10000 % 1000 := by
    rw [UInt64.toNat_toUInt16, value]
    omega
  rw [toInt_toInt16 (by omega), short]

/-- A date whose number is small is an early one. -/
theorem year_lt {date : Date} {days : Nat} (number : date.number = days + epoch.number)
    (few : days < 2 ^ 25) : date.year < 2 ^ 30 := by
  have start : epoch.number = 584817 := rfl
  rw [start] at number
  unfold Date.number Date.marchYear at number
  split at number <;> omega

/-- The fields that are stored for a time, for the date that comes that many whole days after the
first one. -/
theorem fields_eq (liTime : Int64) {ticks : Nat} (given : liTime.toUInt64.toNat = ticks)
    {date : Date} (later : epoch.later (ticks / 864000000000) = date) :
    rtlTimeToTimeFields liTime = some
      { year := Int16.ofInt date.year
        month := Int16.ofInt date.month
        day := Int16.ofInt date.day
        hour := Int16.ofInt (ticks / 36000000000 % 24 : Nat)
        minute := Int16.ofInt (ticks / 600000000 % 60 : Nat)
        second := Int16.ofInt (ticks / 10000000 % 60 : Nat)
        milliseconds := Int16.ofInt (ticks / 10000 % 1000 : Nat)
        weekday := Int16.ofInt ((1 + ticks / 864000000000) % 7 : Nat) } := by
  have bound := liTime.toUInt64.toNat_lt
  have millis := milliseconds_eq liTime.toUInt64
  obtain ⟨quotient, hour, minute, second⟩ := clock_eq (liTime.toUInt64.toNat / 10000000)
  unfold rtlTimeToTimeFields
  simp only [seconds_eq, hour, minute, second, quotient]
  rw [given] at bound millis ⊢
  generalize (liTime.toUInt64 % ticksPerSec / ticksPerMSec).toUInt16.toInt16 = milliseconds
    at millis ⊢
  simp only [Nat.div_div_eq_div_mul, Nat.reduceMul]
  have few : ticks / 864000000000 < 2 ^ 25 := by omega
  have late := epoch.year_later (ticks / 864000000000)
  have number := epoch.number_later (by decide) (ticks / 864000000000)
  rw [later] at late number
  generalize ticks / 864000000000 = count at few number ⊢
  rw [Nat.add_comm] at number
  have dayCount : (Int32.ofInt (count : Int)).toInt = count :=
    Int32.toInt_ofInt_of_le (by omega) (by omega)
  have weekday : (epochWeekday + (count : Int)).tmod daysPerWeek = ((1 + count) % 7 : Nat) := rfl
  have low : -2 ^ 31 ≤ epochWeekday + (count : Int) := by
    unfold epochWeekday
    omega
  have high : epochWeekday + (count : Int) < 2 ^ 31 := by
    unfold epochWeekday
    omega
  rw [dayCount, int_eq low high, dateFields_eq late (year_lt number few) number few, ← weekday,
    ← millis, Int16.ofInt_toInt]
  rfl

/-- The days and the months fit into their fields. -/
theorem fits (date : Date) : (date.day : Int) < 2 ^ 15 ∧ (date.month : Int) < 2 ^ 15 := by
  have length : date.day ≤ 31 :=
    date.dayValid.2.trans (by unfold monthLength; split_ifs <;> omega)
  have high := date.monthValid.2
  omega

/-- The fields of any time at all are those of the Gregorian calendar: the date that comes that
many whole days after January 1, 1601, and the time of day. -/
theorem rtlTimeToTimeFields_calendar (liTime : Int64) :
    ∃ fields, rtlTimeToTimeFields liTime = some fields ∧
      fields.year =
        Int16.ofNat (epoch.later (liTime.toUInt64.toNat / 864000000000)).year ∧
      fields.month.toInt = (epoch.later (liTime.toUInt64.toNat / 864000000000)).month ∧
      fields.day.toInt = (epoch.later (liTime.toUInt64.toNat / 864000000000)).day ∧
      fields.hour.toInt = (liTime.toUInt64.toNat / 36000000000 % 24 : Nat) ∧
      fields.minute.toInt = (liTime.toUInt64.toNat / 600000000 % 60 : Nat) ∧
      fields.second.toInt = (liTime.toUInt64.toNat / 10000000 % 60 : Nat) ∧
      fields.milliseconds.toInt = (liTime.toUInt64.toNat / 10000 % 1000 : Nat) ∧
      fields.weekday.toInt = ((1 + liTime.toUInt64.toNat / 864000000000) % 7 : Nat) := by
  obtain ⟨day, month⟩ := fits (epoch.later (liTime.toUInt64.toNat / 864000000000))
  refine ⟨_, fields_eq liTime rfl rfl, Int16.ofInt_eq_ofNat, int16_eq (Int.natCast_nonneg _) month,
    int16_eq (Int.natCast_nonneg _) day, int16_eq ?_ ?_, int16_eq ?_ ?_, int16_eq ?_ ?_,
    int16_eq ?_ ?_, int16_eq ?_ ?_⟩ <;> omega

/-! ### Seconds since 1970 -/

/-- Two dates with one number are the same. -/
theorem eq_of_number {date other : Date} {days : Nat} (late : 1601 ≤ date.year)
    (late' : 1601 ≤ other.year) (few : days < 2 ^ 25)
    (number : date.number = days + epoch.number) (number' : other.number = days + epoch.number) :
    date = other := by
  have fields := dateFields_eq late (year_lt number few) number few
  rw [dateFields_eq late' (year_lt number' few) number' few] at fields
  injection fields with fields
  injection fields with year fields
  injection fields with month day
  exact Date.ext (by omega) (by omega) (by omega)

/-- The date that the seconds are counted from. -/
def unixEpoch : Date :=
  ⟨1970, 1, 1, january_valid, ⟨Nat.le_refl 1, monthLength_pos 1970 1⟩⟩

theorem later_unixEpoch : epoch.later 134774 = unixEpoch := by
  refine eq_of_number (epoch.year_later _) (by decide) (by decide : 134774 < 2 ^ 25) ?_ (by decide)
  rw [epoch.number_later (by decide), Nat.add_comm]

/-- The time for a number of seconds shows the date that comes that many whole days after
January 1, 1970, and the time of day. -/
theorem rtlSecondsSince1970ToTime_calendar (seconds : UInt32) :
    ∃ fields, rtlTimeToTimeFields (rtlSecondsSince1970ToTime seconds) = some fields ∧
      fields.year.toInt = (unixEpoch.later (seconds.toNat / 86400)).year ∧
      fields.month.toInt = (unixEpoch.later (seconds.toNat / 86400)).month ∧
      fields.day.toInt = (unixEpoch.later (seconds.toNat / 86400)).day ∧
      fields.hour.toInt = (seconds.toNat / 3600 % 24 : Nat) ∧
      fields.minute.toInt = (seconds.toNat / 60 % 60 : Nat) ∧
      fields.second.toInt = (seconds.toNat % 60 : Nat) ∧
      fields.milliseconds = 0 ∧
      fields.weekday.toInt = ((4 + seconds.toNat / 86400) % 7 : Nat) := by
  have bound := seconds.toNat_lt
  have ticks : (rtlSecondsSince1970ToTime seconds).toUInt64.toNat =
      seconds.toNat * 10000000 + 116444736000000000 := by
    unfold rtlSecondsSince1970ToTime
    rw [UInt64.toUInt64_toInt64, UInt64.toNat_add, UInt64.toNat_mul, UInt32.toNat_toUInt64]
    change (seconds.toNat * 10000000 % 2 ^ 64 + 116444736000000000) % 2 ^ 64 = _
    omega
  have days : (seconds.toNat * 10000000 + 116444736000000000) / 864000000000 =
      134774 + seconds.toNat / 86400 := by omega
  have later : epoch.later ((seconds.toNat * 10000000 + 116444736000000000) / 864000000000) =
      unixEpoch.later (seconds.toNat / 86400) := by
    rw [days, Date.later_add, later_unixEpoch]
  obtain ⟨day, month⟩ := fits (unixEpoch.later (seconds.toNat / 86400))
  have year : (unixEpoch.later (seconds.toNat / 86400)).year < 2 ^ 15 := by
    have number := unixEpoch.number_later (by decide) (seconds.toNat / 86400)
    have start : unixEpoch.number = 719591 := rfl
    rw [start] at number
    unfold Date.number Date.marchYear at number
    split at number <;> omega
  refine ⟨_, fields_eq _ ticks later, int16_eq (Int.natCast_nonneg _) (by omega),
    int16_eq (Int.natCast_nonneg _) month, int16_eq (Int.natCast_nonneg _) day,
    (int16_eq ?_ ?_).trans ?_, (int16_eq ?_ ?_).trans ?_, (int16_eq ?_ ?_).trans ?_, ?_,
    (int16_eq ?_ ?_).trans ?_⟩
  case refine_10 =>
    have none : (seconds.toNat * 10000000 + 116444736000000000) / 10000 % 1000 = 0 := by omega
    rw [none]
    rfl
  all_goals omega

end Nloader.Time
