/-
This file is a library of the Gregorian calendar. A date is a day that exists, every date has
a next one, and what a calendar is to give for a number of days is the date that comes that
many days after the first one. The dates are also numbered by a formula, with years that begin
in March so that the leap day is the last one of its year; the number of the next date is one
more, so that the formula counts the days from any date to any later one.

The library names nothing of the program it is used for.
-/

import Mathlib.Tactic

namespace Calendar

/-! ### Dates -/

/-- Every fourth year is a leap year, but of the full centuries only every fourth one. -/
def Leap (year : Nat) : Prop := year % 4 = 0 ∧ (year % 100 ≠ 0 ∨ year % 400 = 0)

instance (year : Nat) : Decidable (Leap year) :=
  inferInstanceAs (Decidable (year % 4 = 0 ∧ (year % 100 ≠ 0 ∨ year % 400 = 0)))

/-- The number of days in a month. -/
def monthLength (year month : Nat) : Nat :=
  if month = 2 then if Leap year then 29 else 28
  else if month = 4 ∨ month = 6 ∨ month = 9 ∨ month = 11 then 30
  else 31

theorem monthLength_pos (year month : Nat) : 0 < monthLength year month := by
  unfold monthLength
  split_ifs <;> omega

theorem january_valid : 1 ≤ 1 ∧ 1 ≤ 12 := ⟨Nat.le_refl 1, Nat.le_add_left 1 11⟩

/-- A day of the calendar. -/
@[ext] structure Date where
  year : Nat
  month : Nat
  day : Nat
  monthValid : 1 ≤ month ∧ month ≤ 12
  dayValid : 1 ≤ day ∧ day ≤ monthLength year month

/-- The day after a date. -/
def Date.tomorrow (date : Date) : Date :=
  if within : date.day < monthLength date.year date.month then
    { date with day := date.day + 1, dayValid := ⟨Nat.le_add_left 1 _, within⟩ }
  else if more : date.month < 12 then
    { year := date.year
      month := date.month + 1
      day := 1
      monthValid := ⟨Nat.le_add_left 1 _, more⟩
      dayValid := ⟨le_refl 1, monthLength_pos _ _⟩ }
  else
    { year := date.year + 1
      month := 1
      day := 1
      monthValid := ⟨le_refl 1, by decide⟩
      dayValid := ⟨le_refl 1, monthLength_pos _ _⟩ }

/-- The date a number of days later. -/
def Date.later (date : Date) (days : Nat) : Date := Date.tomorrow^[days] date

theorem Date.later_succ (date : Date) (days : Nat) :
    date.later (days + 1) = (date.later days).tomorrow :=
  Function.iterate_succ_apply' _ _ _

theorem Date.later_add (date : Date) (days more : Nat) :
    date.later (days + more) = (date.later days).later more := by
  unfold Date.later
  rw [Nat.add_comm, Function.iterate_add_apply]

/-! ### Numbers of dates -/

/-- The year of a date, when years begin in March. -/
def Date.marchYear (date : Date) : Nat := if 3 ≤ date.month then date.year else date.year - 1

/-- The month of a date, from 4 for March to 15 for February. -/
def Date.marchMonth (date : Date) : Nat :=
  if 3 ≤ date.month then date.month + 1 else date.month + 13

/-- A number for every date, one more for the next one. -/
def Date.number (date : Date) : Nat :=
  1461 * date.marchYear / 4 + 1959 * date.marchMonth / 64 + date.day + date.marchYear / 400 -
    date.marchYear / 100

/-- How a quotient grows from one year to the next. -/
theorem div_pred (year divisor : Nat) (positive : 0 < year) :
    year % divisor = 0 ∧ year / divisor = (year - 1) / divisor + 1 ∨
      year % divisor ≠ 0 ∧ year / divisor = (year - 1) / divisor := by
  obtain ⟨before, rfl⟩ : ∃ before, year = before + 1 := ⟨year - 1, by omega⟩
  rw [Nat.add_sub_cancel, Nat.succ_div]
  by_cases full : divisor ∣ before + 1
  · rw [if_pos full]
    exact .inl ⟨Nat.mod_eq_zero_of_dvd full, rfl⟩
  · rw [if_neg full, Nat.add_zero]
    exact .inr ⟨fun none => full (Nat.dvd_of_mod_eq_zero none), rfl⟩

/-- The first of March is numbered as the day after the last one of February. -/
theorem number_march (year : Nat) (positive : 0 < year) :
    1461 * year / 4 + 122 + 1 + year / 400 - year / 100 =
      1461 * (year - 1) / 4 + 459 + monthLength year 2 + (year - 1) / 400 -
        (year - 1) / 100 + 1 := by
  have days : ∀ years, 1461 * years / 4 = 365 * years + years / 4 := fun years => by omega
  have length : Leap year ∧ monthLength year 2 = 29 ∨ ¬ Leap year ∧ monthLength year 2 = 28 := by
    by_cases leap : Leap year
    · exact .inl ⟨leap, if_pos leap⟩
    · exact .inr ⟨leap, if_neg leap⟩
  have full : year % 100 = 0 → year % 4 = 0 := by omega
  have fuller : year % 400 = 0 → year % 100 = 0 := by omega
  have fewer : (year - 1) / 100 ≤ year - 1 := Nat.div_le_self _ _
  have quarters := div_pred year 4 positive
  have centuries := div_pred year 100 positive
  have cycles := div_pred year 400 positive
  rw [days, days]
  unfold Leap at length
  generalize monthLength year 2 = last at *
  generalize year / 4 = quarter, (year - 1) / 4 = quarter' at *
  generalize year / 100 = century, (year - 1) / 100 = century' at *
  generalize year / 400 = cycle, (year - 1) / 400 = cycle' at *
  generalize year % 4 = fourth, year % 100 = hundredth, year % 400 = rest at *
  omega

theorem Date.number_tomorrow (date : Date) (positive : 0 < date.year) :
    date.tomorrow.number = date.number + 1 := by
  obtain ⟨year, month, day, ⟨low, high⟩, first, last⟩ := date
  change 0 < year at positive
  unfold Date.tomorrow
  by_cases within : day < monthLength year month
  · rw [dif_pos within]
    simp only [Date.number, Date.marchYear, Date.marchMonth]
    split_ifs <;> omega
  · rw [dif_neg within]
    have ended : day = monthLength year month := Nat.le_antisymm last (Nat.not_lt.mp within)
    by_cases more : month < 12
    · rw [dif_pos more]
      simp only [Date.number, Date.marchYear, Date.marchMonth]
      interval_cases month
      · simp [monthLength] at ended ⊢; omega
      · have march := number_march year positive
        simp at ended ⊢
        omega
      all_goals simp [monthLength] at ended ⊢; omega
    · rw [dif_neg more]
      have december : month = 12 := Nat.le_antisymm high (Nat.not_lt.mp more)
      subst december
      simp [Date.number, Date.marchYear, Date.marchMonth, monthLength] at ended ⊢
      omega

theorem Date.year_tomorrow (date : Date) : date.year ≤ date.tomorrow.year := by
  unfold Date.tomorrow
  split
  · exact le_refl _
  · split
    · exact le_refl _
    · exact Nat.le_succ _

theorem Date.year_later (date : Date) (days : Nat) : date.year ≤ (date.later days).year := by
  induction days with
  | zero => exact le_refl _
  | succ days inductionHypothesis =>
    rw [Date.later_succ]
    exact inductionHypothesis.trans (Date.year_tomorrow _)

/-- The numbers count the days from a date to a later one. -/
theorem Date.number_later (date : Date) (positive : 0 < date.year) (days : Nat) :
    (date.later days).number = date.number + days := by
  induction days with
  | zero => rfl
  | succ days inductionHypothesis =>
    rw [Date.later_succ, Date.number_tomorrow _ (positive.trans_le (Date.year_later _ _)),
      inductionHypothesis, Nat.add_assoc]

end Calendar
