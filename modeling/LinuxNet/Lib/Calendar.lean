import Mathlib.Order.Monotone.Basic

/-!
# The proleptic Gregorian calendar

A date is a year, a month and a day that the calendar has (`Date`), and its
place in the sequence of days is `dayNumber`, counted from the first of January
of the year 0. It is built from the lengths of the years and of the months in
front of the date; `Date.dayNumber_mem_years` gives the day numbers of a run of years.
-/

namespace LinuxNet

/-! ## Years and months -/

/-- Every fourth year has a 29th of February, but of the full centuries every fourth only. -/
def LeapYear (year : Nat) : Prop := year % 4 = 0 ∧ (year % 100 ≠ 0 ∨ year % 400 = 0)

instance (year : Nat) : Decidable (LeapYear year) := by
  unfold LeapYear; infer_instance

def daysInYear (year : Nat) : Nat := if LeapYear year then 366 else 365

/-- The days in front of a year. -/
def daysBeforeYear : Nat → Nat
  | 0 => 0
  | year + 1 => daysBeforeYear year + daysInYear year

/-- The days of a month, counted from 1. -/
def daysInMonth (year month : Nat) : Nat :=
  if month = 2 then if LeapYear year then 29 else 28
  else if month = 4 ∨ month = 6 ∨ month = 9 ∨ month = 11 then 30
  else 31

/-- The days of a year in front of a month. -/
def daysBeforeMonth (year : Nat) : Nat → Nat
  | 0 => 0
  | 1 => 0
  | month + 2 => daysBeforeMonth year (month + 1) + daysInMonth year (month + 1)

/-- The days in front of a year, by the cycles of its number. -/
theorem daysBeforeYear_succ (year : Nat) :
    daysBeforeYear (year + 1) + year / 100 = 365 * (year + 1) + year / 4 + year / 400 + 1 := by
  induction year with
  | zero => rfl
  | succ year ih =>
    rw [daysBeforeYear, daysInYear]
    -- the cycles move on with the leap years
    by_cases h : LeapYear (year + 1)
    · rw [if_pos h]
      unfold LeapYear at h
      omega
    · rw [if_neg h]
      unfold LeapYear at h
      omega

theorem daysBeforeYear_eq {year : Nat} (h : 1 ≤ year) :
    daysBeforeYear year =
      365 * year + (year - 1) / 4 + (year - 1) / 400 + 1 - (year - 1) / 100 := by
  have hsucc := daysBeforeYear_succ (year - 1)
  rw [Nat.sub_add_cancel h] at hsucc
  exact Nat.eq_sub_of_add_eq hsucc

theorem daysBeforeYear_mono : Monotone daysBeforeYear :=
  monotone_nat_of_le_succ fun year => Nat.le_add_right _ (daysInYear year)

/-- The months of a year fill it. -/
theorem daysBeforeMonth_thirteen (year : Nat) : daysBeforeMonth year 13 = daysInYear year := by
  by_cases h : LeapYear year <;> simp [daysBeforeMonth, daysInMonth, daysInYear, h]

theorem daysBeforeMonth_succ {year month : Nat} (h : 1 ≤ month) :
    daysBeforeMonth year (month + 1) = daysBeforeMonth year month + daysInMonth year month := by
  cases month with
  | zero => exact absurd h (by decide)
  | succ month => rfl

theorem daysBeforeMonth_mono (year : Nat) : Monotone (daysBeforeMonth year) := by
  refine monotone_nat_of_le_succ fun month => ?_
  cases month with
  | zero => exact Nat.le_refl _
  | succ month => exact Nat.le_add_right _ _

/-! ## Dates -/

/-- A date of the calendar. -/
structure Date where
  year : Nat
  month : Nat
  day : Nat
  month_pos : 1 ≤ month
  month_le : month ≤ 12
  day_pos : 1 ≤ day
  day_le : day ≤ daysInMonth year month

namespace Date

/-- The number of the day, from the first of January of the year 0 on. -/
def dayNumber (d : Date) : Nat :=
  daysBeforeYear d.year + daysBeforeMonth d.year d.month + (d.day - 1)

/-- A date is within its year. -/
theorem dayNumber_lt (d : Date) : dayNumber d < daysBeforeYear (d.year + 1) := by
  have hmonth := daysBeforeMonth_mono d.year (Nat.succ_le_succ d.month_le)
  rw [Nat.succ_eq_add_one, daysBeforeMonth_succ d.month_pos, daysBeforeMonth_thirteen] at hmonth
  have hpos := d.day_pos
  have hle := d.day_le
  rw [dayNumber, daysBeforeYear]
  omega

theorem le_dayNumber (d : Date) : daysBeforeYear d.year ≤ dayNumber d := by
  unfold dayNumber
  omega

/-- The dates of some years in a row are the days in front of the year after them that are not
in front of the first. -/
theorem dayNumber_mem_years {d : Date} {first last : Nat} (h1 : first ≤ d.year)
    (h2 : d.year ≤ last) :
    daysBeforeYear first ≤ dayNumber d ∧ dayNumber d < daysBeforeYear (last + 1) :=
  ⟨(daysBeforeYear_mono h1).trans d.le_dayNumber,
    d.dayNumber_lt.trans_le (daysBeforeYear_mono (Nat.succ_le_succ h2))⟩

end Date

end LinuxNet
