import Mathlib.Algebra.GroupWithZero.Nat
import Mathlib.Data.Int.Notation
import Mathlib.Data.List.Basic

/-!
# The Gregorian calendar

Dates of the proleptic Gregorian calendar, in years of any sign, and the number of days from
1970-01-01.
-/

namespace Calendar

/-- A year that is a multiple of 4, but for the centuries that are none of 400. -/
def IsLeap (year : ℤ) : Prop := year % 4 = 0 ∧ (year % 100 ≠ 0 ∨ year % 400 = 0)

instance (year : ℤ) : Decidable (IsLeap year) := inferInstanceAs (Decidable (_ ∧ _))

def daysInMonth (year : ℤ) (month : ℕ) : ℕ :=
  if month = 2 then if IsLeap year then 29 else 28
  else if month = 4 ∨ month = 6 ∨ month = 9 ∨ month = 11 then 30
  else 31

/-- A day of a month of a year. -/
def IsDate (year : ℤ) (month day : ℕ) : Prop := 1 ≤ month ∧ month ≤ 12 ∧ 1 ≤ day ∧ day ≤ daysInMonth year month

instance (year : ℤ) (month day : ℕ) : Decidable (IsDate year month day) := inferInstanceAs (Decidable (_ ∧ _))

/-- How many years up to the given one are leap years, counted from the year 1. -/
def leapsThrough (year : ℤ) : ℤ := year / 4 - year / 100 + year / 400

def daysBefore (year : ℤ) (month : ℕ) : ℕ := ((List.range' 1 (month - 1)).map (daysInMonth year)).sum

/-- How many days a day is after 1970-01-01. -/
def daysFromEpoch (year : ℤ) (month day : ℕ) : ℤ :=
  365 * (year - 1) + leapsThrough (year - 1) + daysBefore year month + day - 719163

structure CivilDate where
  year : ℤ
  month : ℕ
  day : ℕ
  isDate : IsDate year month day

theorem leapsThrough_sub_one (year : ℤ) :
    leapsThrough year = leapsThrough (year - 1) + if IsLeap year then 1 else 0 := by
  unfold leapsThrough IsLeap
  split_ifs with h <;> omega

namespace CivilDate

/-- The number of days since the epoch. -/
def days (date : CivilDate) : ℤ := daysFromEpoch date.year date.month date.day

end CivilDate

end Calendar
