import Mathlib.Algebra.Order.Group.Int
import Mathlib.Data.List.Basic
import Mathlib.Tactic.IntervalCases

/-! The Gregorian calendar, before its introduction as after it. Days are numbered from
1 January 1970. -/

namespace Gregorian

def IsLeap (year : ℤ) : Prop := 4 ∣ year ∧ (¬ 100 ∣ year ∨ 400 ∣ year)

instance (year : ℤ) : Decidable (IsLeap year) := inferInstanceAs (Decidable (_ ∧ _))

def daysInMonth (year month : ℤ) : ℤ :=
  if month = 2 then if IsLeap year then 29 else 28
  else if month = 4 ∨ month = 6 ∨ month = 9 ∨ month = 11 then 30
  else 31

/-- The days of the months before this one. -/
def daysBeforeMonth (year month : ℤ) : ℤ :=
  ((List.range (month - 1).toNat).map fun k => daysInMonth year (k + 1)).sum

/-- The days from 1 January of the year 1. -/
def daysBeforeYear (year : ℤ) : ℤ :=
  365 * (year - 1) + (year - 1) / 4 - (year - 1) / 100 + (year - 1) / 400

/-- The number of a day; the day of the month may lie outside of the month. -/
def dayNumber (year month day : ℤ) : ℤ :=
  daysBeforeYear year + daysBeforeMonth year month + (day - 1) - daysBeforeYear 1970

structure IsDate (year month day : ℤ) : Prop where
  one_le_month : 1 ≤ month
  month_le : month ≤ 12
  one_le_day : 1 ≤ day
  day_le : day ≤ daysInMonth year month

theorem IsDate.day_le_31 {year month day : ℤ} (h : IsDate year month day) : day ≤ 31 := by
  have hday := h.day_le
  unfold daysInMonth at hday
  split_ifs at hday <;> omega

/-! ## Years from March

Counted from March, the leap day ends the year and the months have one pattern of lengths. -/

/-- The days from 1 March of the year 0 to 1 March of a year. -/
def daysBeforeMarch (year : ℤ) : ℤ := 365 * year + year / 4 - year / 100 + year / 400

/-- The days from 1 March to the first of the month, `m` months later. -/
def daysFromMarch (m : ℤ) : ℤ := (153 * m + 2) / 5

theorem daysBeforeYear_add (year : ℤ) :
    daysBeforeYear year + (31 + daysInMonth year 2) = daysBeforeMarch year - 306 := by
  have hfebruary : daysInMonth year 2 = if IsLeap year then 29 else 28 := rfl
  rw [hfebruary]
  unfold daysBeforeYear daysBeforeMarch IsLeap
  split_ifs with hleap <;> omega

theorem daysBeforeMonth_of_three_le {year month : ℤ} (h : 3 ≤ month) (h' : month ≤ 12) :
    daysBeforeMonth year month = 31 + daysInMonth year 2 + daysFromMarch (month - 3) := by
  interval_cases month <;>
    simp [daysBeforeMonth, List.range_succ, daysInMonth, daysFromMarch] <;> omega

theorem daysBeforeMonth_of_le_two {year month : ℤ} (h : 1 ≤ month) (h' : month ≤ 2) :
    daysBeforeMonth year month = daysFromMarch (month + 9) - 306 := by
  interval_cases month <;> simp [daysBeforeMonth, daysInMonth, daysFromMarch]

theorem dayNumber_of_three_le {year month : ℤ} (day : ℤ) (h : 3 ≤ month) (h' : month ≤ 12) :
    dayNumber year month day =
      daysBeforeMarch year + daysFromMarch (month - 3) + (day - 1) - 719468 := by
  have hyear := daysBeforeYear_add year
  have hepoch : daysBeforeYear 1970 = 719162 := by decide
  rw [dayNumber, daysBeforeMonth_of_three_le h h', hepoch]
  omega

theorem dayNumber_of_le_two {year month : ℤ} (day : ℤ) (h : 1 ≤ month) (h' : month ≤ 2) :
    dayNumber year month day =
      daysBeforeMarch (year - 1) + daysFromMarch (month + 9) + (day - 1) - 719468 := by
  have hepoch : daysBeforeYear 1970 = 719162 := by decide
  rw [dayNumber, daysBeforeMonth_of_le_two h h', hepoch, daysBeforeYear, daysBeforeMarch]
  omega

/-- The years from 0 to 9999 hold the days from the epoch to the end of the year 9999. -/
theorem IsDate.year_bounds {year month day : ℤ} (h : IsDate year month day)
    (hnonneg : 0 ≤ dayNumber year month day) (hlt : dayNumber year month day < 2932897) :
    0 ≤ year ∧ year < 10000 := by
  have hday := h.day_le_31
  obtain ⟨hone_month, hmonth, hone, -⟩ := h
  rcases lt_or_ge month 3 with hearly | hlate
  · rw [dayNumber_of_le_two day hone_month (by omega), daysBeforeMarch, daysFromMarch]
      at hnonneg hlt
    omega
  · rw [dayNumber_of_three_le day hlate hmonth, daysBeforeMarch, daysFromMarch] at hnonneg hlt
    omega

end Gregorian
