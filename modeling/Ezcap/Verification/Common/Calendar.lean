import Ezcap.Library.Gregorian
import Ezcap.Model.Ipc

/-! The calendar arithmetic of timestamps gives the dates of the Gregorian calendar. -/

namespace Ezcap.Ipc

open Gregorian

/-- The year and the day of the year, both from March, of a day of a 400-year era. -/
structure YearOfEra (doe yoe doy : ℤ) : Prop where
  split : doe = 365 * yoe + yoe / 4 - yoe / 100 + doy
  nonneg : 0 ≤ yoe
  lt : yoe < 400
  doy_nonneg : 0 ≤ doy
  doy_le : doy ≤ 365
  leap : doy = 365 → IsLeap (yoe + 1)

/-- Centuries, then groups of four years, then years; the last of each may be a day longer. -/
theorem exists_year_split {doe : ℤ} (h : 0 ≤ doe) (h' : doe < 146097) :
    ∃ c q y doy : ℤ, doe = 36524 * c + 1461 * q + 365 * y + doy ∧ (0 ≤ c ∧ c ≤ 3) ∧
      (0 ≤ q ∧ q ≤ 24) ∧ (0 ≤ y ∧ y ≤ 3) ∧ (0 ≤ doy ∧ doy ≤ 365) ∧
      (doy = 365 → y = 3 ∧ (q = 24 → c = 3)) := by
  obtain ⟨c, hc⟩ : ∃ c, c = min (doe / 36524) 3 := ⟨_, rfl⟩
  obtain ⟨doc, hdoc⟩ : ∃ doc, doc = doe - 36524 * c := ⟨_, rfl⟩
  obtain ⟨y, hy⟩ : ∃ y, y = min (doc % 1461 / 365) 3 := ⟨_, rfl⟩
  exact ⟨c, doc / 1461, y, doc % 1461 - 365 * y, by omega, by omega, by omega, by omega, by omega,
    by omega⟩

theorem yearOfEra {doe : ℤ} (h : 0 ≤ doe) (h' : doe < 146097) :
    ∃ doy, YearOfEra doe ((doe - doe / 1460 + doe / 36524 - doe / 146096) / 365) doy := by
  obtain ⟨c, q, y, doy, hsplit, hc, hq, hy, hdoy, hlast⟩ := exists_year_split h h'
  have hcenturies : doe / 36524 - doe / 146096 = c := by
    obtain ⟨hc0, hc3⟩ := hc
    interval_cases c <;> omega
  -- the quotient by 1460 counts the groups of four years, and one more near the end of a group
  have hgroups : doe / 1460 = 25 * c + q ∧ 24 * c + q + 365 * y + doy < 1460 ∨
      doe / 1460 = 25 * c + q + 1 ∧ 1460 ≤ 24 * c + q + 365 * y + doy := by
    omega
  have hyear : (doe - doe / 1460 + doe / 36524 - doe / 146096) / 365 = 100 * c + 4 * q + y := by
    omega
  have hquarter : (100 * c + 4 * q + y) / 4 = 25 * c + q := by omega
  have hcentury : (100 * c + 4 * q + y) / 100 = c := by omega
  rw [hyear]
  refine ⟨doy, ⟨by rw [hquarter, hcentury]; omega, by omega, by omega, hdoy.1, hdoy.2,
    fun hleap => ?_⟩⟩
  obtain ⟨rfl, hend⟩ := hlast hleap
  unfold IsLeap
  omega

theorem daysBeforeMarch_era {doe yoe doy : ℤ} (h : YearOfEra doe yoe doy) (era : ℤ) :
    daysBeforeMarch (yoe + era * 400) + doy = doe + era * 146097 := by
  have hsplit := h.split
  have hnonneg := h.nonneg
  have hlt := h.lt
  rw [daysBeforeMarch]
  omega

/-- The month from March and the day of the month. -/
structure MonthOfYear (doy mp day : ℤ) : Prop where
  split : doy = daysFromMarch mp + (day - 1)
  nonneg : 0 ≤ mp
  le : mp ≤ 11
  one_le_day : 1 ≤ day
  day_le : day ≤ daysFromMarch (mp + 1) - daysFromMarch mp

theorem monthOfYear {doy : ℤ} (h : 0 ≤ doy) (h' : doy ≤ 365) :
    MonthOfYear doy ((5 * doy + 2) / 153) (doy - (153 * ((5 * doy + 2) / 153) + 2) / 5 + 1) := by
  refine ⟨?_, by omega, by omega, by omega, ?_⟩ <;> unfold daysFromMarch <;> omega

section Date

variable {yoe doe doy mp day : ℤ}

theorem isDate_of_lt (hyear : YearOfEra doe yoe doy) (hmonth : MonthOfYear doy mp day) (era : ℤ)
    (hmp : mp < 10) :
    IsDate (yoe + era * 400) (mp + 3) day ∧
      dayNumber (yoe + era * 400) (mp + 3) day = doe + era * 146097 - 719468 := by
  obtain ⟨hsplit, hnonneg, -, hone, hday⟩ := hmonth
  refine ⟨⟨by omega, by omega, hone, ?_⟩, ?_⟩
  · refine hday.trans ?_
    interval_cases mp <;> simp [daysFromMarch, daysInMonth]
  · have hera := daysBeforeMarch_era hyear era
    rw [dayNumber_of_three_le day (by omega) (by omega), Int.add_sub_cancel]
    omega

theorem isDate_of_ge (hyear : YearOfEra doe yoe doy) (hmonth : MonthOfYear doy mp day) (era : ℤ)
    (hmp : 10 ≤ mp) :
    IsDate (yoe + era * 400 + 1) (mp - 9) day ∧
      dayNumber (yoe + era * 400 + 1) (mp - 9) day = doe + era * 146097 - 719468 := by
  obtain ⟨hsplit, -, hle, hone, hday⟩ := hmonth
  refine ⟨⟨by omega, by omega, hone, ?_⟩, ?_⟩
  · obtain rfl | rfl : mp = 10 ∨ mp = 11 := by omega
    · exact hday
    · -- 29 February is the last day of a year from March
      have hdoy := hyear.doy_le
      have hleap := hyear.leap
      have hfebruary : daysFromMarch 11 = 337 := rfl
      change day ≤ if IsLeap (yoe + era * 400 + 1) then 29 else 28
      unfold IsLeap at hleap ⊢
      split_ifs <;> omega
  · have hera := daysBeforeMarch_era hyear era
    rw [dayNumber_of_le_two day (by omega) (by omega), Int.add_sub_cancel, Int.sub_add_cancel]
    omega

end Date

theorem civilFromDays_spec (days : ℤ) :
    IsDate (civilFromDays days).1 (civilFromDays days).2.1 (civilFromDays days).2.2 ∧
      dayNumber (civilFromDays days).1 (civilFromDays days).2.1 (civilFromDays days).2.2 =
        days := by
  obtain ⟨era, hera⟩ : ∃ era, era = (days + 719468).fdiv 146097 := ⟨_, rfl⟩
  obtain ⟨doe, hdoe⟩ : ∃ doe, doe = days + 719468 - era * 146097 := ⟨_, rfl⟩
  have hfdiv : era = (days + 719468) / 146097 := by
    rw [hera, Int.fdiv_eq_ediv_of_nonneg _ (by decide)]
  have hdays : doe + era * 146097 - 719468 = days := by omega
  obtain ⟨doy, hyear⟩ : ∃ doy, YearOfEra doe _ doy := yearOfEra (by omega) (by omega)
  have hmonth := monthOfYear hyear.doy_nonneg hyear.doy_le
  have hdoy : doe - (365 * ((doe - doe / 1460 + doe / 36524 - doe / 146096) / 365) +
      (doe - doe / 1460 + doe / 36524 - doe / 146096) / 365 / 4 -
      (doe - doe / 1460 + doe / 36524 - doe / 146096) / 365 / 100) = doy := by
    have hsplit := hyear.split
    omega
  simp only [civilFromDays]
  rw [← hera, ← hdoe, hdoy, ← hdays]
  by_cases hmp : (5 * doy + 2) / 153 < 10
  · have hdate := isDate_of_lt hyear hmonth era hmp
    have hlate : ¬ (5 * doy + 2) / 153 + 3 ≤ 2 := by
      have hnonneg := hmonth.nonneg
      omega
    rwa [if_pos hmp, if_neg hlate, Int.add_zero]
  · have hdate := isDate_of_ge hyear hmonth era (by omega)
    have hearly : (5 * doy + 2) / 153 - 9 ≤ 2 := by omega
    rwa [if_neg hmp, if_pos hearly]

end Ezcap.Ipc
