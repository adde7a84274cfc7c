import Mathlib.Tactic.Linarith

/-! # The years of an era

In the Gregorian calendar an era of 400 years has 146097 days; with years that begin in March, the leap
day comes last. `yearOfEra` finds the year of a day by one division, and `yearOfEra_spec` says that the
day really lies in that year: the estimate is monotone, so it is enough to look at the first day of each
of the 400 years and at the day before it. -/

namespace Calendar

/-- The first day of a year of an era. -/
def startOfYear (year : Int) : Int := 365 * year + year / 4 - year / 100

/-- The days of an era up to a day, without the leap days up to it. -/
def plainDays (day : Int) : Int := day - day / 1460 + day / 36524 - day / 146096

/-- The year of a day of an era. -/
def yearOfEra (day : Int) : Int := plainDays day / 365

theorem plainDays_mono {a b : Int} (h : a ≤ b) : plainDays a ≤ plainDays b := by
  have hquad : b / 1460 - a / 1460 ≤ b - a := by omega
  have hcentury : a / 36524 - a / 36524 / 4 ≤ b / 36524 - b / 36524 / 4 := by omega
  have hera : ∀ c : Int, c / 146096 = c / 36524 / 4 := by omega
  rw [plainDays, plainDays, hera a, hera b]
  linarith

/-- The estimate is right on the first day of each year, and on the day before it. -/
theorem plainDays_startOfYear : ∀ year : Fin 400,
    365 * (year : Int) ≤ plainDays (startOfYear year)
      ∧ (0 < (year : Int) → plainDays (startOfYear year - 1) < 365 * (year : Int)) := by
  decide +kernel

/-- **A day lies in its year**, which has at most 366 days. -/
theorem yearOfEra_spec {day : Int} (hlow : 0 ≤ day) (hhigh : day < 146097) :
    (0 ≤ yearOfEra day ∧ yearOfEra day < 400)
      ∧ 0 ≤ day - startOfYear (yearOfEra day) ∧ day - startOfYear (yearOfEra day) ≤ 365 := by
  have hfirst : plainDays 0 ≤ plainDays day := plainDays_mono hlow
  have hlast : plainDays day ≤ plainDays 146096 := plainDays_mono (by omega)
  have hzero : plainDays 0 = 0 := by decide
  have hmost : plainDays 146096 = 145999 := by decide
  have hyear : 365 * yearOfEra day ≤ plainDays day ∧ plainDays day < 365 * (yearOfEra day + 1) := by
    rw [yearOfEra]
    omega
  have hrange : 0 ≤ yearOfEra day ∧ yearOfEra day < 400 := by
    constructor
    · omega
    · omega
  refine ⟨hrange, ?_, ?_⟩
  · by_contra hneg
    obtain ⟨-, hbefore⟩ := plainDays_startOfYear ⟨(yearOfEra day).toNat, by omega⟩
    have hcast : (((yearOfEra day).toNat : Nat) : Int) = yearOfEra day := Int.toNat_of_nonneg hrange.1
    simp only [hcast] at hbefore
    have hstart : 0 < yearOfEra day := by
      rcases Int.lt_or_eq_of_le hrange.1 with hpos | heq
      · exact hpos
      · rw [← heq, startOfYear] at hneg
        omega
    have hle := plainDays_mono (show day ≤ startOfYear (yearOfEra day) - 1 by omega)
    have hlt := hbefore hstart
    omega
  · by_contra hlate
    have hnext : startOfYear (yearOfEra day + 1) - startOfYear (yearOfEra day) ≤ 366 := by
      rw [startOfYear, startOfYear]
      omega
    rcases Int.lt_or_eq_of_le (show yearOfEra day ≤ 399 by omega) with hlt | heq
    · obtain ⟨hafter, -⟩ := plainDays_startOfYear ⟨(yearOfEra day + 1).toNat, by omega⟩
      have hcast : (((yearOfEra day + 1).toNat : Nat) : Int) = yearOfEra day + 1 :=
        Int.toNat_of_nonneg (by omega)
      simp only [hcast] at hafter
      have hle := plainDays_mono (show startOfYear (yearOfEra day + 1) ≤ day by omega)
      omega
    · rw [heq, startOfYear] at hlate
      omega

/-- The month and the day of the month determine the day of the year. -/
theorem month_day_inj {a b : Int} (hmonth : (5 * a + 2) / 153 = (5 * b + 2) / 153)
    (hday : a - (153 * ((5 * a + 2) / 153) + 2) / 5 = b - (153 * ((5 * b + 2) / 153) + 2) / 5) :
    a = b := by
  rw [hmonth] at hday
  omega

end Calendar
