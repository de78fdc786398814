import Mathlib.Data.List.Basic
import MagnumOpus.Lib.UtcTime

/-! # Calendar dates

The Gregorian calendar, continued in both directions, as Go's package `time` uses it.

* **From a day to its date.** The year is found by taking off periods of 400, 100, 4 and 1 years
  (`yearOf`), the month by taking off one month after the other (`splitMonths`).
* **From a date to its day.** `date` counts the days before the year and before the month.  Days
  outside of the month and months outside of the year are normalised.

The two are inverse, also when the day of the date is moved (`date_sub`). -/

namespace MagnumOpus.CivilDate

open UtcTime

/-! ### Years -/

def isLeap (year : ℤ) : Bool := year % 4 = 0 ∧ (year % 100 ≠ 0 ∨ year % 400 = 0)

/-- The days from the first day of the year 1 to the first day of a year. -/
def daysBeforeYear (year : ℤ) : ℤ :=
  365 * (year - 1) + (year - 1) / 4 - (year - 1) / 100 + (year - 1) / 400

/-- The year of a day, and the day in the year.  The last of four centuries and the last of four
years have a day more than the others. -/
def yearOf (day : ℤ) : ℤ × ℤ :=
  let inCycle := day % 146097
  let century := inCycle / 36524 - inCycle / 36524 / 4
  let inCentury := inCycle - 36524 * century
  let leapYears := inCentury / 1461
  let inLeapYears := inCentury % 1461
  let rest := inLeapYears / 365 - inLeapYears / 365 / 4
  (400 * (day / 146097) + 100 * century + 4 * leapYears + rest + 1, inLeapYears - 365 * rest)

/-- The day in the year is counted from the first day of the year. -/
theorem daysBeforeYear_yearOf (day : ℤ) :
    daysBeforeYear (yearOf day).1 + (yearOf day).2 = day := by
  have hday := Int.mul_ediv_add_emod day 146097
  have hcyclePos := Int.emod_nonneg day (b := 146097) (by decide)
  have hcycleLt := Int.emod_lt_of_pos day (b := 146097) (by decide)
  simp only [yearOf, daysBeforeYear, add_sub_cancel_right]
  generalize day / 146097 = cycles at hday ⊢
  generalize day % 146097 = inCycle at hday hcyclePos hcycleLt ⊢
  obtain ⟨century, hcentury⟩ : ∃ c, c = inCycle / 36524 - inCycle / 36524 / 4 := ⟨_, rfl⟩
  rw [← hcentury]
  have hcenturyPos : 0 ≤ century ∧ century ≤ 3 := by omega
  have hinCentury : 0 ≤ inCycle - 36524 * century ∧ inCycle - 36524 * century ≤ 36524 := by omega
  generalize hrem : inCycle - 36524 * century = inCentury at hinCentury ⊢
  have hleap : 0 ≤ inCentury / 1461 ∧ inCentury / 1461 ≤ 24 := by omega
  have hsplit := Int.mul_ediv_add_emod inCentury 1461
  have hinLeapPos := Int.emod_nonneg inCentury (b := 1461) (by decide)
  have hinLeapLt := Int.emod_lt_of_pos inCentury (b := 1461) (by decide)
  generalize inCentury / 1461 = leapYears at hleap hsplit ⊢
  generalize inCentury % 1461 = inLeap at hsplit hinLeapPos hinLeapLt ⊢
  obtain ⟨rest, hrest⟩ : ∃ r, r = inLeap / 365 - inLeap / 365 / 4 := ⟨_, rfl⟩
  rw [← hrest]
  have hrestPos : 0 ≤ rest ∧ rest ≤ 3 := by omega
  clear hrest hcentury
  have hfours : (400 * cycles + 100 * century + 4 * leapYears + rest) / 4 =
      100 * cycles + 25 * century + leapYears := by omega
  have hhundreds : (400 * cycles + 100 * century + 4 * leapYears + rest) / 100 =
      4 * cycles + century := by omega
  have hcycles : (400 * cycles + 100 * century + 4 * leapYears + rest) / 400 = cycles := by omega
  rw [hfours, hhundreds, hcycles]
  omega

/-! ### Months -/

def monthLengths (leap : Bool) : List ℤ :=
  [31, if leap then 29 else 28, 31, 30, 31, 30, 31, 31, 30, 31, 30, 31]

/-- Splits a number of days into full months and the days left; the last month has no end. -/
def splitMonths : List ℤ → ℤ → ℕ × ℤ
  | [], d => (0, d)
  | [_], d => (0, d)
  | length :: next :: lengths, d =>
      if d < length then (0, d)
      else
        let (months, left) := splitMonths (next :: lengths) (d - length)
        (months + 1, left)

theorem sum_take_splitMonths : ∀ (lengths : List ℤ) (d : ℤ),
    (lengths.take (splitMonths lengths d).1).sum + (splitMonths lengths d).2 = d
  | [], d => by simp [splitMonths]
  | [_], d => by simp [splitMonths]
  | length :: next :: lengths, d => by
      unfold splitMonths
      split
      · simp
      · have hrest := sum_take_splitMonths (next :: lengths) (d - length)
        simp only [List.take_succ_cons, List.sum_cons]
        omega

theorem splitMonths_lt : ∀ {lengths : List ℤ} (d : ℤ), lengths ≠ [] →
    (splitMonths lengths d).1 < lengths.length
  | [], _, h => absurd rfl h
  | [_], d, _ => Nat.one_pos
  | length :: next :: lengths, d, _ => by
      unfold splitMonths
      split
      · exact Nat.succ_pos _
      · exact Nat.succ_lt_succ (splitMonths_lt (d - length) (List.cons_ne_nil next lengths))

/-! ### Dates -/

structure Date where
  year : ℤ
  /-- January is `1`. -/
  month : ℤ
  day : ℤ
deriving DecidableEq, Repr

/-- `Time.Date`. -/
def dateOf (t : ℤ) : Date :=
  let (year, inYear) := yearOf ((t - zeroTime) / 86400)
  let (months, inMonth) := splitMonths (monthLengths (isLeap year)) inYear
  { year, month := months + 1, day := inMonth + 1 }

/-- `time.Date` at midnight. -/
def date (year month day : ℤ) : ℤ :=
  let year' := year + (month - 1) / 12
  let month' := (month - 1) % 12
  zeroTime + 86400 * (daysBeforeYear year' +
    ((monthLengths (isLeap year')).take month'.toNat).sum + (day - 1))

/-- The midnight some days before a time. -/
theorem date_sub (t days : ℤ) :
    date (dateOf t).year (dateOf t).month ((dateOf t).day - days) =
      t - (t - zeroTime) % 86400 - 86400 * days := by
  have hyear := daysBeforeYear_yearOf ((t - zeroTime) / 86400)
  have hday := Int.mul_ediv_add_emod (t - zeroTime) 86400
  obtain ⟨⟨year, inYear⟩, hyearOf⟩ : ∃ p, yearOf ((t - zeroTime) / 86400) = p := ⟨_, rfl⟩
  have hmonths := sum_take_splitMonths (monthLengths (isLeap year)) inYear
  have hlt : (splitMonths (monthLengths (isLeap year)) inYear).1 < 12 :=
    splitMonths_lt inYear (List.cons_ne_nil _ _)
  simp only [dateOf, date, hyearOf, add_sub_cancel_right] at hyear ⊢
  generalize splitMonths (monthLengths (isLeap year)) inYear = split at hmonths hlt ⊢
  rw [Int.ediv_eq_zero_of_lt (by omega) (by omega), Int.emod_eq_of_lt (by omega) (by omega),
    add_zero, Int.toNat_natCast]
  omega

example : dateOf 951782400 = ⟨2000, 2, 29⟩ := by decide

example : date 2024 3 0 = date 2024 2 29 := by decide

end MagnumOpus.CivilDate
