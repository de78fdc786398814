import Mathlib.Data.Int.Order.Basic
import Mathlib.Algebra.Order.Ring.Int

/-! # UTC times and their periods

Times are seconds from the Unix epoch.  `truncate` rounds a time down as Go's package `time`
documents it: to a multiple of a duration since the first day of the year 1, which is a Monday.

The periods of length `d` are the times with one value of `period d`.  A time is the first one of
its period exactly when the length divides its distance from the year 1 (`period_succ_ne_iff`).
Minutes, hours, days and weeks that begin on Monday are all periods in this sense
(`monday_midnight_iff`). -/

namespace MagnumOpus.UtcTime

/-- The first second of the year 1. -/
def zeroTime : ℤ := -62135596800

/-- Rounds down to a multiple of `d` since the year 1. -/
def truncate (d t : ℤ) : ℤ := t - (t - zeroTime) % d

/-- The day of the week; Sunday is `0`. -/
def weekday (t : ℤ) : ℤ := (t / 86400 + 4) % 7

def hour (t : ℤ) : ℤ := t % 86400 / 3600

def minute (t : ℤ) : ℤ := t % 3600 / 60

def second (t : ℤ) : ℤ := t % 60

/-- The number of the period of length `d` that holds `t`. -/
def period (d t : ℤ) : ℤ := (t - zeroTime) / d

variable {d t : ℤ}

/-- A period begins where the length divides the distance from the year 1. -/
theorem period_succ_ne_iff (hd : 0 < d) :
    period d (t + 1) ≠ period d t ↔ d ∣ t + 1 - zeroTime := by
  unfold period
  rw [show t + 1 - zeroTime = t - zeroTime + 1 by omega]
  generalize t - zeroTime = a
  constructor
  · intro hne
    by_contra hdvd
    refine hne (le_antisymm ?_ (Int.ediv_le_ediv hd (by omega)))
    have hrem : (a + 1) % d ≠ 0 := fun h => hdvd (Int.dvd_of_emod_eq_zero h)
    have hpos := Int.emod_nonneg (a + 1) hd.ne'
    have hdiv := Int.mul_ediv_add_emod (a + 1) d
    refine (Int.le_ediv_iff_mul_le hd).mpr ?_
    rw [Int.mul_comm]
    omega
  · rintro ⟨k, hk⟩ heq
    rw [hk, Int.mul_ediv_cancel_left k hd.ne'] at heq
    have hlt : a < d * (a / d) + d := Int.lt_mul_ediv_self_add hd
    have hle : d * (a / d) ≤ a := Int.mul_ediv_self_le hd.ne'
    rw [← heq, ← hk] at hle
    omega

/-- Truncation moves on exactly where a period begins. -/
theorem truncate_lt_succ_iff (hd : 0 < d) :
    truncate d t < truncate d (t + 1) ↔ d ∣ t + 1 - zeroTime := by
  have htrunc : ∀ s, truncate d s = zeroTime + d * period d s := by
    intro s
    have := Int.mul_ediv_add_emod (s - zeroTime) d
    unfold truncate period
    omega
  have hmono : period d t ≤ period d (t + 1) := Int.ediv_le_ediv hd (by omega)
  rw [← period_succ_ne_iff hd, htrunc, htrunc, add_lt_add_iff_left, mul_lt_mul_iff_right₀ hd]
  exact ⟨fun h => h.ne', fun h => lt_of_le_of_ne hmono (Ne.symm h)⟩

/-- A week begins at midnight on Monday. -/
theorem monday_midnight_iff :
    weekday t = 1 ∧ hour t = 0 ∧ minute t = 0 ∧ second t = 0 ↔ 604800 ∣ t - zeroTime := by
  unfold weekday hour minute second zeroTime
  omega

end MagnumOpus.UtcTime
