import Mathlib.Algebra.Ring.Divisibility.Basic
import Mathlib.Order.Bounds.Defs
import Mathlib.Tactic.Ring
import MagnumOpus.Candle.Consumer
import MagnumOpus.Candle.FullConsumer
import MagnumOpus.Lib.CivilDate

/-! # Boundaries of the timeframes

`lastClosedBoundary` (`cmd/candle/main.go`) is the start of the period that a time lies in; for
weeks it goes back to Monday by the calendar.  Times are nanoseconds from the Unix epoch here.

For every timeframe it is the rounding down to a multiple of the length since the year 1
(`lastClosedBoundary_eq`), so the boundaries are these multiples (`isBoundary_iff_dvd`).  The other
three places that compute them (`IsBarClose`, `flushParallelTF` and the last flush of a shutdown)
agree with it. -/

namespace MagnumOpus.Candle

open Cascade UtcTime

/-! ### The calendar of the start-up checks -/

/-- The nanoseconds of a second. -/
def nanosPerSecond : ℤ := 1000000000

theorem nanosPerSecond_pos : 0 < nanosPerSecond := by decide

/-- `Truncate`, for a duration in seconds. -/
def truncateTo (d t : ℤ) : ℤ := t - (t - zeroTime * nanosPerSecond) % (d * nanosPerSecond)

/-- The most recent boundary at or before a time. -/
def lastClosedBoundary (tf : TF) (now : ℤ) : ℤ :=
  match tf with
  | .tf1m => truncateTo 60 now
  | .tf5m => truncateTo (5 * 60) now
  | .tf15m => truncateTo (15 * 60) now
  | .tf1h => truncateTo 3600 now
  | .tf4h => truncateTo (4 * 3600) now
  | .tf1d => truncateTo (24 * 3600) now
  | .tf1w =>
      let sec := now / nanosPerSecond
      -- Sunday goes back to the Monday before.
      let daysBack := if weekday sec = 0 then 7 else weekday sec
      let d := CivilDate.dateOf sec
      CivilDate.date d.year d.month (d.day - (daysBack - 1)) * nanosPerSecond

/-- `UnixMilli`. -/
def unixMilli (t : ℤ) : Int64 := Int64.ofInt (t / 1000000)

/-- The time of a timestamp in milliseconds, to the second. -/
def timeOf (tsSecMs : Int64) : ℤ := unixSec tsSecMs * nanosPerSecond

/-- A bar of the timeframe begins. -/
def IsBoundary (tf : TF) (t : ℤ) : Prop := lastClosedBoundary tf t = t

instance (tf : TF) (t : ℤ) : Decidable (IsBoundary tf t) :=
  inferInstanceAs (Decidable (lastClosedBoundary tf t = t))

/-! ### Rounding down -/

variable {tf : TF} {d t : ℤ}

/-- Rounding to seconds and then to the duration is rounding to the duration. -/
theorem truncateTo_eq (hd : 0 < d) (t : ℤ) :
    truncateTo d t = truncate d (t / nanosPerSecond) * nanosPerSecond := by
  have ht := Int.mul_ediv_add_emod t nanosPerSecond
  have hnsec := Int.emod_nonneg t nanosPerSecond_pos.ne'
  have hnsecLt := Int.emod_lt_of_pos t nanosPerSecond_pos
  have hm := Int.mul_ediv_add_emod (t / nanosPerSecond - zeroTime) d
  have hmNonneg := Int.emod_nonneg (t / nanosPerSecond - zeroTime) hd.ne'
  have hmLt := Int.emod_lt_of_pos (t / nanosPerSecond - zeroTime) hd
  unfold truncateTo truncate
  generalize t / nanosPerSecond = sec at *
  generalize t % nanosPerSecond = nsec at *
  generalize (sec - zeroTime) / d = q at *
  generalize hrest : (sec - zeroTime) % d = m at *
  have hsplit :
      t - zeroTime * nanosPerSecond = m * nanosPerSecond + nsec + d * nanosPerSecond * q := by
    rw [← ht, show m = sec - zeroTime - d * q by omega]
    ring
  have hlt : m * nanosPerSecond + nsec < d * nanosPerSecond := by
    have hle : (m + 1) * nanosPerSecond ≤ d * nanosPerSecond :=
      Int.mul_le_mul_of_nonneg_right hmLt nanosPerSecond_pos.le
    rw [add_mul, one_mul] at hle
    omega
  have hnonneg : 0 ≤ m * nanosPerSecond + nsec :=
    add_nonneg (mul_nonneg hmNonneg nanosPerSecond_pos.le) hnsec
  rw [hsplit, Int.add_mul_emod_self_left, Int.emod_eq_of_lt hnonneg hlt, ← ht]
  ring

/-- Going back to Monday is rounding down to a week. -/
theorem date_monday (sec : ℤ) :
    CivilDate.date (CivilDate.dateOf sec).year (CivilDate.dateOf sec).month
        ((CivilDate.dateOf sec).day - ((if weekday sec = 0 then 7 else weekday sec) - 1)) =
      truncate 604800 sec := by
  rw [CivilDate.date_sub]
  unfold weekday truncate zeroTime
  split <;> omega

/-- Every boundary is a multiple of the length since the year 1. -/
theorem lastClosedBoundary_eq (tf : TF) (t : ℤ) :
    lastClosedBoundary tf t = truncateTo tf.seconds t := by
  cases tf with
  | tf1w =>
      rw [truncateTo_eq (TF.seconds_pos .tf1w)]
      exact congrArg (· * nanosPerSecond) (date_monday (t / nanosPerSecond))
  | _ => rfl

theorem isBoundary_iff_dvd :
    IsBoundary tf t ↔ tf.seconds * nanosPerSecond ∣ t - zeroTime * nanosPerSecond := by
  rw [IsBoundary, lastClosedBoundary_eq, truncateTo, Int.dvd_iff_emod_eq_zero]
  omega

/-- At a full second the nanoseconds play no part. -/
theorem isBoundary_seconds_iff {sec : ℤ} :
    IsBoundary tf (sec * nanosPerSecond) ↔ tf.seconds ∣ sec - zeroTime := by
  rw [isBoundary_iff_dvd, ← sub_mul]
  exact Int.mul_dvd_mul_iff_right nanosPerSecond_pos.ne'

/-- Boundaries are at full seconds. -/
theorem IsBoundary.eq_seconds (h : IsBoundary tf t) : t = t / nanosPerSecond * nanosPerSecond := by
  have hsec : nanosPerSecond ∣ t := by
    have hdvd := (Dvd.intro_left tf.seconds rfl).trans (isBoundary_iff_dvd.mp h)
    exact (Int.dvd_iff_dvd_of_dvd_sub hdvd).mpr (Dvd.intro_left zeroTime rfl)
  rw [Int.ediv_mul_cancel hsec]

/-- What is computed is the greatest boundary that is not after the time. -/
theorem isGreatest_lastClosedBoundary (tf : TF) (now : ℤ) :
    IsGreatest {b | IsBoundary tf b ∧ b ≤ now} (lastClosedBoundary tf now) := by
  have hlen : 0 < tf.seconds * nanosPerSecond := mul_pos tf.seconds_pos nanosPerSecond_pos
  have hmod := Int.mul_ediv_add_emod (now - zeroTime * nanosPerSecond) (tf.seconds * nanosPerSecond)
  have hnonneg := Int.emod_nonneg (now - zeroTime * nanosPerSecond) hlen.ne'
  have hlt := Int.emod_lt_of_pos (now - zeroTime * nanosPerSecond) hlen
  rw [lastClosedBoundary_eq]
  refine ⟨⟨?_, ?_⟩, ?_⟩
  · rw [isBoundary_iff_dvd]
    refine ⟨(now - zeroTime * nanosPerSecond) / (tf.seconds * nanosPerSecond), ?_⟩
    unfold truncateTo
    omega
  · unfold truncateTo
    omega
  · rintro b ⟨hb, hle⟩
    obtain ⟨k, hk⟩ := isBoundary_iff_dvd.mp hb
    have hdiv : k ≤ (now - zeroTime * nanosPerSecond) / (tf.seconds * nanosPerSecond) := by
      refine (Int.le_ediv_iff_mul_le hlen).mpr ?_
      rw [mul_comm, ← hk]
      omega
    have hmul := Int.mul_le_mul_of_nonneg_left hdiv hlen.le
    unfold truncateTo
    omega

/-! ### Consecutive boundaries -/

theorem IsBoundary.next (h : IsBoundary tf t) :
    IsBoundary tf (t + tf.seconds * nanosPerSecond) := by
  rw [isBoundary_iff_dvd] at h ⊢
  rw [add_sub_right_comm]
  exact dvd_add h (dvd_refl _)

theorem IsBoundary.not_between (h : IsBoundary tf t) {c : ℤ} (hlo : t < c)
    (hhi : c < t + tf.seconds * nanosPerSecond) : ¬ IsBoundary tf c := by
  intro hc
  rw [isBoundary_iff_dvd] at h hc
  have hdvd : tf.seconds * nanosPerSecond ∣ c - t := by
    have hsub := dvd_sub hc h
    rwa [sub_sub_sub_cancel_right] at hsub
  have hle := Int.le_of_dvd (by omega) hdvd
  omega

theorem seconds_dvd_of_le {fine coarse : TF} (h : fine.seconds ≤ coarse.seconds) :
    fine.seconds ∣ coarse.seconds := by
  cases fine <;> cases coarse <;> revert h <;> decide

theorem IsBoundary.of_coarser {fine coarse : TF} (hle : fine.seconds ≤ coarse.seconds)
    (h : IsBoundary coarse t) : IsBoundary fine t := by
  rw [isBoundary_iff_dvd] at h ⊢
  exact (Int.mul_dvd_mul_right nanosPerSecond (seconds_dvd_of_le hle)).trans h

/-! ### The other places -/

theorem isBarClose_iff_isBoundary {tsSecMs : Int64} :
    isBarClose tsSecMs tf = true ↔ IsBoundary tf (timeOf tsSecMs + nanosPerSecond) := by
  rw [isBarClose_iff_dvd, timeOf, ← add_one_mul, isBoundary_seconds_iff]

/-- The label that a finished bar gets. -/
theorem openMs_eq (tf : TF) (tsSecMs : Int64) :
    Int64.ofInt (truncate tf.seconds (unixSec tsSecMs) * 1000) =
      unixMilli (lastClosedBoundary tf (timeOf tsSecMs)) := by
  have hsec : timeOf tsSecMs / nanosPerSecond = unixSec tsSecMs :=
    Int.mul_ediv_cancel _ nanosPerSecond_pos.ne'
  rw [lastClosedBoundary_eq, truncateTo_eq tf.seconds_pos, hsec, unixMilli, nanosPerSecond]
  congr 1
  omega

theorem flushTF_tsSecMs {acc : BarAccumulator} {tsSecMs : Int64} {row : Bar}
    (h : (AccWriter.flushTF acc tf tsSecMs).2 = some row) :
    row.tsSecMs = unixMilli (lastClosedBoundary tf (timeOf tsSecMs)) := by
  unfold AccWriter.flushTF at h
  split at h
  · cases h
    exact openMs_eq tf tsSecMs
  · cases h

theorem fullFlushTF_tsSecMs {F : Features} {depth : OrderBook → DepthSnapshot}
    {acc : FullAccumulator} {book : OrderBook} {tsSecMs : Int64} {row : FullBar}
    (h : (FullAccWriter.flushTF F depth acc tf book tsSecMs).2 = some row) :
    row.tsSecMs = unixMilli (lastClosedBoundary tf (timeOf tsSecMs)) := by
  unfold FullAccWriter.flushTF at h
  split at h
  · cases h
    exact openMs_eq tf tsSecMs
  · cases h

theorem shutdown_tsSecMs {c : Consumer} {calls : Calls} {nowMs : Int64}
    {row bar1m bar15m : Option Bar}
    (h : Output.final row bar1m bar15m ∈ (c.shutdown calls nowMs).2) :
    (∀ b ∈ bar1m,
      b.tsSecMs = unixMilli (lastClosedBoundary .tf1m (timeOf (truncateSecond nowMs)))) ∧
    ∀ b ∈ bar15m,
      b.tsSecMs = unixMilli (lastClosedBoundary .tf15m (timeOf (truncateSecond nowMs))) := by
  obtain ⟨-, rfl, rfl⟩ := Output.final.inj (List.mem_singleton.mp h)
  constructor
  · intro b hb
    dsimp only at hb
    split at hb
    · cases hb
    · cases hb
      exact openMs_eq .tf1m (truncateSecond nowMs)
  · intro b hb
    dsimp only at hb
    split at hb
    · cases hb
    · cases hb
      exact openMs_eq .tf15m (truncateSecond nowMs)

/-! ### The law -/

/-- Weeks begin on Monday at midnight. -/
theorem isBoundary_week_iff :
    IsBoundary .tf1w t ↔ t % nanosPerSecond = 0 ∧ weekday (t / nanosPerSecond) = 1 ∧
      hour (t / nanosPerSecond) = 0 ∧ minute (t / nanosPerSecond) = 0 ∧
      UtcTime.second (t / nanosPerSecond) = 0 := by
  rw [monday_midnight_iff]
  constructor
  · intro h
    have ht := h.eq_seconds
    refine ⟨?_, ?_⟩
    · rw [ht, Int.mul_emod_left]
    · rw [ht] at h
      exact isBoundary_seconds_iff.mp h
  · rintro ⟨hfull, hweek⟩
    rw [← Int.ediv_mul_cancel (Int.dvd_of_emod_eq_zero hfull)]
    exact isBoundary_seconds_iff.mpr hweek

/-- **All boundary functions agree**: the closing test, the labels of the parallel bars, at a flush
and at a shutdown, and the boundaries of the start-up checks, which are as far apart as the
timeframe is long and are boundaries of every finer timeframe too. -/
theorem boundaries_agree :
    (∀ (tf : TF) (tsSecMs : Int64), isBarClose tsSecMs tf = true ↔
      lastClosedBoundary tf (timeOf tsSecMs + nanosPerSecond) =
        timeOf tsSecMs + nanosPerSecond) ∧
    (∀ (tf : TF) (t : ℤ), IsBoundary tf t →
      IsBoundary tf (t + tf.seconds * nanosPerSecond) ∧
        ∀ c, t < c → c < t + tf.seconds * nanosPerSecond → ¬ IsBoundary tf c) ∧
    (∀ t : ℤ, IsBoundary .tf1w t ↔ t % nanosPerSecond = 0 ∧ weekday (t / nanosPerSecond) = 1 ∧
      hour (t / nanosPerSecond) = 0 ∧ minute (t / nanosPerSecond) = 0 ∧
      UtcTime.second (t / nanosPerSecond) = 0) ∧
    (∀ (p : ParallelTF) (acc : BarAccumulator) (tsSecMs : Int64),
      ∀ row ∈ (AccWriter.flushTF acc p.tf tsSecMs).2,
        row.tsSecMs = unixMilli (lastClosedBoundary p.tf (timeOf tsSecMs))) ∧
    (∀ (F : Features) (depth : OrderBook → DepthSnapshot) (p : ParallelTF)
      (acc : FullAccumulator) (book : OrderBook) (tsSecMs : Int64),
      ∀ row ∈ (FullAccWriter.flushTF F depth acc p.tf book tsSecMs).2,
        row.tsSecMs = unixMilli (lastClosedBoundary p.tf (timeOf tsSecMs))) ∧
    (∀ (c : Consumer) (calls : Calls) (nowMs : Int64) (row bar1m bar15m : Option Bar),
      Output.final row bar1m bar15m ∈ (c.shutdown calls nowMs).2 →
        (∀ b ∈ bar1m,
          b.tsSecMs = unixMilli (lastClosedBoundary .tf1m (timeOf (truncateSecond nowMs)))) ∧
        ∀ b ∈ bar15m,
          b.tsSecMs = unixMilli (lastClosedBoundary .tf15m (timeOf (truncateSecond nowMs)))) ∧
    ∀ (fine coarse : TF) (t : ℤ), fine.seconds ≤ coarse.seconds → IsBoundary coarse t →
      IsBoundary fine t := by
  refine ⟨?_, ?_, fun _ => isBoundary_week_iff, ?_, ?_, ?_, ?_⟩
  · intro tf tsSecMs
    exact isBarClose_iff_isBoundary
  · intro tf t h
    exact ⟨h.next, fun c hlo hhi => h.not_between hlo hhi⟩
  · intro p acc tsSecMs row hrow
    exact flushTF_tsSecMs hrow
  · intro F depth p acc book tsSecMs row hrow
    exact fullFlushTF_tsSecMs hrow
  · intro c calls nowMs row bar1m bar15m h
    exact shutdown_tsSecMs h
  · intro fine coarse t hle h
    exact h.of_coarser hle

/-- The last Monday of a leap February. -/
example : lastClosedBoundary .tf1w (1709251199 * nanosPerSecond) =
    timeOf 1708905600000 := by decide

end MagnumOpus.Candle
