import Mathlib.Algebra.BigOperators.Fin
import Mathlib.Algebra.Order.BigOperators.Ring.Finset
import Mathlib.Algebra.Order.Field.Basic
import Mathlib.Tactic.FieldSimp
import Mathlib.Tactic.LinearCombination

/-! # Moments of a series

The mean of a finite series of numbers, the sums of the powers of the deviations from it, and the
covariance of a series of pairs.

* **One more number.** The mean and the second and third central sums of a series that has grown by
  a number, in terms of those before (`mean_append`, `centralSum_two_append`,
  `centralSum_three_append`).
* **Pairs.** The covariance and the variance by sums of products (`covariance_eq`, `variance_eq`),
  and the bound of the one by the other (`covariance_sq_le`). -/

namespace MagnumOpus.SeriesMoments

variable {K : Type*} [Field K]

/-- The mean of the numbers; that of none is zero. -/
def mean (xs : List K) : K := xs.sum / xs.length

/-- The sum of the `k`-th powers of the deviations from the mean. -/
def centralSum (k : ℕ) (xs : List K) : K := (xs.map fun x => (x - mean xs) ^ k).sum

/-! ### Shifted sums -/

theorem sum_sub (c : K) (xs : List K) :
    (xs.map fun x => x - c).sum = xs.sum - xs.length * c := by
  induction xs with
  | nil => simp
  | cons x xs ih =>
      rw [List.map_cons, List.sum_cons, ih, List.sum_cons, List.length_cons, Nat.cast_add,
        Nat.cast_one]
      ring

theorem sum_sub_sq (m d : K) (xs : List K) :
    (xs.map fun x => (x - (m + d)) ^ 2).sum =
      (xs.map fun x => (x - m) ^ 2).sum - 2 * d * (xs.map fun x => x - m).sum +
        xs.length * d ^ 2 := by
  induction xs with
  | nil => simp
  | cons x xs ih =>
      simp only [List.map_cons, List.sum_cons, List.length_cons, Nat.cast_add, Nat.cast_one, ih]
      ring

theorem sum_sub_cube (m d : K) (xs : List K) :
    (xs.map fun x => (x - (m + d)) ^ 3).sum =
      (xs.map fun x => (x - m) ^ 3).sum - 3 * d * (xs.map fun x => (x - m) ^ 2).sum +
        3 * d ^ 2 * (xs.map fun x => x - m).sum - xs.length * d ^ 3 := by
  induction xs with
  | nil => simp
  | cons x xs ih =>
      simp only [List.map_cons, List.sum_cons, List.length_cons, Nat.cast_add, Nat.cast_one, ih]
      ring

theorem sum_sub_mul_sub (m m' : K) (ps : List (K × K)) :
    (ps.map fun p => (p.1 - m) * (p.2 - m')).sum =
      (ps.map fun p => p.1 * p.2).sum - m * (ps.map Prod.snd).sum - m' * (ps.map Prod.fst).sum +
        ps.length * (m * m') := by
  induction ps with
  | nil => simp
  | cons p ps ih =>
      simp only [List.map_cons, List.sum_cons, List.length_cons, Nat.cast_add, Nat.cast_one, ih]
      ring

section CharZero

variable [CharZero K]

theorem length_cons_ne_zero {α : Type*} (x : α) (xs : List α) : ((x :: xs).length : K) ≠ 0 :=
  Nat.cast_ne_zero.mpr (Nat.succ_ne_zero xs.length)

theorem length_mul_mean (xs : List K) : xs.length * mean xs = xs.sum := by
  cases xs with
  | nil => simp
  | cons x xs =>
      exact mul_div_cancel₀ _ (length_cons_ne_zero x xs)

/-- The deviations from the mean cancel. -/
theorem sum_sub_mean (xs : List K) : (xs.map fun x => x - mean xs).sum = 0 := by
  rw [sum_sub, length_mul_mean, sub_self]

/-! ### One more number -/

theorem mean_append (xs : List K) (x : K) :
    mean (xs ++ [x]) = mean xs + (x - mean xs) / (xs.length + 1) := by
  have hlength : (xs.length : K) + 1 ≠ 0 := Nat.cast_add_one_ne_zero xs.length
  have hsum : mean (xs ++ [x]) = (xs.length * mean xs + x) / (xs.length + 1) := by
    rw [length_mul_mean, mean, List.sum_append, List.sum_singleton, List.length_append,
      List.length_singleton, Nat.cast_add, Nat.cast_one]
  rw [hsum]
  field_simp
  ring

theorem centralSum_two_append (xs : List K) (x : K) :
    centralSum 2 (xs ++ [x]) =
      centralSum 2 xs + (x - mean xs) * ((x - mean xs) / (xs.length + 1)) * xs.length := by
  have hlength : (xs.length : K) + 1 ≠ 0 := Nat.cast_add_one_ne_zero xs.length
  have hzero := sum_sub_mean xs
  unfold centralSum
  rw [mean_append, List.map_append, List.sum_append, List.map_singleton, List.sum_singleton,
    sum_sub_sq, hzero]
  field_simp
  ring

theorem centralSum_three_append (xs : List K) (x : K) :
    centralSum 3 (xs ++ [x]) =
      centralSum 3 xs +
        ((x - mean xs) * ((x - mean xs) / (xs.length + 1)) * xs.length *
          ((x - mean xs) / (xs.length + 1)) * (xs.length + 1 - 2) -
        3 * ((x - mean xs) / (xs.length + 1)) * centralSum 2 xs) := by
  have hlength : (xs.length : K) + 1 ≠ 0 := Nat.cast_add_one_ne_zero xs.length
  have hzero := sum_sub_mean xs
  unfold centralSum
  rw [mean_append, List.map_append, List.sum_append, List.map_singleton, List.sum_singleton,
    sum_sub_cube, hzero]
  field_simp
  ring

/-! ### Pairs -/

/-- The mean of the products of the deviations. -/
def covariance (ps : List (K × K)) : K :=
  (ps.map fun p => (p.1 - mean (ps.map Prod.fst)) * (p.2 - mean (ps.map Prod.snd))).sum / ps.length

/-- The mean of the squares of the deviations. -/
def variance (xs : List K) : K := centralSum 2 xs / xs.length

/-- The covariance by the sum of the products. -/
theorem covariance_eq (ps : List (K × K)) :
    covariance ps = (ps.map fun p => p.1 * p.2).sum / ps.length -
      mean (ps.map Prod.fst) * mean (ps.map Prod.snd) := by
  have hfst := length_mul_mean (ps.map Prod.fst)
  have hsnd := length_mul_mean (ps.map Prod.snd)
  rw [List.length_map] at hfst hsnd
  unfold covariance
  rw [sum_sub_mul_sub, ← hfst, ← hsnd]
  cases ps with
  | nil => simp [mean]
  | cons p ps =>
      have hlength : ((p :: ps).length : K) ≠ 0 := length_cons_ne_zero p ps
      field_simp
      ring

/-- The variance by the sum of the squares. -/
theorem variance_eq (xs : List K) :
    variance xs = (xs.map fun x => x ^ 2).sum / xs.length - mean xs * mean xs := by
  have hshift := sum_sub_sq 0 (mean xs) xs
  simp only [zero_add, sub_zero, List.map_id'] at hshift
  unfold variance centralSum
  rw [hshift, ← length_mul_mean xs]
  cases xs with
  | nil => simp [mean]
  | cons x xs =>
      have hlength : ((x :: xs).length : K) ≠ 0 := length_cons_ne_zero x xs
      field_simp
      ring

end CharZero

section Order

variable [LinearOrder K] [IsStrictOrderedRing K]

theorem centralSum_two_nonneg (xs : List K) : 0 ≤ centralSum 2 xs := by
  apply List.sum_nonneg
  intro y hy
  obtain ⟨x, -, rfl⟩ := List.mem_map.mp hy
  exact sq_nonneg _

theorem sum_mul_sq_le (ps : List (K × K)) :
    (ps.map fun p => p.1 * p.2).sum ^ 2 ≤
      (ps.map fun p => p.1 ^ 2).sum * (ps.map fun p => p.2 ^ 2).sum := by
  rw [← Fin.sum_univ_fun_getElem, ← Fin.sum_univ_fun_getElem, ← Fin.sum_univ_fun_getElem]
  exact Finset.sum_mul_sq_le_sq_mul_sq _ _ _

/-- The square of the covariance is at most the product of the variances. -/
theorem covariance_sq_le (ps : List (K × K)) :
    covariance ps ^ 2 ≤ variance (ps.map Prod.fst) * variance (ps.map Prod.snd) := by
  have hsums := sum_mul_sq_le (ps.map fun p : K × K =>
    (p.1 - mean (ps.map Prod.fst), p.2 - mean (ps.map Prod.snd)))
  rw [List.map_map, List.map_map, List.map_map] at hsums
  have hfst : centralSum 2 (ps.map Prod.fst) =
      (ps.map fun p => (p.1 - mean (ps.map Prod.fst)) ^ 2).sum := by
    unfold centralSum
    rw [List.map_map]
    rfl
  have hsnd : centralSum 2 (ps.map Prod.snd) =
      (ps.map fun p => (p.2 - mean (ps.map Prod.snd)) ^ 2).sum := by
    unfold centralSum
    rw [List.map_map]
    rfl
  unfold covariance variance
  rw [div_pow, List.length_map, List.length_map, div_mul_div_comm, ← sq, hfst, hsnd]
  exact div_le_div_of_nonneg_right hsums (sq_nonneg _)

end Order

end MagnumOpus.SeriesMoments
