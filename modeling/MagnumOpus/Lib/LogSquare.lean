import Mathlib.Analysis.SpecialFunctions.Log.Basic
import Mathlib.Analysis.SpecialFunctions.Trigonometric.Series
import Mathlib.Analysis.SpecificLimits.Basic

/-!
# The square of a rational's logarithm

The logarithm of a rational number is never `1 / √n` for a natural number `n`: otherwise
`cosh (1 / √n)` would be rational, but a rational with denominator `b`, scaled by
`b * n ^ b * (2 * b)!`, is a whole number, while the tail of the scaled cosine series stays
strictly between zero and one.
-/

namespace MagnumOpus
namespace LogSquare

open Nat

/-- The `k`-th term of the series of `cosh (1 / √n)`. -/
noncomputable def term (n k : ℕ) : ℝ := (1 / (n : ℝ)) ^ k / (2 * k)!

theorem hasSum_term {n : ℕ} {x : ℝ} (hx : x ^ 2 = 1 / n) :
    HasSum (term n) (Real.cosh x) := by
  have h := Real.hasSum_cosh x
  simp only [pow_mul, hx] at h
  exact h

theorem term_pos {n : ℕ} (hn : 0 < n) (k : ℕ) : 0 < term n k := by
  unfold term
  positivity

/-- The factor that makes the first terms whole. -/
noncomputable def scale (n m : ℕ) : ℝ := n ^ m * (2 * m)!

theorem scale_pos {n : ℕ} (hn : 0 < n) (m : ℕ) : 0 < scale n m := by
  unfold scale
  positivity

/-- A term up to `m` is whole after scaling. -/
theorem exists_nat_scale_mul_term {n m k : ℕ} (hn : 0 < n) (hk : k ≤ m) :
    ∃ a : ℕ, scale n m * term n k = a := by
  obtain ⟨c, hc⟩ := factorial_dvd_factorial (by omega : 2 * k ≤ 2 * m)
  refine ⟨n ^ (m - k) * c, ?_⟩
  have hn' : (n : ℝ) ≠ 0 := by positivity
  have hfact : ((2 * k)! : ℝ) ≠ 0 := by positivity
  have hsplit : (n : ℝ) ^ m = n ^ (m - k) * n ^ k := by
    rw [← pow_add, Nat.sub_add_cancel hk]
  unfold scale term
  rw [hc, hsplit]
  push_cast
  rw [div_pow, one_pow]
  field_simp

/-- A term after `m` is small after scaling. -/
theorem scale_mul_term_le {n m : ℕ} (hn : 0 < n) (j : ℕ) :
    scale n m * term n (j + (m + 1)) ≤ 1 / (2 * m + 2) * (1 / 2) ^ j * (1 / (2 * m + 1)) := by
  have hn1 : (1 : ℝ) ≤ n := by exact_mod_cast hn
  have hfact : ((2 * m)! : ℝ) * ((2 * m + 1) * (2 * m + 2) * 2 ^ j) ≤ (2 * (j + (m + 1)))! := by
    induction j with
    | zero =>
        have h : (2 * (0 + (m + 1)))! = (2 * m)! * ((2 * m + 1) * (2 * m + 2)) := by
          have h2 : 2 * (0 + (m + 1)) = (2 * m + 1) + 1 := by omega
          rw [h2, factorial_succ, factorial_succ]
          ring
        rw [h]
        push_cast
        rw [pow_zero, mul_one]
    | succ j ih =>
        have h : (2 * (j + 1 + (m + 1)))!
            = (2 * (j + (m + 1)) + 2) * ((2 * (j + (m + 1)) + 1) * (2 * (j + (m + 1)))!) := by
          have h2 : 2 * (j + 1 + (m + 1)) = (2 * (j + (m + 1)) + 1) + 1 := by omega
          rw [h2, factorial_succ, factorial_succ]
        have hone : (1 : ℝ) ≤ 2 * (j + (m + 1)) + 1 := by
          have : (0 : ℝ) ≤ j := by positivity
          have : (0 : ℝ) ≤ m := by positivity
          linarith
        have htwo : (2 : ℝ) ≤ 2 * (j + (m + 1)) + 2 := by linarith
        rw [h]
        push_cast
        calc ((2 * m)! : ℝ) * ((2 * m + 1) * (2 * m + 2) * 2 ^ (j + 1))
            = 2 * (1 * (((2 * m)! : ℝ) * ((2 * m + 1) * (2 * m + 2) * 2 ^ j))) := by ring
          _ ≤ (2 * (j + (m + 1)) + 2) * ((2 * (j + (m + 1)) + 1) * (2 * (j + (m + 1)))!) := by
            gcongr
  have hpow : (n : ℝ) ^ m * (1 / n) ^ (j + (m + 1)) ≤ 1 := by
    rw [div_pow, one_pow, mul_one_div, div_le_one (by positivity)]
    exact pow_le_pow_right₀ hn1 (by omega)
  unfold scale term
  calc (n : ℝ) ^ m * (2 * m)! * ((1 / n) ^ (j + (m + 1)) / (2 * (j + (m + 1)))!)
      = (n ^ m * (1 / n) ^ (j + (m + 1))) * ((2 * m)! / (2 * (j + (m + 1)))!) := by ring
    _ ≤ 1 * ((2 * m)! / (2 * (j + (m + 1)))!) := by gcongr
    _ ≤ 1 * ((2 * m)! / ((2 * m)! * ((2 * m + 1) * (2 * m + 2) * 2 ^ j))) := by gcongr
    _ = 1 / (2 * m + 2) * (1 / 2) ^ j * (1 / (2 * m + 1)) := by
      rw [div_pow, one_pow]
      field_simp

/-- The scaled tail after `m`, times `m`, is less than one. -/
theorem scale_mul_tail_lt {n m : ℕ} (hn : 0 < n) (hm : 0 < m) {x : ℝ} (hx : x ^ 2 = 1 / n) :
    m * (scale n m * tsum fun j => term n (j + (m + 1))) < 1 := by
  have hsum := (summable_nat_add_iff (m + 1)).mpr (hasSum_term hx).summable
  have hgeom : HasSum (fun j : ℕ => 1 / (2 * m + 2 : ℝ) * (1 / 2) ^ j * (1 / (2 * m + 1 : ℝ)))
      (1 / (2 * m + 2) * 2 * (1 / (2 * m + 1))) :=
    (hasSum_geometric_two.mul_left _).mul_right _
  have hle : (scale n m * tsum fun j => term n (j + (m + 1)))
      ≤ 1 / (2 * m + 2) * 2 * (1 / (2 * m + 1)) := by
    rw [← tsum_mul_left, ← hgeom.tsum_eq]
    exact (hsum.mul_left _).tsum_le_tsum (scale_mul_term_le hn) hgeom.summable
  have hm1 : (1 : ℝ) ≤ m := by exact_mod_cast hm
  calc (m : ℝ) * (scale n m * tsum fun j => term n (j + (m + 1)))
      ≤ m * (1 / (2 * m + 2) * 2 * (1 / (2 * m + 1))) := by gcongr
    _ = m / ((m + 1) * (2 * m + 1)) := by
      field_simp
    _ < 1 := by
      rw [div_lt_one (by positivity)]
      nlinarith

/-- `cosh (1 / √n)` is not rational. -/
theorem cosh_ne_rat {n : ℕ} (hn : 0 < n) {x : ℝ} (hx : x ^ 2 = 1 / n) (p : ℚ) :
    Real.cosh x ≠ p := by
  intro hp
  have hden : 0 < p.den := p.den_pos
  have hsum := (hasSum_term hx).summable
  -- the scaled value is its whole part and the tail
  have hsplit := hsum.sum_add_tsum_nat_add (p.den + 1)
  rw [(hasSum_term hx).tsum_eq, hp] at hsplit
  have hwhole : ∃ a : ℕ, scale n p.den * ∑ k ∈ Finset.range (p.den + 1), term n k = a := by
    rw [Finset.mul_sum]
    choose! a ha using fun k (hk : k ≤ p.den) => exists_nat_scale_mul_term (m := p.den) hn hk
    refine ⟨∑ k ∈ Finset.range (p.den + 1), a k, ?_⟩
    push_cast
    apply Finset.sum_congr rfl
    intro k hk
    exact ha k (by have := Finset.mem_range.mp hk; omega)
  obtain ⟨a, ha⟩ := hwhole
  have htail := scale_mul_tail_lt hn hden hx
  have hpos : 0 < p.den * (scale n p.den * tsum fun j => term n (j + (p.den + 1))) := by
    have hden' : (0 : ℝ) < p.den := by exact_mod_cast hden
    have htsum := ((summable_nat_add_iff (p.den + 1)).mpr hsum).tsum_pos
      (fun j => (term_pos hn _).le) 0 (term_pos hn _)
    have := scale_pos hn p.den
    positivity
  have hnum : (p.den : ℝ) * p = p.num := by
    have := Rat.den_mul_eq_num p
    exact_mod_cast this
  have hint : (p.den : ℝ) * (scale n p.den * tsum fun j => term n (j + (p.den + 1)))
      = ((n ^ p.den * (2 * p.den)! * p.num - p.den * a : ℤ) : ℝ) := by
    have hrest : (tsum fun j => term n (j + (p.den + 1)))
        = p - ∑ k ∈ Finset.range (p.den + 1), term n k := by
      rw [← hsplit]
      ring
    rw [hrest, mul_sub, ha, mul_sub]
    push_cast
    rw [← hnum]
    unfold scale
    ring
  rw [hint] at hpos htail
  have h0 : (0 : ℤ) < n ^ p.den * (2 * p.den)! * p.num - p.den * a := by exact_mod_cast hpos
  have h1 : (n ^ p.den * (2 * p.den)! * p.num - p.den * a : ℤ) < 1 := by exact_mod_cast htail
  omega

/-- The logarithm of a positive rational does not square to `1 / n`. -/
theorem log_sq_ne {n : ℕ} (hn : 0 < n) {q : ℚ} (hq : 0 < q) : Real.log q ^ 2 ≠ 1 / n := by
  intro h
  have hq' : (0 : ℝ) < q := by exact_mod_cast hq
  apply cosh_ne_rat hn h ((q + q⁻¹) / 2)
  rw [Real.cosh_eq, Real.exp_neg, Real.exp_log hq']
  push_cast
  rfl

end LogSquare
end MagnumOpus
