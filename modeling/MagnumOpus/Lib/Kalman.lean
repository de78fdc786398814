import Mathlib.Algebra.Order.Field.Basic
import Mathlib.Tactic.FieldSimp
import Mathlib.Tactic.Linarith
import Mathlib.Tactic.LinearCombination
import Mathlib.Tactic.Positivity
import Mathlib.Tactic.Ring

/-!
# A scalar Kalman filter

The filter estimates a factor `β` in `y = β * H + ε` from observations `(y, H)`.  The gain and
the variance after an observation are one-to-one in the variance before it, so two filters that
agree on the estimate and not on the variance go on agreeing exactly as long as no observation
moves the estimate (`run_beta_eq_iff`).
-/

namespace MagnumOpus
namespace Kalman

/-- The estimate and its variance. -/
structure State (K : Type*) where
  beta : K
  P : K

section defs

variable {K : Type*} [Field K] [DecidableEq K]

/-- The gain at a predicted variance. -/
def gain (R P H : K) : K := if H * P * H + R ≠ 0 then P * H / (H * P * H + R) else 0

/-- One observation: predict, then correct. -/
def update (Q R : K) (s : State K) (o : K × K) : State K :=
  let pred := s.P + Q
  let k := gain R pred o.2
  ⟨s.beta + k * (o.1 - s.beta * o.2), (1 - k * o.2) * pred⟩

/-- The states after each observation. -/
def run (Q R : K) (s : State K) : List (K × K) → List (State K)
  | [] => []
  | o :: obs => update Q R s o :: run Q R (update Q R s o) obs

@[simp] theorem run_length (Q R : K) (s : State K) (obs : List (K × K)) :
    (run Q R s obs).length = obs.length := by
  induction obs generalizing s with
  | nil => rfl
  | cons o obs ih => rw [run, List.length_cons, ih, List.length_cons]

@[simp] theorem gain_zero (R P : K) : gain R P 0 = 0 := by
  unfold gain
  rw [mul_zero, mul_zero, zero_div, ite_self]

theorem update_beta (Q R : K) (s : State K) (o : K × K) :
    (update Q R s o).beta = s.beta + gain R (s.P + Q) o.2 * (o.1 - s.beta * o.2) := rfl

/-- An observation that fits the estimate, or shows nothing, leaves it. -/
theorem update_beta_eq_self {Q R : K} {s : State K} {o : K × K}
    (h : o.2 = 0 ∨ o.1 = s.beta * o.2) : (update Q R s o).beta = s.beta := by
  rw [update_beta]
  rcases h with h | h
  · rw [h, gain_zero, zero_mul, add_zero]
  · rw [h, sub_self, mul_zero, add_zero]

/-- Observations that fit leave every estimate where it was. -/
theorem run_beta_const {Q R : K} {s : State K} {obs : List (K × K)}
    (h : ∀ o ∈ obs, o.2 = 0 ∨ o.1 = s.beta * o.2) :
    (run Q R s obs).map State.beta = List.replicate obs.length s.beta := by
  induction obs generalizing s with
  | nil => rfl
  | cons o obs ih =>
      rw [List.forall_mem_cons] at h
      have hself := update_beta_eq_self (Q := Q) (R := R) h.1
      rw [run, List.map_cons, List.length_cons, List.replicate_succ, hself,
        ih (by rw [hself]; exact h.2), hself]

end defs

section gain

variable {K : Type*} [Field K] [LinearOrder K] [IsStrictOrderedRing K]
  {Q R P P' H : K} {s s' : State K} {o : K × K}

theorem innovation_pos (hR : 0 < R) (hP : 0 < P) : 0 < H * P * H + R := by
  have h : 0 ≤ H * P * H := by
    have hsq := mul_nonneg (mul_self_nonneg H) hP.le
    linarith [mul_right_comm H H P]
  linarith

theorem gain_eq (hR : 0 < R) (hP : 0 < P) : gain R P H = P * H / (H * P * H + R) := by
  unfold gain
  rw [if_pos (innovation_pos hR hP).ne']

theorem one_sub_gain_mul (hR : 0 < R) (hP : 0 < P) :
    1 - gain R P H * H = R / (H * P * H + R) := by
  have hS := (innovation_pos (H := H) hR hP).ne'
  rw [gain_eq hR hP]
  field_simp
  ring

theorem one_sub_gain_mul_pos (hR : 0 < R) (hP : 0 < P) : 0 < 1 - gain R P H * H := by
  rw [one_sub_gain_mul hR hP]
  exact div_pos hR (innovation_pos hR hP)

/-- The gain tells variances apart as long as there is something to observe. -/
theorem gain_injective (hR : 0 < R) (hP : 0 < P) (hP' : 0 < P') (hH : H ≠ 0)
    (h : gain R P H = gain R P' H) : P = P' := by
  have hS := (innovation_pos (H := H) hR hP).ne'
  have hS' := (innovation_pos (H := H) hR hP').ne'
  rw [gain_eq hR hP, gain_eq hR hP', div_eq_div_iff hS hS'] at h
  have hfactor : H * R * P = H * R * P' := by linear_combination h
  exact mul_left_cancel₀ (mul_ne_zero hH hR.ne') hfactor

/-! ### One observation -/

theorem update_P (hR : 0 < R) (hP : 0 < s.P + Q) :
    (update Q R s o).P = R * (s.P + Q) / (o.2 * (s.P + Q) * o.2 + R) := by
  have h : (update Q R s o).P = (1 - gain R (s.P + Q) o.2 * o.2) * (s.P + Q) := rfl
  rw [h, one_sub_gain_mul hR hP, div_mul_eq_mul_div]

theorem update_P_pos (hR : 0 < R) (hP : 0 < s.P + Q) : 0 < (update Q R s o).P := by
  rw [update_P hR hP]
  exact div_pos (mul_pos hR hP) (innovation_pos hR hP)

theorem update_P_injective (hR : 0 < R) (hP : 0 < s.P + Q) (hP' : 0 < s'.P + Q)
    (h : (update Q R s o).P = (update Q R s' o).P) : s.P = s'.P := by
  have hS := (innovation_pos (H := o.2) hR hP).ne'
  have hS' := (innovation_pos (H := o.2) hR hP').ne'
  rw [update_P hR hP, update_P hR hP', div_eq_div_iff hS hS'] at h
  have hfactor : R * R * s.P = R * R * s'.P := by linear_combination h
  exact mul_left_cancel₀ (mul_ne_zero hR.ne' hR.ne') hfactor

/-- Filters with different variances agree after an observation only if it moves neither. -/
theorem update_beta_eq_iff (hR : 0 < R) (hP : 0 < s.P + Q) (hP' : 0 < s'.P + Q)
    (hbeta : s.beta = s'.beta) (hne : s.P ≠ s'.P) :
    (update Q R s o).beta = (update Q R s' o).beta ↔ o.2 = 0 ∨ o.1 = s.beta * o.2 := by
  constructor
  · intro h
    rw [update_beta, update_beta, ← hbeta, add_right_inj] at h
    by_contra hmoves
    rw [not_or] at hmoves
    have hres : o.1 - s.beta * o.2 ≠ 0 := sub_ne_zero.mpr hmoves.2
    have hgain := gain_injective hR hP hP' hmoves.1 (mul_right_cancel₀ hres h)
    exact hne (add_right_cancel hgain)
  · intro h
    rw [update_beta_eq_self h, update_beta_eq_self (by rwa [← hbeta]), hbeta]

end gain

/-! ### Runs -/

section runs

variable {K : Type*} [Field K] [LinearOrder K] [IsStrictOrderedRing K] {Q R : K}

/-- Two filters that agree on the estimate and not on the variance give the same estimates
exactly when no observation moves them. -/
theorem run_beta_eq_iff (hQ : 0 ≤ Q) (hR : 0 < R) {s s' : State K} (hP : 0 < s.P)
    (hP' : 0 < s'.P) (hbeta : s.beta = s'.beta) (hne : s.P ≠ s'.P) (obs : List (K × K)) :
    (run Q R s obs).map State.beta = (run Q R s' obs).map State.beta ↔
      ∀ o ∈ obs, o.2 = 0 ∨ o.1 = s.beta * o.2 := by
  induction obs generalizing s s' with
  | nil => simp [run]
  | cons o obs ih =>
      have hpred : 0 < s.P + Q := add_pos_of_pos_of_nonneg hP hQ
      have hpred' : 0 < s'.P + Q := add_pos_of_pos_of_nonneg hP' hQ
      rw [run, run, List.map_cons, List.map_cons, List.cons.injEq, List.forall_mem_cons,
        update_beta_eq_iff hR hpred hpred' hbeta hne]
      refine and_congr_right fun ho => ?_
      have hsame : (update Q R s o).beta = (update Q R s' o).beta :=
        (update_beta_eq_iff hR hpred hpred' hbeta hne).mpr ho
      rw [ih (update_P_pos hR hpred) (update_P_pos hR hpred') hsame
        (fun h => hne (update_P_injective hR hpred hpred' h)), update_beta_eq_self ho]

end runs

end Kalman
end MagnumOpus
