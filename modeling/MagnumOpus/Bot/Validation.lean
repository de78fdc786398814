import Mathlib.Algebra.BigOperators.Group.List.Basic
import Mathlib.Algebra.Order.BigOperators.Group.List
import Mathlib.Algebra.Order.Field.Basic
import Mathlib.Algebra.Order.Field.Rat

/-! # The verdict of a validation

`run_walk_forward` and `generate_validation_report` (`backtest/validation.py`).  What the runs on
the two parts of a fold come to is given (`FoldRun`); numbers are exact here.

The degradation of a fold is one less the share of the in-sample profit that is left out of sample.
For a fold with an in-sample loss a better result raises that term.  So the verdict never turns from
a pass to a failure when the folds get better, exactly when no fold has an in-sample loss
(`monotone_iff`). -/

namespace MagnumOpus.Bot

/-! ### The walk-forward report -/

structure FoldResult where
  fold : ℕ
  sharpe : ℚ
  maxDrawdown : ℚ
  pnlDegradation : ℚ
  oosPnl : ℚ
deriving DecidableEq

structure WalkForwardReport where
  folds : List FoldResult
  meanSharpe : ℚ
  meanDrawdown : ℚ
  meanDegradation : ℚ

/-- What the runs on a fold come to, in sample and out of sample. -/
structure FoldRun where
  isPnl : ℚ
  oosSharpe : ℚ
  oosDrawdown : ℚ
  oosPnl : ℚ

namespace FoldRun

def degradation (r : FoldRun) : ℚ := if r.isPnl ≠ 0 then 1 - r.oosPnl / r.isPnl else 0

def result (fold : ℕ) (r : FoldRun) : FoldResult :=
  ⟨fold, r.oosSharpe, r.oosDrawdown, r.degradation, r.oosPnl⟩

/-- The in-sample profit is the same, and out of sample the second is at least as good. -/
structure Improves (r r' : FoldRun) : Prop where
  isPnl : r'.isPnl = r.isPnl
  oosSharpe : r.oosSharpe ≤ r'.oosSharpe
  oosDrawdown : r'.oosDrawdown ≤ r.oosDrawdown
  oosPnl : r.oosPnl ≤ r'.oosPnl

end FoldRun

/-- The mean of no values is `0`. -/
def meanOf (xs : List ℚ) : ℚ := if xs.length ≠ 0 then xs.sum / xs.length else 0

/-- The loop over the folds and the means. -/
def runWalkForward (runs : List FoldRun) : WalkForwardReport :=
  let folds := runs.mapIdx FoldRun.result
  { folds := folds
    meanSharpe := meanOf (folds.map FoldResult.sharpe)
    meanDrawdown := meanOf (folds.map FoldResult.maxDrawdown)
    meanDegradation := meanOf (folds.map FoldResult.pnlDegradation) }

/-! ### The verdict -/

structure StressWindowResult where
  name : String
  sharpe : ℚ
  maxDrawdown : ℚ

structure StressTestReport where
  windows : List StressWindowResult

structure FeeImpactReport where
  passes : Bool
  requiredEdge : ℚ
  meanSignalEdge : ℚ
  margin : ℚ

/-- The thresholds, with the defaults of the code. -/
structure Thresholds where
  minSharpe : ℚ := 1
  maxDrawdownThreshold : ℚ := mkRat 15 100
  maxDegradation : ℚ := mkRat 30 100
  stressMaxDrawdownThreshold : ℚ := mkRat 30 100

structure ValidationReport where
  passes : Bool
  feeGateRan : Bool
  feeGatePassed : Option Bool
  walkForwardRan : Bool
  stressTestRan : Bool
  monteCarloRan : Bool
  meanSharpe : ℚ
  meanDrawdown : ℚ
  meanDegradation : ℚ
  monteCarlo5thPct : ℚ
  sharpeOk : Bool
  drawdownOk : Bool
  degradationOk : Bool
  monteCarloOk : Bool
  stressDrawdownOk : Bool
  worstStressDrawdown : ℚ
  thresholds : Thresholds

/-- The largest drawdown of a window, `0` without windows. -/
def worstStressDd (stress : Option StressTestReport) : ℚ :=
  match stress with
  | some report => (report.windows.map StressWindowResult.maxDrawdown).max?.getD 0
  | none => 0

def generateValidationReport (walkForward : Option WalkForwardReport)
    (stress : Option StressTestReport) (monteCarloPct5 : Option ℚ)
    (feeGate : Option FeeImpactReport) (thresholds : Thresholds) : ValidationReport :=
  let feeGatePassed := feeGate.map FeeImpactReport.passes
  let worst := worstStressDd stress
  let stressDrawdownOk := decide (worst ≤ thresholds.stressMaxDrawdownThreshold)
  if feeGatePassed = some false then
    { passes := false
      feeGateRan := true
      feeGatePassed := some false
      walkForwardRan := false
      stressTestRan := stress.isSome
      monteCarloRan := false
      meanSharpe := 0
      meanDrawdown := 0
      meanDegradation := 0
      monteCarlo5thPct := 0
      sharpeOk := false
      drawdownOk := false
      degradationOk := false
      monteCarloOk := false
      stressDrawdownOk := stressDrawdownOk
      worstStressDrawdown := worst
      thresholds := thresholds }
  else
    let meanSharpe := walkForward.elim 0 WalkForwardReport.meanSharpe
    let meanDrawdown := walkForward.elim 0 WalkForwardReport.meanDrawdown
    let meanDegradation := walkForward.elim 0 WalkForwardReport.meanDegradation
    let mcPct5 := monteCarloPct5.getD 0
    let sharpeOk := decide (thresholds.minSharpe ≤ meanSharpe)
    let drawdownOk := decide (meanDrawdown ≤ thresholds.maxDrawdownThreshold)
    let degradationOk := decide (meanDegradation ≤ thresholds.maxDegradation)
    let monteCarloOk := decide (0 < mcPct5)
    { passes := [sharpeOk, drawdownOk, degradationOk, monteCarloOk, stressDrawdownOk].all id
      feeGateRan := feeGate.isSome
      feeGatePassed := feeGatePassed
      walkForwardRan := walkForward.isSome
      stressTestRan := stress.isSome
      monteCarloRan := monteCarloPct5.isSome
      meanSharpe := meanSharpe
      meanDrawdown := meanDrawdown
      meanDegradation := meanDegradation
      monteCarlo5thPct := mcPct5
      sharpeOk := sharpeOk
      drawdownOk := drawdownOk
      degradationOk := degradationOk
      monteCarloOk := monteCarloOk
      stressDrawdownOk := stressDrawdownOk
      worstStressDrawdown := worst
      thresholds := thresholds }

section Monotone

variable {runs runs' : List FoldRun} {r r' : FoldRun}

/-! ### The means -/

theorem map_results {g : FoldResult → ℚ} {g' : FoldRun → ℚ} (h : ∀ i r, g (r.result i) = g' r)
    (runs : List FoldRun) : (runs.mapIdx FoldRun.result).map g = runs.map g' := by
  refine List.ext_getElem? fun i => ?_
  rw [List.getElem?_map, List.getElem?_mapIdx, List.getElem?_map, Option.map_map]
  exact congrArg (Option.map · runs[i]?) (funext (h i))

theorem meanSharpe_runWalkForward (runs : List FoldRun) :
    (runWalkForward runs).meanSharpe = meanOf (runs.map FoldRun.oosSharpe) :=
  congrArg meanOf (map_results (fun _ _ => rfl) runs)

theorem meanDrawdown_runWalkForward (runs : List FoldRun) :
    (runWalkForward runs).meanDrawdown = meanOf (runs.map FoldRun.oosDrawdown) :=
  congrArg meanOf (map_results (fun _ _ => rfl) runs)

theorem meanDegradation_runWalkForward (runs : List FoldRun) :
    (runWalkForward runs).meanDegradation = meanOf (runs.map FoldRun.degradation) :=
  congrArg meanOf (map_results (fun _ _ => rfl) runs)

theorem meanOf_le {α : Type*} {R : α → α → Prop} {f g : α → ℚ} {xs ys : List α}
    (h : List.Forall₂ R xs ys) (hR : ∀ x y, R x y → f x ≤ g y) :
    meanOf (xs.map f) ≤ meanOf (ys.map g) := by
  have hle : List.Forall₂ (· ≤ ·) (xs.map f) (ys.map g) := by
    rw [List.forall₂_map_left_iff, List.forall₂_map_right_iff]
    exact h.imp hR
  simp only [meanOf, List.length_map, h.length_eq]
  split
  · exact div_le_div_of_nonneg_right hle.sum_le_sum (Nat.cast_nonneg _)
  · exact le_refl 0

/-- Without an in-sample loss, a better fold is degraded no more. -/
theorem FoldRun.Improves.degradation_le (h : r.Improves r') (hnonneg : 0 ≤ r.isPnl) :
    r'.degradation ≤ r.degradation := by
  simp only [degradation, h.isPnl]
  split
  · exact sub_le_sub_left (div_le_div_of_nonneg_right h.oosPnl hnonneg) 1
  · exact le_refl 0

theorem FoldRun.Improves.degradation_lt (h : r.Improves r') (hneg : r.isPnl < 0)
    (hlt : r.oosPnl < r'.oosPnl) : r.degradation < r'.degradation := by
  simp only [degradation, h.isPnl, ne_eq, hneg.ne, not_false_eq_true, if_true]
  exact sub_lt_sub_left (div_lt_div_of_neg_of_lt hneg hlt) 1

/-! ### The verdict -/

theorem passes_iff {walkForward : WalkForwardReport} {stress : Option StressTestReport}
    {monteCarloPct5 : Option ℚ} {feeGate : Option FeeImpactReport} {thresholds : Thresholds} :
    (generateValidationReport (some walkForward) stress monteCarloPct5 feeGate
        thresholds).passes = true ↔
      feeGate.map FeeImpactReport.passes ≠ some false ∧
      thresholds.minSharpe ≤ walkForward.meanSharpe ∧
      walkForward.meanDrawdown ≤ thresholds.maxDrawdownThreshold ∧
      walkForward.meanDegradation ≤ thresholds.maxDegradation ∧
      0 < monteCarloPct5.getD 0 ∧
      worstStressDd stress ≤ thresholds.stressMaxDrawdownThreshold := by
  unfold generateValidationReport
  by_cases hfee : feeGate.map FeeImpactReport.passes = some false
  · simp [hfee]
  · simp only [if_neg hfee, List.all_cons, List.all_nil, id_eq, Bool.and_true, Bool.and_eq_true,
      decide_eq_true_eq]
    exact (and_iff_right hfee).symm

/-- Folds that are nowhere worse keep a verdict that passes, whatever else is asked. -/
def MonotoneAt (isPnls : List ℚ) : Prop :=
  ∀ runs runs' : List FoldRun, runs.map FoldRun.isPnl = isPnls →
    List.Forall₂ FoldRun.Improves runs runs' → ∀ stress monteCarloPct5 feeGate thresholds,
      (generateValidationReport (some (runWalkForward runs)) stress monteCarloPct5 feeGate
        thresholds).passes = true →
      (generateValidationReport (some (runWalkForward runs')) stress monteCarloPct5 feeGate
        thresholds).passes = true

theorem monotoneAt_of_nonneg {isPnls : List ℚ} (h : ∀ p ∈ isPnls, 0 ≤ p) : MonotoneAt isPnls := by
  rintro runs runs' rfl himproves stress mc fee thresholds hpass
  obtain ⟨hfee, hsharpe, hdrawdown, hdegradation, hmc, hstress⟩ := passes_iff.mp hpass
  have hmembers : List.Forall₂ (fun r r' => r ∈ runs ∧ r.Improves r') runs runs' :=
    List.forall₂_iff_zip.mpr ⟨himproves.length_eq, fun hmem =>
      ⟨(List.of_mem_zip hmem).1, (List.forall₂_iff_zip.mp himproves).2 hmem⟩⟩
  refine passes_iff.mpr ⟨hfee, hsharpe.trans ?_, le_trans ?_ hdrawdown, le_trans ?_ hdegradation,
    hmc, hstress⟩
  · rw [meanSharpe_runWalkForward, meanSharpe_runWalkForward]
    exact meanOf_le himproves fun _ _ hr => hr.oosSharpe
  · rw [meanDrawdown_runWalkForward, meanDrawdown_runWalkForward]
    exact meanOf_le himproves.flip fun _ _ hr => hr.oosDrawdown
  · rw [meanDegradation_runWalkForward, meanDegradation_runWalkForward]
    exact meanOf_le hmembers.flip fun _ _ hr =>
      hr.2.degradation_le (h _ (List.mem_map_of_mem hr.1))

/-- A run with nothing out of sample, and one that gains there where it had lost. -/
def idleRun (isPnl : ℚ) : FoldRun := ⟨isPnl, 0, 0, 0⟩

def gainingRun (isPnl : ℚ) : FoldRun := ⟨isPnl, 0, 0, if isPnl < 0 then 1 else 0⟩

theorem idleRun_improves (isPnl : ℚ) : (idleRun isPnl).Improves (gainingRun isPnl) where
  isPnl := rfl
  oosSharpe := le_refl 0
  oosDrawdown := le_refl 0
  oosPnl := by
    simp only [idleRun, gainingRun]
    split
    · exact zero_le_one
    · exact le_refl 0

/-- **When the verdict is monotone**: exactly when no fold has an in-sample loss. -/
theorem monotone_iff (isPnls : List ℚ) : MonotoneAt isPnls ↔ ∀ p ∈ isPnls, 0 ≤ p := by
  refine ⟨fun h p hp => ?_, monotoneAt_of_nonneg⟩
  by_contra hneg
  have hneg : p < 0 := not_le.mp hneg
  let idle := runWalkForward (isPnls.map idleRun)
  let gaining := runWalkForward (isPnls.map gainingRun)
  -- The thresholds that the idle runs just meet.
  let thresholds : Thresholds := ⟨idle.meanSharpe, idle.meanDrawdown, idle.meanDegradation, 0⟩
  have himproves : List.Forall₂ FoldRun.Improves (isPnls.map idleRun) (isPnls.map gainingRun) := by
    rw [List.forall₂_map_left_iff, List.forall₂_map_right_iff]
    exact List.forall₂_same.mpr fun p _ => idleRun_improves p
  have hpass := h (isPnls.map idleRun) (isPnls.map gainingRun)
    (by simp [idleRun, Function.comp_def])
    himproves none (some 1) none thresholds
    (passes_iff.mpr ⟨by simp, le_refl _, le_refl _, le_refl _, zero_lt_one, le_refl 0⟩)
  obtain ⟨-, -, -, hle, -, -⟩ := passes_iff.mp hpass
  have hlt : idle.meanDegradation < gaining.meanDegradation := by
    have hsum : ((isPnls.map fun p => (idleRun p).degradation).sum) <
        (isPnls.map fun p => (gainingRun p).degradation).sum := by
      refine List.sum_lt_sum _ _ (fun q _ => ?_) ⟨p, hp, ?_⟩
      · by_cases hq : q < 0
        · exact ((idleRun_improves q).degradation_lt hq (by simp [idleRun, gainingRun, hq])).le
        · simp [idleRun, gainingRun, hq]
      · exact (idleRun_improves p).degradation_lt hneg (by simp [idleRun, gainingRun, hneg])
    have hne : isPnls.length ≠ 0 := (List.length_pos_of_mem hp).ne'
    simp only [idle, gaining, meanDegradation_runWalkForward, meanOf, List.map_map,
      List.length_map, if_pos hne]
    exact div_lt_div_of_pos_right hsum (Nat.cast_pos.mpr (Nat.pos_of_ne_zero hne))
  exact absurd hle (not_le.mpr hlt)

/-- A fold that loses 100 in sample passes with a loss of 100 out of sample, and fails with a
profit of 50. -/
theorem not_monotoneAt_of_loss : ¬ ∀ isPnls : List ℚ, MonotoneAt isPnls := by
  intro h
  have himproves : List.Forall₂ FoldRun.Improves [⟨-100, 2, 0, -100⟩] [⟨-100, 2, 0, 50⟩] :=
    .cons ⟨rfl, le_refl _, le_refl _, by decide +kernel⟩ .nil
  have hpass := h [-100] _ _ rfl himproves none (some 1) none {} (by decide +kernel)
  exact absurd hpass (by decide +kernel)

end Monotone

end MagnumOpus.Bot
