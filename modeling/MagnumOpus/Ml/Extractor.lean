import Mathlib.Algebra.BigOperators.Group.Finset.Basic
import Mathlib.Algebra.Order.Field.Basic
import Mathlib.Data.Option.NAry
import Mathlib.Tactic.Linarith
import Mathlib.Tactic.NormNum
import MagnumOpus.Lib.Reach

/-!
# The feature extractor

`_add_rolling_features` over the rows of a day.  A column is a function of the frame and a
position; a missing number (NaN) is `none`.  A regression over identical values raises and takes
the day with it, so the windows that regress return one `Option` more.

A column the frame does not have reads as one that is missing throughout: every optional column
goes through `fillna(0)`, and the two whole-column fallbacks ask for either.
-/

namespace MagnumOpus
namespace Ml

open Reach

/-- The columns of `snapshot_1s` the extractor reads. -/
structure Snapshot (K : Type*) where
  bestBid : Option K
  bestAsk : Option K
  ofiL1 : Option K
  spreadMean : Option K
  volume : Option K
  buyVolume : Option K
  bidDepthL1Close : Option K
  askDepthL1Close : Option K
  micropriceMidDelta : Option K
  hawkesIntensity : Option K
  cancelBias : Option K
  bidCancelCount : Option K
  askCancelCount : Option K
  deriving DecidableEq

/-- The library functions behind the features: `np.log`, `np.sqrt`, `savgol_filter(_, 5, 2)` and
the slope of `linregress`. -/
structure Numerics (K : Type*) where
  log : K → K
  sqrt : K → K
  savgolFilter : List K → List K
  linregress : List K → List K → K

/-- The columns `_add_rolling_features` adds or fills, beside the row itself. -/
structure FeatureRow (K : Type*) where
  row : Snapshot K
  ofiSg : Option K
  spreadSg : Option K
  netBuyFraction : K
  depthImbalanceL1 : K
  hurst20 : Option K
  hurst60 : Option K
  ouHalflife : Option K
  kyleLambda60 : Option K
  ofiXSpread : Option K
  micropriceXHawkes : K
  micropriceMidDelta : Option K
  cancelBias : Option K
  deriving DecidableEq

section windows

variable {K : Type*} [Field K] [LinearOrder K]

def mean (xs : List K) : K := xs.sum / xs.length

/-- `c.std()` of a numpy array: the deviation over `n`. -/
def std (N : Numerics K) (xs : List K) : K :=
  N.sqrt (mean (xs.map fun x => (x - mean xs) ^ 2))

def maxOf (xs : List K) : K := xs.foldl max (xs.headD 0)

def minOf (xs : List K) : K := xs.foldl min (xs.headD 0)

/-- `np.cumsum`. -/
def cumsum (xs : List K) : List K := (xs.scanl (· + ·) 0).tail

/-- `np.clip`. -/
def clip (lo hi x : K) : K := min hi (max lo x)

/-- `linregress`: it raises when all x values are identical. -/
def regress (N : Numerics K) (xs ys : List K) : Option K :=
  if ∀ x ∈ xs, ∀ x' ∈ xs, x = x' then none else some (N.linregress xs ys)

/-- `[series[i : i + lag] for i in range(0, n - lag, lag)]`. -/
def chunks (lag : ℕ) (series : List K) : List (List K) :=
  (List.range' 0 ((series.length - lag + (lag - 1)) / lag) lag).map fun i =>
    (series.drop i).take lag

/-- The rescaled range of a chunk, unless it is flat. -/
def rescaledRange (N : Numerics K) (c : List K) : Option K :=
  if std N c < 1 / ((10 : ℕ) : K) ^ 10 then none
  else
    let cumdev := cumsum (c.map (· - mean c))
    some ((maxOf cumdev - minOf cumdev) / std N c)

/-- The lags `_hurst` tries on a series of `n` values. -/
def hurstLags (n : ℕ) : List ℕ := [4, 8, 16, min 32 (n / 2)]

/-- The lag's point of the regression. -/
def hurstPoint (N : Numerics K) (series : List K) (lag : ℕ) : Option (K × K) :=
  if series.length ≤ lag then none
  else
    let rsList := (chunks lag series).filterMap (rescaledRange N)
    if rsList.isEmpty then none else some (N.log lag, N.log (mean rsList))

/-- `_hurst`. -/
def hurst (N : Numerics K) (series : List K) : Option K :=
  if series.length < 20 then some (1 / ((2 : ℕ) : K))
  else
    let points := (hurstLags series.length).filterMap (hurstPoint N series)
    if points.length < 2 then some (1 / ((2 : ℕ) : K))
    else (regress N (points.map Prod.fst) (points.map Prod.snd)).map (clip 0 1)

/-- `_ou_halflife`. -/
def ouHalflife (N : Numerics K) (series : List K) : Option K :=
  if series.length < 10 then some ((60 : ℕ) : K)
  else if maxOf series.dropLast - minOf series.dropLast < 1 / ((10 : ℕ) : K) ^ 10 then
    some ((60 : ℕ) : K)
  else (regress N series.dropLast series.tail).map fun slope =>
    if slope ≤ 0 ∨ 1 ≤ slope then ((60 : ℕ) : K)
    else clip 1 ((300 : ℕ) : K) (-N.log ((2 : ℕ) : K) / N.log slope)

/-- The pairs of a Kyle window with both numbers present. -/
def finitePairs (pairs : List (Option K × Option K)) : List (K × K) :=
  pairs.filterMap fun p => Option.map₂ Prod.mk p.1 p.2

/-- `_kyle_lambda` over pairs of a mid change and a smoothed OFI. -/
def kyleLambda (N : Numerics K) (pairs : List (Option K × Option K)) : Option K :=
  let kept := finitePairs pairs
  if kept.length < 10 then some 0
  else regress N (kept.map Prod.snd) (kept.map Prod.fst)

end windows

section columns

variable {K : Type*} [Field K] [LinearOrder K]

/-- A column as the frame has it. -/
def raw (f : Snapshot K → Option K) (rows : List (Snapshot K)) (i : ℕ) : Option K :=
  rows[i]?.bind f

/-- A column after `fillna(0)`. -/
def filled (f : Snapshot K → Option K) (rows : List (Snapshot K)) (i : ℕ) : K :=
  (raw f rows i).getD 0

/-- Difference of two numbers, missing where either is. -/
def change (a b : Option K) : Option K := Option.map₂ (fun x y => y - x) a b

def bid (rows : List (Snapshot K)) (i : ℕ) : Option K := ffill (raw (·.bestBid)) rows i

def ask (rows : List (Snapshot K)) (i : ℕ) : Option K := ffill (raw (·.bestAsk)) rows i

def mid (rows : List (Snapshot K)) (i : ℕ) : Option K :=
  Option.map₂ (fun b a => (b + a) / ((2 : ℕ) : K)) (bid rows i) (ask rows i)

/-- Savitzky-Golay smoothing, left out on frames of fewer than five rows. -/
def smoothed (N : Numerics K) (f : Snapshot K → Option K) (rows : List (Snapshot K)) (i : ℕ) :
    Option K :=
  if 5 ≤ rows.length then (N.savgolFilter (rows.map fun row => (f row).getD 0))[i]?
  else raw f rows i

def ofiSg (N : Numerics K) (rows : List (Snapshot K)) (i : ℕ) : Option K :=
  smoothed N (·.ofiL1) rows i

def spreadSg (N : Numerics K) (rows : List (Snapshot K)) (i : ℕ) : Option K :=
  smoothed N (·.spreadMean) rows i

def netBuyFraction (rows : List (Snapshot K)) (i : ℕ) : K :=
  if 0 < filled (·.volume) rows i then filled (·.buyVolume) rows i / filled (·.volume) rows i
  else 1 / ((2 : ℕ) : K)

/-- The share of `a` over `b` with `eps` in the denominator. -/
def imbalance (eps a b : K) : K := (a - b) / (a + b + eps)

def depthImbalanceL1 (rows : List (Snapshot K)) (i : ℕ) : K :=
  imbalance (1 / ((10 : ℕ) : K) ^ 9) (filled (·.bidDepthL1Close) rows i)
    (filled (·.askDepthL1Close) rows i)

/-- `np.log(mid.replace(0, np.nan))`; the logarithm of a negative number is NaN too. -/
def logMid (N : Numerics K) (rows : List (Snapshot K)) (i : ℕ) : Option K :=
  (mid rows i).bind fun m => if 0 < m then some (N.log m) else none

def logRet (N : Numerics K) : List (Snapshot K) → ℕ → K :=
  diff (fun _ => 0) (fun a b => (change a b).getD 0) (logMid N)

/-- `hurst_20` and `hurst_60`. -/
def hurstColumn (N : Numerics K) (n : ℕ) : List (Snapshot K) → ℕ → Option (Option K) :=
  rolling n (some none) (fun w => (hurst N w).map some) (logRet N)

def ouColumn (N : Numerics K) : List (Snapshot K) → ℕ → Option (Option K) :=
  rolling 60 (some none) (fun w => (ouHalflife N w).map some) (filled (·.micropriceMidDelta))

/-- `np.diff(mid, prepend=mid[0])`. -/
def deltaMid : List (Snapshot K) → ℕ → Option K :=
  diff (fun m => change m m) change mid

/-- The two numbers a Kyle window has at a position. -/
def kylePair (N : Numerics K) (rows : List (Snapshot K)) (i : ℕ) : Option K × Option K :=
  (deltaMid rows i, ofiSg N rows i)

def kyleColumn (N : Numerics K) : List (Snapshot K) → ℕ → Option (Option K) :=
  rolling 60 (some none) (fun w => (kyleLambda N w).map some) (kylePair N)

def ofiXSpread (N : Numerics K) (rows : List (Snapshot K)) (i : ℕ) : Option K :=
  Option.map₂ (· * ·) (ofiSg N rows i) (spreadSg N rows i)

def micropriceXHawkes (rows : List (Snapshot K)) (i : ℕ) : K :=
  filled (·.micropriceMidDelta) rows i * filled (·.hawkesIntensity) rows i

/-- `mp_col is None or mp_col.isna().all()`, and the same for `cancel_bias`. -/
def allMissing (f : Snapshot K → Option K) (rows : List (Snapshot K)) : Bool :=
  rows.all fun row => (f row).isNone

/-- The microprice fallback: deviation from the mid in basis points. -/
def derivedMicroprice (rows : List (Snapshot K)) (i : ℕ) : K :=
  match bid rows i, ask rows i with
  | some b, some a =>
    let bl1 := filled (·.bidDepthL1Close) rows i
    let al1 := filled (·.askDepthL1Close) rows i
    let mp := (a * bl1 + b * al1) / (bl1 + al1 + 1 / ((10 : ℕ) : K) ^ 9)
    let m := (b + a) / ((2 : ℕ) : K)
    if 0 < m then (mp - m) / m * ((10000 : ℕ) : K) else 0
  | _, _ => 0

def derivedCancelBias (rows : List (Snapshot K)) (i : ℕ) : K :=
  imbalance 1 (filled (·.bidCancelCount) rows i) (filled (·.askCancelCount) rows i)

def micropriceMidDelta (rows : List (Snapshot K)) (i : ℕ) : Option K :=
  if allMissing (·.micropriceMidDelta) rows then some (derivedMicroprice rows i)
  else raw (·.micropriceMidDelta) rows i

def cancelBias (rows : List (Snapshot K)) (i : ℕ) : Option K :=
  if allMissing (·.cancelBias) rows then some (derivedCancelBias rows i)
  else raw (·.cancelBias) rows i

/-- One row of the result, unless a regression of the row's windows raises. -/
def featureRow (N : Numerics K) (rows : List (Snapshot K)) (i : ℕ) : Option (FeatureRow K) := do
  let row ← rows[i]?
  let hurst20 ← hurstColumn N 20 rows i
  let hurst60 ← hurstColumn N 60 rows i
  let ouHalflife ← ouColumn N rows i
  let kyleLambda60 ← kyleColumn N rows i
  some {
    row := row
    ofiSg := ofiSg N rows i
    spreadSg := spreadSg N rows i
    netBuyFraction := netBuyFraction rows i
    depthImbalanceL1 := depthImbalanceL1 rows i
    hurst20 := hurst20
    hurst60 := hurst60
    ouHalflife := ouHalflife
    kyleLambda60 := kyleLambda60
    ofiXSpread := ofiXSpread N rows i
    micropriceXHawkes := micropriceXHawkes rows i
    micropriceMidDelta := micropriceMidDelta rows i
    cancelBias := cancelBias rows i }

/-- `_add_rolling_features`. -/
def addRollingFeatures (N : Numerics K) (rows : List (Snapshot K)) :
    Option (List (FeatureRow K)) :=
  (List.range rows.length).mapM (featureRow N rows)

end columns

/-! ### What the library functions are documented to do -/

section documented

variable {K : Type*} [Field K] [LinearOrder K]

/-- The weights, over 35, of the quadratic fitted to five values and read at place `k`. -/
def fitWeights : List (List ℤ) :=
  [[31, 9, -3, -5, 3], [9, 13, 12, 6, -5], [-3, 12, 17, 12, -3], [-5, 6, 12, 13, 9],
    [3, -5, -3, 9, 31]]

def fitWeight (k j : ℕ) : ℤ := (fitWeights.getD k []).getD j 0

/-- The quadratic fitted to the five values from `s` on, read at `i`. -/
def fitAt (xs : List K) (s i : ℕ) : K :=
  (∑ j ∈ Finset.range 5, (fitWeight (i - s) j : K) * xs.getD (s + j) 0) / 35

/-- Where the five values of position `i` start: the window is centred, and at the ends it is
the first or the last one. -/
def windowStart (n i : ℕ) : ℕ := min (i - 2) (n - 5)

/-- `savgol_filter(x, 5, 2)` reads at each position the quadratic fitted to its window, and the
logarithm is one-to-one. -/
structure Numerics.Documented (N : Numerics K) : Prop where
  savgol : ∀ (xs : List K) (i : ℕ), 5 ≤ xs.length → i < xs.length →
    (N.savgolFilter xs)[i]? = some (fitAt xs (windowStart xs.length i) i)
  log_inj : ∀ a b, 0 < a → 0 < b → N.log a = N.log b → a = b

/-- The fit reproduces every quadratic. -/
example : ∀ k < 5, ∑ j ∈ Finset.range 5, fitWeight k j = 35 ∧
    ∑ j ∈ Finset.range 5, fitWeight k j * j = 35 * k ∧
    ∑ j ∈ Finset.range 5, fitWeight k j * j ^ 2 = 35 * k ^ 2 := by
  decide

end documented

end Ml
end MagnumOpus
