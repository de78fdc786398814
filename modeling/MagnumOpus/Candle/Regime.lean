import Mathlib.Algebra.Order.Field.Rat
import Mathlib.Data.List.GetD
import Mathlib.Data.List.Sort

/-! # Market regimes

`Classify` (`regime/classifier.go`) makes one of five regimes of the latest closed bars of a stream,
by tests in a fixed order.  The tests compare ratios, so the regime does not depend on the unit of
the prices or of the spreads (`regimeOf_scale`). -/

namespace MagnumOpus.Candle

inductive Regime
  | thinBook
  | highVol
  | trendingUp
  | trendingDown
  | ranging
  deriving DecidableEq

namespace Regime

def text : Regime → String
  | thinBook => "THIN_BOOK"
  | highVol => "HIGH_VOL"
  | trendingUp => "TRENDING_UP"
  | trendingDown => "TRENDING_DOWN"
  | ranging => "RANGING"

/-- `Config`. -/
structure Config where
  volThreshold : ℚ
  trendThreshold : ℚ
  spreadMult : ℚ
  windowBars : ℕ
  ttlSeconds : ℕ

def defaultConfig : Config where
  volThreshold := mkRat 2 1000
  trendThreshold := mkRat 1 1000
  spreadMult := mkRat 2 1
  windowBars := 10
  ttlSeconds := 180

/-- What is used of `math`. -/
structure Roots where
  log : ℚ → ℚ
  sqrt : ℚ → ℚ

/-- A bar of the stream. -/
structure Bar1m where
  close : ℚ
  spreadMean : ℚ
  deriving DecidableEq

/-! ### The classifier -/

/-- The returns between neighbours. -/
def logReturns (R : Roots) (closes : List ℚ) : List ℚ :=
  closes.zipWith (fun before after => R.log (after / before)) closes.tail

/-- The standard deviation of the returns from their mean. -/
def deviation (R : Roots) (rets : List ℚ) : ℚ :=
  let mean := rets.sum / rets.length
  R.sqrt ((rets.map fun r => (r - mean) * (r - mean)).sum / rets.length)

def realizedVol (R : Roots) (closes : List ℚ) : ℚ :=
  if closes.length < 2 then 0
  else if closes.dropLast.any (· ≤ 0) then 0
  else deviation R (logReturns R closes)

/-- The middle of the sorted values. -/
def median (vals : List ℚ) : ℚ :=
  let sorted := vals.insertionSort fun a b => a ≤ b
  let n := sorted.length
  if n = 0 then 0
  else if n % 2 = 0 then (sorted.getD (n / 2 - 1) 0 + sorted.getD (n / 2) 0) * mkRat 1 2
  else sorted.getD (n / 2) 0

/-- The tests on bars with the newest first. -/
def ofBars (R : Roots) (cfg : Config) (latest : Bar1m) (bars : List Bar1m) : Regime :=
  let medianSpread := median (bars.map Bar1m.spreadMean)
  if 0 < medianSpread ∧ cfg.spreadMult * medianSpread < latest.spreadMean then thinBook
  else if cfg.volThreshold < realizedVol R (bars.reverse.map Bar1m.close) then highVol
  else
    let oldest := bars.getD (min 4 (bars.length - 1)) latest
    if 0 < oldest.close then
      let change := (latest.close - oldest.close) / oldest.close
      if cfg.trendThreshold < |change| then
        if 0 < change then trendingUp else trendingDown
      else ranging
    else ranging

/-- Bars without a price are left out, and fewer than five are too few. -/
def regimeOf (R : Roots) (cfg : Config) (bars : List Bar1m) : Regime :=
  let bars := bars.filter fun b => 0 < b.close
  match bars with
  | [] => ranging
  | latest :: _ => if bars.length < 5 then ranging else ofBars R cfg latest bars

/-- The fields of a message of the stream that are texts. -/
abbrev Values := String → Option String

/-- A text that is not a number is read as zero. -/
def readBar (parseFloat : String → Option ℚ) (values : Values) : Bar1m where
  close := ((values "close").bind parseFloat).getD 0
  spreadMean := ((values "spread_mean").bind parseFloat).getD 0

/-- `Classify`, on the stream, or without an answer. -/
def classify (R : Roots) (parseFloat : String → Option ℚ) (cfg : Config)
    (stream : Option (List Values)) : Regime :=
  match stream with
  | none => ranging
  | some stream =>
      let msgs := stream.reverse.take cfg.windowBars
      if msgs.length < 5 then ranging else regimeOf R cfg (msgs.map (readBar parseFloat))

/-! ### Units -/

/-- The bar in other units of price and spread. -/
def Bar1m.scale (k m : ℚ) (b : Bar1m) : Bar1m := ⟨k * b.close, m * b.spreadMean⟩

theorem logReturns_scale (R : Roots) {k : ℚ} (hk : k ≠ 0) (closes : List ℚ) :
    logReturns R (closes.map (k * ·)) = logReturns R closes := by
  rw [logReturns, logReturns, ← List.map_tail, List.zipWith_map]
  refine congrArg (fun f => closes.zipWith f closes.tail) ?_
  funext before after
  rw [mul_div_mul_left _ _ hk]

theorem realizedVol_scale (R : Roots) {k : ℚ} (hk : 0 < k) (closes : List ℚ) :
    realizedVol R (closes.map (k * ·)) = realizedVol R closes := by
  have hsigns : (closes.map (k * ·)).dropLast.any (· ≤ 0) = closes.dropLast.any (· ≤ 0) := by
    rw [← List.map_dropLast, List.any_map]
    refine congrArg (fun f => closes.dropLast.any f) ?_
    funext c
    refine decide_eq_decide.mpr ?_
    rw [← not_lt, ← not_lt, mul_pos_iff_of_pos_left hk]
  rw [realizedVol, realizedVol, List.length_map, hsigns, logReturns_scale R hk.ne']

theorem median_scale {m : ℚ} (hm : 0 < m) (vals : List ℚ) :
    median (vals.map (m * ·)) = m * median vals := by
  have hsorted : (vals.map (m * ·)).insertionSort (fun a b => a ≤ b) =
      (vals.insertionSort fun a b => a ≤ b).map (m * ·) :=
    (List.map_insertionSort (fun a b => a ≤ b) (fun a b => a ≤ b) (m * ·) vals
      fun a _ b _ => (mul_le_mul_iff_right₀ hm).symm).symm
  have hget : ∀ (xs : List ℚ) (i : ℕ), (xs.map (m * ·)).getD i 0 = m * xs.getD i 0 := by
    intro xs i
    have hmap : (xs.map (m * ·)).getD i (m * 0) = m * xs.getD i 0 :=
      List.getD_map xs 0 (m * ·)
    rwa [mul_zero] at hmap
  rw [median, median, hsorted, List.length_map, hget, hget]
  split
  · exact (mul_zero m).symm
  · split
    · rw [← mul_add, mul_assoc]
    · rfl

theorem change_scale {k : ℚ} (hk : k ≠ 0) (before after : ℚ) :
    (k * after - k * before) / (k * before) = (after - before) / before := by
  rw [← mul_sub, mul_div_mul_left _ _ hk]

theorem ofBars_scale (R : Roots) (cfg : Config) {k m : ℚ} (hk : 0 < k) (hm : 0 < m)
    (latest : Bar1m) (bars : List Bar1m) :
    ofBars R cfg (latest.scale k m) (bars.map (Bar1m.scale k m)) = ofBars R cfg latest bars := by
  have hspreads : (bars.map (Bar1m.scale k m)).map Bar1m.spreadMean =
      (bars.map Bar1m.spreadMean).map (m * ·) := by
    rw [List.map_map, List.map_map]
    rfl
  have hcloses : (bars.map (Bar1m.scale k m)).reverse.map Bar1m.close =
      (bars.reverse.map Bar1m.close).map (k * ·) := by
    rw [← List.map_reverse, List.map_map, List.map_map]
    rfl
  have hthin : ∀ d : ℚ, 0 < m * d ∧ cfg.spreadMult * (m * d) < m * latest.spreadMean ↔
      0 < d ∧ cfg.spreadMult * d < latest.spreadMean := fun d => by
    rw [mul_left_comm, mul_lt_mul_iff_right₀ hm, mul_pos_iff_of_pos_left hm]
  have holdest : (bars.map (Bar1m.scale k m)).getD (min 4 ((bars.map (Bar1m.scale k m)).length - 1))
      (latest.scale k m) = (bars.getD (min 4 (bars.length - 1)) latest).scale k m := by
    rw [List.length_map, List.getD_map]
  unfold ofBars
  dsimp only
  rw [hspreads, median_scale hm, hcloses, realizedVol_scale R hk, holdest]
  simp only [Bar1m.scale, hthin, change_scale hk.ne', mul_pos_iff_of_pos_left hk]

/-- **The regime does not depend on the units.**  Other units of the prices and of the spreads of
all bars leave it as it is. -/
theorem regimeOf_scale (R : Roots) (cfg : Config) {k m : ℚ} (hk : 0 < k) (hm : 0 < m)
    (bars : List Bar1m) : regimeOf R cfg (bars.map (Bar1m.scale k m)) = regimeOf R cfg bars := by
  have hpriced : (bars.map (Bar1m.scale k m)).filter (fun b => 0 < b.close) =
      (bars.filter fun b => 0 < b.close).map (Bar1m.scale k m) := by
    rw [List.filter_map]
    refine congrArg (fun p => (bars.filter p).map (Bar1m.scale k m)) ?_
    funext b
    exact decide_eq_decide.mpr (mul_pos_iff_of_pos_left hk)
  unfold regimeOf
  dsimp only
  rw [hpriced]
  cases hbars : bars.filter fun b => 0 < b.close with
  | nil => rfl
  | cons latest rest =>
      show (if ((latest :: rest).map (Bar1m.scale k m)).length < 5 then ranging
        else ofBars R cfg (latest.scale k m) ((latest :: rest).map (Bar1m.scale k m))) = _
      rw [List.length_map, ofBars_scale R cfg hk hm]

/-- A spread that is wide in one unit is wide in another. -/
theorem thinBook_scaled :
    regimeOf ⟨fun x => x - 1, fun x => x⟩ defaultConfig
        ([⟨100, 5⟩, ⟨100, 1⟩, ⟨100, 2⟩, ⟨100, 1⟩, ⟨100, 1⟩].map (Bar1m.scale 7 3)) = thinBook :=
  (regimeOf_scale ⟨fun x => x - 1, fun x => x⟩ defaultConfig (by decide +kernel) (by decide +kernel)
    _).trans (by decide +kernel)

end Regime

end MagnumOpus.Candle
