import MagnumOpus.Lib.Kalman
import MagnumOpus.Ml.Extractor

/-!
# The pair spread, in training and live

`generate_spread_labels` computes hedge ratio, spread and z-score of every bar of a merged frame;
`run_spread_loop` computes them bar by bar.  Both run the same Kalman filter over the logarithms
of the two mids.  The generator starts it at the first bar's own ratio and observes from the
second on; the loop starts at one and observes the first bar too.  The generator's z-score takes
the sample deviation of its 60 spreads, the loop's the deviation over their number.
-/

namespace MagnumOpus
namespace Ml

/-- The two mid prices of a bar. -/
structure Mids where
  btc : ℚ
  eth : ℚ
  deriving DecidableEq, Repr

/-- `WINDOW`, and the generator's `rolling(60)`. -/
def zWindow : ℕ := 60

/-- `mid.clip(lower=1e-10)`. -/
def clipFloor : ℚ := mkRat 1 10000000000

/-- The last `n` values, all of them where there are fewer: a `deque(maxlen=n)`, and the window
of `rolling(n)`. -/
def trailing {α : Type*} (n : ℕ) (xs : List α) : List α := xs.drop (xs.length - n)

/-- Hedge ratio, spread and z-score of a bar; a z-score that is NaN or not computed is `none`. -/
structure SpreadRow (K : Type*) where
  hedge : K
  spread : K
  zscore : Option K

section defs

variable {K : Type*} [Field K] [LinearOrder K]

/-- Process noise. -/
def noiseQ : K := 1 / ((100000 : ℕ) : K)

/-- Observation noise. -/
def noiseR : K := 1 / ((1000 : ℕ) : K)

/-- The rows of a table of observations and hedge ratios.  A row's z-score is taken over the
spreads up to it, `seen` being those before the table. -/
def spreadRows (z : List K → Option K) (seen : List K) :
    List (K × K) → List K → List (SpreadRow K)
  | o :: obs, b :: hedges =>
    let spread := o.1 - b * o.2
    ⟨b, spread, z (seen ++ [spread])⟩ :: spreadRows z (seen ++ [spread]) obs hedges
  | _, _ => []

/-! ### The generator -/

/-- `log_btc` and `log_eth` of a row. -/
def clippedLogs (N : Numerics K) (m : Mids) : K × K :=
  (N.log ((max m.btc clipFloor : ℚ) : K), N.log ((max m.eth clipFloor : ℚ) : K))

/-- `_kalman_hedge`. -/
def kalmanHedge : List (K × K) → List K
  | [] => []
  | o :: obs =>
    let beta0 := if o.2 ≠ 0 then o.1 / o.2 else 1
    beta0 :: (Kalman.run noiseQ noiseR ⟨beta0, 1⟩ obs).map Kalman.State.beta

/-- `rolling(60).std()`: the deviation over `n - 1`. -/
def sampleStd (N : Numerics K) (xs : List K) : K :=
  N.sqrt ((xs.map fun x => (x - mean xs) ^ 2).sum / (xs.length - 1))

/-- `(s - roll_mean) / roll_std.replace(0, np.nan)` at the last of the spreads so far. -/
def labelZscore (N : Numerics K) (spreads : List K) : Option K :=
  if spreads.length < zWindow then none
  else
    let w := trailing zWindow spreads
    if sampleStd N w = 0 then none
    else some ((w.getLastD 0 - mean w) / sampleStd N w)

/-- The spread columns of `generate_spread_labels`. -/
def labelRows (N : Numerics K) (bars : List Mids) : List (SpreadRow K) :=
  let obs := bars.map (clippedLogs N)
  spreadRows (labelZscore N) [] obs (kalmanHedge obs)

/-! ### The live loop -/

/-- What `run_spread_loop` keeps: the `_KalmanState` and the deque of spreads. -/
structure SpreadLoop (K : Type*) where
  kalman : Kalman.State K
  spreads : List K

def SpreadLoop.init : SpreadLoop K := ⟨⟨1, 1⟩, []⟩

/-- `(spread - mean) / std if std > 1e-10 else 0.0`, once the deque is full. -/
def liveZscore (N : Numerics K) (spreads : List K) : Option K :=
  if spreads.length < zWindow then none
  else if 1 / ((10 : ℕ) : K) ^ 10 < std N spreads then
    some ((spreads.getLastD 0 - mean spreads) / std N spreads)
  else some 0

/-- A fresh bar; bars without two positive mids are passed over. -/
def SpreadLoop.step (N : Numerics K) (s : SpreadLoop K) (m : Mids) :
    SpreadLoop K × Option (SpreadRow K) :=
  if m.btc ≤ 0 ∨ m.eth ≤ 0 then (s, none)
  else
    let o : K × K := (N.log (m.btc : K), N.log (m.eth : K))
    let kalman := Kalman.update noiseQ noiseR s.kalman o
    let spread := o.1 - kalman.beta * o.2
    let spreads := trailing zWindow (s.spreads ++ [spread])
    (⟨kalman, spreads⟩, some ⟨kalman.beta, spread, liveZscore N spreads⟩)

/-- What the loop computes at each bar. -/
def SpreadLoop.rows (N : Numerics K) (s : SpreadLoop K) : List Mids → List (Option (SpreadRow K))
  | [] => []
  | m :: bars => (s.step N m).2 :: SpreadLoop.rows N (s.step N m).1 bars

/-- Live and training agree: at every bar the loop computes what the generator does. -/
def SpreadsAgree (N : Numerics K) (bars : List Mids) : Prop :=
  SpreadLoop.init.rows N bars = (labelRows N bars).map some

end defs

/-! ### Windows -/

section trailing

variable {α : Type*}

theorem trailing_of_le {n : ℕ} {xs : List α} (h : xs.length ≤ n) : trailing n xs = xs := by
  unfold trailing
  rw [Nat.sub_eq_zero_of_le h, List.drop_zero]

@[simp] theorem trailing_length (n : ℕ) (xs : List α) :
    (trailing n xs).length = min n xs.length := by
  unfold trailing
  rw [List.length_drop]
  omega

theorem trailing_append_singleton (n : ℕ) (xs : List α) (x : α) :
    trailing n (trailing n xs ++ [x]) = trailing n (xs ++ [x]) := by
  by_cases h : xs.length ≤ n
  · rw [trailing_of_le h]
  · have hlen : (trailing n xs).length = n := by
      rw [trailing_length]
      omega
    have hcut : trailing n xs ++ [x] = (xs ++ [x]).drop (xs.length - n) := by
      unfold trailing
      rw [List.drop_append_of_le_length (by omega)]
    rw [hcut]
    unfold trailing
    rw [List.drop_drop, List.length_drop, List.length_append, List.length_singleton]
    congr 1
    omega

theorem trailing_map {β : Type*} (f : α → β) (n : ℕ) (xs : List α) :
    trailing n (xs.map f) = (trailing n xs).map f := by
  unfold trailing
  rw [List.length_map, List.map_drop]

end trailing

end Ml
end MagnumOpus
