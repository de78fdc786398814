import MagnumOpus.Lib.FloatText
import MagnumOpus.Lib.UtcTime
import MagnumOpus.Candle.Bar

/-! # The cascade of timeframes

`cascade.go`: an engine folds every finished 1s bar into one accumulator for each of seven
timeframes, and returns the bars of the timeframes that end with that second.

* **Boundaries.** `isBarClose` says whether a second is the last one of its period;
  `isBarClose_iff_period` relates it to the UTC periods (`TF.period`).
* **Contents.** What an accumulator has summed up is its `content`; a fold adds the content of the
  1s bar (`content_fold`).  The timestamp it opened with and the mean spread are kept apart.
* **Persistence.** `toHash` writes an accumulator to the fields of a Redis hash, `restoreFromHash`
  reads it from them.  Texts of floating-point numbers are a parameter (`FloatText`). -/

namespace MagnumOpus.Candle.Cascade

open Strconv UtcTime

/-! ### Timeframes -/

inductive TF where
  | tf1m
  | tf5m
  | tf15m
  | tf1h
  | tf4h
  | tf1d
  | tf1w
deriving DecidableEq, Repr

/-- The timeframes by ascending duration. -/
def allTFs : List TF := [.tf1m, .tf5m, .tf15m, .tf1h, .tf4h, .tf1d, .tf1w]

theorem mem_allTFs (tf : TF) : tf ∈ allTFs := by cases tf <;> decide

/-- The duration in seconds. -/
def TF.seconds : TF → ℤ
  | .tf1m => 60
  | .tf5m => 300
  | .tf15m => 900
  | .tf1h => 3600
  | .tf4h => 14400
  | .tf1d => 86400
  | .tf1w => 604800

/-- The next finer timeframe. -/
def TF.finer : TF → Option TF
  | .tf1m => none
  | .tf5m => some .tf1m
  | .tf15m => some .tf5m
  | .tf1h => some .tf15m
  | .tf4h => some .tf1h
  | .tf1d => some .tf4h
  | .tf1w => some .tf1d

/-- The time of a timestamp in milliseconds. -/
def unixSec (tsMs : Int64) : ℤ := (tsMs / 1000).toInt

/-- The second is the last one of a bar of the timeframe. -/
def isBarClose (tsSecMs : Int64) (tf : TF) : Bool :=
  let curr := unixSec tsSecMs
  let next := curr + 1
  match tf with
  | .tf1m => truncate 60 curr < truncate 60 next
  | .tf5m => truncate (5 * 60) curr < truncate (5 * 60) next
  | .tf15m => truncate (15 * 60) curr < truncate (15 * 60) next
  | .tf1h => truncate 3600 curr < truncate 3600 next
  | .tf4h => truncate (4 * 3600) curr < truncate (4 * 3600) next
  | .tf1d => truncate (24 * 3600) curr < truncate (24 * 3600) next
  | .tf1w => weekday next = 1 ∧ hour next = 0 ∧ minute next = 0 ∧ second next = 0

/-- The UTC period of the timeframe that a time lies in. -/
def TF.period (tf : TF) (t : ℤ) : ℤ := UtcTime.period tf.seconds t

theorem TF.seconds_pos (tf : TF) : 0 < tf.seconds := by cases tf <;> decide

theorem isBarClose_iff_dvd {tsSecMs : Int64} {tf : TF} :
    isBarClose tsSecMs tf = true ↔ tf.seconds ∣ unixSec tsSecMs + 1 - zeroTime := by
  cases tf <;> simp only [isBarClose, TF.seconds, decide_eq_true_eq]
  case tf1w => exact monday_midnight_iff
  all_goals exact truncate_lt_succ_iff (by decide)

theorem isBarClose_iff_period {tsSecMs : Int64} {tf : TF} :
    isBarClose tsSecMs tf = true ↔
      tf.period (unixSec tsSecMs + 1) ≠ tf.period (unixSec tsSecMs) :=
  isBarClose_iff_dvd.trans (period_succ_ne_iff tf.seconds_pos).symm

theorem TF.seconds_dvd_of_finer {fine coarse : TF} (h : coarse.finer = some fine) :
    fine.seconds ∣ coarse.seconds := by
  cases coarse <;> cases h <;> decide

/-- A minute is a part of every bar. -/
theorem TF.minute_dvd (tf : TF) : TF.tf1m.seconds ∣ tf.seconds := by cases tf <;> decide

theorem isBarClose_of_finer {fine coarse : TF} (h : coarse.finer = some fine) {tsSecMs : Int64}
    (hc : isBarClose tsSecMs coarse = true) : isBarClose tsSecMs fine = true :=
  isBarClose_iff_dvd.mpr ((TF.seconds_dvd_of_finer h).trans (isBarClose_iff_dvd.mp hc))

/-! ### Accumulators -/

/-- A bar of a timeframe, finished or in progress. -/
structure Bar where
  exchange : String
  symbol : String
  tf : TF
  /-- `0` when nothing has been folded. -/
  openTs : Int64
  openPrice : Option ℚ
  high : Option ℚ
  low : Option ℚ
  close : Option ℚ
  volume : ℚ
  quoteVol : ℚ
  tradeCount : Int64
  barCount : Int64
  gapCount : Int64
  isComplete : Bool
  buyVolume : ℚ
  sellVolume : ℚ
  spreadMean : Option ℚ
deriving DecidableEq

/-- The running state of one timeframe. -/
structure CascadeAcc where
  openTs : Int64 := 0
  openPrice : Option ℚ := none
  high : Option ℚ := none
  low : Option ℚ := none
  closeVal : Option ℚ := none
  volume : ℚ := 0
  quoteVol : ℚ := 0
  tradeCount : Int64 := 0
  barCount : Int64 := 0
  gapCount : Int64 := 0
  buyVolume : ℚ := 0
  spreadSum : ℚ := 0
  spreadCount : ℕ := 0
deriving DecidableEq

namespace CascadeAcc

def fold (a : CascadeAcc) (bar : Candle.Bar) : CascadeAcc where
  openTs := if a.openTs = 0 then bar.tsSecMs else a.openTs
  openPrice := a.openPrice.or bar.openPrice
  high := a.high.merge max bar.high
  low := a.low.merge min bar.low
  closeVal := bar.close.or a.closeVal
  volume := a.volume + bar.volume.getD 0
  quoteVol := a.quoteVol + bar.quoteVolume.getD 0
  tradeCount := a.tradeCount + bar.tradeCount
  barCount := a.barCount + 1
  gapCount := a.gapCount + bar.gapCount
  buyVolume := a.buyVolume + bar.buyVolume.getD 0
  spreadSum := a.spreadSum + bar.spreadMean.getD 0
  spreadCount := a.spreadCount + if bar.spreadMean.isSome then 1 else 0

def reset (openTs : Int64) : CascadeAcc := { openTs := openTs }

def toBar (a : CascadeAcc) (exchange symbol : String) (tf : TF) (isComplete : Bool) : Bar where
  exchange := exchange
  symbol := symbol
  tf := tf
  openTs := a.openTs
  openPrice := a.openPrice
  high := a.high
  low := a.low
  close := a.closeVal
  volume := a.volume
  quoteVol := a.quoteVol
  tradeCount := a.tradeCount
  barCount := a.barCount
  gapCount := a.gapCount
  isComplete := isComplete
  buyVolume := a.buyVolume
  sellVolume := max 0 (a.volume - a.buyVolume)
  spreadMean := if 0 < a.spreadCount then some (a.spreadSum / a.spreadCount) else none

/-! #### Contents -/

/-- Prices and volumes, and the numbers of 1s bars and gaps. -/
def content (a : CascadeAcc) : Ohlcv ℚ Int64 × Int64 × Int64 :=
  (⟨a.openPrice, a.high, a.low, a.closeVal, a.volume, a.quoteVol, a.buyVolume, a.tradeCount⟩,
    a.barCount, a.gapCount)

/-- What a 1s bar adds. -/
def secondContent (bar : Candle.Bar) : Ohlcv ℚ Int64 × Int64 × Int64 := (bar.ohlcv, 1, bar.gapCount)

theorem content_fold (a : CascadeAcc) (bar : Candle.Bar) :
    (a.fold bar).content = a.content + secondContent bar := rfl

theorem content_reset (openTs : Int64) : (reset openTs).content = 0 := rfl

end CascadeAcc

/-- Prices and volumes of a bar, and its numbers of 1s bars and gaps. -/
def Bar.content (b : Bar) : Ohlcv ℚ Int64 × Int64 × Int64 :=
  (⟨b.openPrice, b.high, b.low, b.close, b.volume, b.quoteVol, b.buyVolume, b.tradeCount⟩,
    b.barCount, b.gapCount)

theorem content_toBar (a : CascadeAcc) (exchange symbol : String) (tf : TF) (isComplete : Bool) :
    (a.toBar exchange symbol tf isComplete).content = a.content := rfl

/-! ### The engine -/

structure Engine where
  exchange : String
  symbol : String
  accs : TF → CascadeAcc

namespace Engine

def new (exchange symbol : String) : Engine where
  exchange := exchange
  symbol := symbol
  accs := fun _ => {}

/-- Folds a 1s bar into every timeframe, and returns the bars that close with it. -/
def fold (e : Engine) (bar : Candle.Bar) (tsSecMs : Int64) : Engine × List Bar :=
  ({ e with
     accs := fun tf =>
       if isBarClose tsSecMs tf then CascadeAcc.reset (tsSecMs + 1000) else (e.accs tf).fold bar },
   allTFs.filterMap fun tf =>
     if isBarClose tsSecMs tf then some (((e.accs tf).fold bar).toBar e.exchange e.symbol tf true)
     else none)

/-- The bar in progress. -/
def currentBar (e : Engine) (tf : TF) : Bar := (e.accs tf).toBar e.exchange e.symbol tf false

variable {e : Engine} {bar : Candle.Bar} {tsSecMs : Int64} {tf : TF}

theorem accs_fold_of_close (h : isBarClose tsSecMs tf = true) :
    (e.fold bar tsSecMs).1.accs tf = CascadeAcc.reset (tsSecMs + 1000) := if_pos h

theorem accs_fold_of_not_close (h : isBarClose tsSecMs tf = false) :
    (e.fold bar tsSecMs).1.accs tf = (e.accs tf).fold bar :=
  if_neg (by rw [h]; exact Bool.noConfusion)

/-- The bars of a timeframe that a fold returns: one when it closes, or none. -/
theorem filter_fold :
    (e.fold bar tsSecMs).2.filter (·.tf = tf) =
      if isBarClose tsSecMs tf then
        [((e.accs tf).fold bar).toBar e.exchange e.symbol tf true]
      else [] := by
  have hother : ∀ tf', Option.filter (fun b : Bar => decide (b.tf = tf))
      (if isBarClose tsSecMs tf' then
        some (((e.accs tf').fold bar).toBar e.exchange e.symbol tf' true) else none) =
      if tf' = tf ∧ isBarClose tsSecMs tf = true then
        some (((e.accs tf).fold bar).toBar e.exchange e.symbol tf true) else none := by
    intro tf'
    by_cases htf : tf' = tf
    · subst htf
      cases isBarClose tsSecMs tf' <;> simp [CascadeAcc.toBar]
    · cases isBarClose tsSecMs tf' <;> simp [CascadeAcc.toBar, htf]
  simp only [fold, List.filter_filterMap, hother]
  cases hc : isBarClose tsSecMs tf with
  | false => simp
  | true => cases tf <;> rfl

theorem mem_fold {b : Bar} : b ∈ (e.fold bar tsSecMs).2 ↔
    isBarClose tsSecMs b.tf = true ∧
      b = ((e.accs b.tf).fold bar).toBar e.exchange e.symbol b.tf true := by
  have hmem : b ∈ (e.fold bar tsSecMs).2 ↔
      b ∈ (e.fold bar tsSecMs).2.filter fun b' : Bar => b'.tf = b.tf := by simp
  rw [hmem, filter_fold]
  split <;> simp [*]

/-! ### Persistence -/

variable (C : FloatText)

def floatOrEmpty (f : Option ℚ) : String := f.elim "" C.format

def parseFloatPtr (s : String) : Option ℚ := if s = "" then none else C.parse s

/-- The fields of the hash of a timeframe. -/
def toHash (e : Engine) (tf : TF) : List (String × String) :=
  let a := e.accs tf
  [("open_ts", formatInt a.openTs),
   ("open", floatOrEmpty C a.openPrice),
   ("high", floatOrEmpty C a.high),
   ("low", floatOrEmpty C a.low),
   ("close", floatOrEmpty C a.closeVal),
   ("volume", C.format a.volume),
   ("quote_vol", C.format a.quoteVol),
   ("trade_count", formatInt a.tradeCount),
   ("bar_count", formatInt a.barCount),
   ("gap_count", formatInt a.gapCount),
   ("buy_volume", C.format a.buyVolume)]

/-- A float field; one that is absent or no number reads as `0`. -/
def floatField (fields : List (String × String)) (key : String) : ℚ :=
  ((fields.lookup key).bind C.parse).getD 0

/-- The accumulator that the fields of a hash describe. -/
def accOfHash (fields : List (String × String)) : CascadeAcc where
  openTs := parseInt64 fields "open_ts"
  openPrice := parseFloatPtr C (getString fields "open")
  high := parseFloatPtr C (getString fields "high")
  low := parseFloatPtr C (getString fields "low")
  closeVal := parseFloatPtr C (getString fields "close")
  volume := floatField C fields "volume"
  quoteVol := floatField C fields "quote_vol"
  tradeCount := parseInt64 fields "trade_count"
  barCount := parseInt64 fields "bar_count"
  gapCount := parseInt64 fields "gap_count"
  buyVolume := floatField C fields "buy_volume"

/-- Restores one timeframe. -/
def restoreFromHash (e : Engine) (tf : TF) (fields : List (String × String)) : Engine :=
  { e with accs := Function.update e.accs tf (accOfHash C fields) }

end Engine

end MagnumOpus.Candle.Cascade
