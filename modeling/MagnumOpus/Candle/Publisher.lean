import MagnumOpus.Candle.Cascade
import MagnumOpus.Candle.FullBar

/-! # The streams of bars

`writer/redis/publisher.go`: a bar of the cascade goes to the stream of its timeframe, and to a
second stream when it is closed; the order book features of a 1s bar go to a stream of their own.
What is written is the stream key and the fields of the entry. -/

namespace MagnumOpus.Candle

open Strconv Cascade Cascade.Engine

/-- The name of a timeframe. -/
def Cascade.TF.text : TF → String
  | .tf1m => "1m"
  | .tf5m => "5m"
  | .tf15m => "15m"
  | .tf1h => "1h"
  | .tf4h => "4h"
  | .tf1d => "1d"
  | .tf1w => "1w"

namespace Publisher

variable (C : FloatText) (exchange symbol : String)

def barFields (bar : Cascade.Bar) (isComplete : Bool) : List (String × String) :=
  [("ts", formatInt bar.openTs),
   ("exchange", bar.exchange),
   ("symbol", bar.symbol),
   ("tf", bar.tf.text),
   ("open", floatOrEmpty C bar.openPrice),
   ("high", floatOrEmpty C bar.high),
   ("low", floatOrEmpty C bar.low),
   ("close", floatOrEmpty C bar.close),
   ("volume", C.format bar.volume),
   ("quote_vol", C.format bar.quoteVol),
   ("trade_count", formatInt bar.tradeCount),
   ("bar_count", formatInt bar.barCount),
   ("gap_count", formatInt bar.gapCount),
   ("is_complete", if isComplete then "true" else "false")] ++
  (if 0 < bar.tradeCount then
    [("buy_volume", C.format bar.buyVolume), ("sell_volume", C.format bar.sellVolume)]
   else []) ++
  bar.spreadMean.toList.map fun x => ("spread_mean", C.format x)

def obFields (bar : FullBar) : List (String × String) :=
  [("ts", formatInt bar.tsSecMs),
   ("exchange", bar.exchange),
   ("symbol", bar.symbol),
   ("best_bid", floatOrEmpty C bar.bestBid),
   ("best_ask", floatOrEmpty C bar.bestAsk),
   ("bid_depth_l1", floatOrEmpty C bar.bidDepthL1Close),
   ("ask_depth_l1", floatOrEmpty C bar.askDepthL1Close),
   ("bid_depth_l2", floatOrEmpty C bar.bidDepthL2Close),
   ("ask_depth_l2", floatOrEmpty C bar.askDepthL2Close),
   ("bid_depth_top10", floatOrEmpty C bar.bidDepthTop10Close),
   ("ask_depth_top10", floatOrEmpty C bar.askDepthTop10Close),
   ("bid_depth_total", floatOrEmpty C bar.bidDepthTotalClose),
   ("ask_depth_total", floatOrEmpty C bar.askDepthTotalClose),
   ("ofi", floatOrEmpty C bar.ofi),
   ("ofi_l1", floatOrEmpty C bar.ofiL1),
   ("microprice", floatOrEmpty C bar.microprice),
   ("microprice_mid_delta", floatOrEmpty C bar.micropriceMidDelta)]

def partialKey (tf : TF) : String := "candles:" ++ exchange ++ ":" ++ symbol ++ ":" ++ tf.text

def closeKey (tf : TF) : String := "candles:close:" ++ exchange ++ ":" ++ symbol ++ ":" ++ tf.text

/-- Closed bars go to both streams. -/
def publishBars (bars : List Cascade.Bar) : List (String × List (String × String)) :=
  bars.flatMap fun bar =>
    [(partialKey exchange symbol bar.tf, barFields C bar true),
     (closeKey exchange symbol bar.tf, barFields C bar true)]

theorem mem_publishBars {C : FloatText} {exchange symbol : String} {bar : Cascade.Bar}
    {entry : String × List (String × String)}
    (h : entry ∈ publishBars C exchange symbol [bar]) :
    entry = (partialKey exchange symbol bar.tf, barFields C bar true) ∨
      entry = (closeKey exchange symbol bar.tf, barFields C bar true) := by
  rw [publishBars, List.flatMap_singleton] at h
  simpa only [List.mem_cons, List.not_mem_nil, or_false] using h

/-- A bar in progress, unless nothing has been folded into it. -/
def publishPartialBar (bar : Cascade.Bar) : List (String × List (String × String)) :=
  if bar.openTs = 0 then [] else [(partialKey exchange symbol bar.tf, barFields C bar false)]

def publishOBFeatures (bar : FullBar) : List (String × List (String × String)) :=
  [("ob_features:" ++ exchange ++ ":" ++ symbol, obFields C bar)]

end Publisher

end MagnumOpus.Candle
