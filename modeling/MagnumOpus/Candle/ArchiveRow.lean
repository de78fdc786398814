import Mathlib.Logic.Function.Basic
import MagnumOpus.Lib.FloatText
import MagnumOpus.Candle.FullBar

/-! # Rows of the archive

The way of a bar into the daily archive: `writeBar` of the QuestDB writer sends it column by column,
the database exports the day as CSV, and `parseCSVRow` of the flusher reads each record into a
`Snapshot1sRow`.

* **The writer.** `writeSteps` are the statements of `writeBar` in their order.  Most columns are
  written by themselves; some are written in groups, under one condition for the whole group.
* **The export.** The columns may come in any order and beside others (`Header`).  A column that was
  not written is empty, except that a boolean one has whatever text the database has for it.
* **The parser.** It finds the columns by their names in the header. -/

namespace MagnumOpus.Candle

/-- What a column of a row holds. -/
inductive Cell where
  | float (x : ℚ)
  | int (n : ℤ)
  | text (s : String)
  | bool (b : Bool)
deriving DecidableEq

/-- The texts of an export. -/
structure CsvText where
  float : FloatText
  /-- A column of type `BOOLEAN` that was not written. -/
  unsetBool : String
  /-- A time in milliseconds. -/
  ts : Int64 → String
  /-- `time.Parse`, with one layout or the other, in microseconds. -/
  parseTs : String → Option Int64
  /-- The verb `%q`. -/
  quote : String → String

/-! ### The writer -/

/-- A column and the field of the bar that it is written from. -/
inductive Column where
  | float (name : String) (field : FullBar → Option ℚ)
  | int (name : String) (field : FullBar → Option ℤ)
  | count (name : String) (field : FullBar → Option ℕ)
  | text (name : String) (field : FullBar → Option String)
  | bool (name : String) (field : FullBar → Option Bool)
  | intAlways (name : String) (field : FullBar → Int64)
  | boolAlways (name : String) (field : FullBar → Bool)

namespace Column

def name : Column → String
  | float name _ | int name _ | count name _ | text name _ | bool name _ | intAlways name _
  | boolAlways name _ => name

def value (bar : FullBar) : Column → Option Cell
  | float _ field => (field bar).map .float
  | int _ field => (field bar).map .int
  | count _ field => (field bar).map fun n : ℕ => .int n
  | text _ field => (field bar).map .text
  | bool _ field => (field bar).map .bool
  | intAlways _ field => some (.int (field bar).toInt)
  | boolAlways _ field => some (.bool (field bar))

/-- The column with its value, if there is one. -/
def put (bar : FullBar) (c : Column) : List (String × Cell) :=
  (c.value bar).toList.map fun v => (c.name, v)

end Column

/-- A statement of `writeBar`. -/
inductive WriteStep where
  /-- A column that is written if its field is set. -/
  | column (c : Column)
  /-- Columns that are written if all their fields are set. -/
  | together (cs : List Column)
  /-- Columns that are written if the field of the first is set. -/
  | first (c : Column) (cs : List Column)
  /-- Two columns that are written if both fields are set, and a third one beside them. -/
  | both (c d e : Column)

namespace WriteStep

def columns : WriteStep → List Column
  | column c => [c]
  | together cs => cs
  | first c cs => c :: cs
  | both c d e => [c, d, e]

/-- What is written; `none` where the code dereferences a nil pointer. -/
def write (bar : FullBar) : WriteStep → Option (List (String × Cell))
  | column c => some (c.put bar)
  | together cs =>
      some (if cs.all fun c => (c.value bar).isSome then cs.flatMap (Column.put bar) else [])
  | first c cs =>
      if (c.value bar).isSome then
        if cs.all fun d => (d.value bar).isSome then
          some ((c :: cs).flatMap (Column.put bar))
        else none
      else some []
  | both c d e =>
      some (if (c.value bar).isSome ∧ (d.value bar).isSome then
        c.put bar ++ d.put bar ++ e.put bar
      else [])

end WriteStep

def writeSteps : List WriteStep :=
  [ .column (.float "open" (·.openPrice)),
    .column (.float "high" (·.high)),
    .column (.float "low" (·.low)),
    .column (.float "close" (·.close)),
    .column (.float "volume" (·.volume)),
    .column (.float "quote_volume" (·.quoteVolume)),
    .column (.float "twap" (·.twap)),
    .column (.intAlways "trade_count" (·.tradeCount)),
    .column (.float "best_bid_open" (·.bestBidOpen)),
    .column (.float "best_ask_open" (·.bestAskOpen)),
    .column (.float "best_bid" (·.bestBid)),
    .column (.float "best_ask" (·.bestAsk)),
    .column (.float "bid_depth_l1_open" (·.bidDepthL1Open)),
    .column (.float "ask_depth_l1_open" (·.askDepthL1Open)),
    .column (.float "bid_depth_l2_open" (·.bidDepthL2Open)),
    .column (.float "ask_depth_l2_open" (·.askDepthL2Open)),
    .first (.float "bid_depth_l3_open" (·.bidDepthL3Open))
      [.float "ask_depth_l3_open" (·.askDepthL3Open),
        .float "bid_depth_l4_open" (·.bidDepthL4Open),
        .float "ask_depth_l4_open" (·.askDepthL4Open),
        .float "bid_depth_l5_open" (·.bidDepthL5Open),
        .float "ask_depth_l5_open" (·.askDepthL5Open)],
    .column (.float "bid_depth_top10_open" (·.bidDepthTop10Open)),
    .column (.float "ask_depth_top10_open" (·.askDepthTop10Open)),
    .column (.float "bid_depth_total_open" (·.bidDepthTotalOpen)),
    .column (.float "ask_depth_total_open" (·.askDepthTotalOpen)),
    .column (.float "bid_depth_l1_close" (·.bidDepthL1Close)),
    .column (.float "ask_depth_l1_close" (·.askDepthL1Close)),
    .column (.float "bid_depth_l2_close" (·.bidDepthL2Close)),
    .column (.float "ask_depth_l2_close" (·.askDepthL2Close)),
    .first (.float "bid_depth_l3_close" (·.bidDepthL3Close))
      [.float "ask_depth_l3_close" (·.askDepthL3Close),
        .float "bid_depth_l4_close" (·.bidDepthL4Close),
        .float "ask_depth_l4_close" (·.askDepthL4Close),
        .float "bid_depth_l5_close" (·.bidDepthL5Close),
        .float "ask_depth_l5_close" (·.askDepthL5Close)],
    .column (.float "bid_depth_top10_close" (·.bidDepthTop10Close)),
    .column (.float "ask_depth_top10_close" (·.askDepthTop10Close)),
    .column (.float "bid_depth_total_close" (·.bidDepthTotalClose)),
    .column (.float "ask_depth_total_close" (·.askDepthTotalClose)),
    .column (.float "weighted_bid_price" (·.weightedBidPrice)),
    .column (.float "weighted_ask_price" (·.weightedAskPrice)),
    .column (.float "depth_to_1pct_bid" (·.depthTo1PctBid)),
    .column (.float "depth_to_1pct_ask" (·.depthTo1PctAsk)),
    .column (.float "mid_price_open" (·.midPriceOpen)),
    .column (.float "mid_price_high" (·.midPriceHigh)),
    .column (.float "mid_price_low" (·.midPriceLow)),
    .column (.float "vwmp" (·.vwmp)),
    .column (.float "spread_high" (·.spreadHigh)),
    .column (.float "spread_low" (·.spreadLow)),
    .column (.float "spread_mean" (·.spreadMean)),
    .column (.float "effective_spread" (·.effectiveSpread)),
    .column (.float "buy_volume" (·.buyVolume)),
    .column (.float "sell_volume" (·.sellVolume)),
    .column (.count "buy_count" (·.buyCount)),
    .column (.text "footprint_json" (·.footprintJSON)),
    .together
      [.float "poc_price" (·.pocPrice),
        .float "value_area_high" (·.valueAreaHigh),
        .float "value_area_low" (·.valueAreaLow),
        .float "poc_volume" (·.pocVolume)],
    .together
      [.count "imbalance_buy_count" (·.imbalanceBuyCount),
        .count "imbalance_sell_count" (·.imbalanceSellCount),
        .count "imbalance_stack_buy" (·.imbalanceStackBuy),
        .count "imbalance_stack_sell" (·.imbalanceStackSell),
        .float "imbalance_ratio" (·.imbalanceRatio)],
    .together
      [.count "single_print_count" (·.singlePrintCount),
        .text "single_print_levels_json" (·.singlePrintLevelsJSON),
        .bool "unfinished_top" (·.unfinishedTop),
        .bool "unfinished_bottom" (·.unfinishedBottom),
        .bool "absorption_detected" (·.absorptionDetected)],
    .column (.int "footprint_delta_divergence" (·.footprintDeltaDivergence)),
    .together
      [.float "cum_delta" (·.cumDelta),
        .int "cvd_divergence" (·.cvdDivergence)],
    .both (.bool "iceberg_bid_detected" (·.icebergBidDetected))
      (.bool "iceberg_ask_detected" (·.icebergAskDetected))
      (.float "iceberg_price" (·.icebergPrice)),
    .column (.float "block_buy_volume" (·.blockBuyVolume)),
    .column (.float "block_sell_volume" (·.blockSellVolume)),
    .column (.count "large_bid_orders" (·.largeBidOrders)),
    .column (.count "large_ask_orders" (·.largeAskOrders)),
    .column (.float "max_trade_size" (·.maxTradeSize)),
    .column (.int "first_trade_offset_ms" fun bar => bar.firstTradeOffsetMs.map Int64.toInt),
    .column (.int "last_trade_offset_ms" fun bar => bar.lastTradeOffsetMs.map Int64.toInt),
    .column (.float "trade_clustering" (·.tradeClustering)),
    .column (.count "max_consecutive_run" (·.maxConsecutiveRun)),
    .column (.float "realized_vol" (·.realizedVol)),
    .column (.float "realized_skewness" (·.realizedSkewness)),
    .column (.count "uptick_count" (·.uptickCount)),
    .column (.count "downtick_count" (·.downtickCount)),
    .column (.count "bid_order_arrivals" (·.bidOrderArrivals)),
    .column (.count "ask_order_arrivals" (·.askOrderArrivals)),
    .column (.count "bid_cancel_count" (·.bidCancelCount)),
    .column (.count "ask_cancel_count" (·.askCancelCount)),
    .column (.count "ob_modify_count" (·.obModifyCount)),
    .column (.float "avg_bid_order_size" (·.avgBidOrderSize)),
    .column (.float "avg_ask_order_size" (·.avgAskOrderSize)),
    .column (.count "best_bid_changes" (·.bestBidChanges)),
    .column (.count "best_ask_changes" (·.bestAskChanges)),
    .column (.float "quote_stuff_ratio" (·.quoteStuffRatio)),
    .column (.float "trade_sign_autocorr" (·.tradeSignAutocorr)),
    .column (.float "inter_trade_interval_std_ms" (·.interTradeIntervalStdMs)),
    .column (.count "num_trade_price_levels" (·.numTradePriceLevels)),
    .column (.float "ofi" (·.ofi)),
    .column (.float "ofi_l1" (·.ofiL1)),
    .column (.float "hawkes_intensity" (·.hawkesIntensity)),
    .column (.float "microprice" (·.microprice)),
    .column (.float "microprice_mid_delta" (·.micropriceMidDelta)),
    .column (.float "cancel_bias" (·.cancelBias)),
    .column (.float "trade_aggressiveness" (·.tradeAggressiveness)),
    .column (.float "buy_vwap_deviation_bps" (·.buyVwapDeviationBps)),
    .column (.float "sell_vwap_deviation_bps" (·.sellVwapDeviationBps)),
    .column (.boolAlways "is_partial" (·.isPartial)),
    .column (.intAlways "gap_count" (·.gapCount)),
    .column (.intAlways "bar_count" (·.barCount)) ]

/-- A row as it is sent to the database. -/
structure IlpRow where
  exchange : String
  symbol : String
  columns : List (String × Cell)
  tsMs : Int64
deriving DecidableEq

def writeColumns (bar : FullBar) : List WriteStep → Option (List (String × Cell))
  | [] => some []
  | st :: sts => do
      let written ← st.write bar
      let rest ← writeColumns bar sts
      return written ++ rest

def writeBar (bar : FullBar) : Option IlpRow := do
  let columns ← writeColumns bar writeSteps
  return { exchange := bar.exchange, symbol := bar.symbol, columns, tsMs := bar.tsSecMs }

/-! ### The export -/

/-- The columns of `writeBar`. -/
def barColumns : List Column := writeSteps.flatMap WriteStep.columns

/-- The header of an export, with all columns that the writer uses. -/
structure Header where
  names : List String
  ts_mem : "ts" ∈ names
  exchange_mem : "exchange" ∈ names
  symbol_mem : "symbol" ∈ names
  mem_of_column : ∀ c ∈ barColumns, c.name ∈ names

namespace CsvText

variable (T : CsvText)

def cell : Cell → String
  | .float x => T.float.format x
  | .int n => n.repr
  | .text s => s
  | .bool b => if b then "true" else "false"

/-- The text of a column that was not written. -/
def unset : Column → String
  | .bool _ _ | .boolAlways _ _ => T.unsetBool
  | _ => ""

/-- The text of a row in the column of a name. -/
def column (row : IlpRow) (name : String) : String :=
  if name = "ts" then T.ts row.tsMs
  else if name = "exchange" then row.exchange
  else if name = "symbol" then row.symbol
  else
    match row.columns.find? (fun p => p.1 = name), barColumns.find? (fun c => c.name = name) with
    | some p, _ => T.cell p.2
    | none, some c => T.unset c
    | none, none => ""

def record (header : List String) (row : IlpRow) : List String := header.map (T.column row)

end CsvText

/-! ### The parser -/

def setPosition (idx : String → Option ℕ) (p : String × ℕ) : String → Option ℕ :=
  Function.update idx p.1 (some p.2)

/-- The last position of each name of the header. -/
def columnIndex (header : List String) : String → Option ℕ :=
  header.zipIdx.foldl setPosition fun _ => none

/-- A row of the archive. -/
structure Snapshot1sRow where
  ts : Int64
  exchange : String
  symbol : String
  openPrice : Option ℚ
  high : Option ℚ
  low : Option ℚ
  close : Option ℚ
  volume : Option ℚ
  quoteVolume : Option ℚ
  tradeCount : Option ℤ
  twap : Option ℚ
  midPriceOpen : Option ℚ
  midPriceHigh : Option ℚ
  midPriceLow : Option ℚ
  vwmp : Option ℚ
  spreadHigh : Option ℚ
  spreadLow : Option ℚ
  spreadMean : Option ℚ
  effectiveSpread : Option ℚ
  bestBidOpen : Option ℚ
  bestAskOpen : Option ℚ
  bestBid : Option ℚ
  bestAsk : Option ℚ
  bidDepthL1Open : Option ℚ
  askDepthL1Open : Option ℚ
  bidDepthL2Open : Option ℚ
  askDepthL2Open : Option ℚ
  bidDepthTop10Open : Option ℚ
  askDepthTop10Open : Option ℚ
  bidDepthTotalOpen : Option ℚ
  askDepthTotalOpen : Option ℚ
  bidDepthL1Close : Option ℚ
  askDepthL1Close : Option ℚ
  bidDepthL2Close : Option ℚ
  askDepthL2Close : Option ℚ
  bidDepthTop10Close : Option ℚ
  askDepthTop10Close : Option ℚ
  bidDepthTotalClose : Option ℚ
  askDepthTotalClose : Option ℚ
  weightedBidPrice : Option ℚ
  weightedAskPrice : Option ℚ
  depthTo1PctBid : Option ℚ
  depthTo1PctAsk : Option ℚ
  ofi : Option ℚ
  ofiL1 : Option ℚ
  buyVolume : Option ℚ
  sellVolume : Option ℚ
  buyCount : Option ℤ
  footprintJSON : Option String
  pocPrice : Option ℚ
  valueAreaHigh : Option ℚ
  valueAreaLow : Option ℚ
  pocVolume : Option ℚ
  imbalanceBuyCount : Option ℤ
  imbalanceSellCount : Option ℤ
  imbalanceStackBuy : Option ℤ
  imbalanceStackSell : Option ℤ
  imbalanceRatio : Option ℚ
  singlePrintCount : Option ℤ
  singlePrintLevelsJSON : Option String
  unfinishedTop : Option Bool
  unfinishedBottom : Option Bool
  absorptionDetected : Option Bool
  footprintDeltaDivergence : Option ℤ
  cumDelta : Option ℚ
  cvdDivergence : Option ℤ
  icebergBidDetected : Option Bool
  icebergAskDetected : Option Bool
  icebergPrice : Option ℚ
  blockBuyVolume : Option ℚ
  blockSellVolume : Option ℚ
  maxTradeSize : Option ℚ
  largeBidOrders : Option ℤ
  largeAskOrders : Option ℤ
  firstTradeOffsetMs : Option ℤ
  lastTradeOffsetMs : Option ℤ
  tradeClustering : Option ℚ
  maxConsecutiveRun : Option ℤ
  realizedVol : Option ℚ
  realizedSkewness : Option ℚ
  uptickCount : Option ℤ
  downtickCount : Option ℤ
  bidOrderArrivals : Option ℤ
  askOrderArrivals : Option ℤ
  bidCancelCount : Option ℤ
  askCancelCount : Option ℤ
  obModifyCount : Option ℤ
  avgBidOrderSize : Option ℚ
  avgAskOrderSize : Option ℚ
  bestBidChanges : Option ℤ
  bestAskChanges : Option ℤ
  quoteStuffRatio : Option ℚ
  tradeSignAutocorr : Option ℚ
  interTradeIntervalStdMs : Option ℚ
  numTradePriceLevels : Option ℤ
  isPartial : Bool
  gapCount : ℤ
  barCount : ℤ
deriving DecidableEq

namespace Snapshot1sRow

/-- The fields under their names in the Parquet file. -/
def columns (row : Snapshot1sRow) : List (String × Option Cell) :=
  [ ("open", row.openPrice.map .float),
    ("high", row.high.map .float),
    ("low", row.low.map .float),
    ("close", row.close.map .float),
    ("volume", row.volume.map .float),
    ("quote_volume", row.quoteVolume.map .float),
    ("trade_count", row.tradeCount.map .int),
    ("twap", row.twap.map .float),
    ("mid_price_open", row.midPriceOpen.map .float),
    ("mid_price_high", row.midPriceHigh.map .float),
    ("mid_price_low", row.midPriceLow.map .float),
    ("vwmp", row.vwmp.map .float),
    ("spread_high", row.spreadHigh.map .float),
    ("spread_low", row.spreadLow.map .float),
    ("spread_mean", row.spreadMean.map .float),
    ("effective_spread", row.effectiveSpread.map .float),
    ("best_bid_open", row.bestBidOpen.map .float),
    ("best_ask_open", row.bestAskOpen.map .float),
    ("best_bid", row.bestBid.map .float),
    ("best_ask", row.bestAsk.map .float),
    ("bid_depth_l1_open", row.bidDepthL1Open.map .float),
    ("ask_depth_l1_open", row.askDepthL1Open.map .float),
    ("bid_depth_l2_open", row.bidDepthL2Open.map .float),
    ("ask_depth_l2_open", row.askDepthL2Open.map .float),
    ("bid_depth_top10_open", row.bidDepthTop10Open.map .float),
    ("ask_depth_top10_open", row.askDepthTop10Open.map .float),
    ("bid_depth_total_open", row.bidDepthTotalOpen.map .float),
    ("ask_depth_total_open", row.askDepthTotalOpen.map .float),
    ("bid_depth_l1_close", row.bidDepthL1Close.map .float),
    ("ask_depth_l1_close", row.askDepthL1Close.map .float),
    ("bid_depth_l2_close", row.bidDepthL2Close.map .float),
    ("ask_depth_l2_close", row.askDepthL2Close.map .float),
    ("bid_depth_top10_close", row.bidDepthTop10Close.map .float),
    ("ask_depth_top10_close", row.askDepthTop10Close.map .float),
    ("bid_depth_total_close", row.bidDepthTotalClose.map .float),
    ("ask_depth_total_close", row.askDepthTotalClose.map .float),
    ("weighted_bid_price", row.weightedBidPrice.map .float),
    ("weighted_ask_price", row.weightedAskPrice.map .float),
    ("depth_to_1pct_bid", row.depthTo1PctBid.map .float),
    ("depth_to_1pct_ask", row.depthTo1PctAsk.map .float),
    ("ofi", row.ofi.map .float),
    ("ofi_l1", row.ofiL1.map .float),
    ("buy_volume", row.buyVolume.map .float),
    ("sell_volume", row.sellVolume.map .float),
    ("buy_count", row.buyCount.map .int),
    ("footprint_json", row.footprintJSON.map .text),
    ("poc_price", row.pocPrice.map .float),
    ("value_area_high", row.valueAreaHigh.map .float),
    ("value_area_low", row.valueAreaLow.map .float),
    ("poc_volume", row.pocVolume.map .float),
    ("imbalance_buy_count", row.imbalanceBuyCount.map .int),
    ("imbalance_sell_count", row.imbalanceSellCount.map .int),
    ("imbalance_stack_buy", row.imbalanceStackBuy.map .int),
    ("imbalance_stack_sell", row.imbalanceStackSell.map .int),
    ("imbalance_ratio", row.imbalanceRatio.map .float),
    ("single_print_count", row.singlePrintCount.map .int),
    ("single_print_levels_json", row.singlePrintLevelsJSON.map .text),
    ("unfinished_top", row.unfinishedTop.map .bool),
    ("unfinished_bottom", row.unfinishedBottom.map .bool),
    ("absorption_detected", row.absorptionDetected.map .bool),
    ("footprint_delta_divergence", row.footprintDeltaDivergence.map .int),
    ("cum_delta", row.cumDelta.map .float),
    ("cvd_divergence", row.cvdDivergence.map .int),
    ("iceberg_bid_detected", row.icebergBidDetected.map .bool),
    ("iceberg_ask_detected", row.icebergAskDetected.map .bool),
    ("iceberg_price", row.icebergPrice.map .float),
    ("block_buy_volume", row.blockBuyVolume.map .float),
    ("block_sell_volume", row.blockSellVolume.map .float),
    ("max_trade_size", row.maxTradeSize.map .float),
    ("large_bid_orders", row.largeBidOrders.map .int),
    ("large_ask_orders", row.largeAskOrders.map .int),
    ("first_trade_offset_ms", row.firstTradeOffsetMs.map .int),
    ("last_trade_offset_ms", row.lastTradeOffsetMs.map .int),
    ("trade_clustering", row.tradeClustering.map .float),
    ("max_consecutive_run", row.maxConsecutiveRun.map .int),
    ("realized_vol", row.realizedVol.map .float),
    ("realized_skewness", row.realizedSkewness.map .float),
    ("uptick_count", row.uptickCount.map .int),
    ("downtick_count", row.downtickCount.map .int),
    ("bid_order_arrivals", row.bidOrderArrivals.map .int),
    ("ask_order_arrivals", row.askOrderArrivals.map .int),
    ("bid_cancel_count", row.bidCancelCount.map .int),
    ("ask_cancel_count", row.askCancelCount.map .int),
    ("ob_modify_count", row.obModifyCount.map .int),
    ("avg_bid_order_size", row.avgBidOrderSize.map .float),
    ("avg_ask_order_size", row.avgAskOrderSize.map .float),
    ("best_bid_changes", row.bestBidChanges.map .int),
    ("best_ask_changes", row.bestAskChanges.map .int),
    ("quote_stuff_ratio", row.quoteStuffRatio.map .float),
    ("trade_sign_autocorr", row.tradeSignAutocorr.map .float),
    ("inter_trade_interval_std_ms", row.interTradeIntervalStdMs.map .float),
    ("num_trade_price_levels", row.numTradePriceLevels.map .int),
    ("is_partial", some (.bool row.isPartial)),
    ("gap_count", some (.int row.gapCount)),
    ("bar_count", some (.int row.barCount)) ]

def column (row : Snapshot1sRow) (name : String) : Option Cell :=
  (row.columns.lookup name).join

end Snapshot1sRow

namespace Flusher

def parseFloat (T : CsvText) (s : String) : Option ℚ := if s = "" then none else T.float.parse s

def parseInt32 (s : String) : Option ℤ := if s = "" then none else Strconv.readInt32 s

def getString (s : String) : Option String := if s = "" then none else some s

def parseBool (s : String) : Option Bool := if s = "" then none else some (s = "true")

def parseCount (s : String) : ℤ := if s = "" then 0 else (Strconv.readInt32 s).getD 0

/-- The text of a record in a column. -/
def recordText (record : List String) (idx : String → Option ℕ) (col : String) : String :=
  match idx col with
  | none => ""
  | some i => record.getD i ""

def parseCSVRow (T : CsvText) (record : List String) (idx : String → Option ℕ) :
    Except String Snapshot1sRow :=
  let get := recordText record idx
  match T.parseTs (get "ts") with
  | none => .error ("cannot parse ts " ++ T.quote (get "ts"))
  | some ts => .ok
    { ts
      exchange := get "exchange"
      symbol := get "symbol"
      openPrice := parseFloat T (get "open")
      high := parseFloat T (get "high")
      low := parseFloat T (get "low")
      close := parseFloat T (get "close")
      volume := parseFloat T (get "volume")
      quoteVolume := parseFloat T (get "quote_volume")
      twap := parseFloat T (get "twap")
      midPriceOpen := parseFloat T (get "mid_price_open")
      midPriceHigh := parseFloat T (get "mid_price_high")
      midPriceLow := parseFloat T (get "mid_price_low")
      vwmp := parseFloat T (get "vwmp")
      spreadHigh := parseFloat T (get "spread_high")
      spreadLow := parseFloat T (get "spread_low")
      spreadMean := parseFloat T (get "spread_mean")
      effectiveSpread := parseFloat T (get "effective_spread")
      bestBidOpen := parseFloat T (get "best_bid_open")
      bestAskOpen := parseFloat T (get "best_ask_open")
      bestBid := parseFloat T (get "best_bid")
      bestAsk := parseFloat T (get "best_ask")
      bidDepthL1Open := parseFloat T (get "bid_depth_l1_open")
      askDepthL1Open := parseFloat T (get "ask_depth_l1_open")
      bidDepthL2Open := parseFloat T (get "bid_depth_l2_open")
      askDepthL2Open := parseFloat T (get "ask_depth_l2_open")
      bidDepthTop10Open := parseFloat T (get "bid_depth_top10_open")
      askDepthTop10Open := parseFloat T (get "ask_depth_top10_open")
      bidDepthTotalOpen := parseFloat T (get "bid_depth_total_open")
      askDepthTotalOpen := parseFloat T (get "ask_depth_total_open")
      bidDepthL1Close := parseFloat T (get "bid_depth_l1_close")
      askDepthL1Close := parseFloat T (get "ask_depth_l1_close")
      bidDepthL2Close := parseFloat T (get "bid_depth_l2_close")
      askDepthL2Close := parseFloat T (get "ask_depth_l2_close")
      bidDepthTop10Close := parseFloat T (get "bid_depth_top10_close")
      askDepthTop10Close := parseFloat T (get "ask_depth_top10_close")
      bidDepthTotalClose := parseFloat T (get "bid_depth_total_close")
      askDepthTotalClose := parseFloat T (get "ask_depth_total_close")
      weightedBidPrice := parseFloat T (get "weighted_bid_price")
      weightedAskPrice := parseFloat T (get "weighted_ask_price")
      depthTo1PctBid := parseFloat T (get "depth_to_1pct_bid")
      depthTo1PctAsk := parseFloat T (get "depth_to_1pct_ask")
      ofi := parseFloat T (get "ofi")
      ofiL1 := parseFloat T (get "ofi_l1")
      buyVolume := parseFloat T (get "buy_volume")
      sellVolume := parseFloat T (get "sell_volume")
      footprintJSON := getString (get "footprint_json")
      pocPrice := parseFloat T (get "poc_price")
      valueAreaHigh := parseFloat T (get "value_area_high")
      valueAreaLow := parseFloat T (get "value_area_low")
      pocVolume := parseFloat T (get "poc_volume")
      imbalanceBuyCount := parseInt32 (get "imbalance_buy_count")
      imbalanceSellCount := parseInt32 (get "imbalance_sell_count")
      imbalanceStackBuy := parseInt32 (get "imbalance_stack_buy")
      imbalanceStackSell := parseInt32 (get "imbalance_stack_sell")
      imbalanceRatio := parseFloat T (get "imbalance_ratio")
      singlePrintCount := parseInt32 (get "single_print_count")
      singlePrintLevelsJSON := getString (get "single_print_levels_json")
      unfinishedTop := parseBool (get "unfinished_top")
      unfinishedBottom := parseBool (get "unfinished_bottom")
      absorptionDetected := parseBool (get "absorption_detected")
      footprintDeltaDivergence := parseInt32 (get "footprint_delta_divergence")
      cumDelta := parseFloat T (get "cum_delta")
      cvdDivergence := parseInt32 (get "cvd_divergence")
      icebergBidDetected := parseBool (get "iceberg_bid_detected")
      icebergAskDetected := parseBool (get "iceberg_ask_detected")
      icebergPrice := parseFloat T (get "iceberg_price")
      blockBuyVolume := parseFloat T (get "block_buy_volume")
      blockSellVolume := parseFloat T (get "block_sell_volume")
      maxTradeSize := parseFloat T (get "max_trade_size")
      tradeClustering := parseFloat T (get "trade_clustering")
      realizedVol := parseFloat T (get "realized_vol")
      realizedSkewness := parseFloat T (get "realized_skewness")
      avgBidOrderSize := parseFloat T (get "avg_bid_order_size")
      avgAskOrderSize := parseFloat T (get "avg_ask_order_size")
      quoteStuffRatio := parseFloat T (get "quote_stuff_ratio")
      tradeSignAutocorr := parseFloat T (get "trade_sign_autocorr")
      interTradeIntervalStdMs := parseFloat T (get "inter_trade_interval_std_ms")
      tradeCount := parseInt32 (get "trade_count")
      buyCount := parseInt32 (get "buy_count")
      largeBidOrders := parseInt32 (get "large_bid_orders")
      largeAskOrders := parseInt32 (get "large_ask_orders")
      firstTradeOffsetMs := parseInt32 (get "first_trade_offset_ms")
      lastTradeOffsetMs := parseInt32 (get "last_trade_offset_ms")
      maxConsecutiveRun := parseInt32 (get "max_consecutive_run")
      uptickCount := parseInt32 (get "uptick_count")
      downtickCount := parseInt32 (get "downtick_count")
      bidOrderArrivals := parseInt32 (get "bid_order_arrivals")
      askOrderArrivals := parseInt32 (get "ask_order_arrivals")
      bidCancelCount := parseInt32 (get "bid_cancel_count")
      askCancelCount := parseInt32 (get "ask_cancel_count")
      obModifyCount := parseInt32 (get "ob_modify_count")
      bestBidChanges := parseInt32 (get "best_bid_changes")
      bestAskChanges := parseInt32 (get "best_ask_changes")
      numTradePriceLevels := parseInt32 (get "num_trade_price_levels")
      isPartial := get "is_partial" = "true"
      gapCount := parseCount (get "gap_count")
      barCount := parseCount (get "bar_count") }

end Flusher

end MagnumOpus.Candle
