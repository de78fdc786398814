import Mathlib.Data.List.Sort
import MagnumOpus.Candle.Bar

/-! # All values of a bar

The rest of `accumulator.go` beside `Bar`: the depth of the book at the open and at the close of a
bar, block trades, the counters of order events, and what a bar takes from them.

* **Features.** Values that are computed from the footprint depend on the order in which Go walks
  through a map, and are parameters, as are roots and powers (`Features`).
* **Carried state.** `barReset` clears what belongs to one bar.  The last known quote, the last mid
  price, the tick intensity and the bar count go on. -/

namespace MagnumOpus.Candle

open KeyedWrites

/-! ### Features -/

structure ImbalanceSignals where
  buyCount : ℕ := 0
  sellCount : ℕ := 0
  stackBuy : ℕ := 0
  stackSell : ℕ := 0
  ratio : ℚ := 0
deriving DecidableEq

structure AuctionSignals where
  singlePrintCount : ℕ := 0
  singlePrintLevelsJSON : String := "[]"
  unfinishedTop : Bool := false
  unfinishedBottom : Bool := false
deriving DecidableEq

/-- The point of control and the value area around it. -/
structure ValueArea where
  pocPrice : ℚ
  vahPrice : ℚ
  valPrice : ℚ
  pocVolume : ℚ
deriving DecidableEq

/-- What is computed from a footprint, and roots and powers. -/
structure Features where
  sqrt : ℚ → ℚ
  pow : ℚ → ℚ → ℚ
  footprintJSON : Map String FootprintCell → Option String
  computeValueArea : Map String FootprintCell → Option ValueArea
  computeImbalance : Map String FootprintCell → ImbalanceSignals
  computeAuctionSignals : Map String FootprintCell → ℚ → ℚ → AuctionSignals

/-- The depth-weighted fair value. -/
def microprice (bestBid bestAsk bidL1 askL1 : ℚ) : ℚ :=
  if bidL1 + askL1 = 0 then midPrice bestBid bestAsk
  else (bestAsk * bidL1 + bestBid * askL1) / (bidL1 + askL1)

def micropriceMidDelta (microprice mid : ℚ) : ℚ :=
  if mid = 0 then 0 else (microprice - mid) / mid * 10000

/-- Heavy volume in one direction with little movement of the price. -/
def detectAbsorption (buyVol totalVol openPrice close : ℚ) (tradeCount : ℕ) : Bool :=
  if totalVol = 0 ∨ close = 0 then false
  else if tradeCount < 5 then false
  else if buyVol / totalVol ≤ 6 / 10 ∧ 4 / 10 ≤ buyVol / totalVol then false
  else |close - openPrice| / close < 5 / 10000

/-- Price and net delta move against each other. -/
def footprintDeltaDivergence (openPrice close buyVol sellVol : ℚ) : ℤ :=
  if openPrice < close ∧ buyVol - sellVol < 0 then 1
  else if close < openPrice ∧ 0 < buyVol - sellVol then -1
  else 0

/-- The level of one side has been refilled after it has taken volume. -/
def iceberg (depthClose depthOpen vol : Option ℚ) (arrivals : Option ℕ) : Bool :=
  match depthClose, depthOpen, vol, arrivals with
  | some close, some openDepth, some v, some n =>
      0 < openDepth ∧ openDepth * (8 / 10) ≤ close ∧ 0 < v ∧ 0 < n
  | _, _, _, _ => false

/-- The Gini coefficient of the intervals between trades. -/
def computeGini (timestamps : List Int64) : Option ℚ :=
  let intervals := List.zipWith (fun a b : Int64 => max 0 (b - a).toInt) timestamps timestamps.tail
  let sorted := intervals.insertionSort (· ≤ ·)
  let m : ℤ := sorted.length
  let weighted := (sorted.mapIdx fun i x => (2 * (i : ℤ) - m + 1) * x).sum
  if timestamps.length < 2 ∨ sorted.sum = 0 then none
  else some ((weighted : ℚ) / ((m : ℚ) * (sorted.sum : ℚ)))

/-! ### State -/

/-- The depth of a book. -/
structure DepthSnapshot where
  bidL1 : ℚ := 0
  askL1 : ℚ := 0
  bidL2 : ℚ := 0
  askL2 : ℚ := 0
  bidL3 : ℚ := 0
  askL3 : ℚ := 0
  bidL4 : ℚ := 0
  askL4 : ℚ := 0
  bidL5 : ℚ := 0
  askL5 : ℚ := 0
  bidTop10 : ℚ := 0
  askTop10 : ℚ := 0
  bidTotal : ℚ := 0
  askTotal : ℚ := 0
  weightedBidPrice : ℚ := 0
  weightedAskPrice : ℚ := 0
  depthTo1PctBid : ℚ := 0
  depthTo1PctAsk : ℚ := 0
  hasBidVolume : Bool := false
  hasAskVolume : Bool := false
deriving DecidableEq

structure Depths where
  openDepth : DepthSnapshot := {}
  closeDepth : DepthSnapshot := {}
  hasOpenDepth : Bool := false
  hasCloseDepth : Bool := false
deriving DecidableEq

/-- Block trades. -/
structure Blocks where
  blockBuyVolume : ℚ := 0
  blockSellVolume : ℚ := 0
  largeBidCount : ℕ := 0
  largeAskCount : ℕ := 0
  hasBlockData : Bool := false
deriving DecidableEq

/-- Order events. -/
structure Orders where
  bidOrderArrivals : ℕ := 0
  askOrderArrivals : ℕ := 0
  bidCancelCount : ℕ := 0
  askCancelCount : ℕ := 0
  obModifyCount : ℕ := 0
  bidArrivalVolSum : ℚ := 0
  askArrivalVolSum : ℚ := 0
  hasOBActivity : Bool := false
deriving DecidableEq

/-- An accumulator with everything that a bar is made of. -/
structure FullAccumulator extends BarAccumulator where
  depths : Depths := {}
  blocks : Blocks := {}
  orders : Orders := {}
deriving DecidableEq

/-- A bar with all its values. -/
structure FullBar extends Bar where
  bidDepthL1Open : Option ℚ := none
  askDepthL1Open : Option ℚ := none
  bidDepthL2Open : Option ℚ := none
  askDepthL2Open : Option ℚ := none
  bidDepthL3Open : Option ℚ := none
  askDepthL3Open : Option ℚ := none
  bidDepthL4Open : Option ℚ := none
  askDepthL4Open : Option ℚ := none
  bidDepthL5Open : Option ℚ := none
  askDepthL5Open : Option ℚ := none
  bidDepthTop10Open : Option ℚ := none
  askDepthTop10Open : Option ℚ := none
  bidDepthTotalOpen : Option ℚ := none
  askDepthTotalOpen : Option ℚ := none
  bidDepthL1Close : Option ℚ := none
  askDepthL1Close : Option ℚ := none
  bidDepthL2Close : Option ℚ := none
  askDepthL2Close : Option ℚ := none
  bidDepthL3Close : Option ℚ := none
  askDepthL3Close : Option ℚ := none
  bidDepthL4Close : Option ℚ := none
  askDepthL4Close : Option ℚ := none
  bidDepthL5Close : Option ℚ := none
  askDepthL5Close : Option ℚ := none
  bidDepthTop10Close : Option ℚ := none
  askDepthTop10Close : Option ℚ := none
  bidDepthTotalClose : Option ℚ := none
  askDepthTotalClose : Option ℚ := none
  weightedBidPrice : Option ℚ := none
  weightedAskPrice : Option ℚ := none
  depthTo1PctBid : Option ℚ := none
  depthTo1PctAsk : Option ℚ := none
  footprintJSON : Option String := none
  pocPrice : Option ℚ := none
  valueAreaHigh : Option ℚ := none
  valueAreaLow : Option ℚ := none
  pocVolume : Option ℚ := none
  imbalanceBuyCount : Option ℕ := none
  imbalanceSellCount : Option ℕ := none
  imbalanceStackBuy : Option ℕ := none
  imbalanceStackSell : Option ℕ := none
  imbalanceRatio : Option ℚ := none
  singlePrintCount : Option ℕ := none
  singlePrintLevelsJSON : Option String := none
  unfinishedTop : Option Bool := none
  unfinishedBottom : Option Bool := none
  absorptionDetected : Option Bool := none
  footprintDeltaDivergence : Option ℤ := none
  icebergBidDetected : Option Bool := none
  icebergAskDetected : Option Bool := none
  icebergPrice : Option ℚ := none
  blockBuyVolume : Option ℚ := none
  blockSellVolume : Option ℚ := none
  largeBidOrders : Option ℕ := none
  largeAskOrders : Option ℕ := none
  tradeClustering : Option ℚ := none
  realizedVol : Option ℚ := none
  realizedSkewness : Option ℚ := none
  bidOrderArrivals : Option ℕ := none
  askOrderArrivals : Option ℕ := none
  bidCancelCount : Option ℕ := none
  askCancelCount : Option ℕ := none
  obModifyCount : Option ℕ := none
  avgBidOrderSize : Option ℚ := none
  avgAskOrderSize : Option ℚ := none
  bestBidChanges : Option ℕ := none
  bestAskChanges : Option ℕ := none
  quoteStuffRatio : Option ℚ := none
  tradeSignAutocorr : Option ℚ := none
  interTradeIntervalStdMs : Option ℚ := none
  /-- Never set. -/
  ofi : Option ℚ := none
  microprice : Option ℚ := none
  micropriceMidDelta : Option ℚ := none
  cancelBias : Option ℚ := none
  tradeAggressiveness : Option ℚ := none

namespace FullAccumulator

variable (N : Numerics) (F : Features)

def new (exchange symbol : String) : FullAccumulator where
  exchange := exchange
  symbol := symbol

def apply (a : FullAccumulator) (price size : String) (isTrade : Bool) (side : String)
    (tsMs : Int64) (prevQuote currQuote : BestQuote) : FullAccumulator :=
  { a with
    toBarAccumulator :=
      a.toBarAccumulator.apply N price size isTrade side tsMs prevQuote currQuote }

/-- Records a trade above the threshold for block trades. -/
def applyBlockTrade (a : FullAccumulator) (side : String) (size : ℚ) : FullAccumulator :=
  let b := a.blocks
  { a with
    blocks :=
      if side = "buy" then
        { b with
          blockBuyVolume := b.blockBuyVolume + size
          largeBidCount := b.largeBidCount + 1
          hasBlockData := true }
      else
        { b with
          blockSellVolume := b.blockSellVolume + size
          largeAskCount := b.largeAskCount + 1
          hasBlockData := true } }

def setOpenDepth (a : FullAccumulator) (d : DepthSnapshot) : FullAccumulator :=
  { a with depths := { a.depths with openDepth := d, hasOpenDepth := true } }

def setCloseDepth (a : FullAccumulator) (d : DepthSnapshot) : FullAccumulator :=
  { a with depths := { a.depths with closeDepth := d, hasCloseDepth := true } }

def incrementGap (a : FullAccumulator) : FullAccumulator :=
  { a with toBarAccumulator := a.toBarAccumulator.incrementGap }

def seedFromLastKnown (a : FullAccumulator) : FullAccumulator :=
  { a with toBarAccumulator := a.toBarAccumulator.seedFromLastKnown }

/-- A new level. -/
def incrementOBAdd (a : FullAccumulator) (side : String) (size : ℚ) : FullAccumulator :=
  let o := a.orders
  { a with
    orders :=
      if side = "buy" then
        { o with
          bidOrderArrivals := o.bidOrderArrivals + 1
          bidArrivalVolSum := o.bidArrivalVolSum + size
          hasOBActivity := true }
      else
        { o with
          askOrderArrivals := o.askOrderArrivals + 1
          askArrivalVolSum := o.askArrivalVolSum + size
          hasOBActivity := true } }

/-- A level that is gone. -/
def incrementOBCancel (a : FullAccumulator) (side : String) : FullAccumulator :=
  let o := a.orders
  { a with
    orders :=
      if side = "buy" then { o with bidCancelCount := o.bidCancelCount + 1, hasOBActivity := true }
      else { o with askCancelCount := o.askCancelCount + 1, hasOBActivity := true } }

/-- A level with a new size. -/
def incrementOBModify (a : FullAccumulator) : FullAccumulator :=
  { a with
    orders := { a.orders with
      obModifyCount := a.orders.obModifyCount + 1
      hasOBActivity := true } }

/-- The standard deviation of the intervals between trades. -/
def interTradeIntervalStd (timestamps : List Int64) : ℚ :=
  let intervals := List.zipWith (fun a b : Int64 => (b - a).toInt) timestamps timestamps.tail
  let n : ℚ := intervals.length
  let sumI : ℚ := intervals.sum
  let sumI2 : ℚ := ((intervals.map fun d => d * d).sum : ℤ)
  let variance := sumI2 / n - sumI / n * (sumI / n)
  if 0 < variance then F.sqrt variance else 0

/-- The correlation of the signs of trades that follow each other. -/
def tradeSignAutocorr (t : Trades) : Option ℚ :=
  let n : ℚ := (t.tradeCount - 1 : ℕ)
  let meanX := ((t.sumSigns - t.lastSign : ℤ) : ℚ) / n
  let meanY := ((t.sumSigns - t.firstSign : ℤ) : ℚ) / n
  let cov := (t.sumSignPairs : ℚ) / n - meanX * meanY
  let varX := 1 - meanX * meanX
  let varY := 1 - meanY * meanY
  if 0 < varX ∧ 0 < varY then some (cov / F.sqrt (varX * varY)) else none

/-- The bar so far, with all its values. -/
def currentBar (a : FullAccumulator) (tsSecMs : Int64) (isPartial : Bool) : FullBar :=
  let t := a.trades
  let q := a.quotes
  let m := a.moments
  let d := a.depths
  let o := a.orders
  let onTrade {α : Type} (x : α) : Option α := if 0 < t.tradeCount then some x else none
  let atOpen (x : ℚ) : Option ℚ := if d.hasOpenDepth then some x else none
  let atClose (x : ℚ) : Option ℚ := if d.hasCloseDepth then some x else none
  let onOrder {α : Type} (x : α) : Option α := if o.hasOBActivity then some x else none
  let footprint : Bool := 0 < t.tradeCount ∧ t.footprintMap ≠ ∅
  let area := if footprint then F.computeValueArea t.footprintMap else none
  let onFootprint {α : Type} (x : α) : Option α := if footprint then some x else none
  let imbalance := F.computeImbalance t.footprintMap
  let auction := F.computeAuctionSignals t.footprintMap t.high t.low
  let onAuction {α : Type} (x : α) : Option α :=
    if footprint ∧ t.high ≠ 0 ∧ t.low ≠ 0 ∧ t.openPrice ≠ 0 ∧ t.close ≠ 0 then some x else none
  let bar := a.toBarAccumulator.currentBar tsSecMs isPartial
  let mp := microprice q.bestBid q.bestAsk d.closeDepth.bidL1 d.closeDepth.askL1
  let onMicroprice (x : ℚ) : Option ℚ :=
    if q.hasCloseQuote ∧ d.hasCloseDepth then some x else none
  let iceBid := iceberg (atClose d.closeDepth.bidL1) (atOpen d.openDepth.bidL1) bar.buyVolume
    (onOrder o.bidOrderArrivals)
  let iceAsk := iceberg (atClose d.closeDepth.askL1) (atOpen d.openDepth.askL1) bar.sellVolume
    (onOrder o.askOrderArrivals)
  { bar with
    bidDepthL1Open := atOpen d.openDepth.bidL1
    askDepthL1Open := atOpen d.openDepth.askL1
    bidDepthL2Open := atOpen d.openDepth.bidL2
    askDepthL2Open := atOpen d.openDepth.askL2
    bidDepthL3Open := atOpen d.openDepth.bidL3
    askDepthL3Open := atOpen d.openDepth.askL3
    bidDepthL4Open := atOpen d.openDepth.bidL4
    askDepthL4Open := atOpen d.openDepth.askL4
    bidDepthL5Open := atOpen d.openDepth.bidL5
    askDepthL5Open := atOpen d.openDepth.askL5
    bidDepthTop10Open := atOpen d.openDepth.bidTop10
    askDepthTop10Open := atOpen d.openDepth.askTop10
    bidDepthTotalOpen := atOpen d.openDepth.bidTotal
    askDepthTotalOpen := atOpen d.openDepth.askTotal
    bidDepthL1Close := atClose d.closeDepth.bidL1
    askDepthL1Close := atClose d.closeDepth.askL1
    bidDepthL2Close := atClose d.closeDepth.bidL2
    askDepthL2Close := atClose d.closeDepth.askL2
    bidDepthL3Close := atClose d.closeDepth.bidL3
    askDepthL3Close := atClose d.closeDepth.askL3
    bidDepthL4Close := atClose d.closeDepth.bidL4
    askDepthL4Close := atClose d.closeDepth.askL4
    bidDepthL5Close := atClose d.closeDepth.bidL5
    askDepthL5Close := atClose d.closeDepth.askL5
    bidDepthTop10Close := atClose d.closeDepth.bidTop10
    askDepthTop10Close := atClose d.closeDepth.askTop10
    bidDepthTotalClose := atClose d.closeDepth.bidTotal
    askDepthTotalClose := atClose d.closeDepth.askTotal
    weightedBidPrice :=
      if d.hasCloseDepth ∧ d.closeDepth.hasBidVolume then some d.closeDepth.weightedBidPrice
      else none
    weightedAskPrice :=
      if d.hasCloseDepth ∧ d.closeDepth.hasAskVolume then some d.closeDepth.weightedAskPrice
      else none
    depthTo1PctBid :=
      if d.hasCloseDepth ∧ d.closeDepth.hasBidVolume then some d.closeDepth.depthTo1PctBid
      else none
    depthTo1PctAsk :=
      if d.hasCloseDepth ∧ d.closeDepth.hasAskVolume then some d.closeDepth.depthTo1PctAsk
      else none
    footprintJSON := if footprint then F.footprintJSON t.footprintMap else none
    pocPrice := area.map ValueArea.pocPrice
    valueAreaHigh := area.map ValueArea.vahPrice
    valueAreaLow := area.map ValueArea.valPrice
    pocVolume := area.map ValueArea.pocVolume
    imbalanceBuyCount := onFootprint imbalance.buyCount
    imbalanceSellCount := onFootprint imbalance.sellCount
    imbalanceStackBuy := onFootprint imbalance.stackBuy
    imbalanceStackSell := onFootprint imbalance.stackSell
    imbalanceRatio := onFootprint imbalance.ratio
    singlePrintCount := onAuction auction.singlePrintCount
    singlePrintLevelsJSON := onAuction auction.singlePrintLevelsJSON
    unfinishedTop := onAuction auction.unfinishedTop
    unfinishedBottom := onAuction auction.unfinishedBottom
    absorptionDetected :=
      onAuction (detectAbsorption t.buyVolume t.volumeSum t.openPrice t.close t.tradeCount)
    footprintDeltaDivergence :=
      onTrade (footprintDeltaDivergence t.openPrice t.close t.buyVolume a.sellVolume)
    icebergBidDetected := onTrade iceBid
    icebergAskDetected := onTrade iceAsk
    icebergPrice :=
      if t.tradeCount = 0 then none
      else if iceBid ∧ bar.bestBid.isSome then bar.bestBid
      else if iceAsk then bar.bestAsk
      else none
    blockBuyVolume := if a.blocks.hasBlockData then some a.blocks.blockBuyVolume else none
    blockSellVolume := if a.blocks.hasBlockData then some a.blocks.blockSellVolume else none
    largeBidOrders := if a.blocks.hasBlockData then some a.blocks.largeBidCount else none
    largeAskOrders := if a.blocks.hasBlockData then some a.blocks.largeAskCount else none
    tradeClustering := if t.tradeCount < 2 then none else computeGini t.tradeTimestamps
    realizedVol :=
      if m.nMidReturns < 2 ∨ m.midReturnM2 ≤ 0 then none
      else some (F.sqrt (m.midReturnM2 / (m.nMidReturns - 1 : ℕ)))
    realizedSkewness :=
      if m.nMidReturns < 3 ∨ m.midReturnM2 ≤ 0 then none
      else some (F.sqrt m.nMidReturns * m.midReturnM3 / F.pow m.midReturnM2 (3 / 2))
    bidOrderArrivals := onOrder o.bidOrderArrivals
    askOrderArrivals := onOrder o.askOrderArrivals
    bidCancelCount := onOrder o.bidCancelCount
    askCancelCount := onOrder o.askCancelCount
    obModifyCount := onOrder o.obModifyCount
    avgBidOrderSize :=
      if 0 < o.bidOrderArrivals then some (o.bidArrivalVolSum / o.bidOrderArrivals) else none
    avgAskOrderSize :=
      if 0 < o.askOrderArrivals then some (o.askArrivalVolSum / o.askOrderArrivals) else none
    bestBidChanges := if q.hasQuoteActivity then some q.bestBidChanges else none
    bestAskChanges := if q.hasQuoteActivity then some q.bestAskChanges else none
    quoteStuffRatio := onTrade
      (((o.bidOrderArrivals + o.askOrderArrivals + (o.bidCancelCount + o.askCancelCount) : ℕ) : ℚ) /
        t.tradeCount)
    tradeSignAutocorr := if t.tradeCount < 2 then none else tradeSignAutocorr F t
    interTradeIntervalStdMs :=
      if t.tradeCount < 2 then none else some (interTradeIntervalStd F t.tradeTimestamps)
    microprice := onMicroprice mp
    micropriceMidDelta := onMicroprice (micropriceMidDelta mp (midPrice q.bestBid q.bestAsk))
    cancelBias := onOrder
      (((o.bidCancelCount : ℚ) - o.askCancelCount) / ((o.bidCancelCount + o.askCancelCount : ℕ) + 1))
    tradeAggressiveness :=
      if d.hasCloseDepth ∧ 0 < t.tradeCount then
        some (if 0 < d.closeDepth.bidL1 then t.volumeSum / (d.closeDepth.bidL1 + 1 / 1000000000)
          else 0)
      else none }

/-- Clears the state of the bar. -/
def barReset (a : FullAccumulator) : FullAccumulator where
  toBarAccumulator := a.toBarAccumulator.barReset
  depths := { a.depths with
    openDepth := {}
    closeDepth := {}
    hasOpenDepth := false
    hasCloseDepth := false }
  blocks := { a.blocks with
    blockBuyVolume := 0
    blockSellVolume := 0
    largeBidCount := 0
    largeAskCount := 0
    hasBlockData := false }
  orders := { a.orders with
    bidOrderArrivals := 0
    askOrderArrivals := 0
    bidCancelCount := 0
    askCancelCount := 0
    obModifyCount := 0
    bidArrivalVolSum := 0
    askArrivalVolSum := 0
    hasOBActivity := false }

/-- Starts over. -/
def reset (a : FullAccumulator) : FullAccumulator :=
  { a.barReset with toBarAccumulator := a.toBarAccumulator.reset }

end FullAccumulator

end MagnumOpus.Candle
