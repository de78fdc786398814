import MagnumOpus.Lib.Ohlcv
import MagnumOpus.Candle.Accumulator

/-! # The bars of an accumulator

`currentBar` reads a bar off the running state of an accumulator (`accumulator.go`).  A value that
is absent (a nil pointer in the source) is `none`; the prices and volumes of a bar are absent when
it has no trades.  Values of the bar that come from depth snapshots, block trades, order counters
and the footprint are left out, with the state they are computed from.

`Trades.ohlcv` is the summary of the trades of the running bar, and `Bar.ohlcv` that of a finished
one, in which what is absent counts as nothing.  They agree on the bar that `currentBar` returns
(`ohlcv_currentBar`), and a trade that counts adds its own summary (`ohlcv_applyTrade`). -/

namespace MagnumOpus.Candle

/-- Machine integers under addition. -/
instance instAddCommMonoidInt64 : AddCommMonoid Int64 where
  add_assoc := Int64.add_assoc
  zero_add := Int64.zero_add
  add_zero := Int64.add_zero
  add_comm := Int64.add_comm
  nsmul := nsmulRec

/-- The bar of one second, or of a part of it. -/
structure Bar where
  tsSecMs : Int64
  exchange : String := ""
  symbol : String := ""
  openPrice : Option ℚ := none
  high : Option ℚ := none
  low : Option ℚ := none
  close : Option ℚ := none
  volume : Option ℚ := none
  quoteVolume : Option ℚ := none
  tradeCount : Int64 := 0
  twap : Option ℚ := none
  bestBidOpen : Option ℚ := none
  bestAskOpen : Option ℚ := none
  bestBid : Option ℚ := none
  bestAsk : Option ℚ := none
  midPriceOpen : Option ℚ := none
  midPriceHigh : Option ℚ := none
  midPriceLow : Option ℚ := none
  vwmp : Option ℚ := none
  spreadHigh : Option ℚ := none
  spreadLow : Option ℚ := none
  spreadMean : Option ℚ := none
  effectiveSpread : Option ℚ := none
  buyVolume : Option ℚ := none
  buyCount : Option ℕ := none
  sellVolume : Option ℚ := none
  /-- Set after `currentBar`, as is the next field. -/
  cumDelta : Option ℚ := none
  cvdDivergence : Option ℤ := none
  maxTradeSize : Option ℚ := none
  firstTradeOffsetMs : Option Int64 := none
  lastTradeOffsetMs : Option Int64 := none
  maxConsecutiveRun : Option ℕ := none
  uptickCount : Option ℕ := none
  downtickCount : Option ℕ := none
  numTradePriceLevels : Option ℕ := none
  ofiL1 : Option ℚ := none
  hawkesIntensity : Option ℚ := none
  buyVwapDeviationBps : Option ℚ := none
  sellVwapDeviationBps : Option ℚ := none
  isPartial : Bool := false
  gapCount : Int64 := 0
  barCount : Int64 := 0
deriving DecidableEq

/-- An accumulator with its symbol and its counts of gaps and bars. -/
structure BarAccumulator extends Accumulator where
  exchange : String := ""
  symbol : String := ""
  gapCount : ℕ := 0
  barCount : ℕ := 0
deriving DecidableEq

namespace BarAccumulator

variable (N : Numerics)

def new (exchange symbol : String) : BarAccumulator where
  exchange := exchange
  symbol := symbol

def apply (a : BarAccumulator) (price size : String) (isTrade : Bool) (side : String)
    (tsMs : Int64) (prevQuote currQuote : BestQuote) : BarAccumulator :=
  { a with
    toAccumulator := a.toAccumulator.apply N price size isTrade side tsMs prevQuote currQuote }

def incrementGap (a : BarAccumulator) : BarAccumulator := { a with gapCount := a.gapCount + 1 }

/-- Takes the last known quote for the open quote of a bar that has none. -/
def seedFromLastKnown (a : BarAccumulator) : BarAccumulator :=
  if a.quotes.hasOpenQuote = false ∧ a.quotes.hasLastKnownOB = true then
    { a with quotes := { a.quotes with
        bestBidOpen := a.quotes.lastKnownBid
        bestAskOpen := a.quotes.lastKnownAsk
        hasOpenQuote := true } }
  else a

/-- The time-weighted price, with the last price held until the end of the bar. -/
def twap (t : Trades) (barEndMs : Int64) : ℚ :=
  let dt := barEndMs - t.lastTradeTsMs
  if 0 < dt then (t.twapNumer + t.close * dt.toInt) / (t.twapDenom + dt.toInt)
  else if 0 < t.twapDenom then t.twapNumer / t.twapDenom
  else t.close

/-- The deviation of a volume-weighted price from the mid price, in basis points. -/
def vwapDeviationBps (numer denom mid : ℚ) : ℚ := (numer / denom - mid) / mid * 10000

/-- The bar so far.  `tsSecMs` is the second it is labelled with. -/
def currentBar (a : BarAccumulator) (tsSecMs : Int64) (isPartial : Bool) : Bar :=
  let t := a.trades
  let q := a.quotes
  let onTrade {α : Type} (x : α) : Option α := if 0 < t.tradeCount then some x else none
  let mid := midPrice q.bestBid q.bestAsk
  { tsSecMs := tsSecMs
    exchange := a.exchange
    symbol := a.symbol
    openPrice := onTrade t.openPrice
    high := onTrade t.high
    low := onTrade t.low
    close := onTrade t.close
    volume := onTrade t.volumeSum
    quoteVolume := onTrade t.quoteVolSum
    tradeCount := Int64.ofNat t.tradeCount
    twap := onTrade (twap t (tsSecMs + 1000))
    bestBidOpen := if q.hasOpenQuote then some q.bestBidOpen else none
    bestAskOpen := if q.hasOpenQuote then some q.bestAskOpen else none
    bestBid := if q.hasCloseQuote then some q.bestBid else none
    bestAsk := if q.hasCloseQuote then some q.bestAsk else none
    midPriceOpen := if q.hasMidOpen then some q.midPriceOpen else none
    midPriceHigh := if q.hasMidOpen then some q.midPriceHigh else none
    midPriceLow := if q.hasMidOpen then some q.midPriceLow else none
    vwmp := if 0 < t.vwmpDenom then some (t.vwmpNumer / t.vwmpDenom) else none
    spreadHigh := if q.hasSpread then some q.spreadHigh else none
    spreadLow := if q.hasSpread then some q.spreadLow else none
    spreadMean := if q.hasSpread then some (q.spreadSum / q.spreadCount) else none
    effectiveSpread :=
      if 0 < t.effectiveSpreadCount then some (t.effectiveSpreadSum / t.effectiveSpreadCount)
      else none
    buyVolume := onTrade t.buyVolume
    buyCount := onTrade t.buyCount
    sellVolume := onTrade a.sellVolume
    maxTradeSize := onTrade t.maxTradeSize
    firstTradeOffsetMs :=
      onTrade (if t.firstTradeTsMs - tsSecMs < 0 then 0 else t.firstTradeTsMs - tsSecMs)
    lastTradeOffsetMs :=
      onTrade (if t.lastTradeTsMs - tsSecMs < 0 then 0 else t.lastTradeTsMs - tsSecMs)
    maxConsecutiveRun := onTrade t.maxConsecutiveRun
    uptickCount := onTrade t.uptickCount
    downtickCount := onTrade t.downtickCount
    numTradePriceLevels := onTrade t.tradePriceLevels.card
    ofiL1 := if a.flow.hasTicks then some a.flow.ofiSum else none
    hawkesIntensity := if a.flow.hasTicks then some a.flow.hawkesDecaySum else none
    buyVwapDeviationBps :=
      if q.hasCloseQuote ∧ 0 < mid ∧ 0 < t.buyVwapDenom then
        some (vwapDeviationBps t.buyVwapNumer t.buyVwapDenom mid)
      else none
    sellVwapDeviationBps :=
      if q.hasCloseQuote ∧ 0 < mid ∧ 0 < t.sellVwapDenom then
        some (vwapDeviationBps t.sellVwapNumer t.sellVwapDenom mid)
      else none
    isPartial := isPartial
    gapCount := Int64.ofNat a.gapCount
    -- The running bar counts as well.
    barCount := Int64.ofNat (a.barCount + 1) }

/-- Clears the state of the bar. -/
def barReset (a : BarAccumulator) : BarAccumulator :=
  { a with
    toAccumulator := a.toAccumulator.barReset
    gapCount := 0
    barCount := a.barCount + 1 }

/-- Starts over. -/
def reset (a : BarAccumulator) : BarAccumulator :=
  { a with
    toAccumulator := a.toAccumulator.reset
    gapCount := 0
    barCount := 0 }

end BarAccumulator

/-! ### Summaries -/

/-- The summary of a bar. -/
def Bar.ohlcv (b : Bar) : Ohlcv ℚ Int64 where
  openPrice := b.openPrice
  high := b.high
  low := b.low
  close := b.close
  volume := b.volume.getD 0
  quoteVolume := b.quoteVolume.getD 0
  buyVolume := b.buyVolume.getD 0
  tradeCount := b.tradeCount

/-- The summary of the trades so far. -/
def Trades.ohlcv (t : Trades) : Ohlcv ℚ Int64 where
  openPrice := if 0 < t.tradeCount then some t.openPrice else none
  high := if 0 < t.tradeCount then some t.high else none
  low := if 0 < t.tradeCount then some t.low else none
  close := if 0 < t.tradeCount then some t.close else none
  volume := t.volumeSum
  quoteVolume := t.quoteVolSum
  buyVolume := t.buyVolume
  tradeCount := Int64.ofNat t.tradeCount

/-- The summary of one trade. -/
def tradeOhlcv (p s : ℚ) (side : String) : Ohlcv ℚ Int64 where
  openPrice := some p
  high := some p
  low := some p
  close := some p
  volume := s
  quoteVolume := p * s
  buyVolume := if side = "buy" then s else 0
  tradeCount := 1

/-- Without a trade nothing has been recorded. -/
def Trades.Started (t : Trades) : Prop := t.tradeCount = 0 → t = {}

theorem Trades.started_new : Trades.Started {} := fun _ => rfl

theorem Trades.started_applyTrade (t : Trades) (price : String) (p s : ℚ) (side : String)
    (tsMs : Int64) (mid : Option ℚ) :
    (Accumulator.applyTrade t price p s side tsMs mid).Started :=
  fun h => absurd h (Nat.succ_ne_zero t.tradeCount)

theorem Trades.ohlcv_applyTrade {t : Trades} (ht : t.Started) (price : String) (p s : ℚ)
    (side : String) (tsMs : Int64) (mid : Option ℚ) :
    (Accumulator.applyTrade t price p s side tsMs mid).ohlcv = t.ohlcv + tradeOhlcv p s side := by
  by_cases h0 : t.tradeCount = 0
  · rw [ht h0]
    ext1 <;> simp [Trades.ohlcv, Accumulator.applyTrade, tradeOhlcv]
  · have hpos : 0 < t.tradeCount := Nat.pos_of_ne_zero h0
    ext1
    · simp [Trades.ohlcv, Accumulator.applyTrade, tradeOhlcv, h0, hpos]
    · simp [Trades.ohlcv, Accumulator.applyTrade, tradeOhlcv, h0, hpos, max_def_lt]
    · simp [Trades.ohlcv, Accumulator.applyTrade, tradeOhlcv, h0, hpos, min_comm t.low p,
        min_def_lt]
    · simp [Trades.ohlcv, Accumulator.applyTrade, tradeOhlcv, h0, hpos]
    · rfl
    · rfl
    · by_cases hb : side = "buy" <;> simp [Trades.ohlcv, Accumulator.applyTrade, tradeOhlcv, hb]
    · exact Int64.ofNat_add _ _

theorem ohlcv_currentBar {a : BarAccumulator} (h : a.trades.Started) (tsSecMs : Int64)
    (isPartial : Bool) : (a.currentBar tsSecMs isPartial).ohlcv = a.trades.ohlcv := by
  by_cases h0 : a.trades.tradeCount = 0
  · simp only [Bar.ohlcv, Trades.ohlcv, BarAccumulator.currentBar, h h0, lt_irrefl, if_false,
      Option.getD_none]
  · simp only [Bar.ohlcv, Trades.ohlcv, BarAccumulator.currentBar, Nat.pos_of_ne_zero h0, if_true,
      Option.getD_some]

/-- What a tick adds to the trades: a trade that counts, or nothing. -/
theorem apply_trades {N : Numerics} (a : BarAccumulator) (price size : String) (isTrade : Bool)
    (side : String) (tsMs : Int64) (prevQuote currQuote : BestQuote) (ht : a.trades.Started) :
    let a' := a.apply N price size isTrade side tsMs prevQuote currQuote
    a'.trades.Started ∧ a'.trades.ohlcv = a.trades.ohlcv +
      match if isTrade then Accumulator.parseTrade N price size else none with
      | some (p, s) => tradeOhlcv p s side
      | none => 0 := by
  simp only [BarAccumulator.apply, Accumulator.apply]
  cases isTrade with
  | false => exact ⟨ht, (add_zero _).symm⟩
  | true =>
      cases hps : Accumulator.parseTrade N price size with
      | none => exact ⟨ht, (add_zero _).symm⟩
      | some ps =>
          obtain ⟨p, s⟩ := ps
          exact ⟨Trades.started_applyTrade _ _ _ _ _ _ _, Trades.ohlcv_applyTrade ht _ _ _ _ _ _⟩

end MagnumOpus.Candle
