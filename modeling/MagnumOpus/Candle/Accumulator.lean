import Mathlib.Algebra.Order.Field.Rat
import Mathlib.Data.Finset.Insert
import Mathlib.Tactic.Linarith
import MagnumOpus.Lib.KeyedWrites
import MagnumOpus.Candle.Messages

/-! # The accumulator of a bar

`accumulator.go`: the running state of one bar, which `apply` moves by one tick, and
`features.go`, which it uses.

* **Numbers.** Floating-point numbers are taken as exact rationals.  What a text parses to, and the
  exponential and the logarithm, are parameters (`Numerics`).
* **State.** The fields are those of the source, grouped by the part of `apply` that moves them.
  Depth snapshots, block trades, order counters and the gap and bar counts, which `apply` does not
  touch, are left out.
* **Volumes.** The sell volume of a bar is the total less the buy volume (`sellVolume`); the total
  is never below the buy volume (`Reachable.buyVolume_le`). -/

namespace MagnumOpus.Candle

open KeyedWrites

/-- Parsing and transcendental functions. -/
structure Numerics where
  parseFloat : String → Option ℚ
  exp : ℚ → ℚ
  log : ℚ → ℚ

/-! ### Features -/

/-- The best bid and ask of a book. -/
structure BestQuote where
  bidPrice : String
  bidSize : String
  askPrice : String
  askSize : String
deriving DecidableEq, Repr

/-- Both sides of the quote have a price. -/
def BestQuote.Complete (q : BestQuote) : Prop := q.bidPrice ≠ "" ∧ q.askPrice ≠ ""

instance (q : BestQuote) : Decidable q.Complete :=
  inferInstanceAs (Decidable (q.bidPrice ≠ "" ∧ q.askPrice ≠ ""))

def midPrice (bid ask : ℚ) : ℚ := (bid + ask) / 2

def spread (bid ask : ℚ) : ℚ := ask - bid

def effectiveSpreadContrib (tradePrice mid : ℚ) : ℚ := 2 * |tradePrice - mid|

/-- The change of the order flow imbalance between two quotes. -/
def ofiDelta (N : Numerics) (prev curr : BestQuote) : ℚ :=
  if prev.Complete ∧ curr.Complete then
    let num (s : String) : ℚ := (N.parseFloat s).getD 0
    let deltaBid :=
      if num curr.bidPrice = num prev.bidPrice then num curr.bidSize - num prev.bidSize
      else if num prev.bidPrice < num curr.bidPrice then num curr.bidSize
      else 0
    let deltaAsk :=
      if num curr.askPrice = num prev.askPrice then num curr.askSize - num prev.askSize
      else if num curr.askPrice < num prev.askPrice then num curr.askSize
      else 0
    deltaBid - deltaAsk
  else 0

/-! ### State -/

/-- Tick intensity and order flow imbalance. -/
structure Flow where
  hasTicks : Bool := false
  hawkesDecaySum : ℚ := 0
  lastTickTsMs : Int64 := 0
  ofiSum : ℚ := 0
deriving DecidableEq

/-- Best quotes, mid price and spread. -/
structure Quotes where
  bestBidOpen : ℚ := 0
  bestAskOpen : ℚ := 0
  bestBid : ℚ := 0
  bestAsk : ℚ := 0
  hasOpenQuote : Bool := false
  hasCloseQuote : Bool := false
  lastKnownBid : ℚ := 0
  lastKnownAsk : ℚ := 0
  hasLastKnownOB : Bool := false
  midPriceOpen : ℚ := 0
  midPriceHigh : ℚ := 0
  midPriceLow : ℚ := 0
  hasMidOpen : Bool := false
  hasMidHL : Bool := false
  spreadHigh : ℚ := 0
  spreadLow : ℚ := 0
  spreadSum : ℚ := 0
  spreadCount : ℕ := 0
  hasSpread : Bool := false
  bestBidChanges : ℕ := 0
  bestAskChanges : ℕ := 0
  hasQuoteActivity : Bool := false
deriving DecidableEq

/-- Online moments of the log returns of the mid price. -/
structure Moments where
  nMidReturns : ℕ := 0
  midReturnMean : ℚ := 0
  midReturnM2 : ℚ := 0
  midReturnM3 : ℚ := 0
  lastMidPrice : ℚ := 0
  hasLastMid : Bool := false
deriving DecidableEq

/-- Buy and sell volume at one price. -/
structure FootprintCell where
  buyVol : ℚ := 0
  sellVol : ℚ := 0
deriving DecidableEq

/-- Everything that trades move. -/
structure Trades where
  openPrice : ℚ := 0
  high : ℚ := 0
  low : ℚ := 0
  close : ℚ := 0
  volumeSum : ℚ := 0
  quoteVolSum : ℚ := 0
  tradeCount : ℕ := 0
  twapNumer : ℚ := 0
  twapDenom : ℚ := 0
  lastTradeTsMs : Int64 := 0
  buyVolume : ℚ := 0
  buyCount : ℕ := 0
  footprintMap : Map String FootprintCell := ∅
  buyVwapNumer : ℚ := 0
  buyVwapDenom : ℚ := 0
  sellVwapNumer : ℚ := 0
  sellVwapDenom : ℚ := 0
  vwmpNumer : ℚ := 0
  vwmpDenom : ℚ := 0
  effectiveSpreadSum : ℚ := 0
  effectiveSpreadCount : ℕ := 0
  maxTradeSize : ℚ := 0
  firstTradeTsMs : Int64 := 0
  tradeTimestamps : List Int64 := []
  consecutiveRunLen : ℕ := 0
  consecutiveRunSide : String := ""
  maxConsecutiveRun : ℕ := 0
  uptickCount : ℕ := 0
  downtickCount : ℕ := 0
  sumSigns : ℤ := 0
  sumSignPairs : ℤ := 0
  firstSign : ℤ := 0
  lastSign : ℤ := 0
  tradePriceLevels : Finset String := ∅
deriving DecidableEq

structure Accumulator where
  flow : Flow := {}
  quotes : Quotes := {}
  moments : Moments := {}
  trades : Trades := {}
deriving DecidableEq

namespace Accumulator

variable (N : Numerics)

/-! ### One tick -/

/-- Exponential decay since the last tick, the jump of this one, and its order flow. -/
def applyFlow (f : Flow) (tsMs : Int64) (prevQuote currQuote : BestQuote) : Flow :=
  let decayed :=
    if 0 < f.lastTickTsMs ∧ f.lastTickTsMs < tsMs then
      f.hawkesDecaySum * N.exp (-10 * ((tsMs - f.lastTickTsMs).toInt / 1000))
    else f.hawkesDecaySum
  { hasTicks := true
    hawkesDecaySum := decayed + 4 / 5
    lastTickTsMs := tsMs
    ofiSum := f.ofiSum + ofiDelta N prevQuote currQuote }

/-- The quote of a book of which both best prices are numbers. -/
def parseQuote (q : BestQuote) : Option (ℚ × ℚ) :=
  if q.Complete then
    match N.parseFloat q.bidPrice, N.parseFloat q.askPrice with
    | some bid, some ask => some (bid, ask)
    | _, _ => none
  else none

/-- Close quote, mid price and spread after a tick with a valid quote. -/
def applyQuotes (q : Quotes) (bid ask : ℚ) : Quotes :=
  let mid := midPrice bid ask
  let sp := spread bid ask
  { bestBidOpen := if q.hasOpenQuote then q.bestBidOpen else bid
    bestAskOpen := if q.hasOpenQuote then q.bestAskOpen else ask
    bestBid := bid
    bestAsk := ask
    hasOpenQuote := true
    hasCloseQuote := true
    lastKnownBid := bid
    lastKnownAsk := ask
    hasLastKnownOB := true
    midPriceOpen := if q.hasMidOpen then q.midPriceOpen else mid
    midPriceHigh := if q.midPriceHigh < mid ∨ q.hasMidHL = false then mid else q.midPriceHigh
    midPriceLow := if mid < q.midPriceLow ∨ q.hasMidHL = false then mid else q.midPriceLow
    hasMidOpen := true
    hasMidHL := true
    spreadHigh := if q.spreadHigh < sp ∨ q.hasSpread = false then sp else q.spreadHigh
    spreadLow := if sp < q.spreadLow ∨ q.hasSpread = false then sp else q.spreadLow
    spreadSum := q.spreadSum + sp
    spreadCount := q.spreadCount + 1
    hasSpread := true
    bestBidChanges :=
      if q.hasQuoteActivity ∧ bid ≠ q.bestBid then q.bestBidChanges + 1 else q.bestBidChanges
    bestAskChanges :=
      if q.hasQuoteActivity ∧ ask ≠ q.bestAsk then q.bestAskChanges + 1 else q.bestAskChanges
    hasQuoteActivity := true }

/-- The moments after one more return; the third is updated before the second. -/
def addReturn (m : Moments) (r : ℚ) : Moments :=
  let n1 : ℚ := m.nMidReturns
  let n : ℚ := (m.nMidReturns + 1 : ℕ)
  let delta := r - m.midReturnMean
  let deltaN := delta / n
  let term1 := delta * deltaN * n1
  { m with
    nMidReturns := m.nMidReturns + 1
    midReturnMean := m.midReturnMean + deltaN
    midReturnM3 := m.midReturnM3 + (term1 * deltaN * (n - 2) - 3 * deltaN * m.midReturnM2)
    midReturnM2 := m.midReturnM2 + term1 }

/-- The moments after a tick with the mid price `mid`. -/
def applyMid (m : Moments) (mid : ℚ) : Moments :=
  let m' :=
    if m.hasLastMid ∧ 0 < m.lastMidPrice ∧ 0 < mid then
      addReturn m (N.log (mid / m.lastMidPrice))
    else m
  { m' with lastMidPrice := mid, hasLastMid := true }

/-- The trade part of a tick: price `p`, positive size `s`, and the mid price when there is one. -/
def applyTrade (t : Trades) (price : String) (p s : ℚ) (side : String) (tsMs : Int64)
    (mid : Option ℚ) : Trades :=
  let first : Bool := t.tradeCount = 0
  let dt := (tsMs - t.lastTradeTsMs).toInt
  let held : Bool := ¬ first ∧ 0 < dt
  let runLen := if ¬ first ∧ side = t.consecutiveRunSide then t.consecutiveRunLen + 1 else 1
  let buy : Bool := side = "buy"
  let sign : ℤ := if buy then 1 else -1
  let cell := (t.footprintMap.lookup price).getD {}
  { openPrice := if first then p else t.openPrice
    high := if first ∨ t.high < p then p else t.high
    low := if first ∨ p < t.low then p else t.low
    close := p
    volumeSum := t.volumeSum + s
    quoteVolSum := t.quoteVolSum + p * s
    tradeCount := t.tradeCount + 1
    -- The price held since the last trade is the one before this trade.
    twapNumer := if held then t.twapNumer + t.close * dt else t.twapNumer
    twapDenom := if held then t.twapDenom + dt else t.twapDenom
    lastTradeTsMs := tsMs
    buyVolume := if buy then t.buyVolume + s else t.buyVolume
    buyCount := if buy then t.buyCount + 1 else t.buyCount
    footprintMap := t.footprintMap.insert price
      (if buy then { cell with buyVol := cell.buyVol + s }
       else { cell with sellVol := cell.sellVol + s })
    buyVwapNumer := if buy then t.buyVwapNumer + p * s else t.buyVwapNumer
    buyVwapDenom := if buy then t.buyVwapDenom + s else t.buyVwapDenom
    sellVwapNumer := if buy then t.sellVwapNumer else t.sellVwapNumer + p * s
    sellVwapDenom := if buy then t.sellVwapDenom else t.sellVwapDenom + s
    vwmpNumer := t.vwmpNumer + (mid.map fun m => m * s).getD 0
    vwmpDenom := t.vwmpDenom + (mid.map fun _ => s).getD 0
    effectiveSpreadSum :=
      t.effectiveSpreadSum + (mid.map fun m => effectiveSpreadContrib p m).getD 0
    effectiveSpreadCount := t.effectiveSpreadCount + (mid.map fun _ => 1).getD 0
    maxTradeSize := if t.maxTradeSize < s then s else t.maxTradeSize
    firstTradeTsMs := if first then tsMs else t.firstTradeTsMs
    tradeTimestamps := t.tradeTimestamps ++ [tsMs]
    consecutiveRunLen := runLen
    consecutiveRunSide := side
    maxConsecutiveRun := if t.maxConsecutiveRun < runLen then runLen else t.maxConsecutiveRun
    uptickCount := if ¬ first ∧ t.close < p then t.uptickCount + 1 else t.uptickCount
    downtickCount := if ¬ first ∧ p < t.close then t.downtickCount + 1 else t.downtickCount
    sumSigns := t.sumSigns + sign
    sumSignPairs := if first then t.sumSignPairs else t.sumSignPairs + t.lastSign * sign
    firstSign := if first then sign else t.firstSign
    lastSign := sign
    tradePriceLevels := insert price t.tradePriceLevels }

/-- The price and the size of a trade that counts: both are numbers and the size is positive. -/
def parseTrade (price size : String) : Option (ℚ × ℚ) :=
  match N.parseFloat price, N.parseFloat size with
  | some p, some s => if s ≤ 0 then none else some (p, s)
  | _, _ => none

/-- Records one tick. -/
def apply (a : Accumulator) (price size : String) (isTrade : Bool) (side : String) (tsMs : Int64)
    (prevQuote currQuote : BestQuote) : Accumulator :=
  let flow := applyFlow N a.flow tsMs prevQuote currQuote
  let quote := parseQuote N currQuote
  let quotes := match quote with
    | some (bid, ask) => applyQuotes a.quotes bid ask
    | none => a.quotes
  let moments := match quote with
    | some (bid, ask) => applyMid N a.moments (midPrice bid ask)
    | none => a.moments
  let trades :=
    if isTrade then
      match parseTrade N price size with
      | some (p, s) =>
          applyTrade a.trades price p s side tsMs (quote.map fun q => midPrice q.1 q.2)
      | none => a.trades
    else a.trades
  { flow, quotes, moments, trades }

/-- The sell volume that a bar reports. -/
def sellVolume (a : Accumulator) : ℚ := max 0 (a.trades.volumeSum - a.trades.buyVolume)

/-! ### Bars -/

/-- Clears the state of a bar; the last known book and the last mid price are carried over. -/
def barReset (a : Accumulator) : Accumulator where
  flow := { a.flow with
    ofiSum := 0
    hasTicks := false }
  quotes := { a.quotes with
    bestBidOpen := 0
    bestAskOpen := 0
    bestBid := 0
    bestAsk := 0
    hasOpenQuote := false
    hasCloseQuote := false
    midPriceOpen := 0
    hasMidOpen := false
    hasMidHL := false
    midPriceHigh := 0
    midPriceLow := 0
    hasSpread := false
    spreadHigh := 0
    spreadLow := 0
    spreadSum := 0
    spreadCount := 0
    bestBidChanges := 0
    bestAskChanges := 0
    hasQuoteActivity := false }
  moments := { a.moments with
    nMidReturns := 0
    midReturnMean := 0
    midReturnM2 := 0
    midReturnM3 := 0 }
  trades := { a.trades with
    openPrice := 0
    high := 0
    low := 0
    close := 0
    volumeSum := 0
    quoteVolSum := 0
    tradeCount := 0
    twapNumer := 0
    twapDenom := 0
    lastTradeTsMs := 0
    buyVolume := 0
    buyCount := 0
    footprintMap := ∅
    buyVwapNumer := 0
    buyVwapDenom := 0
    sellVwapNumer := 0
    sellVwapDenom := 0
    vwmpNumer := 0
    vwmpDenom := 0
    effectiveSpreadSum := 0
    effectiveSpreadCount := 0
    maxTradeSize := 0
    firstTradeTsMs := 0
    tradeTimestamps := []
    consecutiveRunLen := 0
    consecutiveRunSide := ""
    maxConsecutiveRun := 0
    uptickCount := 0
    downtickCount := 0
    sumSigns := 0
    sumSignPairs := 0
    firstSign := 0
    lastSign := 0
    tradePriceLevels := ∅ }

/-- Clears the carried state as well; the tick intensity stays. -/
def reset (a : Accumulator) : Accumulator :=
  let b := a.barReset
  { b with
    quotes := { b.quotes with
      lastKnownBid := 0
      lastKnownAsk := 0
      hasLastKnownOB := false }
    moments := { b.moments with
      lastMidPrice := 0
      hasLastMid := false } }

/-- The accumulators that ticks and resets lead to. -/
inductive Reachable : Accumulator → Prop
  | new : Reachable {}
  | apply {a : Accumulator} (price size : String) (isTrade : Bool) (side : String) (tsMs : Int64)
      (prevQuote currQuote : BestQuote) : Reachable a →
        Reachable (a.apply N price size isTrade side tsMs prevQuote currQuote)
  | barReset {a : Accumulator} : Reachable a → Reachable a.barReset
  | reset {a : Accumulator} : Reachable a → Reachable a.reset

/-! ### Volumes -/

variable {N}

theorem parseTrade_eq_some {price size : String} {p s : ℚ} :
    parseTrade N price size = some (p, s) ↔
      N.parseFloat price = some p ∧ N.parseFloat size = some s ∧ 0 < s := by
  unfold parseTrade
  cases hp : N.parseFloat price with
  | none => simp
  | some p' =>
      cases hs : N.parseFloat size with
      | none => simp
      | some s' =>
          simp only [Option.some.injEq]
          by_cases h : s' ≤ 0
          · rw [if_pos h]
            constructor
            · intro hn
              cases hn
            · rintro ⟨-, rfl, hpos⟩
              exact absurd hpos (not_lt.mpr h)
          · rw [if_neg h]
            constructor
            · intro heq
              obtain ⟨rfl, rfl⟩ := Prod.mk.inj (Option.some.inj heq)
              exact ⟨rfl, rfl, not_le.mp h⟩
            · rintro ⟨rfl, rfl, -⟩
              rfl

/-- A trade that counts adds its size to the total, and to the buys when its side is `buy`. -/
theorem volumes_apply_of_counts {price size : String} {p s : ℚ} (a : Accumulator)
    (h : parseTrade N price size = some (p, s)) (side : String) (tsMs : Int64)
    (prevQuote currQuote : BestQuote) :
    let a' := a.apply N price size true side tsMs prevQuote currQuote
    a'.trades.volumeSum = a.trades.volumeSum + s ∧
    a'.trades.buyVolume = a.trades.buyVolume + if side = "buy" then s else 0 := by
  simp only [apply, if_true, h, applyTrade, true_and]
  by_cases hb : side = "buy"
  · simp [hb]
  · simp [hb]

theorem volumes_apply_of_not_counts {price size : String} {isTrade : Bool} (a : Accumulator)
    (h : isTrade = true → parseTrade N price size = none) (side : String) (tsMs : Int64)
    (prevQuote currQuote : BestQuote) :
    (a.apply N price size isTrade side tsMs prevQuote currQuote).trades = a.trades := by
  cases isTrade with
  | false => rfl
  | true => simp only [apply, if_true, h rfl]

/-- The total volume of a bar is never below its buy volume. -/
theorem Reachable.buyVolume_le {a : Accumulator} (h : Reachable N a) :
    a.trades.buyVolume ≤ a.trades.volumeSum := by
  induction h with
  | new => exact le_refl _
  | @apply a price size isTrade side tsMs prevQuote currQuote _ ih =>
      by_cases hc : isTrade = true ∧ ∃ ps, parseTrade N price size = some ps
      · obtain ⟨rfl, ⟨p, s⟩, hps⟩ := hc
        obtain ⟨htotal, hbuy⟩ := volumes_apply_of_counts a hps side tsMs prevQuote currQuote
        have hs : 0 < s := (parseTrade_eq_some.mp hps).2.2
        rw [htotal, hbuy]
        split <;> linarith
      · have hnone : isTrade = true → parseTrade N price size = none := by
          intro ht
          by_contra hne
          exact hc ⟨ht, Option.ne_none_iff_exists'.mp hne⟩
        rwa [volumes_apply_of_not_counts a hnone]
  | barReset _ _ => exact le_refl _
  | reset _ _ => exact le_refl _

end Accumulator

end MagnumOpus.Candle
