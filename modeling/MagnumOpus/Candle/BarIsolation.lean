import MagnumOpus.Candle.GapIsolation

/-! # Bars and the bars before them

`accumulator.go` is driven by calls of its methods, and `BarReset` stands between two bars.  Its
comments say what is meant to survive it (`CarryOver`): the last known quote, the last mid price,
the tick intensity with the time of the last tick, and the bar count.

* **One reset.** An accumulator that has been reset is `barStart`, built from the symbol and from
  what it carries over, and from nothing else (`barReset_eq_barStart`).
* **Two pasts.** `bars_isolated`: whatever was called before, two accumulators that carry over the
  same return the same bars for the same later calls. -/

namespace MagnumOpus.Candle

open EventMachine

namespace FullAccumulator

/-- A call of a method.  Go chooses anew in every call in which order it walks through a map, so
`currentBar` has features of its own. -/
inductive Call where
  | apply (price size : String) (isTrade : Bool) (side : String) (tsMs : Int64)
      (prevQuote currQuote : BestQuote)
  | applyBlockTrade (side : String) (size : ℚ)
  | setOpenDepth (d : DepthSnapshot)
  | setCloseDepth (d : DepthSnapshot)
  | incrementGap
  | seedFromLastKnown
  | incrementOBAdd (side : String) (parsedSize : ℚ)
  | incrementOBCancel (side : String)
  | incrementOBModify
  | currentBar (F : Features) (tsSecMs : Int64) (isPartial : Bool)
  | barReset
  | reset

variable (N : Numerics)

/-- Shows the bars that are returned. -/
def call : Step FullAccumulator Call FullBar := fun a c =>
  match c with
  | .apply price size isTrade side tsMs prevQuote currQuote =>
      (a.apply N price size isTrade side tsMs prevQuote currQuote, [])
  | .applyBlockTrade side size => (a.applyBlockTrade side size, [])
  | .setOpenDepth d => (a.setOpenDepth d, [])
  | .setCloseDepth d => (a.setCloseDepth d, [])
  | .incrementGap => (a.incrementGap, [])
  | .seedFromLastKnown => (a.seedFromLastKnown, [])
  | .incrementOBAdd side parsedSize => (a.incrementOBAdd side parsedSize, [])
  | .incrementOBCancel side => (a.incrementOBCancel side, [])
  | .incrementOBModify => (a.incrementOBModify, [])
  | .currentBar F tsSecMs isPartial => (a, [a.currentBar F tsSecMs isPartial])
  | .barReset => (a.barReset, [])
  | .reset => (a.reset, [])

/-- What `BarReset` leaves alone. -/
structure CarryOver where
  lastKnownBid : ℚ
  lastKnownAsk : ℚ
  hasLastKnownOB : Bool
  lastMidPrice : ℚ
  hasLastMid : Bool
  hawkesDecaySum : ℚ
  lastTickTsMs : Int64
  barCount : ℕ
deriving DecidableEq

def carryOver (a : FullAccumulator) : CarryOver where
  lastKnownBid := a.quotes.lastKnownBid
  lastKnownAsk := a.quotes.lastKnownAsk
  hasLastKnownOB := a.quotes.hasLastKnownOB
  lastMidPrice := a.moments.lastMidPrice
  hasLastMid := a.moments.hasLastMid
  hawkesDecaySum := a.flow.hawkesDecaySum
  lastTickTsMs := a.flow.lastTickTsMs
  barCount := a.barCount

/-- An accumulator at the start of a bar. -/
def barStart (exchange symbol : String) (c : CarryOver) : FullAccumulator where
  exchange := exchange
  symbol := symbol
  flow := { hawkesDecaySum := c.hawkesDecaySum, lastTickTsMs := c.lastTickTsMs }
  quotes :=
    { lastKnownBid := c.lastKnownBid
      lastKnownAsk := c.lastKnownAsk
      hasLastKnownOB := c.hasLastKnownOB }
  moments := { lastMidPrice := c.lastMidPrice, hasLastMid := c.hasLastMid }
  barCount := c.barCount

variable {N} {a b : FullAccumulator}

/-! ### One reset -/

/-- Of what is carried over, `BarReset` moves the bar count alone. -/
theorem carryOver_barReset (a : FullAccumulator) :
    a.barReset.carryOver = { a.carryOver with barCount := a.barCount + 1 } := rfl

/-- **Nothing of a bar is left but what is carried over.** -/
theorem barReset_eq_barStart (a : FullAccumulator) :
    a.barReset = barStart a.exchange a.symbol a.barReset.carryOver := rfl

/-- Accumulators of one symbol that carry over the same start the next bar alike. -/
theorem barReset_congr (hexchange : a.exchange = b.exchange) (hsymbol : a.symbol = b.symbol)
    (hcarry : a.barReset.carryOver = b.barReset.carryOver) : a.barReset = b.barReset := by
  rw [barReset_eq_barStart a, barReset_eq_barStart b, hexchange, hsymbol, hcarry]

/-! ### Two pasts -/

theorem symbol_call (a : FullAccumulator) (c : Call) :
    (call N a c).1.exchange = a.exchange ∧ (call N a c).1.symbol = a.symbol := by
  cases c with
  | seedFromLastKnown => exact a.seedFromLastKnown_quotes.2.2
  | apply price size isTrade side tsMs prevQuote currQuote => exact ⟨rfl, rfl⟩
  | applyBlockTrade side size => exact ⟨rfl, rfl⟩
  | setOpenDepth d => exact ⟨rfl, rfl⟩
  | setCloseDepth d => exact ⟨rfl, rfl⟩
  | incrementGap => exact ⟨rfl, rfl⟩
  | incrementOBAdd side parsedSize => exact ⟨rfl, rfl⟩
  | incrementOBCancel side => exact ⟨rfl, rfl⟩
  | incrementOBModify => exact ⟨rfl, rfl⟩
  | currentBar F tsSecMs isPartial => exact ⟨rfl, rfl⟩
  | barReset => exact ⟨rfl, rfl⟩
  | reset => exact ⟨rfl, rfl⟩

theorem symbol_final (exchange symbol : String) (history : List Call) :
    (final (call N) (new exchange symbol) history).exchange = exchange ∧
      (final (call N) (new exchange symbol) history).symbol = symbol := by
  refine final_invariant (I := fun a : FullAccumulator => a.exchange = exchange ∧ a.symbol = symbol)
    ?_ history ⟨rfl, rfl⟩
  intro a c ⟨hexchange, hsymbol⟩
  obtain ⟨hexchange', hsymbol'⟩ := symbol_call (N := N) a c
  exact ⟨hexchange'.trans hexchange, hsymbol'.trans hsymbol⟩

/-- **Two histories that end in `BarReset` and carry over the same are followed by the same bars.**
-/
theorem bars_isolated (N : Numerics) (exchange symbol : String) (history history' : List Call)
    (hcarry : (final (call N) (new exchange symbol) (history ++ [.barReset])).carryOver =
      (final (call N) (new exchange symbol) (history' ++ [.barReset])).carryOver)
    (later : List Call) :
    trace (call N) (final (call N) (new exchange symbol) (history ++ [.barReset])) later =
      trace (call N) (final (call N) (new exchange symbol) (history' ++ [.barReset])) later := by
  obtain ⟨hexchange, hsymbol⟩ := symbol_final (N := N) exchange symbol history
  obtain ⟨hexchange', hsymbol'⟩ := symbol_final (N := N) exchange symbol history'
  simp only [final_append, final_cons, final_nil, call] at hcarry ⊢
  rw [barReset_congr (hexchange.trans hexchange'.symm) (hsymbol.trans hsymbol'.symm) hcarry]

/-- A trade on an empty book. -/
def tradeAt (price size side : String) : Call :=
  .apply price size true side 60100 ⟨"", "", "", ""⟩ ⟨"", "", "", ""⟩

/-- A bar with a large purchase, and one with a small sale and a cancelled order. -/
theorem bars_isolated_trades :
    let call := call Ledger.fractions
    let a := new "bybit" "BTC-USDT"
    let history := [tradeAt "7" "900" "buy", .applyBlockTrade "buy" 900]
    let history' := [tradeAt "3" "1" "sell", .incrementOBCancel "sell"]
    let later := [tradeAt "5" "2" "buy", .currentBar noFeatures 61000 false]
    trace call (final call a (history ++ [.barReset])) later =
      trace call (final call a (history' ++ [.barReset])) later :=
  bars_isolated Ledger.fractions "bybit" "BTC-USDT" _ _ (by decide +kernel) _

end FullAccumulator

end MagnumOpus.Candle
