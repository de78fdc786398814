import MagnumOpus.Candle.GapDedup
import MagnumOpus.Stream.BookReplay

/-! # Gap markers from the aggregator to the candle service

The recovery from a panic writes a marker at the last sequence and forgets that sequence, so that
after a second panic, before the next tick, the same numbers are written again: two markers, which
the candle service takes for one (`two_panics_one_gap`). -/

namespace MagnumOpus.Stream

open Aggregator EventMachine

/-- Entries that are handed to the candle service one after another, with all calls succeeding. -/
def handOver (entries : List Fields) : List Candle.Happening :=
  entries.zipIdx.map fun e => .event (.message ⟨e.2.repr ++ "-0", e.1⟩ {} 0)

/-- Every marker among the effects of a worker is applied by a new candle service. -/
def EachGapApplied (N : Candle.Numerics) (bestQuote : Candle.OrderBook → Candle.BestQuote)
    (effects : List Effect) : Prop :=
  (Candle.appliedGaps (trace (Candle.happen N bestQuote) (.new "kucoin" "BTC-USDT" 1000)
    (handOver (effects.filterMap RedisWriter.entry)))).length = effects.countP isGap

/-- Two ticks, a second apart, at which the handler panics. -/
def twoPanics : List Aggregator.Event :=
  [{ input := .tick buyerTick, now := 1000000000, panicAt := some 0 },
   { input := .tick buyerTick, now := 2000000000, panicAt := some 0 }]

/-- **Two markers at the same numbers are taken for one.** -/
theorem two_panics_one_gap :
    ¬ EachGapApplied twoNumbers (fun _ => ⟨"", "", "", ""⟩)
      ((Worker.new "kucoin" "BTC-USDT" false).effects twoPanics) := by
  unfold EachGapApplied
  decide +kernel

end MagnumOpus.Stream
