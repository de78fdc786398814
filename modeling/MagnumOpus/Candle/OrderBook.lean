import MagnumOpus.Lib.KeyedWrites
import MagnumOpus.Candle.Messages

/-! # The candle service's order book

`orderbook.go`: the levels of one symbol, rebuilt from its stream.

* Deltas before the first snapshot go to a cold buffer, which overflows at `maxColdBuf` entries.
* A snapshot carries no levels: the book starts empty and the cold deltas past it are replayed.
* A gap clears the levels; only `internal_merge_error` sends the book back to the cold buffer.

Every operation returns the gap markers that the book emits itself. -/

namespace MagnumOpus.Candle

open KeyedWrites

/-- The levels of one side, from price to size. -/
abbrev Levels := Map String String

structure OrderBook where
  exchange : String
  symbol : String
  bids : Levels
  asks : Levels
  snapshotSeen : Bool
  snapSeq : Int64
  coldBuf : List Tick
  maxColdBuf : ℕ
  /-- The largest sequence in the cold buffer. -/
  maxColdSeq : Int64
deriving DecidableEq

namespace OrderBook

def new (exchange symbol : String) (coldBufSize : ℕ) : OrderBook where
  exchange := exchange
  symbol := symbol
  bids := ∅
  asks := ∅
  snapshotSeen := false
  snapSeq := 0
  coldBuf := []
  maxColdBuf := coldBufSize
  maxColdSeq := 0

/-- Sets or removes one level. -/
def setLevel (levels : Levels) (price size : String) : Levels :=
  write levels price (if size = "0" then none else some size)

/-- Applies one update to the bids or the asks. -/
def applyDelta (ob : OrderBook) (t : Tick) : OrderBook :=
  if t.side = "buy" then { ob with bids := setLevel ob.bids t.price t.size }
  else { ob with asks := setLevel ob.asks t.price t.size }

/-- Adds a delta to the cold buffer. -/
def bufferDelta (ob : OrderBook) (t : Tick) : OrderBook × List GapMarker :=
  let maxColdSeq := if ob.maxColdSeq < t.seq then t.seq else ob.maxColdSeq
  let coldBuf := ob.coldBuf ++ [t]
  if ob.maxColdBuf ≤ coldBuf.length then
    ({ ob with coldBuf := [], maxColdSeq := 0 },
      [{ seqBefore := maxColdSeq, seqAfter := 0, gapCause := "cold_start_buffer_overflow",
         gapTsMs := t.tsMs, exchange := ob.exchange, symbol := ob.symbol }])
  else ({ ob with coldBuf, maxColdSeq }, [])

/-- Handles an order-book update; trades are not for the book. -/
def applyTick (ob : OrderBook) (t : Tick) : OrderBook × List GapMarker :=
  if t.level = 0 then (ob, [])
  else if ob.snapshotSeen = false then ob.bufferDelta t
  else (ob.applyDelta t, [])

/-- The cold buffer is far past the snapshot: the exchange has restarted its sequence. -/
def seqReset (ob : OrderBook) (s : SnapshotEvent) : Bool :=
  0 < ob.maxColdSeq ∧ s.seq < ob.maxColdSeq / 2

/-- Resets the book and replays the cold deltas past the snapshot. -/
def applySnapshot (ob : OrderBook) (s : SnapshotEvent) : OrderBook × List GapMarker :=
  if ob.snapshotSeen then
    ({ ob with bids := ∅, asks := ∅, snapSeq := s.seq, coldBuf := [], maxColdSeq := 0 },
      [{ seqBefore := ob.snapSeq, seqAfter := s.seq, gapCause := "snapshot_superseded",
         gapTsMs := s.tsMs, exchange := ob.exchange, symbol := ob.symbol }])
  else if ob.seqReset s then
    ({ ob with bids := ∅, asks := ∅, snapshotSeen := false, snapSeq := 0, coldBuf := [],
               maxColdSeq := 0 },
      [{ seqBefore := ob.maxColdSeq, seqAfter := s.seq, gapCause := "seq_reset",
         gapTsMs := s.tsMs, exchange := ob.exchange, symbol := ob.symbol }])
  else
    let clean := { ob with bids := ∅, asks := ∅, snapshotSeen := true, snapSeq := s.seq }
    let replayed := (ob.coldBuf.filter fun t => s.seq < t.seq).foldl applyDelta clean
    ({ replayed with coldBuf := [], maxColdSeq := 0 }, [])

/-- Clears the levels and the cold buffer. -/
def applyGap (ob : OrderBook) (g : GapMarker) : OrderBook :=
  let cleared := { ob with bids := ∅, asks := ∅, coldBuf := [], maxColdSeq := 0 }
  if g.gapCause = "internal_merge_error" then
    { cleared with snapshotSeen := false, snapSeq := 0 }
  else cleared

/-- Applies a parsed stream entry. -/
def applyMessage (ob : OrderBook) : ParsedMessage → OrderBook × List GapMarker
  | .tick t => ob.applyTick t
  | .gap g => (ob.applyGap g, [])
  | .snapshot s => ob.applySnapshot s
  | .unknown => (ob, [])

end OrderBook

end MagnumOpus.Candle
