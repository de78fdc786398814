import MagnumOpus.Lib.Strconv
import MagnumOpus.Aggregator.Worker

/-! # The stream entries of the aggregator

The fields that the Redis writer (`writer.go`) puts into one entry of a symbol's stream, and the
entries that a worker's effects leave there.  All field values are texts. -/

namespace MagnumOpus.Aggregator

open Strconv

/-- The fields of a stream entry. -/
abbrev Fields := List (String × String)

namespace RedisWriter

/-- The entry of a tick; timestamps are written in milliseconds. -/
def tickFields (t : Tick) : Fields :=
  [("type", "tick"),
   ("exchange", t.exchange),
   ("symbol", t.symbol),
   ("seq", formatUint t.seq),
   ("ts_exchange", formatInt (t.tsExchange / 1000000)),
   ("ts_local", formatInt (t.tsLocal / 1000000)),
   ("side", t.side),
   ("price", t.price),
   ("size", t.size),
   ("event_type", t.type.text)]

/-- The entry of a snapshot signal. -/
def snapshotFields (exch : String) (sym : Symbol) (seq : UInt64) (tsMs : Int64) : Fields :=
  [("type", "snapshot"),
   ("exchange", exch),
   ("symbol", sym),
   ("seq", formatUint seq),
   ("ts", formatInt tsMs)]

/-- The in-band entry of a gap marker. -/
def gapFields (exch : String) (sym : Symbol) (g : GapEvent) : Fields :=
  [("type", "gap"),
   ("exchange", exch),
   ("symbol", sym),
   ("gap_ts", formatInt (unixMilli g.timestamp)),
   ("gap_cause", g.cause.text),
   ("seq_before", formatUint g.seqBefore),
   ("seq_after", formatUint g.seqAfter)]

/-- The entry that an effect adds to the symbol's stream, when Redis accepts it. -/
def entry : Effect → Option Fields
  | .streamWrite t => some (tickFields t)
  | .streamGap exch sym g => some (gapFields exch sym g)
  | .streamSnapshot exch sym seq tsMs => some (snapshotFields exch sym seq tsMs)
  | _ => none

end RedisWriter

end MagnumOpus.Aggregator
