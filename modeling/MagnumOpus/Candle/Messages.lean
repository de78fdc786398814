import MagnumOpus.Lib.Strconv

/-! # The messages of the candle service

`messages.go`: the events of a symbol's stream and `parseMessage`, which reads them from the fields
of an entry.  A field that is missing reads as the empty text or as `0`, and so does a text that is
no number; one that is out of range reads as the nearest number. -/

namespace MagnumOpus.Candle

open Strconv

/-- A trade (`level` 0) or an order-book update. -/
structure Tick where
  seq : Int64
  tsMs : Int64
  price : String
  size : String
  side : String
  level : ℕ
deriving DecidableEq, Repr

/-- A discontinuity that the aggregator detected. -/
structure GapMarker where
  seqBefore : Int64
  seqAfter : Int64
  gapCause : String
  gapTsMs : Int64
  exchange : String
  symbol : String
deriving DecidableEq, Repr

/-- A fresh snapshot has arrived. -/
structure SnapshotEvent where
  seq : Int64
  tsMs : Int64
deriving DecidableEq, Repr

inductive ParsedMessage where
  | tick (t : Tick)
  | gap (g : GapMarker)
  | snapshot (s : SnapshotEvent)
  | unknown
deriving DecidableEq, Repr

def getString (fields : List (String × String)) (key : String) : String :=
  (fields.lookup key).getD ""

def parseInt64 (fields : List (String × String)) (key : String) : Int64 :=
  match fields.lookup key with
  | some s => parseInt s
  | none => 0

/-- Reads the fields of a stream entry. -/
def parseMessage (fields : List (String × String)) : ParsedMessage :=
  match getString fields "type" with
  | "tick" => .tick {
      seq := parseInt64 fields "seq"
      tsMs := parseInt64 fields "ts_exchange"
      price := getString fields "price"
      size := getString fields "size"
      side := getString fields "side"
      level := if getString fields "event_type" = "trade" then 0 else 1 }
  | "gap" => .gap {
      seqBefore := parseInt64 fields "seq_before"
      seqAfter := parseInt64 fields "seq_after"
      gapCause := getString fields "gap_cause"
      gapTsMs := parseInt64 fields "gap_ts"
      exchange := getString fields "exchange"
      symbol := getString fields "symbol" }
  | "snapshot" => .snapshot {
      seq := parseInt64 fields "seq"
      tsMs := parseInt64 fields "ts" }
  | _ => .unknown

end MagnumOpus.Candle
