import MagnumOpus.Aggregator.OrderBook

/-! # Market data events

The normalised event of every exchange adapter (`exchange.go`), the canonical symbol
(`symbol.go`), and the side texts between the order book and the tick. -/

namespace MagnumOpus.Aggregator

/-- The kind of market data event a tick carries. -/
inductive EventType where
  | update
  | trade
  | snapshot
deriving DecidableEq, Repr

/-- The field value of the stream and of the tick table. -/
def EventType.text : EventType → String
  | .update => "update"
  | .trade => "trade"
  | .snapshot => "snapshot"

/-- The canonical representation of a trading pair. -/
abbrev Symbol := String

/-- A normalised market data event. -/
structure Tick where
  exchange : String
  symbol : Symbol
  /-- The sequence of the level change. -/
  seq : UInt64
  /-- Nanoseconds, from the exchange. -/
  tsExchange : Int64
  /-- Nanoseconds, at receipt. -/
  tsLocal : Int64
  side : String
  price : String
  size : String
  type : EventType
  /-- `sequenceStart` of the message, on its first delta only. -/
  msgSeqStart : UInt64 := 0
  /-- `sequenceEnd` of the message, on every delta. -/
  msgSeqEnd : UInt64 := 0
deriving DecidableEq, Repr

/-- The tick's text for a side of the book. -/
def sideStr : Side → String
  | .ask => "ask"
  | .bid => "bid"

/-- The side of the book for a tick's text. -/
def parseSide (s : String) : Side :=
  if s = "ask" then .ask else .bid

theorem parseSide_sideStr (side : Side) : parseSide (sideStr side) = side := by
  cases side <;> rfl

/-- The level change of an order-book tick. -/
def Tick.delta (t : Tick) : Delta where
  seq := t.seq
  side := parseSide t.side
  price := t.price
  size := t.size
  tsExchange := t.tsExchange

/-! ### Symbols -/

/-- `strings.ToUpper`, for the letters that exchanges use. -/
def upper (s : String) : String := String.ofList (s.toList.map Char.toUpper)

/-- What follows the last `sep` of a text that has one. -/
def afterLast (sep : Char) (s : String) : Option String :=
  if sep ∈ s.toList then
    some (String.ofList (s.toList.reverse.takeWhile (· ≠ sep)).reverse)
  else none

/-- Quote currencies, longest first. -/
def knownQuotes : List String :=
  ["USDT", "USDC", "BUSD", "TUSD", "USDP", "BTC", "ETH", "BNB", "USD", "EUR", "GBP"]

/-- Splits a concatenated symbol into `BASE-QUOTE`, or leaves it whole when no quote matches. -/
def fromBybit (raw : String) : Symbol :=
  let whole := (upper raw).toList
  let split (q : String) : Option Symbol :=
    let base := whole.take (whole.length - q.length)
    if q.toList.isSuffixOf whole ∧ base ≠ [] then some (String.ofList base ++ "-" ++ q) else none
  (knownQuotes.findSome? split).getD (String.ofList whole)

/-- The canonical symbol for an exchange's own. -/
def normalize (exchange raw : String) : Symbol :=
  match String.ofList (exchange.toList.map Char.toLower) with
  | "kucoin" => upper raw
  | "bybit" => fromBybit raw
  | _ => upper raw

example : fromBybit "ETHBTC" = "ETH-BTC" := by decide

end MagnumOpus.Aggregator
