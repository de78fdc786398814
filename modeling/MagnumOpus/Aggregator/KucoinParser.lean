import MagnumOpus.Lib.JsonDecode
import MagnumOpus.Aggregator.Exchange

/-! # The KuCoin adapter

`parser.go` turns a frame into deltas or a trade, and `handleMarketData` (`kucoin.go`) turns those
into the ticks it sends.  A level-2 message lists its bid changes first and its ask changes after
them; every change has a sequence of its own, and the message has the range
`[sequenceStart, sequenceEnd]`.  Only the first tick of a message carries `sequenceStart`, every
tick carries `sequenceEnd`.

Errors are the source's texts, without the cause that it appends. -/

namespace MagnumOpus.Aggregator.Kucoin

open JsonDecode Strconv

/-- The envelope of a frame; what the adapter does not read of market data is left out. -/
structure WireMessage where
  topic : String
  data : Option JsonValue

/-- A batch of level changes of one symbol. -/
structure ParsedUpdate where
  symbol : Symbol
  deltas : List Delta
  msgSeqStart : UInt64
  msgSeqEnd : UInt64

/-- A trade of one symbol. -/
structure ParsedTrade where
  symbol : Symbol
  seq : UInt64
  price : String
  size : String
  side : String
  tsExchange : Int64

/-- Extracts and normalises the symbol of a topic. -/
def symbolFromTopic (topic : String) : Symbol :=
  match afterLast ':' topic with
  | some raw => normalize "kucoin" raw
  | none => upper topic

/-- A sequence number that may be a JSON number or a quoted string. -/
def seqOf (raw : JsonValue) : Option UInt64 :=
  match raw.toInt64 with
  | some n => some n.toUInt64
  | none => raw.toText.bind fun s => (parseUint s).toOption

/-- Parses a sequence field of the envelope; a field that is absent is `0`. -/
def parseSeqField : Option JsonValue → Option UInt64
  | none => some 0
  | some raw => seqOf raw

/-- Decodes the `[price, size, seq]` tuple of one level. -/
def parseLevel (i : ℕ) (raw : JsonValue) (side : Side) (tsNano : Int64) : Except String Delta := do
  let tuple ← orError s!"level {i}: unmarshal tuple" raw.toSlice
  let price ← orError s!"level {i}: price" (tuple[0]?.bind JsonValue.toText)
  let size ← orError s!"level {i}: size" (tuple[1]?.bind JsonValue.toText)
  let seq ← orError s!"level {i}: seq" (tuple[2]?.bind seqOf)
  return { seq, side, price, size, tsExchange := tsNano }

/-- Decodes the levels from the index `i` on, in the order in which they are listed. -/
def parseLevelsFrom (i : ℕ) (side : Side) (tsNano : Int64) :
    List JsonValue → Except String (List Delta)
  | [] => .ok []
  | raw :: raws => do
      let d ← parseLevel i raw side tsNano
      let ds ← parseLevelsFrom (i + 1) side tsNano raws
      return d :: ds

def parseLevels (raws : List JsonValue) (side : Side) (tsNano : Int64) :
    Except String (List Delta) :=
  parseLevelsFrom 0 side tsNano raws

/-- The data of a level-2 message as `json.Unmarshal` stores it. -/
structure L2Data where
  sequenceStart : Option JsonValue
  sequenceEnd : Option JsonValue
  bids : List JsonValue
  asks : List JsonValue
  /-- Milliseconds. -/
  time : Int64

def L2Data.ofJson (data : JsonValue) : Option L2Data := do
  let fields ← data.toFields
  let changes ← fieldAs "changes" [] JsonValue.toFields fields
  let bids ← fieldAs "bids" [] JsonValue.toSlice changes
  let asks ← fieldAs "asks" [] JsonValue.toSlice changes
  let time ← fieldAs "time" 0 JsonValue.toInt64 fields
  return { sequenceStart := field "sequenceStart" fields,
           sequenceEnd := field "sequenceEnd" fields, bids, asks, time }

/-- Parses a level-2 message. -/
def parseL2Update (msg : WireMessage) : Except String ParsedUpdate := do
  let data ← orError "parse l2 data" (msg.data.bind L2Data.ofJson)
  let seqStart ← orError "parse sequenceStart" (parseSeqField data.sequenceStart)
  let seqEnd ← orError "parse sequenceEnd" (parseSeqField data.sequenceEnd)
  let tsNano := data.time * 1000000
  let bids ← parseLevels data.bids .bid tsNano
  let asks ← parseLevels data.asks .ask tsNano
  return { symbol := symbolFromTopic msg.topic, deltas := bids ++ asks,
           msgSeqStart := seqStart, msgSeqEnd := seqEnd }

/-- The data of a match message as `json.Unmarshal` stores it. -/
structure TradeData where
  sequence : String
  price : String
  size : String
  side : String
  /-- Nanoseconds. -/
  time : String

def TradeData.ofJson (data : JsonValue) : Option TradeData := do
  let fields ← data.toFields
  let sequence ← fieldAs "sequence" "" JsonValue.toText fields
  let price ← fieldAs "price" "" JsonValue.toText fields
  let size ← fieldAs "size" "" JsonValue.toText fields
  let side ← fieldAs "side" "" JsonValue.toText fields
  let time ← fieldAs "time" "" JsonValue.toText fields
  return { sequence, price, size, side, time }

/-- The tick's side for the side of the taker. -/
def tradeSide : String → Except String String
  | "buy" => .ok "bid"
  | "sell" => .ok "ask"
  | _ => .error "unknown trade side"

/-- Parses a match message. -/
def parseTrade (msg : WireMessage) : Except String ParsedTrade := do
  let data ← orError "parse trade data" (msg.data.bind TradeData.ofJson)
  let seq ← orError "parse sequence" (parseUint data.sequence).toOption
  let ts ← orError "parse time" (readInt data.time).toOption
  let side ← tradeSide data.side
  return { symbol := symbolFromTopic msg.topic, seq, price := data.price, size := data.size,
           side, tsExchange := ts }

def isL2Topic (topic : String) : Bool := "/market/level2:".toList.isPrefixOf topic.toList

def isTradesTopic (topic : String) : Bool := "/market/match:".toList.isPrefixOf topic.toList

/-- The tick of one delta; `msgSeqStart` is the message's on its first delta and `0` after it. -/
def deltaTick (u : ParsedUpdate) (tsLocal : Int64) (msgSeqStart : UInt64) (d : Delta) : Tick where
  exchange := "kucoin"
  symbol := u.symbol
  seq := d.seq
  tsExchange := d.tsExchange
  tsLocal := tsLocal
  side := sideStr d.side
  price := d.price
  size := d.size
  type := .update
  msgSeqStart := msgSeqStart
  msgSeqEnd := u.msgSeqEnd

/-- The ticks of a parsed level-2 message. -/
def updateTicks (u : ParsedUpdate) (tsLocal : Int64) : List Tick :=
  match u.deltas with
  | [] => []
  | d :: ds => deltaTick u tsLocal u.msgSeqStart d :: ds.map (deltaTick u tsLocal 0)

/-- The tick of a parsed match message. -/
def tradeTick (t : ParsedTrade) (tsLocal : Int64) : Tick where
  exchange := "kucoin"
  symbol := t.symbol
  seq := t.seq
  tsExchange := t.tsExchange
  tsLocal := tsLocal
  side := t.side
  price := t.price
  size := t.size
  type := .trade

/-- The ticks that a market data frame is sent on as, in order; a frame that does not parse is
logged and left out. -/
def handleMarketData (tsLocal : Int64) (msg : WireMessage) : List Tick :=
  if isL2Topic msg.topic then
    match parseL2Update msg with
    | .error _ => []
    | .ok u => updateTicks u tsLocal
  else if isTradesTopic msg.topic then
    match parseTrade msg with
    | .error _ => []
    | .ok t => [tradeTick t tsLocal]
  else []

/-! ### The ticks of a message -/

@[simp] theorem delta_deltaTick (u : ParsedUpdate) (tsLocal : Int64) (start : UInt64) (d : Delta) :
    (deltaTick u tsLocal start d).delta = d := by
  simp only [Tick.delta, deltaTick, parseSide_sideStr]

/-- The ticks of a message carry its deltas, in the listed order. -/
theorem map_delta_updateTicks (u : ParsedUpdate) (tsLocal : Int64) :
    (updateTicks u tsLocal).map Tick.delta = u.deltas := by
  unfold updateTicks
  cases u.deltas with
  | nil => rfl
  | cons d ds =>
      have hds : (Tick.delta ∘ deltaTick u tsLocal 0) = id :=
        funext fun d => delta_deltaTick u tsLocal 0 d
      simp only [List.map_cons, delta_deltaTick, List.map_map, hds, List.map_id]

theorem type_of_mem_updateTicks {u : ParsedUpdate} {tsLocal : Int64} {t : Tick}
    (h : t ∈ updateTicks u tsLocal) : t.type = .update := by
  unfold updateTicks at h
  split at h
  · simp at h
  · rcases List.mem_cons.mp h with rfl | h
    · rfl
    · obtain ⟨d, -, rfl⟩ := List.mem_map.mp h
      rfl

end MagnumOpus.Aggregator.Kucoin
