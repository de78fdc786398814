import MagnumOpus.Lib.JsonDecode
import MagnumOpus.Aggregator.Exchange

/-! # The Bybit adapter

`parser.go` turns the payload of a frame into deltas or a trade, and `onMsg` (`bybit.go`) into the
ticks it sends.  Every level of a message carries the message's update number `u`; ticks carry no
message-level sequence numbers.

Errors are the source's texts, without the cause that it appends. -/

namespace MagnumOpus.Aggregator.Bybit

open JsonDecode Strconv

/-- A market data frame as the connection hands it to the adapter. -/
structure Frame where
  topic : String
  /-- Milliseconds. -/
  ts : Int64
  data : Option JsonValue

/-- A batch of level changes of one symbol. -/
structure ParsedUpdate where
  symbol : Symbol
  deltas : List Delta

/-- A trade of one symbol. -/
structure ParsedTrade where
  symbol : Symbol
  seq : UInt64
  price : String
  size : String
  side : String
  tsExchange : Int64

/-- Extracts the raw symbol of a topic. -/
def symFromTopic (topic : String) : String := (afterLast '.' topic).getD topic

/-- Decodes a `[price, size]` pair of strings. -/
def pairOf (raw : JsonValue) : Option (String × String) := do
  let pair ← raw.toSlice
  let price ← (pair[0]?.map JsonValue.toText).getD (some "")
  let size ← (pair[1]?.map JsonValue.toText).getD (some "")
  return (price, size)

def pairsOf (raw : JsonValue) : Option (List (String × String)) := do
  let elems ← raw.toSlice
  elems.mapM pairOf

/-- The data of an order-book message as `json.Unmarshal` stores it. -/
structure L2Data where
  b : List (String × String)
  a : List (String × String)
  u : UInt64

def L2Data.ofJson (data : JsonValue) : Option L2Data := do
  let fields ← data.toFields
  let _ ← fieldAs "s" "" JsonValue.toText fields
  let b ← fieldAs "b" [] pairsOf fields
  let a ← fieldAs "a" [] pairsOf fields
  let u ← fieldAs "u" 0 JsonValue.toUInt64 fields
  return { b, a, u }

/-- The deltas of the levels of one side, all at the sequence `u`; `name` is the side in the error
of a level without a price. -/
def levelDeltas (name : String) (side : Side) (u : UInt64) (tsNano : Int64) (i : ℕ) :
    List (String × String) → Except String (List Delta)
  | [] => .ok []
  | (price, size) :: levels => do
      if price = "" then throw s!"bybit: {name} level {i}: empty price"
      let ds ← levelDeltas name side u tsNano (i + 1) levels
      return { seq := u, side, price, size, tsExchange := tsNano } :: ds

/-- Parses an order-book message. -/
def parseL2Update (topic : String) (tsMs : Int64) (data : Option JsonValue) :
    Except String ParsedUpdate := do
  let d ← orError "bybit: parse l2 data" (data.bind L2Data.ofJson)
  let tsNano := tsMs * 1000000
  let bids ← levelDeltas "bid" .bid d.u tsNano 0 d.b
  let asks ← levelDeltas "ask" .ask d.u tsNano 0 d.a
  return { symbol := normalize "bybit" (symFromTopic topic), deltas := bids ++ asks }

/-- One element of a trade message as `json.Unmarshal` stores it. -/
structure TradeData where
  /-- Milliseconds. -/
  T : Int64
  p : String
  v : String
  S : String

def TradeData.ofJson (data : JsonValue) : Option TradeData := do
  let fields ← data.toFields
  let T ← fieldAs "T" 0 JsonValue.toInt64 fields
  let p ← fieldAs "p" "" JsonValue.toText fields
  let v ← fieldAs "v" "" JsonValue.toText fields
  let S ← fieldAs "S" "" JsonValue.toText fields
  return { T, p, v, S }

/-- The tick's side for the side of the taker. -/
def tradeSide : String → Except String String
  | "Buy" => .ok "bid"
  | "Sell" => .ok "ask"
  | _ => .error "bybit: unknown trade side"

/-- Parses a trade message, of which only the first element is read. -/
def parseTrade (topic : String) (data : Option JsonValue) : Except String ParsedTrade := do
  let trades ← orError "bybit: parse trade data"
    (data.bind fun v => v.toSlice.bind (List.mapM TradeData.ofJson))
  match trades with
  | [] => throw "bybit: empty trade array"
  | t :: _ =>
      let side ← tradeSide t.S
      return { symbol := normalize "bybit" (symFromTopic topic), seq := 0, price := t.p,
               size := t.v, side, tsExchange := t.T * 1000000 }

def isL2Topic (topic : String) : Bool := "orderbook.".toList.isPrefixOf topic.toList

def isTradesTopic (topic : String) : Bool := "publicTrade.".toList.isPrefixOf topic.toList

/-- The tick of one delta. -/
def deltaTick (u : ParsedUpdate) (tsLocal : Int64) (d : Delta) : Tick where
  exchange := "bybit"
  symbol := u.symbol
  seq := d.seq
  tsExchange := d.tsExchange
  tsLocal := tsLocal
  side := sideStr d.side
  price := d.price
  size := d.size
  type := .update

/-- The ticks of a parsed order-book message. -/
def updateTicks (u : ParsedUpdate) (tsLocal : Int64) : List Tick :=
  u.deltas.map (deltaTick u tsLocal)

/-- The tick of a parsed trade message. -/
def tradeTick (t : ParsedTrade) (tsLocal : Int64) : Tick where
  exchange := "bybit"
  symbol := t.symbol
  seq := t.seq
  tsExchange := t.tsExchange
  tsLocal := tsLocal
  side := t.side
  price := t.price
  size := t.size
  type := .trade

/-- The ticks that a market data frame is sent on as, in order; a frame that does not parse is
logged and left out. -/
def onMsg (tsLocal : Int64) (f : Frame) : List Tick :=
  if isL2Topic f.topic then
    match parseL2Update f.topic f.ts f.data with
    | .error _ => []
    | .ok u => updateTicks u tsLocal
  else if isTradesTopic f.topic then
    match parseTrade f.topic f.data with
    | .error _ => []
    | .ok t => [tradeTick t tsLocal]
  else []

/-! ### The ticks of a message -/

@[simp] theorem delta_deltaTick (u : ParsedUpdate) (tsLocal : Int64) (d : Delta) :
    (deltaTick u tsLocal d).delta = d := by
  simp only [Tick.delta, deltaTick, parseSide_sideStr]

/-- The ticks of a message carry its deltas, in the listed order. -/
theorem map_delta_updateTicks (u : ParsedUpdate) (tsLocal : Int64) :
    (updateTicks u tsLocal).map Tick.delta = u.deltas := by
  have hd : (Tick.delta ∘ deltaTick u tsLocal) = id := funext fun d => delta_deltaTick u tsLocal d
  rw [updateTicks, List.map_map, hd, List.map_id]

theorem type_of_mem_updateTicks {u : ParsedUpdate} {tsLocal : Int64} {t : Tick}
    (h : t ∈ updateTicks u tsLocal) : t.type = .update := by
  obtain ⟨d, -, rfl⟩ := List.mem_map.mp h
  rfl

/-- Every delta of one side carries the message's update number and has a price. -/
theorem of_mem_levelDeltas {name : String} {side : Side} {u : UInt64} {tsNano : Int64} :
    ∀ {levels : List (String × String)} {i : ℕ} {ds : List Delta},
      levelDeltas name side u tsNano i levels = .ok ds → ∀ d ∈ ds, d.seq = u ∧ d.price ≠ ""
  | [], _, ds, h => by
      cases h
      simp
  | (price, size) :: levels, i, ds, h => by
      rw [levelDeltas] at h
      by_cases hp : price = ""
      · rw [if_pos hp] at h
        cases h
      · rw [if_neg hp] at h
        obtain ⟨rest, hrest, hds⟩ := bind_eq_ok.mp h
        cases hds
        intro d hd
        rcases List.mem_cons.mp hd with rfl | hd
        · exact ⟨rfl, hp⟩
        · exact of_mem_levelDeltas hrest d hd

/-- **Every delta of a message carries the message's update number** and has a price. -/
theorem of_parseL2Update {topic : String} {tsMs : Int64} {data : Option JsonValue}
    {u : ParsedUpdate} (h : parseL2Update topic tsMs data = .ok u) :
    ∃ d, data.bind L2Data.ofJson = some d ∧ ∀ x ∈ u.deltas, x.seq = d.u ∧ x.price ≠ "" := by
  unfold parseL2Update at h
  obtain ⟨d, hd, h⟩ := bind_eq_ok.mp h
  obtain ⟨bids, hb, h⟩ := bind_eq_ok.mp h
  obtain ⟨asks, ha, h⟩ := bind_eq_ok.mp h
  obtain rfl := Except.ok.inj h
  refine ⟨d, orError_eq_ok.mp hd, fun x hx => ?_⟩
  rcases List.mem_append.mp hx with hx | hx
  · exact of_mem_levelDeltas hb x hx
  · exact of_mem_levelDeltas ha x hx

end MagnumOpus.Aggregator.Bybit
